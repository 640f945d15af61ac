import LearningMuduo.Tcp.TcpClient

/-! After `TcpClient::stop()`: the connector's flag stays cleared and nothing is connected any
more, unless a `restart()` that was already decided sets the flag again. -/
namespace LearningMuduo.Tcp.TcpClient
open Library Reactor Connector
variable {c d : TcpClient} {op : ClientOp} {s t : Connector} {cop : ConnectorOp}

/-- A connection belongs to a connector that is connected and not about to restart. -/
structure Sound (c : TcpClient) : Prop where
  connector : c.connector.Sound
  established : c.connection ≠ none → c.connector.state = .kConnected ∧ c.connector.todo ≠ [.restart]

/-- A new client is sound. -/
theorem new_sound : new.Sound := ⟨Connector.new_sound,fun h => (h rfl).elim⟩

/-- Only `restart()` ends the connected state. -/
theorem stays_connected (h : s.Sound) (hm : s.Moves cop t) (hs : s.state = .kConnected)
    (hr : s.todo ≠ [.restart]) (hop : cop ≠ .restart) : t.state = .kConnected ∧ t.todo ≠ [.restart] := by
  have hd := h.doing
  cases hm with
  | startFlag => exact ⟨hs,hr⟩
  | startQueue _ => exact ⟨hs,hr⟩
  | stopFlag => exact ⟨hs,hr⟩
  | stopQueue _ => exact ⟨hs,hr⟩
  | start _ => exact ⟨hs,by simp⟩
  | restart _ _ => exact (hop rfl).elim
  | fire _ _ => exact ⟨hs,by simp⟩
  | event ch revents todo _ _ hc _ =>
    rw [hs] at hc
    cases hc
  | functor f fs ht hf =>
    rcases h.queued f (by rw [hf]; exact List.mem_cons_self) with rfl | rfl | ⟨k,rfl⟩
    · exact ⟨hs,by simp⟩
    · exact ⟨hs,by simp⟩
    · exact ⟨hs,by simp⟩
  | startInLoop _ hd' =>
    rw [hs] at hd'
    cases hd'
  | connecting ht _ =>
    rw [Doing,ht,hs] at hd
    cases hd
  | connectRetry ht =>
    rw [Doing,ht,hs] at hd
    cases hd
  | connectFailed ht => exact ⟨hs,by simp⟩
  | failed ch task todo _ _ hc =>
    rw [hs] at hc
    cases hc
  | established ch _ _ _ => exact ⟨rfl,by simp⟩
  | ignored _ _ _ _ => exact ⟨hs,by simp⟩
  | restarted ht => exact (hr ht).elim
  | connected ht =>
    refine ⟨hs,?_⟩
    cases s.connect with
    | true => simp
    | false => simp
  | newConnection _ => exact ⟨hs,by simp⟩
  | closeUnwanted _ => exact ⟨hs,by simp⟩
  | retry k todo ht =>
    refine ⟨hs,?_⟩
    rcases hd.tail ht with rfl | rfl
    · cases s.connect with
      | true => simp
      | false => simp
    · cases s.connect with
      | true => simp
      | false => simp
  | schedule k todo ht =>
    refine ⟨hs,?_⟩
    rcases hd.tail ht with rfl | rfl
    · simp
    · simp
  | resetChannel _ _ => exact ⟨hs,by simp⟩

private theorem handed_or (h : s.Sound) (hm : s.Moves cop t) :
    t.handed = s.handed ∨ t.state = .kConnected ∧ t.todo ≠ [.restart] := by
  cases hm with
  | newConnection ht =>
    have hd := h.doing
    rw [Doing,ht] at hd
    exact .inr ⟨hd,by simp⟩
  | _ => exact .inl rfl

/-- How a step of the client shows at its connector. -/
structure Shows (c : TcpClient) (op : ClientOp) (d : TcpClient) (cop : ConnectorOp) : Prop where
  moves : c.connector.Moves cop d.connector
  startFlag : cop = .startFlag → op = .connectStart
  start : cop = .start → op = .connectHere
  resume : ∀ answer, cop = .resume answer → op = .loop (.resume answer)

/-- A step of the connector that succeeds is one of its moves. -/
theorem moves_of_ok (cop : ConnectorOp) (h : s.Sound) (he : s.Enabled cop) (hs : s.step cop = .ok t) : s.Moves cop t := by
  have hsteps := h.steps he
  rw [hs] at hsteps
  cases hsteps with
  | ok _ hm => exact hm

private theorem Sound.of_moves (h : c.Sound) (hm : c.connector.Moves cop d.connector)
    (hc : d.connection = c.connection) (hop : cop ≠ .restart) : d.Sound := by
  refine ⟨hm.sound h.connector,?_⟩
  intro hd
  rw [hc] at hd
  obtain ⟨hs,hr⟩ := h.established hd
  exact stays_connected h.connector hm hs hr hop

/-- What a step of the client shows of its connector. -/
theorem step_shows (op : ClientOp) (h : c.Sound) (he : c.Enabled op) (hs : c.step op = .ok d) :
    d.Sound ∧ (d.connector = c.connector ∨ ∃ cop, Shows c op d cop) := by
  cases op with
  | connectFlag =>
    cases hs
    exact ⟨⟨h.connector,h.established⟩,.inl rfl⟩
  | connectStart =>
    obtain ⟨k,hk,hd⟩ := bind_eq_ok hs
    cases hd
    have hm := moves_of_ok .startFlag h.connector trivial hk
    exact ⟨h.of_moves hm rfl nofun,.inr ⟨_,hm,fun _ => rfl,nofun,nofun⟩⟩
  | connectHere =>
    obtain ⟨k,hk,hd⟩ := bind_eq_ok hs
    cases hd
    have hm := moves_of_ok .start h.connector he.2 hk
    exact ⟨h.of_moves hm rfl nofun,.inr ⟨_,hm,nofun,fun _ => rfl,nofun⟩⟩
  | stopFlag =>
    cases hs
    exact ⟨⟨h.connector,h.established⟩,.inl rfl⟩
  | stopConnector =>
    obtain ⟨k,hk,hd⟩ := bind_eq_ok hs
    cases hd
    have hm := moves_of_ok .stopFlag h.connector trivial hk
    exact ⟨h.of_moves hm rfl nofun,.inr ⟨_,hm,nofun,nofun,nofun⟩⟩
  | disconnect =>
    cases hs
    exact ⟨⟨h.connector,h.established⟩,.inl rfl⟩
  | enableRetry =>
    cases hs
    exact ⟨⟨h.connector,h.established⟩,.inl rfl⟩
  | removeConnection =>
    have hst := (h.established he.2).1
    change c.removeConnection = .ok d at hs
    unfold removeConnection at hs
    dsimp only at hs
    split at hs
    · obtain ⟨k,hk,hd⟩ := bind_eq_ok hs
      cases hd
      have hm := moves_of_ok .restart h.connector ⟨he.1,hst⟩ hk
      exact ⟨⟨hm.sound h.connector,fun hc => (hc rfl).elim⟩,.inr ⟨_,hm,nofun,nofun,nofun⟩⟩
    · cases hs
      exact ⟨⟨h.connector,fun hc => (hc rfl).elim⟩,.inl rfl⟩
  | loop cop =>
    obtain ⟨k,hk,hd⟩ := bind_eq_ok hs
    cases hd
    obtain ⟨hown,hen⟩ := he
    have hm := moves_of_ok cop h.connector hen hk
    have hne : cop ≠ .restart ∧ cop ≠ .startFlag ∧ cop ≠ .start := by
      cases cop <;> simp_all [OwnStep]
    refine ⟨?_,.inr ⟨_,hm,fun he => (hne.2.1 he).elim,fun he => (hne.2.2 he).elim,fun answer ha => by rw [ha]⟩⟩
    rcases handed_or h.connector hm with hh | hh
    · refine h.of_moves hm ?_ hne.1
      change (if k.handed.length = c.connector.handed.length then c.connection else k.handed.getLast?) = _
      rw [hh,if_pos rfl]
    · exact ⟨hm.sound h.connector,fun _ => hh⟩

/-- `restart()` finds the connector's flag still set: no `stop()` has cleared it after
`removeConnection` saw the client's flag set. -/
def Unraced (c : TcpClient) : ClientOp → Prop
  | .loop (.resume _) => c.connector.todo = [.restart] → c.connector.connect = true
  | _ => True

/-- The steps of everyone but a caller of `connect()`. -/
def NotConnect (op : ClientOp) : Prop := op ≠ .connectFlag ∧ op ≠ .connectStart ∧ op ≠ .connectHere

/-- A step of the connector that does not set its flag. -/
def Clearing (s : Connector) (cop : ConnectorOp) : Prop :=
  cop ≠ .startFlag ∧ cop ≠ .start ∧ ∀ answer, cop = .resume answer → s.todo = [.restart] → s.connect = true

/-- What the connector keeps in all such steps, it keeps in a run without `connect()`. -/
theorem exec_clearing {I : Connector → Prop}
    (hI : ∀ s t cop, s.Sound → I s → Clearing s cop → s.Moves cop t → I t) {ops : List ClientOp} (h : c.Sound)
    (hi : I c.connector) (ha : (machine.guard Unraced).Admissible c ops) (hno : ∀ op ∈ ops, NotConnect op)
    (he : machine.exec c ops = .ok d) : d.Sound ∧ I d.connector := by
  refine ((machine.guard Unraced).guard fun _ op => NotConnect op).exec_ok_invariant
    (I := fun c => c.Sound ∧ I c.connector) ?_ ⟨h,hi⟩ (Machine.admissible_guard _ NotConnect c ops ha hno)
    (by rw [Machine.exec_guard,Machine.exec_guard]; exact he)
  rintro c d op ⟨hc,hic⟩ ⟨⟨hen,hun⟩,hnc⟩ hs
  obtain ⟨hd,hsame | ⟨cop,hshow⟩⟩ := step_shows op hc hen hs
  · refine ⟨hd,?_⟩
    rw [hsame]
    exact hic
  · refine ⟨hd,hI _ _ cop hc.connector hic ⟨?_,?_,?_⟩ hshow.moves⟩
    · intro heq
      exact hnc.2.1 (hshow.startFlag heq)
    · intro heq
      exact hnc.2.2 (hshow.start heq)
    · intro answer heq
      rw [hshow.resume answer heq] at hun
      exact hun

private theorem Clearing.connect (hc : Clearing s cop) (hm : s.Moves cop t) (h : s.connect = false) :
    t.connect = false := by
  cases hm with
  | startFlag => exact (hc.1 rfl).elim
  | stopFlag => rfl
  | start _ => exact (hc.2.1 rfl).elim
  | restarted ht =>
    rw [hc.2.2 _ rfl ht] at h
    cases h
  | _ => exact h

/-- With a cleared flag: nothing is being connected or handed over, and nothing has been since
there were n sockets and the ones in l were handed over. -/
private structure Silent (n : Nat) (l : List Nat) (s : Connector) : Prop where
  connect : s.connect = false
  state : s.state ≠ .kConnecting
  todo : s.todo ≠ [.connect] ∧ s.todo ≠ [.connected] ∧ s.todo ≠ [.newConnection] ∧ s.todo ≠ [.closeUnwanted]
  created : s.created = n
  handed : s.handed = l

private theorem Silent.moves {n : Nat} {l : List Nat} (h : Silent n l s) (hs : s.Sound) (hc : Clearing s cop)
    (hm : s.Moves cop t) : Silent n l t := by
  have hconn := hc.connect hm h.connect
  have hd := hs.doing
  obtain ⟨hn1,hn2,hn3,hn4⟩ := h.todo
  have hnone {x : ConnectorTask} (hx : x ≠ .connect ∧ x ≠ .connected ∧ x ≠ .newConnection ∧ x ≠ .closeUnwanted) :
      [x] ≠ [.connect] ∧ [x] ≠ [.connected] ∧ [x] ≠ [.newConnection] ∧ [x] ≠ [.closeUnwanted] := by
    simpa using hx
  cases hm with
  | startFlag => exact (hc.1 rfl).elim
  | startQueue _ => exact ⟨hconn,h.state,h.todo,h.created,h.handed⟩
  | stopFlag => exact ⟨hconn,h.state,h.todo,h.created,h.handed⟩
  | stopQueue _ => exact ⟨hconn,h.state,h.todo,h.created,h.handed⟩
  | start _ => exact (hc.2.1 rfl).elim
  | restart _ _ => exact ⟨hconn,h.state,hnone (by simp),h.created,h.handed⟩
  | fire _ _ => exact ⟨hconn,h.state,hnone (by simp),h.created,h.handed⟩
  | event ch revents todo _ _ hst _ => exact (h.state hst).elim
  | functor f fs ht hf =>
    rcases hs.queued f (by rw [hf]; exact List.mem_cons_self) with rfl | rfl | ⟨k,rfl⟩
    · exact ⟨hconn,h.state,hnone (by simp),h.created,h.handed⟩
    · exact ⟨hconn,h.state,hnone (by simp),h.created,h.handed⟩
    · exact ⟨hconn,h.state,hnone (by simp),h.created,h.handed⟩
  | startInLoop ht _ =>
    refine ⟨hconn,h.state,?_,h.created,h.handed⟩
    dsimp only
    rw [if_neg (by rw [h.connect]; decide)]
    simp
  | connecting ht _ => exact (hn1 ht).elim
  | connectRetry ht => exact (hn1 ht).elim
  | connectFailed ht => exact (hn1 ht).elim
  | failed ch task todo _ _ hst => exact (h.state hst).elim
  | established ch _ _ hst => exact (h.state hst).elim
  | ignored _ _ _ _ => exact ⟨hconn,h.state,by simp,h.created,h.handed⟩
  | restarted ht =>
    have hset := hc.2.2 _ rfl ht
    rw [h.connect] at hset
    cases hset
  | connected ht => exact (hn2 ht).elim
  | newConnection ht => exact (hn3 ht).elim
  | closeUnwanted ht => exact (hn4 ht).elim
  | retry k todo ht =>
    refine ⟨hconn,h.state,?_,h.created,h.handed⟩
    dsimp only
    rw [if_neg (by rw [h.connect]; decide)]
    rcases hd.tail ht with rfl | rfl
    · simp
    · simp
  | schedule k todo ht =>
    refine ⟨hconn,h.state,?_,h.created,h.handed⟩
    rcases hd.tail ht with rfl | rfl
    · simp
    · simp
  | resetChannel _ _ => exact ⟨hconn,h.state,by simp,h.created,h.handed⟩

/-- From the start of `stopInLoop` on. -/
private def Halting (s : Connector) : Prop :=
  s.connect = false ∧ s.todo = [.stopInLoop] ∨ ∃ n l, Silent n l s

private theorem Halting.moves (h : Halting s) (hs : s.Sound) (hc : Clearing s cop) (hm : s.Moves cop t) : Halting t := by
  rcases h with ⟨hconn,ht⟩ | ⟨n,l,hsil⟩
  · have hconn' := hc.connect hm hconn
    cases hm with
    | startFlag => exact (hc.1 rfl).elim
    | startQueue _ => exact .inl ⟨hconn',ht⟩
    | stopFlag => exact .inl ⟨hconn',ht⟩
    | stopQueue _ => exact .inl ⟨hconn',ht⟩
    | failed ch task todo hx _ _ =>
      rw [ht] at hx
      cases hx
      exact .inr ⟨_,_,hconn',nofun,by simp,rfl,rfl⟩
    | ignored task hx _ hne => exact .inr ⟨_,_,hconn',hne,by simp,rfl,rfl⟩
    | _ => simp_all
  · exact .inr ⟨n,l,hsil.moves hs hc hm⟩

private theorem exec_sound {ops : List ClientOp} (ha : machine.Admissible new ops) (he : machine.exec new ops = .ok c) :
    c.Sound := by
  refine machine.exec_ok_invariant ?_ new_sound ha he
  intro c d op hc hen hs
  exact (step_shows op hc hen hs).1

/-- The second statement of `stop()`. -/
theorem stopConnector_cleared (hs : c.step .stopConnector = .ok d) : d.connector.connect = false := by
  obtain ⟨k,hk,hd⟩ := bind_eq_ok hs
  cases hk
  cases hd
  rfl

private theorem functor_halting (hconn : c.connector.connect = false) (ht : c.connector.todo = [])
    (hstop : c.connector.pendingFunctors.head? = some .stopInLoop) (hs : c.step (.loop .functor) = .ok d) :
    Halting d.connector := by
  obtain ⟨fs,hfs⟩ := List.head?_eq_some_iff.mp hstop
  obtain ⟨k,hk,hd⟩ := bind_eq_ok hs
  rw [Connector.step,hfs] at hk
  cases hk
  cases hd
  refine .inl ⟨hconn,?_⟩
  change .stopInLoop :: c.connector.todo = [.stopInLoop]
  rw [ht]

/-- After `stop()` has cleared the connector's flag (in `before`) and a `stopInLoop` that was
in the queue has been run (from c to d, where the handler has ended), and as long as
`connect()` is not called: no socket is created or handed over, and none is open. -/
theorem client_stop_is_final (before cleared stopping after : List ClientOp) (c d e : TcpClient)
    (ha : (machine.guard Unraced).Admissible new
      (before ++ .stopConnector :: cleared ++ .loop .functor :: stopping ++ after))
    (hc : machine.exec new (before ++ .stopConnector :: cleared) = .ok c)
    (hidle : c.connector.todo = []) (hstop : c.connector.pendingFunctors.head? = some .stopInLoop)
    (hd : machine.exec c (.loop .functor :: stopping) = .ok d) (hended : d.connector.todo = [])
    (he : machine.exec d after = .ok e)
    (hno : ∀ op ∈ cleared ++ stopping ++ after, NotConnect op) :
    e.connector.created = d.connector.created ∧ e.connector.handed = d.connector.handed ∧
      e.connector.openSockets = [] := by
  have hcd : machine.exec new (before ++ .stopConnector :: cleared ++ .loop .functor :: stopping) = .ok d :=
    (machine.exec_append_ok hc _).trans hd
  obtain ⟨had,hafter⟩ := (machine.guard Unraced).admissible_append ha ((machine.exec_guard _ _ _).trans hcd)
  obtain ⟨hac,hstopping⟩ := (machine.guard Unraced).admissible_append had ((machine.exec_guard _ _ _).trans hc)
  rw [machine.exec_append] at hc
  obtain ⟨c₀,hc₀,hrest⟩ := bind_eq_ok hc
  obtain ⟨hbefore,hcall⟩ := (machine.guard Unraced).admissible_append hac ((machine.exec_guard _ _ _).trans hc₀)
  have hs₀ := exec_sound (machine.admissible_of_guard hbefore) hc₀
  -- the flag is cleared, and stays so
  obtain ⟨c₁,hc₁,hcleared⟩ := bind_eq_ok hrest
  have hs₁ := (step_shows .stopConnector hs₀ hcall.1.1 hc₁).1
  have hrun₁ := (machine.guard Unraced).admissible_step hcall hc₁
  obtain ⟨hsc,hconn⟩ := exec_clearing (I := fun s => s.connect = false) (fun _ _ _ _ h hc hm => hc.connect hm h) hs₁
    (stopConnector_cleared hc₁) hrun₁ (fun op hop => hno op (by simp [hop])) hcleared
  -- `stopInLoop` leaves no attempt behind
  obtain ⟨c₂,hc₂,hrun⟩ := bind_eq_ok hd
  have hs₂ := (step_shows (.loop .functor) hsc hstopping.1.1 hc₂).1
  have hrun₂ := (machine.guard Unraced).admissible_step hstopping hc₂
  obtain ⟨hsd,hhalt⟩ := exec_clearing (fun _ _ _ hs h hc hm => Halting.moves h hs hc hm) hs₂
    (functor_halting hconn hidle hstop hc₂) hrun₂ (fun op hop => hno op (by simp [hop])) hrun
  have hsilent : Silent d.connector.created d.connector.handed d.connector := by
    rcases hhalt with ⟨-,ht⟩ | ⟨n,l,hsil⟩
    · rw [hended] at ht
      cases ht
    · exact ⟨hsil.connect,hsil.state,hsil.todo,rfl,rfl⟩
  obtain ⟨hse,hfinal⟩ := exec_clearing (fun _ _ _ hs h hc hm => Silent.moves h hs hc hm) hsd hsilent hafter
    (fun op hop => hno op (by simp [hop])) he
  refine ⟨hfinal.created,hfinal.handed,hse.connector.books.free ?_⟩
  rintro (hx | hx | hx | hx)
  · exact hfinal.state hx
  · exact hfinal.todo.2.1 hx
  · exact hfinal.todo.2.2.1 hx
  · exact hfinal.todo.2.2.2 hx

instance (c : TcpClient) : (op : ClientOp) → Decidable (c.Unraced op)
  | .loop (.resume _) => inferInstanceAs (Decidable (_ → _))
  | .loop .startFlag | .loop .startQueue | .loop .stopFlag | .loop .stopQueue | .loop .start | .loop .restart
  | .loop .fire | .loop (.event _) | .loop .functor => isTrue trivial
  | .connectFlag | .connectStart | .connectHere | .stopFlag | .stopConnector | .disconnect | .enableRetry
  | .removeConnection => isTrue trivial

instance : DecidablePred NotConnect := fun _ => inferInstanceAs (Decidable (_ ∧ _))

private def turn (errno : ConnectErrno) : ClientOp := .loop (.resume ⟨errno,0,false⟩)

private def connectAttempt : List ClientOp :=
  [.connectFlag,.connectStart,.loop .startQueue,.loop .functor,turn .success,turn .EINPROGRESS]

/-- `stop()` while an attempt is under way. -/
theorem client_stop_is_final_connecting :
    (machine.guard Unraced).Admissible new ((connectAttempt ++ [.stopFlag]) ++ .stopConnector :: [.loop .stopQueue] ++
      .loop .functor :: [turn .success,turn .success] ++ [.loop .functor,turn .success]) ∧
    ∃ c d e : TcpClient,
      machine.exec new ((connectAttempt ++ [.stopFlag]) ++ .stopConnector :: [.loop .stopQueue]) = .ok c ∧
      machine.exec c (.loop .functor :: [turn .success,turn .success]) = .ok d ∧
      machine.exec d [.loop .functor,turn .success] = .ok e ∧
      e.connector.created = d.connector.created ∧ e.connector.handed = d.connector.handed ∧
      e.connector.openSockets = [] := by
  have ha : (machine.guard Unraced).Admissible new ((connectAttempt ++ [.stopFlag]) ++ .stopConnector ::
      [.loop .stopQueue] ++ .loop .functor :: [turn .success,turn .success] ++ [.loop .functor,turn .success]) := by
    decide +kernel
  obtain ⟨c,hc,hidle,hstop,hrest⟩ : ∃ c, machine.exec new ((connectAttempt ++ [.stopFlag]) ++ .stopConnector ::
      [.loop .stopQueue]) = .ok c ∧ c.connector.todo = [] ∧
      c.connector.pendingFunctors.head? = some .stopInLoop ∧
      Meets (fun d => d.connector.todo = [] ∧
        Meets (fun _ => True) (fun _ => False) (machine.exec d [.loop .functor,turn .success])) (fun _ => False)
        (machine.exec c (.loop .functor :: [turn .success,turn .success])) :=
    Meets.ok_of_no_error (Q := fun _ => False) (by decide +kernel) (fun _ => id)
  obtain ⟨d,hd,hended,hlast⟩ := hrest.ok_of_no_error fun _ => id
  obtain ⟨e,he,-⟩ := hlast.ok_of_no_error fun _ => id
  exact ⟨ha,c,d,e,hc,hd,he,client_stop_is_final _ _ _ _ c d e ha hc hidle hstop hd hended he
    (List.forall_iff_forall_mem.mp (by decide))⟩

/-- A connection that is established and then lost, with retry enabled: the client's flag is
tested before `stop()` clears it. -/
private def lostConnection : List ClientOp :=
  .enableRetry :: connectAttempt ++ [.loop (.event POLLOUT),turn .success,turn .success,turn .success,
    .loop .functor,turn .success,.removeConnection,.stopFlag]

/-- `stop()` returns and then `restart()` sets the flag and connects. -/
private def racedRestart : List ClientOp := [.loop .stopQueue,turn .success,turn .success,turn .EINPROGRESS]

private def racedStopInLoop : List ClientOp := [turn .success,turn .success,turn .success]

private def reconnection : List ClientOp :=
  [.loop .functor,turn .success,.loop .fire,turn .success,turn .EINPROGRESS,
    .loop (.event POLLOUT),turn .success,turn .success,turn .success]

/-- `stopInLoop` cancels the attempt of `restart()`, but its `retry` finds the flag set again:
the timer fires, a new socket is connected and `newConnection` is invoked. -/
theorem stopped_client_reconnects :
    machine.Admissible new (lostConnection ++ .stopConnector :: racedRestart ++ .loop .functor :: racedStopInLoop ++
      reconnection) ∧
    (∀ op ∈ racedRestart ++ racedStopInLoop ++ reconnection, NotConnect op) ∧
    ∃ c, machine.exec new (lostConnection ++ .stopConnector :: racedRestart) = .ok c ∧
      c.connector.todo = [] ∧ c.connector.pendingFunctors.head? = some .stopInLoop ∧
      ∃ d, machine.exec c (.loop .functor :: racedStopInLoop) = .ok d ∧ d.connector.todo = [] ∧
        ∃ e, machine.exec d reconnection = .ok e ∧
          e.connector.created ≠ d.connector.created ∧ e.connector.handed ≠ d.connector.handed := by
  refine ⟨by decide +kernel,by decide +kernel,?_⟩
  obtain ⟨c,hc,hidle,hstop,hrest⟩ : ∃ c, machine.exec new (lostConnection ++ .stopConnector :: racedRestart) = .ok c ∧
      c.connector.todo = [] ∧ c.connector.pendingFunctors.head? = some .stopInLoop ∧
      Meets (fun d => d.connector.todo = [] ∧ Meets (fun e => e.connector.created ≠ d.connector.created ∧
        e.connector.handed ≠ d.connector.handed) (fun _ => False) (machine.exec d reconnection)) (fun _ => False)
        (machine.exec c (.loop .functor :: racedStopInLoop)) :=
    Meets.ok_of_no_error (Q := fun _ => False) (by decide +kernel) (fun _ => id)
  obtain ⟨d,hd,hended,hlast⟩ := hrest.ok_of_no_error fun _ => id
  exact ⟨c,hc,hidle,hstop,d,hd,hended,hlast.ok_of_no_error fun _ => id⟩

end LearningMuduo.Tcp.TcpClient
