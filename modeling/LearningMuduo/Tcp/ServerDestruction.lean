import LearningMuduo.Tcp.ServerConnections

/-! What has become of a connection's channel when the last `shared_ptr` to it goes. -/
namespace LearningMuduo.Tcp
open Library Reactor

namespace Session
variable {s u : Session}

/-- The assertions of `~Channel`: it is in no poller, and no event of it is being handled. -/
def ChannelRemoved (s : Session) : Prop :=
  s.conn.channel.index = kNew ∧ s.conn.channel.addedToLoop = false ∧ s.dispatching = []

/-- A connection on which only `forceClose` is called. It leaves the map for `connectDestroyed`,
and a channel registered after that has a removal pending. -/
structure Settled (s : Session) : Prop where
  calls : ∀ t p, s.calls t = some p → p = .forceClose ∨ p = .queue .forceCloseInLoop
  queue : ∀ f ∈ s.ioQueue, f = .forceCloseInLoop ∨ f = .connectDestroyed
  quiet : ¬ s.conn.channel.isWriting
  entered : s.present = true → s.destroyed = 0 ∧ .connectDestroyed ∉ s.ioQueue
  left : s.present = false → s.destroyed ≠ 0 ∨ .connectDestroyed ∈ s.ioQueue
  removed : s.destroyed ≠ 0 → s.removals ≠ 0 ∨ s.ChannelRemoved
  connecting : s.conn.state = .kConnecting → s.destroyed = 0

private theorem Settled.frame (h : s.Settled) (hcalls : ∀ t p, u.calls t = some p → p = .forceClose ∨ p = .queue .forceCloseInLoop)
    (hq : u.ioQueue = s.ioQueue) (hc : u.conn.channel = s.conn.channel) (hp : u.present = s.present)
    (hd : u.destroyed = s.destroyed) (hr : u.removals = s.removals) (hdis : u.dispatching = s.dispatching)
    (hstate : u.conn.state = .kConnecting → s.conn.state = .kConnecting) : u.Settled := by
  refine ⟨hcalls,by rw [hq]; exact h.queue,by rw [hc]; exact h.quiet,?_,?_,?_,fun hs => hd.trans (h.connecting (hstate hs))⟩
  · rw [hp,hd,hq]
    exact h.entered
  · rw [hp,hd,hq]
    exact h.left
  · rw [ChannelRemoved,hd,hr,hc,hdis]
    exact h.removed

private theorem not_isWriting_disableAll (ch : Channel ConnHandler) : ¬ (ch.setInterest .disableAll).updated.isWriting := by
  change ¬ Mask.Has kNoneEvent kWriteEvent
  decide

private theorem handleClose_settled (h : s.Settled) : Meets Settled (fun _ => True) s.handleClose := by
  have hquiet := not_isWriting_disableAll s.conn.channel
  refine handleClose_spec.mono ?_ fun _ _ => trivial
  rintro u ⟨-,⟨-,rfl⟩ | ⟨-,hp,rfl⟩⟩
  · exact ⟨h.calls,h.queue,hquiet,h.entered,h.left,fun _ => .inl (Nat.succ_ne_zero _),h.connecting⟩
  · refine ⟨h.calls,?_,hquiet,nofun,fun _ => .inr (by simp [forgotten]),?_,h.connecting⟩
    · intro f hf
      rcases List.mem_append.mp hf with hf | hf
      · exact h.queue f hf
      · exact .inr (List.mem_singleton.mp hf)
    · intro hd
      exact (hd (h.entered hp).1).elim

private theorem removeConnectionInLoop_settled (h : s.Settled) :
    Meets Settled (fun _ => True) ({ s with removals := s.removals-1 } : Session).removeConnectionInLoop := by
  refine removeConnectionInLoop_spec.mono ?_ fun _ _ => trivial
  rintro u ⟨hp,rfl⟩
  refine ⟨h.calls,?_,h.quiet,nofun,fun _ => .inr (by simp [forgotten]),fun hd => (hd (h.entered hp).1).elim,h.connecting⟩
  intro f hf
  rcases List.mem_append.mp hf with hf | hf
  · exact h.queue f hf
  · exact .inr (List.mem_singleton.mp hf)

private theorem handleRead_settled (h : s.Settled) (r : ReadvResult) : Meets Settled (fun _ => True) (s.handleRead r) := by
  refine Meets.bind (meets_true _) ?_
  rintro ⟨b,n,errno⟩ -
  have hin : (s.setInput b).Settled := h.frame h.calls rfl rfl rfl rfl rfl rfl id
  dsimp only
  split
  · exact handleClose_settled hin
  · exact hin

private theorem settled_handleWrite (h : s.Settled) (n : Int) : s.handleWrite n = .ok s :=
  if_neg fun hw => h.quiet hw.1

private theorem runHandler_settled (h : s.Settled) (handler : ConnHandler) (r : ReadvResult) (n : Int) :
    Meets Settled (fun _ => True) (s.runHandler r n handler) := by
  cases handler with
  | handleRead => exact handleRead_settled h r
  | handleWrite =>
    rw [runHandler,settled_handleWrite h]
    exact h
  | handleClose => exact handleClose_settled h
  | handleError => exact h

private theorem handler_settled (h : s.Settled) {r : ReadvResult} {n : Int} (he : s.Enabled (.handler r n)) :
    Meets Settled (fun _ => True) (s.code (.handler r n)) := by
  have hanswer := he.2
  rw [code]
  cases hd : s.dispatching with
  | nil => exact h
  | cons handler rest =>
    refine runHandler_settled (s := { s with dispatching := rest })
      ⟨h.calls,h.queue,h.quiet,h.entered,h.left,?_,h.connecting⟩ handler r n
    -- a removed channel has no event to handle
    intro hdestroyed
    refine .inl ((h.removed hdestroyed).resolve_right fun hremoved => ?_)
    rw [hremoved.2.2] at hd
    cases hd

private theorem functor_settled (h : s.Settled) {n : Int} (he : s.Enabled (.functor n)) :
    Meets Settled (fun _ => True) (s.code (.functor n)) := by
  obtain ⟨-,hdis,-⟩ := he
  rw [code]
  cases hq : s.ioQueue with
  | nil => exact h
  | cons f rest =>
    have hqueue : ∀ g ∈ rest, g = .forceCloseInLoop ∨ g = .connectDestroyed :=
      fun g hg => h.queue g (by rw [hq]; exact List.mem_cons_of_mem f hg)
    have hentered (hp : s.present = true) : s.destroyed = 0 ∧ .connectDestroyed ∉ rest := by
      obtain ⟨hd,hno⟩ := h.entered hp
      rw [hq] at hno
      exact ⟨hd,fun hm => hno (List.mem_cons_of_mem f hm)⟩
    rcases h.queue f (by rw [hq]; exact List.mem_cons_self) with rfl | rfl
    · have hrest : ({ s with ioQueue := rest } : Session).Settled := by
        refine ⟨h.calls,hqueue,h.quiet,hentered,?_,h.removed,h.connecting⟩
        intro hp
        have hleft := h.left hp
        rw [hq] at hleft
        simpa using hleft
      change Meets _ _ (if _ then _ else _)
      split
      · exact handleClose_settled hrest
      · exact hrest
    · refine connectDestroyed_spec.mono ?_ fun _ _ => trivial
      rintro u ⟨-,rfl⟩
      refine ⟨h.calls,hqueue,not_isWriting_disableAll s.conn.channel,?_,fun _ => .inl (Nat.succ_ne_zero _),
        fun _ => .inr ⟨rfl,rfl,hdis⟩,nofun⟩
      intro hp
      have hno := (h.entered hp).2
      rw [hq] at hno
      exact (hno List.mem_cons_self).elim

private theorem call_settled (h : s.Settled) (t : Nat) : (s.call t .forceClose).Settled := by
  rw [call]
  split
  · exact h.frame (setCall_forall (P := fun _ c => ∀ p, c = some p → p = .forceClose ∨ p = .queue .forceCloseInLoop)
      h.calls (fun p hp => .inl (Option.some.inj hp).symm)) rfl rfl rfl rfl rfl rfl id
  · exact h

private theorem resume_settled (h : s.Settled) (t : Nat) (n : Int) : Meets Settled (fun _ => True) (s.resume t n) := by
  have hset {c : Option CallPoint} (hc : ∀ p, c = some p → p = .forceClose ∨ p = .queue .forceCloseInLoop) :
      ∀ v p, (s.setCall t c).calls v = some p → p = .forceClose ∨ p = .queue .forceCloseInLoop :=
    setCall_forall (P := fun _ c => ∀ p, c = some p → p = .forceClose ∨ p = .queue .forceCloseInLoop) h.calls hc
  rw [resume]
  cases hc : s.calls t with
  | none => exact h
  | some p =>
    rcases h.calls t p hc with rfl | rfl
    · exact h.frame (hset fun p hp => .inr (Option.some.inj hp).symm) rfl rfl rfl rfl rfl rfl nofun
    · have hidle : (s.setCall t none).Settled := h.frame (hset nofun) rfl rfl rfl rfl rfl rfl id
      refine ⟨hidle.calls,?_,h.quiet,?_,?_,h.removed,h.connecting⟩
      · intro f hf
        rcases List.mem_append.mp hf with hf | hf
        · exact h.queue f hf
        · exact .inl (List.mem_singleton.mp hf)
      · intro hp
        obtain ⟨hd,hno⟩ := h.entered hp
        exact ⟨hd,by simpa [queueInLoop,setCall] using hno⟩
      · intro hp
        exact (h.left hp).imp id fun hm => List.mem_append_left _ hm

private theorem code_settled (h : s.Settled) {a : ConnStep} (he : s.Enabled a)
    (hf : ∀ t c, a = .call t c → c = .forceClose) : Meets Settled (fun _ => True) (s.code a) := by
  cases a with
  | call t c =>
    rw [hf t c rfl]
    exact call_settled h t
  | resume t n => exact resume_settled h t n
  | event revents =>
    refine ⟨h.calls,h.queue,h.quiet,h.entered,h.left,fun hd => .inl ?_,h.connecting⟩
    -- only a registered channel is reported
    refine (h.removed hd).resolve_right fun hremoved => ?_
    have hadded := he.2.2.1
    rw [hremoved.1] at hadded
    exact absurd hadded (by decide)
  | handler r n => exact handler_settled h he
  | functor n => exact functor_settled h he
  | handleWrite n =>
    rw [code,settled_handleWrite h]
    exact h
  | removeConnectionInLoop => exact removeConnectionInLoop_settled h
  | input op =>
    apply Meets.map
    refine (meets_true _).mono (fun out _ => ?_) fun _ _ => trivial
    exact h.frame h.calls rfl rfl rfl rfl rfl rfl id
  | setWriteCompleteCallback cb => exact h.frame h.calls rfl rfl rfl rfl rfl rfl id
  | setHighWaterMarkCallback cb mark => exact h.frame h.calls rfl rfl rfl rfl rfl rfl id

private theorem new_settled (owner : Owner) (loopThread : Nat) (sockfd : Int) (mark : Nat) :
    (new owner loopThread sockfd mark).Settled :=
  ⟨nofun,nofun,by change ¬ Mask.Has 0 kWriteEvent; decide,fun _ => ⟨rfl,List.not_mem_nil⟩,nofun,fun hd => (hd rfl).elim,fun _ => rfl⟩

private theorem connectEstablished_settled (h : s.Settled) : Meets Settled (fun _ => True) s.connectEstablished := by
  refine Meets.bind (meets_require fun _ => trivial) fun _ hstate => ?_
  have hzero := h.connecting hstate
  have hset : ((s.setState .kConnected).interest .enableReading).Settled := by
    refine ⟨h.calls,h.queue,?_,h.entered,h.left,fun hd => (hd hzero).elim,nofun⟩
    exact Mask.not_has_or h.quiet (by decide)
  change Settled (if _ then _ else _)
  split
  · exact hset
  · exact hset.frame hset.calls rfl rfl rfl rfl rfl rfl id

end Session

namespace Lifetime
variable {l : Lifetime}

private theorem step_settled (h : l.session.Settled) {a : LifeStep} (he : machine.Enabled l a) (hf : a.ForcesOnly) :
    Meets (fun u => u.session.Settled) (fun _ => True) (l.code a) := by
  cases a with
  | connectEstablished => exact (Session.connectEstablished_settled h).bind fun s hs => hs
  | take t | drop t | swap | endBatch | endRemovals => exact h
  | conn a =>
    obtain ⟨f,hs,hcode⟩ := l.code_conn a
    have hforce (t : Nat) (c : Call) (ha : a = .call t c) : c = .forceClose := by
      rw [ha] at hf
      exact hf
    rw [hcode]
    refine (Session.code_settled h (conn_enabled he) hforce).bind fun s hset => ?_
    change (f s).session.Settled
    rw [hs]
    exact hset

private theorem new_settled (owner : Owner) (loopThread : Nat) (sockfd : Int) (mark : Nat) :
    (new owner loopThread sockfd mark).session.Settled := by
  have hn := Session.new_settled owner loopThread sockfd mark
  have he := Session.connectEstablished_settled hn
  rw [Session.connectEstablished_new] at he
  rw [new]
  split
  · exact hn
  · exact he

/-- The last `shared_ptr` has gone. -/
theorem removed_of_dead (h : l.session.Settled) (hdead : ¬ l.Alive) :
    l.session.destroyed ≠ 0 ∧ l.session.ChannelRemoved := by
  simp only [Alive,not_or] at hdead
  obtain ⟨hpresent,hremovals,-,-,hqueue,-⟩ := hdead
  have hdestroyed : l.session.destroyed ≠ 0 := by
    refine (h.left (Bool.not_eq_true _ ▸ hpresent)).resolve_right fun hm => ?_
    exact hqueue ⟨.connectDestroyed,hm,rfl⟩
  exact ⟨hdestroyed,(h.removed hdestroyed).resolve_left hremovals⟩

end Lifetime

namespace Serving

/-- The server is destroyed with an empty `connections_`. -/
def DestroysEmpty (s : Serving) : ServerOp → Prop
  | .destroy => ∀ l ∈ s.connections, l.session.present = false
  | _ => True

instance (s : Serving) : (op : ServerOp) → Decidable (s.DestroysEmpty op)
  | .destroy => inferInstanceAs (Decidable (∀ l ∈ s.connections, _))
  | .accept _ _ | .connection _ _ => isTrue trivial

private def Orderly (s : Serving) : Prop := ∀ l ∈ s.connections, l.session.Settled

private theorem accept_orderly {s : Serving} (h : s.Orderly) (sockfd : Int) (mark : Nat) :
    Meets Orderly (fun _ => True) (s.code (.accept sockfd mark)) := by
  rw [code,TcpServer.newConnection]
  dsimp only
  rw [Lifetime.start_new]
  intro l hl
  rcases List.mem_append.mp hl with hl | hl
  · exact h l hl
  · rw [List.mem_singleton.mp hl]
    exact Lifetime.new_settled _ _ _ _

private theorem step_orderly (s : Serving) (op : ServerOp) (h : s.Orderly) (he : (machine.guard DestroysEmpty).Enabled s op) :
    Meets Orderly (fun _ => True) (machine.step s op) := by
  obtain ⟨he,hg⟩ := he
  cases op with
  | accept sockfd mark => exact accept_orderly h sockfd mark
  | connection i a =>
    obtain ⟨l,hl,he,hf⟩ := he
    have hl : s.connections[i]? = some l := hl
    change Meets _ _ (s.code (.connection i a))
    rw [code,hl]
    have hstep := Lifetime.step_settled (h l (List.mem_of_getElem? hl)) he hf
    refine Meets.bind (Meets.mapError hstep) fun u hu => Meets.bind (meets_require fun _ => trivial) fun _ _ => ?_
    intro v hv
    rcases List.mem_or_eq_of_mem_set hv with hv | rfl
    · exact h v hv
    · exact hu
  | destroy =>
    rintro u hu
    obtain ⟨l,hl,rfl⟩ := List.mem_map.mp hu
    have hs := h l hl
    have hleft := hs.left (hg l hl)
    exact ⟨hs.calls,hs.queue,hs.quiet,nofun,fun _ => hleft,hs.removed,hs.connecting⟩

/-- In every run in which the server is destroyed with an empty `connections_`, a connection to
which no `shared_ptr` is left has run `connectDestroyed`, and its channel is in no poller. -/
theorem dead_connections_are_removed (loop : Nat) (loops : List Nat) (ops : List ServerOp) (s : Serving)
    (ha : (machine.guard DestroysEmpty).Admissible (new loop loops) ops) (hs : machine.exec (new loop loops) ops = .ok s) :
    ∀ l ∈ s.connections, ¬ l.Alive → l.session.destroyed ≠ 0 ∧ l.session.ChannelRemoved := by
  rw [← machine.exec_guard DestroysEmpty] at hs
  have hrun := (machine.guard DestroysEmpty).exec_invariant step_orderly ops _ (fun l hl => (List.not_mem_nil hl).elim) ha
  rw [hs] at hrun
  intro l hl hdead
  exact Lifetime.removed_of_dead (hrun l hl) hdead

/-- An I/O loop establishes the connection, the peer closes it, both loops take it apart, and
then the server is destroyed. -/
private def closedBefore : List ServerOp :=
  .accept 5 64 :: ([.swap,.connectEstablished,.endBatch,.conn (.event POLLIN),.conn (.handler (.received []) 0),
    .conn .removeConnectionInLoop,.endRemovals,.swap,.conn (.functor 0),.endBatch].map (.connection 0)) ++ [.destroy]

/-- The peer closes a connection before the server is destroyed. -/
theorem dead_connections_are_removed_closed : ∃ s, (machine.guard DestroysEmpty).Admissible (new 0 [7,8]) closedBefore ∧
    machine.exec (new 0 [7,8]) closedBefore = .ok s ∧ (∃ l ∈ s.connections, ¬ l.Alive) ∧
    ∀ l ∈ s.connections, ¬ l.Alive → l.session.destroyed ≠ 0 ∧ l.session.ChannelRemoved := by
  have ha : (machine.guard DestroysEmpty).Admissible (new 0 [7,8]) closedBefore := by decide +kernel
  obtain ⟨s,hs,hdead⟩ : ∃ s, machine.exec (new 0 [7,8]) closedBefore = .ok s ∧ ∃ l ∈ s.connections, ¬ l.Alive :=
    Meets.ok_of_no_error (Q := fun _ => False) (by decide +kernel) (fun _ => id)
  exact ⟨s,ha,hs,hdead,dead_connections_are_removed 0 [7,8] closedBefore s ha hs⟩

private def destroyedAtOnce : List ServerOp := [.accept 5 64,.destroy]

/-- The server is destroyed with a live connection: the connection goes with the map while
its channel is registered. -/
theorem destroyed_server_leaves_channel : machine.Admissible (new 0 []) destroyedAtOnce ∧
    ∃ s, machine.exec (new 0 []) destroyedAtOnce = .ok s ∧ ∃ l ∈ s.connections, ¬ l.Alive ∧
      l.session.destroyed = 0 ∧ l.session.conn.channel.index = kAdded ∧ l.session.conn.channel.addedToLoop = true := by
  refine ⟨by decide +kernel,?_⟩
  exact Meets.ok_of_no_error (Q := fun _ => False) (by decide +kernel) (fun _ => id)

end Serving
end LearningMuduo.Tcp
