import LearningMuduo.Tcp.ConnectorSockets

/-! One attempt at a time: what the callers of `start()` and the timers have to respect for
the connector's assertions to hold. -/
namespace LearningMuduo.Tcp.Connector
open Library Reactor
variable {s t : Connector} {op : ConnectorOp}

/-- The loop thread is about to start an attempt or to decide on a retry. -/
def deciding : List ConnectorTask → Nat
  | .startInLoop :: _ | .connect :: _ | .retry _ :: _ | .schedule _ :: _ => 1
  | _ => 0

/-- The attempts that are on their way or under way, with an established connection. -/
def claims (s : Connector) : Nat :=
  s.starting+s.pendingFunctors.count .startInLoop+s.timers+deciding s.todo+
    (if s.state = .kDisconnected then 0 else 1)

/-- No attempt, no connection, no call of `start()` on its way and no retry to come. -/
structure Idle (s : Connector) : Prop where
  state : s.state = .kDisconnected
  starting : s.starting = 0
  queued : .startInLoop ∉ s.pendingFunctors
  timers : s.timers = 0
  todo : deciding s.todo = 0

/-- `start()` is called on an idle connector. What runs `startInLoop` at once, `start()` on the
loop thread, `restart()` and a retry timer, comes after the `resetChannel` of the last attempt. -/
def Orderly (s : Connector) : ConnectorOp → Prop
  | .startFlag => s.Idle
  | .start => s.Idle ∧ s.channel = none
  | .restart | .fire => s.channel = none
  | _ => True

structure Single (s : Connector) : Prop where
  sound : s.Sound
  one : s.claims ≤ 1
  ready : s.todo = [.startInLoop] ∨ s.todo = [.connect] ∨ s.todo = [.restart] → s.channel = none
  behind : ∀ front back, s.pendingFunctors = front ++ .startInLoop :: back → back.filterMap resetTarget = []

private theorem Idle.claims_eq (h : s.Idle) : s.claims = 0 := by
  rw [claims,h.starting,List.count_eq_zero.mpr h.queued,h.timers,h.todo,if_pos h.state]

private theorem count_reset (fs : List ConnectorTask) (k : Nat) :
    (fs ++ [ConnectorTask.resetChannel k]).count .startInLoop = fs.count .startInLoop := by
  rw [List.count_append]
  rfl

private theorem deciding_tail {todo : List ConnectorTask} (h : todo = [] ∨ todo = [.handleWrite]) : deciding todo = 0 := by
  rcases h with rfl | rfl
  · rfl
  · rfl

private theorem Single.count (h : s.Single) {todo : List ConnectorTask} (ht : s.todo = todo) :
    s.starting+s.pendingFunctors.count .startInLoop+s.timers+deciding todo+
      (if s.state = .kDisconnected then 0 else 1) ≤ 1 := by
  rw [← ht]
  exact h.one

private theorem Moves.one (h : s.Single) (ho : s.Orderly op) (hm : s.Moves op t) : t.claims ≤ 1 := by
  have h1 := h.one
  have hd := h.sound.doing
  cases hm with
  | startFlag =>
    have hz := Idle.claims_eq ho
    unfold claims at hz ⊢
    dsimp only
    omega
  | startQueue hn =>
    unfold claims at h1 ⊢
    simp only [List.count_append,List.count_singleton_self] at h1 ⊢
    omega
  | stopFlag => exact h1
  | stopQueue hn =>
    have hcount : (s.pendingFunctors ++ [ConnectorTask.stopInLoop]).count .startInLoop =
        s.pendingFunctors.count .startInLoop := by simp
    unfold claims at h1 ⊢
    dsimp only
    rw [hcount]
    exact h1
  | start ht =>
    have hz := Idle.claims_eq ho.1
    unfold claims at hz ⊢
    simp only [deciding]
    omega
  | restart ht hs =>
    have hcount := h.count ht
    exact hcount
  | fire ht hn =>
    unfold claims at h1 ⊢
    simp only [ht,deciding] at h1 ⊢
    omega
  | event ch revents todo ht hc hs htodo =>
    have hcount := h.count ht
    rcases htodo with rfl | rfl | rfl | rfl
    all_goals exact hcount
  | functor f fs ht hf =>
    unfold claims at h1 ⊢
    rw [ht,hf] at h1
    rcases h.sound.queued f (by rw [hf]; exact List.mem_cons_self) with rfl | rfl | ⟨k,rfl⟩
    all_goals
      simp only [List.count_cons,deciding] at h1 ⊢
      simp at h1 ⊢
      omega
  | startInLoop ht hs =>
    have hcount := h.count ht
    unfold claims
    cases s.connect with
    | true => exact hcount
    | false =>
      simp only [deciding] at hcount
      change s.starting+s.pendingFunctors.count .startInLoop+s.timers+0+(if s.state = .kDisconnected then 0 else 1) ≤ 1
      omega
  | connecting ht hc =>
    have hs : s.state = .kDisconnected := by
      rw [Doing,ht] at hd
      exact hd
    have hcount := h.count ht
    rw [if_pos hs] at hcount
    rw [claims,if_neg (by simp)]
    exact hcount
  | connectRetry ht =>
    have hcount := h.count ht
    unfold claims
    simp only [deciding,if_pos] at hcount ⊢
    omega
  | connectFailed ht =>
    have hcount := h.count ht
    unfold claims
    simp only [deciding] at hcount ⊢
    omega
  | failed ch task todo ht hc hs =>
    unfold claims at h1 ⊢
    rw [if_neg (by rw [hs]; decide)] at h1
    rw [if_pos rfl,count_reset]
    simp only [deciding]
    omega
  | established ch ht hc hs =>
    have hcount := h.count ht
    rw [if_neg (by rw [hs]; decide)] at hcount
    rw [claims,if_neg (by simp),count_reset]
    exact hcount
  | ignored task ht htask hs =>
    have hcount := h.count ht
    rcases htask with rfl | rfl
    · exact hcount
    · exact hcount
  | restarted ht =>
    have hs : s.state = .kConnected := by
      rw [Doing,ht] at hd
      exact hd
    have hcount := h.count ht
    rw [if_neg (by rw [hs]; decide)] at hcount
    rw [claims,if_pos rfl]
    exact hcount
  | connected ht =>
    have hcount := h.count ht
    unfold claims
    cases s.connect with
    | true => exact hcount
    | false => exact hcount
  | newConnection ht | closeUnwanted ht | resetChannel k ht =>
    have hcount := h.count ht
    exact hcount
  | retry k todo ht =>
    have hcount := h.count ht
    unfold claims
    cases s.connect with
    | true => exact hcount
    | false =>
      have hz := deciding_tail (hd.tail ht)
      simp only [deciding] at hcount
      simp only [if_neg (show ¬ false = true by decide)]
      omega
  | schedule k todo ht =>
    have hz := deciding_tail (hd.tail ht)
    have hcount := h.count ht
    unfold claims
    simp only [deciding] at hcount
    dsimp only
    omega

/-- While an attempt or a connection is there, no `startInLoop` is queued. -/
theorem Single.not_queued (h : s.Single) (hs : s.state ≠ .kDisconnected) : .startInLoop ∉ s.pendingFunctors := by
  have h1 := h.one
  rw [claims,if_neg hs] at h1
  exact List.count_eq_zero.mp (by omega)

private theorem behind_concat {fs : List ConnectorTask} {g : ConnectorTask}
    (h : ∀ front back, fs = front ++ .startInLoop :: back → back.filterMap resetTarget = [])
    (hg : resetTarget g = none ∨ .startInLoop ∉ fs) (front back : List ConnectorTask)
    (he : fs ++ [g] = front ++ .startInLoop :: back) : back.filterMap resetTarget = [] := by
  rcases List.eq_nil_or_concat back with rfl | ⟨init,x,rfl⟩
  · rfl
  · rw [List.concat_eq_append] at he ⊢
    have hsplit : fs ++ [g] = (front ++ .startInLoop :: init) ++ [x] := by
      rw [he,List.append_assoc]
      rfl
    obtain ⟨hfs,hx⟩ := List.append_inj' hsplit rfl
    cases hx
    rw [List.filterMap_append,h front init hfs,List.nil_append]
    rcases hg with hg | hg
    · rw [List.filterMap_cons_none hg]
      rfl
    · exact (hg (by rw [hfs]; simp)).elim

private theorem Moves.behind (h : s.Single) (hm : s.Moves op t) (front back : List ConnectorTask)
    (he : t.pendingFunctors = front ++ .startInLoop :: back) : back.filterMap resetTarget = [] := by
  have hb := h.behind
  cases hm with
  | startQueue _ => exact behind_concat hb (.inl rfl) front back he
  | stopQueue _ => exact behind_concat hb (.inl rfl) front back he
  | functor f fs _ hf =>
    refine hb (f :: front) back ?_
    rw [hf]
    exact congrArg (f :: ·) he
  | failed ch task todo _ _ hs =>
    exact behind_concat hb (.inr (h.not_queued (by rw [hs]; decide))) front back he
  | established ch _ _ hs => exact behind_concat hb (.inr (h.not_queued (by rw [hs]; decide))) front back he
  | _ => exact hb front back he

/-- A queued `startInLoop` finds the channel of the last attempt gone. -/
theorem Single.channel_none (h : s.Single) {fs : List ConnectorTask} (ht : s.todo = [])
    (hf : s.pendingFunctors = .startInLoop :: fs) : s.channel = none := by
  have hresets : s.resets = [] := by
    rw [resets,ht,hf,List.nil_append,List.filterMap_cons_none rfl]
    exact h.behind [] fs hf
  cases h.sound.attached with
  | none hc _ _ => exact hc
  | watched ch _ _ _ hs _ =>
    refine (h.not_queued (by rw [hs]; decide) ?_).elim
    rw [hf]
    exact List.mem_cons_self
  | removed ch _ _ _ hr =>
    rw [hresets] at hr
    cases hr

private theorem Moves.ready (h : s.Single) (ho : s.Orderly op) (hm : s.Moves op t)
    (ht' : t.todo = [.startInLoop] ∨ t.todo = [.connect] ∨ t.todo = [.restart]) : t.channel = none := by
  have hr := h.ready
  have hd := h.sound.doing
  cases hm with
  | startFlag => exact hr ht'
  | startQueue _ => exact hr ht'
  | stopFlag => exact hr ht'
  | stopQueue _ => exact hr ht'
  | start _ => exact ho.2
  | restart _ _ => exact ho
  | fire _ _ => exact ho
  | event ch revents todo _ _ _ htodo => rcases htodo with rfl | rfl | rfl | rfl <;> simp at ht'
  | functor f fs ht hf =>
    rcases h.sound.queued f (by rw [hf]; exact List.mem_cons_self) with rfl | rfl | ⟨k,rfl⟩
    · exact h.channel_none ht hf
    · simp at ht'
    · simp at ht'
  | startInLoop ht _ => exact hr (.inl ht)
  | restarted ht => exact hr (.inr (.inr ht))
  | connected ht =>
    exfalso
    cases hc : s.connect <;> simp [hc] at ht'
  | retry k todo ht =>
    exfalso
    rcases hd.tail ht with rfl | rfl <;> cases hc : s.connect <;> simp [hc] at ht'
  | schedule k todo ht =>
    exfalso
    rcases hd.tail ht with rfl | rfl <;> simp at ht'
  | resetChannel _ _ => rfl
  | _ => simp at ht'

private theorem Moves.single (h : s.Single) (ho : s.Orderly op) (hm : s.Moves op t) : t.Single :=
  ⟨hm.sound h.sound,hm.one h ho,hm.ready h ho,hm.behind h⟩

private theorem new_single : new.Single :=
  ⟨new_sound,Nat.zero_le 1,fun _ => rfl,by simp [new]⟩

private theorem step_single (s : Connector) (op : ConnectorOp) (h : s.Single)
    (he : (machine.guard Orderly).Enabled s op) :
    Meets Single (fun _ => False) ((machine.guard Orderly).step s op) := by
  have hsteps := h.sound.steps he.1
  change Meets _ _ (s.step op)
  generalize s.step op = r at hsteps
  cases hsteps with
  | ok t hm => exact hm.single h he.2
  | startInLoop ht hs =>
    have h1 := h.one
    rw [claims,ht,if_neg hs] at h1
    simp only [deciding] at h1
    exact (by omega : ¬ 1 < 2) (by decide)
  | connecting ht hc => exact hc (h.ready (.inr (.inl ht)))

/-- In every orderly run no assertion of the connector fails, at most one socket is open, and
every `resetChannel` that is still to run finds the channel it was queued for. -/
theorem connector_runs_one_attempt (ops : List ConnectorOp) (ha : (machine.guard Orderly).Admissible new ops) :
    ∃ s, machine.exec new ops = .ok s ∧ s.openSockets.length ≤ 1 ∧
      ∀ k, .resetChannel k ∈ s.todo ++ s.pendingFunctors → s.channel.map (fun ch => ch.fd.toNat) = some k := by
  obtain ⟨s,hs,hsingle⟩ := ((machine.guard Orderly).exec_invariant step_single ops new new_single
    ha).ok_of_no_error fun _ => id
  rw [machine.exec_guard] at hs
  refine ⟨s,hs,?_,?_⟩
  · by_cases ho : s.Owns
    · rw [hsingle.sound.books.owned ho]
      rfl
    · rw [hsingle.sound.books.free ho]
      decide
  · intro k hk
    have hmem : k ∈ s.resets := List.mem_filterMap.mpr ⟨_,hk,rfl⟩
    cases hsingle.sound.attached with
    | none _ _ hr =>
      rw [hr] at hmem
      cases hmem
    | watched _ _ _ _ _ hr =>
      rw [hr] at hmem
      cases hmem
    | removed ch hc _ _ hr =>
      rw [hr,List.mem_singleton] at hmem
      rw [hc,hmem]
      rfl

instance (s : Connector) : Decidable s.Idle :=
  decidable_of_iff (s.state = .kDisconnected ∧ s.starting = 0 ∧ .startInLoop ∉ s.pendingFunctors ∧ s.timers = 0 ∧
    deciding s.todo = 0) ⟨fun ⟨h1,h2,h3,h4,h5⟩ => ⟨h1,h2,h3,h4,h5⟩,fun ⟨h1,h2,h3,h4,h5⟩ => ⟨h1,h2,h3,h4,h5⟩⟩

instance (s : Connector) : (op : ConnectorOp) → Decidable (s.Orderly op)
  | .startFlag => inferInstanceAs (Decidable s.Idle)
  | .start => inferInstanceAs (Decidable (_ ∧ _ = _))
  | .restart | .fire => inferInstanceAs (Decidable (_ = _))
  | .startQueue | .stopFlag | .stopQueue | .event _ | .functor | .resume _ => isTrue trivial

private def reply (errno : ConnectErrno) : ConnectorOp := .resume ⟨errno,0,false⟩

/-- `start()` from another thread, up to the attempt. -/
private def startAttempt : List ConnectorOp := [.startFlag,.startQueue,.functor,reply .success,reply .EINPROGRESS]

private def stopAndRestart : List ConnectorOp :=
  startAttempt ++ [.stopFlag,.stopQueue,.functor,reply .success,reply .success,.functor,reply .success] ++ startAttempt

/-- An attempt that is stopped, and a new one after the channel of the first is gone. -/
theorem connector_runs_one_attempt_again : (machine.guard Orderly).Admissible new stopAndRestart ∧
    ∃ s, machine.exec new stopAndRestart = .ok s ∧ s.openSockets.length ≤ 1 ∧
      ∀ k, .resetChannel k ∈ s.todo ++ s.pendingFunctors → s.channel.map (fun ch => ch.fd.toNat) = some k := by
  have ha : (machine.guard Orderly).Admissible new stopAndRestart := by decide +kernel
  exact ⟨ha,connector_runs_one_attempt stopAndRestart ha⟩

private def stopThenStart : List ConnectorOp :=
  startAttempt ++ [.stopFlag,.stopQueue,.startFlag,.startQueue,.functor,reply .success,reply .success,reply .success,
    .functor,reply .success,reply .EINPROGRESS]

/-- `stop()` and `start()` one after the other, while an attempt is under way: `startInLoop`
is queued before the `resetChannel` of `stopInLoop`, and the new attempt meets the old channel. -/
theorem stop_then_start_fails :
    machine.Admissible new stopThenStart ∧ machine.exec new stopThenStart = .error (.assertion .connecting) := by
  decide +kernel

end LearningMuduo.Tcp.Connector
