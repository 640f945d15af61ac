import LearningMuduo.Reactor.PendingFunctors

/-! The wakeup eventfd against the phases of the loop: when a blocked loop is sure
to see its pending functors. -/
namespace LearningMuduo.Reactor.EventLoop
open Library
variable {φ : Type} {l : EventLoop φ}

/-- A loop blocked in `poll` with functors pending, and no caller still inside
`queueInLoop`, has a readable eventfd. -/
def NoLostWakeup (l : EventLoop φ) : Prop :=
  l.phase = .polling → l.callers = [] → l.pendingFunctors ≠ [] → l.wakeupCounter ≠ 0

/-- The loop's own thread calls `queueInLoop` only from an event handler or from a
functor of the running batch, never outside `loop()`. -/
def CallsInside (l : EventLoop φ) : LoopStep φ → Prop
  | .queueInLoop t _ => l.isInLoopThread t →
      l.eventHandling = true ∨ l.callingPendingFunctors = true
  | _ => True

instance (l : EventLoop φ) : (a : LoopStep φ) → Decidable (l.CallsInside a)
  | .queueInLoop t _ => inferInstanceAs (Decidable (l.isInLoopThread t →
      l.eventHandling = true ∨ l.callingPendingFunctors = true))
  | .runInLoop .. | .leaveQueueInLoop _ | .quit _ | .leaveQuit _ | .loop | .test | .pollReturn _
  | .dispatch | .endEvents | .swap | .run | .endBatch => isTrue trivial

/-- The loop thread reaches the swap before it polls again. -/
def WillSwap (l : EventLoop φ) : Prop := (∃ active, l.phase = .handling active) ∨ l.phase = .swapping

/-- Some caller has pushed and is still going to write the eventfd. -/
def WillWake (l : EventLoop φ) : Prop :=
  ∃ t ∈ l.callers, ¬ l.isInLoopThread t ∨ l.callingPendingFunctors = true

def Attended (l : EventLoop φ) : Prop :=
  l.pendingFunctors ≠ [] → l.wakeupCounter ≠ 0 ∨ l.WillSwap ∨ l.WillWake

private theorem wakeup_counter (l : EventLoop φ) : l.wakeup.wakeupCounter ≠ 0 := by
  have hmax : 0 < eventfdMax := by decide
  simp only [wakeup]
  split <;> omega

private theorem pushBack_attended (t : Nat) (f : φ)
    (h : l.isInLoopThread t → l.WillSwap ∨ l.callingPendingFunctors = true) :
    (l.pushBack t f).Attended := by
  intro _
  by_cases ht : l.isInLoopThread t
  · rcases h ht with hs | hc
    · exact .inr (.inl hs)
    · exact .inr (.inr ⟨t,List.mem_cons_self,.inr hc⟩)
  · exact .inr (.inr ⟨t,List.mem_cons_self,.inl ht⟩)

private theorem leaveQueueInLoop_attended (h : l.Attended) (t : Nat) :
    (l.leaveQueueInLoop t).Attended := by
  unfold leaveQueueInLoop
  split
  · intro _
    exact .inl (wakeup_counter _)
  · rename_i hno
    intro hp
    rcases h hp with hc | hs | ⟨u,hu,hw⟩
    · exact .inl hc
    · exact .inr (.inl hs)
    · -- the leaving thread is the loop's own, so the caller that will wake is another
      have hne : u ≠ t := by
        rintro rfl
        exact hno hw
      exact .inr (.inr ⟨u,(List.mem_erase_of_ne hne).mpr hu,hw⟩)

private theorem Attended.of_eq {m : EventLoop φ} (h : l.Attended)
    (hq : m.pendingFunctors = l.pendingFunctors) (hn : l.wakeupCounter ≠ 0 → m.wakeupCounter ≠ 0)
    (hs : l.WillSwap → m.WillSwap) (hw : l.WillWake → m.WillWake) : m.Attended := by
  intro hp
  rw [hq] at hp
  rcases h hp with hc | h1 | h2
  · exact .inl (hn hc)
  · exact .inr (.inl (hs h1))
  · exact .inr (.inr (hw h2))

private theorem not_willSwap {p : LoopPhase φ} (hp : l.phase = p) (h1 : ∀ active, p ≠ .handling active)
    (h2 : p ≠ .swapping) : ¬ l.WillSwap := by
  rintro (⟨active,h⟩ | h)
  · exact h1 active (hp.symm.trans h)
  · exact h2 (hp.symm.trans h)

private theorem code_attended (hf : l.Flags) (h : l.Attended) {a : LoopStep φ} (he : l.Enabled a)
    (hc : l.CallsInside a) : Meets Attended (fun _ => True) (l.code a) := by
  cases a with
  | queueInLoop t f =>
    apply pushBack_attended
    intro ht
    exact (hc ht).imp (fun hh => .inl (hf.handling.mp hh)) id
  | runInLoop t f =>
    change Attended (if _ then _ else _)
    split
    · exact h
    · rename_i ht
      exact pushBack_attended t f (fun ht' => (ht ht').elim)
  | leaveQueueInLoop t => exact leaveQueueInLoop_attended h t
  | quit t =>
    change Attended (if _ then _ else _)
    split <;> exact h.of_eq rfl id id id
  | leaveQuit t =>
    intro _
    exact .inl (wakeup_counter _)
  | loop =>
    have hp := LoopPhase.point_outside he.2
    have hns := not_willSwap hp (by simp) (by simp)
    rw [code,require_pos (hf.looping.mpr hp)]
    exact h.of_eq rfl id (fun hs => (hns hs).elim) id
  | test =>
    have hp := LoopPhase.point_test he
    have hns := not_willSwap hp (by simp) (by simp)
    change Attended (if _ then _ else _)
    split <;> exact h.of_eq rfl id (fun hs => (hns hs).elim) id
  | pollReturn active =>
    intro _
    exact .inr (.inl (.inl ⟨active,rfl⟩))
  | dispatch =>
    obtain ⟨c,active,hp⟩ := LoopPhase.point_dispatching he.2
    rw [code,hp]
    cases c with
    | wakeup => exact fun _ => .inr (.inl (.inl ⟨active,rfl⟩))
    | other => exact fun _ => .inr (.inl (.inl ⟨active,rfl⟩))
  | endEvents =>
    intro _
    exact .inr (.inl (.inr rfl))
  | swap =>
    intro hp
    exact (hp rfl).elim
  | run =>
    obtain ⟨f,rest,hp⟩ := LoopPhase.point_running he.2
    have hns := not_willSwap hp (by simp) (by simp)
    rw [code,hp]
    exact h.of_eq rfl id (fun hs => (hns hs).elim) id
  | endBatch =>
    have hp := LoopPhase.point_ran he.2
    have hns := not_willSwap hp (by simp) (by simp)
    refine h.of_eq rfl id (fun hs => (hns hs).elim) ?_
    rintro ⟨t,ht,_⟩
    refine ⟨t,ht,.inl ?_⟩
    rintro rfl
    exact he.1.1 ht

/-- In every run in which the loop's own thread queues only from handlers and
functors, no blocked loop has lost a wake-up. -/
theorem no_lost_wakeup (pid : Nat) (as : List (LoopStep φ))
    (ha : (machine.guard CallsInside).Admissible (new pid : EventLoop φ) as) :
    ∃ l, machine.exec (new pid : EventLoop φ) as = .ok l ∧ l.NoLostWakeup := by
  have hrun := (machine.guard CallsInside).exec_invariant (Q := fun _ => False)
    (I := fun l => l.Flags ∧ l.Conserved ∧ l.Attended) (by
      rintro l a ⟨hf,hc,hatt⟩ ⟨he,hin⟩
      obtain ⟨m,hm,hfm,hcm⟩ := code_keeps hf hc he
      have hx := code_attended hf hatt he hin
      change Meets _ _ (l.code a)
      rw [hm] at hx ⊢
      exact ⟨hfm,hcm,hx⟩) as (new pid)
    ⟨new_flags pid,new_conserved pid,fun h => (h rfl).elim⟩ ha
  rw [machine.exec_guard] at hrun
  obtain ⟨l,hl,_,_,hatt⟩ := hrun.ok_of_no_error (fun _ => id)
  refine ⟨l,hl,?_⟩
  intro hp hcall hpend
  rcases hatt hpend with hn | hs | ⟨t,ht,_⟩
  · exact hn
  · exact (not_willSwap hp (by simp) (by simp) hs).elim
  · rw [hcall] at ht
    cases ht

/-- Another thread, an event handler and a functor each queue once. -/
theorem no_lost_wakeup_run :
    let as : List (LoopStep Nat) := [.loop,.test,.queueInLoop 7 1,.leaveQueueInLoop 7,
      .pollReturn [.wakeup,.other],.dispatch,.dispatch,.queueInLoop 0 2,.leaveQueueInLoop 0,
      .endEvents,.swap,.run,.queueInLoop 0 3,.leaveQueueInLoop 0,.run,.endBatch,.test]
    ((machine.guard CallsInside).Admissible (new 0 : EventLoop Nat) as) ∧
    ∃ l, machine.exec (new 0 : EventLoop Nat) as = .ok l ∧ l.NoLostWakeup := by
  refine ⟨by decide,no_lost_wakeup 0 [.loop,.test,.queueInLoop 7 1,.leaveQueueInLoop 7,
      .pollReturn [.wakeup,.other],.dispatch,.dispatch,.queueInLoop 0 2,.leaveQueueInLoop 0,
      .endEvents,.swap,.run,.queueInLoop 0 3,.leaveQueueInLoop 0,.run,.endBatch,.test] (by decide)⟩

/-- `loop.queueInLoop(f); loop.loop();` on one thread: the first `poll` blocks with
f pending and nothing written to the eventfd. -/
theorem queue_before_loop_is_not_woken :
    let as : List (LoopStep Nat) := [.queueInLoop 0 1,.leaveQueueInLoop 0,.loop,.test]
    machine.Admissible (new 0 : EventLoop Nat) as ∧
    ∃ l, machine.exec (new 0 : EventLoop Nat) as = .ok l ∧ ¬ l.NoLostWakeup := by
  refine ⟨by decide,_,rfl,?_⟩
  intro h
  exact h rfl rfl (by decide) rfl

end LearningMuduo.Reactor.EventLoop
