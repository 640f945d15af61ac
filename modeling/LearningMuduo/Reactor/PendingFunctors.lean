import LearningMuduo.Reactor.EventLoop
import Mathlib.Data.List.Forall2
import Mathlib.Order.Basic

/-! Pending functors over every interleaving: each runs once, in the order of the
`push_back`s, in a later batch than the one running when it was pushed. -/
namespace LearningMuduo.Reactor

namespace LoopPhase
variable {φ : Type} {p : LoopPhase φ}

/-- The thread is outside `loop()`. -/
theorem point_outside (h : p.point = .outside) : p = .outside := by
  rcases p with _ | _ | _ | (_ | _) | _ | (_ | _) <;> first | rfl | cases h

/-- The thread is at the test of `quit_`. -/
theorem point_test (h : p.point = .test) : p = .test := by
  rcases p with _ | _ | _ | (_ | _) | _ | (_ | _) <;> first | rfl | cases h

private theorem point_polling (h : p.point = .polling) : p = .polling := by
  rcases p with _ | _ | _ | (_ | _) | _ | (_ | _) <;> first | rfl | cases h

/-- The thread handles the next active channel. -/
theorem point_dispatching (h : p.point = .dispatching) : ∃ c active, p = .handling (c :: active) := by
  rcases p with _ | _ | _ | (_ | ⟨c,active⟩) | _ | (_ | _) <;> first | exact ⟨_,_,rfl⟩ | cases h

private theorem point_handled (h : p.point = .handled) : p = .handling [] := by
  rcases p with _ | _ | _ | (_ | _) | _ | (_ | _) <;> first | rfl | cases h

private theorem point_swapping (h : p.point = .swapping) : p = .swapping := by
  rcases p with _ | _ | _ | (_ | _) | _ | (_ | _) <;> first | rfl | cases h

/-- The thread runs the next functor of its batch. -/
theorem point_running (h : p.point = .running) : ∃ f rest, p = .running (f :: rest) := by
  rcases p with _ | _ | _ | (_ | _) | _ | (_ | ⟨f,rest⟩) <;> first | exact ⟨_,_,rfl⟩ | cases h

/-- The batch is over. -/
theorem point_ran (h : p.point = .ran) : p = .running [] := by
  rcases p with _ | _ | _ | (_ | _) | _ | (_ | _) <;> first | rfl | cases h

end LoopPhase

namespace EventLoop
open Library
variable {φ : Type} {l : EventLoop φ}

/-- The flags follow the program point of the loop thread. -/
structure Flags (l : EventLoop φ) : Prop where
  looping : l.looping = false ↔ l.phase = .outside
  handling : l.eventHandling = true ↔ ∃ active, l.phase = .handling active
  calling : l.callingPendingFunctors = true ↔ l.phase = .swapping ∨ ∃ rest, l.phase = .running rest

/-- History splits into what has run, what the running batch still holds and what
is pending; the numbers say in which batch each part was pushed and run. -/
def Conserved (l : EventLoop φ) : Prop := ∃ ran taken waiting : List (φ × Nat),
  l.pushed = ran ++ taken ++ waiting ∧
  List.Forall₂ (fun e p => e.1 = p.1 ∧ p.2 < e.2) l.executed ran ∧
  taken.map Prod.fst = l.rest ∧ (∀ p ∈ taken, p.2 < l.batches) ∧
  waiting.map Prod.fst = l.pendingFunctors ∧ ∀ p ∈ waiting, p.2 ≤ l.batches

private theorem pushBack_conserved (h : l.Conserved) (t : Nat) (f : φ) : (l.pushBack t f).Conserved := by
  obtain ⟨ran,taken,waiting,hp,he,ht,htb,hw,hwb⟩ := h
  refine ⟨ran,taken,waiting ++ [(f,l.batches)],?_,he,ht,htb,?_,?_⟩
  · simp [pushBack,hp]
  · simp [pushBack,hw]
  · intro p hm
    rcases List.mem_append.mp hm with hm | hm
    · exact hwb p hm
    · rw [List.mem_singleton.mp hm]
      exact Nat.le_refl l.batches

/-- Steps that touch neither the queue nor the batch. -/
theorem Conserved.of_eq {m : EventLoop φ} (h : l.Conserved) (hp : m.pushed = l.pushed)
    (he : m.executed = l.executed) (hr : m.rest = l.rest)
    (hq : m.pendingFunctors = l.pendingFunctors) (hb : m.batches = l.batches) : m.Conserved := by
  unfold Conserved
  rw [hp,he,hr,hq,hb]
  exact h

private theorem swap_conserved (h : l.Conserved) (hp : l.phase = .swapping) :
    l.swapFunctors.Conserved := by
  obtain ⟨ran,taken,waiting,hpush,he,ht,_,hw,hwb⟩ := h
  have hnil : taken = [] := by simpa [rest,hp] using ht
  subst hnil
  refine ⟨ran,waiting,[],by simpa [swapFunctors] using hpush,he,hw,?_,rfl,by simp⟩
  intro p hm
  exact Nat.lt_succ_of_le (hwb p hm)

private theorem run_conserved (h : l.Conserved) {f : φ} {rest : List φ}
    (hp : l.phase = .running (f :: rest)) :
    (l.startFunctor f rest).Conserved := by
  obtain ⟨ran,taken,waiting,hpush,he,ht,htb,hw,hwb⟩ := h
  have ht' : taken.map Prod.fst = f :: rest := by simpa [EventLoop.rest,hp] using ht
  obtain ⟨p,taken',rfl,hpf,htail⟩ := List.map_eq_cons_iff.mp ht'
  refine ⟨ran ++ [p],taken',waiting,by simpa [startFunctor] using hpush,?_,htail,?_,hw,hwb⟩
  · exact List.rel_append he (.cons ⟨hpf.symm,htb p List.mem_cons_self⟩ .nil)
  · intro q hq
    exact htb q (List.mem_cons_of_mem p hq)

/-- The head of `loop()`. -/
theorem loop_keeps (hf : l.Flags) (hc : l.Conserved) (hp : l.phase = .outside) :
    l.code .loop = .ok { l with looping := true, quit := false, phase := .test } ∧
    ({ l with looping := true, quit := false, phase := .test } : EventLoop φ).Flags ∧
    ({ l with looping := true, quit := false, phase := .test } : EventLoop φ).Conserved := by
  have hl := hf.looping.mpr hp
  have hh : ¬ l.eventHandling = true := by rw [hf.handling,hp]; simp
  have hg : ¬ l.callingPendingFunctors = true := by rw [hf.calling,hp]; simp
  refine ⟨?_,⟨?_,?_,?_⟩,?_⟩
  · simp [code,require,hl]
  · simp
  · simp [hh]
  · simp [hg]
  · exact hc.of_eq rfl rfl (by simp [rest,hp]) rfl rfl

/-- Every step succeeds and keeps the flags and the conservation of functors. -/
theorem code_keeps (hf : l.Flags) (hc : l.Conserved) {a : LoopStep φ} (he : l.Enabled a) :
    ∃ m, l.code a = .ok m ∧ m.Flags ∧ m.Conserved := by
  cases a with
  | queueInLoop t f => exact ⟨_,rfl,⟨hf.looping,hf.handling,hf.calling⟩,pushBack_conserved hc t f⟩
  | runInLoop t f =>
    refine ⟨_,rfl,?_,?_⟩
    · split
      · exact hf
      · exact ⟨hf.looping,hf.handling,hf.calling⟩
    · split
      · exact hc
      · exact pushBack_conserved hc t f
  | leaveQueueInLoop t =>
    refine ⟨_,rfl,?_,?_⟩
    · unfold leaveQueueInLoop
      split <;> exact ⟨hf.looping,hf.handling,hf.calling⟩
    · unfold leaveQueueInLoop
      split <;> exact hc.of_eq rfl rfl rfl rfl rfl
  | quit t =>
    refine ⟨_,rfl,?_,?_⟩
    · split <;> exact ⟨hf.looping,hf.handling,hf.calling⟩
    · split <;> exact hc.of_eq rfl rfl rfl rfl rfl
  | leaveQuit t => exact ⟨_,rfl,⟨hf.looping,hf.handling,hf.calling⟩,hc.of_eq rfl rfl rfl rfl rfl⟩
  | loop =>
    obtain ⟨hm,hkeep⟩ := loop_keeps hf hc (LoopPhase.point_outside he.2)
    exact ⟨_,hm,hkeep⟩
  | test =>
    have hp := LoopPhase.point_test he
    have hl : ¬ l.looping = false := by rw [hf.looping,hp]; simp
    have hh : ¬ l.eventHandling = true := by rw [hf.handling,hp]; simp
    have hg : ¬ l.callingPendingFunctors = true := by rw [hf.calling,hp]; simp
    refine ⟨_,rfl,?_,?_⟩
    · split
      · exact ⟨by simp,by simp [hh],by simp [hg]⟩
      · exact ⟨by simp [hl],by simp [hh],by simp [hg]⟩
    · split <;> exact hc.of_eq rfl rfl (by simp [rest,hp]) rfl rfl
  | pollReturn active =>
    have hp := LoopPhase.point_polling he.1
    have hl : ¬ l.looping = false := by rw [hf.looping,hp]; simp
    have hg : ¬ l.callingPendingFunctors = true := by rw [hf.calling,hp]; simp
    exact ⟨_,rfl,⟨by simp [hl],by simp,by simp [hg]⟩,hc.of_eq rfl rfl (by simp [rest,hp]) rfl rfl⟩
  | dispatch =>
    obtain ⟨c,active,hp⟩ := LoopPhase.point_dispatching he.2
    have hl : ¬ l.looping = false := by rw [hf.looping,hp]; simp
    have hh : l.eventHandling = true := hf.handling.mpr ⟨_,hp⟩
    have hg : ¬ l.callingPendingFunctors = true := by rw [hf.calling,hp]; simp
    refine ⟨_,rfl,?_,?_⟩
    · cases c <;> simp only [hp] <;> exact ⟨by simp [handleRead,hl],by simp [handleRead,hh],by simp [handleRead,hg]⟩
    · cases c <;> simp only [hp] <;> exact hc.of_eq rfl rfl (by simp [rest,handleRead,hp]) rfl rfl
  | endEvents =>
    have hp := LoopPhase.point_handled he.2
    have hl : ¬ l.looping = false := by rw [hf.looping,hp]; simp
    exact ⟨_,rfl,⟨by simp [hl],by simp,by simp⟩,hc.of_eq rfl rfl (by simp [rest,hp]) rfl rfl⟩
  | swap =>
    have hp := LoopPhase.point_swapping he
    have hl : ¬ l.looping = false := by rw [hf.looping,hp]; simp
    have hh : ¬ l.eventHandling = true := by rw [hf.handling,hp]; simp
    have hg : l.callingPendingFunctors = true := hf.calling.mpr (.inl hp)
    exact ⟨_,rfl,⟨by simp [swapFunctors,hl],by simp [swapFunctors,hh],by simp [swapFunctors,hg]⟩,
      swap_conserved hc hp⟩
  | run =>
    obtain ⟨f,rest,hp⟩ := LoopPhase.point_running he.2
    have hl : ¬ l.looping = false := by rw [hf.looping,hp]; simp
    have hh : ¬ l.eventHandling = true := by rw [hf.handling,hp]; simp
    have hg : l.callingPendingFunctors = true := hf.calling.mpr (.inr ⟨_,hp⟩)
    refine ⟨_,rfl,?_,?_⟩
    · simp only [hp]
      exact ⟨by simp [startFunctor,hl],by simp [startFunctor,hh],by simp [startFunctor,hg]⟩
    · simp only [hp]
      exact run_conserved hc hp
  | endBatch =>
    have hp := LoopPhase.point_ran he.2
    have hl : ¬ l.looping = false := by rw [hf.looping,hp]; simp
    have hh : ¬ l.eventHandling = true := by rw [hf.handling,hp]; simp
    exact ⟨_,rfl,⟨by simp [hl],by simp [hh],by simp⟩,hc.of_eq rfl rfl (by simp [rest,hp]) rfl rfl⟩

/-- The functors pushed by a run, in the order of the critical sections. A call of
`runInLoop` on the loop thread runs its functor directly and pushes nothing. -/
def pushes (pid : Nat) : List (LoopStep φ) → List φ
  | [] => []
  | .queueInLoop _ f :: as => f :: pushes pid as
  | .runInLoop t f :: as => if t = pid then pushes pid as else f :: pushes pid as
  | _ :: as => pushes pid as

private def pushStep (pid : Nat) (fs : List φ) : LoopStep φ → List φ
  | .queueInLoop _ f => fs ++ [f]
  | .runInLoop t f => if t = pid then fs else fs ++ [f]
  | _ => fs

private theorem foldl_pushStep (pid : Nat) (as : List (LoopStep φ)) (fs : List φ) :
    as.foldl (pushStep pid) fs = fs ++ pushes pid as := by
  induction as generalizing fs with
  | nil => simp [pushes]
  | cons a as ih =>
    rw [List.foldl_cons,ih]
    cases a with
    | runInLoop t f =>
      by_cases ht : t = pid
      · simp [pushStep,pushes,ht]
      · simp [pushStep,pushes,ht]
    | _ => simp [pushStep,pushes]

private theorem code_pushed {m : EventLoop φ} {a : LoopStep φ} (h : l.code a = .ok m) :
    m.pid = l.pid ∧ m.pushed.map Prod.fst = pushStep l.pid (l.pushed.map Prod.fst) a := by
  cases a with
  | queueInLoop t f => cases h; exact ⟨rfl,by simp [pushBack,pushStep]⟩
  | runInLoop t f =>
    cases h
    by_cases ht : t = l.pid
    · simp [isInLoopThread,pushStep,ht]
    · simp [isInLoopThread,pushStep,ht,pushBack]
  | leaveQueueInLoop t =>
    cases h
    unfold leaveQueueInLoop
    split <;> exact ⟨rfl,rfl⟩
  | quit t =>
    cases h
    split <;> exact ⟨rfl,rfl⟩
  | loop =>
    by_cases hl : l.looping = false
    · rw [code,require_pos hl] at h
      cases h
      exact ⟨rfl,rfl⟩
    · rw [code,require_neg hl] at h
      cases h
  | test =>
    cases h
    split <;> exact ⟨rfl,rfl⟩
  | dispatch =>
    cases h
    split <;> exact ⟨rfl,rfl⟩
  | run =>
    cases h
    split <;> exact ⟨rfl,rfl⟩
  | leaveQuit | pollReturn | endEvents | swap | endBatch => cases h; exact ⟨rfl,rfl⟩

/-- A new loop has its flags in order. -/
theorem new_flags (pid : Nat) : (new pid : EventLoop φ).Flags :=
  ⟨by simp [new],by simp [new],by simp [new]⟩

/-- A new loop has no functors. -/
theorem new_conserved (pid : Nat) : (new pid : EventLoop φ).Conserved :=
  ⟨[],[],[],rfl,.nil,rfl,by simp,rfl,by simp⟩

/-- A loop is a first-in first-out queue of functors: what has been executed, the
rest of the batch and what is pending make up the pushes in order, and each functor
runs in a batch taken after its push. -/
theorem functors_run_once_in_order (pid : Nat) (as : List (LoopStep φ))
    (ha : machine.Admissible (new pid : EventLoop φ) as) :
    ∃ l, machine.exec (new pid : EventLoop φ) as = .ok l ∧
      l.executed.map Prod.fst ++ l.rest ++ l.pendingFunctors = pushes pid as ∧
      ∀ (i : Nat) (e p : φ × Nat), l.executed[i]? = some e → l.pushed[i]? = some p → p.2 < e.2 := by
  have hrun := machine.exec_simulates (Q := fun _ => False) (pushStep pid)
    (R := fun l fs => l.Flags ∧ l.Conserved ∧ l.pid = pid ∧ l.pushed.map Prod.fst = fs) (by
      rintro l fs a ⟨hf,hc,rfl,rfl⟩ he
      obtain ⟨m,hm,hfm,hcm⟩ := code_keeps hf hc he
      obtain ⟨hpid,hpush⟩ := code_pushed hm
      change Meets _ _ (l.code a)
      rw [hm]
      exact ⟨hfm,hcm,hpid,hpush⟩) as (new pid) [] ⟨new_flags pid,new_conserved pid,rfl,rfl⟩ ha
  obtain ⟨l,hl,_,hc,_,hpush⟩ := hrun.ok_of_no_error (fun _ => id)
  obtain ⟨ran,taken,waiting,hp,he,ht,_,hw,_⟩ := hc
  have hfst : l.executed.map Prod.fst = ran.map Prod.fst := by
    rw [← List.forall₂_eq_eq_eq,List.forall₂_map_left_iff,List.forall₂_map_right_iff]
    exact he.imp (fun _ _ h => h.1)
  refine ⟨l,hl,?_,?_⟩
  · rw [hfst,← ht,← hw,← List.map_append,← List.map_append,← hp,hpush,foldl_pushStep,List.nil_append]
  · intro i e p hei hpi
    have hi : i < l.executed.length := (List.getElem?_eq_some_iff.mp hei).1
    have hlen := he.length_eq
    rw [hp,List.append_assoc,List.getElem?_append_left (by omega)] at hpi
    have hx := (List.forall₂_iff_get.mp he).2 i hi (by omega)
    obtain ⟨_,rfl⟩ := List.getElem?_eq_some_iff.mp hei
    obtain ⟨_,rfl⟩ := List.getElem?_eq_some_iff.mp hpi
    exact hx.2

/-- One batch runs while another thread and the running functor push. -/
theorem functors_run_once_in_order_run :
    let as : List (LoopStep Nat) := [.queueInLoop 7 1,.leaveQueueInLoop 7,.loop,.test,
      .pollReturn [.wakeup],.dispatch,.endEvents,.swap,.run,.queueInLoop 0 2,.queueInLoop 7 3,
      .leaveQueueInLoop 0,.leaveQueueInLoop 7,.endBatch]
    machine.Admissible (new 0 : EventLoop Nat) as ∧
    ∃ l, machine.exec (new 0 : EventLoop Nat) as = .ok l ∧
      l.executed.map Prod.fst ++ l.rest ++ l.pendingFunctors = [1,2,3] ∧
      ∀ (i : Nat) (e p : Nat × Nat), l.executed[i]? = some e → l.pushed[i]? = some p → p.2 < e.2 := by
  refine ⟨by decide,functors_run_once_in_order 0 [.queueInLoop 7 1,.leaveQueueInLoop 7,.loop,.test,
    .pollReturn [.wakeup],.dispatch,.endEvents,.swap,.run,.queueInLoop 0 2,.queueInLoop 7 3,
    .leaveQueueInLoop 0,.leaveQueueInLoop 7,.endBatch] (by decide)⟩

end EventLoop
end LearningMuduo.Reactor
