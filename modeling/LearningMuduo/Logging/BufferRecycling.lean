import LearningMuduo.Logging.LogOrder

/-! Buffers are never missing: whoever empties `nextBuffer_` leaves a buffer in `buffers_`, so
that the batch has one for each slot the background thread gave away. -/
namespace LearningMuduo.Logging
open Library

private theorem FixedBuffer.append_overflow (b : FixedBuffer) (e : Entry) :
    Meets (fun _ => True) (· = .overflow) (b.append e) := by
  unfold FixedBuffer.append
  exact Meets.bind (meets_require fun _ => rfl) fun _ _ => trivial

namespace AsyncLogging
variable {s t : AsyncLogging}

/-- A message of any length comes at any time and takes either branch. -/
def anyAppends : Machine AsyncLogging LogOp LogFault where
  Enabled s
    | .append _ _ => True
    | op => s.Enabled op
  step := machine.step

instance (s : AsyncLogging) : (op : LogOp) → Decidable (anyAppends.Enabled s op)
  | .append _ _ => isTrue trivial
  | .setRunning | .spawn | .clearRunning | .signal => inferInstanceAs (Decidable (_ = _))
  | .join => inferInstanceAs (Decidable (_ ∧ _))
  | .run => inferInstanceAs (Decidable (_ ∧ _))

/-- A buffer without content. -/
def Empty (p : BufferPtr) : Prop := p.map FixedBuffer.length = some 0

instance : DecidablePred Empty := fun p => inferInstanceAs (Decidable (p.map FixedBuffer.length = some 0))

/-- No place for a buffer is left without one when the code comes to use it. -/
structure Recycled (s : AsyncLogging) : Prop where
  head : s.thread = .test → Empty s.newBuffer1 ∧ Empty s.newBuffer2 ∧ s.buffersToWrite = []
  current : s.currentBuffer ≠ none
  next : s.nextBuffer = none → s.buffers ≠ []
  swapped : s.thread = .swapped → s.buffersToWrite ≠ []
  refills : s.thread = .recycling → ∃ t, s.recycle = .ok t

/-- What circulates is recycled. -/
theorem Circulating.recycled (h : s.Circulating) : s.Recycled where
  head ht := by
    have hh := h.holds
    rw [Holds,ht] at hh
    obtain ⟨h1,h2,h3⟩ := hh
    rw [h1,h2]
    exact ⟨rfl,rfl,h3⟩
  current := by
    obtain ⟨b,hb⟩ := h.current
    rw [hb]
    exact Option.some_ne_none b
  next hn := by
    rcases h.next with hsome | ⟨-,hne⟩
    · rw [hsome] at hn
      cases hn
    · exact hne
  swapped ht := by
    have hh := h.holds
    rw [Holds,ht] at hh
    exact hh.2.1
  refills ht := by
    have hthread : s.thread ≠ .absent ∧ s.thread ≠ .done := by
      rw [ht]
      exact ⟨ThreadPoint.noConfusion,ThreadPoint.noConfusion⟩
    obtain ⟨t,hrun,-⟩ := h.run hthread
    rw [AsyncLogging.run,ht] at hrun
    exact ⟨t,hrun⟩

private theorem Circulating.append (h : s.Circulating) (msg : List UInt8) (available : Nat) :
    Meets Circulating (· = .overflow) (s.append msg available) := by
  obtain ⟨b,hb⟩ := h.current
  unfold AsyncLogging.append
  rw [hb]
  dsimp only
  split
  · refine Meets.bind (FixedBuffer.append_overflow b _) ?_
    intro c _
    exact ⟨h.order,⟨c,rfl⟩,h.next,h.whole,h.holds⟩
  · refine Meets.bind (FixedBuffer.append_overflow _ _) ?_
    intro c _
    have hne : s.buffers ++ [some b] ≠ [] := List.append_ne_nil_of_right_ne_nil _ (List.cons_ne_nil _ _)
    exact ⟨h.order,⟨c,rfl⟩,.inr ⟨rfl,hne⟩,h.whole_concat b,h.holds⟩

private theorem Circulating.step (h : s.Circulating) {op : LogOp} (he : anyAppends.Enabled s op) :
    Meets Circulating (· = .overflow) (anyAppends.step s op) := by
  cases op with
  | append msg available => exact h.append msg available
  | setRunning => exact (Moves.setRunning he).circulating h
  | spawn => exact (Moves.spawn he).circulating h
  | clearRunning => exact (Moves.clearRunning he).circulating h
  | signal => exact (Moves.signal he).circulating h
  | join => exact (Moves.join he.1 he.2).circulating h
  | run =>
    obtain ⟨t,ht,hm,-⟩ := h.run he
    rw [show anyAppends.step s .run = .ok t from ht]
    exact hm.circulating h

/-- In every run of the log, with messages of any length at any time, no assertion fails and no
null buffer is used: the run stops only where a `memcpy` overflows, and every state it
reaches has the buffers it needs. -/
theorem buffers_never_run_dry (ops : List LogOp) (ha : anyAppends.Admissible new ops) :
    Meets Recycled (· = .overflow) (anyAppends.exec new ops) := by
  have hrun := anyAppends.exec_invariant (fun _ _ h he => h.step he) ops new new_sound.circulating ha
  exact hrun.mono (fun _ h => h.recycled) fun _ => id

/-- Both spare buffers go: one message takes `nextBuffer_` before the swap, and one comes while
the thread has its batch. -/
private def bothSpares : List LogOp :=
  [.setRunning,.spawn,.run,.run,.run,.append [104] 0,.append [105] 0,.run,.append [33] 0,
    .run,.run,.run,.run,.run,.run,.run]

/-- The thread refills both spare buffers from its batch. -/
theorem buffers_never_run_dry_bothSpares : anyAppends.Admissible new bothSpares ∧
    ∃ s, anyAppends.exec new bothSpares = .ok s ∧ s.Recycled := by
  have ha : anyAppends.Admissible new bothSpares := by decide +kernel
  exact ⟨ha,(buffers_never_run_dry bothSpares ha).of_success (by decide +kernel)⟩

end AsyncLogging
end LearningMuduo.Logging
