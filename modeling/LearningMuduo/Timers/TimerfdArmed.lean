import LearningMuduo.Timers.TimerSets

/-! When the timerfd is sure to wake the loop for the timers in `timers_`. -/
namespace LearningMuduo.Timers
open Library

/-- An expiration waits to be read, or the deadline is early enough for every timer. -/
def Timerfd.Covers (fd : Timerfd) (timers : OrderedSet entryKey) : Prop :=
  fd = .unread ∨ ∃ deadline armedAt, fd = .armed deadline armedAt ∧
    ∀ e ∈ timers, deadline ≤ max e.1 (armedAt+100)

variable {fd : Timerfd} {timers timers' : OrderedSet entryKey}

/-- Coverage passes to any set in which nothing comes before all the old timers. -/
theorem Timerfd.Covers.mono (h : fd.Covers timers)
    (hn : ∀ e ∈ timers', ∃ x ∈ timers, x.1 ≤ e.1) : fd.Covers timers' := by
  rcases h with h | ⟨deadline,armedAt,h,hall⟩
  · exact .inl h
  · refine .inr ⟨deadline,armedAt,h,?_⟩
    intro e he
    obtain ⟨x,hx,hle⟩ := hn e he
    have hold := hall x hx
    omega

namespace TimerQueue
variable {q : TimerQueue}

/-- What `resetTimerfd` arms covers every timer not due before its argument. -/
theorem armedFor_covers {when : Int} (h : ∀ e ∈ timers, when ≤ e.1) :
    (q.armedFor when).timerfd.Covers timers := by
  refine .inr ⟨_,_,rfl,?_⟩
  intro e he
  have hle := h e he
  omega

/-- Time that passes does not disarm. -/
theorem tick_covers (h : q.timerfd.Covers timers) (d : Nat) : (q.tick d).timerfd.Covers timers := by
  rcases h with h | ⟨deadline,armedAt,h,hall⟩
  · left
    simp [tick,h]
  · by_cases hd : deadline ≤ q.clock+d
    · left
      simp [tick,h,hd]
    · refine .inr ⟨deadline,armedAt,?_,hall⟩
      simp [tick,h,hd]

private theorem front_le {e f : Entry} (hb : q.timers.begin = some f) (he : e ∈ q.timers) :
    f.1 ≤ e.1 := by
  have hle : entryKey f ≤ entryKey e := (OrderedSet.begin_le hb).2 e he
  rcases Prod.Lex.toLex_le_toLex.mp hle with hlt | ⟨heq,_⟩
  · exact hlt.le
  · exact heq.le

private theorem earliest_true {when : Int} (h : q.earliest when = true) : ∀ e ∈ q.timers, when ≤ e.1 := by
  intro e he
  unfold earliest at h
  split at h
  · rename_i hb
    rw [OrderedSet.mem_def,OrderedSet.begin_none hb] at he
    exact (List.not_mem_nil he).elim
  · rename_i f hb
    exact (of_decide_eq_true h).le.trans (front_le hb he)

private theorem earliest_false {when : Int} (h : q.earliest when = false) : ∃ e ∈ q.timers, e.1 ≤ when := by
  unfold earliest at h
  split at h
  · cases h
  · rename_i f hb
    exact ⟨f,(OrderedSet.begin_le hb).1,not_lt.mp (of_decide_eq_false h)⟩

/-- Between steps every timer is covered; inside `handleRead` those that `reset` would
not arm for, and the restarted ones come later. -/
def Armed (q : TimerQueue) : Prop :=
  match q.phase with
  | .idle => q.timerfd.Covers q.timers ∨ q.timers.elems = []
  | .calling now _ => 0 < now ∧ ((∃ e ∈ q.timers, e.1 ≤ 0) → q.timerfd.Covers q.timers)

/-- The timerfd is readable, or becomes so no later than the front of `timers_` or a
tenth of a millisecond after it was armed. -/
def NoTimerForgotten (q : TimerQueue) : Prop :=
  ∀ front, q.timers.begin = some front → q.timerfd = .unread ∨
    ∃ deadline armedAt, q.timerfd = .armed deadline armedAt ∧ deadline ≤ max front.1 (armedAt+100)

/-- Between two events an armed queue forgets no timer. -/
theorem Armed.noTimerForgotten (h : q.Armed) (hp : q.phase = .idle) : q.NoTimerForgotten := by
  intro front hb
  unfold Armed at h
  rw [hp] at h
  have hin := (OrderedSet.begin_le hb).1
  rcases h with (h | ⟨deadline,armedAt,h,hall⟩) | h
  · exact .inl h
  · exact .inr ⟨deadline,armedAt,h,hall front hin⟩
  · rw [OrderedSet.mem_def,h] at hin
    exact (List.not_mem_nil hin).elim

variable {r : TimerQueue}

/-- An insertion, with the re-arming that follows a new front. -/
theorem Armed.insert {x : Int} {p : TimerPtr} (h : q.Armed) (hp : r.phase = q.phase)
    (hperm : r.timers.elems.Perm ((x,p) :: q.timers.elems))
    (hfd : r.timerfd = if q.earliest x = true then (q.armedFor x).timerfd else q.timerfd) :
    r.Armed := by
  have hmem (e : Entry) : e ∈ r.timers ↔ e = (x,p) ∨ e ∈ q.timers :=
    hperm.mem_iff.trans List.mem_cons
  cases hx : q.earliest x with
  | true =>
    have hcov : r.timerfd.Covers r.timers := by
      rw [hfd,if_pos hx]
      apply armedFor_covers
      intro e he
      rcases (hmem e).mp he with rfl | he
      · exact le_rfl
      · exact earliest_true hx e he
    unfold Armed at h ⊢
    rw [hp]
    split
    · exact .inl hcov
    · rename_i now rest hph
      rw [hph] at h
      exact ⟨h.1,fun _ => hcov⟩
  | false =>
    obtain ⟨f,hf,hfx⟩ := earliest_false hx
    rw [hx,if_neg Bool.false_ne_true] at hfd
    have hcov (hc : q.timerfd.Covers q.timers) : r.timerfd.Covers r.timers := by
      rw [hfd]
      apply hc.mono
      intro e he
      rcases (hmem e).mp he with rfl | he
      · exact ⟨f,hf,hfx⟩
      · exact ⟨e,he,le_rfl⟩
    unfold Armed at h ⊢
    rw [hp]
    split
    · rename_i hph
      rw [hph] at h
      rcases h with h | h
      · exact .inl (hcov h)
      · rw [OrderedSet.mem_def,h] at hf
        exact (List.not_mem_nil hf).elim
    · rename_i now rest hph
      rw [hph] at h
      refine ⟨h.1,fun ⟨e,he,h0⟩ => hcov (h.2 ?_)⟩
      rcases (hmem e).mp he with rfl | he
      · exact ⟨f,hf,hfx.trans h0⟩
      · exact ⟨e,he,h0⟩

/-- A removal, or no change at all. -/
theorem Armed.subset (h : q.Armed) (hp : r.phase = q.phase) (hfd : r.timerfd = q.timerfd)
    (hsub : ∀ e ∈ r.timers, e ∈ q.timers) : r.Armed := by
  have hcov (hc : q.timerfd.Covers q.timers) : r.timerfd.Covers r.timers := by
    rw [hfd]
    exact hc.mono (fun e he => ⟨e,hsub e he,le_rfl⟩)
  unfold Armed at h ⊢
  rw [hp]
  split
  · rename_i hph
    rw [hph] at h
    rcases h with h | h
    · exact .inl (hcov h)
    · right
      apply List.eq_nil_iff_forall_not_mem.mpr
      intro e he
      have hin := hsub e he
      rw [OrderedSet.mem_def,h] at hin
      exact List.not_mem_nil hin
  · rename_i now rest hph
    rw [hph] at h
    exact ⟨h.1,fun ⟨e,he,h0⟩ => hcov (h.2 ⟨e,hsub e he,h0⟩)⟩

/-- The end of `handleRead`: restarted timers are due after `now`, and a front that is
not armed for was already covered. -/
theorem armedForFront_covers {now : Int} (hnow : 0 < now) (hfd : r.timerfd = q.timerfd)
    (h : (∃ e ∈ q.timers, e.1 ≤ 0) → q.timerfd.Covers q.timers)
    (hnew : ∀ e ∈ r.timers, e ∈ q.timers ∨ now ≤ e.1) :
    r.armedForFront.timerfd.Covers r.timers ∨ r.timers.elems = [] := by
  unfold armedForFront
  cases hb : r.timers.begin with
  | none => exact .inr (OrderedSet.begin_none hb)
  | some f =>
    left
    dsimp only
    split
    · exact armedFor_covers (fun e he => front_le hb he)
    · rename_i h0
      have hf : f ∈ q.timers := by
        rcases hnew f (OrderedSet.begin_le hb).1 with hf | hf
        · exact hf
        · omega
      rw [hfd]
      apply (h ⟨f,hf,not_lt.mp h0⟩).mono
      intro e he
      rcases hnew e he with he | hlate
      · exact ⟨e,he,le_rfl⟩
      · exact ⟨f,hf,by omega⟩

end TimerQueue
end LearningMuduo.Timers
