import LearningMuduo.Logging.BufferBounds
import LearningMuduo.Logging.LogOrder

/-! What becomes of `running_` after `stop()` has cleared it. -/
namespace LearningMuduo.Logging.AsyncLogging
open Library
variable {s t : AsyncLogging}

/-- The flag and the owner are as in s, and the thread is past its first statement. -/
def Keeps (s t : AsyncLogging) : Prop :=
  t.owner = s.owner ∧ t.running = s.running ∧ t.thread ≠ .entry

private theorem swap_keeps (s : AsyncLogging) : s.Keeps s.swap := by
  rw [swap_eq]
  exact ⟨rfl,rfl,nofun⟩

private theorem test_keeps (s : AsyncLogging) : Meets s.Keeps (fun _ => True) s.test := by
  unfold test
  split
  · refine Meets.bind (meets_require fun _ => trivial) fun _ _ => ?_
    refine Meets.bind (meets_require fun _ => trivial) fun _ _ => ?_
    refine Meets.bind (meets_require fun _ => trivial) fun _ _ => ?_
    exact ⟨rfl,rfl,by simp⟩
  · exact ⟨rfl,rfl,by simp⟩

private theorem cut_keeps (s : AsyncLogging) : Meets s.Keeps (fun _ => True) s.cut := by
  refine Meets.bind (meets_require fun _ => trivial) fun _ _ => ?_
  dsimp only
  split
  · exact ⟨rfl,rfl,nofun⟩
  · exact ⟨rfl,rfl,nofun⟩

private theorem write_keeps (s : AsyncLogging) (i : Nat) : Meets s.Keeps (fun _ => True) (s.write i) := by
  unfold write
  split
  · exact ⟨rfl,rfl,nofun⟩
  · trivial
  · exact ⟨rfl,rfl,nofun⟩

private theorem recycle_keeps (s : AsyncLogging) : Meets s.Keeps (fun _ => True) s.recycle := by
  refine Meets.bind (meets_true _) fun _ _ => Meets.bind (meets_true _) fun _ _ => ?_
  exact ⟨rfl,rfl,nofun⟩

/-- Past its first statement the thread leaves the flag alone. -/
theorem run_keeps (hentry : s.thread ≠ .entry) : Meets s.Keeps (fun _ => True) s.run := by
  unfold run
  cases ht : s.thread with
  | absent => exact ⟨rfl,rfl,hentry⟩
  | done => exact ⟨rfl,rfl,hentry⟩
  | entry => exact (hentry ht).elim
  | test => exact test_keeps s
  | lock =>
    dsimp only
    unfold lock
    split
    · exact ⟨rfl,rfl,nofun⟩
    · exact swap_keeps s
  | waiting => exact swap_keeps s
  | swapped => exact cut_keeps s
  | writing i => exact write_keeps s i
  | recycling => exact recycle_keeps s

private theorem append_keeps (hentry : s.thread ≠ .entry) (msg : List UInt8) (available : Nat) :
    Meets s.Keeps (fun _ => True) (s.append msg available) := by
  unfold append
  dsimp only
  split
  · trivial
  · split
    · refine Meets.bind (meets_true _) fun _ _ => ?_
      exact ⟨rfl,rfl,hentry⟩
    · refine Meets.bind (meets_true _) fun _ _ => ?_
      exact ⟨rfl,rfl,hentry⟩

/-- `stop()` has cleared the flag, and nobody is left who sets it. -/
private def Cleared (s : AsyncLogging) : Prop :=
  (s.owner = .stopping ∨ s.owner = .signalled ∨ s.owner = .stopped) ∧ s.running = false ∧ s.thread ≠ .entry

private theorem Cleared.keeps (h : s.Cleared) (hk : s.Keeps t) : t.Cleared := by
  obtain ⟨howner,hrunning,-⟩ := h
  obtain ⟨ho,hr,ht⟩ := hk
  rw [← ho] at howner
  exact ⟨howner,hr.trans hrunning,ht⟩

private theorem step_cleared (s : AsyncLogging) (op : LogOp) (h : s.Cleared) (he : appends.Enabled s op) :
    Meets Cleared (fun _ => True) (appends.step s op) := by
  have ⟨howner,hrunning,hentry⟩ := h
  cases op with
  | append msg available => exact (append_keeps hentry msg available).mono (fun t ht => Cleared.keeps h ht) fun _ => id
  | setRunning =>
    have hcreated : s.owner = .created := he
    rw [hcreated] at howner
    simp at howner
  | spawn =>
    have hstarting : s.owner = .starting := he
    rw [hstarting] at howner
    simp at howner
  | clearRunning => exact ⟨.inl rfl,rfl,hentry⟩
  | signal => exact ⟨.inr (.inl rfl),hrunning,hentry⟩
  | join => exact ⟨.inr (.inr rfl),hrunning,hentry⟩
  | run => exact (run_keeps hentry).mono (fun t ht => Cleared.keeps h ht) fun _ => id

/-- Once `stop()` has cleared `running_` it stays clear, in every continuation of the run,
exactly when the thread was past its first statement, whose assertion assigns the flag. -/
theorem stop_request_kept_iff (before : List LogOp) (s₀ : AsyncLogging)
    (ha : appends.Admissible new (before ++ [.clearRunning])) (h₀ : appends.exec new before = .ok s₀) :
    (∀ after s, appends.Admissible new (before ++ .clearRunning :: after) →
      appends.exec new (before ++ .clearRunning :: after) = .ok s → s.running = false) ↔ s₀.thread ≠ .entry := by
  obtain ⟨hbefore,hen,-⟩ := appends.admissible_append ha h₀
  let s₁ : AsyncLogging := { s₀ with owner := .stopping, running := false }
  constructor
  · intro hkept hentry
    -- the thread executes its first statement next
    have hrest : appends.Admissible s₀ [.clearRunning,.run] := by
      refine ⟨hen,?_,?_⟩
      · change s₁.thread ≠ .absent ∧ s₁.thread ≠ .done
        rw [show s₁.thread = .entry from hentry]
        decide
      · exact meets_true _
    have hrun : appends.exec s₀ [.clearRunning,.run] = .ok s₁.enter := by
      change (s₁.run >>= fun t => .ok t) = .ok s₁.enter
      rw [run,show s₁.thread = .entry from hentry]
      rfl
    have hset := hkept [.run] s₁.enter (appends.admissible_of_append hbefore h₀ hrest)
      ((appends.exec_append_ok h₀ _).trans hrun)
    cases hset
  · intro hentry after s hafter hs
    rw [appends.exec_append_ok h₀] at hs
    have hrest := appends.admissible_step (appends.admissible_append hafter h₀).2 rfl
    have hinv := appends.exec_invariant step_cleared after s₁ ⟨.inl rfl,rfl,hentry⟩ hrest
    rw [show appends.exec s₁ after = .ok s from hs] at hinv
    exact hinv.2.1

private def stopAfterTest : List LogOp := [.setRunning,.spawn,.run,.run]

/-- The thread stands before its lock when `stop()` is called. -/
theorem stop_request_kept_locking : ∃ s₀, appends.Admissible new (stopAfterTest ++ [.clearRunning]) ∧
    appends.exec new stopAfterTest = .ok s₀ ∧
    ((∀ after s, appends.Admissible new (stopAfterTest ++ .clearRunning :: after) →
      appends.exec new (stopAfterTest ++ .clearRunning :: after) = .ok s → s.running = false) ↔ s₀.thread ≠ .entry) := by
  have ha : appends.Admissible new (stopAfterTest ++ [.clearRunning]) := by decide +kernel
  obtain ⟨s₀,h₀,-⟩ : ∃ s₀, appends.exec new stopAfterTest = .ok s₀ ∧ s₀.thread = .lock :=
    Meets.ok_of_no_error (Q := fun _ => False) (by decide +kernel) (fun _ => id)
  exact ⟨s₀,ha,h₀,stop_request_kept_iff stopAfterTest s₀ ha h₀⟩

private def stopAtOnce : List LogOp := [.setRunning,.spawn]

/-- `stop()` clears the flag before the new thread has run, whose assertion sets it again. -/
theorem stop_request_lost : appends.Admissible new (stopAtOnce ++ .clearRunning :: [.signal,.run]) ∧
    ∃ s, appends.exec new (stopAtOnce ++ .clearRunning :: [.signal,.run]) = .ok s ∧ s.owner = .signalled ∧
      s.thread = .test ∧ ¬ s.running = false := by
  refine ⟨by decide +kernel,?_⟩
  exact Meets.ok_of_no_error (Q := fun _ => False) (by decide +kernel) (fun _ => id)

end LearningMuduo.Logging.AsyncLogging
