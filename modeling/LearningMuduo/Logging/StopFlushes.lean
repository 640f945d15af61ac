import LearningMuduo.Logging.LogOrder

/-! What `stop()` leaves behind: a message is written only if the background thread swaps
once more after it was appended. -/
namespace LearningMuduo.Logging.AsyncLogging
open Library
variable {s t : AsyncLogging}

/-- Written, thrown away, or in the batch that will be written. -/
def settled (s : AsyncLogging) : List Entry := s.output ++ s.erased ++ contents s.unwritten

private theorem Sound.settled_or_backlog (h : s.Sound) {e : Entry} (he : e ∈ s.appended) :
    e ∈ s.settled ∨ e ∈ s.backlog := by
  by_cases hgone : e ∈ s.erased
  · exact .inl (List.mem_append_left _ (List.mem_append_right _ hgone))
  · have hin : e ∈ s.output ++ contents s.unwritten ++ s.backlog := by
      rw [h.stream]
      exact List.mem_filter.mpr ⟨he,by simpa using hgone⟩
    simp only [settled,List.mem_append] at hin ⊢
    tauto

private theorem Sound.backlog_appended (h : s.Sound) {e : Entry} (he : e ∈ s.backlog) :
    e ∈ s.appended ∧ e ∉ s.output ∧ e ∉ s.erased := by
  have hin : e ∈ s.appended.filter (· ∉ s.erased) := by
    rw [← h.stream]
    exact List.mem_append_right _ he
  have hnodup : (s.output ++ contents s.unwritten ++ s.backlog).Nodup := by
    rw [h.stream]
    exact h.nodup.filter _
  refine ⟨List.mem_of_mem_filter hin,?_,by simpa using (List.mem_filter.mp hin).2⟩
  intro hout
  exact (List.nodup_append.mp hnodup).2.2 e (List.mem_append_left _ hout) e he rfl

private theorem Moves.appended_subset (hm : s.Moves t) : s.appended ⊆ t.appended := by
  cases hm with
  | appendCurrent _ _ _ => exact List.subset_append_left _ _
  | appendNext _ _ _ => exact List.subset_append_left _ _
  | swap _ =>
    rw [swap_eq]
    exact List.Subset.refl _
  | _ => exact List.Subset.refl _

/-- What is settled stays settled. -/
theorem Moves.settled_subset (h : s.Sound) (hm : s.Moves t) : s.settled ⊆ t.settled := by
  have hh := h.holds
  intro e he
  simp only [settled,List.mem_append] at he ⊢
  cases hm with
  | appendCurrent _ _ _ => exact he
  | appendNext _ _ _ => exact he
  | setRunning _ => exact he
  | spawn hc =>
    have ho := h.order
    rw [Ordered,hc] at ho
    rw [unwritten,ho.1] at he
    exact he
  | clearRunning _ => exact he
  | signal _ => exact he
  | join _ _ => exact he
  | enter ht =>
    rw [Holds,ht] at hh
    rw [unwritten,ht] at he
    dsimp only at he
    rw [hh] at he
    exact he
  | test ht =>
    rw [unwritten,ht] at he
    cases hr : s.running with
    | true => exact he
    | false => exact he
  | wait ht =>
    rw [unwritten,ht] at he
    exact he
  | swap ht =>
    have hun : s.unwritten = [] := by
      rcases ht with ht | ht
      · rw [unwritten,ht]
        exact (h.circulating.held (.inl ht)).2.2
      · rw [unwritten,ht]
        exact (h.circulating.held (.inr ht)).2.2
    rw [hun,contents_nil] at he
    rw [swap_eq]
    exact .inl (he.resolve_right List.not_mem_nil)
  | cut ht =>
    rw [unwritten,ht] at he
    dsimp only at he
    rw [← kept_append_dropped s.buffersToWrite,contents_append,List.mem_append] at he
    change (e ∈ s.output ∨ e ∈ s.erased ++ contents (dropped s.buffersToWrite)) ∨ e ∈ contents (kept s.buffersToWrite)
    rw [List.mem_append]
    tauto
  | write i b ht hb =>
    rw [unwritten,ht] at he
    dsimp only at he
    obtain ⟨hi,hb⟩ := List.getElem?_eq_some_iff.mp hb
    rw [List.drop_eq_getElem_cons hi,hb,contents_cons,List.mem_append] at he
    change (e ∈ s.output ++ b.entries ∨ e ∈ s.erased) ∨ e ∈ contents (s.buffersToWrite.drop (i+1))
    rw [List.mem_append]
    tauto
  | written i ht hb =>
    rw [unwritten,ht] at he
    dsimp only at he
    rw [List.drop_eq_nil_of_le (List.getElem?_eq_none_iff.mp hb)] at he
    exact he
  | recycle ht =>
    rw [unwritten,ht] at he
    exact he

/-- Only the swap takes messages out of the backlog. -/
theorem Moves.backlog_subset (hm : s.Moves t) (hl : s.thread ≠ .lock) (hw : s.thread ≠ .waiting) :
    s.backlog ⊆ t.backlog := by
  intro e he
  cases hm with
  | appendCurrent b msg hb =>
    rw [backlog,hb,contents_singleton,List.mem_append] at he
    change e ∈ contents s.buffers ++ contents [some ⟨b.entries ++ _⟩]
    rw [contents_singleton,List.mem_append,List.mem_append]
    tauto
  | appendNext b msg hb =>
    rw [backlog,hb] at he
    change e ∈ contents (s.buffers ++ [some b]) ++ contents [some _]
    rw [contents_append]
    exact List.mem_append_left _ he
  | swap ht => exact (ht.elim hl hw).elim
  | _ => exact he

private theorem exec_moves {I : AsyncLogging → Prop} (hstep : ∀ s t, s.Sound → I s → s.Moves t → I t)
    {ops : List LogOp} (h : s.Sound) (hi : I s) (ha : machine.Admissible s ops) (he : machine.exec s ops = .ok t) :
    t.Sound ∧ I t := by
  refine machine.exec_ok_invariant (I := fun s => s.Sound ∧ I s) ?_ ⟨h,hi⟩ ha he
  intro s t op hs hen ht
  obtain ⟨t',ht',hm,-⟩ := hs.1.step hen
  rw [ht] at ht'
  cases ht'
  exact ⟨hm.sound hs.1,hstep s t hs.1 hs.2 hm⟩

/-- `stop()` has cleared `running_`. -/
def Stopping (s : AsyncLogging) : Prop := s.owner = .stopping ∨ s.owner = .signalled ∨ s.owner = .stopped

private theorem Stopping.started (h : s.Stopping) :
    s.owner ≠ .created ∧ s.owner ≠ .starting ∧ s.owner ≠ .started := by
  rcases h with h | h | h
  · rw [h]
    decide
  · rw [h]
    decide
  · rw [h]
    decide

private theorem Moves.stopping (h : s.Stopping) (hm : s.Moves t) : t.Stopping := by
  cases hm with
  | setRunning hc => exact (h.started.1 hc).elim
  | spawn hc => exact (h.started.2.1 hc).elim
  | clearRunning hc => exact .inl rfl
  | signal hc => exact .inr (.inl rfl)
  | join hc hd => exact .inr (.inr rfl)
  | swap _ =>
    rw [swap_eq]
    exact h
  | _ => exact h

/-- A swap settles everything that was appended before it. -/
theorem swap_settles (h : s.Sound) (ht : s.thread = .lock ∨ s.thread = .waiting) :
    s.appended ⊆ s.swap.settled := by
  have hsound := (Moves.swap ht).sound h
  obtain ⟨h1,-,h3⟩ := h.circulating.held ht
  have hempty : s.swap.backlog = [] := by
    rw [swap_eq]
    change contents s.buffersToWrite ++ contents [s.newBuffer1] = []
    rw [h1,h3]
    rfl
  intro e he
  rcases hsound.settled_or_backlog ((Moves.swap ht).appended_subset he) with hs | hb
  · exact hs
  · rw [hempty] at hb
    cases hb

/-- Before its next swap, or with everything settled. -/
def Flushed (es : List Entry) (s : AsyncLogging) : Prop :=
  s.Stopping ∧ es ⊆ s.appended ∧ (es ⊆ s.settled ∨ s.thread = .lock ∨ s.thread = .waiting)

private theorem Moves.flushed {es : List Entry} (hs : s.Sound) (h : Flushed es s) (hm : s.Moves t) : Flushed es t := by
  obtain ⟨hstop,happ,hcase⟩ := h
  refine ⟨hm.stopping hstop,List.Subset.trans happ hm.appended_subset,?_⟩
  rcases hcase with hset | ht
  · exact .inl (List.Subset.trans hset (hm.settled_subset hs))
  · have hnot {x : ThreadPoint} (hx : s.thread = x) (hl : x ≠ .lock) (hw : x ≠ .waiting) : False := by
      rcases ht with ht | ht
      · exact hl (hx.symm.trans ht)
      · exact hw (hx.symm.trans ht)
    cases hm with
    | spawn hc => exact (hstop.started.2.1 hc).elim
    | enter hx => exact (hnot hx nofun nofun).elim
    | test hx => exact (hnot hx nofun nofun).elim
    | wait hx => exact .inr (.inr rfl)
    | swap hx => exact .inl (List.Subset.trans happ (swap_settles hs hx))
    | cut hx => exact (hnot hx nofun nofun).elim
    | write i b hx hb => exact (hnot hx nofun nofun).elim
    | written i hx hb => exact (hnot hx nofun nofun).elim
    | recycle hx => exact (hnot hx nofun nofun).elim
    | _ => exact .inr ht

/-- When the thread has ended, what was settled has been written or erased. -/
theorem Flushed.written {es : List Entry} (hf : Flushed es s) (hs : s.Sound) (hr : s.owner = .stopped) :
    ∀ e ∈ es, e ∈ s.output ∨ e ∈ s.erased := by
  have hdone : s.thread = .done := by
    have ho := hs.order
    rwa [Ordered,hr] at ho
  have hun : s.unwritten = [] := by
    have hh := hs.holds
    rw [Holds,hdone] at hh
    rw [unwritten,hdone]
    exact hh
  have hset : es ⊆ s.settled := by
    rcases hf.2.2 with h | h | h
    · exact h
    · rw [hdone] at h
      cases h
    · rw [hdone] at h
      cases h
  intro e he
  have hmem := hset he
  rw [settled,hun,contents_nil,List.append_nil] at hmem
  exact List.mem_append.mp hmem

/-- The first statement of the thread is still to come, or has set `running_` again. -/
private def Revived (s : AsyncLogging) : Prop :=
  s.Stopping ∧ s.owner ≠ .stopped ∧ (s.thread = .entry ∨ s.running = true ∧ s.thread ≠ .done)

private theorem Moves.revived (h : Revived s) (hm : s.Moves t) : Revived t := by
  obtain ⟨hstop,hnot,hcase⟩ := h
  have hdone : s.thread ≠ .done := by
    rcases hcase with ht | ht
    · rw [ht]
      decide
    · exact ht.2
  have hrun {x : ThreadPoint} (hx : s.thread = x) (hne : x ≠ .entry) : s.running = true := by
    rcases hcase with ht | ht
    · exact (hne (hx.symm.trans ht)).elim
    · exact ht.1
  refine ⟨hm.stopping hstop,?_,?_⟩
  · cases hm with
    | join hc hd => exact (hdone hd).elim
    | swap _ =>
      rw [swap_eq]
      exact hnot
    | setRunning _ => nofun
    | spawn _ => nofun
    | clearRunning _ => nofun
    | signal _ => nofun
    | _ => exact hnot
  · cases hm with
    | spawn hc => exact (hstop.started.2.1 hc).elim
    | clearRunning hc => exact (hstop.started.2.2 hc).elim
    | setRunning hc => exact (hstop.started.1 hc).elim
    | enter hx => exact .inr ⟨rfl,nofun⟩
    | test hx =>
      have hr := hrun hx (by decide)
      refine .inr ⟨hr,?_⟩
      dsimp only
      rw [if_pos hr]
      decide
    | wait hx => exact .inr ⟨hrun hx (by decide),nofun⟩
    | swap hx =>
      rw [swap_eq]
      refine .inr ⟨?_,nofun⟩
      rcases hx with hx | hx
      · exact hrun hx (by decide)
      · exact hrun hx (by decide)
    | cut hx => exact .inr ⟨hrun hx (by decide),nofun⟩
    | write i b hx hb => exact .inr ⟨hrun hx nofun,nofun⟩
    | written i hx hb => exact .inr ⟨hrun hx nofun,nofun⟩
    | recycle hx => exact .inr ⟨hrun hx (by decide),nofun⟩
    | _ => exact hcase

/-- Past the last swap, with a message left over. -/
private def Missed (e : Entry) (s : AsyncLogging) : Prop :=
  s.Stopping ∧ s.running = false ∧ s.thread ≠ .entry ∧ s.thread ≠ .lock ∧ s.thread ≠ .waiting ∧ e ∈ s.backlog

private theorem Moves.missed {e : Entry} (h : Missed e s) (hm : s.Moves t) : Missed e t := by
  obtain ⟨hstop,hrun,hentry,hlock,hwait,he⟩ := h
  have hb := hm.backlog_subset hlock hwait he
  refine ⟨hm.stopping hstop,?_,?_,?_,?_,hb⟩
  all_goals
    cases hm with
    | setRunning hc => exact (hstop.started.1 hc).elim
    | spawn hc => exact (hstop.started.2.1 hc).elim
    | enter hx => exact (hentry hx).elim
    | wait hx => exact (hlock hx).elim
    | swap hx => exact (hx.elim hlock hwait).elim
    | _ => simp_all

/-- At the moment `stop()` clears `running_`, the thread is between the test of the loop and
its swap, or has not run its first statement, or has nothing left to take. -/
def Flushing (s : AsyncLogging) : Prop :=
  s.thread = .entry ∨ s.thread = .lock ∨ s.thread = .waiting ∨ s.backlog = []

/-- When `stop()` has returned, every message appended before it was called has been written
or erased by the limit on buffers, exactly when the thread stood right when `running_` was cleared. -/
theorem stop_flushes_iff (before after : List LogOp) (s₀ s : AsyncLogging)
    (ha : machine.Admissible new (before ++ .clearRunning :: after)) (h₀ : machine.exec new before = .ok s₀)
    (hs : machine.exec new (before ++ .clearRunning :: after) = .ok s) (hr : s.owner = .stopped) :
    (∀ e ∈ entriesOf before, e ∈ s.output ∨ e ∈ s.erased) ↔ s₀.Flushing := by
  obtain ⟨hbefore,hen,hafter⟩ := machine.admissible_append ha h₀
  obtain ⟨s₁,h₁,hsound,happ⟩ := exec_sound hbefore
  rw [h₀] at h₁
  cases h₁
  rw [machine.exec_append_ok h₀] at hs
  let s₂ : AsyncLogging := { s₀ with owner := .stopping, running := false }
  have hm : s₀.Moves s₂ := .clearRunning hen
  have hs₂ := hm.sound hsound
  have hstop : s₂.Stopping := .inl rfl
  rw [← happ]
  constructor
  · intro hall
    by_contra hno
    simp only [Flushing,not_or] at hno
    obtain ⟨hentry,hlock,hwait,hback⟩ := hno
    obtain ⟨e,he⟩ := List.exists_mem_of_ne_nil _ hback
    obtain ⟨hsnd,-,-,-,-,-,hb⟩ := exec_moves (I := Missed e) (fun _ _ _ h hm => hm.missed h) hs₂
      ⟨hstop,rfl,hentry,hlock,hwait,he⟩ hafter hs
    obtain ⟨-,hout,herased⟩ := hsnd.backlog_appended hb
    exact (hall e (hsound.backlog_appended he).1).elim hout herased
  · intro hflush
    by_cases hentry : s₀.thread = .entry
    · -- the thread sets `running_` again, and `join` never returns
      obtain ⟨-,-,hnot,-⟩ := exec_moves (I := Revived) (fun _ _ _ h hm => hm.revived h) hs₂
        ⟨hstop,nofun,.inl hentry⟩ hafter hs
      exact (hnot hr).elim
    · have hstart : Flushed s₀.appended s₂ := by
        refine ⟨hstop,List.Subset.refl _,?_⟩
        rcases hflush with ht | ht | ht | hempty
        · exact (hentry ht).elim
        · exact .inr (.inl ht)
        · exact .inr (.inr ht)
        · refine .inl fun e he => ?_
          rcases hs₂.settled_or_backlog he with h | h
          · exact h
          · rw [show s₂.backlog = s₀.backlog from rfl,hempty] at h
            cases h
      obtain ⟨hsnd,hflushed⟩ := exec_moves (I := Flushed s₀.appended) (fun _ _ hs h hm => hm.flushed hs h) hs₂
        hstart hafter hs
      exact hflushed.written hsnd hr

private def stopWhileWaiting : List LogOp := [.setRunning,.spawn,.run,.run,.run,.append [104,105] 9]

private def lastRound : List LogOp := [.signal,.run,.run,.run,.run,.run,.run,.join]

/-- A message appended while the thread waits is written before `stop()` returns. -/
theorem stop_flushes_waiting : ∃ s₀ s, machine.Admissible new (stopWhileWaiting ++ .clearRunning :: lastRound) ∧
    machine.exec new stopWhileWaiting = .ok s₀ ∧
    machine.exec new (stopWhileWaiting ++ .clearRunning :: lastRound) = .ok s ∧ s.owner = .stopped ∧
    ((∀ e ∈ entriesOf stopWhileWaiting, e ∈ s.output ∨ e ∈ s.erased) ↔ s₀.Flushing) := by
  have ha : machine.Admissible new (stopWhileWaiting ++ .clearRunning :: lastRound) := by decide +kernel
  obtain ⟨s₀,h₀,-⟩ : ∃ s₀, machine.exec new stopWhileWaiting = .ok s₀ ∧ s₀.thread = .waiting :=
    Meets.ok_of_no_error (Q := fun _ => False) (by decide +kernel) (fun _ => id)
  obtain ⟨s,hs,hr⟩ : ∃ s, machine.exec new (stopWhileWaiting ++ .clearRunning :: lastRound) = .ok s ∧
      s.owner = .stopped := Meets.ok_of_no_error (Q := fun _ => False) (by decide +kernel) (fun _ => id)
  exact ⟨s₀,s,ha,h₀,hs,hr,stop_flushes_iff stopWhileWaiting lastRound s₀ s ha h₀ hs hr⟩

private def appendBeforeTest : List LogOp := [.setRunning,.spawn,.run,.append [104,105] 9]

/-- A message appended while the thread is about to test the loop is lost: the thread ends
without another swap and `stop()` returns. -/
theorem stop_loses_message :
    machine.Admissible new (appendBeforeTest ++ .clearRunning :: [.signal,.run,.join]) ∧
    ∃ s, machine.exec new (appendBeforeTest ++ .clearRunning :: [.signal,.run,.join]) = .ok s ∧
      s.owner = .stopped ∧ ¬ ∀ e ∈ entriesOf appendBeforeTest, e ∈ s.output ∨ e ∈ s.erased := by
  refine ⟨by decide +kernel,?_⟩
  exact Meets.ok_of_no_error (Q := fun _ => False) (by decide +kernel) (fun _ => id)

end LearningMuduo.Logging.AsyncLogging
