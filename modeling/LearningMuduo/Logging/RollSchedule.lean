import LearningMuduo.Logging.LogFile

/-! When the log file checks the time: how often, and what that means for the daily roll and the flush. -/
namespace LearningMuduo.Logging.LogFile
open Library Common

def startOfDay (now : Nat) : Nat := now/kRollPerSeconds*kRollPerSeconds

/-- The time check of `append_unlocked`. -/
def checkTime (s : LogFile) (now rollNow : Nat) : LogFile :=
  if startOfDay now ≠ s.startOfPeriod then s.rollFile rollNow
  else if (now - s.lastFlush : Int) > s.flushInterval then { s.flush with lastFlush := now }
  else s

/-- An append that does not trigger a size roll. -/
def Ordinary (s : LogFile) : LogFileEvent → Prop
  | .append msg results drained _ _ => (s.appendFile msg results drained).file.writtenBytes ≤ s.rollSize
  | .flush => False

instance (s : LogFile) : (a : LogFileEvent) → Decidable (s.Ordinary a)
  | .append .. => inferInstanceAs (Decidable (_ ≤ _))
  | .flush => isFalse id

/-- An ordinary append at which the count is full. -/
def ChecksTime (s : LogFile) (a : LogFileEvent) : Prop := s.Ordinary a ∧ s.checkEveryN % 2^64 ≤ (s.count + 1 : Nat)

instance (s : LogFile) (a : LogFileEvent) : Decidable (s.ChecksTime a) := inferInstanceAs (Decidable (_ ∧ _))

variable {s t : LogFile} {a : LogFileEvent} {msg : List UInt8} {results : List Nat} {drained now rollNow : Nat}

/-! The three ways through `append_unlocked`. -/

private theorem appendUnlocked_large (h : ¬ s.Ordinary (.append msg results drained now rollNow)) :
    s.appendUnlocked msg results drained now rollNow = (s.appendFile msg results drained).rollFile rollNow :=
  if_pos (Nat.not_le.mp h)

private theorem appendUnlocked_checks (h : s.ChecksTime (.append msg results drained now rollNow)) :
    s.appendUnlocked msg results drained now rollNow =
      { s.appendFile msg results drained with count := 0 }.checkTime now rollNow :=
  (if_neg (Nat.not_lt.mpr h.1)).trans (if_pos h.2)

private theorem appendUnlocked_counts (h : s.Ordinary (.append msg results drained now rollNow))
    (hcheck : ¬ s.ChecksTime (.append msg results drained now rollNow)) :
    s.appendUnlocked msg results drained now rollNow = { s.appendFile msg results drained with count := s.count + 1 } :=
  (if_neg (Nat.not_lt.mpr h)).trans (if_neg fun hfull => hcheck ⟨h,hfull⟩)

private theorem checkTime_roll (h : startOfDay now ≠ s.startOfPeriod) : s.checkTime now rollNow = s.rollFile rollNow := if_pos h

private theorem checkTime_same (h : startOfDay now = s.startOfPeriod) : s.checkTime now rollNow =
    if s.flushInterval < (now - s.lastFlush : Int) then { s.flush with lastFlush := now } else s :=
  if_neg (not_not.mpr h)

private theorem checkTime_late (h : startOfDay now = s.startOfPeriod) (hlate : s.flushInterval < (now : Int) - s.lastFlush) :
    s.checkTime now rollNow = { s.flush with lastFlush := now } := (checkTime_same h).trans (if_pos hlate)

/-- The test of the time does not count. -/
@[simp] theorem checkTime_count : (s.checkTime now rollNow).count = s.count := by
  unfold checkTime
  split_ifs <;> rfl

/-- The test of the time leaves the member that is never initialised alone. -/
@[simp] theorem checkTime_checkEveryN : (s.checkTime now rollNow).checkEveryN = s.checkEveryN := by
  unfold checkTime
  split_ifs <;> rfl

/-- One event. Nothing in this class fails. -/
def next (s : LogFile) : LogFileEvent → LogFile
  | .append msg results drained now rollNow =>
    { s.appendUnlocked msg results drained now rollNow with clock := rollNow }
  | .flush => s.flush

private theorem code_eq_next (s : LogFile) (a : LogFileEvent) : s.code a = .ok (s.next a) := by cases a <;> rfl

private theorem exec_eq_next (s : LogFile) (events : List LogFileEvent) : machine.exec s events = .ok (events.foldl next s) := by
  induction events generalizing s with
  | nil => rfl
  | cons a events ih =>
    change (s.code a >>= fun t => machine.exec t events) = _
    rw [code_eq_next,bind_ok]
    exact ih _

private theorem checkTime_startOfPeriod : (s.checkTime now rollNow).startOfPeriod =
    if startOfDay now = s.startOfPeriod then s.startOfPeriod else startOfDay rollNow := by
  by_cases hday : startOfDay now = s.startOfPeriod
  · rw [checkTime_same hday,if_pos hday]
    split <;> rfl
  · rw [checkTime_roll hday,if_neg hday]
    rfl

private theorem next_count_of_ordinary (h : s.Ordinary a) : (s.next a).count = if s.ChecksTime a then 0 else s.count + 1 := by
  cases a with
  | append msg results drained now rollNow =>
    change (s.appendUnlocked msg results drained now rollNow).count = _
    split
    · rw [appendUnlocked_checks ‹_›,checkTime_count]
    · rw [appendUnlocked_counts h ‹_›]
  | flush => exact h.elim

private theorem next_count_of_not_ordinary (h : ¬ s.Ordinary a) : (s.next a).count = s.count := by
  cases a with
  | append msg results drained now rollNow =>
    change (s.appendUnlocked msg results drained now rollNow).count = _
    rw [appendUnlocked_large h]
    rfl
  | flush => rfl

/-- So does every event. -/
@[simp] theorem next_checkEveryN : (s.next a).checkEveryN = s.checkEveryN := by
  cases a with
  | append msg results drained now rollNow =>
    change (s.appendUnlocked msg results drained now rollNow).checkEveryN = _
    by_cases ho : s.Ordinary (.append msg results drained now rollNow)
    · by_cases hc : s.ChecksTime (.append msg results drained now rollNow)
      · rw [appendUnlocked_checks hc,checkTime_checkEveryN]
        rfl
      · rw [appendUnlocked_counts ho hc]
        rfl
    · rw [appendUnlocked_large ho]
      rfl
  | flush => rfl

/-- How many events of the run are as P says, each in the state in which it comes. -/
def tally (P : LogFile → LogFileEvent → Prop) [∀ s a, Decidable (P s a)] (s : LogFile) : List LogFileEvent → Nat
  | [] => 0
  | a :: events => (if P s a then 1 else 0) + tally P (s.next a) events

/-- Neither reading falls into that day. -/
def OutsideDay (day : Nat) : LogFileEvent → Prop
  | .append _ _ _ now rollNow => startOfDay now ≠ day ∧ startOfDay rollNow ≠ day
  | .flush => True

/-- The schedule for a check on every N-th append, over all runs from s and whatever the clock reads. -/
structure OnSchedule (N : Nat) (s : LogFile) : Prop where
  everyNth : ∀ events t a, machine.exec s events = .ok t → t.Ordinary a →
    (t.ChecksTime a ↔ N ∣ tally Ordinary s events + 1)
  newDay : ∀ events t later, machine.exec s events = .ok t → (∀ a ∈ later, OutsideDay t.startOfPeriod a) →
    tally (fun u a => u.Ordinary a ∧ u.startOfPeriod = t.startOfPeriod) t later ≤ N
  flushes : ∀ events t msg results drained now rollNow, machine.exec s events = .ok t →
    t.ChecksTime (.append msg results drained now rollNow) → startOfDay now = t.startOfPeriod →
    t.flushInterval < (now : Int) - t.lastFlush →
    (t.next (.append msg results drained now rollNow)).file.pending = [] ∧
      (t.next (.append msg results drained now rollNow)).lastFlush = now

/-- How many ordinary appends there are from one check to the next. -/
def period (s : LogFile) : Nat := max 1 (s.checkEveryN % 2^64).toNat

private theorem period_pos (s : LogFile) : 0 < s.period := Nat.le_max_left 1 _

/-- No event changes the period of the tests. -/
@[simp] theorem next_period : (s.next a).period = s.period := by rw [period,next_checkEveryN,period]

private theorem checksTime_iff (h : s.Ordinary a) (hcount : s.count < s.period) : s.ChecksTime a ↔ s.count + 1 = s.period := by
  have hdef : s.period = max 1 (s.checkEveryN % 2^64).toNat := rfl
  rw [ChecksTime,and_iff_right h]
  omega

private theorem mod_add_one_eq_iff {k n : Nat} (hn : 0 < n) : k % n + 1 = n ↔ n ∣ k + 1 := by
  obtain ⟨m,rfl⟩ := Nat.exists_eq_succ_of_ne_zero hn.ne'
  rw [Nat.dvd_iff_mod_eq_zero,Nat.succ_mod_succ_eq_zero_iff,Nat.succ_inj]

/-- A check starts the count again, and only ordinary appends are counted. -/
theorem next_count (h : s.count < s.period) :
    (s.next a).count = (s.count + if s.Ordinary a then 1 else 0) % s.period := by
  by_cases ho : s.Ordinary a
  · rw [next_count_of_ordinary ho,if_pos ho]
    split
    · rw [(checksTime_iff ho h).mp ‹_›,Nat.mod_self]
    · have hne : s.count + 1 ≠ s.period := fun heq => ‹¬ s.ChecksTime a› ((checksTime_iff ho h).mpr heq)
      rw [Nat.mod_eq_of_lt (Nat.lt_of_le_of_ne h hne)]
  · rw [next_count_of_not_ordinary ho,if_neg ho,Nat.add_zero,Nat.mod_eq_of_lt h]

private theorem foldl_next_period (events : List LogFileEvent) (s : LogFile) : (events.foldl next s).period = s.period := by
  induction events generalizing s with
  | nil => rfl
  | cons a events ih => rw [List.foldl_cons,ih,next_period]

private theorem foldl_next_count (events : List LogFileEvent) (s : LogFile) (h : s.count < s.period) :
    (events.foldl next s).count = (s.count + tally Ordinary s events) % s.period := by
  induction events generalizing s with
  | nil => exact (Nat.mod_eq_of_lt h).symm
  | cons a events ih =>
    have hnext : (s.next a).count < (s.next a).period := by
      rw [next_count h,next_period]
      exact Nat.mod_lt _ s.period_pos
    rw [List.foldl_cons,ih _ hnext,next_period,next_count h,Nat.mod_add_mod,tally,Nat.add_assoc]

/-- While the clock is outside a day, no file of that day is begun, and a check leaves the one there is. -/
theorem next_leaves {day : Nat} (h : OutsideDay day a) (hleave : s.startOfPeriod ≠ day ∨ s.ChecksTime a) :
    (s.next a).startOfPeriod ≠ day := by
  cases a with
  | append msg results drained now rollNow =>
    change (s.appendUnlocked msg results drained now rollNow).startOfPeriod ≠ day
    by_cases ho : s.Ordinary (.append msg results drained now rollNow)
    · by_cases hc : s.ChecksTime (.append msg results drained now rollNow)
      · rw [appendUnlocked_checks hc,checkTime_startOfPeriod]
        split
        · exact ‹startOfDay now = _› ▸ h.1
        · exact h.2
      · rw [appendUnlocked_counts ho hc]
        exact hleave.resolve_right hc
    · rw [appendUnlocked_large ho]
      exact h.2
  | flush => exact hleave.resolve_right fun hc => hc.1

/-- Outside a day, only the appends up to the next check go to a file of that day. -/
theorem tally_stale_le {day : Nat} (later : List LogFileEvent) (s : LogFile) (hout : ∀ a ∈ later, OutsideDay day a)
    (hcount : s.count < s.period) :
    tally (fun u a => u.Ordinary a ∧ u.startOfPeriod = day) s later ≤
      if s.startOfPeriod = day then s.period - s.count else 0 := by
  induction later generalizing s with
  | nil => exact Nat.zero_le _
  | cons a later ih =>
    have hnext : (s.next a).count < (s.next a).period := by
      rw [next_count hcount,next_period]
      exact Nat.mod_lt _ s.period_pos
    have hfirst : OutsideDay day a := hout a List.mem_cons_self
    have hrest := ih (s.next a) (fun b hb => hout b (List.mem_cons_of_mem a hb)) hnext
    rw [tally]
    by_cases hday : s.startOfPeriod = day
    · rw [if_pos hday]
      by_cases ho : s.Ordinary a
      · rw [if_pos ⟨ho,hday⟩]
        by_cases hc : s.ChecksTime a
        · rw [if_neg (next_leaves hfirst (.inr hc))] at hrest
          omega
        · rw [next_count_of_ordinary ho,if_neg hc,next_period] at hrest
          have hne : s.count + 1 ≠ s.period := fun heq => hc ((checksTime_iff ho hcount).mpr heq)
          split at hrest <;> omega
      · rw [next_count_of_not_ordinary ho,next_period] at hrest
        rw [if_neg fun h => ho h.1]
        split at hrest <;> omega
    · rw [if_neg (next_leaves hfirst (.inl hday))] at hrest
      rw [if_neg hday,if_neg fun h => hday h.2]
      omega

private theorem flushes_late (hc : s.ChecksTime (.append msg results drained now rollNow)) (hday : startOfDay now = s.startOfPeriod)
    (hlate : s.flushInterval < (now : Int) - s.lastFlush) :
    (s.next (.append msg results drained now rollNow)).file.pending = [] ∧
      (s.next (.append msg results drained now rollNow)).lastFlush = now := by
  have hrun : s.appendUnlocked msg results drained now rollNow =
      { flush { s.appendFile msg results drained with count := 0 } with lastFlush := now } :=
    (appendUnlocked_checks hc).trans (checkTime_late (s := { s.appendFile msg results drained with count := 0 }) hday hlate)
  rw [next,hrun]
  exact ⟨List.drop_length,rfl⟩

private theorem exec_foldl {events : List LogFileEvent} (h : machine.exec s events = .ok t) : t = events.foldl next s :=
  (Except.ok.inj ((exec_eq_next s events).symm.trans h)).symm

/-- A count that starts at zero makes the period the only thing that matters. -/
theorem onSchedule_of_period (hcount : s.count = 0) : OnSchedule s.period s := by
  have hstart : s.count < s.period := hcount ▸ s.period_pos
  have hkept (events : List LogFileEvent) : (events.foldl next s).count < (events.foldl next s).period := by
    rw [foldl_next_count events s hstart,foldl_next_period]
    exact Nat.mod_lt _ s.period_pos
  refine ⟨?_,?_,?_⟩
  · intro events t a he ho
    obtain rfl := exec_foldl he
    rw [checksTime_iff ho (hkept events),foldl_next_period,foldl_next_count events s hstart,hcount,Nat.zero_add]
    exact mod_add_one_eq_iff s.period_pos
  · intro events t later he hout
    obtain rfl := exec_foldl he
    have hle := tally_stale_le later (events.foldl next s) hout (hkept events)
    rw [if_pos rfl,foldl_next_period] at hle
    exact hle.trans (Nat.sub_le _ _)
  · intro events t msg results drained now rollNow _ hc hday hlate
    exact flushes_late hc hday hlate

variable {basename : List UInt8} {rollSize N : Nat} {flushInterval memory : Int}

/-- An append of nothing, in one and the same second. -/
def idle (now : Nat) : LogFileEvent := .append [] [] 0 now now

/-- An empty file, in the day in which it was opened. -/
structure Fresh (s : LogFile) (now : Nat) : Prop where
  empty : s.file.writtenBytes = 0
  today : s.startOfPeriod = startOfDay now

private theorem Fresh.ordinary (h : s.Fresh now) : s.Ordinary (idle now) := by
  change (s.file.append [] []).writtenBytes ≤ s.rollSize
  rw [AppendFile.append_nil,h.empty]
  exact Nat.zero_le _

private theorem Fresh.checkTime (h : s.Fresh now) : (s.checkTime now now).Fresh now := by
  rw [checkTime_same h.today.symm]
  split
  · exact ⟨h.empty,h.today⟩
  · exact h

/-- A log that is fresh stays so when nothing rolls. -/
theorem Fresh.next (h : s.Fresh now) : (s.next (idle now)).Fresh now := by
  have hempty : (s.appendFile [] [] 0).file.writtenBytes = 0 := by
    change (s.file.append [] []).writtenBytes = 0
    rw [AppendFile.append_nil]
    exact h.empty
  have hkeep : (s.appendUnlocked [] [] 0 now now).Fresh now := by
    by_cases hc : s.ChecksTime (idle now)
    · rw [appendUnlocked_checks hc]
      exact Fresh.checkTime ⟨hempty,h.today⟩
    · rw [appendUnlocked_counts h.ordinary hc]
      exact ⟨hempty,h.today⟩
  exact ⟨hkeep.empty,hkeep.today⟩

private theorem Fresh.tally (k : Nat) (s : LogFile) (h : s.Fresh now) :
    tally Ordinary s (List.replicate k (idle now)) = k ∧ ((List.replicate k (idle now)).foldl LogFile.next s).Fresh now := by
  induction k generalizing s with
  | zero => exact ⟨rfl,h⟩
  | succ k ih =>
    obtain ⟨hcount,hfresh⟩ := ih (s.next (idle now)) h.next
    rw [List.replicate_succ,LogFile.tally,if_pos h.ordinary,hcount]
    exact ⟨Nat.add_comm 1 k,hfresh⟩

/-- Appends of nothing show the period. -/
theorem Fresh.period_eq (h : s.Fresh now) (hcount : s.count = 0) (hN : 1 ≤ N) (hon : OnSchedule N s) : s.period = N := by
  have hiff (k : Nat) : s.period ∣ k + 1 ↔ N ∣ k + 1 := by
    obtain ⟨htally,hfresh⟩ := h.tally k s
    have hrun := exec_eq_next s (List.replicate k (idle now))
    rw [← htally]
    exact ((onSchedule_of_period hcount).everyNth _ _ _ hrun hfresh.ordinary).symm.trans
      (hon.everyNth _ _ _ hrun hfresh.ordinary)
  apply Nat.dvd_antisymm
  · have hdvd := hiff (N - 1)
    rw [Nat.sub_add_cancel hN] at hdvd
    exact hdvd.mpr dvd_rfl
  · have hdvd := hiff (s.period - 1)
    rw [Nat.sub_add_cancel s.period_pos] at hdvd
    exact hdvd.mp dvd_rfl

/-- A new log is fresh in the second of its file. -/
theorem new_fresh (basename : List UInt8) (rollSize : Nat) (flushInterval arg memory : Int) (now : Nat) :
    (new basename rollSize flushInterval arg memory now).Fresh now := by
  refine ⟨?_,rfl⟩
  change Directory.fileEnd (Directory.fopen [] _) _ = 0
  rw [Directory.fopen_of_forall_ne fun _ hf => (List.not_mem_nil hf).elim]
  exact Directory.fileEnd_append_new fun _ hf => (List.not_mem_nil hf).elim

/-- The parameter `checkEveryN_` hides the member, so the schedule is kept exactly when what lay in the member's
memory happens to give that period: 0 counts as 1, and a negative int as a large `size_t`. -/
theorem rolls_on_schedule_iff (hN : 1 ≤ N) :
    OnSchedule N (new basename rollSize flushInterval N memory now) ↔ max 1 (memory % 2^64) = (N : Int) := by
  have hperiod : (new basename rollSize flushInterval N memory now).period = max 1 (memory % 2^64).toNat := rfl
  constructor
  · intro hon
    have heq := (new_fresh basename rollSize flushInterval N memory now).period_eq rfl hN hon
    omega
  · intro hmemory
    have heq : (new basename rollSize flushInterval N memory now).period = N := by omega
    exact heq ▸ onSchedule_of_period rfl

/-- Memory that happens to be zero tests the time at every append. -/
theorem rolls_on_schedule_zero : OnSchedule 1 (new [108,111,103] 10 3 1 0 1709164790) :=
  (rolls_on_schedule_iff (N := 1) le_rfl).mpr (by decide)

/-- Asked to check on every append, the log file waits for the 1024th. -/
theorem checks_too_late : ¬ OnSchedule 1 (new [108,111,103] 10 3 1 1024 1709164790) := by
  intro h
  have hfirst := h.everyNth [] _ (idle 1709164790) rfl (new_fresh _ _ _ _ _ _).ordinary
  exact absurd (hfirst.mpr (one_dvd _)).2 (by decide)

end LearningMuduo.Logging.LogFile
