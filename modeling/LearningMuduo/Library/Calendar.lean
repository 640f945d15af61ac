import Mathlib.Logic.Basic

/-! The calendar of UTC: a time in seconds since the start of 1970, broken down. -/
namespace LearningMuduo.Library

/-- Walks over periods of the given lengths from the i-th on, at most fuel of them: the
period in which the d-th day falls, and the days before it in that period. -/
def locate (len : Nat → Nat) : Nat → Nat → Nat → Nat × Nat
  | 0,i,d => (i,d)
  | fuel+1,i,d => if d < len i then (i,d) else locate len fuel (i+1) (d - len i)

/-- The days of n periods from the i-th on. -/
def span (len : Nat → Nat) : Nat → Nat → Nat
  | 0,_ => 0
  | n+1,i => len i + span len n (i+1)

private theorem le_locate (len : Nat → Nat) (fuel i d : Nat) : i ≤ (locate len fuel i d).1 := by
  induction fuel generalizing i d with
  | zero => exact Nat.le_refl i
  | succ fuel ih =>
    rw [locate]
    split
    · exact Nat.le_refl i
    · exact Nat.le_of_succ_le (ih (i+1) (d - len i))

/-- The days before the period and the days in it are all the days. -/
theorem span_locate (len : Nat → Nat) (fuel i d : Nat) :
    span len ((locate len fuel i d).1 - i) i + (locate len fuel i d).2 = d := by
  induction fuel generalizing i d with
  | zero => rw [locate,Nat.sub_self,span,Nat.zero_add]
  | succ fuel ih =>
    rw [locate]
    split
    · rw [Nat.sub_self,span,Nat.zero_add]
    · have hle := le_locate len fuel (i+1) (d - len i)
      have hlen : (locate len fuel (i+1) (d - len i)).1 - i = ((locate len fuel (i+1) (d - len i)).1 - (i+1)) + 1 := by
        omega
      have hrest := ih (i+1) (d - len i)
      rw [hlen,span]
      omega

/-- The day falls in one of the periods. -/
theorem locate_lt {len : Nat → Nat} {fuel i d : Nat} (h : d < span len fuel i) :
    (locate len fuel i d).1 < i + fuel ∧ (locate len fuel i d).2 < len (locate len fuel i d).1 := by
  induction fuel generalizing i d with
  | zero => exact (Nat.not_lt_zero d h).elim
  | succ fuel ih =>
    rw [span] at h
    rw [locate]
    split
    · next hd => exact ⟨Nat.lt_add_of_pos_right (Nat.succ_pos fuel),hd⟩
    · obtain ⟨hlt,hin⟩ := ih (show d - len i < span len fuel (i+1) by omega)
      exact ⟨by omega,hin⟩

private theorem le_span {len : Nat → Nat} (hlen : ∀ j, 0 < len j) (n i : Nat) : n ≤ span len n i := by
  induction n generalizing i with
  | zero => exact Nat.zero_le _
  | succ n ih =>
    have hi := hlen i
    have hrest := ih (i+1)
    rw [span]
    omega

/-- A later day falls in a later period, or later in the same one. -/
theorem locate_lt_locate {len : Nat → Nat} {fuel fuel' i d d' : Nat} (h : d < span len fuel i) (h' : d' < span len fuel' i)
    (hlt : d < d') : (locate len fuel i d).1 < (locate len fuel' i d').1 ∨
      (locate len fuel i d).1 = (locate len fuel' i d').1 ∧ (locate len fuel i d).2 < (locate len fuel' i d').2 := by
  induction fuel generalizing fuel' i d d' with
  | zero => exact (Nat.not_lt_zero d h).elim
  | succ fuel ih =>
    cases fuel' with
    | zero => exact (Nat.not_lt_zero d' h').elim
    | succ fuel' =>
      rw [span] at h h'
      rw [locate,locate]
      by_cases hd : d < len i
      · rw [if_pos hd]
        by_cases hd' : d' < len i
        · rw [if_pos hd']
          exact .inr ⟨rfl,hlt⟩
        · rw [if_neg hd']
          exact .inl (le_locate len fuel' (i+1) (d' - len i))
      · rw [if_neg hd,if_neg (by omega)]
        exact ih (by omega) (by omega) (by omega)

def IsLeap (year : Nat) : Prop := year % 4 = 0 ∧ (year % 100 ≠ 0 ∨ year % 400 = 0)

instance (year : Nat) : Decidable (IsLeap year) := inferInstanceAs (Decidable (_ ∧ (_ ∨ _)))

def yearDays (year : Nat) : Nat := if IsLeap year then 366 else 365

/-- Months count from 0. -/
def monthDays (year : Nat) : Nat → Nat
  | 1 => if IsLeap year then 29 else 28
  | 3 | 5 | 8 | 10 => 30
  | _ => 31

/-- Years count from 1900. -/
structure Tm where
  sec : Nat
  min : Nat
  hour : Nat
  mday : Nat
  mon : Nat
  year : Nat
  deriving DecidableEq, Repr

def gmtime (t : Nat) : Tm :=
  let days := t/86400
  let rem := t % 86400
  let year := locate yearDays (days+1) 1970 days
  let month := locate (monthDays year.1) 12 0 year.2
  { sec := rem % 60
    min := rem % 3600/60
    hour := rem/3600
    mday := month.2 + 1
    mon := month.1
    year := year.1 - 1900 }

private theorem span_monthDays (year : Nat) : span (monthDays year) 12 0 = yearDays year := by
  by_cases h : IsLeap year
  · simp [span,monthDays,yearDays,h]
  · simp [span,monthDays,yearDays,h]

private theorem yearDays_pos (year : Nat) : 0 < yearDays year := by
  rw [yearDays]
  split
  · exact Nat.succ_pos 365
  · exact Nat.succ_pos 364

private theorem monthDays_le (year mon : Nat) : monthDays year mon ≤ 31 := by
  unfold monthDays
  split
  · split
    · decide
    · decide
  · decide
  · decide
  · decide
  · decide
  · exact Nat.le_refl 31

/-- Every field but the year has at most two digits. -/
structure Tm.Small (t : Tm) : Prop where
  sec : t.sec < 100
  min : t.min < 100
  hour : t.hour < 100
  mday : t.mday < 100
  mon : t.mon + 1 < 100

instance (t : Tm) : Decidable t.Small :=
  decidable_of_iff (t.sec < 100 ∧ t.min < 100 ∧ t.hour < 100 ∧ t.mday < 100 ∧ t.mon + 1 < 100)
    ⟨fun ⟨sec,min,hour,mday,mon⟩ => ⟨sec,min,hour,mday,mon⟩,fun h => ⟨h.sec,h.min,h.hour,h.mday,h.mon⟩⟩

/-- All fields but the year are in their ranges. -/
theorem gmtime_small (t : Nat) : (gmtime t).Small := by
  have hyear := (locate_lt (Nat.lt_of_lt_of_le (Nat.lt_succ_self (t/86400))
    (le_span yearDays_pos _ 1970))).2
  have hmonth := locate_lt (Nat.lt_of_lt_of_eq hyear (span_monthDays _).symm)
  have hle := Nat.lt_of_lt_of_le hmonth.2 (monthDays_le _ _)
  have hmon := hmonth.1
  refine ⟨?_,?_,?_,?_,?_⟩
  · change t % 86400 % 60 < 100
    omega
  · change t % 86400 % 3600/60 < 100
    omega
  · change t % 86400/3600 < 100
    omega
  · exact Nat.lt_of_le_of_lt hle (by decide)
  · exact Nat.lt_of_le_of_lt hmon (by decide)

/-- Earlier on the calendar, and on the clock. -/
def Tm.Before (t u : Tm) : Prop :=
  t.year < u.year ∨ t.year = u.year ∧ (t.mon < u.mon ∨ t.mon = u.mon ∧ (t.mday < u.mday ∨ t.mday = u.mday ∧
    (t.hour < u.hour ∨ t.hour = u.hour ∧ (t.min < u.min ∨ t.min = u.min ∧ t.sec < u.sec))))

private theorem days_lt_span (days : Nat) : days < span yearDays (days+1) 1970 :=
  Nat.lt_of_lt_of_le (Nat.lt_succ_self days) (le_span yearDays_pos _ 1970)

private theorem day_lt_span (days : Nat) :
    (locate yearDays (days+1) 1970 days).2 < span (monthDays (locate yearDays (days+1) 1970 days).1) 12 0 :=
  Nat.lt_of_lt_of_eq (locate_lt (days_lt_span days)).2 (span_monthDays _).symm

/-- A later second is in no earlier year. -/
theorem gmtime_year_le {t u : Nat} (h : t ≤ u) : (gmtime t).year ≤ (gmtime u).year := by
  have hdays : t/86400 ≤ u/86400 := Nat.div_le_div_right h
  rcases Nat.eq_or_lt_of_le hdays with heq | hlt
  · simp only [gmtime,heq]
    exact Nat.le_refl _
  · refine Nat.sub_le_sub_right ?_ 1900
    rcases locate_lt_locate (days_lt_span _) (days_lt_span _) hlt with hyear | ⟨hyear,-⟩
    · exact Nat.le_of_lt hyear
    · exact Nat.le_of_eq hyear

/-- No second is before the year 1970. -/
theorem gmtime_year_ge (t : Nat) : 1970 ≤ (gmtime t).year + 1900 := by
  have hle := le_locate yearDays (t/86400+1) 1970 (t/86400)
  change 1970 ≤ (locate yearDays (t/86400+1) 1970 (t/86400)).1 - 1900 + 1900
  omega

/-- The calendar runs with the clock. -/
theorem gmtime_before {t u : Nat} (h : t < u) : (gmtime t).Before (gmtime u) := by
  have hle := le_locate yearDays (t/86400+1) 1970 (t/86400)
  have hle' := le_locate yearDays (u/86400+1) 1970 (u/86400)
  have hdays : t/86400 ≤ u/86400 := Nat.div_le_div_right (Nat.le_of_lt h)
  rcases Nat.eq_or_lt_of_le hdays with heq | hlt
  · refine .inr ⟨by simp only [gmtime,heq],.inr ⟨by simp only [gmtime,heq],.inr ⟨by simp only [gmtime,heq],?_⟩⟩⟩
    change t % 86400/3600 < u % 86400/3600 ∨ t % 86400/3600 = u % 86400/3600 ∧
      (t % 86400 % 3600/60 < u % 86400 % 3600/60 ∨ t % 86400 % 3600/60 = u % 86400 % 3600/60 ∧
        t % 86400 % 60 < u % 86400 % 60)
    omega
  · rcases locate_lt_locate (days_lt_span _) (days_lt_span _) hlt with hyear | ⟨hyear,hday⟩
    · refine .inl ?_
      change (locate yearDays (t/86400+1) 1970 (t/86400)).1 - 1900 < (locate yearDays (u/86400+1) 1970 (u/86400)).1 - 1900
      omega
    · refine .inr ⟨by simp only [gmtime,hyear],?_⟩
      have hspan := day_lt_span (t/86400)
      have hspan' := day_lt_span (u/86400)
      rw [← hyear] at hspan'
      rcases locate_lt_locate hspan hspan' hday with hmon | ⟨hmon,hmday⟩
      · refine .inl ?_
        change (locate (monthDays _) 12 0 _).1 < (locate (monthDays (locate yearDays (u/86400+1) 1970 (u/86400)).1) 12 0 _).1
        rw [← hyear]
        exact hmon
      · refine .inr ⟨?_,.inl ?_⟩
        · change (locate (monthDays _) 12 0 _).1 = (locate (monthDays (locate yearDays (u/86400+1) 1970 (u/86400)).1) 12 0 _).1
          rw [← hyear]
          exact hmon
        · change (locate (monthDays _) 12 0 _).2 + 1 < (locate (monthDays (locate yearDays (u/86400+1) 1970 (u/86400)).1) 12 0 _).2 + 1
          rw [← hyear]
          exact Nat.succ_lt_succ hmday

/-- A time is read off its calendar fields. -/
theorem gmtime_injective {t t' : Nat} (h : gmtime t = gmtime t') : t = t' := by
  simp only [gmtime,Tm.mk.injEq] at h
  obtain ⟨hsec,hmin,hhour,hmday,hmon,hyear⟩ := h
  have hle := le_locate yearDays (t/86400+1) 1970 (t/86400)
  have hle' := le_locate yearDays (t'/86400+1) 1970 (t'/86400)
  have hyear : (locate yearDays (t/86400+1) 1970 (t/86400)).1 = (locate yearDays (t'/86400+1) 1970 (t'/86400)).1 := by
    omega
  have hyday : (locate yearDays (t/86400+1) 1970 (t/86400)).2 = (locate yearDays (t'/86400+1) 1970 (t'/86400)).2 := by
    rw [hyear] at hmon hmday
    rw [← span_locate (monthDays _) 12 0 (locate yearDays (t/86400+1) 1970 (t/86400)).2,hmon,Nat.succ.inj hmday,
      span_locate]
  have hdays : t/86400 = t'/86400 := by
    rw [← span_locate yearDays (t/86400+1) 1970 (t/86400),hyear,hyday,span_locate]
  omega

example : gmtime 1709164799 = ⟨59,59,23,28,1,124⟩ := by decide

end LearningMuduo.Library
