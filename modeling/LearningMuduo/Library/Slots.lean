import Mathlib.Data.List.Basic

/-! A table of numbered slots: whoever asks gets the lowest one that is free. -/
namespace LearningMuduo.Library

/-- The holder of each slot. -/
abbrev Slots (ω : Type) := List (Option ω)

namespace Slots
variable {ω : Type} {t : Slots ω} {j k : Nat}

def lowest (t : Slots ω) : Option Nat := t.findIdx? Option.isNone

def holder (t : Slots ω) (k : Nat) : Option ω := t[k]?.join

/-- A slot has what was last put there. -/
theorem holder_set (h : k < t.length) (w : Option ω) (j : Nat) : holder (t.set k w) j = if j = k then w else t.holder j := by
  unfold holder
  by_cases hj : j = k
  · rw [if_pos hj,hj,List.getElem?_set_self h,Option.join_some]
  · rw [if_neg hj,List.getElem?_set_ne (Ne.symm hj)]

/-- A slot that is held is in the table. -/
theorem lt_of_holder {w : ω} (h : t.holder k = some w) : k < t.length := by
  by_contra hge
  rw [holder,List.getElem?_eq_none (Nat.le_of_not_lt hge)] at h
  cases h

/-- Who holds a slot is in the table. -/
theorem mem_of_holder {w : ω} (h : t.holder k = some w) : some w ∈ t := by
  have hlt := lt_of_holder h
  rw [holder,List.getElem?_eq_getElem hlt,Option.join_some] at h
  exact h ▸ List.getElem_mem hlt

/-- The lowest free slot is free. -/
theorem lowest_spec (h : t.lowest = some k) : k < t.length ∧ t.holder k = none := by
  obtain ⟨hlt,hnone,-⟩ := List.findIdx?_eq_some_iff_getElem.mp h
  refine ⟨hlt,?_⟩
  rw [holder,List.getElem?_eq_getElem hlt,Option.join_some]
  exact Option.isNone_iff_eq_none.mp hnone

private theorem lowest_ne_none (hlt : k < t.length) (h : t.holder k = none) : t.lowest ≠ none := by
  intro hfull
  rw [holder,List.getElem?_eq_getElem hlt,Option.join_some] at h
  have hall := List.findIdx?_eq_none_iff.mp hfull t[k] (List.getElem_mem hlt)
  rw [h] at hall
  cases hall

/-- To free a slot leaves one free. -/
theorem lowest_set_none {w : ω} (h : t.holder k = some w) : lowest (t.set k none) ≠ none := by
  have hlt := lt_of_holder h
  refine lowest_ne_none (k := k) (by rwa [List.length_set]) ?_
  rw [holder_set hlt,if_pos rfl]

end Slots
end LearningMuduo.Library
