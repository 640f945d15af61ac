import Mathlib.Algebra.Order.Ring.Int
import Mathlib.Data.List.Nodup
import Mathlib.Data.List.Perm.Basic
import Mathlib.Data.List.TakeWhile

/-! Ordered sets as lists sorted by a key, with the operations of `std::set`. -/
namespace LearningMuduo.Library

/-- Elements in strictly increasing order of their keys. -/
structure OrderedSet {α κ : Type} [LinearOrder κ] (key : α → κ) where
  elems : List α
  sorted : elems.Pairwise (fun a b => key a < key b)

namespace OrderedSet
variable {α κ : Type} [LinearOrder κ] {key : α → κ}

instance : Membership α (OrderedSet key) := ⟨fun s x => x ∈ s.elems⟩

/-- A member is an element of the list. -/
theorem mem_def {s : OrderedSet key} {x : α} : x ∈ s ↔ x ∈ s.elems := Iff.rfl

def empty : OrderedSet key := ⟨[],List.Pairwise.nil⟩

def size (s : OrderedSet key) : Nat := s.elems.length

def find (s : OrderedSet key) (k : κ) : Option α := s.elems.find? (fun y => key y = k)

/-- Insertion into a sorted list; an equal key keeps the old element. -/
def insertElem (key : α → κ) (x : α) : List α → List α
  | [] => [x]
  | y :: ys =>
    if key x < key y then x :: y :: ys
    else if key y < key x then y :: insertElem key x ys
    else y :: ys

private theorem key_lt_insertElem {k : κ} {x : α} {l : List α} (hx : k < key x) (h : ∀ z ∈ l, k < key z) :
    ∀ z ∈ insertElem key x l, k < key z := by
  induction l with
  | nil =>
    intro z hz
    rw [List.mem_singleton.mp hz]
    exact hx
  | cons y ys ih =>
    have hy := h y List.mem_cons_self
    have hys := fun z hz => h z (List.mem_cons_of_mem y hz)
    intro z hz
    unfold insertElem at hz
    split at hz
    · rcases List.mem_cons.mp hz with rfl | hz
      · exact hx
      · exact h z hz
    · split at hz
      · rcases List.mem_cons.mp hz with rfl | hz
        · exact hy
        · exact ih hys z hz
      · exact h z hz

private theorem insertElem_sorted (x : α) {l : List α} (h : l.Pairwise (fun a b => key a < key b)) :
    (insertElem key x l).Pairwise (fun a b => key a < key b) := by
  induction l with
  | nil => exact List.pairwise_singleton _ _
  | cons y ys ih =>
    obtain ⟨hy,hys⟩ := List.pairwise_cons.mp h
    unfold insertElem
    split
    · rename_i hxy
      apply List.pairwise_cons.mpr ⟨?_,h⟩
      intro z hz
      rcases List.mem_cons.mp hz with rfl | hz
      · exact hxy
      · exact hxy.trans (hy z hz)
    · split
      · rename_i hyx
        exact List.pairwise_cons.mpr ⟨key_lt_insertElem hyx hy,ih hys⟩
      · exact h

private theorem insertElem_perm {x : α} {l : List α} (h : ∀ y ∈ l, key y ≠ key x) :
    (insertElem key x l).Perm (x :: l) := by
  induction l with
  | nil => exact List.Perm.refl _
  | cons y ys ih =>
    have hys := ih (fun z hz => h z (List.mem_cons_of_mem y hz))
    unfold insertElem
    split
    · exact List.Perm.refl _
    · rename_i hxy
      rw [if_pos (lt_of_le_of_ne (not_lt.mp hxy) (h y List.mem_cons_self))]
      exact (hys.cons y).trans (List.Perm.swap x y ys)

/-- `insert`, with the flag of the pair it returns. -/
def insert (s : OrderedSet key) (x : α) : OrderedSet key × Bool :=
  match s.find (key x) with
  | some _ => (s,false)
  | none => (⟨insertElem key x s.elems,insertElem_sorted x s.sorted⟩,true)

/-- `erase` by key, with the number of elements removed. -/
def erase (s : OrderedSet key) (k : κ) : OrderedSet key × Nat :=
  (⟨s.elems.filter (fun y => key y ≠ k),s.sorted.filter _⟩,s.elems.countP (fun y => key y = k))

/-- The elements before `lower_bound(k)`. -/
def below (s : OrderedSet key) (k : κ) : List α := s.elems.takeWhile (fun y => key y < k)

/-- What is left when they are erased. -/
def above (s : OrderedSet key) (k : κ) : OrderedSet key :=
  ⟨s.elems.dropWhile (fun y => key y < k),s.sorted.sublist (List.dropWhile_sublist _)⟩

def begin (s : OrderedSet key) : Option α := s.elems.head?

variable {s : OrderedSet key}

/-- What is found is a member with the key. -/
theorem find_some {k : κ} {x : α} (h : s.find k = some x) : x ∈ s ∧ key x = k :=
  ⟨List.mem_of_find?_eq_some h,by simpa using List.find?_some h⟩

/-- A new key is inserted. -/
theorem insert_fresh {x : α} (h : ∀ y ∈ s, key y ≠ key x) :
    (s.insert x).2 = true ∧ (s.insert x).1.elems.Perm (x :: s.elems) := by
  have hf : s.find (key x) = none := by
    apply List.find?_eq_none.mpr
    intro y hy
    simpa using h y hy
  unfold insert
  rw [hf]
  exact ⟨rfl,insertElem_perm h⟩

/-- A member is found. -/
theorem find_ne_none {x : α} (h : x ∈ s) : s.find (key x) ≠ none := by
  intro hf
  exact List.find?_eq_none.mp hf x h (by simp)

/-- An insertion keeps the members. -/
theorem mem_insert_of_mem {x y : α} (h : y ∈ s) : y ∈ (s.insert x).1 := by
  cases hf : s.find (key x) with
  | some z =>
    rw [insert,hf]
    exact h
  | none =>
    have hfresh : ∀ z ∈ s, key z ≠ key x := by
      intro z hz hk
      exact find_ne_none hz (hk ▸ hf)
    exact (insert_fresh hfresh).2.mem_iff.mpr (List.mem_cons_of_mem x h)

/-- An insertion adds nothing but x. -/
theorem mem_of_mem_insert {x y : α} (h : y ∈ (s.insert x).1) : y = x ∨ y ∈ s := by
  cases hf : s.find (key x) with
  | some z =>
    rw [insert,hf] at h
    exact .inr h
  | none =>
    have hfresh : ∀ z ∈ s, key z ≠ key x := by
      intro z hz hk
      exact find_ne_none hz (hk ▸ hf)
    exact List.mem_cons.mp ((insert_fresh hfresh).2.mem_iff.mp h)

/-- A set of keys holds what was inserted. -/
theorem mem_insert_self {s : OrderedSet (id : κ → κ)} (x : κ) : x ∈ (s.insert x).1 := by
  cases hf : s.find (id x) with
  | some z =>
    obtain ⟨hz,hk⟩ := find_some hf
    rw [insert,hf]
    exact (show z = x from hk) ▸ hz
  | none =>
    have hfresh : ∀ z ∈ s, id z ≠ id x := by
      intro z hz hk
      exact find_ne_none hz (hk ▸ hf)
    exact (insert_fresh hfresh).2.mem_iff.mpr List.mem_cons_self

/-- Erasing the key of an element removes that element and no other. -/
theorem erase_mem {x : α} (h : x ∈ s) :
    (s.erase (key x)).2 = 1 ∧ s.elems.Perm (x :: (s.erase (key x)).1.elems) := by
  obtain ⟨l,r,hl⟩ := List.append_of_mem (mem_def.mp h)
  have hsorted := s.sorted
  rw [hl,List.pairwise_append] at hsorted
  obtain ⟨_,hxr,hlx⟩ := hsorted
  have hleft : ∀ y ∈ l, key y ≠ key x := fun y hy => (hlx y hy x List.mem_cons_self).ne
  have hright : ∀ y ∈ r, key y ≠ key x := fun y hy => ((List.pairwise_cons.mp hxr).1 y hy).ne'
  have hl0 : l.countP (fun y => key y = key x) = 0 := by
    apply List.countP_eq_zero.mpr
    intro y hy
    simpa using hleft y hy
  have hr0 : r.countP (fun y => key y = key x) = 0 := by
    apply List.countP_eq_zero.mpr
    intro y hy
    simpa using hright y hy
  have hlf : l.filter (fun y => key y ≠ key x) = l := by
    apply List.filter_eq_self.mpr
    intro y hy
    simpa using hleft y hy
  have hrf : r.filter (fun y => key y ≠ key x) = r := by
    apply List.filter_eq_self.mpr
    intro y hy
    simpa using hright y hy
  have helems : (s.erase (key x)).1.elems = l ++ r := by
    change s.elems.filter _ = _
    rw [hl,List.filter_append,List.filter_cons_of_neg (by simp),hlf,hrf]
  constructor
  · change s.elems.countP _ = 1
    rw [hl,List.countP_append,List.countP_cons_of_pos (by simp),hl0,hr0]
  · rw [helems,hl]
    exact List.perm_middle

/-- A key cuts the set in two. -/
theorem below_append_above (s : OrderedSet key) (k : κ) : s.below k ++ (s.above k).elems = s.elems :=
  List.takeWhile_append_dropWhile

private theorem le_of_mem_dropWhile {k : κ} {l : List α} (hl : l.Pairwise (fun a b => key a < key b)) :
    ∀ x ∈ l.dropWhile (fun y => key y < k), k ≤ key x := by
  induction l with
  | nil => exact fun x hx => (List.not_mem_nil hx).elim
  | cons y ys ih =>
    obtain ⟨hy,hys⟩ := List.pairwise_cons.mp hl
    intro x hx
    by_cases hk : key y < k
    · rw [List.dropWhile_cons_of_pos (by simpa using hk)] at hx
      exact ih hys x hx
    · rw [List.dropWhile_cons_of_neg (by simpa using hk)] at hx
      rcases List.mem_cons.mp hx with rfl | hx
      · exact not_lt.mp hk
      · exact (not_lt.mp hk).trans (hy x hx).le

/-- What is not below k is at k or above. -/
theorem le_of_mem_above {k : κ} {x : α} (h : x ∈ s.above k) : k ≤ key x :=
  le_of_mem_dropWhile s.sorted x h

/-- What lies before `lower_bound(k)` are the elements with smaller keys. -/
theorem below_eq_filter (s : OrderedSet key) (k : κ) : s.below k = s.elems.filter (fun y => key y < k) := by
  have hbelow : (s.below k).filter (fun y => key y < k) = s.below k := by
    refine List.filter_eq_self.mpr fun y hy => ?_
    exact List.mem_takeWhile_imp (p := fun y => decide (key y < k)) hy
  have habove : (s.above k).elems.filter (fun y => key y < k) = [] := by
    refine List.filter_eq_nil_iff.mpr fun y hy => ?_
    have hle := le_of_mem_above (mem_def.mpr hy)
    simpa using hle
  rw [← below_append_above s k,List.filter_append,hbelow,habove,List.append_nil]

/-- The first element is the least. -/
theorem begin_le {x : α} (h : s.begin = some x) : x ∈ s ∧ ∀ y ∈ s, key x ≤ key y := by
  obtain ⟨rest,hr⟩ := List.head?_eq_some_iff.mp h
  have hsorted := s.sorted
  rw [hr] at hsorted
  refine ⟨by rw [mem_def,hr]; exact List.mem_cons_self,?_⟩
  intro y hy
  rw [mem_def,hr] at hy
  rcases List.mem_cons.mp hy with rfl | hy
  · exact le_rfl
  · exact ((List.pairwise_cons.mp hsorted).1 y hy).le

/-- A set without a first element is empty. -/
theorem begin_none (h : s.begin = none) : s.elems = [] := List.head?_eq_none_iff.mp h

end OrderedSet
end LearningMuduo.Library
