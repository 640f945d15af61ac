import Mathlib.Data.List.Basic
import Mathlib.Order.Lattice

/-! Finite rows of cells addressed by position: ranges, stores and the forward
element-by-element copy of a range onto itself. -/
namespace LearningMuduo.Library
variable {α : Type}

/-- The cells at positions i up to, not including, j. -/
def slice (v : List α) (i j : Nat) : List α := (v.take j).drop i

/-- Overwrite the cells from position k on. -/
def store (v : List α) (k : Nat) (data : List α) : List α :=
  v.take k ++ data ++ v.drop (k+data.length)

/-- Cut or extend to n cells; new cells hold the default. -/
def resize (d : α) (v : List α) (n : Nat) : List α :=
  v.take n ++ List.replicate (n-v.length) d

/-- Copy n cells one after the other, each read seeing the writes before it. -/
def copyForward (v : List α) (src dst : Nat) : Nat → List α
  | 0 => v
  | n+1 => match v[src]? with
    | some x => copyForward (v.set dst x) (src+1) (dst+1) n
    | none => v

/-- The cells of a slice are those of the vector, counted from i. -/
theorem slice_getElem? (v : List α) (i j k : Nat) :
    (slice v i j)[k]? = if i+k < j then v[i+k]? else none := by
  simp [slice,List.getElem?_drop,List.getElem?_take]

/-- A cell behind k has what was stored there, the others what they had. -/
theorem store_getElem? {v : List α} {k : Nat} {data : List α} (h : k+data.length ≤ v.length)
    (n : Nat) : (store v k data)[n]? =
      if n < k then v[n]? else if n < k+data.length then data[n-k]? else v[n]? := by
  have hk : (v.take k).length = k := by simp; omega
  rw [store,List.append_assoc]
  split_ifs with h1 h2
  · rw [List.getElem?_append_left (by omega),List.getElem?_take_of_lt h1]
  · rw [List.getElem?_append_right (by omega),hk,List.getElem?_append_left (by omega)]
  · rw [List.getElem?_append_right (by omega),hk,List.getElem?_append_right (by omega),
      List.getElem?_drop]
    congr 1
    omega

/-- A slice ends with the vector at the latest. -/
@[simp] theorem length_slice (v : List α) (i j : Nat) :
    (slice v i j).length = min j v.length - i := by
  simp [slice]

/-- A slice without room is empty. -/
@[simp] theorem slice_self (v : List α) (i : Nat) : slice v i i = [] := by
  simp [slice]

/-- A store in place does not change the length. -/
theorem length_store {v : List α} {k : Nat} {data : List α} (h : k+data.length ≤ v.length) :
    (store v k data).length = v.length := by
  simp [store]
  omega

/-- A vector has the length it is resized to. -/
@[simp] theorem length_resize (d : α) (v : List α) (n : Nat) : (resize d v n).length = n := by
  simp [resize]
  omega

/-- Two slices that meet are one. -/
theorem slice_append_slice (v : List α) {i j k : Nat} (hij : i ≤ j) (hjk : j ≤ k) :
    slice v i j ++ slice v j k = slice v i k := by
  have hj : v.take j = (v.take k).take j := by rw [List.take_take,min_eq_left hjk]
  by_cases hv : j ≤ (v.take k).length
  · conv_rhs => rw [slice,← List.take_append_drop j (v.take k)]
    rw [slice,slice,hj,List.drop_append_of_le_length (by rw [List.length_take]; omega)]
  · have hd : (v.take k).drop j = [] := List.drop_eq_nil_of_le (by omega)
    rw [slice,slice,hd,List.append_nil,hj,List.take_of_length_le (by omega),slice]

/-- To drop cells of a slice is to begin it later. -/
theorem drop_slice (v : List α) (i j n : Nat) : (slice v i j).drop n = slice v (i+n) j := by
  simp [slice,List.drop_drop]

/-- To take cells of a slice is to end it earlier. -/
theorem take_slice (v : List α) {i j n : Nat} (h : i+n ≤ j) :
    (slice v i j).take n = slice v i (i+n) := by
  simp only [slice,List.take_drop,List.take_take,min_eq_left h]

/-- What was stored is read back. -/
theorem slice_store_self {v : List α} {k : Nat} {data : List α} (h : k+data.length ≤ v.length) :
    slice (store v k data) k (k+data.length) = data := by
  apply List.ext_getElem?
  intro n
  rw [slice_getElem?,store_getElem? h]
  by_cases hn : n < data.length
  · rw [if_pos (by omega),if_neg (by omega),if_pos (by omega),Nat.add_sub_cancel_left]
  · rw [if_neg (by omega),List.getElem?_eq_none (by omega)]

/-- A store outside the range leaves the range unchanged. -/
theorem slice_store_of_disjoint {v : List α} {k i j : Nat} {data : List α}
    (h : k+data.length ≤ v.length) (hd : j ≤ k ∨ k+data.length ≤ i) :
    slice (store v k data) i j = slice v i j := by
  apply List.ext_getElem?
  intro n
  rw [slice_getElem?,slice_getElem?,store_getElem? h]
  split_ifs <;> first | rfl | omega

/-- A slice that is there before and after a resize is the same. -/
theorem slice_resize (d : α) {v : List α} {n i j : Nat} (hv : j ≤ v.length) (hn : j ≤ n) :
    slice (resize d v n) i j = slice v i j := by
  rw [slice,slice,resize,List.take_append_of_le_length (by simp; omega),List.take_take,
    min_eq_left hn]

private theorem copyForward_getElem? (n : Nat) : ∀ (v : List α) (src dst : Nat), dst ≤ src →
    src+n ≤ v.length → ∀ k, (copyForward v src dst n)[k]? =
      if dst ≤ k ∧ k < dst+n then v[src+(k-dst)]? else v[k]? := by
  induction n with
  | zero =>
    intro v src dst _ _ k
    rw [if_neg (by omega)]
    rfl
  | succ n ih =>
    intro v src dst hd hs k
    have hx : v[src]? = some v[src] := List.getElem?_eq_getElem (by omega)
    rw [copyForward,hx]
    simp only
    rw [ih _ _ _ (by omega) (by simp; omega)]
    by_cases hk : dst+1 ≤ k ∧ k < dst+1+n
    · rw [if_pos hk,if_pos (by omega),List.getElem?_set_ne (by omega)]
      congr 1
      omega
    · rw [if_neg hk]
      by_cases he : k = dst
      · subst he
        rw [if_pos (by omega),List.getElem?_set_self (by omega),Nat.sub_self,Nat.add_zero,hx]
      · rw [if_neg (by omega),List.getElem?_set_ne (by omega)]

/-- Copying downwards in place stores the original range: no cell is overwritten
before it has been read. -/
theorem copyForward_eq_store {v : List α} {src dst n : Nat} (hd : dst ≤ src)
    (hs : src+n ≤ v.length) :
    copyForward v src dst n = store v dst (slice v src (src+n)) := by
  have hl : (slice v src (src+n)).length = n := by simp; omega
  apply List.ext_getElem?
  intro k
  rw [copyForward_getElem? n v src dst hd hs,store_getElem? (by omega),hl]
  by_cases h1 : k < dst
  · rw [if_neg (by omega),if_pos h1]
  · by_cases h2 : k < dst+n
    · rw [if_pos (by omega),if_neg h1,if_pos h2,slice_getElem?,if_pos (by omega)]
    · rw [if_neg (by omega),if_neg h1,if_neg h2]

end LearningMuduo.Library
