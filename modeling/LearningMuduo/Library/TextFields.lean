import LearningMuduo.Library.Numeral

/-! Reading a line of text field by field: fields of a fixed width, separators, and what stands
before the first or behind the last occurrence of a character. -/
namespace LearningMuduo.Library

section Cutting
variable {α : Type} [DecidableEq α] {c : α} {before after : List α}

/-- The text in front of the first c and the text behind it. -/
def cutFirst (c : α) : List α → Option (List α × List α)
  | [] => none
  | b :: text => if b = c then some ([],text) else (cutFirst c text).map fun cut => (b :: cut.1,cut.2)

/-- The same for the last c. -/
def cutLast (c : α) (text : List α) : Option (List α × List α) :=
  (cutFirst c text.reverse).map fun cut => (cut.2.reverse,cut.1.reverse)

/-- A text is cut at the first c. -/
theorem cutFirst_append (h : c ∉ before) (after : List α) : cutFirst c (before ++ c :: after) = some (before,after) := by
  induction before with
  | nil => rw [List.nil_append,cutFirst,if_pos rfl]
  | cons b before ih =>
    rw [List.mem_cons,not_or] at h
    rw [List.cons_append,cutFirst,if_neg (Ne.symm h.1),ih h.2]
    rfl

/-- A text is cut at the last c. -/
theorem cutLast_append (before : List α) (h : c ∉ after) : cutLast c (before ++ c :: after) = some (before,after) := by
  rw [cutLast,List.reverse_append,List.reverse_cons,List.append_assoc,List.singleton_append,
    cutFirst_append (mt List.mem_reverse.mp h),Option.map_some,List.reverse_reverse,List.reverse_reverse]

/-- The next character is c. -/
def expect (c : α) : List α → Option (List α)
  | [] => none
  | b :: text => if b = c then some text else none

/-- The character that is expected is taken off. -/
theorem expect_cons (c : α) (text : List α) : expect c (c :: text) = some text := if_pos rfl

/-- The lines of a text in which every line ends in c. -/
def endedLines (c : α) (text : List α) : List (List α) := (text.splitOn c).dropLast

/-- Lines without the character that ends them are split where they end. -/
theorem endedLines_flatMap {lines : List (List α)} (h : ∀ line ∈ lines, c ∉ line) :
    endedLines c (lines.flatMap (· ++ [c])) = lines := by
  have hsplit : (lines.flatMap (· ++ [c])).splitOn c = lines ++ [[]] := by
    induction lines with
    | nil => exact List.splitOn_eq_singleton List.not_mem_nil
    | cons line lines ih =>
      rw [List.flatMap_cons,List.append_assoc,List.singleton_append,
        List.splitOn_append_cons_self_of_not_mem (h line List.mem_cons_self),
        ih fun l hl => h l (List.mem_cons_of_mem line hl),List.cons_append]
  rw [endedLines,hsplit,List.dropLast_concat]

end Cutting

/-- A number in a field of the given width. -/
def readField (width : Nat) (text : List UInt8) : Option (Nat × List UInt8) :=
  (readNumeral 10 (text.take width)).map fun n => (n,text.drop width)

/-- A field of fixed width is read whatever follows. -/
theorem readField_append {width n : Nat} {field : List UInt8} (hlen : field.length = width)
    (hread : readNumeral 10 field = some n) (rest : List UInt8) : readField width (field ++ rest) = some (n,rest) := by
  rw [readField,List.take_left' hlen,hread,List.drop_left' hlen]
  rfl

/-- Zeros in front do not change a number. -/
theorem readNumeral_zeros {n : Nat} {text : List UInt8} (h : readNumeral 10 text = some n) (k : Nat) :
    readNumeral 10 (List.replicate k 48 ++ text) = some n := by
  have htext : text ≠ [] := by
    rintro rfl
    cases h
  rw [readNumeral,if_neg htext] at h
  rw [readNumeral,if_neg (List.append_ne_nil_of_right_ne_nil _ htext)]
  induction k with
  | zero => exact h
  | succ k ih =>
    rw [List.replicate_succ,List.cons_append,readDigits]
    exact ih

private theorem digitByte_mem_digits {d : Nat} (h : d < 10) : 48 ≤ digitByte d ∧ digitByte d ≤ 57 := by decide +revert

/-- A decimal numeral has a sign and digits only. -/
theorem mem_isDecimal {v : Int} {text : List UInt8} (h : IsDecimal v text) {c : UInt8} (hc : c ∈ text) :
    c = 45 ∨ 48 ≤ c ∧ c ≤ 57 := by
  obtain ⟨ds,hds,rfl⟩ := h
  rcases List.mem_append.mp hc with hc | hc
  · split at hc
    · exact .inl (List.mem_singleton.mp hc)
    · cases hc
  · obtain ⟨d,hd,rfl⟩ := List.mem_map.mp hc
    exact .inr (digitByte_mem_digits (hds.lt_base d hd))

end LearningMuduo.Library
