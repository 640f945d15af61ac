import Mathlib.Data.Nat.Digits.Lemmas

/-! Canonical numerals in a base: their digits, most significant first, as numbers and as
characters, and how they are read. -/
namespace LearningMuduo.Library

/-- The digits of n: all below the base, at least one, and no leading zero. -/
structure IsNumeral (b n : Nat) (ds : List Nat) : Prop where
  value : Nat.ofDigits b ds.reverse = n
  lt_base : ∀ d ∈ ds, d < b
  nonempty : ds ≠ []
  no_leading_zero : ds.head? = some 0 → ds = [0]

namespace IsNumeral
variable {b n d : Nat} {ds : List Nat}

/-- A digit is its own numeral. -/
theorem single (hd : d < b) : IsNumeral b d [d] := by
  refine ⟨Nat.ofDigits_singleton,fun e he => ?_,List.cons_ne_nil _ _,fun h => ?_⟩
  · rw [List.mem_singleton.mp he]
    exact hd
  · rw [Option.some.inj h]

/-- One more digit behind a number other than zero. -/
theorem concat (h : IsNumeral b n ds) (hn : n ≠ 0) (hd : d < b) : IsNumeral b (b*n+d) (ds ++ [d]) := by
  refine ⟨?_,fun e he => ?_,List.append_ne_nil_of_left_ne_nil h.nonempty _,fun hzero => ?_⟩
  · rw [List.reverse_append,List.reverse_singleton,List.singleton_append,Nat.ofDigits_cons,h.value,Nat.add_comm]
  · rcases List.mem_append.mp he with hmem | hlast
    · exact h.lt_base e hmem
    · rw [List.mem_singleton.mp hlast]
      exact hd
  · rw [List.head?_append_of_ne_nil _ h.nonempty] at hzero
    have hvalue := h.value
    rw [h.no_leading_zero hzero] at hvalue
    exact absurd hvalue.symm hn

/-- A numeral is the digits of its number, the highest one first. -/
theorem reverse_eq_digits (h : IsNumeral b n ds) (hb : 1 < b) (hn : n ≠ 0) : Nat.digits b n = ds.reverse := by
  rw [← h.value]
  refine Nat.digits_ofDigits b hb _ (fun e he => h.lt_base e (List.mem_reverse.mp he)) fun hne => ?_
  rw [List.getLast_reverse]
  intro hzero
  have hds := h.no_leading_zero (by rw [List.head?_eq_some_head h.nonempty,hzero])
  have hvalue := h.value
  rw [hds] at hvalue
  exact hn hvalue.symm

private theorem eq_zero (h : IsNumeral b 0 ds) (hb : b ≠ 0) : ds = [0] := by
  obtain ⟨d,rest,rfl⟩ := List.exists_cons_of_ne_nil h.nonempty
  have hd : d = 0 := Nat.digits_zero_of_eq_zero hb h.value d (List.mem_reverse.mpr List.mem_cons_self)
  exact h.no_leading_zero (congrArg some hd)

/-- A number below b^k has at most k digits. -/
theorem length_le {k : Nat} (h : IsNumeral b n ds) (hb : 1 < b) (hk : 0 < k) (hlt : n < b^k) : ds.length ≤ k := by
  rcases Nat.eq_zero_or_pos n with rfl | hpos
  · rw [h.eq_zero (by omega)]
    exact hk
  · have hlen := (Nat.digits_length_le_iff hb n).mpr hlt
    rwa [h.reverse_eq_digits hb hpos.ne',List.length_reverse] at hlen

/-- A number has one numeral. -/
theorem unique {ds' : List Nat} (h : IsNumeral b n ds) (h' : IsNumeral b n ds') (hb : 1 < b) : ds = ds' := by
  rcases Nat.eq_zero_or_pos n with rfl | hpos
  · rw [h.eq_zero (by omega),h'.eq_zero (by omega)]
  · have hdigits := h.reverse_eq_digits hb hpos.ne'
    rw [h'.reverse_eq_digits hb hpos.ne'] at hdigits
    exact (List.reverse_injective hdigits).symm

end IsNumeral

/-- Digits beyond 9 are capital letters. -/
def digitByte (d : Nat) : UInt8 := if d < 10 then (48+d).toUInt8 else (55+d).toUInt8

def digitValue (c : UInt8) : Option Nat :=
  if 48 ≤ c ∧ c ≤ 57 then some (c.toNat-48) else if 65 ≤ c ∧ c ≤ 90 then some (c.toNat-55) else none

/-- From left to right; none where a character is not a digit of the base. -/
def readDigits (b : Nat) (n : Nat) : List UInt8 → Option Nat
  | [] => some n
  | c :: text => (digitValue c).bind fun d => if d < b then readDigits b (b*n+d) text else none

def readNumeral (b : Nat) (text : List UInt8) : Option Nat := if text = [] then none else readDigits b 0 text

/-- A decimal numeral with its sign: a `-` in front of a negative number and only there. -/
def IsDecimal (v : Int) (text : List UInt8) : Prop :=
  ∃ ds, IsNumeral 10 v.natAbs ds ∧ text = (if v < 0 then [45] else []) ++ ds.map digitByte

def readDecimal : List UInt8 → Option Int
  | 45 :: text => (readNumeral 10 text).map fun n : Nat => -(n : Int)
  | text => (readNumeral 10 text).map fun n : Nat => (n : Int)

variable {b n d : Nat} {ds : List Nat}

private theorem digitValue_digitByte (h : d < 36) : digitValue (digitByte d) = some d := by
  decide +revert

private theorem readDigits_eq (hb : b ≤ 36) (hds : ∀ d ∈ ds, d < b) (n : Nat) :
    readDigits b n (ds.map digitByte) = some (ds.foldl (fun n d => b*n+d) n) := by
  induction ds generalizing n with
  | nil => rfl
  | cons d ds ih =>
    have hd : d < b := hds d List.mem_cons_self
    rw [List.map_cons,readDigits,digitValue_digitByte (hd.trans_le hb),Option.bind_some,if_pos hd,
      ih fun e he => hds e (List.mem_cons_of_mem d he)]
    rfl

private theorem foldl_digits_eq (b : Nat) (ds : List Nat) : ds.foldl (fun n d => b*n+d) 0 = Nat.ofDigits b ds.reverse := by
  rw [Nat.ofDigits_eq_foldr,List.foldr_reverse]
  congr 1
  funext n d
  rw [Nat.add_comm]
  rfl

/-- A numeral is read as the number it was written for. -/
theorem IsNumeral.read (h : IsNumeral b n ds) (hb : b ≤ 36) : readNumeral b (ds.map digitByte) = some n := by
  rw [readNumeral,if_neg (by rw [List.map_eq_nil_iff]; exact h.nonempty),readDigits_eq hb h.lt_base,foldl_digits_eq,h.value]

private theorem digitByte_ne_minus (h : d < 10) : digitByte d ≠ 45 := by
  decide +revert

/-- A decimal numeral is read back. -/
theorem IsDecimal.read {v : Int} {text : List UInt8} (h : IsDecimal v text) : readDecimal text = some v := by
  obtain ⟨ds,hds,rfl⟩ := h
  have hread := hds.read (by decide)
  split
  · rw [List.singleton_append,readDecimal,hread,Option.map_some,Int.ofNat_natAbs_of_nonpos (by omega),Int.neg_neg]
  · have hplain : readDecimal (ds.map digitByte) = (readNumeral 10 (ds.map digitByte)).map fun n : Nat => (n : Int) := by
      obtain ⟨d,rest,rfl⟩ := List.exists_cons_of_ne_nil hds.nonempty
      have hne := digitByte_ne_minus (hds.lt_base d List.mem_cons_self)
      rw [List.map_cons,readDecimal]
      rintro text heq
      exact hne (List.cons.inj heq).1
    rw [List.nil_append,hplain,hread,Option.map_some,Int.natAbs_of_nonneg (by omega)]

/-- A number has one decimal numeral. -/
theorem IsDecimal.unique {v : Int} {text text' : List UInt8} (h : IsDecimal v text) (h' : IsDecimal v text') :
    text = text' := by
  obtain ⟨ds,hds,rfl⟩ := h
  obtain ⟨ds',hds',rfl⟩ := h'
  rw [hds.unique hds' (by decide)]

end LearningMuduo.Library
