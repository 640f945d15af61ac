import LearningMuduo.Library.Numeral
import LearningMuduo.Logging.LogStream

/-! `convert` and `convertHex` at the widths of their instances: exact numerals, within the tables and the space. -/
namespace LearningMuduo.Logging
open Library Common

/-- The types at which `convert` has an instance; `long long` is as wide as `long`. That of `int`, which this stream
formats with `snprintf`, is that of a `long` of 32 bits. -/
inductive IntegerType where
  | int | unsignedInt | long | unsignedLong
  deriving DecidableEq, Repr

namespace IntegerType

def bits : IntegerType → Nat
  | int => 32
  | unsignedInt => 32
  | long => 64
  | unsignedLong => 64

def signed : IntegerType → Bool
  | int => true
  | unsignedInt => false
  | long => true
  | unsignedLong => false

variable (T : IntegerType)

/-- The number that the bits stand for. -/
def value (i : BitVec T.bits) : Int := if T.signed then i.toInt else i.toNat

/-- `i / 10`. -/
def quotient (i : BitVec T.bits) : BitVec T.bits := if T.signed then i.sdiv 10 else i.udiv 10

/-- `i % 10`. -/
def remainder (i : BitVec T.bits) : BitVec T.bits := if T.signed then i.srem 10 else i.umod 10

private theorem toNat_udiv_ten {w : Nat} (i : BitVec w) (h : (10 : BitVec w).toNat = 10) :
    ((i.udiv 10).toNat : Int) = (i.toNat : Int).tdiv 10 := by
  change ((i / 10).toNat : Int) = _
  rw [BitVec.toNat_udiv,h]
  rfl

private theorem toNat_umod_ten {w : Nat} (i : BitVec w) (h : (10 : BitVec w).toNat = 10) :
    ((i.umod 10).toNat : Int) = (i.toNat : Int).tmod 10 := by
  change ((i % 10).toNat : Int) = _
  rw [BitVec.toNat_umod,h]
  rfl

private theorem value_quotient (i : BitVec T.bits) : T.value (T.quotient i) = (T.value i).tdiv 10 := by
  cases T with
  | int => exact BitVec.toInt_sdiv_of_ne_or_ne i 10 (.inr (by decide))
  | unsignedInt => exact toNat_udiv_ten i (by decide)
  | long => exact BitVec.toInt_sdiv_of_ne_or_ne i 10 (.inr (by decide))
  | unsignedLong => exact toNat_udiv_ten i (by decide)

private theorem value_remainder (i : BitVec T.bits) : T.value (T.remainder i) = (T.value i).tmod 10 := by
  cases T with
  | int => exact BitVec.toInt_srem i 10
  | unsignedInt => exact toNat_umod_ten i (by decide)
  | long => exact BitVec.toInt_srem i 10
  | unsignedLong => exact toNat_umod_ten i (by decide)

private theorem value_eq_zero_iff (i : BitVec T.bits) : T.value i = 0 ↔ i = 0 := by
  unfold value
  split
  · rw [← BitVec.toInt_inj]
    exact iff_of_eq (congrArg _ BitVec.toInt_zero.symm)
  · rw [Int.natCast_eq_zero,← BitVec.toNat_inj]
    exact iff_of_eq (congrArg _ BitVec.toNat_zero.symm)

private theorem natAbs_value_lt (i : BitVec T.bits) : (T.value i).natAbs < 10^20 := by
  have hbits : 2^T.bits ≤ 2^64 := by cases T <;> decide
  have hword : 2^64 < 10^20 := by decide
  unfold value
  split
  · have hl := BitVec.le_two_mul_toInt (x := i)
    have hu := BitVec.two_mul_toInt_lt (x := i)
    norm_cast at hl hu
    omega
  · have hlt := i.isLt
    omega

/-- A quotient other than zero is nearer to zero. -/
theorem natAbs_quotient_lt {i : BitVec T.bits} (h : T.quotient i ≠ 0) :
    (T.value (T.quotient i)).natAbs < (T.value i).natAbs := by
  have hne : T.value (T.quotient i) ≠ 0 := fun hzero => h ((T.value_eq_zero_iff _).mp hzero)
  rw [value_quotient] at hne ⊢
  have hi : T.value i ≠ 0 := by
    intro hzero
    rw [hzero] at hne
    exact hne rfl
  rw [Int.natAbs_tdiv]
  exact Nat.div_lt_self (Int.natAbs_pos.mpr hi) (by decide)

/-- `zero[lsd]`; none outside the table. -/
def zeroAt (lsd : Int) : Option UInt8 := if 0 ≤ 9+lsd then digits[(9+lsd).toNat]? else none

/-- The loop of `convert`. -/
def convertLoop (i : BitVec T.bits) : Option (List UInt8) := do
  let lsd := toInt32 (T.value (T.remainder i))
  let c ← zeroAt lsd
  if _h : T.quotient i = 0 then some [c]
  else
    let rest ← convertLoop (T.quotient i)
    some (c :: rest)
termination_by (T.value i).natAbs
decreasing_by exact T.natAbs_quotient_lt _h

/-- The bytes that `convert` writes at `buf`, and what it returns. -/
def convert (value : BitVec T.bits) : Option (List UInt8 × Nat) := do
  let written ← T.convertLoop value
  let written := if T.value value < 0 then written ++ [45] else written
  some (written.reverse ++ [0],written.length)

private theorem zeroAt_eq {lsd : Int} (h : lsd.natAbs < 10) : zeroAt lsd = some (zero lsd) := by
  have hlen : digits.length = 19 := by decide
  rw [zeroAt,if_pos (by omega),zero,List.getD_eq_getElem?_getD,List.getElem?_eq_getElem (by omega),Option.getD_some]

/-- On machine integers the loop reads the table only where it is, and does what it does on numbers. -/
theorem convertLoop_eq (i : BitVec T.bits) : T.convertLoop i = some (Logging.convertLoop (T.value i)) := by
  induction i using convertLoop.induct T with
  | case1 i ih =>
    have hrem : (T.value (T.remainder i)).natAbs < 10 := by
      rw [value_remainder,Int.natAbs_tmod]
      exact Nat.mod_lt _ (by decide)
    have hlsd : toInt32 (T.value (T.remainder i)) = (T.value i).tmod 10 := by
      rw [← value_remainder]
      exact toInt32_eq (by omega) (by omega)
    rw [convertLoop,hlsd,zeroAt_eq (by rw [← value_remainder]; exact hrem),Logging.convertLoop,← value_quotient]
    by_cases hq : T.quotient i = 0
    · rw [if_pos ((T.value_eq_zero_iff _).mpr hq),Option.bind_eq_bind,Option.bind_some,dif_pos hq]
    · rw [if_neg fun hzero => hq ((T.value_eq_zero_iff _).mp hzero),Option.bind_eq_bind,Option.bind_some,dif_neg hq,ih hq]
      rfl

private theorem convert_eq (value : BitVec T.bits) : T.convert value =
    some (Logging.convert (T.value value) ++ [0],(Logging.convert (T.value value)).length) := by
  rw [convert,convertLoop_eq,Option.bind_eq_bind,Option.bind_some,Logging.convert,List.length_reverse]
  split <;> simp only [List.append_nil]

end IntegerType

/-- The table is symmetric about its middle. -/
theorem zero_eq {lsd : Int} (h : lsd.natAbs < 10) : zero lsd = digitByte lsd.natAbs := by
  obtain ⟨n,rfl | rfl⟩ := lsd.eq_nat_or_neg
  · rw [Int.natAbs_natCast] at h ⊢
    decide +revert
  · rw [Int.natAbs_neg,Int.natAbs_natCast] at h ⊢
    decide +revert

/-- What the loop leaves is the numeral of the number without its sign, from its end. -/
theorem convertLoop_numeral (i : Int) : ∃ ds, IsNumeral 10 i.natAbs ds ∧ (convertLoop i).reverse = ds.map digitByte := by
  have hrem (i : Int) : (i.tmod 10).natAbs = i.natAbs % 10 := Int.natAbs_tmod i 10
  have hlt (i : Int) : i.natAbs % 10 < 10 := Nat.mod_lt _ (by decide)
  have hlast (i : Int) : zero (i.tmod 10) = digitByte (i.natAbs % 10) := by
    rw [zero_eq (hrem i ▸ hlt i),hrem]
  have hquot (i : Int) : (i.tdiv 10).natAbs = i.natAbs/10 := Int.natAbs_tdiv i 10
  induction i using convertLoop.induct with
  | case1 i h =>
    have hsmall : i.natAbs % 10 = i.natAbs := by
      have hzero := hquot i
      rw [h] at hzero
      omega
    refine ⟨[i.natAbs % 10],hsmall.symm ▸ IsNumeral.single (hsmall ▸ hlt i),?_⟩
    rw [convertLoop,if_pos h,hlast]
    rfl
  | case2 i h ih =>
    obtain ⟨ds,hds,hrest⟩ := ih
    rw [hquot] at hds
    have hne : i.natAbs/10 ≠ 0 := by
      rw [← hquot]
      exact Int.natAbs_ne_zero.mpr h
    refine ⟨ds ++ [i.natAbs % 10],?_,?_⟩
    · have hnum := hds.concat hne (hlt i)
      rwa [Nat.div_add_mod] at hnum
    · rw [convertLoop,if_neg h,List.reverse_cons,hrest,hlast,List.map_append,List.map_singleton]

/-- `convert` writes the decimal numeral of its value. -/
theorem convert_decimal (v : Int) : IsDecimal v (convert v) := by
  obtain ⟨ds,hds,hloop⟩ := convertLoop_numeral v
  refine ⟨ds,hds,?_⟩
  rw [convert,List.reverse_append,hloop]
  split <;> rfl

/-- A sign and as many digits as the number needs. -/
theorem length_convert_le {v : Int} {k : Nat} (hk : 0 < k) (h : v.natAbs < 10^k) : (convert v).length ≤ k+1 := by
  obtain ⟨ds,hds,htext⟩ := convert_decimal v
  have hlen := hds.length_le (by decide) hk h
  rw [htext,List.length_append,List.length_map]
  split
  · rw [List.length_singleton]
    omega
  · rw [List.length_nil]
    omega

private theorem convertHexLoop_numeral (i : Nat) : ∃ ds, IsNumeral 16 i ds ∧ (convertHexLoop i).reverse = ds.map digitByte := by
  have hlt (i : Nat) : i % 16 < 16 := Nat.mod_lt _ (by decide)
  have htable {d : Nat} (hd : d < 16) : digitsHex.getD d 0 = digitByte d := by decide +revert
  induction i using convertHexLoop.induct with
  | case1 i h =>
    have hsmall : i % 16 = i := Nat.mod_eq_of_lt (by omega)
    refine ⟨[i % 16],hsmall.symm ▸ IsNumeral.single (hsmall ▸ hlt i),?_⟩
    rw [convertHexLoop,if_pos h,htable (hlt i)]
    rfl
  | case2 i h ih =>
    obtain ⟨ds,hds,hrest⟩ := ih
    refine ⟨ds ++ [i % 16],?_,?_⟩
    · have hnum := hds.concat h (hlt i)
      rwa [Nat.div_add_mod] at hnum
    · rw [convertHexLoop,if_neg h,List.reverse_cons,hrest,htable (hlt i),List.map_append,List.map_singleton]

/-! `convertHex` at the width of a `uintptr_t`. -/
namespace Uintptr

/-- `i / 16`. -/
def quotient (i : BitVec 64) : BitVec 64 := i.udiv 16

/-- `i % 16`. -/
def remainder (i : BitVec 64) : BitVec 64 := i.umod 16

private theorem toNat_quotient (i : BitVec 64) : (quotient i).toNat = i.toNat/16 := BitVec.toNat_udiv

private theorem toNat_remainder (i : BitVec 64) : (remainder i).toNat = i.toNat % 16 := BitVec.toNat_umod

private theorem toNat_eq_zero_iff (i : BitVec 64) : i.toNat = 0 ↔ i = 0 := by
  rw [← BitVec.toNat_inj]
  exact Iff.rfl

private theorem toNat_quotient_lt {i : BitVec 64} (h : quotient i ≠ 0) : (quotient i).toNat < i.toNat := by
  have hne : (quotient i).toNat ≠ 0 := fun hzero => h ((toNat_eq_zero_iff _).mp hzero)
  rw [toNat_quotient] at hne ⊢
  omega

/-- `digitsHex[lsd]`; none outside the table. -/
def digitsHexAt (lsd : Int) : Option UInt8 := if 0 ≤ lsd then digitsHex[lsd.toNat]? else none

/-- The loop of `convertHex`. -/
def convertHexLoop (i : BitVec 64) : Option (List UInt8) := do
  let lsd := toInt32 (remainder i).toNat
  let c ← digitsHexAt lsd
  if _h : quotient i = 0 then some [c]
  else
    let rest ← convertHexLoop (quotient i)
    some (c :: rest)
termination_by i.toNat
decreasing_by exact toNat_quotient_lt _h

/-- The bytes that `convertHex` writes at `buf`, and what it returns. There is no zero byte behind them. -/
def convertHex (value : BitVec 64) : Option (List UInt8 × Nat) := do
  let written ← convertHexLoop value
  some (written.reverse,written.length)

private theorem digitsHexAt_eq {d : Nat} (h : d < 16) : digitsHexAt d = some (digitsHex.getD d 0) := by decide +revert

private theorem convertHexLoop_eq (i : BitVec 64) : convertHexLoop i = some (Logging.convertHexLoop i.toNat) := by
  induction i using convertHexLoop.induct with
  | case1 i ih =>
    have hrem : i.toNat % 16 < 16 := Nat.mod_lt _ (by decide)
    have hlsd : toInt32 (remainder i).toNat = (i.toNat % 16 : Nat) :=
      (congrArg (fun n : Nat => toInt32 n) (toNat_remainder i)).trans (toInt32_eq (by omega) (by omega))
    unfold convertHexLoop
    dsimp only
    rw [hlsd,digitsHexAt_eq hrem,Logging.convertHexLoop,← toNat_quotient]
    by_cases hq : quotient i = 0
    · rw [if_pos ((toNat_eq_zero_iff _).mpr hq),Option.bind_eq_bind,Option.bind_some,dif_pos hq]
    · rw [if_neg fun hzero => hq ((toNat_eq_zero_iff _).mp hzero),Option.bind_eq_bind,Option.bind_some,dif_neg hq,ih hq]
      rfl

private theorem convertHex_eq (value : BitVec 64) : convertHex value =
    some (Logging.convertHex value.toNat,(Logging.convertHex value.toNat).length) := by
  rw [convertHex,convertHexLoop_eq,Option.bind_eq_bind,Option.bind_some,Logging.convertHex,List.length_reverse]

end Uintptr

/-! The stream stores what they write. -/

/-- The stream gets exactly the bytes of `convert`. -/
theorem LogStream.formatInteger_eq {T : IntegerType} {x : BitVec T.bits} {bytes : List UInt8} {len : Nat}
    (h : T.convert x = some (bytes,len)) (s : LogStream) : s.formatInteger (T.value x) = s.numeric bytes len := by
  rw [T.convert_eq] at h
  obtain ⟨rfl,rfl⟩ := Prod.mk.inj (Option.some.inj h)
  rfl

/-- A pointer is `0x` and the bytes of `convertHex`. -/
theorem LogStream.insertPointer_eq {p : BitVec 64} {hex : List UInt8} {len : Nat}
    (h : Uintptr.convertHex p = some (hex,len)) (s : LogStream) :
    s.insertPointer p.toNat = s.numeric ([48,120] ++ hex) (len+2) := by
  rw [Uintptr.convertHex_eq] at h
  obtain ⟨rfl,rfl⟩ := Prod.mk.inj (Option.some.inj h)
  rfl

/-- `convert` writes the canonical decimal numeral of the value and a zero byte behind it, `convertHex` the canonical
hexadecimal one. Both return its length, and neither leaves its table or, with the `0x` in front, the space it is given. -/
theorem integer_formatting_exact :
    (∀ (T : IntegerType) (x : BitVec T.bits), ∃ text, T.convert x = some (text ++ [0],text.length) ∧
      IsDecimal (T.value x) text ∧ readDecimal text = some (T.value x) ∧ text.length+1 ≤ kMaxNumericSize) ∧
    ∀ p : BitVec 64, ∃ ds, Uintptr.convertHex p = some (ds.map digitByte,ds.length) ∧
      IsNumeral 16 p.toNat ds ∧ readNumeral 16 (ds.map digitByte) = some p.toNat ∧ 2+ds.length ≤ kMaxNumericSize := by
  have hspace : kMaxNumericSize = 32 := rfl
  refine ⟨fun T x => ?_,fun p => ?_⟩
  · have hdecimal := convert_decimal (T.value x)
    have hlen := length_convert_le (by decide : 0 < 20) (T.natAbs_value_lt x)
    exact ⟨_,T.convert_eq x,hdecimal,hdecimal.read,by omega⟩
  · obtain ⟨ds,hds,hloop⟩ := convertHexLoop_numeral p.toNat
    have hlt : p.toNat < 16^16 := p.isLt.trans_eq (by norm_num)
    have hlen : ds.length ≤ 16 := hds.length_le (by decide) (by decide) hlt
    refine ⟨ds,?_,hds,hds.read (by decide),by omega⟩
    rw [Uintptr.convertHex_eq,convertHex,hloop,List.length_map]

end LearningMuduo.Logging
