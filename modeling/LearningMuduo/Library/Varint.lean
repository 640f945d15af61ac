import Mathlib.Algebra.Order.Ring.Nat
import Mathlib.Data.List.Basic

/-! Numbers in base 128, the lowest digit first, with a mark on every digit but the last. -/
namespace LearningMuduo.Library

def toVarint (n : Nat) : List UInt8 :=
  if n < 128 then [n.toUInt8] else (n % 128 + 128).toUInt8 :: toVarint (n/128)
decreasing_by omega

/-- The value of at most k digits, and what follows them. -/
def ofVarint : Nat → List UInt8 → Option (Nat × List UInt8)
  | 0,_ => none
  | _,[] => none
  | k+1,b :: bytes =>
    if b.toNat < 128 then some (b.toNat,bytes)
    else (ofVarint k bytes).map fun out => (b.toNat-128+128*out.1,out.2)

/-- A number below 128 is one byte. -/
theorem toVarint_of_lt {n : Nat} (h : n < 128) : toVarint n = [n.toUInt8] := by
  rw [toVarint,if_pos h]

/-- A numeral is read back, whatever follows it. -/
theorem ofVarint_toVarint (k n : Nat) (h : n < 128^k) (rest : List UInt8) (hk : 0 < k) :
    ofVarint k (toVarint n ++ rest) = some (n,rest) := by
  induction k generalizing n with
  | zero => exact (Nat.lt_irrefl 0 hk).elim
  | succ k ih =>
    rw [toVarint]
    split
    · next hlt =>
      have hb : (n.toUInt8).toNat = n := by
        rw [UInt8.toNat_ofNat']
        omega
      rw [List.singleton_append,ofVarint,hb,if_pos hlt]
    · next hge =>
      have hb : ((n % 128 + 128).toUInt8).toNat = n % 128 + 128 := by
        rw [UInt8.toNat_ofNat']
        omega
      have hdiv : n/128 < 128^k := by
        rw [Nat.div_lt_iff_lt_mul (by decide),← Nat.pow_succ]
        exact h
      have hpos : 0 < k := by
        rcases Nat.eq_zero_or_pos k with rfl | hpos
        · omega
        · exact hpos
      rw [List.cons_append,ofVarint,hb,if_neg (by omega),ih (n/128) hdiv hpos]
      have hvalue : n % 128 + 128 - 128 + 128*(n/128) = n := by omega
      rw [Option.map_some,hvalue]

/-- A number that is read takes at least one byte. -/
theorem length_ofVarint {k n : Nat} {bytes rest : List UInt8} (h : ofVarint k bytes = some (n,rest)) :
    rest.length < bytes.length := by
  induction k generalizing n bytes with
  | zero => cases h
  | succ k ih =>
    cases bytes with
    | nil => cases h
    | cons b bytes =>
      rw [ofVarint] at h
      split at h
      · cases h
        exact Nat.lt_succ_self _
      · obtain ⟨out,hout,heq⟩ := Option.map_eq_some_iff.mp h
        cases heq
        exact Nat.lt_succ_of_lt (ih hout)

end LearningMuduo.Library
