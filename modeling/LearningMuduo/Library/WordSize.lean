import Mathlib.Algebra.Order.Ring.Int

/-! Unsigned 64-bit arithmetic on naturals, wrapping as the machine does. -/
namespace LearningMuduo.Library

def wordModulus : Nat := 2^64

def wordAdd (a b : Nat) : Nat := (a+b) % wordModulus

def wordSub (a b : Nat) : Nat := (a+wordModulus-b) % wordModulus

/-- A sum within the word is exact. -/
theorem wordAdd_eq {a b : Nat} (h : a+b < 2^64) : wordAdd a b = a+b := Nat.mod_eq_of_lt h

/-- A difference of words is exact if it is not negative. -/
theorem wordSub_eq {a b : Nat} (hab : b ≤ a) (ha : a < 2^64) : wordSub a b = a-b := by
  unfold wordSub wordModulus
  rw [show a+2^64-b = (a-b)+2^64 by omega,Nat.add_mod_right,Nat.mod_eq_of_lt (by omega)]

end LearningMuduo.Library
