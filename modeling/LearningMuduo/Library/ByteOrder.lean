import Mathlib.Data.Nat.Digits.Defs

/-! The bytes of a number of fixed width, least significant first, and the number with its
bytes reversed. -/
namespace LearningMuduo.Library

/-- The n low bytes of x, the least significant one first. -/
def littleEndian : Nat → Nat → List UInt8
  | 0,_ => []
  | n+1,x => UInt8.ofNat x :: littleEndian n (x / 256)

/-- The number whose bytes these are. -/
def ofLittleEndian (bytes : List UInt8) : Nat := Nat.ofDigits 256 (bytes.map UInt8.toNat)

/-- The number of n bytes with its bytes in the opposite order. -/
def byteSwap (n x : Nat) : Nat := ofLittleEndian (littleEndian n x).reverse

/-- The first byte is the lowest one. -/
theorem ofLittleEndian_cons (a : UInt8) (bytes : List UInt8) :
    ofLittleEndian (a :: bytes) = a.toNat + 256 * ofLittleEndian bytes := Nat.ofDigits_cons

/-- The bytes behind xs count from its place on. -/
theorem ofLittleEndian_append (xs ys : List UInt8) :
    ofLittleEndian (xs ++ ys) = ofLittleEndian xs + 256^xs.length * ofLittleEndian ys := by
  rw [ofLittleEndian,List.map_append,Nat.ofDigits_append,List.length_map]
  rfl

private theorem ofLittleEndian_lt (bytes : List UInt8) : ofLittleEndian bytes < 256^bytes.length := by
  have hd : ∀ a ∈ bytes.map UInt8.toNat, a < 256 := by
    intro a ha
    obtain ⟨byte,-,rfl⟩ := List.mem_map.mp ha
    exact byte.toNat_lt
  have hl := Nat.ofDigits_lt_base_pow_length (by decide) hd
  rwa [List.length_map] at hl

private theorem ofLittleEndian_zeros (n : Nat) : ofLittleEndian (List.replicate n 0) = 0 := by
  rw [ofLittleEndian,List.map_replicate]
  exact Nat.ofDigits_replicate_zero

/-- A number is written with as many bytes as are asked for. -/
@[simp] theorem length_littleEndian (n x : Nat) : (littleEndian n x).length = n := by
  induction n generalizing x with
  | zero => rfl
  | succ n ih => rw [littleEndian,List.length_cons,ih]

/-- The low bytes determine the number modulo its width. -/
theorem ofLittleEndian_littleEndian (n x : Nat) : ofLittleEndian (littleEndian n x) = x % 256^n := by
  induction n generalizing x with
  | zero => rw [Nat.pow_zero,Nat.mod_one]; rfl
  | succ n ih =>
    have hp : 256^(n+1) = 256 * 256^n := Nat.pow_succ'
    rw [littleEndian,ofLittleEndian_cons,ih,UInt8.toNat_ofNat',hp,Nat.mod_mul]

private theorem littleEndian_ofLittleEndian (bytes : List UInt8) :
    littleEndian bytes.length (ofLittleEndian bytes) = bytes := by
  induction bytes with
  | nil => rfl
  | cons a bytes ih =>
    have ha : a.toNat < 256 := a.toNat_lt
    have hd : (a.toNat + 256 * ofLittleEndian bytes) / 256 = ofLittleEndian bytes := by omega
    have hm : UInt8.ofNat (a.toNat + 256 * ofLittleEndian bytes) = a := by
      apply UInt8.toNat_inj.mp
      rw [UInt8.toNat_ofNat']
      omega
    rw [List.length_cons,ofLittleEndian_cons,littleEndian,hd,ih,hm]

private theorem littleEndian_byteSwap (n x : Nat) : littleEndian n (byteSwap n x) = (littleEndian n x).reverse := by
  have h := littleEndian_ofLittleEndian (littleEndian n x).reverse
  rwa [List.length_reverse,length_littleEndian] at h

/-- A swapped number has no more bytes than it was given. -/
theorem byteSwap_lt (n x : Nat) : byteSwap n x < 256^n := by
  have h := ofLittleEndian_lt (littleEndian n x).reverse
  rwa [List.length_reverse,length_littleEndian] at h

/-- Swapping twice gives the number back. -/
theorem byteSwap_byteSwap (n x : Nat) : byteSwap n (byteSwap n x) = x % 256^n := by
  rw [byteSwap,littleEndian_byteSwap,List.reverse_reverse,ofLittleEndian_littleEndian]

/-- A number of n bytes written with m more has zeros there. -/
theorem littleEndian_mod (n m x : Nat) :
    littleEndian (n+m) (x % 256^n) = littleEndian n x ++ List.replicate m 0 := by
  have h := littleEndian_ofLittleEndian (littleEndian n x ++ List.replicate m 0)
  rwa [ofLittleEndian_append,ofLittleEndian_zeros,Nat.mul_zero,Nat.add_zero,ofLittleEndian_littleEndian,
    List.length_append,length_littleEndian,List.length_replicate] at h

/-- Swapping a number whose high bytes are zero leaves zeros in the low ones. -/
theorem byteSwap_mod (n m x : Nat) : byteSwap (n+m) (x % 256^n) = 256^m * byteSwap n x := by
  have hz : (List.replicate m (0 : UInt8)).length = m := List.length_replicate
  rw [byteSwap,littleEndian_mod,List.reverse_append,List.reverse_replicate,ofLittleEndian_append,
    ofLittleEndian_zeros,Nat.zero_add,hz,byteSwap]

end LearningMuduo.Library
