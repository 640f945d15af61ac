import Mathlib.Algebra.Order.Ring.Int

/-! Signed 32-bit integers and their four bytes in network order. -/
namespace LearningMuduo.Library

/-- Conversion to a signed 32-bit integer: the low 32 bits as two's complement. -/
def toInt32 (x : Int) : Int := x.bmod (2^32)

/-- The four bytes of a 32-bit integer, the most significant one first. -/
def encodeInt32 (x : Int) : List UInt8 :=
  let u := (x % 2^32).toNat
  [UInt8.ofNat (u / 2^24),UInt8.ofNat (u / 2^16),UInt8.ofNat (u / 2^8),UInt8.ofNat u]

/-- The 32-bit integer in the first four bytes. -/
def decodeInt32 : List UInt8 → Int
  | a :: b :: c :: d :: _ =>
    toInt32 (((a.toNat * 2^8 + b.toNat) * 2^8 + c.toNat) * 2^8 + d.toNat)
  | _ => 0

/-- An encoded word has four bytes. -/
@[simp] theorem length_encodeInt32 (x : Int) : (encodeInt32 x).length = 4 := rfl

/-- A word that is converted once stays as it is. -/
@[simp] theorem toInt32_toInt32 (x : Int) : toInt32 (toInt32 x) = toInt32 x := Int.bmod_bmod

/-- A value of 32 bits is its own word. -/
theorem toInt32_eq {x : Int} (hl : -2^31 ≤ x) (hu : x < 2^31) : toInt32 x = x :=
  Int.bmod_eq_of_le (by omega) (by omega)

/-- The conversion keeps the value modulo the 32 bits. -/
theorem toInt32_emod (x : Int) : toInt32 x % 2^32 = x % 2^32 := Int.bmod_emod (m := 2^32)

/-- A word is in the range of its 32 bits. -/
theorem toInt32_bounds (x : Int) : -2^31 ≤ toInt32 x ∧ toInt32 x < 2^31 := by
  have hl : -(2^32/2 : Int) ≤ toInt32 x := Int.le_bmod (by decide)
  have hu : toInt32 x < (2^32+1)/2 := Int.bmod_lt (by decide)
  exact ⟨by omega,by omega⟩

/-- So is a word that was decoded. -/
theorem decodeInt32_bounds (bytes : List UInt8) :
    -2^31 ≤ decodeInt32 bytes ∧ decodeInt32 bytes < 2^31 := by
  unfold decodeInt32
  split
  · exact toInt32_bounds _
  · decide

/-- Reading back what was written gives the integer modulo its 32 bits. -/
@[simp] theorem decodeInt32_encodeInt32 (x : Int) (bytes : List UInt8) :
    decodeInt32 (encodeInt32 x ++ bytes) = toInt32 x := by
  have hd : ((((x % 2^32).toNat / 2^24 % 2^8 * 2^8 + (x % 2^32).toNat / 2^16 % 2^8) * 2^8 +
      (x % 2^32).toNat / 2^8 % 2^8) * 2^8 + (x % 2^32).toNat % 2^8 : Nat) = x % 2^32 := by
    omega
  have hx : toInt32 (x % 2^32) = toInt32 x := Int.emod_bmod x (2^32)
  rw [← hx,← hd]
  simp [encodeInt32,decodeInt32]

/-- Only the first four bytes are decoded. -/
theorem decodeInt32_append {xs : List UInt8} (h : 4 ≤ xs.length) (ys : List UInt8) :
    decodeInt32 (xs ++ ys) = decodeInt32 xs := by
  match xs,h with
  | _ :: _ :: _ :: _ :: _,_ => rfl

/-- What is cut off behind the four bytes does not matter. -/
theorem decodeInt32_take {xs : List UInt8} {k : Nat} (h : 4 ≤ k) :
    decodeInt32 (xs.take k) = decodeInt32 xs := by
  match xs,k,h with
  | [],_,_ | [_],_+1,_ | [_,_],_+2,_ | [_,_,_],_+3,_ => simp [decodeInt32]
  | _ :: _ :: _ :: _ :: _,_+4,_ => rfl

/-- Writing what was read gives the four bytes back. -/
theorem encodeInt32_decodeInt32 {word : List UInt8} (h : word.length = 4) :
    encodeInt32 (decodeInt32 word) = word := by
  match word,h with
  | [a,b,c,d],_ =>
    have ha := a.toNat_lt
    have hb := b.toNat_lt
    have hc := c.toNat_lt
    have hd := d.toNat_lt
    have hu : (decodeInt32 [a,b,c,d] % 2^32).toNat = ((a.toNat * 2^8 + b.toNat) * 2^8 + c.toNat) * 2^8 + d.toNat := by
      rw [decodeInt32,toInt32_emod]
      omega
    rw [encodeInt32,hu]
    simp only [List.cons.injEq,UInt8.ext_iff,UInt8.toNat_ofNat',and_true]
    omega

/-- A word holds an integer exactly when it is that integer's encoding. -/
theorem toInt32_eq_decodeInt32 {x : Int} {word : List UInt8} (h : word.length = 4) :
    toInt32 x = decodeInt32 word ↔ word = encodeInt32 x := by
  have hx : decodeInt32 (encodeInt32 x) = toInt32 x := by
    rw [← List.append_nil (encodeInt32 x),decodeInt32_encodeInt32]
  constructor
  · intro he
    rw [← encodeInt32_decodeInt32 h,← he,encodeInt32,encodeInt32,toInt32_emod]
  · rintro rfl
    exact hx.symm

end LearningMuduo.Library
