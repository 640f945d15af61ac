import LearningMuduo.Common.FixedBuffer

/-! The stream that formats a log line: every insertion appends to one small buffer, numbers in place. -/
namespace LearningMuduo.Logging
open Library Common

def kMaxNumericSize : Nat := 32

/-- `zero` points at the middle of `digits`, so that a negative remainder finds its digit too. -/
def digits : List UInt8 := "9876543210123456789".toList.map fun c => c.val.toUInt8

def zero (lsd : Int) : UInt8 := digits.getD (9+lsd).toNat 0

def digitsHex : List UInt8 := "0123456789ABCDEF".toList.map fun c => c.val.toUInt8

/-- The loop of `convert`, the least significant digit first. -/
def convertLoop (i : Int) : List UInt8 :=
  if i.tdiv 10 = 0 then [zero (i.tmod 10)] else zero (i.tmod 10) :: convertLoop (i.tdiv 10)
termination_by i.natAbs
decreasing_by
  have hi : i ≠ 0 := by
    rintro rfl
    contradiction
  rw [Int.natAbs_tdiv]
  exact Nat.div_lt_self (Int.natAbs_pos.mpr hi) (by decide)

/-- The characters that `convert` leaves in front of a zero byte. -/
def convert (value : Int) : List UInt8 :=
  (convertLoop value ++ if value < 0 then [45] else []).reverse

def convertHexLoop (i : Nat) : List UInt8 :=
  if i/16 = 0 then [digitsHex.getD (i%16) 0] else digitsHex.getD (i%16) 0 :: convertHexLoop (i/16)
termination_by i

def convertHex (value : Nat) : List UInt8 := (convertHexLoop value).reverse

/-- What `snprintf` puts in an array of the given size, and what it returns. -/
def snprintf (size : Nat) (text : List UInt8) : List UInt8 × Nat := (text.take (size-1) ++ [0],text.length)

/-- The conversion `%d`. -/
def decimal (v : Int) : List UInt8 :=
  ((if v < 0 then ['-'] else []) ++ Nat.toDigits 10 v.natAbs).map fun c => c.val.toUInt8

/-- A natural number is its digits. -/
@[simp] theorem decimal_natCast (n : Nat) : decimal n = (Nat.toDigits 10 n).map fun c => c.val.toUInt8 := by
  rw [decimal,if_neg (by omega)]
  rfl

/-- A number is read off its digits. -/
theorem decimal_injective {m n : Nat} (h : decimal m = decimal n) : m = n := by
  rw [decimal_natCast,decimal_natCast] at h
  have hback (n : Nat) : ((Nat.toDigits 10 n).map fun c => c.val.toUInt8).map (fun b => Char.ofNat b.toNat) =
      Nat.toDigits 10 n := by
    rw [List.map_map]
    refine (List.map_congr_left fun c hc => ?_).trans (List.map_id _)
    have hd := Nat.isDigit_of_mem_toDigits (by decide) (by decide) hc
    have hlt : c.toNat < 256 := by
      have h57 : c.val ≤ 57 := by
        have hd' := hd
        simp only [Char.isDigit,Bool.and_eq_true,decide_eq_true_eq] at hd'
        exact hd'.2
      have := UInt32.le_iff_toNat_le.mp h57
      change c.val.toNat < 256
      exact Nat.lt_of_le_of_lt this (by decide)
    change Char.ofNat (c.val.toUInt8).toNat = c
    rw [UInt32.toNat_toUInt8,Nat.mod_eq_of_lt (show c.val.toNat < 2^8 from hlt)]
    exact Char.ofNat_toNat c
  have hdigits : Nat.toDigits 10 m = Nat.toDigits 10 n := by rw [← hback m,← hback n,h]
  calc
    m = Nat.ofDigitChars 10 (Nat.toDigits 10 m) 0 := Nat.ofDigitChars_ten_toDigits.symm
    _ = Nat.ofDigitChars 10 (Nat.toDigits 10 n) 0 := by rw [hdigits]
    _ = n := Nat.ofDigitChars_ten_toDigits

/-- The insertions with `<<`, and `LogStream::append`. -/
inductive Insertion where
  | bool (v : Bool)
  | short (v : Int16)
  | unsignedShort (v : UInt16)
  | int (v : Int32)
  | unsignedInt (v : UInt32)
  | long (v : Int64)
  | unsignedLong (v : UInt64)
  | longLong (v : Int64)
  | unsignedLongLong (v : UInt64)
  | pointer (p : UInt64)
  | char (v : UInt8)
  | cString (p : List UInt8)
  | string (str : List UInt8)
  | raw (data : List UInt8)
  deriving DecidableEq, Repr

/-- `buffer_`. -/
structure LogStream where
  buffer : Common.FixedBuffer kSmallBuffer
  deriving DecidableEq, Repr

namespace LogStream

def new : LogStream := ⟨.new⟩

/-- The test that precedes every number. -/
def numeric (s : LogStream) (bytes : List UInt8) (len : Nat) : Except BufferFault LogStream :=
  if s.buffer.available ≥ kMaxNumericSize then LogStream.mk <$> s.buffer.put bytes len else .ok s

def formatInteger (s : LogStream) (v : Int) : Except BufferFault LogStream :=
  let text := convert v
  s.numeric (text ++ [0]) text.length

def insertInt (s : LogStream) (v : Int) : Except BufferFault LogStream :=
  let (bytes,len) := snprintf kMaxNumericSize (decimal v)
  s.numeric bytes len

def insertPointer (s : LogStream) (v : Nat) : Except BufferFault LogStream :=
  let hex := convertHex v
  s.numeric ([48,120] ++ hex) (hex.length+2)

def insert (s : LogStream) : Insertion → Except BufferFault LogStream
  | .bool v => LogStream.mk <$> s.buffer.appendBytes (if v then [49] else [48])
  | .short v => s.insertInt v.toInt
  | .unsignedShort v => s.formatInteger v.toNat
  | .int v => s.insertInt v.toInt
  | .unsignedInt v => s.formatInteger v.toNat
  | .long v => s.formatInteger v.toInt
  | .unsignedLong v => s.formatInteger v.toNat
  | .longLong v => s.formatInteger v.toInt
  | .unsignedLongLong v => s.formatInteger v.toNat
  | .pointer p => s.insertPointer p.toNat
  | .char v => LogStream.mk <$> s.buffer.appendBytes [v]
  | .cString p => LogStream.mk <$> s.buffer.appendBytes p
  | .string str => LogStream.mk <$> s.buffer.appendString str
  | .raw data => LogStream.mk <$> s.buffer.appendBytes data

def machine : Machine LogStream Insertion BufferFault := ⟨fun _ _ => True,insert⟩

/-- What an insertion does to the buffer: an append, or bytes put in place of which the first
`len` are kept. -/
inductive Effect where
  | append (a : Append)
  | number (bytes : List UInt8) (len : Nat)
  deriving DecidableEq, Repr

private def integer (v : Int) : Effect := .number (convert v ++ [0]) (convert v).length

private def printed (v : Int) : Effect :=
  .number (snprintf kMaxNumericSize (decimal v)).1 (snprintf kMaxNumericSize (decimal v)).2

def effect : Insertion → Effect
  | .bool v => .append ⟨.bytes,if v then [49] else [48]⟩
  | .short v => printed v.toInt
  | .unsignedShort v => integer v.toNat
  | .int v => printed v.toInt
  | .unsignedInt v => integer v.toNat
  | .long v => integer v.toInt
  | .unsignedLong v => integer v.toNat
  | .longLong v => integer v.toInt
  | .unsignedLongLong v => integer v.toNat
  | .pointer p => .number ([48,120] ++ convertHex p.toNat) ((convertHex p.toNat).length+2)
  | .char v => .append ⟨.bytes,[v]⟩
  | .cString p => .append ⟨.bytes,p⟩
  | .string str => .append ⟨.string,str⟩
  | .raw data => .append ⟨.bytes,data⟩

def Effect.apply (s : LogStream) : Effect → Except BufferFault LogStream
  | .append a => LogStream.mk <$> s.buffer.append a
  | .number bytes len => s.numeric bytes len

private theorem insert_eq (s : LogStream) (ins : Insertion) : s.insert ins = (effect ins).apply s := by
  cases ins <;> rfl

/-- The rest of the buffer has room for every byte that the insertion writes. -/
def Effect.Fits (s : LogStream) : Effect → Prop
  | .append a => s.buffer.Fits a
  | .number bytes _ => s.buffer.length+bytes.length ≤ kSmallBuffer

def Fits (s : LogStream) (ins : Insertion) : Prop := (effect ins).Fits s

instance (s : LogStream) : (e : Effect) → Decidable (e.Fits s)
  | .append a => inferInstanceAs (Decidable (s.buffer.Fits a))
  | .number _ _ => inferInstanceAs (Decidable (_ ≤ _))

instance (s : LogStream) (ins : Insertion) : Decidable (s.Fits ins) :=
  inferInstanceAs (Decidable ((effect ins).Fits s))

instance (s : LogStream) (ins : Insertion) : Decidable (machine.Enabled s ins) :=
  inferInstanceAs (Decidable True)

private theorem step_bounded (s : LogStream) (ins : Insertion) (_ : s.buffer.length ≤ kSmallBuffer)
    (h : (machine.guard Fits).Enabled s ins) :
    Meets (fun t => t.buffer.length ≤ kSmallBuffer) (fun _ => False) (machine.step s ins) := by
  have hfits := h.2
  change Meets _ _ (s.insert ins)
  rw [insert_eq]
  rw [Fits] at hfits
  cases he : effect ins with
  | append a =>
    rw [he] at hfits
    rw [Effect.apply,Common.FixedBuffer.append_ok hfits]
    exact Common.FixedBuffer.length_append_le hfits
  | number bytes len =>
    rw [he] at hfits
    have hroom : s.buffer.written.length+bytes.length ≤ kSmallBuffer := hfits
    rw [Effect.apply,numeric,Common.FixedBuffer.available,if_pos (by decide),Common.FixedBuffer.put_ok hfits]
    change (s.buffer.written ++ bytes.take len).length ≤ kSmallBuffer
    rw [List.length_append,List.length_take]
    omega

/-- Insertions that all fit leave at most `kSmallBuffer` bytes. -/
theorem exec_insertions {inss : List Insertion} (ha : (machine.guard Fits).Admissible new inss) :
    ∃ s, machine.exec new inss = .ok s ∧ s.buffer.length ≤ kSmallBuffer := by
  have hrun := (machine.guard Fits).exec_invariant step_bounded inss new (Nat.zero_le _) ha
  rw [Machine.exec_guard] at hrun
  exact hrun.ok_of_no_error fun _ => id

end LogStream
end LearningMuduo.Logging
