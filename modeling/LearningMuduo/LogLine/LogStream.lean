import LearningMuduo.Library.BigEndian
import Mathlib.Data.List.Induction
import Mathlib.Data.List.Infix

/-! The log stream of src/logging over the buffer of src/common, and where a long line is cut. -/
namespace LearningMuduo.LogLine
open Library

def kSmallBuffer : Nat := 4000

/-- The bytes from `data_` up to `cur_`. -/
structure FixedBuffer (SIZE : Nat) where
  bytes : List UInt8
  fits : bytes.length ≤ SIZE
  deriving DecidableEq

namespace FixedBuffer
variable {SIZE : Nat}

def new : FixedBuffer SIZE := ⟨[],Nat.zero_le _⟩

def available (b : FixedBuffer SIZE) : Nat := SIZE - b.bytes.length

/-- Bytes go to `cur_`, which moves behind them. -/
def put (b : FixedBuffer SIZE) (data : List UInt8) (h : data.length ≤ b.available) : FixedBuffer SIZE :=
  ⟨b.bytes ++ data,by rw [List.length_append]; have := b.fits; unfold available at h; omega⟩

/-- The length as the overloads for strings keep it, cut to the space there is. -/
def stringLength (b : FixedBuffer SIZE) (length : Nat) : Int :=
  let len := toInt32 length
  if len > b.available then b.available else len

private theorem stringLength_le (b : FixedBuffer SIZE) (length : Nat) : b.stringLength length ≤ b.available := by
  unfold stringLength
  dsimp only
  split <;> omega

private theorem length_take_stringLength (b : FixedBuffer SIZE) (str : List UInt8) :
    (str.take (b.stringLength str.length).toNat).length ≤ b.available := by
  have hle := b.stringLength_le str.length
  rw [List.length_take]
  omega

/-- The loop does not start if the length came out negative. -/
def appendString (b : FixedBuffer SIZE) (str : List UInt8) : FixedBuffer SIZE :=
  b.put (str.take (b.stringLength str.length).toNat) (b.length_take_stringLength str)

/-- The text before the zero byte of a C string; none where `memcpy` is given a negative count. -/
def appendCString (b : FixedBuffer SIZE) (str : List UInt8) : Option (FixedBuffer SIZE) :=
  if b.stringLength str.length < 0 then none
  else some (b.put (str.take (b.stringLength str.length).toNat) (b.length_take_stringLength str))

/-- `append(buf,len)` takes all or nothing. -/
def appendBytes (b : FixedBuffer SIZE) (buf : List UInt8) : FixedBuffer SIZE :=
  if h : buf.length < b.available then b.put buf (Nat.le_of_lt h) else b

end FixedBuffer

abbrev LogStream := FixedBuffer kSmallBuffer

/-- The operands of `operator<<` that are text. -/
inductive Insertion where
  | bool (v : Bool)
  | char (v : UInt8)
  | cString (p : List UInt8)
  | string (str : List UInt8)
  deriving DecidableEq, Repr

/-- What is inserted: a C string ends before its first zero byte. -/
def Insertion.bytes : Insertion → List UInt8
  | bool v => if v then [49] else [48]
  | char v => [v]
  | cString p => p.takeWhile (· ≠ 0)
  | string str => str

namespace LogStream

/-- `operator<<`. -/
def insert (s : LogStream) : Insertion → LogStream
  | .bool v => s.appendBytes (if v then [49] else [48])
  | .char v => s.appendBytes [v]
  | .cString p => s.appendBytes (p.takeWhile (· ≠ 0))
  | .string str => s.appendString str

def run (pieces : List Insertion) : LogStream := pieces.foldl insert FixedBuffer.new

/-- Everything inserted. -/
def line (pieces : List Insertion) : List UInt8 := pieces.flatMap Insertion.bytes

/-- In every state the buffer holds what came first. -/
def CutAtEnd (pieces : List Insertion) : Prop :=
  ∀ front, front <+: pieces → (run front).bytes = (line front).take kSmallBuffer

end LogStream

/-- The overloads do the same with these bytes. -/
def FixedBuffer.Alike {SIZE : Nat} (b : FixedBuffer SIZE) (bytes : List UInt8) : Prop :=
  b.appendBytes bytes = b.appendString bytes ∧ (0 ∉ bytes → b.appendCString bytes = some (b.appendString bytes))

namespace LogStream

def TreatedAlike (pieces : List Insertion) : Prop :=
  ∀ front x rest, pieces = front ++ x :: rest → (run front).Alike x.bytes

end LogStream

/-- All of the piece, or as much as there is room for, is what its operator stores. -/
def Insertion.Fits (available : Nat) : Insertion → Prop
  | string str => ((min (toInt32 str.length) available).toNat = min str.length available)
  | x => x.bytes.length < available ∨ available = 0 ∨ x.bytes = []

namespace FixedBuffer
variable {SIZE : Nat} {b : FixedBuffer SIZE} {data before : List UInt8}

private theorem bytes_injective {c : FixedBuffer SIZE} (h : b.bytes = c.bytes) : b = c := by
  cases b
  cases c
  rw [mk.injEq]
  exact h

private theorem appendBytes_bytes : (b.appendBytes data).bytes = b.bytes ++ if data.length < b.available then data else [] := by
  unfold appendBytes
  split
  · rfl
  · exact (List.append_nil _).symm

private theorem stringLength_eq (b : FixedBuffer SIZE) (length : Nat) :
    b.stringLength length = min (toInt32 length) b.available := by
  unfold stringLength
  dsimp only
  split <;> omega

/-- The room left for the text, when what is there is the text before it. -/
theorem available_eq (h : b.bytes = before.take SIZE) : b.available = SIZE - before.length := by
  rw [available,h,List.length_take]
  omega

private theorem take_append_eq (h : b.bytes = before.take SIZE) (data : List UInt8) :
    (before ++ data).take SIZE = b.bytes ++ data.take b.available := by
  rw [List.take_append,h,available_eq h]

private theorem appendBytes_exact_iff : (b.appendBytes data).bytes = b.bytes ++ data.take b.available ↔
    data.length < b.available ∨ b.available = 0 ∨ data = [] := by
  rw [appendBytes_bytes,List.append_cancel_left_eq]
  split
  · rename_i hlt
    exact iff_of_true (List.take_of_length_le (Nat.le_of_lt hlt)).symm (.inl hlt)
  · rename_i hge
    rw [eq_comm,List.take_eq_nil_iff]
    exact (or_iff_right hge).symm

private theorem appendString_exact_iff : (b.appendString data).bytes = b.bytes ++ data.take b.available ↔
    (min (toInt32 data.length) b.available).toNat = min data.length b.available := by
  change b.bytes ++ data.take (b.stringLength data.length).toNat = _ ↔ _
  rw [List.append_cancel_left_eq,List.take_eq_take_iff,stringLength_eq]
  have hemod := toInt32_emod data.length
  have hbounds := toInt32_bounds data.length
  omega

/-- Bytes that end before the buffer does are stored in full by all overloads. -/
theorem alike_of_lt (hsize : SIZE < 2^31) (h : data.length < b.available) : b.Alike data := by
  have havailable : b.available ≤ SIZE := Nat.sub_le _ _
  have hint : toInt32 data.length = data.length := toInt32_eq (by omega) (by omega)
  have hlen : b.stringLength data.length = data.length := by
    rw [stringLength_eq,hint]
    omega
  have hstring : (b.appendString data).bytes = b.bytes ++ data := by
    change b.bytes ++ data.take (b.stringLength data.length).toNat = _
    rw [hlen,Int.toNat_natCast,List.take_length]
  refine ⟨bytes_injective ?_,fun _ => ?_⟩
  · rw [appendBytes_bytes,if_pos h,hstring]
  · rw [appendCString,if_neg (by omega)]
    rfl

private theorem lt_of_alike {x : Insertion} (hfit : x.Fits b.available) (halike : b.Alike x.bytes) (hroom : 0 < b.available) :
    x.bytes.length < b.available := by
  by_contra hge
  have hlen : 0 < x.bytes.length := hroom.trans_le (Nat.le_of_not_lt hge)
  have hnone : ¬ (x.bytes.length < b.available ∨ b.available = 0 ∨ x.bytes = []) := by
    rintro (hlt | hzero | hnil)
    · exact hge hlt
    · exact hroom.ne' hzero
    · rw [hnil] at hlen
      exact hlen.ne rfl
  cases x with
  | string str =>
    -- the bytes overload leaves out what the string overload cuts
    have hcut := halike.1 ▸ appendString_exact_iff.mpr hfit
    exact hnone (appendBytes_exact_iff.mp hcut)
  | bool v => exact hnone hfit
  | char v => exact hnone hfit
  | cString p => exact hnone hfit

end FixedBuffer

private theorem Insertion.fits_of_lt {x : Insertion} {available : Nat} (hmax : available < 2^31) (h : x.bytes.length < available) :
    x.Fits available := by
  cases x with
  | string str =>
    have hlen : str.length < available := h
    have hint : toInt32 str.length = str.length := toInt32_eq (by omega) (by omega)
    change (min (toInt32 str.length) available).toNat = min str.length available
    omega
  | bool v => exact .inl h
  | char v => exact .inl h
  | cString p => exact .inl h

namespace LogStream
variable {s : LogStream} {pieces front rest : List Insertion} {x : Insertion} {before : List UInt8}

private theorem insert_exact_iff (h : s.bytes = before.take kSmallBuffer) (x : Insertion) :
    (insert s x).bytes = (before ++ x.bytes).take kSmallBuffer ↔ x.Fits (kSmallBuffer - before.length) := by
  rw [FixedBuffer.take_append_eq h,← FixedBuffer.available_eq h]
  cases x with
  | bool v => exact FixedBuffer.appendBytes_exact_iff
  | char v => exact FixedBuffer.appendBytes_exact_iff
  | cString p => exact FixedBuffer.appendBytes_exact_iff
  | string str => exact FixedBuffer.appendString_exact_iff

private theorem run_concat (front : List Insertion) (x : Insertion) : run (front ++ [x]) = insert (run front) x := by
  rw [run,List.foldl_concat,run]

private theorem line_concat (front : List Insertion) (x : Insertion) : line (front ++ [x]) = line front ++ x.bytes := by
  rw [line,List.flatMap_append,List.flatMap_singleton,line]

/-- Each piece fits behind the ones before it. -/
def Fitting (pieces : List Insertion) : Prop :=
  ∀ front x rest, pieces = front ++ x :: rest → x.Fits (kSmallBuffer - (line front).length)

private theorem front_concat (h : pieces = front ++ x :: rest) : front ++ [x] <+: pieces :=
  ⟨rest,by rw [h,List.append_assoc,List.singleton_append]⟩

private theorem cutAtEnd_iff (pieces : List Insertion) : CutAtEnd pieces ↔ Fitting pieces := by
  constructor
  · intro hcut front x rest heq
    have hnext := hcut _ (front_concat heq)
    rw [run_concat,line_concat] at hnext
    exact (insert_exact_iff (hcut front ⟨_,heq.symm⟩) x).mp hnext
  · intro hfit front hfront
    induction front using List.reverseRecOn with
    | nil => rfl
    | append_singleton front x ih =>
      obtain ⟨rest,hrest⟩ := hfront
      rw [List.append_assoc,List.singleton_append] at hrest
      rw [run_concat,line_concat]
      exact (insert_exact_iff (ih ⟨_,hrest⟩) x).mpr (hfit front x rest hrest.symm)

private theorem line_split (h : pieces = front ++ x :: rest) :
    (line front).length + x.bytes.length + (line rest).length = (line pieces).length := by
  rw [h,line,line,line,List.flatMap_append,List.flatMap_cons,List.length_append,List.length_append,Nat.add_assoc]

/-- The overloads agree on every piece only while the line ends before the buffer does. -/
theorem cutAtEnd_and_treatedAlike_iff (pieces : List Insertion) :
    CutAtEnd pieces ∧ TreatedAlike pieces ↔ (line pieces).length < kSmallBuffer := by
  have hk : kSmallBuffer < 2^31 := by decide
  constructor
  · rintro ⟨hcut,halike⟩
    suffices hall : ∀ front, front <+: pieces → (line front).length < kSmallBuffer from hall pieces List.prefix_rfl
    intro front hfront
    induction front using List.reverseRecOn with
    | nil => decide
    | append_singleton front x ih =>
      obtain ⟨rest,hrest⟩ := hfront
      rw [List.append_assoc,List.singleton_append] at hrest
      have hroom := ih ⟨_,hrest⟩
      have havailable := FixedBuffer.available_eq (hcut front ⟨_,hrest⟩)
      have hfit : x.Fits (run front).available := havailable ▸ (cutAtEnd_iff pieces).mp hcut front x rest hrest.symm
      have hlt := FixedBuffer.lt_of_alike hfit (halike front x rest hrest.symm) (by omega)
      rw [line_concat,List.length_append]
      omega
  · intro hshort
    have hcut : CutAtEnd pieces := by
      refine (cutAtEnd_iff pieces).mpr fun front x rest heq => ?_
      have hsplit := line_split heq
      exact Insertion.fits_of_lt (by omega) (by omega)
    refine ⟨hcut,fun front x rest heq => ?_⟩
    have hsplit := line_split heq
    have havailable := FixedBuffer.available_eq (hcut front ⟨_,heq.symm⟩)
    exact FixedBuffer.alike_of_lt hk (by omega)

/-- The line is cut only at its end exactly when each piece fits; that the overloads agree as well
takes a line that ends before the buffer does. -/
theorem log_line_cut_iff (pieces : List Insertion) : (CutAtEnd pieces ↔ Fitting pieces) ∧
    (CutAtEnd pieces ∧ TreatedAlike pieces ↔ (line pieces).length < kSmallBuffer) :=
  ⟨cutAtEnd_iff pieces,cutAtEnd_and_treatedAlike_iff pieces⟩

/-- A C string of 4000 characters is left out, and the character after it stored. -/
theorem line_with_hole : (run [.cString (List.replicate 4000 97),.char 98]).bytes = [98] ∧
    ¬ CutAtEnd [.cString (List.replicate 4000 97),.char 98] := by
  have hrun : (run [.cString (List.replicate 4000 97),.char 98]).bytes = [98] := by decide +kernel
  refine ⟨hrun,fun hcut => ?_⟩
  have hlen := congrArg List.length (hrun.symm.trans (hcut _ List.prefix_rfl))
  rw [List.length_take] at hlen
  exact absurd hlen (by decide +kernel)

end LogStream
end LearningMuduo.LogLine
