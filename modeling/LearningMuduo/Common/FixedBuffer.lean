import LearningMuduo.Library.BigEndian
import LearningMuduo.Library.Machine

/-! The fixed-size character buffer of the log, with its three ways to append. -/
namespace LearningMuduo.Common
open Library

def kSmallBuffer : Nat := 4000

/-- Bytes go past the end of `data_`, which has no meaning in C++; `length` is how far from
`data_` the call writes. -/
inductive BufferFault where
  | overflow (length : Nat)
  deriving DecidableEq, Repr

/-- A `FixedBuffer<SIZE>`: the bytes from `data_` up to `cur_`. -/
structure FixedBuffer (SIZE : Nat) where
  written : List UInt8
  deriving DecidableEq, Repr

/-- The three overloads of `append`. -/
inductive Overload where
  | string | cString | bytes
  deriving DecidableEq, Repr

/-- A call of `append`. The text of a C string is what comes before its zero byte, the text of
`append(buf,len)` the first `len` bytes of `buf`. -/
structure Append where
  overload : Overload
  text : List UInt8
  deriving DecidableEq, Repr

namespace FixedBuffer
variable {SIZE : Nat}

def new : FixedBuffer SIZE := ⟨[]⟩

def length (b : FixedBuffer SIZE) : Nat := b.written.length

/-- `end()-data_`, the size of the array. SIZE is an int, so the cast keeps it. -/
def available (_ : FixedBuffer SIZE) : Nat := SIZE

/-- Bytes are put at `current()`, and `add` moves `cur_` over the first `len` of them. -/
def put (b : FixedBuffer SIZE) (bytes : List UInt8) (len : Nat) : Except BufferFault (FixedBuffer SIZE) := do
  require (b.length+bytes.length ≤ SIZE) (.overflow (b.length+bytes.length))
  pure ⟨b.written ++ bytes.take len⟩

def appendString (b : FixedBuffer SIZE) (str : List UInt8) : Except BufferFault (FixedBuffer SIZE) :=
  let len := toInt32 str.length
  let len := if len > b.available then (b.available : Int) else len
  -- the loop does not start if the length came out negative
  b.put (str.take len.toNat) len.toNat

def appendCString (b : FixedBuffer SIZE) (str : List UInt8) : Except BufferFault (FixedBuffer SIZE) :=
  let len := toInt32 str.length
  let len := if len > b.available then (b.available : Int) else len
  if len < 0 then
    -- `memcpy` takes a `size_t`
    .error (.overflow (b.length+(len % 2^64).toNat))
  else
    b.put (str.take len.toNat) len.toNat

def appendBytes (b : FixedBuffer SIZE) (buf : List UInt8) : Except BufferFault (FixedBuffer SIZE) :=
  let len := if buf.length > b.available then b.available else buf.length
  b.put (buf.take len) len

def append (b : FixedBuffer SIZE) (a : Append) : Except BufferFault (FixedBuffer SIZE) :=
  match a.overload with
  | .string => b.appendString a.text
  | .cString => b.appendCString a.text
  | .bytes => b.appendBytes a.text

def machine (SIZE : Nat) : Machine (FixedBuffer SIZE) Append BufferFault := ⟨fun _ _ => True,append⟩

/-- There is room for the text, or the buffer is empty and takes as much of it as it can hold;
and the overloads that keep the length in an int are given a length that fits one. -/
def Fits (b : FixedBuffer SIZE) (a : Append) : Prop :=
  (b.length = 0 ∨ b.length+a.text.length ≤ SIZE) ∧ (a.overload = .bytes ∨ a.text.length < 2^31)

instance (b : FixedBuffer SIZE) (a : Append) : Decidable (b.Fits a) := inferInstanceAs (Decidable (_ ∧ _))

instance (b : FixedBuffer SIZE) (a : Append) : Decidable ((machine SIZE).Enabled b a) :=
  inferInstanceAs (Decidable True)

/-- What has room is stored. -/
theorem put_ok {b : FixedBuffer SIZE} {bytes : List UInt8} (h : b.length+bytes.length ≤ SIZE) (len : Nat) :
    b.put bytes len = .ok ⟨b.written ++ bytes.take len⟩ := by
  rw [put,require_pos h,bind_ok]
  rfl

private theorem put_clipped {b : FixedBuffer SIZE} {text : List UInt8}
    (h : b.length = 0 ∨ b.length+text.length ≤ SIZE) (len : Nat) (hlen : len = min text.length SIZE) :
    b.put (text.take len) len = .ok ⟨b.written ++ text.take SIZE⟩ := by
  have htake : text.take len = text.take SIZE := by
    rw [hlen,List.take_eq_take_iff]
    omega
  have hroom : b.length+(text.take len).length ≤ SIZE := by
    rw [List.length_take]
    omega
  rw [put_ok hroom,List.take_take,Nat.min_self,htake]

/-- An append that fits adds the text, cut at SIZE bytes. -/
theorem append_ok {b : FixedBuffer SIZE} {a : Append} (h : b.Fits a) :
    b.append a = .ok ⟨b.written ++ a.text.take SIZE⟩ := by
  obtain ⟨overload,text⟩ := a
  obtain ⟨hroom,hint⟩ := h
  dsimp only at hroom hint ⊢
  unfold append
  cases overload with
  | string =>
    have hlen : toInt32 text.length = text.length := toInt32_eq (by omega) (by simp at hint; omega)
    dsimp only
    unfold appendString
    rw [hlen]
    exact put_clipped hroom _ (by rw [available]; split <;> omega)
  | cString =>
    have hlen : toInt32 text.length = text.length := toInt32_eq (by omega) (by simp at hint; omega)
    dsimp only
    unfold appendCString
    rw [hlen]
    dsimp only
    rw [if_neg (by split <;> omega)]
    exact put_clipped hroom _ (by rw [available]; split <;> omega)
  | bytes =>
    dsimp only
    unfold appendBytes
    exact put_clipped hroom _ (by rw [available]; split <;> omega)

/-- `append(buf,len)` whether or not the text fits. -/
theorem appendBytes_eq (b : FixedBuffer SIZE) (buf : List UInt8) :
    b.appendBytes buf = b.put (buf.take SIZE) SIZE := by
  have htake : buf.take (if buf.length > b.available then b.available else buf.length) = buf.take SIZE := by
    rw [available,List.take_eq_take_iff]
    split <;> omega
  unfold appendBytes put
  dsimp only
  rw [List.take_take,Nat.min_self,htake,List.take_take,Nat.min_self]

/-- An append that fits stays within the array. -/
theorem length_append_le {b : FixedBuffer SIZE} {a : Append} (h : b.Fits a) :
    (b.written ++ a.text.take SIZE).length ≤ SIZE := by
  have hroom := h.1
  rw [List.length_append,List.length_take]
  rw [length] at hroom
  omega

/-- The buffer holds the first SIZE bytes of what was appended. -/
private def Holds (b : FixedBuffer SIZE) (text : List UInt8) : Prop := b.written = text.take SIZE

private theorem step_holds (b : FixedBuffer SIZE) (text : List UInt8) (a : Append) (hb : b.Holds text)
    (h : ((machine SIZE).guard Fits).Enabled b a) :
    Meets (fun c => c.Holds (text ++ a.text)) (fun _ => False) ((machine SIZE).step b a) := by
  have hroom := h.2.1
  have hlen : b.length = min SIZE text.length := by rw [length,hb,List.length_take]
  have htake : a.text.take SIZE = a.text.take (SIZE-text.length) := by
    rw [List.take_eq_take_iff]
    omega
  change Meets _ _ (b.append a)
  rw [append_ok h.2,meets_ok,Holds,hb,List.take_append,htake]

/-- Appends that all fit leave the first SIZE bytes of their texts. -/
theorem exec_appends {as : List Append} (ha : ((machine SIZE).guard Fits).Admissible new as) :
    ∃ b, (machine SIZE).exec new as = .ok b ∧ b.written = (as.flatMap Append.text).take SIZE := by
  have hrun := ((machine SIZE).guard Fits).exec_simulates (fun text a => text ++ a.text) step_holds as new []
    List.take_nil.symm ha
  rw [Machine.exec_guard] at hrun
  obtain ⟨b,hb,hholds⟩ := hrun.ok_of_no_error fun _ => id
  rw [Holds,← List.flatMap_eq_foldl] at hholds
  exact ⟨b,hb,hholds⟩

end FixedBuffer
end LearningMuduo.Common
