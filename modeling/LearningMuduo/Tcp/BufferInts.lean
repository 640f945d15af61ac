import LearningMuduo.Library.ByteOrder
import LearningMuduo.Tcp.Buffer

/-! Integers in a buffer, through the byte-order helpers of Endian.h with their own
parameter and return widths, on a little-endian host. -/
namespace LearningMuduo.Tcp
open Library

namespace Sockets

/-- The `htobe` and `toh` functions for numbers of n bytes: they reverse the bytes. -/
def reverseBytes (n : Nat) {w : Nat} (x : BitVec w) : BitVec w := BitVec.ofNat w (byteSwap n x.toNat)

def hostToNetwork16 (host16 : BitVec 16) : BitVec 16 := reverseBytes 2 host16

def hostToNetwork32 (host32 : BitVec 32) : BitVec 32 := reverseBytes 4 host32

/-- Declared to return a `uint32_t`. -/
def hostToNetwork64 (host64 : BitVec 64) : BitVec 32 := (reverseBytes 8 host64).setWidth 32

def networkToHost16 (net16 : BitVec 16) : BitVec 16 := reverseBytes 2 net16

/-- Declared to return a `uint16_t`. -/
def networkToHost32 (net32 : BitVec 32) : BitVec 16 := (reverseBytes 4 net32).setWidth 16

/-- Declared to return a `uint16_t`. -/
def networkToHost64 (net64 : BitVec 64) : BitVec 16 := (reverseBytes 8 net64).setWidth 16

end Sockets

/-- The integer types of the calls. -/
inductive IntWidth where
  | int8
  | int16
  | int32
  | int64
  deriving DecidableEq, Repr

namespace IntWidth

def bytes : IntWidth → Nat
  | int8 => 1
  | int16 => 2
  | int32 => 4
  | int64 => 8

def bits : IntWidth → Nat
  | int8 => 8
  | int16 => 16
  | int32 => 32
  | int64 => 64

end IntWidth

/-- A fault of a call on the buffer, or of the entry assertion of a `peekInt`. -/
inductive IntFault where
  | buffer (fault : BufferFault)
  | peekInt (width : IntWidth)
  deriving DecidableEq, Repr

/-- The bytes of an object of n bytes in the memory of a little-endian host. -/
def objectBytes (n : Nat) {w : Nat} (x : BitVec w) : List UInt8 := littleEndian n x.toNat

namespace Buffer
open Sockets

/-! An unsigned result that is assigned to a wider integer is extended with zeros. -/

def appendInt64 (b : Buffer) (x : BitVec 64) : Except BufferFault Buffer :=
  let be64 : BitVec 64 := (hostToNetwork64 x).setWidth 64
  b.append (objectBytes 8 be64)

def appendInt32 (b : Buffer) (x : BitVec 32) : Except BufferFault Buffer :=
  let be32 := hostToNetwork32 x
  b.append (objectBytes 4 be32)

def appendInt16 (b : Buffer) (x : BitVec 16) : Except BufferFault Buffer :=
  let be16 := hostToNetwork16 x
  b.append (objectBytes 2 be16)

def appendInt8 (b : Buffer) (x : BitVec 8) : Except BufferFault Buffer := b.append (objectBytes 1 x)

/-- The object of a width that `memcpy` fills from `peek()`, after the entry assertion. -/
def peekObject (b : Buffer) (width : IntWidth) : Except IntFault (BitVec width.bits) := do
  require (width.bytes ≤ b.readableBytes) (.peekInt width)
  return BitVec.ofNat width.bits
    (ofLittleEndian (slice b.buffer b.readerIndex (b.readerIndex+width.bytes)))

def peekInt64 (b : Buffer) : Except IntFault (BitVec 64) := do
  let be64 ← b.peekObject .int64
  return (networkToHost64 be64).setWidth 64

def peekInt32 (b : Buffer) : Except IntFault (BitVec 32) := do
  let be32 ← b.peekObject .int32
  return (networkToHost32 be32).setWidth 32

def peekInt16 (b : Buffer) : Except IntFault (BitVec 16) := do
  let be16 ← b.peekObject .int16
  return networkToHost16 be16

def peekInt8 (b : Buffer) : Except IntFault (BitVec 8) := b.peekObject .int8

def retrieveInt64 (b : Buffer) : Except BufferFault Buffer := b.retrieve 8

def retrieveInt32 (b : Buffer) : Except BufferFault Buffer := b.retrieve 4

def retrieveInt16 (b : Buffer) : Except BufferFault Buffer := b.retrieve 2

def retrieveInt8 (b : Buffer) : Except BufferFault Buffer := b.retrieve 1

def readInt64 (b : Buffer) : Except IntFault (Buffer × BitVec 64) := do
  let result ← b.peekInt64
  let b ← b.retrieveInt64.mapError .buffer
  return (b,result)

def readInt32 (b : Buffer) : Except IntFault (Buffer × BitVec 32) := do
  let result ← b.peekInt32
  let b ← b.retrieveInt32.mapError .buffer
  return (b,result)

def readInt16 (b : Buffer) : Except IntFault (Buffer × BitVec 16) := do
  let result ← b.peekInt16
  let b ← b.retrieveInt16.mapError .buffer
  return (b,result)

def readInt8 (b : Buffer) : Except IntFault (Buffer × BitVec 8) := do
  let result ← b.peekInt8
  let b ← b.retrieveInt8.mapError .buffer
  return (b,result)

def prependInt64 (b : Buffer) (x : BitVec 64) : Except BufferFault Buffer :=
  let be64 : BitVec 64 := (hostToNetwork64 x).setWidth 64
  b.prepend (objectBytes 8 be64)

def prependInt32 (b : Buffer) (x : BitVec 32) : Except BufferFault Buffer :=
  let be32 := hostToNetwork32 x
  b.prepend (objectBytes 4 be32)

def prependInt16 (b : Buffer) (x : BitVec 16) : Except BufferFault Buffer :=
  let be16 := hostToNetwork16 x
  b.prepend (objectBytes 2 be16)

def prependInt8 (b : Buffer) (x : BitVec 8) : Except BufferFault Buffer := b.prepend (objectBytes 1 x)

/-! The calls of each family, by width. -/

def appendInt (b : Buffer) : (width : IntWidth) → BitVec width.bits → Except BufferFault Buffer
  | .int8,x => b.appendInt8 x
  | .int16,x => b.appendInt16 x
  | .int32,x => b.appendInt32 x
  | .int64,x => b.appendInt64 x

def peekInt (b : Buffer) : (width : IntWidth) → Except IntFault (BitVec width.bits)
  | .int8 => b.peekInt8
  | .int16 => b.peekInt16
  | .int32 => b.peekInt32
  | .int64 => b.peekInt64

def readInt (b : Buffer) : (width : IntWidth) → Except IntFault (Buffer × BitVec width.bits)
  | .int8 => b.readInt8
  | .int16 => b.readInt16
  | .int32 => b.readInt32
  | .int64 => b.readInt64

def prependInt (b : Buffer) : (width : IntWidth) → BitVec width.bits → Except BufferFault Buffer
  | .int8,x => b.prependInt8 x
  | .int16,x => b.prependInt16 x
  | .int32,x => b.prependInt32 x
  | .int64,x => b.prependInt64 x

end Buffer

/-- An integer with its width. -/
abbrev IntValue := (width : IntWidth) × BitVec width.bits

namespace Buffer

/-- The integers appended one after the other. -/
def appendInts : Buffer → List IntValue → Except BufferFault Buffer
  | b,[] => .ok b
  | b,x :: xs => do
    let b ← b.appendInt x.1 x.2
    appendInts b xs

/-- Integers of the given widths read one after the other. -/
def readInts : Buffer → List IntWidth → Except IntFault (Buffer × List IntValue)
  | b,[] => .ok (b,[])
  | b,width :: widths => do
    let (b,x) ← b.readInt width
    let (b,xs) ← readInts b widths
    return (b,⟨width,x⟩ :: xs)

end Buffer

namespace IntWidth
open Sockets

/-- The object that an append or a prepend of the integer stores. -/
def stored : (width : IntWidth) → BitVec width.bits → BitVec width.bits
  | int8,x => x
  | int16,x => hostToNetwork16 x
  | int32,x => hostToNetwork32 x
  | int64,x => (hostToNetwork64 x).setWidth 64

/-- The integer that a peek or a read makes of the object. -/
def loaded : (width : IntWidth) → BitVec width.bits → BitVec width.bits
  | int8,be => be
  | int16,be => networkToHost16 be
  | int32,be => (networkToHost32 be).setWidth 32
  | int64,be => (networkToHost64 be).setWidth 64

/-- The integers that are no wider than their way through the helpers: 16 bits of an
`int32_t`, and of an `int64_t` none. -/
def Fits : (width : IntWidth) → BitVec width.bits → Prop
  | int8,_ | int16,_ => True
  | int32,x => x.toNat < 2^16
  | int64,x => x.toNat = 0

instance : (width : IntWidth) → (x : BitVec width.bits) → Decidable (Fits width x)
  | int8,_ | int16,_ => inferInstanceAs (Decidable True)
  | int32,x => inferInstanceAs (Decidable (x.toNat < 2^16))
  | int64,x => inferInstanceAs (Decidable (x.toNat = 0))

private theorem bits_eq (width : IntWidth) : 2^width.bits = 256^width.bytes := by
  cases width <;> rfl

private theorem toNat_reverseBytes (n : Nat) {w : Nat} (hw : 2^w = 256^n) (x : BitVec w) :
    (reverseBytes n x).toNat = byteSwap n x.toNat := by
  rw [reverseBytes,BitVec.toNat_ofNat,hw,Nat.mod_eq_of_lt (byteSwap_lt n x.toNat)]

private theorem reverseBytes_reverseBytes (n : Nat) {w : Nat} (hw : 2^w = 256^n) (x : BitVec w) :
    reverseBytes n (reverseBytes n x) = x := by
  apply BitVec.eq_of_toNat_eq
  rw [toNat_reverseBytes n hw,toNat_reverseBytes n hw,byteSwap_byteSwap,← hw,Nat.mod_eq_of_lt x.isLt]

/-- Of an `int32_t` the low 16 bits come back. -/
theorem loaded_stored_int32 (x : BitVec 32) :
    (loaded int32 (stored int32 x)).toNat = x.toNat % 2^16 := by
  change ((reverseBytes 4 (reverseBytes 4 x)).setWidth 16 |>.setWidth 32).toNat = _
  rw [reverseBytes_reverseBytes 4 rfl,BitVec.toNat_setWidth,BitVec.toNat_setWidth]
  omega

/-- Of an `int64_t` nothing comes back: only the high half of its bytes is stored, and it
is read where the low half would be. -/
theorem loaded_stored_int64 (x : BitVec 64) : loaded int64 (stored int64 x) = 0 := by
  apply BitVec.eq_of_toNat_eq
  change ((reverseBytes 8 ((reverseBytes 8 x |>.setWidth 32).setWidth 64)).setWidth 16 |>.setWidth 64).toNat = 0
  have hs : ((reverseBytes 8 x |>.setWidth 32).setWidth 64).toNat = byteSwap 8 x.toNat % 256^4 := by
    rw [BitVec.toNat_setWidth,BitVec.toNat_setWidth,toNat_reverseBytes 8 rfl]
    omega
  rw [BitVec.toNat_setWidth,BitVec.toNat_setWidth,toNat_reverseBytes 8 rfl,hs,byteSwap_mod 4 4]
  omega

/-- An integer comes back exactly when it fits. -/
theorem loaded_stored_iff (width : IntWidth) (x : BitVec width.bits) :
    loaded width (stored width x) = x ↔ Fits width x := by
  cases width with
  | int8 => exact iff_of_true rfl trivial
  | int16 => exact iff_of_true (reverseBytes_reverseBytes 2 rfl x) trivial
  | int32 =>
    have h := loaded_stored_int32 x
    have hx : x.toNat < 2^32 := x.isLt
    constructor
    · intro he
      rw [he] at h
      change x.toNat < 2^16
      omega
    · intro hf
      apply BitVec.eq_of_toNat_eq
      rw [h]
      exact Nat.mod_eq_of_lt hf
  | int64 =>
    have h := loaded_stored_int64 x
    constructor
    · intro he
      rw [he] at h
      exact congrArg BitVec.toNat h
    · intro hf
      exact h.trans (BitVec.eq_of_toNat_eq hf.symm)

end IntWidth

namespace Buffer
open IntWidth
variable {b : Buffer}

/-! Each family stores or loads the same object. -/

private theorem appendInt_eq (b : Buffer) (width : IntWidth) (x : BitVec width.bits) :
    b.appendInt width x = b.append (objectBytes width.bytes (width.stored x)) := by
  cases width <;> rfl

private theorem prependInt_eq (b : Buffer) (width : IntWidth) (x : BitVec width.bits) :
    b.prependInt width x = b.prepend (objectBytes width.bytes (width.stored x)) := by
  cases width <;> rfl

private theorem peekInt_eq (b : Buffer) (width : IntWidth) :
    b.peekInt width = width.loaded <$> b.peekObject width := by
  cases width with
  | int8 => exact (id_map _).symm
  | int16 => exact bind_pure_comp _ _
  | int32 => exact bind_pure_comp _ _
  | int64 => exact bind_pure_comp _ _

private theorem readInt_eq (b : Buffer) (width : IntWidth) : b.readInt width = (do
    let result ← b.peekInt width
    let b ← (b.retrieve width.bytes).mapError .buffer
    return (b,result)) := by
  cases width <;> rfl

/-- An object has the bytes of its size. -/
@[simp] theorem length_objectBytes (n : Nat) {w : Nat} (x : BitVec w) : (objectBytes n x).length = n :=
  length_littleEndian n x.toNat

/-- A peek loads the object at the head of the readable bytes. -/
theorem peekInt_spec (h : b.WF) {width : IntWidth} {be : BitVec width.bits} {rest : List UInt8}
    (hr : b.readable = objectBytes width.bytes be ++ rest) : b.peekInt width = .ok (width.loaded be) := by
  have hl : width.bytes ≤ b.readableBytes := by
    rw [← h.length_readable,hr,List.length_append,length_objectBytes]
    exact Nat.le_add_right _ _
  have hs : slice b.buffer b.readerIndex (b.readerIndex+width.bytes) = objectBytes width.bytes be := by
    have hb := h.readableBytes_eq
    have ho := h.reader_le
    rw [← take_slice b.buffer (show b.readerIndex+width.bytes ≤ b.writerIndex by omega),← readable,hr,
      List.take_left' (length_objectBytes _ _)]
  have hbe : BitVec.ofNat width.bits (ofLittleEndian (objectBytes width.bytes be)) = be := by
    apply BitVec.eq_of_toNat_eq
    rw [BitVec.toNat_ofNat,objectBytes,ofLittleEndian_littleEndian,← bits_eq,Nat.mod_mod,
      Nat.mod_eq_of_lt be.isLt]
  rw [peekInt_eq,peekObject,require_pos hl,bind_ok,hs,hbe]
  rfl

private theorem readInt_spec (h : b.WF) {width : IntWidth} {be : BitVec width.bits} {rest : List UInt8}
    (hr : b.readable = objectBytes width.bytes be ++ rest) :
    ∃ c, b.readInt width = .ok (c,width.loaded be) ∧ c.WF ∧ c.readable = rest := by
  have hl : width.bytes ≤ b.readableBytes := by
    rw [← h.length_readable,hr,List.length_append,length_objectBytes]
    exact Nat.le_add_right _ _
  obtain ⟨c,hc,hk,hrest⟩ := retrieve_spec h hl
  refine ⟨c,?_,hk.1,?_⟩
  · rw [readInt_eq,peekInt_spec h hr,bind_ok,hc]
    rfl
  · rw [hrest,hr,List.drop_left' (length_objectBytes _ _)]

end Buffer

/-- The bytes that the appended integers take up. -/
def IntValue.bytes (xs : List IntValue) : List UInt8 :=
  (xs.map fun x => objectBytes x.1.bytes (x.1.stored x.2)).flatten

namespace Buffer
variable {b : Buffer}

private theorem makeSpace_writerIndex (h : b.WF) {len : Nat} (hs : b.writerIndex+len ≤ maxSize) :
    Meets (fun c => c.writerIndex ≤ b.writerIndex) (· ≠ .lengthError) (b.makeSpace len) := by
  have hm : maxSize < 2^63 := by decide
  unfold makeSpace
  split
  · rw [wordAdd_eq (show b.writerIndex+len < 2^64 by omega),resizeTo,if_pos hs,meets_pure]
  · by_cases hp : kCheapPrepend < b.readerIndex
    · have hr := h.readableBytes_eq
      have ho := h.reader_le
      have hw : b.moveToFront.writerIndex = kCheapPrepend+b.readableBytes :=
        wordAdd_eq (by unfold kCheapPrepend at *; omega)
      rw [require_pos hp,bind_ok]
      by_cases hq : b.readableBytes = b.moveToFront.readableBytes
      · rw [require_pos hq,bind_ok]
        change b.moveToFront.writerIndex ≤ b.writerIndex
        omega
      · rw [require_neg hq]
        exact BufferFault.noConfusion
    · rw [require_neg hp]
      exact BufferFault.noConfusion

private theorem ensureWritableBytes_ok (h : b.WF) {len : Nat} (hs : b.writerIndex+len ≤ maxSize) :
    ∃ c, b.ensureWritableBytes len = .ok c ∧ c.WF ∧ c.readable = b.readable ∧ len ≤ c.writableBytes ∧
      c.writerIndex ≤ b.writerIndex := by
  have hspace : ∃ c, (if b.writableBytes < len then b.makeSpace len else pure b) = .ok c ∧ c.WF ∧
      c.readable = b.readable ∧ len ≤ c.writableBytes ∧ c.writerIndex ≤ b.writerIndex := by
    split
    · next hl =>
      have hspec := makeSpace_spec h (by omega) hl
      have hw := makeSpace_writerIndex h hs
      cases hm : b.makeSpace len with
      | ok c =>
        rw [hm] at hspec hw
        exact ⟨c,rfl,hspec.1.1,hspec.2.1,hspec.2.2,hw⟩
      | error e =>
        rw [hm] at hspec hw
        exact (hw hspec).elim
    · next hl => exact ⟨b,rfl,h,rfl,Nat.le_of_not_lt hl,Nat.le_refl _⟩
  obtain ⟨c,hc,hwf,hr,hlen,hw⟩ := hspace
  refine ⟨c,?_,hwf,hr,hlen,hw⟩
  rw [ensureWritableBytes,hc,bind_ok,require_pos hlen]
  rfl

/-- Below the limit of the vector an append succeeds, and the write index moves by no more
than what was appended. -/
theorem append_ok (h : b.WF) {data : List UInt8} (hs : b.writerIndex+data.length ≤ maxSize) :
    ∃ c, b.append data = .ok c ∧ c.WF ∧ c.readable = b.readable ++ data ∧
      c.writerIndex ≤ b.writerIndex+data.length := by
  have hm : maxSize < 2^63 := by decide
  obtain ⟨c,hc,hwf,hr,hlen,hw⟩ := ensureWritableBytes_ok h hs
  obtain ⟨d,hd,hk,hdr⟩ := write_spec hwf hlen
  refine ⟨d,?_,hk.1,by rw [hdr,hr],?_⟩
  · rw [append,hc]
    exact hd
  · obtain ⟨-,-,hd⟩ := bind_eq_ok hd
    cases hd
    change wordAdd c.writerIndex data.length ≤ _
    rw [wordAdd_eq (by omega)]
    omega

private theorem appendInts_spec (h : b.WF) {xs : List IntValue}
    (hs : b.writerIndex+(IntValue.bytes xs).length ≤ maxSize) :
    ∃ c, b.appendInts xs = .ok c ∧ c.WF ∧ c.readable = b.readable ++ IntValue.bytes xs := by
  induction xs generalizing b with
  | nil => exact ⟨b,rfl,h,(List.append_nil _).symm⟩
  | cons x xs ih =>
    have hb : IntValue.bytes (x :: xs) = objectBytes x.1.bytes (x.1.stored x.2) ++ IntValue.bytes xs := rfl
    rw [hb,List.length_append] at hs
    obtain ⟨c,hc,hwf,hr,hw⟩ := append_ok h (show b.writerIndex+
      (objectBytes x.1.bytes (x.1.stored x.2)).length ≤ maxSize by omega)
    obtain ⟨d,hd,hdwf,hdr⟩ := ih hwf (by omega)
    refine ⟨d,?_,hdwf,?_⟩
    · rw [appendInts,appendInt_eq,hc]
      exact hd
    · rw [hdr,hr,hb,List.append_assoc]

private theorem readInts_spec (h : b.WF) {xs : List IntValue} {rest : List UInt8}
    (hr : b.readable = IntValue.bytes xs ++ rest) :
    ∃ c, b.readInts (xs.map Sigma.fst) = .ok (c,xs.map fun x => ⟨x.1,x.1.loaded (x.1.stored x.2)⟩) ∧
      c.WF ∧ c.readable = rest := by
  induction xs generalizing b with
  | nil => exact ⟨b,rfl,h,hr⟩
  | cons x xs ih =>
    have hb : IntValue.bytes (x :: xs) = objectBytes x.1.bytes (x.1.stored x.2) ++ IntValue.bytes xs := rfl
    rw [hb,List.append_assoc] at hr
    obtain ⟨c,hc,hwf,hcr⟩ := readInt_spec h hr
    obtain ⟨d,hd,hdwf,hdr⟩ := ih hwf hcr
    refine ⟨d,?_,hdwf,hdr⟩
    rw [List.map_cons,readInts,hc,bind_ok]
    dsimp only
    rw [hd]
    rfl

end Buffer

private theorem IntValue.length_bytes (xs : List IntValue) :
    (IntValue.bytes xs).length = (xs.map fun x => x.1.bytes).sum := by
  rw [IntValue.bytes,List.length_flatten,List.map_map]
  congr 2
  funext x
  exact Buffer.length_objectBytes _ _

/-- What the reads return in the place of the appended integers. -/
theorem buffer_ints_read_back {b : Buffer} (h : b.WF) (he : b.readable = []) (xs : List IntValue)
    (hs : b.writerIndex+(xs.map fun x => x.1.bytes).sum ≤ maxSize) :
    ∃ full left, b.appendInts xs = .ok full ∧
      full.readInts (xs.map Sigma.fst) = .ok (left,xs.map fun x => ⟨x.1,x.1.loaded (x.1.stored x.2)⟩) ∧
      left.readable = [] := by
  rw [← IntValue.length_bytes] at hs
  obtain ⟨full,hf,hwf,hr⟩ := Buffer.appendInts_spec h hs
  obtain ⟨left,hl,-,hlr⟩ := Buffer.readInts_spec hwf
    (show full.readable = IntValue.bytes xs ++ [] by rw [hr,he,List.nil_append,List.append_nil])
  exact ⟨full,left,hf,hl,hlr⟩

/-- Integers appended to an empty buffer, as far as a vector can hold them, come back from
reads in the same order and leave the buffer empty, exactly when every `int32_t` lies
between 0 and 65535 and every `int64_t` is 0; a prepended integer is what a peek returns
under the same condition. -/
theorem buffer_ints_survive_iff (b : Buffer) (h : b.WF) :
    (∀ xs : List IntValue, b.readable = [] → b.writerIndex+(xs.map fun x => x.1.bytes).sum ≤ maxSize →
      ((∃ full left, b.appendInts xs = .ok full ∧ full.readInts (xs.map Sigma.fst) = .ok (left,xs) ∧
        left.readable = []) ↔ ∀ x ∈ xs, x.1.Fits x.2)) ∧
    ∀ (width : IntWidth) (x : BitVec width.bits), width.bytes ≤ b.prependableBytes →
      ((∃ c, b.prependInt width x = .ok c ∧ c.peekInt width = .ok x) ↔ width.Fits x) := by
  constructor
  · intro xs he hs
    have hsame : (xs.map fun x => (⟨x.1,x.1.loaded (x.1.stored x.2)⟩ : IntValue)) = xs ↔
        ∀ x ∈ xs, x.1.Fits x.2 := by
      have hid := List.map_inj_left (l := xs) (f := fun x => (⟨x.1,x.1.loaded (x.1.stored x.2)⟩ : IntValue))
        (g := id)
      rw [List.map_id] at hid
      rw [hid]
      refine forall₂_congr fun x _ => ?_
      rw [← IntWidth.loaded_stored_iff]
      constructor
      · intro hx
        exact eq_of_heq (Sigma.mk.inj hx).2
      · intro hx
        rw [hx]
        rfl
    obtain ⟨full,left,hf,hl,hr⟩ := buffer_ints_read_back h he xs hs
    rw [← hsame]
    constructor
    · rintro ⟨full',left',hf',hl',-⟩
      rw [hf] at hf'
      cases hf'
      rw [hl] at hl'
      exact (Prod.mk.inj (Except.ok.inj hl')).2
    · intro hx
      rw [hx] at hl
      exact ⟨full,left,hf,hl,hr⟩
  · intro width x hp
    obtain ⟨c,hc,hwf,hr⟩ := Buffer.prepend_spec h
      (show (objectBytes width.bytes (width.stored x)).length ≤ b.prependableBytes by
        rw [Buffer.length_objectBytes]
        exact hp)
    have hpeek := Buffer.peekInt_spec hwf hr
    rw [← IntWidth.loaded_stored_iff,Buffer.prependInt_eq,hc]
    constructor
    · rintro ⟨c',hc',hx⟩
      cases hc'
      rw [hpeek] at hx
      exact Except.ok.inj hx
    · intro hx
      exact ⟨c,rfl,by rw [hpeek,hx]⟩

private theorem initial_readable : Buffer.initial.readable = [] := slice_self _ _

/-- One integer of each width that survives: -1, -2, 65535 and 0. -/
theorem buffer_ints_survive_small :
    (∃ full left, Buffer.initial.appendInts [⟨.int8,-1⟩,⟨.int16,-2⟩,⟨.int32,65535⟩,⟨.int64,0⟩] = .ok full ∧
      full.readInts [.int8,.int16,.int32,.int64] =
        .ok (left,[⟨.int8,-1⟩,⟨.int16,-2⟩,⟨.int32,65535⟩,⟨.int64,0⟩]) ∧ left.readable = []) ∧
    ∃ c, Buffer.initial.prependInt .int32 65535 = .ok c ∧ c.peekInt .int32 = .ok 65535 :=
  ⟨((buffer_ints_survive_iff Buffer.initial Buffer.initial_wf).1 [⟨.int8,-1⟩,⟨.int16,-2⟩,⟨.int32,65535⟩,⟨.int64,0⟩]
      initial_readable (by decide)).mpr (by decide),
    ((buffer_ints_survive_iff Buffer.initial Buffer.initial_wf).2 .int32 65535 (by decide)).mpr (by decide)⟩

/-- An `int32_t` of 65536 and an `int64_t` of 1 come back as 0. -/
theorem buffer_ints_truncated :
    (∃ full left, Buffer.initial.appendInts [⟨.int32,65536⟩,⟨.int64,1⟩] = .ok full ∧
      full.readInts [.int32,.int64] = .ok (left,[⟨.int32,0⟩,⟨.int64,0⟩])) ∧
    ¬ ∃ full left, Buffer.initial.appendInts [⟨.int32,65536⟩,⟨.int64,1⟩] = .ok full ∧
      full.readInts [.int32,.int64] = .ok (left,[⟨.int32,65536⟩,⟨.int64,1⟩]) ∧ left.readable = [] := by
  obtain ⟨full,left,hf,hl,-⟩ := buffer_ints_read_back Buffer.initial_wf initial_readable
    [⟨.int32,65536⟩,⟨.int64,1⟩] (by decide)
  have hv : ([⟨.int32,65536⟩,⟨.int64,1⟩] : List IntValue).map
      (fun x => (⟨x.1,x.1.loaded (x.1.stored x.2)⟩ : IntValue)) = [⟨.int32,0⟩,⟨.int64,0⟩] := by decide +kernel
  rw [hv] at hl
  refine ⟨⟨full,left,hf,hl⟩,?_⟩
  rintro ⟨full',left',hf',hl',-⟩
  rw [hf] at hf'
  cases hf'
  rw [show ([⟨.int32,65536⟩,⟨.int64,1⟩] : List IntValue).map Sigma.fst = [.int32,.int64] from rfl,hl'] at hl
  have hx := (Prod.mk.inj (Except.ok.inj hl)).2
  revert hx
  decide

end LearningMuduo.Tcp
