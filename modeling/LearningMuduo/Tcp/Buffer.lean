import LearningMuduo.Library.Cells
import LearningMuduo.Library.Outcome
import LearningMuduo.Library.WordSize

/-! The growable input/output buffer of a connection: a byte vector with a read
and a write index. `size_t` values are naturals that wrap at 2^64. -/
namespace LearningMuduo.Tcp
open Library

def kCheapPrepend : Nat := 8
def kInitialSize : Nat := 1024

/-- `vector<char>::max_size()` on a 64-bit host. -/
def maxSize : Nat := 2^63-1

/-- `sizeof extrabuf` in `readFd`. -/
def extrabufSize : Nat := 65536

/-- Where an assertion of `Buffer` stands. -/
inductive BufferAssert where
  | constructorReadable | constructorWritable | constructorPrependable
  | retrieve | retrieveUntilPeek | retrieveUntilWrite | retrieveAsString
  | ensureWritableBytes | hasWritten | unwrite | prepend
  | makeSpaceReader | makeSpaceReadable
  deriving DecidableEq, Repr

/-- `lengthError` is the exception `vector::resize` throws beyond `max_size`. -/
inductive BufferFault where
  | assertion (site : BufferAssert)
  | lengthError
  deriving DecidableEq, Repr

structure Buffer where
  buffer : List UInt8
  readerIndex : Nat
  writerIndex : Nat
  deriving DecidableEq, Repr

/-- What `readv` did: an `errno`, or the bytes it received in order. -/
inductive ReadvResult where
  | failed (errno : Nat)
  | received (bytes : List UInt8)
  deriving DecidableEq, Repr

/-- The return value of `readv`. -/
def ReadvResult.count : ReadvResult → Int
  | .failed _ => -1
  | .received bytes => bytes.length

namespace Buffer

def readableBytes (b : Buffer) : Nat := wordSub b.writerIndex b.readerIndex

def writableBytes (b : Buffer) : Nat := wordSub b.buffer.length b.writerIndex

def prependableBytes (b : Buffer) : Nat := b.readerIndex

/-- The bytes between `peek()` and `beginWrite()`. -/
def readable (b : Buffer) : List UInt8 := slice b.buffer b.readerIndex b.writerIndex

/-- `buffer_.resize(n)`. -/
def resizeTo (b : Buffer) (n : Nat) : Except BufferFault Buffer :=
  if n ≤ maxSize then pure { b with buffer := resize 0 b.buffer n } else .error .lengthError

/-- The constructor `Buffer(initialSize)`. -/
def new (initialSize : Nat) : Except BufferFault Buffer := do
  let b ← (⟨[],kCheapPrepend,kCheapPrepend⟩ : Buffer).resizeTo (wordAdd kCheapPrepend initialSize)
  require (b.readableBytes = 0) (.assertion .constructorReadable)
  require (b.writableBytes = initialSize) (.assertion .constructorWritable)
  require (b.prependableBytes = kCheapPrepend) (.assertion .constructorPrependable)
  pure b

/-- A default-constructed buffer. -/
def initial : Buffer :=
  ⟨List.replicate (kCheapPrepend+kInitialSize) 0,kCheapPrepend,kCheapPrepend⟩

def retrieveAll (b : Buffer) : Buffer :=
  { b with readerIndex := kCheapPrepend, writerIndex := kCheapPrepend }

def retrieve (b : Buffer) (len : Nat) : Except BufferFault Buffer := do
  require (len ≤ b.readableBytes) (.assertion .retrieve)
  if len < b.readableBytes then
    pure { b with readerIndex := wordAdd b.readerIndex len }
  else
    pure b.retrieveAll

/-- The pointer `last` is given by its position in the vector. -/
def retrieveUntil (b : Buffer) (last : Nat) : Except BufferFault Buffer := do
  require (b.readerIndex ≤ last) (.assertion .retrieveUntilPeek)
  require (last ≤ b.writerIndex) (.assertion .retrieveUntilWrite)
  b.retrieve (wordSub last b.readerIndex)

def retrieveAsString (b : Buffer) (len : Nat) : Except BufferFault (Buffer × List UInt8) := do
  require (len ≤ b.readableBytes) (.assertion .retrieveAsString)
  let result := slice b.buffer b.readerIndex (b.readerIndex+len)
  let b ← b.retrieve len
  pure (b,result)

def retrieveAllAsString (b : Buffer) : Except BufferFault (Buffer × List UInt8) :=
  b.retrieveAsString b.readableBytes

/-- The in-place `std::copy` of `makeSpace` and its two index assignments. -/
def moveToFront (b : Buffer) : Buffer :=
  ⟨copyForward b.buffer b.readerIndex kCheapPrepend (b.writerIndex-b.readerIndex),
    kCheapPrepend,wordAdd kCheapPrepend b.readableBytes⟩

/-- Grow at the end, or move the content down to `kCheapPrepend`. -/
def makeSpace (b : Buffer) (len : Nat) : Except BufferFault Buffer :=
  if wordAdd b.writableBytes b.prependableBytes < wordAdd len kCheapPrepend then
    b.resizeTo (wordAdd b.writerIndex len)
  else do
    require (kCheapPrepend < b.readerIndex) (.assertion .makeSpaceReader)
    require (b.readableBytes = b.moveToFront.readableBytes) (.assertion .makeSpaceReadable)
    pure b.moveToFront

def ensureWritableBytes (b : Buffer) (len : Nat) : Except BufferFault Buffer := do
  let c ← (if b.writableBytes < len then b.makeSpace len else pure b)
  require (len ≤ c.writableBytes) (.assertion .ensureWritableBytes)
  pure c

/-- Bytes stored at `beginWrite()` by the caller. -/
def copyToWrite (b : Buffer) (data : List UInt8) : Buffer :=
  { b with buffer := store b.buffer b.writerIndex data }

def hasWritten (b : Buffer) (len : Nat) : Except BufferFault Buffer := do
  require (len ≤ b.writableBytes) (.assertion .hasWritten)
  pure { b with writerIndex := wordAdd b.writerIndex len }

def append (b : Buffer) (data : List UInt8) : Except BufferFault Buffer := do
  let b ← b.ensureWritableBytes data.length
  (b.copyToWrite data).hasWritten data.length

def unwrite (b : Buffer) (len : Nat) : Except BufferFault Buffer := do
  require (len ≤ b.readableBytes) (.assertion .unwrite)
  pure { b with writerIndex := wordSub b.writerIndex len }

def prepend (b : Buffer) (data : List UInt8) : Except BufferFault Buffer := do
  require (data.length ≤ b.prependableBytes) (.assertion .prepend)
  let reader := wordSub b.readerIndex data.length
  pure { b with readerIndex := reader, buffer := store b.buffer reader data }

/-- The bytes the iovecs of `readFd` offer to `readv`. -/
def iovecBytes (b : Buffer) : Nat :=
  if b.writableBytes < extrabufSize then b.writableBytes+extrabufSize else b.writableBytes

/-- `readv` fills the free tail of the vector first and `extrabuf` after it. The
result is the buffer, the return value and the saved `errno`. -/
def readFd (b : Buffer) (r : ReadvResult) : Except BufferFault (Buffer × Int × Option Nat) :=
  match r with
  | .failed errno => pure (b,r.count,some errno)
  | .received bytes =>
    let writable := b.writableBytes
    let filled := b.copyToWrite (bytes.take writable)
    let extrabuf := bytes.drop writable
    if bytes.length ≤ writable then
      pure ({ filled with writerIndex := wordAdd b.writerIndex bytes.length },r.count,none)
    else do
      let c ← ({ filled with writerIndex := b.buffer.length } : Buffer).append extrabuf
      pure (c,r.count,none)

/-- The layout drawn at the head of `Buffer.h`, with the bounds the vector keeps. -/
structure WF (b : Buffer) : Prop where
  reader_le : b.readerIndex ≤ b.writerIndex
  writer_le : b.writerIndex ≤ b.buffer.length
  cheap_le : kCheapPrepend ≤ b.buffer.length
  size_le : b.buffer.length ≤ maxSize

/-- The size of the vector when len bytes are writable: it grows only where the content, these
bytes and the prepend space do not fit in it. -/
def sizeFor (b : Buffer) (len : Nat) : Nat :=
  if b.buffer.length < b.writerIndex+len ∧ b.buffer.length < b.readableBytes+len+kCheapPrepend then b.writerIndex+len
  else b.buffer.length

variable {b : Buffer}

/-- The readable bytes are between the indices. -/
theorem WF.readableBytes_eq (h : b.WF) : b.readableBytes = b.writerIndex-b.readerIndex := by
  have := h.writer_le
  have := h.size_le
  exact wordSub_eq h.reader_le (by simp only [maxSize] at *; omega)

/-- The writable bytes are behind the write index. -/
theorem WF.writableBytes_eq (h : b.WF) : b.writableBytes = b.buffer.length-b.writerIndex := by
  have := h.size_le
  exact wordSub_eq h.writer_le (by simp only [maxSize] at *; omega)

/-- There are as many bytes to read as the code says. -/
theorem WF.length_readable (h : b.WF) : b.readable.length = b.readableBytes := by
  have := h.writer_le
  rw [h.readableBytes_eq,readable,length_slice]
  omega

/-- What every operation keeps: the layout, and the prepend space if it was there. -/
def Keeps (b c : Buffer) : Prop :=
  c.WF ∧ (kCheapPrepend ≤ b.readerIndex → kCheapPrepend ≤ c.readerIndex)

private theorem resizeTo_spec (n : Nat) :
    Meets (fun c => n ≤ maxSize ∧ c = { b with buffer := resize 0 b.buffer n }) (· = .lengthError)
      (b.resizeTo n) := by
  unfold resizeTo
  split
  · rename_i h
    exact ⟨h,rfl⟩
  · rfl

private theorem resizeTo_size (n : Nat) :
    Meets (fun c => c.buffer.length = n) (fun _ => maxSize < n) (b.resizeTo n) := by
  unfold resizeTo
  split
  · exact length_resize _ _ _
  · rename_i hgt
    exact Nat.lt_of_not_le hgt

/-- A new buffer is empty, behind the prepend space. -/
theorem new_ok {initialSize : Nat} (hs : kCheapPrepend+initialSize ≤ maxSize) :
    ∃ b, new initialSize = .ok b ∧ b.WF ∧ b.readable = [] ∧ kCheapPrepend ≤ b.readerIndex := by
  have hw : wordAdd kCheapPrepend initialSize = kCheapPrepend+initialSize :=
    wordAdd_eq (by simp only [maxSize] at hs; omega)
  unfold new
  rw [hw]
  have hspec := (resizeTo_spec (b := ⟨[],kCheapPrepend,kCheapPrepend⟩) (kCheapPrepend+initialSize)).and (resizeTo_size _)
  obtain ⟨b,hresize,⟨-,hb⟩,-⟩ := hspec.ok_of_no_error fun _ he => Nat.not_lt_of_le hs he.2
  rw [hresize]
  have hlen : b.buffer.length = kCheapPrepend+initialSize := by rw [hb]; exact length_resize _ _ _
  have hri : b.readerIndex = kCheapPrepend := by rw [hb]
  have hwi : b.writerIndex = kCheapPrepend := by rw [hb]
  have hwf : b.WF := ⟨by omega,by omega,by omega,by omega⟩
  have hr : b.readableBytes = 0 := by rw [hwf.readableBytes_eq]; omega
  have hx : b.writableBytes = initialSize := by rw [hwf.writableBytes_eq]; omega
  rw [bind_ok,require_pos hr,require_pos hx,require_pos (show b.prependableBytes = kCheapPrepend from hri)]
  exact ⟨b,rfl,hwf,by rw [readable,hri,hwi,slice_self],hri.ge⟩

/-- The first buffer is well formed. -/
theorem initial_wf : initial.WF := by
  refine ⟨le_rfl,?_,?_,?_⟩ <;> simp only [initial,List.length_replicate] <;> decide

/-- The constructor makes it. -/
theorem new_kInitialSize : new kInitialSize = .ok initial := by
  have hr : initial.readableBytes = 0 := by rw [initial_wf.readableBytes_eq]; rfl
  have hw : initial.writableBytes = kInitialSize := by
    rw [initial_wf.writableBytes_eq,initial,List.length_replicate]
    rfl
  have hsize : wordAdd kCheapPrepend kInitialSize = kCheapPrepend+kInitialSize := by decide
  have hb : (⟨[],kCheapPrepend,kCheapPrepend⟩ : Buffer).resizeTo (kCheapPrepend+kInitialSize) =
      .ok initial := by
    rw [resizeTo,if_pos (by decide),resize,List.take_nil,List.nil_append,List.length_nil,Nat.sub_zero]
    rfl
  rw [new,hsize,hb,bind_ok,require_pos hr,require_pos hw,
    require_pos (show initial.prependableBytes = kCheapPrepend from rfl)]
  rfl

/-- `retrieveAll` keeps the buffer well formed, and its size. -/
theorem retrieveAll_keeps (h : b.WF) : b.Keeps b.retrieveAll :=
  ⟨⟨le_rfl,h.cheap_le,h.cheap_le,h.size_le⟩,fun _ => le_rfl⟩

/-- `retrieve` takes bytes off the front. -/
theorem retrieve_spec (h : b.WF) {len : Nat} (hl : len ≤ b.readableBytes) :
    ∃ c, b.retrieve len = .ok c ∧ b.Keeps c ∧ c.readable = b.readable.drop len := by
  have hr := h.readableBytes_eq
  have hb := h.writer_le
  have hm := h.size_le
  unfold retrieve
  rw [require_pos hl,bind_ok]
  split
  · rename_i hlt
    have hw : wordAdd b.readerIndex len = b.readerIndex+len :=
      wordAdd_eq (by simp only [maxSize] at hm; omega)
    refine ⟨_,rfl,⟨⟨?_,h.writer_le,h.cheap_le,h.size_le⟩,?_⟩,?_⟩
    · simp only [hw]; omega
    · simp only [hw]; omega
    · simp only [readable,hw,drop_slice]
  · refine ⟨_,rfl,retrieveAll_keeps h,?_⟩
    rw [List.drop_eq_nil_of_le (by rw [h.length_readable]; omega)]
    simp [readable,retrieveAll]

private theorem moveToFront_spec (h : b.WF) (hp : kCheapPrepend < b.readerIndex) :
    b.moveToFront.WF ∧ b.moveToFront.readable = b.readable ∧
      b.moveToFront.writerIndex = kCheapPrepend+b.readableBytes ∧
      b.moveToFront.buffer.length = b.buffer.length := by
  have hr := h.readableBytes_eq
  have h1 := h.reader_le
  have h2 := h.writer_le
  have h4 := h.size_le
  have hw : b.moveToFront.writerIndex = kCheapPrepend+b.readableBytes :=
    wordAdd_eq (by simp only [maxSize] at h4; omega)
  have hlen : (slice b.buffer b.readerIndex b.writerIndex).length = b.readableBytes := by
    simp only [length_slice,hr]
    omega
  have hfit : kCheapPrepend+(slice b.buffer b.readerIndex b.writerIndex).length ≤ b.buffer.length := by
    omega
  have hb : b.moveToFront.buffer =
      store b.buffer kCheapPrepend (slice b.buffer b.readerIndex b.writerIndex) := by
    have he := copyForward_eq_store (v := b.buffer) hp.le
      (show b.readerIndex+(b.writerIndex-b.readerIndex) ≤ b.buffer.length by omega)
    rw [show b.readerIndex+(b.writerIndex-b.readerIndex) = b.writerIndex by omega] at he
    exact he
  have hl : b.moveToFront.buffer.length = b.buffer.length := by rw [hb,length_store hfit]
  refine ⟨⟨?_,?_,?_,?_⟩,?_,hw,hl⟩
  · rw [hw]; exact Nat.le_add_right _ _
  · omega
  · rw [hl]; exact h.cheap_le
  · rw [hl]; exact h4
  · rw [readable,hb,hw,← hlen]
    exact slice_store_self hfit

/-- `makeSpace` makes room and keeps what can be read. -/
theorem makeSpace_spec (h : b.WF) {len : Nat} (hs : len ≤ maxSize) (hl : b.writableBytes < len) :
    Meets (fun c => b.Keeps c ∧ c.readable = b.readable ∧ len ≤ c.writableBytes)
      (· = .lengthError) (b.makeSpace len) := by
  have hr := h.readableBytes_eq
  have hw := h.writableBytes_eq
  have h1 := h.reader_le
  have h2 := h.writer_le
  have h3 := h.cheap_le
  have h4 := h.size_le
  have hk : kCheapPrepend = 8 := rfl
  have hm : maxSize < 2^63 := by decide
  unfold makeSpace prependableBytes
  rw [wordAdd_eq (show b.writableBytes+b.readerIndex < 2^64 by omega),
    wordAdd_eq (show len+kCheapPrepend < 2^64 by omega),
    wordAdd_eq (show b.writerIndex+len < 2^64 by omega)]
  split
  · apply (resizeTo_spec _).mono ?_ (fun _ => id)
    rintro c ⟨hle,hc⟩
    have hlen : c.buffer.length = b.writerIndex+len := by rw [hc]; exact length_resize _ _ _
    have hri : c.readerIndex = b.readerIndex := by rw [hc]
    have hwi : c.writerIndex = b.writerIndex := by rw [hc]
    have hwf : c.WF := ⟨by omega,by omega,by omega,by omega⟩
    refine ⟨⟨hwf,by rw [hri]; exact id⟩,?_,?_⟩
    · rw [readable,hri,hwi,hc]
      exact slice_resize 0 h2 (by omega)
    · rw [hwf.writableBytes_eq]
      omega
  · -- with too little writable space this branch leaves more than `kCheapPrepend` in front
    have hp : kCheapPrepend < b.readerIndex := by omega
    obtain ⟨hc,hread,hwi,hlen⟩ := moveToFront_spec h hp
    have hcr : b.readableBytes = b.moveToFront.readableBytes := by
      rw [← h.length_readable,← hc.length_readable,hread]
    rw [require_pos hp,bind_ok,require_pos hcr,bind_ok]
    refine ⟨⟨hc,fun _ => le_rfl⟩,hread,?_⟩
    rw [hc.writableBytes_eq]
    omega

/-- Afterwards there is room for len bytes. -/
theorem ensureWritableBytes_spec (h : b.WF) {len : Nat} (hs : len ≤ maxSize) :
    Meets (fun c => b.Keeps c ∧ c.readable = b.readable ∧ len ≤ c.writableBytes)
      (· = .lengthError) (b.ensureWritableBytes len) := by
  have hspace : Meets (fun c => b.Keeps c ∧ c.readable = b.readable ∧ len ≤ c.writableBytes)
      (· = .lengthError) (if b.writableBytes < len then b.makeSpace len else pure b) := by
    split
    · rename_i hl
      exact makeSpace_spec h hs hl
    · rename_i hl
      exact ⟨⟨h,id⟩,rfl,Nat.le_of_not_lt hl⟩
  apply hspace.bind
  intro c hc
  rw [require_pos hc.2.2]
  exact hc

private theorem makeSpace_size (h : b.WF) {len : Nat} (hs : len ≤ maxSize) (hl : b.writableBytes < len) :
    Meets (fun c => c.buffer.length = b.sizeFor len) (fun _ => maxSize < b.sizeFor len) (b.makeSpace len) := by
  have hr := h.readableBytes_eq
  have hw := h.writableBytes_eq
  have h1 := h.reader_le
  have h2 := h.writer_le
  have h4 := h.size_le
  have hk : kCheapPrepend = 8 := rfl
  have hm : maxSize < 2^63 := by decide
  unfold makeSpace prependableBytes
  rw [wordAdd_eq (show b.writableBytes+b.readerIndex < 2^64 by omega),
    wordAdd_eq (show len+kCheapPrepend < 2^64 by omega),
    wordAdd_eq (show b.writerIndex+len < 2^64 by omega)]
  split
  · have hgrow : b.sizeFor len = b.writerIndex+len := if_pos ⟨by omega,by omega⟩
    rw [hgrow]
    exact resizeTo_size _
  · have hkeep : b.sizeFor len = b.buffer.length := if_neg (by omega)
    have hp : kCheapPrepend < b.readerIndex := by omega
    obtain ⟨hc,hread,-,hlen⟩ := moveToFront_spec h hp
    have hcr : b.readableBytes = b.moveToFront.readableBytes := by
      rw [← h.length_readable,← hc.length_readable,hread]
    rw [require_pos hp,bind_ok,require_pos hcr,bind_ok,hkeep]
    exact hlen

/-- The vector ends at the size it needs, and `resize` throws only beyond `max_size`. -/
theorem ensureWritableBytes_size (h : b.WF) {len : Nat} (hs : len ≤ maxSize) :
    Meets (fun c => c.buffer.length = b.sizeFor len) (fun _ => maxSize < b.sizeFor len) (b.ensureWritableBytes len) := by
  have hspace : Meets (fun c => len ≤ c.writableBytes ∧ c.buffer.length = b.sizeFor len)
      (fun _ => maxSize < b.sizeFor len) (if b.writableBytes < len then b.makeSpace len else pure b) := by
    split
    · rename_i hl
      exact ((makeSpace_spec h hs hl).and (makeSpace_size h hs hl)).mono (fun c hc => ⟨hc.1.2.2,hc.2⟩) fun _ he => he.2
    · rename_i hl
      have hw := h.writableBytes_eq
      have h2 := h.writer_le
      exact ⟨Nat.le_of_not_lt hl,(if_neg (by omega)).symm⟩
  apply hspace.bind
  rintro c ⟨hlen,hc⟩
  rw [require_pos hlen]
  exact hc

/-- Bytes stored in the free tail become readable when the write index passes them. -/
theorem written_spec (h : b.WF) {data : List UInt8} (hl : data.length ≤ b.writableBytes) :
    b.Keeps { b.copyToWrite data with writerIndex := wordAdd b.writerIndex data.length } ∧
      ({ b.copyToWrite data with writerIndex := wordAdd b.writerIndex data.length } : Buffer).readable =
        b.readable ++ data := by
  have h1 := h.reader_le
  have h2 := h.writer_le
  have h3 := h.cheap_le
  have h4 := h.size_le
  rw [h.writableBytes_eq] at hl
  have hm : maxSize < 2^63 := by decide
  have hfit : b.writerIndex+data.length ≤ b.buffer.length := by omega
  rw [wordAdd_eq (by omega)]
  have hlen : (store b.buffer b.writerIndex data).length = b.buffer.length := length_store hfit
  refine ⟨⟨⟨?_,?_,?_,?_⟩,id⟩,?_⟩
  · exact h1.trans (Nat.le_add_right _ _)
  · exact hfit.trans hlen.ge
  · exact h3.trans hlen.ge
  · exact hlen.le.trans h4
  · change slice (store b.buffer b.writerIndex data) b.readerIndex (b.writerIndex+data.length) = _
    rw [← slice_append_slice _ h1 (Nat.le_add_right _ _),slice_store_self hfit,
      slice_store_of_disjoint hfit (.inl le_rfl),readable]

/-- Bytes that were copied behind the write index are there to be read. -/
theorem hasWritten_copyToWrite (h : b.WF) {data : List UInt8} (hl : data.length ≤ b.writableBytes) :
    (b.copyToWrite data).hasWritten data.length =
      .ok { b.copyToWrite data with writerIndex := wordAdd b.writerIndex data.length } := by
  have hfit : b.writerIndex+data.length ≤ b.buffer.length := by
    have h2 := h.writer_le
    have hw := h.writableBytes_eq
    omega
  have hw : data.length ≤ (b.copyToWrite data).writableBytes := by
    have hlen : (b.copyToWrite data).buffer.length = b.buffer.length := length_store hfit
    unfold writableBytes at *
    rw [hlen]
    exact hl
  unfold hasWritten
  rw [require_pos hw]
  rfl

/-- Bytes for which there is room join the end. -/
theorem write_spec (h : b.WF) {data : List UInt8} (hl : data.length ≤ b.writableBytes) :
    ∃ c, (b.copyToWrite data).hasWritten data.length = .ok c ∧ b.Keeps c ∧
      c.readable = b.readable ++ data :=
  ⟨_,hasWritten_copyToWrite h hl,written_spec h hl⟩

/-- `append` joins its bytes to the end, or the vector throws. -/
theorem append_spec (h : b.WF) {data : List UInt8} (hs : data.length ≤ maxSize) :
    Meets (fun c => b.Keeps c ∧ c.readable = b.readable ++ data) (· = .lengthError)
      (b.append data) := by
  apply (ensureWritableBytes_spec h hs).bind
  rintro c ⟨hk,hr,hw⟩
  obtain ⟨d,hd,hkd,hrd⟩ := write_spec hk.1 hw
  rw [hd]
  exact ⟨⟨hkd.1,fun hb => hkd.2 (hk.2 hb)⟩,by rw [hrd,hr]⟩

/-- The vector grows to the size that is asked for, and throws only beyond `max_size`. -/
theorem append_size (h : b.WF) {data : List UInt8} (hs : data.length ≤ maxSize) :
    Meets (fun c => c.buffer.length = b.sizeFor data.length) (fun _ => maxSize < b.sizeFor data.length) (b.append data) := by
  apply ((ensureWritableBytes_spec h hs).and (ensureWritableBytes_size h hs)).mono (fun _ => id) (fun _ he => he.2) |>.bind
  rintro c ⟨⟨hk,-,hw⟩,hsize⟩
  have hfit : c.writerIndex+data.length ≤ c.buffer.length := by
    have h2 := hk.1.writer_le
    have hfree := hk.1.writableBytes_eq
    omega
  rw [hasWritten_copyToWrite hk.1 hw]
  exact (length_store hfit).trans hsize

/-- `unwrite` takes bytes off the end. -/
theorem unwrite_spec (h : b.WF) {len : Nat} (hl : len ≤ b.readableBytes) :
    ∃ c, b.unwrite len = .ok c ∧ b.Keeps c ∧
      c.readable = b.readable.take (b.readable.length-len) := by
  have hr := h.readableBytes_eq
  have h1 := h.reader_le
  have h2 := h.writer_le
  have hm : maxSize < 2^63 := by decide
  have h4 := h.size_le
  have hw : wordSub b.writerIndex len = b.writerIndex-len := wordSub_eq (by omega) (by omega)
  unfold unwrite
  rw [require_pos hl,hw]
  refine ⟨_,rfl,⟨⟨?_,?_,h.cheap_le,h.size_le⟩,id⟩,?_⟩
  · change b.readerIndex ≤ b.writerIndex-len
    omega
  · exact (Nat.sub_le _ _).trans h2
  · change slice b.buffer b.readerIndex (b.writerIndex-len) = _
    rw [h.length_readable,readable,take_slice b.buffer (show b.readerIndex+(b.readableBytes-len) ≤ b.writerIndex by omega)]
    congr 1
    omega

/-- Prepending is the one operation that may use up the cheap prepend space. -/
theorem prepend_spec (h : b.WF) {data : List UInt8} (hl : data.length ≤ b.prependableBytes) :
    ∃ c, b.prepend data = .ok c ∧ c.WF ∧ c.readable = data ++ b.readable := by
  have h1 := h.reader_le
  have h2 := h.writer_le
  have hm : maxSize < 2^63 := by decide
  have h4 := h.size_le
  have hl' : data.length ≤ b.readerIndex := hl
  have hw : wordSub b.readerIndex data.length = b.readerIndex-data.length :=
    wordSub_eq hl' (by omega)
  have hend : b.readerIndex-data.length+data.length = b.readerIndex := Nat.sub_add_cancel hl'
  have hfit : b.readerIndex-data.length+data.length ≤ b.buffer.length := by omega
  have hlen := length_store hfit
  unfold prepend
  rw [require_pos hl,hw]
  refine ⟨_,rfl,⟨?_,?_,?_,?_⟩,?_⟩
  · exact (Nat.sub_le _ _).trans h1
  · exact h2.trans hlen.ge
  · exact h.cheap_le.trans hlen.ge
  · exact hlen.le.trans h4
  · change slice (store b.buffer (b.readerIndex-data.length) data) (b.readerIndex-data.length)
      b.writerIndex = _
    have hself := slice_store_self hfit
    have hrest := slice_store_of_disjoint (i := b.readerIndex) (j := b.writerIndex) hfit
      (.inr hend.le)
    rw [hend] at hself
    rw [← slice_append_slice _ (Nat.sub_le _ _) h1,hself,hrest,readable]

/-- Whatever the layout, the value returned is that of `readv`. -/
theorem readFd_count (b : Buffer) (r : ReadvResult) :
    Meets (fun out => out.2.1 = r.count) (fun _ => True) (b.readFd r) := by
  cases r with
  | failed errno => rfl
  | received bytes =>
    unfold readFd
    dsimp only
    split
    · rfl
    · exact (meets_true (append _ _)).bind (fun _ _ => rfl)

/-- `readFd` joins to the end what `readv` has read, or the vector throws. -/
theorem readFd_spec (h : b.WF) {r : ReadvResult} (hr : r.count ≤ b.iovecBytes) :
    Meets (fun out => b.Keeps out.1 ∧ out.2.1 = r.count ∧ out.1.readable = match r with
        | .failed _ => b.readable
        | .received bytes => b.readable ++ bytes) (· = .lengthError) (b.readFd r) := by
  cases r with
  | failed errno => exact ⟨⟨h,id⟩,rfl,rfl⟩
  | received bytes =>
    have hbytes : bytes.length ≤ b.iovecBytes := Int.ofNat_le.mp hr
    have hw := h.writableBytes_eq
    have h2 := h.writer_le
    have hm : maxSize = 2^63-1 := rfl
    have h4 := h.size_le
    simp only [readFd]
    split
    · rename_i hle
      rw [List.take_of_length_le hle]
      obtain ⟨hk,hread⟩ := written_spec h hle
      exact ⟨hk,rfl,hread⟩
    · rename_i hgt
      have htake : (bytes.take b.writableBytes).length = b.writableBytes := by
        rw [List.length_take]
        omega
      obtain ⟨hk,hread⟩ := written_spec h htake.le
      have hend : wordAdd b.writerIndex (bytes.take b.writableBytes).length = b.buffer.length := by
        rw [htake,wordAdd_eq (by omega)]
        omega
      rw [hend] at hk hread
      have hextra : (bytes.drop b.writableBytes).length ≤ maxSize := by
        rw [List.length_drop]
        unfold iovecBytes extrabufSize at hbytes
        split at hbytes <;> omega
      apply (append_spec hk.1 hextra).bind
      rintro c ⟨hkc,hrc⟩
      refine ⟨⟨hkc.1,fun hb => hkc.2 (hk.2 hb)⟩,rfl,?_⟩
      rw [hrc,hread,List.append_assoc,List.take_append_drop]

/-- The size of the vector after `readFd`: the bytes beyond its free tail are appended to a full one. -/
def sizeAfterRead (b : Buffer) : ReadvResult → Nat
  | .failed _ => b.buffer.length
  | .received bytes =>
    if bytes.length ≤ b.writableBytes then b.buffer.length
    else ({ b with writerIndex := b.buffer.length } : Buffer).sizeFor (bytes.length-b.writableBytes)

/-- It throws only beyond `max_size`. -/
theorem readFd_size (h : b.WF) {r : ReadvResult} (hr : r.count ≤ b.iovecBytes) :
    Meets (fun out => out.1.buffer.length = b.sizeAfterRead r) (fun _ => maxSize < b.sizeAfterRead r) (b.readFd r) := by
  cases r with
  | failed errno => rfl
  | received bytes =>
    have hbytes : bytes.length ≤ b.iovecBytes := Int.ofNat_le.mp hr
    have hw := h.writableBytes_eq
    have h2 := h.writer_le
    have hm : maxSize = 2^63-1 := rfl
    have h4 := h.size_le
    simp only [readFd,sizeAfterRead]
    split
    · rename_i hle
      rw [List.take_of_length_le hle]
      exact length_store (by omega)
    · rename_i hgt
      have htake : (bytes.take b.writableBytes).length = b.writableBytes := by
        rw [List.length_take]
        omega
      have hfit : b.writerIndex+(bytes.take b.writableBytes).length ≤ b.buffer.length := by omega
      obtain ⟨hk,-⟩ := written_spec h htake.le
      have hend : wordAdd b.writerIndex (bytes.take b.writableBytes).length = b.buffer.length := by
        rw [htake,wordAdd_eq (by omega)]
        omega
      rw [hend] at hk
      have hextra : (bytes.drop b.writableBytes).length = bytes.length-b.writableBytes := List.length_drop
      have hsmall : (bytes.drop b.writableBytes).length ≤ maxSize := by
        unfold iovecBytes extrabufSize at hbytes
        split at hbytes <;> omega
      have hsize : ({ b.copyToWrite (bytes.take b.writableBytes) with writerIndex := b.buffer.length } : Buffer).sizeFor
          (bytes.drop b.writableBytes).length =
          ({ b with writerIndex := b.buffer.length } : Buffer).sizeFor (bytes.length-b.writableBytes) := by
        have hlen : (b.copyToWrite (bytes.take b.writableBytes)).buffer.length = b.buffer.length := length_store hfit
        unfold sizeFor readableBytes
        rw [hextra]
        simp only [hlen]
        rfl
      have happend := append_size hk.1 hsmall
      rw [hsize] at happend
      exact happend.bind fun c hc => hc

end Buffer
end LearningMuduo.Tcp
