import LearningMuduo.Library.BigEndian
import LearningMuduo.Tcp.Buffer

/-! `shrink`: the content of a buffer moves into a new one through a `Slice`. -/
namespace LearningMuduo.Tcp
open Library

/-- By the position of its first byte in the vector it looks into. -/
structure Slice where
  data : Nat
  size : Nat
  deriving DecidableEq, Repr

namespace Buffer

/-- The size is cast to an int, which the constructor of `Slice` takes as a `size_t`. -/
def toStringPiece (b : Buffer) : Slice := ⟨b.readerIndex,(toInt32 b.readableBytes % 2^64).toNat⟩

/-- `append` of a slice of another buffer. Room is made before a byte is read. -/
def appendSlice (b source : Buffer) (str : Slice) : Except BufferFault Buffer := do
  let b ← b.ensureWritableBytes str.size
  (b.copyToWrite (slice source.buffer str.data (str.data+str.size))).hasWritten str.size

/-- The buffer after the swap with `other`. -/
def shrink (b : Buffer) (reserve : Nat) : Except BufferFault Buffer := do
  let other ← initial.ensureWritableBytes (wordAdd b.readableBytes reserve)
  other.appendSlice b b.toStringPiece

/-- What `shrink` is for. -/
def ShrinkKeeps (b : Buffer) (reserve : Nat) : Prop :=
  ∃ c, b.shrink reserve = .ok c ∧ c.readable = b.readable ∧ reserve ≤ c.writableBytes ∧
    c.prependableBytes = kCheapPrepend

variable {b c : Buffer} {reserve len : Nat}

private theorem toStringPiece_size (h : b.readableBytes < 2^31) : b.toStringPiece.size = b.readableBytes := by
  have hint : toInt32 b.readableBytes = b.readableBytes := toInt32_eq (by omega) (by omega)
  rw [toStringPiece,hint]
  dsimp only
  omega

/-- From two gigabytes on the int is too small or negative. -/
theorem toStringPiece_size_of_large (h : 2^31 ≤ b.readableBytes) :
    b.toStringPiece.size < b.readableBytes ∨
      maxSize < kCheapPrepend+b.toStringPiece.size ∧ b.toStringPiece.size < 2^64 := by
  have hm : maxSize = 2^63-1 := rfl
  have hk : kCheapPrepend = 8 := rfl
  have hsize : b.toStringPiece.size = (toInt32 b.readableBytes % 2^64).toNat := by rw [toStringPiece]
  obtain ⟨hl,hu⟩ := toInt32_bounds b.readableBytes
  rcases Int.lt_or_le (toInt32 b.readableBytes) 0 with hneg | hpos
  · right
    omega
  · left
    omega

/-- A buffer that holds nothing yet. -/
structure Blank (b : Buffer) : Prop where
  wf : b.WF
  reader : b.readerIndex = kCheapPrepend
  writer : b.writerIndex = kCheapPrepend

private theorem initial_blank : initial.Blank := ⟨initial_wf,rfl,rfl⟩

/-- A blank buffer has nothing to read. -/
theorem Blank.readable (h : b.Blank) : b.readable = [] := by rw [Buffer.readable,h.reader,h.writer,slice_self]

private theorem ensureWritableBytes_of_le (h : len ≤ b.writableBytes) : b.ensureWritableBytes len = .ok b := by
  rw [ensureWritableBytes,if_neg (Nat.not_lt.mpr h)]
  change (require (len ≤ b.writableBytes) _ >>= fun _ => pure b) = _
  rw [require_pos h]
  rfl

/-- All of it can be written but for the prepend space. -/
theorem Blank.writableBytes_eq (h : b.Blank) : b.writableBytes = b.buffer.length-kCheapPrepend := by
  rw [h.wf.writableBytes_eq,h.writer]

/-- There is room for what fits below `max_size`. -/
theorem Blank.room (h : b.Blank) (hfit : kCheapPrepend+len ≤ maxSize) :
    ∃ c, b.ensureWritableBytes len = .ok c ∧ c.Blank ∧ len ≤ c.writableBytes := by
  rcases Nat.lt_or_ge b.writableBytes len with hlt | hle
  · have hm : maxSize < 2^63 := by decide
    have hk : kCheapPrepend = 8 := rfl
    have hw := h.writableBytes_eq
    have hcheap := h.wf.cheap_le
    have hsize := h.wf.size_le
    let c : Buffer := { b with buffer := resize 0 b.buffer (kCheapPrepend+len) }
    have hlen : c.buffer.length = kCheapPrepend+len := length_resize _ _ _
    have hblank : c.Blank := by
      refine ⟨⟨h.wf.reader_le,?_,?_,hlen ▸ hfit⟩,h.reader,h.writer⟩
      · rw [hlen]
        exact h.writer ▸ Nat.le_add_right _ _
      · rw [hlen]
        exact Nat.le_add_right _ _
    have hroom : len ≤ c.writableBytes := by
      rw [hblank.writableBytes_eq,hlen]
      omega
    have hspace : b.makeSpace len = .ok c := by
      rw [makeSpace,prependableBytes,h.reader,h.writer,wordAdd_eq (by omega),wordAdd_eq (by omega),wordAdd_eq (by omega),
        if_pos (by omega),resizeTo,if_pos hfit]
      rfl
    refine ⟨c,?_,hblank,hroom⟩
    rw [ensureWritableBytes,if_pos hlt,hspace,bind_ok,require_pos hroom]
    rfl
  · exact ⟨b,ensureWritableBytes_of_le hle,h,hle⟩

/-- Either `resize` throws, or the sum of the sizes wraps and an assertion fails. -/
theorem Blank.no_room (h : b.Blank) (hlarge : maxSize < kCheapPrepend+len) (hword : len < 2^64) :
    ∃ e, b.ensureWritableBytes len = .error e := by
  have hm : maxSize = 2^63-1 := rfl
  have hk : kCheapPrepend = 8 := rfl
  have hw := h.writableBytes_eq
  have hcheap := h.wf.cheap_le
  have hsize := h.wf.size_le
  have hspace : ∃ e, b.makeSpace len = .error e := by
    rw [makeSpace,prependableBytes,h.reader,h.writer]
    split
    · rename_i hgrow
      have hwrap : len+kCheapPrepend < 2^64 := by
        by_contra hge
        rw [wordAdd_eq (by omega),wordAdd,wordModulus] at hgrow
        omega
      rw [wordAdd_eq (by omega),resizeTo,if_neg (by omega)]
      exact ⟨_,rfl⟩
    · rw [require_neg (Nat.lt_irrefl _)]
      exact ⟨_,rfl⟩
  obtain ⟨e,he⟩ := hspace
  refine ⟨e,?_⟩
  rw [ensureWritableBytes,if_pos (by omega),he]
  rfl

/-- As much as the slice covers gets across. -/
theorem shrink_spec (h : b.WF) (hfit : kCheapPrepend+(b.readableBytes+reserve) ≤ maxSize)
    (hpiece : b.toStringPiece.size ≤ b.readableBytes) :
    ∃ c, b.shrink reserve = .ok c ∧ c.readable = b.readable.take b.toStringPiece.size ∧ reserve ≤ c.writableBytes ∧
      c.prependableBytes = kCheapPrepend := by
  have hm : maxSize < 2^63 := by decide
  have hread := h.readableBytes_eq
  have hreader := h.reader_le
  obtain ⟨d,hd,hblank,hroom⟩ := initial_blank.room hfit
  have hdw := hblank.writableBytes_eq
  have hdlen := hblank.wf.size_le
  have hdcheap := hblank.wf.cheap_le
  have hslice : slice b.buffer b.readerIndex (b.readerIndex+b.toStringPiece.size) = b.readable.take b.toStringPiece.size := by
    rw [readable,take_slice _ (by omega)]
  have hlen : (b.readable.take b.toStringPiece.size).length = b.toStringPiece.size :=
    List.length_take_of_le (h.length_readable ▸ hpiece)
  generalize b.readable.take b.toStringPiece.size = data at hslice hlen ⊢
  have hwritable : data.length ≤ d.writableBytes := by omega
  obtain ⟨hkeeps,hcontent⟩ := written_spec hblank.wf hwritable
  let c : Buffer := { d.copyToWrite data with writerIndex := wordAdd d.writerIndex data.length }
  have hcwriter : c.writerIndex = kCheapPrepend+data.length := by
    change wordAdd d.writerIndex data.length = _
    rw [hblank.writer,wordAdd_eq (by omega)]
  have hcsize : c.buffer.length = d.buffer.length := by
    refine length_store ?_
    rw [hblank.writer]
    omega
  refine ⟨c,?_,hcontent.trans (by rw [hblank.readable,List.nil_append]),?_,hblank.reader⟩
  · have hsum : wordAdd b.readableBytes reserve = b.readableBytes+reserve := wordAdd_eq (by omega)
    rw [shrink,hsum,hd,bind_ok,appendSlice,← hlen,ensureWritableBytes_of_le hwritable,bind_ok,hlen]
    change (d.copyToWrite (slice b.buffer b.readerIndex (b.readerIndex+b.toStringPiece.size))).hasWritten _ = _
    rw [hslice,← hlen]
    exact hasWritten_copyToWrite hblank.wf hwritable
  · rw [hkeeps.1.writableBytes_eq]
    change reserve ≤ c.buffer.length-c.writerIndex
    omega

/-- From two gigabytes on, `shrink` loses bytes or fails. -/
theorem not_shrinkKeeps_of_large (h : b.WF) (hlarge : 2^31 ≤ b.readableBytes)
    (hfit : kCheapPrepend+(b.readableBytes+reserve) ≤ maxSize) : ¬ b.ShrinkKeeps reserve := by
  rintro ⟨c,hc,hread,-⟩
  rcases toStringPiece_size_of_large hlarge with hshort | ⟨hover,hword⟩
  · obtain ⟨d,hd,hcut,-⟩ := shrink_spec h hfit hshort.le
    rw [hd] at hc
    obtain rfl := Except.ok.inj hc
    have hlen := congrArg List.length (hread.symm.trans hcut)
    rw [List.length_take,h.length_readable] at hlen
    omega
  · have hm : maxSize < 2^63 := by decide
    have hsum : wordAdd b.readableBytes reserve = b.readableBytes+reserve := wordAdd_eq (by omega)
    obtain ⟨d,hd,hblank,-⟩ := initial_blank.room hfit
    obtain ⟨e,he⟩ := hblank.no_room hover hword
    rw [shrink,hsum,hd,bind_ok,appendSlice,he] at hc
    cases hc

/-- `shrink` keeps the content when its size is that of an int, and when a vector can hold it with
the reserve and the space in front. -/
theorem shrink_keeps_iff (h : b.WF) (hsum : b.readableBytes+reserve < maxSize) :
    b.ShrinkKeeps reserve ↔ b.readableBytes < 2^31 ∧ kCheapPrepend+(b.readableBytes+reserve) ≤ maxSize := by
  constructor
  · intro hkeeps
    have hfit : kCheapPrepend+(b.readableBytes+reserve) ≤ maxSize := by
      by_contra hover
      have hm : maxSize < 2^63 := by decide
      obtain ⟨c,hc,-⟩ := hkeeps
      obtain ⟨e,he⟩ := initial_blank.no_room (Nat.lt_of_not_le hover) (by omega)
      rw [shrink,wordAdd_eq (by omega),he] at hc
      cases hc
    refine ⟨?_,hfit⟩
    by_contra hlarge
    exact not_shrinkKeeps_of_large h (Nat.le_of_not_lt hlarge) hfit hkeeps
  · rintro ⟨hsmall,hfit⟩
    have hsize := toStringPiece_size hsmall
    obtain ⟨c,hc,hread,hroom,hfront⟩ := shrink_spec h hfit hsize.le
    refine ⟨c,hc,?_,hroom,hfront⟩
    rw [hread,hsize,← h.length_readable,List.take_length]

/-- Three readable bytes behind two that were retrieved, with one byte free. -/
def readThree : Buffer := ⟨List.replicate kCheapPrepend 0 ++ [1,2,97,98,99,0],kCheapPrepend+2,kCheapPrepend+5⟩

/-- The reserve does not fit in a new buffer, so it grows before the content is moved. -/
theorem shrink_keeps_readThree : readThree.readable = [97,98,99] ∧ readThree.ShrinkKeeps 3000 :=
  ⟨by decide,(shrink_keeps_iff (b := readThree) ⟨by decide,by decide,by decide,by decide⟩ (by decide)).mpr (by decide)⟩

/-- Four gigabytes of zeros. -/
def fourGigabytes : Buffer := ⟨List.replicate (kCheapPrepend+2^32) 0,kCheapPrepend,kCheapPrepend+2^32⟩

/-- Their size is zero as an int, and `shrink` returns an empty buffer. -/
theorem shrink_loses_fourGigabytes : fourGigabytes.WF ∧ fourGigabytes.readableBytes = 2^32 ∧
    (∃ c, fourGigabytes.shrink 0 = .ok c ∧ c.readable = []) ∧ ¬ fourGigabytes.ShrinkKeeps 0 := by
  have hm : maxSize = 2^63-1 := rfl
  have hk : kCheapPrepend = 8 := rfl
  have hlen : fourGigabytes.buffer.length = kCheapPrepend+2^32 := List.length_replicate
  have hwf : fourGigabytes.WF :=
    ⟨Nat.le_add_right _ _,hlen.ge,by rw [hlen]; exact Nat.le_add_right _ _,by rw [hlen]; omega⟩
  have hread : fourGigabytes.readableBytes = 2^32 := by
    rw [hwf.readableBytes_eq]
    exact Nat.add_sub_cancel_left kCheapPrepend (2^32)
  have hsize : fourGigabytes.toStringPiece.size = 0 := by
    rw [toStringPiece,hread]
    decide
  have hfit : kCheapPrepend+(fourGigabytes.readableBytes+0) ≤ maxSize := by omega
  obtain ⟨c,hc,hcut,-⟩ := shrink_spec hwf hfit (hsize ▸ Nat.zero_le _)
  rw [hsize,List.take_zero] at hcut
  exact ⟨hwf,hread,⟨c,hc,hcut⟩,not_shrinkKeeps_of_large hwf (by omega) hfit⟩

end Buffer
end LearningMuduo.Tcp
