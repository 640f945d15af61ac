import LearningMuduo.Library.FrameStream
import LearningMuduo.Protobuf.Codec

/-! The codec's loop is a stream decoder: what a frame body means, what the head of the
buffer says, and that `onMessage` drains the buffer. -/
namespace LearningMuduo.Protobuf
open Library
variable {Message Descriptor : Type} (pb : Runtime Message Descriptor)

/-- n bytes from an offset on. -/
def bytesAt (bytes : List UInt8) (offset n : Nat) : List UInt8 := (bytes.drop offset).take n

private theorem bytesAt_take {bytes : List UInt8} {offset n k : Nat} (h : offset + n ≤ k) :
    bytesAt (bytes.take k) offset n = bytesAt bytes offset n := by
  rw [bytesAt,bytesAt,List.drop_take,List.take_take,Nat.min_eq_left (by omega)]

/-- All of the bytes. -/
theorem bytesAt_all (bytes : List UInt8) : bytesAt bytes 0 bytes.length = bytes := List.take_length

/-- The part between a and c. -/
theorem bytesAt_middle {a b c : List UInt8} {offset n : Nat} (ho : offset = a.length)
    (hn : n = b.length) : bytesAt (a ++ b ++ c) offset n = b := by
  rw [ho,hn,bytesAt,List.append_assoc,List.drop_left,List.take_left]

/-- What a frame body means: the message in it, or the first check that it fails. A body
that only the payload parser rejects comes with the message that parser left. -/
def verdict (body : List UInt8) : Option Message × ErrorCode :=
  let nameLen := decodeInt32 body
  if toInt32 (pb.adler32 1 (bytesAt body 0 (body.length-4))) ≠ decodeInt32 (bytesAt body (body.length-4) 4) then
    (none,.kCheckSumError)
  else if nameLen < 2 ∨ (body.length : Int) - 8 < nameLen then (none,.kInvalidNameLen)
  else
    match createMessage pb (bytesAt body 4 (nameLen.toNat-1)) with
    | none => (none,.kUnknownMessageType)
    | some message =>
      let out := pb.parseFromArray message (bytesAt body (4+nameLen.toNat) (body.length-nameLen.toNat-8))
      (some out.2,if out.1 then .kNoError else .kParseError)

/-- Bytes within a body are read, at whatever offsets the code computes. -/
theorem readBytes_bytesAt {bytes : List UInt8} {i n : Nat} {o k : Int} (ho : o = i)
    (hk : k = n) (h : i + n ≤ bytes.length) :
    readBytes bytes o k = .ok (bytesAt bytes i n) := by
  rw [ho,hk]
  exact readBytes_ok (by omega) (by omega) (by omega)

private theorem asInt32_ok {bytes : List UInt8} {i : Nat} (h : i + 4 ≤ bytes.length) :
    asInt32 bytes i = .ok (decodeInt32 (bytesAt bytes i 4)) := by
  rw [asInt32,readBytes_bytesAt (i := i) (n := 4) (by omega) (by omega) h]
  rfl

private theorem asInt32_start {bytes : List UInt8} (h : 4 ≤ bytes.length) :
    asInt32 bytes 0 = .ok (decodeInt32 bytes) := by
  rw [← decodeInt32_take (Nat.le_refl 4)]
  exact asInt32_ok (i := 0) (by omega)

/-- The checksum of the first n bytes. -/
theorem checkSumOf_ok {bytes : List UInt8} {n : Nat} (h : n ≤ bytes.length) (hn : n < 2^31) :
    checkSumOf pb bytes n = .ok (toInt32 (pb.adler32 1 (bytesAt bytes 0 n))) := by
  rw [checkSumOf,readBytes_bytesAt (i := 0) (n := n) (by omega) (by omega) (by omega)]
  rfl

/-- Every read of `parse` lies within the body, no length overflows, and the outcome is
the body's verdict. -/
theorem parse_eq {buf : List UInt8} {len : Nat} (hmin : 8 ≤ len) (hmax : len < 2^31)
    (hlen : len ≤ buf.length) : parse pb buf len = .ok (verdict pb (buf.take len)) := by
  have hl : (buf.take len).length = len := List.length_take_of_le hlen
  have hh : (len : Int) - kHeaderLen = (len-4 : Nat) := by unfold kHeaderLen; omega
  have hn : decodeInt32 (buf.take len) = decodeInt32 buf := decodeInt32_take (by omega)
  have hb := decodeInt32_bounds buf
  rw [parse,verdict,hl,hh,asInt32_ok (by omega),bytesAt_take (by omega),bytesAt_take (by omega),hn,bind_ok,
    int32_ok (by omega) (by omega),bind_ok,checkSumOf_ok pb (by omega) (by omega),bind_ok]
  split
  · next hc =>
    unfold kHeaderLen at *
    rw [if_neg (not_not.mpr hc),asInt32_start (by omega),bind_ok,int32_ok (by omega) (by omega),bind_ok]
    split
    · next hr =>
      obtain ⟨nameLen,hnl⟩ := Int.eq_ofNat_of_zero_le (show 0 ≤ decodeInt32 buf by omega)
      rw [hnl] at hr hb ⊢
      rw [if_neg (by omega),readBytes_bytesAt (i := 4) (n := nameLen-1) (by omega) (by omega) (by omega),bind_ok,
        Int.toNat_natCast,bytesAt_take (by omega),bytesAt_take (by omega)]
      cases createMessage pb (bytesAt buf 4 (nameLen-1)) with
      | none => rfl
      | some message =>
        dsimp only
        rw [int32_ok (by omega) (by omega),bind_ok,int32_ok (by omega) (by omega),bind_ok,
          readBytes_bytesAt (i := 4+nameLen) (n := len-nameLen-8) (by omega) (by omega) (by omega),bind_ok]
        split <;> rfl
    · next hr =>
      rw [if_pos (by omega)]
      rfl
  · rfl

/-- A complete frame of n bytes whose body got a verdict. -/
def verdictHead (n : Nat) : Option Message × ErrorCode → Head Message ErrorCode
  | (some message,.kNoError) => .item message n
  | (_,errorCode) => .stop errorCode

/-- What the head of the buffer says: a frame whose length is out of range, a frame that
is not complete yet, or the verdict on the first body. -/
def frameHead (buf : List UInt8) : Head Message ErrorCode :=
  if buf.length < 14 then .wait
  else if kMaxMessageLen < decodeInt32 buf ∨ decodeInt32 buf < kMinMessageLen then .stop .kInvalidLength
  else if buf.length < (decodeInt32 buf).toNat + 4 then .wait
  else verdictHead ((decodeInt32 buf).toNat + 4) (verdict pb (bytesAt buf 4 (decodeInt32 buf).toNat))

private theorem verdictHead_item {n k : Nat} {v : Option Message × ErrorCode} {message : Message}
    (h : verdictHead n v = .item message k) : k = n := by
  unfold verdictHead at h
  split at h
  · cases h
    rfl
  · cases h

private theorem frameHead_item {buf : List UInt8} {message : Message} {n : Nat}
    (h : frameHead pb buf = .item message n) : 0 < n ∧ n ≤ buf.length := by
  unfold frameHead at h
  split at h
  · cases h
  · split at h
    · cases h
    · split at h
      · cases h
      · have hn := verdictHead_item h
        omega

private theorem frameHead_stable {buf : List UInt8} (h : frameHead pb buf ≠ .wait)
    (later : List UInt8) : frameHead pb (buf ++ later) = frameHead pb buf := by
  have hl : (buf ++ later).length = buf.length + later.length := List.length_append
  by_cases h14 : buf.length < 14
  · rw [frameHead,if_pos h14] at h
    exact (h rfl).elim
  · have hd : decodeInt32 (buf ++ later) = decodeInt32 buf := decodeInt32_append (by omega) later
    have hb : frameHead pb buf = if kMaxMessageLen < decodeInt32 buf ∨ decodeInt32 buf < kMinMessageLen then _ else _ :=
      if_neg h14
    rw [hb] at h ⊢
    rw [frameHead,hd,if_neg (by omega)]
    split
    · rfl
    · next hr =>
      rw [if_neg hr] at h
      by_cases hc : buf.length < (decodeInt32 buf).toNat + 4
      · rw [if_pos hc] at h
        exact (h rfl).elim
      · have hs : bytesAt (buf ++ later) 4 (decodeInt32 buf).toNat = bytesAt buf 4 (decodeInt32 buf).toNat := by
          rw [bytesAt,bytesAt,List.drop_append_of_le_length (by omega),
            List.take_append_of_le_length (by rw [List.length_drop]; omega)]
        rw [if_neg hc,if_neg (by omega),hs]

/-- The codec as a stream decoder. -/
def frameDecoder : Decoder UInt8 Message ErrorCode where
  head := frameHead pb
  nil_waits := rfl
  item_bound := frameHead_item pb
  stable := frameHead_stable pb

/-- What a pass of the loop does with the decision at the head of the buffer. -/
def Pass.ofHead (buf : List UInt8) : Head Message ErrorCode → Pass Message
  | .wait => .leave
  | .stop errorCode => .fail errorCode
  | .item message n => .deliver message (buf.drop n)

/-- A pass of the loop never reads outside the buffer, never overflows, and acts on the
head of the buffer. -/
theorem onMessagePass_eq (buf : List UInt8) :
    onMessagePass pb buf = .ok (Pass.ofHead buf (frameHead pb buf)) := by
  have hk : kMinMessageLen + kHeaderLen = 14 := rfl
  rw [onMessagePass,frameHead,hk]
  by_cases h14 : buf.length < 14
  · rw [if_neg (by omega),if_pos h14]
    rfl
  · rw [if_pos (by omega),if_neg h14,asInt32_start (by omega),bind_ok]
    split
    · rfl
    · next hr =>
      unfold kMaxMessageLen kMinMessageLen kHeaderLen at *
      obtain ⟨len,hlen⟩ := Int.eq_ofNat_of_zero_le (show 0 ≤ decodeInt32 buf by omega)
      rw [hlen] at hr ⊢
      rw [int32_ok (by omega) (by omega),bind_ok,Int.toNat_natCast]
      by_cases hc : buf.length < len + 4
      · rw [if_neg (by omega),if_pos hc]
        rfl
      · have hp : parse pb (buf.drop (Int.toNat 4)) len = .ok (verdict pb (bytesAt buf 4 len)) :=
          parse_eq pb (by omega) (by omega) (by rw [List.length_drop]; omega)
        rw [if_pos (by omega),if_neg hc,hp,bind_ok]
        rcases verdict pb (bytesAt buf 4 len) with ⟨message,errorCode⟩
        dsimp only
        split
        · rw [int32_ok (by omega) (by omega),bind_ok,retrieve_ok (by omega) (by omega),
            show (4 + (len : Int)).toNat = len + 4 by omega]
          rfl
        · next hv =>
          rw [verdictHead]
          · rfl
          · exact hv

/-- The callbacks for a drained buffer: one per message, then the error. -/
def callbacks (receiveTime : Int) (items : List Message) (stop : Option ErrorCode) :
    List (Callback Message) :=
  items.map (.messageCallback · receiveTime) ++ stop.toList.map (.errorCallback receiveTime)

/-- `onMessage` drains the buffer, on every content of the buffer. -/
theorem onMessage_eq (errorCallback : ErrorCode → List UInt8 → List UInt8) (receiveTime : Int)
    (buf : List UInt8) :
    onMessage pb errorCallback receiveTime buf =
      .ok (callbacks receiveTime ((frameDecoder pb).drain buf).items ((frameDecoder pb).drain buf).stop,
        ((frameDecoder pb).drain buf).kept errorCallback) := by
  cases hh : (frameDecoder pb).head buf with
  | wait =>
    have hp := onMessagePass_eq pb buf
    rw [show frameHead pb buf = .wait from hh] at hp
    rw [Decoder.drain_wait hh,onMessage_leave hp]
    rfl
  | stop errorCode =>
    have hp := onMessagePass_eq pb buf
    rw [show frameHead pb buf = .stop errorCode from hh] at hp
    rw [Decoder.drain_stop hh,onMessage_fail hp]
    rfl
  | item message n =>
    have hp := onMessagePass_eq pb buf
    rw [show frameHead pb buf = .item message n from hh] at hp
    rw [Decoder.drain_item hh,onMessage_deliver hp,onMessage_eq]
    rfl
termination_by buf.length
decreasing_by exact Decoder.drop_lt hh

/-- The calls for a run over chunks are those of the decoder fed with their bytes. -/
theorem receive_eq (errorCallback : ErrorCode → List UInt8 → List UInt8) (buf : List UInt8)
    (chunks : List Chunk) :
    receive pb errorCallback buf chunks =
      .ok (List.zipWith (fun chunk out => callbacks chunk.receiveTime out.1 out.2) chunks
        ((frameDecoder pb).feed errorCallback buf (chunks.map Chunk.data)).1,
        ((frameDecoder pb).feed errorCallback buf (chunks.map Chunk.data)).2) := by
  induction chunks generalizing buf with
  | nil => rfl
  | cons chunk chunks ih =>
    rw [receive,onMessage_eq,bind_ok]
    dsimp only
    rw [ih]
    rfl

end LearningMuduo.Protobuf
