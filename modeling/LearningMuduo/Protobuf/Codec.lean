import LearningMuduo.Library.BigEndian
import LearningMuduo.Library.Outcome

/-! The codec of protobuf/codec: frames of one message each, on a byte queue with
big-endian integers. -/
namespace LearningMuduo.Protobuf
open Library

inductive ErrorCode where
  | kNoError
  | kInvalidLength
  | kCheckSumError
  | kInvalidNameLen
  | kUnknownMessageType
  | kParseError
  deriving DecidableEq, Repr

/-- What would stop the program or leave its defined behaviour: a failed check of the
codec, of protobuf or of the buffer, a read outside the bytes at hand, signed overflow. -/
inductive CodecFault where
  | bufferNotEmpty
  | notInitialized
  | byteSizeConsistency
  | frameLength
  | retrieve
  | outOfBounds
  | overflow
  deriving DecidableEq, Repr

/-- What the codec calls of protobuf and zlib. Strings are their bytes;
`parseFromArray` fills in the message it is called on, also when it fails. -/
structure Runtime (Message Descriptor : Type) where
  getTypeName : Message → List UInt8
  isInitialized : Message → Bool
  byteSize : Message → Int
  serializeWithCachedSizesToArray : Message → List UInt8
  findMessageTypeByName : List UInt8 → Option Descriptor
  getPrototype : Descriptor → Option Message
  newMessage : Message → Message
  parseFromArray : Message → List UInt8 → Bool × Message
  adler32 : Nat → List UInt8 → Nat

def kHeaderLen : Int := 4

def kMinMessageLen : Int := 2*kHeaderLen + 2

def kMaxMessageLen : Int := 64*1024*1024

/-- The n bytes at an offset from a pointer behind which `bytes` lie. -/
def readBytes (bytes : List UInt8) (offset n : Int) : Except CodecFault (List UInt8) := do
  require (0 ≤ offset ∧ 0 ≤ n ∧ offset + n ≤ bytes.length) .outOfBounds
  return (bytes.drop offset.toNat).take n.toNat

/-- The result of signed arithmetic on int. -/
def int32 (x : Int) : Except CodecFault Int := do
  require (-2^31 ≤ x ∧ x < 2^31) .overflow
  return x

def asInt32 (bytes : List UInt8) (offset : Int) : Except CodecFault Int := do
  return decodeInt32 (← readBytes bytes offset 4)

/-- `Buffer::retrieve` with its assertion. -/
def retrieve (buf : List UInt8) (len : Int) : Except CodecFault (List UInt8) := do
  require (0 ≤ len ∧ len ≤ buf.length) .retrieve
  return buf.drop len.toNat

/-- Bytes within the buffer are read. -/
theorem readBytes_ok {bytes : List UInt8} {offset n : Int} (ho : 0 ≤ offset) (hn : 0 ≤ n)
    (h : offset + n ≤ bytes.length) :
    readBytes bytes offset n = .ok ((bytes.drop offset.toNat).take n.toNat) := by
  rw [readBytes,require_pos ⟨ho,hn,h⟩]
  rfl

/-- A value in range is stored in an `int32_t` as it is. -/
theorem int32_ok {x : Int} (hl : -2^31 ≤ x) (hu : x < 2^31) : int32 x = .ok x := by
  rw [int32,require_pos ⟨hl,hu⟩]
  rfl

private theorem int32_eq {x y : Int} (h : int32 x = .ok y) : y = x := by
  obtain ⟨-,-,h⟩ := bind_eq_ok h
  cases h
  rfl

/-- Bytes that are there are retrieved. -/
theorem retrieve_ok {buf : List UInt8} {len : Int} (hn : 0 ≤ len) (h : len ≤ buf.length) :
    retrieve buf len = .ok (buf.drop len.toNat) := by
  rw [retrieve,require_pos ⟨hn,h⟩]
  rfl

private theorem retrieve_eq {buf rest : List UInt8} {len : Int} (h : retrieve buf len = .ok rest) :
    rest = buf.drop len.toNat ∧ 0 ≤ len ∧ len ≤ buf.length := by
  by_cases hp : 0 ≤ len ∧ len ≤ buf.length
  · rw [retrieve_ok hp.1 hp.2] at h
    cases h
    exact ⟨rfl,hp⟩
  · rw [retrieve,require_neg hp] at h
    cases h

section
variable {Message Descriptor : Type} (pb : Runtime Message Descriptor)

/-- `static_cast<int32_t>(adler32(1, bytes, len))`; len becomes an unsigned int. -/
def checkSumOf (bytes : List UInt8) (len : Int) : Except CodecFault Int := do
  return toInt32 (pb.adler32 1 (← readBytes bytes 0 (len % 2^32)))

/-- `ProtobufCodec::fillEmptyBuffer`: the bytes the buffer holds afterwards. -/
def fillEmptyBuffer (buf : List UInt8) (message : Message) : Except CodecFault (List UInt8) := do
  require (buf.length = 0) .bufferNotEmpty
  let typeName := pb.getTypeName message
  let nameLen := toInt32 (typeName.length + 1)
  let buf := buf ++ encodeInt32 nameLen
  -- c_str() ends with a zero byte, which nameLen counts.
  let name ← readBytes (typeName ++ [0]) 0 nameLen
  let buf := buf ++ name
  require (pb.isInitialized message) .notInitialized
  let byteSize := pb.byteSize message
  let data := pb.serializeWithCachedSizesToArray message
  require (data.length = byteSize) .byteSizeConsistency
  let buf := buf ++ data
  let checkSum ← checkSumOf pb buf (toInt32 buf.length)
  let buf := buf ++ encodeInt32 checkSum
  -- sizeof makes the sum a size_t
  require (buf.length = (4 + nameLen + byteSize + 4) % 2^64) .frameLength
  let len := toInt32 buf.length
  return encodeInt32 len ++ buf

/-- `ProtobufCodec::createMessage`. -/
def createMessage (typeName : List UInt8) : Option Message :=
  match pb.findMessageTypeByName typeName with
  | none => none
  | some descriptor =>
    match pb.getPrototype descriptor with
    | none => none
    | some prototype => some (pb.newMessage prototype)

/-- `ProtobufCodec::parse`: the returned pointer and `*error`. The bytes behind buf reach
to the end of what is readable. -/
def parse (buf : List UInt8) (len : Int) : Except CodecFault (Option Message × ErrorCode) := do
  let expectedCheckSum ← asInt32 buf (len - kHeaderLen)
  let checkSum ← checkSumOf pb buf (← int32 (len - kHeaderLen))
  if checkSum = expectedCheckSum then
    let nameLen ← asInt32 buf 0
    let longest ← int32 (len - 2*kHeaderLen)
    if 2 ≤ nameLen ∧ nameLen ≤ longest then
      let typeName ← readBytes buf kHeaderLen (nameLen - 1)
      match createMessage pb typeName with
      | some message =>
        let dataLen ← int32 ((← int32 (len - nameLen)) - 2*kHeaderLen)
        let data ← readBytes buf (kHeaderLen + nameLen) dataLen
        let (parsed,message) := pb.parseFromArray message data
        -- on failure the half-parsed message is returned with the error
        if parsed then return (some message,.kNoError) else return (some message,.kParseError)
      | none => return (none,.kUnknownMessageType)
    else return (none,.kInvalidNameLen)
  else return (none,.kCheckSumError)

/-- One pass of the loop in `onMessage`: leave it, call the error callback and leave it,
or deliver a message and go on with the rest of the buffer. -/
inductive Pass (Message : Type) where
  | leave
  | fail (errorCode : ErrorCode)
  | deliver (message : Message) (rest : List UInt8)

def onMessagePass (buf : List UInt8) : Except CodecFault (Pass Message) := do
  if kMinMessageLen + kHeaderLen ≤ buf.length then
    let len ← asInt32 buf 0
    if kMaxMessageLen < len ∨ len < kMinMessageLen then return .fail .kInvalidLength
    else
      let frameLen ← int32 (len + kHeaderLen)
      if frameLen ≤ buf.length then
        let (message,errorCode) ← parse pb (buf.drop kHeaderLen.toNat) len
        match message,errorCode with
        | some message,.kNoError => return .deliver message (← retrieve buf (← int32 (kHeaderLen + len)))
        | _,errorCode => return .fail errorCode
      else return .leave
  else return .leave

/-- A delivered frame is taken off the buffer, so the loop ends. -/
theorem onMessagePass_shorter {buf rest : List UInt8} {message : Message}
    (h : onMessagePass pb buf = .ok (.deliver message rest)) : rest.length < buf.length := by
  unfold onMessagePass at h
  split at h
  · next hl =>
    obtain ⟨len,-,h⟩ := bind_eq_ok h
    split at h
    · cases h
    · next hr =>
      obtain ⟨frameLen,-,h⟩ := bind_eq_ok h
      split at h
      · obtain ⟨⟨message,errorCode⟩,-,h⟩ := bind_eq_ok h
        dsimp only at h
        split at h
        · obtain ⟨size,hs,h⟩ := bind_eq_ok h
          obtain ⟨rest,hd,h⟩ := bind_eq_ok h
          cases h
          obtain rfl := int32_eq hs
          obtain ⟨rfl,hle⟩ := retrieve_eq hd
          rw [List.length_drop]
          unfold kMinMessageLen kHeaderLen at *
          omega
        · cases h
      · cases h
  · cases h

/-- A call of `messageCallback_` or `errorCallback_`. -/
inductive Callback (Message : Type) where
  | messageCallback (message : Message) (receiveTime : Int)
  | errorCallback (receiveTime : Int) (errorCode : ErrorCode)
  deriving DecidableEq, Repr

/-- `ProtobufCodec::onMessage`: the callbacks it makes, in order, and the buffer it leaves.
`errorCallback` is what the error callback does to the buffer it is given. -/
def onMessage (errorCallback : ErrorCode → List UInt8 → List UInt8) (receiveTime : Int)
    (buf : List UInt8) : Except CodecFault (List (Callback Message) × List UInt8) :=
  match h : onMessagePass pb buf with
  | .error fault => .error fault
  | .ok .leave => .ok ([],buf)
  | .ok (.fail errorCode) => .ok ([.errorCallback receiveTime errorCode],errorCallback errorCode buf)
  | .ok (.deliver message rest) => do
    have := onMessagePass_shorter pb h
    let (calls,buf) ← onMessage errorCallback receiveTime rest
    return (.messageCallback message receiveTime :: calls,buf)
termination_by buf.length
decreasing_by exact this

section
variable {pb} {errorCallback : ErrorCode → List UInt8 → List UInt8} {receiveTime : Int} {buf : List UInt8}

/-- An incomplete frame waits. -/
theorem onMessage_leave (h : onMessagePass pb buf = .ok .leave) :
    onMessage pb errorCallback receiveTime buf = .ok ([],buf) := by
  rw [onMessage]
  split <;> simp_all

/-- An error is reported once and ends the loop. -/
theorem onMessage_fail {errorCode : ErrorCode} (h : onMessagePass pb buf = .ok (.fail errorCode)) :
    onMessage pb errorCallback receiveTime buf =
      .ok ([.errorCallback receiveTime errorCode],errorCallback errorCode buf) := by
  rw [onMessage]
  split <;> simp_all

/-- A message is delivered and the loop goes on behind it. -/
theorem onMessage_deliver {message : Message} {rest : List UInt8}
    (h : onMessagePass pb buf = .ok (.deliver message rest)) :
    onMessage pb errorCallback receiveTime buf = (fun out => (.messageCallback message receiveTime :: out.1,out.2)) <$>
      onMessage pb errorCallback receiveTime rest := by
  rw [onMessage]
  split <;> simp_all

end

/-- Bytes that arrive on the connection, and when. -/
structure Chunk where
  data : List UInt8
  receiveTime : Int
  deriving DecidableEq, Repr

/-- `onMessage` after each chunk, appended to the one buffer of the connection: the
callbacks of each call, and the buffer at the end. -/
def receive (errorCallback : ErrorCode → List UInt8 → List UInt8) :
    List UInt8 → List Chunk → Except CodecFault (List (List (Callback Message)) × List UInt8)
  | buf,[] => .ok ([],buf)
  | buf,chunk :: chunks => do
    let (calls,buf) ← onMessage pb errorCallback chunk.receiveTime (buf ++ chunk.data)
    let (later,buf) ← receive errorCallback buf chunks
    return (calls :: later,buf)

end

end LearningMuduo.Protobuf
