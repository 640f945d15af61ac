import LearningMuduo.Protobuf.StreamDelivery

/-! The codec of protobuf/descriptor_test, which builds its frames in a string, against the
codec that builds them in a buffer. -/
namespace LearningMuduo.Protobuf
open Library
variable {Message Descriptor : Type}

/-- What the string codec calls besides: `AppendToString` on a string. -/
structure StringRuntime (Message Descriptor : Type) extends Runtime Message Descriptor where
  appendToString : Message → List UInt8 → Bool × List UInt8

/-- The promises of protobuf for initialised messages within its int sizes: the announced
size is the size written, and `AppendToString` writes the same bytes. -/
structure StringRuntime.Serializes (pb : StringRuntime Message Descriptor) : Prop where
  byteSize_eq : ∀ m, (pb.serializeWithCachedSizesToArray m).length < 2^31 →
    pb.byteSize m = (pb.serializeWithCachedSizesToArray m).length
  appendToString_eq : ∀ m s, pb.isInitialized m → (pb.serializeWithCachedSizesToArray m).length < 2^31 →
    pb.appendToString m s = (true,s ++ pb.serializeWithCachedSizesToArray m)

section
variable (pb : StringRuntime Message Descriptor)

/-- `encode`: the string it returns, empty when protobuf could not write the message. -/
def encode (message : Message) : Except CodecFault (List UInt8) := do
  -- room for the length, which is copied in last
  let result := List.replicate kHeaderLen.toNat 0
  let typeName := pb.getTypeName message
  let nameLen := toInt32 (typeName.length + 1)
  let result := result ++ encodeInt32 nameLen
  let result := result ++ (← readBytes (typeName ++ [0]) 0 nameLen)
  let (succeed,result) := pb.appendToString message result
  if succeed then
    let checkSum ← checkSumOf pb.toRuntime (result.drop kHeaderLen.toNat) (result.length - kHeaderLen)
    let result := result ++ encodeInt32 checkSum
    return encodeInt32 (result.length - kHeaderLen) ++ result.drop kHeaderLen.toNat
  else return []

/-- `decode`: the message, or the null pointer. A message that could not be parsed is deleted. -/
def decode (buf : List UInt8) : Except CodecFault (Option Message) := do
  let len := toInt32 buf.length
  if 10 ≤ len then
    let expectedCheckSum ← asInt32 buf (buf.length - kHeaderLen)
    let checkSum ← checkSumOf pb.toRuntime buf (← int32 (len - kHeaderLen))
    if checkSum = expectedCheckSum then
      let nameLen ← asInt32 buf 0
      let longest ← int32 (len - 2*kHeaderLen)
      if 2 ≤ nameLen ∧ nameLen ≤ longest then
        let typeName ← readBytes buf kHeaderLen (nameLen - 1)
        match createMessage pb.toRuntime typeName with
        | some message =>
          let dataLen ← int32 ((← int32 (len - nameLen)) - 2*kHeaderLen)
          let data ← readBytes buf (kHeaderLen + nameLen) dataLen
          let (parsed,message) := pb.parseFromArray message data
          if parsed then return some message else return none
        | none => return none
      else return none
    else return none
  else return none

end

/-- The message of a body that passed every check. -/
def accepted : Option Message × ErrorCode → Option Message
  | (message,.kNoError) => message
  | _ => none

private theorem accepted_of_kNoError {message : Option Message} {errorCode : ErrorCode} (h : errorCode = .kNoError) :
    accepted (message,errorCode) = message := by
  subst h
  rfl

section
variable {pb : StringRuntime Message Descriptor}

private theorem accepted_isSome (pb : StringRuntime Message Descriptor) (body : List UInt8) :
    (accepted (verdict pb.toRuntime body)).isSome ↔ (verdict pb.toRuntime body).2 = .kNoError := by
  unfold verdict
  dsimp only
  split
  · simp [accepted]
  · split
    · simp [accepted]
    · split
      · simp [accepted]
      · split
        · simp [accepted]
        · simp [accepted]

/-- A body of at least ten bytes gets from `decode` what it gets from `parse`. -/
theorem decode_eq (pb : StringRuntime Message Descriptor) {buf : List UInt8} (hmin : 10 ≤ buf.length) (hmax : buf.length < 2^31) :
    decode pb buf = accepted <$> parse pb.toRuntime buf buf.length := by
  have hlen : toInt32 buf.length = buf.length := toInt32_eq (by omega) (by omega)
  unfold decode parse
  rw [hlen,if_pos (by omega)]
  refine bind_eq_map_bind fun expectedCheckSum => bind_eq_map_bind fun checkedLen => bind_eq_map_bind fun checkSum => ?_
  split
  · refine bind_eq_map_bind fun nameLen => bind_eq_map_bind fun longest => ?_
    split
    · refine bind_eq_map_bind fun typeName => ?_
      cases createMessage pb.toRuntime typeName with
      | none => rfl
      | some message =>
        refine bind_eq_map_bind fun rest => bind_eq_map_bind fun dataLen => bind_eq_map_bind fun data => ?_
        dsimp only
        split
        · rfl
        · rfl
    · rfl
  · rfl

private theorem encode_eq (hpb : pb.Serializes) {m : Message} (hi : pb.isInitialized m)
    (hlt : (frameBody pb.toRuntime m).length < 2^31) : encode pb m = .ok (frame pb.toRuntime m) := by
  have hl := length_frameBody pb.toRuntime m
  have hc := length_checkedPart pb.toRuntime m
  have hn : toInt32 ((pb.getTypeName m).length + 1) = (pb.getTypeName m).length + 1 :=
    toInt32_eq (by omega) (by omega)
  have hout (s : List UInt8) : pb.appendToString m s = (true,s ++ pb.serializeWithCachedSizesToArray m) :=
    hpb.appendToString_eq m s hi (by omega)
  have hresult : List.replicate kHeaderLen.toNat 0 ++ encodeInt32 ((pb.getTypeName m).length + 1) ++
      (pb.getTypeName m ++ [0]) ++ pb.serializeWithCachedSizesToArray m =
      List.replicate 4 0 ++ checkedPart pb.toRuntime m := by
    simp only [checkedPart,List.append_assoc]
    rfl
  have hdrop (rest : List UInt8) : (List.replicate 4 (0 : UInt8) ++ rest).drop kHeaderLen.toNat = rest := rfl
  have hlen (rest : List UInt8) : ((List.replicate 4 (0 : UInt8) ++ rest).length : Int) - kHeaderLen = rest.length := by
    rw [List.length_append,List.length_replicate,kHeaderLen]
    omega
  have hsum : checkSumOf pb.toRuntime (checkedPart pb.toRuntime m) (checkedPart pb.toRuntime m).length =
      .ok (toInt32 (pb.adler32 1 (checkedPart pb.toRuntime m))) := by
    rw [checkSumOf_ok pb.toRuntime (Nat.le_refl _) (by omega),bytesAt_all]
  unfold encode
  simp only [hn,readBytes_name,bind_ok,hout,hresult,if_true,hdrop,hlen,hsum]
  rw [List.append_assoc,hlen,hdrop]
  rfl

end

/-- Both codecs write the same bytes for an initialised message of less than 2^31 bytes in
all, and both read the same message, or none, from a body of at least ten bytes. -/
theorem codecs_speak_one_format (pb : StringRuntime Message Descriptor) (hpb : pb.Serializes) :
    (∀ m, pb.isInitialized m → (frame pb.toRuntime m).length < 2^31 →
      ∃ bytes, encode pb m = .ok bytes ∧ fillEmptyBuffer pb.toRuntime [] m = .ok bytes) ∧
    ∀ buf : List UInt8, 10 ≤ buf.length → buf.length < 2^31 →
      ∃ result message errorCode, decode pb buf = .ok result ∧
        parse pb.toRuntime buf buf.length = .ok (message,errorCode) ∧
        (result.isSome ↔ errorCode = .kNoError) ∧ (errorCode = .kNoError → result = message) := by
  constructor
  · intro m hi hlt
    have hbody : (frameBody pb.toRuntime m).length < 2^31 := by
      rw [frame,List.length_append] at hlt
      omega
    have hl := length_frameBody pb.toRuntime m
    exact ⟨_,encode_eq hpb hi hbody,fillEmptyBuffer_frame hi (hpb.byteSize_eq m (by omega)) hbody⟩
  · intro buf hmin hmax
    have hp := parse_eq pb.toRuntime (by omega : 8 ≤ buf.length) hmax (Nat.le_refl _)
    have hd := decode_eq pb hmin hmax
    have hsome := accepted_isSome pb buf
    rw [List.take_length] at hp
    rcases hv : verdict pb.toRuntime buf with ⟨message,errorCode⟩
    rw [hv] at hp hsome
    rw [hp] at hd
    exact ⟨accepted (message,errorCode),message,errorCode,hd,hp,hsome,accepted_of_kNoError⟩

/-- The runtime of `muduo.Empty` with its `AppendToString`. -/
def emptyStringRuntime : StringRuntime (Option (Fin 128)) Unit where
  toRuntime := emptyRuntime
  appendToString m s := (true,s ++ emptyRuntime.serializeWithCachedSizesToArray m)

/-- The frame of an empty message, written by both codecs, and its body, read by both. -/
theorem codecs_speak_one_format_empty :
    (∃ bytes, encode emptyStringRuntime none = .ok bytes ∧ fillEmptyBuffer emptyRuntime [] none = .ok bytes) ∧
    ∃ result message errorCode, decode emptyStringRuntime (frameBody emptyRuntime none) = .ok result ∧
      parse emptyRuntime (frameBody emptyRuntime none) (frameBody emptyRuntime none).length =
        .ok (message,errorCode) ∧
      (result.isSome ↔ errorCode = .kNoError) ∧ (errorCode = .kNoError → result = message) := by
  have hpb : emptyStringRuntime.Serializes := ⟨fun m _ => by cases m <;> rfl,fun _ _ _ _ => rfl⟩
  have hboth := codecs_speak_one_format emptyStringRuntime hpb
  exact ⟨hboth.1 none rfl (by decide +kernel),
    hboth.2 (frameBody emptyRuntime none) (by decide +kernel) (by decide +kernel)⟩

example : decode emptyStringRuntime (frameBody emptyRuntime none) = .ok (some none) := by decide +kernel

end LearningMuduo.Protobuf
