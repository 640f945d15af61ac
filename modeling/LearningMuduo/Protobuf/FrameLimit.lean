import LearningMuduo.Protobuf.BodyChecks

/-! The limit on frame bodies is checked where they are read and not where they are
written: which messages are framed so that the receiving side takes the length. -/
namespace LearningMuduo.Protobuf
open Library
variable {Message Descriptor : Type} (pb : Runtime Message Descriptor)

/-- The promises of protobuf about sizes: the announced size is the size written while
that fits an int, and the names of types are neither empty nor beyond an int. -/
structure Runtime.Sized : Prop where
  byteSize_eq : ∀ m, (pb.serializeWithCachedSizesToArray m).length < 2^31 →
    pb.byteSize m = (pb.serializeWithCachedSizesToArray m).length
  typeName_ne_nil : ∀ m, pb.getTypeName m ≠ []
  typeName_fits : ∀ m, (pb.getTypeName m).length + 1 < 2^31

/-- What the encoder writes for a length n that need not fit an int: a body of n bytes
behind the low 32 bits of n. -/
theorem fillEmptyBuffer_written {pb : Runtime Message Descriptor} (hpb : pb.Sized) {m : Message}
    (hi : pb.isInitialized m) (hsize : (pb.serializeWithCachedSizesToArray m).length < 2^31) :
    ∃ body, body.length = (frameBody pb m).length ∧
      fillEmptyBuffer pb [] m = .ok (encodeInt32 (toInt32 body.length) ++ body) := by
  have hl := length_frameBody pb m
  have hc := length_checkedPart pb m
  have hfits := hpb.typeName_fits m
  have hb := hpb.byteSize_eq m hsize
  have hn : toInt32 ((pb.getTypeName m).length + 1) = (pb.getTypeName m).length + 1 :=
    toInt32_eq (by omega) (by omega)
  let n := (checkedPart pb m).length % 2^32
  let checkSum := toInt32 (pb.adler32 1 (bytesAt (checkedPart pb m) 0 n))
  have hsum : checkSumOf pb (checkedPart pb m) (toInt32 (checkedPart pb m).length) = .ok checkSum := by
    rw [checkSumOf,toInt32_emod,readBytes_bytesAt (i := 0) (n := n) (by omega) (by omega) (by omega)]
    rfl
  have hbody : (checkedPart pb m ++ encodeInt32 checkSum).length = (frameBody pb m).length := by
    rw [List.length_append,length_encodeInt32]
    omega
  refine ⟨checkedPart pb m ++ encodeInt32 checkSum,hbody,?_⟩
  rw [fillEmptyBuffer,require_pos List.length_nil,bind_ok]
  dsimp only
  rw [hn,readBytes_name,bind_ok,require_pos hi,bind_ok,require_pos hb.symm,bind_ok,List.nil_append]
  rw [← checkedPart,hsum,bind_ok,require_pos (by omega),bind_ok]
  rfl

/-- The encoder either rejects the message or writes a length that is exact and that
`onMessage` takes, whatever bytes follow the frame. -/
def FramedWithinLimits (m : Message) : Prop :=
  ∀ bytes, fillEmptyBuffer pb [] m = .ok bytes →
    decodeInt32 bytes = (bytes.length : Int) - kHeaderLen ∧
    kMinMessageLen ≤ decodeInt32 bytes ∧ decodeInt32 bytes ≤ kMaxMessageLen ∧
    ∀ behind, onMessagePass pb (bytes ++ behind) ≠ .ok (.fail .kInvalidLength)

private theorem verdict_ne_kInvalidLength {body : List UInt8} (h : 4 ≤ body.length) :
    (verdict pb body).2 ≠ .kInvalidLength := by
  by_cases hc : CheckSumMatches pb body
  · by_cases hn : NameLenFits body
    · by_cases ht : TypeKnown pb body
      · obtain ⟨message,-,hok,hfail⟩ := verdict_payload pb h hc hn ht
        by_cases hp : PayloadParses pb body
        · simp [hok hp]
        · simp [hfail hp]
      · simp [verdict_type pb h hc hn ht]
    · simp [verdict_nameLen pb h hc hn]
  · simp [verdict_checkSum pb h hc]

private theorem onMessagePass_within {buf : List UInt8} (hmin : kMinMessageLen ≤ decodeInt32 buf)
    (hmax : decodeInt32 buf ≤ kMaxMessageLen) : onMessagePass pb buf ≠ .ok (.fail .kInvalidLength) := by
  have hk : kMinMessageLen = 10 := rfl
  rw [onMessagePass_eq,frameHead,if_neg (show ¬ (kMaxMessageLen < decodeInt32 buf ∨ _) by omega)]
  split
  · simp [Pass.ofHead]
  · split
    · simp [Pass.ofHead]
    · have hlen : 4 ≤ (bytesAt buf 4 (decodeInt32 buf).toNat).length := by
        rw [bytesAt,List.length_take,List.length_drop]
        omega
      have herror := verdict_ne_kInvalidLength pb hlen
      revert herror
      rcases verdict pb (bytesAt buf 4 (decodeInt32 buf).toNat) with ⟨message,errorCode⟩
      intro herror
      cases message with
      | none => simpa [verdictHead,Pass.ofHead] using herror
      | some message =>
        cases errorCode with
        | kInvalidLength => exact (herror rfl).elim
        | _ => simp [verdictHead,Pass.ofHead]

/-- An initialised message whose serialised size fits an int is framed within the limits
exactly when its body is not longer than `kMaxMessageLen`: nothing on the sending side
looks at that limit. -/
theorem framed_within_limits_iff {pb : Runtime Message Descriptor} (hpb : pb.Sized) {m : Message}
    (hi : pb.isInitialized m) (hsize : (pb.serializeWithCachedSizesToArray m).length < 2^31) :
    FramedWithinLimits pb m ↔ (frameBody pb m).length ≤ kMaxMessageLen := by
  have hl := length_frameBody pb m
  have hname : 0 < (pb.getTypeName m).length := List.length_pos_iff.mpr (hpb.typeName_ne_nil m)
  have hk : kMinMessageLen = 10 := rfl
  have hh : kHeaderLen = 4 := rfl
  obtain ⟨body,hbody,hfill⟩ := fillEmptyBuffer_written hpb hi hsize
  have hlen : ((encodeInt32 (toInt32 body.length) ++ body).length : Int) - kHeaderLen = body.length := by
    rw [List.length_append,length_encodeInt32]
    omega
  constructor
  · intro h
    obtain ⟨hexact,-,hmax,-⟩ := h _ hfill
    omega
  · intro hmax bytes hbytes
    have hfield : toInt32 body.length = body.length := by
      rw [kMaxMessageLen] at hmax
      exact toInt32_eq (by omega) (by omega)
    have hdecode (rest : List UInt8) : decodeInt32 (encodeInt32 (toInt32 body.length) ++ rest) = body.length := by
      rw [decodeInt32_encodeInt32,toInt32_toInt32,hfield]
    rw [hfill] at hbytes
    cases hbytes
    refine ⟨by rw [hlen,hdecode],by rw [hdecode]; omega,by rw [hdecode]; omega,fun behind => ?_⟩
    rw [List.append_assoc]
    exact onMessagePass_within pb (by rw [hdecode]; omega) (by rw [hdecode]; omega)

/-- A frame longer than the limit is written all the same, and refused by `onMessage`. -/
theorem onMessagePass_too_long {pb : Runtime Message Descriptor} (hpb : pb.Sized) {m : Message}
    (hi : pb.isInitialized m) (hsize : (pb.serializeWithCachedSizesToArray m).length < 2^31)
    (hmax : kMaxMessageLen < (frameBody pb m).length) (hfits : (frameBody pb m).length < 2^31) :
    ∃ bytes, fillEmptyBuffer pb [] m = .ok bytes ∧ onMessagePass pb bytes = .ok (.fail .kInvalidLength) := by
  obtain ⟨body,hbody,hfill⟩ := fillEmptyBuffer_written hpb hi hsize
  have hfield : toInt32 body.length = body.length := toInt32_eq (by omega) (by omega)
  have hdecode : decodeInt32 (encodeInt32 (toInt32 body.length) ++ body) = body.length := by
    rw [decodeInt32_encodeInt32,toInt32_toInt32,hfield]
  have hlen : 14 ≤ (encodeInt32 (toInt32 body.length) ++ body).length := by
    have hk : kMaxMessageLen = 67108864 := rfl
    rw [List.length_append,length_encodeInt32]
    omega
  refine ⟨_,hfill,?_⟩
  rw [onMessagePass_eq,frameHead,if_neg (by omega),if_pos (by omega)]
  rfl

/-- A number in seven bits a byte, the last byte without the high bit. -/
def varint : Nat → Nat → List UInt8
  | 0,_ => []
  | bytes+1,n => if n < 128 then [UInt8.ofNat n] else UInt8.ofNat (n % 128 + 128) :: varint bytes (n / 128)

private theorem length_varint (bytes n : Nat) : (varint bytes n).length ≤ bytes := by
  induction bytes generalizing n with
  | zero => exact Nat.le_refl 0
  | succ bytes ih =>
    rw [varint]
    split
    · exact Nat.succ_le_succ (Nat.zero_le bytes)
    · exact Nat.succ_le_succ (ih (n / 128))

/-- The number at the head and what follows it. -/
def readVarint : List UInt8 → Option (Nat × List UInt8)
  | [] => none
  | byte :: bytes =>
    if byte.toNat < 128 then some (byte.toNat,bytes)
    else (readVarint bytes).map fun (n,rest) => (n * 128 + (byte.toNat - 128),rest)

/-- `muduo.Query` of query.proto with id 1, no questioner's name and one question, which is
the message here. -/
def queryRuntime : Runtime (List UInt8) Unit where
  getTypeName _ := [109,117,100,117,111,46,81,117,101,114,121]
  isInitialized _ := true
  byteSize question := 5 + (varint 10 question.length).length + question.length
  serializeWithCachedSizesToArray question := [8,1,18,0,26] ++ varint 10 question.length ++ question
  findMessageTypeByName name :=
    if name = [109,117,100,117,111,46,81,117,101,114,121] then some () else none
  getPrototype _ := some []
  newMessage question := question
  parseFromArray _
    | 8 :: 1 :: 18 :: 0 :: 26 :: rest =>
      match readVarint rest with
      | some (n,question) => if n = question.length then (true,question) else (false,[])
      | none => (false,[])
    | _ => (false,[])
  adler32 := zlibAdler32

private theorem queryRuntime_size (question : List UInt8) :
    (queryRuntime.serializeWithCachedSizesToArray question).length ≤ 15 + question.length := by
  have hv := length_varint 10 question.length
  change ([8,1,18,0,26] ++ varint 10 question.length ++ question).length ≤ _
  rw [List.length_append,List.length_append]
  change 5 + _ + _ ≤ _
  omega

private theorem queryRuntime_sized : queryRuntime.Sized where
  byteSize_eq question _ := by
    change (5 + (varint 10 question.length).length + question.length : Int) =
      ([8,1,18,0,26] ++ varint 10 question.length ++ question).length
    rw [List.length_append,List.length_append]
    rfl
  typeName_ne_nil _ := List.cons_ne_nil _ _
  typeName_fits _ := by
    change 12 < 2^31
    decide

/-- A question of 64 MiB. -/
def longQuestion : List UInt8 := List.replicate (64*1024*1024) 63

/-- The query with the long question is framed, and the receiving side refuses it. -/
theorem long_question_not_within_limits :
    ¬ FramedWithinLimits queryRuntime longQuestion ∧
    ∃ bytes, fillEmptyBuffer queryRuntime [] longQuestion = .ok bytes ∧
      onMessagePass queryRuntime bytes = .ok (.fail .kInvalidLength) := by
  have hq : longQuestion.length = 67108864 := List.length_replicate
  have hsize := queryRuntime_size longQuestion
  have hlong : longQuestion.length ≤ (queryRuntime.serializeWithCachedSizesToArray longQuestion).length :=
    List.IsSuffix.length_le (List.suffix_append _ _)
  have hname : (queryRuntime.getTypeName longQuestion).length = 11 := rfl
  have hl := length_frameBody queryRuntime longQuestion
  have hk : kMaxMessageLen = 67108864 := rfl
  obtain ⟨bytes,hfill,hpass⟩ := onMessagePass_too_long (m := longQuestion) queryRuntime_sized rfl
    (by omega) (by omega) (by omega)
  refine ⟨fun h => ?_,bytes,hfill,hpass⟩
  have hwithin := (h bytes hfill).2.2.2 []
  rw [List.append_nil] at hwithin
  exact hwithin hpass

/-- A short question is framed within the limits. -/
theorem short_question_within_limits : FramedWithinLimits queryRuntime [63] :=
  (framed_within_limits_iff queryRuntime_sized rfl (by decide)).mpr (by decide +kernel)

end LearningMuduo.Protobuf
