import LearningMuduo.Protobuf.StreamDelivery

/-! The checks on a frame body: which of them decides the outcome of `parse`, and with
which outcomes a message comes along. -/
namespace LearningMuduo.Protobuf
open Library
variable {Message Descriptor : Type} (pb : Runtime Message Descriptor)

/-- The trailing word of the body is the adler32 of the rest. -/
def CheckSumMatches (body : List UInt8) : Prop :=
  bytesAt body (body.length-4) 4 = encodeInt32 (pb.adler32 1 (bytesAt body 0 (body.length-4)))

/-- The announced name has a byte besides its zero, and leaves room for both words. -/
def NameLenFits (body : List UInt8) : Prop := 2 ≤ decodeInt32 body ∧ decodeInt32 body ≤ body.length - 8

/-- The name without its zero byte. -/
def nameField (body : List UInt8) : List UInt8 := bytesAt body 4 ((decodeInt32 body).toNat-1)

/-- What lies between the name and the checksum. -/
def payload (body : List UInt8) : List UInt8 :=
  bytesAt body (4+(decodeInt32 body).toNat) (body.length-(decodeInt32 body).toNat-8)

def TypeKnown (body : List UInt8) : Prop := (createMessage pb (nameField body)).isSome

def PayloadParses (body : List UInt8) : Prop :=
  ∃ message, createMessage pb (nameField body) = some message ∧ (pb.parseFromArray message (payload body)).1

section
variable {body : List UInt8}

private theorem checkSumMatches_iff (h : 4 ≤ body.length) : CheckSumMatches pb body ↔
    toInt32 (pb.adler32 1 (bytesAt body 0 (body.length-4))) = decodeInt32 (bytesAt body (body.length-4) 4) := by
  rw [CheckSumMatches,toInt32_eq_decodeInt32]
  rw [bytesAt,List.length_take,List.length_drop]
  omega

private theorem nameLenFits_iff : NameLenFits body ↔
    ¬ (decodeInt32 body < 2 ∨ (body.length : Int) - 8 < decodeInt32 body) := by
  rw [NameLenFits]
  omega

/-- The checksum is the first thing that is wrong. -/
theorem verdict_checkSum (h : 4 ≤ body.length) (hc : ¬ CheckSumMatches pb body) :
    verdict pb body = (none,.kCheckSumError) := by
  rw [checkSumMatches_iff pb h] at hc
  rw [verdict,if_pos hc]

/-- The length of the name is next. -/
theorem verdict_nameLen (h : 4 ≤ body.length) (hc : CheckSumMatches pb body) (hn : ¬ NameLenFits body) :
    verdict pb body = (none,.kInvalidNameLen) := by
  rw [checkSumMatches_iff pb h] at hc
  rw [nameLenFits_iff,not_not] at hn
  rw [verdict,if_neg (not_not.mpr hc),if_pos hn]

/-- The type is next. -/
theorem verdict_type (h : 4 ≤ body.length) (hc : CheckSumMatches pb body) (hn : NameLenFits body)
    (ht : ¬ TypeKnown pb body) : verdict pb body = (none,.kUnknownMessageType) := by
  rw [checkSumMatches_iff pb h] at hc
  rw [nameLenFits_iff] at hn
  have hnone : createMessage pb (nameField body) = none := Option.not_isSome_iff_eq_none.mp ht
  rw [nameField] at hnone
  rw [verdict,if_neg (not_not.mpr hc),if_neg hn,hnone]

/-- With the first three checks passed the payload parser decides, and the message it
worked on is returned either way. -/
theorem verdict_payload (h : 4 ≤ body.length) (hc : CheckSumMatches pb body) (hn : NameLenFits body)
    (ht : TypeKnown pb body) :
    ∃ message, (verdict pb body).1 = some message ∧
      (PayloadParses pb body → (verdict pb body).2 = .kNoError) ∧
      (¬ PayloadParses pb body → (verdict pb body).2 = .kParseError) := by
  rw [checkSumMatches_iff pb h] at hc
  rw [nameLenFits_iff] at hn
  obtain ⟨message,hm⟩ := Option.isSome_iff_exists.mp ht
  have hp : PayloadParses pb body ↔ (pb.parseFromArray message (payload body)).1 := by
    simp only [PayloadParses,hm,Option.some.injEq,exists_eq_left']
  have hv : verdict pb body = (some (pb.parseFromArray message (payload body)).2,
      if (pb.parseFromArray message (payload body)).1 then .kNoError else .kParseError) := by
    rw [nameField] at hm
    rw [verdict,if_neg (not_not.mpr hc),if_neg hn,hm]
    rfl
  rw [hp,hv]
  exact ⟨_,rfl,fun hd => if_pos hd,fun hd => if_neg hd⟩

/-- The error of a verdict names the first check that fails. -/
theorem verdict_error (h : 4 ≤ body.length) :
    ((verdict pb body).2 = .kNoError ↔
      CheckSumMatches pb body ∧ NameLenFits body ∧ TypeKnown pb body ∧ PayloadParses pb body) ∧
    ((verdict pb body).2 = .kCheckSumError ↔ ¬ CheckSumMatches pb body) ∧
    ((verdict pb body).2 = .kInvalidNameLen ↔ CheckSumMatches pb body ∧ ¬ NameLenFits body) ∧
    ((verdict pb body).2 = .kUnknownMessageType ↔
      CheckSumMatches pb body ∧ NameLenFits body ∧ ¬ TypeKnown pb body) ∧
    ((verdict pb body).2 = .kParseError ↔
      CheckSumMatches pb body ∧ NameLenFits body ∧ TypeKnown pb body ∧ ¬ PayloadParses pb body) := by
  by_cases hc : CheckSumMatches pb body
  · by_cases hn : NameLenFits body
    · by_cases ht : TypeKnown pb body
      · obtain ⟨message,-,hok,hfail⟩ := verdict_payload pb h hc hn ht
        by_cases hp : PayloadParses pb body
        · simp [hok hp,hc,hn,ht,hp]
        · simp [hfail hp,hc,hn,ht,hp]
      · simp [verdict_type pb h hc hn ht,hc,hn,ht]
    · simp [verdict_nameLen pb h hc hn,hc,hn]
  · simp [verdict_checkSum pb h hc,hc]

/-- A verdict lacks a message exactly when one of the first three checks fails. -/
theorem verdict_message (h : 4 ≤ body.length) :
    (verdict pb body).1.isSome ↔ CheckSumMatches pb body ∧ NameLenFits body ∧ TypeKnown pb body := by
  by_cases hc : CheckSumMatches pb body
  · by_cases hn : NameLenFits body
    · by_cases ht : TypeKnown pb body
      · obtain ⟨message,hm,-⟩ := verdict_payload pb h hc hn ht
        simp [hm,hc,hn,ht]
      · simp [verdict_type pb h hc hn ht,ht]
    · simp [verdict_nameLen pb h hc hn,hn]
  · simp [verdict_checkSum pb h hc,hc]

end

/-- `parse` on a length that `onMessage` lets through, or on any other that an int holds. -/
theorem parse_verdict {buf : List UInt8} {len : Int} (hmin : kMinMessageLen ≤ len) (hmax : len < 2^31)
    (hlen : len ≤ buf.length) :
    parse pb buf len = .ok (verdict pb (buf.take len.toNat)) ∧ 4 ≤ (buf.take len.toNat).length := by
  have hk : kMinMessageLen = 10 := rfl
  obtain ⟨n,rfl⟩ := Int.eq_ofNat_of_zero_le (show 0 ≤ len by omega)
  rw [Int.toNat_natCast]
  refine ⟨parse_eq pb (by omega) (by omega) (by omega),?_⟩
  rw [List.length_take_of_le (by omega)]
  omega

/-- On any buffer `onMessage` stays within the readable bytes, never takes a negative
length and never overflows; nor does `parse` within a body of any length it is called
with, and its error names the first check that the body fails. -/
theorem parse_accepts_exactly_valid_bodies :
    (∀ (errorCallback : ErrorCode → List UInt8 → List UInt8) (receiveTime : Int) (buf : List UInt8),
      ∃ out, onMessage pb errorCallback receiveTime buf = .ok out) ∧
    ∀ (buf : List UInt8) (len : Int), kMinMessageLen ≤ len → len ≤ kMaxMessageLen → len ≤ buf.length →
      ∃ message errorCode, parse pb buf len = .ok (message,errorCode) ∧
        let body := buf.take len.toNat
        (errorCode = .kNoError ↔
          CheckSumMatches pb body ∧ NameLenFits body ∧ TypeKnown pb body ∧ PayloadParses pb body) ∧
        (errorCode = .kCheckSumError ↔ ¬ CheckSumMatches pb body) ∧
        (errorCode = .kInvalidNameLen ↔ CheckSumMatches pb body ∧ ¬ NameLenFits body) ∧
        (errorCode = .kUnknownMessageType ↔
          CheckSumMatches pb body ∧ NameLenFits body ∧ ¬ TypeKnown pb body) ∧
        (errorCode = .kParseError ↔
          CheckSumMatches pb body ∧ NameLenFits body ∧ TypeKnown pb body ∧ ¬ PayloadParses pb body) := by
  constructor
  · intro errorCallback receiveTime buf
    exact ⟨_,onMessage_eq pb errorCallback receiveTime buf⟩
  · intro buf len hmin hmax hlen
    have hlt : len < 2^31 := by
      rw [kMaxMessageLen] at hmax
      omega
    obtain ⟨hp,hbody⟩ := parse_verdict pb hmin hlt hlen
    have herror := verdict_error pb hbody
    rcases hv : verdict pb (buf.take len.toNat) with ⟨message,errorCode⟩
    rw [hv] at hp herror
    exact ⟨message,errorCode,hp,herror⟩

/-- The body of an empty message, accepted for passing the four checks. -/
theorem parse_accepts_empty_body :
    (∃ out, onMessage emptyRuntime (fun _ buf => buf) 0 (frameBody emptyRuntime none) = .ok out) ∧
    ∃ message errorCode, parse emptyRuntime (frameBody emptyRuntime none) 20 = .ok (message,errorCode) ∧
      (errorCode = .kNoError ↔ CheckSumMatches emptyRuntime (frameBody emptyRuntime none) ∧
        NameLenFits (frameBody emptyRuntime none) ∧ TypeKnown emptyRuntime (frameBody emptyRuntime none) ∧
        PayloadParses emptyRuntime (frameBody emptyRuntime none)) := by
  obtain ⟨hall,hparse⟩ := parse_accepts_exactly_valid_bodies emptyRuntime
  obtain ⟨message,errorCode,hp,h,-⟩ := hparse (frameBody emptyRuntime none) 20 (by decide) (by decide) (by decide +kernel)
  exact ⟨hall _ _ _,message,errorCode,hp,h⟩

/-- A pointer that says the same as the error code. -/
def NullOnError (out : Option Message × ErrorCode) : Prop := out.1.isSome ↔ out.2 = .kNoError

/-- `parse` returns a message exactly when it sets `kNoError`, unless a body with the right
checksum, name length and type has a payload that does not parse. -/
theorem parse_null_iff_error {buf : List UInt8} {len : Int} (hmin : kMinMessageLen ≤ len) (hmax : len < 2^31)
    (hlen : len ≤ buf.length) :
    let body := buf.take len.toNat
    (∃ out, parse pb buf len = .ok out ∧ NullOnError out) ↔
      (CheckSumMatches pb body → NameLenFits body → TypeKnown pb body → PayloadParses pb body) := by
  intro body
  obtain ⟨hp,hbody⟩ := parse_verdict pb hmin hmax hlen
  have hmessage := verdict_message pb hbody
  have herror := (verdict_error pb hbody).1
  have hnull : NullOnError (verdict pb body) ↔
      (CheckSumMatches pb body → NameLenFits body → TypeKnown pb body → PayloadParses pb body) := by
    rw [NullOnError,hmessage,herror]
    exact ⟨fun h hc hn ht => (h.mp ⟨hc,hn,ht⟩).2.2.2,fun h => ⟨fun ⟨hc,hn,ht⟩ => ⟨hc,hn,ht,h hc hn ht⟩,
      fun ⟨hc,hn,ht,_⟩ => ⟨hc,hn,ht⟩⟩⟩
  rw [hp,← hnull]
  constructor
  · rintro ⟨out,hout,h⟩
    rwa [Except.ok.inj hout]
  · intro h
    exact ⟨verdict pb body,rfl,h⟩

private def unparsablePart : List UInt8 :=
  encodeInt32 12 ++ [109,117,100,117,111,46,69,109,112,116,121] ++ [0,8,200]

/-- The body of a `muduo.Empty` whose id breaks off, with the right checksum. -/
def unparsableBody : List UInt8 :=
  unparsablePart ++ encodeInt32 (zlibAdler32 1 unparsablePart)

/-- The truncated payload is refused with `kParseError`, and a message is returned. -/
theorem parse_returns_half_parsed_message :
    kMinMessageLen ≤ unparsableBody.length ∧
    parse emptyRuntime unparsableBody unparsableBody.length = .ok (some none,.kParseError) ∧
    ¬ ∃ out, parse emptyRuntime unparsableBody unparsableBody.length = .ok out ∧ NullOnError out := by
  have hp : parse emptyRuntime unparsableBody unparsableBody.length = .ok (some none,.kParseError) := by
    decide +kernel
  refine ⟨by decide +kernel,hp,?_⟩
  rintro ⟨out,hout,hnull⟩
  rw [hp] at hout
  cases hout
  cases hnull.mp rfl

/-- The empty message parses, so its pointer and its error code agree. -/
theorem parse_null_iff_error_empty :
    ∃ out, parse emptyRuntime (frameBody emptyRuntime none) 20 = .ok out ∧ NullOnError out := by
  refine (parse_null_iff_error emptyRuntime (by decide) (by decide) (by decide +kernel)).mpr fun _ _ _ => ?_
  exact ⟨none,by decide +kernel,by decide +kernel⟩

end LearningMuduo.Protobuf
