import LearningMuduo.Protobuf.FrameDecoder

/-! The frames of `fillEmptyBuffer` come back as the messages they were made from,
however their stream is cut. -/
namespace LearningMuduo.Protobuf
open Library
variable {Message Descriptor : Type} (pb : Runtime Message Descriptor)

/-- The promises of protobuf for messages within its int sizes: the announced size is
the size written, types have names, and parsing undoes serialisation. -/
structure Runtime.Lawful : Prop where
  byteSize_eq : ∀ m, (pb.serializeWithCachedSizesToArray m).length < 2^31 →
    pb.byteSize m = (pb.serializeWithCachedSizesToArray m).length
  typeName_ne_nil : ∀ m, pb.getTypeName m ≠ []
  parse_serialize : ∀ m fresh, pb.isInitialized m →
    (pb.serializeWithCachedSizesToArray m).length < 2^31 →
    createMessage pb (pb.getTypeName m) = some fresh →
    pb.parseFromArray fresh (pb.serializeWithCachedSizesToArray m) = (true,m)

/-- nameLen, typeName and protobufData: the part of a body under its checksum. -/
def checkedPart (m : Message) : List UInt8 :=
  encodeInt32 ((pb.getTypeName m).length + 1) ++ (pb.getTypeName m ++ [0]) ++
    pb.serializeWithCachedSizesToArray m

def frameBody (m : Message) : List UInt8 :=
  checkedPart pb m ++ encodeInt32 (toInt32 (pb.adler32 1 (checkedPart pb m)))

def frame (m : Message) : List UInt8 := encodeInt32 (frameBody pb m).length ++ frameBody pb m

/-- An initialised message of a registered type whose body is not too long. -/
structure Encodable (m : Message) : Prop where
  initialized : pb.isInitialized m
  registered : (createMessage pb (pb.getTypeName m)).isSome
  fits : (frameBody pb m).length ≤ kMaxMessageLen

/-- The parts of a frame body. -/
theorem length_frameBody (m : Message) : (frameBody pb m).length =
    4 + ((pb.getTypeName m).length + 1) + (pb.serializeWithCachedSizesToArray m).length + 4 := by
  simp only [frameBody,checkedPart,List.length_append,length_encodeInt32,List.length_cons,List.length_nil]

/-- The checksum covers all but its own four bytes. -/
theorem length_checkedPart (m : Message) : (checkedPart pb m).length = (frameBody pb m).length - 4 := by
  rw [frameBody,List.length_append,length_encodeInt32]
  omega

private theorem Encodable.length_lt {pb : Runtime Message Descriptor} {m : Message} (h : Encodable pb m) :
    (frameBody pb m).length < 2^31 := by
  have hf := h.fits
  unfold kMaxMessageLen at hf
  omega

/-- The type name with the zero byte that `c_str()` ends with. -/
theorem readBytes_name (name : List UInt8) :
    readBytes (name ++ [0]) 0 (name.length + 1) = .ok (name ++ [0]) := by
  have hz : (name ++ [0]).length = name.length + 1 := List.length_append
  rw [readBytes_bytesAt (i := 0) (n := (name ++ [0]).length) (by omega) (by omega) (by omega),bytesAt_all]

/-- What `fillEmptyBuffer` leaves in the buffer. -/
theorem fillEmptyBuffer_frame {pb : Runtime Message Descriptor} {m : Message} (hi : pb.isInitialized m)
    (hb : pb.byteSize m = (pb.serializeWithCachedSizesToArray m).length) (hlt : (frameBody pb m).length < 2^31) :
    fillEmptyBuffer pb [] m = .ok (frame pb m) := by
  have hl := length_frameBody pb m
  have hc := length_checkedPart pb m
  have hn : toInt32 ((pb.getTypeName m).length + 1) = (pb.getTypeName m).length + 1 :=
    toInt32_eq (by omega) (by omega)
  have hsum : checkSumOf pb (checkedPart pb m) (toInt32 (checkedPart pb m).length) =
      .ok (toInt32 (pb.adler32 1 (checkedPart pb m))) := by
    rw [toInt32_eq (by omega) (by omega),checkSumOf_ok pb (Nat.le_refl _) (by omega),bytesAt_all]
  have hlen : toInt32 (frameBody pb m).length = (frameBody pb m).length := toInt32_eq (by omega) (by omega)
  rw [fillEmptyBuffer,require_pos List.length_nil,bind_ok]
  dsimp only
  rw [hn,readBytes_name,bind_ok,require_pos hi,bind_ok,require_pos hb.symm,bind_ok,List.nil_append]
  rw [← checkedPart,hsum,bind_ok,← frameBody,require_pos (by omega),bind_ok,hlen]
  rfl

/-- An encodable message becomes its frame. -/
theorem fillEmptyBuffer_eq {pb : Runtime Message Descriptor} (hpb : pb.Lawful) {m : Message}
    (h : Encodable pb m) : fillEmptyBuffer pb [] m = .ok (frame pb m) := by
  have hlt := h.length_lt
  have hl := length_frameBody pb m
  exact fillEmptyBuffer_frame h.initialized (hpb.byteSize_eq m (by omega)) hlt

private theorem frameBody_checked (m : Message) :
    bytesAt (frameBody pb m) 0 ((frameBody pb m).length-4) = checkedPart pb m :=
  bytesAt_middle (a := []) rfl (length_checkedPart pb m).symm

private theorem frameBody_checkSum (m : Message) :
    decodeInt32 (bytesAt (frameBody pb m) ((frameBody pb m).length-4) 4) =
      toInt32 (pb.adler32 1 (checkedPart pb m)) := by
  have hs : bytesAt (frameBody pb m) ((frameBody pb m).length-4) 4 =
      encodeInt32 (toInt32 (pb.adler32 1 (checkedPart pb m))) := by
    rw [← length_checkedPart,frameBody,← List.append_nil (checkedPart pb m ++ _)]
    exact bytesAt_middle rfl (length_encodeInt32 _).symm
  rw [hs,← List.append_nil (encodeInt32 _),decodeInt32_encodeInt32,toInt32_toInt32]

private theorem frameBody_name (m : Message) :
    bytesAt (frameBody pb m) 4 (pb.getTypeName m).length = pb.getTypeName m := by
  have hb : frameBody pb m = encodeInt32 ((pb.getTypeName m).length + 1) ++ pb.getTypeName m ++
      ([0] ++ (pb.serializeWithCachedSizesToArray m ++
        encodeInt32 (toInt32 (pb.adler32 1 (checkedPart pb m))))) := by
    simp only [frameBody,checkedPart,List.append_assoc]
  rw [hb]
  exact bytesAt_middle (length_encodeInt32 _).symm rfl

private theorem frameBody_data (m : Message) :
    bytesAt (frameBody pb m) (4 + ((pb.getTypeName m).length + 1))
      ((frameBody pb m).length - ((pb.getTypeName m).length + 1) - 8) =
      pb.serializeWithCachedSizesToArray m := by
  have hl := length_frameBody pb m
  refine bytesAt_middle ?_ (by omega)
  rw [List.length_append,List.length_append,length_encodeInt32]
  rfl

/-- The body of a frame passes every check and carries the message. -/
theorem verdict_frameBody {pb : Runtime Message Descriptor} (hpb : pb.Lawful) {m : Message}
    (h : Encodable pb m) : verdict pb (frameBody pb m) = (some m,.kNoError) := by
  have hlt := h.length_lt
  have hl := length_frameBody pb m
  have hne : 0 < (pb.getTypeName m).length := List.length_pos_iff.mpr (hpb.typeName_ne_nil m)
  have hnameLen : decodeInt32 (frameBody pb m) = ((pb.getTypeName m).length + 1 : Nat) := by
    rw [frameBody,checkedPart,List.append_assoc,List.append_assoc,decodeInt32_encodeInt32,
      toInt32_eq (by omega) (by omega)]
    rfl
  obtain ⟨fresh,hf⟩ := Option.isSome_iff_exists.mp h.registered
  rw [verdict,frameBody_checked,frameBody_checkSum,if_neg (not_not.mpr rfl),hnameLen,if_neg (by omega),
    Int.toNat_natCast,Nat.add_sub_cancel,frameBody_name,hf]
  dsimp only
  rw [frameBody_data,hpb.parse_serialize m fresh h.initialized (by omega) hf]
  rfl

/-- A frame on its own is decoded whole. -/
theorem frameHead_frame {pb : Runtime Message Descriptor} (hpb : pb.Lawful) {m : Message}
    (h : Encodable pb m) : frameHead pb (frame pb m) = .item m (frame pb m).length := by
  have hlt := h.length_lt
  have hl := length_frameBody pb m
  have hf := h.fits
  have hne : 0 < (pb.getTypeName m).length := List.length_pos_iff.mpr (hpb.typeName_ne_nil m)
  have hlen : (frame pb m).length = (frameBody pb m).length + 4 := by
    rw [frame,List.length_append,length_encodeInt32,Nat.add_comm]
  have hd : decodeInt32 (frame pb m) = (frameBody pb m).length := by
    rw [frame,decodeInt32_encodeInt32,toInt32_eq (by omega) (by omega)]
  have hs : bytesAt (frame pb m) 4 (frameBody pb m).length = frameBody pb m := by
    rw [frame,← List.append_nil (encodeInt32 _ ++ _)]
    exact bytesAt_middle (length_encodeInt32 _).symm rfl
  rw [frameHead,hd,Int.toNat_natCast,hs,verdict_frameBody hpb h,if_neg (by omega),
    if_neg (by unfold kMinMessageLen kHeaderLen; omega),if_neg (by omega),hlen]
  rfl

/-- The stream of frames of any list of messages, cut into any chunks: in each call of
`onMessage` the message callback gets, in order, the messages whose frames end in that
call's chunk; over all calls these are the messages of the list, the error callback is
never called and the buffer is empty at the end. -/
theorem codec_delivers_what_was_encoded (pb : Runtime Message Descriptor) (hpb : pb.Lawful)
    (errorCallback : ErrorCode → List UInt8 → List UInt8) (ms : List Message)
    (hm : ∀ m ∈ ms, Encodable pb m) :
    (∀ m ∈ ms, fillEmptyBuffer pb [] m = .ok (frame pb m)) ∧
    ∀ chunks : List Chunk, (chunks.map Chunk.data).flatten = (ms.map (frame pb)).flatten →
      ∃ delivered : List (List Message),
        delivered = arrivals (fun m => (frame pb m).length) ms 0 (chunks.map Chunk.data) ∧
        delivered.length = chunks.length ∧
        delivered.flatten = ms ∧
        receive pb errorCallback [] chunks =
          .ok (List.zipWith (fun chunk now => now.map (.messageCallback · chunk.receiveTime))
            chunks delivered,[]) := by
  refine ⟨fun m h => fillEmptyBuffer_eq hpb (hm m h),?_⟩
  intro chunks hc
  have hb : (frameDecoder pb).Frames (frame pb) ms := fun m h => frameHead_frame hpb (hm m h)
  obtain ⟨hf,ha⟩ := Decoder.feed_frames errorCallback hb hc
  refine ⟨_,rfl,by rw [length_arrivals,List.length_map],ha,?_⟩
  rw [receive_eq,hf,List.zipWith_map_right]
  simp only [callbacks,Option.toList_none,List.map_nil,List.append_nil]

/-- zlib's checksum: two running sums modulo 65521. -/
def zlibAdler32 (adler : Nat) (bytes : List UInt8) : Nat :=
  let sums := bytes.foldl
    (fun s byte => ((s.1 + byte.toNat) % 65521,(s.2 + (s.1 + byte.toNat) % 65521) % 65521))
    (adler % 65536,adler / 65536 % 65536)
  sums.2 * 65536 + sums.1

/-- `muduo.Empty` of query.proto with an optional id below 128, the ids of one byte. -/
def emptyRuntime : Runtime (Option (Fin 128)) Unit where
  getTypeName _ := [109,117,100,117,111,46,69,109,112,116,121]
  isInitialized _ := true
  byteSize m := if m.isSome then 2 else 0
  serializeWithCachedSizesToArray
    | none => []
    | some id => [8,UInt8.ofNat id]
  findMessageTypeByName name :=
    if name = [109,117,100,117,111,46,69,109,112,116,121] then some () else none
  getPrototype _ := some none
  newMessage m := m
  parseFromArray _
    | [] => (true,none)
    | [8,id] => if h : id.toNat < 128 then (true,some ⟨id.toNat,h⟩) else (false,none)
    | _ => (false,none)
  adler32 := zlibAdler32

private theorem emptyRuntime_lawful : emptyRuntime.Lawful where
  byteSize_eq m _ := by
    cases m <;> rfl
  typeName_ne_nil _ := List.cons_ne_nil _ _
  parse_serialize := by
    rintro (_ | id) fresh - - -
    · rfl
    · change emptyRuntime.parseFromArray none (emptyRuntime.serializeWithCachedSizesToArray (some id)) = _
      revert id
      decide +kernel

private def emptyStream : List UInt8 := ([none,some 43].map (frame emptyRuntime)).flatten

private def emptyChunks : List Chunk :=
  [⟨[],1⟩,⟨emptyStream.take 1,2⟩,⟨(emptyStream.drop 1).take 26,3⟩,⟨emptyStream.drop 27,4⟩]

/-- Two messages in four chunks, the first one empty, the others cut inside a length. -/
theorem codec_delivers_two_messages :
    receive emptyRuntime (fun _ buf => buf) [] emptyChunks =
      .ok ([[],[],[.messageCallback none 3],[.messageCallback (some 43) 4]],[]) := by
  have hm : ∀ m ∈ [none,some (43 : Fin 128)], Encodable emptyRuntime m := by
    intro m _
    refine ⟨rfl,rfl,?_⟩
    revert m
    decide +kernel
  obtain ⟨_,rfl,-,-,hr⟩ := (codec_delivers_what_was_encoded emptyRuntime emptyRuntime_lawful (fun _ buf => buf)
    [none,some 43] hm).2 emptyChunks (by decide +kernel)
  rw [hr,show arrivals (fun m => (frame emptyRuntime m).length) [none,some 43] 0
    (emptyChunks.map Chunk.data) = [[],[],[none],[some 43]] by decide +kernel]
  rfl

end LearningMuduo.Protobuf
