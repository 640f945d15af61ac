import LearningMuduo.Protobuf.MessageRoundTrip
import LearningMuduo.Protobuf.StreamDelivery

/-! The generated classes behind the codec: three types, whose messages keep no field of their
own among the unknown ones, and what the codec needs of protobuf to serve them. -/
namespace LearningMuduo.Protobuf
open Library
variable {U : Type}

/-- The classes of query.proto, one for each descriptor. -/
inductive QueryClass where
  | query | answer | empty
  deriving DecidableEq, Repr

inductive AnyMessage (U : Type) where
  | query (m : Query U)
  | answer (m : Answer U)
  | empty (m : Empty U)
  deriving DecidableEq, Repr

namespace AnyMessage

/-- `GetDescriptor()`. -/
def descriptor : AnyMessage U → QueryClass
  | .query _ => .query
  | .answer _ => .answer
  | .empty _ => .empty

/-- What `New` makes. -/
def new : QueryClass → AnyMessage U
  | .query => .query .new
  | .answer => .answer .new
  | .empty => .empty .new

def isInitialized : AnyMessage U → Bool
  | .query m => m.isInitialized
  | .answer m => m.isInitialized
  | .empty m => m.isInitialized

variable (w : WireFormat U)

def byteSizeLong : AnyMessage U → Nat
  | .query m => m.byteSizeLong w
  | .answer m => m.byteSizeLong w
  | .empty m => m.byteSizeLong w

def serializeWithCachedSizesToArray : AnyMessage U → List UInt8
  | .query m => m.serializeWithCachedSizesToArray w
  | .answer m => m.serializeWithCachedSizesToArray w
  | .empty m => m.serializeWithCachedSizesToArray w

/-- The class's parsing function, started on an empty message, takes these bytes in and leaves m. -/
def Parses (bytes : List UInt8) : AnyMessage U → Prop
  | .query m => (Query.loop w).Reads .new bytes m
  | .answer m => (Answer.loop w).Reads .new bytes m
  | .empty m => (Empty.loop w).Reads .new bytes m

/-- No unknown field has a case in the message's class. -/
def Tidy (fieldTag : U → Nat) : AnyMessage U → Prop
  | .query m => ∀ u ∈ m.unknownFields, Unusual (Query.cases w) (fieldTag u)
  | .answer m => ∀ u ∈ m.unknownFields, Unusual (Answer.cases w) (fieldTag u)
  | .empty m => ∀ u ∈ m.unknownFields, Unusual (Empty.cases w) (fieldTag u)

end AnyMessage

/-- A message as the classes' own functions leave it. -/
structure TidyMessage (w : WireFormat U) (fieldTag : U → Nat) where
  message : AnyMessage U
  tidy : message.Tidy w fieldTag

/-- The name of a type: `muduo.Query`, `muduo.Answer` or `muduo.Empty`. -/
def QueryClass.typeName : QueryClass → List UInt8
  | .query => [109,117,100,117,111,46,81,117,101,114,121]
  | .answer => [109,117,100,117,111,46,65,110,115,119,101,114]
  | .empty => [109,117,100,117,111,46,69,109,112,116,121]

variable {w : WireFormat U} {fieldTag : U → Nat}

def TidyMessage.new (c : QueryClass) : TidyMessage w fieldTag where
  message := .new c
  tidy := by
    cases c <;> exact fun _ hu => (List.not_mem_nil hu).elim

/-- What protobuf promises to a program linked with the classes of query.proto: a virtual call
runs the function of the message's class, `ByteSize` is `ByteSizeLong` as an int, the generated
pool and factory have the three types, `New` makes an empty message, and `ParseFromArray` clears
the message and is true with what the class's parsing function made of the bytes, if that took
them all in and no required field is missing. -/
structure Runtime.HasQueryTypes (pb : Runtime (TidyMessage w fieldTag) QueryClass) : Prop where
  getTypeName : ∀ m, pb.getTypeName m = m.message.descriptor.typeName
  isInitialized : ∀ m, pb.isInitialized m = m.message.isInitialized
  byteSize : ∀ m, m.message.byteSizeLong w < 2^31 → pb.byteSize m = m.message.byteSizeLong w
  serializeWithCachedSizesToArray : ∀ m,
    pb.serializeWithCachedSizesToArray m = m.message.serializeWithCachedSizesToArray w
  findMessageTypeByName : ∀ c : QueryClass, pb.findMessageTypeByName c.typeName = some c
  new : ∀ c, ∃ prototype, pb.getPrototype c = some prototype ∧ pb.newMessage prototype = .new c
  parseFromArray : ∀ message m bytes, message.message.descriptor = m.message.descriptor → m.message.Parses w bytes →
    m.message.isInitialized = true → pb.parseFromArray message bytes = (true,m)

variable {pb : Runtime (TidyMessage w fieldTag) QueryClass}

private theorem descriptor_new (c : QueryClass) : (TidyMessage.new c : TidyMessage w fieldTag).message.descriptor = c := by
  cases c <;> rfl

private theorem createMessage_typeName (hpb : pb.HasQueryTypes) (c : QueryClass) :
    createMessage pb c.typeName = some (.new c) := by
  obtain ⟨prototype,hproto,hnew⟩ := hpb.new c
  rw [createMessage,hpb.findMessageTypeByName]
  dsimp only
  rw [hproto]
  exact congrArg some hnew

private theorem byteSize_tidy (hw : w.Lawful fieldTag) {m : TidyMessage w fieldTag}
    (hs : (m.message.serializeWithCachedSizesToArray w).length < 2^31) :
    m.message.byteSizeLong w = (m.message.serializeWithCachedSizesToArray w).length := by
  obtain ⟨m,ht⟩ := m
  cases m with
  | query m => exact Query.byteSize hw hs
  | answer m => exact Answer.byteSize hw hs
  | empty m => exact Empty.byteSize hw

/-- The class's parsing function takes the encoding in. -/
theorem TidyMessage.parses_encoding (hw : w.Lawful fieldTag) (m : TidyMessage w fieldTag)
    (hs : (m.message.serializeWithCachedSizesToArray w).length < 2^31) :
    m.message.Parses w (m.message.serializeWithCachedSizesToArray w) := by
  obtain ⟨m,ht⟩ := m
  cases m with
  | query m =>
    have hread := Query.reads hw ⟨ht,hs⟩ .new
    rwa [Query.new_mergeFrom] at hread
  | answer m =>
    have hread := Answer.reads hw ⟨ht,hs⟩ .new
    rwa [Answer.new_mergeFrom] at hread
  | empty m =>
    have hread := Empty.reads hw ⟨ht,hs⟩ .new
    rwa [Empty.new_mergeFrom] at hread

/-- The generated classes keep the promises that the codec relies on. -/
theorem Runtime.HasQueryTypes.lawful (hpb : pb.HasQueryTypes) (hw : w.Lawful fieldTag) : pb.Lawful where
  byteSize_eq m hs := by
    rw [hpb.serializeWithCachedSizesToArray] at hs ⊢
    have hsize := byteSize_tidy hw hs
    rw [hpb.byteSize m (by omega),hsize]
  typeName_ne_nil m := by
    rw [hpb.getTypeName]
    cases m.message.descriptor <;> exact List.cons_ne_nil _ _
  parse_serialize m fresh hi hs hf := by
    rw [hpb.getTypeName,createMessage_typeName hpb] at hf
    cases hf
    rw [hpb.isInitialized] at hi
    rw [hpb.serializeWithCachedSizesToArray] at hs ⊢
    exact hpb.parseFromArray _ m _ (descriptor_new _) (m.parses_encoding hw hs) hi

/-- An initialised message of query.proto can be sent, if it fits a frame. -/
theorem Runtime.HasQueryTypes.encodable (hpb : pb.HasQueryTypes) {m : TidyMessage w fieldTag}
    (hi : m.message.isInitialized = true) (hfits : (frameBody pb m).length ≤ kMaxMessageLen) : Encodable pb m := by
  refine ⟨(hpb.isInitialized m).trans hi,?_,hfits⟩
  rw [hpb.getTypeName]
  exact Option.isSome_iff_exists.mpr ⟨_,createMessage_typeName hpb m.message.descriptor⟩

/-- The frames of any initialised messages of query.proto, cut into any chunks, come back as the
messages, in order, each with its unknown fields. -/
theorem query_messages_survive_any_cut (hpb : pb.HasQueryTypes) (hw : w.Lawful fieldTag)
    (errorCallback : ErrorCode → List UInt8 → List UInt8) (ms : List (TidyMessage w fieldTag))
    (hm : ∀ m ∈ ms, m.message.isInitialized = true ∧ (frameBody pb m).length ≤ kMaxMessageLen) (chunks : List Chunk)
    (hc : (chunks.map Chunk.data).flatten = (ms.map (frame pb)).flatten) :
    (∀ m ∈ ms, fillEmptyBuffer pb [] m = .ok (frame pb m)) ∧
    ∃ delivered : List (List (TidyMessage w fieldTag)), delivered.flatten = ms ∧
      receive pb errorCallback [] chunks =
        .ok (List.zipWith (fun chunk now => now.map (.messageCallback · chunk.receiveTime)) chunks delivered,[]) := by
  have hlawful := hpb.lawful hw
  have hencodable : ∀ m ∈ ms, Encodable pb m := fun m hmem => hpb.encodable (hm m hmem).1 (hm m hmem).2
  refine ⟨fun m hmem => fillEmptyBuffer_eq hlawful (hencodable m hmem),?_⟩
  have hframes : (frameDecoder pb).Frames (frame pb) ms := fun m hmem => frameHead_frame hlawful (hencodable m hmem)
  obtain ⟨hfeed,hall⟩ := Decoder.feed_frames errorCallback hframes hc
  refine ⟨_,hall,?_⟩
  rw [receive_eq,hfeed,List.zipWith_map_right]
  simp only [callbacks,Option.toList_none,List.map_nil,List.append_nil]

abbrev PlainMessage := TidyMessage plainWire fun u => u.elim0

/-- `Clear`, a class's loop, the required fields, and whether the bytes have all been read. -/
def parseAll {M : Type} (l : FieldLoop UInt8 M) (isInitialized : M → Bool) (cleared : M) (bytes : List UInt8) : Bool × M :=
  let (ok,m) := l.run cleared bytes
  (ok && isInitialized m && (l.unread cleared bytes).isEmpty,m)

def plainParse (bytes : List UInt8) : QueryClass → Bool × AnyMessage (Fin 0)
  | .query => (parseAll (Query.loop plainWire) Query.isInitialized .new bytes).map id .query
  | .answer => (parseAll (Answer.loop plainWire) Answer.isInitialized .new bytes).map id .answer
  | .empty => (parseAll (Empty.loop plainWire) Empty.isInitialized .new bytes).map id .empty

private theorem plain_tidy (m : AnyMessage (Fin 0)) : m.Tidy plainWire fun u => u.elim0 := by
  cases m <;> exact fun u => u.elim0

/-- A registry of the three types, on the plain wire format. -/
def plainRuntime : Runtime PlainMessage QueryClass where
  getTypeName m := m.message.descriptor.typeName
  isInitialized m := m.message.isInitialized
  byteSize m := toInt32 (m.message.byteSizeLong plainWire)
  serializeWithCachedSizesToArray m := m.message.serializeWithCachedSizesToArray plainWire
  findMessageTypeByName name := [QueryClass.query,.answer,.empty].find? fun c => c.typeName = name
  getPrototype c := some (.new c)
  newMessage m := .new m.message.descriptor
  parseFromArray m bytes :=
    let (ok,message) := plainParse bytes m.message.descriptor
    (ok,⟨message,plain_tidy message⟩)
  adler32 := zlibAdler32

private theorem parseAll_eq {M : Type} {l : FieldLoop UInt8 M} {isInitialized : M → Bool} {cleared m : M} {bytes : List UInt8}
    (h : l.Reads cleared bytes m) (hend : l.round m [] = .done true m) (hi : isInitialized m = true) :
    parseAll l isInitialized cleared bytes = (true,m) := by
  rw [parseAll,h.run_eq hend,h.unread_eq hend]
  dsimp only
  rw [hi]
  rfl

private theorem plainParse_eq {m : AnyMessage (Fin 0)} {bytes : List UInt8} (h : m.Parses plainWire bytes)
    (hi : m.isInitialized = true) : plainParse bytes m.descriptor = (true,m) := by
  cases m with
  | query m => exact congrArg (Prod.map id AnyMessage.query) (parseAll_eq h (mergeLoop_end plainWire_lawful m) hi)
  | answer m => exact congrArg (Prod.map id AnyMessage.answer) (parseAll_eq h (mergeLoop_end plainWire_lawful m) hi)
  | empty m => exact congrArg (Prod.map id AnyMessage.empty) (parseAll_eq h (mergeLoop_end plainWire_lawful m) hi)

/-- The plain runtime behaves as it should. -/
theorem plainRuntime_hasQueryTypes : plainRuntime.HasQueryTypes where
  getTypeName _ := rfl
  isInitialized _ := rfl
  byteSize m hs := by
    have hint : toInt32 (m.message.byteSizeLong plainWire) = m.message.byteSizeLong plainWire := toInt32_eq (by omega) (by omega)
    unfold plainRuntime
    dsimp only
    rw [hint]
  serializeWithCachedSizesToArray _ := rfl
  findMessageTypeByName c := by cases c <;> rfl
  new c := ⟨.new c,rfl,congrArg TidyMessage.new (descriptor_new c)⟩
  parseFromArray message m bytes hd h hi := by
    have hparse := plainParse_eq h hi
    rw [← hd] at hparse
    unfold plainRuntime
    rw [Prod.mk.injEq,TidyMessage.mk.injEq]
    exact ⟨congrArg Prod.fst hparse,congrArg Prod.snd hparse⟩

private def twoMessages : List PlainMessage :=
  [⟨.query ⟨some (-1),some [67],[[],[82]],[]⟩,fun u => u.elim0⟩,⟨.empty ⟨some 300,[]⟩,fun u => u.elim0⟩]

/-- A query and an empty message in one chunk. -/
theorem query_messages_survive_one_chunk : ∃ delivered : List (List PlainMessage), delivered.flatten = twoMessages ∧
    receive plainRuntime (fun _ buf => buf) [] [⟨(twoMessages.map (frame plainRuntime)).flatten,7⟩] =
      .ok (List.zipWith (fun (chunk : Chunk) now => now.map (.messageCallback · chunk.receiveTime))
        [⟨(twoMessages.map (frame plainRuntime)).flatten,7⟩] delivered,[]) :=
  (query_messages_survive_any_cut plainRuntime_hasQueryTypes plainWire_lawful (fun _ buf => buf) twoMessages (by decide +kernel)
    [⟨(twoMessages.map (frame plainRuntime)).flatten,7⟩] (List.append_nil _)).2

end LearningMuduo.Protobuf
