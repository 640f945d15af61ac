import LearningMuduo.Library.Machine
import LearningMuduo.Protobuf.Dispatcher
import LearningMuduo.Protobuf.QueryRuntime
import LearningMuduo.Tcp.TcpConnection

/-! The client and the server of protobuf/codec, and their exchange as two byte streams: a message,
its answer, and the half-closes that end it. -/
namespace LearningMuduo.Protobuf
open Library
variable {U : Type} {w : WireFormat U} {fieldTag : U → Nat}

/-- The functions the two programs register with their dispatchers. -/
inductive QueryHandler where
  | onQuery | onAnswer | onEmpty | onUnknownMessage
  deriving DecidableEq, Repr

/-- What a program calls on its connection. -/
inductive Request where
  | send (message : Tcp.Message)
  | shutdown
  deriving DecidableEq, Repr

inductive ExchangeFault where
  | codec (fault : CodecFault)
  | dispatch (fault : DispatchFault)
  | connection (fault : Tcp.ConnFault)
  deriving DecidableEq, Repr

/-- What a program makes of its input: the messages its handlers get, the errors it is told of, and
its calls on the connection. -/
structure Reaction (w : WireFormat U) (fieldTag : U → Nat) where
  handled : List (QueryHandler × TidyMessage w fieldTag)
  errors : List ErrorCode
  requests : List Request

/-- A program: its dispatcher, and what its handlers call on the connection. -/
structure QueryProgram where
  dispatcher : ProtobufDispatcher QueryClass QueryHandler
  handler : QueryHandler → Except ExchangeFault (List Request)

section
variable (pb : Runtime (TidyMessage w fieldTag) QueryClass)

/-- `ProtobufCodec::send`. -/
def codecSend (m : TidyMessage w fieldTag) : Except ExchangeFault (List Request) := do
  let bytes ← (fillEmptyBuffer pb [] m).mapError .codec
  if h : bytes.length ≤ Tcp.maxSize then pure [.send ⟨bytes,h⟩] else .error (.connection (.buffer .lengthError))

/-- The message that `onQuery` sends: 1, "Chen Shuo", "blog.csdn.net/Solstice", "Jump!", "Win!". -/
def answer : TidyMessage w fieldTag where
  message := .answer {
    id := some 1
    questioner := some [67,104,101,110,32,83,104,117,111]
    answerer := some [98,108,111,103,46,99,115,100,110,46,110,101,116,47,83,111,108,115,116,105,99,101]
    solution := [[74,117,109,112,33],[87,105,110,33]]
    unknownFields := [] }
  tidy _ hu := (List.not_mem_nil hu).elim

def serverDispatcher : ProtobufDispatcher QueryClass QueryHandler :=
  ((ProtobufDispatcher.new .onUnknownMessage).registerMessageCallback .query .onQuery).registerMessageCallback .answer .onAnswer

def clientDispatcher : ProtobufDispatcher QueryClass QueryHandler :=
  ((ProtobufDispatcher.new .onUnknownMessage).registerMessageCallback .answer .onAnswer).registerMessageCallback .empty .onEmpty

/-- The handlers of `QueryServer`. -/
def serverHandler : QueryHandler → Except ExchangeFault (List Request)
  | .onQuery => do
    let sends ← codecSend pb answer
    pure (sends ++ [.shutdown])
  | .onAnswer | .onUnknownMessage => pure [.shutdown]
  | .onEmpty => pure []

def queryServer : QueryProgram := ⟨serverDispatcher,serverHandler pb⟩

/-- The handlers of `QueryClient` only write to the log. -/
def queryClient : QueryProgram := ⟨clientDispatcher,fun _ => pure []⟩

/-- One callback of the codec: a message through the dispatcher, or `defaultErrorCallback`. -/
def QueryProgram.onCallback (p : QueryProgram) (r : Reaction w fieldTag) :
    Callback (TidyMessage w fieldTag) → Except ExchangeFault (Reaction w fieldTag)
  | .messageCallback m _ => do
    let h ← (p.dispatcher.onProtobufMessage m.message.descriptor).mapError .dispatch
    let requests ← p.handler h
    pure ⟨r.handled ++ [(h,m)],r.errors,r.requests ++ requests⟩
  | .errorCallback _ errorCode => pure ⟨r.handled,r.errors ++ [errorCode],r.requests ++ [.shutdown]⟩

/-- The codec on an input buffer: what the program does, and what stays in the buffer. -/
def QueryProgram.onBuffer (p : QueryProgram) (receiveTime : Int) (buf : List UInt8) :
    Except ExchangeFault (Reaction w fieldTag × List UInt8) := do
  let (calls,rest) ← (onMessage pb (fun _ buf => buf) receiveTime buf).mapError .codec
  let r ← calls.foldlM p.onCallback ⟨[],[],[]⟩
  pure (r,rest)

end

/-- What stays in the buffer is its end. -/
theorem QueryProgram.onBuffer_suffix {pb : Runtime (TidyMessage w fieldTag) QueryClass} {p : QueryProgram} {receiveTime : Int}
    {buf rest : List UInt8} {r : Reaction w fieldTag} (h : p.onBuffer pb receiveTime buf = .ok (r,rest)) : rest <:+ buf := by
  rw [onBuffer,onMessage_eq] at h
  obtain ⟨⟨calls,kept⟩,hmessage,h⟩ := bind_eq_ok h
  cases hmessage
  obtain ⟨r',-,h⟩ := bind_eq_ok h
  cases h
  have hkept : ((frameDecoder pb).drain buf).kept (fun _ buf => buf) = ((frameDecoder pb).drain buf).rest := by
    unfold Drained.kept
    split <;> rfl
  rw [hkept]
  exact (frameDecoder pb).drain_rest_suffix buf

/-- One side as the other one sees it: its state, what it has read and not used, the bytes on their
way to the other side and whether an end follows them; and as history the messages its handlers got
and the errors. -/
structure Endpoint (w : WireFormat U) (fieldTag : U → Nat) where
  state : Tcp.StateE
  inputBuffer : List UInt8
  sent : List UInt8
  shutdownWrite : Bool
  handled : List (QueryHandler × TidyMessage w fieldTag)
  errors : List ErrorCode

namespace Endpoint

/-- A call on the connection, which does nothing unless it is up. -/
def request (e : Endpoint w fieldTag) : Request → Endpoint w fieldTag
  | .send message => if e.state = .kConnected then { e with sent := e.sent ++ message.bytes } else e
  | .shutdown => if e.state = .kConnected then { e with state := .kDisconnecting,shutdownWrite := true } else e

def reacts (e : Endpoint w fieldTag) (r : Reaction w fieldTag) (rest : List UInt8) : Endpoint w fieldTag :=
  r.requests.foldl request { e with inputBuffer := rest,handled := e.handled ++ r.handled,errors := e.errors ++ r.errors }

/-- Bytes arrive and the program runs on the input buffer. -/
def reads (pb : Runtime (TidyMessage w fieldTag) QueryClass) (p : QueryProgram) (e : Endpoint w fieldTag) (bytes : List UInt8)
    (receiveTime : Int) : Except ExchangeFault (Endpoint w fieldTag) := do
  let (r,rest) ← p.onBuffer pb receiveTime (e.inputBuffer ++ bytes)
  pure (e.reacts r rest)

private theorem request_inputBuffer (e : Endpoint w fieldTag) (buf : List UInt8) (r : Request) :
    ({ e with inputBuffer := buf } : Endpoint w fieldTag).request r = { e.request r with inputBuffer := buf } := by
  by_cases hc : e.state = .kConnected
  · cases r <;> simp only [request,hc,if_true]
  · cases r <;> simp only [request,hc,if_false]

/-- Calls on the connection have nothing to do with the input. -/
theorem requests_inputBuffer (rs : List Request) (e : Endpoint w fieldTag) (buf : List UInt8) :
    rs.foldl request { e with inputBuffer := buf } = { rs.foldl request e with inputBuffer := buf } := by
  induction rs generalizing e with
  | nil => rfl
  | cons r rs ih => rw [List.foldl_cons,List.foldl_cons,request_inputBuffer,ih]

/-- The connection is closed, and with it the socket. -/
def close (e : Endpoint w fieldTag) : Endpoint w fieldTag := { e with state := .kDisconnected,shutdownWrite := true }

end Endpoint

/-- Both sides, and whether the client's loop has been told to quit. -/
structure Exchange (w : WireFormat U) (fieldTag : U → Nat) where
  client : Endpoint w fieldTag
  server : Endpoint w fieldTag
  quit : Bool

/-- The client's connection comes up; a side reads the next n bytes on their way to it, or the
end behind them. -/
inductive StreamStep where
  | clientUp
  | serverReads (n : Nat) (receiveTime : Int)
  | clientReads (n : Nat) (receiveTime : Int)
  | clientReadsEnd
  | serverReadsEnd

namespace Exchange

def start : Exchange w fieldTag where
  client := ⟨.kConnecting,[],[],false,[],[]⟩
  server := ⟨.kConnected,[],[],false,[],[]⟩
  quit := false

/-- A side that is up, with something on its way to it. -/
def CanRead (reader writer : Endpoint w fieldTag) (n : Nat) : Prop :=
  (reader.state = .kConnected ∨ reader.state = .kDisconnecting) ∧ 1 ≤ n ∧ n ≤ writer.sent.length

def CanReadEnd (reader writer : Endpoint w fieldTag) : Prop :=
  (reader.state = .kConnected ∨ reader.state = .kDisconnecting) ∧ writer.sent = [] ∧ writer.shutdownWrite = true

def Enabled (s : Exchange w fieldTag) : StreamStep → Prop
  | .clientUp => s.client.state = .kConnecting
  | .serverReads n _ => CanRead s.server s.client n
  | .clientReads n _ => CanRead s.client s.server n
  | .clientReadsEnd => CanReadEnd s.client s.server
  | .serverReadsEnd => CanReadEnd s.server s.client

variable (pb : Runtime (TidyMessage w fieldTag) QueryClass) (messageToSend : TidyMessage w fieldTag)

def step (s : Exchange w fieldTag) : StreamStep → Except ExchangeFault (Exchange w fieldTag)
  | .clientUp => do
    let requests ← codecSend pb messageToSend
    pure { s with client := requests.foldl Endpoint.request { s.client with state := .kConnected } }
  | .serverReads n receiveTime => do
    let server ← s.server.reads pb (queryServer pb) (s.client.sent.take n) receiveTime
    pure { s with server := server,client := { s.client with sent := s.client.sent.drop n } }
  | .clientReads n receiveTime => do
    let client ← s.client.reads pb queryClient (s.server.sent.take n) receiveTime
    pure { s with client := client,server := { s.server with sent := s.server.sent.drop n } }
  | .clientReadsEnd => pure { s with client := s.client.close,quit := true }
  | .serverReadsEnd => pure { s with server := s.server.close }

/-- What the server answers to the client's message. -/
def replies (m : TidyMessage w fieldTag) : List (TidyMessage w fieldTag) :=
  match m.message.descriptor with
  | .query => [answer]
  | .answer | .empty => []

/-- The handler of the server that gets the client's message. -/
def serverHandlerOf (m : TidyMessage w fieldTag) : QueryHandler :=
  match m.message.descriptor with
  | .query => .onQuery
  | .answer => .onAnswer
  | .empty => .onUnknownMessage

def replyBytes : List UInt8 := ((replies messageToSend).map (frame pb)).flatten

/-- The client after k bytes of the reply. -/
def clientAfter (k : Nat) : Endpoint w fieldTag where
  state := .kConnected
  inputBuffer := if k < (replyBytes pb messageToSend).length then (replyBytes pb messageToSend).take k else []
  sent := []
  shutdownWrite := false
  handled := if k < (replyBytes pb messageToSend).length then [] else (replies messageToSend).map (.onAnswer,·)
  errors := []

/-- The server after the client's message, when k bytes of its reply have been read. -/
def serverAfter (k : Nat) : Endpoint w fieldTag where
  state := .kDisconnecting
  inputBuffer := []
  sent := (replyBytes pb messageToSend).drop k
  shutdownWrite := true
  handled := [(serverHandlerOf messageToSend,messageToSend)]
  errors := []

/-- The states of an exchange, with the number of steps that at most lead to them. -/
inductive Reached : Nat → Exchange w fieldTag → Prop where
  | start : Reached 0 start
  | asking (k : Nat) (hk : k < (frame pb messageToSend).length) : Reached (1+k)
      ⟨⟨.kConnected,[],(frame pb messageToSend).drop k,false,[],[]⟩,
        ⟨.kConnected,(frame pb messageToSend).take k,[],false,[],[]⟩,false⟩
  | answering (k : Nat) (hk : k ≤ (replyBytes pb messageToSend).length) : Reached (1+(frame pb messageToSend).length+k)
      ⟨clientAfter pb messageToSend k,serverAfter pb messageToSend k,false⟩
  | closed : Reached (1+(frame pb messageToSend).length+(replyBytes pb messageToSend).length+1)
      ⟨(clientAfter pb messageToSend (replyBytes pb messageToSend).length).close,
        serverAfter pb messageToSend (replyBytes pb messageToSend).length,true⟩
  | finished : Reached (1+(frame pb messageToSend).length+(replyBytes pb messageToSend).length+2)
      ⟨(clientAfter pb messageToSend (replyBytes pb messageToSend).length).close,
        (serverAfter pb messageToSend (replyBytes pb messageToSend).length).close,true⟩

variable {pb} {messageToSend}

/-- A frame that arrives in two parts: nothing after the first, the message after the second. -/
theorem onMessage_cut (hpb : pb.Lawful) {m : TidyMessage w fieldTag} (hm : Encodable pb m) {p ys : List UInt8}
    (hf : p ++ ys = frame pb m) (receiveTime : Int) : onMessage pb (fun _ buf => buf) receiveTime p =
      .ok (if ys = [] then ([.messageCallback m receiveTime],[]) else ([],p)) := by
  have hb : (frameDecoder pb).Frames (frame pb) [m] := fun b hb => by
    rw [List.mem_singleton.mp hb]
    exact frameHead_frame hpb hm
  rw [onMessage_eq]
  split
  · next hys =>
    have hp : p = ([m].map (frame pb)).flatten ++ [] := by
      rw [hys,List.append_nil] at hf
      simpa using hf
    rw [hp,Decoder.drain_frames hb (frameDecoder pb).nil_waits]
    rfl
  · next hys =>
    have hlt : p.length < (frame pb m).length := by
      rw [← hf,List.length_append]
      have hpos := List.length_pos_iff.mpr hys
      omega
    rw [Decoder.drain_wait (Decoder.partial_frame_waits (hb m (List.mem_singleton.mpr rfl)) hf hlt)]
    rfl

private theorem length_frame_le {m : TidyMessage w fieldTag} (hm : Encodable pb m) : (frame pb m).length ≤ 2^27 := by
  have hfits := hm.fits
  rw [frame,List.length_append,length_encodeInt32]
  unfold kMaxMessageLen at hfits
  omega

private theorem length_frame_pos (m : TidyMessage w fieldTag) : 0 < (frame pb m).length := by
  rw [frame,List.length_append,length_encodeInt32]
  omega

private theorem take_append_take_drop (xs : List UInt8) (k n : Nat) : xs.take k ++ (xs.drop k).take n = xs.take (k+n) := by
  rw [List.take_add]

private theorem drop_eq_nil {xs : List UInt8} {k n : Nat} (h : ¬ k+n < xs.length) : xs.drop (k+n) = [] :=
  List.drop_eq_nil_of_le (Nat.le_of_not_lt h)

private theorem drop_ne_nil {xs : List UInt8} {k n : Nat} (h : k+n < xs.length) : xs.drop (k+n) ≠ [] := by
  intro hnil
  rw [List.drop_eq_nil_iff] at hnil
  omega

private theorem serverDispatcher_eq (m : TidyMessage w fieldTag) :
    serverDispatcher.onProtobufMessage m.message.descriptor = .ok (serverHandlerOf m) := by
  unfold serverHandlerOf
  cases m.message.descriptor <;> rfl

private theorem codecSend_eq (hpb : pb.Lawful) {m : TidyMessage w fieldTag} (hm : Encodable pb m) :
    ∃ message : Tcp.Message, codecSend pb m = .ok [.send message] ∧ message.bytes = frame pb m := by
  have hlen : (frame pb m).length ≤ Tcp.maxSize := Nat.le_trans (length_frame_le hm) (by decide)
  refine ⟨⟨frame pb m,hlen⟩,?_,rfl⟩
  rw [codecSend,fillEmptyBuffer_eq hpb hm]
  exact dif_pos hlen

/-- What the server calls on its connection for the client's message: an answer if it is a query,
and the half-close. -/
theorem serverHandler_eq (hpb : pb.Lawful) (ha : Encodable pb answer) (m : TidyMessage w fieldTag)
    (handled : List (QueryHandler × TidyMessage w fieldTag)) :
    ∃ requests, serverHandler pb (serverHandlerOf m) = .ok requests ∧
      requests.foldl Endpoint.request ⟨.kConnected,[],[],false,handled,[]⟩ =
        ⟨.kDisconnecting,[],replyBytes pb m,true,handled,[]⟩ := by
  unfold serverHandlerOf replyBytes replies
  cases m.message.descriptor with
  | query =>
    obtain ⟨message,hsend,hbytes⟩ := codecSend_eq hpb ha
    refine ⟨[.send message,.shutdown],?_,?_⟩
    · dsimp only
      rw [serverHandler,hsend]
      rfl
    · rw [List.map_singleton,List.flatten_singleton,← hbytes]
      rfl
  | answer => exact ⟨[.shutdown],rfl,rfl⟩
  | empty => exact ⟨[.shutdown],rfl,rfl⟩

/-- The server reads the client's message in pieces. -/
theorem server_reads (hpb : pb.Lawful) (hm : Encodable pb messageToSend) (ha : Encodable pb answer) (k n : Nat)
    (receiveTime : Int) :
    Endpoint.reads pb (queryServer pb) ⟨.kConnected,(frame pb messageToSend).take k,[],false,[],[]⟩
      (((frame pb messageToSend).drop k).take n) receiveTime =
    .ok (if k+n < (frame pb messageToSend).length then ⟨.kConnected,(frame pb messageToSend).take (k+n),[],false,[],[]⟩
      else serverAfter pb messageToSend 0) := by
  rw [Endpoint.reads,QueryProgram.onBuffer,take_append_take_drop,onMessage_cut hpb hm (List.take_append_drop (k+n) _)]
  by_cases hlt : k+n < (frame pb messageToSend).length
  · rw [if_neg (drop_ne_nil hlt),if_pos hlt]
    rfl
  · rw [if_pos (drop_eq_nil hlt),if_neg hlt]
    obtain ⟨requests,hrequests,hcalls⟩ := serverHandler_eq hpb ha messageToSend [(serverHandlerOf messageToSend,messageToSend)]
    have hcallback : (queryServer pb).onCallback ⟨[],[],[]⟩ (.messageCallback messageToSend receiveTime) =
        .ok ⟨[(serverHandlerOf messageToSend,messageToSend)],[],requests⟩ := by
      rw [QueryProgram.onCallback,queryServer,serverDispatcher_eq]
      dsimp only
      change (serverHandler pb (serverHandlerOf messageToSend) >>= _) = _
      rw [hrequests]
      rfl
    change (((queryServer pb).onCallback ⟨[],[],[]⟩ (.messageCallback messageToSend receiveTime) >>= _) >>= _) >>= _ = _
    rw [hcallback]
    exact congrArg Except.ok hcalls

/-- The client reads the reply in pieces. -/
theorem client_reads (hpb : pb.Lawful) (ha : Encodable pb answer) {m : TidyMessage w fieldTag} {k n : Nat} (hn : 1 ≤ n)
    (hle : k+n ≤ (replyBytes pb m).length) (receiveTime : Int) :
    (clientAfter pb m k).reads pb queryClient
      (((replyBytes pb m).drop k).take n) receiveTime = .ok (clientAfter pb m (k+n)) := by
  have hreply : replies m = [answer] ∧ replyBytes pb m = frame pb answer := by
    unfold replyBytes
    unfold replyBytes at hle
    cases hr : replies m with
    | nil =>
      rw [hr] at hle
      simp at hle
      omega
    | cons m' ms =>
      have hone : m' = answer ∧ ms = [] := by
        unfold replies at hr
        split at hr
        · cases hr
          exact ⟨rfl,rfl⟩
        · cases hr
        · cases hr
      obtain ⟨rfl,rfl⟩ := hone
      simp
  have hk : k < (replyBytes pb m).length := by omega
  unfold clientAfter
  rw [if_pos hk,if_pos hk,Endpoint.reads,QueryProgram.onBuffer]
  dsimp only
  rw [take_append_take_drop,hreply.2,onMessage_cut hpb ha (List.take_append_drop (k+n) _)]
  by_cases hlt : k+n < (frame pb answer).length
  · rw [if_neg (drop_ne_nil hlt),if_pos hlt,if_pos hlt]
    rfl
  · rw [if_pos (drop_eq_nil hlt),if_neg hlt,if_neg hlt,hreply.1]
    rfl

private theorem replies_eq_nil (h : ¬ 0 < (replyBytes pb messageToSend).length) : replies messageToSend = [] := by
  cases hr : replies messageToSend with
  | nil => rfl
  | cons m ms =>
    have hpos : 0 < (frame pb m).length := length_frame_pos m
    rw [replyBytes,hr,List.map_cons,List.flatten_cons,List.length_append] at h
    omega

private theorem clientAfter_zero : clientAfter pb messageToSend 0 = ⟨.kConnected,[],[],false,[],[]⟩ := by
  unfold clientAfter
  by_cases hpos : 0 < (replyBytes pb messageToSend).length
  · rw [if_pos hpos,if_pos hpos]
    rfl
  · rw [if_neg hpos,if_neg hpos,replies_eq_nil hpos]
    rfl

/-- Whatever step comes next in s, it succeeds and the exchange moves on. -/
def MovesOn (pb : Runtime (TidyMessage w fieldTag) QueryClass) (messageToSend : TidyMessage w fieldTag) (n : Nat)
    (s : Exchange w fieldTag) : Prop :=
  ∀ a, s.Enabled a → ∃ t n', step pb messageToSend s a = .ok t ∧ n+1 ≤ n' ∧ Reached pb messageToSend n' t

private theorem start_movesOn (hpb : pb.Lawful) (hm : Encodable pb messageToSend) : MovesOn pb messageToSend 0 start := by
  intro a he
  cases a with
  | clientUp =>
    obtain ⟨message,hsend,hbytes⟩ := codecSend_eq hpb hm
    refine ⟨_,_,?_,?_,.asking 0 (length_frame_pos messageToSend)⟩
    · rw [step,hsend,List.drop_zero,List.take_zero,← hbytes]
      rfl
    · omega
  | serverReads n receiveTime =>
    have hle : n ≤ 0 := he.2.2
    exact absurd he.2.1 (by omega)
  | clientReads n receiveTime => rcases he.1 with h | h <;> cases h
  | clientReadsEnd => rcases he.1 with h | h <;> cases h
  | serverReadsEnd => cases he.2.2

private theorem asking_movesOn (hpb : pb.Lawful) (hm : Encodable pb messageToSend) (ha : Encodable pb answer) {k : Nat}
    (hk : k < (frame pb messageToSend).length) : MovesOn pb messageToSend (1+k)
      ⟨⟨.kConnected,[],(frame pb messageToSend).drop k,false,[],[]⟩,
        ⟨.kConnected,(frame pb messageToSend).take k,[],false,[],[]⟩,false⟩ := by
  intro a he
  cases a with
  | clientUp => cases he
  | serverReads n receiveTime =>
    have hpos : 1 ≤ n := he.2.1
    have hread := server_reads hpb hm ha k n receiveTime
    by_cases hlt : k+n < (frame pb messageToSend).length
    · refine ⟨_,_,?_,?_,.asking (k+n) hlt⟩
      · rw [if_pos hlt] at hread
        rw [step,hread,← List.drop_drop]
        rfl
      · omega
    · refine ⟨_,_,?_,?_,.answering 0 (Nat.zero_le _)⟩
      · rw [if_neg hlt] at hread
        rw [step,hread,clientAfter_zero,bind_ok,List.drop_drop,drop_eq_nil hlt]
        rfl
      · omega
  | clientReads n receiveTime =>
    have hle : n ≤ 0 := he.2.2
    exact absurd he.2.1 (by omega)
  | clientReadsEnd => cases he.2.2
  | serverReadsEnd => cases he.2.2

private theorem answering_movesOn (hpb : pb.Lawful) (ha : Encodable pb answer) {k : Nat}
    (hk : k ≤ (replyBytes pb messageToSend).length) : MovesOn pb messageToSend (1+(frame pb messageToSend).length+k)
      ⟨clientAfter pb messageToSend k,serverAfter pb messageToSend k,false⟩ := by
  intro a he
  cases a with
  | clientUp => cases he
  | serverReads n receiveTime =>
    have hle : n ≤ 0 := he.2.2
    exact absurd he.2.1 (by omega)
  | clientReads n receiveTime =>
    have hle : n ≤ ((replyBytes pb messageToSend).drop k).length := he.2.2
    rw [List.length_drop] at hle
    have hpos : 1 ≤ n := he.2.1
    refine ⟨_,_,?_,?_,.answering (k+n) (by omega)⟩
    · have hread := client_reads hpb ha (m := messageToSend) (k := k) hpos (by omega) receiveTime
      rw [step]
      dsimp only [serverAfter] at hread ⊢
      rw [hread,bind_ok,List.drop_drop]
      rfl
    · omega
  | clientReadsEnd =>
    have hnil : (replyBytes pb messageToSend).drop k = [] := he.2.1
    have hlen : k = (replyBytes pb messageToSend).length := by
      have hge := List.drop_eq_nil_iff.mp hnil
      omega
    subst hlen
    exact ⟨_,_,rfl,Nat.le_refl _,.closed⟩
  | serverReadsEnd => cases he.2.2

private theorem closed_movesOn : MovesOn pb messageToSend (1+(frame pb messageToSend).length+(replyBytes pb messageToSend).length+1)
    ⟨(clientAfter pb messageToSend (replyBytes pb messageToSend).length).close,
      serverAfter pb messageToSend (replyBytes pb messageToSend).length,true⟩ := by
  intro a he
  cases a with
  | clientUp => cases he
  | serverReads n receiveTime =>
    have hle : n ≤ 0 := he.2.2
    exact absurd he.2.1 (by omega)
  | clientReads n receiveTime => rcases he.1 with h | h <;> cases h
  | clientReadsEnd => rcases he.1 with h | h <;> cases h
  | serverReadsEnd => exact ⟨_,_,rfl,Nat.le_refl _,.finished⟩

/-- Each step of an exchange succeeds, and the exchange moves on. -/
theorem Reached.movesOn (hpb : pb.Lawful) (hm : Encodable pb messageToSend) (ha : Encodable pb answer) {n : Nat}
    {s : Exchange w fieldTag} (h : Reached pb messageToSend n s) : MovesOn pb messageToSend n s := by
  cases h with
  | start => exact start_movesOn hpb hm
  | asking k hk => exact asking_movesOn hpb hm ha hk
  | answering k hk => exact answering_movesOn hpb ha hk
  | closed => exact closed_movesOn
  | finished =>
    intro a he
    cases a with
    | clientUp => cases he
    | serverReads n receiveTime => rcases he.1 with h | h <;> cases h
    | clientReads n receiveTime => rcases he.1 with h | h <;> cases h
    | clientReadsEnd => rcases he.1 with h | h <;> cases h
    | serverReadsEnd => rcases he.1 with h | h <;> cases h

/-- An exchange that cannot move has ended. -/
theorem Reached.ended {n : Nat} {s : Exchange w fieldTag} (h : Reached pb messageToSend n s)
    (hstuck : ∀ a, ¬ s.Enabled a) : s.quit = true ∧ s.client.state = .kDisconnected ∧ s.server.state = .kDisconnected := by
  cases h with
  | start => exact (hstuck .clientUp rfl).elim
  | asking k hk =>
    refine (hstuck (.serverReads 1 0) ⟨.inl rfl,Nat.le_refl 1,?_⟩).elim
    dsimp only
    rw [List.length_drop]
    omega
  | answering k hk =>
    rcases Nat.lt_or_eq_of_le hk with hlt | rfl
    · refine (hstuck (.clientReads 1 0) ⟨.inl rfl,Nat.le_refl 1,?_⟩).elim
      dsimp only [serverAfter]
      rw [List.length_drop]
      omega
    · exact (hstuck .clientReadsEnd ⟨.inl rfl,List.drop_length,rfl⟩).elim
  | closed => exact (hstuck .serverReadsEnd ⟨.inr rfl,rfl,rfl⟩).elim
  | finished => exact ⟨rfl,rfl,rfl⟩

/-- What the handlers have got so far, and all of it once the client has quit. -/
theorem Reached.handled {n : Nat} {s : Exchange w fieldTag} (h : Reached pb messageToSend n s) :
    n ≤ (frame pb messageToSend).length + (replyBytes pb messageToSend).length + 3 ∧
    s.client.errors = [] ∧ s.server.errors = [] ∧
    s.server.handled <+: [(serverHandlerOf messageToSend,messageToSend)] ∧
    s.client.handled <+: (replies messageToSend).map (.onAnswer,·) ∧
    (s.quit = true → s.server.handled = [(serverHandlerOf messageToSend,messageToSend)] ∧
      s.client.handled = (replies messageToSend).map (.onAnswer,·)) := by
  have hall : (clientAfter pb messageToSend (replyBytes pb messageToSend).length).handled =
      (replies messageToSend).map (.onAnswer,·) := if_neg (Nat.lt_irrefl _)
  cases h with
  | start => exact ⟨Nat.zero_le _,rfl,rfl,List.nil_prefix,List.nil_prefix,by rintro ⟨⟩⟩
  | asking k hk => exact ⟨by omega,rfl,rfl,List.nil_prefix,List.nil_prefix,by rintro ⟨⟩⟩
  | answering k hk =>
    refine ⟨by omega,rfl,rfl,List.prefix_rfl,?_,by rintro ⟨⟩⟩
    dsimp only [clientAfter]
    split
    · exact List.nil_prefix
    · exact List.prefix_rfl
  | closed =>
    refine ⟨by omega,rfl,rfl,List.prefix_rfl,?_,fun _ => ⟨rfl,hall⟩⟩
    exact ⟨[],(List.append_nil _).trans hall⟩
  | finished =>
    refine ⟨by omega,rfl,rfl,List.prefix_rfl,?_,fun _ => ⟨rfl,hall⟩⟩
    exact ⟨[],(List.append_nil _).trans hall⟩

/-- What a side has in its input and on the way to it is at most a frame. -/
theorem Reached.room (hm : Encodable pb messageToSend) (ha : Encodable pb answer) {n : Nat} {s : Exchange w fieldTag}
    (h : Reached pb messageToSend n s) : s.server.inputBuffer.length + s.client.sent.length ≤ 2^27 ∧
      s.client.inputBuffer.length + s.server.sent.length ≤ 2^27 := by
  have hframe := length_frame_le hm
  have hreply : (replyBytes pb messageToSend).length ≤ 2^27 := by
    unfold replyBytes replies
    cases messageToSend.message.descriptor with
    | query =>
      rw [List.map_singleton,List.flatten_singleton]
      exact length_frame_le ha
    | answer => exact Nat.zero_le _
    | empty => exact Nat.zero_le _
  have hclient (k : Nat) : (clientAfter pb messageToSend k).inputBuffer.length + ((replyBytes pb messageToSend).drop k).length ≤
      (replyBytes pb messageToSend).length := by
    dsimp only [clientAfter]
    rw [List.length_drop]
    split
    · rw [List.length_take]
      omega
    · exact Nat.le_trans (Nat.le_of_eq (Nat.zero_add _)) (Nat.sub_le _ _)
  cases h with
  | start => exact ⟨Nat.zero_le _,Nat.zero_le _⟩
  | asking k hk =>
    dsimp only
    rw [List.length_take,List.length_drop]
    exact ⟨by omega,Nat.zero_le _⟩
  | answering k hk => exact ⟨Nat.zero_le _,Nat.le_trans (hclient k) hreply⟩
  | closed => exact ⟨Nat.zero_le _,Nat.le_trans (hclient _) hreply⟩
  | finished => exact ⟨Nat.zero_le _,Nat.le_trans (hclient _) hreply⟩

end Exchange
end LearningMuduo.Protobuf
