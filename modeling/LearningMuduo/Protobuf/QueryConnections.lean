import LearningMuduo.Protobuf.QueryExchange
import LearningMuduo.Tcp.ConnectionLink
import LearningMuduo.Tcp.SteadyConnection

/-! The query client and the query server, each on its `TcpConnection`, one iteration of a loop after
the other. What they do to each other is the exchange of the two byte streams. -/
namespace LearningMuduo.Protobuf
open Library
variable {U : Type} {w : WireFormat U} {fieldTag : U → Nat}

/-- A program with its side of the connection, and as history the messages its handlers got and the
errors. -/
structure QueryPeer (w : WireFormat U) (fieldTag : U → Nat) where
  link : Tcp.LinkEnd
  handled : List (QueryHandler × TidyMessage w fieldTag)
  errors : List ErrorCode

namespace QueryPeer

/-- A step of x's connection; y is the other side. -/
def connection (y x : QueryPeer w fieldTag) (a : Tcp.ConnStep) : Except ExchangeFault (QueryPeer w fieldTag) := do
  let link ← (x.link.step y.link a).mapError .connection
  pure { x with link := link }

/-- A public call in the loop's thread, to its end; n is the answer of `write`. -/
def call (y x : QueryPeer w fieldTag) (c : Tcp.Call) (n : Int) : Except ExchangeFault (QueryPeer w fieldTag) := do
  let t := x.link.session.loopThread
  let x ← connection y x (.call t c)
  connection y x (.resume t n)

/-- What the program asks for. `write` takes all it is given. -/
def request (y x : QueryPeer w fieldTag) : Request → Except ExchangeFault (QueryPeer w fieldTag)
  | .send message => call y x (.send message) message.bytes.length
  | .shutdown => call y x .shutdown 0

section
variable (pb : Runtime (TidyMessage w fieldTag) QueryClass) (p : QueryProgram)

/-- `messageCallback_`: the codec on the input buffer. It takes a frame off behind its callback. -/
def messageCallback (y x : QueryPeer w fieldTag) (receiveTime : Int) : Except ExchangeFault (QueryPeer w fieldTag) := do
  let buf := x.link.session.conn.inputBuffer.readable
  let (r,rest) ← p.onBuffer pb receiveTime buf
  let x ← r.requests.foldlM (request y) { x with handled := x.handled ++ r.handled,errors := x.errors ++ r.errors }
  connection y x (.input (.retrieve (buf.length-rest.length)))

/-- An iteration of the loop for a readable connection: `readv` returns these bytes, and the functors
run that are queued by then. -/
def iterate (y x : QueryPeer w fieldTag) (revents : Reactor.Mask) (bytes : List UInt8) (receiveTime : Int) :
    Except ExchangeFault (QueryPeer w fieldTag) := do
  let x ← connection y x (.event revents)
  let x ← connection y x (.handler (.received bytes) 0)
  let x ← if bytes = [] then pure x else messageCallback pb p y x receiveTime
  x.link.session.ioQueue.foldlM (fun x _ => connection y x (.functor 0)) x

end

/-- `epoll_wait` reports input, and `readv` what the network has brought of it. -/
def Readable (y x : QueryPeer w fieldTag) (revents : Reactor.Mask) (bytes : List UInt8) : Prop :=
  x.link.session.Enabled (.event revents) ∧ Tcp.Session.ReportsInput revents ∧
    bytes.length ≤ x.link.session.conn.inputBuffer.iovecBytes ∧ x.link.Delivers y.link bytes

instance (y x : QueryPeer w fieldTag) (revents : Reactor.Mask) (bytes : List UInt8) : Decidable (Readable y x revents bytes) :=
  inferInstanceAs (Decidable (_ ∧ _ ∧ _ ∧ _))

/-- What the exchange shows of x. -/
def view (y x : QueryPeer w fieldTag) : Endpoint w fieldTag where
  state := x.link.session.conn.state
  inputBuffer := x.link.session.conn.inputBuffer.readable
  sent := y.link.inFlight x.link
  shutdownWrite := decide (x.link.session.shutdownWrites ≠ 0 ∨ x.link.session.closeCallbacks ≠ 0)
  handled := x.handled
  errors := x.errors

variable {pb : Runtime (TidyMessage w fieldTag) QueryClass} {p : QueryProgram} {x y : QueryPeer w fieldTag}

/-- The exchange shows of x what its connection shows, from where y has read. -/
private def shown (seen : Tcp.Session.Seen) (taken : Nat) (handled : List (QueryHandler × TidyMessage w fieldTag))
    (errors : List ErrorCode) : Endpoint w fieldTag :=
  ⟨seen.state,seen.input,seen.accepted.drop taken,decide (seen.shutdownWrites ≠ 0 ∨ seen.closeCallbacks ≠ 0),handled,errors⟩

private theorem view_eq : view y x = shown x.link.session.seen y.link.received.length x.handled x.errors := rfl

/-- A connection between two iterations, of which the other side has read the first bytes. -/
structure Steady (y x : QueryPeer w fieldTag) : Prop where
  session : x.link.session.Steady
  received : y.link.received <+: x.link.session.accepted

private theorem connection_ok {a : Tcp.ConnStep} {u : Tcp.Session} (y : QueryPeer w fieldTag) (h : x.link.session.code a = .ok u) :
    ∃ z, connection y x a = .ok z ∧ z.link.session = u ∧
      z.link.received = x.link.received ++ (x.link.session.readBy a).getD [] ∧ z.handled = x.handled ∧ z.errors = x.errors := by
  obtain ⟨link,hlink,hs,hr⟩ : ∃ link, x.link.step y.link a = .ok link ∧ link.session = u ∧
      link.received = x.link.received ++ (x.link.session.readBy a).getD [] := by
    rw [Tcp.LinkEnd.step,h]
    exact ⟨_,rfl,rfl,rfl⟩
  refine ⟨{ x with link := link },?_,hs,hr,rfl,rfl⟩
  rw [connection,hlink]
  rfl

private theorem call_ok (y : QueryPeer w fieldTag) {c : Tcp.Call} {n : Int} {u : Tcp.Session}
    (h : (x.link.session.call x.link.session.loopThread c).resume x.link.session.loopThread n = .ok u) :
    ∃ z, call y x c n = .ok z ∧ z.link.session = u ∧ z.link.received = x.link.received ∧ z.handled = x.handled ∧
      z.errors = x.errors := by
  obtain ⟨x',hcall,hs,hr,hh,he⟩ := connection_ok y (a := .call x.link.session.loopThread c) rfl
  rw [← hs] at h
  obtain ⟨z,hresume,hs',hr',hh',he'⟩ := connection_ok y (a := .resume x.link.session.loopThread n) h
  refine ⟨z,?_,hs',?_,hh'.trans hh,he'.trans he⟩
  · rw [call,hcall]
    exact hresume
  · rw [hr',hr]
    exact (List.append_nil _).trans (List.append_nil _)

/-- A call on the connection is one on the byte stream. -/
theorem request_ok (h : Steady y x) (r : Request) : ∃ z, request y x r = .ok z ∧ Steady y z ∧
    view y z = (view y x).request r ∧ z.link.received = x.link.received := by
  have hlen : y.link.received.length ≤ x.link.session.accepted.length := h.received.length_le
  by_cases hc : x.link.session.conn.state = .kConnected
  · have hup : (view y x).state = .kConnected := hc
    cases r with
    | send message =>
      obtain ⟨u,hu,hsteady,hseen⟩ := h.session.send hc message
      obtain ⟨z,hz,hs,hr,hh,he⟩ := call_ok y hu
      have haccepted : z.link.session.accepted = x.link.session.accepted ++ message.bytes := by
        rw [hs]
        exact congrArg Tcp.Session.Seen.accepted hseen
      refine ⟨z,hz,⟨hs ▸ hsteady,?_⟩,?_,hr⟩
      · rw [haccepted]
        exact h.received.trans (List.prefix_append _ _)
      · rw [view_eq,hs,hseen,hh,he,Endpoint.request,if_pos hup]
        unfold shown
        rw [List.drop_append_of_le_length hlen]
        rfl
    | shutdown =>
      obtain ⟨u,hu,hsteady,hseen⟩ := h.session.shutdown hc 0
      obtain ⟨z,hz,hs,hr,hh,he⟩ := call_ok y hu
      have haccepted : z.link.session.accepted = x.link.session.accepted := by
        rw [hs]
        exact congrArg Tcp.Session.Seen.accepted hseen
      refine ⟨z,hz,⟨hs ▸ hsteady,haccepted ▸ h.received⟩,?_,hr⟩
      rw [view_eq,hs,hseen,hh,he,Endpoint.request,if_pos hup]
      unfold shown
      rw [decide_eq_true (.inl (Nat.succ_ne_zero _))]
      rfl
  · have hview : (view y x).request r = view y x := by
      cases r <;> exact if_neg hc
    have hstay (c : Tcp.Call) (hf : c ≠ .forceClose) (n : Int) : ∃ z, call y x c n = .ok z ∧ Steady y z ∧
        view y z = (view y x).request r ∧ z.link.received = x.link.received := by
      obtain ⟨z,hz,hs,hr,hh,he⟩ := call_ok y (h.session.refused hc hf x.link.session.loopThread n)
      refine ⟨z,hz,⟨hs ▸ h.session,hs ▸ h.received⟩,?_,hr⟩
      rw [hview,view_eq,hs,hh,he]
      rfl
    cases r with
    | send message => exact hstay (.send message) (by rintro ⟨⟩) _
    | shutdown => exact hstay .shutdown (by rintro ⟨⟩) _

private theorem requests_ok (h : Steady y x) (rs : List Request) : ∃ z, rs.foldlM (request y) x = .ok z ∧ Steady y z ∧
    view y z = rs.foldl Endpoint.request (view y x) ∧ z.link.received = x.link.received := by
  induction rs generalizing x with
  | nil => exact ⟨x,rfl,h,rfl,rfl⟩
  | cons r rs ih =>
    obtain ⟨z,hz,hsteady,hview,hr⟩ := request_ok h r
    obtain ⟨z',hz',hsteady',hview',hr'⟩ := ih hsteady
    refine ⟨z',?_,hsteady',?_,hr'.trans hr⟩
    · rw [List.foldlM_cons,hz]
      exact hz'
    · rw [hview',hview]
      rfl

/-- The codec on the input buffer. -/
theorem messageCallback_ok (h : Steady y x) {receiveTime : Int} {r : Reaction w fieldTag} {rest : List UInt8}
    (hp : p.onBuffer pb receiveTime x.link.session.conn.inputBuffer.readable = .ok (r,rest)) :
    ∃ z, messageCallback pb p y x receiveTime = .ok z ∧ Steady y z ∧ view y z = (view y x).reacts r rest ∧
      z.link.received = x.link.received := by
  have hrest := List.suffix_iff_eq_drop.mp (QueryProgram.onBuffer_suffix hp)
  obtain ⟨x',hx',hsteady',hview',hr'⟩ :=
    requests_ok (x := { x with handled := x.handled ++ r.handled,errors := x.errors ++ r.errors }) ⟨h.session,h.received⟩ r.requests
  have hinput : x'.link.session.conn.inputBuffer.readable = x.link.session.conn.inputBuffer.readable := by
    have hsame := congrArg Endpoint.inputBuffer (Endpoint.requests_inputBuffer r.requests
      (view y { x with handled := x.handled ++ r.handled,errors := x.errors ++ r.errors }) x.link.session.conn.inputBuffer.readable)
    exact (congrArg Endpoint.inputBuffer hview').trans hsame
  obtain ⟨u,hu,hsteady,hseen⟩ := hsteady'.session.retrieve
    (x.link.session.conn.inputBuffer.readable.length-rest.length) (by rw [hinput]; exact Nat.sub_le _ _)
  obtain ⟨z,hz,hs,hr,hh,he⟩ := connection_ok y hu
  rw [hinput,← hrest] at hseen
  have haccepted : u.accepted = x'.link.session.accepted := congrArg Tcp.Session.Seen.accepted hseen
  refine ⟨z,?_,⟨hs ▸ hsteady,?_⟩,?_,?_⟩
  · rw [messageCallback,hp]
    dsimp only [bind_ok]
    rw [hx']
    exact hz
  · rw [hs,haccepted]
    exact hsteady'.received
  · rw [view_eq,hs,hseen,hh,he]
    change { view y x' with inputBuffer := rest } = _
    rw [hview',← Endpoint.requests_inputBuffer]
    rfl
  · rw [hr,hr']
    exact List.append_nil _

private theorem handleRead_ok (h : Steady y x) {revents : Reactor.Mask} (hr : Tcp.Session.ReportsInput revents)
    {bytes : List UInt8} {u : Tcp.Session} (hu : (x.link.session.event revents).code (.handler (.received bytes) 0) = .ok u) :
    ∃ z, (do
        let x ← connection y x (.event revents)
        connection y x (.handler (.received bytes) 0)) = .ok z ∧ z.link.session = u ∧
      z.link.received = x.link.received ++ bytes ∧ z.handled = x.handled ∧ z.errors = x.errors := by
  obtain ⟨x',hx',hs',hr',hh',he'⟩ := connection_ok y (a := .event revents) rfl
  rw [← hs'] at hu
  obtain ⟨z,hz,hs,hr'',hh,he⟩ := connection_ok y hu
  have hread : x'.link.session.readBy (.handler (.received bytes) 0) = some bytes := by
    rw [hs']
    exact if_pos (by rw [h.session.event_dispatching hr]; rfl)
  refine ⟨z,?_,hs,?_,hh.trans hh',he.trans he'⟩
  · rw [hx']
    exact hz
  · rw [hr'',hread,hr']
    exact congrArg (· ++ bytes) (List.append_nil _)

/-- An iteration that reads bytes: the program runs on them. -/
theorem iterate_received (h : Steady y x) {revents : Reactor.Mask} {bytes : List UInt8} (hr : Readable y x revents bytes)
    (hne : bytes ≠ []) (hroom : x.link.session.conn.inputBuffer.readable.length+bytes.length ≤ 2^30) {receiveTime : Int}
    {e : Endpoint w fieldTag} (he : (view y x).reads pb p bytes receiveTime = .ok e) :
    ∃ z, iterate pb p y x revents bytes receiveTime = .ok z ∧ Steady y z ∧ view y z = e ∧
      z.link.received = x.link.received ++ bytes := by
  obtain ⟨⟨r,rest⟩,hp,hpure⟩ := bind_eq_ok he
  cases hpure
  obtain ⟨u,hu,hsteady,hseen⟩ := h.session.handleRead_received hr.2.1 hne hr.2.2.1 hroom 0
  obtain ⟨x',hx',hs,hrec,hh,herr⟩ := handleRead_ok h hr.2.1 hu
  have haccepted : u.accepted = x.link.session.accepted := congrArg Tcp.Session.Seen.accepted hseen
  have hinput : x'.link.session.conn.inputBuffer.readable = x.link.session.conn.inputBuffer.readable ++ bytes := by
    rw [hs]
    exact congrArg Tcp.Session.Seen.input hseen
  have hview : view y x' = { view y x with inputBuffer := x.link.session.conn.inputBuffer.readable ++ bytes } := by
    rw [view_eq,hs,hseen,hh,herr]
    rfl
  have hsteady' : Steady y x' := ⟨hs ▸ hsteady,by rw [hs,haccepted]; exact h.received⟩
  obtain ⟨z,hz,hsz,hvz,hrz⟩ := messageCallback_ok hsteady' (hinput.symm ▸ hp)
  refine ⟨z,?_,hsz,?_,hrz.trans hrec⟩
  · obtain ⟨x₁,hx₁,hx₂⟩ := bind_eq_ok hx'
    rw [iterate,hx₁]
    dsimp only [bind_ok]
    rw [hx₂,bind_ok,if_neg hne,hz,bind_ok,hsz.session.ioQueue]
    rfl
  · rw [hvz,hview]
    rfl

/-- An iteration that reads the end of the stream: the connection is closed and destroyed. -/
theorem iterate_end (pb : Runtime (TidyMessage w fieldTag) QueryClass) (p : QueryProgram) (h : Steady y x)
    {revents : Reactor.Mask} (hr : Readable y x revents [])
    (hroom : x.link.session.conn.inputBuffer.readable.length ≤ 2^30) (receiveTime : Int) :
    ∃ z, iterate pb p y x revents [] receiveTime = .ok z ∧ z.link.session.Gone ∧ z.link.session.accepted = x.link.session.accepted ∧
      view y z = (view y x).close ∧ z.link.received = x.link.received := by
  obtain ⟨u,v,hu,hqueue,hv,hgone,hseen⟩ := h.session.handleRead_end hr.2.1 hroom 0
  obtain ⟨x',hx',hs,hrec,hh,herr⟩ := handleRead_ok h hr.2.1 hu
  rw [← hs] at hv hqueue
  obtain ⟨z,hz,hsz,hrz,hhz,hez⟩ := connection_ok y hv
  refine ⟨z,?_,hsz ▸ hgone,?_,?_,?_⟩
  · obtain ⟨x₁,hx₁,hx₂⟩ := bind_eq_ok hx'
    rw [iterate,hx₁]
    dsimp only [bind_ok]
    rw [hx₂,bind_ok,if_pos rfl,pure_bind,hqueue,List.foldlM_cons,hz]
    rfl
  · rw [hsz]
    exact congrArg Tcp.Session.Seen.accepted hseen
  · rw [view_eq,hsz,hseen,hhz,hh,hez,herr]
    unfold shown
    rw [decide_eq_true (.inr Nat.one_ne_zero)]
    rfl
  · rw [hrz,hrec]
    exact (List.append_nil _).trans (List.append_nil _)

/-- What arrives are the next bytes on their way. -/
theorem Readable.next {revents : Reactor.Mask} {bytes : List UInt8} (h : Readable y x revents bytes) :
    (view x y).sent.take bytes.length = bytes ∧ bytes.length ≤ (view x y).sent.length := by
  obtain ⟨rest,hrest⟩ := h.2.2.2.1
  have hsent : (view x y).sent = bytes ++ rest := by
    change y.link.session.accepted.drop x.link.received.length = _
    rw [← hrest,List.append_assoc,List.drop_left]
  rw [hsent,List.length_append]
  exact ⟨List.take_left,Nat.le_add_right _ _⟩

private theorem Readable.last {revents : Reactor.Mask} (h : Readable y x revents []) :
    (view x y).sent = [] ∧ (view x y).shutdownWrite = true := by
  obtain ⟨hall,hend⟩ := h.2.2.2.2 rfl
  refine ⟨?_,decide_eq_true hend⟩
  change y.link.session.accepted.drop x.link.received.length = _
  rw [hall]
  exact List.drop_length

/-- What is on its way to an open connection can be read, at least its first byte. -/
theorem readable_of_sent (h : Steady y x) (hr : x.link.received <+: y.link.session.accepted) (hpos : 1 ≤ (view x y).sent.length) :
    Readable y x Reactor.POLLIN ((view x y).sent.take 1) := by
  have hone : ((view x y).sent.take 1).length = 1 := by
    rw [List.length_take]
    omega
  have hroom : 1 ≤ x.link.session.conn.inputBuffer.iovecBytes := by
    unfold Tcp.Buffer.iovecBytes Tcp.extrabufSize
    split <;> omega
  obtain ⟨rest,hrest⟩ := hr
  have hsent : (view x y).sent = rest := by
    change y.link.session.accepted.drop x.link.received.length = _
    rw [← hrest,List.drop_left]
  refine ⟨h.session.reports (.inl rfl),.inl rfl,hone.trans_le hroom,?_,fun hnil => ?_⟩
  · rw [hsent,← hrest]
    exact (List.prefix_append_right_inj _).mpr (List.take_prefix 1 rest)
  · rw [hnil] at hone
    cases hone

private theorem readable_of_end (h : Steady y x) (hr : x.link.received <+: y.link.session.accepted) (hnil : (view x y).sent = [])
    (hend : (view x y).shutdownWrite = true) : Readable y x Reactor.POLLIN [] := by
  have hall : x.link.received = y.link.session.accepted :=
    hr.eq_of_length_le (List.drop_eq_nil_iff.mp hnil)
  refine ⟨h.session.reports (.inl rfl),.inl rfl,Nat.zero_le _,?_,fun _ => ⟨hall,of_decide_eq_true hend⟩⟩
  rw [List.append_nil]
  exact hr

private theorem view_of_received {z : QueryPeer w fieldTag} {bytes : List UInt8} (h : z.link.received = x.link.received ++ bytes) :
    view z y = { view x y with sent := (view x y).sent.drop bytes.length } := by
  rw [view_eq,h,List.length_append]
  unfold shown
  rw [← List.drop_drop]
  rfl

private theorem view_of_same {z : QueryPeer w fieldTag} (h : z.link.received = x.link.received) : view z y = view x y := by
  rw [view_eq,h]
  rfl

end QueryPeer

/-- The client and the server. -/
structure QueryLink (w : WireFormat U) (fieldTag : U → Nat) where
  client : QueryPeer w fieldTag
  server : QueryPeer w fieldTag

/-- The client's connection is established; a loop iterates for a readable connection. -/
inductive QueryStep where
  | clientUp
  | clientReads (revents : Reactor.Mask) (bytes : List UInt8) (receiveTime : Int)
  | serverReads (revents : Reactor.Mask) (bytes : List UInt8) (receiveTime : Int)

namespace QueryLink

/-- The server has accepted, and the client's `newConnection` is about to call `connectEstablished`. -/
def start (loopThread loopThread' : Nat) (sockfd sockfd' : Int) (mark mark' : Nat) : QueryLink w fieldTag where
  client := ⟨⟨.new .client loopThread sockfd mark,[],[],false⟩,[],[]⟩
  server := ⟨.established (.server true) loopThread' sockfd' mark',[],[]⟩

/-- `onConnection` of the client calls `loop_->quit()` when the connection is down. -/
def quit (s : QueryLink w fieldTag) : Prop := s.client.link.session.downCallbacks ≠ 0

instance (s : QueryLink w fieldTag) : Decidable s.quit := inferInstanceAs (Decidable (_ ≠ _))

def Enabled (s : QueryLink w fieldTag) : QueryStep → Prop
  | .clientUp => s.client.link.session.conn.state = .kConnecting
  | .clientReads revents bytes _ => QueryPeer.Readable s.server s.client revents bytes
  | .serverReads revents bytes _ => QueryPeer.Readable s.client s.server revents bytes

instance (s : QueryLink w fieldTag) : (a : QueryStep) → Decidable (s.Enabled a)
  | .clientUp => inferInstanceAs (Decidable (_ = _))
  | .clientReads .. | .serverReads .. => inferInstanceAs (Decidable (QueryPeer.Readable _ _ _ _))

variable (pb : Runtime (TidyMessage w fieldTag) QueryClass) (messageToSend : TidyMessage w fieldTag)

def step (s : QueryLink w fieldTag) : QueryStep → Except ExchangeFault (QueryLink w fieldTag)
  | .clientUp => do
    -- connectionCallback_ is onConnection, which sends the message
    let session ← s.client.link.session.connectEstablished.mapError .connection
    let requests ← codecSend pb messageToSend
    let client ← requests.foldlM (QueryPeer.request s.server) { s.client with link := { s.client.link with session := session } }
    pure { s with client := client }
  | .clientReads revents bytes receiveTime => do
    let client ← QueryPeer.iterate pb queryClient s.server s.client revents bytes receiveTime
    pure { s with client := client }
  | .serverReads revents bytes receiveTime => do
    let server ← QueryPeer.iterate pb (queryServer pb) s.client s.server revents bytes receiveTime
    pure { s with server := server }

def machine : Machine (QueryLink w fieldTag) QueryStep ExchangeFault := ⟨Enabled,step pb messageToSend⟩

instance (s : QueryLink w fieldTag) (a : QueryStep) : Decidable ((machine pb messageToSend).Enabled s a) :=
  inferInstanceAs (Decidable (s.Enabled a))

/-- The two byte streams. -/
def view (s : QueryLink w fieldTag) : Exchange w fieldTag where
  client := QueryPeer.view s.server s.client
  server := QueryPeer.view s.client s.server
  quit := decide s.quit

variable {pb} {messageToSend} {s : QueryLink w fieldTag}

/-- Each connection is open between two iterations or gone, or the client's is new; and each side has
read the first bytes of the other. -/
structure Sound (s : QueryLink w fieldTag) : Prop where
  client : s.client.link.session.Steady ∨ s.client.link.session.Gone ∨
    ∃ loopThread sockfd mark, s.client.link.session = .new .client loopThread sockfd mark
  server : s.server.link.session.Steady ∨ s.server.link.session.Gone
  toServer : s.server.link.received <+: s.client.link.session.accepted
  toClient : s.client.link.received <+: s.server.link.session.accepted

private theorem Sound.client_steady (h : Sound s) {revents : Reactor.Mask} (he : s.client.link.session.Enabled (.event revents)) :
    s.client.link.session.Steady := by
  have hindex : s.client.link.session.conn.channel.index = Reactor.kAdded := he.2.2.1
  rcases h.client with hsteady | hgone | ⟨_,_,_,hnew⟩
  · exact hsteady
  · rw [hgone.index] at hindex
    cases hindex
  · rw [hnew] at hindex
    cases hindex

private theorem Sound.server_steady (h : Sound s) {revents : Reactor.Mask} (he : s.server.link.session.Enabled (.event revents)) :
    s.server.link.session.Steady := by
  have hindex : s.server.link.session.conn.channel.index = Reactor.kAdded := he.2.2.1
  rcases h.server with hsteady | hgone
  · exact hsteady
  · rw [hgone.index] at hindex
    cases hindex

/-- There is room for all that is on its way. -/
private def Room (t : Exchange w fieldTag) : Prop :=
  t.server.inputBuffer.length + t.client.sent.length ≤ 2^27 ∧ t.client.inputBuffer.length + t.server.sent.length ≤ 2^27

private theorem view_mk {client server : QueryPeer w fieldTag} {e e' : Endpoint w fieldTag} {quit : Bool}
    (hc : QueryPeer.view server client = e) (hs : QueryPeer.view client server = e')
    (hq : decide (QueryLink.quit ⟨client,server⟩) = quit) : QueryLink.view ⟨client,server⟩ = ⟨e,e',quit⟩ := by
  subst hc hs hq
  rfl

private theorem steady_not_quit (h : s.client.link.session.Steady) : decide s.quit = false :=
  decide_eq_false (not_not_intro h.downCallbacks)

/-- A step of the programs is one of the exchange: if that succeeds, so does this. -/
private def Matched (pb : Runtime (TidyMessage w fieldTag) QueryClass) (messageToSend : TidyMessage w fieldTag)
    (s : QueryLink w fieldTag) (a : QueryStep) : Prop :=
  ∃ b, s.view.Enabled b ∧ ∀ t', Exchange.step pb messageToSend s.view b = .ok t' →
    ∃ t, step pb messageToSend s a = .ok t ∧ Sound t ∧ t.view = t'

private theorem clientUp_matched (h : Sound s) (he : s.client.link.session.conn.state = .kConnecting) :
    Matched pb messageToSend s .clientUp := by
  refine ⟨.clientUp,he,fun t' ht' => ?_⟩
  obtain ⟨requests,hsend,hpure⟩ := bind_eq_ok ht'
  cases hpure
  obtain ⟨loopThread,sockfd,mark,hnew⟩ : ∃ loopThread sockfd mark, s.client.link.session = .new .client loopThread sockfd mark := by
    rcases h.client with hsteady | hgone | hnew
    · rcases hsteady.isOpen with hopen | hopen
      all_goals
        rw [hopen] at he
        cases he
    · rw [hgone.state] at he
      cases he
    · exact hnew
  have hestablished : s.client.link.session.connectEstablished.mapError ExchangeFault.connection =
      .ok (.established .client loopThread sockfd mark) := by
    rw [hnew,Tcp.Session.connectEstablished_new]
    rfl
  have hsteady := Tcp.Session.established_steady .client nofun loopThread sockfd mark
  have hreceived : s.server.link.received <+: (Tcp.Session.established .client loopThread sockfd mark).accepted := by
    have hold := h.toServer
    rw [hnew] at hold
    exact hold
  obtain ⟨z,hz,hsz,hvz,hrz⟩ := QueryPeer.requests_ok (y := s.server)
    (x := { s.client with link := { s.client.link with session := .established .client loopThread sockfd mark } })
    ⟨hsteady,hreceived⟩ requests
  refine ⟨{ s with client := z },?_,⟨.inl hsz.session,h.server,hsz.received,hrz ▸ h.toClient⟩,?_⟩
  · rw [step,hestablished,bind_ok,hsend,bind_ok,hz]
    rfl
  · have hview : QueryPeer.view s.server
        { s.client with link := { s.client.link with session := .established .client loopThread sockfd mark } } =
        { s.view.client with state := .kConnected } := by
      have hclient : s.view.client = QueryPeer.shown (Tcp.Session.new .client loopThread sockfd mark).seen
          s.server.link.received.length s.client.handled s.client.errors := by
        rw [← hnew]
        rfl
      rw [QueryPeer.view_eq,hclient]
      rfl
    refine view_mk (hvz.trans (congrArg (requests.foldl Endpoint.request) hview)) (QueryPeer.view_of_same hrz) ?_
    have hbefore : s.view.quit = false := by
      change decide (s.client.link.session.downCallbacks ≠ 0) = false
      rw [hnew]
      rfl
    rw [hbefore]
    exact steady_not_quit (s := ⟨z,s.server⟩) hsz.session

private theorem clientReads_matched (h : Sound s) (hroom : Room s.view) {revents : Reactor.Mask} {bytes : List UInt8}
    (he : QueryPeer.Readable s.server s.client revents bytes) (receiveTime : Int) :
    Matched pb messageToSend s (.clientReads revents bytes receiveTime) := by
  have hsteady : QueryPeer.Steady s.server s.client := ⟨h.client_steady he.1,h.toServer⟩
  have hinput : s.client.link.session.conn.inputBuffer.readable.length + s.view.server.sent.length ≤ 2^27 := hroom.2
  by_cases hne : bytes = []
  · subst hne
    obtain ⟨z,hz,hgone,haccepted,hview,hrec⟩ := QueryPeer.iterate_end pb queryClient hsteady he (by omega) receiveTime
    refine ⟨.clientReadsEnd,⟨hsteady.session.isOpen,he.last⟩,fun t' ht' => ?_⟩
    cases ht'
    refine ⟨{ s with client := z },?_,⟨.inr (.inl hgone),h.server,haccepted ▸ h.toServer,hrec ▸ h.toClient⟩,?_⟩
    · rw [step,hz]
      rfl
    · exact view_mk hview (QueryPeer.view_of_same hrec) (decide_eq_true hgone.downCallbacks)
  · obtain ⟨htake,hle⟩ := he.next
    have hpos := List.length_pos_iff.mpr hne
    refine ⟨.clientReads bytes.length receiveTime,⟨hsteady.session.isOpen,hpos,hle⟩,fun t' ht' => ?_⟩
    obtain ⟨e,hreads,hpure⟩ := bind_eq_ok ht'
    cases hpure
    rw [show s.view.server.sent.take bytes.length = bytes from htake] at hreads
    obtain ⟨z,hz,hsz,hview,hrec⟩ := QueryPeer.iterate_received hsteady he hne (by
      have hle' : bytes.length ≤ s.view.server.sent.length := hle
      omega) hreads
    refine ⟨{ s with client := z },?_,⟨.inl hsz.session,h.server,hsz.received,?_⟩,?_⟩
    · rw [step,hz]
      rfl
    · rw [hrec]
      exact he.2.2.2.1
    · refine view_mk hview (QueryPeer.view_of_received hrec) ?_
      rw [show s.view.quit = false from steady_not_quit hsteady.session]
      exact steady_not_quit (s := ⟨z,s.server⟩) hsz.session

private theorem serverReads_matched (h : Sound s) (hroom : Room s.view) {revents : Reactor.Mask} {bytes : List UInt8}
    (he : QueryPeer.Readable s.client s.server revents bytes) (receiveTime : Int) :
    Matched pb messageToSend s (.serverReads revents bytes receiveTime) := by
  have hsteady : QueryPeer.Steady s.client s.server := ⟨h.server_steady he.1,h.toClient⟩
  have hinput : s.server.link.session.conn.inputBuffer.readable.length + s.view.client.sent.length ≤ 2^27 := hroom.1
  by_cases hne : bytes = []
  · subst hne
    obtain ⟨z,hz,hgone,haccepted,hview,hrec⟩ := QueryPeer.iterate_end pb (queryServer pb) hsteady he (by omega) receiveTime
    refine ⟨.serverReadsEnd,⟨hsteady.session.isOpen,he.last⟩,fun t' ht' => ?_⟩
    cases ht'
    refine ⟨{ s with server := z },?_,⟨h.client,.inr hgone,hrec ▸ h.toServer,haccepted ▸ h.toClient⟩,?_⟩
    · rw [step,hz]
      rfl
    · exact view_mk (QueryPeer.view_of_same hrec) hview rfl
  · obtain ⟨htake,hle⟩ := he.next
    have hpos := List.length_pos_iff.mpr hne
    refine ⟨.serverReads bytes.length receiveTime,⟨hsteady.session.isOpen,hpos,hle⟩,fun t' ht' => ?_⟩
    obtain ⟨e,hreads,hpure⟩ := bind_eq_ok ht'
    cases hpure
    rw [show s.view.client.sent.take bytes.length = bytes from htake] at hreads
    obtain ⟨z,hz,hsz,hview,hrec⟩ := QueryPeer.iterate_received hsteady he hne (by
      have hle' : bytes.length ≤ s.view.client.sent.length := hle
      omega) hreads
    refine ⟨{ s with server := z },?_,⟨h.client,.inl hsz.session,?_,hsz.received⟩,?_⟩
    · rw [step,hz]
      rfl
    · rw [hrec]
      exact he.2.2.2.1
    · exact view_mk (QueryPeer.view_of_received hrec) hview rfl

private theorem step_matched (h : Sound s) (hroom : Room s.view) {a : QueryStep} (he : s.Enabled a) :
    Matched pb messageToSend s a := by
  cases a with
  | clientUp => exact clientUp_matched h he
  | clientReads revents bytes receiveTime => exact clientReads_matched h hroom he receiveTime
  | serverReads revents bytes receiveTime => exact serverReads_matched h hroom he receiveTime

private theorem Sound.client_open (h : Sound s) (ho : s.client.link.session.conn.isOpen) : s.client.link.session.Steady := by
  rcases h.client with hsteady | hgone | ⟨_,_,_,hnew⟩
  · exact hsteady
  · rw [Tcp.TcpConnection.isOpen,hgone.state] at ho
    rcases ho with ho | ho <;> cases ho
  · rw [hnew] at ho
    rcases ho with ho | ho <;> cases ho

private theorem Sound.server_open (h : Sound s) (ho : s.server.link.session.conn.isOpen) : s.server.link.session.Steady := by
  rcases h.server with hsteady | hgone
  · exact hsteady
  · rw [Tcp.TcpConnection.isOpen,hgone.state] at ho
    rcases ho with ho | ho <;> cases ho

/-- Where the exchange can move, so can the programs. -/
theorem Sound.enabled (h : Sound s) {b : StreamStep} (hb : s.view.Enabled b) : ∃ a, s.Enabled a := by
  have hclient (ho) : QueryPeer.Steady s.server s.client := ⟨h.client_open ho,h.toServer⟩
  have hserver (ho) : QueryPeer.Steady s.client s.server := ⟨h.server_open ho,h.toClient⟩
  cases b with
  | clientUp => exact ⟨.clientUp,hb⟩
  | serverReads n receiveTime =>
    exact ⟨.serverReads _ _ receiveTime,QueryPeer.readable_of_sent (hserver hb.1) h.toServer (Nat.le_trans hb.2.1 hb.2.2)⟩
  | clientReads n receiveTime =>
    exact ⟨.clientReads _ _ receiveTime,QueryPeer.readable_of_sent (hclient hb.1) h.toClient (Nat.le_trans hb.2.1 hb.2.2)⟩
  | clientReadsEnd => exact ⟨.clientReads _ _ 0,QueryPeer.readable_of_end (hclient hb.1) h.toClient hb.2.1 hb.2.2⟩
  | serverReadsEnd => exact ⟨.serverReads _ _ 0,QueryPeer.readable_of_end (hserver hb.1) h.toServer hb.2.1 hb.2.2⟩

private theorem start_sound (loopThread loopThread' : Nat) (sockfd sockfd' : Int) (mark mark' : Nat) :
    Sound (start loopThread loopThread' sockfd sockfd' mark mark' : QueryLink w fieldTag) where
  client := .inr (.inr ⟨loopThread,sockfd,mark,rfl⟩)
  server := .inl (Tcp.Session.established_steady (.server true) nofun loopThread' sockfd' mark')
  toServer := List.nil_prefix
  toClient := List.nil_prefix

private theorem start_view (loopThread loopThread' : Nat) (sockfd sockfd' : Int) (mark mark' : Nat) :
    (start loopThread loopThread' sockfd sockfd' mark mark' : QueryLink w fieldTag).view = Exchange.start := by
  have hempty : Tcp.Buffer.initial.readable = [] := Library.slice_self ..
  have hclient : (start loopThread loopThread' sockfd sockfd' mark mark' : QueryLink w fieldTag).view =
      ⟨⟨.kConnecting,Tcp.Buffer.initial.readable,[],false,[],[]⟩,
        ⟨.kConnected,Tcp.Buffer.initial.readable,[],false,[],[]⟩,false⟩ := rfl
  rw [hclient,hempty]
  rfl

/-- The message of `client.cc`: 1, "Chen Shuo", "Running?". -/
private def running : PlainMessage where
  message := .query ⟨some 1,some [67,104,101,110,32,83,104,117,111],[[82,117,110,110,105,110,103,63]],[]⟩
  tidy u := u.elim0

private def cutTwice : List QueryStep :=
  [.clientUp,.serverReads Reactor.POLLIN ((frame plainRuntime running).take 5) 1,
    .serverReads Reactor.POLLIN ((frame plainRuntime running).drop 5) 2,
    .clientReads Reactor.POLLIN ((frame plainRuntime answer).take 17) 3,
    .clientReads Reactor.POLLIN ((frame plainRuntime answer).drop 17) 4,.clientReads Reactor.POLLIN [] 5,
    .serverReads (Reactor.POLLIN ||| Reactor.POLLHUP) [] 6]

end QueryLink
end LearningMuduo.Protobuf
