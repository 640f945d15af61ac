import LearningMuduo.Tcp.ConnectionRuns

/-! A connection between two iterations of its loop, with nothing left to write: what the calls of
its user, a readable event and the end of the peer's stream make of it. -/
namespace LearningMuduo.Tcp
open Library Reactor

namespace Buffer
variable {b : Buffer}

/-- A read at most doubles what the vector has to hold. -/
theorem sizeAfterRead_le (h : b.WF) (bytes : List UInt8) :
    b.sizeAfterRead (.received bytes) ≤ max b.buffer.length (2*(b.readable.length+bytes.length)+kCheapPrepend) := by
  have hr := h.readableBytes_eq
  have hw := h.writableBytes_eq
  have h1 := h.reader_le
  have h2 := h.writer_le
  have h4 := h.size_le
  have hm : maxSize = 2^63-1 := rfl
  rw [h.length_readable]
  dsimp only [sizeAfterRead]
  split
  · exact Nat.le_max_left _ _
  · have hfull : ({ b with writerIndex := b.buffer.length } : Buffer).readableBytes = b.buffer.length-b.readerIndex :=
      wordSub_eq (by dsimp only; omega) (by dsimp only; omega)
    unfold sizeFor
    rw [hfull]
    dsimp only
    split
    · omega
    · exact Nat.le_max_left _ _

/-- A read into a buffer of bounded contents ends well. -/
theorem readFd_ok (h : b.WF) (bytes : List UInt8) (hb : bytes.length ≤ b.iovecBytes) (hsize : b.buffer.length ≤ 2^32)
    (hroom : b.readable.length+bytes.length ≤ 2^30) : ∃ c errno, b.readFd (.received bytes) = .ok (c,bytes.length,errno) ∧
      c.WF ∧ c.buffer.length ≤ 2^32 ∧ c.readable = b.readable ++ bytes := by
  have hle := sizeAfterRead_le h bytes
  have hk : kCheapPrepend = 8 := rfl
  have hm : 2^32 ≤ maxSize := by decide
  have hr : (ReadvResult.received bytes).count ≤ b.iovecBytes := Int.ofNat_le.mpr hb
  have hread := (readFd_spec h hr).and (readFd_size h hr)
  obtain ⟨⟨c,n,errno⟩,hok,⟨hkeeps,hn,hreadable⟩,hlen⟩ := hread.ok_of_no_error fun _ he => by
    have hgt : maxSize < b.sizeAfterRead (.received bytes) := he.2
    omega
  refine ⟨c,errno,hok.trans ?_,hkeeps.1,?_,hreadable⟩
  · rw [show n = bytes.length from hn]
  · have hlen' : c.buffer.length = b.sizeAfterRead (.received bytes) := hlen
    omega

end Buffer

namespace Session

/-- What the user of a connection and its peer get to see of it. -/
structure Seen where
  state : StateE
  input : List UInt8
  accepted : List UInt8
  shutdownWrites : Nat
  closeCallbacks : Nat
  downCallbacks : Nat

def seen (s : Session) : Seen where
  state := s.conn.state
  input := s.conn.inputBuffer.readable
  accepted := s.accepted
  shutdownWrites := s.shutdownWrites
  closeCallbacks := s.closeCallbacks
  downCallbacks := s.downCallbacks

/-- The channel waits for input only. -/
structure Reading (ch : Channel ConnHandler) : Prop where
  events : ch.events = kReadEvent
  index : ch.index = kAdded
  tied : ch.tied = false
  readCallback : ch.readCallback = some .handleRead

/-- An open connection between two iterations of its loop. No call is under way, nothing is queued,
and `write` has taken all that was sent. -/
structure Steady (s : Session) : Prop where
  isOpen : s.conn.isOpen
  shutdownWrites : s.shutdownWrites ≠ 0 ↔ s.conn.state = .kDisconnecting
  channel : Reading s.conn.channel
  written : s.conn.outputBuffer.readableBytes = 0
  writeCompleteCallback : s.conn.writeCompleteCallback = none
  input : s.conn.inputBuffer.WF
  size : s.conn.inputBuffer.buffer.length ≤ 2^32
  owner : s.owner ≠ .server false
  present : s.present = true
  ioQueue : s.ioQueue = []
  dispatching : s.dispatching = []
  calls : ∀ t, s.calls t = none
  closeCallbacks : s.closeCallbacks = 0
  downCallbacks : s.downCallbacks = 0

/-- A connection that has been closed and destroyed. -/
structure Gone (s : Session) : Prop where
  state : s.conn.state = .kDisconnected
  index : s.conn.channel.index = kNew
  closeCallbacks : s.closeCallbacks ≠ 0
  downCallbacks : s.downCallbacks ≠ 0

variable {s : Session}

private theorem Reading.not_writing {ch : Channel ConnHandler} (h : Reading ch) : ¬ ch.isWriting := by
  rw [Channel.isWriting,h.events]
  decide

/-- An established connection is steady. -/
theorem established_steady (owner : Owner) (ho : owner ≠ .server false) (loopThread : Nat) (sockfd : Int) (mark : Nat) :
    (established owner loopThread sockfd mark).Steady where
  isOpen := .inl rfl
  shutdownWrites := ⟨fun h => (h rfl).elim,nofun⟩
  channel := ⟨BitVec.zero_or,rfl,rfl,rfl⟩
  written := Buffer.initial_wf.readableBytes_eq
  writeCompleteCallback := rfl
  input := Buffer.initial_wf
  size := by
    change (List.replicate _ _).length ≤ _
    rw [List.length_replicate]
    decide
  owner := ho
  present := rfl
  ioQueue := rfl
  dispatching := rfl
  calls _ := rfl
  closeCallbacks := rfl
  downCallbacks := rfl

/-- `sendInLoop` when `write` takes the whole message. -/
theorem sendInLoop_whole (hw : ¬ s.conn.channel.isWriting) (he : s.conn.outputBuffer.readableBytes = 0)
    (hcb : s.conn.writeCompleteCallback = none) (t : Nat) (message : Message) :
    s.sendInLoop t message message.bytes.length = .ok ((s.started t message.bytes).accept message.bytes) := by
  have hdirect : (s.started t message.bytes).writeDirect message.bytes message.bytes.length =
      ((s.started t message.bytes).accept message.bytes,(message.bytes.length : Int),
        wordSub message.bytes.length message.bytes.length) := by
    unfold writeDirect
    have hnow : ¬ (s.started t message.bytes).conn.channel.isWriting ∧
      (s.started t message.bytes).conn.outputBuffer.readableBytes = 0 :=
      ⟨hw,he⟩
    rw [if_pos hnow,if_pos (Int.natCast_nonneg _)]
    dsimp only
    rw [Int.toNat_natCast,if_neg (Nat.lt_irrefl _),List.take_length]
    change (Session.notify _ _ s.conn.writeCompleteCallback,_,_) = _
    rw [hcb]
    rfl
  rw [sendInLoop,hdirect]
  dsimp only
  rw [require_pos (Int.natCast_nonneg _),bind_ok,Int.toNat_natCast,if_neg (Nat.lt_irrefl _)]
  rfl

private theorem calls_update {calls : Nat → Option CallPoint} (h : ∀ t, calls t = none) (t : Nat) (p : Option CallPoint) :
    ∀ v, Function.update (Function.update calls t p) t none v = none := by
  intro v
  rw [Function.update_idem,Function.update_apply]
  split
  · rfl
  · exact h v

private theorem Steady.traffic (h : s.Steady) (accepted : List UInt8) (sent executed : List (Nat × List UInt8))
    {calls : Nat → Option CallPoint} (hcalls : ∀ t, calls t = none) :
    Steady { s with accepted := accepted,sent := sent,executed := executed,calls := calls } :=
  { h with calls := hcalls }

/-- A send from the loop's thread, on a connection that is up. -/
theorem Steady.send (h : s.Steady) (hc : s.conn.state = .kConnected) (message : Message) : ∃ u,
    (s.call s.loopThread (.send message)).resume s.loopThread message.bytes.length = .ok u ∧ u.Steady ∧
      u.seen = { s.seen with accepted := s.accepted ++ message.bytes } := by
  have hpoint : ((s.setCall s.loopThread (some (.send message))).requested s.loopThread message.bytes).calls s.loopThread =
      some (.send message) := Function.update_self ..
  have hsend := sendInLoop_whole
    (s := ((s.setCall s.loopThread (some (.send message))).requested s.loopThread message.bytes).setCall s.loopThread none)
    h.channel.not_writing h.written h.writeCompleteCallback s.loopThread message
  refine ⟨_,Eq.trans ?_ hsend,h.traffic _ _ _ (calls_update h.calls _ _),rfl⟩
  rw [call,if_pos hc,if_pos rfl,resume,hpoint]

/-- A shutdown from the loop's thread, on a connection that is up. -/
theorem Steady.shutdown (h : s.Steady) (hc : s.conn.state = .kConnected) (n : Int) : ∃ u,
    (s.call s.loopThread .shutdown).resume s.loopThread n = .ok u ∧ u.Steady ∧
      u.seen = { s.seen with state := .kDisconnecting,shutdownWrites := s.shutdownWrites+1 } := by
  have hpoint : (s.setCall s.loopThread (some .shutdown)).calls s.loopThread = some .shutdown := Function.update_self ..
  refine ⟨{ ((s.setCall s.loopThread (some .shutdown)).setCall s.loopThread none).setState .kDisconnecting with
    shutdownWrites := s.shutdownWrites+1 },?_,?_,rfl⟩
  · rw [call,if_pos hc,resume,hpoint]
    have hidle : ¬ (((s.setCall s.loopThread (some .shutdown)).setCall s.loopThread none).setState
        .kDisconnecting).conn.channel.isWriting :=
      h.channel.not_writing
    dsimp only
    rw [if_pos (show s.loopThread = (s.setCall s.loopThread (some .shutdown)).loopThread from rfl),shutdownInLoop,if_pos hidle]
    rfl
  · exact { h with
      isOpen := .inr rfl
      shutdownWrites := ⟨fun _ => rfl,fun _ => Nat.succ_ne_zero _⟩
      calls := calls_update h.calls _ _ }

/-- On a connection that is half closed neither call does anything. -/
theorem Steady.refused (h : s.Steady) (hc : s.conn.state ≠ .kConnected) {c : Call} (hf : c ≠ .forceClose) (t : Nat) (n : Int) :
    (s.call t c).resume t n = .ok s := by
  have hcall : s.call t c = s := by
    cases c with
    | send message => exact if_neg hc
    | shutdown => exact if_neg hc
    | forceClose => exact (hf rfl).elim
  rw [hcall,resume,h.calls t]
  rfl

/-- The code takes n bytes off the input. -/
theorem Steady.retrieve (h : s.Steady) (len : Nat) (hl : len ≤ s.conn.inputBuffer.readable.length) : ∃ u,
    s.code (.input (.retrieve len)) = .ok u ∧ u.Steady ∧
      u.seen = { s.seen with input := s.conn.inputBuffer.readable.drop len } := by
  have he : (BufferOp.retrieve len).Enabled s.conn.inputBuffer := by
    rw [h.input.length_readable] at hl
    exact hl
  have hsize : (BufferOp.retrieve len).vectorSize s.conn.inputBuffer ≤ maxSize := h.input.size_le
  obtain ⟨⟨b,out⟩,hrun,hlen,hwf,hq,-⟩ := BufferOp.run_ok h.input he hsize
  have hread : b.readable = s.conn.inputBuffer.readable.drop len := congrArg Prod.fst hq
  refine ⟨s.setInput b,?_,{ h with input := hwf,size := ?_ },?_⟩
  · rw [code,hrun]
    rfl
  · exact Nat.le_trans (Nat.le_of_eq hlen) h.size
  · rw [← hread]
    rfl

/-- What `epoll_wait` reports of a channel that waits for input: bytes or an end, and that both
sides have been shut down. -/
def ReportsInput (revents : Mask) : Prop := revents = POLLIN ∨ revents = POLLIN ||| POLLHUP

instance (revents : Mask) : Decidable (ReportsInput revents) := inferInstanceAs (Decidable (_ ∨ _))

private theorem ReportsInput.flags {revents : Mask} (hr : ReportsInput revents) :
    ¬ (revents.Has POLLHUP ∧ ¬ revents.Has POLLIN) ∧ ¬ revents.Has (POLLERR ||| POLLNVAL) ∧
      revents.Has (POLLIN ||| POLLPRI ||| POLLRDHUP) ∧ ¬ revents.Has POLLOUT := by
  rcases hr with rfl | rfl <;> decide

private theorem Reading.handleEvent {ch : Channel ConnHandler} (hch : Reading ch) {revents : Mask} (hr : ReportsInput revents) :
    ({ ch with revents := revents } : Channel ConnHandler).handleEvent true = [.handleRead] := by
  obtain ⟨hclose,herror,hread,hwrite⟩ := hr.flags
  rw [Channel.handleEvent,if_neg (by simp [hch.tied]),Channel.handleEventWithGuard]
  dsimp only
  rw [if_neg hclose,if_neg herror,if_pos hread,if_neg hwrite,hch.readCallback]
  rfl

/-- A report of input runs `handleRead`. -/
theorem Steady.event_dispatching (h : s.Steady) {revents : Mask} (hr : ReportsInput revents) :
    (s.event revents).dispatching = [.handleRead] := h.channel.handleEvent hr

/-- What `epoll_wait` may report while a connection is steady. -/
theorem Steady.reports (h : s.Steady) {revents : Mask} (hr : ReportsInput revents) : s.Enabled (.event revents) := by
  refine ⟨h.calls _,h.dispatching,h.channel.index,?_⟩
  change revents &&& ~~~(s.conn.channel.events ||| POLLERR ||| POLLHUP) = 0
  rw [h.channel.events]
  rcases hr with rfl | rfl <;> decide

/-- The readable channel: its handler is `handleRead`, with the connection otherwise as it was. -/
theorem Steady.handler_eq (h : s.Steady) {revents : Mask} (hr : ReportsInput revents) (r : ReadvResult) (n : Int) : ∃ v : Session,
    v.Steady ∧ v.seen = s.seen ∧ v.conn.inputBuffer = s.conn.inputBuffer ∧
    (s.event revents).code (.handler r n) = v.handleRead r := by
  have hdispatch := h.event_dispatching hr
  refine ⟨{ s.event revents with dispatching := [] },?_,rfl,rfl,?_⟩
  · exact { h with
      channel := ⟨h.channel.events,h.channel.index,h.channel.tied,h.channel.readCallback⟩
      dispatching := rfl }
  · rw [code,hdispatch]
    rfl

/-- `handleRead` with bytes: they are behind the input. -/
theorem Steady.handleRead_received (h : s.Steady) {revents : Mask} (hr : ReportsInput revents) {bytes : List UInt8}
    (hne : bytes ≠ []) (hb : bytes.length ≤ s.conn.inputBuffer.iovecBytes)
    (hroom : s.conn.inputBuffer.readable.length+bytes.length ≤ 2^30) (n : Int) : ∃ u,
    (s.event revents).code (.handler (.received bytes) n) = .ok u ∧ u.Steady ∧
      u.seen = { s.seen with input := s.conn.inputBuffer.readable ++ bytes } := by
  obtain ⟨v,hv,hseen,hinput,hcode⟩ := h.handler_eq hr (.received bytes) n
  rw [← hinput] at hb hroom
  obtain ⟨b,errno,hread,hwf,hsize,hbytes⟩ := Buffer.readFd_ok hv.input bytes hb hv.size hroom
  have hcount : ¬ ((bytes.length : Int) = 0) := by
    have hpos := List.length_pos_iff.mpr hne
    omega
  refine ⟨v.setInput b,?_,{ hv with input := hwf,size := hsize },?_⟩
  · rw [hcode,handleRead,hread]
    exact if_neg hcount
  · rw [← hseen,← hinput,← hbytes]
    rfl

private theorem Steady.handleClose_eq (h : s.Steady) : s.handleClose = .ok s.closing.forgotten := by
  have hfail : ∀ e : ConnFault, ¬ (¬ s.conn.isOpen ∧ e = .handleClose ∨ s.owner ≠ .server false ∧ s.present = false ∧
      (e = .removeConnectionInLoop ∨ e = .removeConnection)) := by
    rintro e (⟨hopen,-⟩ | ⟨-,hgone,-⟩)
    · exact hopen h.isOpen
    · exact Bool.noConfusion (h.present.symm.trans hgone)
  obtain ⟨u,hu,-,⟨howner,-⟩ | ⟨-,-,rfl⟩⟩ := handleClose_spec.ok_of_no_error hfail
  · exact (h.owner howner).elim
  · exact hu

private theorem connectDestroyed_eq (ho : s.conn.isOpen) : s.connectDestroyed = .ok s.gone := by
  obtain ⟨u,hu,-,rfl⟩ := connectDestroyed_spec.ok_of_no_error fun e he => he.1 ho
  exact hu

/-- `handleRead` at the end of the stream: the connection is closed, and destroyed by the functor that
this queues. -/
theorem Steady.handleRead_end (h : s.Steady) {revents : Mask} (hr : ReportsInput revents)
    (hroom : s.conn.inputBuffer.readable.length ≤ 2^30) (n : Int) : ∃ u v : Session,
    (s.event revents).code (.handler (.received []) n) = .ok u ∧ u.ioQueue = [.connectDestroyed] ∧ u.code (.functor n) = .ok v ∧
      v.Gone ∧ v.seen = { s.seen with state := .kDisconnected,closeCallbacks := 1,downCallbacks := 1 } := by
  obtain ⟨w,hw,hseen,hinput,hcode⟩ := h.handler_eq hr (.received []) n
  rw [← hinput] at hroom
  obtain ⟨b,errno,hread,hwf,hsize,hbytes⟩ := Buffer.readFd_ok hw.input [] (Nat.zero_le _) hw.size hroom
  have hw' : (w.setInput b).Steady := { hw with input := hwf,size := hsize }
  have hqueue : (w.setInput b).closing.forgotten.ioQueue = [.connectDestroyed] := by
    change w.ioQueue ++ _ = _
    rw [hw.ioQueue]
    rfl
  refine ⟨_,{ (w.setInput b).closing.forgotten with ioQueue := [] }.gone,?_,hqueue,?_,?_,?_⟩
  · rw [hcode,handleRead,hread]
    exact hw'.handleClose_eq
  · rw [code,hqueue]
    exact connectDestroyed_eq hw'.isOpen
  · exact ⟨rfl,rfl,Nat.succ_ne_zero _,Nat.succ_ne_zero _⟩
  · have hclosed : (w.setInput b).closeCallbacks = 0 := hw.closeCallbacks
    have hdown : (w.setInput b).downCallbacks = 0 := hw.downCallbacks
    rw [List.append_nil] at hbytes
    rw [← hseen]
    change Seen.mk _ b.readable _ _ ((w.setInput b).closeCallbacks+1) ((w.setInput b).downCallbacks+1) = _
    rw [hclosed,hdown,hbytes]
    rfl

end Session
end LearningMuduo.Tcp
