import LearningMuduo.Reactor.EPollPoller
import LearningMuduo.Tcp.BufferQueue

/-! One TCP connection with what it talks to: its channel, the functors queued for
it, its owner and the bytes the kernel took. -/
namespace LearningMuduo.Tcp
open Library Reactor

inductive StateE where
  | kConnecting | kConnected | kDisconnecting | kDisconnected
  deriving DecidableEq, Repr

/-- The member functions a callback of the channel can be bound to. -/
inductive ConnHandler where
  | handleRead | handleWrite | handleClose | handleError
  deriving DecidableEq, Repr

/-- A `std::string`. -/
structure Message where
  bytes : List UInt8
  fits : bytes.length ≤ maxSize
  deriving DecidableEq, Repr

/-- A `std::function` of the user, known by a number, or an empty one. -/
abbrev UserCallback := Option Nat

/-- What is queued for the connection in its loop. `sendInLoop` remembers the thread
that called `send`; the two notifications are bound to the callback they call. -/
inductive ConnFunctor where
  | sendInLoop (t : Nat) (message : Message)
  | shutdownInLoop
  | forceCloseInLoop
  | connectDestroyed
  | writeComplete (cb : Nat)
  | highWaterMark (cb len : Nat)
  deriving DecidableEq, Repr

inductive ConnFault where
  | buffer (fault : BufferFault)
  | connectEstablished
  | handleClose
  | connectDestroyed
  | sendInLoop
  | channelRemove
  | removeConnectionInLoop
  | removeConnection
  deriving DecidableEq, Repr

/-- A server whose own loop is or is not the connection's, or a client. -/
inductive Owner where
  | server (sameLoop : Bool)
  | client
  deriving DecidableEq, Repr

structure TcpConnection where
  state : StateE
  channel : Channel ConnHandler
  inputBuffer : Buffer
  outputBuffer : Buffer
  writeCompleteCallback : UserCallback
  highWaterMarkCallback : UserCallback
  highWaterMark : Nat

/-- A public call, and where a thread inside it stands: behind the test of `state_`,
or about to push a functor. -/
inductive Call where
  | send (message : Message)
  | shutdown
  | forceClose
  deriving DecidableEq, Repr

inductive CallPoint where
  | send (message : Message)
  | shutdown
  | forceClose
  | queue (f : ConnFunctor)
  deriving DecidableEq, Repr

/-- `present` is the owner's entry for the connection, `removals` the number of
`removeConnectionInLoop` functors queued in the owner's loop, `dispatching` the
callbacks of the running `handleEvent` not yet called, `accepted` what `write` took.
The remaining fields are history: sends behind the test of `state_`, executed
`sendInLoop`s, and how often the named calls were made. -/
structure Session where
  conn : TcpConnection
  owner : Owner
  loopThread : Nat
  present : Bool
  ioQueue : List ConnFunctor
  removals : Nat
  dispatching : List ConnHandler
  calls : Nat → Option CallPoint
  accepted : List UInt8
  sent : List (Nat × List UInt8)
  executed : List (Nat × List UInt8)
  closeCallbacks : Nat
  destroyed : Nat
  downCallbacks : Nat
  shutdownWrites : Nat

namespace TcpConnection

/-- The constructor: it binds no write callback and leaves `highWaterMark_` as the
memory had it. -/
def new (sockfd : Int) (highWaterMark : Nat) : TcpConnection where
  state := .kConnecting
  channel := { Channel.new sockfd with
    readCallback := some .handleRead
    closeCallback := some .handleClose
    errorCallback := some .handleError }
  inputBuffer := Buffer.initial
  outputBuffer := Buffer.initial
  writeCompleteCallback := none
  highWaterMarkCallback := none
  highWaterMark := highWaterMark

/-- `connected` or half closed by this side: neither new nor destroyed. -/
def isOpen (c : TcpConnection) : Prop := c.state = .kConnected ∨ c.state = .kDisconnecting

instance (c : TcpConnection) : Decidable c.isOpen := inferInstanceAs (Decidable (_ ∨ _))

end TcpConnection

namespace Session

/-- The owner has stored the connection; nothing has run. -/
def new (owner : Owner) (loopThread : Nat) (sockfd : Int) (highWaterMark : Nat) : Session where
  conn := TcpConnection.new sockfd highWaterMark
  owner := owner
  loopThread := loopThread
  present := true
  ioQueue := []
  removals := 0
  dispatching := []
  calls := fun _ => none
  accepted := []
  sent := []
  executed := []
  closeCallbacks := 0
  destroyed := 0
  downCallbacks := 0
  shutdownWrites := 0

def setState (s : Session) (state : StateE) : Session := { s with conn := { s.conn with state := state } }

def setChannel (s : Session) (channel : Channel ConnHandler) : Session :=
  { s with conn := { s.conn with channel := channel } }

def setOutput (s : Session) (b : Buffer) : Session := { s with conn := { s.conn with outputBuffer := b } }

def setInput (s : Session) (b : Buffer) : Session := { s with conn := { s.conn with inputBuffer := b } }

/-- The channel's interest calls, as the poller answers them. -/
def interest (s : Session) (op : Interest) : Session :=
  s.setChannel (s.conn.channel.setInterest op).updated

def queueInLoop (s : Session) (f : ConnFunctor) : Session := { s with ioQueue := s.ioQueue ++ [f] }

/-- A callback of the user is queued if it is set, bound to its arguments by f. -/
def notify (s : Session) (f : Nat → ConnFunctor) : UserCallback → Session
  | none => s
  | some cb => s.queueInLoop (f cb)

/-- The kernel takes bytes. -/
def accept (s : Session) (bytes : List UInt8) : Session := { s with accepted := s.accepted ++ bytes }

/-- A `send` has passed its test of `state_`. -/
def requested (s : Session) (t : Nat) (message : List UInt8) : Session :=
  { s with sent := s.sent ++ [(t,message)] }

/-- A `sendInLoop` starts. -/
def started (s : Session) (t : Nat) (message : List UInt8) : Session :=
  { s with executed := s.executed ++ [(t,message)] }

/-- `connectionCallback_`, seen as whether the connection is down. -/
def connectionCallback (s : Session) : Session :=
  if s.conn.state = .kConnected then s else { s with downCallbacks := s.downCallbacks+1 }

def connectEstablished (s : Session) : Except ConnFault Session := do
  require (s.conn.state = .kConnecting) .connectEstablished
  pure ((s.setState .kConnected).interest .enableReading).connectionCallback

def shutdownInLoop (s : Session) : Session :=
  if ¬ s.conn.channel.isWriting then { s with shutdownWrites := s.shutdownWrites+1 } else s

/-- `TcpServer::removeConnectionInLoop`. -/
def removeConnectionInLoop (s : Session) : Except ConnFault Session := do
  require (s.present = true) .removeConnectionInLoop
  pure ({ s with present := false }.queueInLoop .connectDestroyed)

/-- `closeCallback_`: `TcpServer::removeConnection` or `TcpClient::removeConnection`. -/
def removeConnection (s : Session) : Except ConnFault Session :=
  match s.owner with
  | .server true => s.removeConnectionInLoop
  | .server false => pure { s with removals := s.removals+1 }
  | .client => do
    require (s.present = true) .removeConnection
    pure ({ s with present := false }.queueInLoop .connectDestroyed)

def handleClose (s : Session) : Except ConnFault Session := do
  require s.conn.isOpen .handleClose
  { s.interest .disableAll with closeCallbacks := s.closeCallbacks+1 }.removeConnection

/-- `handleError` only logs `SO_ERROR`; a message callback is user code of its own. -/
def handleRead (s : Session) (r : ReadvResult) : Except ConnFault Session := do
  let (b,n,_) ← (s.conn.inputBuffer.readFd r).mapError .buffer
  if n = 0 then (s.setInput b).handleClose else pure (s.setInput b)

/-- The drained branch of `handleWrite`. -/
def drained (s : Session) : Session :=
  let s := s.interest .disableWriting
  let s := s.notify .writeComplete s.conn.writeCompleteCallback
  if s.conn.state = .kDisconnecting then s.shutdownInLoop else s

/-- `n` is the answer of `write`. -/
def handleWrite (s : Session) (n : Int) : Except ConnFault Session :=
  if s.conn.channel.isWriting ∧ 0 < n then do
    let b ← (s.conn.outputBuffer.retrieve n.toNat).mapError .buffer
    let s := (s.accept (s.conn.outputBuffer.readable.take n.toNat)).setOutput b
    pure (if b.readableBytes = 0 then s.drained else s)
  else
    pure s

def connectDestroyed (s : Session) : Except ConnFault Session := do
  require s.conn.isOpen .connectDestroyed
  let s := ({ s with destroyed := s.destroyed+1 }.setState .kDisconnected).interest .disableAll
  let s := s.connectionCallback
  require (s.conn.channel.isNoneEvent ∧ s.conn.channel.index ≠ kNew) .channelRemove
  pure (s.setChannel s.conn.channel.removed)

/-- The direct `write` of `sendInLoop`, with `nwrote` and `remaining` as it leaves them. -/
def writeDirect (s : Session) (message : List UInt8) (n : Int) : Session × Int × Nat :=
  if ¬ s.conn.channel.isWriting ∧ s.conn.outputBuffer.readableBytes = 0 then
    if 0 ≤ n then
      let s := s.accept (message.take n.toNat)
      let remaining := wordSub message.length n.toNat
      if n.toNat < message.length then (s,n,remaining)
      else (s.notify .writeComplete s.conn.writeCompleteCallback,n,remaining)
    else (s,0,message.length)
  else (s,0,message.length)

/-- The buffered part of `sendInLoop`. -/
def bufferRest (s : Session) (message : List UInt8) (nwrote remaining : Nat) :
    Except ConnFault Session := do
  let oldLen := s.conn.outputBuffer.readableBytes
  let s := if s.conn.highWaterMark ≤ wordAdd oldLen remaining ∧ oldLen < s.conn.highWaterMark then
    s.notify (.highWaterMark · (wordAdd oldLen remaining)) s.conn.highWaterMarkCallback else s
  let b ← (s.conn.outputBuffer.append (message.drop nwrote)).mapError .buffer
  let s := s.setOutput b
  pure (if ¬ s.conn.channel.isWriting then s.interest .enableWriting else s)

def sendInLoop (s : Session) (t : Nat) (message : Message) (n : Int) : Except ConnFault Session := do
  let (s,nwrote,remaining) := (s.started t message.bytes).writeDirect message.bytes n
  require (0 ≤ nwrote) .sendInLoop
  if nwrote.toNat < message.bytes.length then s.bufferRest message.bytes nwrote.toNat remaining else pure s

def forceCloseInLoop (s : Session) : Except ConnFault Session :=
  if s.conn.isOpen then s.handleClose else pure s

def setCall (s : Session) (t : Nat) (p : Option CallPoint) : Session :=
  { s with calls := Function.update s.calls t p }

/-- The test of `state_` at the head of a public call, and the branch on the thread
in `send`. -/
def call (s : Session) (t : Nat) : Call → Session
  | .send message =>
    if s.conn.state = .kConnected then
      (s.setCall t (some (if t = s.loopThread then .send message
        else .queue (.sendInLoop t message)))).requested t message.bytes
    else s
  | .shutdown => if s.conn.state = .kConnected then s.setCall t (some .shutdown) else s
  | .forceClose => if s.conn.isOpen then s.setCall t (some .forceClose) else s

/-- The next step of a thread inside a public call. -/
def resume (s : Session) (t : Nat) (n : Int) : Except ConnFault Session :=
  match s.calls t with
  | none => pure s
  | some (.send message) => (s.setCall t none).sendInLoop t message n
  | some .shutdown =>
    if t = s.loopThread then pure ((s.setCall t none).setState .kDisconnecting).shutdownInLoop
    else pure ((s.setCall t (some (.queue .shutdownInLoop))).setState .kDisconnecting)
  | some .forceClose => pure ((s.setCall t (some (.queue .forceCloseInLoop))).setState .kDisconnecting)
  | some (.queue f) => pure ((s.setCall t none).queueInLoop f)

/-- One callback of the channel. -/
def runHandler (s : Session) (r : ReadvResult) (n : Int) : ConnHandler → Except ConnFault Session
  | .handleRead => s.handleRead r
  | .handleWrite => s.handleWrite n
  | .handleClose => s.handleClose
  | .handleError => pure s

/-- One functor of the loop. The notifications are user code. -/
def runFunctor (s : Session) (n : Int) : ConnFunctor → Except ConnFault Session
  | .sendInLoop t message => s.sendInLoop t message n
  | .shutdownInLoop => pure s.shutdownInLoop
  | .forceCloseInLoop => s.forceCloseInLoop
  | .connectDestroyed => s.connectDestroyed
  | .writeComplete _ | .highWaterMark .. => pure s

/-- The channel is active: its callbacks are about to run. -/
def event (s : Session) (revents : Mask) : Session :=
  let ch := { s.conn.channel with revents := revents }
  { s.setChannel ch with dispatching := ch.handleEvent true }

end Session
end LearningMuduo.Tcp
