import LearningMuduo.Library.Machine
import LearningMuduo.Reactor.Channel
import Mathlib.Algebra.Order.Ring.Int

/-! The connector: one attempt to connect after the other, with what it leaves in its loop,
the functors, the retry timers and the rest of the handler that is being run. -/
namespace LearningMuduo.Tcp
open Library Reactor

def kMaxRetryDelayMs : Nat := 30*1000
def kInitRetryDelayMs : Nat := 500

inductive States where
  | kDisconnected | kConnecting | kConnected
  deriving DecidableEq, Repr

/-- What `errno` can be after `::connect`; `success` is the return value 0. -/
inductive ConnectErrno where
  | success | EINPROGRESS | EINTR | EISCONN
  | EAGAIN | EADDRINUSE | EADDRNOTAVAIL | ECONNREFUSED | ENETUNREACH
  | EACCES | EPERM | EAFNOSUPPORT | EALREADY | EBADF | EFAULT | ENOTSOCK
  | other (errno : Int)
  deriving DecidableEq, Repr

/-- A piece of the connector's code on the loop thread. A test of `connect_` ends a piece,
and what it decided is a piece of its own. `resetChannel` names the socket whose channel it
was queued for. -/
inductive ConnectorTask where
  | startInLoop | connect
  | stopInLoop
  | restart
  | handleWrite | handleError
  | connected | newConnection | closeUnwanted
  | retry (sockfd : Nat) | schedule (sockfd : Nat)
  | resetChannel (sockfd : Nat)
  deriving DecidableEq, Repr

inductive ConnectorAssert where
  | startInLoop | connecting | handleWrite
  | channelRemove | channelDestructor
  deriving DecidableEq, Repr

inductive ConnectorFault where
  | assertion (site : ConnectorAssert)
  | nullChannel
  deriving DecidableEq, Repr

/-- What the socket calls of one piece answer. -/
structure SocketAnswer where
  errno : ConnectErrno
  socketError : Int
  selfConnect : Bool
  deriving DecidableEq, Repr

/-- A socket is named by the number of sockets created before it. `pendingFunctors` are the
connector's own, `timers` the retry timers that have not fired, `todo` the rest of what the
loop thread is doing; `starting` and `stopping` count the calls of `start()` and `stop()` that
have set the flag and not yet queued their functor. `closed`, `handed` and `retries` record
every `close`, every socket given to `newConnectionCallback_` and every retry with its delay. -/
structure Connector where
  connect : Bool
  state : States
  sockfd : Nat
  channel : Option (Channel ConnectorTask)
  retryDelayMs : Nat
  pendingFunctors : List ConnectorTask
  timers : Nat
  todo : List ConnectorTask
  starting : Nat
  stopping : Nat
  created : Nat
  closed : List Nat
  handed : List Nat
  retries : List (Nat × Nat)
  deriving DecidableEq, Repr

namespace Connector

def new : Connector where
  connect := false
  state := .kDisconnected
  sockfd := 0
  channel := none
  retryDelayMs := kInitRetryDelayMs
  pendingFunctors := []
  timers := 0
  todo := []
  starting := 0
  stopping := 0
  created := 0
  closed := []
  handed := []
  retries := []

def queueInLoop (s : Connector) (f : ConnectorTask) : Connector :=
  { s with pendingFunctors := s.pendingFunctors ++ [f] }

/-- What the loop thread does next. -/
def next (s : Connector) (task : ConnectorTask) : Connector := { s with todo := task :: s.todo }

/-- `retry`, up to its test. -/
def retry (s : Connector) (sockfd : Nat) : Connector :=
  { s with closed := s.closed ++ [sockfd], state := .kDisconnected }.next (.retry sockfd)

def connecting (s : Connector) (sockfd : Nat) : Except ConnectorFault Connector := do
  let s := { s with state := .kConnecting }
  require (s.channel = none) (.assertion .connecting)
  let channel : Channel ConnectorTask :=
    { Channel.new sockfd with writeCallback := some .handleWrite, errorCallback := some .handleError }
  pure { s with channel := some (channel.setInterest .enableWriting) }

def connectSocket (s : Connector) (errno : ConnectErrno) : Except ConnectorFault Connector :=
  let s := { s with sockfd := s.created, created := s.created+1 }
  match errno with
  | .success | .EINPROGRESS | .EINTR | .EISCONN => s.connecting s.sockfd
  | .EAGAIN | .EADDRINUSE | .EADDRNOTAVAIL | .ECONNREFUSED | .ENETUNREACH => pure (s.retry s.sockfd)
  | .EACCES | .EPERM | .EAFNOSUPPORT | .EALREADY | .EBADF | .EFAULT | .ENOTSOCK
  | .other _ => pure { s with closed := s.closed ++ [s.sockfd] }

def removeAndResetChannel (s : Connector) : Except ConnectorFault Connector :=
  match s.channel with
  | none => .error .nullChannel
  | some channel => do
    let channel := channel.setInterest .disableAll
    require channel.isNoneEvent (.assertion .channelRemove)
    let channel := { channel with addedToLoop := false }
    pure ({ s with channel := some channel }.queueInLoop (.resetChannel channel.fd.toNat))

def startInLoop (s : Connector) : Except ConnectorFault Connector := do
  require (s.state = .kDisconnected) (.assertion .startInLoop)
  pure (if s.connect then s.next .connect else s)

def stopInLoop (s : Connector) : Except ConnectorFault Connector :=
  if s.state = .kConnecting then do
    let s ← { s with state := .kDisconnected }.removeAndResetChannel
    pure (s.retry s.sockfd)
  else
    pure s

def handleWrite (s : Connector) (answer : SocketAnswer) : Except ConnectorFault Connector :=
  if s.state = .kConnecting then do
    let s ← s.removeAndResetChannel
    if answer.socketError ≠ 0 then
      pure (s.retry s.sockfd)
    else if answer.selfConnect then
      pure (s.retry s.sockfd)
    else
      pure ({ s with state := .kConnected }.next .connected)
  else do
    require (s.state = .kDisconnected) (.assertion .handleWrite)
    pure s

def handleError (s : Connector) : Except ConnectorFault Connector :=
  if s.state = .kConnecting then do
    let s ← s.removeAndResetChannel
    pure (s.retry s.sockfd)
  else
    pure s

/-- The destructor of the channel asserts that it was removed from the loop. -/
def resetChannel (s : Connector) : Except ConnectorFault Connector := do
  require (∀ channel ∈ s.channel, channel.addedToLoop = false) (.assertion .channelDestructor)
  pure { s with channel := none }

/-- One piece, with the ones after it in `todo`. -/
def run (s : Connector) (answer : SocketAnswer) : ConnectorTask → Except ConnectorFault Connector
  | .startInLoop => s.startInLoop
  | .connect => s.connectSocket answer.errno
  | .stopInLoop => s.stopInLoop
  | .restart => pure ({ s with
      state := .kDisconnected
      retryDelayMs := kInitRetryDelayMs
      connect := true }.next .startInLoop)
  | .handleWrite => s.handleWrite answer
  | .handleError => s.handleError
  | .connected => pure (if s.connect then s.next .newConnection else s.next .closeUnwanted)
  | .newConnection => pure { s with handed := s.handed ++ [s.sockfd] }
  | .closeUnwanted => pure { s with closed := s.closed ++ [s.sockfd] }
  | .retry sockfd => pure (if s.connect then s.next (.schedule sockfd) else s)
  | .schedule sockfd => pure { s with
      timers := s.timers+1
      retries := s.retries ++ [(sockfd,s.retryDelayMs)]
      retryDelayMs := min (s.retryDelayMs*2) kMaxRetryDelayMs }
  | .resetChannel _ => s.resetChannel

/-- The two statements of `start()` and of `stop()`, from any thread; `start()` on the loop
thread, which runs `startInLoop` at once; `restart()`; and the events of the loop. -/
inductive ConnectorOp where
  | startFlag | startQueue
  | stopFlag | stopQueue
  | start
  | restart
  | fire
  | event (revents : Mask)
  | functor
  | resume (answer : SocketAnswer)
  deriving DecidableEq, Repr

/-- The channel is one the poller can report. -/
def Watched (s : Connector) : Prop := s.channel.map Channel.addedToLoop = some true

instance (s : Connector) : Decidable s.Watched := inferInstanceAs (Decidable (_ = _))

def step (s : Connector) : ConnectorOp → Except ConnectorFault Connector
  | .startFlag => pure { s with connect := true, starting := s.starting+1 }
  | .startQueue => pure ({ s with starting := s.starting-1 }.queueInLoop .startInLoop)
  | .stopFlag => pure { s with connect := false, stopping := s.stopping+1 }
  | .stopQueue => pure ({ s with stopping := s.stopping-1 }.queueInLoop .stopInLoop)
  | .start => pure ({ s with connect := true }.next .startInLoop)
  | .restart => pure (s.next .restart)
  | .fire => pure ({ s with timers := s.timers-1 }.next .startInLoop)
  | .event revents =>
    match s.channel with
    | none => .error .nullChannel
    | some channel =>
      let channel := { channel with revents := revents }
      pure { s with channel := some channel, todo := channel.handleEvent true }
  | .functor =>
    match s.pendingFunctors with
    | [] => pure s
    | f :: fs => pure ({ s with pendingFunctors := fs }.next f)
  | .resume answer =>
    match s.todo with
    | [] => pure s
    | task :: todo => { s with todo := todo }.run answer task

/-- The loop thread finishes one handler before the next. `restart()` is called for an
established connection. -/
def Enabled (s : Connector) : ConnectorOp → Prop
  | .startFlag | .stopFlag => True
  | .startQueue => 0 < s.starting
  | .stopQueue => 0 < s.stopping
  | .start => s.todo = []
  | .restart => s.todo = [] ∧ s.state = .kConnected
  | .fire => s.todo = [] ∧ 0 < s.timers
  | .event _ => s.todo = [] ∧ s.Watched
  | .functor => s.todo = [] ∧ s.pendingFunctors ≠ []
  | .resume _ => s.todo ≠ []

instance (s : Connector) : (op : ConnectorOp) → Decidable (s.Enabled op)
  | .startFlag | .stopFlag => isTrue trivial
  | .startQueue | .stopQueue => inferInstanceAs (Decidable (0 < _))
  | .start => inferInstanceAs (Decidable (_ = _))
  | .restart | .fire | .event _ | .functor => inferInstanceAs (Decidable (_ ∧ _))
  | .resume _ => inferInstanceAs (Decidable (_ ≠ _))

def machine : Machine Connector ConnectorOp ConnectorFault := ⟨Enabled,step⟩

instance (s : Connector) (op : ConnectorOp) : Decidable (machine.Enabled s op) :=
  inferInstanceAs (Decidable (s.Enabled op))

end Connector
end LearningMuduo.Tcp
