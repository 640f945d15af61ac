import LearningMuduo.Tcp.ConnectionLifetime
import LearningMuduo.Tcp.Connector
import LearningMuduo.Timers.TimerQueue

/-! One loop iterating `activeChannels_`, with the connections, connectors and timers whose
channels it polls. -/
namespace LearningMuduo.Tcp
open Library Reactor Timers

/-- A `Channel*`. A connector has a new channel for each attempt, named by its socket. -/
inductive ChannelRef where
  | wakeup | timerfd | acceptor
  | connection (i : Nat)
  | connector (j sockfd : Nat)
  deriving DecidableEq, Repr

/-- `removeChannel` is the assertion of `EventLoop::removeChannel`. `destroyed` and `dispatched`
are no assertions of the source: a channel is destroyed while the loop may still come to it, and
`handleEvent` is called on a channel that is not registered. -/
inductive IterationFault where
  | removeChannel
  | destroyed
  | dispatched
  | channelDestructor
  | useAfterFree
  | conn (fault : ConnFault)
  | connector (fault : ConnectorFault)
  | timer (fault : TimerFault)
  deriving DecidableEq, Repr

/-- `current` is `currentActiveChannel_`, `rest` the part of `activeChannels_` behind it with
what `poll` reported. `freed` are the connections whose destructor has run. -/
structure ActiveLoop where
  loopThread : Nat
  connections : List Lifetime
  freed : List Nat
  connectors : List Connector
  timerQueue : TimerQueue
  eventHandling : Bool
  activeChannels : List ChannelRef
  current : Option ChannelRef
  rest : List (ChannelRef × Mask)

/-- The loop's own steps; a new connection or connector; the last `shared_ptr` of a connection
gone; and the steps of the components. -/
inductive IterationStep where
  | poll (events : List (ChannelRef × Mask))
  | dispatch
  | endEvents
  | newConnection (owner : Owner) (sockfd : Int) (mark : Nat)
  | newConnector
  | destroyConnection (i : Nat)
  | connection (i : Nat) (a : LifeStep)
  | connector (j : Nat) (op : Connector.ConnectorOp)
  | timer (a : TimerStep)

/-- The step runs code of the connection. -/
def LifeStep.uses : LifeStep → Bool
  | .connectEstablished | .conn _ => true
  | _ => false

/-- The step runs `connectDestroyed`, which removes the channel. -/
def Lifetime.removesChannel (l : Lifetime) : LifeStep → Bool
  | .conn (.functor _) => l.session.ioQueue.head? = some .connectDestroyed
  | _ => false

namespace Connector

/-- The channel that `removeAndResetChannel` removes in the step. -/
def removesChannel (s : Connector) : ConnectorOp → Option Nat
  | .resume _ => if s.state = .kConnecting ∧ s.todo.head? ∈ [some .stopInLoop,some .handleWrite,some .handleError]
      then s.channel.map fun channel => channel.fd.toNat else none
  | _ => none

/-- The channel that `resetChannel` destroys in the step. -/
def destroysChannel (s : Connector) : ConnectorOp → Option Nat
  | .resume _ => match s.todo with
    | .resetChannel _ :: _ => s.channel.map fun channel => channel.fd.toNat
    | _ => none
  | _ => none

end Connector

namespace ActiveLoop

def new (loopThread : Nat) (clock : Int) : ActiveLoop :=
  ⟨loopThread,[],[],[],.new loopThread clock,false,[],none,[]⟩

/-- The channel is in the poller's table. -/
def Registered (s : ActiveLoop) : ChannelRef → Prop
  | .wakeup | .timerfd | .acceptor => True
  | .connection i => i ∉ s.freed ∧ ∃ l ∈ s.connections[i]?, l.session.conn.channel.index ≠ kNew
  | .connector j sockfd => ∃ c ∈ s.connectors[j]?, ∃ channel ∈ c.channel,
      channel.fd.toNat = sockfd ∧ channel.addedToLoop = true

instance (s : ActiveLoop) : DecidablePred s.Registered
  | .wakeup | .timerfd | .acceptor => isTrue trivial
  | .connection i => inferInstanceAs (Decidable (i ∉ s.freed ∧ ∃ l ∈ s.connections[i]?, l.session.conn.channel.index ≠ kNew))
  | .connector j sockfd => inferInstanceAs (Decidable (∃ c ∈ s.connectors[j]?, ∃ channel ∈ c.channel,
      channel.fd.toNat = sockfd ∧ channel.addedToLoop = true))

/-- What `EventLoop::removeChannel` asserts. -/
def MayRemove (s : ActiveLoop) (c : ChannelRef) : Prop :=
  s.eventHandling = true → s.current = some c ∨ c ∉ s.activeChannels

instance (s : ActiveLoop) (c : ChannelRef) : Decidable (s.MayRemove c) := inferInstanceAs (Decidable (_ → _))

def setConnection (s : ActiveLoop) (i : Nat) (l : Lifetime) : ActiveLoop := { s with connections := s.connections.set i l }

def setConnector (s : ActiveLoop) (j : Nat) (c : Connector) : ActiveLoop := { s with connectors := s.connectors.set j c }

/-- `handleEvent` of the channel. -/
def handleEvent (s : ActiveLoop) (c : ChannelRef) (revents : Mask) : Except IterationFault ActiveLoop := do
  require (s.Registered c) .dispatched
  match c with
  | .wakeup | .timerfd | .acceptor => pure s
  | .connection i => match s.connections[i]? with
    | none => pure s
    | some l => pure (s.setConnection i { l with session := l.session.event revents })
  | .connector j _ => match s.connectors[j]? with
    | none => pure s
    | some c => do
      let c ← (c.step (.event revents)).mapError .connector
      pure (s.setConnector j c)

/-- `~TcpConnection`, with `~Channel` and its assertions. -/
def destroyConnection (s : ActiveLoop) (i : Nat) : Except IterationFault ActiveLoop :=
  match s.connections[i]? with
  | none => pure s
  | some l => do
    require (l.session.conn.channel.addedToLoop = false ∧ l.session.dispatching = []) .channelDestructor
    require (s.MayRemove (.connection i)) .destroyed
    pure { s with freed := i :: s.freed }

def code (s : ActiveLoop) : IterationStep → Except IterationFault ActiveLoop
  | .poll events => pure { s with eventHandling := true, activeChannels := events.map Prod.fst, current := none, rest := events }
  | .dispatch => match s.rest with
    | [] => pure s
    | (c,revents) :: rest => { s with current := some c, rest := rest }.handleEvent c revents
  | .endEvents => pure { s with eventHandling := false, current := none }
  | .newConnection owner sockfd mark => do
    let l ← (Lifetime.start (.new owner s.loopThread sockfd mark)).mapError .conn
    pure { s with connections := s.connections ++ [l] }
  | .newConnector => pure { s with connectors := s.connectors ++ [.new] }
  | .destroyConnection i => s.destroyConnection i
  | .connection i a => match s.connections[i]? with
    | none => pure s
    | some l => do
      require (a.uses = true → i ∉ s.freed) .useAfterFree
      require (l.removesChannel a = true → s.MayRemove (.connection i)) .removeChannel
      let l ← (l.code a).mapError .conn
      pure (s.setConnection i l)
  | .connector j op => match s.connectors[j]? with
    | none => pure s
    | some c => do
      require (∀ k ∈ c.removesChannel op, s.MayRemove (.connector j k)) .removeChannel
      require (∀ k ∈ c.destroysChannel op, s.MayRemove (.connector j k)) .destroyed
      let c ← (c.step op).mapError .connector
      pure (s.setConnector j c)
  | .timer a => do
    let timerQueue ← (s.timerQueue.code a).mapError .timer
    pure { s with timerQueue := timerQueue }

/-- The loop thread has returned from everything it called. -/
def Finished (s : ActiveLoop) : Prop :=
  (∀ l ∈ s.connections, l.session.dispatching = [] ∧ l.session.LoopFree) ∧ (∀ c ∈ s.connectors, c.todo = []) ∧
    s.timerQueue.phase = .idle

/-- What `poll` can report. -/
def Reports (s : ActiveLoop) (e : ChannelRef × Mask) : Prop :=
  s.Registered e.1 ∧ match e.1 with
    | .connection i => ∃ l ∈ s.connections[i]?, l.session.conn.channel.index = kAdded ∧ l.session.Reports e.2
    | _ => True

/-- An event comes through `dispatch` only; the functors run between the iterations. -/
def AllowsConnection (s : ActiveLoop) : LifeStep → Prop
  | .conn (.event _) => False
  | .connectEstablished | .swap | .endBatch | .conn (.functor _) => s.eventHandling = false
  | _ => True

/-- The same, and the retry timers fire in the handler of the timerfd. -/
def AllowsConnector (s : ActiveLoop) : Connector.ConnectorOp → Prop
  | .event _ => False
  | .functor => s.eventHandling = false
  | .fire => s.current = some .timerfd
  | _ => True

def AllowsTimer (s : ActiveLoop) : TimerStep → Prop
  | .runFunctor => s.eventHandling = false
  | .handleRead _ => s.current = some .timerfd
  | _ => True

/-- User code may call what it likes in every state. -/
def Enabled (s : ActiveLoop) : IterationStep → Prop
  | .poll events => s.eventHandling = false ∧ s.Finished ∧ (∀ l ∈ s.connections, l.running = false) ∧
      (events.map Prod.fst).Nodup ∧ ∀ e ∈ events, s.Reports e
  | .dispatch => s.eventHandling = true ∧ s.rest ≠ [] ∧ s.Finished
  | .endEvents => s.eventHandling = true ∧ s.rest = [] ∧ s.Finished
  | .newConnection _ _ _ | .newConnector => True
  | .destroyConnection i => i ∉ s.freed ∧ ∃ l ∈ s.connections[i]?, ¬ l.Alive
  | .connection i a => s.AllowsConnection a ∧ ∃ l ∈ s.connections[i]?, Lifetime.machine.Enabled l a
  | .connector j op => s.AllowsConnector op ∧ ∃ c ∈ s.connectors[j]?, c.Enabled op
  | .timer a => s.AllowsTimer a ∧ s.timerQueue.Enabled a

def machine : Machine ActiveLoop IterationStep IterationFault := ⟨Enabled,code⟩

instance (s : ActiveLoop) : Decidable s.Finished := inferInstanceAs (Decidable (_ ∧ _ ∧ _))

instance (s : ActiveLoop) : DecidablePred s.Reports
  | (.connection i,revents) => inferInstanceAs (Decidable (s.Registered (.connection i) ∧
      ∃ l ∈ s.connections[i]?, l.session.conn.channel.index = kAdded ∧ l.session.Reports revents))
  | (.wakeup,_) | (.timerfd,_) | (.acceptor,_) | (.connector _ _,_) => inferInstanceAs (Decidable (s.Registered _ ∧ True))

instance (s : ActiveLoop) : DecidablePred s.AllowsConnection
  | .conn (.event _) => isFalse id
  | .connectEstablished | .swap | .endBatch | .conn (.functor _) => inferInstanceAs (Decidable (_ = _))
  | .take _ | .drop _ | .endRemovals | .conn (.call ..) | .conn (.resume ..) | .conn (.handler ..)
  | .conn (.handleWrite _) | .conn .removeConnectionInLoop | .conn (.input _) | .conn (.setWriteCompleteCallback _)
  | .conn (.setHighWaterMarkCallback ..) => isTrue trivial

instance (s : ActiveLoop) : DecidablePred s.AllowsConnector
  | .event _ => isFalse id
  | .functor | .fire => inferInstanceAs (Decidable (_ = _))
  | .startFlag | .startQueue | .stopFlag | .stopQueue | .start | .restart | .resume _ => isTrue trivial

instance (s : ActiveLoop) : DecidablePred s.AllowsTimer
  | .runFunctor | .handleRead _ => inferInstanceAs (Decidable (_ = _))
  | .addTimer .. | .returnId _ | .cancel .. | .runCallback | .endCalling | .tick _ => isTrue trivial

instance (s : ActiveLoop) : (a : IterationStep) → Decidable (machine.Enabled s a)
  | .poll events => inferInstanceAs (Decidable (s.eventHandling = false ∧ s.Finished ∧ (∀ l ∈ s.connections, l.running = false) ∧
      (events.map Prod.fst).Nodup ∧ ∀ e ∈ events, s.Reports e))
  | .dispatch | .endEvents => inferInstanceAs (Decidable (_ ∧ _ ∧ s.Finished))
  | .newConnection _ _ _ | .newConnector => isTrue trivial
  | .destroyConnection i => inferInstanceAs (Decidable (i ∉ s.freed ∧ ∃ l ∈ s.connections[i]?, ¬ l.Alive))
  | .connection i a => inferInstanceAs (Decidable (s.AllowsConnection a ∧ ∃ l ∈ s.connections[i]?, Lifetime.machine.Enabled l a))
  | .connector j op => inferInstanceAs (Decidable (s.AllowsConnector op ∧ ∃ c ∈ s.connectors[j]?, c.Enabled op))
  | .timer a => inferInstanceAs (Decidable (s.AllowsTimer a ∧ s.timerQueue.Enabled a))

end ActiveLoop
end LearningMuduo.Tcp
