import LearningMuduo.Tcp.ConnectorSockets

/-! The client: its own `connect_` flag over the connector's, and the connection that is
removed and, if wanted, replaced. -/
namespace LearningMuduo.Tcp
open Library Reactor

/-- `connection` is the socket of `connection_`. `connecting` and `stopping` count the calls of
`connect()` and `stop()` that have set the client's flag and not yet reached the connector. -/
structure TcpClient where
  connector : Connector
  connect : Bool
  retry : Bool
  connection : Option Nat
  connecting : Nat
  stopping : Nat
  deriving DecidableEq, Repr

namespace TcpClient

def new : TcpClient := ⟨.new,true,false,none,0,0⟩

/-- The statements of `connect()` (`connectFlag`, then `connectStart`, or `connectHere` on the
loop thread), of `stop()` (`stopFlag`, `stopConnector`), of `disconnect()` and of
`enableRetry()`; the end of the connection; and the steps of the connector, among them the
functors that `connect()` and `stop()` queue last. -/
inductive ClientOp where
  | connectFlag | connectStart | connectHere
  | stopFlag | stopConnector
  | disconnect | enableRetry
  | removeConnection
  | loop (op : Connector.ConnectorOp)
  deriving DecidableEq, Repr

/-- The steps the connector takes by itself. -/
def OwnStep : Connector.ConnectorOp → Prop
  | .startQueue | .stopQueue | .fire | .event _ | .functor | .resume _ => True
  | .startFlag | .stopFlag | .start | .restart => False

instance : DecidablePred OwnStep
  | .startQueue | .stopQueue | .fire | .event _ | .functor | .resume _ => isTrue trivial
  | .startFlag | .stopFlag | .start | .restart => isFalse id

/-- `newConnection` for a socket that the connector has handed over. -/
def newConnection (c : TcpClient) (connector : Connector) : TcpClient :=
  { c with
    connector := connector
    connection := if connector.handed.length = c.connector.handed.length then c.connection
      else connector.handed.getLast? }

/-- The test of `retry_` and `connect_` decides whether the connector is restarted. -/
def removeConnection (c : TcpClient) : Except ConnectorFault TcpClient :=
  let c := { c with connection := none }
  if c.retry && c.connect then do
    let connector ← c.connector.step .restart
    pure { c with connector := connector }
  else
    pure c

def step (c : TcpClient) : ClientOp → Except ConnectorFault TcpClient
  | .connectFlag => pure { c with connect := true, connecting := c.connecting+1 }
  | .connectStart => do
    let connector ← c.connector.step .startFlag
    pure { c with connecting := c.connecting-1, connector := connector }
  | .connectHere => do
    let connector ← c.connector.step .start
    pure { c with connecting := c.connecting-1, connector := connector }
  | .stopFlag => pure { c with connect := false, stopping := c.stopping+1 }
  | .stopConnector => do
    let connector ← c.connector.step .stopFlag
    pure { c with stopping := c.stopping-1, connector := connector }
  | .disconnect => pure { c with connect := false }
  | .enableRetry => pure { c with retry := true }
  | .removeConnection => c.removeConnection
  | .loop op => do
    let connector ← c.connector.step op
    pure (c.newConnection connector)

def Enabled (c : TcpClient) : ClientOp → Prop
  | .connectFlag | .stopFlag | .disconnect | .enableRetry => True
  | .connectStart => 0 < c.connecting
  | .connectHere => 0 < c.connecting ∧ c.connector.todo = []
  | .stopConnector => 0 < c.stopping
  | .removeConnection => c.connector.todo = [] ∧ c.connection ≠ none
  | .loop op => OwnStep op ∧ c.connector.Enabled op

instance (c : TcpClient) : (op : ClientOp) → Decidable (c.Enabled op)
  | .connectFlag | .stopFlag | .disconnect | .enableRetry => isTrue trivial
  | .connectStart | .stopConnector => inferInstanceAs (Decidable (0 < _))
  | .connectHere | .removeConnection => inferInstanceAs (Decidable (_ ∧ _))
  | .loop _ => inferInstanceAs (Decidable (_ ∧ _))

def machine : Machine TcpClient ClientOp ConnectorFault := ⟨Enabled,step⟩

instance (c : TcpClient) (op : ClientOp) : Decidable (machine.Enabled c op) :=
  inferInstanceAs (Decidable (c.Enabled op))

end TcpClient
end LearningMuduo.Tcp
