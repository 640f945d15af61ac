import LearningMuduo.Tcp.ConnectionLifetime
import LearningMuduo.Tcp.TcpServer

/-! The connections of a server up to and after its destruction. -/
namespace LearningMuduo.Tcp
open Library Reactor

/-- `closeCallback_` and `removeConnectionInLoop` are bound with the raw `this` of the server. -/
inductive ServerFault where
  | conn (fault : ConnFault)
  | destroyedServer
  deriving DecidableEq, Repr

/-- A server with every connection it has accepted. -/
structure Serving where
  server : TcpServer
  destroyed : Bool
  connections : List Lifetime

inductive ServerOp where
  | accept (sockfd : Int) (mark : Nat)
  | connection (i : Nat) (a : LifeStep)
  | destroy

namespace LifeStep

/-- The step runs `removeConnectionInLoop` on the server. -/
def onServer : LifeStep → Bool
  | .conn a => Lifetime.removes a
  | _ => false

/-- The only public call is `forceClose`. -/
def ForcesOnly : LifeStep → Prop
  | .conn (.call _ c) => c = .forceClose
  | _ => True

instance : DecidablePred ForcesOnly
  | .conn (.call _ _) => inferInstanceAs (Decidable (_ = _))
  | .connectEstablished | .take _ | .drop _ | .swap | .endBatch | .endRemovals | .conn (.resume ..)
  | .conn (.event _) | .conn (.functor _) | .conn (.handler ..) | .conn (.handleWrite _)
  | .conn .removeConnectionInLoop | .conn (.input _) | .conn (.setWriteCompleteCallback _)
  | .conn (.setHighWaterMarkCallback ..) => isTrue trivial

end LifeStep

/-- The map's `shared_ptr` is gone. -/
def Lifetime.released (l : Lifetime) : Lifetime := { l with session := { l.session with present := false } }

namespace Serving

def new (loop : Nat) (loops : List Nat) : Serving := ⟨.new loop loops,false,[]⟩

/-- `~TcpServer` has an empty body: `connections_` is destroyed with the other members. -/
def code (s : Serving) : ServerOp → Except ServerFault Serving
  | .accept sockfd mark => do
    let (server,session) := s.server.newConnection sockfd mark
    let l ← (Lifetime.start session).mapError .conn
    pure { s with server := server, connections := s.connections ++ [l] }
  | .connection i a => match s.connections[i]? with
    | none => pure s
    | some l => do
      let u ← (l.code a).mapError .conn
      require (s.destroyed = true → a.onServer = false ∧ u.session.closeCallbacks = l.session.closeCallbacks)
        .destroyedServer
      pure { s with connections := s.connections.set i u }
  | .destroy => pure { s with destroyed := true, connections := s.connections.map .released }

def Enabled (s : Serving) : ServerOp → Prop
  | .accept _ _ => s.destroyed = false
  | .connection i a => ∃ l ∈ s.connections[i]?, Lifetime.machine.Enabled l a ∧ a.ForcesOnly
  | .destroy => s.destroyed = false

def machine : Machine Serving ServerOp ServerFault := ⟨Enabled,code⟩

instance (s : Serving) : (op : ServerOp) → Decidable (machine.Enabled s op)
  | .accept _ _ | .destroy => inferInstanceAs (Decidable (_ = _))
  | .connection i a => inferInstanceAs (Decidable (∃ l ∈ s.connections[i]?, Lifetime.machine.Enabled l a ∧ a.ForcesOnly))

end Serving
end LearningMuduo.Tcp
