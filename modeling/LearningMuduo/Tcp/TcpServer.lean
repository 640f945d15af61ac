import LearningMuduo.Tcp.ConnectionRuns

/-! A server: its pool of I/O loops and what it does with an accepted socket. -/
namespace LearningMuduo.Tcp
open Library Reactor

/-- A loop is known by its thread. `loops_` and `next_` are those of the thread pool. -/
structure TcpServer where
  loop : Nat
  loops : List Nat
  next : Nat
  nextConnId : Nat
  writeCompleteCallback : UserCallback
  deriving DecidableEq, Repr

namespace TcpServer

def new (loop : Nat) (loops : List Nat) : TcpServer where
  loop := loop
  loops := loops
  next := 0
  nextConnId := 1
  writeCompleteCallback := none

def setWriteCompleteCallback (s : TcpServer) (cb : Nat) : TcpServer := { s with writeCompleteCallback := some cb }

/-- `EventLoopThreadPool::getNextLoop`, round robin. -/
def getNextLoop (s : TcpServer) : Nat × TcpServer :=
  match s.loops[s.next]? with
  | none => (s.loop,s)
  | some loop =>
    let next := s.next+1
    (loop,{ s with next := if next ≥ s.loops.length then 0 else next })

/-- `newConnection` up to `connectEstablished`. The connection gets the connection, message
and close callbacks; `writeCompleteCallback_` stays with the server. -/
def newConnection (s : TcpServer) (sockfd : Int) (highWaterMark : Nat) : TcpServer × Session :=
  let (ioLoop,s) := s.getNextLoop
  ({ s with nextConnId := s.nextConnId+1 },Session.new (.server (ioLoop = s.loop)) ioLoop sockfd highWaterMark)

end TcpServer
end LearningMuduo.Tcp
