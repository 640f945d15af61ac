import LearningMuduo.Library.Machine
import LearningMuduo.Library.Slots

/-! The acceptor of a server, in a process with a table of descriptors: each call of the
kernel is a step of its own, so that other threads come between. -/
namespace LearningMuduo.Tcp
open Library

/-- Who has a descriptor of the process: the acceptor, the event loop of a thread, or anyone else. -/
inductive Holder where
  | acceptor
  | loop (thread : Nat)
  | other
  deriving DecidableEq, Repr

inductive AcceptErrno where
  | EAGAIN | ECONNABORTED | EINTR | EPROTO | EPERM | EMFILE
  | EBADF | EFAULT | EINVAL | ENFILE | ENOBUFS | ENOMEM | ENOTSOCK | EOPNOTSUPP
  | other (errno : Int)
  deriving DecidableEq, Repr

/-- The errors that `sockets::accept` hands back; on the others it ends the process. -/
def AcceptErrno.Expected : AcceptErrno → Prop
  | .EAGAIN | .ECONNABORTED | .EINTR | .EPROTO | .EPERM | .EMFILE => True
  | .EBADF | .EFAULT | .EINVAL | .ENFILE | .ENOBUFS | .ENOMEM | .ENOTSOCK | .EOPNOTSUPP | .other _ => False

instance : DecidablePred AcceptErrno.Expected
  | .EAGAIN | .ECONNABORTED | .EINTR | .EPROTO | .EPERM | .EMFILE => isTrue trivial
  | .EBADF | .EFAULT | .EINVAL | .ENFILE | .ENOBUFS | .ENOMEM | .ENOTSOCK | .EOPNOTSUPP | .other _ => isFalse id

/-- What becomes of a client: it goes to `newConnectionCallback_` with its descriptor, its
connection is closed, or it has given up before. -/
inductive Fate where
  | connected (sockfd : Nat)
  | closed
  | aborted
  deriving DecidableEq, Repr

/-- The statements of `handleRead` after EMFILE. -/
inductive IdleCall where
  | closeIdle | accept | closeAccepted | openIdle
  deriving DecidableEq, Repr

inductive AcceptorFault where
  | createNonblockingOrDie
  | listenOrDie
  | fatal (errno : AcceptErrno)
  | closesForeign (fd : Nat)
  deriving DecidableEq, Repr

/-- `idleFd` is none for -1. `alive` until the destructor has run; `backlog` are the clients
that wait, `arrived` all that ever came, and `fates` those that were taken. -/
structure Acceptor where
  acceptSocket : Nat
  listenning : Bool
  newConnectionCallback : Bool
  idleFd : Option Nat
  todo : List IdleCall
  table : Slots Holder
  alive : Bool
  backlog : List Nat
  arrived : List Nat
  fates : List (Nat × Fate)
  deriving DecidableEq, Repr

namespace Acceptor

/-- `::open` of /dev/null, which also fails for other reasons than a full table. -/
def openIdle (s : Acceptor) (fails : Bool) : Acceptor :=
  match s.table.lowest with
  | none => { s with idleFd := none }
  | some fd => if fails then { s with idleFd := none } else { s with idleFd := some fd, table := s.table.set fd (some .acceptor) }

/-- The constructor in a process that has the given descriptors. -/
def new (table : Slots Holder) (fails : Bool) : Except AcceptorFault Acceptor :=
  match table.lowest with
  | none => .error .createNonblockingOrDie
  | some fd =>
    let s : Acceptor :=
      { acceptSocket := fd
        listenning := false
        newConnectionCallback := false
        idleFd := none
        todo := []
        table := table.set fd (some .acceptor)
        alive := true
        backlog := []
        arrived := []
        fates := [] }
    .ok (s.openIdle fails)

/-- `::accept`: a full table is found before a client is. Otherwise the kernel may refuse; with
ECONNABORTED the first client is gone. -/
def accept (s : Acceptor) (refusal : Option AcceptErrno) : Except AcceptErrno (Nat × Nat) × Acceptor :=
  match s.table.lowest with
  | none => (.error .EMFILE,s)
  | some fd =>
    match refusal,s.backlog with
    | some .ECONNABORTED,client :: rest =>
      (.error .ECONNABORTED,{ s with backlog := rest, fates := s.fates ++ [(client,.aborted)] })
    | some errno,_ => (.error errno,s)
    | none,[] => (.error .EAGAIN,s)
    | none,client :: rest => (.ok (fd,client),{ s with backlog := rest, table := s.table.set fd (some .acceptor) })

/-- `::close`, which may only be called for a descriptor that the acceptor has; -1 does nothing. -/
def close (s : Acceptor) : Option Nat → Except AcceptorFault Acceptor
  | none => pure s
  | some fd => do
    require (s.table.holder fd = some .acceptor) (.closesForeign fd)
    pure { s with table := s.table.set fd none }

/-- With `Socket::accept` and `sockets::accept`. -/
def handleRead (s : Acceptor) (refusal : Option AcceptErrno) : Except AcceptorFault Acceptor :=
  match s.accept refusal with
  | (.ok (connfd,client),s) =>
    if s.newConnectionCallback then
      pure { s with table := s.table.set connfd (some .other), fates := s.fates ++ [(client,.connected connfd)] }
    else do
      let s ← s.close (some connfd)
      pure { s with fates := s.fates ++ [(client,.closed)] }
  | (.error errno,s) => do
    require errno.Expected (.fatal errno)
    if errno = .EMFILE then
      pure { s with todo := [.closeIdle,.accept,.closeAccepted,.openIdle] }
    else
      pure s

/-- What the kernel answers to one of the calls after EMFILE. -/
structure IdleAnswer where
  refusal : Option AcceptErrno
  fails : Bool
  deriving DecidableEq, Repr

def run (s : Acceptor) (answer : IdleAnswer) : IdleCall → Except AcceptorFault Acceptor
  | .closeIdle => s.close s.idleFd
  | .accept =>
    match s.accept answer.refusal with
    | (.ok (fd,client),s) => pure { s with idleFd := some fd, fates := s.fates ++ [(client,.closed)] }
    | (.error _,s) => pure { s with idleFd := none }
  | .closeAccepted => s.close s.idleFd
  | .openIdle => pure (s.openIdle answer.fails)

/-- The destructor: `acceptSocket_` closes its descriptor, and nothing closes `idleFd_`. -/
def destroy (s : Acceptor) : Except AcceptorFault Acceptor := do
  let s ← s.close (some s.acceptSocket)
  pure { s with alive := false }

/-- `::listen` fails where its address is taken. -/
def listen (s : Acceptor) (fails : Bool) : Except AcceptorFault Acceptor := do
  let s := { s with listenning := true }
  require (fails = false) .listenOrDie
  pure s

/-- The calls of the loop thread, the clients that arrive, and what the rest of the process
does with its own descriptors. -/
inductive AcceptorOp where
  | setNewConnectionCallback
  | listen (fails : Bool)
  | handleRead (refusal : Option AcceptErrno)
  | resume (answer : IdleAnswer)
  | destroy
  | arrive (client : Nat)
  | otherOpen
  | otherClose (fd : Nat)
  deriving DecidableEq, Repr

def step (s : Acceptor) : AcceptorOp → Except AcceptorFault Acceptor
  | .setNewConnectionCallback => pure { s with newConnectionCallback := true }
  | .listen fails => s.listen fails
  | .handleRead refusal => s.handleRead refusal
  | .resume answer =>
    match s.todo with
    | [] => pure s
    | call :: todo => { s with todo := todo }.run answer call
  | .destroy => s.destroy
  | .arrive client => pure { s with backlog := s.backlog ++ [client], arrived := s.arrived ++ [client] }
  | .otherOpen =>
    match s.table.lowest with
    | none => pure s
    | some fd => pure { s with table := s.table.set fd (some .other) }
  | .otherClose fd => pure { s with table := s.table.set fd none }

/-- The next call on the descriptor in reserve. -/
theorem step_resume {s : Acceptor} {answer : IdleAnswer} {call : IdleCall} {todo : List IdleCall} (h : s.todo = call :: todo) :
    s.step (.resume answer) = { s with todo := todo }.run answer call := by
  unfold step
  rw [h]

/-- Another thread gets the lowest descriptor. -/
theorem step_otherOpen {s : Acceptor} {fd : Nat} (h : s.table.lowest = some fd) :
    s.step .otherOpen = .ok { s with table := s.table.set fd (some .other) } := by
  unfold step
  rw [h]
  rfl

/-- The loop thread finishes `handleRead` before the next event, and the channel reports only
while the acceptor listens. The kernel says EMFILE when the table is full. -/
def Enabled (s : Acceptor) : AcceptorOp → Prop
  | .setNewConnectionCallback | .listen _ | .destroy => s.alive ∧ s.todo = []
  | .handleRead refusal => s.alive ∧ s.todo = [] ∧ s.listenning ∧ refusal ≠ some .EMFILE
  | .resume answer => s.todo ≠ [] ∧ answer.refusal ≠ some .EMFILE
  | .arrive _ => s.alive ∧ s.listenning
  | .otherOpen => s.table.lowest ≠ none
  | .otherClose fd => s.table.holder fd = some .other

instance (s : Acceptor) : (op : AcceptorOp) → Decidable (s.Enabled op)
  | .setNewConnectionCallback | .listen _ | .destroy | .handleRead _ | .resume _ | .arrive _ => inferInstanceAs (Decidable (_ ∧ _))
  | .otherOpen => inferInstanceAs (Decidable (_ ≠ _))
  | .otherClose _ => inferInstanceAs (Decidable (_ = _))

def machine : Machine Acceptor AcceptorOp AcceptorFault := ⟨Enabled,step⟩

instance (s : Acceptor) (op : AcceptorOp) : Decidable (machine.Enabled s op) :=
  inferInstanceAs (Decidable (s.Enabled op))

end Acceptor
end LearningMuduo.Tcp
