import LearningMuduo.Tcp.ConnectionRuns

/-! The `shared_ptr`s to one connection: who holds one, and what the batches of
`doPendingFunctors` do with those bound into functors. -/
namespace LearningMuduo.Tcp
open Library Reactor

/-- Whether the functor was bound with a `shared_ptr` or with the raw `this`. -/
def ConnFunctor.holdsShared : ConnFunctor → Bool
  | .forceCloseInLoop | .connectDestroyed | .writeComplete _ | .highWaterMark .. => true
  | .sendInLoop .. | .shutdownInLoop => false

/-- The functor that runs `connectEstablished`: pending, in the running batch, or run. -/
inductive Establishing where
  | pending | taken | done
  deriving DecidableEq, Repr

/-- `running` says that a batch of the connection's loop is running, `rest` how many functors
at the head of `ioQueue` belong to it. `kept` and `removalsKept` are the functors with a
`shared_ptr` that the running batches of the two loops have run and not yet destroyed, as whether
there are any. `holders` are the threads that hold a `shared_ptr` of their own. -/
structure Lifetime where
  session : Session
  establishing : Establishing
  running : Bool
  rest : Nat
  kept : Bool
  removalsKept : Bool
  holders : List Nat

/-- `take` copies a `shared_ptr` that exists, `drop` destroys the copy. -/
inductive LifeStep where
  | connectEstablished
  | take (t : Nat)
  | drop (t : Nat)
  | swap
  | endBatch
  | endRemovals
  | conn (a : ConnStep)

namespace Lifetime

/-- The end of `newConnection`: `connectEstablished` runs at once in the thread that accepts,
and else is queued. -/
def start (s : Session) : Except ConnFault Lifetime :=
  if s.owner = .server false then .ok ⟨s,.pending,false,0,false,false,[]⟩
  else (fun s => ⟨s,.done,false,0,false,false,[]⟩) <$> s.connectEstablished

/-- The connection as the owner's `newConnection` leaves it. -/
def new (owner : Owner) (loopThread : Nat) (sockfd : Int) (mark : Nat) : Lifetime :=
  if owner = .server false then ⟨.new owner loopThread sockfd mark,.pending,false,0,false,false,[]⟩
  else ⟨.established owner loopThread sockfd mark,.done,false,0,false,false,[]⟩

/-- The life of a connection begins with its constructor. -/
theorem start_new (owner : Owner) (loopThread : Nat) (sockfd : Int) (mark : Nat) :
    start (.new owner loopThread sockfd mark) = .ok (new owner loopThread sockfd mark) := by
  rw [start,new,Session.connectEstablished_new]
  change (if owner = _ then _ else _) = _
  split
  · rfl
  · rfl

/-- The functors pushed since the last swap. -/
def pendingFunctors (l : Lifetime) : List ConnFunctor := l.session.ioQueue.drop l.rest

/-- The functors of the running batch that have not run. -/
def batch (l : Lifetime) : List ConnFunctor := l.session.ioQueue.take l.rest

/-- Some `shared_ptr` exists: in the owner's map, in a functor of either loop, or in a thread. -/
def Alive (l : Lifetime) : Prop :=
  l.session.present = true ∨ l.session.removals ≠ 0 ∨ l.removalsKept = true ∨ l.establishing ≠ .done ∨
    (∃ f ∈ l.session.ioQueue, f.holdsShared = true) ∨ l.kept = true ∨ l.holders ≠ []

instance (l : Lifetime) : Decidable l.Alive := inferInstanceAs (Decidable (_ ∨ _ ∨ _ ∨ _ ∨ _ ∨ _ ∨ _))

def removes : ConnStep → Bool
  | .removeConnectionInLoop => true
  | _ => false

def code (l : Lifetime) : LifeStep → Except ConnFault Lifetime
  | .connectEstablished => do
    let s ← l.session.connectEstablished
    pure { l with session := s, establishing := .done, kept := true }
  | .take t => pure { l with holders := t :: l.holders }
  | .drop t => pure { l with holders := l.holders.erase t }
  | .swap => pure { l with
      running := true
      rest := l.session.ioQueue.length
      establishing := if l.establishing = .pending then .taken else l.establishing }
  | .endBatch => pure { l with running := false, kept := false }
  | .endRemovals => pure { l with removalsKept := false }
  | .conn (.functor n) => do
    let s ← l.session.code (.functor n)
    pure { l with
      session := s
      rest := l.rest-1
      kept := l.kept || l.batch.head?.any ConnFunctor.holdsShared }
  | .conn a => do
    let s ← l.session.code a
    pure { l with session := s, removalsKept := l.removalsKept || removes a }

/-- Who calls the connection holds a `shared_ptr`, until the call is over. Events are handled
between the batches. -/
def Enabled (l : Lifetime) : LifeStep → Prop
  | .connectEstablished => l.establishing = .taken ∧ l.session.LoopFree
  | .take _ => l.Alive
  | .drop t => t ∈ l.holders ∧ l.session.calls t = none
  | .swap => l.running = false ∧ l.session.LoopFree ∧ l.session.dispatching = []
  | .endBatch => l.running = true ∧ l.rest = 0 ∧ l.establishing ≠ .taken ∧ l.session.LoopFree
  | .endRemovals => True
  | .conn (.call t c) => t ∈ l.holders ∧ l.session.Enabled (.call t c)
  | .conn (.event revents) => l.running = false ∧ l.session.Enabled (.event revents)
  | .conn (.functor n) => l.running = true ∧ l.rest ≠ 0 ∧ l.session.Enabled (.functor n)
  | .conn a => l.session.Enabled a

def machine : Machine Lifetime LifeStep ConnFault := ⟨Enabled,code⟩

instance (l : Lifetime) : (a : LifeStep) → Decidable (machine.Enabled l a)
  | .connectEstablished => inferInstanceAs (Decidable (_ ∧ _))
  | .take _ => inferInstanceAs (Decidable l.Alive)
  | .drop _ => inferInstanceAs (Decidable (_ ∧ _))
  | .swap => inferInstanceAs (Decidable (_ ∧ _ ∧ _))
  | .endBatch => inferInstanceAs (Decidable (_ ∧ _ ∧ _ ∧ _))
  | .endRemovals => isTrue trivial
  | .conn (.call t c) => inferInstanceAs (Decidable (_ ∧ l.session.Enabled (.call t c)))
  | .conn (.event revents) => inferInstanceAs (Decidable (_ ∧ l.session.Enabled (.event revents)))
  | .conn (.functor n) => inferInstanceAs (Decidable (_ ∧ _ ∧ l.session.Enabled (.functor n)))
  | .conn (.resume t n) => inferInstanceAs (Decidable (l.session.Enabled (.resume t n)))
  | .conn (.handler r n) => inferInstanceAs (Decidable (l.session.Enabled (.handler r n)))
  | .conn (.handleWrite n) => inferInstanceAs (Decidable (l.session.Enabled (.handleWrite n)))
  | .conn .removeConnectionInLoop => inferInstanceAs (Decidable (l.session.Enabled .removeConnectionInLoop))
  | .conn (.input op) => inferInstanceAs (Decidable (l.session.Enabled (.input op)))
  | .conn (.setWriteCompleteCallback cb) =>
    inferInstanceAs (Decidable (l.session.Enabled (.setWriteCompleteCallback cb)))
  | .conn (.setHighWaterMarkCallback cb mark) =>
    inferInstanceAs (Decidable (l.session.Enabled (.setHighWaterMarkCallback cb mark)))

/-- A step of the connection is one of its own machine. -/
theorem conn_enabled {l : Lifetime} {a : ConnStep} (he : l.Enabled (.conn a)) : l.session.Enabled a := by
  cases a with
  | call t c => exact he.2
  | event revents => exact he.2
  | functor n => exact he.2.2
  | resume | handler | handleWrite | removeConnectionInLoop | input | setWriteCompleteCallback
  | setHighWaterMarkCallback => exact he

/-- A step of the connection is the one of its session. -/
theorem code_conn (l : Lifetime) (a : ConnStep) : ∃ f : Session → Lifetime, (∀ s, (f s).session = s) ∧
    l.code (.conn a) = l.session.code a >>= fun s => pure (f s) := by
  cases a <;> exact ⟨_,fun _ => rfl,rfl⟩

end Lifetime
end LearningMuduo.Tcp
