import LearningMuduo.Library.Machine
import Mathlib.Algebra.Order.Ring.Int

/-! The event loop as seen by its pending functors: the loop thread's program
points, the callers inside `queueInLoop` and `quit`, and the wakeup eventfd.
`φ` is the type of functors. -/
namespace LearningMuduo.Reactor
open Library

/-- The largest value an eventfd counter can hold. -/
def eventfdMax : Nat := 2^64-2

/-- The loop's own wakeup channel, or any other channel. -/
inductive ActiveChannel where
  | wakeup | other
  deriving DecidableEq, Repr

/-- Where the loop's own thread stands. `handling` keeps the channels of
`activeChannels_` not yet dispatched, `running` the rest of the swapped batch. -/
inductive LoopPhase (φ : Type) where
  | outside
  | test
  | polling
  | handling (active : List ActiveChannel)
  | swapping
  | running (rest : List φ)
  deriving DecidableEq, Repr

/-- The program point without its data: `handled` and `ran` are the ends of the
two loops over channels and functors. -/
inductive LoopPoint where
  | outside | test | polling | dispatching | handled | swapping | running | ran
  deriving DecidableEq, Repr

def LoopPhase.point {φ : Type} : LoopPhase φ → LoopPoint
  | .outside => .outside
  | .test => .test
  | .polling => .polling
  | .handling (_ :: _) => .dispatching
  | .handling [] => .handled
  | .swapping => .swapping
  | .running (_ :: _) => .running
  | .running [] => .ran

/-- The only assertion of the modelled part, `assert(!looping_)` in `loop`. -/
inductive LoopFault where
  | looping
  deriving DecidableEq, Repr

/-- `callers` are the threads between `push_back` and the end of `queueInLoop`,
`quitters` those between setting `quit_` and the end of `quit`. The last three
fields are history: every `push_back` with the number of swaps before it, every
functor started with the number of its batch, and the number of swaps. -/
structure EventLoop (φ : Type) where
  pid : Nat
  looping : Bool
  quit : Bool
  eventHandling : Bool
  callingPendingFunctors : Bool
  pendingFunctors : List φ
  wakeupCounter : Nat
  phase : LoopPhase φ
  callers : List Nat
  quitters : List Nat
  pushed : List (φ × Nat)
  executed : List (φ × Nat)
  batches : Nat
  deriving DecidableEq, Repr

/-- One atomic step of some thread. -/
inductive LoopStep (φ : Type) where
  | queueInLoop (t : Nat) (f : φ)
  | runInLoop (t : Nat) (f : φ)
  | leaveQueueInLoop (t : Nat)
  | quit (t : Nat)
  | leaveQuit (t : Nat)
  | loop
  | test
  | pollReturn (active : List ActiveChannel)
  | dispatch
  | endEvents
  | swap
  | run
  | endBatch
  deriving DecidableEq, Repr

namespace EventLoop
variable {φ : Type}

/-- The constructor, run by thread `pid`. -/
def new (pid : Nat) : EventLoop φ :=
  ⟨pid,false,false,false,false,[],0,.outside,[],[],[],[],0⟩

def isInLoopThread (l : EventLoop φ) (t : Nat) : Prop := t = l.pid

instance (l : EventLoop φ) (t : Nat) : Decidable (l.isInLoopThread t) :=
  inferInstanceAs (Decidable (_ = _))

/-- Writing 1 to a full eventfd fails and leaves it as it is. -/
def wakeup (l : EventLoop φ) : EventLoop φ :=
  { l with wakeupCounter := if l.wakeupCounter < eventfdMax then l.wakeupCounter+1 else l.wakeupCounter }

/-- The wakeup channel's read handler. -/
def handleRead (l : EventLoop φ) : EventLoop φ := { l with wakeupCounter := 0 }

/-- The critical section of `queueInLoop`. -/
def pushBack (l : EventLoop φ) (t : Nat) (f : φ) : EventLoop φ :=
  { l with
    pendingFunctors := l.pendingFunctors ++ [f]
    callers := t :: l.callers
    pushed := l.pushed ++ [(f,l.batches)] }

/-- The rest of `queueInLoop`. -/
def leaveQueueInLoop (l : EventLoop φ) (t : Nat) : EventLoop φ :=
  if ¬ l.isInLoopThread t ∨ l.callingPendingFunctors then
    { l with callers := l.callers.erase t }.wakeup
  else
    { l with callers := l.callers.erase t }

/-- The swap in `doPendingFunctors`. -/
def swapFunctors (l : EventLoop φ) : EventLoop φ :=
  { l with pendingFunctors := [], phase := .running l.pendingFunctors, batches := l.batches+1 }

/-- The call `functors[i]()`. -/
def startFunctor (l : EventLoop φ) (f : φ) (rest : List φ) : EventLoop φ :=
  { l with phase := .running rest, executed := l.executed ++ [(f,l.batches)] }

/-- The functors taken by the running batch and not yet started. -/
def rest (l : EventLoop φ) : List φ :=
  match l.phase with
  | .running rest => rest
  | _ => []

/-- User code of the loop thread runs before and after `loop()`, in event handlers
and in functors. -/
def inUserCode (l : EventLoop φ) : Bool :=
  match l.phase with
  | .outside => true
  | .handling _ => true
  | .running _ => true
  | _ => false

/-- The thread is not inside a call of the loop's interface. -/
def Idle (l : EventLoop φ) (t : Nat) : Prop := t ∉ l.callers ∧ t ∉ l.quitters

instance (l : EventLoop φ) (t : Nat) : Decidable (l.Idle t) := inferInstanceAs (Decidable (_ ∧ _))

/-- A thread may enter the interface. -/
def MayCall (l : EventLoop φ) (t : Nat) : Prop :=
  l.Idle t ∧ (l.isInLoopThread t → l.inUserCode = true)

instance (l : EventLoop φ) (t : Nat) : Decidable (l.MayCall t) := inferInstanceAs (Decidable (_ ∧ _))

def code (l : EventLoop φ) : LoopStep φ → Except LoopFault (EventLoop φ)
  | .queueInLoop t f => pure (l.pushBack t f)
  | .runInLoop t f => pure (if l.isInLoopThread t then l else l.pushBack t f)
  | .leaveQueueInLoop t => pure (l.leaveQueueInLoop t)
  | .quit t => pure (if l.isInLoopThread t then { l with quit := true }
      else { l with quit := true, quitters := t :: l.quitters })
  | .leaveQuit t => pure { l with quitters := l.quitters.erase t }.wakeup
  | .loop => do
    require (l.looping = false) .looping
    pure { l with looping := true, quit := false, phase := .test }
  | .test => pure (if l.quit then { l with looping := false, phase := .outside }
      else { l with phase := .polling })
  | .pollReturn active => pure { l with eventHandling := true, phase := .handling active }
  | .dispatch => pure (match l.phase with
    | .handling (.wakeup :: active) => { l with phase := .handling active }.handleRead
    | .handling (.other :: active) => { l with phase := .handling active }
    | _ => l)
  | .endEvents => pure { l with
      eventHandling := false, callingPendingFunctors := true, phase := .swapping }
  | .swap => pure l.swapFunctors
  | .run => pure (match l.phase with
    | .running (f :: rest) => l.startFunctor f rest
    | _ => l)
  | .endBatch => pure { l with callingPendingFunctors := false, phase := .test }

/-- Which steps can happen. `poll` reports the wakeup channel only when its
counter is not zero. -/
def Enabled (l : EventLoop φ) : LoopStep φ → Prop
  | .queueInLoop t _ => l.MayCall t
  | .runInLoop t _ => l.MayCall t
  | .leaveQueueInLoop t => t ∈ l.callers
  | .quit t => l.MayCall t
  | .leaveQuit t => t ∈ l.quitters
  | .loop => l.Idle l.pid ∧ l.phase.point = .outside
  | .test => l.phase.point = .test
  | .pollReturn active => l.phase.point = .polling ∧ (.wakeup ∈ active → l.wakeupCounter ≠ 0)
  | .dispatch => l.Idle l.pid ∧ l.phase.point = .dispatching
  | .endEvents => l.Idle l.pid ∧ l.phase.point = .handled
  | .swap => l.phase.point = .swapping
  | .run => l.Idle l.pid ∧ l.phase.point = .running
  | .endBatch => l.Idle l.pid ∧ l.phase.point = .ran

instance (l : EventLoop φ) : (a : LoopStep φ) → Decidable (l.Enabled a)
  | .queueInLoop t _ | .runInLoop t _ | .quit t => inferInstanceAs (Decidable (l.MayCall t))
  | .leaveQueueInLoop t => inferInstanceAs (Decidable (t ∈ l.callers))
  | .leaveQuit t => inferInstanceAs (Decidable (t ∈ l.quitters))
  | .loop => inferInstanceAs (Decidable (l.Idle l.pid ∧ l.phase.point = .outside))
  | .test => inferInstanceAs (Decidable (l.phase.point = .test))
  | .pollReturn active => inferInstanceAs (Decidable
      (l.phase.point = .polling ∧ (.wakeup ∈ active → l.wakeupCounter ≠ 0)))
  | .dispatch => inferInstanceAs (Decidable (l.Idle l.pid ∧ l.phase.point = .dispatching))
  | .endEvents => inferInstanceAs (Decidable (l.Idle l.pid ∧ l.phase.point = .handled))
  | .swap => inferInstanceAs (Decidable (l.phase.point = .swapping))
  | .run => inferInstanceAs (Decidable (l.Idle l.pid ∧ l.phase.point = .running))
  | .endBatch => inferInstanceAs (Decidable (l.Idle l.pid ∧ l.phase.point = .ran))

def machine : Machine (EventLoop φ) (LoopStep φ) LoopFault := ⟨Enabled,code⟩

instance (l : EventLoop φ) (a : LoopStep φ) : Decidable (machine.Enabled l a) :=
  inferInstanceAs (Decidable (l.Enabled a))

end EventLoop
end LearningMuduo.Reactor
