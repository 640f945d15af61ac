import LearningMuduo.Reactor.EventLoop

/-! A thread that runs an event loop, and the owner that starts it and destroys it, statement
by statement. -/
namespace LearningMuduo.Reactor
open Library

/-- Where the owner stands: in `startLoop()` until `returned`, then in the destructor.
`quitting` lies between the assignment of `quit_` and the `wakeup()` of `quit()`. -/
inductive OwnerPoint where
  | created | waiting | returned
  | exiting | tested | quitting | joining | done
  deriving DecidableEq, Repr

/-- Where `threadFunc` stands; `entering` is in front of `loop.loop()`. -/
inductive WorkerPoint where
  | absent | constructing | callback | entering | looping | left | cleared | ended
  deriving DecidableEq, Repr

/-- `loop_->quit()` through a null pointer, a call on a loop that has been destroyed, or the
loop's own assertion. -/
inductive ThreadFault where
  | nullLoop
  | destroyedLoop
  | loop (fault : LoopFault)
  deriving DecidableEq, Repr

/-- `published` is `loop_ != NULL`; `loop` is the object on the worker's stack. -/
structure EventLoopThread (φ : Type) where
  ownerThread : Nat
  owner : OwnerPoint
  worker : WorkerPoint
  published : Bool
  exiting : Bool
  loop : EventLoop φ
  deriving DecidableEq, Repr

/-- The owner's statements, the worker's, and `use`: a step of the loop by the worker inside
`callback_` or `loop()`, or by a third thread. -/
inductive ThreadStep (φ : Type) where
  | start | returnLoop
  | exit | testLoop | quit | wakeup | join
  | construct | publish | enter | clear | destruct
  | use (a : LoopStep φ)
  deriving DecidableEq, Repr

/-- The thread that makes a step of the loop. -/
def LoopStep.thread {φ : Type} (pid : Nat) : LoopStep φ → Nat
  | .queueInLoop t _ | .runInLoop t _ | .leaveQueueInLoop t | .quit t | .leaveQuit t => t
  | .loop | .test | .pollReturn _ | .dispatch | .endEvents | .swap | .run | .endBatch => pid

namespace EventLoopThread
variable {φ : Type}

def new (ownerThread pid : Nat) : EventLoopThread φ := ⟨ownerThread,.created,.absent,false,false,.new pid⟩

/-- A step of the loop object. -/
def onLoop (s : EventLoopThread φ) (a : LoopStep φ) : Except ThreadFault (EventLoopThread φ) := do
  let loop ← (EventLoop.machine.step s.loop a).mapError .loop
  pure { s with loop := loop }

/-- The worker leaves `loop()` when its test of `quit_` ends the loop. -/
def use (s : EventLoopThread φ) (a : LoopStep φ) : Except ThreadFault (EventLoopThread φ) := do
  let s ← s.onLoop a
  pure (if s.worker = .looping ∧ s.loop.looping = false then { s with worker := .left } else s)

def code (s : EventLoopThread φ) : ThreadStep φ → Except ThreadFault (EventLoopThread φ)
  | .start => .ok { s with owner := .waiting, worker := .constructing }
  | .returnLoop => .ok { s with owner := .returned }
  | .exit => .ok { s with owner := .exiting, exiting := true }
  | .testLoop => .ok { s with owner := if s.published then .tested else .done }
  | .quit => do
    require (s.published = true) .nullLoop
    let s ← s.onLoop (.quit s.ownerThread)
    pure { s with owner := .quitting }
  | .wakeup => do
    require (s.worker ≠ .ended) .destroyedLoop
    let s ← s.onLoop (.leaveQuit s.ownerThread)
    pure { s with owner := .joining }
  | .join => .ok { s with owner := .done }
  | .construct => .ok { s with worker := .callback }
  | .publish => .ok { s with worker := .entering, published := true }
  | .enter => do
    let s ← s.onLoop .loop
    pure { s with worker := .looping }
  | .clear => .ok { s with worker := .cleared, published := false }
  | .destruct => .ok { s with worker := .ended }
  | .use a => s.use a

/-- Who may make a step of the loop: the worker inside its callback or `loop()`, or a third
thread while the loop exists. -/
def MayUse (s : EventLoopThread φ) (a : LoopStep φ) : Prop :=
  EventLoop.machine.Enabled s.loop a ∧
    (a.thread s.loop.pid = s.loop.pid ∧ s.worker ∈ [.callback,.looping] ∨
      a.thread s.loop.pid ∉ [s.loop.pid,s.ownerThread] ∧ s.worker ∈ [.callback,.entering,.looping,.left])

/-- The wait of `startLoop()` ends when the loop is published, `join` when the worker ends. -/
def Enabled (s : EventLoopThread φ) : ThreadStep φ → Prop
  | .start => s.owner = .created
  | .returnLoop => s.owner = .waiting ∧ s.published = true
  | .exit => s.owner = .returned
  | .testLoop => s.owner = .exiting
  | .quit => s.owner = .tested
  | .wakeup => s.owner = .quitting
  | .join => s.owner = .joining ∧ s.worker = .ended
  | .construct => s.worker = .constructing
  | .publish => s.worker = .callback ∧ s.loop.Idle s.loop.pid ∧ s.loop.phase.point = .outside
  | .enter => s.worker = .entering
  | .clear => s.worker = .left
  | .destruct => s.worker = .cleared
  | .use a => s.MayUse a

def machine : Machine (EventLoopThread φ) (ThreadStep φ) ThreadFault := ⟨Enabled,code⟩

instance (s : EventLoopThread φ) : (a : ThreadStep φ) → Decidable (machine.Enabled s a)
  | .start | .exit | .testLoop | .quit | .wakeup | .construct | .enter | .clear | .destruct =>
    inferInstanceAs (Decidable (_ = _))
  | .returnLoop | .join | .publish => inferInstanceAs (Decidable (_ ∧ _))
  | .use _ => inferInstanceAs (Decidable (_ ∧ (_ ∨ _)))

end EventLoopThread
end LearningMuduo.Reactor
