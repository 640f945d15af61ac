import LearningMuduo.Library.Machine
import LearningMuduo.Library.OrderedSet
import Mathlib.Data.Prod.Lex
import Mathlib.Logic.Function.Basic

/-! The timer queue of an event loop: its ordered sets of raw pointers, the heap they
point into, the timerfd and the clock. Times are microseconds. -/
namespace LearningMuduo.Timers
open Library

/-- `UINTPTR_MAX`. -/
def uintptrMax : Nat := 2^64-1

/-- A `long` converted to `int`. -/
def toInt (n : Int) : Int := n.bmod (2^32)

/-- A `Timer*`; `block` tells apart the allocations that used one address. -/
structure TimerPtr where
  addr : Nat
  block : Nat
  deriving DecidableEq, Repr

/-- `interval` is the delta `addTime` computes from the interval in seconds. -/
structure Timer where
  expiration : Int
  interval : Int
  repeat_ : Bool
  sequence : Int
  deriving DecidableEq, Repr

/-- A `TimerId` as a caller keeps it: an address, live or not, and a sequence number. -/
structure TimerId where
  timer : Nat
  sequence : Int
  deriving DecidableEq, Repr

abbrev Entry := Int × TimerPtr
abbrev ActiveTimer := TimerPtr × Int

def entryKey (e : Entry) : ℤ ×ₗ ℕ := toLex (e.1,e.2.addr)
def activeKey (a : ActiveTimer) : ℕ ×ₗ ℤ := toLex (a.1.addr,a.2)

inductive TimerFunctor where
  | addTimerInLoop (timer : TimerPtr)
  | cancelInLoop (timerId : TimerId)
  deriving DecidableEq, Repr

/-- A one-shot timerfd: armed at some time, or expired and not yet read. -/
inductive Timerfd where
  | disarmed
  | armed (deadline armedAt : Int)
  | unread
  deriving DecidableEq, Repr

/-- Inside `handleRead`, `rest` of the batch has still to run; `now` was read on entry. -/
inductive TimerPhase where
  | idle
  | calling (now : Int) (rest : List Entry)
  deriving DecidableEq, Repr

def TimerPhase.hasNext : TimerPhase → Bool
  | .calling _ (_ :: _) => true
  | _ => false

/-- Behind the last callback of the batch. -/
def TimerPhase.isDone : TimerPhase → Bool
  | .calling _ [] => true
  | _ => false

inductive TimerAssert where
  | insertBefore | insertTimers | insertActive | insertAfter
  | cancelBefore | cancelErased | cancelAfter
  | expiredBefore | expiredEnd | expiredErased | expiredAfter
  deriving DecidableEq, Repr

/-- Where a `Timer` is dereferenced. -/
inductive DerefSite where
  | addTimer | addTimerInLoop | insert | cancelInLoop | getExpired | run | reset | restart | nextExpire
  deriving DecidableEq, Repr

inductive TimerFault where
  | assertion (site : TimerAssert)
  | useAfterFree (site : DerefSite)
  | doubleFree
  | timerfdSettime
  deriving DecidableEq, Repr

/-- One atomic step. `addTimer` carries the address `new` returned and the answer of the
process-wide counter `s_numCreated_`, whose increment is not atomic. -/
inductive TimerStep where
  | addTimer (t addr : Nat) (when interval : Int) (repeat_ : Bool) (sequence : Int)
  | returnId (t : Nat)
  | cancel (t : Nat) (timerId : TimerId)
  | runFunctor
  | handleRead (pollReturnTime : Int)
  | runCallback
  | endCalling
  | tick (d : Nat)
  deriving DecidableEq, Repr

/-- `returning` are the threads that handed a timer to the loop and have still to read
its sequence number; `allocated` and `deleted` are history, by block. -/
structure TimerQueue where
  loopThread : Nat
  clock : Int
  timerfd : Timerfd
  heap : Nat → Option (Nat × Timer)
  timers : OrderedSet entryKey
  activeTimers : OrderedSet activeKey
  cancelingTimers : OrderedSet (id : ℕ ×ₗ ℤ → ℕ ×ₗ ℤ)
  expired : List Entry
  callingExpiredTimers : Bool
  phase : TimerPhase
  pendingFunctors : List TimerFunctor
  returning : Nat → Option TimerPtr
  allocated : Nat
  deleted : List Nat

structure Timespec where
  tv_sec : Int
  tv_nsec : Int
  deriving DecidableEq, Repr

def kMicroSecondsPerSecond : Int := 1000*1000

def howMuchTimeFromNow (when now : Int) : Timespec :=
  let microseconds := when-now
  let microseconds := if microseconds < 100 then 100 else microseconds
  ⟨microseconds.tdiv kMicroSecondsPerSecond,microseconds.tmod kMicroSecondsPerSecond*1000⟩

def Timespec.microseconds (ts : Timespec) : Int := ts.tv_sec*kMicroSecondsPerSecond + ts.tv_nsec/1000

/-- A one-shot `timerfd_settime` from now on, which drops what is unread. A zero value disarms the
timer; a negative one, or a second or more of nanoseconds, is refused with `EINVAL`. -/
def Timerfd.settime (now : Int) (value : Timespec) : Option Timerfd :=
  if value.tv_sec < 0 ∨ value.tv_nsec < 0 ∨ 1000*1000*1000 ≤ value.tv_nsec then none
  else if value.tv_sec = 0 ∧ value.tv_nsec = 0 then some .disarmed
  else some (.armed (now+value.microseconds) now)

namespace TimerQueue

def new (loopThread : Nat) (clock : Int) : TimerQueue where
  loopThread := loopThread
  clock := clock
  timerfd := .disarmed
  heap := fun _ => none
  timers := .empty
  activeTimers := .empty
  cancelingTimers := .empty
  expired := []
  callingExpiredTimers := false
  phase := .idle
  pendingFunctors := []
  returning := fun _ => none
  allocated := 0
  deleted := []

/-- The timer p points to, if it has not been deleted. -/
def get (q : TimerQueue) (p : TimerPtr) : Option Timer :=
  match q.heap p.addr with
  | some (block,t) => if block = p.block then some t else none
  | none => none

def deref (q : TimerQueue) (p : TimerPtr) (site : DerefSite) : Except TimerFault Timer :=
  match q.get p with
  | some t => pure t
  | none => .error (.useAfterFree site)

/-- `new Timer` at an address that no live timer has. -/
def newTimer (q : TimerQueue) (addr : Nat) (t : Timer) : TimerQueue :=
  { q with
    heap := Function.update q.heap addr (some (q.allocated,t))
    allocated := q.allocated+1 }

/-- The pointer the next `new Timer` returns. -/
def nextTimer (q : TimerQueue) (addr : Nat) : TimerPtr := ⟨addr,q.allocated⟩

def delete (q : TimerQueue) (p : TimerPtr) : Except TimerFault TimerQueue :=
  match q.get p with
  | some _ => pure { q with
      heap := Function.update q.heap p.addr none
      deleted := q.deleted ++ [p.block] }
  | none => .error .doubleFree

/-- `LOG_FATAL` ends the program if `timerfd_settime` fails. -/
def resetTimerfd (q : TimerQueue) (expiration : Int) : Except TimerFault TimerQueue :=
  match Timerfd.settime q.clock (howMuchTimeFromNow expiration q.clock) with
  | some timerfd => pure { q with timerfd := timerfd }
  | none => .error .timerfdSettime

/-- Reading an armed timerfd fails and changes nothing. -/
def readTimerfd (q : TimerQueue) : TimerQueue :=
  match q.timerfd with
  | .unread => { q with timerfd := .disarmed }
  | _ => q

def insert (q : TimerQueue) (timer : TimerPtr) : Except TimerFault (TimerQueue × Bool) := do
  require (q.timers.size = q.activeTimers.size) (.assertion .insertBefore)
  let t ← q.deref timer .insert
  let earliestChanged := match q.timers.begin with
    | none => true
    | some e => decide (t.expiration < e.1)
  let timers := q.timers.insert (t.expiration,timer)
  require (timers.2 = true) (.assertion .insertTimers)
  let active := q.activeTimers.insert (timer,toInt t.sequence)
  require (active.2 = true) (.assertion .insertActive)
  require (timers.1.size = active.1.size) (.assertion .insertAfter)
  pure ({ q with timers := timers.1, activeTimers := active.1 },earliestChanged)

def addTimerInLoop (q : TimerQueue) (timer : TimerPtr) : Except TimerFault TimerQueue := do
  let (q,earliestChanged) ← q.insert timer
  if earliestChanged then
    let t ← q.deref timer .addTimerInLoop
    q.resetTimerfd t.expiration
  else
    pure q

/-- `cancelInLoop` on a timer it found in `activeTimers_`. -/
def cancelActive (q : TimerQueue) (it : ActiveTimer) : Except TimerFault TimerQueue := do
  let t ← q.deref it.1 .cancelInLoop
  let timers := q.timers.erase (entryKey (t.expiration,it.1))
  require (timers.2 = 1) (.assertion .cancelErased)
  let q ← { q with timers := timers.1 }.delete it.1
  pure { q with activeTimers := (q.activeTimers.erase (activeKey it)).1 }

def cancelInLoop (q : TimerQueue) (timerId : TimerId) : Except TimerFault TimerQueue := do
  require (q.timers.size = q.activeTimers.size) (.assertion .cancelBefore)
  let timer : ℕ ×ₗ ℤ := toLex (timerId.timer,toInt timerId.sequence)
  let q ← (match q.activeTimers.find timer with
    | some it => q.cancelActive it
    | none =>
      if q.callingExpiredTimers then
        pure { q with cancelingTimers := (q.cancelingTimers.insert timer).1 }
      else pure q)
  require (q.timers.size = q.activeTimers.size) (.assertion .cancelAfter)
  pure q

/-- One round of the erasing loop of `getExpired`. -/
def eraseExpired (q : TimerQueue) (e : Entry) : Except TimerFault TimerQueue := do
  let t ← q.deref e.2 .getExpired
  let active := q.activeTimers.erase (activeKey (e.2,toInt t.sequence))
  require (active.2 = 1) (.assertion .expiredErased)
  pure { q with activeTimers := active.1 }

/-- The sentry's pointer is above every timer, so entries due at `now` are taken. -/
def getExpired (q : TimerQueue) (now : Int) : Except TimerFault TimerQueue := do
  require (q.timers.size = q.activeTimers.size) (.assertion .expiredBefore)
  let sentry : ℤ ×ₗ ℕ := toLex (now,uintptrMax)
  require (∀ e ∈ (q.timers.above sentry).begin, now < e.1) (.assertion .expiredEnd)
  let expired := q.timers.below sentry
  let q ← expired.foldlM eraseExpired { q with expired := expired, timers := q.timers.above sentry }
  require (q.timers.size = q.activeTimers.size) (.assertion .expiredAfter)
  pure q

/-- `handleRead` up to its first callback. -/
def handleRead (q : TimerQueue) (pollReturnTime : Int) : Except TimerFault TimerQueue := do
  let now := q.clock
  let q ← q.readTimerfd.getExpired pollReturnTime
  pure { q with callingExpiredTimers := true, cancelingTimers := .empty, phase := .calling now q.expired }

/-- The call `it->second->run()`; what the callback does are steps of their own. -/
def run (q : TimerQueue) (now : Int) (e : Entry) (rest : List Entry) : Except TimerFault TimerQueue := do
  let _ ← q.deref e.2 .run
  pure { q with phase := .calling now rest }

/-- `Timer::restart`. -/
def restart (q : TimerQueue) (p : TimerPtr) (now : Int) : Except TimerFault TimerQueue := do
  let t ← q.deref p .restart
  let expiration := if t.repeat_ then now+t.interval else 0
  pure { q with heap := Function.update q.heap p.addr (some (p.block,{ t with expiration := expiration })) }

/-- One round of the loop of `reset`. -/
def resetOne (now : Int) (q : TimerQueue) (e : Entry) : Except TimerFault TimerQueue := do
  let t ← q.deref e.2 .reset
  if t.repeat_ = true ∧ q.cancelingTimers.find (activeKey (e.2,toInt t.sequence)) = none then
    let q ← q.restart e.2 now
    let (q,_) ← q.insert e.2
    pure q
  else
    q.delete e.2

/-- The end of `reset`; a front that is not a valid time arms nothing. -/
def armNext (q : TimerQueue) : Except TimerFault TimerQueue :=
  match q.timers.begin with
  | none => pure q
  | some e => do
    let t ← q.deref e.2 .nextExpire
    if 0 < t.expiration then q.resetTimerfd t.expiration else pure q

def reset (q : TimerQueue) (now : Int) : Except TimerFault TimerQueue := do
  let q ← q.expired.foldlM (resetOne now) q
  q.armNext

/-- `handleRead` behind its last callback. -/
def endCalling (q : TimerQueue) (now : Int) : Except TimerFault TimerQueue := do
  let q ← { q with callingExpiredTimers := false }.reset now
  pure { q with phase := .idle }

def runFunctor (q : TimerQueue) : TimerFunctor → Except TimerFault TimerQueue
  | .addTimerInLoop timer => q.addTimerInLoop timer
  | .cancelInLoop timerId => q.cancelInLoop timerId

/-- `addTimer`, on another thread up to its `push_back`. -/
def addTimer (q : TimerQueue) (t addr : Nat) (timer : Timer) : Except TimerFault TimerQueue :=
  let p := q.nextTimer addr
  let q := q.newTimer addr timer
  if t = q.loopThread then do
    let q ← q.addTimerInLoop p
    let _ ← q.deref p .addTimer
    pure q
  else
    pure { q with
      pendingFunctors := q.pendingFunctors ++ [.addTimerInLoop p]
      returning := Function.update q.returning t (some p) }

/-- The rest of `addTimer` on another thread: `TimerId(timer, timer->sequence())`. -/
def returnId (q : TimerQueue) (t : Nat) : Except TimerFault TimerQueue :=
  match q.returning t with
  | none => pure q
  | some p => do
    let _ ← q.deref p .addTimer
    pure { q with returning := Function.update q.returning t none }

def cancel (q : TimerQueue) (t : Nat) (timerId : TimerId) : Except TimerFault TimerQueue :=
  if t = q.loopThread then q.cancelInLoop timerId
  else pure { q with pendingFunctors := q.pendingFunctors ++ [.cancelInLoop timerId] }

/-- Time passes; a deadline that is reached makes the timerfd readable. -/
def tick (q : TimerQueue) (d : Nat) : TimerQueue :=
  let clock := q.clock+d
  { q with
    clock := clock
    timerfd := match q.timerfd with
      | .armed deadline armedAt => if deadline ≤ clock then .unread else .armed deadline armedAt
      | fd => fd }

def code (q : TimerQueue) : TimerStep → Except TimerFault TimerQueue
  | .addTimer t addr when interval repeat_ sequence => q.addTimer t addr ⟨when,interval,repeat_,sequence⟩
  | .returnId t => q.returnId t
  | .cancel t timerId => q.cancel t timerId
  | .runFunctor => match q.pendingFunctors with
    | [] => pure q
    | f :: rest => { q with pendingFunctors := rest }.runFunctor f
  | .handleRead pollReturnTime => q.handleRead pollReturnTime
  | .runCallback => match q.phase with
    | .calling now (e :: rest) => q.run now e rest
    | _ => pure q
  | .endCalling => match q.phase with
    | .calling now [] => q.endCalling now
    | _ => pure q
  | .tick d => pure (q.tick d)

/-- Which steps can happen. `new` never returns the address of a live timer; the
clock is not behind the time at which `poll` returned. -/
def Enabled (q : TimerQueue) : TimerStep → Prop
  | .addTimer t addr _ interval repeat_ _ => q.returning t = none ∧ q.heap addr = none ∧
      0 < addr ∧ addr < uintptrMax ∧ (repeat_ = true → 0 ≤ interval)
  | .returnId t => q.returning t ≠ none
  | .cancel t _ => q.returning t = none
  | .runFunctor => q.phase = .idle ∧ q.pendingFunctors ≠ []
  | .handleRead pollReturnTime => q.phase = .idle ∧ 0 < pollReturnTime ∧ pollReturnTime ≤ q.clock
  | .runCallback => q.phase.hasNext = true
  | .endCalling => q.phase.isDone = true
  | .tick _ => True

instance (q : TimerQueue) : (a : TimerStep) → Decidable (q.Enabled a)
  | .addTimer _ _ _ _ _ _ => inferInstanceAs (Decidable (_ ∧ _ ∧ _ ∧ _ ∧ (_ → _)))
  | .returnId _ => inferInstanceAs (Decidable (_ ≠ _))
  | .cancel _ _ => inferInstanceAs (Decidable (_ = _))
  | .runFunctor => inferInstanceAs (Decidable (_ ∧ _ ≠ _))
  | .handleRead _ => inferInstanceAs (Decidable (_ ∧ _ ∧ _))
  | .runCallback | .endCalling => inferInstanceAs (Decidable (_ = _))
  | .tick _ => isTrue trivial

def machine : Machine TimerQueue TimerStep TimerFault := ⟨Enabled,code⟩

instance (q : TimerQueue) (a : TimerStep) : Decidable (machine.Enabled q a) :=
  inferInstanceAs (Decidable (q.Enabled a))

end TimerQueue
end LearningMuduo.Timers
