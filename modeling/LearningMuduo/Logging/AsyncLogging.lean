import LearningMuduo.Library.Machine
import Mathlib.Algebra.Order.Ring.Int

/-! The asynchronous log: callers of `append`, the owner that starts and stops it, and the
background thread that swaps full buffers out and writes them. -/
namespace LearningMuduo.Logging
open Library

def kLargeBuffer : Nat := 4000*1000

/-- A message, with its place in the order of the mutex. The ticket plays no part in the code. -/
structure Entry where
  ticket : Nat
  bytes : List UInt8
  deriving DecidableEq, Repr

inductive LogAssert where
  | headNewBuffer1 | headNewBuffer2 | headToWrite
  | swapped
  | refillNewBuffer1 | refillNewBuffer2
  deriving DecidableEq, Repr

/-- `overflow` is the `memcpy` past the end of a buffer. -/
inductive LogFault where
  | assertion (site : LogAssert)
  | nullBuffer
  | overflow
  deriving DecidableEq, Repr

/-- A `FixedBuffer<kLargeBuffer>`: what lies between `data_` and `cur_`. -/
structure FixedBuffer where
  entries : List Entry
  deriving DecidableEq, Repr

namespace FixedBuffer

def new : FixedBuffer := ⟨[]⟩

def data (b : FixedBuffer) : List UInt8 := b.entries.flatMap Entry.bytes

def length (b : FixedBuffer) : Nat := b.data.length

/-- `end()-data_`, the size of the array, not the room that is left. -/
def available (_ : FixedBuffer) : Nat := kLargeBuffer

def append (b : FixedBuffer) (e : Entry) : Except LogFault FixedBuffer := do
  let bytes := e.bytes.take b.available
  require (b.length+bytes.length ≤ kLargeBuffer) .overflow
  pure ⟨b.entries ++ [{ e with bytes := bytes }]⟩

def reset (_ : FixedBuffer) : FixedBuffer := ⟨[]⟩

end FixedBuffer

/-- A `unique_ptr<Buffer>`. -/
abbrev BufferPtr := Option FixedBuffer

/-- Where the owner stands in `start()` and `stop()`. -/
inductive OwnerPoint where
  | created | starting | started
  | stopping | signalled | stopped
  deriving DecidableEq, Repr

/-- Where `threadFunc` stands. `writing i` is the head of the loop over `buffersToWrite`. -/
inductive ThreadPoint where
  | absent | entry
  | test | lock | waiting
  | swapped | writing (i : Nat) | recycling
  | done
  deriving DecidableEq, Repr

/-- `output` is what was passed to `LogFile::append`. `appended` and `erased` record, for the
statements only, every message in mutex order and the ones the limit on buffers threw away. -/
structure AsyncLogging where
  owner : OwnerPoint
  thread : ThreadPoint
  running : Bool
  currentBuffer : BufferPtr
  nextBuffer : BufferPtr
  buffers : List BufferPtr
  newBuffer1 : BufferPtr
  newBuffer2 : BufferPtr
  buffersToWrite : List BufferPtr
  output : List Entry
  appended : List Entry
  erased : List Entry
  deriving DecidableEq, Repr

/-- What a list of buffers holds. -/
def contents (bs : List BufferPtr) : List Entry := bs.flatMap fun b => (b.map FixedBuffer.entries).getD []

namespace AsyncLogging

/-- The constructor. -/
def new : AsyncLogging where
  owner := .created
  thread := .absent
  running := false
  currentBuffer := some .new
  nextBuffer := some .new
  buffers := []
  newBuffer1 := none
  newBuffer2 := none
  buffersToWrite := []
  output := []
  appended := []
  erased := []

/-- The critical section of `append`. `available` is what `currentBuffer_->available()` returned. -/
def append (s : AsyncLogging) (msg : List UInt8) (available : Nat) : Except LogFault AsyncLogging := do
  let e : Entry := ⟨s.appended.length,msg⟩
  let s := { s with appended := s.appended ++ [e] }
  match s.currentBuffer with
  | none => .error .nullBuffer
  | some b =>
    if available > msg.length then
      let b ← b.append e
      pure { s with currentBuffer := some b }
    else
      let buffers := s.buffers ++ [some b]
      let b ← (s.nextBuffer.getD .new).append e
      pure { s with currentBuffer := some b, nextBuffer := none, buffers := buffers }

/-- The first statement of `threadFunc`, whose assertion assigns `running_`, and its locals. -/
def enter (s : AsyncLogging) : AsyncLogging :=
  { s with
    running := true
    newBuffer1 := some .new
    newBuffer2 := some .new
    buffersToWrite := []
    thread := .test }

/-- The condition of the loop and the assertions at its head. -/
def test (s : AsyncLogging) : Except LogFault AsyncLogging :=
  if s.running = true then do
    require (s.newBuffer1.map FixedBuffer.length = some 0) (.assertion .headNewBuffer1)
    require (s.newBuffer2.map FixedBuffer.length = some 0) (.assertion .headNewBuffer2)
    require (s.buffersToWrite = []) (.assertion .headToWrite)
    pure { s with thread := .lock }
  else
    pure { s with thread := .done }

/-- The critical section of the background thread, after the wait if there was one. -/
def swap (s : AsyncLogging) : AsyncLogging :=
  let s := { s with
    currentBuffer := s.newBuffer1
    newBuffer1 := none
    buffersToWrite := s.buffers ++ [s.currentBuffer]
    buffers := s.buffersToWrite
    thread := .swapped }
  if s.nextBuffer.isNone then { s with nextBuffer := s.newBuffer2, newBuffer2 := none } else s

/-- The wait gives up the mutex. -/
def lock (s : AsyncLogging) : AsyncLogging :=
  if s.buffers = [] then { s with thread := .waiting } else s.swap

/-- More than 25 buffers are cut down to two. -/
def cut (s : AsyncLogging) : Except LogFault AsyncLogging := do
  require (s.buffersToWrite ≠ []) (.assertion .swapped)
  let s := { s with thread := .writing 0 }
  if s.buffersToWrite.length > 25 then
    pure { s with
      buffersToWrite := s.buffersToWrite.take 2
      erased := s.erased ++ contents (s.buffersToWrite.drop 2) }
  else
    pure s

/-- One round of the loop that writes. -/
def write (s : AsyncLogging) (i : Nat) : Except LogFault AsyncLogging :=
  match s.buffersToWrite[i]? with
  | some (some b) => pure { s with output := s.output ++ b.entries, thread := .writing (i+1) }
  | some none => .error .nullBuffer
  | none => pure { s with thread := .recycling }

/-- A slot that was given away gets the last buffer back, emptied. -/
def refill (slot : BufferPtr) (toWrite : List BufferPtr) (site : LogAssert) :
    Except LogFault (BufferPtr × List BufferPtr) :=
  match slot,toWrite.getLast? with
  | some b,_ => pure (some b,toWrite)
  | none,none => .error (.assertion site)
  | none,some none => .error .nullBuffer
  | none,some (some b) => pure (some b.reset,toWrite.dropLast)

def recycle (s : AsyncLogging) : Except LogFault AsyncLogging := do
  let toWrite := if s.buffersToWrite.length > 2 then s.buffersToWrite.take 2 else s.buffersToWrite
  let (newBuffer1,toWrite) ← refill s.newBuffer1 toWrite .refillNewBuffer1
  let (newBuffer2,_) ← refill s.newBuffer2 toWrite .refillNewBuffer2
  pure { s with
    newBuffer1 := newBuffer1
    newBuffer2 := newBuffer2
    buffersToWrite := []
    thread := .test }

/-- The next statements of the background thread. A wait ends by a signal or by its timeout. -/
def run (s : AsyncLogging) : Except LogFault AsyncLogging :=
  match s.thread with
  | .absent | .done => pure s
  | .entry => pure s.enter
  | .test => s.test
  | .lock => pure s.lock
  | .waiting => pure s.swap
  | .swapped => s.cut
  | .writing i => s.write i
  | .recycling => s.recycle

/-- Any thread appends; the owner calls `start` (`setRunning`, `spawn`) and then `stop`
(`clearRunning`, `signal`, `join`), statement by statement. -/
inductive LogOp where
  | append (msg : List UInt8) (available : Nat)
  | setRunning | spawn
  | clearRunning | signal | join
  | run
  deriving DecidableEq, Repr

/-- The buffer that takes the message. -/
def target (s : AsyncLogging) (msg : List UInt8) (available : Nat) : FixedBuffer :=
  if available > msg.length then s.currentBuffer.getD .new else s.nextBuffer.getD .new

/-- The buffer that takes a message has room for it, and `join` returns when the thread ended. -/
def Enabled (s : AsyncLogging) : LogOp → Prop
  | .append msg available => (s.target msg available).length+msg.length ≤ kLargeBuffer
  | .setRunning => s.owner = .created
  | .spawn => s.owner = .starting
  | .clearRunning => s.owner = .started
  | .signal => s.owner = .stopping
  | .join => s.owner = .signalled ∧ s.thread = .done
  | .run => s.thread ≠ .absent ∧ s.thread ≠ .done

instance (s : AsyncLogging) : (op : LogOp) → Decidable (s.Enabled op)
  | .append _ _ => inferInstanceAs (Decidable (_ ≤ _))
  | .setRunning | .spawn | .clearRunning | .signal => inferInstanceAs (Decidable (_ = _))
  | .join => inferInstanceAs (Decidable (_ ∧ _))
  | .run => inferInstanceAs (Decidable (_ ∧ _))

def machine : Machine AsyncLogging LogOp LogFault where
  Enabled := Enabled
  step s
    | .append msg available => s.append msg available
    | .setRunning => .ok { s with owner := .starting, running := true }
    | .spawn => .ok { s with owner := .started, thread := .entry }
    | .clearRunning => .ok { s with owner := .stopping, running := false }
    | .signal => .ok { s with owner := .signalled }
    | .join => .ok { s with owner := .stopped }
    | .run => s.run

instance (s : AsyncLogging) (op : LogOp) : Decidable (machine.Enabled s op) := inferInstanceAs (Decidable (s.Enabled op))

end AsyncLogging
end LearningMuduo.Logging
