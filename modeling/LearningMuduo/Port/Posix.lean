import LearningMuduo.Library.Outcome
import Mathlib.Algebra.Order.Ring.Int

/-! The checked pthread calls, and the deadline of a timed wait. -/
namespace LearningMuduo.Port
open Library

def ETIMEDOUT : Nat := 110

/-- `abort()`, after the label and the error were printed. -/
structure Abort where
  label : String
  result : Nat
  deriving DecidableEq, Repr

/-- `PthreadCall`. -/
def pthreadCall (label : String) (result : Nat) : Except Abort Unit :=
  if result ≠ 0 then .error ⟨label,result⟩ else .ok ()

structure Timespec where
  tvSec : Int
  tvNsec : Int
  deriving DecidableEq, Repr

namespace Timespec

def kNanoSecondsPerSecond : Int := 10^9

/-- The `abstime` of `waitForSeconds`. No sum here leaves 64 bits: `secs` is an int. -/
def deadline (now : Timespec) (secs : Int) : Timespec :=
  let nanoseconds := secs*kNanoSecondsPerSecond
  ⟨now.tvSec+(now.tvNsec+nanoseconds).tdiv kNanoSecondsPerSecond,(now.tvNsec+nanoseconds).tmod kNanoSecondsPerSecond⟩

/-- The clock has reached the deadline. -/
def Reached (clock deadline : Timespec) : Prop :=
  deadline.tvSec < clock.tvSec ∨ deadline.tvSec = clock.tvSec ∧ deadline.tvNsec ≤ clock.tvNsec

instance (clock deadline : Timespec) : Decidable (clock.Reached deadline) := inferInstanceAs (Decidable (_ ∨ _))

end Timespec

/-- The documented results of a timed wait that does not fail. -/
def TimedWaitReturns (clock deadline : Timespec) (result : Nat) : Prop :=
  result = 0 ∨ result = ETIMEDOUT ∧ clock.Reached deadline

instance (clock deadline : Timespec) (result : Nat) : Decidable (TimedWaitReturns clock deadline result) :=
  inferInstanceAs (Decidable (_ ∨ _))

end LearningMuduo.Port
