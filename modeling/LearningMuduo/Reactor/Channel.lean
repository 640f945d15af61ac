import Mathlib.Data.BitVec

/-! A channel: one descriptor, its interest mask and its four callbacks. -/
namespace LearningMuduo.Reactor

/-- An `int` holding poll flags. -/
abbrev Mask := BitVec 32

def POLLIN : Mask := 0x0001
def POLLPRI : Mask := 0x0002
def POLLOUT : Mask := 0x0004
def POLLERR : Mask := 0x0008
def POLLHUP : Mask := 0x0010
def POLLNVAL : Mask := 0x0020
def POLLRDHUP : Mask := 0x2000

def kReadEvent : Mask := POLLIN ||| POLLPRI
def kWriteEvent : Mask := POLLOUT
def kNoneEvent : Mask := 0

/-- `m & flags` used as a condition. -/
def Mask.Has (m flags : Mask) : Prop := m &&& flags ≠ 0

instance (m flags : Mask) : Decidable (m.Has flags) := inferInstanceAs (Decidable (_ ≠ _))

/-- Flags that were added are there. -/
theorem Mask.has_or_self (m : Mask) {flags : Mask} (h : flags ≠ 0) : Mask.Has (m ||| flags) flags := by
  have hself : (m ||| flags) &&& flags = flags := by
    ext i hi
    simp only [BitVec.getElem_and,BitVec.getElem_or]
    cases m[i] <;> simp
  rw [Mask.Has,hself]
  exact h

/-- Flags that were there stay when others are added. -/
theorem Mask.Has.or {m flags : Mask} (h : m.Has flags) (more : Mask) : Mask.Has (m ||| more) flags := by
  intro h0
  apply h
  ext i hi
  have hbit := congrArg (fun x : Mask => x[i]) h0
  simp only [BitVec.getElem_and,BitVec.getElem_or] at hbit ⊢
  cases hm : m[i] <;> simp_all

/-- Flags that are in neither mask are not in both. -/
theorem Mask.not_has_or {m more flags : Mask} (hm : ¬ m.Has flags) (hmore : ¬ more.Has flags) :
    ¬ Mask.Has (m ||| more) flags := by
  have hz := not_not.mp hm
  have hz' := not_not.mp hmore
  intro h
  apply h
  rw [BitVec.and_or_distrib_right,hz,hz']
  rfl

/-- `κ` names the functions a callback can be bound to. -/
structure Channel (κ : Type) where
  fd : Int
  events : Mask
  revents : Mask
  index : Int
  tied : Bool
  addedToLoop : Bool
  readCallback : Option κ
  writeCallback : Option κ
  closeCallback : Option κ
  errorCallback : Option κ
  deriving DecidableEq, Repr

/-- The five calls that set the interest mask and then `update()`. -/
inductive Interest where
  | enableReading | enableWriting | disableReading | disableWriting | disableAll
  deriving DecidableEq, Repr

namespace Channel
variable {κ : Type}

/-- The constructor `Channel(loop, fd)`. -/
def new (fd : Int) : Channel κ :=
  ⟨fd,0,0,-1,false,false,none,none,none,none⟩

def isWriting (c : Channel κ) : Prop := c.events.Has kWriteEvent

def isNoneEvent (c : Channel κ) : Prop := c.events = kNoneEvent

instance (c : Channel κ) : Decidable c.isWriting := inferInstanceAs (Decidable (Mask.Has _ _))
instance (c : Channel κ) : Decidable c.isNoneEvent := inferInstanceAs (Decidable (_ = _))

/-- The mask each call leaves. Both `disable` calls `or` with the complement. -/
def interestMask (events : Mask) : Interest → Mask
  | .enableReading => events ||| kReadEvent
  | .enableWriting => events ||| kWriteEvent
  | .disableReading => events ||| ~~~kReadEvent
  | .disableWriting => events ||| ~~~kWriteEvent
  | .disableAll => kNoneEvent

/-- The channel's own part of an interest call: the mask, and `update`'s flag. -/
def setInterest (c : Channel κ) (op : Interest) : Channel κ :=
  { c with events := interestMask c.events op, addedToLoop := true }

/-- The callbacks run by `handleEventWithGuard`, in order. -/
def handleEventWithGuard (c : Channel κ) : List κ :=
  (if c.revents.Has POLLHUP ∧ ¬ c.revents.Has POLLIN then c.closeCallback.toList else []) ++
  (if c.revents.Has (POLLERR ||| POLLNVAL) then c.errorCallback.toList else []) ++
  (if c.revents.Has (POLLIN ||| POLLPRI ||| POLLRDHUP) then c.readCallback.toList else []) ++
  (if c.revents.Has POLLOUT then c.writeCallback.toList else [])

/-- `handleEvent`; a tied channel runs nothing once its owner is gone. -/
def handleEvent (c : Channel κ) (ownerAlive : Bool) : List κ :=
  if c.tied && !ownerAlive then [] else c.handleEventWithGuard

end Channel
end LearningMuduo.Reactor
