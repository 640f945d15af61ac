import LearningMuduo.Library.Machine
import LearningMuduo.Reactor.Channel
import Mathlib.Logic.Function.Basic

/-! The epoll poller: the descriptor map, the three-valued channel index and the
kernel's interest list. `γ` is the identity (the address) of a channel. -/
namespace LearningMuduo.Reactor
open Library

def kNew : Int := -1
def kAdded : Int := 1
def kDeleted : Int := 2
def kInitEventListSize : Nat := 16

/-- A channel as `updateChannel` leaves it. -/
def Channel.updated {κ : Type} (c : Channel κ) : Channel κ :=
  { c with index := if c.index = kAdded ∧ c.isNoneEvent then kDeleted else kAdded }

/-- A channel as `remove` leaves it. -/
def Channel.removed {κ : Type} (c : Channel κ) : Channel κ :=
  { c with addedToLoop := false, index := kNew }

inductive EpollOp where
  | add | mod | del
  deriving DecidableEq, Repr

inductive EpollErrno where
  | EEXIST | ENOENT
  deriving DecidableEq, Repr

inductive PollerAssert where
  | updateNewAbsent | updateDeletedPresent | updateDeletedSame
  | updateAddedPresent | updateAddedIndex
  | channelRemoveNone
  | removePresent | removeSame | removeNone | removeIndex | removeErased
  | fillCount | fillPresent | fillSame
  deriving DecidableEq, Repr

/-- `logFatal` is the aborting branch of `update`. -/
inductive PollerFault where
  | assertion (site : PollerAssert)
  | logFatal (op : EpollOp)
  deriving DecidableEq, Repr

/-- `interestList` belongs to the kernel: for a descriptor, the watched events and
`data.ptr`. `failures` records every `epoll_ctl` that returned an error. -/
structure EPollPoller (γ κ : Type) where
  channel : γ → Channel κ
  channels : Int → Option γ
  interestList : Int → Option (Mask × γ)
  eventListSize : Nat
  failures : List (EpollOp × EpollErrno)
  activeChannels : List γ

/-- `epoll_ctl`, failing only as documented for descriptors that stay open. -/
def epollCtl {γ : Type} (list : Int → Option (Mask × γ)) (op : EpollOp) (fd : Int)
    (event : Mask × γ) : Except EpollErrno (Int → Option (Mask × γ)) :=
  match op,list fd with
  | .add,none => .ok (Function.update list fd (some event))
  | .add,some _ => .error .EEXIST
  | .mod,some _ => .ok (Function.update list fd (some event))
  | .del,some _ => .ok (Function.update list fd none)
  | .mod,none => .error .ENOENT
  | .del,none => .error .ENOENT

namespace EPollPoller
variable {γ κ : Type} [DecidableEq γ]

/-- Fresh channels on the given descriptors, none of them registered. -/
def new (fd : γ → Int) : EPollPoller γ κ :=
  ⟨fun c => Channel.new (fd c),fun _ => none,fun _ => none,kInitEventListSize,[],[]⟩

def setChannel (p : EPollPoller γ κ) (c : γ) (ch : Channel κ) : EPollPoller γ κ :=
  { p with channel := Function.update p.channel c ch }

def setIndex (p : EPollPoller γ κ) (c : γ) (index : Int) : EPollPoller γ κ :=
  p.setChannel c { p.channel c with index := index }

/-- A failed `DEL` is only logged; any other failure is fatal. -/
def update (p : EPollPoller γ κ) (op : EpollOp) (c : γ) : Except PollerFault (EPollPoller γ κ) :=
  match epollCtl p.interestList op (p.channel c).fd ((p.channel c).events,c) with
  | .ok list => pure { p with interestList := list }
  | .error e =>
    if op = .del then pure { p with failures := p.failures ++ [(op,e)] } else .error (.logFatal op)

/-- The branch for a channel that is not in the interest list. -/
def updateAbsent (p : EPollPoller γ κ) (c : γ) : Except PollerFault (EPollPoller γ κ) := do
  let fd := (p.channel c).fd
  if (p.channel c).index = kNew then
    require (p.channels fd = none) (.assertion .updateNewAbsent)
    ({ p with channels := Function.update p.channels fd (some c) }.setIndex c kAdded).update .add c
  else
    require (p.channels fd ≠ none) (.assertion .updateDeletedPresent)
    require (p.channels fd = some c) (.assertion .updateDeletedSame)
    (p.setIndex c kAdded).update .add c

/-- The branch for a channel in the interest list. Its second assertion assigns
`channels_[fd]` where a comparison was meant. -/
def updateAdded (p : EPollPoller γ κ) (c : γ) : Except PollerFault (EPollPoller γ κ) := do
  let fd := (p.channel c).fd
  require (p.channels fd ≠ none) (.assertion .updateAddedPresent)
  let p := { p with channels := Function.update p.channels fd (some c) }
  require ((p.channel c).index = kAdded) (.assertion .updateAddedIndex)
  if (p.channel c).isNoneEvent then
    let p ← p.update .del c
    pure (p.setIndex c kDeleted)
  else
    p.update .mod c

def updateChannel (p : EPollPoller γ κ) (c : γ) : Except PollerFault (EPollPoller γ κ) :=
  if (p.channel c).index = kNew ∨ (p.channel c).index = kDeleted then
    p.updateAbsent c
  else
    p.updateAdded c

def removeChannel (p : EPollPoller γ κ) (c : γ) : Except PollerFault (EPollPoller γ κ) := do
  let fd := (p.channel c).fd
  require (p.channels fd ≠ none) (.assertion .removePresent)
  require (p.channels fd = some c) (.assertion .removeSame)
  require (p.channel c).isNoneEvent (.assertion .removeNone)
  let index := (p.channel c).index
  require (index = kAdded ∨ index = kDeleted) (.assertion .removeIndex)
  require (p.channels fd ≠ none) (.assertion .removeErased)
  let p := { p with channels := Function.update p.channels fd none }
  let p ← (if index = kAdded then p.update .del c else pure p)
  pure (p.setIndex c kNew)

/-- `Channel::enableReading` and its siblings, down to the poller. -/
def interest (p : EPollPoller γ κ) (c : γ) (op : Interest) :
    Except PollerFault (EPollPoller γ κ) :=
  (p.setChannel c ((p.channel c).setInterest op)).updateChannel c

/-- `Channel::remove`, down to the poller. -/
def remove (p : EPollPoller γ κ) (c : γ) : Except PollerFault (EPollPoller γ κ) := do
  require (p.channel c).isNoneEvent (.assertion .channelRemoveNone)
  (p.setChannel c { p.channel c with addedToLoop := false }).removeChannel c

/-- One entry of the loop of `fillActiveChannels`. -/
def fillActiveChannel (p : EPollPoller γ κ) (event : γ × Mask) :
    Except PollerFault (EPollPoller γ κ) := do
  let (c,revents) := event
  require (p.channels (p.channel c).fd ≠ none) (.assertion .fillPresent)
  require (p.channels (p.channel c).fd = some c) (.assertion .fillSame)
  pure { p.setChannel c { p.channel c with revents := revents } with
    activeChannels := p.activeChannels ++ [c] }

def fillActiveChannels (p : EPollPoller γ κ) (ready : List (γ × Mask)) :
    Except PollerFault (EPollPoller γ κ) := do
  require (ready.length ≤ p.eventListSize) (.assertion .fillCount)
  ready.foldlM fillActiveChannel p

/-- `EPollPoller::poll` on the entries `epoll_wait` stored, after the loop cleared
`activeChannels`. A full event list is doubled. -/
def poll (p : EPollPoller γ κ) (ready : List (γ × Mask)) :
    Except PollerFault (EPollPoller γ κ) := do
  let p := { p with activeChannels := [] }
  if 0 < ready.length then
    let p ← p.fillActiveChannels ready
    pure (if ready.length = p.eventListSize then { p with eventListSize := p.eventListSize*2 } else p)
  else
    pure p

end EPollPoller
end LearningMuduo.Reactor
