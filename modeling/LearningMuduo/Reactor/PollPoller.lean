import LearningMuduo.Library.Machine
import LearningMuduo.Reactor.Channel
import Mathlib.Logic.Function.Basic

/-! The poll poller: the array handed to `::poll`, in which the index of a channel is a
position and a negative descriptor is one that is ignored. -/
namespace LearningMuduo.Reactor
open Library

/-- A `struct pollfd`; the flags are of type `short`. -/
structure PollFd where
  fd : Int
  events : BitVec 16
  revents : BitVec 16
  deriving DecidableEq, Repr

inductive PollAssert where
  | updateIndex | updateFd
  | channelRemoveNone
  | removeIndex | removeEntry | removeErased
  deriving DecidableEq, Repr

/-- `nullChannel` is the call through the null pointer that `channels_[fd]` inserts for an
unknown descriptor. -/
inductive PollFault where
  | assertion (site : PollAssert)
  | nullChannel
  deriving DecidableEq, Repr

structure PollPoller (γ κ : Type) where
  channel : γ → Channel κ
  channels : Int → Option γ
  pollfds : List PollFd

/-- A `short` from an `int`, and back. -/
def toShort (m : Mask) : BitVec 16 := m.setWidth 16

def ofShort (s : BitVec 16) : Mask := s.signExtend 32

/-- How a descriptor is marked to be ignored. -/
def ignored (fd : Int) : Int := -fd-1

namespace PollPoller
variable {γ κ : Type} [DecidableEq γ]

/-- Fresh channels on the given descriptors, none of them registered. -/
def new (fd : γ → Int) : PollPoller γ κ := ⟨fun c => Channel.new (fd c),fun _ => none,[]⟩

def setChannel (p : PollPoller γ κ) (c : γ) (ch : Channel κ) : PollPoller γ κ :=
  { p with channel := Function.update p.channel c ch }

def setIndex (p : PollPoller γ κ) (c : γ) (index : Int) : PollPoller γ κ :=
  p.setChannel c { p.channel c with index := index }

/-- The entry at an index that is within the array. -/
def entryAt (p : PollPoller γ κ) (index : Int) : Option PollFd :=
  if 0 ≤ index then p.pollfds[index.toNat]? else none

def updateChannel (p : PollPoller γ κ) (c : γ) : Except PollFault (PollPoller γ κ) :=
  let ch := p.channel c
  if ch.index < 0 then
    let pollfds := p.pollfds ++ [⟨ch.fd,toShort ch.events,toShort ch.revents⟩]
    let p := { p with pollfds := pollfds }.setIndex c (pollfds.length-1 : Nat)
    pure { p with channels := Function.update p.channels ch.fd (some c) }
  else
    let idx := ch.index
    match p.entryAt idx with
    | none => .error (.assertion .updateIndex)
    | some pfd => do
      require (pfd.fd = ch.fd ∨ pfd.fd = ignored ch.fd) (.assertion .updateFd)
      let pfd := { pfd with events := toShort ch.events, revents := toShort ch.revents }
      -- an entry that is ignored stays so when events are asked for again
      let pfd := if ch.isNoneEvent then { pfd with fd := ignored ch.fd } else pfd
      pure { p with pollfds := p.pollfds.set idx.toNat pfd }

/-- The index of the removed channel keeps its value. -/
def removeChannel (p : PollPoller γ κ) (c : γ) : Except PollFault (PollPoller γ κ) :=
  let ch := p.channel c
  let idx := ch.index
  match p.entryAt idx with
  | none => .error (.assertion .removeIndex)
  | some pfd => do
    require (pfd.fd = ignored ch.fd ∧ ofShort pfd.events = ch.events) (.assertion .removeEntry)
    require (p.channels ch.fd ≠ none) (.assertion .removeErased)
    let p := { p with channels := Function.update p.channels ch.fd none }
    if idx.toNat = p.pollfds.length-1 then
      pure { p with pollfds := p.pollfds.dropLast }
    else
      let back := p.pollfds.getLastD pfd
      let channelAtEnd : Int := if back.fd < (0 : Int) then ignored back.fd else back.fd
      -- `iter_swap` and `pop_back`
      let pollfds := (p.pollfds.set idx.toNat back).dropLast
      match p.channels channelAtEnd with
      | none => .error .nullChannel
      | some d => pure ({ p with pollfds := pollfds }.setIndex d idx)

/-- `Channel::enableReading` and its siblings, down to the poller. -/
def interest (p : PollPoller γ κ) (c : γ) (op : Interest) : Except PollFault (PollPoller γ κ) :=
  (p.setChannel c ((p.channel c).setInterest op)).updateChannel c

/-- `Channel::remove`, down to the poller. -/
def remove (p : PollPoller γ κ) (c : γ) : Except PollFault (PollPoller γ κ) := do
  require (p.channel c).isNoneEvent (.assertion .channelRemoveNone)
  (p.setChannel c { p.channel c with addedToLoop := false }).removeChannel c

end PollPoller
end LearningMuduo.Reactor
