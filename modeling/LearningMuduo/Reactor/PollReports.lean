import LearningMuduo.Reactor.PollBijection
import LearningMuduo.Reactor.PollersAgree

/-! What the two pollers report. The kernel answers `::poll` and `epoll_wait` from the same
conditions, and both pollers pass the same events on to the same channels. -/
namespace LearningMuduo.Reactor
open Library
variable {γ κ : Type}

/-- The flags that describe an open descriptor. -/
def kConditions : Mask := POLLIN ||| POLLPRI ||| POLLOUT ||| POLLERR ||| POLLHUP ||| POLLRDHUP

/-- What is the case with every descriptor while the kernel looks at it. -/
structure Conditions where
  mask : Int → Mask
  flags : ∀ v, mask v &&& kConditions = mask v

/-- The events for a channel that watches v for ev; errors and hang-ups need not be asked for. -/
def Conditions.seen (cond : Conditions) (v : Int) (ev : Mask) : Mask := cond.mask v &&& (ev ||| POLLERR ||| POLLHUP)

/-- The `revents` that `::poll` writes into an entry. -/
def Conditions.revents (cond : Conditions) (pfd : PollFd) : BitVec 16 :=
  if pfd.fd < 0 then 0 else toShort (cond.mask pfd.fd) &&& (pfd.events ||| toShort (POLLERR ||| POLLHUP ||| POLLNVAL))

/-- The events `epoll_wait` has for a channel. -/
def EPollPoller.pending [DecidableEq γ] (q : EPollPoller γ κ) (cond : Conditions) (c : γ) : Mask :=
  match q.interestList (q.channel c).fd with
  | some (ev,d) => if d = c then cond.seen (q.channel c).fd ev else 0
  | none => 0

/-- What `epoll_wait` stores: at most a full event list, in any order, and all there is unless
the list is full. -/
structure EPollPoller.Stored [DecidableEq γ] (q : EPollPoller γ κ) (cond : Conditions) (ready : List (γ × Mask)) : Prop where
  room : ready.length ≤ q.eventListSize
  once : (ready.map Prod.fst).Nodup
  some : ∀ e ∈ ready, e.2 ≠ 0 ∧ e.2 = q.pending cond e.1
  all : ready.length < q.eventListSize → ∀ c, q.pending cond c ≠ 0 → c ∈ ready.map Prod.fst

instance [DecidableEq γ] [Fintype γ] (q : EPollPoller γ κ) (cond : Conditions) (ready : List (γ × Mask)) :
    Decidable (q.Stored cond ready) :=
  -- the quantifier ranges over the list, not over every pair of channel and mask
  have : Decidable (∀ e ∈ ready, e.2 ≠ 0 ∧ e.2 = q.pending cond e.1) := List.decidableBAll _ ready
  decidable_of_iff (ready.length ≤ q.eventListSize ∧ (ready.map Prod.fst).Nodup ∧
      (∀ e ∈ ready, e.2 ≠ 0 ∧ e.2 = q.pending cond e.1) ∧
      (ready.length < q.eventListSize → ∀ c, q.pending cond c ≠ 0 → c ∈ ready.map Prod.fst))
    ⟨fun h => ⟨h.1,h.2.1,h.2.2.1,h.2.2.2⟩,fun h => ⟨h.room,h.once,h.some,h.all⟩⟩

private theorem ofShort_flags {m : Mask} (h : m &&& kConditions = m) :
    ofShort (toShort m) = m ∧ (0 < (toShort m).toInt ↔ m ≠ 0) := by
  have hle : m.toNat < 2^15 := by
    rw [← h,BitVec.toNat_and]
    exact lt_of_le_of_lt Nat.and_le_right (by decide)
  have hnat : (toShort m).toNat = m.toNat := by
    rw [toShort,BitVec.toNat_setWidth,Nat.mod_eq_of_lt (hle.trans (by decide))]
  have hmsb : (toShort m).msb = false := by
    rw [BitVec.msb_eq_decide,hnat]
    exact decide_eq_false (Nat.not_le.mpr hle)
  constructor
  · apply BitVec.eq_of_toNat_eq
    rw [ofShort,BitVec.signExtend_eq_setWidth_of_msb_false hmsb,BitVec.toNat_setWidth,hnat]
    exact Nat.mod_eq_of_lt m.isLt
  · rw [BitVec.toInt_eq_toNat_of_msb hmsb,hnat,Int.natCast_pos,Nat.pos_iff_ne_zero,ne_eq,ne_eq,
      ← BitVec.toNat_inj]
    rfl

private theorem seen_flags (cond : Conditions) (v : Int) (ev : Mask) :
    cond.seen v ev &&& kConditions = cond.seen v ev := by
  rw [Conditions.seen,BitVec.and_assoc,BitVec.and_comm (ev ||| _ ||| _),← BitVec.and_assoc,cond.flags]

private theorem revents_eq (cond : Conditions) {pfd : PollFd} {ev : Mask} (hpos : 0 ≤ pfd.fd) (hev : pfd.events = toShort ev) :
    cond.revents pfd = toShort (cond.seen pfd.fd ev) := by
  have hnval : cond.mask pfd.fd &&& POLLNVAL = 0 := by
    rw [← cond.flags,BitVec.and_assoc,show kConditions &&& POLLNVAL = 0#32 from by decide,BitVec.and_zero]
    rfl
  have hmask : cond.mask pfd.fd &&& (ev ||| (POLLERR ||| POLLHUP ||| POLLNVAL)) = cond.seen pfd.fd ev := by
    rw [Conditions.seen,← BitVec.or_assoc,← BitVec.or_assoc,BitVec.and_or_distrib_left,hnval]
    exact BitVec.or_zero
  rw [Conditions.revents,if_neg (Int.not_lt.mpr hpos),hev,← hmask,toShort,toShort,toShort,← BitVec.setWidth_or,
    ← BitVec.setWidth_and,toShort]

namespace PollPoller

/-- The array as `::poll` leaves it. -/
def reply (p : PollPoller γ κ) (cond : Conditions) : List (BitVec 16) := p.pollfds.map cond.revents

/-- The result of `::poll`. -/
def numEvents (p : PollPoller γ κ) (cond : Conditions) : Nat := p.pollfds.countP fun pfd => cond.revents pfd ≠ 0

/-- `PollPoller::poll`, on what `::poll` returned. A timeout and an error report nothing. -/
def poll [DecidableEq γ] (p : PollPoller γ κ) (reply : List (BitVec 16)) (numEvents : Int) : Option (PollPoller γ κ × List γ) :=
  if numEvents > 0 then (p.answered reply).fillActiveChannels numEvents.toNat [] else some (p.answered reply,[])

private theorem fillLoop_frame [DecidableEq γ] (rest : List PollFd) {p q : PollPoller γ κ} {front : List PollFd} {n : Nat}
    {active more : List γ} (h : p.fillLoop front rest n active = some (q,more)) :
    q.channels = p.channels ∧ q.pollfds.map asked = (front ++ rest).map asked ∧
      ∀ c, ∃ revents, q.channel c = { p.channel c with revents := revents } := by
  induction rest generalizing p front n active with
  | nil =>
    obtain ⟨rfl,-⟩ := Prod.mk.inj (Option.some.inj h)
    exact ⟨rfl,by rw [List.append_nil],fun c => ⟨_,rfl⟩⟩
  | cons pfd rest ih =>
    rw [fillLoop] at h
    split at h
    · split at h
      · cases hc : p.channels pfd.fd with
        | none =>
          rw [hc] at h
          cases h
        | some c =>
          rw [hc] at h
          obtain ⟨hmap,harr,hch⟩ := ih h
          refine ⟨hmap,?_,fun d => ?_⟩
          · rw [harr]
            simp only [List.map_append,List.append_assoc]
            rfl
          · obtain ⟨revents,hr⟩ := hch d
            by_cases hd : d = c
            · rw [hd] at hr ⊢
              exact ⟨revents,by rw [hr,setChannel_self]⟩
            · exact ⟨revents,by rw [hr,setChannel_of_ne hd]⟩
      · obtain ⟨hmap,harr,hch⟩ := ih h
        exact ⟨hmap,by rw [harr,List.append_assoc,List.singleton_append],hch⟩
    · obtain ⟨rfl,-⟩ := Prod.mk.inj (Option.some.inj h)
      exact ⟨rfl,rfl,fun c => ⟨_,rfl⟩⟩

private theorem poll_natCast [DecidableEq γ] (p : PollPoller γ κ) (reply : List (BitVec 16)) (n : Nat) :
    p.poll reply n = (p.answered reply).fillActiveChannels n [] := by
  rw [poll]
  cases n with
  | zero =>
    rw [if_neg (by decide),fillActiveChannels]
    cases hp : (p.answered reply).pollfds with
    | nil => rw [fillLoop,← hp]
    | cons pfd rest => rw [fillLoop,if_neg (Nat.lt_irrefl 0),List.nil_append,← hp]
  | succ n => rw [if_pos (by omega),Int.toNat_natCast]

private theorem answered_reply (p : PollPoller γ κ) (cond : Conditions) :
    (p.answered (p.reply cond)).pollfds = p.pollfds.map fun pfd => { pfd with revents := cond.revents pfd } := by
  change p.pollfds.zipWith _ (p.pollfds.map _) = _
  rw [List.zipWith_map_right,List.zipWith_self]

private theorem answered_entryAt (p : PollPoller γ κ) (cond : Conditions) (i : Int) :
    (p.answered (p.reply cond)).entryAt i = (p.entryAt i).map fun pfd => { pfd with revents := cond.revents pfd } := by
  rw [entryAt,entryAt,answered_reply]
  split
  · exact List.getElem?_map
  · rfl

private theorem mark_congr {p p' : PollPoller γ κ} {c : γ} (harr : p'.pollfds.map asked = p.pollfds.map asked)
    (hi : (p'.channel c).index = (p.channel c).index) : p'.mark c = p.mark c := by
  have hfds : p'.pollfds.map PollFd.fd = p.pollfds.map PollFd.fd := by
    have h := congrArg (List.map Prod.fst) harr
    rw [List.map_map,List.map_map] at h
    exact h
  have hat := congrArg (fun l : List Int => l[(p.channel c).index.toNat]?) hfds
  simp only [List.getElem?_map] at hat
  rw [mark,mark,entryAt,entryAt,hi]
  split
  · exact hat
  · rfl

end PollPoller

variable {fd : γ → Int} {u : γ → Use} {p : PollPoller γ κ} {q : EPollPoller γ κ}

private theorem Related.of_revents (h : Related fd u p q) {p' : PollPoller γ κ} (hmap : p'.channels = p.channels)
    (harr : p'.pollfds.map PollPoller.asked = p.pollfds.map PollPoller.asked)
    (hch : ∀ c, ∃ revents, p'.channel c = { p.channel c with revents := revents }) : Related fd u p' q := by
  have hsame (c : γ) : (p'.channel c).fd = (p.channel c).fd ∧ (p'.channel c).index = (p.channel c).index ∧
      (p'.channel c).events = (p.channel c).events := by
    obtain ⟨revents,hr⟩ := hch c
    rw [hr]
    exact ⟨rfl,rfl,rfl⟩
  refine ⟨h.slotted.congr hsame hmap harr,h.consistent,fun c => ?_,h.epoll_fd,fun c => ?_,fun c => ?_,fun c => ?_⟩
  · rw [(hsame c).1,h.poll_fd]
  · rw [(hsame c).2.2,h.events]
  · rw [(hsame c).2.2,h.short]
  · obtain ⟨hfd,hi,hev⟩ := hsame c
    have hs := h.status c
    cases hu : u c with
    | unused =>
      rw [hu] at hs
      rw [Status,hmap,hfd,hi,hev]
      exact hs
    | watched =>
      rw [hu] at hs
      rw [Status,hmap,hfd,PollPoller.mark_congr harr hi]
      exact hs
    | parked =>
      rw [hu] at hs
      rw [Status,hmap,hfd,PollPoller.mark_congr harr hi,hev]
      exact hs
    | removed =>
      rw [hu] at hs
      rw [Status,hmap,hfd,hi,hev]
      exact hs

private theorem Related.watched_entry (h : Related fd u p q) {c : γ} (hu : u c = .watched) :
    ∃ pfd ∈ p.pollfds, p.entryAt (p.channel c).index = some pfd ∧ pfd.fd = fd c ∧
      pfd.events = toShort (p.channel c).events ∧ p.channels (fd c) = some c := by
  have hs := h.status c
  rw [hu] at hs
  obtain ⟨hreg,hm,-⟩ := hs
  obtain ⟨i,pfd,hi,hp,-,hev⟩ := h.slotted.slot _ c hreg
  have he : p.entryAt (p.channel c).index = some pfd := by rw [hi,PollPoller.entryAt_natCast,hp]
  rw [PollPoller.mark,he] at hm
  rw [h.poll_fd] at hm hreg
  exact ⟨pfd,List.mem_of_getElem? hp,he,Option.some.inj hm,hev,hreg⟩

private theorem Related.watched_of_entry (h : Related fd u p q) {c : γ} {pfd : PollFd} (hpos : 0 ≤ pfd.fd)
    (hc : p.channels pfd.fd = some c) (he : p.entryAt (p.channel c).index = some pfd) : u c = .watched := by
  have hfd := (h.slotted.fd_of _ c hc).1
  have hs := h.status c
  cases hu : u c with
  | unused =>
    rw [hu,Status,hfd,hc] at hs
    cases hs.1
  | watched => rfl
  | parked =>
    rw [hu,Status,PollPoller.mark,he,hfd] at hs
    have hign : pfd.fd = ignored pfd.fd := Option.some.inj hs.2.1
    unfold ignored at hign
    exact absurd hpos (by omega)
  | removed =>
    rw [hu,Status,hfd,hc] at hs
    cases hs.1

private theorem forall₂_left {α β : Type} {R : α → β → Prop} {as : List α} {bs : List β} (h : List.Forall₂ R as bs) :
    ∀ a ∈ as, ∃ b ∈ bs, R a b := by
  induction h with
  | nil => simp
  | cons hr _ ih =>
    intro a ha
    rcases List.mem_cons.mp ha with rfl | ha
    · exact ⟨_,List.mem_cons_self,hr⟩
    · obtain ⟨b,hb,hab⟩ := ih a ha
      exact ⟨b,List.mem_cons_of_mem _ hb,hab⟩

private theorem fired_iff (cond : Conditions) {pfd : PollFd} {ev : Mask} (hpos : 0 ≤ pfd.fd) (hev : pfd.events = toShort ev) :
    PollPoller.Fired { pfd with revents := cond.revents pfd } ↔ cond.seen pfd.fd ev ≠ 0 := by
  change 0 < (cond.revents pfd).toInt ↔ _
  rw [revents_eq cond hpos hev]
  exact (ofShort_flags (seen_flags cond pfd.fd ev)).2

private theorem Related.reply (h : Related fd u p q) (cond : Conditions) : p.Reply (p.reply cond) (p.numEvents cond) := by
  refine ⟨List.length_map _,?_,fun pfd hmem hneg hfired => ?_⟩
  · rw [PollPoller.answered_reply,← List.countP_eq_length_filter,List.countP_map,PollPoller.numEvents]
    refine List.countP_congr fun pfd hmem => ?_
    simp only [Function.comp_apply,decide_eq_true_eq]
    by_cases hneg : pfd.fd < 0
    · have hz : cond.revents pfd = 0 := if_pos hneg
      rw [hz]
      change 0 ≠ 0 ↔ 0 < (0 : BitVec 16).toInt
      decide
    · obtain ⟨i,hi⟩ := List.getElem?_of_mem hmem
      obtain ⟨c,hc,hindex⟩ := h.slotted.owner_of_nonneg hi (Int.not_lt.mp hneg)
      obtain ⟨j,pfd',hj,hp',-,hev⟩ := h.slotted.slot _ c hc
      have hij : j = i := Int.natCast_inj.mp (hj.symm.trans hindex)
      rw [hij,hi] at hp'
      obtain rfl := Option.some.inj hp'
      rw [fired_iff cond (Int.not_lt.mp hneg) hev,revents_eq cond (Int.not_lt.mp hneg) hev]
      have hflags := seen_flags cond pfd.fd (p.channel c).events
      constructor
      · intro hne hz
        rw [hz] at hne
        exact hne rfl
      · intro hne hz
        rw [← (ofShort_flags hflags).1,hz] at hne
        exact hne (by decide)
  · rw [PollPoller.answered_reply] at hmem
    obtain ⟨pfd',-,rfl⟩ := List.mem_map.mp hmem
    have hz : cond.revents pfd' = 0 := if_pos hneg
    rw [hz] at hfired
    exact absurd hfired (by decide : ¬ 0 < (0 : BitVec 16).toInt)

variable [DecidableEq γ]

/-- `::poll` reports the watched channels for which there is something to see. -/
theorem Related.poll_spec (h : Related fd u p q) (cond : Conditions) :
    ∃ p' reported, p.poll (p.reply cond) (p.numEvents cond) = some (p',reported) ∧ Related fd u p' q ∧ reported.Nodup ∧
      (∀ c, (p'.channel c).events = (p.channel c).events) ∧
      ∀ c, (c ∈ reported ↔ u c = .watched ∧ cond.seen (fd c) (p.channel c).events ≠ 0) ∧
        (c ∈ reported → (p'.channel c).revents = cond.seen (fd c) (p.channel c).events) := by
  have hkept : p.Kept fd := ⟨h.slotted,h.poll_fd,h.short⟩
  obtain ⟨p',reported,hrun,⟨horder,honce⟩,-⟩ := hkept.fillActiveChannels (h.reply cond)
  obtain ⟨hmap,harr,hch⟩ := PollPoller.fillLoop_frame _ hrun
  have hasked : p'.pollfds.map PollPoller.asked = p.pollfds.map PollPoller.asked := by
    rw [harr,List.nil_append,PollPoller.answered_reply,List.map_map]
    rfl
  refine ⟨p',reported,(p.poll_natCast _ _).trans hrun,h.of_revents hmap hasked hch,honce,fun c => ?_,fun c => ?_⟩
  · obtain ⟨revents,hr⟩ := hch c
    rw [hr]
    rfl
  have hfound (hc : c ∈ reported) : u c = .watched ∧ cond.seen (fd c) (p.channel c).events ≠ 0 ∧
      (p'.channel c).revents = cond.seen (fd c) (p.channel c).events := by
    obtain ⟨pfd',hmem,hreg,hentry,hrev⟩ := forall₂_left horder.flip c hc
    have hfired : PollPoller.Fired pfd' := of_decide_eq_true (List.mem_filter.mp hmem).2
    have hpos : 0 ≤ pfd'.fd :=
      Int.not_lt.mp fun hneg => (h.reply cond).ignored pfd' (List.mem_filter.mp hmem).1 hneg hfired
    rw [PollPoller.answered_entryAt] at hentry
    obtain ⟨pfd,he,rfl⟩ := Option.map_eq_some_iff.mp hentry
    change 0 ≤ pfd.fd at hpos
    have hu := h.watched_of_entry (c := c) hpos hreg he
    obtain ⟨_,-,he',hfd,hev,-⟩ := h.watched_entry hu
    obtain rfl := Option.some.inj (he.symm.trans he')
    rw [fired_iff cond hpos hev,hfd] at hfired
    refine ⟨hu,hfired,hrev.trans ?_⟩
    rw [← hfd]
    exact (congrArg ofShort (revents_eq cond hpos hev)).trans (ofShort_flags (seen_flags cond _ _)).1
  refine ⟨⟨fun hc => ⟨(hfound hc).1,(hfound hc).2.1⟩,fun hc => ?_⟩,fun hc => (hfound hc).2.2⟩
  obtain ⟨pfd,hmem,-,hfd,hev,hreg⟩ := h.watched_entry hc.1
  have hpos : 0 ≤ pfd.fd := hfd ▸ (h.slotted.fd_of _ c hreg).2
  have hin : { pfd with revents := cond.revents pfd } ∈ (p.answered (p.reply cond)).pollfds.filter
      (fun pfd => PollPoller.Fired pfd) := by
    rw [PollPoller.answered_reply]
    refine List.mem_filter.mpr ⟨List.mem_map.mpr ⟨pfd,hmem,rfl⟩,decide_eq_true ?_⟩
    rw [fired_iff cond hpos hev,hfd]
    exact hc.2
  obtain ⟨d,hd,hreg',-⟩ := forall₂_left horder _ hin
  have hsame : p.channels (fd c) = some d := hfd ▸ hreg'
  rw [hreg] at hsame
  obtain rfl := Option.some.inj hsame
  exact hd

/-- The index of a channel under the epoll poller. -/
def Use.epollIndex : Use → Int
  | .unused | .removed => kNew
  | .watched => kAdded
  | .parked => kDeleted

/-- `epoll_wait` has the same events for the same channels. -/
theorem Related.pending_eq (h : Related fd u p q) (hi : ∀ c, (q.channel c).index = (u c).epollIndex)
    (cond : Conditions) (c : γ) :
    q.pending cond c = if u c = .watched then cond.seen (fd c) (p.channel c).events else 0 := by
  have hnot (hne : (q.channel c).index ≠ kAdded) : u c ≠ .watched := by
    intro hu
    rw [hi,hu] at hne
    exact hne rfl
  have hnew : kNew ≠ kAdded := by decide
  rw [EPollPoller.pending]
  rcases h.consistent.entry c with (⟨hn,-,hw⟩ | ⟨ha,-,hw⟩ | ⟨hd,-,hw,-⟩) | ⟨hn,hno⟩
  · rw [hw,if_neg (hnot (hn ▸ hnew))]
  · have hu : u c = .watched := by
      rw [hi] at ha
      cases hu : u c with
      | watched => rfl
      | unused => rw [hu] at ha; exact absurd ha hnew
      | removed => rw [hu] at ha; exact absurd ha hnew
      | parked => rw [hu] at ha; exact absurd ha (by decide)
    rw [hw,if_pos hu]
    dsimp only
    rw [if_pos rfl,h.epoll_fd,h.events]
  · have hdel : kDeleted ≠ kAdded := by decide
    rw [hw,if_neg (hnot (hd ▸ hdel))]
  · rw [if_neg (hnot (hn ▸ hnew))]
    split
    · rename_i ev d hw
      refine if_neg fun hdc => hno ?_
      rw [hdc] at hw
      exact h.consistent.listed _ _ _ hw
    · rfl

namespace EPollPoller

/-- What the loop over the stored events has done. -/
private structure Filled (q q' : EPollPoller γ κ) (ready : List (γ × Mask)) : Prop where
  channels : q'.channels = q.channels
  interestList : q'.interestList = q.interestList
  eventListSize : q'.eventListSize = q.eventListSize
  failures : q'.failures = q.failures
  active : q'.activeChannels = q.activeChannels ++ ready.map Prod.fst
  changed : ∀ c, ∃ revents, q'.channel c = { q.channel c with revents := revents }
  others : ∀ c, c ∉ ready.map Prod.fst → q'.channel c = q.channel c
  revents : ∀ e ∈ ready, (q'.channel e.1).revents = e.2

private theorem fill_spec (ready : List (γ × Mask)) {q : EPollPoller γ κ} (hmap : ∀ e ∈ ready, q.InMap e.1)
    (honce : (ready.map Prod.fst).Nodup) :
    ∃ q', ready.foldlM fillActiveChannel q = .ok q' ∧ q.Filled q' ready := by
  induction ready generalizing q with
  | nil => exact ⟨q,rfl,rfl,rfl,rfl,rfl,(List.append_nil _).symm,fun c => ⟨_,rfl⟩,fun _ _ => rfl,by simp⟩
  | cons e ready ih =>
    obtain ⟨c,revents⟩ := e
    rw [List.map_cons,List.nodup_cons] at honce
    have hc : q.channels (q.channel c).fd = some c := hmap (c,revents) List.mem_cons_self
    let q1 : EPollPoller γ κ := { q.setChannel c { q.channel c with revents := revents } with
      activeChannels := q.activeChannels ++ [c] }
    have hself : q1.channel c = { q.channel c with revents := revents } := Function.update_self _ _ _
    have hother (d : γ) (hd : d ≠ c) : q1.channel d = q.channel d := Function.update_of_ne hd _ _
    have hstep : fillActiveChannel q (c,revents) = .ok q1 := by
      simp [fillActiveChannel,require,hc,q1]
    have hrest : ∀ e ∈ ready, q1.InMap e.1 := by
      intro e he
      have hne : e.1 ≠ c := fun heq => honce.1 (List.mem_map.mpr ⟨e,he,heq⟩)
      rw [InMap,hother e.1 hne]
      exact hmap e (List.mem_cons_of_mem _ he)
    obtain ⟨q',hrun,hf⟩ := ih hrest honce.2
    refine ⟨q',by rw [List.foldlM_cons,hstep]; exact hrun,hf.channels,hf.interestList,hf.eventListSize,hf.failures,
      ?_,fun d => ?_,fun d hd => ?_,fun e he => ?_⟩
    · rw [hf.active,List.append_assoc,List.singleton_append,List.map_cons]
    · obtain ⟨r,hr⟩ := hf.changed d
      by_cases hd : d = c
      · rw [hd] at hr ⊢
        exact ⟨r,by rw [hr,hself]⟩
      · exact ⟨r,by rw [hr,hother d hd]⟩
    · rw [List.map_cons,List.mem_cons,not_or] at hd
      rw [hf.others d hd.2,hother d hd.1]
    · rcases List.mem_cons.mp he with rfl | he
      · rw [hf.others c honce.1,hself]
      · exact hf.revents e he

omit [DecidableEq γ] in
private theorem Consistent.of_filled {q q' : EPollPoller γ κ} {ready : List (γ × Mask)} (h : q.Consistent)
    (hf : q.Filled q' ready) : q'.Consistent := by
  have hsame (c : γ) : (q'.channel c).fd = (q.channel c).fd ∧ (q'.channel c).index = (q.channel c).index ∧
      (q'.channel c).events = (q.channel c).events := by
    obtain ⟨revents,hr⟩ := hf.changed c
    rw [hr]
    exact ⟨rfl,rfl,rfl⟩
  refine ⟨fun v c hc => ?_,fun v ev c hw => ?_,fun c => ?_,hf.failures.trans h.legal⟩
  · rw [(hsame c).1]
    exact h.fd_of v c (hf.channels ▸ hc)
  · rw [hf.channels]
    exact h.listed v ev c (hf.interestList ▸ hw)
  · obtain ⟨hfd,hi,hev⟩ := hsame c
    have he := h.entry c
    unfold Entry InMap Channel.isNoneEvent at he ⊢
    rw [hfd,hi,hev,hf.channels,hf.interestList]
    exact he

/-- A return of `epoll_wait`, and the event list that is doubled when it was full. -/
theorem poll_spec {q : EPollPoller γ κ} (ready : List (γ × Mask)) (hmap : ∀ e ∈ ready, q.InMap e.1)
    (honce : (ready.map Prod.fst).Nodup) (hroom : ready.length ≤ q.eventListSize) :
    ∃ q', q.poll ready = .ok q' ∧ (∀ c, (q'.channel c).fd = (q.channel c).fd ∧
        (q'.channel c).index = (q.channel c).index ∧ (q'.channel c).events = (q.channel c).events) ∧
      (q.Consistent → q'.Consistent) ∧ q'.activeChannels = ready.map Prod.fst ∧
      (∀ e ∈ ready, (q'.channel e.1).revents = e.2) ∧
      (ready.length < q.eventListSize ∨ q'.eventListSize = 2*ready.length) := by
  let q0 : EPollPoller γ κ := { q with activeChannels := [] }
  have hsame {q1 : EPollPoller γ κ} (hf : q0.Filled q1 ready) (c : γ) : (q1.channel c).fd = (q.channel c).fd ∧
      (q1.channel c).index = (q.channel c).index ∧ (q1.channel c).events = (q.channel c).events := by
    obtain ⟨revents,hr⟩ := hf.changed c
    rw [hr]
    exact ⟨rfl,rfl,rfl⟩
  obtain ⟨q1,hrun,hf⟩ := fill_spec (q := q0) ready hmap honce
  have hcons (h : q.Consistent) : q1.Consistent := by
    have h0 : q0.Consistent := ⟨h.fd_of,h.listed,h.entry,h.legal⟩
    exact h0.of_filled hf
  have hfill : q0.fillActiveChannels ready = .ok q1 := by
    rw [fillActiveChannels,require_pos hroom,bind_ok,hrun]
  have hsame1 := hsame hf
  rw [poll]
  change ∃ q', (if 0 < ready.length then q0.fillActiveChannels ready >>= _ else pure q0) = .ok q' ∧ _
  rw [hfill,bind_ok]
  by_cases hpos : 0 < ready.length
  · by_cases hfull : ready.length = q1.eventListSize
    · refine ⟨{ q1 with eventListSize := q1.eventListSize*2 },by rw [if_pos hpos,if_pos hfull]; rfl,hsame1,fun h => ?_,
        hf.active,hf.revents,.inr ?_⟩
      · exact ⟨(hcons h).fd_of,(hcons h).listed,(hcons h).entry,(hcons h).legal⟩
      · rw [hfull,Nat.mul_comm]
    · refine ⟨q1,by rw [if_pos hpos,if_neg hfull]; rfl,hsame1,hcons,hf.active,hf.revents,.inl ?_⟩
      have hsize : q1.eventListSize = q.eventListSize := hf.eventListSize
      omega
  · have hnil : ready = [] := List.length_eq_zero_iff.mp (Nat.eq_zero_of_not_pos hpos)
    subst hnil
    refine ⟨q0,by rw [if_neg hpos]; rfl,fun c => ⟨rfl,rfl,rfl⟩,fun h => ⟨h.fd_of,h.listed,h.entry,h.legal⟩,rfl,by simp,?_⟩
    rcases Nat.eq_zero_or_pos q.eventListSize with hz | hz
    · exact .inr hz
    · exact .inl hz

end EPollPoller

private theorem Related.interest_channel (h : Related fd u p q) (hinj : Function.Injective fd) {c : γ} {op : Interest}
    {q' : EPollPoller γ κ} (hq : q.interest c op = .ok q') :
    q'.channel = Function.update q.channel c ((q.channel c).setInterest op).updated := by
  obtain ⟨own,watch,hput,-⟩ := EPollPoller.interest_put h.consistent (h.lone hinj c) op
  rw [hput] at hq
  obtain rfl := Except.ok.inj hq
  rfl

private theorem Related.interest_index (h : Related fd u p q) (hinj : Function.Injective fd)
    (hi : ∀ c, (q.channel c).index = (u c).epollIndex) {c : γ} {op : Interest} {q' : EPollPoller γ κ} {y : Use}
    (hq : q.interest c op = .ok q')
    (hy : y = if u c = .watched ∧ ((q.channel c).setInterest op).isNoneEvent then .parked else .watched) (d : γ) :
    (q'.channel d).index = (Function.update u c y d).epollIndex := by
  rw [h.interest_channel hinj hq]
  by_cases hd : d = c
  · subst hd
    rw [Function.update_self,Function.update_self,hy,Channel.updated]
    have hadded : ((q.channel d).setInterest op).index = kAdded ↔ u d = .watched := by
      change (q.channel d).index = kAdded ↔ _
      rw [hi]
      cases u d <;> decide
    simp only [hadded]
    split <;> rfl
  · rw [Function.update_of_ne hd,Function.update_of_ne hd,hi]

/-- The index follows the use of the channel, as long as a parked channel is not disabled again. -/
theorem Related.index_step (h : Related fd u p q) (hinj : Function.Injective fd)
    (hi : ∀ c, (q.channel c).index = (u c).epollIndex) {x : γ × ChannelOp} {u' : γ → Use} {q' : EPollPoller γ κ}
    (hu : useStep u x = some u') (honce : u x.1 = .parked → x.2 ≠ .disableAll) (hq : q.operate x = .ok q') (d : γ) :
    (q'.channel d).index = (u' d).epollIndex := by
  obtain ⟨c,op⟩ := x
  obtain ⟨y,hy,rfl⟩ := Option.map_eq_some_iff.mp hu
  dsimp only at hy honce
  cases op with
  | enableReading =>
    refine h.interest_index hinj hi hq ?_ d
    rw [if_neg fun hh => enabled_not_none _ (.inl rfl) hh.2]
    cases hc : u c <;> simp [hc,Use.step] at hy <;> exact hy.symm
  | enableWriting =>
    refine h.interest_index hinj hi hq ?_ d
    rw [if_neg fun hh => enabled_not_none _ (.inr rfl) hh.2]
    cases hc : u c <;> simp [hc,Use.step] at hy <;> exact hy.symm
  | disableAll =>
    refine h.interest_index hinj hi hq ?_ d
    have hnone : ((q.channel c).setInterest .disableAll).isNoneEvent := rfl
    cases hc : u c with
    | unused => simp [hc,Use.step] at hy ⊢; exact hy.symm
    | watched => simp [hc,Use.step,hnone] at hy ⊢; exact hy.symm
    | parked => exact absurd rfl (honce hc)
    | removed => simp [hc,Use.step] at hy
  | remove =>
    have hs := h.status c
    have hc : u c = .parked := by
      cases hc : u c <;> simp [hc,Use.step] at hy
      rfl
    rw [hc,Use.step] at hy
    obtain rfl := Option.some.inj hy
    rw [hc] at hs
    obtain ⟨-,-,hz,hne⟩ := hs
    have hrun := EPollPoller.remove_put h.consistent (c := c) ((h.events c).trans hz) hne
    obtain rfl := Except.ok.inj (hrun.symm.trans hq)
    by_cases hd : d = c
    · subst hd
      rw [Function.update_self]
      change (Function.update q.channel d _ d).index = _
      rw [Function.update_self]
      rfl
    · rw [Function.update_of_ne hd,← hi]
      change (Function.update q.channel c _ d).index = _
      rw [Function.update_of_ne hd]

/-- The two pollers over the same channels. `reported` are the active channels of the loop that
has the poll poller. -/
structure SideBySide (γ κ : Type) where
  use : γ → Use
  poll : PollPoller γ κ
  reported : List γ
  epoll : EPollPoller γ κ

/-- A call on a channel, a return of `::poll` and `epoll_wait`, or both of them interrupted. -/
inductive SideOp (γ : Type) where
  | call (c : γ) (op : ChannelOp)
  | poll (cond : Conditions) (ready : List (γ × Mask))
  | interrupted

/-- `unknownDescriptor` is the assertion of the poll poller's `fillActiveChannels`. -/
inductive SideFault where
  | poll (fault : PollFault)
  | unknownDescriptor
  | epoll (fault : PollerFault)

namespace SideBySide

def start (fd : γ → Int) : SideBySide γ κ := ⟨fun _ => .unused,.new fd,[],.new fd⟩

def returned (s : SideBySide γ κ) (reply : List (BitVec 16)) (numEvents : Int) (ready : List (γ × Mask)) :
    Except SideFault (SideBySide γ κ) :=
  match s.poll.poll reply numEvents with
  | none => .error .unknownDescriptor
  | some (poll,reported) => do
    let epoll ← (s.epoll.poll ready).mapError .epoll
    pure { s with poll := poll, reported := reported, epoll := epoll }

def code (s : SideBySide γ κ) : SideOp γ → Except SideFault (SideBySide γ κ)
  | .call c op => do
    let poll ← (s.poll.operate (c,op)).mapError .poll
    let epoll ← (s.epoll.operate (c,op)).mapError .epoll
    pure { s with use := (useStep s.use (c,op)).getD s.use, poll := poll, epoll := epoll }
  | .poll cond ready => s.returned (s.poll.reply cond) (s.poll.numEvents cond) ready
  -- the array keeps the returned events of the call before
  | .interrupted => s.returned (s.poll.pollfds.map PollFd.revents) (-1) []

/-- The channels are used as they should be; a parked one is not disabled a second time, after
which epoll would watch it for hang-ups. -/
def machine : Machine (SideBySide γ κ) (SideOp γ) SideFault where
  Enabled s
    | .call c op => (useStep s.use (c,op)).isSome ∧ (s.use c = .parked → op ≠ .disableAll)
    | .poll cond ready => s.epoll.Stored cond ready
    | .interrupted => True
  step := code

instance [Fintype γ] (s : SideBySide γ κ) : (a : SideOp γ) → Decidable (machine.Enabled s a)
  | .call c op => inferInstanceAs (Decidable ((useStep s.use (c,op)).isSome ∧ (s.use c = .parked → op ≠ .disableAll)))
  | .poll cond ready => inferInstanceAs (Decidable (s.epoll.Stored cond ready))
  | .interrupted => isTrue trivial

/-- What the loops over the two pollers get to see. Only a full event list makes a difference,
and it has been doubled. -/
structure SameReports (fd : γ → Int) (cond : Conditions) (s : SideBySide γ κ) : Prop where
  due : ∀ c, c ∈ s.reported ↔ s.use c = .watched ∧ cond.seen (fd c) (s.poll.channel c).events ≠ 0
  revents : ∀ c ∈ s.reported, (s.poll.channel c).revents = cond.seen (fd c) (s.poll.channel c).events
  poll_once : s.reported.Nodup
  epoll_once : s.epoll.activeChannels.Nodup
  same : ∀ c ∈ s.epoll.activeChannels, c ∈ s.reported ∧ (s.epoll.channel c).revents = (s.poll.channel c).revents
  whole : s.epoll.activeChannels.Perm s.reported ∨ s.epoll.eventListSize = 2*s.epoll.activeChannels.length

/-- What every step keeps. -/
structure Paired (fd : γ → Int) (s : SideBySide γ κ) : Prop where
  related : Related fd s.use s.poll s.epoll
  index : ∀ c, (s.epoll.channel c).index = (s.use c).epollIndex

variable {s : SideBySide γ κ}

omit [DecidableEq γ] in
private theorem Paired.epoll (h : s.Paired fd) {q : EPollPoller γ κ} (hcons : q.Consistent)
    (hsame : ∀ c, (q.channel c).fd = (s.epoll.channel c).fd ∧ (q.channel c).index = (s.epoll.channel c).index ∧
      (q.channel c).events = (s.epoll.channel c).events) : Paired fd { s with epoll := q } := by
  refine ⟨⟨h.related.slotted,hcons,h.related.poll_fd,fun c => ?_,fun c => ?_,h.related.short,fun c => ?_⟩,fun c => ?_⟩
  · exact (hsame c).1.trans (h.related.epoll_fd c)
  · exact (hsame c).2.2.trans (h.related.events c)
  · have hs := h.related.status c
    cases hu : s.use c with
    | unused =>
      rw [hu] at hs
      exact ⟨hs.1,hs.2.1,hs.2.2.1,(hsame c).2.1.trans hs.2.2.2⟩
    | watched =>
      rw [hu] at hs
      exact ⟨hs.1,hs.2.1,(hsame c).2.1 ▸ hs.2.2⟩
    | parked =>
      rw [hu] at hs
      exact ⟨hs.1,hs.2.1,hs.2.2.1,(hsame c).2.1 ▸ hs.2.2.2⟩
    | removed =>
      rw [hu] at hs
      exact ⟨hs.1,hs.2.1,hs.2.2.1,(hsame c).2.1.trans hs.2.2.2⟩
  · exact (hsame c).2.1.trans (h.index c)

omit [DecidableEq γ] in
private theorem Paired.poll (h : s.Paired fd) {p : PollPoller γ κ} (reported : List γ)
    (hp : Related fd s.use p s.epoll) : Paired fd { s with poll := p, reported := reported } :=
  ⟨hp,h.index⟩

private theorem Paired.call (h : s.Paired fd) (hinj : Function.Injective fd) (hpos : ∀ c, 0 ≤ fd c) {c : γ} {op : ChannelOp}
    (he : machine.Enabled s (.call c op)) : ∃ t, machine.step s (.call c op) = .ok t ∧ t.Paired fd := by
  obtain ⟨hsome,honce⟩ := he
  obtain ⟨u',hu⟩ := Option.isSome_iff_exists.mp hsome
  obtain ⟨p',q',hp,hq,hrel⟩ := h.related.step hinj hpos hu
  refine ⟨{ s with use := u', poll := p', epoll := q' },?_,hrel,h.related.index_step hinj h.index hu honce hq⟩
  change s.code (.call c op) = _
  rw [code,hp,hq,hu]
  rfl

/-- A return of the kernel with its conditions. -/
theorem Paired.returned (h : s.Paired fd) {cond : Conditions} {ready : List (γ × Mask)}
    (he : s.epoll.Stored cond ready) :
    ∃ t, s.code (.poll cond ready) = .ok t ∧ t.Paired fd ∧ t.SameReports fd cond := by
  obtain ⟨p',reported,hpoll,hrel,hnodup,hev,hreported⟩ := h.related.poll_spec cond
  have hpending := h.related.pending_eq h.index cond
  have hdue (e : γ × Mask) (hmem : e ∈ ready) : s.use e.1 = .watched ∧
      cond.seen (fd e.1) (s.poll.channel e.1).events ≠ 0 ∧ e.2 = cond.seen (fd e.1) (s.poll.channel e.1).events := by
    obtain ⟨hne,heq⟩ := he.some e hmem
    rw [hpending] at heq
    split at heq
    · rename_i hu
      exact ⟨hu,heq ▸ hne,heq⟩
    · exact (hne heq).elim
  have hmap (e : γ × Mask) (hmem : e ∈ ready) : s.epoll.InMap e.1 := by
    have hadded : (s.epoll.channel e.1).index = kAdded := by
      rw [h.index,(hdue e hmem).1]
      rfl
    exact ((h.related.consistent.mirrors e.1).2.1.mp hadded).1
  obtain ⟨q',hrun,hsame,hcons,hactive,hrevents,hfull⟩ := EPollPoller.poll_spec ready hmap he.once he.room
  have hpaired := (h.poll reported hrel).epoll (hcons h.related.consistent) hsame
  refine ⟨{ s with poll := p', reported := reported, epoll := q' },?_,hpaired,fun c => ?_,fun c hc => ?_,hnodup,?_,?_,?_⟩
  · rw [code,SideBySide.returned,hpoll,hrun]
    rfl
  · change _ ↔ _ ∧ cond.seen (fd c) (p'.channel c).events ≠ 0
    rw [hev]
    exact (hreported c).1
  · change _ = cond.seen (fd c) (p'.channel c).events
    rw [hev]
    exact (hreported c).2 hc
  · change q'.activeChannels.Nodup
    rw [hactive]
    exact he.once
  · intro c hc
    change c ∈ q'.activeChannels at hc
    rw [hactive] at hc
    obtain ⟨e,hmem,rfl⟩ := List.mem_map.mp hc
    obtain ⟨hu,hne,heq⟩ := hdue e hmem
    have hin := (hreported e.1).1.mpr ⟨hu,hne⟩
    exact ⟨hin,(hrevents e hmem).trans (heq.trans ((hreported e.1).2 hin).symm)⟩
  · change q'.activeChannels.Perm reported ∨ q'.eventListSize = 2*q'.activeChannels.length
    rw [hactive,List.length_map]
    refine hfull.imp (fun hlt => ?_) id
    refine (List.perm_ext_iff_of_nodup he.once hnodup).mpr fun c => ⟨fun hc => ?_,fun hc => ?_⟩
    · obtain ⟨e,hmem,rfl⟩ := List.mem_map.mp hc
      exact (hreported e.1).1.mpr ⟨(hdue e hmem).1,(hdue e hmem).2.1⟩
    · obtain ⟨hu,hne⟩ := (hreported c).1.mp hc
      exact he.all hlt c (by rw [hpending,if_pos hu]; exact hne)

private theorem Paired.interrupted (h : s.Paired fd) : ∃ t, s.code .interrupted = .ok t ∧ t.Paired fd := by
  have hsame : s.poll.answered (s.poll.pollfds.map PollFd.revents) = s.poll := by
    rw [PollPoller.answered,List.zipWith_map_right,List.zipWith_self]
    exact congrArg (fun entries : List PollFd => { s.poll with pollfds := entries }) (List.map_id s.poll.pollfds)
  have hpoll : s.poll.poll (s.poll.pollfds.map PollFd.revents) (-1) = some (s.poll,[]) := by
    rw [PollPoller.poll,if_neg (by decide),hsame]
  obtain ⟨q',hrun,hsame',hcons,-⟩ := EPollPoller.poll_spec (q := s.epoll) [] (by simp) List.nodup_nil (Nat.zero_le _)
  refine ⟨{ s with poll := s.poll, reported := [], epoll := q' },?_,
    (h.poll [] h.related).epoll (hcons h.related.consistent) hsame'⟩
  rw [code,SideBySide.returned,hpoll,hrun]
  rfl

private theorem Paired.step (h : s.Paired fd) (hinj : Function.Injective fd) (hpos : ∀ c, 0 ≤ fd c) (a : SideOp γ)
    (he : machine.Enabled s a) : ∃ t, machine.step s a = .ok t ∧ t.Paired fd := by
  cases a with
  | call c op => exact h.call hinj hpos he
  | poll cond ready =>
    obtain ⟨t,ht,hpaired,-⟩ := h.returned he
    exact ⟨t,ht,hpaired⟩
  | interrupted => exact h.interrupted

/-- After any use of the channels in which one that is parked is removed next, and for good, with any returns of the
kernel before, the two pollers pass their assertions and report the same events on the same channels, but for what
is left out of a full event list. -/
theorem pollers_report_the_same (fd : γ → Int) (hinj : Function.Injective fd) (hpos : ∀ c, 0 ≤ fd c)
    (ops : List (SideOp γ)) (cond : Conditions) (ready : List (γ × Mask))
    (ha : machine.Admissible (start fd : SideBySide γ κ) (ops ++ [.poll cond ready])) :
    ∃ s, machine.exec (start fd : SideBySide γ κ) (ops ++ [.poll cond ready]) = .ok s ∧ s.SameReports fd cond := by
  have hstart : (start fd : SideBySide γ κ).Paired fd := ⟨new_related fd,fun _ => rfl⟩
  obtain ⟨s,hs,hpaired⟩ := machine.exec_total hstart (fun s a h he => h.step hinj hpos a he) (machine.admissible_front ha)
  obtain ⟨t,ht,-,hsame⟩ := hpaired.returned (machine.admissible_append ha hs).2.1
  exact ⟨t,machine.exec_concat hs ht,hsame⟩

private def hangUp : Conditions where
  mask v := if v = 5 then POLLHUP else POLLIN ||| POLLOUT
  flags v := by split <;> decide

private def hangUpRun : List (SideOp Bool) :=
  [.call true .enableReading,.call false .enableReading,.poll hangUp [(false,POLLIN),(true,POLLHUP)],
    .call true .disableAll,.interrupted,.poll hangUp [(false,POLLIN)],.call true .remove,.call false .enableWriting]

/-- A channel that hangs up is disabled, removed, and no longer reported by either poller. -/
theorem pollers_report_hang_up :
    ∃ s, machine.exec (start fun c : Bool => if c then 5 else 6 : SideBySide Bool Unit)
      (hangUpRun ++ [.poll hangUp [(false,POLLIN ||| POLLOUT)]]) = .ok s ∧
      s.SameReports (fun c : Bool => if c then 5 else 6) hangUp :=
  pollers_report_the_same (fun c : Bool => if c then 5 else 6) (by decide) (by decide) hangUpRun hangUp
    [(false,POLLIN ||| POLLOUT)] (by decide +kernel)

end SideBySide

end LearningMuduo.Reactor
