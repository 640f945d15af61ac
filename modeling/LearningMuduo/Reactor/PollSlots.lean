import LearningMuduo.Reactor.PollPoller

/-! The array of a poll poller and the indices of its channels point at each other, also
across the swap of a removal. -/
namespace LearningMuduo.Reactor.PollPoller
open Library
variable {γ κ : Type}

/-- Every registered channel has the entry at its index, with its descriptor as it is or
ignored, and every entry has such a channel. -/
structure Slotted (p : PollPoller γ κ) : Prop where
  fd_of : ∀ v c, p.channels v = some c → (p.channel c).fd = v ∧ 0 ≤ v
  slot : ∀ v c, p.channels v = some c → ∃ (i : Nat) (pfd : PollFd), (p.channel c).index = i ∧
    p.pollfds[i]? = some pfd ∧ (pfd.fd = v ∨ pfd.fd = ignored v) ∧
    pfd.events = toShort (p.channel c).events
  owner : ∀ (i : Nat) (pfd : PollFd), p.pollfds[i]? = some pfd →
    ∃ v c, p.channels v = some c ∧ (p.channel c).index = i

/-- The descriptor in the entry at the index of a channel. -/
def mark (p : PollPoller γ κ) (c : γ) : Option Int := (p.entryAt (p.channel c).index).map PollFd.fd

variable {p : PollPoller γ κ} {c : γ}

/-- The conversion to `short` respects the union of masks. -/
theorem ofShort_or (a b : Mask) : ofShort (toShort (a ||| b)) = ofShort (toShort a) ||| ofShort (toShort b) := by
  unfold ofShort toShort
  rw [BitVec.setWidth_or,BitVec.signExtend_or]

/-- An index that is not negative is one of the array. -/
theorem entryAt_natCast (p : PollPoller γ κ) (i : Nat) : p.entryAt i = p.pollfds[i]? := by
  rw [entryAt,if_pos (Int.natCast_nonneg i),Int.toNat_natCast]

private theorem ignored_inj {v w x : Int} (hv : 0 ≤ v) (hw : 0 ≤ w) (h : x = v ∨ x = ignored v)
    (h' : x = w ∨ x = ignored w) : v = w := by
  unfold ignored at h h'
  omega

/-- Two registered channels with one index are one. -/
theorem Slotted.index_inj (h : p.Slotted) {v w : Int} {d : γ} (hc : p.channels v = some c)
    (hd : p.channels w = some d) (hi : (p.channel c).index = (p.channel d).index) : v = w := by
  obtain ⟨i,pfd,hci,hpfd,hfd,-⟩ := h.slot v c hc
  obtain ⟨j,pfd',hdj,hpfd',hfd',-⟩ := h.slot w d hd
  have hij : i = j := Int.natCast_inj.mp (hci.symm.trans (hi.trans hdj))
  subst hij
  rw [hpfd] at hpfd'
  cases hpfd'
  exact ignored_inj (h.fd_of v c hc).2 (h.fd_of w d hd).2 hfd hfd'

/-- A channel without an entry of its own finds no entry with its descriptor. -/
theorem Slotted.foreign (h : p.Slotted) {pfd : PollFd} (hn : p.channels (p.channel c).fd = none)
    (hpos : 0 ≤ (p.channel c).fd) (he : p.entryAt (p.channel c).index = some pfd) :
    pfd.fd ≠ (p.channel c).fd ∧ pfd.fd ≠ ignored (p.channel c).fd := by
  unfold entryAt at he
  split at he
  · obtain ⟨v,d,hd,hdi⟩ := h.owner _ _ he
    obtain ⟨j,pfd',hdj,hpfd',hfd',-⟩ := h.slot v d hd
    have hij : j = (p.channel c).index.toNat := Int.natCast_inj.mp (hdj.symm.trans hdi)
    rw [hij,he] at hpfd'
    cases hpfd'
    have hne : v ≠ (p.channel c).fd := by
      rintro rfl
      rw [hn] at hd
      cases hd
    have hv := (h.fd_of v d hd).2
    constructor
    · intro heq
      exact hne (ignored_inj hv hpos hfd' (.inl heq))
    · intro heq
      exact hne (ignored_inj hv hpos hfd' (.inr heq))
  · cases he

/-- What the caller of `::poll` has set. -/
def asked (pfd : PollFd) : Int × BitVec 16 := (pfd.fd,pfd.events)

/-- Flags, returned events and callbacks play no part. -/
theorem Slotted.congr {q : PollPoller γ κ} (h : p.Slotted)
    (hch : ∀ e, (q.channel e).fd = (p.channel e).fd ∧ (q.channel e).index = (p.channel e).index ∧
      (q.channel e).events = (p.channel e).events)
    (hmap : q.channels = p.channels) (harr : q.pollfds.map asked = p.pollfds.map asked) : q.Slotted := by
  have hentry (i : Nat) (pfd : PollFd) (r : PollPoller γ κ) (r' : PollPoller γ κ)
      (heq : r.pollfds.map asked = r'.pollfds.map asked) (hp : r.pollfds[i]? = some pfd) :
      ∃ pfd', r'.pollfds[i]? = some pfd' ∧ asked pfd = asked pfd' := by
    have hi := congrArg (fun l : List (Int × BitVec 16) => l[i]?) heq
    simp only [List.getElem?_map,hp,Option.map_some] at hi
    obtain ⟨pfd',hp',heq'⟩ := Option.map_eq_some_iff.mp hi.symm
    exact ⟨pfd',hp',heq'.symm⟩
  refine ⟨?_,?_,?_⟩
  · intro v c hc
    rw [(hch c).1]
    exact h.fd_of v c (hmap ▸ hc)
  · intro v c hc
    obtain ⟨i,pfd,hi,hp,hfd,hev⟩ := h.slot v c (hmap ▸ hc)
    obtain ⟨pfd',hp',heq⟩ := hentry i pfd p q harr.symm hp
    obtain ⟨hfd',hev'⟩ := Prod.mk.inj heq
    exact ⟨i,pfd',(hch c).2.1.trans hi,hp',hfd' ▸ hfd,by rw [(hch c).2.2,← hev',hev]⟩
  · intro i pfd hp
    obtain ⟨pfd',hp',-⟩ := hentry i pfd q p harr hp
    obtain ⟨v,c,hc,hi⟩ := h.owner i pfd' hp'
    exact ⟨v,c,hmap ▸ hc,(hch c).2.1.trans hi⟩

/-- The owner of the last entry, whose entry fills the gap at i. -/
structure Last (p : PollPoller γ κ) (d : γ) (back : PollFd) : Prop where
  index : (p.channel d).index = (p.pollfds.length-1 : Nat)
  entry : p.pollfds[p.pollfds.length-1]? = some back
  registered : p.channels (p.channel d).fd = some d
  fd : back.fd = (p.channel d).fd ∨ back.fd = ignored (p.channel d).fd

private theorem Slotted.last (h : p.Slotted) (hne : p.pollfds ≠ []) : ∃ d back, p.Last d back := by
  have hlen : p.pollfds.length-1 < p.pollfds.length :=
    Nat.sub_one_lt (fun h0 => hne (List.length_eq_zero_iff.mp h0))
  obtain ⟨w,d,hd,hdi⟩ := h.owner _ _ (List.getElem?_eq_getElem hlen)
  have hw := (h.fd_of w d hd).1
  obtain ⟨j,back,hj,hback,hfd,-⟩ := h.slot w d hd
  have hij : j = p.pollfds.length-1 := Int.natCast_inj.mp (hj.symm.trans hdi)
  rw [hij] at hback
  rw [← hw] at hfd hd
  exact ⟨d,back,hdi,hback,hd,hfd⟩

variable [DecidableEq γ]

/-- A channel that gets a new entry at the end. -/
def pushed (p : PollPoller γ κ) (c : γ) (ch : Channel κ) : PollPoller γ κ where
  channel := Function.update p.channel c { ch with index := p.pollfds.length }
  channels := Function.update p.channels ch.fd (some c)
  pollfds := p.pollfds ++ [⟨ch.fd,toShort ch.events,toShort ch.revents⟩]

/-- A channel whose entry is rewritten. -/
def rewritten (p : PollPoller γ κ) (c : γ) (ch : Channel κ) (i : Nat) (pfd : PollFd) : PollPoller γ κ :=
  { p with channel := Function.update p.channel c ch, pollfds := p.pollfds.set i pfd }

/-- The entry as `updateChannel` leaves it. -/
def refreshed (ch : Channel κ) (pfd : PollFd) : PollFd :=
  ⟨if ch.isNoneEvent then ignored ch.fd else pfd.fd,toShort ch.events,toShort ch.revents⟩

/-- The channel that was set. -/
@[simp] theorem setChannel_self (ch : Channel κ) : (p.setChannel c ch).channel c = ch := Function.update_self _ _ _

/-- Another channel. -/
theorem setChannel_of_ne {d : γ} (h : d ≠ c) (ch : Channel κ) : (p.setChannel c ch).channel d = p.channel d :=
  Function.update_of_ne h _ _

private theorem updateChannel_new (hi : (p.channel c).index < 0) :
    p.updateChannel c = .ok (p.pushed c (p.channel c)) := by
  unfold updateChannel
  dsimp only
  rw [if_pos hi]
  simp [pushed,setIndex,setChannel,pure,Except.pure]

private theorem updateChannel_used {i : Nat} {pfd : PollFd} (hi : (p.channel c).index = i)
    (hp : p.pollfds[i]? = some pfd)
    (hfd : pfd.fd = (p.channel c).fd ∨ pfd.fd = ignored (p.channel c).fd) :
    p.updateChannel c = .ok { p with pollfds := p.pollfds.set i (refreshed (p.channel c) pfd) } := by
  unfold updateChannel
  dsimp only
  rw [if_neg (by omega),hi,entryAt_natCast,hp]
  dsimp only
  rw [require_pos hfd,bind_ok,Int.toNat_natCast,refreshed]
  split <;> rfl

private theorem updateChannel_stale (hi : 0 ≤ (p.channel c).index)
    (hno : ∀ pfd, p.entryAt (p.channel c).index = some pfd →
      pfd.fd ≠ (p.channel c).fd ∧ pfd.fd ≠ ignored (p.channel c).fd) :
    ∃ e, p.updateChannel c = .error e := by
  unfold updateChannel
  dsimp only
  rw [if_neg (by omega)]
  cases he : p.entryAt (p.channel c).index with
  | none => exact ⟨_,rfl⟩
  | some pfd =>
    obtain ⟨h1,h2⟩ := hno pfd he
    dsimp only
    rw [require_neg fun h => h.elim h1 h2]
    exact ⟨_,rfl⟩

/-- The first update of a channel. -/
theorem setChannel_updateChannel_new {ch : Channel κ} (hi : ch.index < 0) :
    (p.setChannel c ch).updateChannel c = .ok (p.pushed c ch) := by
  rw [updateChannel_new (by rw [setChannel_self]; exact hi),setChannel_self]
  simp [pushed,setChannel]

/-- An update of a channel that has its entry. -/
theorem setChannel_updateChannel_used {ch : Channel κ} {i : Nat} {pfd : PollFd} (hi : ch.index = i)
    (hp : p.pollfds[i]? = some pfd) (hfd : pfd.fd = ch.fd ∨ pfd.fd = ignored ch.fd) :
    (p.setChannel c ch).updateChannel c = .ok (p.rewritten c ch i (refreshed ch pfd)) := by
  have hu := updateChannel_used (p := p.setChannel c ch) (c := c) (by rw [setChannel_self]; exact hi) hp
    (by rw [setChannel_self]; exact hfd)
  rw [setChannel_self] at hu
  exact hu

/-- The first call on a channel. -/
theorem interest_new (hi : (p.channel c).index < 0) (op : Interest) :
    p.interest c op = .ok (p.pushed c ((p.channel c).setInterest op)) :=
  setChannel_updateChannel_new hi

/-- A call on a channel that has its entry. -/
theorem interest_used {i : Nat} {pfd : PollFd} (hi : (p.channel c).index = i) (hp : p.pollfds[i]? = some pfd)
    (hfd : pfd.fd = (p.channel c).fd ∨ pfd.fd = ignored (p.channel c).fd) (op : Interest) :
    p.interest c op = .ok (p.rewritten c ((p.channel c).setInterest op) i
      (refreshed ((p.channel c).setInterest op) pfd)) :=
  setChannel_updateChannel_used hi hp hfd

/-- A call on a channel whose index is stale fails one of the two assertions. -/
theorem interest_stale (hi : 0 ≤ (p.channel c).index)
    (hno : ∀ pfd, p.entryAt (p.channel c).index = some pfd →
      pfd.fd ≠ (p.channel c).fd ∧ pfd.fd ≠ ignored (p.channel c).fd) (op : Interest) :
    ∃ e, p.interest c op = .error e := by
  refine updateChannel_stale (by rw [setChannel_self]; exact hi) ?_
  rw [setChannel_self]
  exact hno

/-- A new channel gets the slot behind the last one. -/
theorem pushed_slotted (h : p.Slotted) {ch : Channel κ} (hpos : 0 ≤ ch.fd) (hfree : p.channels ch.fd = none)
    (hc : ∀ v, p.channels v ≠ some c) : (p.pushed c ch).Slotted := by
  have hother (v : Int) (d : γ) (hd : p.channels v = some d) : (p.pushed c ch).channel d = p.channel d := by
    refine Function.update_of_ne ?_ _ _
    rintro rfl
    exact hc v hd
  have hself : (p.pushed c ch).channel c = { ch with index := p.pollfds.length } := Function.update_self _ _ _
  -- a registered channel is the new one, or one of before under another descriptor
  have hcases (v : Int) (d : γ) (hd : (p.pushed c ch).channels v = some d) :
      v = ch.fd ∧ d = c ∨ p.channels v = some d := by
    change Function.update p.channels ch.fd (some c) v = some d at hd
    by_cases hv : v = ch.fd
    · subst hv
      rw [Function.update_self] at hd
      cases hd
      exact .inl ⟨rfl,rfl⟩
    · rw [Function.update_of_ne hv] at hd
      exact .inr hd
  have hkeep (v : Int) (d : γ) (hd : p.channels v = some d) : (p.pushed c ch).channels v = some d := by
    change Function.update p.channels ch.fd (some c) v = some d
    rw [Function.update_of_ne (fun hv => by rw [hv,hfree] at hd; cases hd),hd]
  refine ⟨?_,?_,?_⟩
  · intro v d hd
    rcases hcases v d hd with ⟨rfl,rfl⟩ | hd
    · rw [hself]
      exact ⟨rfl,hpos⟩
    · rw [hother v d hd]
      exact h.fd_of v d hd
  · intro v d hd
    rcases hcases v d hd with ⟨rfl,rfl⟩ | hd
    · rw [hself]
      exact ⟨p.pollfds.length,_,rfl,List.getElem?_concat_length,.inl rfl,rfl⟩
    · obtain ⟨i,pfd,hi,hp,hfd,hev⟩ := h.slot v d hd
      rw [hother v d hd]
      refine ⟨i,pfd,hi,?_,hfd,hev⟩
      change (p.pollfds ++ _)[i]? = some pfd
      rw [List.getElem?_append_left (List.getElem?_eq_some_iff.mp hp).1,hp]
  · intro i pfd hp
    change (p.pollfds ++ [_])[i]? = some pfd at hp
    rcases Nat.lt_or_ge i p.pollfds.length with hi | hi
    · rw [List.getElem?_append_left hi] at hp
      obtain ⟨v,d,hd,hdi⟩ := h.owner i pfd hp
      exact ⟨v,d,hkeep v d hd,by rw [hother v d hd]; exact hdi⟩
    · have hlen := (List.getElem?_eq_some_iff.mp hp).1
      rw [List.length_append,List.length_singleton] at hlen
      refine ⟨ch.fd,c,Function.update_self _ _ _,?_⟩
      rw [hself]
      exact congrArg Int.ofNat (show p.pollfds.length = i by omega)

/-- A rewritten entry keeps its slot. -/
theorem rewritten_slotted (h : p.Slotted) {ch : Channel κ} {i : Nat} {pfd : PollFd}
    (hc : p.channels ch.fd = some c) (hci : (p.channel c).index = i) (hindex : ch.index = i)
    (hfd : pfd.fd = ch.fd ∨ pfd.fd = ignored ch.fd) (hev : pfd.events = toShort ch.events) :
    (p.rewritten c ch i pfd).Slotted := by
  have hother (d : γ) (hd : d ≠ c) : (p.rewritten c ch i pfd).channel d = p.channel d :=
    Function.update_of_ne hd _ _
  have hself : (p.rewritten c ch i pfd).channel c = ch := Function.update_self _ _ _
  have hlen : i < p.pollfds.length := by
    obtain ⟨j,_,hj,hp,-⟩ := h.slot _ c hc
    have hij : i = j := Int.natCast_inj.mp (hci.symm.trans hj)
    rw [hij]
    exact (List.getElem?_eq_some_iff.mp hp).1
  have hfdc (v : Int) (hv : p.channels v = some c) : v = ch.fd :=
    (h.fd_of v c hv).1.symm.trans (h.fd_of _ c hc).1
  refine ⟨?_,?_,?_⟩
  · intro v d hd
    by_cases hdc : d = c
    · subst hdc
      rw [hself]
      exact ⟨(hfdc v hd).symm,(h.fd_of v d hd).2⟩
    · rw [hother d hdc]
      exact h.fd_of v d hd
  · intro v d hd
    by_cases hdc : d = c
    · subst hdc
      rw [hself]
      refine ⟨i,pfd,hindex,?_,by rw [hfdc v hd]; exact hfd,hev⟩
      exact List.getElem?_set_self hlen
    · obtain ⟨j,pfd',hj,hp,hfd',hev'⟩ := h.slot v d hd
      rw [hother d hdc]
      refine ⟨j,pfd',hj,?_,hfd',hev'⟩
      have hij : i ≠ j := by
        intro hij
        have hd' : p.channels v = some d := hd
        rw [h.index_inj hd hc (by rw [hj,hci,hij]),hc] at hd'
        exact hdc (Option.some.inj hd').symm
      change (p.pollfds.set i pfd)[j]? = some pfd'
      rw [List.getElem?_set_ne hij,hp]
  · intro j pfd' hp
    have hj : j < p.pollfds.length := by
      have hlt := (List.getElem?_eq_some_iff.mp hp).1
      change j < (p.pollfds.set i pfd).length at hlt
      rwa [List.length_set] at hlt
    obtain ⟨v,d,hd,hdi⟩ := h.owner j _ (List.getElem?_eq_getElem hj)
    refine ⟨v,d,hd,?_⟩
    by_cases hdc : d = c
    · subst hdc
      rw [hself,hindex,← hci]
      exact hdi
    · rw [hother d hdc]
      exact hdi

/-- The removal of the channel at index i: the last entry, which belongs to d, takes its place.
For the last channel, d is the channel itself. -/
def evicted (p : PollPoller γ κ) (c d : γ) (i : Nat) (back : PollFd) : PollPoller γ κ :=
  { p.setChannel c { p.channel c with addedToLoop := false } with
    channels := Function.update p.channels (p.channel c).fd none
    pollfds := (p.pollfds.set i back).dropLast }.setIndex d i

private theorem setIndex_self {index : Int} (h : (p.channel c).index = index) : p.setIndex c index = p := by
  subst h
  unfold setIndex setChannel
  rw [Function.update_eq_self]

private theorem evicted_channel (d : γ) (i : Nat) (back : PollFd) (e : γ) :
    ∃ added, (p.evicted c d i back).channel e =
      { p.channel e with addedToLoop := added, index := if e = d then (i : Int) else (p.channel e).index } := by
  have hbase : ∃ added, Function.update p.channel c { p.channel c with addedToLoop := false } e =
      { p.channel e with addedToLoop := added } := by
    by_cases hec : e = c
    · subst hec
      exact ⟨false,Function.update_self _ _ _⟩
    · exact ⟨_,Function.update_of_ne hec _ _⟩
  obtain ⟨added,hadded⟩ := hbase
  refine ⟨added,?_⟩
  by_cases hed : e = d
  · subst hed
    rw [if_pos rfl]
    refine (Function.update_self _ _ _).trans ?_
    change { Function.update p.channel c _ e with index := (i : Int) } = _
    rw [hadded]
  · rw [if_neg hed]
    exact (Function.update_of_ne hed _ _).trans hadded

/-- No descriptor changes when the last entry moves. -/
theorem evicted_fd (d : γ) (i : Nat) (back : PollFd) (e : γ) :
    ((p.evicted c d i back).channel e).fd = (p.channel e).fd := by
  obtain ⟨_,he⟩ := evicted_channel (p := p) (c := c) d i back e
  rw [he]

/-- Nor does a mask. -/
theorem evicted_events (d : γ) (i : Nat) (back : PollFd) (e : γ) :
    ((p.evicted c d i back).channel e).events = (p.channel e).events := by
  obtain ⟨_,he⟩ := evicted_channel (p := p) (c := c) d i back e
  rw [he]

/-- The channel of the last entry gets the index of the one that goes. -/
theorem evicted_index (d : γ) (i : Nat) (back : PollFd) (e : γ) :
    ((p.evicted c d i back).channel e).index = if e = d then (i : Int) else (p.channel e).index := by
  obtain ⟨_,he⟩ := evicted_channel (p := p) (c := c) d i back e
  rw [he]

/-- What `removeChannel` itself leaves. -/
def removed (p : PollPoller γ κ) (c d : γ) (i : Nat) (back : PollFd) : PollPoller γ κ :=
  { p with
    channels := Function.update p.channels (p.channel c).fd none
    pollfds := (p.pollfds.set i back).dropLast }.setIndex d i

/-- After a removal only indices have changed. -/
theorem removed_channel (d : γ) (i : Nat) (back : PollFd) (e : γ) : (p.removed c d i back).channel e =
    { p.channel e with index := if e = d then (i : Int) else (p.channel e).index } := by
  by_cases hed : e = d
  · subst hed
    rw [if_pos rfl]
    exact Function.update_self _ _ _
  · rw [if_neg hed]
    exact Function.update_of_ne hed _ _

/-- A removal that passes the assertions. -/
theorem Slotted.removeChannel_ignored (h : p.Slotted) {i : Nat} {pfd : PollFd}
    (hc : p.channels (p.channel c).fd = some c) (hi : (p.channel c).index = i) (hp : p.pollfds[i]? = some pfd)
    (hfd : pfd.fd = ignored (p.channel c).fd) (hev : ofShort pfd.events = (p.channel c).events) :
    ∃ d back, p.Last d back ∧ p.removeChannel c = .ok (p.removed c d i back) := by
  have hlen : i < p.pollfds.length := (List.getElem?_eq_some_iff.mp hp).1
  obtain ⟨d,back,hl⟩ := h.last (List.ne_nil_of_length_pos (Nat.zero_lt_of_lt hlen))
  refine ⟨d,back,hl,?_⟩
  have hmap : p.channels (p.channel c).fd ≠ none := by
    rw [hc]
    exact Option.some_ne_none c
  unfold removeChannel
  dsimp only
  rw [hi,entryAt_natCast,hp]
  dsimp only
  rw [require_pos ⟨hfd,hev⟩,bind_ok,require_pos hmap,bind_ok,Int.toNat_natCast]
  have hback : p.pollfds.getLastD pfd = back := by
    rw [List.getLastD_eq_getLast?,List.getLast?_eq_getElem?,hl.entry]
    rfl
  split
  · -- the last channel is the removed one, and keeps its index
    rename_i hlast
    have hdc : d = c := by
      have hv := h.index_inj hl.registered hc (by rw [hl.index,hi,hlast])
      have hd := hl.registered
      rw [hv,hc] at hd
      exact (Option.some.inj hd).symm
    subst hdc
    have hset : p.pollfds.set i back = p.pollfds := by
      rw [hlast]
      obtain ⟨hlt,heq⟩ := List.getElem?_eq_some_iff.mp hl.entry
      rw [← heq,List.set_getElem_self]
    have hkeep : p.removed d d i back = { p with
        channels := Function.update p.channels (p.channel d).fd none, pollfds := p.pollfds.dropLast } := by
      unfold removed
      rw [hset]
      exact setIndex_self hi
    rw [hkeep]
    rfl
  · rename_i hlast
    have hend : (if back.fd < (0 : Int) then ignored back.fd else back.fd) = (p.channel d).fd := by
      have hpos := (h.fd_of _ _ hl.registered).2
      have hback' := hl.fd
      unfold ignored at hback' ⊢
      split <;> omega
    have hother : (p.channel d).fd ≠ (p.channel c).fd := by
      intro heq
      have hd := hl.registered
      rw [heq,hc] at hd
      have hdi := hl.index
      rw [← Option.some.inj hd,hi] at hdi
      exact hlast (Int.natCast_inj.mp hdi)
    rw [hback,hend,Function.update_of_ne hother,hl.registered]
    rfl

/-- `Channel::remove` lowers the flag of the channel before. -/
theorem Slotted.remove_ignored (h : p.Slotted) {i : Nat} {pfd : PollFd}
    (hc : p.channels (p.channel c).fd = some c) (hz : (p.channel c).isNoneEvent)
    (hi : (p.channel c).index = i) (hp : p.pollfds[i]? = some pfd) (hfd : pfd.fd = ignored (p.channel c).fd)
    (hev : ofShort pfd.events = (p.channel c).events) :
    ∃ d back, p.Last d back ∧ p.remove c = .ok (p.evicted c d i back) := by
  let q := p.setChannel c { p.channel c with addedToLoop := false }
  have hself : q.channel c = { p.channel c with addedToLoop := false } := Function.update_self _ _ _
  have hother (e : γ) : (q.channel e).fd = (p.channel e).fd ∧ (q.channel e).index = (p.channel e).index ∧
      (q.channel e).events = (p.channel e).events := by
    by_cases hec : e = c
    · subst hec
      rw [hself]
      exact ⟨rfl,rfl,rfl⟩
    · rw [show q.channel e = p.channel e from Function.update_of_ne hec _ _]
      exact ⟨rfl,rfl,rfl⟩
  have hcfd := (hother c).1
  obtain ⟨d,back,hl,hrun⟩ := (h.congr hother rfl rfl : q.Slotted).removeChannel_ignored (c := c) (hcfd.symm ▸ hc)
    ((hother c).2.1.trans hi) hp (hcfd.symm ▸ hfd) (hev.trans (hother c).2.2.symm)
  obtain ⟨hdfd,hdi,-⟩ := hother d
  refine ⟨d,back,⟨hdi ▸ hl.index,hl.entry,hdfd ▸ hl.registered,hdfd ▸ hl.fd⟩,?_⟩
  have hsame : q.removed c d i back = p.evicted c d i back := by
    unfold removed
    rw [hcfd]
    rfl
  rw [remove,require_pos hz,bind_ok,← hsame]
  exact hrun

/-- Every other registered channel finds its own entry at its index after a removal. -/
theorem Slotted.evicted_entry (h : p.Slotted) {d e : γ} {i : Nat} {back : PollFd} (hl : p.Last d back)
    (hc : p.channels (p.channel c).fd = some c) (hi : (p.channel c).index = i)
    (he : p.channels (p.channel e).fd = some e) (hec : e ≠ c) :
    (p.evicted c d i back).entryAt ((p.evicted c d i back).channel e).index =
      p.entryAt (p.channel e).index := by
  have hinj {a b : γ} (ha : p.channels (p.channel a).fd = some a) (hb : p.channels (p.channel b).fd = some b)
      (hab : (p.channel a).index = (p.channel b).index) : a = b := by
    rw [h.index_inj ha hb hab,hb] at ha
    exact (Option.some.inj ha).symm
  obtain ⟨j,pfd,hj,hp,-⟩ := h.slot _ e he
  have hjlen : j < p.pollfds.length := (List.getElem?_eq_some_iff.mp hp).1
  have hji : j ≠ i := by
    intro hji
    exact hec (hinj he hc (by rw [hj,hi,hji]))
  obtain ⟨k,hk,hck⟩ : ∃ k, k < p.pollfds.length ∧ (p.channel c).index = (k : Nat) := by
    obtain ⟨k,_,hk,hpk,-⟩ := h.slot _ c hc
    exact ⟨k,(List.getElem?_eq_some_iff.mp hpk).1,hk⟩
  have hik : i = k := Int.natCast_inj.mp (hi.symm.trans hck)
  have hlen : (p.pollfds.set i back).length-1 = p.pollfds.length-1 := by rw [List.length_set]
  rw [evicted_index]
  by_cases hed : e = d
  · subst hed
    have hjl : j = p.pollfds.length-1 := Int.natCast_inj.mp (hj.symm.trans hl.index)
    rw [if_pos rfl,entryAt_natCast,hl.index,entryAt_natCast,hl.entry]
    change (p.pollfds.set i back).dropLast[i]? = some back
    rw [List.getElem?_dropLast,if_pos (by omega)]
    exact List.getElem?_set_self (by omega)
  · have hjl : j ≠ p.pollfds.length-1 := by
      intro hjl
      exact hed (hinj he hl.registered (by rw [hj,hl.index,hjl]))
    rw [if_neg hed,hj,entryAt_natCast,entryAt_natCast]
    change (p.pollfds.set i back).dropLast[j]? = _
    rw [List.getElem?_dropLast,if_pos (by omega),List.getElem?_set_ne (Ne.symm hji)]

/-- The last entry moves to the slot that becomes free. -/
theorem Slotted.evicted_slotted (h : p.Slotted) {d : γ} {i : Nat} {back : PollFd} (hl : p.Last d back)
    (hc : p.channels (p.channel c).fd = some c) (hi : (p.channel c).index = i) :
    (p.evicted c d i back).Slotted := by
  have hcases (v : Int) (e : γ) (he : (p.evicted c d i back).channels v = some e) :
      p.channels v = some e ∧ e ≠ c := by
    change Function.update p.channels (p.channel c).fd none v = some e at he
    by_cases hv : v = (p.channel c).fd
    · rw [hv,Function.update_self] at he
      cases he
    · rw [Function.update_of_ne hv] at he
      refine ⟨he,?_⟩
      rintro rfl
      exact hv (h.fd_of v e he).1.symm
  have hkeep (v : Int) (e : γ) (he : p.channels v = some e) (hec : e ≠ c) :
      (p.evicted c d i back).channels v = some e := by
    refine (Function.update_of_ne ?_ _ _).trans he
    rintro rfl
    rw [hc] at he
    exact hec (Option.some.inj he).symm
  refine ⟨?_,?_,?_⟩
  · intro v e he
    rw [evicted_fd]
    exact h.fd_of v e (hcases v e he).1
  · intro v e he
    obtain ⟨he,hec⟩ := hcases v e he
    obtain ⟨j,pfd,hj,hp,hfd,hev⟩ := h.slot v e he
    have hent := h.evicted_entry hl hc hi (by rw [(h.fd_of v e he).1]; exact he) hec
    rw [hj,entryAt_natCast,hp,evicted_index] at hent
    rw [evicted_index,evicted_events]
    by_cases hed : e = d
    · rw [if_pos hed] at hent ⊢
      rw [entryAt_natCast] at hent
      exact ⟨i,pfd,rfl,hent,hfd,hev⟩
    · rw [if_neg hed] at hent ⊢
      rw [hj,entryAt_natCast] at hent
      exact ⟨j,pfd,hj,hent,hfd,hev⟩
  · intro j pfd hp
    have hj : j < p.pollfds.length-1 := by
      have hlt := (List.getElem?_eq_some_iff.mp hp).1
      change j < (p.pollfds.set i back).dropLast.length at hlt
      rwa [List.length_dropLast,List.length_set] at hlt
    by_cases hji : j = i
    · have hdc : d ≠ c := by
        rintro rfl
        have hl' := hl.index
        rw [hi] at hl'
        omega
      refine ⟨_,d,hkeep _ d hl.registered hdc,?_⟩
      rw [evicted_index,if_pos rfl,hji]
    · obtain ⟨v,e,he,hej⟩ := h.owner j _ (List.getElem?_eq_getElem (Nat.lt_of_lt_of_le hj (Nat.sub_le _ 1)))
      have hec : e ≠ c := by
        rintro rfl
        exact hji (Int.natCast_inj.mp (hej.symm.trans hi))
      refine ⟨v,e,hkeep v e he hec,?_⟩
      rw [evicted_index,if_neg,hej]
      rintro rfl
      have hl' := hl.index
      rw [hej] at hl'
      omega

/-- A removal keeps the slots of the other channels. -/
theorem Slotted.removed_slotted (h : p.Slotted) {d : γ} {i : Nat} {back : PollFd} (hl : p.Last d back)
    (hc : p.channels (p.channel c).fd = some c) (hi : (p.channel c).index = i) : (p.removed c d i back).Slotted := by
  refine (h.evicted_slotted hl hc hi).congr (fun e => ?_) rfl rfl
  rw [removed_channel,evicted_fd,evicted_index,evicted_events]
  exact ⟨rfl,rfl,rfl⟩

/-- A channel that a call on another one leaves as it was. An index only moves for a channel
that has an entry, and then with the entry. -/
structure SameFor (p q : PollPoller γ κ) (d : γ) : Prop where
  fd : (q.channel d).fd = (p.channel d).fd
  events : (q.channel d).events = (p.channel d).events
  registered : q.channels (p.channel d).fd = p.channels (p.channel d).fd
  mark : p.channels (p.channel d).fd = some d → q.mark d = p.mark d
  index : p.channels (p.channel d).fd = none → (q.channel d).index = (p.channel d).index

/-- A new entry changes nothing for another channel. -/
theorem Slotted.pushed_same (h : p.Slotted) {ch : Channel κ} {d : γ} (hd : d ≠ c)
    (hfd : (p.channel d).fd ≠ ch.fd) : SameFor p (p.pushed c ch) d := by
  have hch : (p.pushed c ch).channel d = p.channel d := Function.update_of_ne hd _ _
  refine ⟨by rw [hch],by rw [hch],Function.update_of_ne hfd _ _,?_,fun _ => by rw [hch]⟩
  intro hreg
  obtain ⟨i,pfd,hi,hp,-⟩ := h.slot _ d hreg
  rw [mark,mark,hch,hi,entryAt_natCast,entryAt_natCast]
  change ((p.pollfds ++ _)[i]?).map _ = _
  rw [List.getElem?_append_left (List.getElem?_eq_some_iff.mp hp).1]

/-- A rewritten entry changes nothing for another channel. -/
theorem Slotted.rewritten_same (h : p.Slotted) {ch : Channel κ} {i : Nat} {pfd : PollFd} {d : γ}
    (hc : p.channels (p.channel c).fd = some c) (hi : (p.channel c).index = i) (hd : d ≠ c) :
    SameFor p (p.rewritten c ch i pfd) d := by
  have hch : (p.rewritten c ch i pfd).channel d = p.channel d := Function.update_of_ne hd _ _
  refine ⟨by rw [hch],by rw [hch],rfl,?_,fun _ => by rw [hch]⟩
  intro hreg
  obtain ⟨j,_,hj,-⟩ := h.slot _ d hreg
  have hij : i ≠ j := by
    intro hij
    have hd' := hreg
    rw [h.index_inj hreg hc (by rw [hj,hi,hij]),hc] at hd'
    exact hd (Option.some.inj hd').symm
  rw [mark,mark,hch,hj,entryAt_natCast,entryAt_natCast]
  change ((p.pollfds.set i pfd)[j]?).map _ = _
  rw [List.getElem?_set_ne hij]

/-- An entry that moves is the same for its channel. -/
theorem Slotted.evicted_same (h : p.Slotted) {d e : γ} {i : Nat} {back : PollFd} (hl : p.Last d back)
    (hc : p.channels (p.channel c).fd = some c) (hi : (p.channel c).index = i) (hec : e ≠ c)
    (hfd : (p.channel e).fd ≠ (p.channel c).fd) : SameFor p (p.evicted c d i back) e := by
  refine ⟨evicted_fd d i back e,evicted_events d i back e,Function.update_of_ne hfd _ _,?_,?_⟩
  · intro hreg
    rw [mark,mark,h.evicted_entry hl hc hi hreg hec]
  · intro hreg
    rw [evicted_index,if_neg]
    rintro rfl
    rw [hl.registered] at hreg
    cases hreg

/-- A removal without an ignored entry fails an assertion. -/
theorem remove_fails (hno : ∀ pfd, p.entryAt (p.channel c).index = some pfd →
    pfd.fd ≠ ignored (p.channel c).fd) : ∃ e, p.remove c = .error e := by
  unfold remove
  by_cases hz : (p.channel c).isNoneEvent
  · rw [require_pos hz,bind_ok]
    unfold removeChannel
    dsimp only
    rw [show (p.setChannel c { p.channel c with addedToLoop := false }).channel c =
      { p.channel c with addedToLoop := false } from Function.update_self _ _ _]
    cases he : p.entryAt (p.channel c).index with
    | none =>
      rw [show (p.setChannel c { p.channel c with addedToLoop := false }).entryAt (p.channel c).index = none
        from he]
      exact ⟨_,rfl⟩
    | some pfd =>
      rw [show (p.setChannel c { p.channel c with addedToLoop := false }).entryAt (p.channel c).index = some pfd
        from he]
      dsimp only
      rw [require_neg fun h => hno pfd he h.1]
      exact ⟨_,rfl⟩
  · rw [require_neg hz]
    exact ⟨_,rfl⟩

/-- What `::poll` is asked for. -/
def Watches (p : PollPoller γ κ) (v : Int) (ev : Mask) : Prop :=
  ∃ pfd ∈ p.pollfds, 0 ≤ pfd.fd ∧ pfd.fd = v ∧ ofShort pfd.events = ev

omit [DecidableEq γ] in
/-- What the array watches is what the unmarked channels ask for. -/
theorem Slotted.watches_iff (h : p.Slotted) (v : Int) (ev : Mask) : p.Watches v ev ↔
    ∃ c, p.channels v = some c ∧ p.mark c = some v ∧ ofShort (toShort (p.channel c).events) = ev := by
  constructor
  · rintro ⟨pfd,hmem,hpos,rfl,rfl⟩
    obtain ⟨i,hi⟩ := List.getElem?_of_mem hmem
    obtain ⟨v,c,hc,hci⟩ := h.owner i pfd hi
    obtain ⟨j,pfd',hj,hp,hfd,hev⟩ := h.slot v c hc
    have hij : j = i := Int.natCast_inj.mp (hj.symm.trans hci)
    rw [hij,hi] at hp
    cases hp
    have hv : pfd.fd = v := by
      have hv0 := (h.fd_of v c hc).2
      unfold ignored at hfd
      omega
    refine ⟨c,by rw [hv]; exact hc,?_,by rw [hev]⟩
    rw [mark,hci,entryAt_natCast,hi]
    rfl
  · rintro ⟨c,hc,hm,rfl⟩
    obtain ⟨i,pfd,hi,hp,-,hev⟩ := h.slot v c hc
    rw [mark,hi,entryAt_natCast,hp] at hm
    have hfd : pfd.fd = v := Option.some.inj hm
    exact ⟨pfd,List.mem_of_getElem? hp,by rw [hfd]; exact (h.fd_of v c hc).2,hfd,by rw [hev]⟩

end LearningMuduo.Reactor.PollPoller
