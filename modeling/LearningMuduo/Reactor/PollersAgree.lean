import LearningMuduo.Reactor.EPollMirror
import LearningMuduo.Reactor.PollSlots

/-! The two pollers side by side: which operations on channels leave them watching the same
descriptors for the same events. -/
namespace LearningMuduo.Reactor
open Library
variable {γ κ : Type} [DecidableEq γ]

/-- The calls on a channel. -/
inductive ChannelOp where
  | enableReading | enableWriting | disableAll | remove
  deriving DecidableEq, Repr

def PollPoller.operate (p : PollPoller γ κ) : γ × ChannelOp → Except PollFault (PollPoller γ κ)
  | (c,.enableReading) => p.interest c .enableReading
  | (c,.enableWriting) => p.interest c .enableWriting
  | (c,.disableAll) => p.interest c .disableAll
  | (c,.remove) => p.remove c

def EPollPoller.operate (p : EPollPoller γ κ) : γ × ChannelOp → Except PollerFault (EPollPoller γ κ)
  | (c,.enableReading) => p.interest c .enableReading
  | (c,.enableWriting) => p.interest c .enableWriting
  | (c,.disableAll) => p.interest c .disableAll
  | (c,.remove) => p.remove c

/-- What the kernel watches. -/
def EPollPoller.Watches (p : EPollPoller γ κ) (v : Int) (ev : Mask) : Prop :=
  (p.interestList v).map Prod.fst = some ev

/-- The same pairs of a descriptor and a mask that is not empty. -/
def Agree (p : PollPoller γ κ) (q : EPollPoller γ κ) : Prop :=
  ∀ v ev, ev ≠ 0 → (p.Watches v ev ↔ q.Watches v ev)

/-- Both pollers take the operations without a failed assertion and then agree. -/
def AgreeAfter (κ : Type) (fd : γ → Int) (ops : List (γ × ChannelOp)) : Prop :=
  ∃ (p : PollPoller γ κ) (q : EPollPoller γ κ), ops.foldlM PollPoller.operate (PollPoller.new fd) = .ok p ∧
    ops.foldlM EPollPoller.operate (EPollPoller.new fd) = .ok q ∧ Agree p q

/-- A channel is `parked` by a `disableAll` that was not its first call. -/
inductive Use where
  | unused | watched | parked | removed
  deriving DecidableEq, Repr

/-- The calls a channel can take: a parked one is not enabled again, and only a parked one
is removed, for good. -/
def Use.step : Use → ChannelOp → Option Use
  | .unused,.remove => none
  | .unused,_ => some .watched
  | .watched,.remove => none
  | .watched,.disableAll => some .parked
  | .watched,_ => some .watched
  | .parked,.remove => some .removed
  | .parked,.disableAll => some .parked
  | .parked,_ => none
  | .removed,_ => none

def useStep (u : γ → Use) (x : γ × ChannelOp) : Option (γ → Use) :=
  ((u x.1).step x.2).map (Function.update u x.1)

def WellUsed (ops : List (γ × ChannelOp)) : Prop := (ops.foldlM useStep fun _ => .unused).isSome

instance (ops : List (γ × ChannelOp)) : Decidable (WellUsed ops) := inferInstanceAs (Decidable (_ = true))

/-- What both pollers hold for a channel in each use. -/
def Status (p : PollPoller γ κ) (q : EPollPoller γ κ) (c : γ) : Use → Prop
  | .unused => p.channels (p.channel c).fd = none ∧ (p.channel c).index = -1 ∧ (p.channel c).events = 0 ∧
    (q.channel c).index = kNew
  | .watched => p.channels (p.channel c).fd = some c ∧ p.mark c = some (p.channel c).fd ∧
    (q.channel c).index ≠ kNew
  | .parked => p.channels (p.channel c).fd = some c ∧ p.mark c = some (ignored (p.channel c).fd) ∧
    (p.channel c).events = 0 ∧ (q.channel c).index ≠ kNew
  | .removed => p.channels (p.channel c).fd = none ∧ 0 ≤ (p.channel c).index ∧ (p.channel c).events = 0 ∧
    (q.channel c).index = kNew

/-- The relation between the two pollers while the channels are used as they should be. -/
structure Related (fd : γ → Int) (u : γ → Use) (p : PollPoller γ κ) (q : EPollPoller γ κ) : Prop where
  slotted : p.Slotted
  consistent : q.Consistent
  poll_fd : ∀ c, (p.channel c).fd = fd c
  epoll_fd : ∀ c, (q.channel c).fd = fd c
  events : ∀ c, (q.channel c).events = (p.channel c).events
  short : ∀ c, ofShort (toShort (p.channel c).events) = (p.channel c).events
  status : ∀ c, Status p q c (u c)

private theorem or_ne_zero (a : Mask) {flags : Mask} (h : flags ≠ 0) : a ||| flags ≠ 0 := by
  intro h0
  have hhas := Mask.has_or_self a h
  rw [h0] at hhas
  exact hhas BitVec.zero_and

omit [DecidableEq γ] in
private theorem Consistent.watches_iff {q : EPollPoller γ κ} (h : q.Consistent) (v : Int) {ev : Mask} (hev : ev ≠ 0) :
    q.Watches v ev ↔ ∃ c, (q.channel c).fd = v ∧ (q.channel c).index ≠ kNew ∧ (q.channel c).events = ev := by
  constructor
  · intro hw
    obtain ⟨⟨ev',c⟩,hl,rfl⟩ := Option.map_eq_some_iff.mp hw
    have hm := h.listed _ _ _ hl
    have hfd := h.fd_of _ _ hm
    subst hfd
    rcases h.entry c with (⟨_,ho,_⟩ | ⟨hi,_,hw'⟩ | ⟨_,_,hw',_⟩) | ⟨_,hno⟩
    · rw [hm] at ho
      cases ho
    · rw [hl] at hw'
      cases hw'
      refine ⟨c,rfl,?_,rfl⟩
      rw [hi]
      decide
    · rw [hl] at hw'
      cases hw'
    · exact (hno hm).elim
  · rintro ⟨c,rfl,hi,rfl⟩
    rcases h.entry c with (⟨hn,_⟩ | ⟨_,_,hw⟩ | ⟨_,_,_,hz⟩) | ⟨hn,_⟩
    · exact (hi hn).elim
    · rw [EPollPoller.Watches,hw]
      rfl
    · exact (hev hz).elim
    · exact (hi hn).elim

variable {fd : γ → Int} {u : γ → Use} {p : PollPoller γ κ} {q : EPollPoller γ κ}

omit [DecidableEq γ] in
private theorem Related.agree (h : Related fd u p q) : Agree p q := by
  intro v ev hev
  rw [h.slotted.watches_iff,Consistent.watches_iff h.consistent v hev]
  constructor
  · rintro ⟨c,hc,-,rfl⟩
    have hfd := (h.slotted.fd_of v c hc).1
    refine ⟨c,by rw [h.epoll_fd,← h.poll_fd,hfd],?_,by rw [h.events,h.short]⟩
    have hs := h.status c
    subst hfd
    cases hu : u c with
    | unused =>
      rw [hu,Status,hc] at hs
      cases hs.1
    | watched =>
      rw [hu] at hs
      exact hs.2.2
    | parked =>
      rw [hu] at hs
      exact hs.2.2.2
    | removed =>
      rw [hu,Status,hc] at hs
      cases hs.1
  · rintro ⟨c,hfd,-,hevc⟩
    rw [h.epoll_fd,← h.poll_fd] at hfd
    rw [h.events] at hevc
    have hs := h.status c
    cases hu : u c with
    | unused =>
      rw [hu] at hs
      exact (hev (hevc.symm.trans hs.2.2.1)).elim
    | watched =>
      rw [hu,Status,hfd] at hs
      exact ⟨c,hs.1,hs.2.1,by rw [h.short,hevc]⟩
    | parked =>
      rw [hu] at hs
      exact (hev (hevc.symm.trans hs.2.2.1)).elim
    | removed =>
      rw [hu] at hs
      exact (hev (hevc.symm.trans hs.2.2.1)).elim

omit [DecidableEq γ] in
private theorem Status.of_same {p' : PollPoller γ κ} {q' : EPollPoller γ κ} {d : γ} {x : Use}
    (hs : PollPoller.SameFor p p' d) (hq : q'.channel d = q.channel d) (h : Status p q d x) :
    Status p' q' d x := by
  cases x with
  | unused =>
    obtain ⟨hreg,hi,hev,hqi⟩ := h
    exact ⟨by rw [hs.fd,hs.registered,hreg],by rw [hs.index hreg,hi],by rw [hs.events,hev],by rw [hq,hqi]⟩
  | watched =>
    obtain ⟨hreg,hm,hqi⟩ := h
    exact ⟨by rw [hs.fd,hs.registered,hreg],by rw [hs.mark hreg,hm,hs.fd],by rw [hq]; exact hqi⟩
  | parked =>
    obtain ⟨hreg,hm,hev,hqi⟩ := h
    exact ⟨by rw [hs.fd,hs.registered,hreg],by rw [hs.mark hreg,hm,hs.fd],by rw [hs.events,hev],
      by rw [hq]; exact hqi⟩
  | removed =>
    obtain ⟨hreg,hi,hev,hqi⟩ := h
    exact ⟨by rw [hs.fd,hs.registered,hreg],by rw [hs.index hreg]; exact hi,by rw [hs.events,hev],by rw [hq,hqi]⟩

/-- What a call on c leaves in both pollers, whatever the use of c. -/
private structure Taken (p : PollPoller γ κ) (q : EPollPoller γ κ) (c : γ) (p' : PollPoller γ κ)
    (q' : EPollPoller γ κ) : Prop where
  slotted : p'.Slotted
  consistent : q'.Consistent
  same : ∀ d, d ≠ c → PollPoller.SameFor p p' d
  other : ∀ d, d ≠ c → q'.channel d = q.channel d
  poll_fd : (p'.channel c).fd = (p.channel c).fd
  epoll_fd : (q'.channel c).fd = (q.channel c).fd
  events : (q'.channel c).events = (p'.channel c).events
  short : ofShort (toShort (p'.channel c).events) = (p'.channel c).events

private theorem Related.next (h : Related fd u p q) {c : γ} {x : Use} {p' : PollPoller γ κ} {q' : EPollPoller γ κ}
    (ht : Taken p q c p' q') (hs : Status p' q' c x) : Related fd (Function.update u c x) p' q' := by
  refine ⟨ht.slotted,ht.consistent,?_,?_,?_,?_,?_⟩
  · intro d
    by_cases hd : d = c
    · rw [hd,ht.poll_fd,h.poll_fd]
    · rw [(ht.same d hd).fd,h.poll_fd]
  · intro d
    by_cases hd : d = c
    · rw [hd,ht.epoll_fd,h.epoll_fd]
    · rw [ht.other d hd,h.epoll_fd]
  · intro d
    by_cases hd : d = c
    · rw [hd,ht.events]
    · rw [ht.other d hd,(ht.same d hd).events,h.events]
  · intro d
    by_cases hd : d = c
    · rw [hd,ht.short]
    · rw [(ht.same d hd).events,h.short]
  · intro d
    by_cases hd : d = c
    · subst hd
      rw [Function.update_self]
      exact hs
    · rw [Function.update_of_ne hd]
      exact (h.status d).of_same (ht.same d hd) (ht.other d hd)

/-- An interest call on c, with m in the entry afterwards. -/
private structure Called (p : PollPoller γ κ) (q : EPollPoller γ κ) (c : γ) (op : Interest) (m : Int)
    (p' : PollPoller γ κ) (q' : EPollPoller γ κ) : Prop extends Taken p q c p' q' where
  poll : p.interest c op = .ok p'
  epoll : q.interest c op = .ok q'
  registered : p'.channels (p'.channel c).fd = some c
  mark : p'.mark c = some m
  mask : (p'.channel c).events = Channel.interestMask (p.channel c).events op
  added : (q'.channel c).index ≠ kNew

/-- The interest calls among the operations. -/
private def Operated (op : Interest) : Prop := op = .enableReading ∨ op = .enableWriting ∨ op = .disableAll

private theorem short_interest {m : Mask} (h : ofShort (toShort m) = m) {op : Interest}
    (hop : Operated op) :
    ofShort (toShort (Channel.interestMask m op)) = Channel.interestMask m op := by
  have hread : ofShort (toShort kReadEvent) = kReadEvent := by decide
  have hwrite : ofShort (toShort kWriteEvent) = kWriteEvent := by decide
  have hnone : ofShort (toShort kNoneEvent) = kNoneEvent := by decide
  rcases hop with rfl | rfl | rfl
  · exact (PollPoller.ofShort_or m kReadEvent).trans (by rw [h,hread]; rfl)
  · exact (PollPoller.ofShort_or m kWriteEvent).trans (by rw [h,hwrite]; rfl)
  · exact hnone

omit [DecidableEq γ] in
/-- Channels with distinct descriptors do not share one. -/
theorem Related.lone (h : Related fd u p q) (hinj : Function.Injective fd) (c : γ) : q.Lone c := by
  intro d hd _ hfd
  rw [h.epoll_fd,h.epoll_fd] at hfd
  exact hd (hinj hfd)

private theorem updated_ne_kNew (ch : Channel κ) : ch.updated.index ≠ kNew := by
  unfold Channel.updated
  dsimp only
  split <;> decide

/-- The epoll poller takes every interest call. -/
theorem Related.epoll_call (h : Related fd u p q) (hinj : Function.Injective fd) (c : γ) (op : Interest) :
    ∃ q', q.interest c op = .ok q' ∧ q'.Consistent ∧ q'.channel c = ((q.channel c).setInterest op).updated ∧
      ∀ d, d ≠ c → q'.channel d = q.channel d := by
  obtain ⟨own,watch,hx,hentry⟩ := EPollPoller.interest_put h.consistent (h.lone hinj c) op
  exact ⟨_,hx,EPollPoller.put_consistent h.consistent (h.lone hinj c) rfl hentry,Function.update_self _ _ _,
    fun d hd => Function.update_of_ne hd _ _⟩

private theorem Related.called (h : Related fd u p q) (hinj : Function.Injective fd) {c : γ} {op : Interest} {m : Int}
    {p' : PollPoller γ κ} (hop : Operated op)
    (hx : p.interest c op = .ok p') (hp : p'.Slotted) (hsame : ∀ d, d ≠ c → PollPoller.SameFor p p' d)
    (hfd : (p'.channel c).fd = (p.channel c).fd) (hreg : p'.channels (p'.channel c).fd = some c)
    (hm : p'.mark c = some m) (hev : (p'.channel c).events = Channel.interestMask (p.channel c).events op) :
    ∃ q', Called p q c op m p' q' := by
  obtain ⟨q',hq,hcons,hself,hother⟩ := h.epoll_call hinj c op
  have hqev : (q'.channel c).events = (p'.channel c).events := by
    rw [hself,hev,← h.events]
    rfl
  have hshort : ofShort (toShort (p'.channel c).events) = (p'.channel c).events := by
    rw [hev]
    exact short_interest (h.short c) hop
  exact ⟨q',⟨hp,hcons,hsame,hother,hfd,by rw [hself]; rfl,hqev,hshort⟩,hx,hq,hreg,hm,hev,
    by rw [hself]; exact updated_ne_kNew _⟩

private theorem Related.call_unused (h : Related fd u p q) (hinj : Function.Injective fd) (hpos : ∀ c, 0 ≤ fd c)
    {c : γ} {op : Interest} (hop : Operated op) (hu : u c = .unused) :
    ∃ p' q', Called p q c op (p.channel c).fd p' q' := by
  have hs := h.status c
  rw [hu] at hs
  obtain ⟨hreg,hi,-,-⟩ := hs
  have hself : (p.pushed c ((p.channel c).setInterest op)).channel c =
      { (p.channel c).setInterest op with index := p.pollfds.length } := Function.update_self _ _ _
  have hfdne (d : γ) (hd : d ≠ c) : (p.channel d).fd ≠ ((p.channel c).setInterest op).fd := by
    intro heq
    change (p.channel d).fd = (p.channel c).fd at heq
    rw [h.poll_fd,h.poll_fd] at heq
    exact hd (hinj heq)
  have hnone (v : Int) : p.channels v ≠ some c := by
    intro hv
    rw [(h.slotted.fd_of v c hv).1,hv] at hreg
    cases hreg
  refine ⟨_,h.called hinj hop (PollPoller.interest_new (by rw [hi]; decide) op)
    (PollPoller.pushed_slotted h.slotted ?_ hreg hnone)
    (fun d hd => h.slotted.pushed_same hd (hfdne d hd)) (by rw [hself]; rfl)
    (by rw [hself]; exact Function.update_self _ _ _) ?_ (by rw [hself]; rfl)⟩
  · change 0 ≤ (p.channel c).fd
    rw [h.poll_fd]
    exact hpos c
  · rw [PollPoller.mark,hself,PollPoller.entryAt_natCast]
    change ((p.pollfds ++ [_])[p.pollfds.length]?).map _ = _
    rw [List.getElem?_concat_length]
    rfl

private theorem Related.call_used (h : Related fd u p q) (hinj : Function.Injective fd) {c : γ} {op : Interest}
    (hop : Operated op)
    (hreg : p.channels (p.channel c).fd = some c) {m : Int} (hm : p.mark c = some m) :
    ∃ p' q', Called p q c op
      (if ((p.channel c).setInterest op).isNoneEvent then ignored (p.channel c).fd else m) p' q' := by
  obtain ⟨i,pfd,hi,hp,hfd,-⟩ := h.slotted.slot _ c hreg
  rw [PollPoller.mark,hi,PollPoller.entryAt_natCast,hp] at hm
  have hpm : pfd.fd = m := Option.some.inj hm
  have hlen : i < p.pollfds.length := (List.getElem?_eq_some_iff.mp hp).1
  let ch := (p.channel c).setInterest op
  have hself : (p.rewritten c ch i (PollPoller.refreshed ch pfd)).channel c = ch := Function.update_self _ _ _
  refine ⟨_,h.called hinj hop (PollPoller.interest_used hi hp hfd op)
    (PollPoller.rewritten_slotted h.slotted hreg hi hi ?_ rfl)
    (fun d hd => h.slotted.rewritten_same hreg hi hd) (by rw [hself]; rfl)
    (by rw [hself]; exact hreg) ?_ (by rw [hself]; rfl)⟩
  · unfold PollPoller.refreshed
    dsimp only
    split
    · exact .inr rfl
    · exact hfd
  · rw [PollPoller.mark,hself,show ch.index = i from hi,PollPoller.entryAt_natCast,← hpm]
    change ((p.pollfds.set i _)[i]?).map _ = _
    rw [List.getElem?_set_self hlen]
    rfl

/-- Both pollers remove a parked channel. -/
theorem Related.remove_parked (h : Related fd u p q) (hinj : Function.Injective fd) {c : γ}
    (hu : u c = .parked) : ∃ p' q', p.remove c = .ok p' ∧ q.remove c = .ok q' ∧
      Related fd (Function.update u c .removed) p' q' := by
  have hs := h.status c
  rw [hu] at hs
  obtain ⟨hreg,hm,hz,hqi⟩ := hs
  obtain ⟨i,pfd,hi,hp,-,hev⟩ := h.slotted.slot _ c hreg
  rw [PollPoller.mark,hi,PollPoller.entryAt_natCast,hp] at hm
  have hpfd : pfd.fd = ignored (p.channel c).fd := Option.some.inj hm
  have hqz : (q.channel c).isNoneEvent := (h.events c).trans hz
  obtain ⟨d,back,hl,hx⟩ := h.slotted.remove_ignored hreg hz hi hp hpfd (by rw [hev,h.short])
  have hfdne (e : γ) (he : e ≠ c) : (p.channel e).fd ≠ (p.channel c).fd := by
    intro heq
    rw [h.poll_fd,h.poll_fd] at heq
    exact he (hinj heq)
  have hself : (q.put c (q.channel c).removed none none).channel c = (q.channel c).removed :=
    Function.update_self _ _ _
  have ht : Taken p q c (p.evicted c d i back) (q.put c (q.channel c).removed none none) := by
    refine ⟨h.slotted.evicted_slotted hl hreg hi,
      EPollPoller.put_consistent h.consistent (h.lone hinj c) rfl (.inl ⟨rfl,rfl,rfl⟩),
      fun e he => h.slotted.evicted_same hl hreg hi he (hfdne e he),fun e he => Function.update_of_ne he _ _,
      PollPoller.evicted_fd d i back c,by rw [hself]; rfl,?_,?_⟩
    · rw [hself,PollPoller.evicted_events,← h.events]
      rfl
    · rw [PollPoller.evicted_events,h.short]
  refine ⟨_,_,hx,EPollPoller.remove_put h.consistent hqz hqi,h.next ht ⟨?_,?_,?_,by rw [hself]; rfl⟩⟩
  · rw [PollPoller.evicted_fd]
    exact Function.update_self _ _ _
  · rw [PollPoller.evicted_index,hi,ite_self]
    exact Int.natCast_nonneg i
  · rw [PollPoller.evicted_events]
    exact hz

private theorem Related.of_called (hr : Related fd u p q) {c : γ} {op : Interest} {m : Int} {x : Use}
    (h : ∃ p' q', Called p q c op m p' q')
    (hs : ∀ p' q', Called p q c op m p' q' → Status p' q' c x) :
    ∃ p' q', p.interest c op = .ok p' ∧ q.interest c op = .ok q' ∧ Related fd (Function.update u c x) p' q' := by
  obtain ⟨p',q',hc⟩ := h
  exact ⟨p',q',hc.poll,hc.epoll,hr.next hc.toTaken (hs p' q' hc)⟩

/-- A channel that was enabled asks for something. -/
theorem enabled_not_none (ch : Channel κ) {op : Interest}
    (hop : op = .enableReading ∨ op = .enableWriting) : ¬ (ch.setInterest op).isNoneEvent := by
  rcases hop with rfl | rfl
  · exact or_ne_zero ch.events (by decide)
  · exact or_ne_zero ch.events (by decide)

private theorem Operated.of_enable {op : Interest} (hop : op = .enableReading ∨ op = .enableWriting) : Operated op :=
  hop.elim .inl fun h => .inr (.inl h)

private theorem Related.enable_watched (h : Related fd u p q) (hinj : Function.Injective fd) {c : γ} {op : Interest}
    (hop : op = .enableReading ∨ op = .enableWriting) (hu : u c = .watched) :
    ∃ p' q', p.interest c op = .ok p' ∧ q.interest c op = .ok q' ∧
      Related fd (Function.update u c .watched) p' q' := by
  have hs := h.status c
  rw [hu] at hs
  obtain ⟨hreg,hm,-⟩ := hs
  refine h.of_called (h.call_used hinj (.of_enable hop) hreg hm) ?_
  intro p' q' hc
  refine ⟨hc.registered,?_,hc.added⟩
  rw [hc.mark,hc.poll_fd,if_neg (enabled_not_none _ hop)]

private theorem Related.disable_used (h : Related fd u p q) (hinj : Function.Injective fd) {c : γ}
    (hreg : p.channels (p.channel c).fd = some c) {m : Int} (hm : p.mark c = some m) :
    ∃ p' q', p.interest c .disableAll = .ok p' ∧ q.interest c .disableAll = .ok q' ∧
      Related fd (Function.update u c .parked) p' q' := by
  refine h.of_called (h.call_used hinj (.inr (.inr rfl)) hreg hm) ?_
  intro p' q' hc
  refine ⟨hc.registered,?_,hc.mask,hc.added⟩
  have hz : ((p.channel c).setInterest .disableAll).isNoneEvent := rfl
  rw [hc.mark,hc.poll_fd,if_pos hz]

private theorem Related.call_first (h : Related fd u p q) (hinj : Function.Injective fd) (hpos : ∀ c, 0 ≤ fd c)
    {c : γ} {op : Interest} (hop : Operated op) (hu : u c = .unused) :
    ∃ p' q', p.interest c op = .ok p' ∧ q.interest c op = .ok q' ∧
      Related fd (Function.update u c .watched) p' q' := by
  refine h.of_called (h.call_unused hinj hpos hop hu) ?_
  intro p' q' hc
  exact ⟨hc.registered,by rw [hc.mark,hc.poll_fd],hc.added⟩

/-- A call in the order of use is taken by both pollers and keeps them related. -/
theorem Related.step (h : Related fd u p q) (hinj : Function.Injective fd) (hpos : ∀ c, 0 ≤ fd c)
    {x : γ × ChannelOp} {u' : γ → Use} (hx : useStep u x = some u') :
    ∃ p' q', p.operate x = .ok p' ∧ q.operate x = .ok q' ∧ Related fd u' p' q' := by
  obtain ⟨c,op⟩ := x
  obtain ⟨y,hy,rfl⟩ := Option.map_eq_some_iff.mp hx
  have hs := h.status c
  cases hu : u c with
  | unused =>
    cases op with
    | enableReading =>
      simp only [hu,Use.step,Option.some.injEq] at hy
      subst hy
      exact h.call_first hinj hpos (.inl rfl) hu
    | enableWriting =>
      simp only [hu,Use.step,Option.some.injEq] at hy
      subst hy
      exact h.call_first hinj hpos (.inr (.inl rfl)) hu
    | disableAll =>
      simp only [hu,Use.step,Option.some.injEq] at hy
      subst hy
      exact h.call_first hinj hpos (.inr (.inr rfl)) hu
    | remove => simp [hu,Use.step] at hy
  | watched =>
    cases op with
    | enableReading =>
      simp only [hu,Use.step,Option.some.injEq] at hy
      subst hy
      exact h.enable_watched hinj (.inl rfl) hu
    | enableWriting =>
      simp only [hu,Use.step,Option.some.injEq] at hy
      subst hy
      exact h.enable_watched hinj (.inr rfl) hu
    | disableAll =>
      simp only [hu,Use.step,Option.some.injEq] at hy
      subst hy
      rw [hu] at hs
      exact h.disable_used hinj hs.1 hs.2.1
    | remove => simp [hu,Use.step] at hy
  | parked =>
    cases op with
    | enableReading => simp [hu,Use.step] at hy
    | enableWriting => simp [hu,Use.step] at hy
    | disableAll =>
      simp only [hu,Use.step,Option.some.injEq] at hy
      subst hy
      rw [hu] at hs
      exact h.disable_used hinj hs.1 hs.2.1
    | remove =>
      simp only [hu,Use.step,Option.some.injEq] at hy
      subst hy
      exact h.remove_parked hinj hu
  | removed => simp [hu,Use.step] at hy

/-- A parked channel that is enabled again is watched by epoll only: its entry stays ignored. -/
theorem Related.enable_parked (h : Related fd u p q) (hinj : Function.Injective fd) (hpos : ∀ c, 0 ≤ fd c)
    {c : γ} {op : Interest} (hop : op = .enableReading ∨ op = .enableWriting) (hu : u c = .parked) :
    ∃ p' q', p.interest c op = .ok p' ∧ q.interest c op = .ok q' ∧ ¬ Agree p' q' := by
  have hs := h.status c
  rw [hu] at hs
  obtain ⟨hreg,hm,-,hqi⟩ := hs
  obtain ⟨p',q',hc⟩ := h.call_used hinj (.of_enable hop) hreg hm
  refine ⟨p',q',hc.poll,hc.epoll,?_⟩
  intro hagree
  have hne : (q'.channel c).events ≠ 0 := by
    rw [hc.events,hc.mask]
    exact enabled_not_none (p.channel c) hop
  have hw := (Consistent.watches_iff hc.consistent _ hne).mpr ⟨c,rfl,hc.added,rfl⟩
  obtain ⟨d,hd,hmark,-⟩ := (hc.slotted.watches_iff _ _).mp ((hagree _ _ hne).mpr hw)
  have hfd : (q'.channel c).fd = (p'.channel c).fd := by
    rw [hc.epoll_fd,h.epoll_fd,hc.poll_fd,h.poll_fd]
  rw [hfd,hc.registered] at hd
  cases hd
  rw [hc.mark,if_neg (enabled_not_none _ hop),hfd,hc.poll_fd,h.poll_fd] at hmark
  have hign : ignored (fd c) = fd c := Option.some.inj hmark
  have hp := hpos c
  unfold ignored at hign
  omega

/-- A removed channel, whose index has not been reset, fails an assertion in every call. -/
theorem Related.removed_fails (h : Related fd u p q) (hpos : ∀ c, 0 ≤ fd c) {c : γ} (hu : u c = .removed)
    (op : ChannelOp) : ∃ e, p.operate (c,op) = .error e := by
  have hs := h.status c
  rw [hu] at hs
  obtain ⟨hreg,hi,-,-⟩ := hs
  have hno (pfd : PollFd) (hpfd : p.entryAt (p.channel c).index = some pfd) :=
    h.slotted.foreign hreg (by rw [h.poll_fd]; exact hpos c) hpfd
  cases op with
  | enableReading => exact PollPoller.interest_stale hi hno _
  | enableWriting => exact PollPoller.interest_stale hi hno _
  | disableAll => exact PollPoller.interest_stale hi hno _
  | remove => exact PollPoller.remove_fails fun pfd hpfd => (hno pfd hpfd).2

/-- A removal of a channel that is not parked fails an assertion. -/
theorem Related.remove_unparked (h : Related fd u p q) (hpos : ∀ c, 0 ≤ fd c) {c : γ} (hu : u c ≠ .parked) :
    ∃ e, p.remove c = .error e := by
  have hs := h.status c
  refine PollPoller.remove_fails ?_
  intro pfd hpfd
  cases hx : u c with
  | unused =>
    rw [hx] at hs
    rw [hs.2.1,PollPoller.entryAt,if_neg (by decide)] at hpfd
    cases hpfd
  | watched =>
    rw [hx] at hs
    have hm := hs.2.1
    rw [PollPoller.mark,hpfd] at hm
    have hfd : pfd.fd = (p.channel c).fd := Option.some.inj hm
    have hp := hpos c
    rw [hfd,h.poll_fd]
    unfold ignored
    omega
  | parked => exact (hu hx).elim
  | removed =>
    rw [hx] at hs
    exact (h.slotted.foreign hs.1 (by rw [h.poll_fd]; exact hpos c) hpfd).2

private theorem Related.misused (h : Related fd u p q) (hinj : Function.Injective fd) (hpos : ∀ c, 0 ≤ fd c)
    {x : γ × ChannelOp} (hx : useStep u x = none) :
    ¬ ∃ p' q', p.operate x = .ok p' ∧ q.operate x = .ok q' ∧ Agree p' q' := by
  obtain ⟨c,op⟩ := x
  have hy : (u c).step op = none := Option.map_eq_none_iff.mp hx
  rintro ⟨p',q',hp',hq',hagree⟩
  have hfail (hf : ∃ e, p.operate (c,op) = .error e) : False := by
    obtain ⟨e,he⟩ := hf
    rw [he] at hp'
    cases hp'
  have henable {i : Interest} (hop : i = .enableReading ∨ i = .enableWriting) (hu : u c = .parked)
      (hpi : p.interest c i = .ok p') (hqi : q.interest c i = .ok q') : False := by
    obtain ⟨p1,q1,hp1,hq1,hno⟩ := h.enable_parked hinj hpos hop hu
    rw [hp1] at hpi
    rw [hq1] at hqi
    cases hpi
    cases hqi
    exact hno hagree
  cases hu : u c with
  | unused =>
    cases op with
    | enableReading => simp [hu,Use.step] at hy
    | enableWriting => simp [hu,Use.step] at hy
    | disableAll => simp [hu,Use.step] at hy
    | remove => exact hfail (h.remove_unparked hpos (by rw [hu]; decide))
  | watched =>
    cases op with
    | enableReading => simp [hu,Use.step] at hy
    | enableWriting => simp [hu,Use.step] at hy
    | disableAll => simp [hu,Use.step] at hy
    | remove => exact hfail (h.remove_unparked hpos (by rw [hu]; decide))
  | parked =>
    cases op with
    | enableReading => exact henable (.inl rfl) hu hp' hq'
    | enableWriting => exact henable (.inr rfl) hu hp' hq'
    | disableAll => simp [hu,Use.step] at hy
    | remove => simp [hu,Use.step] at hy
  | removed => exact hfail (h.removed_fails hpos hu op)

omit [DecidableEq γ] in
/-- Two new pollers are related. -/
theorem new_related (fd : γ → Int) :
    Related fd (fun _ => .unused) (PollPoller.new fd : PollPoller γ κ) (EPollPoller.new fd : EPollPoller γ κ) := by
  have hshort : ofShort (toShort 0) = 0 := by decide
  refine ⟨⟨?_,?_,?_⟩,EPollPoller.new_consistent fd,fun _ => rfl,fun _ => rfl,fun _ => rfl,fun _ => hshort,
    fun _ => ⟨rfl,rfl,rfl,rfl⟩⟩
  · intro v c hc
    cases hc
  · intro v c hc
    cases hc
  · intro i pfd hp
    cases hp

private theorem Related.run (hinj : Function.Injective fd) (hpos : ∀ c, 0 ≤ fd c) (ops : List (γ × ChannelOp))
    {u u' : γ → Use} {p : PollPoller γ κ} {q : EPollPoller γ κ} (h : Related fd u p q)
    (hu : ops.foldlM useStep u = some u') :
    ∃ p' q', ops.foldlM PollPoller.operate p = .ok p' ∧ ops.foldlM EPollPoller.operate q = .ok q' ∧
      Related fd u' p' q' := by
  induction ops generalizing u p q with
  | nil =>
    cases hu
    exact ⟨p,q,rfl,rfl,h⟩
  | cons x ops ih =>
    rw [List.foldlM_cons] at hu
    obtain ⟨v,hv,hrest⟩ := Option.bind_eq_some_iff.mp hu
    obtain ⟨p1,q1,hp1,hq1,h1⟩ := h.step hinj hpos hv
    obtain ⟨p',q',hp',hq',h'⟩ := ih h1 hrest
    exact ⟨p',q',by rw [List.foldlM_cons,hp1]; exact hp',by rw [List.foldlM_cons,hq1]; exact hq',h'⟩

private theorem WellUsed.of_append {pre post : List (γ × ChannelOp)} (h : WellUsed (pre ++ post)) : WellUsed pre := by
  obtain ⟨u,hu⟩ := Option.isSome_iff_exists.mp h
  rw [List.foldlM_append] at hu
  obtain ⟨v,hv,-⟩ := Option.bind_eq_some_iff.mp hu
  rw [WellUsed,hv]
  rfl

/-- A misused channel shows in the call that misuses it. -/
theorem not_agree_misused (ops : List (γ × ChannelOp)) {x : γ × ChannelOp} {u : γ → Use}
    (hinj : Function.Injective fd) (hpos : ∀ c, 0 ≤ fd c) (hu : ops.foldlM useStep (fun _ => .unused) = some u)
    (hx : useStep u x = none) : ¬ AgreeAfter κ fd (ops ++ [x]) := by
  obtain ⟨p,q,hp,hq,hrel⟩ := (new_related fd).run (κ := κ) hinj hpos ops hu
  rintro ⟨p',q',hp',hq',hagree⟩
  rw [List.foldlM_append,hp] at hp'
  rw [List.foldlM_append,hq] at hq'
  exact hrel.misused hinj hpos hx ⟨p',q',by simpa using hp',by simpa using hq',hagree⟩

/-- After every operation of a run both pollers have passed their assertions and watch the
same, exactly when no channel is enabled again after it was parked, removed before it was
parked, or used after its removal. -/
theorem pollers_agree_iff (fd : γ → Int) (hinj : Function.Injective fd) (hpos : ∀ c, 0 ≤ fd c)
    (ops : List (γ × ChannelOp)) : (∀ pre, pre <+: ops → AgreeAfter κ fd pre) ↔ WellUsed ops := by
  constructor
  · intro h
    induction ops using List.reverseRecOn with
    | nil => rfl
    | append_singleton ops x ih =>
      have hops := ih fun pre hpre => h pre (hpre.trans (List.prefix_append ops [x]))
      obtain ⟨u,hu⟩ := Option.isSome_iff_exists.mp hops
      rw [WellUsed,List.foldlM_append,hu]
      cases hx : useStep u x with
      | some u' => simp [hx]
      | none => exact (not_agree_misused ops hinj hpos hu hx (h (ops ++ [x]) (List.prefix_refl _))).elim
  · rintro h pre ⟨post,rfl⟩
    obtain ⟨u,hu⟩ := Option.isSome_iff_exists.mp h.of_append
    obtain ⟨p,q,hp,hq,hrel⟩ := (new_related fd).run (κ := κ) hinj hpos pre hu
    exact ⟨p,q,hp,hq,hrel.agree⟩

private def closeFirst : List (Bool × ChannelOp) :=
  [(true,.enableReading),(false,.enableReading),(true,.enableWriting),(true,.disableAll),(true,.remove),
    (false,.enableWriting)]

/-- Two connections, of which the first one is closed and the entry of the other moves. -/
theorem pollers_agree_close : WellUsed closeFirst ∧
    ∀ pre, pre <+: closeFirst → AgreeAfter Unit (fun c : Bool => if c then 5 else 6) pre := by
  have hw : WellUsed closeFirst := by decide
  exact ⟨hw,(pollers_agree_iff (κ := Unit) (fun c : Bool => if c then 5 else 6) (by decide) (by decide)
    closeFirst).mpr hw⟩

/-- A channel that is disabled and enabled again is lost to `::poll`: its entry stays ignored,
while epoll watches it. -/
theorem reenabled_channel_is_ignored :
    ¬ AgreeAfter Unit (fun _ : Unit => 5) [((),.enableReading),((),.disableAll),((),.enableReading)] :=
  not_agree_misused [((),.enableReading),((),.disableAll)] (Function.injective_of_subsingleton _)
    (fun _ => by decide) rfl rfl

end LearningMuduo.Reactor
