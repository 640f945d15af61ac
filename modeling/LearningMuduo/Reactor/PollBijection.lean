import LearningMuduo.Reactor.PollSlots
import Mathlib.Data.Finset.Card
import Mathlib.Data.Fintype.Basic
import Mathlib.Data.List.Forall2

/-! The array of a poll poller and its map of channels in step over every sequence of calls, and
what that makes of the answers of `::poll`. -/
namespace LearningMuduo.Reactor.PollPoller
open Library
variable {γ κ : Type}

/-- The test `pfd->revents > 0`, of a `short`. -/
def Fired (pfd : PollFd) : Prop := 0 < pfd.revents.toInt

instance (pfd : PollFd) : Decidable (Fired pfd) := inferInstanceAs (Decidable (_ < _))

/-- `::poll` writes the returned events of every entry. -/
def answered (p : PollPoller γ κ) (reply : List (BitVec 16)) : PollPoller γ κ :=
  { p with pollfds := p.pollfds.zipWith (fun pfd revents => { pfd with revents := revents }) reply }

/-- Array and map are as large as each other, and each registered channel has its own entry. -/
structure Bijective (p : PollPoller γ κ) : Prop where
  same_size : ∃ registered : Finset Int, (∀ v, v ∈ registered ↔ p.channels v ≠ none) ∧
    registered.card = p.pollfds.length
  in_range : ∀ v c, p.channels v = some c → 0 ≤ (p.channel c).index ∧ (p.channel c).index < p.pollfds.length
  distinct : ∀ v w c d, p.channels v = some c → p.channels w = some d → c ≠ d →
    (p.channel c).index ≠ (p.channel d).index
  entry : ∀ v c, p.channels v = some c → v = (p.channel c).fd ∧ ∃ pfd, p.entryAt (p.channel c).index = some pfd ∧
    (pfd.fd = (p.channel c).fd ∨ pfd.fd = -(p.channel c).fd-1) ∧ ofShort pfd.events = (p.channel c).events

/-- The active channels belong to the entries with returned events, one to one and in their order. -/
structure Reports (p q : PollPoller γ κ) (activeChannels : List γ) : Prop where
  in_order : List.Forall₂ (fun pfd c => p.channels pfd.fd = some c ∧ p.entryAt (p.channel c).index = some pfd ∧
    (q.channel c).revents = ofShort pfd.revents) (p.pollfds.filter (fun pfd => Fired pfd)) activeChannels
  once : activeChannels.Nodup

/-- What every call keeps. -/
structure Kept (fd : γ → Int) (p : PollPoller γ κ) : Prop where
  slotted : p.Slotted
  fd_eq : ∀ c, (p.channel c).fd = fd c
  short : ∀ c, ofShort (toShort (p.channel c).events) = (p.channel c).events

variable {p q : PollPoller γ κ} {c : γ} {fd : γ → Int}

private theorem Kept.free_or_own (h : p.Kept fd) (hinj : Function.Injective fd) (c : γ) :
    p.channels (p.channel c).fd = none ∨ p.channels (p.channel c).fd = some c := by
  cases hc : p.channels (p.channel c).fd with
  | none => exact .inl rfl
  | some d =>
    have hfd := (h.slotted.fd_of _ d hc).1
    rw [h.fd_eq,h.fd_eq] at hfd
    exact .inr (congrArg some (hinj hfd))

/-- A channel that finds an entry with its descriptor is registered. -/
theorem Kept.registered (h : p.Kept fd) (hinj : Function.Injective fd) (hpos : ∀ c, 0 ≤ fd c) {pfd : PollFd}
    (he : p.entryAt (p.channel c).index = some pfd)
    (hfd : pfd.fd = (p.channel c).fd ∨ pfd.fd = ignored (p.channel c).fd) :
    p.channels (p.channel c).fd = some c := by
  refine (h.free_or_own hinj c).resolve_left fun hnone => ?_
  obtain ⟨hne,hne'⟩ := h.slotted.foreign hnone (by rw [h.fd_eq]; exact hpos c) he
  exact hfd.elim hne hne'

private theorem Kept.not_registered (h : p.Kept fd) (hi : (p.channel c).index < 0) (v : Int) : p.channels v ≠ some c := by
  intro hc
  obtain ⟨i,_,hindex,-⟩ := h.slotted.slot v c hc
  omega

/-- Entry and channel find each other through the descriptor. -/
theorem Slotted.owner_of_nonneg (h : p.Slotted) {i : Nat} {pfd : PollFd} (hp : p.pollfds[i]? = some pfd) (hpos : 0 ≤ pfd.fd) :
    ∃ c, p.channels pfd.fd = some c ∧ (p.channel c).index = i := by
  obtain ⟨v,c,hc,hi⟩ := h.owner i pfd hp
  obtain ⟨j,pfd',hj,hp',hfd,-⟩ := h.slot v c hc
  have hij : j = i := Int.natCast_inj.mp (hj.symm.trans hi)
  rw [hij,hp] at hp'
  obtain rfl := Option.some.inj hp'
  have hv : v = pfd.fd := by
    have hv0 := (h.fd_of v c hc).2
    unfold ignored at hfd
    omega
  exact ⟨c,hv ▸ hc,hi⟩

private theorem Slotted.entryAt_of_mem (h : p.Slotted) {pfd : PollFd} (hmem : pfd ∈ p.pollfds) (hpos : 0 ≤ pfd.fd)
    (hc : p.channels pfd.fd = some c) : p.entryAt (p.channel c).index = some pfd := by
  obtain ⟨i,hi⟩ := List.getElem?_of_mem hmem
  obtain ⟨d,hd,hdi⟩ := h.owner_of_nonneg hi hpos
  obtain rfl := Option.some.inj (hd.symm.trans hc)
  rw [hdi,entryAt_natCast,hi]

private theorem Slotted.fds_nodup (h : p.Slotted) (hpos : ∀ pfd ∈ p.pollfds, pfd.fd < 0 → ¬ Fired pfd) :
    ((p.pollfds.filter (fun pfd => Fired pfd)).map PollFd.fd).Nodup := by
  rw [List.Nodup,List.pairwise_map,List.pairwise_filter,List.pairwise_iff_getElem]
  intro i j hi hj hlt hfi hfj heq
  have hfirst := List.getElem?_eq_getElem hi
  have hsecond := List.getElem?_eq_getElem hj
  have hnonneg {k : Nat} (hk : k < p.pollfds.length) (hf : decide (Fired p.pollfds[k]) = true) : 0 ≤ p.pollfds[k].fd :=
    Int.not_lt.mp fun hneg => hpos _ (List.getElem_mem hk) hneg (of_decide_eq_true hf)
  obtain ⟨c,hc,hci⟩ := h.owner_of_nonneg hfirst (hnonneg hi hfi)
  obtain ⟨d,hd,hdj⟩ := h.owner_of_nonneg hsecond (hnonneg hj hfj)
  rw [heq,hd] at hc
  obtain rfl := Option.some.inj hc
  have hij : i = j := Int.natCast_inj.mp (hci.symm.trans hdj)
  exact hlt.ne hij

private theorem map_asked_answered {reply : List (BitVec 16)} (h : reply.length = p.pollfds.length) :
    (p.answered reply).pollfds.map asked = p.pollfds.map asked := by
  change (p.pollfds.zipWith _ reply).map asked = _
  generalize p.pollfds = pollfds at h
  induction pollfds generalizing reply with
  | nil => rfl
  | cons pfd pollfds ih =>
    cases reply with
    | nil => cases h
    | cons revents reply =>
      rw [List.zipWith_cons_cons,List.map_cons,List.map_cons,ih (Nat.succ.inj h)]
      rfl

/-- The answer of `::poll` changes no entry but its returned events. -/
theorem Kept.answered {reply : List (BitVec 16)} (h : p.Kept fd) (hlen : reply.length = p.pollfds.length) :
    (p.answered reply).Kept fd :=
  ⟨h.slotted.congr (fun _ => ⟨rfl,rfl,rfl⟩) rfl (map_asked_answered hlen),h.fd_eq,h.short⟩

private theorem reported_fds {entries : List PollFd} {more : List γ} (hfd : ∀ v c, p.channels v = some c → (p.channel c).fd = v)
    (h : List.Forall₂ (fun pfd c => p.channels pfd.fd = some c ∧ (q.channel c).revents = ofShort pfd.revents) entries more) :
    entries.map PollFd.fd = more.map (fun c => (p.channel c).fd) := by
  rw [← List.forall₂_eq_eq_eq,List.forall₂_map_left_iff,List.forall₂_map_right_iff]
  exact h.imp fun pfd c hc => (hfd _ c hc.1).symm

/-- What the loop has done to the channels when it has reported these entries. -/
structure Passed (p q : PollPoller γ κ) (entries : List PollFd) (more : List γ) : Prop where
  channels : q.channels = p.channels
  revents : ∀ c, ∃ revents, q.channel c = { p.channel c with revents := revents }
  others : ∀ c, c ∉ more → q.channel c = p.channel c
  reports : List.Forall₂ (fun pfd c => p.channels pfd.fd = some c ∧ (q.channel c).revents = ofShort pfd.revents) entries more

private theorem Passed.nil (p : PollPoller γ κ) (pollfds : List PollFd) : p.Passed { p with pollfds := pollfds } [] [] :=
  ⟨rfl,fun _ => ⟨_,rfl⟩,fun _ _ => rfl,.nil⟩

private theorem Slotted.same_size (h : p.Slotted) : ∃ registered : Finset Int,
    (∀ v, v ∈ registered ↔ p.channels v ≠ none) ∧ registered.card = p.pollfds.length := by
  have howner (i : Fin p.pollfds.length) : ∃ v c, p.channels v = some c ∧ (p.channel c).index = (i : Nat) :=
    h.owner i _ (List.getElem?_eq_getElem i.isLt)
  choose descriptor channel hchannel hindex using howner
  refine ⟨Finset.univ.image descriptor,fun v => ?_,?_⟩
  · rw [Finset.mem_image]
    constructor
    · rintro ⟨i,-,rfl⟩
      rw [hchannel]
      exact Option.some_ne_none _
    · intro hv
      obtain ⟨c,hc⟩ := Option.ne_none_iff_exists'.mp hv
      obtain ⟨i,pfd,hi,hp,-⟩ := h.slot v c hc
      refine ⟨⟨i,(List.getElem?_eq_some_iff.mp hp).1⟩,Finset.mem_univ _,?_⟩
      exact h.index_inj (hchannel _) hc ((hindex _).trans hi.symm)
  · rw [Finset.card_image_of_injective _ ?_,Finset.card_univ,Fintype.card_fin]
    intro i j hij
    have hsame := hchannel i
    rw [hij,hchannel j] at hsame
    have hnat := hindex i
    rw [← Option.some.inj hsame,hindex j] at hnat
    exact Fin.ext (Int.natCast_inj.mp hnat.symm)

private theorem Kept.bijective (h : p.Kept fd) : p.Bijective := by
  refine ⟨h.slotted.same_size,fun v c hc => ?_,fun v w c d hc hd hne hi => ?_,fun v c hc => ?_⟩
  · obtain ⟨i,pfd,hi,hp,-⟩ := h.slotted.slot v c hc
    have hlt := (List.getElem?_eq_some_iff.mp hp).1
    omega
  · obtain rfl := h.slotted.index_inj hc hd hi
    exact hne (Option.some.inj (hc.symm.trans hd))
  · obtain ⟨i,pfd,hi,hp,hfd,hev⟩ := h.slotted.slot v c hc
    obtain ⟨rfl,-⟩ := h.slotted.fd_of v c hc
    exact ⟨rfl,pfd,by rw [hi,entryAt_natCast,hp],hfd,by rw [hev,h.short]⟩

private theorem new_kept (fd : γ → Int) : (new fd : PollPoller γ κ).Kept fd := by
  refine ⟨⟨?_,?_,?_⟩,fun _ => rfl,fun _ => rfl⟩
  · rintro v c ⟨⟩
  · rintro v c ⟨⟩
  · rintro i pfd ⟨⟩

variable [DecidableEq γ]

/-- The loop of `fillActiveChannels` behind the entries in `front`; none where the assertion
finds no channel for a descriptor. -/
def fillLoop (p : PollPoller γ κ) (front : List PollFd) :
    List PollFd → Nat → List γ → Option (PollPoller γ κ × List γ)
  | [],_,activeChannels => some ({ p with pollfds := front },activeChannels)
  | pfd :: rest,numEvents,activeChannels =>
    if numEvents > 0 then
      if Fired pfd then
        match p.channels pfd.fd with
        | none => none
        | some c =>
          fillLoop (p.setChannel c { p.channel c with revents := ofShort pfd.revents })
            (front ++ [{ pfd with revents := 0 }]) rest (numEvents-1) (activeChannels ++ [c])
      else fillLoop p (front ++ [pfd]) rest numEvents activeChannels
    else some ({ p with pollfds := front ++ pfd :: rest },activeChannels)

def fillActiveChannels (p : PollPoller γ κ) (numEvents : Nat) (activeChannels : List γ) :
    Option (PollPoller γ κ × List γ) :=
  p.fillLoop [] p.pollfds numEvents activeChannels

/-- What reaches the poller: an interest call of a channel, an `updateChannel` or a
`removeChannel` of its own, and a return of `::poll`. -/
inductive PollCall (γ : Type) where
  | interest (c : γ) (op : Interest)
  | updateChannel (c : γ)
  | removeChannel (c : γ)
  | poll (reply : List (BitVec 16)) (numEvents : Nat)
  deriving DecidableEq, Repr

/-- A failed assertion, in the poller's calls or in `fillActiveChannels`. -/
inductive PollCallFault where
  | call (fault : PollFault)
  | unknownDescriptor
  deriving DecidableEq, Repr

def call (p : PollPoller γ κ) : PollCall γ → Except PollCallFault (PollPoller γ κ)
  | .interest c op => (p.interest c op).mapError .call
  | .updateChannel c => (p.updateChannel c).mapError .call
  | .removeChannel c => (p.removeChannel c).mapError .call
  | .poll reply numEvents =>
    match (p.answered reply).fillActiveChannels numEvents [] with
    | none => .error .unknownDescriptor
    | some (p,_) => .ok p

/-- A reply of `::poll`: it counts the entries with returned events, and ignored entries have none. -/
structure Reply (p : PollPoller γ κ) (reply : List (BitVec 16)) (numEvents : Nat) : Prop where
  length : reply.length = p.pollfds.length
  count : numEvents = ((p.answered reply).pollfds.filter (fun pfd => Fired pfd)).length
  ignored : ∀ pfd ∈ (p.answered reply).pollfds, pfd.fd < 0 → ¬ Fired pfd

instance (p : PollPoller γ κ) (reply : List (BitVec 16)) (numEvents : Nat) : Decidable (p.Reply reply numEvents) :=
  decidable_of_iff (reply.length = p.pollfds.length ∧
      numEvents = ((p.answered reply).pollfds.filter (fun pfd => Fired pfd)).length ∧
      ∀ pfd ∈ (p.answered reply).pollfds, pfd.fd < 0 → ¬ Fired pfd)
    ⟨fun h => ⟨h.1,h.2.1,h.2.2⟩,fun h => ⟨h.length,h.count,h.ignored⟩⟩

def machine : Machine (PollPoller γ κ) (PollCall γ) PollCallFault where
  Enabled p
    | .poll reply numEvents => p.Reply reply numEvents
    | _ => True
  step := call

instance (p : PollPoller γ κ) : (a : PollCall γ) → Decidable (machine.Enabled p a)
  | .interest .. => isTrue trivial
  | .updateChannel _ => isTrue trivial
  | .removeChannel _ => isTrue trivial
  | .poll reply numEvents => inferInstanceAs (Decidable (p.Reply reply numEvents))

/-- The assertions at the head of the calls. -/
def EntryAssert : PollCallFault → Prop
  | .call (.assertion site) => site = .updateIndex ∨ site = .updateFd ∨ site = .removeIndex ∨ site = .removeEntry
  | _ => False

private theorem interestMask_short {m : Mask} (h : ofShort (toShort m) = m) (op : Interest) :
    ofShort (toShort (Channel.interestMask m op)) = Channel.interestMask m op := by
  have hflags : ofShort (toShort kReadEvent) = kReadEvent ∧ ofShort (toShort kWriteEvent) = kWriteEvent ∧
      ofShort (toShort (~~~kReadEvent)) = ~~~kReadEvent ∧ ofShort (toShort (~~~kWriteEvent)) = ~~~kWriteEvent := by decide
  obtain ⟨hread,hwrite,hread',hwrite'⟩ := hflags
  cases op with
  | enableReading => rw [Channel.interestMask,ofShort_or,h,hread]
  | enableWriting => rw [Channel.interestMask,ofShort_or,h,hwrite]
  | disableReading => rw [Channel.interestMask,ofShort_or,h,hread']
  | disableWriting => rw [Channel.interestMask,ofShort_or,h,hwrite']
  | disableAll => rfl

/-- One channel changes, and keeps its descriptor. -/
theorem Kept.of_update (h : p.Kept fd) {x : Channel κ} (hq : q.Slotted) (hx : q.channel = Function.update p.channel c x)
    (hfd : x.fd = (p.channel c).fd) (hshort : ofShort (toShort x.events) = x.events) : q.Kept fd := by
  have hself : q.channel c = x := by rw [hx,Function.update_self]
  have hother (d : γ) (hd : d ≠ c) : q.channel d = p.channel d := by rw [hx,Function.update_of_ne hd]
  refine ⟨hq,fun d => ?_,fun d => ?_⟩
  · by_cases hd : d = c
    · rw [hd,hself,hfd,h.fd_eq]
    · rw [hother d hd,h.fd_eq]
  · by_cases hd : d = c
    · rw [hd,hself,hshort]
    · rw [hother d hd,h.short]

/-- An update with a new mask: a new entry, a rewritten one, or an entry assertion. -/
theorem Kept.updateChannel (h : p.Kept fd) (hinj : Function.Injective fd) (hpos : ∀ c, 0 ≤ fd c) (ch : Channel κ)
    (hfd : ch.fd = (p.channel c).fd) (hindex : ch.index = (p.channel c).index)
    (hshort : ofShort (toShort ch.events) = ch.events) :
    Meets (Kept fd) (fun e => EntryAssert (.call e)) ((p.setChannel c ch).updateChannel c) := by
  rcases Int.lt_or_le ch.index 0 with hneg | hnonneg
  · have hno := h.not_registered (hindex ▸ hneg)
    have hfree : p.channels ch.fd = none := hfd ▸ (h.free_or_own hinj c).resolve_right (hno _)
    rw [setChannel_updateChannel_new hneg]
    refine h.of_update (c := c) (x := { ch with index := p.pollfds.length }) ?_ rfl hfd hshort
    exact pushed_slotted h.slotted (by rw [hfd,h.fd_eq]; exact hpos c) hfree hno
  · obtain ⟨i,hi⟩ := Int.eq_ofNat_of_zero_le hnonneg
    have hsame : (p.setChannel c ch).entryAt ch.index = p.entryAt ch.index := rfl
    have hentry : p.entryAt ch.index = p.pollfds[i]? := by rw [hi,entryAt_natCast]
    cases he : p.entryAt ch.index with
    | none =>
      rw [PollPoller.updateChannel,setChannel_self]
      dsimp only
      rw [if_neg (Int.not_lt.mpr hnonneg),hsame,he]
      exact .inl rfl
    | some pfd =>
      by_cases hmatch : pfd.fd = ch.fd ∨ pfd.fd = ignored ch.fd
      · have hreg : p.channels (p.channel c).fd = some c :=
          h.registered hinj hpos (hindex ▸ he) (hfd ▸ hmatch)
        rw [setChannel_updateChannel_used hi (hentry ▸ he) hmatch]
        refine h.of_update ?_ rfl hfd hshort
        refine rewritten_slotted h.slotted (hfd ▸ hreg) (hindex ▸ hi) hi ?_ rfl
        rw [refreshed]
        split
        · exact .inr rfl
        · exact hmatch
      · rw [PollPoller.updateChannel,setChannel_self]
        dsimp only
        rw [if_neg (Int.not_lt.mpr hnonneg),hsame,he]
        dsimp only
        rw [require_neg hmatch]
        exact .inr (.inl rfl)

/-- A removal keeps the slots, up to an assertion about the entry. -/
theorem Kept.removeChannel (h : p.Kept fd) (hinj : Function.Injective fd) (hpos : ∀ c, 0 ≤ fd c) (c : γ) :
    Meets (Kept fd) (fun e => EntryAssert (.call e)) (p.removeChannel c) := by
  cases he : p.entryAt (p.channel c).index with
  | none =>
    rw [PollPoller.removeChannel]
    dsimp only
    rw [he]
    exact .inr (.inr (.inl rfl))
  | some pfd =>
    by_cases hmatch : pfd.fd = ignored (p.channel c).fd ∧ ofShort pfd.events = (p.channel c).events
    · have hreg := h.registered hinj hpos he (.inr hmatch.1)
      obtain ⟨i,-,hi,-⟩ := h.slotted.slot _ c hreg
      rw [hi,entryAt_natCast] at he
      obtain ⟨d,back,hl,hrun⟩ := h.slotted.removeChannel_ignored hreg hi he hmatch.1 hmatch.2
      rw [hrun]
      refine ⟨h.slotted.removed_slotted hl hreg hi,fun e => ?_,fun e => ?_⟩
      · rw [removed_channel]
        exact h.fd_eq e
      · rw [removed_channel]
        exact h.short e
    · rw [PollPoller.removeChannel]
      dsimp only
      rw [he]
      dsimp only
      rw [require_neg hmatch]
      exact .inr (.inr (.inr rfl))

private theorem Passed.cons {pfd : PollFd} {entries : List PollFd} {more : List γ}
    (hfd : ∀ v c, p.channels v = some c → (p.channel c).fd = v) (hc : p.channels pfd.fd = some c)
    (hfresh : pfd.fd ∉ entries.map PollFd.fd)
    (h : (p.setChannel c { p.channel c with revents := ofShort pfd.revents }).Passed q entries more) :
    p.Passed q (pfd :: entries) (c :: more) := by
  obtain ⟨hmap,hrevents,hothers,hreports⟩ := h
  have hnotmem : c ∉ more := by
    intro hmem
    apply hfresh
    rw [reported_fds hfd (hreports.imp fun _ _ h => h),← hfd _ c hc]
    exact List.mem_map.mpr ⟨c,hmem,rfl⟩
  refine ⟨hmap,fun d => ?_,fun d hd => ?_,.cons ⟨hc,?_⟩ hreports⟩
  · obtain ⟨revents,hr⟩ := hrevents d
    by_cases hdc : d = c
    · rw [hdc] at hr ⊢
      exact ⟨revents,by rw [hr,setChannel_self]⟩
    · exact ⟨revents,by rw [hr,setChannel_of_ne hdc]⟩
  · have hdc : d ≠ c := fun heq => hd (heq ▸ List.mem_cons_self)
    rw [hothers d fun hmem => hd (List.mem_cons_of_mem c hmem),setChannel_of_ne hdc]
  · rw [hothers c hnotmem,setChannel_self]

private theorem setRevents_fds {revents : Mask} (hfd : ∀ v c, p.channels v = some c → (p.channel c).fd = v) (c : γ)
    (v : Int) (d : γ) (hd : p.channels v = some d) :
    ((p.setChannel c { p.channel c with revents := revents }).channel d).fd = v := by
  by_cases hdc : d = c
  · rw [hdc,setChannel_self]
    exact hfd v c (hdc ▸ hd)
  · rw [setChannel_of_ne hdc]
    exact hfd v d hd

/-- What the loop reports of the entries that are left. -/
theorem fillLoop_spec (rest : List PollFd) (p : PollPoller γ κ) (front : List PollFd) (n : Nat) (active : List γ)
    (hfd : ∀ v c, p.channels v = some c → (p.channel c).fd = v) (hcount : n = (rest.filter (fun pfd => Fired pfd)).length)
    (hknown : ∀ pfd ∈ rest, Fired pfd → ∃ c, p.channels pfd.fd = some c)
    (hdistinct : ((rest.filter (fun pfd => Fired pfd)).map PollFd.fd).Nodup) :
    ∃ q more, p.fillLoop front rest n active = some (q,active ++ more) ∧ q.pollfds.map asked = (front ++ rest).map asked ∧
      p.Passed q (rest.filter (fun pfd => Fired pfd)) more := by
  induction rest generalizing p front n active with
  | nil => exact ⟨{ p with pollfds := front },[],by rw [List.append_nil]; rfl,by rw [List.append_nil],.nil p front⟩
  | cons pfd rest ih =>
    rw [fillLoop]
    by_cases hfired : Fired pfd
    · have hfilter : (pfd :: rest).filter (fun pfd => Fired pfd) = pfd :: rest.filter (fun pfd => Fired pfd) :=
        List.filter_cons_of_pos (decide_eq_true hfired)
      rw [hfilter,List.map_cons,List.nodup_cons] at hdistinct
      rw [hfilter,List.length_cons] at hcount
      obtain ⟨c,hc⟩ := hknown pfd List.mem_cons_self hfired
      obtain ⟨q,more,hrun,harr,hpassed⟩ := ih (p.setChannel c { p.channel c with revents := ofShort pfd.revents })
        (front ++ [{ pfd with revents := 0 }]) (n-1) (active ++ [c]) (setRevents_fds hfd c) (by omega)
        (fun pfd' hmem => hknown pfd' (List.mem_cons_of_mem _ hmem)) hdistinct.2
      refine ⟨q,c :: more,?_,?_,?_⟩
      · rw [if_pos (by omega),if_pos hfired,hc]
        exact hrun.trans (by rw [List.append_assoc,List.singleton_append])
      · rw [harr]
        simp only [List.map_append,List.append_assoc]
        rfl
      · rw [hfilter]
        exact hpassed.cons hfd hc hdistinct.1
    · have hfilter : (pfd :: rest).filter (fun pfd => Fired pfd) = rest.filter (fun pfd => Fired pfd) :=
        List.filter_cons_of_neg fun h => hfired (of_decide_eq_true h)
      rw [hfilter] at hdistinct hcount ⊢
      by_cases hn : n > 0
      · obtain ⟨q,more,hrun,harr,hpassed⟩ := ih p (front ++ [pfd]) n active hfd hcount
          (fun pfd' hmem => hknown pfd' (List.mem_cons_of_mem _ hmem)) hdistinct
        refine ⟨q,more,?_,?_,hpassed⟩
        · rw [if_pos hn,if_neg hfired]
          exact hrun
        · rw [harr,List.append_assoc,List.singleton_append]
      · have hnone : rest.filter (fun pfd => Fired pfd) = [] := List.eq_nil_of_length_eq_zero (by omega)
        rw [if_neg hn,hnone]
        exact ⟨{ p with pollfds := front ++ pfd :: rest },[],by rw [List.append_nil],rfl,.nil p _⟩

/-- A reply reaches the channels it is for. -/
theorem Kept.fillActiveChannels (h : p.Kept fd) {reply : List (BitVec 16)} {numEvents : Nat}
    (hreply : p.Reply reply numEvents) :
    ∃ q activeChannels, (p.answered reply).fillActiveChannels numEvents [] = some (q,activeChannels) ∧
      (p.answered reply).Reports q activeChannels ∧ q.Kept fd := by
  have hkept := h.answered hreply.length
  have hcount := hreply.count
  have hignored := hreply.ignored
  generalize p.answered reply = p' at hkept hcount hignored ⊢
  have hs := hkept.slotted
  have hpos (pfd : PollFd) (hmem : pfd ∈ p'.pollfds) (hfired : Fired pfd) : 0 ≤ pfd.fd :=
    Int.not_lt.mp fun hneg => hignored pfd hmem hneg hfired
  have hknown (pfd : PollFd) (hmem : pfd ∈ p'.pollfds) (hfired : Fired pfd) : ∃ c, p'.channels pfd.fd = some c := by
    obtain ⟨i,hi⟩ := List.getElem?_of_mem hmem
    obtain ⟨c,hc,-⟩ := hs.owner_of_nonneg hi (hpos pfd hmem hfired)
    exact ⟨c,hc⟩
  have hfds := hs.fds_nodup hignored
  obtain ⟨q,more,hrun,harr,hmap,hrevents,-,hreports⟩ := fillLoop_spec p'.pollfds p' [] numEvents []
    (fun v c hc => (hs.fd_of v c hc).1) hcount hknown hfds
  rw [List.nil_append] at hrun harr
  refine ⟨q,more,hrun,⟨?_,?_⟩,?_,fun c => ?_,fun c => ?_⟩
  · have hentries : ∀ pfd ∈ p'.pollfds.filter (fun pfd => Fired pfd), pfd ∈ p'.pollfds ∧ 0 ≤ pfd.fd := by
      intro pfd hmem
      obtain ⟨hmem,hfired⟩ := List.mem_filter.mp hmem
      exact ⟨hmem,hpos pfd hmem (of_decide_eq_true hfired)⟩
    refine ((List.forall₂_and_left _ _).mpr ⟨hentries,hreports⟩).imp fun pfd c hc => ?_
    obtain ⟨⟨hmem,hnonneg⟩,hc,hr⟩ := hc
    exact ⟨hc,hs.entryAt_of_mem hmem hnonneg hc,hr⟩
  · rw [reported_fds (fun v c hc => (hs.fd_of v c hc).1) hreports] at hfds
    exact hfds.of_map _
  · refine hs.congr (fun c => ?_) hmap harr
    obtain ⟨revents,hr⟩ := hrevents c
    rw [hr]
    exact ⟨rfl,rfl,rfl⟩
  · obtain ⟨revents,hr⟩ := hrevents c
    rw [hr]
    exact hkept.fd_eq c
  · obtain ⟨revents,hr⟩ := hrevents c
    rw [hr]
    exact hkept.short c

/-- So does every call. -/
theorem Kept.call (h : p.Kept fd) (hinj : Function.Injective fd) (hpos : ∀ c, 0 ≤ fd c) (a : PollCall γ)
    (he : machine.Enabled p a) : Meets (Kept fd) EntryAssert (machine.step p a) := by
  cases a with
  | interest c op =>
    have hup := h.updateChannel (c := c) hinj hpos ((p.channel c).setInterest op) rfl rfl (interestMask_short (h.short c) op)
    exact hup.mapError
  | updateChannel c =>
    have hself : p.setChannel c (p.channel c) = p := by rw [setChannel,Function.update_eq_self]
    have hup := h.updateChannel hinj hpos (p.channel c) rfl rfl (h.short c)
    rw [hself] at hup
    exact hup.mapError
  | removeChannel c => exact (h.removeChannel hinj hpos c).mapError
  | poll reply numEvents =>
    obtain ⟨q,activeChannels,hrun,-,hq⟩ := h.fillActiveChannels he
    change Meets _ _ (PollPoller.call p (.poll reply numEvents))
    rw [PollPoller.call,hrun]
    exact hq

/-- Array and map stay in bijection along every run in which only assertions at the head of a call can fail, and
every reply of `::poll` is passed on to the channels of its entries. -/
theorem poll_slots_bijective (fd : γ → Int) (hinj : Function.Injective fd) (hpos : ∀ c, 0 ≤ fd c)
    (calls : List (PollCall γ)) (ha : machine.Admissible (new fd : PollPoller γ κ) calls) :
    Meets (fun p => p.Bijective ∧ ∀ reply numEvents, p.Reply reply numEvents →
        ∃ q activeChannels, (p.answered reply).fillActiveChannels numEvents [] = some (q,activeChannels) ∧
          (p.answered reply).Reports q activeChannels)
      EntryAssert (machine.exec (new fd : PollPoller γ κ) calls) := by
  refine (machine.exec_invariant (fun p a h he => h.call hinj hpos a he) calls _ (new_kept fd) ha).mono ?_ fun _ => id
  intro p h
  refine ⟨h.bijective,fun reply numEvents hreply => ?_⟩
  obtain ⟨q,activeChannels,hrun,hreports,-⟩ := h.fillActiveChannels hreply
  exact ⟨q,activeChannels,hrun,hreports⟩

/-- The last of three channels takes the place of the first, and is then the one reported. -/
def swapped : List (PollCall (Fin 3)) :=
  [.interest 0 .enableReading,.interest 1 .enableReading,.interest 2 .enableReading,.interest 0 .disableAll,
    .removeChannel 0,.poll [1,0] 1,.interest 2 .enableWriting]

/-- Three channels of which the first is removed, so that the last one takes its slot. -/
theorem poll_slots_bijective_swapped :
    ∃ p : PollPoller (Fin 3) Unit, machine.exec (new fun c => c.val) swapped = .ok p ∧ p.Bijective := by
  have hruns : Meets (fun _ => True) (fun _ => False)
      (machine.exec (new fun c => c.val : PollPoller (Fin 3) Unit) swapped) := by decide +kernel
  obtain ⟨p,hp,-⟩ := hruns.ok_of_no_error fun _ => id
  have h := poll_slots_bijective (κ := Unit) (fun c : Fin 3 => (c.val : Int)) (fun _ _ h => Fin.ext (Int.natCast_inj.mp h))
    (fun c => Int.natCast_nonneg c.val) swapped (by decide +kernel)
  rw [hp] at h
  exact ⟨p,hp,h.1⟩

end LearningMuduo.Reactor.PollPoller
