import LearningMuduo.Reactor.EPollPoller
import Mathlib.Data.Fintype.Basic

/-! The poller's bookkeeping mirrors the kernel's interest list in every run. -/
namespace LearningMuduo.Reactor.EPollPoller
open Library
variable {γ κ : Type}

/-- The channel is the one the map holds for its descriptor. -/
def InMap (p : EPollPoller γ κ) (c : γ) : Prop := p.channels (p.channel c).fd = some c

/-- The three meanings of the index, for every channel. -/
def Mirrors (p : EPollPoller γ κ) : Prop := ∀ c,
  ((p.channel c).index = kNew ↔ ¬ p.InMap c) ∧
  ((p.channel c).index = kAdded ↔
    p.InMap c ∧ p.interestList (p.channel c).fd = some ((p.channel c).events,c)) ∧
  ((p.channel c).index = kDeleted ↔
    p.InMap c ∧ p.interestList (p.channel c).fd = none ∧ (p.channel c).isNoneEvent)

/-- No other registered channel uses the descriptor of c. -/
def Lone (p : EPollPoller γ κ) (c : γ) : Prop :=
  ∀ d, d ≠ c → (p.channel d).index ≠ kNew → (p.channel d).fd ≠ (p.channel c).fd

/-- What the map and the interest list hold for a channel in each index state. -/
def Entry (c : γ) (ch : Channel κ) (own : Option γ) (watch : Option (Mask × γ)) : Prop :=
  (ch.index = kNew ∧ own = none ∧ watch = none) ∨
  (ch.index = kAdded ∧ own = some c ∧ watch = some (ch.events,c)) ∨
  (ch.index = kDeleted ∧ own = some c ∧ watch = none ∧ ch.isNoneEvent)

/-- The inductive form: entries sit under their own descriptor, and each channel
is either registered with its entry or new and absent from the map. -/
structure Consistent (p : EPollPoller γ κ) : Prop where
  fd_of : ∀ fd c, p.channels fd = some c → (p.channel c).fd = fd
  listed : ∀ fd ev c, p.interestList fd = some (ev,c) → p.channels fd = some c
  entry : ∀ c, Entry c (p.channel c) (p.channels (p.channel c).fd)
    (p.interestList (p.channel c).fd) ∨ ((p.channel c).index = kNew ∧ ¬ p.InMap c)
  legal : p.failures = []

variable {p : EPollPoller γ κ} {c : γ}

private theorem Entry.own_cases {ch : Channel κ} {own : Option γ} {watch : Option (Mask × γ)}
    (h : Entry c ch own watch) : own = none ∨ own = some c := by
  rcases h with ⟨_,h,_⟩ | ⟨_,h,_⟩ | ⟨_,h,_⟩
  · exact .inl h
  · exact .inr h
  · exact .inr h

private theorem Entry.watch_own {ch : Channel κ} {own : Option γ} {watch : Option (Mask × γ)}
    (h : Entry c ch own watch) {ev : Mask} {d : γ} (hw : watch = some (ev,d)) : own = some d := by
  rcases h with ⟨_,_,h⟩ | ⟨_,ho,h⟩ | ⟨_,_,h,_⟩
  · rw [h] at hw; cases hw
  · rw [h] at hw; cases hw; exact ho
  · rw [h] at hw; cases hw

private theorem Consistent.registered (h : p.Consistent) (hm : p.channels (p.channel c).fd = some c) :
    (p.channel c).index ≠ kNew := by
  intro hn
  rcases h.entry c with (⟨_,ho,_⟩ | ⟨hi,_⟩ | ⟨hi,_⟩) | ⟨_,hno⟩
  · rw [hm] at ho; cases ho
  · rw [hn] at hi; cases hi
  · rw [hn] at hi; cases hi
  · exact hno hm

private theorem Consistent.absent (h : p.Consistent) (hl : p.Lone c) (hm : ¬ p.InMap c) :
    p.channels (p.channel c).fd = none ∧ p.interestList (p.channel c).fd = none := by
  have hc : p.channels (p.channel c).fd = none := by
    by_contra hs
    obtain ⟨d,hd⟩ := Option.ne_none_iff_exists'.mp hs
    have hfd := h.fd_of _ _ hd
    have hne : d ≠ c := by
      rintro rfl
      exact hm hd
    exact hl d hne (h.registered (by rw [hfd]; exact hd)) hfd
  refine ⟨hc,?_⟩
  by_contra hs
  obtain ⟨⟨ev,d⟩,hd⟩ := Option.ne_none_iff_exists'.mp hs
  rw [h.listed _ _ _ hd] at hc
  cases hc

/-- The inductive form gives the three meanings of the index. -/
theorem Consistent.mirrors (h : p.Consistent) : p.Mirrors := by
  intro c
  have hna : ¬ kNew = kAdded := by decide
  have hnd : ¬ kNew = kDeleted := by decide
  have had : ¬ kAdded = kDeleted := by decide
  unfold InMap
  rcases h.entry c with (⟨hi,ho,hw⟩ | ⟨hi,ho,hw⟩ | ⟨hi,ho,hw,hz⟩) | ⟨hi,hno⟩
  · simp [hi,ho,hna,hnd]
  · simp [hi,ho,hw,Ne.symm hna,had]
  · simp [hi,ho,hw,hz,Ne.symm hnd,Ne.symm had]
  · have hno' : ¬ p.channels (p.channel c).fd = some c := hno
    simp [hi,hno',hna,hnd]

/-- Without registered channels there is nothing to mirror. -/
theorem new_consistent (fd : γ → Int) : (new fd : EPollPoller γ κ).Consistent := by
  refine ⟨?_,?_,fun c => .inr ⟨rfl,?_⟩,rfl⟩
  · intro _ _ h
    cases h
  · intro _ _ _ h
    cases h
  · intro h
    cases h

variable [DecidableEq γ]

/-- Replace one channel and what is stored under its descriptor. -/
def put (p : EPollPoller γ κ) (c : γ) (ch : Channel κ) (own : Option γ)
    (watch : Option (Mask × γ)) : EPollPoller γ κ :=
  { p with
    channel := Function.update p.channel c ch
    channels := Function.update p.channels ch.fd own
    interestList := Function.update p.interestList ch.fd watch }

/-- A channel and its descriptor change together. -/
theorem put_consistent (h : p.Consistent) (hl : p.Lone c) {ch : Channel κ} {own : Option γ}
    {watch : Option (Mask × γ)} (hfd : ch.fd = (p.channel c).fd) (he : Entry c ch own watch) :
    (p.put c ch own watch).Consistent := by
  have hother (d : γ) (hd : d ≠ c) : (p.put c ch own watch).channel d = p.channel d :=
    Function.update_of_ne hd _ _
  have hself : (p.put c ch own watch).channel c = ch := Function.update_self _ _ _
  have hsame : (p.put c ch own watch).channels ch.fd = own := Function.update_self _ _ _
  have hwatch : (p.put c ch own watch).interestList ch.fd = watch := Function.update_self _ _ _
  have hmap (fd : Int) (hne : fd ≠ ch.fd) : (p.put c ch own watch).channels fd = p.channels fd :=
    Function.update_of_ne hne _ _
  have hlist (fd : Int) (hne : fd ≠ ch.fd) :
      (p.put c ch own watch).interestList fd = p.interestList fd := Function.update_of_ne hne _ _
  refine ⟨?_,?_,?_,h.legal⟩
  · intro fd d hd
    by_cases hf : fd = ch.fd
    · subst hf
      rw [hsame] at hd
      rcases he.own_cases with ho | ho
      · rw [ho] at hd; cases hd
      · rw [ho] at hd; cases hd; rw [hself]
    · rw [hmap fd hf] at hd
      have hdc : d ≠ c := by
        rintro rfl
        exact hf ((h.fd_of fd d hd).symm.trans hfd.symm)
      rw [hother d hdc]
      exact h.fd_of fd d hd
  · intro fd ev d hd
    by_cases hf : fd = ch.fd
    · subst hf
      rw [hwatch] at hd
      rw [hsame]
      exact he.watch_own hd
    · rw [hlist fd hf] at hd
      rw [hmap fd hf]
      exact h.listed fd ev d hd
  · intro d
    by_cases hd : d = c
    · subst hd
      rw [hself,hsame,hwatch]
      exact .inl he
    · unfold InMap
      rw [hother d hd]
      by_cases hf : (p.channel d).fd = ch.fd
      · -- a channel that shares the descriptor is not registered
        have hn : (p.channel d).index = kNew := by
          by_contra hn
          exact hl d hd hn (hf.trans hfd)
        refine .inr ⟨hn,?_⟩
        rw [hf,hsame]
        rcases he.own_cases with ho | ho
        · rw [ho]; simp
        · rw [ho]; simpa using Ne.symm hd
      · rw [hmap _ hf,hlist _ hf]
        exact h.entry d

/-- Under the consistency of the other channels, an interest call re-registers its
channel with the new mask, or parks it as deleted; no `epoll_ctl` fails. -/
theorem interest_put (h : p.Consistent) (hl : p.Lone c) (op : Interest) :
    ∃ own watch, p.interest c op = .ok (p.put c ((p.channel c).setInterest op).updated own watch) ∧
      Entry c ((p.channel c).setInterest op).updated own watch := by
  let ch := (p.channel c).setInterest op
  have hcur : (p.setChannel c ch).channel c = ch := Function.update_self _ _ _
  have hadd (hi : ch.index = kNew ∨ ch.index = kDeleted)
      (hmap : ch.index = kNew ∧ p.channels ch.fd = none ∨
        ch.index = kDeleted ∧ p.channels ch.fd = some c) (hlist : p.interestList ch.fd = none) :
      p.interest c op = .ok (p.put c ch.updated (some c) (some (ch.events,c))) ∧
        Entry c ch.updated (some c) (some (ch.events,c)) := by
    have hup : ch.updated = { ch with index := kAdded } := by
      unfold Channel.updated
      rw [if_neg]
      rintro ⟨ha,_⟩
      rcases hi with hi | hi <;> rw [hi] at ha <;> cases ha
    rw [hup]
    refine ⟨?_,.inr (.inl ⟨rfl,rfl,rfl⟩)⟩
    unfold interest updateChannel updateAbsent
    rw [show p.setChannel c ((p.channel c).setInterest op) = p.setChannel c ch from rfl,hcur,
      if_pos hi]
    rcases hmap with ⟨hn,hm⟩ | ⟨hd,hm⟩
    · simp [hn,hm,setChannel,setIndex,update,epollCtl,hlist,put,require]
    · have hne : ¬ ch.index = kNew := by rw [hd]; decide
      have hsame : Function.update p.channels ch.fd (some c) = p.channels := by
        rw [← hm]; exact Function.update_eq_self _ _
      simp [hne,hm,setChannel,setIndex,update,epollCtl,hlist,put,require,hsame]
  rcases h.entry c with (⟨hi,ho,hw⟩ | ⟨hi,ho,hw⟩ | ⟨hi,ho,hw,hz⟩) | ⟨hi,hno⟩
  · exact ⟨_,_,hadd (.inl hi) (.inl ⟨hi,ho⟩) hw⟩
  · have hindex : ch.index = kAdded := hi
    have hmap : p.channels ch.fd = some c := ho
    have hlist : p.interestList ch.fd = some ((p.channel c).events,c) := hw
    have hnot : ¬ (ch.index = kNew ∨ ch.index = kDeleted) := by rw [hindex]; decide
    have hsame : Function.update p.channels ch.fd (some c) = p.channels := by
      rw [← hmap]; exact Function.update_eq_self _ _
    by_cases hz : ch.isNoneEvent
    · have hup : ch.updated = { ch with index := kDeleted } := by
        rw [Channel.updated,if_pos ⟨hindex,hz⟩]
      refine ⟨some c,none,?_,by rw [show _ = ch.updated from rfl,hup]; exact .inr (.inr ⟨rfl,rfl,rfl,hz⟩)⟩
      rw [show ((p.channel c).setInterest op).updated = ch.updated from rfl,hup]
      unfold interest updateChannel updateAdded
      rw [show p.setChannel c ((p.channel c).setInterest op) = p.setChannel c ch from rfl,hcur,
        if_neg hnot]
      simp [setChannel,setIndex,update,epollCtl,put,require,hmap,hlist,hindex,hz,hsame]
    · have hup : ch.updated = ch := by
        rw [Channel.updated,if_neg (fun hh => hz hh.2),← hindex]
      refine ⟨some c,some (ch.events,c),?_,by rw [show _ = ch.updated from rfl,hup]; exact .inr (.inl ⟨hindex,rfl,rfl⟩)⟩
      rw [show ((p.channel c).setInterest op).updated = ch.updated from rfl,hup]
      unfold interest updateChannel updateAdded
      rw [show p.setChannel c ((p.channel c).setInterest op) = p.setChannel c ch from rfl,hcur,
        if_neg hnot]
      simp [setChannel,update,epollCtl,put,require,hmap,hlist,hindex,hz,hsame]
  · exact ⟨_,_,hadd (.inr hi) (.inr ⟨hi,ho⟩) hw⟩
  · obtain ⟨hm,hw⟩ := h.absent hl hno
    exact ⟨_,_,hadd (.inl hi) (.inl ⟨hi,hm⟩) hw⟩

/-- A removal takes the channel out of the map and of the interest list. -/
theorem remove_put (h : p.Consistent) (hz : (p.channel c).isNoneEvent)
    (hi : (p.channel c).index ≠ kNew) :
    p.remove c = .ok (p.put c (p.channel c).removed none none) := by
  let ch : Channel κ := { p.channel c with addedToLoop := false }
  have hcur : (p.setChannel c ch).channel c = ch := Function.update_self _ _ _
  have hchz : ch.isNoneEvent := hz
  rw [show (p.channel c).removed = { ch with index := kNew } from rfl]
  unfold remove removeChannel
  rw [require_pos hz,bind_ok]
  change (p.setChannel c ch).removeChannel c = _
  unfold removeChannel
  rw [hcur]
  rcases h.entry c with (⟨hn,_⟩ | ⟨ha,ho,hw⟩ | ⟨hd,ho,hw,_⟩) | ⟨hn,_⟩
  · exact (hi hn).elim
  · have hindex : ch.index = kAdded := ha
    have hmap : p.channels ch.fd = some c := ho
    have hlist : p.interestList ch.fd = some ((p.channel c).events,c) := hw
    simp [setChannel,setIndex,update,epollCtl,put,require,hmap,hlist,hindex,hchz]
  · have hindex : ch.index = kDeleted := hd
    have hmap : p.channels ch.fd = some c := ho
    have hlist : p.interestList ch.fd = none := hw
    have hne : ¬ kDeleted = kAdded := by decide
    have hsame : Function.update p.interestList ch.fd none = p.interestList := by
      rw [← hlist]; exact Function.update_eq_self _ _
    simp [setChannel,setIndex,put,require,hmap,hindex,hchz,hne,hsame]
  · exact (hi hn).elim

private theorem put_elsewhere (p : EPollPoller γ κ) {ch : Channel κ} {own : Option γ} {watch : Option (Mask × γ)}
    (hfd : ch.fd = (p.channel c).fd) :
    (∀ d, d ≠ c → (p.put c ch own watch).channel d = p.channel d) ∧
    ∀ fd, fd ≠ (p.channel c).fd → (p.put c ch own watch).channels fd = p.channels fd ∧
      (p.put c ch own watch).interestList fd = p.interestList fd := by
  refine ⟨fun d hd => Function.update_of_ne hd _ _,fun fd hne => ?_⟩
  rw [← hfd] at hne
  exact ⟨Function.update_of_ne hne _ _,Function.update_of_ne hne _ _⟩

omit [DecidableEq γ] in
private theorem Entry.of_updated {ch : Channel κ} {own : Option γ} {watch : Option (Mask × γ)}
    (h : Entry c ch.updated own watch) :
    own = some c ∧ watch = if ch.index = kAdded ∧ ch.isNoneEvent then none else some (ch.events,c) := by
  have hindex : ch.updated.index = if ch.index = kAdded ∧ ch.isNoneEvent then kDeleted else kAdded := rfl
  rcases h with ⟨hn,-,-⟩ | ⟨ha,ho,hw⟩ | ⟨hd,ho,hw,-⟩
  · rw [hindex] at hn
    split at hn <;> cases hn
  · refine ⟨ho,?_⟩
    rw [hindex] at ha
    split at ha
    · cases ha
    · next hnot => rw [if_neg hnot,hw]; rfl
  · refine ⟨ho,?_⟩
    rw [hindex] at hd
    split at hd
    · next hparked => rw [if_pos hparked,hw]
    · cases hd

/-- What an interest call leaves behind: the channel with its new mask is the one of its descriptor, and the kernel
watches the descriptor for this mask, unless it did so before and nothing is left to watch for. The other channels
and descriptors are as before. -/
theorem interest_registers (h : p.Consistent) (hl : p.Lone c) (op : Interest) :
    ∃ q, p.interest c op = .ok q ∧ q.Consistent ∧ q.channel c = ((p.channel c).setInterest op).updated ∧
      q.channels (p.channel c).fd = some c ∧
      q.interestList (p.channel c).fd =
        (if (p.channel c).index = kAdded ∧ ((p.channel c).setInterest op).isNoneEvent then none
          else some (((p.channel c).setInterest op).events,c)) ∧
      (∀ d, d ≠ c → q.channel d = p.channel d) ∧
      ∀ fd, fd ≠ (p.channel c).fd → q.channels fd = p.channels fd ∧ q.interestList fd = p.interestList fd := by
  obtain ⟨own,watch,hx,hentry⟩ := interest_put h hl op
  obtain ⟨hown,hwatch⟩ := hentry.of_updated
  exact ⟨_,hx,put_consistent h hl rfl hentry,Function.update_self _ _ _,(Function.update_self _ _ _).trans hown,
    (Function.update_self _ _ _).trans hwatch,put_elsewhere p rfl⟩

/-- What a removal leaves behind: neither the map nor the kernel knows the descriptor any more, and the channel is
new. The other channels and descriptors are as before. -/
theorem remove_forgets (h : p.Consistent) (hl : p.Lone c) (hz : (p.channel c).isNoneEvent)
    (hi : (p.channel c).index ≠ kNew) :
    ∃ q, p.remove c = .ok q ∧ q.Consistent ∧ q.channel c = (p.channel c).removed ∧
      q.channels (p.channel c).fd = none ∧ q.interestList (p.channel c).fd = none ∧
      (∀ d, d ≠ c → q.channel d = p.channel d) ∧
      ∀ fd, fd ≠ (p.channel c).fd → q.channels fd = p.channels fd ∧ q.interestList fd = p.interestList fd :=
  ⟨_,remove_put h hz hi,put_consistent h hl rfl (.inl ⟨rfl,rfl,rfl⟩),Function.update_self _ _ _,
    Function.update_self _ _ _,Function.update_self _ _ _,put_elsewhere p rfl⟩

private theorem Consistent.of_revents (h : p.Consistent) (revents : Mask) (active : List γ) :
    ({ p.setChannel c { p.channel c with revents := revents } with
      activeChannels := active } : EPollPoller γ κ).Consistent := by
  have hsee (d : γ) : ∃ r, (p.setChannel c { p.channel c with revents := revents }).channel d =
      { p.channel d with revents := r } := by
    by_cases hd : d = c
    · subst hd
      exact ⟨revents,Function.update_self _ _ _⟩
    · exact ⟨(p.channel d).revents,Function.update_of_ne hd _ _⟩
  refine ⟨?_,h.listed,?_,h.legal⟩
  · intro fd d hd
    obtain ⟨r,hr⟩ := hsee d
    change ((p.setChannel c { p.channel c with revents := revents }).channel d).fd = fd
    rw [hr]
    exact h.fd_of fd d hd
  · intro d
    obtain ⟨r,hr⟩ := hsee d
    have he := h.entry d
    unfold InMap at *
    change Entry d ((p.setChannel c { p.channel c with revents := revents }).channel d) _ _ ∨
      ((p.setChannel c { p.channel c with revents := revents }).channel d).index = kNew ∧ _
    simp only [hr]
    exact he

private theorem fill_consistent (ready : List (γ × Mask)) (h : p.Consistent)
    (hr : ∀ e ∈ ready, p.InMap e.1) :
    ∃ q, ready.foldlM fillActiveChannel p = .ok q ∧ q.Consistent := by
  induction ready generalizing p with
  | nil => exact ⟨p,rfl,h⟩
  | cons e ready ih =>
    obtain ⟨c,revents⟩ := e
    have hc : p.channels (p.channel c).fd = some c := hr (c,revents) List.mem_cons_self
    let q : EPollPoller γ κ := { p.setChannel c { p.channel c with revents := revents } with
      activeChannels := p.activeChannels ++ [c] }
    have hstep : fillActiveChannel p (c,revents) = .ok q := by
      simp [fillActiveChannel,require,hc,q]
    have hq : q.Consistent := h.of_revents revents _
    have hfd (d : γ) : (q.channel d).fd = (p.channel d).fd := by
      change (Function.update p.channel c _ d).fd = _
      by_cases hd : d = c
      · subst hd; rw [Function.update_self]
      · rw [Function.update_of_ne hd]
    have hrest : ∀ e ∈ ready, q.InMap e.1 := by
      intro e he
      have hp : p.channels (p.channel e.1).fd = some e.1 := hr e (List.mem_cons_of_mem _ he)
      change p.channels (q.channel e.1).fd = some e.1
      rw [hfd]
      exact hp
    rw [List.foldlM_cons,hstep]
    exact ih hq hrest

/-- A call on a channel, or a return of `epoll_wait` with entries it stored. -/
inductive PollerOp (γ : Type) where
  | interest (c : γ) (op : Interest)
  | remove (c : γ)
  | poll (ready : List (γ × Mask))

/-- Channels registered at one time have distinct descriptors. `remove` is called
on a registered channel with an empty mask, as `disableAll` leaves it. `epoll_wait`
stores at most `events_.size()` entries, taken from the interest list. -/
def machine : Machine (EPollPoller γ κ) (PollerOp γ) PollerFault where
  Enabled p
    | .interest c _ => p.Lone c
    | .remove c => p.Lone c ∧ (p.channel c).isNoneEvent ∧ (p.channel c).index ≠ kNew
    | .poll ready => ready.length ≤ p.eventListSize ∧
      ∀ e ∈ ready, (p.interestList (p.channel e.1).fd).map Prod.snd = some e.1
  step p
    | .interest c op => p.interest c op
    | .remove c => p.remove c
    | .poll ready => p.poll ready

private theorem step_consistent (p : EPollPoller γ κ) (op : PollerOp γ) (h : p.Consistent)
    (he : machine.Enabled p op) :
    Meets Consistent (fun _ => False) (machine.step p op) := by
  cases op with
  | interest c op =>
    obtain ⟨q,hx,hq,-⟩ := interest_registers h he op
    change Meets _ _ (p.interest c op)
    rw [hx]
    exact hq
  | remove c =>
    obtain ⟨hl,hz,hi⟩ := he
    obtain ⟨q,hx,hq,-⟩ := remove_forgets h hl hz hi
    change Meets _ _ (p.remove c)
    rw [hx]
    exact hq
  | poll ready =>
    obtain ⟨hlen,hready⟩ := he
    change Meets _ _ (p.poll ready)
    unfold poll
    let p0 : EPollPoller γ κ := { p with activeChannels := [] }
    have h0 : p0.Consistent := ⟨h.fd_of,h.listed,h.entry,h.legal⟩
    split
    · have hmap : ∀ e ∈ ready, p0.InMap e.1 := by
        intro e hm
        obtain ⟨⟨ev,d⟩,hw,rfl⟩ := Option.map_eq_some_iff.mp (hready e hm)
        exact h.listed _ ev _ hw
      obtain ⟨q,hq,hcq⟩ := fill_consistent ready h0 hmap
      change Meets _ _ (p0.fillActiveChannels ready >>= _)
      rw [fillActiveChannels,require_pos (show ready.length ≤ p0.eventListSize from hlen),bind_ok,hq]
      change Consistent (if _ then _ else q)
      split
      · exact ⟨hcq.fd_of,hcq.listed,hcq.entry,hcq.legal⟩
      · exact hcq
    · exact h0

/-- After every operation of every run the index mirrors the map and the kernel's
interest list, no assertion has failed, no `epoll_ctl` has returned an error and
the fatal branch was not reached. -/
theorem epoll_mirrors_kernel (fd : γ → Int) (ops : List (PollerOp γ))
    (ha : machine.Admissible (new fd : EPollPoller γ κ) ops) :
    ∃ p, machine.exec (new fd : EPollPoller γ κ) ops = .ok p ∧ p.Mirrors ∧ p.failures = [] := by
  obtain ⟨p,hp,hc⟩ := (machine.exec_invariant step_consistent ops _ (new_consistent fd)
    ha).ok_of_no_error (fun _ => id)
  exact ⟨p,hp,hc.mirrors,hc.legal⟩

instance [Fintype γ] (p : EPollPoller γ κ) (c : γ) : Decidable (p.Lone c) :=
  inferInstanceAs (Decidable (∀ d, d ≠ c → (p.channel d).index ≠ kNew → (p.channel d).fd ≠ _))

instance [Fintype γ] (p : EPollPoller γ κ) : (op : PollerOp γ) → Decidable (machine.Enabled p op)
  | .interest c _ => inferInstanceAs (Decidable (p.Lone c))
  | .remove c => inferInstanceAs (Decidable (p.Lone c ∧ (p.channel c).isNoneEvent ∧ _ ≠ _))
  -- the quantifier ranges over the list, not over every pair of channel and mask
  | .poll ready => @instDecidableAnd _ _ (Nat.decLe _ _) (List.decidableBAll _ ready)

private def twoFds : Bool → Int
  | true => 5
  | false => 6

private def registerAgain : List (PollerOp Bool) :=
  [.interest true .enableReading,.interest false .enableWriting,.interest true .disableAll,
    .remove true,.interest true .enableReading,.poll [(true,POLLIN)]]

/-- Two channels, one of them removed, registered again and reported ready. -/
theorem epoll_mirrors_kernel_again :
    machine.Admissible (new twoFds : EPollPoller Bool Unit) registerAgain ∧
    ∃ p, machine.exec (new twoFds : EPollPoller Bool Unit) registerAgain = .ok p ∧ p.Mirrors ∧
      p.failures = [] := by
  have ha : machine.Admissible (new twoFds : EPollPoller Bool Unit) registerAgain := by
    decide +kernel
  exact ⟨ha,epoll_mirrors_kernel twoFds registerAgain ha⟩

end LearningMuduo.Reactor.EPollPoller
