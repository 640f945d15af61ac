import LearningMuduo.Timers.TimerRuns

/-! What an executed cancellation leaves behind, and that a cancelled timer does not start
again. -/
namespace LearningMuduo.Timers
open Library

/-- The callbacks of the batch still to start. -/
def TimerPhase.rest : TimerPhase → List Entry
  | .idle => []
  | .calling _ rest => rest

namespace TimerQueue
variable {q r : TimerQueue} {p : TimerPtr} {t : Timer}

/-- The timers that are out of the reach of `cancelInLoop`: those of the running batch
whose callback has still to start, and those on their way to the loop. -/
def waiting (q : TimerQueue) : List TimerPtr := q.phase.rest.map Prod.snd ++ q.adds

/-- The step runs `cancelInLoop(timerId)`. -/
def Cancels (q : TimerQueue) (a : TimerStep) (timerId : TimerId) : Prop :=
  a = .cancel q.loopThread timerId ∨
    a = .runFunctor ∧ q.pendingFunctors.head? = some (.cancelInLoop timerId)

/-- The timer for which `addTimer` returned the id; it may be deleted by now. -/
def Named (q : TimerQueue) (p : TimerPtr) (timerId : TimerId) : Prop :=
  p.block ∈ q.deleted ∨
    ∃ t, q.get p = some t ∧ p.addr = timerId.timer ∧ t.sequence = timerId.sequence

/-- A timer of the running batch that was cancelled after its callback started. -/
structure Condemned (q : TimerQueue) (p : TimerPtr) : Prop where
  started : ∃ now rest, q.phase = .calling now rest ∧ p ∉ rest.map Prod.snd
  batch : p ∈ q.expired.map Prod.snd
  marked : ∃ t, q.get p = some t ∧ activeKey (p,toInt t.sequence) ∈ q.cancelingTimers

def Cancelled (q : TimerQueue) (p : TimerPtr) : Prop := p.block ∈ q.deleted ∨ q.Condemned p

/-- The flag is set while callbacks run. -/
def Flagged (q : TimerQueue) : Prop :=
  ∀ now rest, q.phase = .calling now rest → q.callingExpiredTimers = true

/-- Nothing is deleted, and the batch and its marks stay. -/
structure Quiet (q r : TimerQueue) : Prop where
  heap : r.heap = q.heap
  deleted : r.deleted = q.deleted
  phase : r.phase = q.phase
  expired : r.expired = q.expired
  canceling : r.cancelingTimers = q.cancelingTimers
  flag : r.callingExpiredTimers = q.callingExpiredTimers

/-- What a pointer finds depends on the heap only. -/
theorem get_of_heap (h : r.heap = q.heap) : r.get p = q.get p := by
  unfold get
  rw [h]

private theorem Cancelled.quiet (h : q.Cancelled p) (hq : Quiet q r) : r.Cancelled p := by
  rcases h with h | ⟨⟨now,rest,hp,hn⟩,hb,⟨t,ht,hm⟩⟩
  · exact .inl (hq.deleted ▸ h)
  · exact .inr ⟨⟨now,rest,hq.phase.trans hp,hn⟩,hq.expired ▸ hb,
      ⟨t,(get_of_heap hq.heap).trans ht,hq.canceling ▸ hm⟩⟩

private theorem Flagged.quiet (h : q.Flagged) (hq : Quiet q r) : r.Flagged := by
  intro now rest hp
  rw [hq.flag]
  exact h now rest (hq.phase ▸ hp)

private theorem deref_inv {site : DerefSite} (h : q.deref p site = .ok t) : q.get p = some t := by
  unfold deref at h
  split at h
  · next u hu =>
    cases h
    exact hu
  · cases h

/-- A deletion that succeeds has found its timer and frees it. -/
theorem delete_inv (h : q.delete p = .ok r) :
    (∃ t, q.get p = some t) ∧ r = q.erased p := by
  unfold delete at h
  split at h
  · next u hu =>
    cases h
    exact ⟨⟨u,hu⟩,rfl⟩
  · cases h

/-- An insertion that succeeds changes the sets only. -/
theorem insert_inv {b : Bool} (h : q.insert p = .ok (r,b)) :
    ∃ timers active, r = q.stored q.heap timers active q.deleted := by
  obtain ⟨-,-,h⟩ := bind_eq_ok h
  obtain ⟨t,-,h⟩ := bind_eq_ok h
  obtain ⟨-,-,h⟩ := bind_eq_ok h
  obtain ⟨-,-,h⟩ := bind_eq_ok h
  obtain ⟨-,-,h⟩ := bind_eq_ok h
  cases h
  exact ⟨_,_,rfl⟩

private theorem addTimerInLoop_quiet (h : q.addTimerInLoop p = .ok r) : Quiet q r := by
  obtain ⟨⟨u,b⟩,hu,h⟩ := bind_eq_ok h
  obtain ⟨timers,active,rfl⟩ := insert_inv hu
  dsimp only at h
  split at h
  · obtain ⟨t,-,h⟩ := bind_eq_ok h
    rw [resetTimerfd_eq] at h
    cases h
    exact ⟨rfl,rfl,rfl,rfl,rfl,rfl⟩
  · cases h
    exact ⟨rfl,rfl,rfl,rfl,rfl,rfl⟩

/-- `cancelActive` deletes its timer and touches no other. -/
theorem cancelActive_inv {it : ActiveTimer} (h : q.cancelActive it = .ok r) :
    ∃ timers active, r = { q.erased it.1 with timers := timers, activeTimers := active } ∧
      ∃ t, q.get it.1 = some t := by
  obtain ⟨t,ht,h⟩ := bind_eq_ok h
  obtain ⟨-,-,h⟩ := bind_eq_ok h
  obtain ⟨u,hu,h⟩ := bind_eq_ok h
  obtain ⟨-,rfl⟩ := delete_inv hu
  cases h
  exact ⟨_,_,rfl,t,deref_inv ht⟩

/-- `cancelInLoop` deletes an active timer with that address and number; otherwise it only
marks the id while callbacks run. -/
theorem cancelInLoop_inv {timerId : TimerId} (h : q.cancelInLoop timerId = .ok r) :
    (∃ it timers active, q.activeTimers.find (toLex (timerId.timer,toInt timerId.sequence)) = some it ∧
      (∃ t, q.get it.1 = some t) ∧
      r = { q.erased it.1 with timers := timers, activeTimers := active }) ∨
    q.activeTimers.find (toLex (timerId.timer,toInt timerId.sequence)) = none ∧
      r = { q with cancelingTimers := if q.callingExpiredTimers then
        (q.cancelingTimers.insert (toLex (timerId.timer,toInt timerId.sequence))).1 else q.cancelingTimers } := by
  obtain ⟨-,-,h⟩ := bind_eq_ok h
  obtain ⟨u,hu,h⟩ := bind_eq_ok h
  obtain ⟨-,-,h⟩ := bind_eq_ok h
  cases h
  split at hu
  · next it hf =>
    obtain ⟨timers,active,rfl,ht⟩ := cancelActive_inv hu
    exact .inl ⟨it,timers,active,hf,ht,rfl⟩
  · next hf =>
    refine .inr ⟨hf,?_⟩
    split at hu
    · next hc =>
      cases hu
      rw [if_pos hc]
    · next hc =>
      cases hu
      rw [if_neg hc]

private theorem Cancelled.cancelInLoop (h : q.Cancelled p) {timerId : TimerId}
    (hr : q.cancelInLoop timerId = .ok r) : r.Cancelled p := by
  rcases cancelInLoop_inv hr with ⟨it,timers,active,-,⟨u,hu⟩,rfl⟩ | ⟨-,rfl⟩
  · rcases h with h | ⟨hs,hb,⟨t,ht,hm⟩⟩
    · exact .inl (List.mem_append_left _ h)
    · by_cases hp : p = it.1
      · exact .inl (List.mem_append_right _ (List.mem_singleton.mpr (congrArg TimerPtr.block hp)))
      · refine .inr ⟨hs,hb,t,?_,hm⟩
        exact (get_of_heap (q := q.erased it.1) rfl).trans ((get_erased hu p t).mpr ⟨hp,ht⟩)
  · rcases h with h | ⟨hs,hb,⟨t,ht,hm⟩⟩
    · exact .inl h
    · refine .inr ⟨hs,hb,t,ht,?_⟩
      change _ ∈ (if _ then _ else _ : OrderedSet _)
      split
      · exact OrderedSet.mem_insert_of_mem hm
      · exact hm

private theorem Flagged.cancelInLoop (h : q.Flagged) {timerId : TimerId}
    (hr : q.cancelInLoop timerId = .ok r) : r.Flagged := by
  rcases cancelInLoop_inv hr with ⟨it,timers,active,-,-,rfl⟩ | ⟨-,rfl⟩
  · exact h
  · exact h

/-- A restart that succeeds changes the one timer and keeps its sequence. -/
theorem restart_inv {now : Int} (h : q.restart p now = .ok r) :
    ∃ t u, q.get p = some t ∧ u.sequence = t.sequence ∧ r = q.replaced p u := by
  obtain ⟨t,ht,h⟩ := bind_eq_ok h
  cases h
  exact ⟨t,{ t with expiration := if t.repeat_ then now+t.interval else 0 },deref_inv ht,rfl,rfl⟩

/-- One round of `reset`: a marked timer is deleted, and the other timers stay. -/
theorem resetOne_inv {now : Int} {e : Entry} (h : resetOne now q e = .ok r) :
    r.cancelingTimers = q.cancelingTimers ∧ (∀ b ∈ q.deleted, b ∈ r.deleted) ∧
    (∀ t, q.get e.2 = some t → activeKey (e.2,toInt t.sequence) ∈ q.cancelingTimers →
      e.2.block ∈ r.deleted) ∧
    ∀ p u, p ≠ e.2 → q.get p = some u → r.get p = some u := by
  obtain ⟨t,ht,h⟩ := bind_eq_ok h
  have ht := deref_inv ht
  split at h
  · next hrep =>
    obtain ⟨v,hv,h⟩ := bind_eq_ok h
    obtain ⟨⟨w,b⟩,hw,h⟩ := bind_eq_ok h
    cases h
    obtain ⟨t',u,hg,-,rfl⟩ := restart_inv hv
    obtain ⟨timers,active,rfl⟩ := insert_inv hw
    refine ⟨rfl,fun _ => id,?_,?_⟩
    · intro u hu hm
      rw [ht] at hu
      cases hu
      exact (OrderedSet.find_ne_none hm hrep.2).elim
    · intro p u' hp hu'
      exact (get_of_heap (q := q.replaced e.2 u) rfl).trans ((get_replaced hg p u').mpr (.inr ⟨hp,hu'⟩))
  · obtain ⟨-,rfl⟩ := delete_inv h
    refine ⟨rfl,fun b hb => List.mem_append_left _ hb,?_,?_⟩
    · exact fun _ _ _ => List.mem_append_right _ (List.mem_singleton.mpr rfl)
    · exact fun p u hp hu => (get_erased ht p u).mpr ⟨hp,hu⟩

/-- The loop of `reset` deletes every marked timer of the batch. -/
theorem resetAll_inv {now : Int} (l : List Entry) {q r : TimerQueue}
    (h : l.foldlM (resetOne now) q = .ok r) :
    (∀ b ∈ q.deleted, b ∈ r.deleted) ∧
    ∀ p ∈ l.map Prod.snd, ∀ t, q.get p = some t →
      activeKey (p,toInt t.sequence) ∈ q.cancelingTimers → p.block ∈ r.deleted := by
  induction l generalizing q with
  | nil =>
    cases h
    exact ⟨fun _ => id,fun p hp => (List.not_mem_nil hp).elim⟩
  | cons e l ih =>
    rw [List.foldlM_cons] at h
    obtain ⟨v,hv,h⟩ := bind_eq_ok h
    obtain ⟨hcan,hdel,hmark,hkeep⟩ := resetOne_inv hv
    obtain ⟨hdel',hmark'⟩ := ih h
    refine ⟨fun b hb => hdel' b (hdel b hb),?_⟩
    intro p hp t ht hm
    by_cases hpe : p = e.2
    · subst hpe
      exact hdel' _ (hmark t ht hm)
    · have hpl : p ∈ l.map Prod.snd := (List.mem_cons.mp hp).resolve_left hpe
      exact hmark' p hpl t (hkeep p t hpe ht) (hcan ▸ hm)

private theorem armNext_deleted (h : q.armNext = .ok r) : r.deleted = q.deleted := by
  rcases armNext_inv h with rfl | ⟨expiration,rfl⟩
  · rfl
  · rfl

private theorem Cancelled.endCalling (h : q.Cancelled p) {now : Int} (hr : q.endCalling now = .ok r) :
    r.Cancelled p := by
  obtain ⟨v,hv,hr⟩ := bind_eq_ok hr
  cases hr
  obtain ⟨w,hw,hv⟩ := bind_eq_ok hv
  obtain ⟨hdel,hmark⟩ := resetAll_inv _ hw
  left
  change p.block ∈ v.deleted
  rw [armNext_deleted hv]
  rcases h with h | ⟨-,hb,⟨t,ht,hm⟩⟩
  · exact hdel _ h
  · exact hmark p hb t ht hm

private theorem eraseExpired_quiet (l : List Entry) {q r : TimerQueue}
    (h : l.foldlM eraseExpired q = .ok r) : Quiet q r := by
  induction l generalizing q with
  | nil =>
    cases h
    exact ⟨rfl,rfl,rfl,rfl,rfl,rfl⟩
  | cons e l ih =>
    rw [List.foldlM_cons] at h
    obtain ⟨v,hv,h⟩ := bind_eq_ok h
    obtain ⟨t,-,hv⟩ := bind_eq_ok hv
    obtain ⟨-,-,hv⟩ := bind_eq_ok hv
    cases hv
    obtain ⟨h1,h2,h3,h4,h5,h6⟩ := ih h
    exact ⟨h1,h2,h3,h4,h5,h6⟩

private theorem handleRead_inv {pollReturnTime : Int} (h : q.handleRead pollReturnTime = .ok r) :
    r.deleted = q.deleted ∧ r.Flagged := by
  obtain ⟨v,hv,h⟩ := bind_eq_ok h
  cases h
  obtain ⟨-,-,hv⟩ := bind_eq_ok hv
  obtain ⟨-,-,hv⟩ := bind_eq_ok hv
  obtain ⟨w,hw,hv⟩ := bind_eq_ok hv
  obtain ⟨-,-,hv⟩ := bind_eq_ok hv
  cases hv
  refine ⟨?_,fun _ _ _ => rfl⟩
  change v.deleted = q.deleted
  rw [(eraseExpired_quiet _ hw).deleted]
  change q.readTimerfd.deleted = q.deleted
  unfold readTimerfd
  split <;> rfl

private theorem addTimer_cancelled {n addr : Nat} (hfree : q.heap addr = none)
    (hr : q.addTimer n addr t = .ok r) :
    (q.Cancelled p → r.Cancelled p) ∧ (q.Flagged → r.Flagged) := by
  have hnew : q.Cancelled p → (q.newTimer addr t).Cancelled p := by
    rintro (h | ⟨hs,hb,⟨u,hu,hm⟩⟩)
    · exact .inl h
    · exact .inr ⟨hs,hb,u,(get_newTimer hfree p u).mpr (.inr hu),hm⟩
  unfold addTimer at hr
  dsimp only at hr
  split at hr
  · obtain ⟨v,hv,hr⟩ := bind_eq_ok hr
    obtain ⟨-,-,hr⟩ := bind_eq_ok hr
    cases hr
    have hquiet := addTimerInLoop_quiet hv
    exact ⟨fun h => (hnew h).quiet hquiet,fun h => Flagged.quiet (q := q.newTimer addr t) h hquiet⟩
  · cases hr
    exact ⟨fun h => (hnew h).quiet ⟨rfl,rfl,rfl,rfl,rfl,rfl⟩,id⟩

private theorem returnId_quiet {n : Nat} (hr : q.returnId n = .ok r) : Quiet q r := by
  unfold returnId at hr
  split at hr
  · cases hr
    exact ⟨rfl,rfl,rfl,rfl,rfl,rfl⟩
  · obtain ⟨-,-,hr⟩ := bind_eq_ok hr
    cases hr
    exact ⟨rfl,rfl,rfl,rfl,rfl,rfl⟩

private theorem runFunctor_cancelled {f : TimerFunctor} (hr : q.runFunctor f = .ok r) :
    (q.Cancelled p → r.Cancelled p) ∧ (q.Flagged → r.Flagged) := by
  cases f with
  | addTimerInLoop timer =>
    have hquiet := addTimerInLoop_quiet hr
    exact ⟨fun h => h.quiet hquiet,fun h => h.quiet hquiet⟩
  | cancelInLoop timerId => exact ⟨fun h => h.cancelInLoop hr,fun h => h.cancelInLoop hr⟩

private theorem run_cancelled {now : Int} {e : Entry} {rest : List Entry}
    (hp : q.phase = .calling now (e :: rest)) (hr : q.run now e rest = .ok r) :
    (q.Cancelled p → r.Cancelled p) ∧ (q.Flagged → r.Flagged) := by
  obtain ⟨-,-,hr⟩ := bind_eq_ok hr
  cases hr
  refine ⟨?_,fun h _ _ _ => h now _ hp⟩
  rintro (h | ⟨⟨now',rest',hp',hn⟩,hb,hm⟩)
  · exact .inl h
  · rw [hp] at hp'
    cases hp'
    exact .inr ⟨⟨now,rest,rfl,fun hin => hn (List.mem_cons_of_mem _ hin)⟩,hb,hm⟩

/-- No step takes a cancellation back. -/
theorem code_cancelled {a : TimerStep} (he : q.Enabled a) (hr : q.code a = .ok r) :
    (q.Cancelled p → r.Cancelled p) ∧ (q.Flagged → r.Flagged) := by
  cases a with
  | addTimer n addr when interval repeat_ sequence => exact addTimer_cancelled he.2.1 hr
  | returnId n =>
    have hquiet := returnId_quiet hr
    exact ⟨fun h => h.quiet hquiet,fun h => h.quiet hquiet⟩
  | cancel n timerId =>
    change q.cancel n timerId = .ok r at hr
    unfold cancel at hr
    split at hr
    · exact ⟨fun h => h.cancelInLoop hr,fun h => h.cancelInLoop hr⟩
    · cases hr
      exact ⟨fun h => h.quiet ⟨rfl,rfl,rfl,rfl,rfl,rfl⟩,id⟩
  | runFunctor =>
    rw [code] at hr
    split at hr
    · cases hr
      exact ⟨id,id⟩
    · next f rest hq =>
      obtain ⟨hc,hf⟩ := runFunctor_cancelled (p := p) hr
      exact ⟨fun h => hc (h.quiet ⟨rfl,rfl,rfl,rfl,rfl,rfl⟩),hf⟩
  | handleRead pollReturnTime =>
    obtain ⟨hidle,-,-⟩ := he
    obtain ⟨hdel,hflag⟩ := handleRead_inv hr
    refine ⟨?_,fun _ => hflag⟩
    rintro (h | ⟨⟨now,rest,hp,-⟩,-,-⟩)
    · exact .inl (hdel ▸ h)
    · rw [hidle] at hp
      cases hp
  | runCallback =>
    rw [code] at hr
    split at hr
    · next now e rest hp => exact run_cancelled hp hr
    · cases hr
      exact ⟨id,id⟩
  | endCalling =>
    rw [code] at hr
    split at hr
    · refine ⟨fun h => h.endCalling hr,fun _ now rest hp => ?_⟩
      obtain ⟨v,-,hr⟩ := bind_eq_ok hr
      cases hr
      cases hp
    · cases hr
      exact ⟨id,id⟩
  | tick d =>
    cases hr
    exact ⟨fun h => h.quiet ⟨rfl,rfl,rfl,rfl,rfl,rfl⟩,id⟩

/-- Where a cancelled timer stands in a sound queue: not at the head of what is to run. -/
theorem Sound.cancelled_not_next (h : q.Sound) (hc : q.Cancelled p) {now : Int} {e : Entry}
    {rest : List Entry} (hp : q.phase = .calling now (e :: rest)) : e.2 ≠ p := by
  rintro rfl
  rcases hc with hc | ⟨⟨now',rest',hp',hn⟩,-,-⟩
  · have hbatch : e ∈ q.batch := by
      rw [TimerQueue.batch,hp]
      exact h.calling now _ hp e List.mem_cons_self
    obtain ⟨-,t,ht⟩ := h.setsConsistent.batch_live e hbatch
    exact ((h.setsConsistent.deleted_once.2 _).mp hc).2 e.2 t ht rfl
  · rw [hp] at hp'
    cases hp'
    exact hn List.mem_cons_self

/-- An executed cancellation: the timer is deleted, or condemned with its batch, unless it
was out of reach. -/
theorem cancelInLoop_cancels (h : q.Sound) (hf : q.Flagged) {timerId : TimerId}
    (hn : q.Named p timerId) (hw : p ∉ q.waiting) (hr : q.cancelInLoop timerId = .ok r) :
    r.Cancelled p := by
  rcases hn with hn | ⟨t,ht,haddr,hseq⟩
  · exact Cancelled.cancelInLoop (.inl hn) hr
  have hkey : toLex (timerId.timer,toInt timerId.sequence) = activeKey (p,toInt t.sequence) := by
    rw [← haddr,← hseq]
    rfl
  rcases cancelInLoop_inv hr with ⟨it,timers,active,hfind,⟨u,hu⟩,rfl⟩ | ⟨hfind,rfl⟩
  · -- a live timer at the same address is the timer itself
    rw [hkey] at hfind
    have ha : it.1.addr = p.addr := congrArg (fun k => (ofLex k).1) (OrderedSet.find_some hfind).2
    have hp : it.1 = p := get_unique hu ht ha
    exact .inl (List.mem_append_right _ (List.mem_singleton.mpr (congrArg TimerPtr.block hp.symm)))
  · rw [hkey] at hfind
    have hlive := (h.consistent.live p).mp ⟨t,ht⟩
    rcases List.mem_append.mp hlive with hp | hp
    · have hact := (h.setsConsistent.active_iff p (toInt t.sequence)).mpr ⟨hp,t,ht,rfl⟩
      exact (OrderedSet.find_ne_none hact hfind).elim
    · rcases List.mem_append.mp hp with hp | hp
      · cases hphase : q.phase with
        | idle =>
          rw [TimerQueue.batch,hphase] at hp
          cases hp
        | calling now rest =>
          rw [TimerQueue.batch,hphase] at hp
          refine .inr ⟨⟨now,rest,rfl,?_⟩,hp,t,ht,?_⟩
          · intro hin
            apply hw
            rw [waiting,hphase]
            exact List.mem_append_left _ hin
          · rw [if_pos (hf now rest hphase),hkey]
            exact OrderedSet.mem_insert_self _
      · exact (hw (List.mem_append_right _ hp)).elim

/-- The queue as `cancelInLoop` finds it: the functor that is run has left the list. -/
theorem Sound.cancels (h : q.Sound) {a : TimerStep} {timerId : TimerId} (ha : q.Cancels a timerId)
    (hr : q.code a = .ok r) : ∃ fs, ({ q with pendingFunctors := fs } : TimerQueue).Sound ∧
      ({ q with pendingFunctors := fs } : TimerQueue).adds = q.adds ∧
      ({ q with pendingFunctors := fs } : TimerQueue).cancelInLoop timerId = .ok r := by
  rcases ha with rfl | ⟨rfl,hq⟩
  · change q.cancel q.loopThread timerId = .ok r at hr
    rw [cancel,if_pos rfl] at hr
    exact ⟨q.pendingFunctors,h,rfl,hr⟩
  · rw [code] at hr
    split at hr
    · next hnil =>
      rw [hnil] at hq
      cases hq
    · next f rest hcons =>
      rw [hcons] at hq
      cases hq
      have hadds : ({ q with pendingFunctors := rest } : TimerQueue).adds = q.adds := by
        rw [adds,adds,hcons]
        rfl
      have hc := h.consistent
      rw [← hadds] at hc
      exact ⟨rest,⟨hc.of_eq rfl rfl rfl rfl rfl,h.calling,h.armed.subset rfl rfl (fun _ => id)⟩,hadds,hr⟩

private theorem cancels_cancels (h : q.Sound) (hf : q.Flagged) {a : TimerStep} {timerId : TimerId}
    (ha : q.Cancels a timerId) (hn : q.Named p timerId) (hw : p ∉ q.waiting) (hr : q.code a = .ok r) :
    r.Cancelled p := by
  obtain ⟨fs,hs,hadds,hrun⟩ := h.cancels ha hr
  have hw' : p ∉ ({ q with pendingFunctors := fs } : TimerQueue).waiting := by
    rw [waiting,hadds]
    exact hw
  exact cancelInLoop_cancels (q := { q with pendingFunctors := fs }) hs hf hn hw' hrun

/-- In every run the flags of the batch tell who was cancelled. -/
theorem exec_flagged (loopThread : Nat) (clock : Int) (as : List TimerStep)
    (ha : machine.Admissible (new loopThread clock) as) (hq : machine.exec (new loopThread clock) as = .ok q) :
    q.Sound ∧ q.Flagged := by
  have hsound := exec_sound loopThread clock as ha
  rw [hq] at hsound
  refine ⟨hsound,machine.exec_ok_invariant (I := Flagged) ?_ (by rintro now rest ⟨⟩) ha hq⟩
  intro q r a hf he hr
  exact (code_cancelled (p := ⟨0,0⟩) he hr).2 hf

private theorem exec_cancelled {as : List TimerStep} (h : q.Cancelled p) (ha : machine.Admissible q as)
    (hr : machine.exec q as = .ok r) : r.Cancelled p := by
  refine machine.exec_ok_invariant (I := fun q => q.Cancelled p) ?_ h ha hr
  intro q r a hc he hr
  exact (code_cancelled he hr).1 hc

/-- Once `cancelInLoop(timerId)` has run, the callback of the timer with that id is not
started in the rest of the run, unless at that moment its callback was one of the running
batch still to start, or the timer was still on its way to the loop. -/
theorem cancel_is_final (loopThread : Nat) (clock : Int) (before after : List TimerStep) (a : TimerStep)
    (timerId : TimerId) (p : TimerPtr) (q r s : TimerQueue)
    (ha : machine.Admissible (new loopThread clock) (before ++ (a :: after)))
    (hq : machine.exec (new loopThread clock) before = .ok q) (hc : q.Cancels a timerId)
    (hn : q.Named p timerId) (hw : p ∉ q.waiting)
    (hr : machine.step q a = .ok r) (hs : machine.exec r after = .ok s) :
    ∀ now e rest, s.phase = .calling now (e :: rest) → e.2 ≠ p := by
  have hx : machine.exec q (a :: after) = .ok s := by
    rw [Machine.exec,hr]
    exact hs
  have hall : machine.exec (new loopThread clock) (before ++ (a :: after)) = .ok s := by
    rw [machine.exec_append_ok hq]
    exact hx
  obtain ⟨hbefore,hrest⟩ := machine.admissible_append ha hq
  obtain ⟨hsound,hflag⟩ := exec_flagged loopThread clock before hbefore hq
  have hcancelled := exec_cancelled (cancels_cancels hsound hflag hc hn hw hr) (machine.admissible_step hrest hr) hs
  obtain ⟨hsound',-⟩ := exec_flagged loopThread clock _ ha hall
  intro now e rest hp
  exact hsound'.cancelled_not_next hcancelled hp

private def twoRepeating : List TimerStep :=
  [.addTimer 0 4096 150 10 true 1,.addTimer 0 4200 150 10 true 2,.tick 100,.handleRead 150,.runCallback]

/-- The first of two repeating timers cancels itself in its callback; in the next batch
only the other one is to start. -/
theorem cancel_is_final_self :
    ∃ q r s, machine.exec (new 0 100) twoRepeating = .ok q ∧
      machine.step q (.cancel 0 ⟨4096,1⟩) = .ok r ∧
      machine.exec r [.runCallback,.endCalling,.tick 100,.handleRead 300] = .ok s ∧
      s.phase.hasNext = true ∧ ∀ now e rest, s.phase = .calling now (e :: rest) → e.2 ≠ ⟨4096,0⟩ := by
  obtain ⟨q,hq,hl,hn,hw,hrun⟩ : ∃ q, machine.exec (new 0 100) twoRepeating = .ok q ∧ q.loopThread = 0 ∧
      (∃ t ∈ q.get ⟨4096,0⟩, t.sequence = 1) ∧ ⟨4096,0⟩ ∉ q.waiting ∧
      Meets (fun r => Meets (fun s => s.phase.hasNext = true) (fun _ => False)
        (machine.exec r [.runCallback,.endCalling,.tick 100,.handleRead 300]))
        (fun _ => False) (machine.step q (.cancel 0 ⟨4096,1⟩)) :=
    Meets.ok_of_no_error (Q := fun _ => False) (by decide +kernel) (fun _ => id)
  obtain ⟨r,hr,hrun⟩ := hrun.ok_of_no_error (fun _ => id)
  obtain ⟨s,hs,hnext⟩ := hrun.ok_of_no_error (fun _ => id)
  obtain ⟨t,ht,hseq⟩ := hn
  exact ⟨q,r,s,hq,hr,hs,hnext,cancel_is_final 0 100 twoRepeating
    [.runCallback,.endCalling,.tick 100,.handleRead 300] (.cancel 0 ⟨4096,1⟩) ⟨4096,1⟩ ⟨4096,0⟩ q r s
    (by decide +kernel) hq (.inl (by rw [hl])) (.inr ⟨t,ht,rfl,hseq⟩) hw hr hs⟩

/-- Of two timers of one batch the first cancels the second: the callback of the second
is the next to start. -/
theorem cancelled_sibling_starts :
    machine.Admissible (new 0 100) (twoRepeating ++ [.cancel 0 ⟨4200,2⟩,.runCallback]) ∧
    ∃ q r, machine.exec (new 0 100) twoRepeating = .ok q ∧ q.Cancels (.cancel 0 ⟨4200,2⟩) ⟨4200,2⟩ ∧
      q.Named ⟨4200,1⟩ ⟨4200,2⟩ ∧ machine.step q (.cancel 0 ⟨4200,2⟩) = .ok r ∧
      ¬ ∀ now e rest, r.phase = .calling now (e :: rest) → e.2 ≠ ⟨4200,1⟩ := by
  obtain ⟨q,hq,hl,⟨t,ht,hseq⟩,hrun⟩ : ∃ q, machine.exec (new 0 100) twoRepeating = .ok q ∧
      q.loopThread = 0 ∧ (∃ t ∈ q.get ⟨4200,1⟩, t.sequence = 2) ∧
      Meets (fun r => r.phase = .calling 200 [(150,⟨4200,1⟩)]) (fun _ => False)
        (machine.step q (.cancel 0 ⟨4200,2⟩)) :=
    Meets.ok_of_no_error (Q := fun _ => False) (by decide +kernel) (fun _ => id)
  obtain ⟨r,hr,hp⟩ := hrun.ok_of_no_error (fun _ => id)
  refine ⟨by decide +kernel,q,r,hq,.inl (by rw [hl]),.inr ⟨t,ht,rfl,hseq⟩,hr,?_⟩
  intro hno
  exact hno _ _ _ hp rfl

end TimerQueue
end LearningMuduo.Timers
