import LearningMuduo.Timers.CancelNamed

/-! One whole call of `handleRead`: which callbacks it runs, and which timers are in the
sets when it returns, whatever the callbacks add and cancel. -/
namespace LearningMuduo.Timers
open Library

/-- What happens between entry and `reset`: callbacks start, add and cancel timers, other
threads hand timers and cancellations to the loop, and time passes. -/
def TimerStep.DuringCall : TimerStep → Prop
  | .addTimer .. | .cancel _ _ | .runCallback | .tick _ => True
  | .returnId _ | .runFunctor | .handleRead _ | .endCalling => False

namespace TimerQueue
variable {q r : TimerQueue} {p : TimerPtr} {t : Timer} {a : TimerStep} {steps : List TimerStep}

/-- The entry whose callback the step runs. -/
def callbackOf (q : TimerQueue) : TimerStep → List Entry
  | .runCallback => q.phase.rest.take 1
  | _ => []

/-- The entries whose callbacks the steps run, in order. -/
def callbacksRun (q : TimerQueue) : List TimerStep → List Entry
  | [] => []
  | a :: steps => q.callbackOf a ++ match q.code a with
    | .ok r => callbacksRun r steps
    | .error _ => []

/-- The loop thread cancels the timer. -/
def CancelledBy (loopThread : Nat) (a : TimerStep) (p : TimerPtr) (t : Timer) : Prop :=
  ∃ timerId, a = .cancel loopThread timerId ∧ Matches p t timerId

def CancelledIn (loopThread : Nat) (steps : List TimerStep) (p : TimerPtr) (t : Timer) : Prop :=
  ∃ a ∈ steps, CancelledBy loopThread a p t

/-- The loop thread adds the timer, in the state that the steps before have led to. -/
def AddedBy (q : TimerQueue) (before : List TimerStep) (a : TimerStep) (p : TimerPtr) (t : Timer) : Prop :=
  ∃ s addr, machine.exec q before = .ok s ∧ p = s.nextTimer addr ∧
    a = .addTimer q.loopThread addr t.expiration t.interval t.repeat_ t.sequence

/-- The timers that ought to wait in the sets after the steps: those of the start and the
added ones, less those that were cancelled since. -/
def WaitingAfter (q : TimerQueue) (steps : List TimerStep) (p : TimerPtr) (t : Timer) : Prop :=
  (p ∈ q.pointers ∧ q.get p = some t ∧ ¬ CancelledIn q.loopThread steps p t) ∨
    ∃ before a after, steps = before ++ a :: after ∧ q.AddedBy before a p t ∧
      ¬ CancelledIn q.loopThread after p t

private theorem cancelledIn_append {loopThread : Nat} : CancelledIn loopThread (steps ++ [a]) p t ↔
    CancelledIn loopThread steps p t ∨ CancelledBy loopThread a p t := by
  simp only [CancelledIn,List.mem_append,List.mem_singleton,or_and_right,exists_or,exists_eq_left]

private theorem waitingAfter_append : q.WaitingAfter (steps ++ [a]) p t ↔
    (q.WaitingAfter steps p t ∧ ¬ CancelledBy q.loopThread a p t) ∨ q.AddedBy steps a p t := by
  constructor
  · rintro (⟨hp,ht,hc⟩ | ⟨before,added,after,hsplit,hadd,hc⟩)
    · rw [cancelledIn_append,not_or] at hc
      exact .inl ⟨.inl ⟨hp,ht,hc.1⟩,hc.2⟩
    · rcases List.eq_nil_or_concat after with rfl | ⟨front,last,rfl⟩
      · obtain ⟨rfl,hlast⟩ := List.append_inj' hsplit rfl
        cases hlast
        exact .inr hadd
      · rw [List.concat_eq_append] at hsplit hc
        rw [← List.cons_append,← List.append_assoc] at hsplit
        obtain ⟨rfl,hlast⟩ := List.append_inj' hsplit rfl
        cases hlast
        rw [cancelledIn_append,not_or] at hc
        exact .inl ⟨.inr ⟨before,added,front,rfl,hadd,hc.1⟩,hc.2⟩
  · rintro (⟨⟨hp,ht,hc⟩ | ⟨before,added,after,rfl,hadd,hc⟩,hlast⟩ | hadd)
    · refine .inl ⟨hp,ht,?_⟩
      rw [cancelledIn_append,not_or]
      exact ⟨hc,hlast⟩
    · refine .inr ⟨before,added,after ++ [a],by rw [List.append_assoc]; rfl,hadd,?_⟩
      rw [cancelledIn_append,not_or]
      exact ⟨hc,hlast⟩
    · exact .inr ⟨steps,a,[],rfl,hadd,fun ⟨_,hnil,_⟩ => List.not_mem_nil hnil⟩

private theorem callbacksRun_append (h : machine.exec q steps = .ok r) :
    q.callbacksRun (steps ++ [a]) = q.callbacksRun steps ++ r.callbackOf a := by
  induction steps generalizing q with
  | nil =>
    cases h
    rw [List.nil_append,callbacksRun,callbacksRun,List.nil_append]
    split
    · exact List.append_nil _
    · exact List.append_nil _
  | cons b steps ih =>
    obtain ⟨s,hs,h⟩ := bind_eq_ok h
    change q.code b = .ok s at hs
    rw [List.cons_append,callbacksRun,callbacksRun,hs]
    dsimp only
    rw [ih h,List.append_assoc]

/-- What one step during the call does to the sets, the batch and the marks. -/
structure Effect (q : TimerQueue) (a : TimerStep) (r : TimerQueue) : Prop where
  consistent : r.Consistent (r.expired.map Prod.snd ++ r.adds)
  expired : r.expired = q.expired
  loopThread : r.loopThread = q.loopThread
  flag : r.callingExpiredTimers = q.callingExpiredTimers
  waiting : ∀ p t, p ∈ r.pointers ∧ r.get p = some t ↔
    ((p ∈ q.pointers ∧ q.get p = some t) ∧ ¬ CancelledBy q.loopThread a p t) ∨
      ∃ addr, p = q.nextTimer addr ∧ a = .addTimer q.loopThread addr t.expiration t.interval t.repeat_ t.sequence
  batch : ∀ p ∈ q.expired.map Prod.snd, ∀ t, q.get p = some t → r.get p = some t
  canceling : ∀ p ∈ q.expired.map Prod.snd, ∀ t, q.get p = some t →
    (activeKey (p,toInt t.sequence) ∈ r.cancelingTimers ↔
      activeKey (p,toInt t.sequence) ∈ q.cancelingTimers ∨ CancelledBy q.loopThread a p t)

private theorem effect_of_eq (h : q.Consistent (q.expired.map Prod.snd ++ q.adds)) (hheap : r.heap = q.heap)
    (htimers : r.timers = q.timers) (hactive : r.activeTimers = q.activeTimers)
    (hallocated : r.allocated = q.allocated) (hdeleted : r.deleted = q.deleted)
    (hexpired : r.expired = q.expired) (hadds : r.adds = q.adds) (hloop : r.loopThread = q.loopThread)
    (hflag : r.callingExpiredTimers = q.callingExpiredTimers) (hcanceling : r.cancelingTimers = q.cancelingTimers)
    (hcancel : ∀ p t, ¬ CancelledBy q.loopThread a p t)
    (hadd : ∀ addr when interval repeat_ sequence, a ≠ .addTimer q.loopThread addr when interval repeat_ sequence) :
    q.Effect a r := by
  have hget (p : TimerPtr) : r.get p = q.get p := get_of_heap hheap
  refine ⟨?_,hexpired,hloop,hflag,?_,?_,?_⟩
  · rw [hexpired,hadds]
    exact h.of_eq hheap htimers hactive hallocated hdeleted
  · intro p t
    rw [hget,pointers,htimers]
    constructor
    · exact fun hp => .inl ⟨hp,hcancel p t⟩
    · rintro (⟨hp,-⟩ | ⟨addr,-,ha⟩)
      · exact hp
      · exact (hadd _ _ _ _ _ ha).elim
  · intro p _ t ht
    rw [hget]
    exact ht
  · intro p _ t _
    rw [hcanceling]
    exact ⟨.inl,fun hm => hm.elim id fun hc => (hcancel p t hc).elim⟩

/-- A cancellation in the loop's thread hits what matches its id. -/
@[simp] theorem cancelledBy_cancel {loopThread : Nat} {timerId : TimerId} :
    CancelledBy loopThread (.cancel loopThread timerId) p t ↔ Matches p t timerId := by
  constructor
  · rintro ⟨_,h,hm⟩
    cases h
    exact hm
  · exact fun hm => ⟨timerId,rfl,hm⟩

private theorem cancelFound_effect {timerId : TimerId} {it : ActiveTimer}
    (h : q.Consistent (q.expired.map Prod.snd ++ q.adds)) (hr : r.Consistent (q.expired.map Prod.snd ++ q.adds))
    (hfind : q.activeTimers.find (toLex (timerId.timer,toInt timerId.sequence)) = some it)
    (hheap : r.heap = (q.erased it.1).heap) (hexpired : r.expired = q.expired) (hadds : r.adds = q.adds)
    (hloop : r.loopThread = q.loopThread) (hflag : r.callingExpiredTimers = q.callingExpiredTimers)
    (hcanceling : r.cancelingTimers = q.cancelingTimers) :
    q.Effect (.cancel q.loopThread timerId) r := by
  obtain ⟨hmem,hkey⟩ := OrderedSet.find_some hfind
  obtain ⟨hin,u,hu,hseq⟩ := (h.active_iff it.1 it.2).mp hmem
  have hmatch : Matches it.1 u timerId := .of_key (by rw [hseq]; exact hkey)
  have hget (p : TimerPtr) (t : Timer) : r.get p = some t ↔ p ≠ it.1 ∧ q.get p = some t := by
    rw [get_of_heap hheap]
    exact get_erased hu p t
  have honly {p : TimerPtr} {t : Timer} (ht : q.get p = some t) (hm : Matches p t timerId) : p = it.1 :=
    get_unique ht hu (hm.1.trans hmatch.1.symm)
  have hout {p : TimerPtr} (hp : p ∈ q.expired.map Prod.snd) : p ≠ it.1 := by
    rintro rfl
    exact List.disjoint_of_nodup_append h.nodup hin (List.mem_append_left _ hp)
  refine ⟨by rw [hexpired,hadds]; exact hr,hexpired,hloop,hflag,?_,?_,?_⟩
  · intro p t
    rw [cancelledBy_cancel]
    constructor
    · rintro ⟨hp,ht⟩
      have hp := (hr.pointers_iff ht).mp hp
      obtain ⟨hne,ht⟩ := (hget p t).mp ht
      exact .inl ⟨⟨(h.pointers_iff ht).mpr hp,ht⟩,fun hm => hne (honly ht hm)⟩
    · rintro (⟨⟨hp,ht⟩,hm⟩ | ⟨addr,-,ha⟩)
      · have hne : p ≠ it.1 := by
          rintro rfl
          rw [hu] at ht
          cases ht
          exact hm hmatch
        have ht' := (hget p t).mpr ⟨hne,ht⟩
        exact ⟨(hr.pointers_iff ht').mpr ((h.pointers_iff ht).mp hp),ht'⟩
      · cases ha
  · exact fun p hp t ht => (hget p t).mpr ⟨hout hp,ht⟩
  · intro p hp t ht
    rw [hcanceling,cancelledBy_cancel]
    exact ⟨.inl,fun hm => hm.elim id fun hm => (hout hp (honly ht hm)).elim⟩

private theorem cancelInLoop_effect (h : q.Consistent (q.expired.map Prod.snd ++ q.adds))
    (hcalling : q.callingExpiredTimers = true) (timerId : TimerId) :
    ∃ r, q.cancelInLoop timerId = .ok r ∧ q.Effect (.cancel q.loopThread timerId) r ∧ r.phase = q.phase := by
  obtain ⟨heap,timers,active,deleted,canceling,hr,hc,-⟩ := cancelInLoop_spec h timerId
  have hcr : ({ q.stored heap timers active deleted with cancelingTimers := canceling } : TimerQueue).Consistent
      (q.expired.map Prod.snd ++ q.adds) := hc.of_eq rfl rfl rfl rfl rfl
  refine ⟨_,hr,?_⟩
  generalize ({ q.stored heap timers active deleted with cancelingTimers := canceling } : TimerQueue) = r at hr hcr
  rcases cancelInLoop_inv hr with ⟨it,timers,active,hfind,-,rfl⟩ | ⟨hfind,rfl⟩
  · exact ⟨cancelFound_effect h hcr hfind rfl rfl rfl rfl rfl rfl,rfl⟩
  · -- not in the sets, so the id is only marked
    refine ⟨⟨hcr,rfl,rfl,rfl,?_,fun _ _ _ => id,?_⟩,rfl⟩
    · intro p t
      rw [cancelledBy_cancel]
      constructor
      · rintro ⟨hp,ht⟩
        refine .inl ⟨⟨hp,ht⟩,fun hm => ?_⟩
        rw [← hm.key] at hfind
        exact OrderedSet.find_ne_none ((h.active_iff p _).mpr ⟨hp,t,ht,rfl⟩) hfind
      · rintro (⟨hp,-⟩ | ⟨addr,-,ha⟩)
        · exact hp
        · cases ha
    · intro p _ t _
      rw [cancelledBy_cancel]
      dsimp only
      rw [if_pos hcalling]
      constructor
      · intro hm
        rcases OrderedSet.mem_of_mem_insert hm with hm | hm
        · exact .inr (.of_key hm)
        · exact .inl hm
      · rintro (hm | hm)
        · exact OrderedSet.mem_insert_of_mem hm
        · rw [hm.key]
          exact OrderedSet.mem_insert_self _

private theorem addTimer_effect (h : q.Consistent (q.expired.map Prod.snd ++ q.adds)) {addr : Nat}
    (hfree : q.heap addr = none) (hmax : addr < uintptrMax) (hi : t.repeat_ = true → 0 ≤ t.interval) :
    ∃ r, q.addTimer q.loopThread addr t = .ok r ∧
      q.Effect (.addTimer q.loopThread addr t.expiration t.interval t.repeat_ t.sequence) r ∧ r.phase = q.phase := by
  obtain ⟨hnew,hc⟩ := newTimer_spec h hfree hmax hi
  obtain ⟨timers,active,hx,hc',hperm⟩ := addTimerInLoop_spec hc hnew
  let s := (q.newTimer addr t).stored (q.newTimer addr t).heap timers active (q.newTimer addr t).deleted
  have hs : s.Consistent (q.expired.map Prod.snd ++ q.adds) := hc'
  have hget (p : TimerPtr) (u : Timer) : s.get p = some u ↔ p = q.nextTimer addr ∧ u = t ∨ q.get p = some u :=
    get_newTimer hfree p u
  have hnext : s.get (q.nextTimer addr) = some t := (hget _ _).mpr (.inl ⟨rfl,rfl⟩)
  have hnextIn : q.nextTimer addr ∈ s.pointers :=
    List.mem_map_of_mem (f := Prod.snd) (hperm.mem_iff.mpr List.mem_cons_self)
  let r := if (q.newTimer addr t).earliest t.expiration = true then s.armedFor t.expiration else s
  have hrget (p : TimerPtr) : r.get p = s.get p := by
    change (if _ then _ else _ : TimerQueue).get p = _
    split <;> rfl
  have hrun : q.addTimer q.loopThread addr t = .ok r := by
    rw [addTimer,if_pos (show q.loopThread = (q.newTimer addr t).loopThread from rfl),hx,bind_ok]
    exact congrArg (· >>= _) (deref_ok ((hrget _).trans hnext) _)
  have hframe : r = { s with timerfd := r.timerfd } := by
    change (if _ then _ else _ : TimerQueue) = { s with timerfd := (if _ then _ else _ : TimerQueue).timerfd }
    split <;> rfl
  refine ⟨r,hrun,?_,by rw [hframe]; rfl⟩
  rw [hframe]
  have hno (p : TimerPtr) (u : Timer) : ¬ CancelledBy q.loopThread
      (.addTimer q.loopThread addr t.expiration t.interval t.repeat_ t.sequence) p u := by
    rintro ⟨_,ha,-⟩
    cases ha
  refine ⟨hs.of_eq rfl rfl rfl rfl rfl,rfl,rfl,rfl,?_,?_,?_⟩
  · intro p u
    change p ∈ s.pointers ∧ s.get p = some u ↔ _
    constructor
    · rintro ⟨hp,hu⟩
      rcases (hget p u).mp hu with ⟨rfl,rfl⟩ | hq
      · exact .inr ⟨addr,rfl,rfl⟩
      · exact .inl ⟨⟨(h.pointers_iff hq).mpr ((hs.pointers_iff hu).mp hp),hq⟩,hno p u⟩
    · rintro (⟨⟨hp,hu⟩,-⟩ | ⟨addr',rfl,ha⟩)
      · have hu' := (hget p u).mpr (.inr hu)
        exact ⟨(hs.pointers_iff hu').mpr ((h.pointers_iff hu).mp hp),hu'⟩
      · obtain ⟨-,haddr,hexp,hint,hrep,hseq⟩ := TimerStep.addTimer.inj ha
        have hut : t = u := by
          cases t
          cases u
          cases hexp
          cases hint
          cases hrep
          cases hseq
          rfl
        rw [← haddr,← hut]
        exact ⟨hnextIn,hnext⟩
  · exact fun p _ u hu => (hget p u).mpr (.inr hu)
  · exact fun p _ u _ => ⟨.inl,fun hm => hm.elim id fun hc => (hno p u hc).elim⟩

private theorem addTimer_elsewhere_effect (h : q.Consistent (q.expired.map Prod.snd ++ q.adds)) {n addr : Nat}
    (hn : n ≠ q.loopThread) (hfree : q.heap addr = none) (hmax : addr < uintptrMax)
    (hi : t.repeat_ = true → 0 ≤ t.interval) :
    ∃ r, q.addTimer n addr t = .ok r ∧
      q.Effect (.addTimer n addr t.expiration t.interval t.repeat_ t.sequence) r ∧ r.phase = q.phase := by
  obtain ⟨-,hc⟩ := newTimer_spec h hfree hmax hi
  have hget (p : TimerPtr) (u : Timer) : (q.newTimer addr t).get p = some u ↔
      p = q.nextTimer addr ∧ u = t ∨ q.get p = some u := get_newTimer hfree p u
  have hno (p : TimerPtr) (u : Timer) : ¬ CancelledBy q.loopThread
      (.addTimer n addr t.expiration t.interval t.repeat_ t.sequence) p u := by
    rintro ⟨_,ha,-⟩
    cases ha
  have hmove : (q.nextTimer addr :: (q.expired.map Prod.snd ++ q.adds)).Perm
      (q.expired.map Prod.snd ++ (q.adds ++ [q.nextTimer addr])) := by
    rw [← List.append_assoc]
    exact (List.perm_append_singleton _ _).symm
  refine ⟨{ q.newTimer addr t with
    pendingFunctors := q.pendingFunctors ++ [.addTimerInLoop (q.nextTimer addr)]
    returning := Function.update q.returning n (some (q.nextTimer addr)) },?_,⟨?_,rfl,rfl,rfl,?_,?_,?_⟩,rfl⟩
  · exact if_neg hn
  · have hadds : (q.pendingFunctors ++ [TimerFunctor.addTimerInLoop (q.nextTimer addr)]).filterMap TimerFunctor.added? =
        q.adds ++ [q.nextTimer addr] := by
      rw [List.filterMap_append]
      rfl
    rw [adds,hadds]
    exact (hc.perm hmove).of_eq rfl rfl rfl rfl rfl
  · intro p u
    change p ∈ q.pointers ∧ (q.newTimer addr t).get p = some u ↔ _
    constructor
    · rintro ⟨hp,hu⟩
      obtain ⟨v,hv⟩ := (h.live p).mpr (List.mem_append_left _ hp)
      rw [(hget p v).mpr (.inr hv)] at hu
      cases hu
      exact .inl ⟨⟨hp,hv⟩,hno p _⟩
    · rintro (⟨⟨hp,hu⟩,-⟩ | ⟨_,-,ha⟩)
      · exact ⟨hp,(hget p u).mpr (.inr hu)⟩
      · exact (hn (TimerStep.addTimer.inj ha).1).elim
  · exact fun p _ u hu => (hget p u).mpr (.inr hu)
  · exact fun p _ u _ => ⟨.inl,fun hm => hm.elim id fun hc => (hno p u hc).elim⟩

/-- One step during the call: it succeeds, has its effect, and takes the callback it runs off
those still to run. -/
theorem code_effect (h : q.Consistent (q.expired.map Prod.snd ++ q.adds)) (hcalling : q.callingExpiredTimers = true)
    {now : Int} {rest : List Entry} (hphase : q.phase = .calling now rest) (hrest : ∀ e ∈ rest, e ∈ q.expired)
    (he : q.Enabled a) (ha : a.DuringCall) :
    ∃ r later, q.code a = .ok r ∧ q.Effect a r ∧ rest = q.callbackOf a ++ later ∧ r.phase = .calling now later := by
  have hno (n : Nat) (timerId : TimerId) (hn : n ≠ q.loopThread) (p : TimerPtr) (t : Timer) :
      ¬ CancelledBy q.loopThread (.cancel n timerId) p t := by
    rintro ⟨_,hc,-⟩
    cases hc
    exact hn rfl
  cases a with
  | addTimer n addr when interval repeat_ sequence =>
    obtain ⟨-,hfree,-,hmax,hi⟩ := he
    by_cases hn : n = q.loopThread
    · subst hn
      obtain ⟨r,hr,heff,hp⟩ := addTimer_effect (t := ⟨when,interval,repeat_,sequence⟩) h hfree hmax hi
      exact ⟨r,rest,hr,heff,rfl,hp.trans hphase⟩
    · obtain ⟨r,hr,heff,hp⟩ := addTimer_elsewhere_effect (t := ⟨when,interval,repeat_,sequence⟩) h hn hfree hmax hi
      exact ⟨r,rest,hr,heff,rfl,hp.trans hphase⟩
  | cancel n timerId =>
    by_cases hn : n = q.loopThread
    · subst hn
      obtain ⟨r,hr,heff,hp⟩ := cancelInLoop_effect h hcalling timerId
      exact ⟨r,rest,(if_pos rfl).trans hr,heff,rfl,hp.trans hphase⟩
    · have hadds : (q.pendingFunctors ++ [TimerFunctor.cancelInLoop timerId]).filterMap TimerFunctor.added? = q.adds := by
        rw [List.filterMap_append]
        exact List.append_nil _
      refine ⟨_,rest,if_neg hn,?_,rfl,hphase⟩
      refine effect_of_eq h rfl rfl rfl rfl rfl rfl hadds rfl rfl rfl (hno n timerId hn) ?_
      intro addr when interval repeat_ sequence hc
      cases hc
  | runCallback =>
    cases rest with
    | nil =>
      change q.phase.hasNext = true at he
      rw [hphase] at he
      cases he
    | cons e rest =>
      have hmem : e.2 ∈ q.expired.map Prod.snd ++ q.adds :=
        List.mem_append_left _ (List.mem_map_of_mem (hrest e List.mem_cons_self))
      obtain ⟨t,ht⟩ := h.live_rest hmem
      refine ⟨{ q with phase := .calling now rest },rest,?_,?_,?_,rfl⟩
      · rw [code,hphase]
        dsimp only
        rw [run,deref_ok ht]
        rfl
      · refine effect_of_eq h rfl rfl rfl rfl rfl rfl rfl rfl rfl rfl ?_ ?_
        · rintro p t ⟨_,hc,-⟩
          cases hc
        · intro addr when interval repeat_ sequence hc
          cases hc
      · rw [callbackOf,hphase]
        rfl
  | tick d =>
    refine ⟨q.tick d,rest,rfl,?_,rfl,hphase⟩
    refine effect_of_eq h rfl rfl rfl rfl rfl rfl rfl rfl rfl rfl ?_ ?_
    · rintro p t ⟨_,hc,-⟩
      cases hc
    · intro addr when interval repeat_ sequence hc
      cases hc
  | returnId n => exact ha.elim
  | runFunctor => exact ha.elim
  | handleRead pollReturnTime => exact ha.elim
  | endCalling => exact ha.elim

/-- A point of the call: q is the queue as its first callback starts, s the queue after
the steps since. -/
structure During (q : TimerQueue) (now : Int) (steps : List TimerStep) (s : TimerQueue) : Prop where
  consistent : s.Consistent (s.expired.map Prod.snd ++ s.adds)
  expired : s.expired = q.expired
  loopThread : s.loopThread = q.loopThread
  calling : s.callingExpiredTimers = true
  phase : ∃ rest, s.phase = .calling now rest ∧ q.expired = q.callbacksRun steps ++ rest
  waiting : ∀ p t, p ∈ s.pointers ∧ s.get p = some t ↔ q.WaitingAfter steps p t
  batch : ∀ p ∈ q.expired.map Prod.snd, ∀ t, q.get p = some t → s.get p = some t
  canceling : ∀ p ∈ q.expired.map Prod.snd, ∀ t, q.get p = some t →
    (activeKey (p,toInt t.sequence) ∈ s.cancelingTimers ↔ CancelledIn q.loopThread steps p t)

private theorem During.step {now : Int} {s : TimerQueue} (h : q.During now steps s)
    (hs : machine.exec q steps = .ok s) (he : s.Enabled a) (ha : a.DuringCall) :
    ∃ r, s.code a = .ok r ∧ q.During now (steps ++ [a]) r := by
  obtain ⟨rest,hphase,hran⟩ := h.phase
  have hrest : ∀ e ∈ rest, e ∈ s.expired := by
    rw [h.expired,hran]
    exact fun e => List.mem_append_right _
  obtain ⟨r,later,hr,heff,hlater,hphase'⟩ := code_effect h.consistent h.calling hphase hrest he ha
  refine ⟨r,hr,heff.consistent,heff.expired.trans h.expired,heff.loopThread.trans h.loopThread,
    heff.flag.trans h.calling,⟨later,hphase',?_⟩,?_,?_,?_⟩
  · rw [callbacksRun_append hs,List.append_assoc,← hlater]
    exact hran
  · intro p t
    rw [heff.waiting,h.waiting,waitingAfter_append,h.loopThread]
    refine or_congr_right ⟨?_,?_⟩
    · rintro ⟨addr,hp,hadd⟩
      exact ⟨s,addr,hs,hp,hadd⟩
    · rintro ⟨s',addr,hs',hp,hadd⟩
      rw [hs] at hs'
      cases hs'
      exact ⟨addr,hp,hadd⟩
  · intro p hp t ht
    exact heff.batch p (h.expired ▸ hp) t (h.batch p hp t ht)
  · intro p hp t ht
    rw [heff.canceling p (h.expired ▸ hp) t (h.batch p hp t ht),h.canceling p hp t ht,h.loopThread,cancelledIn_append]

/-- Whatever happens during the call, nothing fails and the description holds. -/
theorem During.run {now : Int} (h : q.During now [] q) (steps : List TimerStep)
    (hsteps : ∀ a ∈ steps, a.DuringCall) (ha : machine.Admissible q steps) :
    ∃ s, machine.exec q steps = .ok s ∧ q.During now steps s := by
  have hadm := machine.admissible_guard TimerStep.DuringCall q steps ha hsteps
  have hrun := (machine.guard _).exec_history h (fun before s a hd hs he => ?_) steps hadm
  · rw [machine.exec_guard] at hrun
    exact hrun
  · rw [machine.exec_guard] at hs
    exact hd.step hs he.1 he.2

/-- One round of `reset`: the timer is set to its next time if it repeats and is not marked,
and deleted otherwise. -/
theorem resetOne_get {now : Int} {e : Entry} (ht : q.get e.2 = some t) (h : resetOne now q e = .ok r) :
    r.cancelingTimers = q.cancelingTimers ∧
    ∀ p u, r.get p = some u ↔ (p ≠ e.2 ∧ q.get p = some u) ∨
      (p = e.2 ∧ t.repeat_ = true ∧ activeKey (e.2,toInt t.sequence) ∉ q.cancelingTimers ∧
        u = { t with expiration := now + t.interval }) := by
  rw [resetOne,deref_ok ht,bind_ok] at h
  split at h
  · next hrep =>
    obtain ⟨v,hv,h⟩ := bind_eq_ok h
    obtain ⟨⟨w,b⟩,hw,h⟩ := bind_eq_ok h
    cases h
    rw [restart,deref_ok ht,bind_ok] at hv
    cases hv
    obtain ⟨timers,active,rfl⟩ := insert_inv hw
    refine ⟨rfl,fun p u => ?_⟩
    have hmark : activeKey (e.2,toInt t.sequence) ∉ q.cancelingTimers :=
      fun hm => OrderedSet.find_ne_none hm hrep.2
    have hget := get_replaced (u := { t with expiration := if t.repeat_ then now + t.interval else 0 }) ht p u
    rw [if_pos hrep.1] at hget
    refine Iff.trans ?_ (hget.trans or_comm) |>.trans (or_congr_right ?_)
    · rw [if_pos hrep.1]
      exact Iff.rfl
    · exact ⟨fun hpu => ⟨hpu.1,hrep.1,hmark,hpu.2⟩,fun hpu => ⟨hpu.1,hpu.2.2.2⟩⟩
  · next hrep =>
    obtain ⟨-,rfl⟩ := delete_inv h
    refine ⟨rfl,fun p u => (get_erased ht p u).trans ⟨.inl,?_⟩⟩
    rintro (hkept | ⟨-,hr,hm,-⟩)
    · exact hkept
    · refine (hrep ⟨hr,?_⟩).elim
      cases hf : q.cancelingTimers.find (activeKey (e.2,toInt t.sequence)) with
      | none => rfl
      | some k =>
        obtain ⟨hk,hkey⟩ := OrderedSet.find_some hf
        exact (hm ((show k = _ from hkey) ▸ hk)).elim

/-- The loop of `reset`, over a batch of different live timers. -/
theorem reset_get {now : Int} (l : List Entry) {q r : TimerQueue} (hl : (l.map Prod.snd).Nodup)
    (hlive : ∀ p ∈ l.map Prod.snd, ∃ t, q.get p = some t) (h : l.foldlM (resetOne now) q = .ok r) (p : TimerPtr)
    (u : Timer) : r.get p = some u ↔ (p ∉ l.map Prod.snd ∧ q.get p = some u) ∨
      (p ∈ l.map Prod.snd ∧ ∃ t, q.get p = some t ∧ t.repeat_ = true ∧
        activeKey (p,toInt t.sequence) ∉ q.cancelingTimers ∧ u = { t with expiration := now + t.interval }) := by
  induction l generalizing q with
  | nil =>
    cases h
    simp
  | cons e l ih =>
    obtain ⟨hnot,hl⟩ := List.nodup_cons.mp hl
    rw [List.foldlM_cons] at h
    obtain ⟨v,hv,h⟩ := bind_eq_ok h
    obtain ⟨t,ht⟩ := hlive e.2 List.mem_cons_self
    obtain ⟨hcanceling,hget⟩ := resetOne_get ht hv
    have hsame {p : TimerPtr} (hp : p ≠ e.2) (u : Timer) : v.get p = some u ↔ q.get p = some u := by
      rw [hget]
      exact ⟨fun hor => hor.elim And.right fun heq => (hp heq.1).elim,fun hu => .inl ⟨hp,hu⟩⟩
    have hne {p : TimerPtr} (hp : p ∈ l.map Prod.snd) : p ≠ e.2 := fun heq => hnot (heq ▸ hp)
    have hlive' : ∀ p ∈ l.map Prod.snd, ∃ t, v.get p = some t := by
      intro p hp
      obtain ⟨t,ht⟩ := hlive p (List.mem_cons_of_mem _ hp)
      exact ⟨t,(hsame (hne hp) t).mpr ht⟩
    rw [ih hl hlive' h,hcanceling,List.map_cons,List.mem_cons,not_or]
    by_cases hp : p = e.2
    · subst hp
      have hv := hget e.2 u
      simp only [ne_eq,not_true_eq_false,false_and,false_or,true_and] at hv
      simp only [hnot,not_false_eq_true,true_and,false_and,or_false,not_true_eq_false,false_or,hv,ht,
        Option.some.injEq,exists_eq_left']
    · simp only [hp,not_false_eq_true,true_and,false_or,hsame hp]

/-- The timers due on entry, in the order of `timers_`. -/
def dueOnEntry (q : TimerQueue) (pollReturnTime : Int) : List Entry :=
  q.timers.elems.filter (fun e => e.1 ≤ pollReturnTime)

/-- The sentry separates what is due from what is not. -/
theorem below_eq_due {rest : List TimerPtr} (h : q.Consistent rest) (pollReturnTime : Int) :
    q.timers.below (toLex (pollReturnTime,uintptrMax)) = q.dueOnEntry pollReturnTime := by
  rw [OrderedSet.below_eq_filter,dueOnEntry]
  refine List.filter_congr fun e he => ?_
  obtain ⟨t,ht,-⟩ := h.entry e he
  have hb := h.sound.bounded e.2 t ht
  rw [decide_eq_decide]
  refine (Prod.Lex.toLex_lt_toLex).trans ⟨?_,?_⟩
  · rintro (hlt | ⟨heq,-⟩)
    · exact hlt.le
    · exact heq.le
  · exact fun hle => (lt_or_eq_of_le hle).imp id fun heq => ⟨heq,hb⟩

/-- `handleRead` up to its first callback. -/
theorem handleRead_start (h : q.Consistent q.adds) (pollReturnTime : Int) :
    ∃ s₀, q.handleRead pollReturnTime = .ok s₀ ∧ s₀.During q.clock [] s₀ ∧
      s₀.expired = q.dueOnEntry pollReturnTime ∧ s₀.loopThread = q.loopThread ∧ (∀ p, s₀.get p = q.get p) ∧
      ∀ e, e ∈ s₀.timers ↔ e ∈ q.timers ∧ pollReturnTime < e.1 := by
  have hread : ∃ fd, q.readTimerfd = { q with timerfd := fd } := by
    unfold readTimerfd
    split
    · exact ⟨_,rfl⟩
    · exact ⟨q.timerfd,rfl⟩
  obtain ⟨fd,hread⟩ := hread
  have hc : ({ q with timerfd := fd } : TimerQueue).Consistent q.adds := h.of_eq rfl rfl rfl rfl rfl
  obtain ⟨r,hr,⟨active,hfields⟩,hcr,hlate⟩ := getExpired_spec hc pollReturnTime
  have hdue := below_eq_due h pollReturnTime
  have hadds : r.adds = q.adds := by
    rw [hfields]
    rfl
  have hexpired : r.expired = q.dueOnEntry pollReturnTime := by
    rw [hfields]
    exact hdue
  have hget (p : TimerPtr) : r.get p = q.get p := by
    rw [hfields]
    rfl
  have hloop : r.loopThread = q.loopThread := by rw [hfields]
  have htimers : r.timers = q.timers.above (toLex (pollReturnTime,uintptrMax)) := by rw [hfields]
  refine ⟨{ r with
    callingExpiredTimers := true
    cancelingTimers := .empty
    phase := .calling q.clock r.expired },by rw [handleRead,hread,hr]; rfl,
    ⟨?_,rfl,rfl,rfl,⟨_,rfl,rfl⟩,?_,fun _ _ _ => id,?_⟩,hexpired,hloop,hget,?_⟩
  · rw [← hadds] at hcr
    exact hcr.of_eq rfl rfl rfl rfl rfl
  · intro p t
    constructor
    · rintro ⟨hp,ht⟩
      refine .inl ⟨hp,ht,?_⟩
      rintro ⟨_,hnil,-⟩
      cases hnil
    · rintro (⟨hp,ht,-⟩ | ⟨before,a,after,hsplit,-⟩)
      · exact ⟨hp,ht⟩
      · cases List.append_ne_nil_of_right_ne_nil before (List.cons_ne_nil a after) hsplit.symm
  · intro p _ t _
    constructor
    · exact fun hm => (List.not_mem_nil hm).elim
    · rintro ⟨_,hnil,-⟩
      cases hnil
  · intro e
    have hsplit := q.timers.below_append_above (toLex (pollReturnTime,uintptrMax))
    have hmem : e ∈ q.timers ↔ e ∈ q.dueOnEntry pollReturnTime ∨
        e ∈ q.timers.above (toLex (pollReturnTime,uintptrMax)) := by
      rw [OrderedSet.mem_def,← hsplit,List.mem_append,hdue]
      exact Iff.rfl
    constructor
    · intro he
      exact ⟨hmem.mpr (.inr (htimers ▸ he)),hlate e he⟩
    · rintro ⟨he,hlt⟩
      change e ∈ r.timers
      rw [htimers]
      rcases hmem.mp he with hd | hd
      · have hle : e.1 ≤ pollReturnTime := by simpa using (List.mem_filter.mp hd).2
        omega
      · exact hd

/-- `endCalling` behind the last callback. -/
theorem During.finish {now : Int} {s : TimerQueue} (h : q.During now steps s) (hdone : s.phase.isDone = true) :
    ∃ r, s.code .endCalling = .ok r ∧ ∀ e, e ∈ r.timers ↔ ∃ u, u.expiration = e.1 ∧
      (q.WaitingAfter steps e.2 u ∨ (e.2 ∈ q.expired.map Prod.snd ∧ ∃ t, s.get e.2 = some t ∧ t.repeat_ = true ∧
        activeKey (e.2,toInt t.sequence) ∉ s.cancelingTimers ∧ u = { t with expiration := now + t.interval })) := by
  obtain ⟨rest,hphase,-⟩ := h.phase
  have hrest : rest = [] := by
    rw [hphase] at hdone
    cases rest with
    | nil => rfl
    | cons e rest => cases hdone
  subst hrest
  have hc : ({ s with callingExpiredTimers := false } : TimerQueue).Consistent (s.expired.map Prod.snd ++ s.adds) :=
    h.consistent.of_eq rfl rfl rfl rfl rfl
  obtain ⟨heap,timers,active,deleted,hx,hcr,-⟩ := reset_fold now s.expired _ hc
  have hnodup := (List.nodup_append.mp h.consistent.nodup).2.1
  have hget := reset_get s.expired (List.nodup_append.mp hnodup).1
    (fun p hp => hc.live_rest (List.mem_append_left _ hp)) hx
  generalize hv : ({ s with callingExpiredTimers := false } : TimerQueue).stored heap timers active deleted = v at hx hcr hget
  have htimers : v.armedForFront.timers = v.timers := by
    unfold armedForFront
    split
    · rfl
    · split <;> rfl
  refine ⟨{ v.armedForFront with phase := .idle },?_,fun e => ?_⟩
  · rw [code,hphase]
    change s.endCalling now = _
    rw [endCalling,reset]
    change ((s.expired.foldlM (resetOne now) { s with callingExpiredTimers := false } >>= _) >>= _) = _
    rw [hx,bind_ok,armNext_spec hcr]
    rfl
  · change e ∈ v.armedForFront.timers ↔ _
    rw [htimers]
    refine (hcr.timers_iff e.1 e.2).trans ?_
    rw [← exists_and_left]
    refine exists_congr fun u => ?_
    have hwait := h.waiting e.2 u
    have hbatch : e.2 ∈ s.expired.map Prod.snd → e.2 ∉ s.adds :=
      fun hb ha => List.disjoint_of_nodup_append hnodup hb ha
    have hg := hget e.2 u
    rw [← h.expired]
    constructor
    · rintro ⟨hp,hu,hexp⟩
      refine ⟨hexp,?_⟩
      rcases hg.mp hu with ⟨hout,hs⟩ | hs
      · refine .inl (hwait.mp ⟨(h.consistent.pointers_iff hs).mpr ?_,hs⟩)
        rw [List.mem_append,not_or]
        exact ⟨hout,(hcr.pointers_iff hu).mp hp⟩
      · exact .inr hs
    · rintro ⟨hexp,hw | hs⟩
      · obtain ⟨hp,hs⟩ := hwait.mpr hw
        have hout := (h.consistent.pointers_iff hs).mp hp
        rw [List.mem_append,not_or] at hout
        have hu := hg.mpr (.inl ⟨hout.1,hs⟩)
        exact ⟨(hcr.pointers_iff hu).mpr hout.2,hu,hexp⟩
      · have hu := hg.mpr (.inr hs)
        exact ⟨(hcr.pointers_iff hu).mpr (hbatch hs.1),hu,hexp⟩

/-- What is in `timers_` when the call returns: the timers not due on entry and not
cancelled, those that callbacks added and nobody cancelled later, and the due timers that
repeat and were not cancelled during the call, set from the time read on entry. -/
def LeftInSets (q s₀ : TimerQueue) (pollReturnTime : Int) (steps : List TimerStep) (e : Entry) : Prop :=
  (e ∈ q.timers ∧ pollReturnTime < e.1 ∧ ∃ t, q.get e.2 = some t ∧ ¬ CancelledIn q.loopThread steps e.2 t) ∨
  (∃ before a after t, steps = before ++ a :: after ∧ s₀.AddedBy before a e.2 t ∧ e.1 = t.expiration ∧
    ¬ CancelledIn q.loopThread after e.2 t) ∨
  ∃ x t, ((x,e.2) : Entry) ∈ q.timers ∧ x ≤ pollReturnTime ∧ q.get e.2 = some t ∧ t.repeat_ = true ∧
    ¬ CancelledIn q.loopThread steps e.2 t ∧ e.1 = q.clock + t.interval

/-- One call of `handleRead` on a consistent queue, whatever the time at which `poll`
returned and whatever happens while callbacks run: no step fails, the callbacks run are
those of the timers due on entry, each once and in the order of `timers_`, and when all
have run the call returns with exactly the timers of `LeftInSets`. -/
theorem handleRead_call (h : q.Consistent q.adds) (pollReturnTime : Int) :
    ∃ s₀, q.handleRead pollReturnTime = .ok s₀ ∧ ∀ steps, (∀ a ∈ steps, a.DuringCall) →
      machine.Admissible s₀ steps → ∃ s, machine.exec s₀ steps = .ok s ∧
        (q.dueOnEntry pollReturnTime).Pairwise (fun a b => entryKey a < entryKey b) ∧
        (∃ later, s.phase = .calling q.clock later ∧
          q.dueOnEntry pollReturnTime = s₀.callbacksRun steps ++ later) ∧
        (s.phase.isDone = true → s₀.callbacksRun steps = q.dueOnEntry pollReturnTime ∧
          ∃ r, s.code .endCalling = .ok r ∧ ∀ e, e ∈ r.timers ↔ q.LeftInSets s₀ pollReturnTime steps e) := by
  obtain ⟨s₀,hs₀,hstart,hexpired,hloop,hget,htimers⟩ := handleRead_start h pollReturnTime
  refine ⟨s₀,hs₀,fun steps hsteps ha => ?_⟩
  obtain ⟨s,hs,hduring⟩ := hstart.run steps hsteps ha
  obtain ⟨later,hphase,hran⟩ := hduring.phase
  rw [hexpired] at hran
  refine ⟨s,hs,q.timers.sorted.filter _,⟨later,hphase,hran⟩,fun hdone => ⟨?_,?_⟩⟩
  · cases later with
    | nil => rw [hran,List.append_nil]
    | cons e later =>
      rw [hphase] at hdone
      cases hdone
  obtain ⟨r,hr,hleft⟩ := hduring.finish hdone
  refine ⟨r,hr,fun e => (hleft e).trans ?_⟩
  have hstarting (p : TimerPtr) (t : Timer) : (p ∈ s₀.pointers ∧ s₀.get p = some t) ↔
      ((t.expiration,p) : Entry) ∈ q.timers ∧ pollReturnTime < t.expiration ∧ q.get p = some t := by
    rw [hget]
    constructor
    · rintro ⟨hp,ht⟩
      have he := (hstart.consistent.timers_iff t.expiration p).mpr ⟨hp,t,(hget p).trans ht,rfl⟩
      exact ⟨((htimers _).mp he).1,((htimers _).mp he).2,ht⟩
    · rintro ⟨hin,hlt,ht⟩
      have he := (htimers (t.expiration,p)).mpr ⟨hin,hlt⟩
      exact ⟨((hstart.consistent.timers_iff _ p).mp he).1,ht⟩
  have hdue (x : Int) (p : TimerPtr) : ((x,p) : Entry) ∈ s₀.expired ↔ ((x,p) : Entry) ∈ q.timers ∧ x ≤ pollReturnTime := by
    rw [hexpired,dueOnEntry,List.mem_filter,decide_eq_true_iff]
    exact Iff.rfl
  constructor
  · rintro ⟨u,hexp,(⟨hp,hu,hc⟩ | ⟨before,a,after,hsplit,hadd,hc⟩) | ⟨hbatch,t,ht,hrep,hmark,rfl⟩⟩
    · obtain ⟨hin,hlt,hu⟩ := (hstarting _ _).mp ⟨hp,hu⟩
      rw [hexp] at hin hlt
      exact .inl ⟨hin,hlt,u,hu,hloop ▸ hc⟩
    · exact .inr (.inl ⟨before,a,after,u,hsplit,hadd,hexp.symm,hloop ▸ hc⟩)
    · obtain ⟨⟨x,p⟩,he,hp⟩ := List.mem_map.mp hbatch
      change p = e.2 at hp
      subst hp
      obtain ⟨hin,hle⟩ := (hdue x e.2).mp he
      obtain ⟨t',ht',-⟩ := h.entry _ hin
      have hlive := hduring.batch e.2 hbatch t' ((hget e.2).trans ht')
      rw [ht] at hlive
      cases hlive
      refine .inr (.inr ⟨x,t,hin,hle,ht',hrep,?_,hexp.symm⟩)
      rw [← hloop]
      exact fun hc => hmark ((hduring.canceling e.2 hbatch t ((hget e.2).trans ht')).mpr hc)
  · rintro (⟨hin,hlt,t,ht,hc⟩ | ⟨before,a,after,t,hsplit,hadd,hexp,hc⟩ | ⟨x,t,hin,hle,ht,hrep,hc,hexp⟩)
    · obtain ⟨t',ht',hexp⟩ := h.entry e hin
      rw [ht] at ht'
      cases ht'
      rw [← hexp] at hlt
      obtain ⟨hp,hs⟩ := (hstarting e.2 t).mpr ⟨by rw [hexp]; exact hin,hlt,ht⟩
      exact ⟨t,hexp,.inl (.inl ⟨hp,hs,hloop ▸ hc⟩)⟩
    · exact ⟨t,hexp.symm,.inl (.inr ⟨before,a,after,hsplit,hadd,hloop ▸ hc⟩)⟩
    · have hbatch : e.2 ∈ s₀.expired.map Prod.snd :=
        List.mem_map.mpr ⟨(x,e.2),(hdue x e.2).mpr ⟨hin,hle⟩,rfl⟩
      have hs₀ := (hget e.2).trans ht
      refine ⟨{ t with expiration := q.clock + t.interval },hexp.symm,.inr ⟨hbatch,t,?_,hrep,?_,rfl⟩⟩
      · exact hduring.batch e.2 hbatch t hs₀
      · rw [hduring.canceling e.2 hbatch t hs₀,hloop]
        exact hc

private def beforeCall : List TimerStep :=
  [.addTimer 0 4096 150 10 true 1,.addTimer 0 4200 150 20 true 2,.addTimer 0 4304 400 0 false 3,.tick 200]

private def duringCall : List TimerStep :=
  [.runCallback,.cancel 0 ⟨4304,3⟩,.addTimer 0 4408 (-5) 0 false 4,.runCallback,.cancel 0 ⟨4200,2⟩,.tick 1]

/-- Two due timers that repeat, of which the second cancels itself, and a waiting timer that
the first cancels before it adds another. -/
theorem handleRead_call_batch :
    ∃ q s₀ s r, machine.exec (new 0 100) beforeCall = .ok q ∧ q.handleRead 150 = .ok s₀ ∧
      machine.exec s₀ duringCall = .ok s ∧ s.code .endCalling = .ok r ∧
      s₀.callbacksRun duringCall = q.dueOnEntry 150 ∧ ∀ e, e ∈ r.timers ↔ q.LeftInSets s₀ 150 duringCall e := by
  obtain ⟨q,hq,hidle⟩ : ∃ q, machine.exec (new 0 100) beforeCall = .ok q ∧ q.phase = .idle :=
    Meets.ok_of_no_error (Q := fun _ => False) (by decide +kernel) (fun _ => id)
  have hall : machine.Admissible (new 0 100) (beforeCall ++ .handleRead 150 :: duringCall) := by decide +kernel
  obtain ⟨hbefore,hcall⟩ := machine.admissible_append hall hq
  have hsound := (meets_iff.mp (exec_sound 0 100 beforeCall hbefore)).1 q hq
  have hconsistent := hsound.consistent
  rw [batch,hidle] at hconsistent
  obtain ⟨s₀,hs₀,hrun⟩ := handleRead_call hconsistent 150
  have hduring : ∀ a ∈ duringCall, a.DuringCall := by
    intro a ha
    simp only [duringCall,List.mem_cons,List.not_mem_nil,or_false] at ha
    rcases ha with rfl | rfl | rfl | rfl | rfl | rfl <;> trivial
  have hadm : machine.Admissible s₀ duringCall := machine.admissible_step hcall hs₀
  obtain ⟨s,hs,-,-,hend⟩ := hrun duringCall hduring hadm
  obtain ⟨s',hs',hdone⟩ : ∃ s', machine.exec (new 0 100) (beforeCall ++ .handleRead 150 :: duringCall) = .ok s' ∧
      s'.phase.isDone = true := Meets.ok_of_no_error (Q := fun _ => False) (by decide +kernel) (fun _ => id)
  have hsame : machine.exec (new 0 100) (beforeCall ++ .handleRead 150 :: duringCall) = .ok s := by
    rw [machine.exec_append_ok hq]
    change (q.handleRead 150 >>= _) = _
    rw [hs₀]
    exact hs
  rw [hsame] at hs'
  cases hs'
  obtain ⟨hran,r,hr,hleft⟩ := hend hdone
  exact ⟨q,s₀,s,r,hq,hs₀,hs,hr,hran,hleft⟩

end TimerQueue
end LearningMuduo.Timers
