import LearningMuduo.Timers.HandleRead

/-! When the callbacks of a timer start over a whole run: never before they are due, once for a
timer that does not repeat, and at least an interval apart for one that does. -/
namespace LearningMuduo.Timers
open Library

/-- A callback that starts: the block of its timer, the time at which it was due and the clock
as the running `handleRead` read it. -/
structure Start where
  block : Nat
  due : Int
  now : Int
  deriving DecidableEq, Repr

/-- The starts of the timer t when the first is due at the given time. The next one is due an
interval after the clock that `handleRead` read, and there is one only if the timer repeats. -/
def Scheduled (t : Timer) (due : Int) : List Start → Prop
  | [] => True
  | s :: ss => s.due = due ∧ due ≤ s.now ∧ (ss ≠ [] → t.repeat_ = true) ∧ Scheduled t (s.now+t.interval) ss

/-- When the next start is due after these. -/
def dueAfter (t : Timer) (due : Int) : List Start → Int
  | [] => due
  | s :: ss => dueAfter t (s.now+t.interval) ss

/-- The timers that the calls of `addTimer` in a run create, in the order of their blocks. -/
def created (as : List TimerStep) : List Timer :=
  as.filterMap fun
    | .addTimer _ _ when interval repeat_ sequence => some ⟨when,interval,repeat_,sequence⟩
    | _ => none

def startsOf (block : Nat) (log : List Start) : List Start := log.filter (·.block = block)

variable {t : Timer} {due : Int} {s : Start} {ss log : List Start}

/-- One start more on schedule. -/
theorem Scheduled.concat (h : Scheduled t due ss) (hdue : s.due = dueAfter t due ss) (hnow : s.due ≤ s.now)
    (hr : ss ≠ [] → t.repeat_ = true) : Scheduled t due (ss ++ [s]) := by
  induction ss generalizing due with
  | nil => exact ⟨hdue,hdue.symm.le.trans hnow,fun hne => (hne rfl).elim,trivial⟩
  | cons s' ss ih =>
    obtain ⟨hd,hn,-,hrest⟩ := h
    have hrep := hr (List.cons_ne_nil s' ss)
    exact ⟨hd,hn,fun _ => hrep,ih hrest hdue fun _ => hrep⟩

private theorem dueAfter_concat : dueAfter t due (ss ++ [s]) = s.now+t.interval := by
  induction ss generalizing due with
  | nil => rfl
  | cons s' ss ih => exact ih

private theorem startsOf_concat_self : startsOf s.block (log ++ [s]) = startsOf s.block log ++ [s] := by
  simp [startsOf]

private theorem startsOf_concat_other {block : Nat} (h : s.block ≠ block) : startsOf block (log ++ [s]) = startsOf block log := by
  simp [startsOf,h]

private theorem startsOf_unknown {block : Nat} (h : ∀ s ∈ log, s.block < block) : startsOf block log = [] :=
  List.filter_eq_nil_iff.mpr fun s hs => by simpa using (h s hs).ne

namespace TimerQueue
variable {q r : TimerQueue} {p : TimerPtr} {u : Timer} {timers : List Timer}

/-- The callback that the step starts. -/
def startOf (q : TimerQueue) : TimerStep → List Start
  | .runCallback => match q.phase with
    | .calling now (e :: _) => [⟨e.2.block,e.1,now⟩]
    | _ => []
  | _ => []

/-- The callbacks that start in a run, in order. -/
def starts (q : TimerQueue) (as : List TimerStep) : List Start := machine.observe startOf q as

/-- The timer is of the running batch and its callback has started. -/
def Started (q : TimerQueue) (p : TimerPtr) : Prop :=
  ∃ now rest, q.phase = .calling now rest ∧ p ∈ q.expired.map Prod.snd ∧ p ∉ rest.map Prod.snd

/-- The timer is the one that was created in its block, and its next start is due then. -/
def DueAt (timers : List Timer) (log : List Start) (p : TimerPtr) (u : Timer) (due : Int) : Prop :=
  ∃ t, timers[p.block]? = some t ∧ u.interval = t.interval ∧ u.repeat_ = t.repeat_ ∧
    dueAfter t t.expiration (startsOf p.block log) = due

/-- What a run keeps of the timers created and the callbacks started. -/
structure Timed (timers : List Timer) (log : List Start) (q : TimerQueue) : Prop where
  sound : q.Sound
  allocated : q.allocated = timers.length
  known : ∀ s ∈ log, s.block < timers.length
  scheduled : ∀ block t, timers[block]? = some t → Scheduled t t.expiration (startsOf block log)
  waiting : ∀ p u, q.get p = some u → ¬ q.Started p →
    DueAt timers log p u u.expiration ∧ (startsOf p.block log ≠ [] → u.repeat_ = true)
  started : ∀ p u now rest, q.get p = some u → q.phase = .calling now rest → p ∈ q.expired.map Prod.snd →
    p ∉ rest.map Prod.snd → DueAt timers log p u (now+u.interval)
  batch : ∀ now rest, q.phase = .calling now rest → (rest.map Prod.snd).Nodup ∧
    ∀ e ∈ rest, e.1 ≤ now ∧ ∃ u, q.get e.2 = some u ∧ u.expiration = e.1

/-- Nothing becomes of the timers but that some are deleted. -/
structure Shrinks (q r : TimerQueue) : Prop where
  get : ∀ p u, r.get p = some u → q.get p = some u
  phase : r.phase = q.phase
  expired : r.expired = q.expired
  allocated : r.allocated = q.allocated

private theorem Shrinks.of_heap (hh : r.heap = q.heap) (hp : r.phase = q.phase) (he : r.expired = q.expired)
    (ha : r.allocated = q.allocated) : q.Shrinks r :=
  ⟨fun _ _ hu => (get_of_heap hh) ▸ hu,hp,he,ha⟩

private theorem Sound.next_live (h : q.Sound) {now : Int} {rest : List Entry} (hp : q.phase = .calling now rest) {e : Entry}
    (he : e ∈ rest) : ∃ u, q.get e.2 = some u := by
  refine (h.setsConsistent.batch_live e ?_).2
  rw [TimerQueue.batch,hp]
  exact h.calling now rest hp e he

private theorem Timed.shrinks (h : q.Timed timers log) (hs : r.Sound) (hr : q.Shrinks r) : r.Timed timers log := by
  have hstarted (p : TimerPtr) : r.Started p ↔ q.Started p := by
    unfold Started
    rw [hr.phase,hr.expired]
  refine ⟨hs,hr.allocated.trans h.allocated,h.known,h.scheduled,?_,?_,?_⟩
  · intro p u hu hnot
    exact h.waiting p u (hr.get p u hu) (mt (hstarted p).mpr hnot)
  · intro p u now rest hu hp he hout
    exact h.started p u now rest (hr.get p u hu) (hr.phase ▸ hp) (hr.expired ▸ he) hout
  · intro now rest hp
    obtain ⟨hnodup,hall⟩ := h.batch now rest (hr.phase ▸ hp)
    refine ⟨hnodup,fun e he => ?_⟩
    obtain ⟨hle,u,hu,hexp⟩ := hall e he
    obtain ⟨v,hv⟩ := hs.next_live hp he
    have hsame := hr.get e.2 v hv
    rw [hu] at hsame
    cases hsame
    exact ⟨hle,u,hv,hexp⟩

private theorem DueAt.concat {due : Int} (h : DueAt timers log p u due) (t : Timer) : DueAt (timers ++ [t]) log p u due := by
  obtain ⟨v,hv,hrest⟩ := h
  refine ⟨v,?_,hrest⟩
  rw [List.getElem?_append_left (List.getElem?_eq_some_iff.mp hv).1]
  exact hv

private theorem Timed.creates (h : q.Timed timers log) (hs : r.Sound) {addr : Nat} {t : Timer}
    (hget : ∀ p u, r.get p = some u → p = q.nextTimer addr ∧ u = t ∨ q.get p = some u) (hp : r.phase = q.phase)
    (he : r.expired = q.expired) (ha : r.allocated = q.allocated+1) : r.Timed (timers ++ [t]) log := by
  have hfresh (u : Timer) : q.get (q.nextTimer addr) ≠ some u :=
    fun hu => Nat.lt_irrefl _ (h.sound.consistent.sound.block_lt _ u hu)
  have hnone : startsOf timers.length log = [] := startsOf_unknown h.known
  have hold {p : TimerPtr} {u v : Timer} (hu : r.get p = some u) (hv : q.get p = some v) : q.get p = some u := by
    rcases hget p u hu with ⟨rfl,-⟩ | hu
    · exact (hfresh v hv).elim
    · exact hu
  refine ⟨hs,?_,?_,?_,?_,?_,?_⟩
  · rw [ha,h.allocated,List.length_append]
    rfl
  · intro s hs
    rw [List.length_append]
    exact (h.known s hs).trans_le (Nat.le_add_right _ _)
  · intro block v hv
    by_cases hlt : block < timers.length
    · rw [List.getElem?_append_left hlt] at hv
      exact h.scheduled block v hv
    · have hblock : block = timers.length := by
        have hin := (List.getElem?_eq_some_iff.mp hv).1
        rw [List.length_append,List.length_singleton] at hin
        omega
      rw [hblock,hnone]
      trivial
  · intro p u hu hnot
    rcases hget p u hu with ⟨rfl,rfl⟩ | hu
    · have hblock : (q.nextTimer addr).block = timers.length := h.allocated
      rw [hblock,hnone]
      refine ⟨⟨u,?_,rfl,rfl,?_⟩,fun hne => (hne rfl).elim⟩
      · rw [hblock,List.getElem?_append_right le_rfl,Nat.sub_self]
        rfl
      · rw [hblock,hnone]
        rfl
    · have hnot' : ¬ q.Started p := by
        unfold Started
        rw [← hp,← he]
        exact hnot
      obtain ⟨hdue,hrep⟩ := h.waiting p u hu hnot'
      exact ⟨hdue.concat t,hrep⟩
  · intro p u now rest hu hphase hin hout
    have hin' : p ∈ q.expired.map Prod.snd := he ▸ hin
    obtain ⟨e,hmem,rfl⟩ := List.mem_map.mp hin'
    have hbatch : e ∈ q.batch := by
      rw [TimerQueue.batch,← hp,hphase]
      exact hmem
    obtain ⟨-,v,hv⟩ := h.sound.setsConsistent.batch_live e hbatch
    exact (h.started e.2 u now rest (hold hu hv) (hp ▸ hphase) hin' hout).concat t
  · intro now rest hphase
    obtain ⟨hnodup,hall⟩ := h.batch now rest (hp ▸ hphase)
    refine ⟨hnodup,fun e hmem => ?_⟩
    obtain ⟨hle,v,hv,hexp⟩ := hall e hmem
    obtain ⟨u,hu⟩ := hs.next_live hphase hmem
    have hsame := hold hu hv
    rw [hv] at hsame
    cases hsame
    exact ⟨hle,v,hu,hexp⟩

/-- `handleRead` takes the due timers out of the sets; none of them has started. -/
theorem Timed.handleRead (h : q.Timed timers log) (hs : r.Sound) (hidle : q.phase = .idle) {pollReturnTime : Int}
    (hle : pollReturnTime ≤ q.clock) (hr : q.handleRead pollReturnTime = .ok r) : r.Timed timers log := by
  have hread : ∃ fd, q.readTimerfd = { q with timerfd := fd } := by
    unfold readTimerfd
    split
    · exact ⟨_,rfl⟩
    · exact ⟨q.timerfd,rfl⟩
  obtain ⟨fd,hread⟩ := hread
  have hc : q.Consistent q.adds := by
    have hc := h.sound.consistent
    rwa [TimerQueue.batch,hidle] at hc
  obtain ⟨v,hv,⟨active,hfields⟩,-,-⟩ := getExpired_spec
    (hc.of_eq (r := { q with timerfd := fd }) rfl rfl rfl rfl rfl) pollReturnTime
  rw [TimerQueue.handleRead,hread,hv] at hr
  have hdue := below_eq_due hc pollReturnTime
  have hget (p : TimerPtr) (u : Timer) : r.get p = some u ↔ q.get p = some u := by
    cases hr
    rw [hfields]
    exact Iff.rfl
  have hall : r.expired = q.dueOnEntry pollReturnTime := by
    cases hr
    rw [hfields]
    exact hdue
  have hphase : r.phase = .calling q.clock r.expired := by
    cases hr
    rfl
  have hallocated : r.allocated = q.allocated := by
    cases hr
    rw [hfields]
  have hnone (p : TimerPtr) : ¬ q.Started p := by
    rintro ⟨now,rest,hp,-⟩
    rw [hidle] at hp
    cases hp
  refine ⟨hs,hallocated.trans h.allocated,h.known,h.scheduled,?_,?_,?_⟩
  · exact fun p u hu _ => h.waiting p u ((hget p u).mp hu) (hnone p)
  · intro p u now rest _ hp hin hout
    rw [hphase] at hp
    cases hp
    exact (hout hin).elim
  · intro now rest hp
    have hconsistent := hs.consistent
    rw [TimerQueue.batch,hphase] at hconsistent
    rw [hphase] at hp
    cases hp
    refine ⟨(List.nodup_append.mp (List.nodup_append.mp hconsistent.nodup).2.1).1,fun e he => ?_⟩
    rw [hall] at he
    obtain ⟨hin,hearly⟩ := List.mem_filter.mp he
    obtain ⟨u,hu,hexp⟩ := hc.entry e hin
    exact ⟨(of_decide_eq_true hearly).trans hle,u,(hget e.2 u).mpr hu,hexp⟩

private theorem DueAt.other {due : Int} (h : DueAt timers log p u due) (hne : s.block ≠ p.block) :
    DueAt timers (log ++ [s]) p u due := by
  obtain ⟨t,ht,hi,hr,hdue⟩ := h
  exact ⟨t,ht,hi,hr,by rw [startsOf_concat_other hne]; exact hdue⟩

/-- The next callback of the batch starts. -/
theorem Timed.run (h : q.Timed timers log) (hs : r.Sound) {now : Int} {e : Entry} {rest : List Entry}
    (hp : q.phase = .calling now (e :: rest)) (hr : r = { q with phase := .calling now rest }) :
    r.Timed timers (log ++ [⟨e.2.block,e.1,now⟩]) := by
  obtain ⟨hnodup,hall⟩ := h.batch now _ hp
  obtain ⟨hout,hnodup⟩ := List.nodup_cons.mp hnodup
  obtain ⟨hle,u,hu,hexp⟩ := hall e List.mem_cons_self
  have hbatch : e.2 ∈ q.expired.map Prod.snd := List.mem_map_of_mem (h.sound.calling now _ hp e List.mem_cons_self)
  have hnot : ¬ q.Started e.2 := by
    rintro ⟨now',rest',hp',-,hnotin⟩
    rw [hp] at hp'
    cases hp'
    exact hnotin List.mem_cons_self
  obtain ⟨⟨t,ht,hi,hrep,hdue⟩,hagain⟩ := h.waiting e.2 u hu hnot
  -- a live timer in the same block is the timer itself
  have hblock {p : TimerPtr} {v : Timer} (hv : q.get p = some v) (hne : p ≠ e.2) : e.2.block ≠ p.block :=
    fun hb => hne (h.sound.consistent.sound.block_inj p e.2 v u hv hu hb.symm)
  subst hr
  refine ⟨hs,h.allocated,?_,?_,?_,?_,?_⟩
  · intro s hs
    rcases List.mem_append.mp hs with hs | hs
    · exact h.known s hs
    · cases List.mem_singleton.mp hs
      exact (List.getElem?_eq_some_iff.mp ht).1
  · intro block v hv
    by_cases hb : e.2.block = block
    · subst hb
      rw [ht] at hv
      cases hv
      have hlog := @startsOf_concat_self ⟨e.2.block,e.1,now⟩ log
      dsimp only at hlog
      rw [hlog]
      exact (h.scheduled _ t ht).concat (hexp.symm.trans hdue.symm) hle fun hne => hrep ▸ hagain hne
    · rw [startsOf_concat_other hb]
      exact h.scheduled block v hv
  · intro p v hv hnot'
    have hne : p ≠ e.2 := by
      rintro rfl
      exact hnot' ⟨now,rest,rfl,hbatch,hout⟩
    have hstill : ¬ q.Started p := by
      rintro ⟨now',rest',hp',hin,hnotin⟩
      rw [hp] at hp'
      cases hp'
      exact hnot' ⟨now,rest,rfl,hin,fun hm => hnotin (List.mem_cons_of_mem _ hm)⟩
    obtain ⟨hd,hr⟩ := h.waiting p v hv hstill
    refine ⟨hd.other (hblock hv hne),?_⟩
    rw [startsOf_concat_other (hblock hv hne)]
    exact hr
  · intro p v now' rest' hv hp' hin hnotin
    cases hp'
    by_cases hpe : p = e.2
    · subst hpe
      have hsame : v = u := Option.some.inj (hv.symm.trans hu)
      subst hsame
      refine ⟨t,ht,hi,hrep,?_⟩
      have hlog := @startsOf_concat_self ⟨e.2.block,e.1,now⟩ log
      dsimp only at hlog
      rw [hlog,dueAfter_concat,hi]
    · have hd := h.started p v now _ hv hp hin
        fun hm => (List.mem_cons.mp hm).elim hpe hnotin
      exact hd.other (hblock hv hpe)
  · rintro now' rest' hp'
    cases hp'
    exact ⟨hnodup,fun x hx => hall x (List.mem_cons_of_mem e hx)⟩

/-- `reset` sets the timers that go on from the clock that `handleRead` read. -/
theorem Timed.endCalling (h : q.Timed timers log) (hs : r.Sound) {now : Int} (hp : q.phase = .calling now [])
    (hr : q.endCalling now = .ok r) : r.Timed timers log := by
  obtain ⟨v,hv,hr⟩ := bind_eq_ok hr
  obtain ⟨w,hw,hv⟩ := bind_eq_ok hv
  cases hr
  have hc : ({ q with callingExpiredTimers := false } : TimerQueue).Consistent (q.expired.map Prod.snd ++ q.adds) := by
    have hc := h.sound.consistent
    rw [TimerQueue.batch,hp] at hc
    exact hc.of_eq rfl rfl rfl rfl rfl
  have hbatch := (List.nodup_append.mp (List.nodup_append.mp hc.nodup).2.1).1
  have hget := reset_get q.expired hbatch (fun p hm => hc.live_rest (List.mem_append_left _ hm)) hw
  obtain ⟨heap,tm,active,deleted,hx,-,-⟩ := reset_fold now q.expired _ hc
  have hframe : v.heap = w.heap ∧ v.allocated = q.allocated := by
    have hwq : w.allocated = q.allocated := by
      have hsame := hx.symm.trans hw
      cases hsame
      rfl
    rcases armNext_inv hv with rfl | ⟨expiration,rfl⟩
    · exact ⟨rfl,hwq⟩
    · exact ⟨rfl,hwq⟩
  have hsame (p : TimerPtr) : ({ v with phase := .idle } : TimerQueue).get p = w.get p := get_of_heap hframe.1
  refine ⟨hs,hframe.2.trans h.allocated,h.known,h.scheduled,?_,?_,?_⟩
  · intro p u hu _
    rw [hsame] at hu
    rcases (hget p u).mp hu with ⟨hout,hu⟩ | ⟨hin,t,ht,hrep,-,rfl⟩
    · refine h.waiting p u hu ?_
      rintro ⟨-,-,-,hin,-⟩
      exact hout hin
    · obtain ⟨c,hcreated,hi,hrep',hdue⟩ := h.started p t now [] ht hp hin List.not_mem_nil
      exact ⟨⟨c,hcreated,hi,hrep',hdue⟩,fun _ => hrep⟩
  · intro p u now' rest' _ hp'
    cases hp'
  · intro now' rest' hp'
    cases hp'

private theorem addTimerInLoop_shrinks (h : q.addTimerInLoop p = .ok r) : q.Shrinks r := by
  obtain ⟨⟨v,b⟩,hv,h⟩ := bind_eq_ok h
  obtain ⟨tm,active,rfl⟩ := insert_inv hv
  dsimp only at h
  split at h
  · obtain ⟨t,-,h⟩ := bind_eq_ok h
    rw [resetTimerfd_eq] at h
    cases h
    exact .of_heap rfl rfl rfl rfl
  · cases h
    exact .of_heap rfl rfl rfl rfl

private theorem cancelInLoop_shrinks {timerId : TimerId} (h : q.cancelInLoop timerId = .ok r) : q.Shrinks r := by
  rcases cancelInLoop_inv h with ⟨it,tm,active,-,⟨u,hu⟩,rfl⟩ | ⟨-,rfl⟩
  · exact ⟨fun p v hv => ((get_erased hu p v).mp ((get_of_heap (q := q.erased it.1) rfl).symm.trans hv)).2,rfl,rfl,rfl⟩
  · exact .of_heap rfl rfl rfl rfl

private theorem addTimer_creates {n addr : Nat} {t : Timer} (hfree : q.heap addr = none) (hr : q.addTimer n addr t = .ok r) :
    (∀ p u, r.get p = some u → p = q.nextTimer addr ∧ u = t ∨ q.get p = some u) ∧ r.phase = q.phase ∧
      r.expired = q.expired ∧ r.allocated = q.allocated+1 := by
  have hnew (p : TimerPtr) (u : Timer) (hu : (q.newTimer addr t).get p = some u) := (get_newTimer hfree p u).mp hu
  unfold addTimer at hr
  dsimp only at hr
  split at hr
  · obtain ⟨v,hv,hr⟩ := bind_eq_ok hr
    obtain ⟨-,-,hr⟩ := bind_eq_ok hr
    cases hr
    have hs := addTimerInLoop_shrinks hv
    exact ⟨fun p u hu => hnew p u (hs.get p u hu),hs.phase,hs.expired,hs.allocated⟩
  · cases hr
    exact ⟨hnew,rfl,rfl,rfl⟩

private theorem Timed.quiet {a : TimerStep} (h : q.Timed timers log) (hs : r.Sound) (hr : q.Shrinks r)
    (hc : created [a] = []) (hstart : q.startOf a = []) : r.Timed (timers ++ created [a]) (log ++ q.startOf a) := by
  rw [hc,hstart,List.append_nil,List.append_nil]
  exact h.shrinks hs hr

private theorem Timed.code {a : TimerStep} (h : q.Timed timers log) (he : q.Enabled a) (hr : q.code a = .ok r) :
    r.Timed (timers ++ created [a]) (log ++ q.startOf a) := by
  have hs : r.Sound := by
    rcases code_sound h.sound he with ⟨r',hr',hs⟩ | ⟨hr',-⟩
    · rw [hr] at hr'
      cases hr'
      exact hs
    · rw [hr] at hr'
      cases hr'
  cases a with
  | addTimer n addr when interval repeat_ sequence =>
    obtain ⟨hget,hp,hexp,ha⟩ := addTimer_creates he.2.1 hr
    change r.Timed (timers ++ [⟨when,interval,repeat_,sequence⟩]) (log ++ [])
    rw [List.append_nil]
    exact h.creates hs hget hp hexp ha
  | returnId n =>
    refine h.quiet hs ?_ rfl rfl
    change q.returnId n = .ok r at hr
    unfold returnId at hr
    split at hr
    · cases hr
      exact .of_heap rfl rfl rfl rfl
    · obtain ⟨-,-,hr⟩ := bind_eq_ok hr
      cases hr
      exact .of_heap rfl rfl rfl rfl
  | cancel n timerId =>
    refine h.quiet hs ?_ rfl rfl
    change q.cancel n timerId = .ok r at hr
    unfold cancel at hr
    split at hr
    · exact cancelInLoop_shrinks hr
    · cases hr
      exact .of_heap rfl rfl rfl rfl
  | runFunctor =>
    refine h.quiet hs ?_ rfl rfl
    rw [TimerQueue.code] at hr
    split at hr
    · cases hr
      exact .of_heap rfl rfl rfl rfl
    · next f rest hq =>
      have hbase : Shrinks { q with pendingFunctors := rest } r := by
        cases f with
        | addTimerInLoop timer => exact addTimerInLoop_shrinks hr
        | cancelInLoop timerId => exact cancelInLoop_shrinks hr
      exact ⟨hbase.get,hbase.phase,hbase.expired,hbase.allocated⟩
  | handleRead pollReturnTime =>
    obtain ⟨hidle,-,hle⟩ := he
    change r.Timed (timers ++ []) (log ++ [])
    rw [List.append_nil,List.append_nil]
    exact h.handleRead hs hidle hle hr
  | runCallback =>
    change r.Timed (timers ++ []) _
    rw [List.append_nil]
    rw [TimerQueue.code] at hr
    split at hr
    · next now e rest hp =>
      obtain ⟨-,-,hr⟩ := bind_eq_ok hr
      cases hr
      rw [show q.startOf .runCallback = [⟨e.2.block,e.1,now⟩] by rw [startOf,hp]]
      exact h.run hs hp rfl
    · next hno =>
      change q.phase.hasNext = true at he
      unfold TimerPhase.hasNext at he
      split at he
      · next hp => exact (hno _ _ _ hp).elim
      · cases he
  | endCalling =>
    change r.Timed (timers ++ []) (log ++ [])
    rw [List.append_nil,List.append_nil]
    rw [TimerQueue.code] at hr
    split at hr
    · next now hp => exact h.endCalling hs hp hr
    · cases hr
      exact h
  | tick d =>
    refine h.quiet hs ?_ rfl rfl
    cases hr
    exact .of_heap rfl rfl rfl rfl

private theorem new_timed (loopThread : Nat) (clock : Int) : (new loopThread clock).Timed [] [] := by
  have hget (p : TimerPtr) (u : Timer) : (new loopThread clock).get p ≠ some u := fun hu => nomatch get_eq_some.mp hu
  refine ⟨new_sound loopThread clock,rfl,fun s hs => (List.not_mem_nil hs).elim,?_,fun p u hu => (hget p u hu).elim,
    fun p u _ _ hu => (hget p u hu).elim,?_⟩
  · intro block t ht
    cases ht
  · intro now rest hp
    cases hp

/-- In every run, with timers added and cancelled from any thread and from callbacks: each
callback that starts belongs to a timer that was created, and the starts of each timer are on
its schedule. -/
theorem callbacks_start_on_schedule (loopThread : Nat) (clock : Int) (as : List TimerStep)
    (ha : machine.Admissible (new loopThread clock) as) (q : TimerQueue)
    (hq : machine.exec (new loopThread clock) as = .ok q) :
    (∀ s ∈ (new loopThread clock).starts as, ∃ t, (created as)[s.block]? = some t) ∧
    ∀ block t, (created as)[block]? = some t →
      Scheduled t t.expiration (startsOf block ((new loopThread clock).starts as)) := by
  have htimed : machine.exec (new loopThread clock) as = .ok q ∧
      q.Timed (created as) ((new loopThread clock).starts as) := by
    refine machine.exec_ok_history (I := fun before r => machine.exec (new loopThread clock) before = .ok r ∧
      r.Timed (created before) ((new loopThread clock).starts before)) ⟨rfl,new_timed loopThread clock⟩ ?_ ha hq
    rintro before r r' a ⟨hr,h⟩ he hstep
    refine ⟨machine.exec_concat hr hstep,?_⟩
    have hlog : (new loopThread clock).starts (before ++ [a]) = (new loopThread clock).starts before ++ r.startOf a :=
      machine.observe_concat startOf hr a
    rw [hlog,created,List.filterMap_append]
    exact h.code he hstep
  obtain ⟨-,h⟩ := htimed
  exact ⟨fun s hs => ⟨_,List.getElem?_eq_getElem (h.known s hs)⟩,h.scheduled⟩

private def twoBatches : List TimerStep :=
  [.addTimer 0 4096 150 10 true 1,.addTimer 0 4200 160 0 false 2,.tick 100,.handleRead 155,.tick 5,.runCallback,
    .endCalling,.tick 7,.handleRead 212,.runCallback,.cancel 0 ⟨4096,1⟩,.runCallback,.endCalling]

/-- A repeating timer that starts twice, the second time at its new due time, and one that does
not repeat. -/
theorem callbacks_start_on_schedule_twice :
    machine.Admissible (new 0 100) twoBatches ∧
    (new 0 100).starts twoBatches = [⟨0,150,200⟩,⟨1,160,212⟩,⟨0,210,212⟩] ∧
    Scheduled ⟨150,10,true,1⟩ 150 (startsOf 0 ((new 0 100).starts twoBatches)) ∧
    Scheduled ⟨160,0,false,2⟩ 160 (startsOf 1 ((new 0 100).starts twoBatches)) := by
  have ha : machine.Admissible (new 0 100) twoBatches := by decide +kernel
  obtain ⟨q,hq,-⟩ : ∃ q, machine.exec (new 0 100) twoBatches = .ok q ∧ q.phase = .idle :=
    Meets.ok_of_no_error (Q := fun _ => False) (by decide +kernel) (fun _ => id)
  obtain ⟨-,hscheduled⟩ := callbacks_start_on_schedule 0 100 twoBatches ha q hq
  exact ⟨ha,by decide +kernel,hscheduled 0 _ rfl,hscheduled 1 _ rfl⟩

end TimerQueue
end LearningMuduo.Timers
