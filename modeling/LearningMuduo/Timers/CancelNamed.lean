import LearningMuduo.Timers.CancelFinal

/-! Whether a cancellation hits the timer it names, and no other one at the same address. -/
namespace LearningMuduo.Timers
open Library

/-- The ids that the calls of `addTimer` in a run return, in the order of the allocations. -/
def issued (as : List TimerStep) : List TimerId :=
  as.filterMap fun
    | .addTimer _ addr _ _ _ sequence => some ⟨addr,sequence⟩
    | _ => none

/-- An id that was returned for a timer of the run; `block` is the number of that timer. -/
structure IssuedId (as : List TimerStep) where
  block : Nat
  timerId : TimerId
  returned : (issued as)[block]? = some timerId

namespace TimerQueue
variable {q r : TimerQueue} {p : TimerPtr} {t : Timer} {timerId : TimerId}

/-- The live timers of r are live timers of q, with their numbers. -/
private structure Carries (q r : TimerQueue) : Prop where
  allocated : r.allocated = q.allocated
  sequence : ∀ p t, r.get p = some t → ∃ u, q.get p = some u ∧ u.sequence = t.sequence

private theorem Carries.of_heap (hh : r.heap = q.heap) (ha : r.allocated = q.allocated) : q.Carries r :=
  ⟨ha,fun p t ht => ⟨t,by rw [← get_of_heap hh]; exact ht,rfl⟩⟩

private theorem Carries.trans {s : TimerQueue} (h : q.Carries r) (h' : r.Carries s) : q.Carries s := by
  refine ⟨h'.allocated.trans h.allocated,?_⟩
  intro p t ht
  obtain ⟨u,hu,hseq⟩ := h'.sequence p t ht
  obtain ⟨v,hv,hseq'⟩ := h.sequence p u hu
  exact ⟨v,hv,hseq'.trans hseq⟩

private theorem insert_carries {b : Bool} (h : q.insert p = .ok (r,b)) : q.Carries r := by
  obtain ⟨timers,active,rfl⟩ := insert_inv h
  exact .of_heap rfl rfl

private theorem addTimerInLoop_carries (h : q.addTimerInLoop p = .ok r) : q.Carries r := by
  obtain ⟨⟨u,b⟩,hu,h⟩ := bind_eq_ok h
  have hcarries := insert_carries hu
  dsimp only at h
  split at h
  · obtain ⟨t,-,h⟩ := bind_eq_ok h
    rw [resetTimerfd_eq] at h
    cases h
    exact hcarries.trans (.of_heap rfl rfl)
  · cases h
    exact hcarries

private theorem delete_carries (h : q.delete p = .ok r) : q.Carries r := by
  obtain ⟨⟨u,hu⟩,rfl⟩ := delete_inv h
  exact ⟨rfl,fun p' t ht => ⟨t,((get_erased hu p' t).mp ht).2,rfl⟩⟩

private theorem cancelInLoop_carries (h : q.cancelInLoop timerId = .ok r) : q.Carries r := by
  rcases cancelInLoop_inv h with ⟨it,timers,active,-,⟨u,hu⟩,rfl⟩ | ⟨-,rfl⟩
  · exact ⟨rfl,fun p' t ht => ⟨t,((get_erased hu p' t).mp ht).2,rfl⟩⟩
  · exact .of_heap rfl rfl

private theorem restart_carries {now : Int} (h : q.restart p now = .ok r) : q.Carries r := by
  obtain ⟨t,u,ht,hseq,rfl⟩ := restart_inv h
  refine ⟨rfl,?_⟩
  intro p' t' ht'
  rcases (get_replaced ht p' t').mp ht' with ⟨rfl,rfl⟩ | ⟨-,hget⟩
  · exact ⟨t,ht,hseq.symm⟩
  · exact ⟨t',hget,rfl⟩

private theorem resetOne_carries {now : Int} {e : Entry} (h : resetOne now q e = .ok r) : q.Carries r := by
  obtain ⟨t,-,h⟩ := bind_eq_ok h
  split at h
  · obtain ⟨v,hv,h⟩ := bind_eq_ok h
    obtain ⟨⟨w,b⟩,hw,h⟩ := bind_eq_ok h
    cases h
    exact (restart_carries hv).trans (insert_carries hw)
  · exact delete_carries h

private theorem eraseExpired_carries {e : Entry} (h : q.eraseExpired e = .ok r) : q.Carries r := by
  obtain ⟨t,-,h⟩ := bind_eq_ok h
  obtain ⟨-,-,h⟩ := bind_eq_ok h
  cases h
  exact .of_heap rfl rfl

private theorem foldlM_carries {f : TimerQueue → Entry → Except TimerFault TimerQueue}
    (hf : ∀ q r e, f q e = .ok r → q.Carries r) (l : List Entry) {q r : TimerQueue}
    (h : l.foldlM f q = .ok r) : q.Carries r := by
  induction l generalizing q with
  | nil =>
    cases h
    exact .of_heap rfl rfl
  | cons e l ih =>
    rw [List.foldlM_cons] at h
    obtain ⟨v,hv,h⟩ := bind_eq_ok h
    exact (hf q v e hv).trans (ih h)

private theorem handleRead_carries {pollReturnTime : Int} (h : q.handleRead pollReturnTime = .ok r) : q.Carries r := by
  obtain ⟨v,hv,h⟩ := bind_eq_ok h
  cases h
  obtain ⟨-,-,hv⟩ := bind_eq_ok hv
  obtain ⟨-,-,hv⟩ := bind_eq_ok hv
  obtain ⟨w,hw,hv⟩ := bind_eq_ok hv
  obtain ⟨-,-,hv⟩ := bind_eq_ok hv
  cases hv
  have hread : q.readTimerfd.heap = q.heap ∧ q.readTimerfd.allocated = q.allocated := by
    unfold readTimerfd
    split
    · exact ⟨rfl,rfl⟩
    · exact ⟨rfl,rfl⟩
  have herase := foldlM_carries (fun _ _ _ => eraseExpired_carries) _ hw
  refine Carries.trans ?_ (herase.trans ?_)
  · exact .of_heap hread.1 hread.2
  · exact .of_heap rfl rfl

private theorem endCalling_carries {now : Int} (h : q.endCalling now = .ok r) : q.Carries r := by
  obtain ⟨v,hv,h⟩ := bind_eq_ok h
  cases h
  obtain ⟨w,hw,hv⟩ := bind_eq_ok hv
  have hreset := foldlM_carries (fun _ _ _ => resetOne_carries) _ hw
  have harm : w.Carries v := by
    rcases armNext_inv hv with rfl | ⟨expiration,rfl⟩
    · exact .of_heap rfl rfl
    · exact .of_heap rfl rfl
  refine Carries.trans ?_ (hreset.trans (harm.trans ?_))
  · exact .of_heap rfl rfl
  · exact .of_heap rfl rfl

/-- The history of a run as the heap shows it: a live timer is the one its number says. -/
private def Recorded (q : TimerQueue) (ids : List TimerId) : Prop :=
  q.allocated = ids.length ∧ ∀ p t, q.get p = some t → ids[p.block]? = some ⟨p.addr,t.sequence⟩

private theorem Recorded.carries {ids : List TimerId} (h : q.Recorded ids) (hc : q.Carries r) : r.Recorded ids := by
  refine ⟨hc.allocated.trans h.1,?_⟩
  intro p t ht
  obtain ⟨u,hu,hseq⟩ := hc.sequence p t ht
  rw [← hseq]
  exact h.2 p u hu

private theorem addTimer_recorded {ids : List TimerId} (h : q.Recorded ids) {n addr : Nat} (hfree : q.heap addr = none)
    (hr : q.addTimer n addr t = .ok r) : r.Recorded (ids ++ [⟨addr,t.sequence⟩]) := by
  have hnew : (q.newTimer addr t).Recorded (ids ++ [⟨addr,t.sequence⟩]) := by
    refine ⟨?_,?_⟩
    · rw [List.length_append,List.length_singleton,← h.1]
      rfl
    · intro p u hu
      rcases (get_newTimer hfree p u).mp hu with ⟨rfl,rfl⟩ | hu
      · rw [nextTimer,h.1]
        exact List.getElem?_concat_length
      · have hold := h.2 p u hu
        rw [List.getElem?_append_left (List.getElem?_eq_some_iff.mp hold).1]
        exact hold
  unfold addTimer at hr
  dsimp only at hr
  split at hr
  · obtain ⟨v,hv,hr⟩ := bind_eq_ok hr
    obtain ⟨-,-,hr⟩ := bind_eq_ok hr
    cases hr
    exact hnew.carries (addTimerInLoop_carries hv)
  · cases hr
    exact hnew.carries (.of_heap rfl rfl)

private theorem code_recorded (q : TimerQueue) (ids : List TimerId) (a : TimerStep) (h : q.Recorded ids)
    (he : machine.Enabled q a) : Meets (fun r => r.Recorded (ids ++ issued [a])) (fun _ => True) (machine.step q a) := by
  rw [meets_iff]
  refine ⟨?_,fun _ _ => trivial⟩
  intro r hr
  have hother (hc : q.Carries r) : r.Recorded (ids ++ []) := by
    rw [List.append_nil]
    exact h.carries hc
  change q.code a = .ok r at hr
  cases a with
  | addTimer n addr when interval repeat_ sequence => exact addTimer_recorded h he.2.1 hr
  | returnId n =>
    refine hother ?_
    change q.returnId n = .ok r at hr
    unfold returnId at hr
    split at hr
    · cases hr
      exact .of_heap rfl rfl
    · obtain ⟨-,-,hr⟩ := bind_eq_ok hr
      cases hr
      exact .of_heap rfl rfl
  | cancel n timerId =>
    refine hother ?_
    change q.cancel n timerId = .ok r at hr
    unfold cancel at hr
    split at hr
    · exact cancelInLoop_carries hr
    · cases hr
      exact .of_heap rfl rfl
  | runFunctor =>
    refine hother ?_
    rw [code] at hr
    split at hr
    · cases hr
      exact .of_heap rfl rfl
    · next f rest _ =>
      refine Carries.trans (r := { q with pendingFunctors := rest }) (.of_heap rfl rfl) ?_
      cases f with
      | addTimerInLoop timer => exact addTimerInLoop_carries hr
      | cancelInLoop timerId => exact cancelInLoop_carries hr
  | handleRead pollReturnTime => exact hother (handleRead_carries hr)
  | runCallback =>
    refine hother ?_
    rw [code] at hr
    split at hr
    · obtain ⟨-,-,hr⟩ := bind_eq_ok hr
      cases hr
      exact .of_heap rfl rfl
    · cases hr
      exact .of_heap rfl rfl
  | endCalling =>
    refine hother ?_
    rw [code] at hr
    split at hr
    · exact endCalling_carries hr
    · cases hr
      exact .of_heap rfl rfl
  | tick d =>
    cases hr
    exact hother (.of_heap rfl rfl)

private theorem foldl_issued (as : List TimerStep) (ids : List TimerId) :
    as.foldl (fun ids a => ids ++ issued [a]) ids = ids ++ issued as := by
  induction as generalizing ids with
  | nil => exact (List.append_nil ids).symm
  | cons a as ih =>
    rw [List.foldl_cons,ih,List.append_assoc]
    congr 1
    exact (List.filterMap_append (l := [a])).symm

/-- In every run, the timer with the number of an id, if it is still live, is at the address
and has the sequence number of that id. -/
theorem issued_names_live {loopThread : Nat} {clock : Int} {before : List TimerStep}
    (ha : machine.Admissible (new loopThread clock) before) (hq : machine.exec (new loopThread clock) before = .ok q)
    (id : IssuedId before) (ht : q.get p = some t) (hb : p.block = id.block) :
    p.addr = id.timerId.timer ∧ t.sequence = id.timerId.sequence := by
  have hnew : (new loopThread clock).Recorded [] := ⟨rfl,by rintro p t ⟨⟩⟩
  have hrun := machine.exec_simulates (fun ids a => ids ++ issued [a]) code_recorded before _ _ hnew ha
  rw [hq,foldl_issued,List.nil_append] at hrun
  have hid := hrun.2 p t ht
  rw [hb,id.returned] at hid
  rw [Option.some.inj hid]
  exact ⟨rfl,rfl⟩

/-- The timer is in the two sets, or it repeats and `reset` will put it back. -/
def Kept (q : TimerQueue) (p : TimerPtr) (t : Timer) : Prop :=
  p ∈ q.pointers ∨
    p ∈ q.batch.map Prod.snd ∧ t.repeat_ = true ∧ activeKey (p,toInt t.sequence) ∉ q.cancelingTimers

/-- From q to r no timer but the one with the given number is deleted, taken out of the sets
or marked for `reset`. -/
def Spares (q r : TimerQueue) (block : Nat) : Prop :=
  ∀ p t, q.get p = some t → p.block ≠ block → r.get p = some t ∧ (q.Kept p t → r.Kept p t)

/-- The `ActiveTimer` that `cancelInLoop` builds from the id is that of the timer. -/
def Matches (p : TimerPtr) (t : Timer) (timerId : TimerId) : Prop :=
  p.addr = timerId.timer ∧ toInt t.sequence = toInt timerId.sequence

/-- A match has the key that `find` looks for. -/
theorem Matches.key (hm : Matches p t timerId) :
    activeKey (p,toInt t.sequence) = toLex (timerId.timer,toInt timerId.sequence) := by
  rw [← hm.1,← hm.2]
  rfl

/-- The key that `find` looks for is a match. -/
theorem Matches.of_key
    (h : activeKey (p,toInt t.sequence) = toLex (timerId.timer,toInt timerId.sequence)) : Matches p t timerId :=
  ⟨congrArg (fun k => (ofLex k).1) h,congrArg (fun k => (ofLex k).2) h⟩

/-- What `find` returns is a timer of the sets. -/
theorem Sound.found (h : q.Sound) {it : ActiveTimer}
    (hf : q.activeTimers.find (toLex (timerId.timer,toInt timerId.sequence)) = some it) :
    it.1 ∈ q.pointers ∧ ∃ t, q.get it.1 = some t ∧ Matches it.1 t timerId := by
  obtain ⟨hmem,hkey⟩ := OrderedSet.find_some hf
  obtain ⟨hp,t,ht,hseq⟩ := (h.setsConsistent.active_iff it.1 it.2).mp hmem
  refine ⟨hp,t,ht,Matches.of_key ?_⟩
  rw [hseq]
  exact hkey

/-- A timer outside the batch that stays live stays in the sets. -/
theorem pointers_of_live (hq : q.Sound) (hr : r.Sound) (hb : r.batch = q.batch) (ha : r.adds = q.adds)
    (hp : p ∈ q.pointers) (hlive : r.get p = some t) : p ∈ r.pointers := by
  have hin := (hr.consistent.live p).mp ⟨t,hlive⟩
  rw [hb,ha] at hin
  rcases List.mem_append.mp hin with hin | hin
  · exact hin
  · exact (List.disjoint_of_nodup_append hq.consistent.nodup hp hin).elim

/-- Of the timers that can be kept, only one that matches the id is hit. -/
theorem spares_of_unmatched (h : q.Sound) (hr : q.cancelInLoop timerId = .ok r) {block : Nat}
    (hno : ∀ p t, q.get p = some t → p.block ≠ block → q.Kept p t → ¬ Matches p t timerId) : q.Spares r block := by
  obtain ⟨r',hr',hsound⟩ := cancelInLoop_sound h timerId
  rw [hr] at hr'
  cases hr'
  intro p t ht hblock
  rcases cancelInLoop_inv hr with ⟨it,timers,active,hfind,-,rfl⟩ | ⟨hfind,rfl⟩
  · obtain ⟨hin,u,hu,hm⟩ := h.found hfind
    have hne : p ≠ it.1 := by
      rintro rfl
      exact hno it.1 u hu hblock (.inl hin) hm
    have hlive : (q.erased it.1).get p = some t := (get_erased hu p t).mpr ⟨hne,ht⟩
    refine ⟨hlive,?_⟩
    rintro (hp | hp)
    · exact .inl (pointers_of_live h hsound rfl rfl hp hlive)
    · exact .inr hp
  · refine ⟨ht,?_⟩
    rintro (hp | ⟨hb,hrep,hmark⟩)
    · exact .inl hp
    · refine .inr ⟨hb,hrep,?_⟩
      intro hmem
      change _ ∈ (if _ then _ else _ : OrderedSet _) at hmem
      split at hmem
      · rcases OrderedSet.mem_of_mem_insert hmem with heq | hmem
        · exact hno p t ht hblock (.inr ⟨hb,hrep,hmark⟩) (.of_key heq)
        · exact hmark hmem
      · exact hmark hmem

/-- A timer that matches the id is deleted from the sets, or marked in the batch. -/
theorem matched_not_kept (h : q.Sound) (hf : q.Flagged) (hr : q.cancelInLoop timerId = .ok r)
    (ht : q.get p = some t) (hkept : q.Kept p t) (hm : Matches p t timerId) :
    ¬ (r.get p = some t ∧ r.Kept p t) := by
  rintro ⟨hlive,hkept'⟩
  rcases cancelInLoop_inv hr with ⟨it,timers,active,hfind,-,rfl⟩ | ⟨hfind,rfl⟩
  · -- the timer found is live at the same address, so it is this one
    obtain ⟨-,u,hu,hm'⟩ := h.found hfind
    have hp : p = it.1 := get_unique ht hu (hm.1.trans hm'.1.symm)
    exact ((get_erased hu p t).mp hlive).1 hp
  · rw [← hm.key] at hfind
    rcases hkept with hp | ⟨hb,hrep,-⟩
    · exact OrderedSet.find_ne_none ((h.setsConsistent.active_iff p _).mpr ⟨hp,t,ht,rfl⟩) hfind
    · rcases hkept' with hp | ⟨-,-,hmark⟩
      · have hdisjoint := List.disjoint_of_nodup_append h.consistent.nodup
        exact hdisjoint hp (List.mem_append_left _ hb)
      · cases hphase : q.phase with
        | idle =>
          rw [batch,hphase] at hb
          cases hb
        | calling now rest =>
          apply hmark
          change _ ∈ (if _ then _ else _ : OrderedSet _)
          rw [if_pos (hf now rest hphase),← hm.key]
          exact OrderedSet.mem_insert_self _

/-- In every run, an executed `cancelInLoop` spares every timer but the one for which
`addTimer` returned the id, exactly when no other timer that is registered, or is to be put
back by `reset`, has the address of the id and its sequence number modulo 2^32. -/
theorem cancel_spares_others_iff (loopThread : Nat) (clock : Int) (before : List TimerStep) (a : TimerStep)
    (id : IssuedId before) (q r : TimerQueue) (ha : machine.Admissible (new loopThread clock) before)
    (hq : machine.exec (new loopThread clock) before = .ok q) (hc : q.Cancels a id.timerId)
    (hr : machine.step q a = .ok r) :
    q.Spares r id.block ↔
      ∀ p t, q.get p = some t → p.block ≠ id.block → q.Kept p t → ¬ Matches p t id.timerId := by
  obtain ⟨hsound,hflag⟩ := exec_flagged loopThread clock before ha hq
  obtain ⟨fs,hs,-,hrun⟩ := hsound.cancels hc hr
  constructor
  · intro hspares p t ht hblock hkept hm
    obtain ⟨hlive,hkeeps⟩ := hspares p t ht hblock
    exact matched_not_kept hs hflag hrun ht hkept hm ⟨hlive,hkeeps hkept⟩
  · exact spares_of_unmatched hs hrun

private def twoTimers : List TimerStep := [.addTimer 0 4096 150 0 false 1,.addTimer 0 8192 150 10 true 2]

/-- One of two timers is cancelled. -/
theorem cancel_spares_others_two : ∃ q r, machine.Admissible (new 0 100) twoTimers ∧
    machine.exec (new 0 100) twoTimers = .ok q ∧ machine.step q (.cancel 0 ⟨4096,1⟩) = .ok r ∧
    (q.Spares r 0 ↔ ∀ p t, q.get p = some t → p.block ≠ 0 → q.Kept p t → ¬ Matches p t ⟨4096,1⟩) := by
  have ha : machine.Admissible (new 0 100) twoTimers := by decide +kernel
  obtain ⟨q,hq,hl,hrun⟩ : ∃ q, machine.exec (new 0 100) twoTimers = .ok q ∧ q.loopThread = 0 ∧
      Meets (fun r => r.deleted = [0]) (fun _ => False) (machine.step q (.cancel 0 ⟨4096,1⟩)) :=
    Meets.ok_of_no_error (Q := fun _ => False) (by decide +kernel) (fun _ => id)
  obtain ⟨r,hr,-⟩ := hrun.ok_of_no_error (fun _ => id)
  exact ⟨q,r,ha,hq,hr,cancel_spares_others_iff 0 100 twoTimers (.cancel 0 ⟨4096,1⟩) ⟨0,⟨4096,1⟩,rfl⟩ q r ha hq
    (.inl (by rw [hl])) hr⟩

private def reusedAddress : List TimerStep :=
  [.addTimer 0 4096 150 0 false 1,.cancel 0 ⟨4096,1⟩,.addTimer 0 4096 150 0 false 4294967297]

/-- The timer of the id is gone. The allocator gave its address to a timer that the process
created 2^32 timers later, and a second cancel of the old id deletes that one. -/
theorem stale_cancel_deletes_other :
    machine.Admissible (new 0 100) (reusedAddress ++ [.cancel 0 ⟨4096,1⟩]) ∧
    (issued reusedAddress)[0]? = some ⟨4096,1⟩ ∧
    ∃ q r, machine.exec (new 0 100) reusedAddress = .ok q ∧ q.Cancels (.cancel 0 ⟨4096,1⟩) ⟨4096,1⟩ ∧
      machine.step q (.cancel 0 ⟨4096,1⟩) = .ok r ∧ ¬ q.Spares r 0 := by
  obtain ⟨q,hq,hl,hlive,hrun⟩ : ∃ q, machine.exec (new 0 100) reusedAddress = .ok q ∧ q.loopThread = 0 ∧
      (q.get ⟨4096,1⟩).isSome = true ∧
      Meets (fun r => r.get ⟨4096,1⟩ = none) (fun _ => False) (machine.step q (.cancel 0 ⟨4096,1⟩)) :=
    Meets.ok_of_no_error (Q := fun _ => False) (by decide +kernel) (fun _ => id)
  obtain ⟨r,hr,hgone⟩ := hrun.ok_of_no_error (fun _ => id)
  refine ⟨by decide +kernel,rfl,q,r,hq,.inl (by rw [hl]),hr,?_⟩
  intro hspares
  obtain ⟨t,ht⟩ := Option.isSome_iff_exists.mp hlive
  have hkeeps := (hspares ⟨4096,1⟩ t ht (by decide)).1
  rw [hgone] at hkeeps
  cases hkeeps

end TimerQueue
end LearningMuduo.Timers
