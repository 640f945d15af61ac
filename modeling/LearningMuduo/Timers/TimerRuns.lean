import LearningMuduo.Timers.TimerfdArmed

/-! Whole runs of a timer queue: the sets, the batch and the heap stay consistent, and
the only timer ever read after its deletion is read by `addTimer` on another thread. -/
namespace LearningMuduo.Timers
open Library

/-- The timer a queued functor still holds. -/
def TimerFunctor.added? : TimerFunctor → Option TimerPtr
  | .addTimerInLoop timer => some timer
  | .cancelInLoop _ => none

namespace TimerQueue
variable {q : TimerQueue}

/-- The batch being run; after `handleRead` the vector holds stale entries. -/
def batch (q : TimerQueue) : List Entry :=
  match q.phase with
  | .idle => []
  | .calling _ _ => q.expired

/-- The timers on their way to the loop. -/
def adds (q : TimerQueue) : List TimerPtr := q.pendingFunctors.filterMap TimerFunctor.added?

/-- The two sets hold the same live timers, under their expiration and under their
sequence number; the batch is live and outside the sets; every timer created so far
is either live and held in one place, or deleted once. -/
structure SetsConsistent (q : TimerQueue) : Prop where
  timers_iff : ∀ x p, ((x,p) : Entry) ∈ q.timers ↔
    p ∈ q.pointers ∧ ∃ t, q.get p = some t ∧ t.expiration = x
  active_iff : ∀ p n, ((p,n) : ActiveTimer) ∈ q.activeTimers ↔
    p ∈ q.pointers ∧ ∃ t, q.get p = some t ∧ toInt t.sequence = n
  batch_live : ∀ e ∈ q.batch, e.2 ∉ q.pointers ∧ ∃ t, q.get e.2 = some t
  held_once : (q.pointers ++ (q.batch.map Prod.snd ++ q.adds)).Nodup ∧
    ∀ p, (∃ t, q.get p = some t) ↔ p ∈ q.pointers ++ (q.batch.map Prod.snd ++ q.adds)
  deleted_once : q.deleted.Nodup ∧
    ∀ b, b ∈ q.deleted ↔ b < q.allocated ∧ ∀ p t, q.get p = some t → p.block ≠ b

/-- A thread that called `addTimer` from outside the loop reads `timer->sequence()`
while its timer has not been deleted. -/
def ReturnsInTime (q : TimerQueue) : TimerStep → Prop
  | .returnId t => ∀ p ∈ q.returning t, (q.get p).isSome = true
  | _ => True

instance (q : TimerQueue) : (a : TimerStep) → Decidable (q.ReturnsInTime a)
  | .returnId t => inferInstanceAs (Decidable (∀ p ∈ q.returning t, (q.get p).isSome = true))
  | .addTimer .. | .cancel .. | .runFunctor | .handleRead _ | .runCallback | .endCalling
  | .tick _ => isTrue trivial

/-- What a run keeps: consistency, the callbacks still to run belong to the batch, and
the timerfd is armed. -/
structure Sound (q : TimerQueue) : Prop where
  consistent : q.Consistent (q.batch.map Prod.snd ++ q.adds)
  calling : ∀ now rest, q.phase = .calling now rest → ∀ e ∈ rest, e ∈ q.expired
  armed : q.Armed

/-- A sound queue has consistent sets. -/
theorem Sound.setsConsistent (h : q.Sound) : q.SetsConsistent := by
  have hc := h.consistent
  refine ⟨hc.timers_iff,hc.active_iff,?_,⟨hc.nodup,hc.live⟩,⟨hc.sound.deleted_once,hc.sound.deleted_iff⟩⟩
  · intro e he
    have hin : e.2 ∈ q.batch.map Prod.snd ++ q.adds :=
      List.mem_append_left _ (List.mem_map_of_mem he)
    exact ⟨fun hp => (List.disjoint_of_nodup_append hc.nodup) hp hin,hc.live_rest hin⟩

/-- A new queue is sound. -/
theorem new_sound (loopThread : Nat) (clock : Int) : (new loopThread clock).Sound := by
  have hget (p : TimerPtr) (t : Timer) : (new loopThread clock).get p ≠ some t := by
    intro h
    exact nomatch get_eq_some.mp h
  refine ⟨⟨⟨?_,?_,?_,?_,List.nodup_nil,?_⟩,?_,List.nodup_nil,?_,?_,List.Perm.refl _⟩,?_,.inr rfl⟩
  · exact fun p t h => (hget p t h).elim
  · exact fun p t h => (hget p t h).elim
  · exact fun p t h => (hget p t h).elim
  · exact fun p _ t _ h => (hget p t h).elim
  · exact fun b => ⟨fun h => (List.not_mem_nil h).elim,fun h => (Nat.not_lt_zero _ h.1).elim⟩
  · exact fun p => ⟨fun ⟨t,h⟩ => (hget p t h).elim,fun h => (List.not_mem_nil h).elim⟩
  · exact fun e h => (List.not_mem_nil h).elim
  · exact fun a h => (List.not_mem_nil h).elim
  · exact fun now rest h => nomatch h

variable {p : TimerPtr} {t : Timer}

private theorem Sound.replace {r : TimerQueue} (h : q.Sound)
    (hc : r.Consistent (q.batch.map Prod.snd ++ q.adds)) (hp : r.phase = q.phase)
    (he : r.expired = q.expired) (hf : r.pendingFunctors = q.pendingFunctors) (ha : r.Armed) :
    r.Sound := by
  refine ⟨?_,?_,ha⟩
  · rw [batch,adds,hp,he,hf]
    exact hc
  · rw [hp,he]
    exact h.calling

private theorem addTimerInLoop_sound (h : q.Consistent (p :: (q.batch.map Prod.snd ++ q.adds)))
    (hcall : ∀ now rest, q.phase = .calling now rest → ∀ e ∈ rest, e ∈ q.expired) (ha : q.Armed)
    (ht : q.get p = some t) :
    ∃ r, q.addTimerInLoop p = .ok r ∧ r.Sound ∧ r.get p = some t := by
  obtain ⟨timers,active,hx,hc,hperm⟩ := addTimerInLoop_spec h ht
  refine ⟨_,hx,?_,?_⟩
  · split
    · rename_i hearly
      refine ⟨hc.of_eq rfl rfl rfl rfl rfl,hcall,ha.insert rfl hperm ?_⟩
      rw [if_pos hearly]
      rfl
    · rename_i hlate
      refine ⟨hc,hcall,ha.insert rfl hperm ?_⟩
      rw [if_neg hlate]
      rfl
  · split <;> exact ht

/-- `cancelInLoop` succeeds and keeps the queue sound. -/
theorem cancelInLoop_sound (h : q.Sound) (timerId : TimerId) :
    ∃ r, q.cancelInLoop timerId = .ok r ∧ r.Sound := by
  obtain ⟨heap,timers,active,deleted,canceling,hx,hc,hsub⟩ := cancelInLoop_spec h.consistent timerId
  refine ⟨_,hx,h.replace (hc.of_eq rfl rfl rfl rfl rfl) rfl rfl rfl ?_⟩
  exact h.armed.subset rfl rfl hsub

private theorem addTimer_sound (h : q.Sound) {n addr : Nat} (hfree : q.heap addr = none)
    (hmax : addr < uintptrMax) (hi : t.repeat_ = true → 0 ≤ t.interval) :
    ∃ r, q.addTimer n addr t = .ok r ∧ r.Sound := by
  obtain ⟨hget,hc⟩ := newTimer_spec h.consistent hfree hmax hi
  have harmed : (q.newTimer addr t).Armed := h.armed.subset rfl rfl (fun _ => id)
  unfold addTimer
  dsimp only
  split
  · obtain ⟨r,hx,hs,hr⟩ := addTimerInLoop_sound (q := q.newTimer addr t) hc h.calling harmed hget
    refine ⟨r,?_,hs⟩
    rw [hx,bind_ok,deref_ok hr]
    rfl
  · refine ⟨_,rfl,⟨?_,h.calling,harmed.subset rfl rfl (fun _ => id)⟩⟩
    -- the new timer joins the end of those on their way to the loop
    have hadds : ((q.newTimer addr t).pendingFunctors ++
        [TimerFunctor.addTimerInLoop (q.nextTimer addr)]).filterMap TimerFunctor.added? =
        q.adds ++ [q.nextTimer addr] := List.filterMap_append
    refine (hc.perm ?_).of_eq rfl rfl rfl rfl rfl
    change (q.nextTimer addr :: (q.batch.map Prod.snd ++ q.adds)).Perm (q.batch.map Prod.snd ++
      ((q.newTimer addr t).pendingFunctors ++
        [TimerFunctor.addTimerInLoop (q.nextTimer addr)]).filterMap TimerFunctor.added?)
    rw [hadds,← List.append_assoc]
    exact (List.perm_append_singleton _ _).symm

private theorem runFunctor_sound (h : q.Sound) (hp : q.phase = .idle) {f : TimerFunctor}
    {rest : List TimerFunctor} (hq : q.pendingFunctors = f :: rest) :
    ∃ r, ({ q with pendingFunctors := rest } : TimerQueue).runFunctor f = .ok r ∧ r.Sound := by
  have hbatch : q.batch = [] := by rw [batch,hp]
  have hadds : q.adds = f.added?.toList ++ rest.filterMap TimerFunctor.added? := by
    rw [adds,hq]
    cases f <;> rfl
  have hcall : ∀ now rest, q.phase = .calling now rest → ∀ e ∈ rest, e ∈ q.expired := h.calling
  have harmed : ({ q with pendingFunctors := rest } : TimerQueue).Armed :=
    h.armed.subset rfl rfl (fun _ => id)
  have hc := h.consistent
  rw [hadds] at hc
  cases f with
  | addTimerInLoop p =>
    have hc' : ({ q with pendingFunctors := rest } : TimerQueue).Consistent
        (p :: (({ q with pendingFunctors := rest } : TimerQueue).batch.map Prod.snd ++
          ({ q with pendingFunctors := rest } : TimerQueue).adds)) := by
      rw [show ({ q with pendingFunctors := rest } : TimerQueue).batch = q.batch from rfl,hbatch]
      rw [hbatch] at hc
      exact hc.of_eq rfl rfl rfl rfl rfl
    obtain ⟨t,ht⟩ := hc'.live_rest List.mem_cons_self
    obtain ⟨r,hx,hs,_⟩ := addTimerInLoop_sound hc' hcall harmed ht
    exact ⟨r,hx,hs⟩
  | cancelInLoop timerId =>
    have hs : ({ q with pendingFunctors := rest } : TimerQueue).Sound :=
      ⟨hc.of_eq rfl rfl rfl rfl rfl,hcall,harmed⟩
    exact cancelInLoop_sound hs timerId

private theorem handleRead_sound (h : q.Sound) (hp : q.phase = .idle) {pollReturnTime : Int}
    (h0 : 0 < pollReturnTime) (hle : pollReturnTime ≤ q.clock) :
    ∃ r, q.handleRead pollReturnTime = .ok r ∧ r.Sound := by
  have hbatch : q.batch = [] := by rw [batch,hp]
  have hc : q.readTimerfd.Consistent q.adds := by
    have hc := h.consistent
    rw [hbatch] at hc
    unfold readTimerfd
    split <;> exact hc.of_eq rfl rfl rfl rfl rfl
  obtain ⟨r,hx,⟨active,hr⟩,hcr,hlate⟩ := getExpired_spec hc pollReturnTime
  have hadds : r.adds = q.adds := by
    rw [hr]
    unfold adds readTimerfd
    split <;> rfl
  refine ⟨{ r with
    callingExpiredTimers := true
    cancelingTimers := .empty
    phase := .calling q.clock r.expired },?_,⟨?_,?_,?_⟩⟩
  · rw [handleRead,hx]
    rfl
  · rw [← hadds] at hcr
    exact hcr.of_eq rfl rfl rfl rfl rfl
  · rintro now rest ⟨⟩ e he
    exact he
  · refine ⟨h0.trans_le hle,?_⟩
    rintro ⟨e,he,hneg⟩
    have hpos := hlate e he
    omega

private theorem run_sound (h : q.Sound) {now : Int} {e : Entry} {rest : List Entry}
    (hp : q.phase = .calling now (e :: rest)) : ∃ r, q.run now e rest = .ok r ∧ r.Sound := by
  have hbatch : q.batch = q.expired := by rw [batch,hp]
  have he : e ∈ q.expired := h.calling now _ hp e List.mem_cons_self
  obtain ⟨t,ht⟩ := h.consistent.live_rest (p := e.2) (by
    rw [hbatch]
    exact List.mem_append_left _ (List.mem_map_of_mem he))
  refine ⟨{ q with phase := .calling now rest },by rw [run,deref_ok ht]; rfl,⟨?_,?_,?_⟩⟩
  · have hc := h.consistent
    rw [hbatch] at hc
    exact hc.of_eq rfl rfl rfl rfl rfl
  · rintro now' rest' ⟨⟩ x hx
    exact h.calling now _ hp x (List.mem_cons_of_mem e hx)
  · have ha := h.armed
    unfold Armed at ha
    rw [hp] at ha
    exact ha

private theorem endCalling_sound (h : q.Sound) {now : Int} (hp : q.phase = .calling now []) :
    ∃ r, q.endCalling now = .ok r ∧ r.Sound := by
  have hbatch : q.batch = q.expired := by rw [batch,hp]
  have hc : ({ q with callingExpiredTimers := false } : TimerQueue).Consistent
      (q.expired.map Prod.snd ++ q.adds) := by
    have hc := h.consistent
    rw [hbatch] at hc
    exact hc.of_eq rfl rfl rfl rfl rfl
  have ha := h.armed
  unfold Armed at ha
  rw [hp] at ha
  obtain ⟨heap,timers,active,deleted,hx,hcr,hnew⟩ := reset_fold now q.expired _ hc
  let r := ({ q with callingExpiredTimers := false } : TimerQueue).stored heap timers active deleted
  have hcov := armedForFront_covers (r := r) (q := q) ha.1 rfl ha.2 hnew
  have hfront : r.armedForFront = { r with timerfd := r.armedForFront.timerfd } := by
    unfold armedForFront
    split
    · rfl
    · split <;> rfl
  refine ⟨{ r.armedForFront with phase := .idle },?_,⟨?_,?_,?_⟩⟩
  · rw [endCalling,reset]
    change ((q.expired.foldlM (resetOne now) { q with callingExpiredTimers := false } >>= _) >>= _) = _
    rw [hx,bind_ok,armNext_spec hcr]
    rfl
  · rw [hfront]
    exact hcr.of_eq rfl rfl rfl rfl rfl
  · rintro now' rest' hph
    exact nomatch hph
  · rw [hfront] at hcov ⊢
    exact hcov

private theorem tick_sound (h : q.Sound) (d : Nat) : (q.tick d).Sound := by
  refine ⟨h.consistent.of_eq rfl rfl rfl rfl rfl,h.calling,?_⟩
  have ha := h.armed
  unfold Armed at ha ⊢
  change match q.phase with
    | .idle => (q.tick d).timerfd.Covers q.timers ∨ q.timers.elems = []
    | .calling now _ => 0 < now ∧ ((∃ e ∈ q.timers, e.1 ≤ 0) → (q.tick d).timerfd.Covers q.timers)
  split
  · rename_i hp
    rw [hp] at ha
    exact ha.imp (fun hc => tick_covers hc d) id
  · rename_i now rest hp
    rw [hp] at ha
    exact ⟨ha.1,fun hneg => tick_covers (ha.2 hneg) d⟩

/-- Every step but the read of another thread's `addTimer` succeeds and keeps the queue
sound; that read succeeds exactly when its timer is alive. -/
theorem code_sound (h : q.Sound) {a : TimerStep} (he : q.Enabled a) :
    (∃ r, q.code a = .ok r ∧ r.Sound) ∨
      q.code a = .error (.useAfterFree .addTimer) ∧ ¬ q.ReturnsInTime a := by
  cases a with
  | addTimer n addr when interval repeat_ sequence =>
    obtain ⟨_,hfree,_,hmax,hi⟩ := he
    exact .inl (addTimer_sound h hfree hmax hi)
  | returnId n =>
    change (∃ r, q.returnId n = .ok r ∧ r.Sound) ∨ q.returnId n = _ ∧ _
    unfold returnId
    split
    · exact .inl ⟨q,rfl,h⟩
    · rename_i p hp
      cases hg : q.get p with
      | some t =>
        rw [deref_ok hg]
        exact .inl ⟨_,rfl,h.replace (h.consistent.of_eq rfl rfl rfl rfl rfl) rfl rfl rfl
          (h.armed.subset rfl rfl (fun _ => id))⟩
      | none =>
        right
        rw [deref,hg]
        refine ⟨rfl,fun hin => ?_⟩
        have hsome := hin p hp
        rw [hg] at hsome
        cases hsome
  | cancel n timerId =>
    change (∃ r, q.cancel n timerId = .ok r ∧ r.Sound) ∨ _
    unfold cancel
    left
    split
    · exact cancelInLoop_sound h timerId
    · have hadds : (q.pendingFunctors ++ [TimerFunctor.cancelInLoop timerId]).filterMap
          TimerFunctor.added? = q.adds := by
        rw [List.filterMap_append]
        exact List.append_nil _
      refine ⟨_,rfl,⟨?_,h.calling,h.armed.subset rfl rfl (fun _ => id)⟩⟩
      have hc := h.consistent
      rw [← hadds] at hc
      exact hc.of_eq rfl rfl rfl rfl rfl
  | runFunctor =>
    obtain ⟨hp,hne⟩ := he
    left
    rw [code]
    split
    · rename_i hq
      exact (hne hq).elim
    · rename_i f rest hq
      exact runFunctor_sound h hp hq
  | handleRead pollReturnTime =>
    obtain ⟨hp,h0,hle⟩ := he
    exact .inl (handleRead_sound h hp h0 hle)
  | runCallback =>
    left
    rw [code]
    split
    · rename_i now e rest hp
      exact run_sound h hp
    · exact ⟨q,rfl,h⟩
  | endCalling =>
    left
    rw [code]
    split
    · rename_i now hp
      exact endCalling_sound h hp
    · exact ⟨q,rfl,h⟩
  | tick d => exact .inl ⟨_,rfl,tick_sound h d⟩

/-- In every run the queue stays sound, up to a late return of `addTimer`. -/
theorem exec_sound (loopThread : Nat) (clock : Int) (as : List TimerStep)
    (ha : machine.Admissible (new loopThread clock) as) :
    Meets Sound (· = .useAfterFree .addTimer) (machine.exec (new loopThread clock) as) := by
  apply machine.exec_invariant ?_ as _ (new_sound loopThread clock) ha
  intro q a h he
  change Meets Sound _ (q.code a)
  rcases code_sound h he with ⟨r,hr,hs⟩ | ⟨hr,_⟩
  · rw [hr]
    exact hs
  · rw [hr]
    rfl

private theorem exec_in_time (loopThread : Nat) (clock : Int) (as : List TimerStep)
    (ha : (machine.guard ReturnsInTime).Admissible (new loopThread clock) as) :
    ∃ q, machine.exec (new loopThread clock) as = .ok q ∧ q.Sound := by
  have hrun := (machine.guard ReturnsInTime).exec_invariant (I := Sound) (Q := fun _ => False) (by
    rintro q a h ⟨he,hin⟩
    change Meets Sound _ (q.code a)
    rcases code_sound h he with ⟨r,hr,hs⟩ | ⟨_,hno⟩
    · rw [hr]
      exact hs
    · exact (hno hin).elim) as _ (new_sound loopThread clock) ha
  rw [machine.exec_guard] at hrun
  exact hrun.ok_of_no_error (fun _ => id)

/-- In every run the sets, the batch and the heap are consistent and no assertion of the
queue fails; a deleted timer is read only by a late `addTimer` of another thread, and
never in a run in which those return in time. -/
theorem timer_sets_consistent (loopThread : Nat) (clock : Int) (as : List TimerStep)
    (ha : machine.Admissible (new loopThread clock) as) :
    (∀ q, machine.exec (new loopThread clock) as = .ok q → q.SetsConsistent) ∧
    (∀ e, machine.exec (new loopThread clock) as = .error e → e = .useAfterFree .addTimer) ∧
    ((machine.guard ReturnsInTime).Admissible (new loopThread clock) as →
      ∃ q, machine.exec (new loopThread clock) as = .ok q ∧ q.SetsConsistent) := by
  obtain ⟨hok,herr⟩ := meets_iff.mp (exec_sound loopThread clock as ha)
  refine ⟨fun q hq => (hok q hq).setsConsistent,herr,?_⟩
  intro hg
  obtain ⟨q,hq,hs⟩ := exec_in_time loopThread clock as hg
  exact ⟨q,hq,hs.setsConsistent⟩

private def siblingCancelled : List TimerStep :=
  [.addTimer 7 4096 150 10 true 1,.returnId 7,.runFunctor,.addTimer 0 4200 150 0 false 2,
    .addTimer 0 4304 90 0 false 3,.tick 200,.handleRead 150,.runCallback,.addTimer 0 4408 (-5) 0 false 4,
    .cancel 0 ⟨4200,2⟩,.runCallback,.cancel 0 ⟨4096,1⟩,.runCallback,.endCalling]

/-- A timer from another thread, a batch of three in which a callback cancels a sibling
and adds a timer, and a repeating timer that cancels itself. -/
theorem timer_sets_consistent_batch :
    (machine.guard ReturnsInTime).Admissible (new 0 100) siblingCancelled ∧
    ∃ q, machine.exec (new 0 100) siblingCancelled = .ok q ∧ q.SetsConsistent := by
  have ha : machine.Admissible (new 0 100) siblingCancelled := by decide +kernel
  have hg : (machine.guard ReturnsInTime).Admissible (new 0 100) siblingCancelled := by decide +kernel
  exact ⟨hg,(timer_sets_consistent 0 100 siblingCancelled ha).2.2 hg⟩

private def lateReturn : List TimerStep :=
  [.addTimer 7 4096 3 0 false 1,.runFunctor,.tick 200,.handleRead 150,.runCallback,.endCalling,
    .returnId 7]

/-- Thread 7 hands a timer that is already due to the loop, which runs and deletes it;
then the thread reads `timer->sequence()`. -/
theorem late_return_reads_deleted_timer :
    machine.Admissible (new 0 100) lateReturn ∧
    machine.exec (new 0 100) lateReturn = .error (.useAfterFree .addTimer) := by
  refine ⟨by decide +kernel,?_⟩
  obtain ⟨e,he,rfl⟩ : ∃ e, machine.exec (new 0 100) lateReturn = .error e ∧ e = .useAfterFree .addTimer :=
    Meets.error_of_no_ok (P := fun _ => False) (by decide +kernel) (fun _ => id)
  exact he

/-- Whenever no `handleRead` is in progress, no timer is forgotten by the timerfd; and no
`timerfd_settime` is ever refused. -/
theorem timerfd_never_forgets (loopThread : Nat) (clock : Int) (as : List TimerStep)
    (ha : machine.Admissible (new loopThread clock) as) :
    Meets (fun q => q.phase = .idle → q.NoTimerForgotten) (· ≠ .timerfdSettime)
      (machine.exec (new loopThread clock) as) := by
  refine (exec_sound loopThread clock as ha).mono (fun q hq hp => hq.armed.noTimerForgotten hp) ?_
  rintro e rfl
  nofun

/-- The same batch leaves a timer with an invalid expiration at the front, armed when
the callback added it. -/
theorem timerfd_never_forgets_batch :
    ∃ q, machine.exec (new 0 100) siblingCancelled = .ok q ∧ q.phase = .idle ∧
      q.timers.elems ≠ [] ∧ q.NoTimerForgotten := by
  have ha : machine.Admissible (new 0 100) siblingCancelled := by decide +kernel
  obtain ⟨q,hq,hp,hne⟩ : ∃ q, machine.exec (new 0 100) siblingCancelled = .ok q ∧
      q.phase = .idle ∧ q.timers.elems ≠ [] :=
    Meets.ok_of_no_error (Q := fun _ => False) (by decide +kernel) (fun _ => id)
  have hnone := timerfd_never_forgets 0 100 siblingCancelled ha
  rw [hq] at hnone
  exact ⟨q,hq,hp,hne,hnone hp⟩

end TimerQueue
end LearningMuduo.Timers
