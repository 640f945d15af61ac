import LearningMuduo.Logging.BufferBounds
import LearningMuduo.Port.Posix

/-! The asynchronous log with its mutex and condition variable: every pthread call with the
result it gave, through the wrapper that aborts. -/
namespace LearningMuduo.Logging
open Library Port

/-- Where a caller of `append` stands that holds the mutex. -/
inductive CallerPoint where
  | locked
  | appended (signal : Bool)
  deriving DecidableEq, Repr

inductive Holder where
  | background
  | caller (point : CallerPoint)
  deriving DecidableEq, Repr

/-- The thread waits while `log.thread` is `waiting` and it does not hold the mutex. -/
structure PosixLog where
  log : AsyncLogging
  mutex : Option Holder
  clock : Timespec
  deadline : Timespec
  deriving DecidableEq, Repr

inductive PosixFault where
  | log (fault : LogFault)
  | abort (a : Abort)
  deriving DecidableEq, Repr

/-- The owner's statements, a caller's, the thread's and the clock. A pthread call carries its result. -/
inductive PosixOp where
  | setRunning | spawn | clearRunning | stopSignal (result : Nat) | join
  | lock (result : Nat) | append (msg : List UInt8) | signal (result : Nat) | unlock (result : Nat)
  | threadLock (result : Nat) | threadTest | wake (result : Nat) | threadSwap | threadUnlock (result : Nat)
  | run
  | tick (clock : Timespec)
  deriving DecidableEq, Repr

namespace PosixLog
variable {s t : PosixLog}

def new (clock : Timespec) : PosixLog := ⟨.new,none,clock,clock⟩

/-- The mutex is taken or left, as far as the wrapper lets the call pass. -/
def call (s : PosixLog) (label : String) (result : Nat) (mutex : Option Holder) : Except PosixFault PosixLog := do
  (pthreadCall label result).mapError .abort
  pure { s with mutex := mutex }

/-- A step of the log itself. -/
def logStep (s : PosixLog) (op : AsyncLogging.LogOp) : Except PosixFault PosixLog := do
  let log ← (AsyncLogging.appends.step s.log op).mapError .log
  pure { s with log := log }

/-- The critical section of `append`, up to its `Signal`. -/
def append (s : PosixLog) (msg : List UInt8) : Except PosixFault PosixLog := do
  let s ← s.logStep (.append msg kLargeBuffer)
  pure { s with mutex := some (.caller (.appended (¬ kLargeBuffer > msg.length))) }

/-- `buffers_.empty()`: the wait gives up the mutex until its deadline, the swap keeps it. -/
def threadTest (s : PosixLog) (flushInterval : Int) : PosixLog :=
  if s.log.buffers = [] then
    { s with
      log := { s.log with thread := .waiting }
      mutex := none
      deadline := s.clock.deadline flushInterval }
  else
    { s with log := s.log.swap }

/-- `pthread_cond_timedwait` takes the mutex again before it returns. -/
def wake (s : PosixLog) (result : Nat) : Except PosixFault PosixLog :=
  call s "wait for seconds" result (some .background)

def step (flushInterval : Int) (s : PosixLog) : PosixOp → Except PosixFault PosixLog
  | .setRunning => s.logStep .setRunning
  | .spawn => s.logStep .spawn
  | .clearRunning => s.logStep .clearRunning
  | .stopSignal result => do
    let s ← s.call "signal" result s.mutex
    s.logStep .signal
  | .join => s.logStep .join
  | .lock result => s.call "Lock mutex" result (some (.caller .locked))
  | .append msg => s.append msg
  | .signal result => s.call "signal" result (some (.caller (.appended false)))
  | .unlock result => s.call "Unlock mutex" result none
  | .threadLock result => s.call "Lock mutex" result (some .background)
  | .threadTest => .ok (s.threadTest flushInterval)
  | .wake result => s.wake result
  | .threadSwap => .ok { s with log := s.log.swap }
  | .threadUnlock result => s.call "Unlock mutex" result none
  | .run => s.logStep .run
  | .tick clock => .ok { s with clock := clock }

/-- Who may move, and the documented results of the calls: zero, or the timeout of a wait
whose deadline was reached. -/
def Enabled (s : PosixLog) : PosixOp → Prop
  | .setRunning => s.log.owner = .created
  | .spawn => s.log.owner = .starting
  | .clearRunning => s.log.owner = .started
  | .stopSignal result => s.log.owner = .stopping ∧ result = 0
  | .join => s.log.owner = .signalled ∧ s.log.thread = .done
  | .lock result => s.mutex = none ∧ result = 0
  | .append _ => s.mutex = some (.caller .locked)
  | .signal result => s.mutex = some (.caller (.appended true)) ∧ result = 0
  | .unlock result => s.mutex = some (.caller (.appended false)) ∧ result = 0
  | .threadLock result => s.log.thread = .lock ∧ s.mutex = none ∧ result = 0
  | .threadTest => s.log.thread = .lock ∧ s.mutex = some .background
  | .wake result => s.log.thread = .waiting ∧ s.mutex = none ∧ TimedWaitReturns s.clock s.deadline result
  | .threadSwap => s.log.thread = .waiting ∧ s.mutex = some .background
  | .threadUnlock result => s.log.thread = .swapped ∧ s.mutex = some .background ∧ result = 0
  | .run => s.log.thread ∉ [.absent,.done,.lock,.waiting] ∧ s.mutex ≠ some .background
  | .tick _ => True

def machine (flushInterval : Int) : Machine PosixLog PosixOp PosixFault := ⟨Enabled,step flushInterval⟩

instance (s : PosixLog) : (op : PosixOp) → Decidable (s.Enabled op)
  | .setRunning | .spawn | .clearRunning | .append _ => inferInstanceAs (Decidable (_ = _))
  | .stopSignal _ | .join | .lock _ | .signal _ | .unlock _ => inferInstanceAs (Decidable (_ ∧ _))
  | .threadLock _ | .threadTest | .wake _ | .threadSwap | .threadUnlock _ => inferInstanceAs (Decidable (_ ∧ _))
  | .run => inferInstanceAs (Decidable (_ ∧ _))
  | .tick _ => inferInstanceAs (Decidable True)

instance (secs : Int) (s : PosixLog) (op : PosixOp) : Decidable ((machine secs).Enabled s op) :=
  inferInstanceAs (Decidable (s.Enabled op))

private theorem logStep_ok {lop : AsyncLogging.LogOp} (h : s.logStep lop = .ok t) :
    AsyncLogging.appends.step s.log lop = .ok t.log := by
  unfold logStep at h
  cases hr : AsyncLogging.appends.step s.log lop with
  | ok log =>
    rw [hr] at h
    cases h
    rfl
  | error fault =>
    rw [hr] at h
    cases h

private theorem call_log {label : String} {result : Nat} {mutex : Option Holder} (h : s.call label result mutex = .ok t) :
    t.log = s.log := by
  obtain ⟨-,-,ht⟩ := bind_eq_ok h
  cases ht
  rfl

private theorem run_enabled {x : ThreadPoint} (ht : s.log.thread = x) (hx : x ≠ .absent ∧ x ≠ .done) :
    AsyncLogging.appends.Enabled s.log .run := by
  change s.log.thread ≠ .absent ∧ s.log.thread ≠ .done
  rw [ht]
  exact hx

private theorem step_log {secs : Int} {op : PosixOp} (he : s.Enabled op) (h : step secs s op = .ok t) :
    t.log = s.log ∨ ∃ lop, AsyncLogging.appends.Enabled s.log lop ∧ AsyncLogging.appends.step s.log lop = .ok t.log := by
  cases op with
  | setRunning => exact .inr ⟨.setRunning,he,logStep_ok h⟩
  | spawn => exact .inr ⟨.spawn,he,logStep_ok h⟩
  | clearRunning => exact .inr ⟨.clearRunning,he,logStep_ok h⟩
  | stopSignal result =>
    obtain ⟨u,hu,ht⟩ := bind_eq_ok h
    have hlog := logStep_ok ht
    rw [call_log hu] at hlog
    exact .inr ⟨.signal,he.1,hlog⟩
  | join => exact .inr ⟨.join,he,logStep_ok h⟩
  | lock result => exact .inl (call_log h)
  | append msg =>
    obtain ⟨u,hu,ht⟩ := bind_eq_ok h
    have hlog := logStep_ok hu
    cases ht
    exact .inr ⟨.append msg kLargeBuffer,rfl,hlog⟩
  | signal result => exact .inl (call_log h)
  | unlock result => exact .inl (call_log h)
  | threadLock result => exact .inl (call_log h)
  | threadTest =>
    cases h
    refine .inr ⟨.run,run_enabled he.1 (by decide),?_⟩
    change s.log.run = _
    unfold AsyncLogging.run AsyncLogging.lock threadTest
    rw [he.1]
    dsimp only
    split
    · rfl
    · rfl
  | wake result => exact .inl (call_log h)
  | threadSwap =>
    cases h
    refine .inr ⟨.run,run_enabled he.1 (by decide),?_⟩
    change s.log.run = _
    unfold AsyncLogging.run
    rw [he.1]
    rfl
  | threadUnlock result => exact .inl (call_log h)
  | run =>
    have hthread := he.1
    simp only [List.mem_cons,List.not_mem_nil,or_false,not_or] at hthread
    exact .inr ⟨.run,⟨hthread.1,hthread.2.1⟩,logStep_ok h⟩
  | tick clock =>
    cases h
    exact .inl rfl

/-- The log with its mutex is the log: every run is one of the log alone. -/
theorem exec_refines_log {flushInterval : Int} {clock : Timespec} {ops : List PosixOp}
    (ha : (machine flushInterval).Admissible (new clock) ops) (h : (machine flushInterval).exec (new clock) ops = .ok s) :
    ∃ lops, AsyncLogging.appends.Admissible .new lops ∧ AsyncLogging.appends.exec .new lops = .ok s.log := by
  refine (machine flushInterval).exec_ok_invariant (I := fun s => ∃ lops,
    AsyncLogging.appends.Admissible .new lops ∧ AsyncLogging.appends.exec .new lops = .ok s.log) ?_ ⟨[],trivial,rfl⟩ ha h
  rintro s t op ⟨lops,hlops,hexec⟩ hen hstep
  rcases step_log hen hstep with hlog | ⟨lop,hlop,hlog⟩
  · rw [hlog]
    exact ⟨lops,hlops,hexec⟩
  · refine ⟨lops ++ [lop],AsyncLogging.appends.admissible_of_append hlops hexec ⟨hlop,?_⟩,?_⟩
    · rw [hlog]
      trivial
    · rw [AsyncLogging.appends.exec_append_ok hexec,Machine.exec,hlog]
      rfl

/-- A wait of the run does not end by its timeout. -/
def InTime (_ : PosixLog) (op : PosixOp) : Prop := op ≠ .wake ETIMEDOUT

instance (s : PosixLog) (op : PosixOp) : Decidable (s.InTime op) := inferInstanceAs (Decidable (¬ _))

private theorem wake_timeout (s : PosixLog) :
    s.wake ETIMEDOUT = .error (.abort ⟨"wait for seconds",ETIMEDOUT⟩) := rfl

/-- The fault is one of the log's own. -/
private def NotAbort (fault : PosixFault) : Prop := ∀ a, fault ≠ .abort a

private theorem logStep_notAbort (s : PosixLog) (op : AsyncLogging.LogOp) :
    Meets (fun _ => True) NotAbort (s.logStep op) := by
  unfold logStep
  cases AsyncLogging.appends.step s.log op with
  | ok log => trivial
  | error fault => exact fun a => nofun

private theorem step_notAbort (secs : Int) {op : PosixOp} (he : s.Enabled op) (hw : ∀ result, op ≠ .wake result) :
    Meets (fun _ => True) NotAbort (step secs s op) := by
  cases op with
  | setRunning => exact logStep_notAbort s _
  | spawn => exact logStep_notAbort s _
  | clearRunning => exact logStep_notAbort s _
  | stopSignal result =>
    obtain ⟨-,rfl⟩ := he
    change Meets _ _ (s.logStep .signal)
    exact logStep_notAbort s _
  | join => exact logStep_notAbort s _
  | lock result =>
    obtain ⟨-,rfl⟩ := he
    trivial
  | append msg => exact (logStep_notAbort s _).bind fun _ _ => trivial
  | signal result =>
    obtain ⟨-,rfl⟩ := he
    trivial
  | unlock result =>
    obtain ⟨-,rfl⟩ := he
    trivial
  | threadLock result =>
    obtain ⟨-,-,rfl⟩ := he
    trivial
  | threadTest => trivial
  | wake result => exact (hw result rfl).elim
  | threadSwap => trivial
  | threadUnlock result =>
    obtain ⟨-,-,rfl⟩ := he
    trivial
  | run => exact logStep_notAbort s _
  | tick clock => trivial

/-- The run does not end in `abort()`, and each of its waits comes back with the mutex. -/
def KeepsRunning (secs : Int) (s : PosixLog) (ops : List PosixOp) : Prop :=
  (∀ a, (machine secs).exec s ops ≠ .error (.abort a)) ∧
  ∀ before result after t, ops = before ++ .wake result :: after → (machine secs).exec s before = .ok t →
    ∃ u, (machine secs).step t (.wake result) = .ok u ∧ u.mutex = some .background

private theorem keepsRunning_nil (secs : Int) (s : PosixLog) : KeepsRunning secs s [] := by
  refine ⟨fun a => nofun,?_⟩
  intro before result after t hops
  cases before <;> cases hops

private theorem keepsRunning_cons_ok {secs : Int} {op : PosixOp} {ops : List PosixOp} (hstep : step secs s op = .ok t)
    (hmutex : ∀ result, op = .wake result → t.mutex = some .background) :
    KeepsRunning secs s (op :: ops) ↔ KeepsRunning secs t ops := by
  have hexec (ops : List PosixOp) : (machine secs).exec s (op :: ops) = (machine secs).exec t ops := by
    change (step secs s op >>= fun t => (machine secs).exec t ops) = _
    rw [hstep,bind_ok]
  refine and_congr ?_ ?_
  · rw [hexec]
  · constructor
    · intro hwakes before result after u hops hu
      exact hwakes (op :: before) result after u (by rw [hops]; rfl) (by rw [hexec]; exact hu)
    · intro hwakes before result after u hops hu
      cases before with
      | nil =>
        cases hu
        cases hops
        exact ⟨t,hstep,hmutex result rfl⟩
      | cons first before =>
        cases hops
        rw [hexec] at hu
        exact hwakes before result after u rfl hu

private theorem keepsRunning_cons_error {secs : Int} {op : PosixOp} {ops : List PosixOp} {fault : PosixFault}
    (hstep : step secs s op = .error fault) (hfault : NotAbort fault) (hw : ∀ result, op ≠ .wake result) :
    KeepsRunning secs s (op :: ops) := by
  have hexec (ops : List PosixOp) : (machine secs).exec s (op :: ops) = .error fault := by
    change (step secs s op >>= fun t => (machine secs).exec t ops) = _
    rw [hstep,bind_error]
  refine ⟨?_,?_⟩
  · intro a ha
    rw [hexec] at ha
    exact hfault a (Except.error.inj ha)
  · intro before result after u hops hu
    cases before with
    | nil =>
      cases hops
      exact (hw result rfl).elim
    | cons first before =>
      cases hops
      rw [hexec] at hu
      cases hu

private theorem not_keepsRunning_timeout (secs : Int) (s : PosixLog) (ops : List PosixOp) :
    ¬ KeepsRunning secs s (.wake ETIMEDOUT :: ops) := by
  intro h
  have hexec : (machine secs).exec s (.wake ETIMEDOUT :: ops) = .error (.abort ⟨"wait for seconds",ETIMEDOUT⟩) := by
    change (s.wake ETIMEDOUT >>= fun t => (machine secs).exec t ops) = _
    rw [wake_timeout,bind_error]
  exact h.1 _ hexec

/-- From any state: the run goes on exactly when every wait ends in time. -/
theorem keepsRunning_iff (secs : Int) (ops : List PosixOp) : ∀ s, (machine secs).Admissible s ops →
    (KeepsRunning secs s ops ↔ ((machine secs).guard InTime).Admissible s ops) := by
  induction ops with
  | nil => exact fun s _ => ⟨fun _ => trivial,fun _ => keepsRunning_nil secs s⟩
  | cons op ops ih =>
    intro s ha
    have hen : s.Enabled op := ha.1
    by_cases hw : ∃ result, op = .wake result
    · obtain ⟨result,rfl⟩ := hw
      rcases hen.2.2 with rfl | ⟨rfl,-⟩
      · have hstep : step secs s (.wake 0) = .ok { s with mutex := some .background } := rfl
        have hnext := (machine secs).admissible_step ha hstep
        rw [keepsRunning_cons_ok hstep fun _ _ => rfl,ih _ hnext]
        exact ⟨fun h => ⟨⟨hen,nofun⟩,h⟩,fun h => ((machine secs).guard InTime).admissible_step h hstep⟩
      · exact ⟨fun h => (not_keepsRunning_timeout secs s ops h).elim,fun h => (h.1.2 rfl).elim⟩
    · have hno (result : Nat) : op ≠ .wake result := fun h => hw ⟨result,h⟩
      have hnot := step_notAbort secs hen hno
      cases hstep : step secs s op with
      | ok t =>
        have hnext := (machine secs).admissible_step ha hstep
        rw [keepsRunning_cons_ok hstep fun result h => (hno result h).elim,ih t hnext]
        refine ⟨fun h => ⟨⟨hen,hno ETIMEDOUT⟩,?_⟩,fun h => ((machine secs).guard InTime).admissible_step h hstep⟩
        rw [show ((machine secs).guard InTime).step s op = .ok t from hstep]
        exact h
      | error fault =>
        rw [hstep] at hnot
        refine ⟨fun _ => ⟨⟨hen,hno ETIMEDOUT⟩,?_⟩,fun _ => keepsRunning_cons_error hstep hnot hno⟩
        rw [show ((machine secs).guard InTime).step s op = .error fault from hstep]
        trivial

/-- In every run with documented results: `abort()` is never reached, and every timed wait
returns with the mutex held, exactly when no timed wait of the run ends by its timeout. -/
theorem logger_keeps_running_iff (flushInterval : Int) (clock : Timespec) (ops : List PosixOp)
    (ha : (machine flushInterval).Admissible (new clock) ops) :
    KeepsRunning flushInterval (new clock) ops ↔
      ((machine flushInterval).guard InTime).Admissible (new clock) ops :=
  keepsRunning_iff flushInterval ops (new clock) ha

private def untilWait : List PosixOp :=
  [.setRunning,.spawn,.run,.run,.threadLock 0,.threadTest]

private def signalledInTime : List PosixOp :=
  untilWait ++ [.clearRunning,.stopSignal 0,.wake 0,.threadSwap,.threadUnlock 0]

/-- `stop()` signals before the deadline of three seconds. -/
theorem logger_keeps_running_signalled : (machine 3).Admissible (new ⟨100,0⟩) signalledInTime ∧
    (KeepsRunning 3 (new ⟨100,0⟩) signalledInTime ↔
      ((machine 3).guard InTime).Admissible (new ⟨100,0⟩) signalledInTime) := by
  have ha : (machine 3).Admissible (new ⟨100,0⟩) signalledInTime := by decide +kernel
  exact ⟨ha,logger_keeps_running_iff 3 ⟨100,0⟩ signalledInTime ha⟩

/-- Three idle seconds: the wait times out, and the wrapper takes its result for an error. -/
theorem idle_logger_aborts : (machine 3).Admissible (new ⟨100,0⟩) (untilWait ++ [.tick ⟨103,0⟩,.wake ETIMEDOUT]) ∧
    (machine 3).exec (new ⟨100,0⟩) (untilWait ++ [.tick ⟨103,0⟩,.wake ETIMEDOUT]) =
      .error (.abort ⟨"wait for seconds",ETIMEDOUT⟩) := by
  refine ⟨by decide +kernel,by decide +kernel⟩

end PosixLog
end LearningMuduo.Logging
