import LearningMuduo.Logging.LogFileBounds
import LearningMuduo.Logging.LogOrder

/-! The asynchronous log and the file it writes to as one system: `threadFunc` with its local
`output`, from the callers of `append` to the directory. -/
namespace LearningMuduo.Logging
open Library Common

/-- `output` is the local of `threadFunc`, there from its entry on. -/
structure LogPipeline where
  basename : List UInt8
  rollSize : Nat
  log : AsyncLogging
  output : Option LogFile
  deriving DecidableEq, Repr

/-- A step of the callers and the owner, or one of the background thread with what it meets
outside: the memory of `checkEveryN_`, the results of `fwrite`, how many bytes the stream writes
out by itself and the two readings of the clock. -/
inductive PipelineOp where
  | caller (op : AsyncLogging.LogOp)
  | thread (memory : Int) (results : List Nat) (drained now rollNow : Nat)
  deriving DecidableEq, Repr

def PipelineOp.logOp : PipelineOp → AsyncLogging.LogOp
  | .caller op => op
  | .thread .. => .run

/-- The buffer that the next step of the background thread hands to `output`. -/
def AsyncLogging.handed (s : AsyncLogging) : Option FixedBuffer :=
  match s.thread with
  | .writing i => s.buffersToWrite[i]?.join
  | _ => none

namespace LogPipeline

def new (basename : List UInt8) (rollSize : Nat) : LogPipeline := ⟨basename,rollSize,.new,none⟩

/-- The statements of `threadFunc` about `output`: it is constructed with `threadSafe` false and
the other arguments by default, takes each buffer, and is flushed after a batch and in the end. -/
def outputStep (s : LogPipeline) (memory : Int) (results : List Nat) (drained now rollNow : Nat) : Option LogFile :=
  match s.log.thread with
  | .entry => some (.new s.basename s.rollSize 3 1024 memory now)
  | .writing _ =>
    match s.log.handed with
    | some b => s.output.map fun f => { f.appendUnlocked b.data results drained now rollNow with clock := rollNow }
    | none => s.output
  | .recycling => s.output.map LogFile.flush
  | .test => if s.log.running = true then s.output else s.output.map LogFile.flush
  | _ => s.output

/-- The clock does not go back, writes succeed, and the steps of the log are as before. -/
def Enabled (s : LogPipeline) : PipelineOp → Prop
  | .caller op => op ≠ .run ∧ s.log.Enabled op
  | .thread _ results _ now rollNow =>
    s.log.Enabled .run ∧ results = [] ∧ (∀ f ∈ s.output, f.clock ≤ now) ∧ now ≤ rollNow

instance (s : LogPipeline) : (op : PipelineOp) → Decidable (s.Enabled op)
  | .caller _ => inferInstanceAs (Decidable (_ ∧ _))
  | .thread .. => inferInstanceAs (Decidable (_ ∧ _ ∧ _ ∧ _))

def machine : Machine LogPipeline PipelineOp LogFault where
  Enabled := Enabled
  step s
    | .caller op => do
      let log ← AsyncLogging.machine.step s.log op
      pure { s with log := log }
    | .thread memory results drained now rollNow => do
      let log ← s.log.run
      pure { s with log := log,output := s.outputStep memory results drained now rollNow }

instance (s : LogPipeline) (op : PipelineOp) : Decidable (machine.Enabled s op) :=
  inferInstanceAs (Decidable (s.Enabled op))

/-- What the directory holds once the file is closed, and what it holds now. -/
def files (s : LogPipeline) : List (List UInt8) := (s.output.map LogFile.files).getD []

def disk (s : LogPipeline) : List (List UInt8) := (s.output.map fun f => f.directory.map File.bytes).getD []

/-- The background thread is between two batches, or gone. -/
def BetweenBatches (s : LogPipeline) : Prop :=
  s.log.thread ≠ .recycling ∧ ∀ i, s.log.thread ≠ .writing i

/-- What was written to `output`, buffer by buffer, and what its stream may hold back. -/
structure Feeds (log : AsyncLogging) (f : LogFile) : Prop where
  logged : f.Logged False
  batches : ∃ bs : List (List Entry), f.messages = bs.map (List.flatMap Entry.bytes) ∧ bs.flatten = log.output
  flushed : log.thread ≠ .recycling → (∀ i, log.thread ≠ .writing i) → f.file.pending = []

structure Piped (s : LogPipeline) (es : List Entry) : Prop where
  sound : s.log.Sound
  appended : s.log.appended = es
  unopened : s.log.thread = .absent ∨ s.log.thread = .entry → s.output = none ∧ s.log.output = []
  opened : s.log.thread ≠ .absent → s.log.thread ≠ .entry → ∃ f, s.output = some f ∧ Feeds s.log f

/-- Buffers written into groups, one for each file: the messages fall into the same groups. -/
theorem exists_grouping {α β : Type} {g : α → β} {groups : List (List β)} {bs : List α}
    (h : groups.flatten = bs.map g) : ∃ parts : List (List α), groups = parts.map (List.map g) ∧ parts.flatten = bs := by
  induction groups generalizing bs with
  | nil =>
    refine ⟨[],rfl,?_⟩
    exact (List.map_eq_nil_iff.mp h.symm).symm
  | cons group groups ih =>
    obtain ⟨front,back,rfl,rfl,hback⟩ := List.map_eq_append_iff.mp h.symm
    obtain ⟨parts,rfl,rfl⟩ := ih hback.symm
    exact ⟨front :: parts,rfl,rfl⟩

/-- The files hold the messages written, none of them divided. -/
theorem Feeds.files_eq {log : AsyncLogging} {f : LogFile} (h : Feeds log f) : ∃ groups : List (List Entry),
    f.files = groups.map (List.flatMap Entry.bytes) ∧ groups.flatten = log.output := by
  obtain ⟨closed,t,disk,group,hl,-⟩ := h.logged
  obtain ⟨bs,hmessages,hflat⟩ := h.batches
  have hgroups : (closed.map Prod.snd ++ [group]).flatten = bs.map (List.flatMap Entry.bytes) := by
    rw [← hmessages,hl.messages,List.flatten_append,List.flatten_singleton]
  obtain ⟨parts,hparts,rfl⟩ := exists_grouping hgroups
  refine ⟨parts.map List.flatten,?_,?_⟩
  · rw [hl.files_eq,hparts,List.map_map,List.map_map]
    refine List.map_congr_left fun part _ => ?_
    change (part.map (List.flatMap Entry.bytes)).flatten = part.flatten.flatMap Entry.bytes
    rw [List.flatMap_def,List.map_flatten,List.flatten_flatten,List.map_map]
    rfl
  · rw [← List.flatten_flatten,hflat]

/-- At first nothing is written and no file is open. -/
theorem new_piped (basename : List UInt8) (rollSize : Nat) : Piped (new basename rollSize) [] :=
  ⟨AsyncLogging.new_sound,rfl,fun _ => ⟨rfl,rfl⟩,fun h => (h rfl).elim⟩

variable {s t : LogPipeline} {log : AsyncLogging} {es : List Entry}

private theorem caller_frame {op : AsyncLogging.LogOp} (hop : op ≠ .run)
    (h : AsyncLogging.machine.step s.log op = .ok log) :
    log.output = s.log.output ∧ (log.thread = s.log.thread ∨ op = .spawn ∧ log.thread = .entry) := by
  cases op with
  | append msg available =>
    change s.log.append msg available = .ok log at h
    unfold AsyncLogging.append at h
    dsimp only at h
    split at h
    · cases h
    · split at h
      · obtain ⟨b,-,hb⟩ := bind_eq_ok h
        cases hb
        exact ⟨rfl,.inl rfl⟩
      · obtain ⟨b,-,hb⟩ := bind_eq_ok h
        cases hb
        exact ⟨rfl,.inl rfl⟩
  | setRunning | clearRunning | signal | join =>
    cases h
    exact ⟨rfl,.inl rfl⟩
  | spawn =>
    cases h
    exact ⟨rfl,.inr ⟨rfl,rfl⟩⟩
  | run => exact (hop rfl).elim

private theorem run_frame (h : s.log.run = .ok log) :
    log.output = s.log.output ++ ((s.log.handed.map FixedBuffer.entries).getD []) ∧
    match s.log.thread with
    | .absent => log.thread = .absent
    | .entry | .recycling => log.thread = .test
    | .test => log.thread = if s.log.running = true then .lock else .done
    | .lock => log.thread = .waiting ∨ log.thread = .swapped
    | .waiting => log.thread = .swapped
    | .swapped => log.thread = .writing 0
    | .writing i => log.thread = .writing (i+1) ∨ log.thread = .recycling ∧ s.log.handed = none
    | .done => log.thread = .done := by
  unfold AsyncLogging.run at h
  unfold AsyncLogging.handed
  cases ht : s.log.thread with
  | absent | done =>
    rw [ht] at h
    cases h
    exact ⟨(List.append_nil _).symm,ht⟩
  | entry =>
    rw [ht] at h
    cases h
    exact ⟨(List.append_nil _).symm,rfl⟩
  | test =>
    rw [ht] at h
    dsimp only at h ⊢
    unfold AsyncLogging.test at h
    by_cases hr : s.log.running = true
    · rw [if_pos hr] at h
      obtain ⟨-,-,h⟩ := bind_eq_ok h
      obtain ⟨-,-,h⟩ := bind_eq_ok h
      obtain ⟨-,-,h⟩ := bind_eq_ok h
      cases h
      exact ⟨(List.append_nil _).symm,(if_pos hr).symm⟩
    · rw [if_neg hr] at h
      cases h
      exact ⟨(List.append_nil _).symm,(if_neg hr).symm⟩
  | lock =>
    rw [ht] at h
    dsimp only at h ⊢
    unfold AsyncLogging.lock at h
    split at h
    · cases h
      exact ⟨(List.append_nil _).symm,.inl rfl⟩
    · cases h
      rw [AsyncLogging.swap_eq]
      exact ⟨(List.append_nil _).symm,.inr rfl⟩
  | waiting =>
    rw [ht] at h
    cases h
    rw [AsyncLogging.swap_eq]
    exact ⟨(List.append_nil _).symm,rfl⟩
  | swapped =>
    rw [ht] at h
    dsimp only at h ⊢
    obtain ⟨-,-,h⟩ := bind_eq_ok h
    dsimp only at h
    split at h
    · cases h
      exact ⟨(List.append_nil _).symm,rfl⟩
    · cases h
      exact ⟨(List.append_nil _).symm,rfl⟩
  | writing i =>
    rw [ht] at h
    dsimp only at h ⊢
    unfold AsyncLogging.write at h
    split at h
    · rename_i b hb
      cases h
      rw [hb]
      exact ⟨rfl,.inl rfl⟩
    · cases h
    · rename_i hb
      cases h
      rw [hb]
      exact ⟨(List.append_nil _).symm,.inr ⟨rfl,rfl⟩⟩
  | recycling =>
    rw [ht] at h
    dsimp only at h ⊢
    unfold AsyncLogging.recycle at h
    dsimp only at h
    obtain ⟨⟨newBuffer1,toWrite⟩,-,h⟩ := bind_eq_ok h
    obtain ⟨⟨newBuffer2,rest⟩,-,h⟩ := bind_eq_ok h
    cases h
    exact ⟨(List.append_nil _).symm,rfl⟩

private theorem run_ahead (h : s.log.run = .ok log) (hne : s.log.thread ≠ .absent) :
    log.thread ≠ .absent ∧ log.thread ≠ .entry := by
  obtain ⟨-,hpoint⟩ := run_frame h
  cases ht : s.log.thread with
  | absent => exact (hne ht).elim
  | entry | waiting | swapped | recycling | done =>
    rw [ht] at hpoint
    simp [hpoint]
  | test =>
    rw [ht] at hpoint
    dsimp only at hpoint
    rw [hpoint]
    split <;> simp
  | lock | writing i =>
    rw [ht] at hpoint
    rcases hpoint with hpoint | hpoint <;> simp [hpoint]

private theorem appendUnlocked_messages (f : LogFile) (msg : List UInt8) (results : List Nat) (drained now rollNow : Nat) :
    (f.appendUnlocked msg results drained now rollNow).messages = f.messages ++ [msg] := by
  rw [LogFile.appendUnlocked]
  dsimp only
  split
  · rfl
  · split
    · split
      · rfl
      · split <;> rfl
    · rfl

variable {f : LogFile}

private theorem Feeds.append (h : Feeds s.log f) {b : FixedBuffer} {drained now rollNow : Nat} (hclock : f.clock ≤ now)
    (hnow : now ≤ rollNow) (hout : log.output = s.log.output ++ b.entries) {i : Nat} (ht : log.thread = .writing i) :
    Feeds log { f.appendUnlocked b.data [] drained now rollNow with clock := rollNow } where
  logged := by
    obtain ⟨f',hf',hl⟩ := h.logged.step (a := .append b.data [] drained now rollNow) ⟨rfl,hclock,hnow⟩ False.elim
    cases hf'
    exact hl
  batches := by
    obtain ⟨bs,hmessages,hflat⟩ := h.batches
    refine ⟨bs ++ [b.entries],?_,?_⟩
    · rw [appendUnlocked_messages,hmessages,List.map_append]
      rfl
    · rw [List.flatten_append,List.flatten_singleton,hflat,hout]
  flushed _ hw := (hw i ht).elim

private theorem Feeds.flush (h : Feeds s.log f) (hout : log.output = s.log.output) : Feeds log f.flush where
  logged := by
    obtain ⟨f',hf',hl⟩ := h.logged.step (a := .flush) trivial False.elim
    cases hf'
    exact hl
  batches := by
    obtain ⟨bs,hmessages,hflat⟩ := h.batches
    exact ⟨bs,hmessages,hflat.trans hout.symm⟩
  flushed _ _ := List.drop_length

private theorem Feeds.keep (h : Feeds s.log f) (hout : log.output = s.log.output)
    (hpoint : log.thread ≠ .recycling → (∀ i, log.thread ≠ .writing i) → f.file.pending = []) : Feeds log f where
  logged := h.logged
  batches := by
    obtain ⟨bs,hmessages,hflat⟩ := h.batches
    exact ⟨bs,hmessages,hflat.trans hout.symm⟩
  flushed := hpoint

private theorem feeds_new (basename : List UInt8) (rollSize : Nat) (memory : Int) (now : Nat) (hout : log.output = []) :
    Feeds log (.new basename rollSize 3 1024 memory now) :=
  ⟨LogFile.new_logged ..,⟨[],rfl,hout.symm⟩,fun _ _ => rfl⟩

/-- One step of the background thread, with what it does to the file. -/
theorem Piped.thread_opened (h : s.Piped es) {memory : Int} {drained now rollNow : Nat}
    (hclock : ∀ f ∈ s.output, f.clock ≤ now) (hnow : now ≤ rollNow) (hne : s.log.thread ≠ .absent)
    (hrun : s.log.run = .ok log) : ∃ f, s.outputStep memory [] drained now rollNow = some f ∧ Feeds log f := by
  obtain ⟨hout,hpoint⟩ := run_frame hrun
  unfold outputStep
  by_cases hentry : s.log.thread = .entry
  · rw [hentry]
    refine ⟨_,rfl,feeds_new s.basename s.rollSize memory now ?_⟩
    rw [hout,(h.unopened (.inr hentry)).2,AsyncLogging.handed,hentry]
    rfl
  obtain ⟨f,hf,hfeeds⟩ := h.opened hne hentry
  have hquiet : s.log.handed = none → log.output = s.log.output := by
    intro hhand
    rw [hout,hhand]
    exact List.append_nil _
  cases ht : s.log.thread with
  | absent => exact (hne ht).elim
  | entry => exact (hentry ht).elim
  | done | lock | waiting | swapped =>
    -- none of these points is inside a batch
    have hpending : f.file.pending = [] := hfeeds.flushed (by rw [ht]; intro h; cases h) (by rw [ht]; intro i h; cases h)
    exact ⟨f,hf,hfeeds.keep (hquiet (by rw [AsyncLogging.handed,ht])) fun _ _ => hpending⟩
  | test =>
    have hpending : f.file.pending = [] := hfeeds.flushed (by rw [ht]; intro h; cases h) (by rw [ht]; intro i h; cases h)
    have hsame := hquiet (by rw [AsyncLogging.handed,ht])
    dsimp only
    split
    · exact ⟨f,hf,hfeeds.keep hsame fun _ _ => hpending⟩
    · exact ⟨f.flush,by rw [hf]; rfl,hfeeds.flush hsame⟩
  | recycling => exact ⟨f.flush,by rw [hf]; rfl,hfeeds.flush (hquiet (by rw [AsyncLogging.handed,ht]))⟩
  | writing i =>
    rw [ht] at hpoint
    dsimp only at hpoint ⊢
    cases hhand : s.log.handed with
    | none =>
      refine ⟨f,hf,hfeeds.keep (hquiet hhand) fun hr hw => ?_⟩
      rcases hpoint with hpoint | ⟨hpoint,-⟩
      · exact (hw _ hpoint).elim
      · exact (hr hpoint).elim
    | some b =>
      rw [hhand] at hout hpoint
      rcases hpoint with hpoint | ⟨-,hnone⟩
      · refine ⟨_,by rw [hf]; rfl,hfeeds.append (hclock f hf) hnow hout hpoint⟩
      · cases hnone

private theorem Piped.run (h : s.Piped es) {memory : Int} {drained now rollNow : Nat}
    (he : s.log.Enabled .run) (hclock : ∀ f ∈ s.output, f.clock ≤ now) (hnow : now ≤ rollNow) :
    ∃ t, machine.step s (.thread memory [] drained now rollNow) = .ok t ∧ t.Piped (AsyncLogging.record es .run) := by
  have hen : AsyncLogging.machine.Enabled s.log .run := he
  obtain ⟨log,hlog,hmoves,happ⟩ := h.sound.step hen
  have hrun : s.log.run = .ok log := hlog
  obtain ⟨f,hf,hfeeds⟩ := h.thread_opened hclock hnow he.1 hrun
  refine ⟨_,by change (s.log.run >>= _) = _; rw [hrun]; rfl,hmoves.sound h.sound,?_,?_,fun _ _ => ⟨f,hf,hfeeds⟩⟩
  · rw [← h.appended]
    exact happ
  · obtain ⟨hne,hentry⟩ := run_ahead hrun he.1
    exact fun hpoint => (hpoint.elim hne hentry).elim

private theorem Piped.caller (h : s.Piped es) {op : AsyncLogging.LogOp} (hop : op ≠ .run)
    (he : AsyncLogging.machine.Enabled s.log op) :
    ∃ t, machine.step s (.caller op) = .ok t ∧ t.Piped (AsyncLogging.record es op) := by
  obtain ⟨log,hlog,hmoves,happ⟩ := h.sound.step he
  obtain ⟨hout,hthread⟩ := caller_frame hop hlog
  refine ⟨_,by change (AsyncLogging.machine.step s.log op >>= _) = _; rw [hlog]; rfl,hmoves.sound h.sound,?_,?_,?_⟩
  · rw [← h.appended]
    exact happ
  · intro hpoint
    dsimp only at hpoint ⊢
    rw [hout]
    rcases hthread with hsame | ⟨rfl,-⟩
    · exact h.unopened (by rwa [hsame] at hpoint)
    · have ho := h.sound.order
      rw [AsyncLogging.Ordered,show s.log.owner = .starting from he] at ho
      exact h.unopened (.inl ho.1)
  · intro hne hentry
    dsimp only at hne hentry ⊢
    rcases hthread with hsame | ⟨-,hthread⟩
    · rw [hsame] at hne hentry
      obtain ⟨f,hf,hfeeds⟩ := h.opened hne hentry
      refine ⟨f,hf,hfeeds.keep hout fun hr hw => hfeeds.flushed ?_ ?_⟩
      · rwa [hsame] at hr
      · rwa [hsame] at hw
    · exact (hentry hthread).elim

/-- A step of the pipeline succeeds and keeps the file in step with the log. -/
theorem Piped.step (h : s.Piped es) {op : PipelineOp} (he : machine.Enabled s op) :
    ∃ t, machine.step s op = .ok t ∧ t.Piped (AsyncLogging.record es op.logOp) := by
  cases op with
  | caller op => exact h.caller he.1 he.2
  | thread memory results drained now rollNow =>
    obtain ⟨hen,rfl,hclock,hnow⟩ := he
    exact h.run hen hclock hnow

/-- The messages of the callers, in the order of the mutex. -/
def sent (ops : List PipelineOp) : List Entry := AsyncLogging.entriesOf (ops.map PipelineOp.logOp)

private theorem exec_piped (basename : List UInt8) (rollSize : Nat) {ops : List PipelineOp}
    (ha : machine.Admissible (new basename rollSize) ops) :
    ∃ s, machine.exec (new basename rollSize) ops = .ok s ∧ s.Piped (sent ops) := by
  refine machine.exec_history (I := fun ops s => s.Piped (sent ops)) (new_piped basename rollSize) ?_ ops ha
  intro before s op h _ he
  have hsent : sent (before ++ [op]) = AsyncLogging.record (sent before) op.logOp := by
    rw [sent,sent,AsyncLogging.entriesOf,AsyncLogging.entriesOf,List.map_append,List.foldl_append]
    rfl
  rw [hsent]
  exact h.step he

/-- The files hold what the log has written, none of it divided between two files. -/
theorem Piped.files_eq (h : s.Piped es) : ∃ groups : List (List Entry),
    s.files = groups.map (List.flatMap Entry.bytes) ∧ groups.flatten = s.log.output := by
  by_cases hpoint : s.log.thread = .absent ∨ s.log.thread = .entry
  · obtain ⟨hnone,hout⟩ := h.unopened hpoint
    refine ⟨[],?_,hout.symm⟩
    rw [files,hnone]
    rfl
  · obtain ⟨f,hf,hfeeds⟩ := h.opened (fun hp => hpoint (.inl hp)) fun hp => hpoint (.inr hp)
    rw [files,hf]
    exact hfeeds.files_eq

/-- Outside a batch the stream holds nothing back. -/
theorem Piped.disk_eq (h : s.Piped es) (hb : s.BetweenBatches) : s.disk = s.files := by
  by_cases hpoint : s.log.thread = .absent ∨ s.log.thread = .entry
  · rw [disk,files,(h.unopened hpoint).1]
    rfl
  · obtain ⟨f,hf,hfeeds⟩ := h.opened (fun hp => hpoint (.inl hp)) fun hp => hpoint (.inr hp)
    rw [disk,files,hf]
    change f.directory.map File.bytes = f.files
    rw [LogFile.files,AppendFile.close_eq,hfeeds.flushed hb.1 hb.2]
    have hwrite : f.directory.write f.file.filename [] = f.directory := by
      rw [Directory.write]
      refine (List.map_congr_left fun g _ => ?_).trans (List.map_id _)
      rw [List.append_nil]
      split <;> rfl
    rw [hwrite]

private def twoFiles : List PipelineOp :=
  [.caller (.append [97,10] 9),.caller .setRunning,.caller .spawn,.thread 1024 [] 0 1709164790 1709164790,
    .thread 0 [] 0 1709164790 1709164790,.thread 0 [] 0 1709164790 1709164790,.thread 0 [] 0 1709164791 1709164791,
    .caller (.append [98,10] 9),.caller (.append [99,10] 1),.thread 0 [] 0 1709164791 1709164791,
    .thread 0 [] 1 1709164791 1709164792,.caller .clearRunning,.thread 0 [] 0 1709164792 1709164792]

end LogPipeline
end LearningMuduo.Logging
