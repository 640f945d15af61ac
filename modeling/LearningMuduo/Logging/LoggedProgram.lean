import LearningMuduo.Logging.LogPipeline
import LearningMuduo.Logging.LogReader

/-! A program that logs: the statements of its threads over the asynchronous log, and what a reader
of the files finds. -/
namespace LearningMuduo.Logging
open Library

/-- `loggers` are the objects of the statements that a thread is in the middle of, the innermost
first, and `fatal` the threads between `g_output` and `abort`. -/
structure LoggedProgram where
  logLevel : LogLevel
  loggers : Nat → List Logger
  fatal : List Nat
  aborted : Bool
  pipeline : LogPipeline

/-- `finish` is the destructor, with the answer of `available()` in `append`. The fields of
`localtime` are what the thread reads there, whoever wrote them. -/
inductive ProgramOp where
  | setLogLevel (level : LogLevel)
  | log (t : Nat) (site : LogSite) (lt : Tm) (usec : Nat) (tid : Int32)
  | insert (t : Nat) (piece : Insertion)
  | finish (t : Nat) (available : Nat)
  | abort (t : Nat)
  | pipeline (op : PipelineOp)
  deriving DecidableEq, Repr

inductive ProgramFault where
  | logger (fault : LoggerFault)
  | log (fault : LogFault)
  deriving DecidableEq, Repr

/-- The log takes a message. -/
def PipelineOp.appends : PipelineOp → Bool
  | .caller (.append _ _) => true
  | _ => false

namespace LoggedProgram

def new (logLevel : LogLevel) (basename : List UInt8) (rollSize : Nat) : LoggedProgram :=
  ⟨logLevel,fun _ => [],[],false,.new basename rollSize⟩

/-- The objects of a thread are replaced. -/
def setLoggers (s : LoggedProgram) (t : Nat) (ls : List Logger) : LoggedProgram :=
  { s with loggers := Function.update s.loggers t ls }

/-- `g_output` is a function that calls `append` of the asynchronous log; `g_flush` has nothing
to flush there. -/
def step (s : LoggedProgram) : ProgramOp → Except ProgramFault LoggedProgram
  | .setLogLevel level => pure { s with logLevel := level }
  | .log t site lt usec tid =>
    if s.logLevel.number ≤ site.level.number then do
      let l ← (Logger.new site lt usec tid).mapError .logger
      pure (s.setLoggers t (l :: s.loggers t))
    else pure s
  | .insert t piece => match s.loggers t with
    | [] => pure s
    | l :: rest => do
      let l ← (l.insert piece).mapError .logger
      pure (s.setLoggers t (l :: rest))
  | .finish t available => match s.loggers t with
    | [] => pure s
    | l :: rest => do
      let line ← l.destroy.mapError .logger
      let pipeline ← (LogPipeline.machine.step s.pipeline (.caller (.append line available))).mapError .log
      let s := { s.setLoggers t rest with pipeline := pipeline }
      pure (if l.level.number ≥ LogLevel.FATAL.number then { s with fatal := t :: s.fatal } else s)
  | .abort _ => pure { s with aborted := true }
  | .pipeline op => do
    let pipeline ← (LogPipeline.machine.step s.pipeline op).mapError .log
    pure { s with pipeline := pipeline }

/-- The thread runs, and has not logged a fatal error. -/
def Runs (s : LoggedProgram) (t : Nat) : Prop := s.aborted = false ∧ t ∉ s.fatal

instance (s : LoggedProgram) (t : Nat) : Decidable (s.Runs t) := inferInstanceAs (Decidable (_ ∧ _))

/-- The log has room for the line that the destructor hands over. -/
def Takes (s : LoggedProgram) (l : Logger) (available : Nat) : Prop :=
  Meets (fun line => LogPipeline.machine.Enabled s.pipeline (.caller (.append line available))) (fun _ => True) l.destroy

instance (s : LoggedProgram) (l : Logger) (available : Nat) : Decidable (s.Takes l available) :=
  inferInstanceAs (Decidable (Meets (fun line => LogPipeline.machine.Enabled s.pipeline (.caller (.append line available)))
    (fun _ => True) l.destroy))

/-- Which steps can happen: `localtime` and `gettimeofday` keep their fields in range. -/
def Enabled (s : LoggedProgram) : ProgramOp → Prop
  | .setLogLevel _ => s.aborted = false
  | .log t _ lt usec _ => s.Runs t ∧ lt.Small ∧ usec < 10^6
  | .insert t _ => s.Runs t ∧ s.loggers t ≠ []
  | .finish t available => s.Runs t ∧ s.loggers t ≠ [] ∧ ∀ l ∈ (s.loggers t).head?, s.Takes l available
  | .abort t => s.aborted = false ∧ t ∈ s.fatal
  | .pipeline op => s.aborted = false ∧ op.appends = false ∧ LogPipeline.machine.Enabled s.pipeline op

instance (s : LoggedProgram) : (op : ProgramOp) → Decidable (s.Enabled op)
  | .setLogLevel _ => inferInstanceAs (Decidable (_ = _))
  | .log t _ lt usec _ => inferInstanceAs (Decidable (s.Runs t ∧ lt.Small ∧ usec < 10^6))
  | .insert t _ => inferInstanceAs (Decidable (s.Runs t ∧ s.loggers t ≠ []))
  | .finish t available => inferInstanceAs (Decidable
      (s.Runs t ∧ s.loggers t ≠ [] ∧ ∀ l ∈ (s.loggers t).head?, s.Takes l available))
  | .abort t => inferInstanceAs (Decidable (_ = _ ∧ t ∈ s.fatal))
  | .pipeline _ => inferInstanceAs (Decidable (_ = _ ∧ _ = _ ∧ _))

def machine : Machine LoggedProgram ProgramOp ProgramFault := ⟨Enabled,step⟩

/-- The year has four digits, and the line, with its tail, stays within the 4000 bytes of the
stream's buffer, whose `available()` does not say how much of them is left. -/
def Room (s : LoggedProgram) : ProgramOp → Prop
  | .log _ site lt usec tid => s.logLevel.number ≤ site.level.number →
      lt.year+1900 < 10000 ∧ (Statement.line ⟨site,lt,usec,tid,[]⟩).length ≤ Common.kSmallBuffer
  | .insert t piece => ∀ l ∈ (s.loggers t).head?,
      l.logStream.buffer.length+piece.text.length+(l.tail.flatMap Insertion.text).length+1 ≤ Common.kSmallBuffer
  | _ => True

instance (s : LoggedProgram) : (op : ProgramOp) → Decidable (s.Room op)
  | .log _ _ _ _ _ => inferInstanceAs (Decidable (_ → _ ∧ _))
  | .insert t _ => inferInstanceAs (Decidable (∀ l ∈ (s.loggers t).head?, _ ≤ _))
  | .setLogLevel _ | .finish _ _ | .abort _ | .pipeline _ => isTrue trivial

instance (s : LoggedProgram) (op : ProgramOp) : Decidable ((machine.guard Room).Enabled s op) :=
  inferInstanceAs (Decidable (s.Enabled op ∧ s.Room op))

end LoggedProgram

/-- The log statements of a program without any buffer: the level, what each thread is in the
middle of, and the statements that are finished, in order. -/
structure Statements where
  logLevel : LogLevel
  begun : Nat → List Statement
  finished : List Statement

namespace Statements

def new (logLevel : LogLevel) : Statements := ⟨logLevel,fun _ => [],[]⟩

def step (q : Statements) : ProgramOp → Statements
  | .setLogLevel level => { q with logLevel := level }
  | .log t site lt usec tid =>
    if q.logLevel.number ≤ site.level.number then
      { q with begun := Function.update q.begun t (⟨site,lt,usec,tid,[]⟩ :: q.begun t) }
    else q
  | .insert t piece => match q.begun t with
    | [] => q
    | st :: rest => { q with begun := Function.update q.begun t ({ st with text := st.text ++ piece.text } :: rest) }
  | .finish t _ => match q.begun t with
    | [] => q
    | st :: rest => { q with begun := Function.update q.begun t rest, finished := q.finished ++ [st] }
  | .abort _ => q
  | .pipeline _ => q

end Statements

/-- The statements that a run finishes. -/
def statements (logLevel : LogLevel) (ops : List ProgramOp) : List Statement :=
  (ops.foldl Statements.step (.new logLevel)).finished

/-- Each line with its place. -/
def numberedLine (p : Statement × Nat) : Entry := ⟨p.2,p.1.line⟩

/-- The object of a statement has written the head and the text, and has room for the rest. -/
structure Logger.Writes (l : Logger) (st : Statement) : Prop where
  file : l.file = SourceFile.new st.site.file
  line : l.line = st.site.line
  written : l.logStream.buffer.written = st.head ++ st.text
  fits : st.line.length ≤ Common.kSmallBuffer
  dated : st.Dated

private theorem Logger.Writes.tail_eq {l : Logger} {st : Statement} (h : l.Writes st) :
    l.tail.flatMap Insertion.text = st.tail := by
  rw [Logger.tail_text,h.file,h.line,Statement.tail]

private theorem Statement.length_line (st : Statement) :
    st.line.length = st.head.length+st.text.length+st.tail.length+1 := by
  rw [Statement.line,List.length_append,List.length_append,List.length_append,List.length_singleton]

/-- The stream of a logger holds the head of its line and the text so far. -/
theorem Logger.Writes.length_eq {l : Logger} {st : Statement} (h : l.Writes st) :
    l.logStream.buffer.length = st.head.length+st.text.length := by
  rw [Common.FixedBuffer.length,h.written,List.length_append]

namespace LoggedProgram
variable {s : LoggedProgram} {q : Statements} {t : Nat}

/-- The program writes what its statements say. -/
structure Follows (s : LoggedProgram) (q : Statements) : Prop where
  level : s.logLevel = q.logLevel
  begun : ∀ t, List.Forall₂ Logger.Writes (s.loggers t) (q.begun t)
  piped : s.pipeline.Piped (q.finished.zipIdx.map numberedLine)
  dated : ∀ st ∈ q.finished, st.Dated

private theorem new_follows (logLevel : LogLevel) (basename : List UInt8) (rollSize : Nat) :
    (new logLevel basename rollSize).Follows (.new logLevel) where
  level := rfl
  begun _ := .nil
  piped := LogPipeline.new_piped basename rollSize
  dated := by
    intro st hst
    cases hst

/-- The objects of one thread are replaced, and its statements with them. -/
theorem Follows.replace (h : s.Follows q) {ls : List Logger} {sts : List Statement} (hw : List.Forall₂ Logger.Writes ls sts)
    (r : Nat) : List.Forall₂ Logger.Writes ((s.setLoggers t ls).loggers r) (Function.update q.begun t sts r) := by
  rw [setLoggers]
  dsimp only
  by_cases hr : r = t
  · rw [hr,Function.update_self,Function.update_self]
    exact hw
  · rw [Function.update_of_ne hr,Function.update_of_ne hr]
    exact h.begun r

private theorem log_follows (h : s.Follows q) {site : LogSite} {lt : Tm} {usec : Nat} {tid : Int32}
    (he : s.Enabled (.log t site lt usec tid)) (hroom : s.Room (.log t site lt usec tid)) :
    Meets (fun u => u.Follows (q.step (.log t site lt usec tid))) (fun _ => False) (s.step (.log t site lt usec tid)) := by
  rw [step,Statements.step]
  by_cases hlevel : s.logLevel.number ≤ site.level.number
  · have hlevel' : q.logLevel.number ≤ site.level.number := h.level ▸ hlevel
    obtain ⟨hyear,hlen⟩ := hroom hlevel
    have hsum := hlen
    rw [Statement.length_line] at hsum
    rw [if_pos hlevel,if_pos hlevel',Logger.new_ok he.2.1 he.2.2 hyear (by omega)]
    refine ⟨h.level,h.replace (.cons ⟨rfl,rfl,?_,hlen,⟨he.2.1,hyear,he.2.2⟩⟩ (h.begun t)),h.piped,h.dated⟩
    exact (List.append_nil _).symm
  · rw [if_neg hlevel,if_neg fun hlevel' => hlevel (h.level.symm ▸ hlevel')]
    exact h

private theorem insert_follows (h : s.Follows q) {piece : Insertion} (hroom : s.Room (.insert t piece)) :
    Meets (fun u => u.Follows (q.step (.insert t piece))) (fun _ => False) (s.step (.insert t piece)) := by
  have hbegun := h.begun t
  rw [step,Statements.step]
  cases hls : s.loggers t with
  | nil =>
    rw [hls,List.forall₂_nil_left_iff] at hbegun
    rw [hbegun]
    exact h
  | cons l rest =>
    rw [hls] at hbegun
    obtain ⟨st,sts,hw,hrest,hq⟩ := List.forall₂_cons_left_iff.mp hbegun
    have hlen : l.logStream.buffer.length+piece.text.length+(l.tail.flatMap Insertion.text).length+1 ≤ Common.kSmallBuffer :=
      hroom l (by rw [hls]; rfl)
    rw [hw.tail_eq,hw.length_eq] at hlen
    dsimp only
    rw [hq,Logger.insert_ok (by rw [hw.length_eq]; omega)]
    have hdated : Statement.Dated { st with text := st.text ++ piece.text } := ⟨hw.dated.small,hw.dated.year,hw.dated.usec⟩
    refine ⟨h.level,h.replace (.cons ⟨hw.file,hw.line,?_,?_,hdated⟩ hrest),h.piped,h.dated⟩
    · rw [Logger.extended,LogStream.extended_written,hw.written,List.append_assoc]
      rfl
    · rw [Statement.length_line,List.length_append]
      exact Nat.le_trans (by change st.head.length+_+st.tail.length+1 ≤ _; omega) hlen

private theorem finish_follows (h : s.Follows q) {available : Nat} (he : s.Enabled (.finish t available)) :
    Meets (fun u => u.Follows (q.step (.finish t available))) (fun _ => False) (s.step (.finish t available)) := by
  have hbegun := h.begun t
  rw [step,Statements.step]
  cases hls : s.loggers t with
  | nil => exact (he.2.1 hls).elim
  | cons l rest =>
    rw [hls] at hbegun
    obtain ⟨st,sts,hw,hrest,hq⟩ := List.forall₂_cons_left_iff.mp hbegun
    have hfits := hw.fits
    rw [Statement.length_line] at hfits
    have hline : l.destroy = .ok st.line := by
      rw [Logger.destroy_ok (by rw [hw.length_eq,hw.tail_eq]; omega),hw.written,hw.tail_eq,Statement.line]
    have htakes : s.Takes l available := he.2.2 l (by rw [hls]; rfl)
    rw [Takes,hline] at htakes
    obtain ⟨pipeline,hstep,hpiped⟩ := h.piped.step htakes
    dsimp only
    rw [hq,hline]
    dsimp only [Except.mapError]
    rw [bind_ok,hstep]
    have hnumbered : (q.finished ++ [st]).zipIdx.map numberedLine = AsyncLogging.record (q.finished.zipIdx.map numberedLine)
        (PipelineOp.logOp (.caller (.append st.line available))) := by
      rw [List.zipIdx_append,List.map_append,PipelineOp.logOp,AsyncLogging.record,List.length_map,List.length_zipIdx,
        Nat.zero_add]
      rfl
    have hdated : ∀ st' ∈ q.finished ++ [st], st'.Dated := by
      intro st' hst'
      rcases List.mem_append.mp hst' with hst' | hst'
      · exact h.dated st' hst'
      · exact List.mem_singleton.mp hst' ▸ hw.dated
    rw [← hnumbered] at hpiped
    change Meets _ _ (.ok _)
    split
    · exact ⟨h.level,h.replace hrest,hpiped,hdated⟩
    · exact ⟨h.level,h.replace hrest,hpiped,hdated⟩

private theorem pipeline_follows (h : s.Follows q) {op : PipelineOp} (he : s.Enabled (.pipeline op)) :
    Meets (fun u => u.Follows (q.step (.pipeline op))) (fun _ => False) (s.step (.pipeline op)) := by
  obtain ⟨pipeline,hstep,hpiped⟩ := h.piped.step he.2.2
  rw [step,hstep]
  refine ⟨h.level,h.begun,?_,h.dated⟩
  have hsame (es : List Entry) : AsyncLogging.record es op.logOp = es := by
    have happends := he.2.1
    rcases op with (_ | _) | _ <;> first | rfl | cases happends
  rw [hsame] at hpiped
  exact hpiped

private theorem step_follows (s : LoggedProgram) (q : Statements) (op : ProgramOp) (h : s.Follows q)
    (he : (machine.guard Room).Enabled s op) :
    Meets (fun u => u.Follows (q.step op)) (fun _ => False) ((machine.guard Room).step s op) := by
  obtain ⟨he,hroom⟩ := he
  change Meets _ _ (s.step op)
  cases op with
  | setLogLevel level => exact ⟨rfl,h.begun,h.piped,h.dated⟩
  | log t site lt usec tid => exact log_follows h he hroom
  | insert t piece => exact insert_follows h hroom
  | finish t available => exact finish_follows h he
  | abort t => exact ⟨h.level,h.begun,h.piped,h.dated⟩
  | pipeline op => exact pipeline_follows h he

/-- A run writes what its statements say. -/
theorem exec_follows {logLevel : LogLevel} {basename : List UInt8} {rollSize : Nat} {ops : List ProgramOp}
    (ha : (machine.guard Room).Admissible (new logLevel basename rollSize) ops) :
    ∃ s, machine.exec (new logLevel basename rollSize) ops = .ok s ∧
      s.Follows (ops.foldl Statements.step (.new logLevel)) := by
  have hrun := (machine.guard Room).exec_simulates Statements.step step_follows ops _ _
    (new_follows logLevel basename rollSize) ha
  rw [Machine.exec_guard] at hrun
  exact hrun.ok_of_no_error fun _ => id

private theorem erased_iff {sts : List Statement} {erased : List Entry} (h : erased ⊆ sts.zipIdx.map numberedLine)
    {p : Statement × Nat} (hp : p ∈ sts.zipIdx) : numberedLine p ∈ erased ↔ p.2 ∈ erased.map Entry.ticket := by
  constructor
  · exact fun hm => List.mem_map_of_mem (f := Entry.ticket) hm
  · intro hm
    obtain ⟨e,he,hticket⟩ := List.mem_map.mp hm
    obtain ⟨p',hp',rfl⟩ := List.mem_map.mp (h he)
    have hsome := List.mem_zipIdx_iff_getElem?.mp hp
    have hsome' := List.mem_zipIdx_iff_getElem?.mp hp'
    rw [show p'.2 = p.2 from hticket,hsome] at hsome'
    have hfst : p = p' := Prod.ext (Option.some.inj hsome') hticket.symm
    rw [hfst]
    exact he

/-- What the log holds back, in the order of the mutex. -/
def heldBack (log : AsyncLogging) : List Entry :=
  contents log.unwritten ++ contents log.buffers ++ contents [log.currentBuffer]

private theorem Follows.numbered (h : s.Follows q) : s.pipeline.log.output ++ heldBack s.pipeline.log =
    (q.finished.zipIdx.filter fun p => p.2 ∉ s.pipeline.log.erased.map Entry.ticket).map numberedLine := by
  have hstream := h.piped.sound.stream
  have herased := h.piped.sound.erased
  rw [h.piped.appended] at hstream herased
  rw [AsyncLogging.backlog,List.append_assoc] at hstream
  rw [heldBack,List.append_assoc,hstream,List.filter_map]
  congr 1
  refine List.filter_congr fun p hp => ?_
  rw [Function.comp_apply,decide_eq_decide,not_iff_not]
  exact erased_iff herased hp

private theorem Follows.read_back (h : s.Follows q) (hplain : ∀ st ∈ q.finished, st.Plain) :
    ∃ groups : List (List (Statement × Nat)), ∃ waiting : List (Statement × Nat),
      s.pipeline.files.map readLog = groups.map (List.map fun p => some p.1.record) ∧
      groups.flatten ++ waiting = (q.finished.zipIdx.filter fun p => p.2 ∉ s.pipeline.log.erased.map Entry.ticket) ∧
      waiting.map Prod.snd = (heldBack s.pipeline.log).map Entry.ticket := by
  obtain ⟨parts,hfiles,hflat⟩ := h.piped.files_eq
  obtain ⟨written,waiting,hsplit,hwritten,hwaiting⟩ := List.map_eq_append_iff.mp h.numbered.symm
  obtain ⟨groups,rfl,rfl⟩ := LogPipeline.exists_grouping (hflat.trans hwritten.symm)
  refine ⟨groups,waiting,?_,hsplit.symm,?_⟩
  · rw [hfiles,List.map_map,List.map_map]
    refine List.map_congr_left fun group hgroup => ?_
    have hfinished : ∀ st ∈ group.map Prod.fst, st ∈ q.finished := by
      intro st hst
      obtain ⟨p,hp,rfl⟩ := List.mem_map.mp hst
      have hmem : p ∈ groups.flatten ++ waiting := List.mem_append_left _ (List.mem_flatten_of_mem hgroup hp)
      rw [← hsplit] at hmem
      exact List.fst_mem_of_mem_zipIdx (List.mem_of_mem_filter hmem)
    have hread := readLog_lines (fun st hst => h.dated st (hfinished st hst)) fun st hst => hplain st (hfinished st hst)
    rw [List.flatMap_map,List.map_map] at hread
    rw [Function.comp_apply,Function.comp_apply,List.flatMap_map]
    exact hread
  · rw [← hwaiting,List.map_map]
    rfl

private def february : Tm := ⟨50,59,23,29,1,124⟩

private def readSite : LogSite := ⟨ascii "src/net/Echo.cc",42,.INFO,none⟩

private def failSite : LogSite := ⟨ascii "Main.cc",7,.FATAL,none⟩

/-- A thread logs while another one is in the middle of its line, the first line is written, and the
second one is fatal. -/
private def lastWords : List ProgramOp :=
  [.pipeline (.caller .setRunning),.pipeline (.caller .spawn),.log 1 readSite february 17 101,.insert 1 (.cString (ascii "read ")),
    .log 2 ⟨ascii "Poll.cc",8,.DEBUG,some (ascii "poll")⟩ february 18 102,.setLogLevel .ERRORL,.insert 1 (.int (-5)),
    .log 2 failSite february 999999 102,.finish 1 9999,.pipeline (.thread 1024 [] 0 1709164790 1709164790),
    .pipeline (.thread 0 [] 0 1709164790 1709164790),.pipeline (.thread 0 [] 0 1709164790 1709164790),
    .pipeline (.thread 0 [] 0 1709164791 1709164791),.pipeline (.thread 0 [] 0 1709164791 1709164791),
    .pipeline (.thread 0 [] 0 1709164791 1709164791),.insert 2 (.string (ascii "no memory")),.finish 2 9999,
    .pipeline (.thread 0 [] 0 1709164791 1709164791),.abort 2]

end LoggedProgram
end LearningMuduo.Logging
