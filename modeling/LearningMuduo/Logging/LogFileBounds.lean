import LearningMuduo.Logging.LogFile

/-! How large the log's files get, and what they hold together. -/
namespace LearningMuduo.Logging
open Library Common

/-- The messages of one file: they stay within the size, or go past it by no more than the
length of the one that crosses it. -/
def Within (rollSize : Nat) (group : List (List UInt8)) : Prop :=
  group.flatten.length ≤ rollSize ∨
  ∃ front msg rest, group = front ++ msg :: rest ∧ front.flatten.length ≤ rollSize ∧
    rollSize < (front ++ [msg]).flatten.length ∧ group.flatten.length ≤ rollSize + msg.length

private theorem within_append {rollSize : Nat} {group : List (List UInt8)} (h : group.flatten.length ≤ rollSize)
    (msg : List UInt8) : Within rollSize (group ++ [msg]) := by
  rcases Nat.lt_or_ge rollSize (group ++ [msg]).flatten.length with hcross | hle
  · refine .inr ⟨group,msg,[],rfl,h,hcross,?_⟩
    rw [List.flatten_append,List.length_append,List.flatten_singleton]
    omega
  · exact .inl hle

namespace LogFile
variable {s : LogFile} {closed : List (Nat × List (List UInt8))} {t drained now rollNow : Nat}
  {disk msg : List UInt8} {group : List (List UInt8)}

/-- What the directory holds when the file is closed. -/
def files (s : LogFile) : List (List UInt8) := (s.file.close s.directory).map File.bytes

/-- The messages fall into groups, one for each file and none too large. -/
def Bounded (s : LogFile) : Prop :=
  ∃ groups : List (List (List UInt8)), s.files = groups.map List.flatten ∧ groups.flatten = s.messages ∧
    ∀ group ∈ groups, Within s.rollSize group

/-- The name of a roll for size is not that of the file it closes. -/
def RollsToNewName (s : LogFile) : LogFileEvent → Prop
  | .append msg _ _ _ rollNow =>
    s.rollSize < s.file.writtenBytes + msg.length → getLogfileName s.basename rollNow ≠ s.file.filename
  | .flush => True

instance (s : LogFile) : (a : LogFileEvent) → Decidable (s.RollsToNewName a)
  | .append .. => inferInstanceAs (Decidable (_ → _))
  | .flush => isTrue trivial

/-- The files were opened in different seconds, each with its group of messages; the last one
was opened in second t and misses what its stream still holds. -/
structure Layout (s : LogFile) (closed : List (Nat × List (List UInt8))) (t : Nat) (disk : List UInt8)
    (group : List (List UInt8)) : Prop where
  directory : s.directory =
    closed.map (fun c => ⟨getLogfileName s.basename c.1,c.2.flatten⟩) ++ [⟨getLogfileName s.basename t,disk⟩]
  filename : s.file.filename = getLogfileName s.basename t
  content : disk ++ s.file.pending = group.flatten
  earlier : ∀ c ∈ closed, c.1 < t
  period : s.startOfPeriod = t/kRollPerSeconds*kRollPerSeconds
  messages : s.messages = (closed.map Prod.snd).flatten ++ group

/-- As long as every roll for size has found a new name. -/
structure Sized (s : LogFile) (closed : List (Nat × List (List UInt8))) (group : List (List UInt8)) : Prop where
  written : s.file.writtenBytes = group.flatten.length
  current : group.flatten.length ≤ s.rollSize
  others : ∀ c ∈ closed, Within s.rollSize c.2

private theorem new_layout (basename : List UInt8) (rollSize : Nat) (flushInterval arg memory : Int) (now : Nat) :
    Layout (new basename rollSize flushInterval arg memory now) [] now [] [] ∧
      Sized (new basename rollSize flushInterval arg memory now) [] [] := by
  have hno : ∀ f ∈ ([] : Directory), f.name ≠ getLogfileName basename now := fun _ hf => (List.not_mem_nil hf).elim
  have hdir : (new basename rollSize flushInterval arg memory now).directory = [⟨getLogfileName basename now,[]⟩] :=
    Directory.fopen_of_forall_ne hno
  refine ⟨⟨hdir,rfl,rfl,fun _ hc => (List.not_mem_nil hc).elim,rfl,rfl⟩,?_,Nat.zero_le _,
    fun _ hc => (List.not_mem_nil hc).elim⟩
  change Directory.fileEnd (Directory.fopen [] _) _ = 0
  rw [Directory.fopen_of_forall_ne hno]
  exact Directory.fileEnd_append_new hno

/-- No closed file has the name of a second that is not before the current one. -/
theorem Layout.name_ne (h : Layout s closed t disk group) (ht : t ≤ now) :
    ∀ f ∈ closed.map (fun c : Nat × List (List UInt8) => (⟨getLogfileName s.basename c.1,c.2.flatten⟩ : File)),
      f.name ≠ getLogfileName s.basename now := by
  intro f hf heq
  obtain ⟨c,hc,rfl⟩ := List.mem_map.mp hf
  have hlt := h.earlier c hc
  have hsame := getLogfileName_injective heq
  omega

/-- What is written goes to the last file. -/
theorem Layout.write (h : Layout s closed t disk group) (bytes : List UInt8) :
    s.directory.write s.file.filename bytes =
      closed.map (fun c => ⟨getLogfileName s.basename c.1,c.2.flatten⟩) ++
        [⟨getLogfileName s.basename t,disk ++ bytes⟩] := by
  rw [h.directory,h.filename]
  exact Directory.write_middle (h.name_ne (Nat.le_refl t)) (fun _ hf => (List.not_mem_nil hf).elim) disk bytes

/-- The files of the log hold its messages, whatever the clock was. -/
theorem Layout.files_eq (h : Layout s closed t disk group) :
    s.files = (closed.map Prod.snd ++ [group]).map List.flatten := by
  rw [files,AppendFile.close_eq,h.write,h.content]
  simp [Function.comp_def]

/-- A message joins the last file: some of its bytes on the disk, the rest in the stream. -/
theorem Layout.appendFile (h : Layout s closed t disk group) (msg : List UInt8) (drained : Nat) :
    Layout (s.appendFile msg [] drained) closed t (disk ++ (s.file.pending ++ msg).take drained) (group ++ [msg]) := by
  have hfile : s.appendFile msg [] drained = { s with
      directory := s.directory.write s.file.filename ((s.file.pending ++ msg).take drained)
      file := ⟨s.file.filename,(s.file.pending ++ msg).drop drained,s.file.writtenBytes + msg.length⟩
      messages := s.messages ++ [msg] } := by
    rw [LogFile.appendFile,AppendFile.append_nil]
    rfl
  rw [hfile]
  refine ⟨h.write _,h.filename,?_,h.earlier,h.period,?_⟩
  · rw [List.append_assoc,List.take_append_drop,← List.append_assoc,h.content,List.flatten_append,List.flatten_singleton]
  · rw [h.messages,List.append_assoc]

private theorem appendFile_written (msg : List UInt8) (drained : Nat) :
    (s.appendFile msg [] drained).file.writtenBytes = s.file.writtenBytes + msg.length := by
  rw [LogFile.appendFile,AppendFile.append_nil]
  rfl

/-- A flush brings the last file to the disk. -/
theorem Layout.flush (h : Layout s closed t disk group) : Layout s.flush closed t (disk ++ s.file.pending) group := by
  refine ⟨?_,h.filename,?_,h.earlier,h.period,h.messages⟩
  · change s.directory.write s.file.filename (s.file.pending.take s.file.pending.length) = _
    rw [List.take_length]
    exact h.write _
  · change (disk ++ s.file.pending) ++ s.file.pending.drop s.file.pending.length = group.flatten
    rw [List.drop_length,List.append_nil]
    exact h.content

/-- A roll in the second of the last one opens the same file again. -/
theorem Layout.rollFile_same (h : Layout s closed t disk group) :
    Layout (s.rollFile t) closed t group.flatten group := by
  have hopen : s.directory.fopen (getLogfileName s.basename t) = s.directory := by
    rw [h.directory]
    exact Directory.fopen_of_mem (List.mem_append_right _ (List.mem_singleton.mpr rfl))
  refine ⟨?_,rfl,List.append_nil _,h.earlier,rfl,h.messages⟩
  rw [rollFile_directory,hopen,h.write,h.content]
  rfl

/-- A roll in a later second opens a new, empty file. -/
theorem Layout.rollFile_later (h : Layout s closed t disk group) (ht : t < now) :
    Layout (s.rollFile now) (closed ++ [(t,group)]) now [] [] ∧ (s.rollFile now).file.writtenBytes = 0 := by
  have hne : ∀ f ∈ s.directory, f.name ≠ getLogfileName s.basename now := by
    intro f hf
    rw [h.directory] at hf
    rcases List.mem_append.mp hf with hf | hf
    · exact h.name_ne (Nat.le_of_lt ht) f hf
    · rw [List.mem_singleton.mp hf]
      exact fun heq => Nat.ne_of_lt ht (getLogfileName_injective heq)
  have hopen := Directory.fopen_of_forall_ne hne
  refine ⟨⟨?_,rfl,rfl,?_,rfl,?_⟩,?_⟩
  · have hback : ∀ f ∈ [(⟨getLogfileName s.basename now,[]⟩ : File)], f.name ≠ getLogfileName s.basename t := by
      intro f hf
      rw [List.mem_singleton.mp hf]
      exact fun heq => Nat.ne_of_gt ht (getLogfileName_injective heq)
    rw [rollFile_directory,hopen,h.directory,h.filename,List.append_assoc]
    refine (Directory.write_middle (h.name_ne (Nat.le_refl t)) hback disk s.file.pending).trans ?_
    rw [h.content]
    simp
  · intro c hc
    rcases List.mem_append.mp hc with hc | hc
    · exact Nat.lt_trans (h.earlier c hc) ht
    · rw [List.mem_singleton.mp hc]
      exact ht
  · rw [rollFile_messages,h.messages]
    simp
  · change Directory.fileEnd (s.directory.fopen _) _ = 0
    rw [hopen]
    exact Directory.fileEnd_append_new hne

/-- The current file becomes one of the closed ones. -/
theorem Layout.roll (h : Layout s closed t disk group) (ht : t < now) (hgroup : Within s.rollSize group)
    (hclosed : ∀ c ∈ closed, Within s.rollSize c.2) : Sized (s.rollFile now) (closed ++ [(t,group)]) [] := by
  refine ⟨(h.rollFile_later ht).2,Nat.zero_le _,fun c hc => ?_⟩
  rcases List.mem_append.mp hc with hc | hc
  · exact hclosed c hc
  · rw [List.mem_singleton.mp hc]
    exact hgroup

/-- A message that stays within the size. -/
theorem Sized.append {u : LogFile} (h : Sized s closed group) (hle : s.file.writtenBytes + msg.length ≤ s.rollSize)
    (hu : u.file.writtenBytes = s.file.writtenBytes + msg.length) (hsize : u.rollSize = s.rollSize) :
    Sized u closed (group ++ [msg]) := by
  have hsum : u.file.writtenBytes = (group ++ [msg]).flatten.length := by
    rw [hu,h.written,List.flatten_append,List.length_append,List.flatten_singleton]
  refine ⟨hsum,?_,?_⟩
  · rw [← hsum,hu,hsize]
    exact hle
  · rw [hsize]
    exact h.others

/-- One `append`, in any run and in one that meets the condition. -/
theorem Layout.appendUnlocked (h : Layout s closed t disk group) (msg : List UInt8) (drained : Nat) (ht : t ≤ now)
    (hnow : now ≤ rollNow) :
    ∃ closed' t' disk' group', Layout (s.appendUnlocked msg [] drained now rollNow) closed' t' disk' group' ∧
      t' ≤ rollNow ∧
      (Sized s closed group → s.RollsToNewName (.append msg [] drained now rollNow) →
        Sized (s.appendUnlocked msg [] drained now rollNow) closed' group') := by
  have happ := h.appendFile msg drained
  have hwritten := appendFile_written (s := s) msg drained
  rw [LogFile.appendUnlocked]
  dsimp only
  generalize hs' : s.appendFile msg [] drained = s' at happ hwritten
  have hrollSize : s'.rollSize = s.rollSize := by rw [← hs']; rfl
  by_cases hsize : s'.file.writtenBytes > s'.rollSize
  · rw [if_pos hsize]
    rcases Nat.eq_or_lt_of_le (Nat.le_trans ht hnow) with heq | hlt
    · -- the same second: the file is opened again
      refine ⟨closed,t,(group ++ [msg]).flatten,group ++ [msg],?_,Nat.le_trans ht hnow,fun _ hname => ?_⟩
      · rw [← heq]
        exact happ.rollFile_same
      · rw [hwritten,hrollSize] at hsize
        exact (hname hsize (by rw [h.filename,heq])).elim
    · refine ⟨_,rollNow,[],[],(happ.rollFile_later hlt).1,Nat.le_refl _,fun hs _ => ?_⟩
      refine happ.roll hlt ?_ ?_
      · rw [hrollSize]
        exact within_append hs.current msg
      · rw [hrollSize]
        exact hs.others
  · rw [if_neg hsize]
    have hle : s.file.writtenBytes + msg.length ≤ s.rollSize := by omega
    by_cases hcheck : ((s'.count + 1 : Nat) : Int) ≥ s'.checkEveryN % 2^64
    · rw [if_pos hcheck]
      by_cases hperiod : now/kRollPerSeconds*kRollPerSeconds ≠ s'.startOfPeriod
      · rw [if_pos hperiod]
        have hlt : t < rollNow := by
          refine Nat.lt_of_lt_of_le (Nat.lt_of_le_of_ne ht fun heq => hperiod ?_) hnow
          rw [happ.period,heq]
        have hcount : Layout { s' with count := 0 } closed t (disk ++ (s.file.pending ++ msg).take drained) (group ++ [msg]) :=
          ⟨happ.directory,happ.filename,happ.content,happ.earlier,happ.period,happ.messages⟩
        refine ⟨_,rollNow,[],[],(hcount.rollFile_later hlt).1,Nat.le_refl _,fun hs _ => ?_⟩
        have hsized : Sized { s' with count := 0 } closed (group ++ [msg]) := hs.append hle hwritten hrollSize
        exact hcount.roll hlt (.inl hsized.current) hsized.others
      · rw [if_neg hperiod]
        by_cases hflush : (now - s'.lastFlush : Int) > s'.flushInterval
        · rw [if_pos hflush]
          have hf := happ.flush
          exact ⟨closed,t,_,group ++ [msg],⟨hf.directory,hf.filename,hf.content,hf.earlier,hf.period,hf.messages⟩,
            Nat.le_trans ht hnow,fun hs _ => hs.append hle hwritten hrollSize⟩
        · rw [if_neg hflush]
          exact ⟨closed,t,_,group ++ [msg],⟨happ.directory,happ.filename,happ.content,happ.earlier,happ.period,happ.messages⟩,
            Nat.le_trans ht hnow,fun hs _ => hs.append hle hwritten hrollSize⟩
    · rw [if_neg hcheck]
      exact ⟨closed,t,_,group ++ [msg],⟨happ.directory,happ.filename,happ.content,happ.earlier,happ.period,happ.messages⟩,
        Nat.le_trans ht hnow,fun hs _ => hs.append hle hwritten hrollSize⟩

/-- What a run keeps, and what it keeps as long as it meets the condition. -/
def Logged (met : Prop) (s : LogFile) : Prop :=
  ∃ closed t disk group, Layout s closed t disk group ∧ t ≤ s.clock ∧ (met → Sized s closed group)

/-- Every event keeps the layout of the files, and with a new name for each roll their sizes. -/
theorem Logged.step {met : Prop} {a : LogFileEvent} (h : s.Logged met) (he : s.Enabled a) (hc : met → s.RollsToNewName a) :
    ∃ s', s.code a = .ok s' ∧ s'.Logged met := by
  obtain ⟨closed,t,disk,group,hl,ht,hs⟩ := h
  cases a with
  | append msg results drained now rollNow =>
    obtain ⟨rfl,hclock,hnow⟩ := he
    obtain ⟨closed',t',disk',group',hl',ht',hs'⟩ := hl.appendUnlocked msg drained (Nat.le_trans ht hclock) hnow
    refine ⟨_,rfl,closed',t',disk',group',?_,ht',fun hmet => ?_⟩
    · exact ⟨hl'.directory,hl'.filename,hl'.content,hl'.earlier,hl'.period,hl'.messages⟩
    · have hsized := hs' (hs hmet) (hc hmet)
      exact ⟨hsized.written,hsized.current,hsized.others⟩
  | flush =>
    refine ⟨_,rfl,closed,t,_,group,hl.flush,ht,fun hmet => ?_⟩
    exact ⟨(hs hmet).written,(hs hmet).current,(hs hmet).others⟩

/-- Files that always rolled to a new name are bounded. -/
theorem Logged.bounded (h : s.Logged True) : s.Bounded := by
  obtain ⟨closed,t,disk,group,hl,-,hs⟩ := h
  have hsized := hs trivial
  refine ⟨closed.map Prod.snd ++ [group],hl.files_eq,?_,fun g hg => ?_⟩
  · rw [hl.messages,List.flatten_append,List.flatten_singleton]
  · rcases List.mem_append.mp hg with hg | hg
    · obtain ⟨c,hc,rfl⟩ := List.mem_map.mp hg
      exact hsized.others c hc
    · rw [List.mem_singleton.mp hg]
      exact .inl hsized.current

section
variable (basename : List UInt8) (rollSize : Nat) (flushInterval arg memory : Int) (start : Nat)
  (events : List LogFileEvent)

/-- A new log has one empty file. -/
theorem new_logged (met : Prop) : (new basename rollSize flushInterval arg memory start).Logged met := by
  obtain ⟨hl,hs⟩ := new_layout basename rollSize flushInterval arg memory start
  exact ⟨[],start,[],[],hl,Nat.le_refl start,fun _ => hs⟩

/-- In every run, on any clock that does not go back, the files hold the messages in order. -/
theorem files_hold_messages (ha : machine.Admissible (new basename rollSize flushInterval arg memory start) events) :
    ∃ s, machine.exec (new basename rollSize flushInterval arg memory start) events = .ok s ∧
      s.files.flatten = s.messages.flatten := by
  obtain ⟨s,hs,closed,t,disk,group,hl,-⟩ :=
    machine.exec_total (new_logged basename rollSize flushInterval arg memory start False)
      (fun _ _ h he => h.step he False.elim) ha
  refine ⟨s,hs,?_⟩
  rw [hl.files_eq,hl.messages,← List.flatten_flatten,List.flatten_append,List.flatten_singleton]

/-- In every run in which each roll for size finds the clock in a later second than the roll
before, no file is larger than the size and the message that crosses it. -/
theorem log_files_bounded
    (ha : (machine.guard RollsToNewName).Admissible (new basename rollSize flushInterval arg memory start) events) :
    ∃ s, machine.exec (new basename rollSize flushInterval arg memory start) events = .ok s ∧ s.Bounded := by
  obtain ⟨s,hs,h⟩ := (machine.guard RollsToNewName).exec_total
    (new_logged basename rollSize flushInterval arg memory start True) (fun _ _ h he => h.step he.1 fun _ => he.2) ha
  rw [machine.exec_guard] at hs
  exact ⟨s,hs,h.bounded⟩

end

private def later : List LogFileEvent :=
  [.append (List.replicate 11 97) [] 5 1709164790 1709164791,.append (List.replicate 4 98) [] 0 1709164791 1709164791,.flush,
    .append (List.replicate 7 99) [] 0 1709164799 1709164800,.append [] [] 0 1709164800 1709164801]

/-- A log that rolls once, a second later. -/
theorem log_files_bounded_later : ∃ s, machine.exec (new [108,111,103] 10 3 1024 2 1709164790) later = .ok s ∧ s.Bounded :=
  log_files_bounded [108,111,103] 10 3 1024 2 1709164790 later (by decide +kernel)

/-- Every file of a bounded log, whatever its messages are. -/
theorem Bounded.length_le (h : s.Bounded) {bytes : List UInt8} (hf : bytes ∈ s.files) :
    bytes.length ≤ s.rollSize ∨ ∃ msg ∈ s.messages, bytes.length ≤ s.rollSize + msg.length := by
  obtain ⟨groups,hfiles,hmessages,hwithin⟩ := h
  rw [hfiles] at hf
  obtain ⟨group,hg,rfl⟩ := List.mem_map.mp hf
  refine (hwithin group hg).imp id ?_
  rintro ⟨front,msg,rest,rfl,-,-,hle⟩
  refine ⟨msg,?_,hle⟩
  rw [← hmessages]
  exact List.mem_flatten.mpr ⟨_,hg,List.mem_append_right _ List.mem_cons_self⟩

private def sameSecond : List LogFileEvent :=
  [.append (List.replicate 11 97) [] 0 1709164790 1709164790,.append (List.replicate 11 98) [] 0 1709164790 1709164790]

/-- Two messages in one second, each too long for a file, end in one file. -/
theorem same_second_not_bounded : machine.Admissible (new [108,111,103] 10 3 1024 2 1709164790) sameSecond ∧
    ∃ s, machine.exec (new [108,111,103] 10 3 1024 2 1709164790) sameSecond = .ok s ∧ ¬ s.Bounded ∧
      ∃ bytes ∈ s.files, ∀ msg ∈ s.messages, s.rollSize + msg.length < bytes.length := by
  have hrun : Meets (fun s => ∃ bytes ∈ s.files, s.rollSize < bytes.length ∧
      ∀ msg ∈ s.messages, s.rollSize + msg.length < bytes.length) (fun _ => False)
      (machine.exec (new [108,111,103] 10 3 1024 2 1709164790) sameSecond) := by decide +kernel
  obtain ⟨s,hs,bytes,hb,hsize,hlong⟩ := hrun.ok_of_no_error (fun _ => id)
  refine ⟨by decide +kernel,s,hs,fun h => ?_,bytes,hb,hlong⟩
  rcases h.length_le hb with hle | ⟨msg,hmsg,hle⟩
  · omega
  · have hlt := hlong msg hmsg
    omega

end LogFile
end LearningMuduo.Logging
