import LearningMuduo.Library.TextFields
import LearningMuduo.Logging.Logger

/-! Reading log lines back. A reader of the log knows the layout of a line and nothing else. -/
namespace LearningMuduo.Logging
open Library

/-- What a line says. The body is the name of the function, if there is one, and the text. -/
structure LogRecord where
  time : Tm
  usec : Nat
  tid : Int
  level : LogLevel
  body : List UInt8
  file : List UInt8
  line : Int
  deriving DecidableEq, Repr

def readTime (text : List UInt8) : Option ((Tm × Nat) × List UInt8) := do
  let (year,text) ← readField 4 text
  let (mon,text) ← readField 2 text
  let (mday,text) ← readField 2 text
  let text ← expect 95 text
  let (hour,text) ← readField 2 text
  let text ← expect 58 text
  let (min,text) ← readField 2 text
  let text ← expect 58 text
  let (sec,text) ← readField 2 text
  let text ← expect 58 text
  let (usec,text) ← readField 6 text
  pure ((⟨sec,min,hour,mday,mon-1,year-1900⟩,usec),text)

def readLevel (text : List UInt8) : Option (LogLevel × List UInt8) :=
  ([.TRACE,.DEBUG,.INFO,.WARN,.ERRORL,.FATAL].find? fun level => levelStr level = text.take 6).map fun level =>
    (level,text.drop 6)

/-- A line without its newline. -/
def readLine (text : List UInt8) : Option LogRecord := do
  let ((time,usec),text) ← readTime text
  let text ← expect 32 text
  let (tid,text) ← cutFirst 32 text
  let tid ← readDecimal tid
  let (level,text) ← readLevel text
  let text ← expect 32 text
  let (text,line) ← cutLast 58 text
  let line ← readDecimal line
  let (text,file) ← cutLast 32 text
  if text.drop (text.length-3) = ascii "  -" then
    pure ⟨time,usec,tid,level,text.take (text.length-3),file,line⟩
  else none

/-- A log file, line by line. -/
def readLog (bytes : List UInt8) : List (Option LogRecord) := (endedLines 10 bytes).map readLine

namespace Statement

def body (st : Statement) : List UInt8 := (st.site.func.map (· ++ [32])).getD [] ++ st.text

def record (st : Statement) : LogRecord :=
  ⟨st.time,st.usec,st.tid.toInt,st.site.level,st.body,(SourceFile.new st.site.file).filename,st.site.line.toInt⟩

/-- The fields of the time have their widths. -/
structure Dated (st : Statement) : Prop where
  small : st.time.Small
  year : st.time.year+1900 < 10000
  usec : st.usec < 10^6

/-- The name of the file has no space, and nothing breaks the line. -/
structure Plain (st : Statement) : Prop where
  file : 32 ∉ (SourceFile.new st.site.file).filename
  unbroken : 10 ∉ st.body ++ (SourceFile.new st.site.file).filename

instance (st : Statement) : Decidable st.Plain :=
  decidable_of_iff (32 ∉ (SourceFile.new st.site.file).filename ∧ 10 ∉ st.body ++ (SourceFile.new st.site.file).filename)
    ⟨fun ⟨file,unbroken⟩ => ⟨file,unbroken⟩,fun h => ⟨h.file,h.unbroken⟩⟩

end Statement

private theorem readNumeral_decimal (n : Nat) : readNumeral 10 (decimal (n : Nat)) = some n := by
  obtain ⟨ds,hds,htext⟩ := toDigits_numeral n
  rw [decimal_natCast,htext]
  exact hds.read (by decide)

private theorem readField_zeros {width n : Nat} (hw : 0 < width) (h : n < 10^width) (rest : List UInt8) :
    readField width (padded 48 width n ++ rest) = some (n,rest) :=
  readField_append ((length_padded hw).mpr h) (readNumeral_zeros (readNumeral_decimal n) _) rest

private theorem readField_year {n : Nat} (h : 1000 ≤ n) (h' : n < 10000) (rest : List UInt8) :
    readField 4 (padded 32 4 n ++ rest) = some (n,rest) := by
  have hlen : 3 < (decimal (n : Nat)).length := by
    by_contra hle
    rw [decimal_natCast,List.length_map,Nat.not_lt,Nat.length_toDigits_le_iff (by decide) (by decide)] at hle
    omega
  refine readField_append ((length_padded (by decide)).mpr h') ?_ rest
  rw [padded,Nat.sub_eq_zero_of_le hlen]
  exact readNumeral_decimal n

private theorem readTime_timeText {t : Tm} {usec : Nat} (ht : t.Small) (hyear : t.year+1900 < 10000) (husec : usec < 10^6)
    (rest : List UInt8) : readTime (timeText t usec ++ rest) = some ((t,usec),rest) := by
  have htwo {n : Nat} (h : n < 100) (rest : List UInt8) : readField 2 (padded 48 2 n ++ rest) = some (n,rest) :=
    readField_zeros (by decide) h rest
  have hsix : readField 6 (padded 48 6 usec ++ rest) = some (usec,rest) := readField_zeros (by decide) husec rest
  rw [timeText]
  simp only [List.append_assoc,List.cons_append,List.nil_append]
  simp only [readTime,readField_year (show 1000 ≤ t.year+1900 by omega) hyear,htwo ht.mon,htwo ht.mday,htwo ht.hour,
    htwo ht.min,htwo ht.sec,hsix,expect_cons,Option.bind_eq_bind,Option.bind_some,Nat.add_sub_cancel]
  rfl

private theorem readLevel_levelStr (level : LogLevel) (rest : List UInt8) :
    readLevel (levelStr level ++ rest) = some (level,rest) := by
  have hlen : (levelStr level).length = 6 := by cases level <;> rfl
  have hfind : ([.TRACE,.DEBUG,.INFO,.WARN,.ERRORL,.FATAL].find? fun l => levelStr l = levelStr level) =
      some level := by cases level <;> decide
  rw [readLevel,List.take_left' hlen,List.drop_left' hlen,hfind]
  rfl

private theorem not_mem_decimal {v : Int} {c : UInt8} (h : c ≠ 45) (h' : ¬ (48 ≤ c ∧ c ≤ 57)) : c ∉ decimal v := by
  intro hc
  exact (mem_isDecimal (isDecimal_decimal v) hc).elim h h'

/-- A line says what its statement said. -/
theorem readLine_statement {st : Statement} (hd : st.Dated) (h : st.Plain) :
    readLine (st.head ++ st.text ++ st.tail) = some st.record := by
  have htext : st.head ++ st.text ++ st.tail = timeText st.time st.usec ++ (32 :: (decimal st.tid.toInt ++ (32 ::
      (levelStr st.site.level ++ (32 :: (((st.body ++ ascii "  -") ++ 32 :: (SourceFile.new st.site.file).filename) ++
        58 :: decimal st.site.line.toInt)))))) := by
    have hdash : ascii "  - " = ascii "  -" ++ [32] := rfl
    rw [Statement.head,Statement.tail,Statement.body,hdash]
    simp only [List.append_assoc,List.cons_append,List.nil_append]
  have hspace : (32 : UInt8) ∉ decimal st.tid.toInt := not_mem_decimal (by decide) (by decide)
  have hcolon : (58 : UInt8) ∉ decimal st.site.line.toInt := not_mem_decimal (by decide) (by decide)
  have hlen : (st.body ++ ascii "  -").length-3 = st.body.length := by
    rw [List.length_append]
    rfl
  rw [htext,readLine,readTime_timeText hd.small hd.year hd.usec]
  simp only [Option.bind_eq_bind,Option.bind_some,expect_cons,cutFirst_append hspace,
    (isDecimal_decimal _).read,readLevel_levelStr,cutLast_append _ hcolon,cutLast_append _ h.file,hlen,
    List.drop_left,List.take_left,if_pos]
  rfl

private theorem not_mem_padded {fill c : UInt8} (hfill : c ≠ fill) (h : c ≠ 45) (h' : ¬ (48 ≤ c ∧ c ≤ 57)) (width n : Nat) :
    c ∉ padded fill width n := by
  rw [padded,List.mem_append,not_or]
  exact ⟨fun hc => hfill (List.eq_of_mem_replicate hc),not_mem_decimal h h'⟩

/-- The head and the tail add no newline. -/
theorem Statement.Plain.newline_not_mem {st : Statement} (h : st.Plain) : 10 ∉ st.head ++ st.text ++ st.tail := by
  have hpad {fill : UInt8} (hfill : 10 ≠ fill) (width n : Nat) : (10 : UInt8) ∉ padded fill width n :=
    not_mem_padded hfill (by decide) (by decide) width n
  have hdec (v : Int) : (10 : UInt8) ∉ decimal v := not_mem_decimal (by decide) (by decide)
  have htime : (10 : UInt8) ∉ timeText st.time st.usec := by
    simp [timeText,hpad]
  have hlevel : (10 : UInt8) ∉ levelStr st.site.level := by
    cases st.site.level <;> decide
  have hunbroken := h.unbroken
  rw [Statement.body,List.mem_append,List.mem_append,not_or,not_or] at hunbroken
  obtain ⟨⟨hfunc,htext⟩,hfile⟩ := hunbroken
  have hdash : (10 : UInt8) ∉ ascii "  - " := by decide
  simp [Statement.head,Statement.tail,htime,hdec,hlevel,hfunc,htext,hfile,hdash]

/-- Lines of plain statements are read back, one record each. -/
theorem readLog_lines {sts : List Statement} (hd : ∀ st ∈ sts, st.Dated) (h : ∀ st ∈ sts, st.Plain) :
    readLog (sts.flatMap Statement.line) = sts.map fun st => some st.record := by
  have hlines : sts.flatMap Statement.line =
      (sts.map fun st => st.head ++ st.text ++ st.tail).flatMap (· ++ [10]) := by
    rw [List.flatMap_map]
    rfl
  have hplain : ∀ line ∈ sts.map fun st => st.head ++ st.text ++ st.tail, (10 : UInt8) ∉ line := by
    intro line hline
    obtain ⟨st,hst,rfl⟩ := List.mem_map.mp hline
    exact (h st hst).newline_not_mem
  rw [readLog,hlines,endedLines_flatMap hplain,List.map_map]
  exact List.map_congr_left fun st hst => readLine_statement (hd st hst) (h st hst)

end LearningMuduo.Logging
