import LearningMuduo.Library.Calendar
import LearningMuduo.Logging.IntegerFormat

/-! The front end of the log: the object behind one log statement, which writes the head of the
line, takes the insertions and writes the tail. -/
namespace LearningMuduo.Logging
open Library Common

inductive LogLevel where
  | TRACE | DEBUG | INFO | WARN | ERRORL | FATAL
  deriving DecidableEq, Repr

/-- The value of the enumerator, by which levels are compared. -/
def LogLevel.number : LogLevel → Nat
  | .TRACE => 0
  | .DEBUG => 1
  | .INFO => 2
  | .WARN => 3
  | .ERRORL => 4
  | .FATAL => 5

def ascii (text : String) : List UInt8 := text.toList.map fun c => c.val.toUInt8

def levelStr : LogLevel → List UInt8
  | .TRACE => ascii "TRACE "
  | .DEBUG => ascii "DEBUG "
  | .INFO => ascii "INFO  "
  | .WARN => ascii "WARN  "
  | .ERRORL => ascii "ERROR "
  | .FATAL => ascii "FATAL "

/-- The text from the last occurrence of a character on. -/
def strrchr (c : UInt8) : List UInt8 → Option (List UInt8)
  | [] => none
  | b :: s => (strrchr c s).or (if b = c then some (b :: s) else none)

structure SourceFile where
  filename : List UInt8
  deriving DecidableEq, Repr

/-- The name behind the last slash. -/
def SourceFile.new (name : List UInt8) : SourceFile := ⟨((strrchr 47 name).map List.tail).getD name⟩

/-- A conversion with a width, filled up from the left. -/
def padded (fill : UInt8) (width n : Nat) : List UInt8 :=
  List.replicate (width - (decimal n).length) fill ++ decimal n

inductive LoggerFault where
  | formatTime
  | buffer (fault : BufferFault)
  deriving DecidableEq, Repr

/-- What `snprintf` makes of the fields of `localtime` and of `tv_usec`. -/
def timeText (lt : Tm) (usec : Nat) : List UInt8 :=
  padded 32 4 (lt.year+1900) ++ padded 48 2 (lt.mon+1) ++ padded 48 2 lt.mday ++ [95] ++ padded 48 2 lt.hour ++
    [58] ++ padded 48 2 lt.min ++ [58] ++ padded 48 2 lt.sec ++ [58] ++ padded 48 6 usec

def formatTime (lt : Tm) (usec : Nat) : Except LoggerFault (List UInt8) := do
  require ((timeText lt usec).length = 24) .formatTime
  pure (timeText lt usec)

/-- What a macro passes on: `LOG_TRACE` and `LOG_DEBUG` also give the name of the function. -/
structure LogSite where
  file : List UInt8
  line : Int32
  level : LogLevel
  func : Option (List UInt8)
  deriving DecidableEq, Repr

structure Logger where
  file : SourceFile
  line : Int32
  level : LogLevel
  logStream : LogStream
  deriving DecidableEq, Repr

/-- Insertions one after the other. -/
def LogStream.insertAll (s : LogStream) (pieces : List Insertion) : Except LoggerFault LogStream :=
  (LogStream.machine.exec s pieces).mapError .buffer

namespace Logger

/-- The insertions of the two constructors. -/
def head (time : List UInt8) (tid : Int32) (level : LogLevel) : Option (List UInt8) → List Insertion
  | none => [.string time,.char 32,.int tid,.char 32,.cString (levelStr level),.char 32]
  | some func =>
    [.string time,.char 32,.int tid,.char 32,.cString (levelStr level),.char 32,.cString func,.cString [32]]

/-- The constructors, in a thread with the given identifier. -/
def new (site : LogSite) (lt : Tm) (usec : Nat) (tid : Int32) : Except LoggerFault Logger := do
  let time ← formatTime lt usec
  let logStream ← LogStream.new.insertAll (head time tid site.level site.func)
  pure ⟨SourceFile.new site.file,site.line,site.level,logStream⟩

/-- `<<` on the stream of the statement. -/
def insert (l : Logger) (piece : Insertion) : Except LoggerFault Logger := do
  let logStream ← l.logStream.insertAll [piece]
  pure { l with logStream := logStream }

def tail (l : Logger) : List Insertion :=
  [.cString (ascii "  - "),.cString l.file.filename,.cString [58],.int l.line]

/-- The destructor up to `g_output`, which is given what the buffer holds. -/
def destroy (l : Logger) : Except LoggerFault (List UInt8) := do
  let logStream ← l.logStream.insertAll (l.tail ++ [.char 10])
  pure logStream.buffer.written

end Logger

/-- The text of an insertion: what it would put in a buffer without end. -/
def Insertion.text : Insertion → List UInt8
  | .bool v => if v then [49] else [48]
  | .short v => decimal v.toInt
  | .unsignedShort v => decimal v.toNat
  | .int v => decimal v.toInt
  | .unsignedInt v => decimal v.toNat
  | .long v => decimal v.toInt
  | .unsignedLong v => decimal v.toNat
  | .longLong v => decimal v.toInt
  | .unsignedLongLong v => decimal v.toNat
  | .pointer p => [48,120] ++ convertHex p.toNat
  | .char v => [v]
  | .cString p => p
  | .string str => str
  | .raw data => data

/-- One evaluated log statement, seen without any buffer. -/
structure Statement where
  site : LogSite
  time : Tm
  usec : Nat
  tid : Int32
  text : List UInt8
  deriving DecidableEq, Repr

namespace Statement

def head (st : Statement) : List UInt8 :=
  timeText st.time st.usec ++ [32] ++ decimal st.tid.toInt ++ [32] ++ levelStr st.site.level ++ [32] ++
    ((st.site.func.map (· ++ [32])).getD [])

def tail (st : Statement) : List UInt8 :=
  ascii "  - " ++ (SourceFile.new st.site.file).filename ++ [58] ++ decimal st.site.line.toInt

/-- The line that the statement is to write. -/
def line (st : Statement) : List UInt8 := st.head ++ st.text ++ st.tail ++ [10]

end Statement

/-- A whole statement: constructor, insertions, destructor. -/
def Logger.run (site : LogSite) (lt : Tm) (usec : Nat) (tid : Int32) (pieces : List Insertion) :
    Except LoggerFault (List UInt8) := do
  let l ← Logger.new site lt usec tid
  let l ← pieces.foldlM Logger.insert l
  l.destroy


/-- `%d` and `convert` write the same numeral. -/
theorem toDigits_numeral (n : Nat) :
    ∃ ds, IsNumeral 10 n ds ∧ (Nat.toDigits 10 n).map (fun c => c.val.toUInt8) = ds.map digitByte := by
  have hdigit {d : Nat} (hd : d < 10) : (Nat.digitChar d).val.toUInt8 = digitByte d := by decide +revert
  induction n using Nat.strongRecOn with
  | ind n ih =>
    by_cases hn : n < 10
    · refine ⟨[n],.single hn,?_⟩
      rw [Nat.toDigits_of_lt_base hn,List.map_singleton,List.map_singleton,hdigit hn]
    · obtain ⟨ds,hds,hrest⟩ := ih (n/10) (by omega)
      have hlt : n % 10 < 10 := Nat.mod_lt n (by decide)
      refine ⟨ds ++ [n % 10],?_,?_⟩
      · have hnum := hds.concat (by omega) hlt
        rwa [Nat.div_add_mod] at hnum
      · rw [Nat.toDigits_of_base_le (by decide) (by omega),List.map_append,hrest,List.map_append,List.map_singleton,
          List.map_singleton,hdigit hlt]

/-- `decimal` is the decimal numeral. -/
theorem isDecimal_decimal (v : Int) : IsDecimal v (decimal v) := by
  obtain ⟨ds,hds,htext⟩ := toDigits_numeral v.natAbs
  refine ⟨ds,hds,?_⟩
  rw [decimal,List.map_append,htext]
  split <;> rfl

private theorem convert_eq_decimal (v : Int) : convert v = decimal v := (convert_decimal v).unique (isDecimal_decimal v)

private theorem length_decimal_le {v : Int} {k : Nat} (hk : 0 < k) (h : v.natAbs < 10^k) : (decimal v).length ≤ k+1 := by
  rw [← convert_eq_decimal]
  exact length_convert_le hk h

namespace LogStream
variable {s t : LogStream}

/-- The stream with more text behind what it holds. -/
def extended (s : LogStream) (text : List UInt8) : LogStream := ⟨⟨s.buffer.written ++ text⟩⟩

/-- A text joins the end of the buffer. -/
@[simp] theorem extended_written (s : LogStream) (text : List UInt8) :
    (s.extended text).buffer.written = s.buffer.written ++ text := rfl

private theorem extended_extended (s : LogStream) (text text' : List UInt8) :
    (s.extended text).extended text' = s.extended (text ++ text') := by
  rw [extended,extended_written,List.append_assoc,extended]

private theorem new_extended (text : List UInt8) : new.extended text = ⟨⟨text⟩⟩ := rfl

private theorem written_length (text : List UInt8) : (⟨⟨text⟩⟩ : LogStream).buffer.length = text.length := rfl

private theorem extended_length (s : LogStream) (text : List UInt8) :
    (s.extended text).buffer.length = s.buffer.length+text.length := List.length_append

private theorem append_extends {a : Append} (h : s.buffer.length+a.text.length ≤ kSmallBuffer) :
    LogStream.mk <$> s.buffer.append a = .ok (s.extended a.text) := by
  have hle : a.text.length ≤ kSmallBuffer := by omega
  have hint : a.text.length < 2^31 := Nat.lt_of_le_of_lt hle (by decide)
  rw [Common.FixedBuffer.append_ok ⟨.inr h,.inr hint⟩,List.take_of_length_le hle]
  rfl

private theorem numeric_extends {text pad : List UInt8} (h : s.buffer.length+(text ++ pad).length ≤ kSmallBuffer) :
    s.numeric (text ++ pad) text.length = .ok (s.extended text) := by
  rw [numeric,Common.FixedBuffer.available,if_pos (by decide),Common.FixedBuffer.put_ok h,List.take_left]
  rfl

private theorem formatInteger_extends {v : Int} (h : s.buffer.length+(decimal v).length+1 ≤ kSmallBuffer) :
    s.formatInteger v = .ok (s.extended (decimal v)) := by
  rw [formatInteger,convert_eq_decimal]
  exact numeric_extends (by rw [List.length_append,List.length_singleton]; omega)

private theorem insertInt_extends {v : Int} (hv : v.natAbs < 10^19) (h : s.buffer.length+(decimal v).length+1 ≤ kSmallBuffer) :
    s.insertInt v = .ok (s.extended (decimal v)) := by
  have hlen := length_decimal_le (by decide) hv
  rw [insertInt,snprintf,List.take_of_length_le (Nat.le_trans hlen (by decide))]
  exact numeric_extends (by rw [List.length_append,List.length_singleton]; omega)

/-- An insertion with room for its text and one byte more. -/
theorem insert_extends {piece : Insertion} (h : s.buffer.length+piece.text.length+1 ≤ kSmallBuffer) :
    s.insert piece = .ok (s.extended piece.text) := by
  have hle : s.buffer.length+piece.text.length ≤ kSmallBuffer := by omega
  cases piece with
  | short v =>
    have hlo := v.le_toInt
    have hhi := v.toInt_lt
    exact insertInt_extends (by omega) h
  | int v =>
    have hlo := v.le_toInt
    have hhi := v.toInt_lt
    exact insertInt_extends (by omega) h
  | unsignedShort v => exact formatInteger_extends h
  | unsignedInt v => exact formatInteger_extends h
  | long v => exact formatInteger_extends h
  | unsignedLong v => exact formatInteger_extends h
  | longLong v => exact formatInteger_extends h
  | unsignedLongLong v => exact formatInteger_extends h
  | pointer p =>
    have hput : s.numeric ([48,120] ++ convertHex p.toNat ++ []) ([48,120] ++ convertHex p.toNat).length = _ :=
      numeric_extends (by rwa [List.append_nil])
    rwa [List.append_nil,List.length_append,Nat.add_comm] at hput
  | bool v => exact append_extends (a := ⟨.bytes,_⟩) hle
  | char v => exact append_extends (a := ⟨.bytes,_⟩) hle
  | cString p => exact append_extends (a := ⟨.bytes,_⟩) hle
  | string str => exact append_extends (a := ⟨.string,_⟩) hle
  | raw data => exact append_extends (a := ⟨.bytes,_⟩) hle

private theorem exec_extends {pieces : List Insertion}
    (h : s.buffer.length+(pieces.flatMap Insertion.text).length+1 ≤ kSmallBuffer) :
    machine.exec s pieces = .ok (s.extended (pieces.flatMap Insertion.text)) := by
  induction pieces generalizing s with
  | nil =>
    rw [List.flatMap_nil,extended,List.append_nil]
    rfl
  | cons piece pieces ih =>
    rw [List.flatMap_cons,List.length_append] at h
    rw [Machine.exec,show machine.step s piece = s.insert piece from rfl,insert_extends (by omega),bind_ok,
      ih (by rw [extended_length]; omega),extended_extended,List.flatMap_cons]

private theorem insertAll_extends {pieces : List Insertion}
    (h : s.buffer.length+(pieces.flatMap Insertion.text).length+1 ≤ kSmallBuffer) :
    s.insertAll pieces = .ok (s.extended (pieces.flatMap Insertion.text)) := by
  rw [insertAll,exec_extends h]
  rfl

end LogStream

/-- A padded number has its width unless it has more digits. -/
theorem length_padded {fill : UInt8} {width n : Nat} (hw : 0 < width) :
    (padded fill width n).length = width ↔ n < 10^width := by
  rw [padded,List.length_append,List.length_replicate,decimal_natCast,List.length_map,
    ← Nat.length_toDigits_le_iff (by decide) hw]
  omega

/-- The assertion on the length of the time holds up to the end of the year 9999. -/
theorem timeText_length {lt : Tm} {usec : Nat} (hlt : lt.Small) (husec : usec < 10^6) :
    (timeText lt usec).length = 24 ↔ lt.year+1900 < 10000 := by
  have htwo {n : Nat} (h : n < 100) : (padded 48 2 n).length = 2 := (length_padded (by decide)).mpr h
  have hsix : (padded 48 6 usec).length = 6 := (length_padded (by decide)).mpr husec
  have hyear : (padded 32 4 (lt.year+1900)).length = 4 ↔ lt.year+1900 < 10^4 := length_padded (by decide)
  simp only [timeText,List.length_append,htwo hlt.mon,htwo hlt.mday,htwo hlt.hour,htwo hlt.min,htwo hlt.sec,hsix,
    List.length_singleton]
  omega

private theorem formatTime_ok {lt : Tm} {usec : Nat} (hlt : lt.Small) (husec : usec < 10^6) (hyear : lt.year+1900 < 10000) :
    formatTime lt usec = .ok (timeText lt usec) := by
  rw [formatTime,require_pos ((timeText_length hlt husec).mpr hyear)]
  rfl

namespace Logger
variable {l : Logger}

/-- The statement's object with more text in its line. -/
def extended (l : Logger) (text : List UInt8) : Logger := { l with logStream := l.logStream.extended text }

private theorem head_text (time : List UInt8) (tid : Int32) (level : LogLevel) (func : Option (List UInt8)) :
    (head time tid level func).flatMap Insertion.text =
      time ++ [32] ++ decimal tid.toInt ++ [32] ++ levelStr level ++ [32] ++ ((func.map (· ++ [32])).getD []) := by
  cases func <;> simp [head,Insertion.text]

/-- The tail of a line is the file name and the line number. -/
theorem tail_text (l : Logger) :
    l.tail.flatMap Insertion.text = ascii "  - " ++ l.file.filename ++ [58] ++ decimal l.line.toInt := by
  simp [tail,Insertion.text]

/-- A constructor whose head fits, in a year of four digits, leaves the head in the stream. -/
theorem new_ok {site : LogSite} {lt : Tm} {usec : Nat} {tid : Int32} (hlt : lt.Small) (husec : usec < 10^6)
    (hyear : lt.year+1900 < 10000) (h : (Statement.head ⟨site,lt,usec,tid,[]⟩).length+1 ≤ kSmallBuffer) :
    new site lt usec tid =
      .ok ⟨SourceFile.new site.file,site.line,site.level,⟨⟨Statement.head ⟨site,lt,usec,tid,[]⟩⟩⟩⟩ := by
  have htext := head_text (timeText lt usec) tid site.level site.func
  have hhead : (head (timeText lt usec) tid site.level site.func).flatMap Insertion.text =
      Statement.head ⟨site,lt,usec,tid,[]⟩ := htext
  have hroom : LogStream.new.buffer.length+
      ((head (timeText lt usec) tid site.level site.func).flatMap Insertion.text).length+1 ≤ kSmallBuffer := by
    rw [hhead,show LogStream.new.buffer.length = 0 from rfl,Nat.zero_add]
    exact h
  rw [new,formatTime_ok hlt husec hyear,bind_ok,LogStream.insertAll_extends hroom,hhead,LogStream.new_extended]
  rfl

/-- An insertion that fits is stored whole. -/
theorem insert_ok {piece : Insertion} (h : l.logStream.buffer.length+piece.text.length+1 ≤ kSmallBuffer) :
    l.insert piece = .ok (l.extended piece.text) := by
  have htext : [piece].flatMap Insertion.text = piece.text := List.flatMap_singleton ..
  rw [insert,LogStream.insertAll_extends (by rwa [htext]),htext]
  rfl

private theorem insertAll_ok {pieces : List Insertion}
    (h : l.logStream.buffer.length+(pieces.flatMap Insertion.text).length+1 ≤ kSmallBuffer) :
    pieces.foldlM insert l = .ok (l.extended (pieces.flatMap Insertion.text)) := by
  induction pieces generalizing l with
  | nil =>
    rw [List.flatMap_nil,extended,LogStream.extended,List.append_nil]
    rfl
  | cons piece pieces ih =>
    rw [List.flatMap_cons,List.length_append] at h
    rw [List.foldlM_cons,insert_ok (by omega),bind_ok,ih (by rw [extended,LogStream.extended_length]; omega),extended,
      extended,LogStream.extended_extended,List.flatMap_cons]
    rfl

/-- The newline takes the last byte there may be. -/
theorem destroy_ok (h : l.logStream.buffer.length+(l.tail.flatMap Insertion.text).length+1 ≤ kSmallBuffer) :
    l.destroy = .ok (l.logStream.buffer.written ++ l.tail.flatMap Insertion.text ++ [10]) := by
  have hnewline : LogStream.machine.exec (l.logStream.extended (l.tail.flatMap Insertion.text)) [.char 10] =
      .ok ((l.logStream.extended (l.tail.flatMap Insertion.text)).extended [10]) := by
    have happend : (l.logStream.extended (l.tail.flatMap Insertion.text)).insert (.char 10) = _ :=
      LogStream.append_extends (a := ⟨.bytes,[10]⟩) (by rw [LogStream.extended_length]; exact h)
    rw [Machine.exec,show LogStream.machine.step _ _ = LogStream.insert _ _ from rfl,happend]
    rfl
  rw [destroy,LogStream.insertAll,LogStream.machine.exec_append_ok (LogStream.exec_extends h),hnewline]
  rfl

private theorem destroy_bounded {bytes : List UInt8} (h : l.destroy = .ok bytes) : bytes.length ≤ kSmallBuffer := by
  obtain ⟨t,ht,hbytes⟩ := bind_eq_ok h
  cases hbytes
  rw [LogStream.insertAll,Machine.exec_append] at ht
  cases hexec : LogStream.machine.exec l.logStream l.tail with
  | error e =>
    rw [hexec] at ht
    cases ht
  | ok u =>
    rw [hexec,bind_ok,Machine.exec,show LogStream.machine.step u _ = u.insert _ from rfl,LogStream.insert,
      Common.FixedBuffer.appendBytes_eq,Common.FixedBuffer.put] at ht
    by_cases hroom : u.buffer.length+([10].take kSmallBuffer : List UInt8).length ≤ kSmallBuffer
    · rw [require_pos hroom] at ht
      cases ht
      exact Nat.le_trans (Nat.le_of_eq List.length_append) hroom
    · rw [require_neg hroom] at ht
      cases ht

end Logger

end LearningMuduo.Logging
