import LearningMuduo.Common.AppendFile
import LearningMuduo.Library.Calendar
import LearningMuduo.Library.Machine
import LearningMuduo.Logging.LogStream

/-! The log file that rolls over by size and by day, and the names of its files. -/
namespace LearningMuduo.Logging
open Library Common

def kRollPerSeconds : Nat := 60*60*24

/-- A conversion that pads to two digits. -/
def twoDigits (n : Nat) : List UInt8 := [(48+n/10).toUInt8,(48+n % 10).toUInt8]

/-- `strftime` for the format `.%Y%m%d-%H%M%S`. -/
def strftime (t : Tm) : List UInt8 :=
  [46] ++ decimal (t.year+1900 : Nat) ++
    (twoDigits (t.mon+1) ++ twoDigits t.mday ++ [45] ++ twoDigits t.hour ++ twoDigits t.min ++ twoDigits t.sec)

def getLogfileName (basename : List UInt8) (now : Nat) : List UInt8 :=
  basename ++ strftime (gmtime now) ++ [46,108,111,103]

private theorem twoDigits_append {m n : Nat} {rest rest' : List UInt8} (hm : m < 100) (hn : n < 100)
    (h : twoDigits m ++ rest = twoDigits n ++ rest') : m = n ∧ rest = rest' := by
  obtain ⟨hdigits,hrest⟩ := List.append_inj h rfl
  have hinj {a b : Nat} (ha : a < 10) (hb : b < 10) (hab : (48+a).toUInt8 = (48+b).toUInt8) : a = b := by
    have hnat := congrArg UInt8.toNat hab
    rw [UInt8.toNat_ofNat',UInt8.toNat_ofNat'] at hnat
    omega
  obtain ⟨htens,hones⟩ := List.cons.inj hdigits
  have htens := hinj (by omega) (by omega) htens
  have hones := hinj (Nat.mod_lt m (by decide)) (Nat.mod_lt n (by decide)) (List.cons.inj hones).1
  exact ⟨by omega,hrest⟩

/-- The fields are read off the text: all but the year have two digits. -/
theorem strftime_injective {t t' : Tm} (ht : t.Small) (ht' : t'.Small) (h : strftime t = strftime t') : t = t' := by
  obtain ⟨hyear,htail⟩ := List.append_inj' h rfl
  have hyear := decimal_injective (List.append_cancel_left hyear)
  simp only [List.append_assoc] at htail
  obtain ⟨hmon,htail⟩ := twoDigits_append ht.mon ht'.mon htail
  obtain ⟨hmday,htail⟩ := twoDigits_append ht.mday ht'.mday htail
  obtain ⟨hhour,htail⟩ := twoDigits_append ht.hour ht'.hour (List.append_cancel_left htail)
  obtain ⟨hmin,htail⟩ := twoDigits_append ht.min ht'.min htail
  have hsec := (twoDigits_append ht.sec ht'.sec (show twoDigits t.sec ++ [] = twoDigits t'.sec ++ [] by rw [htail])).1
  cases t
  cases t'
  rw [Tm.mk.injEq]
  exact ⟨hsec,hmin,hhour,hmday,Nat.succ.inj hmon,Nat.add_right_cancel hyear⟩

/-- Different seconds have different names. -/
theorem getLogfileName_injective {basename : List UInt8} {now now' : Nat}
    (h : getLogfileName basename now = getLogfileName basename now') : now = now' := by
  have htext := List.append_cancel_left (List.append_cancel_right h)
  exact gmtime_injective (strftime_injective (gmtime_small now) (gmtime_small now') htext)

/-- With the directory it writes to. `messages` is history, `clock` the last reading. -/
structure LogFile where
  basename : List UInt8
  rollSize : Nat
  flushInterval : Int
  checkEveryN : Int
  count : Nat
  file : AppendFile
  startOfPeriod : Nat
  lastFlush : Nat
  directory : Directory
  clock : Nat
  messages : List (List UInt8)
  deriving DecidableEq, Repr

/-- What `append` meets outside: the results of `fwrite`, how many of its bytes the stream
writes out by itself, and the two readings of the clock, for the check and for `rollFile`. -/
inductive LogFileEvent where
  | append (msg : List UInt8) (results : List Nat) (drained now rollNow : Nat)
  | flush
  deriving DecidableEq, Repr

namespace LogFile

/-- `rollFile` opens the next file before `reset` closes the last one. -/
def rollFile (s : LogFile) (now : Nat) : LogFile :=
  let filename := getLogfileName s.basename now
  let (directory,file) := AppendFile.new s.directory filename
  { s with
    file := file
    startOfPeriod := now/kRollPerSeconds*kRollPerSeconds
    directory := s.file.close directory }

/-- The constructor, in an empty directory. The member `checkEveryN_` keeps what lay in its
memory, since the parameter of that name hides it and nothing copies it. -/
def new (basename : List UInt8) (rollSize : Nat) (flushInterval _checkEveryN memory : Int) (now : Nat) : LogFile :=
  let (directory,file) := AppendFile.new [] (getLogfileName basename now)
  { basename := basename
    rollSize := rollSize
    flushInterval := flushInterval
    checkEveryN := memory
    count := 0
    file := file
    startOfPeriod := now/kRollPerSeconds*kRollPerSeconds
    lastFlush := 0
    directory := directory
    clock := now
    messages := [] }

def flush (s : LogFile) : LogFile :=
  let (directory,file) := s.file.flush s.directory
  { s with directory := directory,file := file }

/-- `file_->append`, and what the stream writes out. -/
def appendFile (s : LogFile) (msg : List UInt8) (results : List Nat) (drained : Nat) : LogFile :=
  let (directory,file) := (s.file.append msg results).drain s.directory drained
  { s with directory := directory,file := file,messages := s.messages ++ [msg] }

/-- `count_` is compared with the int `checkEveryN_` as a `size_t`. -/
def appendUnlocked (s : LogFile) (msg : List UInt8) (results : List Nat) (drained now rollNow : Nat) : LogFile :=
  let s := s.appendFile msg results drained
  if s.file.writtenBytes > s.rollSize then s.rollFile rollNow
  else
    let s := { s with count := s.count + 1 }
    if (s.count : Int) ≥ s.checkEveryN % 2^64 then
      let s := { s with count := 0 }
      let timeperiod := now/kRollPerSeconds*kRollPerSeconds
      if timeperiod ≠ s.startOfPeriod then s.rollFile rollNow
      else if (now - s.lastFlush : Int) > s.flushInterval then { s.flush with lastFlush := now }
      else s
    else s

def code (s : LogFile) : LogFileEvent → Except Empty LogFile
  | .append msg results drained now rollNow =>
    pure { s.appendUnlocked msg results drained now rollNow with clock := rollNow }
  | .flush => pure s.flush

/-- Writes succeed, and the clock does not go back. -/
def Enabled (s : LogFile) : LogFileEvent → Prop
  | .append _ results _ now rollNow => results = [] ∧ s.clock ≤ now ∧ now ≤ rollNow
  | .flush => True

instance (s : LogFile) : (a : LogFileEvent) → Decidable (s.Enabled a)
  | .append .. => inferInstanceAs (Decidable (_ ∧ _ ∧ _))
  | .flush => isTrue trivial

def machine : Machine LogFile LogFileEvent Empty := ⟨Enabled,code⟩

instance (s : LogFile) (a : LogFileEvent) : Decidable (machine.Enabled s a) :=
  inferInstanceAs (Decidable (s.Enabled a))

variable {s : LogFile} {now : Nat}

/-- A roll keeps the name of the log. -/
@[simp] theorem rollFile_basename : (s.rollFile now).basename = s.basename := rfl

/-- A roll keeps the messages. -/
@[simp] theorem rollFile_messages : (s.rollFile now).messages = s.messages := rfl

/-- A roll opens the file of its second and closes the one before. -/
theorem rollFile_directory : (s.rollFile now).directory =
    (s.directory.fopen (getLogfileName s.basename now)).write s.file.filename s.file.pending := s.file.close_eq _

end LogFile
end LearningMuduo.Logging
