import LearningMuduo.Logging.LogFileBounds
import Mathlib.Data.List.Sort

/-! The names of the log's files. Listed by name the files stand in the order in which they were
opened, so that read in that order they give the messages in theirs. -/
namespace LearningMuduo.Logging
open Library Common

/-- Where the first texts are of one length, they decide. -/
theorem append_lt_append {x y : List UInt8} (hlen : x.length = y.length) (h : x < y) (rest rest' : List UInt8) :
    x ++ rest < y ++ rest' := by
  induction x generalizing y with
  | nil =>
    rw [List.eq_nil_of_length_eq_zero hlen.symm] at h
    exact absurd h (List.not_lt_nil [])
  | cons a x ih =>
    cases y with
    | nil => cases hlen
    | cons b y =>
      rw [List.cons_lt_cons_iff] at h
      rw [List.cons_append,List.cons_append,List.cons_lt_cons_iff]
      exact h.imp id fun h => ⟨h.1,ih (Nat.succ.inj hlen) h.2⟩

private theorem digit_lt {m n : Nat} (hn : n < 10) (h : m < n) : (48+m).toUInt8 < (48+n).toUInt8 := by
  rw [UInt8.lt_iff_toNat_lt,UInt8.toNat_ofNat',UInt8.toNat_ofNat']
  omega

private theorem twoDigits_lt {m n : Nat} (hn : n < 100) (h : m < n) : twoDigits m < twoDigits n := by
  rw [twoDigits,twoDigits,List.cons_lt_cons_iff]
  rcases Nat.eq_or_lt_of_le (Nat.div_le_div_right (c := 10) (Nat.le_of_lt h)) with heq | hlt
  · refine .inr ⟨by rw [heq],?_⟩
    rw [List.cons_lt_cons_iff]
    exact .inl (digit_lt (Nat.mod_lt n (by decide)) (by omega))
  · exact .inl (digit_lt (by omega) hlt)

private theorem field_lt {m n : Nat} {P : Prop} {rest rest' : List UInt8} (hn : n < 100) (h : m < n ∨ m = n ∧ P)
    (hrest : P → rest < rest') : twoDigits m ++ rest < twoDigits n ++ rest' := by
  rcases h with h | ⟨rfl,h⟩
  · exact append_lt_append (x := twoDigits m) (y := twoDigits n) rfl (twoDigits_lt hn h) rest rest'
  · exact List.append_left_lt (hrest h)

private theorem decimal_year {year : Nat} (h : 1000 ≤ year) (h' : year < 10000) :
    decimal (year : Nat) = twoDigits (year/100) ++ twoDigits (year % 100) := by
  have hdigit : ∀ d : Fin 10, (Nat.digitChar d).val.toUInt8 = (48+d.val).toUInt8 := by decide
  have hchar {d : Nat} (hd : d < 10) : d.digitChar.val.toUInt8 = (48+d).toUInt8 := hdigit ⟨d,hd⟩
  have hten : year/10/10/10 = year/100/10 := by omega
  have hone : year/10/10 % 10 = year/100 % 10 := by omega
  have htail : year/10 % 10 = year % 100/10 := by omega
  have hlast : year % 10 = year % 100 % 10 := by omega
  rw [decimal_natCast,Nat.toDigits_of_base_le (by decide) (by omega),Nat.toDigits_of_base_le (by decide) (by omega),
    Nat.toDigits_of_base_le (by decide) (by omega),Nat.toDigits_of_lt_base (by omega)]
  simp only [List.map_cons,List.map_nil,List.cons_append,List.nil_append]
  rw [hchar (by omega),hchar (by omega),hchar (by omega),hchar (by omega),hten,hone,htail,hlast]
  rfl

private theorem decimal_year_lt {m n : Nat} (hm : 1000 ≤ m) (hn : n < 10000) (h : m < n) :
    decimal (m : Nat) < decimal (n : Nat) := by
  rw [decimal_year hm (by omega),decimal_year (by omega) hn]
  refine field_lt (P := m % 100 < n % 100) (by omega) (by omega) fun h => ?_
  exact twoDigits_lt (Nat.mod_lt n (by decide)) h

private theorem length_decimal_year {year : Nat} (h : 1000 ≤ year) (h' : year < 10000) :
    (decimal (year : Nat)).length = 4 := by
  rw [decimal_year h h']
  rfl

/-- Earlier times have smaller texts, as long as the year has four digits. -/
theorem strftime_lt {t u : Tm} (hu : u.Small) (ht : 1000 ≤ t.year+1900) (hyear : u.year+1900 < 10000) (h : t.Before u) :
    strftime t < strftime u := by
  rw [strftime,strftime]
  rcases h with h | ⟨heq,h⟩
  · have hlen : ([46] ++ decimal (t.year+1900 : Nat)).length = ([46] ++ decimal (u.year+1900 : Nat)).length := by
      rw [List.length_append,List.length_append,length_decimal_year ht (by omega),length_decimal_year (by omega) hyear]
    exact append_lt_append hlen (List.append_left_lt (decimal_year_lt ht hyear (by omega))) _ _
  · rw [heq]
    refine List.append_left_lt ?_
    simp only [List.append_assoc]
    refine field_lt hu.mon (h.imp Nat.succ_lt_succ fun h => ⟨congrArg Nat.succ h.1,h.2⟩) fun h => ?_
    refine field_lt hu.mday h fun h => List.append_left_lt ?_
    exact field_lt hu.hour h fun h => field_lt hu.min h fun h => twoDigits_lt hu.sec h

private theorem length_strftime {t : Tm} (ht : 1000 ≤ t.year+1900) (hyear : t.year+1900 < 10000) : (strftime t).length = 16 := by
  have hlen := length_decimal_year ht hyear
  rw [strftime,List.length_append,List.length_append,hlen]
  rfl

/-- The names of a log's files grow with the time, up to the end of the year 9999. -/
theorem getLogfileName_lt (basename : List UInt8) {t u : Nat} (hyear : (gmtime u).year+1900 < 10000) (h : t < u) :
    getLogfileName basename t < getLogfileName basename u := by
  have hge := gmtime_year_ge t
  have hle := gmtime_year_le (Nat.le_of_lt h)
  have hlen : (strftime (gmtime t)).length = (strftime (gmtime u)).length := by
    rw [length_strftime (by omega) (by omega),length_strftime (by omega) hyear]
  rw [getLogfileName,getLogfileName,List.append_assoc,List.append_assoc]
  refine List.append_left_lt (append_lt_append hlen ?_ _ _)
  exact strftime_lt (gmtime_small u) (by omega) hyear (gmtime_before h)

private theorem write_names (dir : Directory) (name bytes : List UInt8) :
    (dir.write name bytes).map File.name = dir.map File.name := by
  rw [Directory.write,List.map_map]
  refine List.map_congr_left fun f _ => ?_
  rw [Function.comp_apply]
  split
  · rfl
  · rfl

private theorem fopen_names (dir : Directory) (name : List UInt8) : (dir.fopen name).map File.name =
    if name ∈ dir.map File.name then dir.map File.name else dir.map File.name ++ [name] := by
  have hmem : (∃ f ∈ dir, f.name = name) ↔ name ∈ dir.map File.name := List.mem_map.symm
  rw [Directory.fopen]
  split
  · next h => rw [if_pos (hmem.mp h)]
  · next h =>
    rw [if_neg fun hm => h (hmem.mpr hm),List.map_append]
    rfl

namespace LogFile

/-- The times at which the files were opened. -/
structure Opened (s : LogFile) (times : List Nat) : Prop where
  names : s.directory.map File.name = times.map (getLogfileName s.basename)
  later : times.Pairwise (· < ·)
  past : ∀ t ∈ times, t ≤ s.clock

variable {s : LogFile} {times : List Nat}

private theorem rollFile_names (s : LogFile) (now : Nat) :
    (s.rollFile now).directory.map File.name = (s.directory.fopen (getLogfileName s.basename now)).map File.name := by
  rw [rollFile_directory,write_names]

/-- One `append` opens a file at most, under the name of the second in which it rolls. -/
theorem appendUnlocked_names (s : LogFile) (msg : List UInt8) (results : List Nat) (drained now rollNow : Nat) :
    (s.appendUnlocked msg results drained now rollNow).basename = s.basename ∧
    ((s.appendUnlocked msg results drained now rollNow).directory.map File.name = s.directory.map File.name ∨
      (s.appendUnlocked msg results drained now rollNow).directory.map File.name =
        (s.directory.fopen (getLogfileName s.basename rollNow)).map File.name) := by
  have hwritten : (s.appendFile msg results drained).directory.map File.name = s.directory.map File.name := write_names _ _ _
  have hbase : (s.appendFile msg results drained).basename = s.basename := rfl
  rw [appendUnlocked]
  generalize s.appendFile msg results drained = s' at hwritten hbase
  have hroll (u : LogFile) (hdir : u.directory = s'.directory) (hname : u.basename = s'.basename) :
      (u.rollFile rollNow).directory.map File.name = (s.directory.fopen (getLogfileName s.basename rollNow)).map File.name := by
    rw [rollFile_names,fopen_names,fopen_names,hdir,hname,hwritten,hbase]
  dsimp only
  split
  · exact ⟨hbase,.inr (hroll s' rfl rfl)⟩
  · split
    · split
      · exact ⟨hbase,.inr (hroll { s' with count := 0 } rfl rfl)⟩
      · split
        · exact ⟨hbase,.inl ((write_names _ _ _).trans hwritten)⟩
        · exact ⟨hbase,.inl hwritten⟩
    · exact ⟨hbase,.inl hwritten⟩

private theorem Opened.step {a : LogFileEvent} (h : s.Opened times) (he : s.Enabled a) :
    ∃ s' times', s.code a = .ok s' ∧ s'.Opened times' := by
  cases a with
  | flush => exact ⟨s.flush,times,rfl,(write_names _ _ _).trans h.names,h.later,h.past⟩
  | append msg results drained now rollNow =>
    obtain ⟨-,hclock,hnow⟩ := he
    have hle (t : Nat) (ht : t ∈ times) : t ≤ rollNow := (h.past t ht).trans (hclock.trans hnow)
    obtain ⟨hbase,hsame | hopen⟩ := s.appendUnlocked_names msg results drained now rollNow
    · refine ⟨_,times,rfl,?_,h.later,hle⟩
      rw [hbase]
      exact hsame.trans h.names
    · refine ⟨_,if getLogfileName s.basename rollNow ∈ s.directory.map File.name then times else times ++ [rollNow],rfl,?_⟩
      rw [fopen_names] at hopen
      split
      · next hold =>
        rw [if_pos hold] at hopen
        refine ⟨?_,h.later,hle⟩
        rw [hbase]
        exact hopen.trans h.names
      · next hnew =>
        rw [if_neg hnew] at hopen
        have hlt (t : Nat) (ht : t ∈ times) : t < rollNow := by
          refine Nat.lt_of_le_of_ne (hle t ht) fun heq => hnew ?_
          rw [h.names,← heq]
          exact List.mem_map_of_mem ht
        refine ⟨?_,?_,?_⟩
        · rw [hbase,List.map_append,← h.names]
          exact hopen
        · rw [List.pairwise_append]
          refine ⟨h.later,List.pairwise_singleton _ rollNow,fun t ht u hu => ?_⟩
          rw [List.mem_singleton.mp hu]
          exact hlt t ht
        · intro t ht
          rcases List.mem_append.mp ht with ht | ht
          · exact hle t ht
          · exact Nat.le_of_eq (List.mem_singleton.mp ht)

private theorem new_opened (basename : List UInt8) (rollSize : Nat) (flushInterval arg memory : Int) (now : Nat) :
    (new basename rollSize flushInterval arg memory now).Opened [now] :=
  ⟨rfl,List.pairwise_singleton _ now,fun _ ht => Nat.le_of_eq (List.mem_singleton.mp ht)⟩

/-- In a year of four digits the files stand in the order of their names. -/
theorem Opened.sorted (h : s.Opened times) (hyear : (gmtime s.clock).year+1900 < 10000) :
    (s.file.close s.directory).Pairwise (fun f g => f.name < g.name) := by
  have hnames : (s.file.close s.directory).map File.name = times.map (getLogfileName s.basename) := by
    rw [AppendFile.close_eq,write_names,h.names]
  rw [← List.pairwise_map (f := File.name) (R := (· < ·)),hnames,List.pairwise_map]
  refine h.later.imp_of_mem fun {t u} _ hu hlt => getLogfileName_lt s.basename ?_ hlt
  have hle := gmtime_year_le (h.past u hu)
  omega

/-- The names decide the order of a listing. -/
theorem listing_eq {files listing : Directory} (hsorted : files.Pairwise (fun f g => f.name < g.name))
    (hperm : listing.Perm files) (h : listing.Pairwise (fun f g => f.name ≤ g.name)) : listing = files := by
  have hfiles : files.Pairwise (fun f g => f.name ≤ g.name) := hsorted.imp fun hlt => List.le_of_lt hlt
  refine hperm.eq_of_pairwise (fun f g hf hg hfg hgf => ?_) h hfiles
  have hinj : (files.map File.name).Nodup := by
    rw [List.nodup_iff_pairwise_ne,List.pairwise_map]
    refine hsorted.imp fun {f g} hlt (heq : f.name = g.name) => ?_
    rw [heq] at hlt
    exact List.lt_irrefl g.name hlt
  exact List.inj_on_of_nodup_map hinj (hperm.subset hf) hg (List.le_antisymm hfg hgf)

private def fourFiles : List LogFileEvent :=
  [.append (List.replicate 11 97) [] 5 1709164798 1709164799,.append (List.replicate 12 98) [] 0 1709164799 1709164800,
    .append (List.replicate 13 99) [] 0 1709164805 1709164809,.flush,.append [100] [] 0 1709164809 1709164810]

end LogFile
end LearningMuduo.Logging
