import LearningMuduo.Common.AppendFile
import Mathlib.Data.List.Infix
import Mathlib.Order.Monotone.Basic

/-! What `append` has written when it returns, whatever its calls of `fwrite` answer. -/
namespace LearningMuduo.Common.AppendFile

/-- The loop of `append` when call number k of `fwrite` answers with the k-th result, cut to what
the call asks for. Call number i is the next one; the last part of the value counts the calls made. -/
def appendWhile (buf : List UInt8) (results : Nat → Nat) (i : Nat) (f : AppendFile) (nWritten : Nat) :
    AppendFile × Nat × Nat :=
  if nWritten < buf.length then
    let x := min (results i) (buf.length - nWritten)
    if x = 0 then (f,nWritten,i + 1) else appendWhile buf results (i + 1) (f.fwrite buf x) (nWritten + x)
  else (f,nWritten,i)
termination_by buf.length - nWritten

/-- `append` under an endless sequence of answers, and how many calls of `fwrite` it makes. -/
def appendUnder (f : AppendFile) (buf : List UInt8) (results : Nat → Nat) : AppendFile × Nat :=
  let nWritten := min (results 0) buf.length
  let (f,nWritten,calls) := appendWhile buf results 1 (f.fwrite buf nWritten) nWritten
  ({ f with writtenBytes := f.writtenBytes + nWritten },calls)

/-- What `append` owes its caller: the first nWritten bytes, counted, and all of them unless a call of `fwrite`
took nothing. -/
def Writes (f : AppendFile) (buf : List UInt8) (results : Nat → Nat) : Prop :=
  ∃ nWritten ≤ buf.length, (f.appendUnder buf results).1 =
      { f with pending := f.pending ++ buf.take nWritten,writtenBytes := f.writtenBytes + nWritten } ∧
    (nWritten = buf.length ∨ ∃ k < (f.appendUnder buf results).2, results k = 0)

/-- How many bytes the first k answers accept. -/
def taken (buf : List UInt8) (results : Nat → Nat) : Nat → Nat
  | 0 => 0
  | k + 1 => taken buf results k + min (results k) (buf.length - taken buf results k)

/-- The bytes that the k-th answer should account for are the ones that `buf` begins with. -/
def Repeats (buf : List UInt8) (results : Nat → Nat) (k : Nat) : Prop :=
  (buf.drop (taken buf results k)).take (results k) <+: buf

/-- No retry comes after a write that stopped where `buf` does not begin again. -/
def Repeating (buf : List UInt8) (results : Nat → Nat) : Prop :=
  ∀ k, (∀ j, 0 < j → j < k → results j ≠ 0) → Repeats buf results k

variable {buf : List UInt8} {results : Nat → Nat} {i n : Nat}

private theorem taken_mono : Monotone (taken buf results) := monotone_nat_of_le_succ fun _ => Nat.le_add_right _ _

private theorem repeats_of_full {k : Nat} (h : buf.length ≤ taken buf results k) : Repeats buf results k := by
  rw [Repeats,List.drop_eq_nil_of_le h,List.take_nil]
  exact List.nil_prefix

private theorem repeats_iff (h : taken buf results i = n) :
    Repeats buf results i ↔ buf.take (min (results i) (buf.length - n)) =
      (buf.drop n).take (min (results i) (buf.length - n)) := by
  have hcut : (buf.drop n).take (min (results i) (buf.length - n)) = (buf.drop n).take (results i) := by
    rw [← List.length_drop,← List.take_take,List.take_length]
  have hlen : ((buf.drop n).take (results i)).length = min (results i) (buf.length - n) := by
    rw [List.length_take,List.length_drop]
  rw [Repeats,h,List.prefix_iff_eq_take,hlen,hcut]
  exact eq_comm

private theorem repeats_from_iff (h : results i ≠ 0) :
    (∀ k, i ≤ k → (∀ j, i ≤ j → j < k → results j ≠ 0) → Repeats buf results k) ↔
      Repeats buf results i ∧ ∀ k, i + 1 ≤ k → (∀ j, i + 1 ≤ j → j < k → results j ≠ 0) → Repeats buf results k := by
  constructor
  · intro hall
    refine ⟨hall i le_rfl fun j hj hlt => absurd hj (Nat.not_le.mpr hlt),fun k hk hnz => hall k (Nat.le_of_succ_le hk) ?_⟩
    intro j hj hlt
    rcases Nat.eq_or_lt_of_le hj with heq | hlt'
    · exact heq ▸ h
    · exact hnz j hlt' hlt
  · rintro ⟨hfirst,hrest⟩ k hk hnz
    rcases Nat.eq_or_lt_of_le hk with heq | hlt
    · exact heq ▸ hfirst
    · exact hrest k hlt fun j hj => hnz j (Nat.le_of_succ_le hj)

/-- What the loop adds, how far it gets and in how many calls. -/
theorem appendWhile_spec (i : Nat) (f : AppendFile) (n : Nat) (hn : taken buf results i = n) (hle : n ≤ buf.length) :
    ∃ more m calls, appendWhile buf results i f n = ({ f with pending := f.pending ++ more },m,calls) ∧
      n ≤ m ∧ m ≤ buf.length ∧ more.length = m - n ∧ calls ≤ i + (buf.length - n) ∧
      (m = buf.length ∨ ∃ k < calls, results k = 0) ∧
      (more = (buf.drop n).take (m - n) ↔
        ∀ k, i ≤ k → (∀ j, i ≤ j → j < k → results j ≠ 0) → Repeats buf results k) := by
  induction i, f, n using appendWhile.induct buf results with
  | case1 i f n hlt x hx =>
    have hzero : results i = 0 := by
      have hx : min (results i) (buf.length - n) = 0 := hx
      omega
    refine ⟨[],n,i + 1,?_,le_rfl,hle,(Nat.sub_self n).symm,by omega,Or.inr ⟨i,i.lt_succ_self,hzero⟩,?_⟩
    · rw [appendWhile,if_pos hlt,if_pos hx,List.append_nil]
    · rw [Nat.sub_self,List.take_zero]
      refine iff_of_true rfl fun k hk hnz => ?_
      -- no call follows the one that took nothing
      rcases Nat.eq_or_lt_of_le hk with heq | hlt
      · rw [← heq,Repeats,hzero,List.take_zero]
        exact List.nil_prefix
      · exact absurd hzero (hnz i le_rfl hlt)
  | case2 i f n hlt x hx ih =>
    have hx' : min (results i) (buf.length - n) ≠ 0 := hx
    have hnext : taken buf results (i + 1) = n + x := by rw [taken,hn]
    have hxdef : min (results i) (buf.length - n) = x := rfl
    have hxle : x ≤ buf.length - n := Nat.min_le_right _ _
    have hxpos : x ≠ 0 := hx
    clear_value x
    obtain ⟨more,m,calls,heq,hnm,hml,hlen,hcalls,hend,hiff⟩ := ih hnext (by omega)
    have hcount : m - n = x + (m - (n + x)) := by clear hend; omega
    refine ⟨buf.take x ++ more,m,calls,?_,by omega,hml,?_,by omega,hend,?_⟩
    · rw [appendWhile,if_pos hlt,if_neg hx',hxdef,heq,fwrite,List.append_assoc]
    · rw [List.length_append,List.length_take_of_le (hxle.trans (Nat.sub_le _ _)),hlen,hcount]
    · have hsplit : (buf.drop n).take (m - n) = (buf.drop n).take x ++ (buf.drop (n + x)).take (m - (n + x)) := by
        rw [hcount,List.take_add,List.drop_drop]
      have hlens : (buf.take x).length = ((buf.drop n).take x).length := by
        rw [List.length_take,List.length_take,List.length_drop]
        omega
      rw [repeats_from_iff (by omega),repeats_iff hn,hxdef,hsplit,← hiff]
      constructor
      · intro h
        exact List.append_inj h hlens
      · rintro ⟨hfirst,hrest⟩
        rw [hfirst,hrest]
  | case3 i f n hlt =>
    refine ⟨[],n,i,?_,le_rfl,hle,(Nat.sub_self n).symm,by omega,Or.inl (by omega),?_⟩
    · rw [appendWhile,if_neg hlt,List.append_nil]
    · rw [Nat.sub_self,List.take_zero]
      refine iff_of_true rfl fun k hk _ => repeats_of_full ?_
      exact (by omega : buf.length ≤ taken buf results i).trans (taken_mono hk)

private theorem appendLoop_eq (results : Nat → Nat) (left : List Nat) (i : Nat) (f : AppendFile) (n : Nat) (hn : n ≤ buf.length)
    (hleft : ∀ k, results (i + k) = left.getD k buf.length) :
    appendLoop buf left f n = ((appendWhile buf results i f n).1,(appendWhile buf results i f n).2.1) := by
  induction left generalizing i f n with
  | nil =>
    rw [appendLoop]
    split
    · have hall : results i = buf.length := hleft 0
      have hrest : min (results i) (buf.length - n) = buf.length - n := by rw [hall]; exact Nat.min_eq_right (Nat.sub_le _ _)
      have hdone : n + (buf.length - n) = buf.length := Nat.add_sub_cancel' hn
      rw [appendWhile,if_pos ‹_›,if_neg (by omega),hrest,hdone,appendWhile,if_neg (Nat.lt_irrefl _)]
    · rw [appendWhile,if_neg ‹_›]
  | cons r left ih =>
    have hr : results i = r := hleft 0
    have htail : ∀ k, results (i + 1 + k) = left.getD k buf.length := fun k => by
      rw [Nat.add_assoc,Nat.add_comm 1 k,hleft,List.getD_cons_succ]
    rw [appendLoop,appendWhile,hr]
    split
    · dsimp only
      split
      · rfl
      · exact ih (i + 1) _ _ (by omega) htail
    · rfl

/-- A list of answers is a sequence in which every later call takes all it is given. -/
theorem append_eq_appendUnder (f : AppendFile) (buf : List UInt8) (results : List Nat) :
    f.append buf results = (f.appendUnder buf fun k => results.getD k buf.length).1 := by
  have hfirst : results.headD buf.length = results.getD 0 buf.length := by cases results <;> rfl
  have htail : ∀ k, results.getD (1 + k) buf.length = results.tail.getD k buf.length := fun k => by
    rw [Nat.add_comm]
    cases results <;> rfl
  rw [append,appendUnder,hfirst]
  dsimp only
  rw [appendLoop_eq (fun k => results.getD k buf.length) results.tail 1 _ _ (Nat.min_le_right _ _) htail]

/-- `append` returns after at most one call of `fwrite` for each byte and one more. It writes what the caller gave
it exactly when each retry, which starts again at `buf`, happens to find there the bytes that come next. -/
theorem append_writes_iff (f : AppendFile) (buf : List UInt8) (results : Nat → Nat) :
    (f.appendUnder buf results).2 ≤ buf.length + 1 ∧ (Writes f buf results ↔ Repeating buf results) := by
  have hone : taken buf results 1 = min (results 0) buf.length := by rw [taken,taken,Nat.sub_zero,Nat.zero_add]
  obtain ⟨more,m,calls,heq,hnm,hml,hlen,hcalls,hend,hiff⟩ :=
    appendWhile_spec 1 (f.fwrite buf (min (results 0) buf.length)) _ hone (Nat.min_le_right _ _)
  have hunder : f.appendUnder buf results =
      ({ f with pending := f.pending ++ (buf.take (min (results 0) buf.length) ++ more),
                writtenBytes := f.writtenBytes + m },calls) := by
    rw [appendUnder,heq,fwrite,List.append_assoc]
  have hsplit : buf.take m = buf.take (min (results 0) buf.length) ++ (buf.drop (min (results 0) buf.length)).take
      (m - min (results 0) buf.length) := by
    rw [← List.take_add,Nat.add_sub_cancel' hnm]
  have hmore : more = (buf.drop (min (results 0) buf.length)).take (m - min (results 0) buf.length) ↔
      Repeating buf results := by
    refine hiff.trans ⟨fun h k hnz => ?_,fun h k _ hnz => h k hnz⟩
    rcases Nat.eq_zero_or_pos k with rfl | hk
    · rw [Repeats,taken,List.drop_zero]
      exact List.take_prefix _ _
    · exact h k hk hnz
  rw [Writes,hunder,← hmore]
  refine ⟨by simp only; omega,?_,fun h => ⟨m,hml,by rw [hsplit,← h],hend⟩⟩
  rintro ⟨k,hk,heq,-⟩
  have hkm : m = k := Nat.add_left_cancel (congrArg AppendFile.writtenBytes heq)
  have hbytes := List.append_cancel_left (congrArg AppendFile.pending heq)
  rw [← hkm,hsplit] at hbytes
  exact List.append_cancel_left hbytes

/-- After a first write of one byte the retry starts at that byte again. -/
theorem append_repeats : ¬ Writes ⟨[],[],0⟩ [1,2,3] (fun k => [1].getD k 3) := by
  have hrun : (appendUnder ⟨[],[],0⟩ [1,2,3] fun k => [1].getD k 3).1 = ⟨[],[1,1,2],3⟩ :=
    (append_eq_appendUnder ⟨[],[],0⟩ [1,2,3] [1]).symm.trans (by decide)
  rintro ⟨n,hn,heq,-⟩
  rw [hrun] at heq
  have hcount : 3 = 0 + n := congrArg AppendFile.writtenBytes heq
  rw [Nat.zero_add] at hcount
  rw [← hcount] at heq
  exact absurd (congrArg AppendFile.pending heq) (by decide)
end LearningMuduo.Common.AppendFile
