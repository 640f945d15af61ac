import LearningMuduo.Logging.AsyncLogging
import LearningMuduo.Logging.LogStream

/-! How full the buffers of the log can get. -/
namespace LearningMuduo.Logging
open Library

/-- A buffer of the asynchronous log as a `FixedBuffer<kLargeBuffer>`. -/
def FixedBuffer.toCommon (b : FixedBuffer) : Common.FixedBuffer kLargeBuffer := ⟨b.data⟩

/-- Its `append` is `append(buf,len)`. -/
theorem FixedBuffer.append_toCommon (b : FixedBuffer) (e : Entry) :
    toCommon <$> b.append e = (b.toCommon.append ⟨.bytes,e.bytes⟩).mapError fun _ => .overflow := by
  have hdata : (b.entries ++ [{ e with bytes := e.bytes.take kLargeBuffer }]).flatMap Entry.bytes =
      b.data ++ e.bytes.take kLargeBuffer := by
    rw [List.flatMap_append,List.flatMap_singleton]
    rfl
  rw [show b.toCommon.append ⟨.bytes,e.bytes⟩ = b.toCommon.appendBytes e.bytes from rfl,
    Common.FixedBuffer.appendBytes_eq,Common.FixedBuffer.put,append,available,List.take_take,Nat.min_self]
  by_cases hroom : b.length+(e.bytes.take kLargeBuffer).length ≤ kLargeBuffer
  · rw [require_pos hroom,require_pos (by exact hroom)]
    change (Except.ok ⟨List.flatMap _ _⟩ : Except LogFault (Common.FixedBuffer kLargeBuffer)) = .ok ⟨_⟩
    rw [hdata]
    rfl
  · rw [require_neg hroom,require_neg (by exact hroom)]
    rfl

private theorem FixedBuffer.append_bounded {b : FixedBuffer} {e : Entry} (h : b.toCommon.Fits ⟨.bytes,e.bytes⟩) :
    ∃ c, b.append e = .ok c ∧ c.length ≤ kLargeBuffer := by
  have hcommon := b.append_toCommon e
  rw [Common.FixedBuffer.append_ok h] at hcommon
  cases hc : b.append e with
  | ok c =>
    rw [hc] at hcommon
    have hwritten : c.toCommon = ⟨b.data ++ e.bytes.take kLargeBuffer⟩ := Except.ok.inj hcommon
    refine ⟨c,rfl,?_⟩
    change c.toCommon.length ≤ kLargeBuffer
    rw [hwritten]
    exact Common.FixedBuffer.length_append_le h
  | error fault =>
    rw [hc] at hcommon
    cases hcommon

namespace AsyncLogging
variable {s t : AsyncLogging}

/-- The log with its real `available()`: a message may come at any time. -/
def appends : Machine AsyncLogging LogOp LogFault where
  Enabled s
    | .append _ available => available = kLargeBuffer
    | op => s.Enabled op
  step := machine.step

/-- The buffer that takes a message is empty or has room for all of it. -/
def Room (s : AsyncLogging) : LogOp → Prop
  | .append msg available => (s.target msg available).toCommon.Fits ⟨.bytes,msg⟩
  | _ => True

/-- Every buffer there is. -/
def pointers (s : AsyncLogging) : List BufferPtr :=
  [s.currentBuffer,s.nextBuffer,s.newBuffer1,s.newBuffer2] ++ s.buffers ++ s.buffersToWrite

def Bounded (s : AsyncLogging) : Prop := ∀ b, some b ∈ s.pointers → b.length ≤ kLargeBuffer

/-- The buffers of t are buffers of s or empty. -/
private def Within (s t : AsyncLogging) : Prop := ∀ b, some b ∈ t.pointers → some b ∈ s.pointers ∨ b.length = 0

private theorem Bounded.within (h : s.Bounded) (hw : s.Within t) : t.Bounded := by
  intro b hb
  rcases hw b hb with hb | hb
  · exact h b hb
  · rw [hb]
    exact Nat.zero_le _

private theorem mem_pointers {p : BufferPtr} : p ∈ s.pointers ↔ p = s.currentBuffer ∨ p = s.nextBuffer ∨
    p = s.newBuffer1 ∨ p = s.newBuffer2 ∨ p ∈ s.buffers ∨ p ∈ s.buffersToWrite := by
  simp only [pointers,List.mem_append,List.mem_cons,List.not_mem_nil,or_false,or_assoc]

private theorem enter_within (s : AsyncLogging) : s.Within s.enter := by
  intro b hb
  rw [mem_pointers] at hb ⊢
  simp only [enter,Option.some.injEq,List.not_mem_nil,or_false] at hb
  rcases hb with hb | hb | rfl | rfl | hb
  · exact .inl (.inl hb)
  · exact .inl (.inr (.inl hb))
  · exact .inr rfl
  · exact .inr rfl
  · tauto

private theorem swap_within (s : AsyncLogging) : s.Within s.swap := by
  intro b hb
  left
  rw [mem_pointers] at hb ⊢
  unfold swap at hb
  dsimp only at hb
  split at hb
  · simp only [List.mem_append,List.mem_singleton,reduceCtorEq,false_or] at hb
    tauto
  · simp only [List.mem_append,List.mem_singleton,reduceCtorEq,false_or] at hb
    tauto

private theorem test_within (s : AsyncLogging) : Meets s.Within (· ≠ .overflow) s.test := by
  unfold test
  split
  · have hsite (site : LogAssert) : LogFault.assertion site ≠ .overflow := LogFault.noConfusion
    refine Meets.bind (meets_require fun _ => hsite _) fun _ _ => ?_
    refine Meets.bind (meets_require fun _ => hsite _) fun _ _ => ?_
    refine Meets.bind (meets_require fun _ => hsite _) fun _ _ => ?_
    exact fun b hb => .inl hb
  · exact fun b hb => .inl hb

private theorem lock_within (s : AsyncLogging) : s.Within s.lock := by
  unfold lock
  split
  · exact fun b hb => .inl hb
  · exact swap_within s

private theorem cut_within (s : AsyncLogging) : Meets s.Within (· ≠ .overflow) s.cut := by
  unfold cut
  refine Meets.bind (meets_require fun _ => LogFault.noConfusion) fun _ _ => ?_
  dsimp only
  split
  · intro b hb
    left
    rw [mem_pointers] at hb ⊢
    have hsub := List.take_subset 2 s.buffersToWrite
    exact hb.imp_right (Or.imp_right (Or.imp_right (Or.imp_right (Or.imp_right fun h => hsub h))))
  · exact fun b hb => .inl hb

private theorem write_within (s : AsyncLogging) (i : Nat) : Meets s.Within (· ≠ .overflow) (s.write i) := by
  unfold write
  split
  · exact fun b hb => .inl hb
  · exact LogFault.noConfusion
  · exact fun b hb => .inl hb

private theorem refill_within {slot : BufferPtr} {toWrite : List BufferPtr} (site : LogAssert) :
    Meets (fun r => (r.1 = slot ∨ ∃ b : FixedBuffer, r.1 = some b ∧ b.length = 0)) (· ≠ .overflow)
      (refill slot toWrite site) := by
  unfold refill
  split
  · exact .inl rfl
  · exact LogFault.noConfusion
  · exact LogFault.noConfusion
  · exact .inr ⟨_,rfl,rfl⟩

private theorem recycle_within (s : AsyncLogging) : Meets s.Within (· ≠ .overflow) s.recycle := by
  unfold recycle
  dsimp only
  refine Meets.bind (refill_within _) fun r1 h1 => Meets.bind (refill_within _) fun r2 h2 => ?_
  intro b hb
  rw [mem_pointers] at hb ⊢
  simp only [List.not_mem_nil,or_false] at hb
  rcases hb with hb | hb | hb | hb | hb
  · tauto
  · tauto
  · rcases h1 with h1 | ⟨c,h1,hc⟩
    · exact .inl (by rw [← h1]; tauto)
    · rw [h1,Option.some.injEq] at hb
      exact .inr (by rw [hb,hc])
  · rcases h2 with h2 | ⟨c,h2,hc⟩
    · exact .inl (by rw [← h2]; tauto)
    · rw [h2,Option.some.injEq] at hb
      exact .inr (by rw [hb,hc])
  · tauto

private theorem run_within (s : AsyncLogging) : Meets s.Within (· ≠ .overflow) s.run := by
  unfold run
  cases s.thread with
  | absent => exact fun b hb => .inl hb
  | done => exact fun b hb => .inl hb
  | entry => exact enter_within s
  | test => exact test_within s
  | lock => exact lock_within s
  | waiting => exact swap_within s
  | swapped => exact cut_within s
  | writing i => exact write_within s i
  | recycling => exact recycle_within s

private theorem append_bounded (h : s.Bounded) {msg : List UInt8} {available : Nat}
    (hroom : s.Room (.append msg available)) :
    Meets Bounded (· ≠ .overflow) (s.append msg available) := by
  unfold append
  dsimp only
  cases hc : s.currentBuffer with
  | none => exact LogFault.noConfusion
  | some b =>
    dsimp only
    rw [Room,target,hc] at hroom
    split
    · next ha =>
      rw [if_pos ha] at hroom
      obtain ⟨c,hb,hlen⟩ := FixedBuffer.append_bounded (e := ⟨s.appended.length,msg⟩) hroom
      rw [show b.append ⟨s.appended.length,msg⟩ = .ok c from hb,bind_ok]
      intro d hd
      rw [mem_pointers] at hd
      rcases hd with hd | hd
      · cases hd
        exact hlen
      · exact h d (mem_pointers.mpr (.inr hd))
    · next ha =>
      rw [if_neg ha] at hroom
      obtain ⟨c,hb,hlen⟩ := FixedBuffer.append_bounded (e := ⟨s.appended.length,msg⟩) hroom
      rw [show (s.nextBuffer.getD .new).append ⟨s.appended.length,msg⟩ = .ok c from hb,bind_ok]
      intro d hd
      rw [mem_pointers] at hd
      simp only [Option.some.injEq,List.mem_append,List.mem_singleton,reduceCtorEq,false_or] at hd
      rcases hd with hd | hd | hd | (hd | hd) | hd
      · rw [hd]
        exact hlen
      · exact h d (mem_pointers.mpr (by tauto))
      · exact h d (mem_pointers.mpr (by tauto))
      · exact h d (mem_pointers.mpr (by tauto))
      · exact h d (mem_pointers.mpr (.inl (by rw [hc,hd])))
      · exact h d (mem_pointers.mpr (by tauto))

private theorem step_bounded (s : AsyncLogging) (op : LogOp) (h : s.Bounded) (he : (appends.guard Room).Enabled s op) :
    Meets Bounded (· ≠ .overflow) (appends.step s op) := by
  cases op with
  | append msg available => exact append_bounded h he.2
  | setRunning => exact h
  | spawn => exact h
  | clearRunning => exact h
  | signal => exact h
  | join => exact h
  | run => exact (run_within s).mono (fun t ht => h.within ht) fun _ => id

private theorem new_bounded : new.Bounded := by
  intro b hb
  rw [mem_pointers] at hb
  simp only [new,Option.some.injEq,reduceCtorEq,List.not_mem_nil,or_false] at hb
  rcases hb with rfl | rfl
  · exact Nat.zero_le _
  · exact Nat.zero_le _

/-- Messages that all find room keep every buffer within its array. -/
theorem exec_appends {ops : List LogOp} (ha : (appends.guard Room).Admissible new ops) :
    Meets Bounded (· ≠ .overflow) (appends.exec new ops) := by
  have hrun := (appends.guard Room).exec_invariant step_bounded ops new new_bounded ha
  rwa [Machine.exec_guard] at hrun

instance (s : AsyncLogging) : (op : LogOp) → Decidable (appends.Enabled s op)
  | .append _ _ => inferInstanceAs (Decidable (_ = _))
  | .setRunning => inferInstanceAs (Decidable (s.Enabled .setRunning))
  | .spawn => inferInstanceAs (Decidable (s.Enabled .spawn))
  | .clearRunning => inferInstanceAs (Decidable (s.Enabled .clearRunning))
  | .signal => inferInstanceAs (Decidable (s.Enabled .signal))
  | .join => inferInstanceAs (Decidable (s.Enabled .join))
  | .run => inferInstanceAs (Decidable (s.Enabled .run))

instance (s : AsyncLogging) : (op : LogOp) → Decidable (s.Room op)
  | .append _ _ => inferInstanceAs (Decidable (Common.FixedBuffer.Fits _ _))
  | .setRunning | .spawn | .clearRunning | .signal | .join | .run => inferInstanceAs (Decidable True)

end AsyncLogging

/-- In every run whose calls all find room: the appends of a `FixedBuffer<SIZE>` leave the
first SIZE bytes of their texts, a line of the stream stays within its 4000 bytes, and no
buffer of the asynchronous log is written past its end. -/
theorem buffers_within_capacity (SIZE : Nat) :
    (∀ as, ((Common.FixedBuffer.machine SIZE).guard Common.FixedBuffer.Fits).Admissible .new as →
      ∃ b, (Common.FixedBuffer.machine SIZE).exec .new as = .ok b ∧ b.length ≤ SIZE ∧
        b.written = (as.flatMap Common.Append.text).take SIZE) ∧
    (∀ inss, (LogStream.machine.guard LogStream.Fits).Admissible .new inss →
      ∃ s, LogStream.machine.exec .new inss = .ok s ∧ s.buffer.length ≤ Common.kSmallBuffer) ∧
    ∀ ops, (AsyncLogging.appends.guard AsyncLogging.Room).Admissible .new ops →
      Meets AsyncLogging.Bounded (· ≠ .overflow) (AsyncLogging.appends.exec .new ops) := by
  refine ⟨?_,fun inss ha => LogStream.exec_insertions ha,fun ops ha => AsyncLogging.exec_appends ha⟩
  intro as ha
  obtain ⟨b,hb,hwritten⟩ := Common.FixedBuffer.exec_appends ha
  refine ⟨b,hb,?_,hwritten⟩
  rw [Common.FixedBuffer.length,hwritten]
  exact List.length_take_le SIZE _

private def fourBytes : List Common.Append := [⟨.string,[97,98,99]⟩,⟨.cString,[100]⟩,⟨.bytes,[]⟩]

private def shortLine : List Insertion := [.string [108,111,103],.bool true,.int 42,.char 10]

private def twoMessages : List AsyncLogging.LogOp :=
  [.append [104,105] kLargeBuffer,.setRunning,.spawn,.run,.append [33] kLargeBuffer]

/-- Four bytes in a buffer of four, a short line, and two messages. -/
theorem buffers_within_capacity_four :
    (∃ b, (Common.FixedBuffer.machine 4).exec .new fourBytes = .ok b ∧ b.length ≤ 4 ∧
      b.written = (fourBytes.flatMap Common.Append.text).take 4) ∧
    (∃ s, LogStream.machine.exec .new shortLine = .ok s ∧ s.buffer.length ≤ Common.kSmallBuffer) ∧
    ∃ s, AsyncLogging.appends.exec .new twoMessages = .ok s ∧ s.Bounded := by
  obtain ⟨happends,hinsertions,hmessages⟩ := buffers_within_capacity 4
  exact ⟨happends fourBytes (by decide +kernel),hinsertions shortLine (by decide +kernel),
    (hmessages twoMessages (by decide +kernel)).of_success (by decide +kernel)⟩

private def fiveBytes : List Common.Append := [⟨.string,[97,98,99]⟩,⟨.string,[100,101]⟩]

/-- Each text is shorter than the buffer, and the second one makes `length()` five. -/
theorem second_append_overflows : (Common.FixedBuffer.machine 4).exec .new fiveBytes = .error (.overflow 5) ∧
    ¬ ∃ b, (Common.FixedBuffer.machine 4).exec .new fiveBytes = .ok b ∧ b.length ≤ 4 ∧
      b.written = (fiveBytes.flatMap Common.Append.text).take 4 := by
  have herror : (Common.FixedBuffer.machine 4).exec .new fiveBytes = .error (.overflow 5) := by decide +kernel
  refine ⟨herror,?_⟩
  rintro ⟨b,hb,-⟩
  rw [herror] at hb
  cases hb

end LearningMuduo.Logging
