import LearningMuduo.Logging.AsyncLogging
import Mathlib.Data.List.Nodup

/-! Every message is in one place, in mutex order: written, in the batch of the background
thread, in `buffers_` or in `currentBuffer_`, unless the limit on buffers threw it away. -/
namespace LearningMuduo.Logging
open Library

/-- No buffers hold no messages. -/
@[simp] theorem contents_nil : contents [] = [] := rfl

/-- Buffers hold their messages in order. -/
@[simp] theorem contents_append (as bs : List BufferPtr) : contents (as ++ bs) = contents as ++ contents bs :=
  List.flatMap_append

/-- The messages of the first buffer come first. -/
@[simp] theorem contents_cons (b : FixedBuffer) (bs : List BufferPtr) :
    contents (some b :: bs) = b.entries ++ contents bs := rfl

/-- One buffer. -/
@[simp] theorem contents_singleton (b : FixedBuffer) : contents [some b] = b.entries := List.append_nil _

/-- A new buffer is empty. -/
@[simp] theorem FixedBuffer.entries_new : FixedBuffer.new.entries = [] := rfl

/-- A message that fits is stored whole. -/
theorem FixedBuffer.append_whole {b : FixedBuffer} {e : Entry} (h : b.length+e.bytes.length ≤ kLargeBuffer) :
    b.append e = .ok ⟨b.entries ++ [e]⟩ := by
  have htake : e.bytes.take b.available = e.bytes :=
    List.take_of_length_le (Nat.le_trans (Nat.le_add_left _ _) h)
  rw [FixedBuffer.append,htake,require_pos h,bind_ok]
  rfl

namespace AsyncLogging
variable {s t : AsyncLogging}

/-- The buffers of the batch that the background thread has still to write. -/
def unwritten (s : AsyncLogging) : List BufferPtr :=
  match s.thread with
  | .writing i => s.buffersToWrite.drop i
  | .recycling => []
  | _ => s.buffersToWrite

/-- What the background thread has not taken yet. -/
def backlog (s : AsyncLogging) : List Entry := contents s.buffers ++ contents [s.currentBuffer]

/-- The two parts of a batch under the limit on buffers. -/
def kept (bs : List BufferPtr) : List BufferPtr := if bs.length > 25 then bs.take 2 else bs

def dropped (bs : List BufferPtr) : List BufferPtr := if bs.length > 25 then bs.drop 2 else []

/-- The limit cuts a batch in two parts. -/
theorem kept_append_dropped (bs : List BufferPtr) : kept bs ++ dropped bs = bs := by
  unfold kept dropped
  split
  · exact List.take_append_drop 2 bs
  · exact List.append_nil bs

private theorem kept_ne_nil {bs : List BufferPtr} (h : bs ≠ []) : kept bs ≠ [] := by
  unfold kept
  split
  · simp [h]
  · exact h

private theorem two_le_kept {bs : List BufferPtr} (h : 2 ≤ bs.length) : 2 ≤ (kept bs).length := by
  unfold kept
  split
  · rw [List.length_take]
    omega
  · exact h

/-- The buffers the background thread holds. In a batch its own first slot is empty, and the
second one only if the batch has a second buffer to refill it. -/
def Holds (s : AsyncLogging) : Prop :=
  match s.thread with
  | .absent | .entry | .done => s.buffersToWrite = []
  | .test | .lock | .waiting => s.newBuffer1 = some .new ∧ s.newBuffer2 = some .new ∧ s.buffersToWrite = []
  | .swapped | .writing _ | .recycling => s.newBuffer1 = none ∧ s.buffersToWrite ≠ [] ∧
    (s.newBuffer2 = some .new ∨ s.newBuffer2 = none ∧ 2 ≤ s.buffersToWrite.length)

/-- How far the thread can be for each place of the owner. -/
def Ordered (s : AsyncLogging) : Prop :=
  match s.owner with
  | .created => s.thread = .absent
  | .starting => s.thread = .absent ∧ s.running = true
  | .started => s.thread ≠ .absent ∧ s.thread ≠ .done ∧ s.running = true
  | .stopping | .signalled => s.thread ≠ .absent
  | .stopped => s.thread = .done

/-- The part of the invariant about the buffers alone. -/
structure Circulating (s : AsyncLogging) : Prop where
  order : s.Ordered
  current : ∃ b, s.currentBuffer = some b
  next : s.nextBuffer = some .new ∨ s.nextBuffer = none ∧ s.buffers ≠ []
  whole : ∀ p ∈ s.buffers ++ s.buffersToWrite, ∃ b, p = some b
  holds : s.Holds

structure Sound (s : AsyncLogging) : Prop where
  order : s.Ordered
  current : ∃ b, s.currentBuffer = some b
  next : s.nextBuffer = some .new ∨ s.nextBuffer = none ∧ s.buffers ≠ []
  whole : ∀ p ∈ s.buffers ++ s.buffersToWrite, ∃ b, p = some b
  holds : s.Holds
  tickets : s.appended.map Entry.ticket = List.range s.appended.length
  erased : s.erased ⊆ s.appended
  stream : s.output ++ contents s.unwritten ++ s.backlog = s.appended.filter (· ∉ s.erased)

/-- A sound state has its buffers. -/
theorem Sound.circulating (h : s.Sound) : s.Circulating := ⟨h.order,h.current,h.next,h.whole,h.holds⟩

/-- Before `start()` the log is sound. -/
theorem new_sound : new.Sound where
  order := rfl
  current := ⟨_,rfl⟩
  next := .inl rfl
  whole := by
    intro p hp
    cases hp
  holds := rfl
  tickets := rfl
  erased := List.Subset.refl []
  stream := rfl

private theorem test_eq (h : s.newBuffer1 = some .new ∧ s.newBuffer2 = some .new ∧ s.buffersToWrite = []) :
    s.test = .ok { s with thread := if s.running = true then .lock else .done } := by
  obtain ⟨h1,h2,h3⟩ := h
  have hlen : (some FixedBuffer.new).map FixedBuffer.length = some 0 := rfl
  unfold test
  split
  · rw [h1,h2,h3,require_pos hlen,bind_ok,require_pos hlen,bind_ok,require_pos rfl,bind_ok]
    rfl
  · rfl

private theorem cut_eq (h : s.buffersToWrite ≠ []) :
    s.cut = .ok { s with
      buffersToWrite := kept s.buffersToWrite
      erased := s.erased ++ contents (dropped s.buffersToWrite)
      thread := .writing 0 } := by
  unfold cut kept dropped
  rw [require_pos h,bind_ok]
  dsimp only
  split
  · rfl
  · rw [contents_nil,List.append_nil]
    rfl

/-- The swap, with the slot that refills `nextBuffer_`. -/
theorem swap_eq (s : AsyncLogging) : s.swap = { s with
    currentBuffer := s.newBuffer1
    nextBuffer := if s.nextBuffer.isNone then s.newBuffer2 else s.nextBuffer
    buffers := s.buffersToWrite
    newBuffer1 := none
    newBuffer2 := if s.nextBuffer.isNone then none else s.newBuffer2
    buffersToWrite := s.buffers ++ [s.currentBuffer]
    thread := .swapped } := by
  unfold swap
  dsimp only
  split <;> rfl

private theorem refill_none {bs : List BufferPtr} {b : FixedBuffer} (site : LogAssert) :
    refill none (bs ++ [some b]) site = .ok (some .new,bs) := by
  unfold refill
  rw [List.getLast?_concat,List.dropLast_concat]
  rfl

private theorem exists_concat {bs : List BufferPtr} (h : bs ≠ []) (hw : ∀ p ∈ bs, ∃ b, p = some b) :
    ∃ front b, bs = front ++ [some b] := by
  rcases List.eq_nil_or_concat bs with hnil | ⟨front,p,hp⟩
  · exact (h hnil).elim
  · rw [hp,List.concat_eq_append] at hw
    rw [hp,List.concat_eq_append]
    obtain ⟨b,rfl⟩ := hw p List.mem_concat_self
    exact ⟨front,b,rfl⟩

private theorem recycle_eq (hw : ∀ p ∈ s.buffersToWrite, ∃ b, p = some b)
    (h : s.newBuffer1 = none ∧ s.buffersToWrite ≠ [] ∧
      (s.newBuffer2 = some .new ∨ s.newBuffer2 = none ∧ 2 ≤ s.buffersToWrite.length)) :
    s.recycle = .ok { s with
      newBuffer1 := some .new
      newBuffer2 := some .new
      buffersToWrite := []
      thread := .test } := by
  obtain ⟨h1,hne,h2⟩ := h
  have hlen := List.length_pos_iff.mpr hne
  unfold recycle
  dsimp only
  -- what is left after `resize(2)` has as many buffers as are needed
  generalize htw : (if s.buffersToWrite.length > 2 then s.buffersToWrite.take 2 else s.buffersToWrite) = tw
  have htwne : tw ≠ [] := by
    rw [← List.length_pos_iff,← htw]
    split
    · rw [List.length_take]
      omega
    · exact hlen
  have htwmem : ∀ p ∈ tw, ∃ b, p = some b := by
    intro p hp
    rw [← htw] at hp
    split at hp
    · exact hw p (List.mem_of_mem_take hp)
    · exact hw p hp
  obtain ⟨front,b,rfl⟩ := exists_concat htwne htwmem
  rw [h1,refill_none,bind_ok]
  dsimp only
  rcases h2 with h2 | ⟨h2,htwo⟩
  · rw [h2]
    rfl
  · have hfront : front ≠ [] := by
      rintro rfl
      have hl := congrArg List.length htw
      rw [List.nil_append,List.length_singleton] at hl
      split at hl
      · rw [List.length_take] at hl
        omega
      · omega
    obtain ⟨front',b',rfl⟩ := exists_concat hfront fun p hp => htwmem p (List.mem_append_left _ hp)
    rw [h2,refill_none,bind_ok]
    rfl

/-- An append in the current buffer. -/
theorem append_current {b : FixedBuffer} {msg : List UInt8} {available : Nat} (hb : s.currentBuffer = some b)
    (ha : available > msg.length) (hfit : s.Enabled (.append msg available)) :
    s.append msg available = .ok { s with
      currentBuffer := some ⟨b.entries ++ [⟨s.appended.length,msg⟩]⟩
      appended := s.appended ++ [⟨s.appended.length,msg⟩] } := by
  have hroom : b.length+msg.length ≤ kLargeBuffer := by
    rw [Enabled,target,if_pos ha,hb] at hfit
    exact hfit
  unfold append
  rw [hb]
  dsimp only
  rw [if_pos ha,FixedBuffer.append_whole hroom,bind_ok]
  rfl

/-- An append that moves on to the next buffer. -/
theorem append_next {b : FixedBuffer} {msg : List UInt8} {available : Nat} (hb : s.currentBuffer = some b)
    (hn : s.nextBuffer.getD .new = .new) (ha : ¬ available > msg.length) (hfit : s.Enabled (.append msg available)) :
    s.append msg available = .ok { s with
      currentBuffer := some ⟨[⟨s.appended.length,msg⟩]⟩
      nextBuffer := none
      buffers := s.buffers ++ [some b]
      appended := s.appended ++ [⟨s.appended.length,msg⟩] } := by
  have hroom : FixedBuffer.new.length+msg.length ≤ kLargeBuffer := by
    rw [Enabled,target,if_neg ha,hn] at hfit
    exact hfit
  unfold append
  rw [hb]
  dsimp only
  rw [if_neg ha,hn,FixedBuffer.append_whole hroom,bind_ok]
  rfl

/-- Everything a step can do in a sound state. -/
inductive Moves (s : AsyncLogging) : AsyncLogging → Prop where
  | appendCurrent (b : FixedBuffer) (msg : List UInt8) (hb : s.currentBuffer = some b) : Moves s { s with
      currentBuffer := some ⟨b.entries ++ [⟨s.appended.length,msg⟩]⟩
      appended := s.appended ++ [⟨s.appended.length,msg⟩] }
  | appendNext (b : FixedBuffer) (msg : List UInt8) (hb : s.currentBuffer = some b) : Moves s { s with
      currentBuffer := some ⟨[⟨s.appended.length,msg⟩]⟩
      nextBuffer := none
      buffers := s.buffers ++ [some b]
      appended := s.appended ++ [⟨s.appended.length,msg⟩] }
  | setRunning (ho : s.owner = .created) : Moves s { s with owner := .starting, running := true }
  | spawn (ho : s.owner = .starting) : Moves s { s with owner := .started, thread := .entry }
  | clearRunning (ho : s.owner = .started) : Moves s { s with owner := .stopping, running := false }
  | signal (ho : s.owner = .stopping) : Moves s { s with owner := .signalled }
  | join (ho : s.owner = .signalled) (hd : s.thread = .done) : Moves s { s with owner := .stopped }
  | enter (ht : s.thread = .entry) : Moves s s.enter
  | test (ht : s.thread = .test) : Moves s { s with thread := if s.running = true then .lock else .done }
  | wait (ht : s.thread = .lock) : Moves s { s with thread := .waiting }
  | swap (ht : s.thread = .lock ∨ s.thread = .waiting) : Moves s s.swap
  | cut (ht : s.thread = .swapped) : Moves s { s with
      buffersToWrite := kept s.buffersToWrite
      erased := s.erased ++ contents (dropped s.buffersToWrite)
      thread := .writing 0 }
  | write (i : Nat) (b : FixedBuffer) (ht : s.thread = .writing i) (hb : s.buffersToWrite[i]? = some (some b)) :
      Moves s { s with output := s.output ++ b.entries, thread := .writing (i+1) }
  | written (i : Nat) (ht : s.thread = .writing i) (hb : s.buffersToWrite[i]? = none) :
      Moves s { s with thread := .recycling }
  | recycle (ht : s.thread = .recycling) : Moves s { s with
      newBuffer1 := some .new
      newBuffer2 := some .new
      buffersToWrite := []
      thread := .test }

/-- The messages in mutex order, numbered. -/
def record (es : List Entry) : LogOp → List Entry
  | .append msg _ => es ++ [⟨es.length,msg⟩]
  | _ => es

def entriesOf (ops : List LogOp) : List Entry := ops.foldl record []

private theorem swap_appended (s : AsyncLogging) : s.swap.appended = s.appended := by
  rw [swap_eq]

/-- The thread has no failing step where the buffers circulate. -/
theorem Circulating.run (h : s.Circulating) (he : s.thread ≠ .absent ∧ s.thread ≠ .done) :
    ∃ t, s.run = .ok t ∧ s.Moves t ∧ t.appended = s.appended := by
  have hh := h.holds
  unfold AsyncLogging.run
  cases ht : s.thread with
  | absent => exact (he.1 ht).elim
  | done => exact (he.2 ht).elim
  | entry => exact ⟨_,rfl,.enter ht,rfl⟩
  | test =>
    rw [Holds,ht] at hh
    exact ⟨_,test_eq hh,.test ht,rfl⟩
  | lock =>
    dsimp only
    unfold lock
    split
    · exact ⟨_,rfl,.wait ht,rfl⟩
    · exact ⟨_,rfl,.swap (.inl ht),swap_appended s⟩
  | waiting => exact ⟨_,rfl,.swap (.inr ht),swap_appended s⟩
  | swapped =>
    rw [Holds,ht] at hh
    exact ⟨_,cut_eq hh.2.1,.cut ht,rfl⟩
  | writing i =>
    dsimp only
    unfold write
    cases hp : s.buffersToWrite[i]? with
    | none => exact ⟨_,rfl,.written i ht hp,rfl⟩
    | some p =>
      obtain ⟨b,rfl⟩ := h.whole p (List.mem_append_right _ (List.mem_of_getElem? hp))
      exact ⟨_,rfl,.write i b ht hp,rfl⟩
  | recycling =>
    rw [Holds,ht] at hh
    exact ⟨_,recycle_eq (fun p hp => h.whole p (List.mem_append_right _ hp)) hh,.recycle ht,rfl⟩

private theorem Sound.getD_next (h : s.Sound) : s.nextBuffer.getD .new = .new := by
  rcases h.next with hn | ⟨hn,-⟩
  · rw [hn]
    rfl
  · rw [hn]
    rfl

/-- A sound state has no failing step. -/
theorem Sound.step (h : s.Sound) {op : LogOp} (he : machine.Enabled s op) :
    ∃ t, machine.step s op = .ok t ∧ s.Moves t ∧ t.appended = record s.appended op := by
  cases op with
  | append msg available =>
    obtain ⟨b,hb⟩ := h.current
    by_cases ha : available > msg.length
    · exact ⟨_,append_current hb ha he,.appendCurrent b msg hb,rfl⟩
    · exact ⟨_,append_next hb h.getD_next ha he,.appendNext b msg hb,rfl⟩
  | setRunning => exact ⟨_,rfl,.setRunning he,rfl⟩
  | spawn => exact ⟨_,rfl,.spawn he,rfl⟩
  | clearRunning => exact ⟨_,rfl,.clearRunning he,rfl⟩
  | signal => exact ⟨_,rfl,.signal he,rfl⟩
  | join => exact ⟨_,rfl,.join he.1 he.2,rfl⟩
  | run => exact h.circulating.run he

private theorem Ordered.of_run (h : s.Ordered) {x y : ThreadPoint} (hs : s.thread = x) (hx : x ≠ .absent ∧ x ≠ .done)
    (ho : t.owner = s.owner) (ht : t.thread = y) (hy : y ≠ .absent)
    (hr : s.running = true → y ≠ .done ∧ t.running = true) : t.Ordered := by
  rw [← hs] at hx
  unfold Ordered at h ⊢
  rw [ho,ht]
  cases hso : s.owner with
  | created =>
    rw [hso] at h
    exact (hx.1 h).elim
  | starting =>
    rw [hso] at h
    exact (hx.1 h.1).elim
  | started =>
    rw [hso] at h
    exact ⟨hy,hr h.2.2⟩
  | stopping => exact hy
  | signalled => exact hy
  | stopped =>
    rw [hso] at h
    exact (hx.2 h).elim

private theorem Moves.ordered (h : s.Circulating) (hm : s.Moves t) : t.Ordered := by
  have ho := h.order
  cases hm with
  | appendCurrent b msg hb => exact ho
  | appendNext b msg hb => exact ho
  | setRunning hc =>
    rw [Ordered,hc] at ho
    exact ⟨ho,rfl⟩
  | spawn hc =>
    rw [Ordered,hc] at ho
    exact ⟨nofun,nofun,ho.2⟩
  | clearRunning hc =>
    rw [Ordered,hc] at ho
    exact ho.1
  | signal hc =>
    rw [Ordered,hc] at ho
    exact ho
  | join hc hd => exact hd
  | enter ht => exact ho.of_run ht ⟨nofun,nofun⟩ rfl rfl nofun fun _ => ⟨nofun,rfl⟩
  | test ht =>
    refine ho.of_run ht ⟨nofun,nofun⟩ rfl rfl ?_ ?_
    · split <;> nofun
    · intro hr
      rw [if_pos hr]
      exact ⟨nofun,hr⟩
  | wait ht => exact ho.of_run ht ⟨nofun,nofun⟩ rfl rfl nofun fun hr => ⟨nofun,hr⟩
  | swap ht =>
    rw [swap_eq]
    rcases ht with ht | ht
    · exact ho.of_run ht ⟨nofun,nofun⟩ rfl rfl nofun fun hr => ⟨nofun,hr⟩
    · exact ho.of_run ht ⟨nofun,nofun⟩ rfl rfl nofun fun hr => ⟨nofun,hr⟩
  | cut ht => exact ho.of_run ht ⟨nofun,nofun⟩ rfl rfl nofun fun hr => ⟨nofun,hr⟩
  | write i b ht hb => exact ho.of_run ht ⟨nofun,nofun⟩ rfl rfl nofun fun hr => ⟨nofun,hr⟩
  | written i ht hb => exact ho.of_run ht ⟨nofun,nofun⟩ rfl rfl nofun fun hr => ⟨nofun,hr⟩
  | recycle ht => exact ho.of_run ht ⟨nofun,nofun⟩ rfl rfl nofun fun hr => ⟨nofun,hr⟩

/-- Between two batches the thread has both its spare buffers and nothing to write. -/
theorem Circulating.held (h : s.Circulating) (ht : s.thread = .lock ∨ s.thread = .waiting) :
    s.newBuffer1 = some .new ∧ s.newBuffer2 = some .new ∧ s.buffersToWrite = [] := by
  have hh := h.holds
  rcases ht with ht | ht
  · rwa [Holds,ht] at hh
  · rwa [Holds,ht] at hh

/-- A buffer moves from `currentBuffer_` to `buffers_`. -/
theorem Circulating.whole_concat (h : s.Circulating) (b : FixedBuffer) :
    ∀ p ∈ s.buffers ++ [some b] ++ s.buffersToWrite, ∃ b, p = some b := by
  intro p hp
  simp only [List.append_assoc,List.mem_append,List.mem_singleton] at hp
  rcases hp with hp | rfl | hp
  · exact h.whole p (List.mem_append_left _ hp)
  · exact ⟨b,rfl⟩
  · exact h.whole p (List.mem_append_right _ hp)

private theorem Moves.pointers (h : s.Circulating) (hm : s.Moves t) : (∃ b, t.currentBuffer = some b) ∧
    (t.nextBuffer = some .new ∨ t.nextBuffer = none ∧ t.buffers ≠ []) ∧
    (∀ p ∈ t.buffers ++ t.buffersToWrite, ∃ b, p = some b) := by
  have hp := And.intro h.current (And.intro h.next h.whole)
  cases hm with
  | appendCurrent b msg hb => exact ⟨⟨_,rfl⟩,h.next,h.whole⟩
  | appendNext b msg hb => exact ⟨⟨_,rfl⟩,.inr ⟨rfl,List.append_ne_nil_of_right_ne_nil _ (List.cons_ne_nil _ _)⟩,h.whole_concat b⟩
  | setRunning _ => exact hp
  | spawn _ => exact hp
  | clearRunning _ => exact hp
  | signal _ => exact hp
  | join _ _ => exact hp
  | enter ht =>
    refine ⟨h.current,h.next,fun p hp => h.whole p ?_⟩
    rw [show s.enter.buffersToWrite = [] from rfl,List.append_nil] at hp
    exact List.mem_append_left _ hp
  | test _ => exact hp
  | wait _ => exact hp
  | swap ht =>
    have hheld := h.held ht
    rw [swap_eq]
    refine ⟨⟨_,hheld.1⟩,.inl ?_,?_⟩
    · rcases h.next with hn | ⟨hn,-⟩
      · dsimp only
        rw [hn]
        rfl
      · dsimp only
        rw [hn]
        exact hheld.2.1
    · intro p hp
      dsimp only at hp
      rw [hheld.2.2,List.nil_append] at hp
      rcases List.mem_append.mp hp with hp | hp
      · exact h.whole p (List.mem_append_left _ hp)
      · rw [List.mem_singleton.mp hp]
        exact h.current
  | cut _ =>
    refine ⟨h.current,h.next,fun p hp => h.whole p ?_⟩
    rcases List.mem_append.mp hp with hp | hp
    · exact List.mem_append_left _ hp
    · refine List.mem_append_right _ ?_
      rw [← kept_append_dropped s.buffersToWrite]
      exact List.mem_append_left _ hp
  | write _ _ _ _ => exact hp
  | written _ _ _ => exact hp
  | recycle _ =>
    refine ⟨h.current,h.next,fun p hp => h.whole p ?_⟩
    dsimp only at hp
    rw [List.append_nil] at hp
    exact List.mem_append_left _ hp

private theorem Moves.holds (h : s.Circulating) (hm : s.Moves t) : t.Holds := by
  have hh := h.holds
  cases hm with
  | appendCurrent _ _ _ => exact hh
  | appendNext _ _ _ => exact hh
  | setRunning _ => exact hh
  | spawn hc =>
    have ho := h.order
    rw [Ordered,hc] at ho
    rw [Holds,ho.1] at hh
    exact hh
  | clearRunning _ => exact hh
  | signal _ => exact hh
  | join _ _ => exact hh
  | enter _ => exact ⟨rfl,rfl,rfl⟩
  | test ht =>
    rw [Holds,ht] at hh
    cases hr : s.running with
    | true => exact hh
    | false => exact hh.2.2
  | wait ht =>
    rw [Holds,ht] at hh
    exact hh
  | swap ht =>
    obtain ⟨-,h2,-⟩ := h.held ht
    rw [swap_eq]
    refine ⟨rfl,by simp,?_⟩
    rcases h.next with hn | ⟨hn,hne⟩
    · refine .inl ?_
      dsimp only
      rw [hn]
      exact h2
    · refine .inr ⟨?_,?_⟩
      · dsimp only
        rw [hn]
        rfl
      · have hlen := List.length_pos_iff.mpr hne
        dsimp only
        rw [List.length_append,List.length_singleton]
        omega
  | cut ht =>
    rw [Holds,ht] at hh
    exact ⟨hh.1,kept_ne_nil hh.2.1,hh.2.2.imp id fun h2 => ⟨h2.1,two_le_kept h2.2⟩⟩
  | write i b ht _ =>
    rw [Holds,ht] at hh
    exact hh
  | written i ht _ =>
    rw [Holds,ht] at hh
    exact hh
  | recycle _ => exact ⟨rfl,rfl,rfl⟩

/-- Every move keeps the buffers going round. -/
theorem Moves.circulating (h : s.Circulating) (hm : s.Moves t) : t.Circulating := by
  obtain ⟨hcurrent,hnext,hwhole⟩ := hm.pointers h
  exact ⟨hm.ordered h,hcurrent,hnext,hwhole,hm.holds h⟩

private theorem tickets_concat {es : List Entry} (h : es.map Entry.ticket = List.range es.length) (msg : List UInt8) :
    (es ++ [(⟨es.length,msg⟩ : Entry)]).map Entry.ticket = List.range (es ++ [(⟨es.length,msg⟩ : Entry)]).length := by
  rw [List.map_append,h,List.length_append,List.length_singleton,List.range_succ]
  rfl

private theorem Sound.fresh (h : s.Sound) (msg : List UInt8) : (⟨s.appended.length,msg⟩ : Entry) ∉ s.erased := by
  intro hm
  have hticket : s.appended.length ∈ s.appended.map Entry.ticket := List.mem_map_of_mem (h.erased hm)
  rw [h.tickets,List.mem_range] at hticket
  exact Nat.lt_irrefl _ hticket

/-- No two messages have one place in mutex order. -/
theorem Sound.nodup (h : s.Sound) : s.appended.Nodup := by
  refine List.Nodup.of_map Entry.ticket ?_
  rw [h.tickets]
  exact List.nodup_range

private theorem Sound.stream_concat (h : s.Sound) (msg : List UInt8) {es : List Entry}
    (hes : es = s.appended.filter (· ∉ s.erased)) : es ++ [⟨s.appended.length,msg⟩] =
      (s.appended ++ [(⟨s.appended.length,msg⟩ : Entry)]).filter (· ∉ s.erased) := by
  rw [List.filter_append,← hes,List.filter_cons_of_pos (by simpa using h.fresh msg),List.filter_nil]

private theorem filter_erased {as ks ds bs es gone : List Entry} (hnodup : es.Nodup)
    (h : as ++ (ks ++ ds) ++ bs = es.filter (· ∉ gone)) :
    as ++ ks ++ bs = es.filter (· ∉ gone ++ ds) := by
  have hsplit : es.filter (· ∉ gone ++ ds) = (es.filter (· ∉ gone)).filter (· ∉ ds) := by
    rw [List.filter_filter]
    refine List.filter_congr fun e _ => ?_
    simp [List.mem_append,and_comm]
  have hnd : (as ++ (ks ++ ds) ++ bs).Nodup := by
    rw [h]
    exact hnodup.filter _
  have hself : ds.filter (· ∉ ds) = [] := List.filter_eq_nil_iff.mpr (by simp)
  have hall {xs : List Entry} (hx : ∀ e ∈ xs, e ∉ ds) : xs.filter (· ∉ ds) = xs :=
    List.filter_eq_self.mpr fun e he => by simpa using hx e he
  simp only [List.nodup_append,List.mem_append] at hnd
  rw [hsplit,← h]
  simp only [List.filter_append]
  rw [hself,List.append_nil,hall,hall,hall]
  · intro e he hd
    exact hnd.2.2 e (.inr (.inr hd)) e he rfl
  · intro e he hd
    exact hnd.1.2.1.2.2 e he e hd rfl
  · intro e he hd
    exact hnd.1.2.2 e he e (.inr hd) rfl

private theorem Moves.history (h : s.Sound) (hm : s.Moves t) :
    t.appended.map Entry.ticket = List.range t.appended.length ∧ t.erased ⊆ t.appended := by
  have hsame := And.intro h.tickets h.erased
  cases hm with
  | appendCurrent b msg _ => exact ⟨tickets_concat h.tickets msg,fun e he => List.mem_append_left _ (h.erased he)⟩
  | appendNext b msg _ => exact ⟨tickets_concat h.tickets msg,fun e he => List.mem_append_left _ (h.erased he)⟩
  | setRunning _ => exact hsame
  | spawn _ => exact hsame
  | clearRunning _ => exact hsame
  | signal _ => exact hsame
  | join _ _ => exact hsame
  | enter _ => exact hsame
  | test _ => exact hsame
  | wait _ => exact hsame
  | swap _ =>
    rw [swap_eq]
    exact hsame
  | cut ht =>
    refine ⟨h.tickets,?_⟩
    intro e he
    rcases List.mem_append.mp he with he | he
    · exact h.erased he
    · -- an erased buffer was part of the stream
      have hin : e ∈ s.output ++ contents s.unwritten ++ s.backlog := by
        rw [unwritten,ht]
        dsimp only
        rw [← kept_append_dropped s.buffersToWrite,contents_append]
        simp [he]
      rw [h.stream] at hin
      exact List.mem_of_mem_filter hin
  | write _ _ _ _ => exact hsame
  | written _ _ _ => exact hsame
  | recycle _ => exact hsame

private theorem Moves.stream (h : s.Sound) (hm : s.Moves t) :
    t.output ++ contents t.unwritten ++ t.backlog = t.appended.filter (· ∉ t.erased) := by
  have hs := h.stream
  cases hm with
  | appendCurrent b msg hb =>
    refine Eq.trans ?_ (h.stream_concat msg hs)
    change s.output ++ contents s.unwritten ++ (contents s.buffers ++ contents [some _]) = _
    rw [backlog,hb,contents_singleton,contents_singleton]
    simp only [List.append_assoc]
  | appendNext b msg hb =>
    refine Eq.trans ?_ (h.stream_concat msg hs)
    change s.output ++ contents s.unwritten ++ (contents (s.buffers ++ [some b]) ++ contents [some _]) = _
    rw [backlog,hb,contents_append,contents_singleton,contents_singleton]
    simp only [List.append_assoc]
  | setRunning _ => exact hs
  | spawn hc =>
    have ho := h.order
    rw [Ordered,hc] at ho
    rw [unwritten,ho.1] at hs
    exact hs
  | clearRunning _ => exact hs
  | signal _ => exact hs
  | join _ _ => exact hs
  | enter ht =>
    have hh := h.holds
    rw [Holds,ht] at hh
    rw [unwritten,ht] at hs
    dsimp only at hs
    rw [hh] at hs
    exact hs
  | test ht =>
    rw [unwritten,ht] at hs
    cases hr : s.running with
    | true => exact hs
    | false => exact hs
  | wait ht =>
    rw [unwritten,ht] at hs
    exact hs
  | swap ht =>
    obtain ⟨h1,-,h3⟩ := h.circulating.held ht
    have hun : s.unwritten = [] := by
      rcases ht with ht | ht
      · rw [unwritten,ht]
        exact h3
      · rw [unwritten,ht]
        exact h3
    rw [swap_eq]
    change s.output ++ contents (s.buffers ++ [s.currentBuffer]) ++
      (contents s.buffersToWrite ++ contents [s.newBuffer1]) = _
    rw [h1,h3,contents_append,contents_nil,contents_singleton,← hs,hun]
    simp [backlog]
  | cut ht =>
    rw [unwritten,ht] at hs
    dsimp only at hs
    rw [← kept_append_dropped s.buffersToWrite,contents_append] at hs
    exact filter_erased h.nodup hs
  | write i b ht hb =>
    rw [unwritten,ht] at hs
    dsimp only at hs
    have hdrop : s.buffersToWrite.drop i = some b :: s.buffersToWrite.drop (i+1) := by
      obtain ⟨hi,hb⟩ := List.getElem?_eq_some_iff.mp hb
      rw [List.drop_eq_getElem_cons hi,hb]
    rw [hdrop,contents_cons] at hs
    refine Eq.trans ?_ hs
    change s.output ++ b.entries ++ contents (s.buffersToWrite.drop (i+1)) ++ s.backlog = _
    simp only [List.append_assoc]
  | written i ht hb =>
    rw [unwritten,ht] at hs
    dsimp only at hs
    rw [List.drop_eq_nil_of_le (List.getElem?_eq_none_iff.mp hb)] at hs
    exact hs
  | recycle ht =>
    rw [unwritten,ht] at hs
    exact hs

/-- Every move keeps the state sound. -/
theorem Moves.sound (h : s.Sound) (hm : s.Moves t) : t.Sound := by
  have hc := hm.circulating h.circulating
  obtain ⟨htickets,herased⟩ := hm.history h
  exact ⟨hc.order,hc.current,hc.next,hc.whole,hc.holds,htickets,herased,hm.stream h⟩

private theorem step_sound (s : AsyncLogging) (es : List Entry) (op : LogOp) (h : s.Sound ∧ s.appended = es)
    (he : machine.Enabled s op) :
    Meets (fun t => t.Sound ∧ t.appended = record es op) (fun _ => False) (machine.step s op) := by
  obtain ⟨hs,rfl⟩ := h
  obtain ⟨t,ht,hm,happ⟩ := hs.step he
  rw [ht]
  exact ⟨hm.sound hs,happ⟩

/-- Every run returns, in a sound state. -/
theorem exec_sound {ops : List LogOp} (ha : machine.Admissible new ops) :
    ∃ s, machine.exec new ops = .ok s ∧ s.Sound ∧ s.appended = entriesOf ops :=
  (machine.exec_simulates record step_sound ops new [] ⟨new_sound,rfl⟩ ha).ok_of_no_error fun _ => id

/-- What a step throws away: the messages behind the second buffer of a batch of more than 25. -/
def overLimit (s : AsyncLogging) : LogOp → List Entry
  | .run => if s.thread = .swapped ∧ s.buffersToWrite.length > 25 then contents (s.buffersToWrite.drop 2) else []
  | _ => []

private theorem Moves.erased (hm : s.Moves t) : t.erased = s.erased ∨ s.thread = .swapped ∧
    t.erased = s.erased ++ contents (dropped s.buffersToWrite) := by
  cases hm with
  | cut ht => exact .inr ⟨ht,rfl⟩
  | swap _ => exact .inl (by rw [swap_eq])
  | _ => exact .inl rfl

private theorem step_erased (h : s.Sound) {op : LogOp} (he : machine.Enabled s op) (ht : machine.step s op = .ok t) :
    t.erased = s.erased ++ s.overLimit op := by
  have hquiet (hsame : t.erased = s.erased) : t.erased = s.erased ++ [] := hsame.trans (List.append_nil _).symm
  cases op with
  | append msg available =>
    obtain ⟨b,hb⟩ := h.current
    by_cases hroom : available > msg.length
    · cases ht.symm.trans (append_current hb hroom he)
      exact hquiet rfl
    · cases ht.symm.trans (append_next hb h.getD_next hroom he)
      exact hquiet rfl
  | setRunning | spawn | clearRunning | signal | join =>
    cases ht
    exact hquiet rfl
  | run =>
    rw [overLimit]
    by_cases hswapped : s.thread = .swapped
    · have hne : s.buffersToWrite ≠ [] := by
        have hh := h.holds
        rw [Holds,hswapped] at hh
        exact hh.2.1
      have hcut : s.run = s.cut := by rw [AsyncLogging.run,hswapped]
      cases ht.symm.trans (hcut.trans (cut_eq hne))
      by_cases hlen : s.buffersToWrite.length > 25
      · rw [if_pos ⟨hswapped,hlen⟩,dropped,if_pos hlen]
      · rw [if_neg fun hh => hlen hh.2,dropped,if_neg hlen]
        rfl
    · obtain ⟨u,hu,hm,-⟩ := h.circulating.run he
      cases ht.symm.trans hu
      rw [if_neg fun hh => hswapped hh.1]
      exact hquiet (hm.erased.resolve_right fun hh => hswapped hh.1)

/-- The messages that are erased in a run are those that the rule of the 25 buffers threw away in its steps, and no
others. -/
theorem erased_by_limit {ops : List LogOp} (ha : machine.Admissible new ops) (hs : machine.exec new ops = .ok s) :
    s.erased = machine.observe overLimit new ops := by
  refine (machine.exec_ok_history (I := fun before s =>
    machine.exec new before = .ok s ∧ s.Sound ∧ s.erased = machine.observe overLimit new before)
    ⟨rfl,new_sound,rfl⟩ ?_ ha hs).2.2
  intro before s t op ⟨hreached,h,herased⟩ he ht
  obtain ⟨u,hu,hm,-⟩ := h.step he
  cases ht.symm.trans hu
  refine ⟨machine.exec_concat hreached ht,hm.sound h,?_⟩
  rw [machine.observe_concat overLimit hreached,← herased]
  exact step_erased h he ht

/-- The bytes in a list of buffers. -/
def bytesIn (bs : List BufferPtr) : List UInt8 := bs.flatMap fun b => (b.map FixedBuffer.data).getD []

private theorem flatMap_contents (bs : List BufferPtr) : (contents bs).flatMap Entry.bytes = bytesIn bs := by
  induction bs with
  | nil => rfl
  | cons b bs ih =>
    cases b with
    | none => exact ih
    | some b =>
      rw [contents_cons,List.flatMap_append,ih]
      rfl

/-- In every run no assertion fails, and at its end the bytes written, then those of the rest
of the batch, of `buffers_` and of `currentBuffer_` are the messages in mutex order, without
the ones that the limit erased: those behind the second buffer of a batch of more than 25. -/
theorem log_stream_exact (ops : List LogOp) (ha : machine.Admissible new ops) :
    ∃ s, machine.exec new ops = .ok s ∧
      s.output ++ contents s.unwritten ++ contents s.buffers ++ contents [s.currentBuffer] =
        (entriesOf ops).filter (· ∉ s.erased) ∧
      s.output.flatMap Entry.bytes ++ bytesIn s.unwritten ++ bytesIn s.buffers ++ bytesIn [s.currentBuffer] =
        ((entriesOf ops).filter (· ∉ s.erased)).flatMap Entry.bytes ∧
      s.erased = machine.observe overLimit new ops := by
  obtain ⟨s,hs,hsound,happ⟩ := exec_sound ha
  have hstream : s.output ++ contents s.unwritten ++ contents s.buffers ++ contents [s.currentBuffer] =
      (entriesOf ops).filter (· ∉ s.erased) := by
    rw [← happ,← hsound.stream,backlog,List.append_assoc _ (contents s.buffers)]
  refine ⟨s,hs,hstream,?_,erased_by_limit ha hs⟩
  rw [← hstream]
  simp only [List.flatMap_append,flatMap_contents]

private def oneBatch : List LogOp :=
  [.append [104,105] 9,.setRunning,.spawn,.run,.run,.append [33] 0,.run,.append [10] 9,.run,.run]

/-- A message is written while another one waits in the batch and a third one is appended. -/
theorem log_stream_one_batch : machine.Admissible new oneBatch ∧
    ∃ s, machine.exec new oneBatch = .ok s ∧
      s.output ++ contents s.unwritten ++ contents s.buffers ++ contents [s.currentBuffer] =
        (entriesOf oneBatch).filter (· ∉ s.erased) ∧
      s.output.flatMap Entry.bytes ++ bytesIn s.unwritten ++ bytesIn s.buffers ++ bytesIn [s.currentBuffer] =
        ((entriesOf oneBatch).filter (· ∉ s.erased)).flatMap Entry.bytes ∧
      s.erased = machine.observe overLimit new oneBatch := by
  have ha : machine.Admissible new oneBatch := by decide +kernel
  exact ⟨ha,log_stream_exact oneBatch ha⟩

end AsyncLogging
end LearningMuduo.Logging
