import LearningMuduo.Library.Machine
import LearningMuduo.Tcp.Buffer

/-! Buffers refine plain byte queues along every run of their operations. -/
namespace LearningMuduo.Tcp
open Library

/-- One call on one buffer. `retrieveUntil k` receives the pointer `peek()+k`;
`write data` stores at `beginWrite()` and then calls `hasWritten`. -/
inductive BufferOp where
  | append (data : List UInt8)
  | retrieve (len : Nat)
  | retrieveUntil (k : Nat)
  | retrieveAll
  | retrieveAsString (len : Nat)
  | retrieveAllAsString
  | ensureWritableBytes (len : Nat)
  | write (data : List UInt8)
  | unwrite (len : Nat)
  | prepend (data : List UInt8)
  | readFd (r : ReadvResult)
  deriving DecidableEq, Repr

namespace BufferOp

/-- The call, with the strings it returns. -/
def run (b : Buffer) : BufferOp → Except BufferFault (Buffer × List (List UInt8))
  | .append data => (·,[]) <$> b.append data
  | .retrieve len => (·,[]) <$> b.retrieve len
  | .retrieveUntil k => (·,[]) <$> b.retrieveUntil (wordAdd b.readerIndex k)
  | .retrieveAll => pure (b.retrieveAll,[])
  | .retrieveAsString len => (fun out => (out.1,[out.2])) <$> b.retrieveAsString len
  | .retrieveAllAsString => (fun out => (out.1,[out.2])) <$> b.retrieveAllAsString
  | .ensureWritableBytes len => (·,[]) <$> b.ensureWritableBytes len
  | .write data => (·,[]) <$> (b.copyToWrite data).hasWritten data.length
  | .unwrite len => (·,[]) <$> b.unwrite len
  | .prepend data => (·,[]) <$> b.prepend data
  | .readFd r => (fun out => (out.1,[])) <$> b.readFd r

/-- The entry assertions of the call; sizes of requested or given data do not
exceed `max_size`, and `readv` receives no more than the iovecs offer. -/
def Enabled (b : Buffer) : BufferOp → Prop
  | .append data => data.length ≤ maxSize
  | .retrieve len => len ≤ b.readableBytes
  | .retrieveUntil k => b.readerIndex+k ≤ b.writerIndex
  | .retrieveAll => True
  | .retrieveAsString len => len ≤ b.readableBytes
  | .retrieveAllAsString => True
  | .ensureWritableBytes len => len ≤ maxSize
  | .write data => data.length ≤ b.writableBytes
  | .unwrite len => len ≤ b.readableBytes
  | .prepend data => data.length ≤ b.prependableBytes
  | .readFd r => r.count ≤ b.iovecBytes

instance (b : Buffer) : (op : BufferOp) → Decidable (op.Enabled b)
  | .append _ | .retrieve _ | .retrieveUntil _ | .retrieveAsString _ | .ensureWritableBytes _
  | .write _ | .unwrite _ | .prepend _ => inferInstanceAs (Decidable (_ ≤ _))
  | .retrieveAll | .retrieveAllAsString => inferInstanceAs (Decidable True)
  | .readFd _ => inferInstanceAs (Decidable (_ ≤ _))

/-- The size of the vector after the call. -/
def vectorSize (b : Buffer) : BufferOp → Nat
  | .append data => b.sizeFor data.length
  | .ensureWritableBytes len => b.sizeFor len
  | .readFd r => b.sizeAfterRead r
  | .retrieve _ | .retrieveUntil _ | .retrieveAll | .retrieveAsString _ | .retrieveAllAsString
  | .write _ | .unwrite _ | .prepend _ => b.buffer.length

/-- The same call on an abstract byte queue. -/
def queue (q : List UInt8) : BufferOp → List UInt8 × List (List UInt8)
  | .append data => (q ++ data,[])
  | .retrieve len => (q.drop len,[])
  | .retrieveUntil k => (q.drop k,[])
  | .retrieveAll => ([],[])
  | .retrieveAsString len => (q.drop len,[q.take len])
  | .retrieveAllAsString => ([],[q])
  | .ensureWritableBytes _ => (q,[])
  | .write data => (q ++ data,[])
  | .unwrite len => (q.take (q.length-len),[])
  | .prepend data => (data ++ q,[])
  | .readFd (.failed _) => (q,[])
  | .readFd (.received bytes) => (q ++ bytes,[])

def isPrepend : BufferOp → Bool
  | .prepend _ => true
  | _ => false

private theorem retrieveAsString_spec {b : Buffer} (h : b.WF) {len : Nat}
    (hl : len ≤ b.readableBytes) : ∃ c, b.retrieveAsString len = .ok (c,b.readable.take len) ∧
      b.Keeps c ∧ c.readable = b.readable.drop len := by
  obtain ⟨c,hc,hk,hr⟩ := b.retrieve_spec h hl
  have htake : slice b.buffer b.readerIndex (b.readerIndex+len) = b.readable.take len := by
    have hw := h.readableBytes_eq
    have h1 := h.reader_le
    exact (take_slice b.buffer (by omega)).symm
  refine ⟨c,?_,hk,hr⟩
  rw [Buffer.retrieveAsString,require_pos hl,bind_ok,htake,hc]
  rfl

private theorem run_retrieveUntil {b : Buffer} (h : b.WF) {k : Nat} (hk : b.readerIndex+k ≤ b.writerIndex) :
    (BufferOp.retrieveUntil k).run b = (·,[]) <$> b.retrieve k ∧ k ≤ b.readableBytes := by
  have h1 := h.writer_le
  have h2 := h.size_le
  have hm : maxSize < 2^63 := by decide
  have hw := h.readableBytes_eq
  refine ⟨?_,by omega⟩
  rw [run,Buffer.retrieveUntil,wordAdd_eq (by omega),require_pos (Nat.le_add_right _ _),
    require_pos hk,wordSub_eq (Nat.le_add_right _ _) (by omega),Nat.add_sub_cancel_left,bind_ok,bind_ok]

/-- Every call keeps the layout, acts on the readable bytes as on a queue, and
only a prepend takes from the cheap prepend space. -/
theorem run_spec {b : Buffer} (h : b.WF) (op : BufferOp) (he : op.Enabled b) :
    Meets (fun out => out.1.WF ∧ (out.1.readable,out.2) = op.queue b.readable ∧
      (op.isPrepend = false → kCheapPrepend ≤ b.readerIndex → kCheapPrepend ≤ out.1.readerIndex))
      (· = .lengthError) (op.run b) := by
  cases op with
  | append data =>
    apply Meets.map
    apply (Buffer.append_spec h he).mono ?_ (fun _ => id)
    rintro c ⟨hk,hr⟩
    exact ⟨hk.1,by rw [hr]; rfl,fun _ => hk.2⟩
  | retrieve len =>
    obtain ⟨c,hc,hk,hr⟩ := Buffer.retrieve_spec h he
    rw [run,hc]
    exact ⟨hk.1,by rw [hr]; rfl,fun _ => hk.2⟩
  | retrieveUntil k =>
    obtain ⟨hrun,hk⟩ := run_retrieveUntil h he
    obtain ⟨c,hc,hkeep,hr⟩ := Buffer.retrieve_spec h hk
    rw [hrun,hc]
    exact ⟨hkeep.1,by rw [hr]; rfl,fun _ => hkeep.2⟩
  | retrieveAll =>
    have hk := Buffer.retrieveAll_keeps h
    exact ⟨hk.1,by simp [Buffer.retrieveAll,Buffer.readable,queue],fun _ => hk.2⟩
  | retrieveAsString len =>
    obtain ⟨c,hc,hk,hr⟩ := retrieveAsString_spec h he
    rw [run,hc]
    exact ⟨hk.1,by rw [hr]; rfl,fun _ => hk.2⟩
  | retrieveAllAsString =>
    obtain ⟨c,hc,hk,hr⟩ := retrieveAsString_spec h le_rfl
    rw [← h.length_readable,List.drop_length] at hr
    rw [run,Buffer.retrieveAllAsString,hc,← h.length_readable,List.take_length]
    exact ⟨hk.1,by rw [hr]; rfl,fun _ => hk.2⟩
  | ensureWritableBytes len =>
    apply Meets.map
    apply (Buffer.ensureWritableBytes_spec h he).mono ?_ (fun _ => id)
    rintro c ⟨hk,hr,_⟩
    exact ⟨hk.1,by rw [hr]; rfl,fun _ => hk.2⟩
  | write data =>
    obtain ⟨c,hc,hk,hr⟩ := Buffer.write_spec h he
    rw [run,hc]
    exact ⟨hk.1,by rw [hr]; rfl,fun _ => hk.2⟩
  | unwrite len =>
    obtain ⟨c,hc,hk,hr⟩ := Buffer.unwrite_spec h he
    rw [run,hc]
    exact ⟨hk.1,by rw [hr]; rfl,fun _ => hk.2⟩
  | prepend data =>
    obtain ⟨c,hc,hwf,hr⟩ := Buffer.prepend_spec h he
    rw [run,hc]
    exact ⟨hwf,by rw [hr]; rfl,fun hp => by simp [isPrepend] at hp⟩
  | readFd r =>
    apply Meets.map
    apply (Buffer.readFd_spec h he).mono ?_ (fun _ => id)
    rintro ⟨c,n,errno⟩ ⟨hk,_,hr⟩
    refine ⟨hk.1,?_,fun _ => hk.2⟩
    cases r with
    | failed _ => rw [hr]; rfl
    | received _ => rw [hr]; rfl

private theorem retrieve_size {b : Buffer} {len : Nat} (h : len ≤ b.readableBytes) :
    Meets (fun c => c.buffer.length = b.buffer.length) (fun _ => False) (b.retrieve len) := by
  unfold Buffer.retrieve
  rw [require_pos h,bind_ok]
  split
  · rfl
  · rfl

private theorem retrieveAsString_size {b : Buffer} {len : Nat} (h : len ≤ b.readableBytes) :
    Meets (fun out => out.1.buffer.length = b.buffer.length) (fun _ => False) (b.retrieveAsString len) := by
  unfold Buffer.retrieveAsString
  rw [require_pos h,bind_ok]
  exact (retrieve_size h).bind fun c hc => hc

private theorem write_size {b : Buffer} (h : b.WF) {data : List UInt8} (hl : data.length ≤ b.writableBytes) :
    Meets (fun c => c.buffer.length = b.buffer.length) (fun _ => False) ((b.copyToWrite data).hasWritten data.length) := by
  have hw := h.writableBytes_eq
  have h2 := h.writer_le
  rw [Buffer.hasWritten_copyToWrite h hl]
  exact length_store (by omega)

private theorem unwrite_size {b : Buffer} {len : Nat} (h : len ≤ b.readableBytes) :
    Meets (fun c => c.buffer.length = b.buffer.length) (fun _ => False) (b.unwrite len) := by
  unfold Buffer.unwrite
  rw [require_pos h,bind_ok]
  rfl

private theorem prepend_size {b : Buffer} (h : b.WF) {data : List UInt8} (hl : data.length ≤ b.prependableBytes) :
    Meets (fun c => c.buffer.length = b.buffer.length) (fun _ => False) (b.prepend data) := by
  have h1 := h.reader_le
  have h2 := h.writer_le
  have h4 := h.size_le
  have hm : maxSize < 2^63 := by decide
  have hlen : data.length ≤ b.readerIndex := hl
  unfold Buffer.prepend
  rw [require_pos hl,bind_ok,wordSub_eq hlen (by omega)]
  exact length_store (by omega)

/-- The size that a call leaves, and the one at which it throws. -/
private def Sized (b : Buffer) (op : BufferOp) (x : Except BufferFault (Buffer × List (List UInt8))) : Prop :=
  Meets (fun out => out.1.buffer.length = op.vectorSize b) (fun _ => maxSize < op.vectorSize b) x

private theorem Sized.of_eq {b : Buffer} {op : BufferOp} {x : Except BufferFault (Buffer × List (List UInt8))} {n : Nat}
    (hv : op.vectorSize b = n) (hx : Meets (fun out => out.1.buffer.length = n) (fun _ => maxSize < n) x) :
    op.Sized b x := by
  rw [Sized,hv]
  exact hx

private theorem Sized.unchanged {b : Buffer} {op : BufferOp} {x : Except BufferFault (Buffer × List (List UInt8))}
    (hv : op.vectorSize b = b.buffer.length)
    (hx : Meets (fun out => out.1.buffer.length = b.buffer.length) (fun _ => False) x) : op.Sized b x :=
  .of_eq hv (hx.mono (fun _ => id) fun _ => False.elim)

private theorem run_sized {b : Buffer} (h : b.WF) (op : BufferOp) (he : op.Enabled b) : op.Sized b (op.run b) := by
  cases op with
  | append data => exact .of_eq rfl (Buffer.append_size h he).map
  | ensureWritableBytes len => exact .of_eq rfl (Buffer.ensureWritableBytes_size h he).map
  | readFd r => exact .of_eq rfl (Buffer.readFd_size h he).map
  | retrieve len => exact .unchanged rfl (retrieve_size he).map
  | retrieveUntil k =>
    obtain ⟨hrun,hk⟩ := run_retrieveUntil h he
    rw [hrun]
    exact .unchanged rfl (retrieve_size hk).map
  | retrieveAll => exact .unchanged rfl (meets_ok _ _ _ |>.mpr rfl)
  | retrieveAsString len => exact .unchanged rfl (retrieveAsString_size he).map
  | retrieveAllAsString => exact .unchanged rfl (retrieveAsString_size le_rfl).map
  | write data => exact .unchanged rfl (write_size h he).map
  | unwrite len => exact .unchanged rfl (unwrite_size he).map
  | prepend data => exact .unchanged rfl (prepend_size h he).map

/-- Below `max_size` a call returns with a vector of the size it needs, and acts on the readable bytes
as on a queue. -/
theorem run_ok {b : Buffer} (h : b.WF) {op : BufferOp} (he : op.Enabled b) (hsize : op.vectorSize b ≤ maxSize) :
    ∃ out, op.run b = .ok out ∧ out.1.buffer.length = op.vectorSize b ∧ out.1.WF ∧ (out.1.readable,out.2) = op.queue b.readable ∧
      (op.isPrepend = false → kCheapPrepend ≤ b.readerIndex → kCheapPrepend ≤ out.1.readerIndex) := by
  have hrun := (run_spec h op he).and (run_sized h op he)
  obtain ⟨out,hout,hspec,hlen⟩ := hrun.ok_of_no_error fun _ hgt => Nat.not_lt_of_le hsize hgt.2
  exact ⟨out,hout,hlen,hspec⟩

end BufferOp

/-- Any number of buffers, and the strings handed out so far. -/
structure BufferStore where
  buffers : List Buffer
  returned : List (List UInt8)
  deriving DecidableEq, Repr

structure QueueStore where
  queues : List (List UInt8)
  returned : List (List UInt8)
  deriving DecidableEq, Repr

inductive StoreOp where
  | construct (initialSize : Nat)
  | call (i : Nat) (op : BufferOp)
  | swap (i j : Nat)
  deriving DecidableEq, Repr

def StoreOp.isPrepend : StoreOp → Bool
  | .call _ op => op.isPrepend
  | _ => false

def swapAt {α : Type} (xs : List α) (i j : Nat) : List α :=
  match xs[i]?,xs[j]? with
  | some x,some y => (xs.set i y).set j x
  | _,_ => xs

/-- A run of the class: construction, calls on a buffer, and `swap` of two. -/
def bufferMachine : Machine BufferStore StoreOp BufferFault where
  Enabled st
    | .construct initialSize => initialSize ≤ maxSize
    | .call i op => ∃ b ∈ st.buffers[i]?, op.Enabled b
    | .swap i j => i < st.buffers.length ∧ j < st.buffers.length
  step st
    | .construct initialSize => do
      let b ← Buffer.new initialSize
      pure { st with buffers := st.buffers ++ [b] }
    | .call i op => match st.buffers[i]? with
      | none => pure st
      | some b => do
        let (c,out) ← op.run b
        pure ⟨st.buffers.set i c,st.returned ++ out⟩
    | .swap i j => pure { st with buffers := swapAt st.buffers i j }

instance (st : BufferStore) : (op : StoreOp) → Decidable (bufferMachine.Enabled st op)
  | .construct _ => inferInstanceAs (Decidable (_ ≤ _))
  | .call i op => inferInstanceAs (Decidable (∃ b ∈ st.buffers[i]?, op.Enabled b))
  | .swap _ _ => inferInstanceAs (Decidable (_ ∧ _))

/-- The run on abstract queues. -/
def queueStep (qs : QueueStore) : StoreOp → QueueStore
  | .construct _ => { qs with queues := qs.queues ++ [[]] }
  | .call i op => match qs.queues[i]? with
    | none => qs
    | some q => ⟨qs.queues.set i (op.queue q).1,qs.returned ++ (op.queue q).2⟩
  | .swap i j => { qs with queues := swapAt qs.queues i j }

private theorem swapAt_map {α β : Type} (f : α → β) (xs : List α) (i j : Nat) :
    (swapAt xs i j).map f = swapAt (xs.map f) i j := by
  unfold swapAt
  rw [List.getElem?_map,List.getElem?_map]
  cases xs[i]? with
  | none => rfl
  | some x => cases xs[j]? with
    | none => rfl
    | some y => simp [List.map_set]

private theorem mem_swapAt {α : Type} {xs : List α} {i j : Nat} {x : α} (h : x ∈ swapAt xs i j) :
    x ∈ xs := by
  unfold swapAt at h
  split at h
  · rename_i y z hy hz
    rcases List.mem_or_eq_of_mem_set h with h | rfl
    · rcases List.mem_or_eq_of_mem_set h with h | rfl
      · exact h
      · exact List.mem_of_getElem? hz
    · exact List.mem_of_getElem? hy
  · exact h

/-- No vector of the step exceeds `max_size`. -/
def BelowMaxSize (st : BufferStore) : StoreOp → Prop
  | .construct initialSize => kCheapPrepend+initialSize ≤ maxSize
  | .call i op => ∀ b ∈ st.buffers[i]?, op.vectorSize b ≤ maxSize
  | .swap _ _ => True

instance (st : BufferStore) : (op : StoreOp) → Decidable (BelowMaxSize st op)
  | .construct _ => inferInstanceAs (Decidable (_ ≤ _))
  | .call i op => inferInstanceAs (Decidable (∀ b ∈ st.buffers[i]?, op.vectorSize b ≤ maxSize))
  | .swap _ _ => isTrue trivial

/-- The buffers are well formed and hold what the queues hold, and the calls have returned the same. -/
structure Refines (st : BufferStore) (qs : QueueStore) : Prop where
  layout : ∀ b ∈ st.buffers, b.WF
  queues : st.buffers.map Buffer.readable = qs.queues
  returned : st.returned = qs.returned

/-- A step below `max_size` ends, in a store that the queues describe, and only a prepend uses
the prepend space. -/
theorem step_refines {st : BufferStore} {qs : QueueStore} {op : StoreOp} (hr : Refines st qs)
    (he : (bufferMachine.guard BelowMaxSize).Enabled st op) :
    ∃ t, bufferMachine.step st op = .ok t ∧ Refines t (queueStep qs op) ∧
      (op.isPrepend = false → (∀ b ∈ st.buffers, kCheapPrepend ≤ b.prependableBytes) →
        ∀ b ∈ t.buffers, kCheapPrepend ≤ b.prependableBytes) := by
  obtain ⟨hwf,hq,hret⟩ := hr
  obtain ⟨hen,hsize⟩ := he
  cases op with
  | construct n =>
    obtain ⟨b,hb,hwfb,hread,hk⟩ := Buffer.new_ok hsize
    refine ⟨{ st with buffers := st.buffers ++ [b] },by simp only [bufferMachine,hb]; rfl,⟨?_,?_,hret⟩,?_⟩
    · intro c hc
      rcases List.mem_append.mp hc with hc | hc
      · exact hwf c hc
      · rw [List.mem_singleton.mp hc]; exact hwfb
    · simp [queueStep,hq,hread]
    · intro _ hs c hc
      rcases List.mem_append.mp hc with hc | hc
      · exact hs c hc
      · rw [List.mem_singleton.mp hc]; exact hk
  | call i op =>
    obtain ⟨b,hb,hen⟩ := hen
    have hb' : st.buffers[i]? = some b := hb
    have hmem := List.mem_of_getElem? hb'
    have hqi : qs.queues[i]? = some b.readable := by rw [← hq,List.getElem?_map,hb']; rfl
    obtain ⟨⟨c,out⟩,hrun,-,hc,hspec,hkeep⟩ := BufferOp.run_ok (hwf b hmem) hen (hsize b hb)
    refine ⟨⟨st.buffers.set i c,st.returned ++ out⟩,by simp only [bufferMachine,hb',hrun]; rfl,?_,?_⟩
    · simp only [queueStep,hqi]
      rw [← hspec]
      refine ⟨?_,?_,?_⟩
      · intro d hd
        rcases List.mem_or_eq_of_mem_set hd with hd | rfl
        · exact hwf d hd
        · exact hc
      · rw [List.map_set,hq]
      · rw [hret]
    · intro hp hs d hd
      rcases List.mem_or_eq_of_mem_set hd with hd | rfl
      · exact hs d hd
      · exact hkeep hp (hs b hmem)
  | swap i j =>
    refine ⟨_,rfl,⟨fun b hb => hwf b (mem_swapAt hb),?_,hret⟩,fun _ hs b hb => hs b (mem_swapAt hb)⟩
    rw [queueStep,swapAt_map,hq]

/-- In every run whose entry assertions hold and whose vectors stay within `max_size`, no assertion
fails: the run ends, the indices are ordered, the readable bytes and the returned strings are those of
the abstract queues, and without prepends the prepend space is kept. -/
theorem buffer_refines_byte_queue (ops : List StoreOp)
    (ha : (bufferMachine.guard BelowMaxSize).Admissible ⟨[],[]⟩ ops) :
    ∃ st, bufferMachine.exec ⟨[],[]⟩ ops = .ok st ∧
      (∀ b ∈ st.buffers, b.readerIndex ≤ b.writerIndex ∧ b.writerIndex ≤ b.buffer.length) ∧
      st.buffers.map Buffer.readable = (ops.foldl queueStep ⟨[],[]⟩).queues ∧
      st.returned = (ops.foldl queueStep ⟨[],[]⟩).returned ∧
      ((∀ op ∈ ops, op.isPrepend = false) → ∀ b ∈ st.buffers, kCheapPrepend ≤ b.prependableBytes) := by
  have hrun := (bufferMachine.guard BelowMaxSize).exec_history (s := ⟨[],[]⟩)
    (I := fun before st => Refines st (before.foldl queueStep ⟨[],[]⟩) ∧
      ((∀ op ∈ before, op.isPrepend = false) → ∀ b ∈ st.buffers, kCheapPrepend ≤ b.prependableBytes))
    ⟨⟨by simp,rfl,rfl⟩,by simp⟩ (by
      rintro before st op ⟨hr,hp⟩ - he
      obtain ⟨t,ht,hr',hp'⟩ := step_refines hr he
      refine ⟨t,ht,?_,fun hnone => hp' (hnone op (by simp)) (hp fun o ho => hnone o (by simp [ho]))⟩
      rw [List.foldl_append]
      exact hr') ops ha
  rw [bufferMachine.exec_guard] at hrun
  obtain ⟨st,hst,hr,hp⟩ := hrun
  exact ⟨st,hst,fun b hb => ⟨(hr.layout b hb).reader_le,(hr.layout b hb).writer_le⟩,hr.queues,hr.returned,hp⟩

/-- A run through growth, compaction after a prepend, a scatter read and a swap. -/
theorem buffer_refines_byte_queue_run :
    let ops : List StoreOp := [.construct 4,.call 0 (.append [1,2,3,4,5]),.call 0 (.retrieve 4),
      .call 0 (.prepend [9]),.call 0 (.append [6,7]),.call 0 (.readFd (.received [8,8,8])),
      .construct 0,.call 1 (.readFd (.failed 11)),.swap 0 1,.call 1 (.retrieveAsString 2)]
    (bufferMachine.guard BelowMaxSize).Admissible ⟨[],[]⟩ ops ∧
      ∃ st, bufferMachine.exec ⟨[],[]⟩ ops = .ok st ∧
        st.buffers.map Buffer.readable = [[],[6,7,8,8,8]] ∧ st.returned = [[9,5]] := by
  have ha : (bufferMachine.guard BelowMaxSize).Admissible ⟨[],[]⟩ [.construct 4,.call 0 (.append [1,2,3,4,5]),
      .call 0 (.retrieve 4),.call 0 (.prepend [9]),.call 0 (.append [6,7]),
      .call 0 (.readFd (.received [8,8,8])),.construct 0,.call 1 (.readFd (.failed 11)),
      .swap 0 1,.call 1 (.retrieveAsString 2)] := by decide +kernel
  obtain ⟨st,hst,-,hq,hret,-⟩ := buffer_refines_byte_queue _ ha
  exact ⟨ha,st,hst,hq.trans (by decide),hret.trans (by decide)⟩

end LearningMuduo.Tcp
