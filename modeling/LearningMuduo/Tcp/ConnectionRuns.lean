import LearningMuduo.Tcp.TcpConnection

/-! The steps of a connection as a machine, and what each function of the connection
leaves, stated once for every property of its runs. -/
namespace LearningMuduo.Tcp
open Library Reactor

/-- `write` returns -1 or a count up to the number of bytes offered. -/
def WriteAnswer (n : Int) (offered : Nat) : Prop := -1 ≤ n ∧ n ≤ offered

instance (n : Int) (offered : Nat) : Decidable (WriteAnswer n offered) :=
  inferInstanceAs (Decidable (_ ∧ _))

/-- One atomic step of a thread; n and r are the answers of `write` and `readv`.
`handleWrite` is the call a channel makes that has it bound, `input` is user code on
the input buffer. -/
inductive ConnStep where
  | call (t : Nat) (c : Call)
  | resume (t : Nat) (n : Int)
  | event (revents : Mask)
  | handler (r : ReadvResult) (n : Int)
  | functor (n : Int)
  | handleWrite (n : Int)
  | removeConnectionInLoop
  | input (op : BufferOp)
  | setWriteCompleteCallback (cb : UserCallback)
  | setHighWaterMarkCallback (cb : UserCallback) (mark : Nat)

/-- A functor that only calls user code. -/
def ConnFunctor.isNote : ConnFunctor → Bool
  | .writeComplete _ | .highWaterMark .. => true
  | .sendInLoop .. | .shutdownInLoop | .forceCloseInLoop | .connectDestroyed => false

namespace Session

/-- The connection just after `connectEstablished`. -/
def established (owner : Owner) (loopThread : Nat) (sockfd : Int) (highWaterMark : Nat) : Session :=
  ((new owner loopThread sockfd highWaterMark).setState .kConnected).interest .enableReading

/-- A new connection is established. -/
theorem connectEstablished_new (owner : Owner) (loopThread : Nat) (sockfd : Int) (mark : Nat) :
    (new owner loopThread sockfd mark).connectEstablished =
      .ok (established owner loopThread sockfd mark) := rfl

def code (s : Session) : ConnStep → Except ConnFault Session
  | .call t c => pure (s.call t c)
  | .resume t n => s.resume t n
  | .event revents => pure (s.event revents)
  | .handler r n => match s.dispatching with
    | [] => pure s
    | h :: rest => { s with dispatching := rest }.runHandler r n h
  | .functor n => match s.ioQueue with
    | [] => pure s
    | f :: rest => { s with ioQueue := rest }.runFunctor n f
  | .handleWrite n => s.handleWrite n
  | .removeConnectionInLoop => { s with removals := s.removals-1 }.removeConnectionInLoop
  | .input op => (fun out => s.setInput out.1) <$> (op.run s.conn.inputBuffer).mapError .buffer
  | .setWriteCompleteCallback cb => pure { s with conn := { s.conn with writeCompleteCallback := cb } }
  | .setHighWaterMarkCallback cb mark => pure { s with
      conn := { s.conn with highWaterMarkCallback := cb, highWaterMark := mark } }

/-- The loop thread is not inside a public call of the connection. -/
def LoopFree (s : Session) : Prop := s.calls s.loopThread = none

/-- The flags `epoll_wait` can report: those watched, errors and hang-ups. -/
def Reports (s : Session) (revents : Mask) : Prop :=
  revents &&& ~~~(s.conn.channel.events ||| POLLERR ||| POLLHUP) = 0

instance (s : Session) : Decidable s.LoopFree := inferInstanceAs (Decidable (_ = _))
instance (s : Session) (revents : Mask) : Decidable (s.Reports revents) :=
  inferInstanceAs (Decidable (_ = _))

/-- There is a call to resume, and n answers the `write` it makes. -/
def CallAnswer (n : Int) : Option CallPoint → Prop
  | none => False
  | some (.send message) => WriteAnswer n message.bytes.length
  | some _ => True

/-- There is a callback to run, and r and n answer its system call. -/
def HandlerAnswer (s : Session) (r : ReadvResult) (n : Int) : List ConnHandler → Prop
  | [] => False
  | .handleRead :: _ => r.count ≤ s.conn.inputBuffer.iovecBytes
  | .handleWrite :: _ => WriteAnswer n s.conn.outputBuffer.readableBytes
  | _ => True

/-- There is a functor to run, and n answers the `write` it makes. -/
def FunctorAnswer (n : Int) : List ConnFunctor → Prop
  | [] => False
  | .sendInLoop _ message :: _ => WriteAnswer n message.bytes.length
  | _ => True

instance (n : Int) : DecidablePred (CallAnswer n)
  | none => isFalse id
  | some (.send message) => inferInstanceAs (Decidable (WriteAnswer n message.bytes.length))
  | some .shutdown | some .forceClose | some (.queue _) => isTrue trivial

instance (s : Session) (r : ReadvResult) (n : Int) : DecidablePred (s.HandlerAnswer r n)
  | [] => isFalse id
  | .handleRead :: _ => inferInstanceAs (Decidable (_ ≤ _))
  | .handleWrite :: _ => inferInstanceAs (Decidable (WriteAnswer n _))
  | .handleClose :: _ | .handleError :: _ => isTrue trivial

instance (n : Int) : DecidablePred (FunctorAnswer n)
  | [] => isFalse id
  | .sendInLoop _ message :: _ => inferInstanceAs (Decidable (WriteAnswer n message.bytes.length))
  | .shutdownInLoop :: _ | .forceCloseInLoop :: _ | .connectDestroyed :: _ | .writeComplete _ :: _
  | .highWaterMark .. :: _ => isTrue trivial

/-- Which steps can happen. Only a channel in the interest list is reported. -/
def Enabled (s : Session) : ConnStep → Prop
  | .call t _ => s.calls t = none
  | .resume t n => CallAnswer n (s.calls t)
  | .event revents => s.LoopFree ∧ s.dispatching = [] ∧ s.conn.channel.index = kAdded ∧ s.Reports revents
  | .handler r n => s.LoopFree ∧ s.HandlerAnswer r n s.dispatching
  | .functor n => s.LoopFree ∧ s.dispatching = [] ∧ FunctorAnswer n s.ioQueue
  | .handleWrite n => s.LoopFree ∧ WriteAnswer n s.conn.outputBuffer.readableBytes
  | .removeConnectionInLoop => s.removals ≠ 0
  | .input op => s.LoopFree ∧ op.Enabled s.conn.inputBuffer
  | .setWriteCompleteCallback _ => s.LoopFree
  | .setHighWaterMarkCallback _ _ => s.LoopFree

instance (s : Session) : (a : ConnStep) → Decidable (s.Enabled a)
  | .call .. => inferInstanceAs (Decidable (_ = _))
  | .resume t n => inferInstanceAs (Decidable (CallAnswer n (s.calls t)))
  | .event revents => inferInstanceAs (Decidable (s.LoopFree ∧ _ = _ ∧ _ = _ ∧ s.Reports revents))
  | .handler r n => inferInstanceAs (Decidable (s.LoopFree ∧ s.HandlerAnswer r n s.dispatching))
  | .functor n => inferInstanceAs (Decidable (s.LoopFree ∧ _ = _ ∧ FunctorAnswer n s.ioQueue))
  | .handleWrite n => inferInstanceAs (Decidable (s.LoopFree ∧ WriteAnswer n _))
  | .removeConnectionInLoop => inferInstanceAs (Decidable (_ ≠ _))
  | .input op => inferInstanceAs (Decidable (s.LoopFree ∧ op.Enabled s.conn.inputBuffer))
  | .setWriteCompleteCallback _ | .setHighWaterMarkCallback .. => inferInstanceAs (Decidable s.LoopFree)

def machine : Machine Session ConnStep ConnFault := ⟨Enabled,code⟩

instance (s : Session) (a : ConnStep) : Decidable (machine.Enabled s a) :=
  inferInstanceAs (Decidable (s.Enabled a))

variable {s : Session}

/-- Bytes moved to the kernel and into the output buffer, with the notifications
queued and the half-closes made on the way. -/
def moved (s : Session) (bytes : List UInt8) (b : Buffer) (ch : Channel ConnHandler)
    (notes : List ConnFunctor) (shut : Nat) : Session :=
  { s with
    conn := { s.conn with outputBuffer := b, channel := ch }
    accepted := s.accepted ++ bytes
    ioQueue := s.ioQueue ++ notes
    shutdownWrites := s.shutdownWrites+shut }

/-- What a public call does at once: nothing, or the thread stands behind the test of
`state_`, with a message for a send. -/
theorem call_cases (s : Session) (t : Nat) (c : Call) : s.call t c = s ∨
    (∃ p, (p = .shutdown ∨ p = .forceClose) ∧ s.call t c = s.setCall t (some p)) ∨
    ∃ message p, (t = s.loopThread ∧ p = .send message ∨
        t ≠ s.loopThread ∧ p = .queue (.sendInLoop t message)) ∧
      s.call t c = (s.setCall t (some p)).requested t message.bytes := by
  cases c with
  | send message =>
    rw [call]
    split
    · refine .inr (.inr ⟨message,_,?_,rfl⟩)
      split
      · exact .inl ⟨by assumption,rfl⟩
      · exact .inr ⟨by assumption,rfl⟩
    · exact .inl rfl
  | shutdown =>
    rw [call]
    split
    · exact .inr (.inl ⟨.shutdown,.inl rfl,rfl⟩)
    · exact .inl rfl
  | forceClose =>
    rw [call]
    split
    · exact .inr (.inl ⟨.forceClose,.inr rfl,rfl⟩)
    · exact .inl rfl

/-- What holds of every call point and of the new one holds after `setCall`. -/
theorem setCall_forall {s : Session} {P : Nat → Option CallPoint → Prop} (h : ∀ v, P v (s.calls v)) {t : Nat}
    {p : Option CallPoint} (hp : P t p) (v : Nat) : P v ((s.setCall t p).calls v) := by
  simp only [setCall,Function.update_apply]
  split
  · rename_i hv
    rw [hv]
    exact hp
  · exact h v

/-- A notification is queued and changes nothing else. -/
@[simp] theorem conn_notify (s : Session) (f : Nat → ConnFunctor) (cb : UserCallback) : (s.notify f cb).conn = s.conn := by
  cases cb <;> rfl

private theorem notify_spec (s : Session) {f : Nat → ConnFunctor} (hf : ∀ cb, (f cb).isNote = true) (cb : UserCallback) :
    ∃ notes, s.notify f cb = { s with ioQueue := s.ioQueue ++ notes } ∧ ∀ f ∈ notes, f.isNote = true := by
  cases cb with
  | none => exact ⟨[],by simp [notify],nofun⟩
  | some cb => exact ⟨[f cb],rfl,by simp [hf]⟩

/-- The direct write moves a prefix of the message, and only past an empty buffer. -/
theorem writeDirect_spec (h : s.conn.outputBuffer.WF) {message : List UInt8} {n : Int}
    (hn : WriteAnswer n message.length) : ∃ k notes remaining,
      s.writeDirect message n = (s.moved (message.take k) s.conn.outputBuffer s.conn.channel notes 0,
        (k : Int),remaining) ∧
      k ≤ message.length ∧ (k = 0 ∨ s.conn.outputBuffer.readable = []) ∧
      ∀ f ∈ notes, f.isNote = true := by
  have hstay : s = s.moved (message.take 0) s.conn.outputBuffer s.conn.channel [] 0 := by
    simp [moved]
  unfold writeDirect
  split
  · rename_i hd
    have hempty : s.conn.outputBuffer.readable = [] :=
      List.length_eq_zero_iff.mp (h.length_readable.trans hd.2)
    split
    · rename_i h0
      have hk : n.toNat ≤ message.length := by have := hn.2; omega
      have hi : ((n.toNat : Nat) : Int) = n := Int.toNat_of_nonneg h0
      have hmove : s.accept (message.take n.toNat) =
          s.moved (message.take n.toNat) s.conn.outputBuffer s.conn.channel [] 0 := by
        simp [moved,accept]
      dsimp only
      split
      · exact ⟨n.toNat,[],_,by rw [hi,hmove],hk,.inr hempty,by simp⟩
      · obtain ⟨notes,hq,hnotes⟩ := (s.accept (message.take n.toNat)).notify_spec (f := .writeComplete) (fun _ => rfl)
          s.conn.writeCompleteCallback
        refine ⟨n.toNat,notes,wordSub message.length n.toNat,?_,hk,.inr hempty,hnotes⟩
        rw [hi]
        refine congrArg (·,n,wordSub message.length n.toNat) (hq.trans ?_)
        simp [moved,accept]
    · exact ⟨0,[],_,by rw [← hstay]; rfl,Nat.zero_le _,.inl rfl,by simp⟩
  · exact ⟨0,[],_,by rw [← hstay]; rfl,Nat.zero_le _,.inl rfl,by simp⟩

private theorem isWriting_enableWriting (ch : Channel ConnHandler) :
    (ch.setInterest .enableWriting).updated.isWriting :=
  Mask.has_or_self ch.events (by decide)

private theorem bufferRest_spec (h : s.conn.outputBuffer.WF) (message : Message) (k remaining : Nat) :
    Meets (fun u => ∃ b ch notes, u = s.moved [] b ch notes 0 ∧ b.WF ∧
      b.readable = s.conn.outputBuffer.readable ++ message.bytes.drop k ∧ ch.isWriting ∧
      (ch = s.conn.channel ∨ ch = (s.conn.channel.setInterest .enableWriting).updated) ∧
      ∀ f ∈ notes, f.isNote = true) (· = .buffer .lengthError)
      (s.bufferRest message.bytes k remaining) := by
  have hlen : (message.bytes.drop k).length ≤ maxSize := by
    have := message.fits
    rw [List.length_drop]
    omega
  -- whichever note is queued, the buffer and the channel are those of s
  have hnote (v : Session) (notes : List ConnFunctor) (hv : v = { s with ioQueue := s.ioQueue ++ notes })
      (hnotes : ∀ f ∈ notes, f.isNote = true) :
      Meets (fun u => ∃ b ch notes, u = s.moved [] b ch notes 0 ∧ b.WF ∧
        b.readable = s.conn.outputBuffer.readable ++ message.bytes.drop k ∧ ch.isWriting ∧
        (ch = s.conn.channel ∨ ch = (s.conn.channel.setInterest .enableWriting).updated) ∧
        ∀ f ∈ notes, f.isNote = true) (· = .buffer .lengthError)
        ((v.conn.outputBuffer.append (message.bytes.drop k)).mapError ConnFault.buffer >>= fun b =>
          pure (if ¬ (v.setOutput b).conn.channel.isWriting then (v.setOutput b).interest .enableWriting
            else v.setOutput b)) := by
    subst hv
    have happend := (Buffer.append_spec h hlen).mono (fun _ => id)
      (fun e (he : e = .lengthError) => congrArg ConnFault.buffer he)
    apply happend.mapError.bind
    rintro b ⟨hk,hr⟩
    by_cases hw : s.conn.channel.isWriting
    · refine ⟨b,s.conn.channel,notes,?_,hk.1,hr,hw,.inl rfl,hnotes⟩
      simp [moved,setOutput,hw]
    · refine ⟨b,_,notes,?_,hk.1,hr,isWriting_enableWriting _,.inr rfl,hnotes⟩
      simp [moved,setOutput,interest,setChannel,hw]
  unfold bufferRest
  dsimp only
  split
  · obtain ⟨notes,hq,hnotes⟩ := s.notify_spec (f := (.highWaterMark · (wordAdd s.conn.outputBuffer.readableBytes remaining)))
      (fun _ => rfl) s.conn.highWaterMarkCallback
    exact hnote _ notes hq hnotes
  · exact hnote _ [] (by simp) (by simp)

/-- `sendInLoop` hands a prefix to the kernel and the rest to the buffer. It fails
only when the vector cannot grow. -/
theorem sendInLoop_spec (h : s.conn.outputBuffer.WF) (t : Nat) (message : Message) {n : Int}
    (hn : WriteAnswer n message.bytes.length) :
    Meets (fun u => ∃ k b ch notes,
      u = (s.started t message.bytes).moved (message.bytes.take k) b ch notes 0 ∧
      b.WF ∧ b.readable = s.conn.outputBuffer.readable ++ message.bytes.drop k ∧
      (k = 0 ∨ s.conn.outputBuffer.readable = []) ∧
      (ch = s.conn.channel ∧ b.readable = s.conn.outputBuffer.readable ∨ ch.isWriting) ∧
      (ch = s.conn.channel ∨ ch = (s.conn.channel.setInterest .enableWriting).updated) ∧
      ∀ f ∈ notes, f.isNote = true) (· = .buffer .lengthError) (s.sendInLoop t message n) := by
  obtain ⟨k,notes,remaining,hd,hk,hfirst,hnotes⟩ :=
    writeDirect_spec (s := s.started t message.bytes) h hn
  rw [sendInLoop,hd]
  dsimp only
  rw [require_pos (Int.natCast_nonneg k),bind_ok,Int.toNat_natCast]
  split
  · apply (bufferRest_spec (s := (s.started t message.bytes).moved (message.bytes.take k)
      s.conn.outputBuffer s.conn.channel notes 0) h message k remaining).mono ?_ (fun _ => id)
    rintro u ⟨b,ch,more,rfl,hwf,hr,hw,hch,hmore⟩
    refine ⟨k,b,ch,notes ++ more,?_,hwf,hr,hfirst,.inr hw,hch,?_⟩
    · simp [moved]
    · intro f hf
      exact (List.mem_append.mp hf).elim (hnotes f) (hmore f)
  · have hall : message.bytes.drop k = [] := List.drop_eq_nil_of_le (by omega)
    refine ⟨k,_,_,notes,rfl,h,?_,hfirst,.inl ⟨rfl,rfl⟩,.inl rfl,hnotes⟩
    rw [hall,List.append_nil]
    rfl

private theorem shutdownInLoop_spec : ∃ shut ≤ 1,
    s.shutdownInLoop = { s with shutdownWrites := s.shutdownWrites+shut } := by
  unfold shutdownInLoop
  split
  · exact ⟨1,le_rfl,rfl⟩
  · exact ⟨0,Nat.zero_le _,rfl⟩

private theorem drained_spec : ∃ notes shut, s.drained = s.moved [] s.conn.outputBuffer
    (s.conn.channel.setInterest .disableWriting).updated notes shut ∧ ∀ f ∈ notes, f.isNote = true := by
  have hnote (v : Session) (notes : List ConnFunctor)
      (hv : v = s.moved [] s.conn.outputBuffer (s.conn.channel.setInterest .disableWriting).updated notes 0)
      (hnotes : ∀ f ∈ notes, f.isNote = true) :
      ∃ notes shut, (if v.conn.state = .kDisconnecting then v.shutdownInLoop else v) =
        s.moved [] s.conn.outputBuffer (s.conn.channel.setInterest .disableWriting).updated notes shut ∧
        ∀ f ∈ notes, f.isNote = true := by
    split
    · obtain ⟨shut,_,hs⟩ := shutdownInLoop_spec (s := v)
      refine ⟨notes,shut,?_,hnotes⟩
      rw [hs,hv]
      simp [moved]
    · exact ⟨notes,0,hv,hnotes⟩
  obtain ⟨notes,hq,hnotes⟩ := (s.interest .disableWriting).notify_spec (f := .writeComplete) (fun _ => rfl)
    (s.interest .disableWriting).conn.writeCompleteCallback
  refine hnote _ notes (hq.trans ?_) hnotes
  simp [moved,interest,setChannel]

/-- `handleWrite` does nothing, or hands the first k readable bytes to the kernel. -/
theorem handleWrite_spec (h : s.conn.outputBuffer.WF) {n : Int}
    (hn : WriteAnswer n s.conn.outputBuffer.readableBytes) :
    ∃ u, s.handleWrite n = .ok u ∧ (u = s ∧ ¬ (s.conn.channel.isWriting ∧ 0 < n) ∨
      ∃ b ch notes shut, s.conn.channel.isWriting ∧ 0 < n ∧
        u = s.moved (s.conn.outputBuffer.readable.take n.toNat) b ch notes shut ∧ b.WF ∧
        b.readable = s.conn.outputBuffer.readable.drop n.toNat ∧
        (ch = s.conn.channel ∨ ch = (s.conn.channel.setInterest .disableWriting).updated) ∧
        ∀ f ∈ notes, f.isNote = true) := by
  unfold handleWrite
  split
  · rename_i hw
    obtain ⟨b,hb,hk,hr⟩ := Buffer.retrieve_spec h (show n.toNat ≤ _ by have := hn.2; omega)
    rw [hb]
    refine ⟨_,rfl,.inr ?_⟩
    split
    · obtain ⟨notes,shut,hd,hnotes⟩ := drained_spec
        (s := (s.accept (s.conn.outputBuffer.readable.take n.toNat)).setOutput b)
      refine ⟨b,_,notes,shut,hw.1,hw.2,?_,hk.1,hr,.inr rfl,hnotes⟩
      rw [hd]
      simp [moved,accept,setOutput]
    · refine ⟨b,_,[],0,hw.1,hw.2,?_,hk.1,hr,.inl rfl,by simp⟩
      simp [moved,accept,setOutput]
  · rename_i hw
    exact ⟨s,rfl,.inl ⟨rfl,hw⟩⟩

/-- `handleClose` up to the owner's part. -/
def closing (s : Session) : Session :=
  { s.interest .disableAll with closeCallbacks := s.closeCallbacks+1 }

/-- The owner forgets the connection and queues its destruction. -/
def forgotten (s : Session) : Session :=
  { s with present := false, ioQueue := s.ioQueue ++ [.connectDestroyed] }

/-- The connection after `connectDestroyed`. -/
def gone (s : Session) : Session :=
  { s with
    conn := { s.conn with
      state := .kDisconnected
      channel := (s.conn.channel.setInterest .disableAll).updated.removed }
    destroyed := s.destroyed+1
    downCallbacks := s.downCallbacks+1 }

/-- `removeConnectionInLoop` forgets a connection that is present. -/
theorem removeConnectionInLoop_spec :
    Meets (fun u => s.present = true ∧ u = s.forgotten)
      (fun e => s.present = false ∧ e = .removeConnectionInLoop) s.removeConnectionInLoop := by
  unfold removeConnectionInLoop
  cases hp : s.present with
  | true => exact ⟨rfl,rfl⟩
  | false => exact ⟨rfl,rfl⟩

/-- `handleClose` closes an open connection and tells its owner. -/
theorem handleClose_spec :
    Meets (fun u => s.conn.isOpen ∧
        (s.owner = .server false ∧ u = { s.closing with removals := s.removals+1 } ∨
          s.owner ≠ .server false ∧ s.present = true ∧ u = s.closing.forgotten))
      (fun e => ¬ s.conn.isOpen ∧ e = .handleClose ∨ s.owner ≠ .server false ∧ s.present = false ∧
        (e = .removeConnectionInLoop ∨ e = .removeConnection)) s.handleClose := by
  unfold handleClose
  by_cases ho : s.conn.isOpen
  · rw [require_pos ho,bind_ok]
    change Meets _ _ s.closing.removeConnection
    have hne {o : Owner} (hown : s.closing.owner = o) (ho : o ≠ .server false) :
        s.owner ≠ .server false := fun h => ho (hown.symm.trans h)
    unfold removeConnection
    split
    · rename_i hown
      apply (removeConnectionInLoop_spec (s := s.closing)).mono
      · rintro u ⟨hp,rfl⟩
        exact ⟨ho,.inr ⟨hne hown (by simp),hp,rfl⟩⟩
      · rintro e ⟨hp,rfl⟩
        exact .inr ⟨hne hown (by simp),hp,.inl rfl⟩
    · rename_i hown
      exact ⟨ho,.inl ⟨hown,rfl⟩⟩
    · rename_i hown
      by_cases hp : s.closing.present = true
      · rw [require_pos hp]
        exact ⟨ho,.inr ⟨hne hown (by simp),hp,rfl⟩⟩
      · rw [require_neg hp]
        exact .inr ⟨hne hown (by simp),Bool.not_eq_true _ ▸ hp,.inr rfl⟩
  · rw [require_neg ho]
    exact .inl ⟨ho,rfl⟩

/-- `connectDestroyed` ends an open connection. -/
theorem connectDestroyed_spec :
    Meets (fun u => s.conn.isOpen ∧ u = s.gone) (fun e => ¬ s.conn.isOpen ∧ e = .connectDestroyed)
      s.connectDestroyed := by
  unfold connectDestroyed
  by_cases ho : s.conn.isOpen
  · rw [require_pos ho,bind_ok]
    dsimp only
    have hindex : (s.conn.channel.setInterest .disableAll).updated.index ≠ kNew := by
      unfold Channel.updated
      split <;> simp [kNew,kAdded,kDeleted]
    rw [require_pos ⟨rfl,hindex⟩]
    exact ⟨ho,rfl⟩
  · rw [require_neg ho]
    exact ⟨ho,rfl⟩

end Session
end LearningMuduo.Tcp
