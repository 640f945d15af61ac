import LearningMuduo.Tcp.ConnectionRuns

/-! Buffered output and the writable event: the interest is kept, the handler is not
bound. -/
namespace LearningMuduo.Tcp
open Library Reactor

namespace Session
variable {s u : Session}

/-- A reported event runs `handleWrite`, which then drains what `write` takes. -/
def DrainsOn (s : Session) (revents : Mask) : Prop :=
  .handleWrite ∈ (s.event revents).dispatching ∧
  ∀ k : Nat, 0 < k → k ≤ s.conn.outputBuffer.readable.length →
    ∃ u, s.handleWrite k = .ok u ∧
      u.conn.outputBuffer.readable = s.conn.outputBuffer.readable.drop k

/-- The channel watches for writability, and every writable event without a hang-up
drains the buffer. -/
def DrainedWhenWritable (s : Session) : Prop :=
  s.conn.channel.isWriting ∧
  ∀ revents : Mask, revents.Has POLLOUT → ¬ revents.Has POLLHUP → s.DrainsOn revents

/-- The callbacks as the constructor bound them. -/
def Wired (ch : Channel ConnHandler) : Prop :=
  ch.readCallback = some .handleRead ∧ ch.closeCallback = some .handleClose ∧
    ch.errorCallback = some .handleError ∧ ch.writeCallback = none

/-- Until the connection is closed, a non-empty buffer keeps the write interest. -/
structure Watched (s : Session) : Prop where
  output : s.conn.outputBuffer.WF
  wired : Wired s.conn.channel
  writing : s.closeCallbacks = 0 → s.conn.outputBuffer.readable ≠ [] → s.conn.channel.isWriting
  pending : s.closeCallbacks = 0 → s.removals = 0 ∧ .connectDestroyed ∉ s.ioQueue
  calls : ∀ t, s.calls t ≠ some (.queue .connectDestroyed)

private theorem Watched.mono (h : s.Watched) (hb : u.conn.outputBuffer = s.conn.outputBuffer)
    (hw : Wired s.conn.channel → Wired u.conn.channel)
    (hi : s.conn.channel.isWriting → u.conn.channel.isWriting)
    (hc : u.closeCallbacks = s.closeCallbacks) (hr : u.removals = s.removals)
    (hq : ConnFunctor.connectDestroyed ∈ u.ioQueue → .connectDestroyed ∈ s.ioQueue)
    (hcalls : ∀ t, u.calls t ≠ some (.queue .connectDestroyed)) : u.Watched := by
  refine ⟨by rw [hb]; exact h.output,hw h.wired,?_,?_,hcalls⟩
  · rw [hc,hb]
    exact fun h0 hne => hi (h.writing h0 hne)
  · rw [hc,hr]
    exact fun h0 => ⟨(h.pending h0).1,fun hm => (h.pending h0).2 (hq hm)⟩

private theorem not_destroyed_of_notes {notes : List ConnFunctor}
    (hn : ∀ f ∈ notes, f.isNote = true) (hm : ConnFunctor.connectDestroyed ∈ s.ioQueue ++ notes) :
    ConnFunctor.connectDestroyed ∈ s.ioQueue := by
  rcases List.mem_append.mp hm with hm | hm
  · exact hm
  · exact nomatch hn _ hm

/-- Only `disableAll` ends the write interest. -/
theorem isWriting_setInterest {ch : Channel ConnHandler} (h : ch.isWriting) {op : Interest}
    (hop : op ≠ .disableAll) : (ch.setInterest op).updated.isWriting := by
  change (Channel.interestMask ch.events op).Has kWriteEvent
  cases op with
  | disableAll => exact (hop rfl).elim
  | _ => exact h.or _

private theorem Watched.moved (h : s.Watched) (bytes : List UInt8) {b : Buffer}
    {ch : Channel ConnHandler} {notes : List ConnFunctor} (shut : Nat) (hb : b.WF)
    (hw : Wired ch) (hn : ∀ f ∈ notes, f.isNote = true)
    (hi : s.closeCallbacks = 0 → b.readable ≠ [] → ch.isWriting) :
    (s.moved bytes b ch notes shut).Watched :=
  ⟨hb,hw,hi,fun h0 => ⟨(h.pending h0).1,fun hm => (h.pending h0).2 (not_destroyed_of_notes hn hm)⟩,
    h.calls⟩

private theorem sendInLoop_watched (h : s.Watched) (t : Nat) {message : Message} {n : Int}
    (hn : WriteAnswer n message.bytes.length) :
    Meets Watched (fun _ => True) (s.sendInLoop t message n) := by
  have hstart : (s.started t message.bytes).Watched :=
    h.mono rfl id id rfl rfl id h.calls
  apply (sendInLoop_spec h.output t message hn).mono ?_ (fun _ _ => trivial)
  rintro u ⟨k,b,ch,notes,rfl,hwf,_,_,hwrite,hch,hnotes⟩
  apply hstart.moved _ _ hwf ?_ hnotes ?_
  · rcases hch with rfl | rfl <;> exact h.wired
  · intro h0 hne
    rcases hwrite with ⟨rfl,hsame⟩ | hw
    · exact h.writing h0 (hsame ▸ hne)
    · exact hw

private theorem handleWrite_watched (h : s.Watched) {n : Int}
    (hn : WriteAnswer n s.conn.outputBuffer.readableBytes) :
    Meets Watched (fun _ => True) (s.handleWrite n) := by
  obtain ⟨u,hu,⟨rfl,_⟩ | ⟨b,ch,notes,shut,hw,_,rfl,hwf,_,hch,hnotes⟩⟩ := handleWrite_spec h.output hn
  · rw [hu]
    exact h
  · rw [hu]
    apply h.moved _ _ hwf ?_ hnotes ?_
    · rcases hch with rfl | rfl <;> exact h.wired
    · -- `disableWriting` only adds flags, so the write flag stays
      intro _ _
      rcases hch with rfl | rfl
      · exact hw
      · exact isWriting_setInterest hw (by simp)

private theorem handleClose_watched (h : s.Watched) :
    Meets Watched (fun _ => True) s.handleClose := by
  apply handleClose_spec.mono ?_ (fun _ _ => trivial)
  rintro u ⟨_,⟨_,rfl⟩ | ⟨_,_,rfl⟩⟩
  all_goals exact ⟨h.output,h.wired,fun h0 => (Nat.succ_ne_zero _ h0).elim,
    fun h0 => (Nat.succ_ne_zero _ h0).elim,h.calls⟩

private theorem Watched.setCall (h : s.Watched) (t : Nat) {p : Option CallPoint}
    (hp : p ≠ some (.queue .connectDestroyed)) : (s.setCall t p).Watched :=
  h.mono rfl id id rfl rfl id
    (setCall_forall (P := fun _ p => p ≠ some (.queue .connectDestroyed)) h.calls hp)

private theorem Watched.setState (h : s.Watched) (state : StateE) : (s.setState state).Watched :=
  h.mono rfl id id rfl rfl id h.calls

private theorem Watched.shutdownInLoop (h : s.Watched) : s.shutdownInLoop.Watched := by
  unfold Session.shutdownInLoop
  split
  · exact h.mono rfl id id rfl rfl id h.calls
  · exact h

private theorem call_watched (h : s.Watched) (t : Nat) (c : Call) : (s.call t c).Watched := by
  obtain he | ⟨p,hp,he⟩ | ⟨message,p,hp,he⟩ := s.call_cases t c
  · rw [he]
    exact h
  · rw [he]
    refine h.setCall t ?_
    rcases hp with rfl | rfl <;> simp
  · rw [he]
    have hset : (s.setCall t (some p)).Watched := by
      refine h.setCall t ?_
      rcases hp with ⟨_,rfl⟩ | ⟨_,rfl⟩ <;> simp
    exact hset.mono rfl id id rfl rfl id hset.calls

private theorem resume_watched (h : s.Watched) {t : Nat} {n : Int} (he : CallAnswer n (s.calls t)) :
    Meets Watched (fun _ => True) (s.resume t n) := by
  unfold resume
  split
  · exact h
  · rename_i message hc
    rw [hc] at he
    exact sendInLoop_watched (h.setCall t (by simp)) t he
  · split
    · exact ((h.setCall t (by simp)).setState _).shutdownInLoop
    · exact (h.setCall t (by simp)).setState _
  · exact (h.setCall t (by simp)).setState _
  · rename_i f hc
    have hf : f ≠ .connectDestroyed := by
      rintro rfl
      exact h.calls t hc
    have hset := h.setCall t (p := none) (by simp)
    refine hset.mono rfl id id rfl rfl ?_ hset.calls
    intro hm
    rcases List.mem_append.mp hm with hm | hm
    · exact hm
    · exact (hf (List.mem_singleton.mp hm).symm).elim

private theorem functor_watched (h : s.Watched) {f : ConnFunctor} {rest : List ConnFunctor}
    (hq : s.ioQueue = f :: rest) {n : Int} (hn : FunctorAnswer n (f :: rest)) :
    Meets Watched (fun _ => True) ({ s with ioQueue := rest }.runFunctor n f) := by
  have h' : ({ s with ioQueue := rest } : Session).Watched := by
    refine h.mono rfl id id rfl rfl ?_ h.calls
    intro hm
    rw [hq]
    exact List.mem_cons_of_mem f hm
  cases f with
  | sendInLoop t message => exact sendInLoop_watched h' t hn
  | shutdownInLoop => exact h'.shutdownInLoop
  | forceCloseInLoop =>
    change Meets _ _ (if _ then _ else _)
    split
    · exact handleClose_watched h'
    · exact h'
  | connectDestroyed =>
    -- it was queued by a close, so the connection is closed already
    have hclosed : s.closeCallbacks ≠ 0 := by
      intro h0
      apply (h.pending h0).2
      rw [hq]
      exact List.mem_cons_self
    apply connectDestroyed_spec.mono ?_ (fun _ _ => trivial)
    rintro u ⟨_,rfl⟩
    exact ⟨h.output,h.wired,fun h0 => (hclosed h0).elim,fun h0 => (hclosed h0).elim,h.calls⟩
  | writeComplete cb => exact h'
  | highWaterMark cb len => exact h'

private theorem handleRead_watched (h : s.Watched) (r : ReadvResult) :
    Meets Watched (fun _ => True) (s.handleRead r) := by
  apply (meets_true ((s.conn.inputBuffer.readFd r).mapError ConnFault.buffer)).bind
  rintro ⟨b,n,errno⟩ _
  have h' : (s.setInput b).Watched := h.mono rfl id id rfl rfl id h.calls
  dsimp only
  split
  · exact handleClose_watched h'
  · exact h'

/-- Every step keeps a connection with output watched. -/
theorem code_watched (h : s.Watched) {a : ConnStep} (he : s.Enabled a) :
    Meets Watched (fun _ => True) (s.code a) := by
  cases a with
  | call t c => exact call_watched h t c
  | resume t n => exact resume_watched h he
  | event revents => exact h.mono rfl id id rfl rfl id h.calls
  | handler r n =>
    obtain ⟨_,he⟩ := he
    rw [code]
    split
    · exact h
    · rename_i handler rest hd
      rw [hd] at he
      have h' : ({ s with dispatching := rest } : Session).Watched :=
        h.mono rfl id id rfl rfl id h.calls
      cases handler with
      | handleRead => exact handleRead_watched h' r
      | handleWrite => exact handleWrite_watched h' he
      | handleClose => exact handleClose_watched h'
      | handleError => exact h'
  | functor n =>
    obtain ⟨_,_,he⟩ := he
    rw [code]
    split
    · exact h
    · rename_i f rest hq
      rw [hq] at he
      exact functor_watched h hq he
  | handleWrite n => exact handleWrite_watched h he.2
  | removeConnectionInLoop =>
    have hclosed : s.closeCallbacks ≠ 0 := fun h0 => he (h.pending h0).1
    apply removeConnectionInLoop_spec.mono ?_ (fun _ _ => trivial)
    rintro u ⟨_,rfl⟩
    exact ⟨h.output,h.wired,fun h0 => (hclosed h0).elim,fun h0 => (hclosed h0).elim,h.calls⟩
  | input op =>
    apply Meets.map
    apply (meets_true ((op.run s.conn.inputBuffer).mapError ConnFault.buffer)).mono ?_ (fun _ => id)
    intro out _
    exact h.mono rfl id id rfl rfl id h.calls
  | setWriteCompleteCallback cb => exact h.mono rfl id id rfl rfl id h.calls
  | setHighWaterMarkCallback cb mark => exact h.mono rfl id id rfl rfl id h.calls

/-- A new connection has no output. -/
theorem new_watched (owner : Owner) (loopThread : Nat) (sockfd : Int) (mark : Nat) :
    (new owner loopThread sockfd mark).Watched := by
  refine ⟨Buffer.initial_wf,⟨rfl,rfl,rfl,rfl⟩,?_,fun _ => ⟨rfl,List.not_mem_nil⟩,fun _ h => ?_⟩
  · intro _ hne
    have hzero : Buffer.initial.readable.length = 0 :=
      Buffer.initial_wf.length_readable.trans (by rw [Buffer.initial_wf.readableBytes_eq]; rfl)
    exact (hne (List.length_eq_zero_iff.mp hzero)).elim
  · exact Option.some_ne_none _ h.symm

/-- `connectEstablished` keeps it so. -/
theorem connectEstablished_watched (h : s.Watched) :
    Meets Watched (fun _ => True) s.connectEstablished := by
  refine Meets.bind (meets_require fun _ => trivial) fun _ _ => ?_
  have hset : ((s.setState .kConnected).interest .enableReading).Watched :=
    h.mono rfl id (fun hw => isWriting_setInterest hw (by simp)) rfl rfl id h.calls
  change Watched (if _ then _ else _)
  split
  · exact hset
  · exact hset.mono rfl id id rfl rfl id hset.calls

/-- An established connection has no output. -/
theorem established_watched (owner : Owner) (loopThread : Nat) (sockfd : Int) (mark : Nat) :
    (established owner loopThread sockfd mark).Watched := by
  have h := connectEstablished_watched (new_watched owner loopThread sockfd mark)
  rw [connectEstablished_new] at h
  exact h

/-- With these callbacks no event runs `handleWrite`. -/
theorem event_not_handleWrite (h : Wired s.conn.channel) (revents : Mask) :
    .handleWrite ∉ (s.event revents).dispatching := by
  obtain ⟨hr,hc,he,hw⟩ := h
  intro hm
  simp only [event,Channel.handleEvent,Channel.handleEventWithGuard,hr,hc,he,hw] at hm
  split at hm
  · exact List.not_mem_nil hm
  · simp only [List.mem_append,List.mem_ite_nil_right] at hm
    simp at hm

/-- In every run a connection with output stays watched. -/
theorem exec_watched (owner : Owner) (loopThread : Nat) (sockfd : Int) (mark : Nat) {as : List ConnStep}
    (ha : machine.Admissible (established owner loopThread sockfd mark) as) {s : Session}
    (hs : machine.exec (established owner loopThread sockfd mark) as = .ok s) : s.Watched := by
  have hrun := machine.exec_invariant (Q := fun _ => True) (fun s a h he => code_watched (s := s) h he) as _
    (established_watched owner loopThread sockfd mark) ha
  rw [hs] at hrun
  exact hrun

/-- Buffered output of an open connection always keeps the write interest, and never
gets `handleWrite` called: no writable event drains it. -/
theorem writable_event_never_drains (owner : Owner) (loopThread : Nat) (sockfd : Int) (mark : Nat)
    (as : List ConnStep) (ha : machine.Admissible (established owner loopThread sockfd mark) as)
    (s : Session) (hs : machine.exec (established owner loopThread sockfd mark) as = .ok s)
    (hopen : s.conn.isOpen ∧ s.closeCallbacks = 0) (hne : s.conn.outputBuffer.readable ≠ []) :
    s.conn.channel.isWriting ∧ ¬ s.DrainedWhenWritable ∧
    ∀ revents : Mask, revents.Has POLLOUT → ¬ revents.Has POLLHUP → ¬ s.DrainsOn revents := by
  have hwatched := exec_watched owner loopThread sockfd mark ha hs
  have hnever (revents : Mask) : ¬ s.DrainsOn revents :=
    fun hd => event_not_handleWrite hwatched.wired revents hd.1
  refine ⟨hwatched.writing hopen.2 hne,?_,fun revents _ _ => hnever revents⟩
  intro hd
  exact hnever POLLOUT (hd.2 POLLOUT (by decide) (by decide))

private def halfWritten : List ConnStep := [.call 0 (.send ⟨[1,2],by decide⟩),.resume 0 1]

private theorem halfWritten_run : ∃ s, machine.exec (established .client 0 5 0) halfWritten = .ok s ∧
    (s.conn.isOpen ∧ s.closeCallbacks = 0) ∧ s.conn.outputBuffer.readable ≠ [] ∧
    .handleWrite ∉ (s.event POLLOUT).dispatching :=
  Meets.ok_of_no_error (Q := fun _ => False) (by decide +kernel) (fun _ => id)

/-- One byte of two is taken; the other stays and no event moves it. -/
theorem writable_event_never_drains_half :
    ∃ s, machine.exec (established .client 0 5 0) halfWritten = .ok s ∧
      s.conn.outputBuffer.readable ≠ [] ∧ s.conn.channel.isWriting ∧ ¬ s.DrainedWhenWritable ∧
      ∀ revents : Mask, revents.Has POLLOUT → ¬ revents.Has POLLHUP → ¬ s.DrainsOn revents := by
  have ha : machine.Admissible (established .client 0 5 0) halfWritten := by decide +kernel
  obtain ⟨s,hs,hopen,hne,_⟩ := halfWritten_run
  exact ⟨s,hs,hne,writable_event_never_drains .client 0 5 0 halfWritten ha s hs hopen hne⟩

/-- After a send of two bytes of which the kernel took one, `POLLOUT` runs nothing. -/
theorem half_written_message_is_stuck :
    machine.Admissible (established .client 0 5 0) halfWritten ∧
    ∃ s, machine.exec (established .client 0 5 0) halfWritten = .ok s ∧
      (s.conn.isOpen ∧ s.closeCallbacks = 0) ∧ s.conn.outputBuffer.readable ≠ [] ∧
      ¬ s.DrainedWhenWritable := by
  refine ⟨by decide +kernel,?_⟩
  obtain ⟨s,hs,hopen,hne,hnot⟩ := halfWritten_run
  exact ⟨s,hs,hopen,hne,fun hd => hnot (hd.2 POLLOUT (by decide) (by decide)).1⟩

end Session
end LearningMuduo.Tcp
