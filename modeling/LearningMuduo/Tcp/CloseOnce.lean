import LearningMuduo.Tcp.ConnectionRuns

/-! Closing a connection: the stages of a close, and the runs in which no second
close is started before the first one is over. -/
namespace LearningMuduo.Tcp
open Library Reactor

/-- Open; closed and waiting for the server's loop; waiting for `connectDestroyed`;
destroyed. -/
inductive CloseStage where
  | opened | removing | destroying | destroyed
  deriving DecidableEq, Repr

namespace CloseStage

def closes : CloseStage → Nat
  | .opened => 0
  | .removing | .destroying | .destroyed => 1

def destroys : CloseStage → Nat
  | .opened | .removing | .destroying => 0
  | .destroyed => 1

def present : CloseStage → Bool
  | .opened | .removing => true
  | .destroying | .destroyed => false

def removals : CloseStage → Nat
  | .removing => 1
  | .opened | .destroying | .destroyed => 0

/-- What may be queued: at most one forced close while open, and none ahead of
`connectDestroyed`. -/
def Queue (q : List ConnFunctor) : CloseStage → Prop
  | .opened => .connectDestroyed ∉ q ∧ q.count .forceCloseInLoop ≤ 1
  | .removing => .connectDestroyed ∉ q ∧ .forceCloseInLoop ∉ q
  | .destroying => ∃ pre post, q = pre ++ .connectDestroyed :: post ∧
      .connectDestroyed ∉ pre ∧ .forceCloseInLoop ∉ pre ∧ .connectDestroyed ∉ post
  | .destroyed => .connectDestroyed ∉ q

variable {q : List ConnFunctor} {f : ConnFunctor} {st : CloseStage}

private theorem Queue.append (h : st.Queue q) (hd : f ≠ .connectDestroyed)
    (hf : f = .forceCloseInLoop → st = .destroying ∨ st = .destroyed ∨
      st = .opened ∧ .forceCloseInLoop ∉ q) : st.Queue (q ++ [f]) := by
  have hnot {x : List ConnFunctor} (hx : ConnFunctor.connectDestroyed ∉ x) :
      ConnFunctor.connectDestroyed ∉ x ++ [f] := by
    simp [hx,Ne.symm hd]
  cases st with
  | opened =>
    refine ⟨hnot h.1,?_⟩
    rw [List.count_append]
    by_cases hff : f = .forceCloseInLoop
    · have hno : .forceCloseInLoop ∉ q := by
        rcases hf hff with h | h | h
        · cases h
        · cases h
        · exact h.2
      rw [List.count_eq_zero_of_not_mem hno,hff]
      decide
    · rw [List.count_eq_zero_of_not_mem (show .forceCloseInLoop ∉ [f] by simp [Ne.symm hff])]
      exact h.2
  | removing =>
    refine ⟨hnot h.1,?_⟩
    have hff : f ≠ .forceCloseInLoop := by
      intro hff
      rcases hf hff with h | h | ⟨h,_⟩ <;> cases h
    simp [h.2,Ne.symm hff]
  | destroying =>
    obtain ⟨pre,post,rfl,h1,h2,h3⟩ := h
    exact ⟨pre,post ++ [f],by simp,h1,h2,hnot h3⟩
  | destroyed => exact hnot h

private theorem Queue.append_notes (h : st.Queue q) {notes : List ConnFunctor}
    (hn : ∀ f ∈ notes, f.isNote = true) : st.Queue (q ++ notes) := by
  induction notes generalizing q with
  | nil => rwa [List.append_nil]
  | cons f notes ih =>
    have hf := hn f List.mem_cons_self
    have hone : st.Queue (q ++ [f]) := by
      apply h.append
      · rintro rfl; cases hf
      · rintro rfl; cases hf
    have hrest := ih hone (fun g hg => hn g (List.mem_cons_of_mem f hg))
    rwa [List.append_assoc,List.singleton_append] at hrest

private theorem Queue.tail (h : st.Queue (f :: q)) (hd : f ≠ .connectDestroyed) : st.Queue q := by
  cases st with
  | opened =>
    refine ⟨fun hm => h.1 (List.mem_cons_of_mem f hm),?_⟩
    have hc := h.2
    rw [List.count_cons] at hc
    omega
  | removing =>
    exact ⟨fun hm => h.1 (List.mem_cons_of_mem f hm),fun hm => h.2 (List.mem_cons_of_mem f hm)⟩
  | destroying =>
    obtain ⟨pre,post,hq,h1,h2,h3⟩ := h
    cases pre with
    | nil =>
      cases hq
      exact (hd rfl).elim
    | cons g pre =>
      cases hq
      exact ⟨pre,post,rfl,fun hm => h1 (List.mem_cons_of_mem _ hm),
        fun hm => h2 (List.mem_cons_of_mem _ hm),h3⟩
  | destroyed => exact fun hm => h (List.mem_cons_of_mem f hm)

end CloseStage

/-- None of the assertions a second close would fail: the server's `n == 1`, the
client's `connection_ == conn` and the state assertion of `connectDestroyed`. -/
def ConnFault.NotSecondClose (e : ConnFault) : Prop :=
  e ≠ .removeConnectionInLoop ∧ e ≠ .removeConnection ∧ e ≠ .connectDestroyed

namespace Session
variable {s u : Session} {st : CloseStage}

structure ClosedOnce (s : Session) : Prop where
  closeCallback : s.closeCallbacks ≤ 1
  connectDestroyed : s.destroyed ≤ 1
  connectionDown : s.downCallbacks ≤ 1

/-- No close is under way: nothing of one is queued in either loop. -/
def NoClosePending (s : Session) : Prop :=
  .forceCloseInLoop ∉ s.ioQueue ∧ .connectDestroyed ∉ s.ioQueue ∧ s.removals = 0

instance (s : Session) : Decidable s.NoClosePending := inferInstanceAs (Decidable (_ ∧ _ ∧ _))

/-- The callback about to run does not close a connection that is being closed. -/
def HandlerStarts (s : Session) (r : ReadvResult) : List ConnHandler → Prop
  | .handleClose :: _ => s.conn.state = .kDisconnected ∨ s.NoClosePending
  | .handleRead :: _ => r.count = 0 → s.conn.state = .kDisconnected ∨ s.NoClosePending
  | _ => True

/-- The caller assigns `state_` while its test still holds, and queues a forced close
behind `connectDestroyed` or where no close is under way. -/
def CallStarts (s : Session) : Option CallPoint → Prop
  | some .shutdown => s.conn.state ≠ .kDisconnected
  | some .forceClose => s.conn.state ≠ .kDisconnected
  | some (.queue .forceCloseInLoop) => s.conn.state = .kDisconnected ∨
      .connectDestroyed ∈ s.ioQueue ∨ s.NoClosePending
  | _ => True

/-- A close starts only when none is under way or the connection is destroyed. -/
def StartsOneClose (s : Session) : ConnStep → Prop
  | .handler r _ => s.HandlerStarts r s.dispatching
  | .resume t _ => s.CallStarts (s.calls t)
  | _ => True

instance (s : Session) (r : ReadvResult) : DecidablePred (s.HandlerStarts r)
  | [] | .handleWrite :: _ | .handleError :: _ => isTrue trivial
  | .handleClose :: _ => inferInstanceAs (Decidable (_ ∨ _))
  | .handleRead :: _ => inferInstanceAs (Decidable (_ → _ ∨ _))

instance (s : Session) : DecidablePred s.CallStarts
  | none | some (.send _) | some (.queue (.sendInLoop ..)) | some (.queue .shutdownInLoop)
  | some (.queue .connectDestroyed) | some (.queue (.writeComplete _))
  | some (.queue (.highWaterMark ..)) => isTrue trivial
  | some .shutdown | some .forceClose => inferInstanceAs (Decidable (_ ≠ _))
  | some (.queue .forceCloseInLoop) => inferInstanceAs (Decidable (_ ∨ _ ∨ _))

instance (s : Session) : (a : ConnStep) → Decidable (s.StartsOneClose a)
  | .handler r _ => inferInstanceAs (Decidable (s.HandlerStarts r s.dispatching))
  | .resume t _ => inferInstanceAs (Decidable (s.CallStarts (s.calls t)))
  | .call .. | .event _ | .functor _ | .handleWrite _ | .removeConnectionInLoop | .input _
  | .setWriteCompleteCallback _ | .setHighWaterMarkCallback .. => isTrue trivial

structure InStage (s : Session) (st : CloseStage) : Prop where
  output : s.conn.outputBuffer.WF
  calls : ∀ t, s.calls t ≠ some (.queue .connectDestroyed)
  closes : s.closeCallbacks = st.closes
  destroys : s.destroyed = st.destroys
  downs : s.downCallbacks = st.destroys
  present : s.present = st.present
  removals : s.removals = st.removals
  queue : st.Queue s.ioQueue
  state : s.conn.state ≠ .kConnecting ∧ (s.conn.state = .kDisconnected ↔ st = .destroyed)

private theorem InStage.closedOnce (h : s.InStage st) : s.ClosedOnce := by
  refine ⟨?_,?_,?_⟩
  · rw [h.closes]; cases st <;> decide
  · rw [h.destroys]; cases st <;> decide
  · rw [h.downs]; cases st <;> decide

private theorem InStage.mono (h : s.InStage st) (ho : u.conn.outputBuffer.WF)
    (hcalls : ∀ t, u.calls t ≠ some (.queue .connectDestroyed)) (hq : st.Queue u.ioQueue)
    (hstate : u.conn.state = s.conn.state) (hc : u.closeCallbacks = s.closeCallbacks)
    (hd : u.destroyed = s.destroyed) (hdown : u.downCallbacks = s.downCallbacks)
    (hp : u.present = s.present) (hr : u.removals = s.removals) : u.InStage st :=
  ⟨ho,hcalls,hc.trans h.closes,hd.trans h.destroys,hdown.trans h.downs,hp.trans h.present,
    hr.trans h.removals,hq,by rw [hstate]; exact h.state⟩

private theorem InStage.frame (h : s.InStage st) (ho : u.conn.outputBuffer = s.conn.outputBuffer)
    (hcalls : u.calls = s.calls) (hq : u.ioQueue = s.ioQueue)
    (hstate : u.conn.state = s.conn.state) (hc : u.closeCallbacks = s.closeCallbacks)
    (hd : u.destroyed = s.destroyed) (hdown : u.downCallbacks = s.downCallbacks)
    (hp : u.present = s.present) (hr : u.removals = s.removals) : u.InStage st :=
  h.mono (by rw [ho]; exact h.output) (by rw [hcalls]; exact h.calls) (by rw [hq]; exact h.queue)
    hstate hc hd hdown hp hr

private theorem InStage.moved (h : s.InStage st) (bytes : List UInt8) {b : Buffer}
    (ch : Channel ConnHandler) {notes : List ConnFunctor} (shut : Nat) (hb : b.WF)
    (hn : ∀ f ∈ notes, f.isNote = true) : (s.moved bytes b ch notes shut).InStage st :=
  h.mono hb h.calls (h.queue.append_notes hn) rfl rfl rfl rfl rfl rfl

private theorem InStage.setCall (h : s.InStage st) (t : Nat) {p : Option CallPoint}
    (hp : p ≠ some (.queue .connectDestroyed)) : (s.setCall t p).InStage st :=
  h.mono h.output (setCall_forall (P := fun _ p => p ≠ some (.queue .connectDestroyed)) h.calls hp)
    h.queue rfl rfl rfl rfl rfl rfl

private theorem InStage.setDisconnecting (h : s.InStage st) (hs : s.conn.state ≠ .kDisconnected) :
    (s.setState .kDisconnecting).InStage st :=
  ⟨h.output,h.calls,h.closes,h.destroys,h.downs,h.present,h.removals,h.queue,
    fun hh => (nomatch hh),
    ⟨fun hh => (nomatch hh),fun hh => (hs (h.state.2.mpr hh)).elim⟩⟩

private theorem InStage.shutdownInLoop (h : s.InStage st) : s.shutdownInLoop.InStage st := by
  unfold Session.shutdownInLoop
  split
  · exact h.frame rfl rfl rfl rfl rfl rfl rfl rfl rfl
  · exact h

/-- The first close. -/
theorem handleClose_opened (h : s.InStage .opened) (hf : .forceCloseInLoop ∉ s.ioQueue) :
    Meets (fun u => ∃ st, u.InStage st) ConnFault.NotSecondClose s.handleClose := by
  have hstate : s.conn.state ≠ .kDisconnected := fun hh => nomatch h.state.2.mp hh
  apply handleClose_spec.mono
  · rintro u ⟨_,⟨_,rfl⟩ | ⟨_,_,rfl⟩⟩
    · refine ⟨.removing,⟨h.output,h.calls,?_,h.destroys,h.downs,h.present,?_,⟨h.queue.1,hf⟩,
        h.state.1,⟨fun hh => (hstate hh).elim,fun hh => (nomatch hh)⟩⟩⟩
      · exact congrArg (·+1) h.closes
      · exact congrArg (·+1) h.removals
    · refine ⟨.destroying,⟨h.output,h.calls,?_,h.destroys,h.downs,rfl,h.removals,?_,
        h.state.1,⟨fun hh => (hstate hh).elim,fun hh => (nomatch hh)⟩⟩⟩
      · exact congrArg (·+1) h.closes
      · exact ⟨s.ioQueue,[],rfl,h.queue.1,hf,List.not_mem_nil⟩
  · rintro e (⟨_,rfl⟩ | ⟨_,hp,_⟩)
    · exact ⟨by simp,by simp,by simp⟩
    · rw [h.present] at hp
      cases hp

/-- A close reported to a destroyed connection stops at the assertion of `handleClose`. -/
theorem handleClose_destroyed (hs : s.conn.state = .kDisconnected) :
    Meets (fun u => ∃ st, u.InStage st) ConnFault.NotSecondClose s.handleClose := by
  have hno : ¬ s.conn.isOpen := by
    rintro (h | h) <;> rw [hs] at h <;> cases h
  rw [handleClose,require_neg hno]
  exact ⟨by simp,by simp,by simp⟩

private theorem handleClose_alone (h : s.InStage st)
    (hg : s.conn.state = .kDisconnected ∨ s.NoClosePending) :
    Meets (fun u => ∃ st, u.InStage st) ConnFault.NotSecondClose s.handleClose := by
  rcases hg with hs | ⟨hf,hd,hr⟩
  · exact handleClose_destroyed hs
  · cases st with
    | opened => exact handleClose_opened h hf
    | removing => exact nomatch hr.symm.trans h.removals
    | destroying =>
      obtain ⟨pre,post,hq,_⟩ := h.queue
      rw [hq] at hd
      exact (hd (by simp)).elim
    | destroyed => exact handleClose_destroyed (h.state.2.mpr rfl)

private theorem sendInLoop_stage (h : s.InStage st) (t : Nat) {message : Message} {n : Int}
    (hn : WriteAnswer n message.bytes.length) :
    Meets (fun u => ∃ st, u.InStage st) ConnFault.NotSecondClose (s.sendInLoop t message n) := by
  apply (sendInLoop_spec h.output t message hn).mono
  · rintro u ⟨k,b,ch,notes,rfl,hwf,_,_,_,_,hnotes⟩
    have hstart : (s.started t message.bytes).InStage st := h.frame rfl rfl rfl rfl rfl rfl rfl rfl rfl
    exact ⟨st,hstart.moved _ _ _ hwf hnotes⟩
  · rintro e rfl
    exact ⟨by simp,by simp,by simp⟩

private theorem handleWrite_stage (h : s.InStage st) {n : Int}
    (hn : WriteAnswer n s.conn.outputBuffer.readableBytes) :
    Meets (fun u => ∃ st, u.InStage st) ConnFault.NotSecondClose (s.handleWrite n) := by
  obtain ⟨u,hu,⟨rfl,_⟩ | ⟨b,ch,notes,shut,_,_,rfl,hwf,_,_,hnotes⟩⟩ := handleWrite_spec h.output hn
  · rw [hu]
    exact ⟨st,h⟩
  · rw [hu]
    exact ⟨st,h.moved _ _ _ hwf hnotes⟩

private theorem call_stage (h : s.InStage st) (t : Nat) (c : Call) : (s.call t c).InStage st := by
  obtain he | ⟨p,hp,he⟩ | ⟨message,p,hp,he⟩ := s.call_cases t c
  · rw [he]
    exact h
  · rw [he]
    refine h.setCall t ?_
    rcases hp with rfl | rfl <;> simp
  · rw [he]
    have hset : (s.setCall t (some p)).InStage st := by
      refine h.setCall t ?_
      rcases hp with ⟨_,rfl⟩ | ⟨_,rfl⟩ <;> simp
    exact hset.frame rfl rfl rfl rfl rfl rfl rfl rfl rfl

private theorem resume_stage (h : s.InStage st) {t : Nat} {n : Int} (he : s.Enabled (.resume t n))
    (hg : s.StartsOneClose (.resume t n)) :
    Meets (fun u => ∃ st, u.InStage st) ConnFault.NotSecondClose (s.resume t n) := by
  change CallAnswer n (s.calls t) at he
  change s.CallStarts (s.calls t) at hg
  unfold resume
  split
  · exact ⟨st,h⟩
  · rename_i message hc
    rw [hc] at he
    exact sendInLoop_stage (h.setCall t (by simp)) t he
  · rename_i hc
    rw [hc] at hg
    split
    · exact ⟨st,((h.setCall t (by simp)).setDisconnecting hg).shutdownInLoop⟩
    · exact ⟨st,(h.setCall t (by simp)).setDisconnecting hg⟩
  · rename_i hc
    rw [hc] at hg
    exact ⟨st,(h.setCall t (by simp)).setDisconnecting hg⟩
  · rename_i f hc
    rw [hc] at hg
    have hd : f ≠ .connectDestroyed := by
      rintro rfl
      exact h.calls t hc
    have hset := h.setCall t (p := none) (by simp)
    refine ⟨st,hset.mono hset.output hset.calls (h.queue.append hd ?_) rfl rfl rfl rfl rfl rfl⟩
    rintro rfl
    rcases hg with hs | hdest | ⟨hf,hd',hr⟩
    · exact .inr (.inl (h.state.2.mp hs))
    · cases st with
      | opened => exact (h.queue.1 hdest).elim
      | removing => exact (h.queue.1 hdest).elim
      | destroying => exact .inl rfl
      | destroyed => exact .inr (.inl rfl)
    · cases st with
      | opened => exact .inr (.inr ⟨rfl,hf⟩)
      | removing => exact nomatch hr.symm.trans h.removals
      | destroying => exact .inl rfl
      | destroyed => exact .inr (.inl rfl)

/-- A queued forced close runs: the connection is open, or it is destroyed already. -/
theorem forceCloseInLoop_stage {rest : List ConnFunctor} (h : s.InStage st)
    (hq : st.Queue (.forceCloseInLoop :: rest)) (hs : s.ioQueue = rest) :
    Meets (fun u => ∃ st, u.InStage st) ConnFault.NotSecondClose s.forceCloseInLoop := by
  rw [forceCloseInLoop]
  split
  · rename_i hopen
    cases st with
    | opened =>
      apply handleClose_opened h
      have hcount := hq.2
      rw [List.count_cons_self] at hcount
      rw [hs]
      exact List.count_eq_zero.mp (show rest.count .forceCloseInLoop = 0 by omega)
    | removing => exact (hq.2 List.mem_cons_self).elim
    | destroying =>
      -- a forced close at the head would stand ahead of `connectDestroyed`
      obtain ⟨pre,post,hpre,_,hno,_⟩ := hq
      cases pre with
      | nil => cases hpre
      | cons g pre =>
        cases hpre
        exact (hno List.mem_cons_self).elim
    | destroyed =>
      have hdown : s.conn.state = .kDisconnected := h.state.2.mpr rfl
      rcases hopen with ho | ho <;> exact nomatch hdown.symm.trans ho
  · exact ⟨st,h⟩

/-- `connectDestroyed` is queued in one stage only, and is its last step. -/
theorem connectDestroyed_stage {rest : List ConnFunctor} (h : s.InStage st)
    (hq : s.ioQueue = .connectDestroyed :: rest) :
    Meets (fun u => ∃ st, u.InStage st) ConnFault.NotSecondClose
      ({ s with ioQueue := rest } : Session).connectDestroyed := by
  have hqueue := h.queue
  rw [hq] at hqueue
  cases st with
  | opened => exact (hqueue.1 List.mem_cons_self).elim
  | removing => exact (hqueue.1 List.mem_cons_self).elim
  | destroyed => exact (hqueue List.mem_cons_self).elim
  | destroying =>
    obtain ⟨pre,post,hpre,hd,_,hpost⟩ := hqueue
    cases pre with
    | cons g pre =>
      cases hpre
      exact (hd List.mem_cons_self).elim
    | nil =>
      cases hpre
      apply connectDestroyed_spec.mono
      · rintro u ⟨_,rfl⟩
        exact ⟨.destroyed,⟨h.output,h.calls,h.closes,congrArg (·+1) h.destroys,
          congrArg (·+1) h.downs,h.present,h.removals,hpost,fun hh => (nomatch hh),⟨fun _ => rfl,fun _ => rfl⟩⟩⟩
      · rintro e ⟨hno,rfl⟩
        refine (hno ?_).elim
        have hstate := h.state
        change s.conn.state = _ ∨ s.conn.state = _
        cases hs : s.conn.state with
        | kConnecting => exact (hstate.1 hs).elim
        | kConnected => exact .inl rfl
        | kDisconnecting => exact .inr rfl
        | kDisconnected => exact nomatch hstate.2.mp hs

private theorem functor_stage (h : s.InStage st) {f : ConnFunctor} {rest : List ConnFunctor}
    (hq : s.ioQueue = f :: rest) {n : Int} (hn : FunctorAnswer n (f :: rest)) :
    Meets (fun u => ∃ st, u.InStage st) ConnFault.NotSecondClose
      ({ s with ioQueue := rest }.runFunctor n f) := by
  have hqueue := h.queue
  rw [hq] at hqueue
  have htail (hd : f ≠ .connectDestroyed) : ({ s with ioQueue := rest } : Session).InStage st :=
    h.mono h.output h.calls (hqueue.tail hd) rfl rfl rfl rfl rfl rfl
  cases f with
  | sendInLoop t message => exact sendInLoop_stage (htail (by simp)) t hn
  | shutdownInLoop => exact ⟨st,(htail (by simp)).shutdownInLoop⟩
  | forceCloseInLoop => exact forceCloseInLoop_stage (htail (by simp)) hqueue rfl
  | connectDestroyed => exact connectDestroyed_stage h hq
  | writeComplete cb => exact ⟨st,htail (by simp)⟩
  | highWaterMark cb len => exact ⟨st,htail (by simp)⟩

private theorem mapError_buffer {α : Type} {P : α → Prop} {x : Except BufferFault α}
    (h : Meets P (fun _ => True) x) :
    Meets P ConnFault.NotSecondClose (x.mapError ConnFault.buffer) :=
  (h.mono (fun _ => id) (fun e _ => (⟨by simp,by simp,by simp⟩ :
    (ConnFault.buffer e).NotSecondClose))).mapError

private theorem handleRead_stage (h : s.InStage st) {r : ReadvResult}
    (hg : r.count = 0 → s.conn.state = .kDisconnected ∨ s.NoClosePending) :
    Meets (fun u => ∃ st, u.InStage st) ConnFault.NotSecondClose (s.handleRead r) := by
  apply (mapError_buffer (s.conn.inputBuffer.readFd_count r)).bind
  rintro ⟨b,n,errno⟩ hn
  have h' : (s.setInput b).InStage st := h.frame rfl rfl rfl rfl rfl rfl rfl rfl rfl
  change n = r.count at hn
  dsimp only
  split
  · rename_i h0
    exact handleClose_alone h' (hg (hn.symm.trans h0))
  · exact ⟨st,h'⟩

private theorem handler_stage (h : s.InStage st) {r : ReadvResult} {n : Int}
    (he : s.HandlerAnswer r n s.dispatching) (hg : s.StartsOneClose (.handler r n)) :
    Meets (fun u => ∃ st, u.InStage st) ConnFault.NotSecondClose (s.code (.handler r n)) := by
  change s.HandlerStarts r s.dispatching at hg
  rw [code]
  split
  · exact ⟨st,h⟩
  · rename_i handler rest hd
    rw [hd] at he hg
    have h' : ({ s with dispatching := rest } : Session).InStage st :=
      h.frame rfl rfl rfl rfl rfl rfl rfl rfl rfl
    cases handler with
    | handleRead => exact handleRead_stage h' hg
    | handleWrite => exact handleWrite_stage h' he
    | handleClose => exact handleClose_alone h' hg
    | handleError => exact ⟨st,h'⟩

private theorem code_stage (h : s.InStage st) {a : ConnStep} (he : s.Enabled a)
    (hg : s.StartsOneClose a) :
    Meets (fun u => ∃ st, u.InStage st) ConnFault.NotSecondClose (s.code a) := by
  cases a with
  | call t c => exact ⟨st,call_stage h t c⟩
  | resume t n => exact resume_stage h he hg
  | event revents => exact ⟨st,h.frame rfl rfl rfl rfl rfl rfl rfl rfl rfl⟩
  | handler r n => exact handler_stage h he.2 hg
  | functor n =>
    obtain ⟨_,_,he⟩ := he
    rw [code]
    split
    · exact ⟨st,h⟩
    · rename_i f rest hq
      rw [hq] at he
      exact functor_stage h hq he
  | handleWrite n => exact handleWrite_stage h he.2
  | removeConnectionInLoop =>
    -- only the stage between the two loops has a removal to run
    cases st with
    | opened => exact (he h.removals).elim
    | destroying => exact (he h.removals).elim
    | destroyed => exact (he h.removals).elim
    | removing =>
      apply removeConnectionInLoop_spec.mono
      · rintro u ⟨_,rfl⟩
        refine ⟨.destroying,⟨h.output,h.calls,h.closes,h.destroys,h.downs,rfl,?_,?_,h.state.1,?_⟩⟩
        · exact congrArg (·-1) h.removals
        · exact ⟨s.ioQueue,[],rfl,h.queue.1,h.queue.2,List.not_mem_nil⟩
        · exact ⟨fun hh => (nomatch h.state.2.mp hh),fun hh => (nomatch hh)⟩
      · rintro e ⟨hp,_⟩
        exact nomatch h.present.symm.trans hp
  | input op =>
    apply Meets.map
    apply (mapError_buffer (meets_true (op.run s.conn.inputBuffer))).mono ?_ (fun _ => id)
    intro out _
    exact ⟨st,h.frame rfl rfl rfl rfl rfl rfl rfl rfl rfl⟩
  | setWriteCompleteCallback cb => exact ⟨st,h.frame rfl rfl rfl rfl rfl rfl rfl rfl rfl⟩
  | setHighWaterMarkCallback cb mark => exact ⟨st,h.frame rfl rfl rfl rfl rfl rfl rfl rfl rfl⟩

private theorem established_stage (owner : Owner) (loopThread : Nat) (sockfd : Int) (mark : Nat) :
    (established owner loopThread sockfd mark).InStage .opened :=
  ⟨Buffer.initial_wf,fun _ h => Option.some_ne_none _ h.symm,rfl,rfl,rfl,rfl,rfl,
    ⟨List.not_mem_nil,Nat.zero_le _⟩,fun h => (nomatch h),⟨fun h => (nomatch h),fun h => (nomatch h)⟩⟩

/-- In every run whose steps start no second close, the connection is closed,
destroyed and reported down at most once, and none of the three assertions fails. -/
theorem connection_closed_once (owner : Owner) (loopThread : Nat) (sockfd : Int) (mark : Nat)
    (as : List ConnStep)
    (ha : (machine.guard StartsOneClose).Admissible (established owner loopThread sockfd mark) as) :
    (∀ s, machine.exec (established owner loopThread sockfd mark) as = .ok s → s.ClosedOnce) ∧
    ∀ e, machine.exec (established owner loopThread sockfd mark) as = .error e → e.NotSecondClose := by
  have hrun := (machine.guard StartsOneClose).exec_invariant (I := fun s => ∃ st, s.InStage st)
    (Q := ConnFault.NotSecondClose) (fun s a ⟨st,h⟩ he => code_stage h he.1 he.2) as _
    ⟨.opened,established_stage owner loopThread sockfd mark⟩ ha
  rw [machine.exec_guard] at hrun
  exact meets_iff.mp (hrun.mono (fun s ⟨_,h⟩ => h.closedOnce) (fun _ => id))

private def forcedClose : List ConnStep :=
  [.call 7 .shutdown,.resume 7 0,.resume 7 0,.functor 0,.call 7 .forceClose,.resume 7 0,.resume 7 0,
    .functor 0,.removeConnectionInLoop,.functor 0,.call 7 .forceClose]

/-- A half-close, one forced close through both loops, and a late one. -/
theorem connection_closed_once_forced :
    (machine.guard StartsOneClose).Admissible (established (.server false) 0 5 0) forcedClose ∧
    ∃ s, machine.exec (established (.server false) 0 5 0) forcedClose = .ok s ∧ s.ClosedOnce := by
  have ha : (machine.guard StartsOneClose).Admissible (established (.server false) 0 5 0) forcedClose := by
    decide +kernel
  exact ⟨ha,(meets_iff.mpr (connection_closed_once (.server false) 0 5 0 forcedClose ha)).of_success (by decide +kernel)⟩

private def twoForceCloses : List ConnStep :=
  [.call 7 .forceClose,.resume 7 0,.resume 7 0,.call 7 .forceClose,.resume 7 0,.resume 7 0,
    .functor 0,.functor 0]

/-- `conn->forceClose(); conn->forceClose();` calls `closeCallback_` twice, and the
second removal fails the server's assertion. -/
theorem two_force_closes_close_twice :
    machine.Admissible (established (.server false) 0 5 0) twoForceCloses ∧
    (∃ s, machine.exec (established (.server false) 0 5 0) twoForceCloses = .ok s ∧ ¬ s.ClosedOnce) ∧
    machine.Admissible (established (.server true) 0 5 0) twoForceCloses ∧
    ∃ e, machine.exec (established (.server true) 0 5 0) twoForceCloses = .error e ∧
      ¬ e.NotSecondClose := by
  refine ⟨by decide +kernel,?_,by decide +kernel,?_⟩
  · obtain ⟨s,hs,hc⟩ : ∃ s, machine.exec (established (.server false) 0 5 0) twoForceCloses = .ok s ∧
        s.closeCallbacks = 2 := Meets.ok_of_no_error (Q := fun _ => False) (by decide +kernel) (fun _ => id)
    refine ⟨s,hs,?_⟩
    intro h
    have hle := h.closeCallback
    rw [hc] at hle
    omega
  · obtain ⟨e,he,hfault⟩ : ∃ e, machine.exec (established (.server true) 0 5 0) twoForceCloses = .error e ∧
        e = .removeConnectionInLoop :=
      Meets.error_of_no_ok (P := fun _ => False) (by decide +kernel) (fun _ => id)
    exact ⟨e,he,fun h => h.1 hfault⟩

end Session
end LearningMuduo.Tcp
