import LearningMuduo.Tcp.ConnectionRuns

/-! The output side of a connection: what the kernel took and what is buffered are
together the messages in the order in which `sendInLoop` ran. -/
namespace LearningMuduo.Tcp
open Library Reactor

/-- The message a functor or a call still carries, with its sender. -/
def ConnFunctor.message? : ConnFunctor → Option (Nat × List UInt8)
  | .sendInLoop t message => some (t,message.bytes)
  | _ => none

def CallPoint.message? (t : Nat) : CallPoint → Option (Nat × List UInt8)
  | .send message => some (t,message.bytes)
  | .queue f => f.message?
  | _ => none

/-- Only the loop thread sends directly, and only other threads queue, under their
own name. -/
def CallPoint.Placed (loopThread t : Nat) : CallPoint → Prop
  | .send _ => t = loopThread
  | .queue (.sendInLoop u _) => u = t ∧ t ≠ loopThread
  | _ => True

def byThread (t : Nat) (xs : List (Nat × List UInt8)) : List (Nat × List UInt8) :=
  xs.filter (fun x => x.1 = t)

/-- The messages of a thread in two parts of a record. -/
@[simp] theorem byThread_append (t : Nat) (xs ys : List (Nat × List UInt8)) :
    byThread t (xs ++ ys) = byThread t xs ++ byThread t ys := List.filter_append ..

private theorem byThread_self (t : Nat) (m : List UInt8) : byThread t [(t,m)] = [(t,m)] := by
  simp [byThread]

private theorem byThread_other {t u : Nat} (h : t ≠ u) (m : List UInt8) : byThread u [(t,m)] = [] := by
  simp [byThread,h]

/-- Not the assertion of `sendInLoop` and none of `Buffer`. -/
def ConnFault.Elsewhere (e : ConnFault) : Prop :=
  e ≠ .sendInLoop ∧ ∀ site, e ≠ .buffer (.assertion site)

namespace Session
variable {s u : Session}

def queued (s : Session) : List (Nat × List UInt8) := s.ioQueue.filterMap ConnFunctor.message?

def inCall (s : Session) (t : Nat) : List (Nat × List UInt8) :=
  ((s.calls t).bind (CallPoint.message? t)).toList

/-- No byte is lost, duplicated or reordered, and the executed messages of each
thread are the first ones it sent, in its order. -/
structure StreamIntact (s : Session) : Prop where
  bytes : s.accepted ++ s.conn.outputBuffer.readable = (s.executed.map Prod.snd).flatten
  order : ∀ t, byThread t s.executed <+: byThread t s.sent

structure Bytes (s : Session) : Prop where
  input : s.conn.inputBuffer.WF
  output : s.conn.outputBuffer.WF
  stream : s.accepted ++ s.conn.outputBuffer.readable = (s.executed.map Prod.snd).flatten

/-- Every send behind the test of `state_` is executed, queued, or still in its call. -/
structure Order (s : Session) : Prop where
  conserved : ∀ t, byThread t (s.executed ++ s.queued) ++ s.inCall t = byThread t s.sent
  foreign : ∀ x ∈ s.queued, x.1 ≠ s.loopThread
  placed : ∀ t p, s.calls t = some p → p.Placed s.loopThread t

/-- The two invariants are what the stream needs. -/
theorem intact_of (hb : s.Bytes) (ho : s.Order) : s.StreamIntact := by
  refine ⟨hb.stream,?_⟩
  intro t
  rw [← ho.conserved t,byThread_append,List.append_assoc]
  exact List.prefix_append _ _

/-- An established connection has sent nothing. -/
theorem established_bytes (owner : Owner) (loopThread : Nat) (sockfd : Int) (mark : Nat) :
    (established owner loopThread sockfd mark).Bytes := by
  refine ⟨Buffer.initial_wf,Buffer.initial_wf,?_⟩
  apply List.length_eq_zero_iff.mp
  exact Buffer.initial_wf.length_readable.trans (by rw [Buffer.initial_wf.readableBytes_eq]; rfl)

/-- No send is on its way in it. -/
theorem established_order (owner : Owner) (loopThread : Nat) (sockfd : Int) (mark : Nat) :
    (established owner loopThread sockfd mark).Order :=
  ⟨fun _ => rfl,fun _ h => (List.not_mem_nil h).elim,fun _ _ h => (Option.some_ne_none _ h.symm).elim⟩

/-- What `Bytes` reads. -/
theorem Bytes.of_eq (h : s.Bytes) (hi : u.conn.inputBuffer.WF)
    (ho : u.conn.outputBuffer = s.conn.outputBuffer) (ha : u.accepted = s.accepted)
    (he : u.executed = s.executed) : u.Bytes :=
  ⟨hi,by rw [ho]; exact h.output,by rw [ho,ha,he]; exact h.stream⟩

/-- What `Order` reads. -/
theorem Order.of_eq (h : s.Order) (hq : u.queued = s.queued) (he : u.executed = s.executed)
    (hc : u.calls = s.calls) (hs : u.sent = s.sent) (hl : u.loopThread = s.loopThread) : u.Order := by
  refine ⟨?_,?_,?_⟩
  · intro t
    rw [he,hq,hs,inCall,hc]
    exact h.conserved t
  · rw [hq,hl]
    exact h.foreign
  · rw [hc,hl]
    exact h.placed

private theorem queued_append_notes {notes : List ConnFunctor} (hn : ∀ f ∈ notes, f.isNote = true) :
    (s.ioQueue ++ notes).filterMap ConnFunctor.message? = s.queued := by
  have hnone : notes.filterMap ConnFunctor.message? = [] := by
    apply List.filterMap_eq_nil_iff.mpr
    intro f hf
    cases f <;> first | rfl | exact nomatch hn _ hf
  rw [List.filterMap_append,hnone,List.append_nil]
  rfl

/-- Bytes that move to the kernel or the buffer leave the order of the sends alone. -/
theorem Order.moved (h : s.Order) (bytes : List UInt8) (b : Buffer) (ch : Channel ConnHandler)
    {notes : List ConnFunctor} (shut : Nat) (hn : ∀ f ∈ notes, f.isNote = true) :
    (s.moved bytes b ch notes shut).Order :=
  h.of_eq (queued_append_notes hn) rfl rfl rfl rfl

private theorem Order.setCall (h : s.Order) {t : Nat} {p : Option CallPoint}
    (hm : p.bind (CallPoint.message? t) = (s.calls t).bind (CallPoint.message? t))
    (hp : ∀ q, p = some q → q.Placed s.loopThread t) : (s.setCall t p).Order := by
  refine ⟨?_,h.foreign,?_⟩
  · intro v
    have hv : (s.setCall t p).inCall v = s.inCall v := by
      simp only [inCall,Session.setCall,Function.update_apply]
      split
      · rename_i hvt
        rw [hvt,hm]
      · rfl
    rw [hv]
    exact h.conserved v
  · exact setCall_forall (P := fun v p => ∀ q, p = some q → q.Placed s.loopThread v) h.placed hp

private theorem Order.executes (h : s.Order) {t : Nat} {m : List UInt8}
    (hc : ∀ v, byThread v (u.executed ++ [(t,m)] ++ u.queued) ++ u.inCall v =
      byThread v (s.executed ++ s.queued) ++ s.inCall v)
    (hq : ∀ x ∈ u.queued, x ∈ s.queued) (hs : u.sent = s.sent) (hl : u.loopThread = s.loopThread)
    (hp : ∀ v p, u.calls v = some p → s.calls v = some p) : (u.started t m).Order := by
  refine ⟨?_,?_,?_⟩
  · intro v
    rw [show (u.started t m).sent = s.sent from hs,← h.conserved v]
    exact hc v
  · intro x hx
    rw [show (u.started t m).loopThread = s.loopThread from hl]
    exact h.foreign x (hq x hx)
  · intro v p hv
    rw [show (u.started t m).loopThread = s.loopThread from hl]
    exact h.placed v p (hp v p hv)

private theorem sendInLoop_keeps (hb : s.Bytes) {t : Nat} {message : Message}
    (ho : (s.started t message.bytes).Order) {n : Int} (hn : WriteAnswer n message.bytes.length) :
    Meets (fun u => u.Bytes ∧ u.Order) ConnFault.Elsewhere (s.sendInLoop t message n) := by
  apply (sendInLoop_spec hb.output t message hn).mono
  · rintro u ⟨k,b,ch,notes,rfl,hwf,hr,hfirst,_,_,hnotes⟩
    refine ⟨⟨hb.input,hwf,?_⟩,ho.moved _ _ _ _ hnotes⟩
    change (s.accepted ++ message.bytes.take k) ++ b.readable =
      ((s.executed ++ [(t,message.bytes)]).map Prod.snd).flatten
    have hstream := hb.stream
    rw [hr,List.map_append,List.flatten_append,← hstream]
    rcases hfirst with rfl | hempty
    · simp
    · simp [hempty]
  · rintro e rfl
    exact ⟨by simp,by simp⟩

private theorem handleWrite_keeps (hb : s.Bytes) (ho : s.Order) {n : Int}
    (hn : WriteAnswer n s.conn.outputBuffer.readableBytes) :
    Meets (fun u => u.Bytes ∧ u.Order) ConnFault.Elsewhere (s.handleWrite n) := by
  obtain ⟨u,hu,⟨rfl,_⟩ | ⟨b,ch,notes,shut,_,_,rfl,hwf,hr,_,hnotes⟩⟩ := handleWrite_spec hb.output hn
  · rw [hu]
    exact ⟨hb,ho⟩
  · rw [hu]
    refine ⟨⟨hb.input,hwf,?_⟩,ho.moved _ _ _ _ hnotes⟩
    change (s.accepted ++ s.conn.outputBuffer.readable.take n.toNat) ++ b.readable = _
    rw [hr,List.append_assoc,List.take_append_drop]
    exact hb.stream

private theorem queued_append_destroyed :
    (s.ioQueue ++ [ConnFunctor.connectDestroyed]).filterMap ConnFunctor.message? = s.queued := by
  rw [List.filterMap_append]
  exact List.append_nil _

private theorem handleClose_keeps (hb : s.Bytes) (ho : s.Order) :
    Meets (fun u => u.Bytes ∧ u.Order) ConnFault.Elsewhere s.handleClose := by
  apply handleClose_spec.mono
  · rintro u ⟨_,⟨_,rfl⟩ | ⟨_,_,rfl⟩⟩
    · exact ⟨hb.of_eq hb.input rfl rfl rfl,ho.of_eq rfl rfl rfl rfl rfl⟩
    · exact ⟨hb.of_eq hb.input rfl rfl rfl,ho.of_eq queued_append_destroyed rfl rfl rfl rfl⟩
  · rintro e (⟨_,rfl⟩ | ⟨_,_,rfl | rfl⟩) <;> exact ⟨by simp,by simp⟩

private theorem shutdownInLoop_keeps (hb : s.Bytes) (ho : s.Order) :
    s.shutdownInLoop.Bytes ∧ s.shutdownInLoop.Order := by
  unfold shutdownInLoop
  split
  · exact ⟨hb.of_eq hb.input rfl rfl rfl,ho.of_eq rfl rfl rfl rfl rfl⟩
  · exact ⟨hb,ho⟩

private theorem setCall_inCall (t v : Nat) (p : Option CallPoint) :
    (s.setCall t p).inCall v = if v = t then (p.bind (CallPoint.message? t)).toList else s.inCall v := by
  simp only [inCall,setCall,Function.update_apply]
  split
  · rename_i hv
    rw [hv]
  · rfl

private theorem Order.requested (h : s.Order) {t : Nat} (ht : s.calls t = none) {message : Message}
    {p : CallPoint} (hm : p.message? t = some (t,message.bytes)) (hp : p.Placed s.loopThread t) :
    ((s.setCall t (some p)).requested t message.bytes).Order := by
  refine ⟨?_,h.foreign,?_⟩
  · intro v
    change byThread v (s.executed ++ s.queued) ++ (s.setCall t (some p)).inCall v =
      byThread v (s.sent ++ [(t,message.bytes)])
    rw [setCall_inCall,byThread_append v s.sent,← h.conserved v]
    by_cases hv : v = t
    · subst hv
      simp [inCall,ht,hm,byThread_self]
    · simp [hv,byThread_other (Ne.symm hv)]
  · exact setCall_forall (P := fun v p => ∀ q, p = some q → q.Placed s.loopThread v) h.placed
      (by rintro q ⟨⟩; exact hp)

private theorem Order.executesOwn (h : s.Order) {t : Nat} {message : Message}
    (hc : s.calls t = some (.send message)) : ((s.setCall t none).started t message.bytes).Order := by
  have hl : t = s.loopThread := h.placed t _ hc
  refine h.executes (u := s.setCall t none) ?_ (fun _ => id) rfl rfl ?_
  · intro v
    rw [setCall_inCall]
    by_cases hv : v = t
    · subst hv
      have hnone : byThread v s.queued = [] := by
        apply List.filter_eq_nil_iff.mpr
        intro x hx
        have hx' := h.foreign x hx
        simpa [hl] using hx'
      have hq : byThread v (s.setCall v none).queued = [] := hnone
      have hcall : s.inCall v = [(v,message.bytes)] := by
        rw [inCall,hc]
        rfl
      rw [if_pos rfl,byThread_append,byThread_append,hq,byThread_self,byThread_append,hnone,hcall]
      simp [Session.setCall]
    · rw [if_neg hv,byThread_append,byThread_append,byThread_other (Ne.symm hv),List.append_nil,
        ← byThread_append]
      rfl
  · intro v p hp
    simp only [Session.setCall,Function.update_apply] at hp
    split at hp
    · cases hp
    · exact hp

private theorem Order.queueInLoop (h : s.Order) {t : Nat} {f : ConnFunctor}
    (hc : s.calls t = some (.queue f)) : ((s.setCall t none).queueInLoop f).Order := by
  have hown (v : Nat) : byThread v f.message?.toList = if v = t then f.message?.toList else [] := by
    cases f with
    | sendInLoop w message =>
      obtain ⟨rfl,_⟩ := h.placed t _ hc
      by_cases hv : v = w
      · rw [if_pos hv,hv]; exact byThread_self ..
      · rw [if_neg hv]; exact byThread_other (Ne.symm hv) _
    | _ => simp [ConnFunctor.message?,byThread]
  have hqueue : ((s.setCall t none).queueInLoop f).queued = s.queued ++ f.message?.toList := by
    simp only [queued,Session.queueInLoop,Session.setCall,List.filterMap_append]
    cases f <;> rfl
  refine ⟨?_,?_,?_⟩
  · intro v
    change byThread v (s.executed ++ _) ++ (s.setCall t none).inCall v = byThread v s.sent
    rw [setCall_inCall,← h.conserved v,hqueue,← List.append_assoc,byThread_append,hown]
    by_cases hv : v = t
    · subst hv
      simp [inCall,hc,CallPoint.message?]
    · simp [hv]
  · rw [hqueue]
    intro x hx
    rcases List.mem_append.mp hx with hx | hx
    · exact h.foreign x hx
    · cases f with
      | sendInLoop w message =>
        obtain ⟨rfl,hl⟩ := h.placed t _ hc
        cases List.mem_singleton.mp hx
        exact hl
      | _ => cases hx
  · exact setCall_forall (P := fun v p => ∀ q, p = some q → q.Placed s.loopThread v) h.placed (by simp)

private theorem call_keeps (hb : s.Bytes) (ho : s.Order) {t : Nat} (ht : s.calls t = none) (c : Call) :
    (s.call t c).Bytes ∧ (s.call t c).Order := by
  obtain he | ⟨p,hp,he⟩ | ⟨message,p,hp,he⟩ := s.call_cases t c
  · rw [he]
    exact ⟨hb,ho⟩
  · rw [he]
    refine ⟨hb.of_eq hb.input rfl rfl rfl,ho.setCall ?_ ?_⟩
    · rw [ht]
      rcases hp with rfl | rfl <;> rfl
    · rintro q ⟨⟩
      rcases hp with rfl | rfl <;> trivial
  · rw [he]
    refine ⟨hb.of_eq hb.input rfl rfl rfl,ho.requested ht ?_ ?_⟩
    · rcases hp with ⟨_,rfl⟩ | ⟨_,rfl⟩ <;> rfl
    · rcases hp with ⟨hl,rfl⟩ | ⟨hl,rfl⟩
      · exact hl
      · exact ⟨rfl,hl⟩

private theorem resume_keeps (hb : s.Bytes) (ho : s.Order) {t : Nat} {n : Int}
    (he : s.Enabled (.resume t n)) :
    Meets (fun u => u.Bytes ∧ u.Order) ConnFault.Elsewhere (s.resume t n) := by
  have hquiet {p : CallPoint} (hp : s.calls t = some p) (hm : p.message? t = none) {q : Option CallPoint}
      (hq : q.bind (CallPoint.message? t) = none) (hpl : ∀ r, q = some r → r.Placed s.loopThread t) :
      (s.setCall t q).Order := by
    apply ho.setCall ?_ hpl
    rw [hq,hp]
    exact hm.symm
  unfold resume
  split
  · exact ⟨hb,ho⟩
  · rename_i message hc
    rw [Enabled,hc] at he
    exact sendInLoop_keeps (s := s.setCall t none) (hb.of_eq hb.input rfl rfl rfl) (ho.executesOwn hc) he
  · rename_i hc
    split
    · apply shutdownInLoop_keeps
      · exact hb.of_eq hb.input rfl rfl rfl
      · exact (hquiet hc rfl rfl (by simp)).of_eq rfl rfl rfl rfl rfl
    · refine ⟨hb.of_eq hb.input rfl rfl rfl,?_⟩
      exact (hquiet hc rfl rfl (by rintro r ⟨⟩; trivial)).of_eq rfl rfl rfl rfl rfl
  · rename_i hc
    refine ⟨hb.of_eq hb.input rfl rfl rfl,?_⟩
    exact (hquiet hc rfl rfl (by rintro r ⟨⟩; trivial)).of_eq rfl rfl rfl rfl rfl
  · rename_i f hc
    exact ⟨hb.of_eq hb.input rfl rfl rfl,ho.queueInLoop hc⟩

private theorem functor_keeps (hb : s.Bytes) (ho : s.Order) {f : ConnFunctor} {rest : List ConnFunctor}
    (hq : s.ioQueue = f :: rest) {n : Int}
    (hn : ∀ t message, f = .sendInLoop t message → WriteAnswer n message.bytes.length) :
    Meets (fun u => u.Bytes ∧ u.Order) ConnFault.Elsewhere ({ s with ioQueue := rest }.runFunctor n f) := by
  have hqueued : s.queued = f.message?.toList ++ rest.filterMap ConnFunctor.message? := by
    rw [queued,hq]
    cases f <;> rfl
  have hb' : ({ s with ioQueue := rest } : Session).Bytes := hb.of_eq hb.input rfl rfl rfl
  have ho' (hm : f.message? = none) : ({ s with ioQueue := rest } : Session).Order := by
    rw [hm] at hqueued
    exact ho.of_eq hqueued.symm rfl rfl rfl rfl
  cases f with
  | sendInLoop t message =>
    apply sendInLoop_keeps hb' ?_ (hn t message rfl)
    refine ho.executes (u := { s with ioQueue := rest }) ?_ ?_ rfl rfl (fun _ _ => id)
    · intro v
      rw [hqueued,List.append_assoc]
      rfl
    · intro x hx
      rw [hqueued]
      exact List.mem_append_right _ hx
  | shutdownInLoop => exact shutdownInLoop_keeps hb' (ho' rfl)
  | forceCloseInLoop =>
    change Meets _ _ (if _ then _ else _)
    split
    · exact handleClose_keeps hb' (ho' rfl)
    · exact ⟨hb',ho' rfl⟩
  | connectDestroyed =>
    apply connectDestroyed_spec.mono
    · rintro u ⟨_,rfl⟩
      exact ⟨hb'.of_eq hb'.input rfl rfl rfl,(ho' rfl).of_eq rfl rfl rfl rfl rfl⟩
    · rintro e ⟨_,rfl⟩
      exact ⟨by simp,by simp⟩
  | writeComplete cb => exact ⟨hb',ho' rfl⟩
  | highWaterMark cb len => exact ⟨hb',ho' rfl⟩

private theorem handleRead_keeps (hb : s.Bytes) (ho : s.Order) {r : ReadvResult}
    (hr : r.count ≤ s.conn.inputBuffer.iovecBytes) :
    Meets (fun u => u.Bytes ∧ u.Order) ConnFault.Elsewhere (s.handleRead r) := by
  have hread := (Buffer.readFd_spec hb.input hr).mono (fun _ => id)
    (fun e (he : e = .lengthError) => (⟨by simp [he],by simp [he]⟩ : (ConnFault.buffer e).Elsewhere))
  apply hread.mapError.bind
  rintro ⟨b,n,errno⟩ ⟨hk,_,_⟩
  have hb' : (s.setInput b).Bytes := hb.of_eq hk.1 rfl rfl rfl
  have ho' : (s.setInput b).Order := ho.of_eq rfl rfl rfl rfl rfl
  dsimp only
  split
  · exact handleClose_keeps hb' ho'
  · exact ⟨hb',ho'⟩

/-- Every step keeps bytes and order, up to a fault elsewhere. -/
theorem code_keeps_stream (hb : s.Bytes) (ho : s.Order) {a : ConnStep} (he : s.Enabled a) :
    Meets (fun u => u.Bytes ∧ u.Order) ConnFault.Elsewhere (s.code a) := by
  cases a with
  | call t c => exact call_keeps hb ho he c
  | resume t n => exact resume_keeps hb ho he
  | event revents => exact ⟨hb.of_eq hb.input rfl rfl rfl,ho.of_eq rfl rfl rfl rfl rfl⟩
  | handler r n =>
    obtain ⟨_,he⟩ := he
    rw [code]
    split
    · exact ⟨hb,ho⟩
    · rename_i h rest hd
      rw [hd] at he
      have hb' : ({ s with dispatching := rest } : Session).Bytes := hb.of_eq hb.input rfl rfl rfl
      have ho' : ({ s with dispatching := rest } : Session).Order := ho.of_eq rfl rfl rfl rfl rfl
      cases h with
      | handleRead => exact handleRead_keeps hb' ho' he
      | handleWrite => exact handleWrite_keeps hb' ho' he
      | handleClose => exact handleClose_keeps hb' ho'
      | handleError => exact ⟨hb',ho'⟩
  | functor n =>
    obtain ⟨_,_,he⟩ := he
    rw [code]
    split
    · exact ⟨hb,ho⟩
    · rename_i f rest hq
      apply functor_keeps hb ho hq
      rintro t message rfl
      rw [hq] at he
      exact he
  | handleWrite n => exact handleWrite_keeps hb ho he.2
  | removeConnectionInLoop =>
    apply removeConnectionInLoop_spec.mono
    · rintro u ⟨_,rfl⟩
      exact ⟨hb.of_eq hb.input rfl rfl rfl,ho.of_eq queued_append_destroyed rfl rfl rfl rfl⟩
    · rintro e ⟨_,rfl⟩
      exact ⟨by simp,by simp⟩
  | input op =>
    have hop := (BufferOp.run_spec hb.input op he.2).mono (fun _ => id)
      (fun e (he : e = .lengthError) => (⟨by simp [he],by simp [he]⟩ : (ConnFault.buffer e).Elsewhere))
    apply Meets.map
    apply hop.mapError.mono ?_ (fun _ => id)
    rintro out ⟨hwf,_⟩
    exact ⟨hb.of_eq hwf rfl rfl rfl,ho.of_eq rfl rfl rfl rfl rfl⟩
  | setWriteCompleteCallback cb => exact ⟨hb.of_eq hb.input rfl rfl rfl,ho.of_eq rfl rfl rfl rfl rfl⟩
  | setHighWaterMarkCallback cb mark =>
    exact ⟨hb.of_eq hb.input rfl rfl rfl,ho.of_eq rfl rfl rfl rfl rfl⟩

/-- So does every run. -/
theorem exec_stream {owner : Owner} {loopThread : Nat} {sockfd : Int} {mark : Nat} {as : List ConnStep}
    (ha : machine.Admissible (established owner loopThread sockfd mark) as) :
    Meets (fun s => s.Bytes ∧ s.Order) ConnFault.Elsewhere (machine.exec (established owner loopThread sockfd mark) as) :=
  machine.exec_invariant (fun _ _ h he => code_keeps_stream h.1 h.2 he) as _
    ⟨established_bytes owner loopThread sockfd mark,established_order owner loopThread sockfd mark⟩ ha

/-- At every point of every run of a connection the stream is intact: what the kernel has accepted, with what is
buffered behind it, are the messages in `executed`, the record that `sendInLoop` writes at its entry, before it knows
what becomes of the message. A run is cut short only by the vector's length error or by an assertion of the
closing code. -/
theorem output_stream_intact (owner : Owner) (loopThread : Nat) (sockfd : Int) (mark : Nat)
    (as : List ConnStep) (ha : machine.Admissible (established owner loopThread sockfd mark) as) :
    (∀ s, machine.exec (established owner loopThread sockfd mark) as = .ok s → s.StreamIntact) ∧
    ∀ e, machine.exec (established owner loopThread sockfd mark) as = .error e → e.Elsewhere := by
  exact meets_iff.mp ((exec_stream ha).mono (fun s h => intact_of h.1 h.2) (fun _ => id))

private def twoSenders : List ConnStep :=
  [.call 7 (.send ⟨[1,2,3],by decide⟩),.call 0 (.send ⟨[9,8],by decide⟩),.resume 0 1,.resume 7 0,
    .functor (-1),.handleWrite 2,.call 7 (.send ⟨[4],by decide⟩),.handleWrite 2]

/-- A direct write cut short, another thread's message behind it, and two drains. -/
theorem output_stream_intact_two_senders :
    machine.Admissible (established .client 0 5 0) twoSenders ∧
    ∃ s, machine.exec (established .client 0 5 0) twoSenders = .ok s ∧ s.StreamIntact := by
  have ha : machine.Admissible (established .client 0 5 0) twoSenders := by decide +kernel
  obtain ⟨s,hs,-⟩ := Meets.ok_of_no_error (P := fun _ : Session => True) (Q := fun _ => False)
    (x := machine.exec (established .client 0 5 0) twoSenders) (by decide +kernel) fun _ => id
  exact ⟨ha,s,hs,(output_stream_intact .client 0 5 0 twoSenders ha).1 s hs⟩

end Session
end LearningMuduo.Tcp
