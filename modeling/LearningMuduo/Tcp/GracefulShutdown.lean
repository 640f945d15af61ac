import LearningMuduo.Tcp.WriteInterest

/-! The half-close of `shutdown`: it waits for the output buffer, through the write
interest of the channel. -/
namespace LearningMuduo.Tcp
open Library Reactor

namespace Session
variable {s u : Session}

/-- The first half-close is still to come, there is nothing to wait for, and yet the write
interest is on. -/
def Stuck (s : Session) : Prop :=
  s.shutdownWrites = 0 ∧ s.conn.channel.isWriting ∧ s.conn.outputBuffer.readable = []

/-- `write` takes all that is left to write, and then `handleWrite` asks for the half-close. -/
def DrainsDisconnecting (s : Session) (n : Int) : Prop :=
  s.shutdownWrites = 0 ∧ s.conn.state = .kDisconnecting ∧ s.conn.channel.isWriting ∧ 0 < n ∧
    n = s.conn.outputBuffer.readableBytes

instance (s : Session) : Decidable s.Stuck := inferInstanceAs (Decidable (_ ∧ _ ∧ _))
instance (s : Session) (n : Int) : Decidable (s.DrainsDisconnecting n) :=
  inferInstanceAs (Decidable (_ ∧ _ ∧ _ ∧ _ ∧ _))

/-- Before the first half-close, `shutdownInLoop` finds the write interest off or output
in the buffer, and `handleWrite` does not come to call it. -/
def HalfCloseWorks (s : Session) : ConnStep → Prop
  | .resume t _ => s.calls t = some .shutdown ∧ t = s.loopThread → ¬ s.Stuck
  | .functor _ => s.ioQueue.head? = some .shutdownInLoop → ¬ s.Stuck
  | .handleWrite n => ¬ s.DrainsDisconnecting n
  | .handler _ n => s.dispatching.head? = some .handleWrite → ¬ s.DrainsDisconnecting n
  | _ => True

instance (s : Session) : (a : ConnStep) → Decidable (s.HalfCloseWorks a)
  | .resume t _ => inferInstanceAs (Decidable (s.calls t = some .shutdown ∧ t = s.loopThread → ¬ s.Stuck))
  | .functor _ => inferInstanceAs (Decidable (s.ioQueue.head? = some .shutdownInLoop → ¬ s.Stuck))
  | .handleWrite n => inferInstanceAs (Decidable (¬ s.DrainsDisconnecting n))
  | .handler _ n => inferInstanceAs (Decidable (s.dispatching.head? = some .handleWrite → ¬ s.DrainsDisconnecting n))
  | .call .. | .event _ | .removeConnectionInLoop | .input _ | .setWriteCompleteCallback _
  | .setHighWaterMarkCallback .. => inferInstanceAs (Decidable True)

/-- Closed, or on the way to it. -/
def Down (s : Session) : Prop := s.closeCallbacks ≠ 0 ∨ s.conn.state = .kDisconnecting

/-- A half-close was asked for: it was made, or it is queued, or buffered output holds it
back. -/
def Closing (s : Session) : Prop :=
  s.closeCallbacks ≠ 0 ∨ s.conn.state = .kDisconnecting ∧ (s.shutdownWrites ≠ 0 ∨
    .shutdownInLoop ∈ s.ioQueue ∨ s.conn.channel.isWriting ∧ s.conn.outputBuffer.readable ≠ [])

/-- What a step hands on that does not belong to a call of `shutdown`. -/
structure Carries (s u : Session) : Prop where
  calls : u.calls = s.calls
  down : s.Down → u.Down
  closing : s.Closing → u.Closing

/-- Nothing is lost where nothing happens. -/
theorem Carries.refl (s : Session) : s.Carries s := ⟨rfl,id,id⟩

/-- What two steps carry over is carried over by both. -/
theorem Carries.trans {v : Session} (h : s.Carries u) (h' : u.Carries v) : s.Carries v :=
  ⟨h'.calls.trans h.calls,fun hd => h'.down (h.down hd),fun hc => h'.closing (h.closing hc)⟩

private theorem Closing.mono (h : s.Closing) (hc : u.closeCallbacks = s.closeCallbacks)
    (hs : u.conn.state = s.conn.state) (hshut : s.shutdownWrites ≠ 0 → u.shutdownWrites ≠ 0)
    (hq : ConnFunctor.shutdownInLoop ∈ s.ioQueue → .shutdownInLoop ∈ u.ioQueue)
    (hb : s.conn.state = .kDisconnecting → s.conn.channel.isWriting → s.conn.outputBuffer.readable ≠ [] →
      u.shutdownWrites ≠ 0 ∨ u.conn.channel.isWriting ∧ u.conn.outputBuffer.readable ≠ []) : u.Closing := by
  rcases h with h | ⟨hd,h | h | ⟨hw,hne⟩⟩
  · exact .inl (hc ▸ h)
  · exact .inr ⟨hs.trans hd,.inl (hshut h)⟩
  · exact .inr ⟨hs.trans hd,.inr (.inl (hq h))⟩
  · rcases hb hd hw hne with h | h
    · exact .inr ⟨hs.trans hd,.inl h⟩
    · exact .inr ⟨hs.trans hd,.inr (.inr h)⟩

private theorem Down.mono (h : s.Down) (hc : u.closeCallbacks = s.closeCallbacks)
    (hs : u.conn.state = s.conn.state) : u.Down := by
  rcases h with h | h
  · exact .inl (hc ▸ h)
  · exact .inr (hs.trans h)

private theorem Carries.of_eq (hcalls : u.calls = s.calls) (hc : u.closeCallbacks = s.closeCallbacks)
    (hconn : u.conn.state = s.conn.state ∧ u.conn.channel.events = s.conn.channel.events ∧
      u.conn.outputBuffer = s.conn.outputBuffer) (hshut : u.shutdownWrites = s.shutdownWrites)
    (hq : ConnFunctor.shutdownInLoop ∈ s.ioQueue → .shutdownInLoop ∈ u.ioQueue) : s.Carries u := by
  obtain ⟨hs,he,hb⟩ := hconn
  refine ⟨hcalls,fun h => h.mono hc hs,fun h => h.mono hc hs (by rw [hshut]; exact id) hq ?_⟩
  intro _ hw hne
  refine .inr ⟨?_,hb ▸ hne⟩
  rw [Channel.isWriting,he]
  exact hw

private theorem Carries.of_closed (hcalls : u.calls = s.calls) (hc : u.closeCallbacks ≠ 0) : s.Carries u :=
  ⟨hcalls,fun _ => .inl hc,fun _ => .inl hc⟩

private theorem sendInLoop_carries (h : s.conn.outputBuffer.WF) (t : Nat) {message : Message} {n : Int}
    (hn : WriteAnswer n message.bytes.length) :
    Meets s.Carries (fun _ => True) (s.sendInLoop t message n) := by
  apply (sendInLoop_spec h t message hn).mono ?_ (fun _ _ => trivial)
  rintro u ⟨k,b,ch,notes,rfl,-,hr,-,-,hch,-⟩
  refine ⟨rfl,fun hd => hd.mono rfl rfl,fun hc => hc.mono rfl rfl id ?_ ?_⟩
  · exact List.mem_append_left notes
  · intro _ hw hne
    refine .inr ⟨?_,?_⟩
    · rcases hch with rfl | rfl
      · exact hw
      · exact isWriting_setInterest hw (by simp)
    · change b.readable ≠ []
      rw [hr]
      exact List.append_ne_nil_of_left_ne_nil hne _

private theorem handleWrite_carries (h : s.conn.outputBuffer.WF) {n : Int}
    (hn : WriteAnswer n s.conn.outputBuffer.readableBytes) (hg : ¬ s.DrainsDisconnecting n) :
    Meets s.Carries (fun _ => True) (s.handleWrite n) := by
  obtain ⟨u,hu,⟨rfl,-⟩ | ⟨b,ch,notes,shut,hw,h0,rfl,-,hr,hch,-⟩⟩ := handleWrite_spec h hn
  · rw [hu]
    exact Carries.refl _
  rw [hu]
  have hmore : s.shutdownWrites ≠ 0 → s.shutdownWrites+shut ≠ 0 := by omega
  refine ⟨rfl,fun hd => hd.mono rfl rfl,fun hc => hc.mono rfl rfl hmore ?_ ?_⟩
  · exact List.mem_append_left notes
  · intro hs _ _
    by_cases h1 : s.shutdownWrites = 0
    · -- the guard leaves the case in which something stays in the buffer
      have hlt : n.toNat < s.conn.outputBuffer.readable.length := by
        rw [h.length_readable]
        have hne : n ≠ s.conn.outputBuffer.readableBytes := fun he => hg ⟨h1,hs,hw,h0,he⟩
        have hle := hn.2
        omega
      refine .inr ⟨?_,?_⟩
      · rcases hch with rfl | rfl
        · exact hw
        · exact isWriting_setInterest hw (by simp)
      · change b.readable ≠ []
        rw [hr]
        exact mt List.drop_eq_nil_iff.mp (by omega)
    · exact .inl (hmore h1)

private theorem handleClose_carries : Meets s.Carries (fun _ => True) s.handleClose := by
  apply handleClose_spec.mono ?_ (fun _ _ => trivial)
  rintro u ⟨_,⟨_,rfl⟩ | ⟨_,_,rfl⟩⟩
  all_goals exact Carries.of_closed rfl (Nat.succ_ne_zero _)

private theorem handleRead_carries (r : ReadvResult) : Meets s.Carries (fun _ => True) (s.handleRead r) := by
  apply (meets_true ((s.conn.inputBuffer.readFd r).mapError ConnFault.buffer)).bind
  rintro ⟨b,n,errno⟩ _
  have hset : s.Carries (s.setInput b) := .of_eq rfl rfl ⟨rfl,rfl,rfl⟩ rfl id
  dsimp only
  split
  · exact handleClose_carries.mono (fun _ => hset.trans) (fun _ => id)
  · exact hset

/-- `shutdownInLoop` makes the half-close, or leaves it to the output in the buffer. -/
theorem shutdownInLoop_closing (hd : s.Down) (hg : ¬ s.Stuck) : s.shutdownInLoop.Closing := by
  rcases hd with hd | hd
  · refine .inl ?_
    unfold shutdownInLoop
    split <;> exact hd
  · unfold shutdownInLoop
    split
    · exact .inr ⟨hd,.inl (Nat.succ_ne_zero _)⟩
    · next hw =>
      rw [not_not] at hw
      by_cases h1 : s.shutdownWrites = 0
      · exact .inr ⟨hd,.inr (.inr ⟨hw,fun hb => hg ⟨h1,hw,hb⟩⟩)⟩
      · exact .inr ⟨hd,.inl h1⟩

private theorem shutdownInLoop_calls : s.shutdownInLoop.calls = s.calls := by
  unfold shutdownInLoop
  split <;> rfl

private theorem shutdownInLoop_down (hd : s.Down) : s.shutdownInLoop.Down := by
  unfold shutdownInLoop
  split <;> exact hd

private theorem Closing.down (h : s.Closing) : s.Down := h.imp id And.left

private theorem functor_carries (h : s.Watched) {f : ConnFunctor} {rest : List ConnFunctor}
    (hq : s.ioQueue = f :: rest) {n : Int} (hn : FunctorAnswer n (f :: rest))
    (hg : f = .shutdownInLoop → ¬ s.Stuck) :
    Meets s.Carries (fun _ => True) ({ s with ioQueue := rest }.runFunctor n f) := by
  have hpop (hf : f ≠ .shutdownInLoop) : s.Carries { s with ioQueue := rest } := by
    refine .of_eq rfl rfl ⟨rfl,rfl,rfl⟩ rfl ?_
    intro hm
    rw [hq] at hm
    exact (List.mem_cons.mp hm).resolve_left fun he => hf he.symm
  cases f with
  | sendInLoop t message =>
    exact (sendInLoop_carries (s := { s with ioQueue := rest }) h.output t hn).mono
      (fun _ => (hpop (by simp)).trans) (fun _ => id)
  | shutdownInLoop =>
    refine ⟨shutdownInLoop_calls,fun hd => shutdownInLoop_down hd,fun hc => ?_⟩
    exact shutdownInLoop_closing (s := { s with ioQueue := rest }) hc.down (hg rfl)
  | forceCloseInLoop =>
    change Meets _ _ (if _ then _ else _)
    split
    · exact handleClose_carries.mono (fun _ => (hpop (by simp)).trans) (fun _ => id)
    · exact hpop (by simp)
  | connectDestroyed =>
    have hclosed : s.closeCallbacks ≠ 0 := by
      intro h0
      apply (h.pending h0).2
      rw [hq]
      exact List.mem_cons_self
    apply connectDestroyed_spec.mono ?_ (fun _ _ => trivial)
    rintro u ⟨_,rfl⟩
    exact .of_closed rfl hclosed
  | writeComplete cb => exact hpop (by simp)
  | highWaterMark cb len => exact hpop (by simp)

/-- The steps that do not enter or continue a public call. -/
theorem code_carries (h : s.Watched) {a : ConnStep} (he : s.Enabled a) (hg : s.HalfCloseWorks a)
    (hcall : ∀ t c, a ≠ .call t c) (hresume : ∀ t n, a ≠ .resume t n) :
    Meets s.Carries (fun _ => True) (s.code a) := by
  cases a with
  | call t c => exact (hcall t c rfl).elim
  | resume t n => exact (hresume t n rfl).elim
  | event revents => exact .of_eq rfl rfl ⟨rfl,rfl,rfl⟩ rfl id
  | handler r n =>
    obtain ⟨-,he⟩ := he
    rw [code]
    split
    · exact .refl s
    · next handler rest hd =>
      rw [hd] at he
      have hpop : s.Carries { s with dispatching := rest } := .of_eq rfl rfl ⟨rfl,rfl,rfl⟩ rfl id
      cases handler with
      | handleRead => exact (handleRead_carries r).mono (fun _ => hpop.trans) (fun _ => id)
      | handleWrite =>
        have hw : ¬ s.DrainsDisconnecting n := hg (by rw [hd]; rfl)
        exact (handleWrite_carries (s := { s with dispatching := rest }) h.output he hw).mono
          (fun _ => hpop.trans) (fun _ => id)
      | handleClose => exact handleClose_carries.mono (fun _ => hpop.trans) (fun _ => id)
      | handleError => exact hpop
  | functor n =>
    obtain ⟨-,-,he⟩ := he
    rw [code]
    split
    · exact .refl s
    · next f rest hq =>
      rw [hq] at he
      refine functor_carries h hq he ?_
      rintro rfl
      exact hg (by rw [hq]; rfl)
  | handleWrite n => exact handleWrite_carries h.output he.2 hg
  | removeConnectionInLoop =>
    have hclosed : s.closeCallbacks ≠ 0 := fun h0 => he (h.pending h0).1
    apply removeConnectionInLoop_spec.mono ?_ (fun _ _ => trivial)
    rintro u ⟨_,rfl⟩
    exact .of_closed rfl hclosed
  | input op =>
    apply Meets.map
    apply (meets_true ((op.run s.conn.inputBuffer).mapError ConnFault.buffer)).mono ?_ (fun _ => id)
    intro out _
    exact .of_eq rfl rfl ⟨rfl,rfl,rfl⟩ rfl id
  | setWriteCompleteCallback cb => exact .of_eq rfl rfl ⟨rfl,rfl,rfl⟩ rfl id
  | setHighWaterMarkCallback cb mark => exact .of_eq rfl rfl ⟨rfl,rfl,rfl⟩ rfl id

private theorem Closing.setCall (h : s.Closing) (v : Nat) (p : Option CallPoint) : (s.setCall v p).Closing :=
  h.mono rfl rfl id id fun _ hw hne => .inr ⟨hw,hne⟩

private theorem Closing.disconnecting (h : s.Closing) : (s.setState .kDisconnecting).Closing :=
  h.imp id fun hd => ⟨rfl,hd.2⟩

private theorem requested_carries (v : Nat) (message : List UInt8) : s.Carries (s.requested v message) :=
  .of_eq rfl rfl ⟨rfl,rfl,rfl⟩ rfl id

private theorem queueInLoop_carries (f : ConnFunctor) : s.Carries (s.queueInLoop f) :=
  .of_eq rfl rfl ⟨rfl,rfl,rfl⟩ rfl (List.mem_append_left _)

private theorem call_closing (h : s.Closing) (v : Nat) (c : Call) : (s.call v c).Closing := by
  obtain he | ⟨p,-,he⟩ | ⟨message,p,-,he⟩ := s.call_cases v c
  · rw [he]
    exact h
  · rw [he]
    exact h.setCall v _
  · rw [he]
    exact (requested_carries v message.bytes).closing (h.setCall v _)

private theorem resume_closing (hw : s.Watched) (h : s.Closing) {v : Nat} {n : Int}
    (he : CallAnswer n (s.calls v)) (hg : s.HalfCloseWorks (.resume v n)) :
    Meets Closing (fun _ => True) (s.resume v n) := by
  unfold resume
  split
  · exact h
  · next message hc =>
    rw [hc] at he
    exact (sendInLoop_carries (s := s.setCall v none) hw.output v he).mono
      (fun _ hcar => hcar.closing (h.setCall v none)) (fun _ => id)
  · next hc =>
    split
    · next hl => exact shutdownInLoop_closing (.inr rfl) (hg ⟨hc,hl⟩)
    · exact (h.setCall v _).disconnecting
  · exact (h.setCall v _).disconnecting
  · next f hc => exact (queueInLoop_carries f).closing (h.setCall v none)

/-- Once a half-close was asked for it is not forgotten. -/
theorem code_closing (hw : s.Watched) (h : s.Closing) {a : ConnStep} (he : s.Enabled a)
    (hg : s.HalfCloseWorks a) : Meets Closing (fun _ => True) (s.code a) := by
  by_cases hc : ∃ v c, a = .call v c
  · obtain ⟨v,c,rfl⟩ := hc
    exact call_closing h v c
  by_cases hr : ∃ v n, a = .resume v n
  · obtain ⟨v,n,rfl⟩ := hr
    exact resume_closing hw h he hg
  have hcar := code_carries hw he hg (fun v c h => hc ⟨v,c,h⟩) (fun v n h => hr ⟨v,n,h⟩)
  exact hcar.mono (fun _ hcar => hcar.closing h) (fun _ => id)

/-- Thread t has called `shutdown` on an open connection and is still inside. -/
def InShutdown (t : Nat) (s : Session) : Prop :=
  s.calls t = some .shutdown ∨ s.calls t = some (.queue .shutdownInLoop) ∧ s.Down

private theorem Carries.inShutdown {t : Nat} (h : s.Carries u) (hs : s.InShutdown t) : u.InShutdown t := by
  rcases hs with hs | ⟨hs,hd⟩
  · exact .inl (h.calls ▸ hs)
  · exact .inr ⟨h.calls ▸ hs,h.down hd⟩

private theorem InShutdown.setCall {t v : Nat} (h : s.InShutdown t) (hv : v ≠ t) (p : Option CallPoint) :
    (s.setCall v p).InShutdown t := by
  have hcalls : (s.setCall v p).calls t = s.calls t := by
    change Function.update s.calls v p t = s.calls t
    rw [Function.update_of_ne hv.symm]
  rcases h with h | ⟨h,hd⟩
  · exact .inl (hcalls.trans h)
  · exact .inr ⟨hcalls.trans h,hd⟩

private theorem InShutdown.disconnecting {t : Nat} (h : s.InShutdown t) :
    (s.setState .kDisconnecting).InShutdown t :=
  h.imp id fun hd => ⟨hd.1,.inr rfl⟩

private theorem InShutdown.ne {t v : Nat} (h : s.InShutdown t) {p : Option CallPoint} (hv : s.calls v = p)
    (h1 : p ≠ some .shutdown) (h2 : p ≠ some (.queue .shutdownInLoop)) : v ≠ t := by
  rintro rfl
  rcases h with h | ⟨h,-⟩
  · exact h1 (hv.symm.trans h)
  · exact h2 (hv.symm.trans h)

private theorem call_inShutdown {t v : Nat} (h : s.InShutdown t) (hv : s.calls v = none) (c : Call) :
    (s.call v c).InShutdown t := by
  have hne := h.ne hv (by simp) (by simp)
  obtain he | ⟨p,-,he⟩ | ⟨message,p,-,he⟩ := s.call_cases v c
  · rw [he]
    exact h
  · rw [he]
    exact h.setCall hne _
  · rw [he]
    exact (requested_carries v message.bytes).inShutdown (h.setCall hne _)

private theorem resume_inShutdown {t v : Nat} (hw : s.Watched) (h : s.InShutdown t) {n : Int}
    (he : CallAnswer n (s.calls v)) (hg : s.HalfCloseWorks (.resume v n)) :
    Meets (fun u => u.InShutdown t ∨ u.Closing) (fun _ => True) (s.resume v n) := by
  unfold resume
  split
  · exact .inl h
  · next message hc =>
    rw [hc] at he
    have hset := h.setCall (h.ne hc (by simp) (by simp)) none
    exact (sendInLoop_carries (s := s.setCall v none) hw.output v he).mono
      (fun _ hcar => .inl (hcar.inShutdown hset)) (fun _ => id)
  · next hc =>
    split
    · next hl => exact .inr (shutdownInLoop_closing (.inr rfl) (hg ⟨hc,hl⟩))
    · by_cases hvt : v = t
      · subst hvt
        exact .inl (.inr ⟨Function.update_self _ _ _,.inr rfl⟩)
      · exact .inl (h.setCall hvt _).disconnecting
  · next hc => exact .inl (h.setCall (h.ne hc (by simp) (by simp)) _).disconnecting
  · next f hc =>
    by_cases hvt : v = t
    · -- the call returns; what it pushed is the half-close
      subst hvt
      rcases h with h | ⟨h,hd⟩
      · rw [hc] at h
        cases h
      · rw [hc] at h
        cases h
        refine .inr (hd.imp id fun hd => ⟨hd,.inr (.inl ?_)⟩)
        exact List.mem_append_right s.ioQueue List.mem_cons_self
    · exact .inl ((queueInLoop_carries f).inShutdown (h.setCall hvt none))

private theorem code_inShutdown {t : Nat} (hw : s.Watched) (h : s.InShutdown t) {a : ConnStep}
    (he : s.Enabled a) (hg : s.HalfCloseWorks a) :
    Meets (fun u => u.InShutdown t ∨ u.Closing) (fun _ => True) (s.code a) := by
  by_cases hc : ∃ v c, a = .call v c
  · obtain ⟨v,c,rfl⟩ := hc
    exact .inl (call_inShutdown h he c)
  by_cases hr : ∃ v n, a = .resume v n
  · obtain ⟨v,n,rfl⟩ := hr
    exact resume_inShutdown hw h he hg
  have hcar := code_carries hw he hg (fun v c h => hc ⟨v,c,h⟩) (fun v n h => hr ⟨v,n,h⟩)
  exact hcar.mono (fun _ hcar => .inl (hcar.inShutdown h)) (fun _ => id)

private theorem run_watched {P : Session → Prop}
    (hstep : ∀ s a, Watched s → P s → s.Enabled a → s.HalfCloseWorks a → Meets P (fun _ => True) (s.code a))
    {as : List ConnStep} (hw : s.Watched) (hp : P s) (ha : (machine.guard HalfCloseWorks).Admissible s as)
    (hu : machine.exec s as = .ok u) : u.Watched ∧ P u := by
  refine (machine.guard HalfCloseWorks).exec_ok_invariant (I := fun s => Watched s ∧ P s) ?_ ⟨hw,hp⟩ ha
    ((machine.exec_guard _ _ _).trans hu)
  intro s u a h he hr
  have h1 := code_watched h.1 he.1
  have h2 := hstep s a h.1 h.2 he.1 he.2
  rw [show s.code a = .ok u from hr] at h1 h2
  exact ⟨h1,h2⟩

/-! When `shutdownWrite` is called. -/

/-- A half-close made by the step finds nothing in the output buffer. -/
def HalfClosesEmpty (s u : Session) : Prop :=
  u.shutdownWrites ≠ s.shutdownWrites → u.conn.outputBuffer.readable = []

private theorem HalfClosesEmpty.of_eq (h : u.shutdownWrites = s.shutdownWrites) : s.HalfClosesEmpty u :=
  fun hne => (hne h).elim

private theorem shutdownInLoop_empty (h : s.conn.outputBuffer.readable ≠ [] → s.conn.channel.isWriting) :
    s.HalfClosesEmpty s.shutdownInLoop := by
  unfold shutdownInLoop
  split
  · next hw =>
    intro _
    exact Classical.byContradiction fun hb => hw (h hb)
  · exact .of_eq rfl

private theorem drained_output : s.drained.conn.outputBuffer = s.conn.outputBuffer := by
  have hshut (v : Session) : v.shutdownInLoop.conn = v.conn := by
    unfold shutdownInLoop
    split <;> rfl
  unfold drained
  dsimp only
  split
  · rw [hshut,conn_notify]
    rfl
  · rw [conn_notify]
    rfl

private theorem handleWrite_empty (h : s.conn.outputBuffer.WF) {n : Int}
    (hn : WriteAnswer n s.conn.outputBuffer.readableBytes) :
    Meets s.HalfClosesEmpty (fun _ => True) (s.handleWrite n) := by
  unfold handleWrite
  split
  · obtain ⟨b,hb,hk,-⟩ := Buffer.retrieve_spec h (show n.toNat ≤ _ by have := hn.2; omega)
    rw [hb]
    change HalfClosesEmpty s (if b.readableBytes = 0 then _ else _)
    split
    · next h0 =>
      intro _
      rw [drained_output]
      exact List.length_eq_zero_iff.mp (hk.1.length_readable.trans h0)
    · exact .of_eq rfl
  · exact .of_eq rfl

private theorem sendInLoop_empty (h : s.conn.outputBuffer.WF) (t : Nat) {message : Message} {n : Int}
    (hn : WriteAnswer n message.bytes.length) :
    Meets s.HalfClosesEmpty (fun _ => True) (s.sendInLoop t message n) := by
  apply (sendInLoop_spec h t message hn).mono ?_ (fun _ _ => trivial)
  rintro u ⟨k,b,ch,notes,rfl,-⟩
  exact .of_eq rfl

private theorem handleClose_empty : Meets s.HalfClosesEmpty (fun _ => True) s.handleClose := by
  apply handleClose_spec.mono ?_ (fun _ _ => trivial)
  rintro u ⟨-,⟨-,rfl⟩ | ⟨-,-,rfl⟩⟩
  all_goals exact .of_eq rfl

private theorem functor_empty (h : s.Watched) (h0 : s.closeCallbacks = 0) {f : ConnFunctor}
    {rest : List ConnFunctor} {n : Int} (hn : FunctorAnswer n (f :: rest)) :
    Meets s.HalfClosesEmpty (fun _ => True) ({ s with ioQueue := rest }.runFunctor n f) := by
  cases f with
  | sendInLoop t message => exact sendInLoop_empty (s := { s with ioQueue := rest }) h.output t hn
  | shutdownInLoop => exact shutdownInLoop_empty (s := { s with ioQueue := rest }) (h.writing h0)
  | forceCloseInLoop =>
    change Meets _ _ (if _ then _ else _)
    split
    · exact handleClose_empty (s := { s with ioQueue := rest })
    · exact .of_eq rfl
  | connectDestroyed =>
    apply connectDestroyed_spec.mono ?_ (fun _ _ => trivial)
    rintro u ⟨-,rfl⟩
    exact .of_eq rfl
  | writeComplete cb => exact .of_eq rfl
  | highWaterMark cb len => exact .of_eq rfl

private theorem resume_empty (h : s.Watched) (h0 : s.closeCallbacks = 0) {t : Nat} {n : Int}
    (he : CallAnswer n (s.calls t)) : Meets s.HalfClosesEmpty (fun _ => True) (s.resume t n) := by
  unfold resume
  split
  · exact .of_eq rfl
  · next message hc =>
    rw [hc] at he
    exact sendInLoop_empty (s := s.setCall t none) h.output t he
  · split
    · exact shutdownInLoop_empty (s := (s.setCall t none).setState .kDisconnecting) (h.writing h0)
    · exact .of_eq rfl
  · exact .of_eq rfl
  · exact .of_eq rfl

private theorem call_shutdownWrites (t : Nat) (c : Call) : (s.call t c).shutdownWrites = s.shutdownWrites := by
  obtain he | ⟨p,-,he⟩ | ⟨message,p,-,he⟩ := s.call_cases t c
  · rw [he]
  · rw [he]
    rfl
  · rw [he]
    rfl

/-- No step half-closes with output in the buffer. -/
theorem code_empty (h : s.Watched) (h0 : s.closeCallbacks = 0) {a : ConnStep} (he : s.Enabled a) :
    Meets s.HalfClosesEmpty (fun _ => True) (s.code a) := by
  cases a with
  | call t c => exact .of_eq (call_shutdownWrites t c)
  | resume t n => exact resume_empty h h0 he
  | event revents => exact .of_eq rfl
  | handler r n =>
    obtain ⟨-,he⟩ := he
    rw [code]
    split
    · exact .of_eq rfl
    · next handler rest hd =>
      rw [hd] at he
      cases handler with
      | handleRead =>
        apply (meets_true ((s.conn.inputBuffer.readFd r).mapError ConnFault.buffer)).bind
        rintro ⟨b,n,errno⟩ _
        dsimp only
        split
        · exact handleClose_empty (s := ({ s with dispatching := rest } : Session).setInput b)
        · exact .of_eq rfl
      | handleWrite => exact handleWrite_empty (s := { s with dispatching := rest }) h.output he
      | handleClose => exact handleClose_empty (s := { s with dispatching := rest })
      | handleError => exact .of_eq rfl
  | functor n =>
    obtain ⟨-,-,he⟩ := he
    rw [code]
    split
    · exact .of_eq rfl
    · next f rest hq =>
      rw [hq] at he
      exact functor_empty h h0 he
  | handleWrite n => exact handleWrite_empty h.output he.2
  | removeConnectionInLoop =>
    apply removeConnectionInLoop_spec.mono ?_ (fun _ _ => trivial)
    rintro u ⟨-,rfl⟩
    exact .of_eq rfl
  | input op =>
    apply Meets.map
    apply (meets_true ((op.run s.conn.inputBuffer).mapError ConnFault.buffer)).mono ?_ (fun _ => id)
    intro out _
    exact .of_eq rfl
  | setWriteCompleteCallback cb => exact .of_eq rfl
  | setHighWaterMarkCallback cb mark => exact .of_eq rfl

private theorem run_closing {as : List ConnStep} (hw : s.Watched) (hc : s.Closing)
    (ha : (machine.guard HalfCloseWorks).Admissible s as) (hu : machine.exec s as = .ok u) : u.Closing :=
  (run_watched (fun _ _ hw hc he hg => code_closing hw hc he hg) hw hc ha hu).2

/-- A call of `shutdown` that has returned has left the half-close behind. -/
theorem run_inShutdown {t : Nat} {as : List ConnStep} (hw : s.Watched) (hc : s.InShutdown t)
    (ha : (machine.guard HalfCloseWorks).Admissible s as) (hu : machine.exec s as = .ok u)
    (hret : u.calls t = none) : u.Watched ∧ u.Closing := by
  have hstep : ∀ s a, Watched s → s.InShutdown t ∨ s.Closing → s.Enabled a → s.HalfCloseWorks a →
      Meets (fun u => u.InShutdown t ∨ u.Closing) (fun _ => True) (s.code a) := by
    intro s a hw hc he hg
    rcases hc with hc | hc
    · exact code_inShutdown hw hc he hg
    · exact (code_closing hw hc he hg).mono (fun _ => .inr) (fun _ => id)
  obtain ⟨hwu,hin⟩ := run_watched hstep hw (.inl hc) ha hu
  refine ⟨hwu,hin.resolve_left ?_⟩
  rintro (h | ⟨h,-⟩)
  · rw [hret] at h
    cases h
  · rw [hret] at h
    cases h

/-- Until the connection is closed, `shutdownWrite` is only called with an empty output
buffer. And when a `shutdown` called while connected has returned, the output buffer is
empty and no `shutdownInLoop` is queued, `shutdownWrite` has been called, in every run in
which `shutdownInLoop` and `handleWrite` meet `HalfCloseWorks`. -/
theorem shutdown_half_closes (owner : Owner) (loopThread : Nat) (sockfd : Int) (mark : Nat) :
    (∀ (as : List ConnStep) (a : ConnStep) (s u : Session),
      machine.Admissible (established owner loopThread sockfd mark) (as ++ [a]) →
      machine.exec (established owner loopThread sockfd mark) as = .ok s → machine.step s a = .ok u →
      s.closeCallbacks = 0 → u.shutdownWrites ≠ s.shutdownWrites → u.conn.outputBuffer.readable = []) ∧
    ∀ (before inside after : List ConnStep) (t : Nat) (s₀ s₁ s : Session),
      (machine.guard HalfCloseWorks).Admissible (established owner loopThread sockfd mark)
        (before ++ (.call t .shutdown :: inside) ++ after) →
      machine.exec (established owner loopThread sockfd mark) before = .ok s₀ →
      s₀.conn.state = .kConnected →
      machine.exec s₀ (.call t .shutdown :: inside) = .ok s₁ → s₁.calls t = none →
      machine.exec s₁ after = .ok s →
      s.closeCallbacks = 0 → s.conn.outputBuffer.readable = [] → .shutdownInLoop ∉ s.ioQueue →
      0 < s.shutdownWrites := by
  constructor
  · intro as a s u ha hs hu h0
    obtain ⟨hpre,hlast⟩ := machine.admissible_append ha hs
    have hempty := code_empty (exec_watched owner loopThread sockfd mark hpre hs) h0 hlast.1
    rw [show s.code a = .ok u from hu] at hempty
    exact hempty
  · intro before inside after t s₀ s₁ s ha h₀ hconn h₁ hret hs h0 hb hq
    rw [List.append_assoc] at ha
    obtain ⟨hbefore,ha⟩ := (machine.guard HalfCloseWorks).admissible_append ha
      (by rw [machine.exec_guard]; exact h₀)
    obtain ⟨hinside,hafter⟩ := (machine.guard HalfCloseWorks).admissible_append ha
      (by rw [machine.exec_guard]; exact h₁)
    have hw₀ := exec_watched owner loopThread sockfd mark (machine.admissible_of_guard hbefore) h₀
    have hcall : s₀.call t .shutdown = s₀.setCall t (some .shutdown) := if_pos hconn
    have hwcall : (s₀.setCall t (some .shutdown)).Watched := by
      have hstep := code_watched (a := .call t .shutdown) hw₀ hinside.1.1
      change (s₀.call t .shutdown).Watched at hstep
      rwa [hcall] at hstep
    have hrest : (machine.guard HalfCloseWorks).Admissible (s₀.setCall t (some .shutdown)) inside := by
      have hnext := hinside.2
      change (machine.guard HalfCloseWorks).Admissible (s₀.call t .shutdown) inside at hnext
      rwa [hcall] at hnext
    have h₁' : machine.exec (s₀.setCall t (some .shutdown)) inside = .ok s₁ := by
      change machine.exec (s₀.call t .shutdown) inside = .ok s₁ at h₁
      rwa [hcall] at h₁
    obtain ⟨hw₁,hc₁⟩ := run_inShutdown hwcall (.inl (Function.update_self _ _ _)) hrest h₁' hret
    rcases run_closing hw₁ hc₁ hafter hs with hc | ⟨-,hc | hc | ⟨-,hc⟩⟩
    · exact (hc h0).elim
    · exact Nat.pos_of_ne_zero hc
    · exact (hq hc).elim
    · exact (hc hb).elim

private def sendOne : List ConnStep := [.call 0 (.send ⟨[1],by decide⟩),.resume 0 1]

/-- Thread 1 shuts down after a send that `write` took whole. -/
theorem shutdown_half_closes_after_send : ∃ s₀ s₁ s,
    machine.exec (established .client 0 5 0) sendOne = .ok s₀ ∧
    machine.exec s₀ [.call 1 .shutdown,.resume 1 0,.resume 1 0] = .ok s₁ ∧
    machine.exec s₁ [.functor 0] = .ok s ∧ 0 < s.shutdownWrites := by
  have hrun : Meets (fun s₀ => s₀.conn.state = .kConnected ∧
      Meets (fun s₁ => s₁.calls 1 = none ∧
        Meets (fun s => s.closeCallbacks = 0 ∧ s.conn.outputBuffer.readable = [] ∧ .shutdownInLoop ∉ s.ioQueue)
          (fun _ => False) (machine.exec s₁ [.functor 0]))
        (fun _ => False) (machine.exec s₀ [.call 1 .shutdown,.resume 1 0,.resume 1 0]))
      (fun _ => False) (machine.exec (established .client 0 5 0) sendOne) := by decide +kernel
  obtain ⟨s₀,h₀,hconn,hrun⟩ := hrun.ok_of_no_error (fun _ => id)
  obtain ⟨s₁,h₁,hret,hrun⟩ := hrun.ok_of_no_error (fun _ => id)
  obtain ⟨s,hs,h0,hb,hq⟩ := hrun.ok_of_no_error (fun _ => id)
  exact ⟨s₀,s₁,s,h₀,h₁,hs,(shutdown_half_closes .client 0 5 0).2 sendOne [.resume 1 0,.resume 1 0] [.functor 0]
    1 s₀ s₁ s (by decide +kernel) h₀ hconn h₁ hret hs h0 hb hq⟩

/-- Of two bytes one is written at once and one by `handleWrite`. -/
private def sendTwo : List ConnStep := [.call 0 (.send ⟨[3,4],by decide⟩),.resume 0 1,.handleWrite 1]

/-- After that `shutdown` is called in the loop thread: the buffer is empty, nothing is
queued, and no half-close was made. -/
theorem shutdown_after_buffered_output_is_forgotten :
    machine.Admissible (established .client 0 5 0) (sendTwo ++ [.call 0 .shutdown,.resume 0 0]) ∧
    ∃ s₀ s, machine.exec (established .client 0 5 0) sendTwo = .ok s₀ ∧ s₀.conn.state = .kConnected ∧
      machine.exec s₀ [.call 0 .shutdown,.resume 0 0] = .ok s ∧ s.calls 0 = none ∧ s.closeCallbacks = 0 ∧
      s.conn.outputBuffer.readable = [] ∧ s.ioQueue = [] ∧ ¬ 0 < s.shutdownWrites := by
  obtain ⟨s₀,h₀,hconn,hrun⟩ : ∃ s₀, machine.exec (established .client 0 5 0) sendTwo = .ok s₀ ∧
      s₀.conn.state = .kConnected ∧
      Meets (fun s => s.calls 0 = none ∧ s.closeCallbacks = 0 ∧ s.conn.outputBuffer.readable = [] ∧
        s.ioQueue = [] ∧ ¬ 0 < s.shutdownWrites)
        (fun _ => False) (machine.exec s₀ [.call 0 .shutdown,.resume 0 0]) :=
    Meets.ok_of_no_error (Q := fun _ => False) (by decide +kernel) (fun _ => id)
  obtain ⟨s,hs,h⟩ := hrun.ok_of_no_error (fun _ => id)
  exact ⟨by decide +kernel,s₀,s,h₀,hconn,hs,h⟩

end Session
end LearningMuduo.Tcp
