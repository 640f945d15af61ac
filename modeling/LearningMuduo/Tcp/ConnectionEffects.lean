import LearningMuduo.Tcp.WriteInterest

/-! Everything that the code a loop runs on a connection can do to it. -/
namespace LearningMuduo.Tcp.Session
open Library Reactor
variable {s u : Session}

/-- Bytes move and notifications are queued, the interest may change, and history is written.
The close machinery, the calls and `state_` are left alone. -/
structure Quiet (s u : Session) : Prop where
  owner : u.owner = s.owner
  present : u.present = s.present
  removals : u.removals = s.removals
  calls : u.calls = s.calls
  closeCallbacks : u.closeCallbacks = s.closeCallbacks
  destroyed : u.destroyed = s.destroyed
  state : u.conn.state = s.conn.state
  queue : ∃ notes, u.ioQueue = s.ioQueue ++ notes ∧ ∀ f ∈ notes, f.isNote = true
  channel : u.conn.channel = s.conn.channel ∨ ∃ op, u.conn.channel = (s.conn.channel.setInterest op).updated

/-- Nothing much, or a close: the server's loop has to finish it, or it is finished here. -/
inductive Effect (s u : Session) : Prop where
  | quiet (h : s.Quiet u)
  | closes (v : Session) (h : s.Quiet v) (ho : v.conn.isOpen) (hs : v.owner = .server false)
      (hu : u = { v.closing with removals := v.removals+1 })
  | forgets (v : Session) (h : s.Quiet v) (ho : v.conn.isOpen) (hp : v.present = true) (hu : u = v.closing.forgotten)

private theorem Quiet.of_conn (hi : u.conn.channel = s.conn.channel) (hs : u.conn.state = s.conn.state)
    (ho : u.owner = s.owner) (hp : u.present = s.present) (hr : u.removals = s.removals) (hcalls : u.calls = s.calls)
    (hc : u.closeCallbacks = s.closeCallbacks) (hd : u.destroyed = s.destroyed) (hq : u.ioQueue = s.ioQueue) : s.Quiet u :=
  ⟨ho,hp,hr,hcalls,hc,hd,hs,⟨[],by rw [hq,List.append_nil],nofun⟩,.inl hi⟩

/-- Nothing changes. -/
theorem Quiet.refl (s : Session) : s.Quiet s := .of_conn rfl rfl rfl rfl rfl rfl rfl rfl rfl

/-- `sendInLoop` leaves the life of the connection alone. -/
theorem sendInLoop_quiet (h : s.conn.outputBuffer.WF) (t : Nat) {message : Message} {n : Int}
    (hn : WriteAnswer n message.bytes.length) : Meets s.Quiet (fun _ => True) (s.sendInLoop t message n) := by
  refine (sendInLoop_spec h t message hn).mono ?_ fun _ _ => trivial
  rintro u ⟨k,b,ch,notes,rfl,-,-,-,-,hch,hnotes⟩
  exact ⟨rfl,rfl,rfl,rfl,rfl,rfl,rfl,⟨notes,rfl,hnotes⟩,hch.imp id fun hch => ⟨.enableWriting,hch⟩⟩

private theorem handleWrite_quiet (h : s.conn.outputBuffer.WF) {n : Int}
    (hn : WriteAnswer n s.conn.outputBuffer.readableBytes) : Meets s.Quiet (fun _ => True) (s.handleWrite n) := by
  obtain ⟨u,hu,⟨rfl,-⟩ | ⟨b,ch,notes,shut,-,-,rfl,-,-,hch,hnotes⟩⟩ := handleWrite_spec h hn
  · rw [hu]
    exact .refl u
  · rw [hu]
    exact ⟨rfl,rfl,rfl,rfl,rfl,rfl,rfl,⟨notes,rfl,hnotes⟩,hch.imp id fun hch => ⟨.disableWriting,hch⟩⟩

/-- So does `shutdownInLoop`. -/
theorem shutdownInLoop_quiet (s : Session) : s.Quiet s.shutdownInLoop := by
  unfold shutdownInLoop
  split <;> exact .of_conn rfl rfl rfl rfl rfl rfl rfl rfl rfl

private theorem handleClose_effect {v : Session} (h : s.Quiet v) : Meets s.Effect (fun _ => True) v.handleClose := by
  refine handleClose_spec.mono ?_ fun _ _ => trivial
  rintro u ⟨ho,⟨hs,hu⟩ | ⟨-,hp,hu⟩⟩
  · exact .closes v h ho hs hu
  · exact .forgets v h ho hp hu

private theorem handleRead_effect (s : Session) (r : ReadvResult) : Meets s.Effect (fun _ => True) (s.handleRead r) := by
  refine Meets.bind (meets_true _) ?_
  rintro ⟨b,n,errno⟩ -
  have hin : s.Quiet (s.setInput b) := .of_conn rfl rfl rfl rfl rfl rfl rfl rfl rfl
  dsimp only
  split
  · exact handleClose_effect hin
  · exact .quiet hin

private theorem runHandler_effect (h : s.conn.outputBuffer.WF) {handler : ConnHandler} {r : ReadvResult} {n : Int}
    {rest : List ConnHandler} (he : s.HandlerAnswer r n (handler :: rest)) :
    Meets s.Effect (fun _ => True) (s.runHandler r n handler) := by
  cases handler with
  | handleRead => exact handleRead_effect s r
  | handleWrite => exact (handleWrite_quiet h he).mono (fun _ => .quiet) fun _ => id
  | handleClose => exact handleClose_effect (.refl s)
  | handleError => exact .quiet (.refl s)

/-- What a functor does to the life of the connection. -/
theorem runFunctor_effect (h : s.conn.outputBuffer.WF) {f : ConnFunctor} {n : Int} {rest : List ConnFunctor}
    (he : FunctorAnswer n (f :: rest)) :
    Meets (fun u => s.Effect u ∨ f = .connectDestroyed ∧ u = s.gone) (fun _ => True) (s.runFunctor n f) := by
  cases f with
  | sendInLoop t message => exact (sendInLoop_quiet h t he).mono (fun _ hq => .inl (.quiet hq)) fun _ => id
  | shutdownInLoop => exact .inl (.quiet (shutdownInLoop_quiet s))
  | forceCloseInLoop =>
    change Meets _ _ (if _ then _ else _)
    split
    · exact (handleClose_effect (.refl s)).mono (fun _ => .inl) fun _ => id
    · exact .inl (.quiet (.refl s))
  | connectDestroyed =>
    refine connectDestroyed_spec.mono ?_ fun _ _ => trivial
    rintro u ⟨-,hu⟩
    exact .inr ⟨rfl,hu⟩
  | writeComplete cb => exact .inl (.quiet (.refl s))
  | highWaterMark cb len => exact .inl (.quiet (.refl s))

private theorem Effect.of_dispatching {rest : List ConnHandler} (h : ({ s with dispatching := rest } : Session).Effect u) :
    s.Effect u := by
  have hbase {v : Session} (h : ({ s with dispatching := rest } : Session).Quiet v) : s.Quiet v :=
    ⟨h.owner,h.present,h.removals,h.calls,h.closeCallbacks,h.destroyed,h.state,h.queue,h.channel⟩
  cases h with
  | quiet h => exact .quiet (hbase h)
  | closes v h ho hs hu => exact .closes v (hbase h) ho hs hu
  | forgets v h ho hp hu => exact .forgets v (hbase h) ho hp hu

/-- The public calls, the functors and the removal in the server's loop have their own cases. -/
theorem code_effect (h : s.conn.outputBuffer.WF) {a : ConnStep} (he : s.Enabled a) (hcall : ∀ t c, a ≠ .call t c)
    (hresume : ∀ t n, a ≠ .resume t n) (hfunctor : ∀ n, a ≠ .functor n) (hevent : ∀ revents, a ≠ .event revents)
    (hremove : a ≠ .removeConnectionInLoop) : Meets s.Effect (fun _ => True) (s.code a) := by
  cases a with
  | call t c => exact (hcall t c rfl).elim
  | resume t n => exact (hresume t n rfl).elim
  | functor n => exact (hfunctor n rfl).elim
  | event revents => exact (hevent revents rfl).elim
  | removeConnectionInLoop => exact (hremove rfl).elim
  | handler r n =>
    have hanswer := he.2
    rw [code]
    split
    · exact .quiet (.refl s)
    · next handler rest hd =>
      rw [hd] at hanswer
      refine (runHandler_effect (s := { s with dispatching := rest }) h hanswer).mono ?_ fun _ => id
      exact fun u => Effect.of_dispatching
  | handleWrite n => exact (handleWrite_quiet h he.2).mono (fun _ => .quiet) fun _ => id
  | input op =>
    apply Meets.map
    refine (meets_true _).mono (fun out _ => ?_) fun _ _ => trivial
    exact .quiet (.of_conn rfl rfl rfl rfl rfl rfl rfl rfl rfl)
  | setWriteCompleteCallback cb => exact .quiet (.of_conn rfl rfl rfl rfl rfl rfl rfl rfl rfl)
  | setHighWaterMarkCallback cb mark => exact .quiet (.of_conn rfl rfl rfl rfl rfl rfl rfl rfl rfl)

end LearningMuduo.Tcp.Session
