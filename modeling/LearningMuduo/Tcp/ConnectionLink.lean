import LearningMuduo.Tcp.GracefulShutdown
import LearningMuduo.Tcp.OutputStream

/-! Two connections, each the peer of the other, and the bytes on the way between them: what
one side sends is what the other side's user reads. -/
namespace LearningMuduo.Tcp
open Library Reactor

/-- What a user's call takes out of an input buffer that holds q, if it is a reading call. -/
def BufferOp.taken (q : List UInt8) : BufferOp → Option (List UInt8)
  | .retrieve len | .retrieveUntil len | .retrieveAsString len => some (q.take len)
  | .retrieveAll | .retrieveAllAsString => some q
  | .ensureWritableBytes _ => some []
  | .append _ | .write _ | .unwrite _ | .prepend _ | .readFd _ => none

/-- The answer of `write` in the step. -/
def ConnStep.answer : ConnStep → Int
  | .resume _ n | .handler _ n | .functor n | .handleWrite n => n
  | .call .. | .event _ | .removeConnectionInLoop | .input _ | .setWriteCompleteCallback _
  | .setHighWaterMarkCallback .. => 0

/-- One side. `received` are the bytes `readv` has returned, `consumed` those the user took out
of the input buffer; `ended` says that `readv` returned 0 while the peer had not been closed. -/
structure LinkEnd where
  session : Session
  received : List UInt8
  consumed : List UInt8
  ended : Bool

structure Link where
  left : LinkEnd
  right : LinkEnd

inductive LinkStep where
  | left (a : ConnStep)
  | right (a : ConnStep)

namespace Session

/-- What `readv` returns in the step. -/
def readBy (s : Session) : ConnStep → Option (List UInt8)
  | .handler (.received bytes) _ => if s.dispatching.head? = some .handleRead then some bytes else none
  | _ => none

/-- What the user takes out of the input buffer in the step. -/
def takenBy (s : Session) : ConnStep → Option (List UInt8)
  | .input op => op.taken s.conn.inputBuffer.readable
  | _ => some []

end Session

namespace LinkEnd

def established (owner : Owner) (loopThread : Nat) (sockfd : Int) (highWaterMark : Nat) : LinkEnd :=
  ⟨.established owner loopThread sockfd highWaterMark,[],[],false⟩

/-- The bytes that the kernels still have to bring from y to x. -/
def inFlight (x y : LinkEnd) : List UInt8 := y.session.accepted.drop x.received.length

/-- `readv` returns bytes in order, and 0 once all have come and the peer has closed its side.
The socket of a connection is closed after its close callback. -/
def Delivers (x y : LinkEnd) (bytes : List UInt8) : Prop :=
  x.received ++ bytes <+: y.session.accepted ∧
    (bytes = [] → x.received = y.session.accepted ∧ (y.session.shutdownWrites ≠ 0 ∨ y.session.closeCallbacks ≠ 0))

/-- The steps of x with the peer y. After a half-close `write` takes nothing, and the user only
reads the input buffer. -/
def Enabled (x y : LinkEnd) (a : ConnStep) : Prop :=
  x.session.Enabled a ∧ (x.session.shutdownWrites ≠ 0 → a.answer ≤ 0) ∧ (x.session.takenBy a).isSome ∧
    ∀ bytes ∈ x.session.readBy a, x.Delivers y bytes

def step (x y : LinkEnd) (a : ConnStep) : Except ConnFault LinkEnd := do
  let s ← x.session.code a
  pure {
    session := s
    received := x.received ++ (x.session.readBy a).getD []
    consumed := x.consumed ++ (x.session.takenBy a).getD []
    ended := x.ended || decide (x.session.readBy a = some [] ∧ y.session.closeCallbacks = 0) }

instance (x y : LinkEnd) (bytes : List UInt8) : Decidable (x.Delivers y bytes) :=
  inferInstanceAs (Decidable (_ ∧ (_ → _)))

instance (x y : LinkEnd) (a : ConnStep) : Decidable (x.Enabled y a) :=
  inferInstanceAs (Decidable (_ ∧ _ ∧ _ ∧ ∀ bytes ∈ x.session.readBy a,_))

end LinkEnd

namespace Link

/-- One side moves at a time, in any order. -/
def machine : Machine Link LinkStep ConnFault where
  Enabled l
    | .left a => l.left.Enabled l.right a
    | .right a => l.right.Enabled l.left a
  step l
    | .left a => (⟨·,l.right⟩) <$> l.left.step l.right a
    | .right a => (⟨l.left,·⟩) <$> l.right.step l.left a

instance (l : Link) : (a : LinkStep) → Decidable (machine.Enabled l a)
  | .left a => inferInstanceAs (Decidable (l.left.Enabled l.right a))
  | .right a => inferInstanceAs (Decidable (l.right.Enabled l.left a))

end Link

namespace Session
variable {s u : Session} {a : ConnStep}

/-- All that the kernel took are whole messages, the first ones. -/
def SentWhole (s : Session) : Prop := ∃ done, done <+: s.executed ∧ s.accepted = (done.map Prod.snd).flatten

/-- What becomes of the output history in code whose `write` answers n. The input is left alone. -/
structure Flows (s : Session) (n : Int) (u : Session) : Prop where
  accepted : ∃ bytes, u.accepted = s.accepted ++ bytes ∧ (n ≤ 0 → bytes = [])
  executed : s.executed <+: u.executed
  shutdownWrites : s.shutdownWrites ≤ u.shutdownWrites
  closeCallbacks : s.closeCallbacks ≤ u.closeCallbacks
  input : u.conn.inputBuffer = s.conn.inputBuffer

private theorem Flows.of_eq {n : Int} (ha : u.accepted = s.accepted) (he : u.executed = s.executed)
    (hs : s.shutdownWrites ≤ u.shutdownWrites) (hc : s.closeCallbacks ≤ u.closeCallbacks)
    (hi : u.conn.inputBuffer = s.conn.inputBuffer) : s.Flows n u :=
  ⟨⟨[],by rw [ha,List.append_nil],fun _ => rfl⟩,by rw [he],hs,hc,hi⟩

private theorem Flows.base {v : Session} {n : Int} (h : v.Flows n u) (ha : v.accepted = s.accepted)
    (he : v.executed = s.executed) (hs : v.shutdownWrites = s.shutdownWrites) (hc : v.closeCallbacks = s.closeCallbacks)
    (hi : v.conn.inputBuffer = s.conn.inputBuffer) : s.Flows n u :=
  ⟨ha ▸ h.accepted,he ▸ h.executed,hs ▸ h.shutdownWrites,hc ▸ h.closeCallbacks,hi ▸ h.input⟩

private theorem accepted_notify (s : Session) (f : Nat → ConnFunctor) (cb : UserCallback) :
    (s.notify f cb).accepted = s.accepted := by
  cases cb <;> rfl

private theorem writeDirect_accepted (s : Session) (message : List UInt8) {n : Int} (hn : n ≤ 0) :
    (s.writeDirect message n).1.accepted = s.accepted := by
  have hzero : n.toNat = 0 := Int.toNat_of_nonpos hn
  unfold writeDirect
  rw [hzero]
  split
  · split
    · dsimp only
      split
      · exact List.append_nil _
      · rw [accepted_notify]
        exact List.append_nil _
    · rfl
  · rfl

private theorem bufferRest_accepted (s : Session) (message : List UInt8) (nwrote remaining : Nat) :
    Meets (fun u => u.accepted = s.accepted) (fun _ => True) (s.bufferRest message nwrote remaining) := by
  unfold bufferRest
  refine (meets_true _).bind fun b _ => ?_
  have hrest (v : Session) : (if ¬ v.conn.channel.isWriting then v.interest .enableWriting else v).accepted = v.accepted := by
    split <;> rfl
  refine (hrest _).trans ?_
  change Session.accepted (if _ then _ else _) = _
  split
  · exact accepted_notify ..
  · rfl

private theorem sendInLoop_accepted (s : Session) (t : Nat) (message : Message) {n : Int} (hn : n ≤ 0) :
    Meets (fun u => u.accepted = s.accepted) (fun _ => True) (s.sendInLoop t message n) := by
  have hdirect := writeDirect_accepted (s.started t message.bytes) message.bytes hn
  unfold sendInLoop
  dsimp only
  refine (meets_true _).bind fun _ _ => ?_
  split
  · refine (bufferRest_accepted _ _ _ _).mono ?_ fun _ => id
    exact fun u hu => hu.trans hdirect
  · exact hdirect

private theorem sendInLoop_flows (h : s.conn.outputBuffer.WF) (t : Nat) {message : Message} {n : Int}
    (hn : WriteAnswer n message.bytes.length) : Meets (s.Flows n) (fun _ => True) (s.sendInLoop t message n) := by
  have hspec := sendInLoop_spec h t message hn
  have hnone := fun h0 => sendInLoop_accepted s t message (n := n) h0
  cases hr : s.sendInLoop t message n with
  | error e => trivial
  | ok u =>
    rw [hr] at hspec hnone
    obtain ⟨k,b,ch,notes,rfl,-⟩ := hspec
    exact ⟨⟨_,rfl,fun h0 => List.append_right_eq_self.mp (hnone h0)⟩,List.prefix_append _ _,le_rfl,le_rfl,rfl⟩

private theorem handleWrite_flows (h : s.conn.outputBuffer.WF) {n : Int}
    (hn : WriteAnswer n s.conn.outputBuffer.readableBytes) : Meets (s.Flows n) (fun _ => True) (s.handleWrite n) := by
  obtain ⟨u,hu,⟨rfl,-⟩ | ⟨b,ch,notes,shut,-,hpos,rfl,-⟩⟩ := handleWrite_spec h hn
  · rw [hu]
    exact .of_eq rfl rfl le_rfl le_rfl rfl
  · rw [hu]
    exact ⟨⟨_,rfl,fun h0 => (Int.not_lt.mpr h0 hpos).elim⟩,List.prefix_rfl,Nat.le_add_right _ _,le_rfl,rfl⟩

private theorem handleClose_flows {n : Int} : Meets (s.Flows n) (fun _ => True) s.handleClose := by
  apply handleClose_spec.mono ?_ (fun _ _ => trivial)
  rintro u ⟨-,⟨-,rfl⟩ | ⟨-,-,rfl⟩⟩
  all_goals exact .of_eq rfl rfl le_rfl (Nat.le_succ _) rfl

private theorem shutdownInLoop_flows {n : Int} : s.Flows n s.shutdownInLoop := by
  unfold shutdownInLoop
  split
  · exact .of_eq rfl rfl (Nat.le_succ _) le_rfl rfl
  · exact .of_eq rfl rfl le_rfl le_rfl rfl

private theorem functor_flows (h : s.conn.outputBuffer.WF) {f : ConnFunctor} {rest : List ConnFunctor} {n : Int}
    (hn : FunctorAnswer n (f :: rest)) : Meets (s.Flows n) (fun _ => True) (s.runFunctor n f) := by
  cases f with
  | sendInLoop t message => exact sendInLoop_flows h t hn
  | shutdownInLoop => exact shutdownInLoop_flows
  | forceCloseInLoop =>
    change Meets _ _ (if _ then _ else _)
    split
    · exact handleClose_flows
    · exact .of_eq rfl rfl le_rfl le_rfl rfl
  | connectDestroyed =>
    apply connectDestroyed_spec.mono ?_ (fun _ _ => trivial)
    rintro u ⟨-,rfl⟩
    exact .of_eq rfl rfl le_rfl le_rfl rfl
  | writeComplete cb => exact .of_eq rfl rfl le_rfl le_rfl rfl
  | highWaterMark cb len => exact .of_eq rfl rfl le_rfl le_rfl rfl

private theorem resume_flows (h : s.conn.outputBuffer.WF) {t : Nat} {n : Int} (he : CallAnswer n (s.calls t)) :
    Meets (s.Flows n) (fun _ => True) (s.resume t n) := by
  unfold resume
  split
  · exact .of_eq rfl rfl le_rfl le_rfl rfl
  · next message hc =>
    rw [hc] at he
    refine (sendInLoop_flows (s := s.setCall t none) h t he).mono ?_ fun _ => id
    exact fun u hu => hu.base rfl rfl rfl rfl rfl
  · split
    · exact (shutdownInLoop_flows (s := (s.setCall t none).setState .kDisconnecting)).base rfl rfl rfl rfl rfl
    · exact .of_eq rfl rfl le_rfl le_rfl rfl
  · exact .of_eq rfl rfl le_rfl le_rfl rfl
  · exact .of_eq rfl rfl le_rfl le_rfl rfl

private theorem call_flows (t : Nat) (c : Call) {n : Int} : s.Flows n (s.call t c) := by
  obtain he | ⟨p,-,he⟩ | ⟨message,p,-,he⟩ := s.call_cases t c
  all_goals
    rw [he]
    exact .of_eq rfl rfl le_rfl le_rfl rfl

/-- What a step does to the bytes on either side of the connection. -/
structure Passes (s : Session) (a : ConnStep) (u : Session) : Prop where
  accepted : ∃ bytes, u.accepted = s.accepted ++ bytes ∧ (a.answer ≤ 0 → bytes = [])
  executed : s.executed <+: u.executed
  shutdownWrites : s.shutdownWrites ≤ u.shutdownWrites
  closeCallbacks : s.closeCallbacks ≤ u.closeCallbacks
  input : ∀ taken ∈ s.takenBy a, taken ++ u.conn.inputBuffer.readable =
    s.conn.inputBuffer.readable ++ (s.readBy a).getD []

private theorem Flows.passes {v : Session} (h : v.Flows a.answer u) (ha : v.accepted = s.accepted)
    (he : v.executed = s.executed) (hs : v.shutdownWrites = s.shutdownWrites) (hc : v.closeCallbacks = s.closeCallbacks)
    (hi : v.conn.inputBuffer.readable = s.conn.inputBuffer.readable ++ (s.readBy a).getD [])
    (ht : s.takenBy a = some []) : s.Passes a u := by
  refine ⟨ha ▸ h.accepted,he ▸ h.executed,hs ▸ h.shutdownWrites,hc ▸ h.closeCallbacks,?_⟩
  rw [ht]
  rintro taken ⟨⟩
  rw [h.input,hi]
  rfl

private theorem handleRead_passes (hi : s.conn.inputBuffer.WF) {rest : List ConnHandler} {r : ReadvResult} {n : Int}
    (hd : s.dispatching = .handleRead :: rest) (hr : r.count ≤ s.conn.inputBuffer.iovecBytes) :
    Meets (s.Passes (.handler r n)) (fun _ => True) (({ s with dispatching := rest } : Session).handleRead r) := by
  apply ((Buffer.readFd_spec hi hr).mono (fun _ => id) fun _ _ => trivial).mapError.bind
  rintro ⟨b,count,errno⟩ ⟨-,-,hb⟩
  have hread : b.readable = s.conn.inputBuffer.readable ++ (s.readBy (.handler r n)).getD [] := by
    cases r with
    | failed errno => rw [hb]; exact (List.append_nil _).symm
    | received bytes => rw [hb,readBy,hd]; rfl
  have hpasses (u : Session) (hu : (({ s with dispatching := rest } : Session).setInput b).Flows n u) :
      s.Passes (.handler r n) u := Flows.passes (a := .handler r n) hu rfl rfl rfl rfl hread rfl
  dsimp only
  split
  · exact handleClose_flows.mono hpasses fun _ => id
  · exact hpasses _ (.of_eq rfl rfl le_rfl le_rfl rfl)

private theorem input_passes (hi : s.conn.inputBuffer.WF) {op : BufferOp} (he : op.Enabled s.conn.inputBuffer) :
    Meets (s.Passes (.input op)) (fun _ => True) (s.code (.input op)) := by
  apply Meets.map
  apply ((BufferOp.run_spec hi op he).mono (fun _ => id) fun _ _ => trivial).mapError.mono ?_ fun _ => id
  rintro out ⟨-,hq,-⟩
  refine ⟨⟨[],(List.append_nil _).symm,fun _ => rfl⟩,List.prefix_rfl,le_rfl,le_rfl,?_⟩
  intro taken ht
  have hout : out.1.readable = (op.queue s.conn.inputBuffer.readable).1 := congrArg Prod.fst hq
  change taken ++ out.1.readable = s.conn.inputBuffer.readable ++ []
  rw [hout,List.append_nil]
  cases op with
  | retrieve len | retrieveUntil len | retrieveAsString len =>
    cases ht
    exact List.take_append_drop _ _
  | retrieveAll | retrieveAllAsString =>
    cases ht
    exact List.append_nil _
  | ensureWritableBytes len =>
    cases ht
    rfl
  | append _ | write _ | unwrite _ | prepend _ | readFd _ => cases ht

private theorem code_passes (hb : s.Bytes) (he : s.Enabled a) : Meets (s.Passes a) (fun _ => True) (s.code a) := by
  have hsame (u : Session) (h : s.Flows a.answer u) (ht : s.takenBy a = some []) (hr : s.readBy a = none) : s.Passes a u :=
    h.passes rfl rfl rfl rfl (by rw [hr]; exact (List.append_nil _).symm) ht
  cases a with
  | call t c => exact hsame _ (call_flows t c) rfl rfl
  | resume t n => exact (resume_flows hb.output he).mono (fun u hu => hsame u hu rfl rfl) fun _ => id
  | event revents => exact hsame _ (.of_eq rfl rfl le_rfl le_rfl rfl) rfl rfl
  | handler r n =>
    obtain ⟨-,he⟩ := he
    rw [code]
    split
    · next hd =>
      rw [hd] at he
      exact he.elim
    · next handler rest hd =>
      rw [hd] at he
      have hother (hne : handler ≠ .handleRead) : s.readBy (.handler r n) = none := by
        cases r with
        | failed errno => rfl
        | received bytes => exact if_neg (by rw [hd]; simpa using hne)
      cases handler with
      | handleRead => exact handleRead_passes hb.input hd he
      | handleWrite =>
        refine (handleWrite_flows (s := { s with dispatching := rest }) hb.output he).mono ?_ fun _ => id
        exact fun u hu => hsame u (hu.base rfl rfl rfl rfl rfl) rfl (hother (by simp))
      | handleClose =>
        refine (handleClose_flows (s := { s with dispatching := rest }) (n := n)).mono ?_ fun _ => id
        exact fun u hu => hsame u (hu.base rfl rfl rfl rfl rfl) rfl (hother (by simp))
      | handleError => exact hsame _ (.of_eq rfl rfl le_rfl le_rfl rfl) rfl (hother (by simp))
  | functor n =>
    obtain ⟨-,-,he⟩ := he
    rw [code]
    split
    · exact hsame _ (.of_eq rfl rfl le_rfl le_rfl rfl) rfl rfl
    · next f rest hq =>
      rw [hq] at he
      refine (functor_flows (s := { s with ioQueue := rest }) hb.output he).mono ?_ fun _ => id
      exact fun u hu => hsame u (hu.base rfl rfl rfl rfl rfl) rfl rfl
  | handleWrite n => exact (handleWrite_flows hb.output he.2).mono (fun u hu => hsame u hu rfl rfl) fun _ => id
  | removeConnectionInLoop =>
    apply removeConnectionInLoop_spec.mono ?_ (fun _ _ => trivial)
    rintro u ⟨-,rfl⟩
    exact hsame _ (.of_eq rfl rfl le_rfl le_rfl rfl) rfl rfl
  | input op => exact input_passes hb.input he.2
  | setWriteCompleteCallback cb => exact hsame _ (.of_eq rfl rfl le_rfl le_rfl rfl) rfl rfl
  | setHighWaterMarkCallback cb mark => exact hsame _ (.of_eq rfl rfl le_rfl le_rfl rfl) rfl rfl

end Session

namespace LinkEnd
variable {x y : LinkEnd} {a : ConnStep}

/-- What holds of a side whatever the other one does. -/
structure Sound (x : LinkEnd) : Prop where
  bytes : x.session.Bytes
  order : x.session.Order
  watched : x.session.Watched
  whole : x.session.shutdownWrites ≠ 0 → x.session.closeCallbacks = 0 → x.session.SentWhole
  input : x.consumed ++ x.session.conn.inputBuffer.readable = x.received

/-- What x has of y's output. After the end of the stream y has no more to send. -/
structure Receives (x y : LinkEnd) : Prop where
  received : x.received <+: y.session.accepted
  ended : x.ended = true → x.received = y.session.accepted ∧ y.session.shutdownWrites ≠ 0 ∧ y.session.SentWhole

private theorem sentWhole_mono {s u : Session} (h : s.SentWhole) (ha : u.accepted = s.accepted)
    (he : s.executed <+: u.executed) : u.SentWhole := by
  obtain ⟨done,hdone,hbytes⟩ := h
  exact ⟨done,hdone.trans he,ha.trans hbytes⟩

/-- After its half-close a side sends nothing more. -/
theorem accepted_eq {s u : Session} (h : s.Passes a u) (ha : s.shutdownWrites ≠ 0 → a.answer ≤ 0)
    (hs : s.shutdownWrites ≠ 0) : u.accepted = s.accepted := by
  obtain ⟨bytes,hbytes,hnone⟩ := h.accepted
  rw [hbytes,hnone (ha hs),List.append_nil]

private theorem Sound.whole_step (h : x.Sound) (he : x.Enabled y a) {u : Session} (hp : x.session.Passes a u)
    (hb : u.Bytes) (hempty : x.session.closeCallbacks = 0 → x.session.HalfClosesEmpty u)
    (hs : u.shutdownWrites ≠ 0) (hc : u.closeCallbacks = 0) : u.SentWhole := by
  have hc0 : x.session.closeCallbacks = 0 := Nat.le_zero.mp (hc ▸ hp.closeCallbacks)
  by_cases hs0 : x.session.shutdownWrites = 0
  · -- the half-close of this step, with nothing left to send
    have hnil := hempty hc0 (by rw [hs0]; exact hs)
    refine ⟨u.executed,List.prefix_rfl,?_⟩
    rw [← hb.stream,hnil,List.append_nil]
  · exact sentWhole_mono (h.whole hs0 hc0) (accepted_eq hp he.2.1 hs0) hp.executed

private theorem Receives.reads (h : x.Receives y) (hy : y.Sound) (he : x.Enabled y a) (u : Session) (consumed : List UInt8) :
    Receives ⟨u,x.received ++ (x.session.readBy a).getD [],consumed,
      x.ended || decide (x.session.readBy a = some [] ∧ y.session.closeCallbacks = 0)⟩ y := by
  have hdeliver := he.2.2.2
  cases hr : x.session.readBy a with
  | none =>
    refine ⟨by simpa using h.received,fun hend => ?_⟩
    simpa using h.ended (by simpa using hend)
  | some bytes =>
    obtain ⟨hfront,hend⟩ := hdeliver bytes hr
    refine ⟨hfront,fun hended => ?_⟩
    dsimp only at hended ⊢
    rw [Option.getD_some]
    rcases Bool.or_eq_true_iff.mp hended with hold | hnew
    · obtain ⟨hall,hshut,hwhole⟩ := h.ended hold
      refine ⟨?_,hshut,hwhole⟩
      rw [hall] at hfront ⊢
      exact hfront.eq_of_length_le (List.prefix_append _ _).length_le
    · obtain ⟨hnil,hopen⟩ := of_decide_eq_true hnew
      cases hnil
      obtain ⟨hall,hclosed⟩ := hend rfl
      have hshut : y.session.shutdownWrites ≠ 0 := hclosed.elim id fun hc => (hc hopen).elim
      exact ⟨by rw [List.append_nil]; exact hall,hshut,hy.whole hshut hopen⟩

private theorem Receives.writes (h : y.Receives x) (he : x.Enabled y a) {u : Session} (hp : x.session.Passes a u)
    (received consumed : List UInt8) (ended : Bool) : y.Receives ⟨u,received,consumed,ended⟩ := by
  obtain ⟨bytes,hbytes,-⟩ := hp.accepted
  refine ⟨?_,fun hended => ?_⟩
  · change y.received <+: u.accepted
    rw [hbytes]
    exact h.received.trans (List.prefix_append _ _)
  · obtain ⟨hall,hshut,hwhole⟩ := h.ended hended
    have hsame := accepted_eq hp he.2.1 hshut
    refine ⟨hall.trans hsame.symm,?_,sentWhole_mono hwhole hsame hp.executed⟩
    exact Nat.pos_iff_ne_zero.mp ((Nat.pos_iff_ne_zero.mpr hshut).trans_le hp.shutdownWrites)

private theorem step_keeps (hx : x.Sound) (hy : y.Sound) (hr : x.Receives y) (hw : y.Receives x) (he : x.Enabled y a) :
    Meets (fun x' => x'.Sound ∧ x'.Receives y ∧ y.Receives x') ConnFault.Elsewhere (x.step y a) := by
  have hstream := Session.code_keeps_stream hx.bytes hx.order he.1
  have hwatched := Session.code_watched hx.watched he.1
  have hpasses := Session.code_passes hx.bytes he.1
  have hempty := fun h0 => Session.code_empty hx.watched h0 he.1
  unfold step
  cases hrun : x.session.code a with
  | error e =>
    rw [hrun] at hstream
    exact hstream
  | ok u =>
    rw [hrun] at hstream hwatched hpasses hempty
    obtain ⟨hb,ho⟩ := hstream
    have hp : x.session.Passes a u := hpasses
    refine ⟨⟨hb,ho,hwatched,fun hs hc => hx.whole_step he hp hb hempty hs hc,?_⟩,hr.reads hy he u _,hw.writes he hp _ _ _⟩
    obtain ⟨taken,ht⟩ := Option.isSome_iff_exists.mp he.2.2.1
    change (x.consumed ++ (x.session.takenBy a).getD []) ++ u.conn.inputBuffer.readable = _
    rw [ht,Option.getD_some,List.append_assoc,hp.input taken ht,← List.append_assoc,hx.input]

private theorem established_sound (owner : Owner) (loopThread : Nat) (sockfd : Int) (mark : Nat) :
    (established owner loopThread sockfd mark).Sound := by
  refine ⟨Session.established_bytes owner loopThread sockfd mark,Session.established_order owner loopThread sockfd mark,
    Session.established_watched owner loopThread sockfd mark,fun h => (h rfl).elim,?_⟩
  apply List.length_eq_zero_iff.mp
  exact Buffer.initial_wf.length_readable.trans (by rw [Buffer.initial_wf.readableBytes_eq]; rfl)

/-- What the user of x has read, what waits for it, and what y has still to send are together
the messages of y, those of each thread in its order; and the stream that ended did so behind
a whole message. -/
structure Delivered (x y : LinkEnd) : Prop where
  bytes : x.consumed ++ x.session.conn.inputBuffer.readable ++ x.inFlight y ++ y.session.conn.outputBuffer.readable =
    (y.session.executed.map Prod.snd).flatten
  order : ∀ t, byThread t y.session.executed <+: byThread t y.session.sent
  whole : x.ended = true → x.inFlight y = [] ∧ ∃ done, done <+: y.session.executed ∧
    x.consumed ++ x.session.conn.inputBuffer.readable = (done.map Prod.snd).flatten

private theorem Receives.delivered (h : x.Receives y) (hx : x.Sound) (hy : y.Sound) : x.Delivered y := by
  refine ⟨?_,(Session.intact_of hy.bytes hy.order).order,fun hended => ?_⟩
  · rw [hx.input,inFlight,List.prefix_iff_eq_append.mp h.received]
    exact hy.bytes.stream
  · obtain ⟨hall,-,done,hdone,hbytes⟩ := h.ended hended
    refine ⟨?_,done,hdone,?_⟩
    · rw [inFlight,hall]
      exact List.drop_length
    · rw [hx.input,hall]
      exact hbytes

end LinkEnd

namespace Link

private theorem step_sound (l : Link) (a : LinkStep)
    (h : l.left.Sound ∧ l.right.Sound ∧ l.left.Receives l.right ∧ l.right.Receives l.left) (he : machine.Enabled l a) :
    Meets (fun l => l.left.Sound ∧ l.right.Sound ∧ l.left.Receives l.right ∧ l.right.Receives l.left) ConnFault.Elsewhere
      (machine.step l a) := by
  obtain ⟨hl,hr,hlr,hrl⟩ := h
  cases a with
  | left a =>
    apply Meets.map
    refine (LinkEnd.step_keeps hl hr hlr hrl he).mono ?_ fun _ => id
    exact fun x hx => ⟨hx.1,hr,hx.2.1,hx.2.2⟩
  | right a =>
    apply Meets.map
    refine (LinkEnd.step_keeps hr hl hrl hlr he).mono ?_ fun _ => id
    exact fun x hx => ⟨hl,hx.1,hx.2.2,hx.2.1⟩

/-- However the two loops, the other threads and the network interleave, each side's user reads
the other side's messages, complete, in order and once. Nothing is lost on the way, and a stream
that was half-closed ends behind a whole message. -/
theorem link_delivers_what_was_sent (owner owner' : Owner) (loopThread loopThread' : Nat) (sockfd sockfd' : Int)
    (mark mark' : Nat) (steps : List LinkStep)
    (ha : machine.Admissible ⟨.established owner loopThread sockfd mark,.established owner' loopThread' sockfd' mark'⟩ steps) :
    (∀ l, machine.exec ⟨.established owner loopThread sockfd mark,.established owner' loopThread' sockfd' mark'⟩ steps = .ok l →
      l.left.Delivered l.right ∧ l.right.Delivered l.left) ∧
    ∀ e, machine.exec ⟨.established owner loopThread sockfd mark,.established owner' loopThread' sockfd' mark'⟩ steps = .error e →
      e.Elsewhere := by
  have hrun := machine.exec_invariant step_sound steps _ ⟨LinkEnd.established_sound owner loopThread sockfd mark,
    LinkEnd.established_sound owner' loopThread' sockfd' mark',⟨List.nil_prefix,by simp [LinkEnd.established]⟩,
    ⟨List.nil_prefix,by simp [LinkEnd.established]⟩⟩ ha
  refine meets_iff.mp (hrun.mono ?_ fun _ => id)
  rintro l ⟨hl,hr,hlr,hrl⟩
  exact ⟨hlr.delivered hl hr,hrl.delivered hr hl⟩

private def twoMessagesThenEnd : List LinkStep :=
  [.left (.call 0 (.send ⟨[10,20,30],by decide⟩)),.left (.resume 0 3),.right (.event POLLIN),
    .right (.handler (.received [10,20]) 0),.right (.input (.retrieve 1)),.left (.call 0 (.send ⟨[40],by decide⟩)),
    .left (.resume 0 1),.left (.call 0 .shutdown),.left (.resume 0 0),.right (.event POLLIN),
    .right (.handler (.received [30,40]) 0),.right (.input .retrieveAllAsString),.right (.event POLLIN),
    .right (.handler (.received []) 0)]

/-- A message cut by the network and by its reader, another one, and a half-close. -/
theorem link_delivers_two_messages :
    machine.Admissible ⟨.established .client 0 5 0,.established (.server true) 9 6 0⟩ twoMessagesThenEnd ∧
    ∃ l, machine.exec ⟨.established .client 0 5 0,.established (.server true) 9 6 0⟩ twoMessagesThenEnd = .ok l ∧
      l.right.ended = true ∧ l.right.consumed = [10,20,30,40] ∧ l.left.Delivered l.right ∧ l.right.Delivered l.left := by
  have ha : machine.Admissible ⟨.established .client 0 5 0,.established (.server true) 9 6 0⟩ twoMessagesThenEnd := by
    decide +kernel
  obtain ⟨l,hl,hend,hread⟩ := Meets.ok_of_no_error (P := fun l : Link => l.right.ended = true ∧ l.right.consumed = [10,20,30,40])
    (Q := fun _ => False) (x := machine.exec ⟨.established .client 0 5 0,.established (.server true) 9 6 0⟩ twoMessagesThenEnd)
    (by decide +kernel) fun _ => id
  exact ⟨ha,l,hl,hend,hread,(link_delivers_what_was_sent .client (.server true) 0 9 5 6 0 0 twoMessagesThenEnd ha).1 l hl⟩

end Link
end LearningMuduo.Tcp
