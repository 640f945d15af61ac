import LearningMuduo.Tcp.ConnectionEffects
import LearningMuduo.Tcp.OutputStream

/-! The high-water-mark notification along every run of a connection: when it is queued, and what
becomes of it. -/
namespace LearningMuduo.Tcp
open Library Reactor

/-- A queued call of a `highWaterMarkCallback_`: the callback and the length it is given. -/
def ConnFunctor.mark? : ConnFunctor → Option (Nat × Nat)
  | .highWaterMark cb len => some (cb,len)
  | _ => none

namespace Session
variable {s u v : Session}

def outputLength (s : Session) : Nat := s.conn.outputBuffer.readableBytes

/-- The output buffer has gone from below the mark to the mark or beyond. -/
def Crosses (s u : Session) : Prop :=
  s.outputLength < s.conn.highWaterMark ∧ s.conn.highWaterMark ≤ u.outputLength

instance (s u : Session) : Decidable (s.Crosses u) := inferInstanceAs (Decidable (_ ∧ _))

/-- The call of the connection's callback, if it has one, with the given length. -/
def due (s : Session) (len : Nat) : List (Nat × Nat) := (s.conn.highWaterMarkCallback.map (·,len)).toList

/-- The call that a step makes due: of the callback set when it crosses the mark, with the length reached. -/
def crossed (s : Session) (a : ConnStep) : List (Nat × Nat) :=
  match s.code a with
  | .ok u => if s.Crosses u then s.due u.outputLength else []
  | .error _ => []

/-- The call of a `highWaterMarkCallback_` that the loop makes in a step. -/
def notified (s : Session) : ConnStep → List (Nat × Nat)
  | .functor _ => (s.ioQueue.head?.bind ConnFunctor.mark?).toList
  | _ => []

/-- The calls that are queued. -/
def pendingMarks (s : Session) : List (Nat × Nat) := s.ioQueue.filterMap ConnFunctor.mark?

/-- A crossing queues the call that is due, and nothing else does. -/
private def Marked (s u : Session) : Prop :=
  u.pendingMarks = s.pendingMarks ++ if s.Crosses u then s.due u.outputLength else []

private theorem Marked.of_calm (hq : u.pendingMarks = s.pendingMarks) (hl : u.outputLength ≤ s.outputLength) : s.Marked u := by
  rw [Marked,if_neg,List.append_nil,hq]
  rintro ⟨hlt,hle⟩
  omega

private theorem Marked.base (h : v.Marked u) (hc : v.conn = s.conn) (hq : v.pendingMarks = s.pendingMarks) : s.Marked u := by
  have hl : v.outputLength = s.outputLength := congrArg (fun c : TcpConnection => c.outputBuffer.readableBytes) hc
  simp only [Marked,Crosses,due,hl,hc,hq] at h
  exact h

private theorem pendingMarks_writeComplete (cb : UserCallback) :
    (s.notify .writeComplete cb).pendingMarks = s.pendingMarks := by
  cases cb with
  | none => rfl
  | some cb => exact (List.filterMap_append).trans (List.append_nil _)

private theorem pendingMarks_highWaterMark (len : Nat) :
    (s.notify (.highWaterMark · len) s.conn.highWaterMarkCallback).pendingMarks = s.pendingMarks ++ s.due len := by
  rw [due]
  cases s.conn.highWaterMarkCallback with
  | none => exact (List.append_nil _).symm
  | some cb => exact List.filterMap_append

private theorem pendingMarks_append (more : List ConnFunctor) (hs : u.ioQueue = s.ioQueue ++ more)
    (hn : more.filterMap ConnFunctor.mark? = []) : u.pendingMarks = s.pendingMarks := by
  rw [pendingMarks,hs,List.filterMap_append,hn,List.append_nil]
  rfl

private theorem writeDirect_quiet (s : Session) {message : List UInt8} {n : Int} (hn : WriteAnswer n message.length)
    (hfits : message.length < 2^64) : ∃ (v : Session) (k : Nat), s.writeDirect message n = (v,(k : Int),message.length-k) ∧
      v.conn = s.conn ∧ v.pendingMarks = s.pendingMarks := by
  rw [writeDirect]
  split
  · split
    · rename_i h0
      have hk : ((n.toNat : Nat) : Int) = n := Int.toNat_of_nonneg h0
      have hrest : wordSub message.length n.toNat = message.length-n.toNat := by
        have hle := hn.2
        exact wordSub_eq (by omega) hfits
      have hplain : (s.accept (message.take n.toNat)).pendingMarks = s.pendingMarks := rfl
      rw [hrest]
      dsimp only
      split
      · exact ⟨s.accept (message.take n.toNat),n.toNat,by rw [hk],rfl,hplain⟩
      · let v := s.accept (message.take n.toNat)
        have hconn : (v.notify .writeComplete v.conn.writeCompleteCallback).conn = s.conn := v.conn_notify _ _
        exact ⟨v.notify .writeComplete v.conn.writeCompleteCallback,n.toNat,by rw [hk],hconn,
          (pendingMarks_writeComplete _).trans hplain⟩
    · exact ⟨s,0,rfl,rfl,rfl⟩
  · exact ⟨s,0,rfl,rfl,rfl⟩

private theorem bufferRest_marked (h : s.conn.outputBuffer.WF) (message : Message) (k : Nat) :
    Meets s.Marked (fun _ => True) (s.bufferRest message.bytes k (message.bytes.length-k)) := by
  have hfits := message.fits
  have hlen : (message.bytes.drop k).length ≤ maxSize := by
    rw [List.length_drop]
    omega
  let reached := wordAdd s.outputLength (message.bytes.length-k)
  -- v is s with or without the call queued
  have hrest (v : Session) (hv : v.conn = s.conn) (hq : v.pendingMarks = s.pendingMarks ++
      if s.conn.highWaterMark ≤ reached ∧ s.outputLength < s.conn.highWaterMark then s.due reached else []) :
      Meets s.Marked (fun _ => True) ((v.conn.outputBuffer.append (message.bytes.drop k)).mapError ConnFault.buffer >>= fun b =>
        pure (if ¬ (v.setOutput b).conn.channel.isWriting then (v.setOutput b).interest .enableWriting else v.setOutput b)) := by
    rw [hv]
    apply ((Buffer.append_spec h hlen).mono (fun _ => id) fun _ _ => trivial).mapError.bind
    rintro b ⟨hk,hr⟩
    have hb : b.readableBytes = s.outputLength+(message.bytes.length-k) := by
      rw [← hk.1.length_readable,hr,List.length_append,h.length_readable,List.length_drop]
      rfl
    have hreached : reached = b.readableBytes := by
      have hw := hk.1.writer_le
      have hs := hk.1.size_le
      have hn := hk.1.readableBytes_eq
      have hbound : maxSize < 2^64 := by decide
      exact (wordAdd_eq (by omega)).trans hb.symm
    have hmarked (u : Session) (hpending : u.pendingMarks = v.pendingMarks) (hlength : u.outputLength = b.readableBytes) :
        s.Marked u := by
      rw [Marked,hpending,hq,hreached,hlength]
      congr 1
      refine if_congr ?_ rfl rfl
      rw [Crosses,hlength]
      exact and_comm
    change Marked s _
    split
    · exact hmarked _ rfl rfl
    · exact hmarked _ rfl rfl
  rw [bufferRest]
  dsimp only
  split
  · rename_i hcross
    refine hrest _ (s.conn_notify _ _) (Eq.trans ?_ (congrArg (s.pendingMarks ++ ·) (if_pos hcross).symm))
    exact pendingMarks_highWaterMark reached
  · rename_i hcross
    refine hrest s rfl (Eq.trans ?_ (congrArg (s.pendingMarks ++ ·) (if_neg hcross).symm))
    exact (List.append_nil _).symm

private theorem sendInLoop_marked (h : s.conn.outputBuffer.WF) (t : Nat) (message : Message) {n : Int}
    (hn : WriteAnswer n message.bytes.length) : Meets s.Marked (fun _ => True) (s.sendInLoop t message n) := by
  have hfits : message.bytes.length < 2^64 := lt_of_le_of_lt message.fits (by decide)
  obtain ⟨v,k,hd,hc,hq⟩ := writeDirect_quiet (s.started t message.bytes) hn hfits
  rw [sendInLoop,hd]
  change Meets _ _ (require _ _ >>= _)
  rw [require_pos (Int.natCast_nonneg k),bind_ok,Int.toNat_natCast]
  have hwf : v.conn.outputBuffer.WF := hc ▸ h
  split
  · exact (bufferRest_marked hwf message k).mono (fun u hu => hu.base hc hq) fun _ => id
  · refine .of_calm hq (le_of_eq ?_)
    exact congrArg (fun c : TcpConnection => c.outputBuffer.readableBytes) hc

private theorem shutdownInLoop_calm (s : Session) :
    s.shutdownInLoop.pendingMarks = s.pendingMarks ∧ s.shutdownInLoop.outputLength = s.outputLength := by
  rw [shutdownInLoop]
  split
  · exact ⟨rfl,rfl⟩
  · exact ⟨rfl,rfl⟩

private theorem drained_calm (s : Session) :
    s.drained.pendingMarks = s.pendingMarks ∧ s.drained.outputLength = s.outputLength := by
  have hend (v : Session) (hq : v.pendingMarks = s.pendingMarks) (hl : v.outputLength = s.outputLength) :
      (if v.conn.state = .kDisconnecting then v.shutdownInLoop else v).pendingMarks = s.pendingMarks ∧
        (if v.conn.state = .kDisconnecting then v.shutdownInLoop else v).outputLength = s.outputLength := by
    split
    · obtain ⟨hq',hl'⟩ := v.shutdownInLoop_calm
      exact ⟨hq'.trans hq,hl'.trans hl⟩
    · exact ⟨hq,hl⟩
  rw [drained]
  refine hend _ (pendingMarks_writeComplete (s := s.interest .disableWriting) _) ?_
  rw [outputLength,conn_notify]
  rfl

private theorem handleWrite_marked (h : s.conn.outputBuffer.WF) {n : Int}
    (hn : WriteAnswer n s.conn.outputBuffer.readableBytes) : Meets s.Marked (fun _ => True) (s.handleWrite n) := by
  rw [handleWrite]
  split
  · have hle : n.toNat ≤ s.conn.outputBuffer.readableBytes := by
      have hle := hn.2
      omega
    obtain ⟨b,hb,hk,hr⟩ := Buffer.retrieve_spec h hle
    have hl : b.readableBytes ≤ s.outputLength := by
      rw [← hk.1.length_readable,hr,List.length_drop,h.length_readable]
      exact Nat.sub_le _ _
    rw [hb]
    change Marked s _
    split
    · obtain ⟨hq',hl'⟩ := drained_calm ((s.accept (s.conn.outputBuffer.readable.take n.toNat)).setOutput b)
      exact .of_calm hq' (hl'.trans_le hl)
    · exact .of_calm rfl hl
  · exact .of_calm rfl le_rfl

private theorem handleClose_marked : Meets s.Marked (fun _ => True) s.handleClose := by
  apply handleClose_spec.mono ?_ fun _ _ => trivial
  rintro u ⟨-,⟨-,rfl⟩ | ⟨-,-,rfl⟩⟩
  · exact .of_calm rfl le_rfl
  · exact .of_calm (pendingMarks_append [.connectDestroyed] rfl rfl) le_rfl

private theorem handleRead_marked (s : Session) (r : ReadvResult) : Meets s.Marked (fun _ => True) (s.handleRead r) := by
  rw [handleRead]
  cases s.conn.inputBuffer.readFd r with
  | error e => trivial
  | ok out =>
    obtain ⟨b,n,errno⟩ := out
    change Meets s.Marked _ (if n = 0 then _ else _)
    split
    · exact (handleClose_marked (s := s.setInput b)).mono (fun u hu => hu) fun _ => id
    · exact .of_calm rfl le_rfl

private theorem call_marked (t : Nat) (c : Call) : s.Marked (s.call t c) := by
  obtain he | ⟨p,-,he⟩ | ⟨message,p,-,he⟩ := s.call_cases t c
  all_goals
    rw [he]
    exact .of_calm rfl le_rfl

/-- What a thread is about to push is no such call. -/
private def CallPoint.Unmarked : Option CallPoint → Prop
  | some (.queue f) => f.mark? = none
  | _ => True

private def Unmarked (s : Session) : Prop := ∀ t, CallPoint.Unmarked (s.calls t)

private theorem resume_marked (h : s.conn.outputBuffer.WF) (hcalls : s.Unmarked) {t : Nat} {n : Int}
    (he : CallAnswer n (s.calls t)) : Meets s.Marked (fun _ => True) (s.resume t n) := by
  rw [resume]
  split
  · exact .of_calm rfl le_rfl
  · rename_i message hcall
    rw [hcall] at he
    exact (sendInLoop_marked (s := s.setCall t none) h t message he).mono (fun u hu => hu.base rfl rfl) fun _ => id
  · split
    · obtain ⟨hq,hl⟩ := shutdownInLoop_calm ((s.setCall t none).setState .kDisconnecting)
      exact .of_calm hq hl.le
    · exact .of_calm rfl le_rfl
  · exact .of_calm rfl le_rfl
  · rename_i f hcall
    have hf := hcalls t
    rw [hcall] at hf
    refine .of_calm (pendingMarks_append [f] rfl ?_) le_rfl
    rw [List.filterMap_cons_none hf,List.filterMap_nil]

private theorem runFunctor_marked (h : s.conn.outputBuffer.WF) {f : ConnFunctor} {n : Int} {rest : List ConnFunctor}
    (he : FunctorAnswer n (f :: rest)) : Meets s.Marked (fun _ => True) (s.runFunctor n f) := by
  cases f with
  | sendInLoop t message => exact sendInLoop_marked h t message he
  | shutdownInLoop =>
    obtain ⟨hq,hl⟩ := s.shutdownInLoop_calm
    exact .of_calm hq hl.le
  | forceCloseInLoop =>
    change Meets _ _ (if _ then _ else _)
    split
    · exact handleClose_marked
    · exact .of_calm rfl le_rfl
  | connectDestroyed =>
    refine connectDestroyed_spec.mono ?_ fun _ _ => trivial
    rintro u ⟨-,rfl⟩
    exact .of_calm rfl le_rfl
  | writeComplete cb => exact .of_calm rfl le_rfl
  | highWaterMark cb len => exact .of_calm rfl le_rfl

private theorem code_marked (hb : s.Bytes) (hcalls : s.Unmarked) {a : ConnStep} (he : s.Enabled a) :
    Meets (fun u => s.notified a ++ u.pendingMarks = s.pendingMarks ++ if s.Crosses u then s.due u.outputLength else [])
      (fun _ => True) (s.code a) := by
  cases a with
  | call t c => exact call_marked t c
  | resume t n => exact resume_marked hb.output hcalls he
  | event revents => exact Marked.of_calm (u := s.event revents) rfl le_rfl
  | handler r n =>
    obtain ⟨-,he⟩ := he
    rw [code]
    split
    · exact Marked.of_calm (u := s) rfl le_rfl
    · rename_i handler rest hd
      rw [hd] at he
      cases handler with
      | handleRead => exact handleRead_marked { s with dispatching := rest } r
      | handleWrite => exact handleWrite_marked (s := { s with dispatching := rest }) hb.output he
      | handleClose => exact handleClose_marked (s := { s with dispatching := rest })
      | handleError => exact Marked.of_calm (u := { s with dispatching := rest }) rfl le_rfl
  | functor n =>
    obtain ⟨-,-,he⟩ := he
    rw [code,notified]
    split
    · rename_i hq
      rw [hq]
      exact Marked.of_calm (u := s) rfl le_rfl
    · rename_i f rest hq
      rw [hq] at he
      refine (runFunctor_marked (s := { s with ioQueue := rest }) hb.output he).mono (fun u hu => ?_) fun _ => id
      have hpending : s.pendingMarks = (f.mark?).toList ++ rest.filterMap ConnFunctor.mark? := by
        rw [pendingMarks,hq,List.filterMap_cons]
        cases f.mark? <;> rfl
      rw [hpending,List.append_assoc,hq]
      exact congrArg ((f.mark?).toList ++ ·) hu
  | handleWrite n => exact handleWrite_marked hb.output he.2
  | removeConnectionInLoop =>
    apply removeConnectionInLoop_spec.mono ?_ fun _ _ => trivial
    rintro u ⟨-,rfl⟩
    exact Marked.of_calm (pendingMarks_append [.connectDestroyed] rfl rfl) le_rfl
  | input op =>
    apply Meets.map
    refine (meets_true _).mono (fun out _ => ?_) fun _ _ => trivial
    exact Marked.of_calm (u := s.setInput out.1) rfl le_rfl
  | setWriteCompleteCallback cb => exact Marked.of_calm (s := s) rfl le_rfl
  | setHighWaterMarkCallback cb mark => exact Marked.of_calm (s := s) rfl le_rfl

private theorem Unmarked.setCall (h : s.Unmarked) {t : Nat} {p : Option CallPoint} (hp : CallPoint.Unmarked p) :
    (s.setCall t p).Unmarked :=
  setCall_forall (P := fun _ p => CallPoint.Unmarked p) h hp

private theorem call_unmarked (h : s.Unmarked) (t : Nat) (c : Call) : (s.call t c).Unmarked := by
  obtain he | ⟨p,hp,he⟩ | ⟨message,p,hp,he⟩ := s.call_cases t c
  · rw [he]
    exact h
  · rw [he]
    rcases hp with rfl | rfl
    · exact h.setCall trivial
    · exact h.setCall trivial
  · rw [he]
    rcases hp with ⟨-,rfl⟩ | ⟨-,rfl⟩
    · exact h.setCall trivial
    · exact h.setCall rfl

private theorem resume_unmarked (hb : s.conn.outputBuffer.WF) (h : s.Unmarked) {t : Nat} {n : Int}
    (he : CallAnswer n (s.calls t)) : Meets Unmarked (fun _ => True) (s.resume t n) := by
  have hnone : (s.setCall t none).Unmarked := h.setCall trivial
  rw [resume]
  split
  · exact h
  · rename_i message hcall
    rw [hcall] at he
    refine (sendInLoop_quiet (s := s.setCall t none) hb t he).mono (fun u hu => ?_) fun _ => id
    rw [Unmarked,hu.calls]
    exact hnone
  · split
    · rw [shutdownInLoop]
      split
      · exact hnone
      · exact hnone
    · exact (h.setCall rfl : (s.setCall t (some (.queue .shutdownInLoop))).Unmarked)
  · exact (h.setCall rfl : (s.setCall t (some (.queue .forceCloseInLoop))).Unmarked)
  · exact hnone

private theorem effect_calls (h : s.Effect u) : u.calls = s.calls := by
  cases h with
  | quiet h => exact h.calls
  | closes v h ho hs hu => rw [hu]; exact h.calls
  | forgets v h ho hp hu => rw [hu]; exact h.calls

private theorem code_unmarked (hb : s.conn.outputBuffer.WF) (h : s.Unmarked) {a : ConnStep} (he : s.Enabled a) :
    Meets Unmarked (fun _ => True) (s.code a) := by
  have heffect (hcall : ∀ t c, a ≠ .call t c) (hresume : ∀ t n, a ≠ .resume t n) (hfunctor : ∀ n, a ≠ .functor n)
      (hevent : ∀ revents, a ≠ .event revents) (hremove : a ≠ .removeConnectionInLoop) :
      Meets Unmarked (fun _ => True) (s.code a) := by
    refine (code_effect hb he hcall hresume hfunctor hevent hremove).mono (fun u hu => ?_) fun _ => id
    rw [Unmarked,effect_calls hu]
    exact h
  cases a with
  | call t c => exact call_unmarked h t c
  | resume t n => exact resume_unmarked hb h he
  | event revents => exact h
  | functor n =>
    obtain ⟨-,-,he⟩ := he
    rw [code]
    split
    · exact h
    · rename_i f rest hq
      rw [hq] at he
      refine (runFunctor_effect (s := { s with ioQueue := rest }) hb he).mono (fun u hu => ?_) fun _ => id
      rcases hu with hu | ⟨-,rfl⟩
      · rw [Unmarked,effect_calls hu]
        exact h
      · exact h
  | removeConnectionInLoop =>
    apply removeConnectionInLoop_spec.mono ?_ fun _ _ => trivial
    rintro u ⟨-,rfl⟩
    exact h
  | handler | handleWrite | input | setWriteCompleteCallback | setHighWaterMarkCallback =>
    exact heffect (by simp) (by simp) (by simp) (by simp) (by simp)

/-- What the history of a run says about the calls made and queued. -/
private structure Noted (s : Session) (before : List ConnStep) (t : Session) : Prop where
  reached : machine.exec s before = .ok t
  bytes : t.Bytes
  order : t.Order
  unmarked : t.Unmarked
  calls : machine.observe notified s before ++ t.pendingMarks = machine.observe crossed s before

private theorem Noted.step {t : Session} {before : List ConnStep} {a : ConnStep} (h : s.Noted before t) (he : t.Enabled a)
    (hu : t.code a = .ok u) : s.Noted (before ++ [a]) u := by
  have hkeep := code_keeps_stream h.bytes h.order he
  have hmark := code_marked h.bytes h.unmarked he
  have hnone := code_unmarked h.bytes.output h.unmarked he
  rw [hu] at hkeep hmark hnone
  have hcrossed : t.crossed a = if t.Crosses u then t.due u.outputLength else [] := by
    rw [crossed,hu]
  refine ⟨machine.exec_concat h.reached hu,hkeep.1,hkeep.2,hnone,?_⟩
  calc machine.observe notified s (before ++ [a]) ++ u.pendingMarks
      = machine.observe notified s before ++ (t.notified a ++ u.pendingMarks) := by
        rw [machine.observe_concat notified h.reached,List.append_assoc]
    _ = machine.observe notified s before ++ t.pendingMarks ++ t.crossed a := by
        rw [hmark,hcrossed,List.append_assoc]
    _ = machine.observe crossed s (before ++ [a]) := by
        rw [h.calls,machine.observe_concat crossed h.reached]

/-- Each step that brings the output buffer from below the mark to it or beyond is reported once, to
the callback set at that moment, with the length reached and in their order; the calls not made yet
are queued. -/
theorem high_water_mark_called_once (owner : Owner) (loopThread : Nat) (sockfd : Int) (mark : Nat) (as : List ConnStep)
    (s : Session) (ha : machine.Admissible (established owner loopThread sockfd mark) as)
    (hs : machine.exec (established owner loopThread sockfd mark) as = .ok s) :
    machine.observe notified (established owner loopThread sockfd mark) as ++ s.pendingMarks =
      machine.observe crossed (established owner loopThread sockfd mark) as := by
  have hstart : (established owner loopThread sockfd mark).Noted [] (established owner loopThread sockfd mark) :=
    ⟨rfl,established_bytes owner loopThread sockfd mark,established_order owner loopThread sockfd mark,
      fun _ => trivial,rfl⟩
  exact (machine.exec_ok_history hstart (fun _ _ _ _ h he hu => h.step he hu) ha hs).calls

private def overTheMarkTwice : List ConnStep :=
  [.setHighWaterMarkCallback (some 6) 3,.call 0 (.send ⟨[70,71,72,73,74],by decide⟩),.resume 0 1,
    .call 7 (.send ⟨[75,76],by decide⟩),.resume 7 0,.functor 0,.handleWrite 3,.handleWrite 1,.functor 0,
    .call 0 (.send ⟨[77],by decide⟩),.resume 0 0]

/-- Four bytes wait behind a short write, which is reported; two more are sent above the mark; four are
written, and one more byte reaches the mark again, with its call still queued. -/
theorem high_water_mark_called_once_twice :
    machine.observe notified (established .client 0 5 9) overTheMarkTwice = [(6,4)] ∧
      machine.observe crossed (established .client 0 5 9) overTheMarkTwice = [(6,4),(6,3)] ∧
    ∃ s, machine.exec (established .client 0 5 9) overTheMarkTwice = .ok s ∧
      machine.observe notified (established .client 0 5 9) overTheMarkTwice ++ s.pendingMarks =
        machine.observe crossed (established .client 0 5 9) overTheMarkTwice := by
  have ha : machine.Admissible (established .client 0 5 9) overTheMarkTwice := by decide +kernel
  obtain ⟨s,hs,-⟩ := Meets.ok_of_no_error (P := fun _ : Session => True) (Q := fun _ => False)
    (x := machine.exec (established .client 0 5 9) overTheMarkTwice) (by decide +kernel) fun _ => id
  exact ⟨by decide +kernel,by decide +kernel,s,hs,high_water_mark_called_once .client 0 5 9 overTheMarkTwice s ha hs⟩

end Session
end LearningMuduo.Tcp
