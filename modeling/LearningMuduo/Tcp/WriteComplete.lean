import LearningMuduo.Tcp.OutputStream
import LearningMuduo.Tcp.TcpServer

/-! When the write-complete callback is queued. -/
namespace LearningMuduo.Tcp
open Library Reactor

namespace Session
variable {cb : Nat} {s u : Session}

/-- The calls of the write-complete callback cb that wait in the loop. -/
def notifications (s : Session) (cb : Nat) : Nat := s.ioQueue.count (.writeComplete cb)

/-- The bytes that were given to `sendInLoop` and not yet to the kernel. -/
def unsent (s : Session) : List UInt8 := s.conn.outputBuffer.readable

/-- The bytes that a `sendInLoop` or `handleWrite` step has to send. -/
def toSend (s : Session) : ConnStep → Option (List UInt8)
  | .resume t _ => match s.calls t with
    | some (.send message) => some (s.unsent ++ message.bytes)
    | _ => none
  | .functor _ => match s.ioQueue with
    | .sendInLoop _ message :: _ => some (s.unsent ++ message.bytes)
    | _ => none
  | .handleWrite _ => some s.unsent
  | .handler _ _ => match s.dispatching with
    | .handleWrite :: _ => some s.unsent
    | _ => none
  | _ => none

/-- `write` takes the whole message, which `sendInLoop` offers to it only when nothing is buffered. -/
def SendCompletes (s : Session) (message : Message) (n : Int) : Prop :=
  ¬ s.conn.channel.isWriting ∧ s.unsent = [] ∧ n = message.bytes.length

/-- `write` takes all that is buffered. -/
def DrainCompletes (s : Session) (n : Int) : Prop := s.conn.channel.isWriting ∧ n = s.unsent.length

def Completes (s : Session) : ConnStep → Prop
  | .resume t n => match s.calls t with
    | some (.send message) => s.SendCompletes message n
    | _ => False
  | .functor n => match s.ioQueue with
    | .sendInLoop _ message :: _ => s.SendCompletes message n
    | _ => False
  | .handleWrite n => s.DrainCompletes n
  | .handler _ n => match s.dispatching with
    | .handleWrite :: _ => s.DrainCompletes n
    | _ => False
  | _ => False

/-- One notification of cb exactly if the step completes and cb is the connection's callback. -/
def Notifies (cb : Nat) (s u : Session) (completes : Prop) : Prop :=
  (completes → u.unsent = [] ∧
    u.notifications cb = s.notifications cb + (if s.conn.writeCompleteCallback = some cb then 1 else 0)) ∧
  (¬ completes → u.unsent ≠ [] ∧ u.notifications cb = s.notifications cb)

private theorem notifications_queueInLoop {f : ConnFunctor} (hf : f ≠ .writeComplete cb) :
    (s.queueInLoop f).notifications cb = s.notifications cb := by
  rw [notifications,queueInLoop,List.count_append,List.count_cons_of_ne hf]
  rfl

private theorem notifications_notify (cb : Nat) (s : Session) (own : UserCallback) :
    (s.notify .writeComplete own).notifications cb = s.notifications cb + (if own = some cb then 1 else 0) := by
  cases own with
  | none => rfl
  | some c =>
    by_cases hc : c = cb
    · rw [if_pos (congrArg some hc),hc]
      exact List.count_append.trans (congrArg _ List.count_singleton_self)
    · rw [if_neg (by simpa using hc)]
      exact notifications_queueInLoop (by simpa using hc)

private theorem unsent_notify (f : Nat → ConnFunctor) (own : UserCallback) : (s.notify f own).unsent = s.unsent := by
  cases own <;> rfl

private theorem bufferRest_notifies (cb : Nat) (h : s.conn.outputBuffer.WF) (message : Message) {k remaining : Nat}
    (hk : k < message.bytes.length) :
    Meets (fun u => u.unsent ≠ [] ∧ u.notifications cb = s.notifications cb) (fun _ => True)
      (s.bufferRest message.bytes k remaining) := by
  have hlen : (message.bytes.drop k).length ≤ maxSize := by
    have := message.fits
    rw [List.length_drop]
    omega
  have hrest : message.bytes.drop k ≠ [] := by
    intro hnil
    have hle := List.drop_eq_nil_iff.mp hnil
    omega
  have hbuffer (v : Session) (hc : v.conn = s.conn) (hq : v.notifications cb = s.notifications cb) :
      Meets (fun u => u.unsent ≠ [] ∧ u.notifications cb = s.notifications cb) (fun _ => True)
        ((v.conn.outputBuffer.append (message.bytes.drop k)).mapError ConnFault.buffer >>= fun b =>
          pure (if ¬ (v.setOutput b).conn.channel.isWriting then (v.setOutput b).interest .enableWriting
            else v.setOutput b)) := by
    have happend : Meets (fun b => b.readable ≠ []) (fun _ => True) (v.conn.outputBuffer.append (message.bytes.drop k)) := by
      rw [hc]
      refine (Buffer.append_spec h hlen).mono ?_ fun _ _ => trivial
      rintro b ⟨-,hr⟩
      rw [hr]
      simp [hrest]
    refine Meets.bind (Meets.mapError happend) fun b hb => ?_
    split
    · exact ⟨hb,hq⟩
    · exact ⟨hb,hq⟩
  unfold bufferRest
  dsimp only
  split
  · cases s.conn.highWaterMarkCallback with
    | none => exact hbuffer s rfl rfl
    | some c => exact hbuffer _ rfl (notifications_queueInLoop (by simp))
  · exact hbuffer s rfl rfl

/-- The direct write that takes everything. -/
theorem writeDirect_complete (h : s.conn.outputBuffer.WF) {message : List UInt8} {n : Int}
    (hw : ¬ s.conn.channel.isWriting) (hempty : s.unsent = []) (hall : n = message.length) :
    ∃ remaining, s.writeDirect message n =
      ((s.accept message).notify .writeComplete s.conn.writeCompleteCallback,n,remaining) := by
  have hbytes : s.conn.outputBuffer.readableBytes = 0 := by
    rw [← h.length_readable]
    exact List.length_eq_zero_iff.mpr hempty
  have htake : message.take n.toNat = message := List.take_of_length_le (by omega)
  unfold writeDirect
  rw [if_pos ⟨hw,hbytes⟩,if_pos (by omega),htake]
  dsimp only
  rw [if_neg (by omega)]
  exact ⟨wordSub message.length n.toNat,rfl⟩

/-- Otherwise a part of the message, or older bytes, are left. -/
theorem writeDirect_incomplete (cb : Nat) (h : s.conn.outputBuffer.WF) {message : Message} {n : Int}
    (hn : WriteAnswer n message.bytes.length) (hne : s.unsent ++ message.bytes ≠ [])
    (hno : ¬ s.SendCompletes message n) : ∃ (v : Session) (k remaining : Nat),
    s.writeDirect message.bytes n = (v,(k : Int),remaining) ∧
      v.conn = s.conn ∧ v.notifications cb = s.notifications cb ∧ k ≤ message.bytes.length ∧
      (k = message.bytes.length → s.unsent ≠ []) := by
  have hzero : 0 = message.bytes.length → s.unsent ≠ [] := by
    intro hlen hempty
    exact hne (by rw [hempty,List.length_eq_zero_iff.mp hlen.symm]; rfl)
  unfold writeDirect
  split
  · next hd =>
    have hempty : s.unsent = [] := List.length_eq_zero_iff.mp (h.length_readable.trans hd.2)
    have hlt : n < message.bytes.length := by
      have hle := hn.2
      have hneq : n ≠ message.bytes.length := fun hall => hno ⟨hd.1,hempty,hall⟩
      omega
    split
    · next hpos =>
      dsimp only
      rw [if_pos (by omega)]
      refine ⟨s.accept (message.bytes.take n.toNat),n.toNat,wordSub message.bytes.length n.toNat,?_,rfl,rfl,by omega,
        by omega⟩
      rw [Int.toNat_of_nonneg hpos]
    · exact ⟨s,0,_,rfl,rfl,rfl,Nat.zero_le _,hzero⟩
  · exact ⟨s,0,_,rfl,rfl,rfl,Nat.zero_le _,hzero⟩

private theorem sendInLoop_notifies (cb : Nat) (h : s.conn.outputBuffer.WF) (t : Nat) {message : Message} {n : Int}
    (hn : WriteAnswer n message.bytes.length) (hne : s.unsent ++ message.bytes ≠ []) :
    Meets (fun u => Notifies cb s u (s.SendCompletes message n)) (fun _ => ¬ s.SendCompletes message n)
      (s.sendInLoop t message n) := by
  let v := s.started t message.bytes
  unfold sendInLoop
  by_cases hc : s.SendCompletes message n
  · obtain ⟨remaining,hd⟩ := writeDirect_complete (s := v) h hc.1 hc.2.1 hc.2.2
    have hall := hc.2.2
    rw [hd]
    dsimp only
    rw [require_pos (by omega),bind_ok,if_neg (by omega)]
    refine ⟨fun _ => ⟨?_,notifications_notify cb (v.accept message.bytes) _⟩,fun hno => (hno hc).elim⟩
    rw [unsent_notify]
    exact hc.2.1
  · obtain ⟨w,k,remaining,hd,hconn,hq,hk,hfull⟩ := writeDirect_incomplete cb (s := v) h hn hne hc
    rw [hd]
    dsimp only
    rw [require_pos (Int.natCast_nonneg k),bind_ok,Int.toNat_natCast]
    split
    · next hlt =>
      refine (bufferRest_notifies cb (s := w) (by rw [hconn]; exact h) message hlt).mono ?_ fun _ _ => hc
      rintro u ⟨hu,hcount⟩
      exact ⟨fun hyes => (hc hyes).elim,fun _ => ⟨hu,hcount.trans hq⟩⟩
    · next hge =>
      refine ⟨fun hyes => (hc hyes).elim,fun _ => ⟨?_,hq⟩⟩
      rw [unsent,hconn]
      exact hfull (by omega)

private theorem drained_notifies (cb : Nat) (s : Session) : s.drained.unsent = s.unsent ∧
    s.drained.notifications cb = s.notifications cb + (if s.conn.writeCompleteCallback = some cb then 1 else 0) := by
  have hnote := notifications_notify cb (s.interest .disableWriting) s.conn.writeCompleteCallback
  have hunsent := unsent_notify (s := s.interest .disableWriting) .writeComplete s.conn.writeCompleteCallback
  have hshut (v : Session) : v.shutdownInLoop.unsent = v.unsent ∧
      v.shutdownInLoop.notifications cb = v.notifications cb := by
    unfold shutdownInLoop
    split
    · exact ⟨rfl,rfl⟩
    · exact ⟨rfl,rfl⟩
  unfold drained
  dsimp only
  split
  · exact ⟨(hshut _).1.trans hunsent,(hshut _).2.trans hnote⟩
  · exact ⟨hunsent,hnote⟩

private theorem handleWrite_notifies (cb : Nat) (h : s.conn.outputBuffer.WF) {n : Int}
    (hn : WriteAnswer n s.conn.outputBuffer.readableBytes) (hne : s.unsent ≠ []) :
    Meets (fun u => Notifies cb s u (s.DrainCompletes n)) (fun _ => ¬ s.DrainCompletes n) (s.handleWrite n) := by
  have hlen : s.unsent.length = s.conn.outputBuffer.readableBytes := h.length_readable
  have hpos := List.length_pos_iff.mpr hne
  have hle := hn.2
  unfold handleWrite
  split
  · next hw =>
    obtain ⟨b,hb,hk,hr⟩ := Buffer.retrieve_spec h (show n.toNat ≤ _ by omega)
    have hbytes : b.readableBytes = s.unsent.length - n.toNat := by
      rw [← hk.1.length_readable,hr,List.length_drop]
      rfl
    rw [hb]
    change Meets _ _ (pure _ : Except ConnFault Session)
    rw [meets_pure]
    split
    · next hzero =>
      obtain ⟨hu,hq⟩ := drained_notifies cb ((s.accept (s.conn.outputBuffer.readable.take n.toNat)).setOutput b)
      refine ⟨fun _ => ⟨?_,hq⟩,fun hno => (hno ⟨hw.1,by omega⟩).elim⟩
      rw [hu]
      exact List.length_eq_zero_iff.mp (hk.1.length_readable.trans hzero)
    · next hrest =>
      refine ⟨fun hc => ?_,fun _ => ⟨?_,rfl⟩⟩
      · have hall := hc.2
        omega
      · intro hnil
        exact hrest (hk.1.length_readable.symm.trans (List.length_eq_zero_iff.mpr hnil))
  · next hw =>
    refine ⟨fun hc => ?_,fun _ => ⟨hne,rfl⟩⟩
    have hall := hc.2
    exact (hw ⟨hc.1,by omega⟩).elim

/-- What a step that sends does, in terms of the answers it gets. -/
theorem step_notifies (cb : Nat) (hb : s.Bytes) {a : ConnStep} {bytes : List UInt8} (he : s.Enabled a)
    (ht : s.toSend a = some bytes) (hne : bytes ≠ []) :
    Meets (fun u => Notifies cb s u (s.Completes a)) (fun _ => ¬ s.Completes a) (s.code a) := by
  cases a with
  | resume t n =>
    rw [code,resume]
    rw [toSend] at ht
    change CallAnswer n (s.calls t) at he
    rw [Completes]
    cases hc : s.calls t with
    | none =>
      rw [hc] at ht
      cases ht
    | some point =>
      rw [hc] at ht he
      cases point with
      | send message =>
        cases ht
        exact sendInLoop_notifies cb (s := s.setCall t none) hb.output t he hne
      | shutdown | forceClose | queue f => cases ht
  | functor n =>
    rw [code]
    rw [toSend] at ht
    have hanswer := he.2.2
    rw [Completes]
    cases hq : s.ioQueue with
    | nil =>
      rw [hq] at ht
      cases ht
    | cons f rest =>
      rw [hq] at ht hanswer
      cases f with
      | sendInLoop t message =>
        cases ht
        have hsend := sendInLoop_notifies cb (s := { s with ioQueue := rest }) hb.output t hanswer hne
        have hcount : ({ s with ioQueue := rest } : Session).notifications cb = s.notifications cb := by
          rw [notifications,notifications,hq,List.count_cons_of_ne (by simp)]
        unfold Notifies at hsend ⊢
        rw [hcount] at hsend
        exact hsend
      | shutdownInLoop | forceCloseInLoop | connectDestroyed | writeComplete c | highWaterMark c len => cases ht
  | handleWrite n =>
    cases ht
    exact handleWrite_notifies cb hb.output he.2 hne
  | handler r n =>
    rw [code]
    rw [toSend] at ht
    have hanswer := he.2
    rw [Completes]
    cases hd : s.dispatching with
    | nil =>
      rw [hd] at ht
      cases ht
    | cons f rest =>
      rw [hd] at ht hanswer
      cases f with
      | handleWrite =>
        cases ht
        exact handleWrite_notifies cb (s := { s with dispatching := rest }) hb.output hanswer hne
      | handleRead | handleClose | handleError => cases ht
  | call t c | event revents | removeConnectionInLoop | input op | setWriteCompleteCallback c
  | setHighWaterMarkCallback c mark => cases ht

/-- In the run, each step that sends and leaves nothing unsent queues one call of cb, and each
one that leaves bytes unsent queues none. -/
def Notified (cb : Nat) (s₀ : Session) (ops : List ConnStep) : Prop :=
  ∀ before a after s u bytes, ops = before ++ a :: after → machine.exec s₀ before = .ok s →
    machine.step s a = .ok u → s.toSend a = some bytes → bytes ≠ [] →
    (u.unsent = [] → u.notifications cb = s.notifications cb+1) ∧
      (u.unsent ≠ [] → u.notifications cb = s.notifications cb)

/-- In the run, the connection's own callback is cb whenever a step sends the last byte. -/
def CallbackSet (cb : Nat) (s₀ : Session) (ops : List ConnStep) : Prop :=
  ∀ before a after s bytes, ops = before ++ a :: after → machine.exec s₀ before = .ok s →
    s.toSend a = some bytes → bytes ≠ [] → s.Completes a → s.conn.writeCompleteCallback = some cb

end Session

namespace TcpServer

/-- A connection of a server whose write-complete callback was set to cb, established. -/
def Accepts (server : TcpServer) (cb : Nat) (sockfd : Int) (mark : Nat) (s : Session) : Prop :=
  ((server.setWriteCompleteCallback cb).newConnection sockfd mark).2.connectEstablished = .ok s

private theorem Accepts.established {server : TcpServer} {cb : Nat} {sockfd : Int} {mark : Nat} {s : Session}
    (h : server.Accepts cb sockfd mark s) : ∃ owner loopThread, s = .established owner loopThread sockfd mark := by
  unfold Accepts newConnection at h
  dsimp only at h
  rw [Session.connectEstablished_new] at h
  cases h
  exact ⟨_,_,rfl⟩

open Session in
/-- In every run of a connection that a server with the write-complete callback cb has accepted,
the sends are notified through cb exactly when the connection's own callback is cb, which the
server does not see to, at each `sendInLoop` or `handleWrite` whose `write` takes the last byte. -/
theorem write_complete_notified_iff (server : TcpServer) (cb : Nat) (sockfd : Int) (mark : Nat) (s₀ : Session)
    (h₀ : server.Accepts cb sockfd mark s₀) (ops : List ConnStep) (ha : machine.Admissible s₀ ops) :
    Notified cb s₀ ops ↔ CallbackSet cb s₀ ops := by
  obtain ⟨owner,loopThread,rfl⟩ := h₀.established
  -- what each step that sends does, wherever it stands in the run
  have hstep {before a after s bytes} (hops : ops = before ++ a :: after)
      (hs : machine.exec (established owner loopThread sockfd mark) before = .ok s) (ht : s.toSend a = some bytes)
      (hne : bytes ≠ []) : Meets (fun u => Notifies cb s u (s.Completes a)) (fun _ => ¬ s.Completes a) (machine.step s a) := by
    rw [hops] at ha
    obtain ⟨hbefore,hrest⟩ := machine.admissible_append ha hs
    have hb := exec_stream hbefore
    rw [hs] at hb
    exact step_notifies cb hb.1 hrest.1 ht hne
  constructor
  · intro hnotified before a after s bytes hops hs ht hne hcomplete
    have hn := hstep hops hs ht hne
    cases hu : machine.step s a with
    | error e =>
      rw [hu] at hn
      exact (hn hcomplete).elim
    | ok u =>
      rw [hu] at hn
      obtain ⟨hempty,hcount⟩ := hn.1 hcomplete
      have hone := (hnotified before a after s u bytes hops hs hu ht hne).1 hempty
      by_contra hunset
      rw [if_neg hunset] at hcount
      omega
  · intro hset before a after s u bytes hops hs hu ht hne
    have hn := hstep hops hs ht hne
    rw [hu] at hn
    by_cases hcomplete : s.Completes a
    · obtain ⟨hempty,hcount⟩ := hn.1 hcomplete
      rw [if_pos (hset before a after s bytes hops hs ht hne hcomplete)] at hcount
      exact ⟨fun _ => hcount,fun hrest => (hrest hempty).elim⟩
    · obtain ⟨hrest,hcount⟩ := hn.2 hcomplete
      exact ⟨fun hempty => (hrest hempty).elim,fun _ => hcount⟩

private def chargen : TcpServer := .new 0 [7,8]

private def firstCall : List ConnStep := [.call 7 (.send ⟨[33,34,35],by decide⟩)]

private def firstLine : List ConnStep := firstCall ++ [.resume 7 3]

private theorem chargen_accepts : chargen.Accepts 1 5 64 (.established (.server false) 7 5 64) := rfl

/-- The user sets the callback on the connection itself before the first line is sent. -/
theorem write_complete_notified_own :
    Session.machine.Admissible (.established (.server false) 7 5 64) (.setWriteCompleteCallback (some 1) :: firstLine) ∧
    (Session.Notified 1 (.established (.server false) 7 5 64) (.setWriteCompleteCallback (some 1) :: firstLine) ↔
      Session.CallbackSet 1 (.established (.server false) 7 5 64) (.setWriteCompleteCallback (some 1) :: firstLine)) := by
  have ha : Session.machine.Admissible (.established (.server false) 7 5 64)
      (.setWriteCompleteCallback (some 1) :: firstLine) := by decide +kernel
  exact ⟨ha,write_complete_notified_iff chargen 1 5 64 _ chargen_accepts _ ha⟩

/-- The server has the callback and the kernel takes the whole line: nothing is queued. -/
theorem write_complete_lost : chargen.Accepts 1 5 64 (.established (.server false) 7 5 64) ∧
    Session.machine.Admissible (.established (.server false) 7 5 64) firstLine ∧
    ¬ Session.Notified 1 (.established (.server false) 7 5 64) firstLine := by
  refine ⟨rfl,by decide +kernel,?_⟩
  intro hnotified
  obtain ⟨s,hs,hsend,hstep⟩ : ∃ s, Session.machine.exec (.established (.server false) 7 5 64) firstCall = .ok s ∧
      s.toSend (.resume 7 3) = some [33,34,35] ∧
      Meets (fun u => u.unsent = [] ∧ u.notifications 1 = s.notifications 1) (fun _ => False)
        (Session.machine.step s (.resume 7 3)) :=
    Meets.ok_of_no_error (Q := fun _ => False) (by decide +kernel) (fun _ => id)
  obtain ⟨u,hu,hempty,hnone⟩ := hstep.ok_of_no_error fun _ => id
  have hone := (hnotified firstCall _ [] s u _ rfl hs hu hsend (by decide)).1 hempty
  omega

end TcpServer
end LearningMuduo.Tcp
