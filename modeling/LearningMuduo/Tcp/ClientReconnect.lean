import LearningMuduo.Tcp.ClientStop

/-! A client with retry: as long as it is wanted it has a connection or is on the way to one. -/
namespace LearningMuduo.Tcp
open Library Reactor

/-- The errors of `::connect` after which `connect()` closes the socket and does not retry. -/
def ConnectErrno.GivesUp : ConnectErrno → Prop
  | .EACCES | .EPERM | .EAFNOSUPPORT | .EALREADY | .EBADF | .EFAULT | .ENOTSOCK | .other _ => True
  | .success | .EINPROGRESS | .EINTR | .EISCONN
  | .EAGAIN | .EADDRINUSE | .EADDRNOTAVAIL | .ECONNREFUSED | .ENETUNREACH => False

instance : DecidablePred ConnectErrno.GivesUp
  | .EACCES | .EPERM | .EAFNOSUPPORT | .EALREADY | .EBADF | .EFAULT | .ENOTSOCK | .other _ => isTrue trivial
  | .success | .EINPROGRESS | .EINTR | .EISCONN
  | .EAGAIN | .EADDRINUSE | .EADDRNOTAVAIL | .ECONNREFUSED | .ENETUNREACH => isFalse id

namespace Connector
variable {s t : Connector} {op : ConnectorOp}

/-- A piece that leads on to an attempt, or to the connection it has won. -/
def Attempts : ConnectorTask → Prop
  | .startInLoop | .connect | .restart | .retry _ | .schedule _ | .connected | .newConnection => True
  | .stopInLoop | .handleWrite | .handleError | .closeUnwanted | .resetChannel _ => False

/-- An attempt is under way, or there is something that will start one. -/
def Trying (s : Connector) : Prop :=
  s.state = .kConnecting ∨ 0 < s.starting ∨ .startInLoop ∈ s.pendingFunctors ∨ 0 < s.timers ∨ ∃ task ∈ s.todo, Attempts task

/-- The poller reports when the socket of the attempt becomes writable. -/
def Watching (s : Connector) : Prop := s.state = .kConnecting → ∃ ch, s.channel = some ch ∧ ch.isWriting

private theorem trying_of_head {task : ConnectorTask} {todo : List ConnectorTask} (h : s.todo = task :: todo)
    (ha : Attempts task) : s.Trying := by
  refine .inr (.inr (.inr (.inr ⟨task,?_,ha⟩)))
  rw [h]
  exact List.mem_cons_self

private theorem Trying.drop {task : ConnectorTask} (h : s.Trying) (ht : s.todo = [task]) (ha : ¬ Attempts task)
    (todo : List ConnectorTask) : Trying { s with todo := todo } := by
  rcases h with h | h | h | h | ⟨other,hm,h⟩
  · exact .inl h
  · exact .inr (.inl h)
  · exact .inr (.inr (.inl h))
  · exact .inr (.inr (.inr (.inl h)))
  · rw [ht,List.mem_singleton] at hm
    exact (ha (hm ▸ h)).elim

private theorem connectSocket_trying {errno : ConnectErrno} (hg : ¬ errno.GivesUp) (h : s.connectSocket errno = .ok t) :
    t.Trying := by
  have hconnecting (u : Connector) (hu : u.connecting u.sockfd = .ok t) : t.Trying := by
    unfold connecting at hu
    obtain ⟨_,-,hu⟩ := bind_eq_ok hu
    cases hu
    exact .inl rfl
  cases errno with
  | success | EINPROGRESS | EINTR | EISCONN => exact hconnecting _ h
  | EAGAIN | EADDRINUSE | EADDRNOTAVAIL | ECONNREFUSED | ENETUNREACH =>
    cases h
    exact trying_of_head rfl trivial
  | EACCES | EPERM | EAFNOSUPPORT | EALREADY | EBADF | EFAULT | ENOTSOCK | other _ => exact (hg trivial).elim

/-- Apart from `connect()` itself: a wanted connector stops trying with a connection to hand over. -/
theorem Moves.trying (hm : s.Moves op t) (hne : ∀ answer, op = .resume answer → s.todo ≠ [.connect])
    (hc : t.connect = true) : t.Trying ∨ (∃ k, t.handed = s.handed ++ [k]) ∨ s.connect = true ∧ ¬ s.Trying := by
  have hkeep (hs : s.connect = true) (h : s.Trying → t.Trying) :
      t.Trying ∨ (∃ k, t.handed = s.handed ++ [k]) ∨ s.connect = true ∧ ¬ s.Trying :=
    (em s.Trying).elim (fun ht => .inl (h ht)) fun ht => .inr (.inr ⟨hs,ht⟩)
  cases hm with
  | startFlag => exact .inl (.inr (.inl (Nat.succ_pos _)))
  | startQueue hn => exact .inl (.inr (.inr (.inl (List.mem_append_right _ List.mem_cons_self))))
  | stopFlag => cases hc
  | stopQueue hn =>
    refine hkeep hc fun h => ?_
    rcases h with h | h | h | h | h
    · exact .inl h
    · exact .inr (.inl h)
    · exact .inr (.inr (.inl (List.mem_append_left _ h)))
    · exact .inr (.inr (.inr (.inl h)))
    · exact .inr (.inr (.inr (.inr h)))
  | start ht => exact .inl (trying_of_head rfl trivial)
  | restart ht hs => exact .inl (trying_of_head rfl trivial)
  | fire ht hn => exact .inl (trying_of_head rfl trivial)
  | event ch revents todo ht hch hs htodo => exact .inl (.inl hs)
  | functor f fs ht hf =>
    refine hkeep hc fun h => ?_
    rcases h with h | h | h | h | ⟨task,hm,-⟩
    · exact .inl h
    · exact .inr (.inl h)
    · rw [hf] at h
      rcases List.mem_cons.mp h with rfl | h
      · exact trying_of_head rfl trivial
      · exact .inr (.inr (.inl h))
    · exact .inr (.inr (.inr (.inl h)))
    · rw [ht] at hm
      cases hm
  | startInLoop ht hs =>
    have hc' : s.connect = true := hc
    rw [hc']
    exact .inl (trying_of_head rfl trivial)
  | connecting ht hch => exact (hne _ rfl ht).elim
  | connectRetry ht => exact (hne _ rfl ht).elim
  | connectFailed ht => exact (hne _ rfl ht).elim
  | failed ch task todo ht hch hs => exact .inl (trying_of_head rfl trivial)
  | established ch ht hch hs => exact .inl (trying_of_head rfl trivial)
  | ignored task ht htask hs =>
    refine hkeep hc fun h => h.drop ht ?_ []
    rcases htask with rfl | rfl
    · exact id
    · exact id
  | restarted ht => exact .inl (trying_of_head rfl trivial)
  | connected ht =>
    have hc' : s.connect = true := hc
    rw [hc']
    exact .inl (trying_of_head rfl trivial)
  | newConnection ht => exact .inr (.inl ⟨_,rfl⟩)
  | closeUnwanted ht => exact hkeep hc fun h => h.drop ht id []
  | retry k todo ht =>
    have hc' : s.connect = true := hc
    rw [hc']
    exact .inl (trying_of_head rfl trivial)
  | schedule k todo ht => exact .inl (.inr (.inr (.inr (.inl (Nat.succ_pos _)))))
  | resetChannel k ht => exact hkeep hc fun h => h.drop ht id []

private theorem watchedChannel_isWriting (sockfd : Nat) : (watchedChannel sockfd).isWriting := by
  change (Channel.interestMask kNoneEvent .enableWriting).Has kWriteEvent
  decide

private theorem Moves.watching (h : s.Sound) (hw : s.Watching) (hm : s.Moves op t) : t.Watching := by
  cases hm with
  | event ch revents todo ht hch hs htodo =>
    intro _
    obtain ⟨ch',hch',hwrite⟩ := hw hs
    rw [hch] at hch'
    cases hch'
    exact ⟨_,rfl,hwrite⟩
  | connecting ht hch => exact fun _ => ⟨_,rfl,watchedChannel_isWriting _⟩
  | connectRetry ht => exact nofun
  | failed ch task todo ht hch hs => exact nofun
  | established ch ht hch hs => exact nofun
  | restarted ht => exact nofun
  | resetChannel k ht =>
    -- the channel is one that was removed
    intro hs
    cases h.attached with
    | none _ hn _ => exact (hn hs).elim
    | watched _ _ _ _ _ hr =>
      rw [resets,ht] at hr
      cases hr
    | removed _ _ _ hn _ => exact (hn hs).elim
  | _ => exact hw

end Connector

namespace TcpClient
open Connector
variable {c d : TcpClient} {op : ClientOp}

/-- No call of `::connect` fails with an error that is not retried. -/
def Undefeated (c : TcpClient) : ClientOp → Prop
  | .loop (.resume answer) => c.connector.todo = [.connect] → ¬ answer.errno.GivesUp
  | _ => True

instance (c : TcpClient) : (op : ClientOp) → Decidable (c.Undefeated op)
  | .loop (.resume _) => inferInstanceAs (Decidable (_ → _))
  | .loop .startFlag | .loop .startQueue | .loop .stopFlag | .loop .stopQueue | .loop .start | .loop .restart
  | .loop .fire | .loop (.event _) | .loop .functor => isTrue trivial
  | .connectFlag | .connectStart | .connectHere | .stopFlag | .stopConnector | .disconnect | .enableRetry
  | .removeConnection => isTrue trivial

/-- While both flags are set there is a connection, a call of `connect()`, or a connector that tries. -/
structure Persistent (c : TcpClient) : Prop where
  sound : c.Sound
  watching : c.connector.Watching
  retry : c.retry = true
  wanted : c.connect = true → c.connector.connect = true → c.connection ≠ none ∨ 0 < c.connecting ∨ c.connector.Trying

private theorem newConnection_of_handed {k : Connector} {sockfd : Nat} (h : k.handed = c.connector.handed ++ [sockfd]) :
    (c.newConnection k).connection ≠ none := by
  have hlen : ¬ k.handed.length = c.connector.handed.length := by
    rw [h,List.length_append]
    exact Nat.succ_ne_self _
  unfold newConnection
  rw [if_neg hlen,h,List.getLast?_concat]
  exact Option.some_ne_none sockfd

private theorem connection_kept {cop : ConnectorOp} {k : Connector} (hm : c.connector.Moves cop k)
    (h : c.connection ≠ none) : (c.newConnection k).connection ≠ none := by
  cases hm with
  | newConnection ht => exact newConnection_of_handed rfl
  | _ =>
    unfold newConnection
    rw [if_pos rfl]
    exact h

private theorem loop_trying {cop : ConnectorOp} (h : c.Persistent) (he : c.connector.Enabled cop)
    (hu : c.Undefeated (.loop cop)) {k : Connector} (hk : c.connector.step cop = .ok k) (hc : c.connect = true)
    (hc' : k.connect = true) : (c.newConnection k).connection ≠ none ∨ 0 < c.connecting ∨ k.Trying := by
  by_cases hone : ∃ answer, cop = .resume answer ∧ c.connector.todo = [.connect]
  · obtain ⟨answer,rfl,ht⟩ := hone
    refine .inr (.inr ?_)
    unfold Connector.step at hk
    rw [ht] at hk
    exact connectSocket_trying (hu ht) hk
  · have hm := moves_of_ok cop h.sound.connector he hk
    have hne (answer : SocketAnswer) (hcop : cop = .resume answer) : c.connector.todo ≠ [.connect] :=
      fun ht => hone ⟨answer,hcop,ht⟩
    rcases hm.trying hne hc' with htry | ⟨sockfd,hhanded⟩ | ⟨hflag,hnot⟩
    · exact .inr (.inr htry)
    · exact .inl (newConnection_of_handed hhanded)
    · rcases h.wanted hc hflag with hconn | hcalls | htry
      · exact .inl (connection_kept hm hconn)
      · exact .inr (.inl hcalls)
      · exact (hnot htry).elim

private theorem Persistent.step (h : c.Persistent) (he : c.Enabled op) (hu : c.Undefeated op) (hs : c.step op = .ok d) :
    d.Persistent := by
  obtain ⟨hsound,hshow⟩ := step_shows op h.sound he hs
  have hwatching : d.connector.Watching := by
    rcases hshow with hsame | ⟨cop,hshow⟩
    · rw [hsame]
      exact h.watching
    · exact hshow.moves.watching h.sound.connector h.watching
  cases op with
  | connectFlag =>
    cases hs
    exact ⟨hsound,hwatching,h.retry,fun _ _ => .inr (.inl (Nat.succ_pos _))⟩
  | connectStart =>
    obtain ⟨k,hk,hd⟩ := bind_eq_ok hs
    cases hk
    cases hd
    exact ⟨hsound,hwatching,h.retry,fun _ _ => .inr (.inr (.inr (.inl (Nat.succ_pos _))))⟩
  | connectHere =>
    obtain ⟨k,hk,hd⟩ := bind_eq_ok hs
    cases hk
    cases hd
    exact ⟨hsound,hwatching,h.retry,fun _ _ => .inr (.inr (trying_of_head rfl trivial))⟩
  | stopFlag =>
    cases hs
    exact ⟨hsound,hwatching,h.retry,nofun⟩
  | stopConnector =>
    obtain ⟨k,hk,hd⟩ := bind_eq_ok hs
    cases hk
    cases hd
    exact ⟨hsound,hwatching,h.retry,fun _ => nofun⟩
  | disconnect =>
    cases hs
    exact ⟨hsound,hwatching,h.retry,nofun⟩
  | enableRetry =>
    cases hs
    exact ⟨hsound,hwatching,rfl,h.wanted⟩
  | removeConnection =>
    change c.removeConnection = .ok d at hs
    unfold removeConnection at hs
    dsimp only at hs
    split at hs
    · obtain ⟨k,hk,hd⟩ := bind_eq_ok hs
      cases hk
      cases hd
      exact ⟨hsound,hwatching,h.retry,fun _ _ => .inr (.inr (trying_of_head rfl trivial))⟩
    · next hc =>
      cases hs
      rw [h.retry,Bool.true_and] at hc
      exact ⟨hsound,hwatching,h.retry,fun hc' => (hc hc').elim⟩
  | loop cop =>
    obtain ⟨k,hk,hd⟩ := bind_eq_ok hs
    cases hd
    exact ⟨hsound,hwatching,h.retry,loop_trying h he.2 hu hk⟩

/-- In every interleaving of `connect()`, `stop()` and `disconnect()` with the loop of a client that retries, up to the
first failed assertion and without an error of `::connect` that is not retried: once the loop has nothing more to do
for it, a client that is wanted has its connection, a retry timer, or an attempt whose end the poller reports. -/
theorem client_keeps_trying (ops : List ClientOp) (c : TcpClient)
    (ha : (machine.guard Undefeated).Admissible new (.enableRetry :: ops))
    (hc : machine.exec new (.enableRetry :: ops) = .ok c) (hwanted : c.connect = true) (hflag : c.connector.connect = true)
    (hcalls : c.connecting = 0 ∧ c.connector.starting = 0)
    (hidle : c.connector.todo = [] ∧ .startInLoop ∉ c.connector.pendingFunctors) :
    c.connection ≠ none ∨ 0 < c.connector.timers ∨
      c.connector.state = .kConnecting ∧ ∃ ch, c.connector.channel = some ch ∧ ch.addedToLoop = true ∧ ch.isWriting ∧
        ch.writeCallback = some .handleWrite ∧ ch.errorCallback = some .handleError := by
  have hfirst : Persistent { new with retry := true } :=
    ⟨⟨new_sound.connector,new_sound.established⟩,nofun,rfl,fun _ => nofun⟩
  have hlast : c.Persistent := by
    refine (machine.guard Undefeated).exec_ok_invariant (fun s t op hs he hstep => hs.step he.1 he.2 hstep) hfirst
      ((machine.guard Undefeated).admissible_step ha rfl) ?_
    rw [Machine.exec_guard]
    exact hc
  rcases hlast.wanted hwanted hflag with hconn | hn | hs | hn | hqueued | htimers | ⟨task,hm,-⟩
  · exact .inl hconn
  · exact (hn.ne' hcalls.1).elim
  · refine .inr (.inr ⟨hs,?_⟩)
    obtain ⟨ch,hch,hwrite⟩ := hlast.watching hs
    cases hlast.sound.connector.attached with
    | none _ hn _ => exact (hn hs).elim
    | watched ch' hch' hw ha _ _ =>
      rw [hch] at hch'
      cases hch'
      exact ⟨ch,hch,ha,hwrite,hw.write,hw.error⟩
    | removed _ _ _ hn _ => exact (hn hs).elim
  · exact (hn.ne' hcalls.2).elim
  · exact (hidle.2 hqueued).elim
  · exact .inr (.inl htimers)
  · rw [hidle.1] at hm
    cases hm

private def answered (errno : ConnectErrno) : ClientOp := .loop (.resume ⟨errno,0,false⟩)

/-- A connection is established and lost, and the next attempt is refused. -/
private def lostThenRefused : List ClientOp :=
  [.connectFlag,.connectStart,.loop .startQueue,.loop .functor,answered .success,answered .EINPROGRESS,
    .loop (.event POLLOUT),answered .success,answered .success,answered .success,.loop .functor,answered .success,
    .removeConnection,answered .success,answered .success,answered .ECONNREFUSED,answered .success,answered .success]

/-- A client loses its connection and is then refused. -/
theorem client_keeps_trying_refused :
    (machine.guard Undefeated).Admissible new (.enableRetry :: lostThenRefused) ∧
    ∃ c, machine.exec new (.enableRetry :: lostThenRefused) = .ok c ∧ c.connection = none ∧
      (c.connection ≠ none ∨ 0 < c.connector.timers ∨
        c.connector.state = .kConnecting ∧ ∃ ch, c.connector.channel = some ch ∧ ch.addedToLoop = true ∧ ch.isWriting ∧
          ch.writeCallback = some .handleWrite ∧ ch.errorCallback = some .handleError) := by
  have ha : (machine.guard Undefeated).Admissible new (.enableRetry :: lostThenRefused) := by decide +kernel
  obtain ⟨c,hc,hnone,hwanted,hflag,hcalls,hidle⟩ : ∃ c, machine.exec new (.enableRetry :: lostThenRefused) = .ok c ∧
      c.connection = none ∧ c.connect = true ∧ c.connector.connect = true ∧
      (c.connecting = 0 ∧ c.connector.starting = 0) ∧
      (c.connector.todo = [] ∧ .startInLoop ∉ c.connector.pendingFunctors) :=
    Meets.ok_of_no_error (Q := fun _ => False) (by decide +kernel) (fun _ => id)
  exact ⟨ha,c,hc,hnone,client_keeps_trying lostThenRefused c ha hc hwanted hflag hcalls hidle⟩

end TcpClient
end LearningMuduo.Tcp
