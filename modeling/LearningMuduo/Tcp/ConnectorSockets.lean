import LearningMuduo.Tcp.Connector
import Mathlib.Data.List.Nodup

/-! Every socket of the connector is closed once or handed over once, and its channel lives
exactly as long as its attempt and the functor that resets it. -/
namespace LearningMuduo.Tcp.Connector
open Library Reactor
variable {s t : Connector} {op : ConnectorOp}

/-- The channels that a task, or a list of tasks, will reset. -/
def resetTarget : ConnectorTask → Option Nat
  | .resetChannel sockfd => some sockfd
  | _ => none

def resets (s : Connector) : List Nat := (s.todo ++ s.pendingFunctors).filterMap resetTarget

/-- A channel with the callbacks `connecting` sets. -/
structure Wired (ch : Channel ConnectorTask) : Prop where
  tied : ch.tied = false
  read : ch.readCallback = none
  write : ch.writeCallback = some .handleWrite
  close : ch.closeCallback = none
  error : ch.errorCallback = some .handleError

/-- No channel; the channel of the attempt; or a removed channel and its one `resetChannel`. -/
inductive Attached (s : Connector) : Prop where
  | none (hc : s.channel = none) (hs : s.state ≠ .kConnecting) (hr : s.resets = [])
  | watched (ch : Channel ConnectorTask) (hc : s.channel = some ch) (hw : Wired ch)
    (ha : ch.addedToLoop = true) (hs : s.state = .kConnecting) (hr : s.resets = [])
  | removed (ch : Channel ConnectorTask) (hc : s.channel = some ch) (ha : ch.addedToLoop = false)
    (hs : s.state ≠ .kConnecting) (hr : s.resets = [ch.fd.toNat])

/-- What the loop thread can be doing in each state. -/
def Doing (s : Connector) : Prop :=
  match s.todo with
  | [] | [.startInLoop] | [.stopInLoop] | [.resetChannel _] => True
  | [.connect] => s.state = .kDisconnected
  | [.restart] => s.state = .kConnected
  | [.handleError] | [.handleError,.handleWrite] => s.state = .kConnecting
  | [.handleWrite] => s.state ≠ .kConnected
  | [.retry _] | [.retry _,.handleWrite] | [.schedule _] | [.schedule _,.handleWrite] => s.state = .kDisconnected
  | [.connected] | [.newConnection] | [.closeUnwanted] => s.state = .kConnected
  | _ => False

/-- Created, and neither closed nor handed over. -/
def openSockets (s : Connector) : List Nat :=
  (List.range s.created).filter fun k => k ∉ s.closed ∧ k ∉ s.handed

/-- The connector has a socket: of its attempt, or of a connection that it has yet to hand
over or to close. -/
def Owns (s : Connector) : Prop :=
  s.state = .kConnecting ∨ s.todo = [.connected] ∨ s.todo = [.newConnection] ∨ s.todo = [.closeUnwanted]

/-- The socket whose retry is being decided. -/
def retrying (s : Connector) : Option Nat :=
  match s.todo with
  | .retry k :: _ | .schedule k :: _ => some k
  | _ => none

structure Books (s : Connector) : Prop where
  closed_lt : ∀ k ∈ s.closed, k < s.created
  handed_lt : ∀ k ∈ s.handed, k < s.created
  closed_once : s.closed.Nodup
  handed_once : s.handed.Nodup
  disjoint : ∀ k ∈ s.closed, k ∉ s.handed
  owned : s.Owns → s.openSockets = [s.sockfd]
  free : ¬ s.Owns → s.openSockets = []
  retried_once : (s.retries.map Prod.fst).Nodup
  retried_closed : ∀ k ∈ s.retries.map Prod.fst, k ∈ s.closed
  retrying_fresh : ∀ k ∈ s.retrying, k ∈ s.closed ∧ k ∉ s.retries.map Prod.fst

structure Sound (s : Connector) : Prop where
  queued : ∀ f ∈ s.pendingFunctors, f = .startInLoop ∨ f = .stopInLoop ∨ ∃ k, f = .resetChannel k
  attached : s.Attached
  doing : s.Doing
  books : s.Books

/-- The channel as `connecting` leaves it, and as `removeAndResetChannel` leaves it. -/
def watchedChannel (sockfd : Nat) : Channel ConnectorTask :=
  let ch : Channel ConnectorTask :=
    { Channel.new sockfd with writeCallback := some .handleWrite, errorCallback := some .handleError }
  ch.setInterest .enableWriting

def removedChannel (ch : Channel ConnectorTask) : Channel ConnectorTask :=
  { ch.setInterest .disableAll with addedToLoop := false }

/-- Everything a step can do in a sound state. -/
inductive Moves (s : Connector) : ConnectorOp → Connector → Prop where
  | startFlag : Moves s .startFlag { s with connect := true, starting := s.starting+1 }
  | startQueue (hn : 0 < s.starting) : Moves s .startQueue { s with
      starting := s.starting-1, pendingFunctors := s.pendingFunctors ++ [.startInLoop] }
  | stopFlag : Moves s .stopFlag { s with connect := false, stopping := s.stopping+1 }
  | stopQueue (hn : 0 < s.stopping) : Moves s .stopQueue { s with
      stopping := s.stopping-1, pendingFunctors := s.pendingFunctors ++ [.stopInLoop] }
  | start (ht : s.todo = []) : Moves s .start { s with connect := true, todo := [.startInLoop] }
  | restart (ht : s.todo = []) (hs : s.state = .kConnected) : Moves s .restart { s with todo := [.restart] }
  | fire (ht : s.todo = []) (hn : 0 < s.timers) : Moves s .fire { s with timers := s.timers-1, todo := [.startInLoop] }
  | event (ch : Channel ConnectorTask) (revents : Mask) (todo : List ConnectorTask) (ht : s.todo = [])
      (hc : s.channel = some ch) (hs : s.state = .kConnecting)
      (htodo : todo = [] ∨ todo = [.handleError] ∨ todo = [.handleWrite] ∨ todo = [.handleError,.handleWrite]) :
      Moves s (.event revents) { s with channel := some { ch with revents := revents }, todo := todo }
  | functor (f : ConnectorTask) (fs : List ConnectorTask) (ht : s.todo = []) (hf : s.pendingFunctors = f :: fs) :
      Moves s .functor { s with pendingFunctors := fs, todo := [f] }
  | startInLoop {answer : SocketAnswer} (ht : s.todo = [.startInLoop]) (hs : s.state = .kDisconnected) :
      Moves s (.resume answer) { s with todo := if s.connect then [.connect] else [] }
  | connecting {answer : SocketAnswer} (ht : s.todo = [.connect]) (hc : s.channel = none) :
      Moves s (.resume answer) { s with
        sockfd := s.created, created := s.created+1, state := .kConnecting
        channel := some (watchedChannel s.created), todo := [] }
  | connectRetry {answer : SocketAnswer} (ht : s.todo = [.connect]) : Moves s (.resume answer) { s with
      sockfd := s.created, created := s.created+1, state := .kDisconnected
      closed := s.closed ++ [s.created], todo := [.retry s.created] }
  | connectFailed {answer : SocketAnswer} (ht : s.todo = [.connect]) : Moves s (.resume answer) { s with
      sockfd := s.created, created := s.created+1, closed := s.closed ++ [s.created], todo := [] }
  | failed {answer : SocketAnswer} (ch : Channel ConnectorTask) (task : ConnectorTask) (todo : List ConnectorTask)
      (ht : s.todo = task :: todo) (hc : s.channel = some ch) (hs : s.state = .kConnecting) :
      Moves s (.resume answer) { s with
        channel := some (removedChannel ch), pendingFunctors := s.pendingFunctors ++ [.resetChannel ch.fd.toNat]
        closed := s.closed ++ [s.sockfd], state := .kDisconnected, todo := .retry s.sockfd :: todo }
  | established {answer : SocketAnswer} (ch : Channel ConnectorTask) (ht : s.todo = [.handleWrite])
      (hc : s.channel = some ch) (hs : s.state = .kConnecting) : Moves s (.resume answer) { s with
        channel := some (removedChannel ch), pendingFunctors := s.pendingFunctors ++ [.resetChannel ch.fd.toNat]
        state := .kConnected, todo := [.connected] }
  | ignored {answer : SocketAnswer} (task : ConnectorTask) (ht : s.todo = [task])
      (htask : task = .stopInLoop ∨ task = .handleWrite) (hs : s.state ≠ .kConnecting) :
      Moves s (.resume answer) { s with todo := [] }
  | restarted {answer : SocketAnswer} (ht : s.todo = [.restart]) : Moves s (.resume answer) { s with
      state := .kDisconnected, retryDelayMs := kInitRetryDelayMs, connect := true, todo := [.startInLoop] }
  | connected {answer : SocketAnswer} (ht : s.todo = [.connected]) :
      Moves s (.resume answer) { s with todo := if s.connect then [.newConnection] else [.closeUnwanted] }
  | newConnection {answer : SocketAnswer} (ht : s.todo = [.newConnection]) :
      Moves s (.resume answer) { s with handed := s.handed ++ [s.sockfd], todo := [] }
  | closeUnwanted {answer : SocketAnswer} (ht : s.todo = [.closeUnwanted]) :
      Moves s (.resume answer) { s with closed := s.closed ++ [s.sockfd], todo := [] }
  | retry {answer : SocketAnswer} (k : Nat) (todo : List ConnectorTask) (ht : s.todo = .retry k :: todo) :
      Moves s (.resume answer) { s with todo := if s.connect then .schedule k :: todo else todo }
  | schedule {answer : SocketAnswer} (k : Nat) (todo : List ConnectorTask) (ht : s.todo = .schedule k :: todo) :
      Moves s (.resume answer) { s with
        timers := s.timers+1, retries := s.retries ++ [(k,s.retryDelayMs)]
        retryDelayMs := min (s.retryDelayMs*2) kMaxRetryDelayMs, todo := todo }
  | resetChannel {answer : SocketAnswer} (k : Nat) (ht : s.todo = [.resetChannel k]) :
      Moves s (.resume answer) { s with channel := none, todo := [] }

private theorem removeAndResetChannel_eq (ch : Channel ConnectorTask) (hc : s.channel = some ch) :
    s.removeAndResetChannel = .ok { s with
      channel := some (removedChannel ch)
      pendingFunctors := s.pendingFunctors ++ [.resetChannel ch.fd.toNat] } := by
  have hnone : (ch.setInterest .disableAll).isNoneEvent := rfl
  unfold removeAndResetChannel
  rw [hc]
  dsimp only
  rw [require_pos hnone,bind_ok]
  rfl

private theorem Attached.watched_of (h : s.Attached) (hs : s.state = .kConnecting) :
    ∃ ch, s.channel = some ch ∧ Wired ch ∧ ch.addedToLoop = true ∧ s.resets = [] := by
  cases h with
  | none _ hn _ => exact (hn hs).elim
  | watched ch hc hw ha _ hr => exact ⟨ch,hc,hw,ha,hr⟩
  | removed _ _ _ hn _ => exact (hn hs).elim

private theorem Wired.handleEvent {ch : Channel ConnectorTask} (h : Wired ch) :
    ch.handleEvent true = [] ∨ ch.handleEvent true = [.handleError] ∨ ch.handleEvent true = [.handleWrite] ∨
      ch.handleEvent true = [.handleError,.handleWrite] := by
  unfold Channel.handleEvent Channel.handleEventWithGuard
  rw [h.tied,h.read,h.write,h.close,h.error]
  by_cases he : ch.revents.Has (POLLERR ||| POLLNVAL) <;> by_cases hw : ch.revents.Has POLLOUT <;> simp [he,hw]

/-- A step moves, or fails one of the two assertions. -/
inductive Steps (s : Connector) (op : ConnectorOp) : Except ConnectorFault Connector → Prop where
  | ok (t : Connector) (hm : s.Moves op t) : Steps s op (.ok t)
  | startInLoop (ht : s.todo = [.startInLoop]) (hs : s.state ≠ .kDisconnected) :
      Steps s op (.error (.assertion .startInLoop))
  | connecting (ht : s.todo = [.connect]) (hc : s.channel ≠ none) : Steps s op (.error (.assertion .connecting))

private theorem steps_startInLoop {answer : SocketAnswer} (ht : s.todo = [.startInLoop]) :
    Steps s (.resume answer) ({ s with todo := [] }.startInLoop) := by
  unfold startInLoop
  by_cases hs : s.state = .kDisconnected
  · rw [require_pos hs,bind_ok]
    have hm : s.Moves (.resume answer) _ := .startInLoop ht hs
    cases hc : s.connect with
    | true =>
      rw [hc] at hm
      exact .ok _ hm
    | false =>
      rw [hc] at hm
      exact .ok _ hm
  · rw [require_neg hs,bind_error]
    exact .startInLoop ht hs

private theorem steps_connectSocket {answer : SocketAnswer} (ht : s.todo = [.connect]) (errno : ConnectErrno) :
    Steps s (.resume answer) ({ s with todo := [] }.connectSocket errno) := by
  have hconnecting : Steps s (.resume answer)
      ({ s with todo := [], sockfd := s.created, created := s.created+1 }.connecting s.created) := by
    unfold connecting
    dsimp only
    by_cases hc : s.channel = none
    · rw [require_pos hc,bind_ok]
      exact .ok _ (.connecting ht hc)
    · rw [require_neg hc,bind_error]
      exact .connecting ht hc
  cases errno with
  | success => exact hconnecting
  | EINPROGRESS => exact hconnecting
  | EINTR => exact hconnecting
  | EISCONN => exact hconnecting
  | EAGAIN => exact .ok _ (.connectRetry ht)
  | EADDRINUSE => exact .ok _ (.connectRetry ht)
  | EADDRNOTAVAIL => exact .ok _ (.connectRetry ht)
  | ECONNREFUSED => exact .ok _ (.connectRetry ht)
  | ENETUNREACH => exact .ok _ (.connectRetry ht)
  | EACCES => exact .ok _ (.connectFailed ht)
  | EPERM => exact .ok _ (.connectFailed ht)
  | EAFNOSUPPORT => exact .ok _ (.connectFailed ht)
  | EALREADY => exact .ok _ (.connectFailed ht)
  | EBADF => exact .ok _ (.connectFailed ht)
  | EFAULT => exact .ok _ (.connectFailed ht)
  | ENOTSOCK => exact .ok _ (.connectFailed ht)
  | other e => exact .ok _ (.connectFailed ht)

/-- The end of an attempt: the channel removed, the socket closed, the retry to be decided. -/
private def failedAttempt (s : Connector) (ch : Channel ConnectorTask) : Connector :=
  { s with
    channel := some (removedChannel ch)
    pendingFunctors := s.pendingFunctors ++ [.resetChannel ch.fd.toNat]
    closed := s.closed ++ [s.sockfd]
    state := .kDisconnected
    todo := .retry s.sockfd :: s.todo }

private theorem stopInLoop_eq (ch : Channel ConnectorTask) (hc : s.channel = some ch) (hs : s.state = .kConnecting) :
    s.stopInLoop = .ok (s.failedAttempt ch) := by
  have hr := removeAndResetChannel_eq (s := { s with state := .kDisconnected }) ch hc
  unfold stopInLoop
  rw [if_pos hs,hr,bind_ok]
  rfl

private theorem handleError_eq (ch : Channel ConnectorTask) (hc : s.channel = some ch) (hs : s.state = .kConnecting) :
    s.handleError = .ok (s.failedAttempt ch) := by
  unfold handleError
  rw [if_pos hs,removeAndResetChannel_eq ch hc,bind_ok]
  rfl

private theorem handleWrite_eq (ch : Channel ConnectorTask) (hc : s.channel = some ch) (hs : s.state = .kConnecting)
    (answer : SocketAnswer) : s.handleWrite answer = .ok (s.failedAttempt ch) ∨
      s.handleWrite answer = .ok { s with
        channel := some (removedChannel ch)
        pendingFunctors := s.pendingFunctors ++ [.resetChannel ch.fd.toNat]
        state := .kConnected
        todo := .connected :: s.todo } := by
  unfold handleWrite
  rw [if_pos hs,removeAndResetChannel_eq ch hc,bind_ok]
  split
  · exact .inl rfl
  · split
    · exact .inl rfl
    · exact .inr rfl

private theorem steps_stopInLoop {answer : SocketAnswer} (h : s.Attached) (ht : s.todo = [.stopInLoop]) :
    Steps s (.resume answer) ({ s with todo := [] }.stopInLoop) := by
  by_cases hs : s.state = .kConnecting
  · obtain ⟨ch,hc,-⟩ := h.watched_of hs
    rw [stopInLoop_eq (s := { s with todo := [] }) ch hc hs]
    exact .ok _ (.failed ch _ [] ht hc hs)
  · unfold stopInLoop
    rw [if_neg hs]
    exact .ok _ (.ignored _ ht (.inl rfl) hs)

private theorem steps_handleError {answer : SocketAnswer} {todo : List ConnectorTask} (h : s.Attached)
    (ht : s.todo = .handleError :: todo)
    (hs : s.state = .kConnecting) : Steps s (.resume answer) ({ s with todo := todo }.handleError) := by
  obtain ⟨ch,hc,-⟩ := h.watched_of hs
  rw [handleError_eq (s := { s with todo := todo }) ch hc hs]
  exact .ok _ (.failed ch _ todo ht hc hs)

private theorem steps_handleWrite (h : s.Attached) (ht : s.todo = [.handleWrite]) (hs : s.state ≠ .kConnected)
    (answer : SocketAnswer) : Steps s (.resume answer) ({ s with todo := [] }.handleWrite answer) := by
  by_cases hc : s.state = .kConnecting
  · obtain ⟨ch,hch,-⟩ := h.watched_of hc
    rcases handleWrite_eq (s := { s with todo := [] }) ch hch hc answer with he | he
    · rw [he]
      exact .ok _ (.failed ch _ [] ht hch hc)
    · rw [he]
      exact .ok _ (.established ch ht hch hc)
  · have hd : s.state = .kDisconnected := by
      cases hx : s.state with
      | kDisconnected => rfl
      | kConnecting => exact (hc hx).elim
      | kConnected => exact (hs hx).elim
    unfold handleWrite
    rw [if_neg hc,require_pos hd,bind_ok]
    exact .ok _ (.ignored _ ht (.inr rfl) hc)

private theorem steps_resetChannel {answer : SocketAnswer} {k : Nat} (h : s.Attached) (ht : s.todo = [.resetChannel k]) :
    Steps s (.resume answer) ({ s with todo := [] }.resetChannel) := by
  have hremoved : ∀ ch ∈ s.channel, ch.addedToLoop = false := by
    intro ch hch
    cases h with
    | none hc _ _ =>
      rw [hc] at hch
      cases hch
    | watched _ _ _ _ _ hr =>
      rw [resets,ht] at hr
      simp [resetTarget] at hr
    | removed ch' hc ha _ _ =>
      rw [hc] at hch
      cases hch
      exact ha
  unfold resetChannel
  rw [require_pos hremoved,bind_ok]
  exact .ok _ (.resetChannel k ht)

private theorem steps_retry {k : Nat} {todo : List ConnectorTask} (ht : s.todo = .retry k :: todo)
    (answer : SocketAnswer) : Steps s (.resume answer) ({ s with todo := todo }.run answer (.retry k)) := by
  have hm : s.Moves (.resume answer) _ := .retry k todo ht
  cases hc : s.connect with
  | true =>
    rw [hc] at hm
    exact .ok _ hm
  | false =>
    rw [hc] at hm
    exact .ok _ hm

private theorem steps_connected (ht : s.todo = [.connected]) (answer : SocketAnswer) :
    Steps s (.resume answer) ({ s with todo := [] }.run answer .connected) := by
  have hm : s.Moves (.resume answer) _ := .connected ht
  cases hc : s.connect with
  | true =>
    rw [hc] at hm
    exact .ok _ hm
  | false =>
    rw [hc] at hm
    exact .ok _ hm

private theorem steps_resume (h : s.Sound) (answer : SocketAnswer) (hne : s.todo ≠ []) :
    Steps s (.resume answer) (s.step (.resume answer)) := by
  have hd := h.doing
  have hrun {task : ConnectorTask} {todo : List ConnectorTask} (ht : s.todo = task :: todo)
      (hs : Steps s (.resume answer) ({ s with todo := todo }.run answer task)) :
      Steps s (.resume answer) (s.step (.resume answer)) := by
    unfold step
    rw [ht]
    exact hs
  unfold Doing at hd
  split at hd
  case _ ht => exact (hne ht).elim
  case _ ht => exact hrun ht (steps_startInLoop ht)
  case _ ht => exact hrun ht (steps_stopInLoop h.attached ht)
  case _ k ht => exact hrun ht (steps_resetChannel h.attached ht)
  case _ ht => exact hrun ht (steps_connectSocket ht answer.errno)
  case _ ht => exact hrun ht (.ok _ (.restarted ht))
  case _ ht => exact hrun ht (steps_handleError h.attached ht hd)
  case _ ht => exact hrun ht (steps_handleError h.attached ht hd)
  case _ ht => exact hrun ht (steps_handleWrite h.attached ht hd answer)
  case _ k ht => exact hrun ht (steps_retry ht answer)
  case _ k ht => exact hrun ht (steps_retry ht answer)
  case _ k ht => exact hrun ht (.ok _ (.schedule k _ ht))
  case _ k ht => exact hrun ht (.ok _ (.schedule k _ ht))
  case _ ht => exact hrun ht (steps_connected ht answer)
  case _ ht => exact hrun ht (.ok _ (.newConnection ht))
  case _ ht => exact hrun ht (.ok _ (.closeUnwanted ht))
  case _ => exact hd.elim

/-- What a step of a sound connector can do. -/
theorem Sound.steps (h : s.Sound) (he : s.Enabled op) : Steps s op (s.step op) := by
  cases op with
  | startFlag => exact .ok _ .startFlag
  | startQueue => exact .ok _ (.startQueue he)
  | stopFlag => exact .ok _ .stopFlag
  | stopQueue => exact .ok _ (.stopQueue he)
  | start =>
    have ht : s.todo = [] := he
    have hm := Moves.start ht
    rw [step,next,ht]
    exact .ok _ hm
  | restart =>
    have hm := Moves.restart he.1 he.2
    rw [step,next,he.1]
    exact .ok _ hm
  | fire =>
    have hm := Moves.fire he.1 he.2
    rw [step,next,he.1]
    exact .ok _ hm
  | event revents =>
    obtain ⟨ht,hw⟩ := he
    cases h.attached with
    | none hc _ _ =>
      rw [Watched,hc] at hw
      cases hw
    | watched ch hc hwired ha hs _ =>
      have hcb : Wired { ch with revents := revents } :=
        ⟨hwired.tied,hwired.read,hwired.write,hwired.close,hwired.error⟩
      rw [step,hc]
      exact .ok _ (.event ch revents _ ht hc hs hcb.handleEvent)
    | removed ch hc ha _ _ =>
      rw [Watched,hc,Option.map_some,ha] at hw
      cases hw
  | functor =>
    obtain ⟨ht,hne⟩ := he
    cases hf : s.pendingFunctors with
    | nil => exact (hne hf).elim
    | cons f fs =>
      have hm := Moves.functor f fs ht hf
      rw [step,hf]
      dsimp only
      rw [next,ht]
      exact .ok _ hm
  | resume answer => exact steps_resume h answer he

private theorem Moves.queued (h : s.Sound) (hm : s.Moves op t) :
    ∀ f ∈ t.pendingFunctors, f = .startInLoop ∨ f = .stopInLoop ∨ ∃ k, f = .resetChannel k := by
  have hq := h.queued
  have hadd {g : ConnectorTask} (hg : g = .startInLoop ∨ g = .stopInLoop ∨ ∃ k, g = .resetChannel k) :
      ∀ f ∈ s.pendingFunctors ++ [g], f = .startInLoop ∨ f = .stopInLoop ∨ ∃ k, f = .resetChannel k := by
    intro f hf
    rcases List.mem_append.mp hf with hf | hf
    · exact hq f hf
    · rw [List.mem_singleton.mp hf]
      exact hg
  cases hm with
  | startQueue _ => exact hadd (.inl rfl)
  | stopQueue _ => exact hadd (.inr (.inl rfl))
  | functor f fs _ hf =>
    intro g hg
    refine hq g ?_
    rw [hf]
    exact List.mem_cons_of_mem f hg
  | failed ch task todo _ _ _ => exact hadd (.inr (.inr ⟨_,rfl⟩))
  | established ch _ _ _ => exact hadd (.inr (.inr ⟨_,rfl⟩))
  | _ => exact hq

/-- Behind the piece that is run next there is at most the write callback of the same event. -/
theorem Doing.tail (h : s.Doing) {task : ConnectorTask} {todo : List ConnectorTask} (ht : s.todo = task :: todo) :
    todo = [] ∨ todo = [.handleWrite] := by
  unfold Doing at h
  rw [ht] at h
  split at h
  all_goals simp_all

private theorem Doing.retry (h : s.Doing) {k : Nat} {todo : List ConnectorTask}
    (ht : s.todo = .retry k :: todo ∨ s.todo = .schedule k :: todo) : s.state = .kDisconnected := by
  unfold Doing at h
  rcases ht with ht | ht
  · rw [ht] at h
    split at h
    all_goals simp_all
  · rw [ht] at h
    split at h
    all_goals simp_all

private theorem Moves.doing (h : s.Sound) (hm : s.Moves op t) : t.Doing := by
  have hd := h.doing
  cases hm with
  | startFlag => exact hd
  | startQueue _ => exact hd
  | stopFlag => exact hd
  | stopQueue _ => exact hd
  | start _ => exact trivial
  | restart _ hs => exact hs
  | fire _ _ => exact trivial
  | event ch revents todo _ _ hs htodo =>
    rcases htodo with rfl | rfl | rfl | rfl
    · exact trivial
    · exact hs
    · change s.state ≠ .kConnected
      rw [hs]
      decide
    · exact hs
  | functor f fs _ hf =>
    rcases h.queued f (by rw [hf]; exact List.mem_cons_self) with rfl | rfl | ⟨k,rfl⟩
    · exact trivial
    · exact trivial
    · exact trivial
  | startInLoop _ hs =>
    cases s.connect with
    | true => exact hs
    | false => exact trivial
  | connecting _ _ => exact trivial
  | connectRetry _ => exact rfl
  | connectFailed _ => exact trivial
  | failed ch task todo ht _ _ =>
    rcases hd.tail ht with rfl | rfl
    · exact rfl
    · exact rfl
  | established _ _ _ _ => exact rfl
  | ignored _ _ _ _ => exact trivial
  | restarted _ => exact trivial
  | connected ht =>
    rw [Doing,ht] at hd
    cases s.connect with
    | true => exact hd
    | false => exact hd
  | newConnection _ => exact trivial
  | closeUnwanted _ => exact trivial
  | retry k todo ht =>
    have hs := hd.retry (.inl ht)
    rcases hd.tail ht with rfl | rfl
    · cases s.connect with
      | true => exact hs
      | false => exact trivial
    · cases s.connect with
      | true => exact hs
      | false =>
        change s.state ≠ .kConnected
        rw [hs]
        decide
  | schedule k todo ht =>
    have hs := hd.retry (.inr ht)
    rcases hd.tail ht with rfl | rfl
    · exact trivial
    · change s.state ≠ .kConnected
      rw [hs]
      decide
  | resetChannel _ _ => exact trivial

private theorem Attached.of_same (h : s.Attached) (hc : t.channel = s.channel) (hr : t.resets = s.resets)
    (hs : t.state = .kConnecting ↔ s.state = .kConnecting) : t.Attached := by
  cases h with
  | none hch hst hrs => exact .none (hc.trans hch) (fun h => hst (hs.mp h)) (hr.trans hrs)
  | watched ch hch hw ha hst hrs => exact .watched ch (hc.trans hch) hw ha (hs.mpr hst) (hr.trans hrs)
  | removed ch hch ha hst hrs => exact .removed ch (hc.trans hch) ha (fun h => hst (hs.mp h)) (hr.trans hrs)

private theorem tail_resets {todo : List ConnectorTask} (h : todo = [] ∨ todo = [.handleWrite]) :
    todo.filterMap resetTarget = [] := by
  rcases h with rfl | rfl
  · rfl
  · rfl

private theorem Moves.attached (h : s.Sound) (hm : s.Moves op t) : t.Attached := by
  have ha := h.attached
  have hd := h.doing
  cases hm with
  | startFlag => exact ha.of_same rfl rfl Iff.rfl
  | startQueue _ => exact ha.of_same rfl (by simp [resets,resetTarget]) Iff.rfl
  | stopFlag => exact ha.of_same rfl rfl Iff.rfl
  | stopQueue _ => exact ha.of_same rfl (by simp [resets,resetTarget]) Iff.rfl
  | start ht => exact ha.of_same rfl (by simp [resets,resetTarget,ht,List.filterMap_cons]) Iff.rfl
  | restart ht _ => exact ha.of_same rfl (by simp [resets,resetTarget,ht,List.filterMap_cons]) Iff.rfl
  | fire ht _ => exact ha.of_same rfl (by simp [resets,resetTarget,ht,List.filterMap_cons]) Iff.rfl
  | event ch revents todo ht hc hs htodo =>
    obtain ⟨ch',hc',hw,hadded,hr⟩ := ha.watched_of hs
    rw [hc] at hc'
    cases hc'
    refine .watched _ rfl ⟨hw.tied,hw.read,hw.write,hw.close,hw.error⟩ hadded hs ?_
    rw [resets,ht] at hr
    rcases htodo with rfl | rfl | rfl | rfl
    · exact hr
    · exact hr
    · exact hr
    · exact hr
  | functor f fs ht hf => exact ha.of_same rfl (by simp [resets,ht,hf]) Iff.rfl
  | startInLoop ht _ =>
    refine ha.of_same rfl ?_ Iff.rfl
    cases hc : s.connect <;> simp [resets,resetTarget,ht,List.filterMap_cons]
  | connecting ht hc =>
    have hr : s.resets = [] := by
      cases ha with
      | none _ _ hr => exact hr
      | watched _ _ _ _ _ hr => exact hr
      | removed ch hch _ _ _ =>
        rw [hc] at hch
        cases hch
    refine .watched _ rfl ⟨rfl,rfl,rfl,rfl,rfl⟩ rfl rfl ?_
    rw [resets,ht] at hr
    exact hr
  | connectRetry ht =>
    rw [Doing,ht] at hd
    exact ha.of_same rfl (by simp [resets,resetTarget,ht,List.filterMap_cons]) (by simp [hd])
  | connectFailed ht => exact ha.of_same rfl (by simp [resets,resetTarget,ht,List.filterMap_cons]) Iff.rfl
  | failed ch task todo ht hc hs =>
    obtain ⟨_,_,_,_,hr⟩ := ha.watched_of hs
    refine .removed _ rfl rfl nofun ?_
    rw [resets,ht,List.filterMap_append] at hr
    have hp : s.pendingFunctors.filterMap resetTarget = [] := (List.append_eq_nil_iff.mp hr).2
    change (ConnectorTask.retry s.sockfd :: todo ++ (s.pendingFunctors ++ [ConnectorTask.resetChannel ch.fd.toNat])).filterMap
      resetTarget = _
    rw [List.filterMap_append,List.filterMap_append,hp,List.filterMap_cons_none rfl,tail_resets (hd.tail ht)]
    rfl
  | established ch ht hc hs =>
    obtain ⟨_,_,_,_,hr⟩ := ha.watched_of hs
    refine .removed _ rfl rfl nofun ?_
    rw [resets,ht,List.filterMap_append] at hr
    have hp : s.pendingFunctors.filterMap resetTarget = [] := (List.append_eq_nil_iff.mp hr).2
    change ([ConnectorTask.connected] ++ (s.pendingFunctors ++ [ConnectorTask.resetChannel ch.fd.toNat])).filterMap
      resetTarget = _
    rw [List.filterMap_append,List.filterMap_append,hp]
    rfl
  | ignored task ht htask _ =>
    refine ha.of_same rfl ?_ Iff.rfl
    rcases htask with rfl | rfl
    · simp [resets,resetTarget,ht,List.filterMap_cons]
    · simp [resets,resetTarget,ht,List.filterMap_cons]
  | restarted ht =>
    rw [Doing,ht] at hd
    exact ha.of_same rfl (by simp [resets,resetTarget,ht,List.filterMap_cons]) (by simp [hd])
  | connected ht =>
    refine ha.of_same rfl ?_ Iff.rfl
    cases hc : s.connect <;> simp [resets,resetTarget,ht,List.filterMap_cons]
  | newConnection ht => exact ha.of_same rfl (by simp [resets,resetTarget,ht,List.filterMap_cons]) Iff.rfl
  | closeUnwanted ht => exact ha.of_same rfl (by simp [resets,resetTarget,ht,List.filterMap_cons]) Iff.rfl
  | retry k todo ht =>
    refine ha.of_same rfl ?_ Iff.rfl
    cases hc : s.connect <;> simp [resets,resetTarget,ht,List.filterMap_cons]
  | schedule k todo ht => exact ha.of_same rfl (by simp [resets,resetTarget,ht,List.filterMap_cons]) Iff.rfl
  | resetChannel k ht =>
    have hs : s.state ≠ .kConnecting ∧ s.pendingFunctors.filterMap resetTarget = [] := by
      cases ha with
      | none _ _ hr => simp [resets,resetTarget,ht] at hr
      | watched _ _ _ _ _ hr => simp [resets,resetTarget,ht] at hr
      | removed _ _ _ hs hr =>
        simp only [resets,ht,resetTarget,List.cons_append,List.nil_append,List.filterMap_cons] at hr
        exact ⟨hs,(List.cons.inj hr).2⟩
    exact .none rfl hs.1 hs.2

private theorem mem_openSockets {k : Nat} :
    k ∈ s.openSockets ↔ k < s.created ∧ k ∉ s.closed ∧ k ∉ s.handed := by
  simp [openSockets]

private theorem openSockets_settled {k : Nat} (ho : s.openSockets = [k]) (hn : t.created = s.created)
    (hk : ∀ j, (j ∈ s.closed ∨ j ∈ s.handed) ∨ j = k → j ∈ t.closed ∨ j ∈ t.handed) : t.openSockets = [] := by
  rw [List.eq_nil_iff_forall_not_mem]
  intro j hj
  obtain ⟨hlt,hnc,hnh⟩ := mem_openSockets.mp hj
  have hj' : ¬ ((j ∈ s.closed ∨ j ∈ s.handed) ∨ j = k) := fun h => (hk j h).elim hnc hnh
  rw [not_or,not_or] at hj'
  have hopen : j ∈ s.openSockets := mem_openSockets.mpr ⟨hn ▸ hlt,hj'.1⟩
  rw [ho,List.mem_singleton] at hopen
  exact hj'.2 hopen

private theorem Books.of_same (h : s.Books) (hn : t.created = s.created) (hc : t.closed = s.closed)
    (hh : t.handed = s.handed) (hf : t.sockfd = s.sockfd) (hr : t.retries = s.retries) (ho : t.Owns ↔ s.Owns)
    (hk : ∀ k ∈ t.retrying, k ∈ s.retrying) : t.Books := by
  have hopen : t.openSockets = s.openSockets := by rw [openSockets,openSockets,hn,hc,hh]
  refine ⟨?_,?_,?_,?_,?_,?_,?_,?_,?_,?_⟩
  · rw [hc,hn]
    exact h.closed_lt
  · rw [hh,hn]
    exact h.handed_lt
  · rw [hc]
    exact h.closed_once
  · rw [hh]
    exact h.handed_once
  · rw [hc,hh]
    exact h.disjoint
  · rw [hopen,hf,ho]
    exact h.owned
  · rw [hopen,ho]
    exact h.free
  · rw [hr]
    exact h.retried_once
  · rw [hr,hc]
    exact h.retried_closed
  · rw [hr,hc]
    exact fun k hm => h.retrying_fresh k (hk k hm)

private theorem Books.close (h : s.Books) {k : Nat} (ho : s.openSockets = [k]) (hn : t.created = s.created)
    (hc : t.closed = s.closed ++ [k]) (hh : t.handed = s.handed) (hr : t.retries = s.retries) (hown : ¬ t.Owns)
    (hk : ∀ j ∈ t.retrying, j = k) : t.Books := by
  obtain ⟨hlt,hnc,hnh⟩ := mem_openSockets.mp (show k ∈ s.openSockets by rw [ho]; exact List.mem_singleton_self k)
  have hopen : t.openSockets = [] := openSockets_settled ho hn (by grind)
  refine ⟨?_,?_,?_,?_,?_,fun h => (hown h).elim,fun _ => hopen,?_,?_,?_⟩
  · intro j hj
    rw [hc,List.mem_append,List.mem_singleton] at hj
    rw [hn]
    rcases hj with hj | rfl
    · exact h.closed_lt j hj
    · exact hlt
  · rw [hh,hn]
    exact h.handed_lt
  · rw [hc,← List.concat_eq_append]
    exact h.closed_once.concat hnc
  · rw [hh]
    exact h.handed_once
  · intro j hj
    rw [hc,List.mem_append,List.mem_singleton] at hj
    rw [hh]
    rcases hj with hj | rfl
    · exact h.disjoint j hj
    · exact hnh
  · rw [hr]
    exact h.retried_once
  · intro j hj
    rw [hr] at hj
    rw [hc]
    exact List.mem_append_left _ (h.retried_closed j hj)
  · intro j hj
    rw [hk j hj,hc,hr]
    exact ⟨List.mem_append_right _ (List.mem_singleton_self k),fun hm => hnc (h.retried_closed k hm)⟩

private theorem Books.hand (h : s.Books) {k : Nat} (ho : s.openSockets = [k]) (hn : t.created = s.created)
    (hc : t.closed = s.closed) (hh : t.handed = s.handed ++ [k]) (hr : t.retries = s.retries) (hown : ¬ t.Owns)
    (hk : t.retrying = none) : t.Books := by
  obtain ⟨hlt,hnc,hnh⟩ := mem_openSockets.mp (show k ∈ s.openSockets by rw [ho]; exact List.mem_singleton_self k)
  have hopen : t.openSockets = [] := openSockets_settled ho hn (by grind)
  refine ⟨?_,?_,?_,?_,?_,fun h => (hown h).elim,fun _ => hopen,?_,?_,?_⟩
  · rw [hc,hn]
    exact h.closed_lt
  · intro j hj
    rw [hh,List.mem_append,List.mem_singleton] at hj
    rw [hn]
    rcases hj with hj | rfl
    · exact h.handed_lt j hj
    · exact hlt
  · rw [hc]
    exact h.closed_once
  · rw [hh,← List.concat_eq_append]
    exact h.handed_once.concat hnh
  · intro j hj
    rw [hc] at hj
    rw [hh,List.mem_append,List.mem_singleton,not_or]
    refine ⟨h.disjoint j hj,?_⟩
    rintro rfl
    exact hnc hj
  · rw [hr]
    exact h.retried_once
  · rw [hr,hc]
    exact h.retried_closed
  · intro j hj
    rw [hk] at hj
    cases hj

private theorem Books.create (h : s.Books) (ho : s.openSockets = []) (hn : t.created = s.created+1)
    (hc : t.closed = s.closed) (hh : t.handed = s.handed) (hf : t.sockfd = s.created) (hr : t.retries = s.retries)
    (hown : t.Owns) (hk : t.retrying = none) : t.Books := by
  have hopen : t.openSockets = [s.created] := by
    have hlast : s.created ∉ s.closed ∧ s.created ∉ s.handed :=
      ⟨fun hm => Nat.lt_irrefl _ (h.closed_lt _ hm),fun hm => Nat.lt_irrefl _ (h.handed_lt _ hm)⟩
    rw [openSockets,hn,hc,hh,List.range_succ,List.filter_append]
    rw [openSockets] at ho
    rw [ho,List.nil_append,List.filter_cons_of_pos (by simpa using hlast),List.filter_nil]
  refine ⟨?_,?_,?_,?_,?_,fun _ => by rw [hopen,hf],fun h => (h hown).elim,?_,?_,?_⟩
  · intro k hk'
    rw [hc] at hk'
    rw [hn]
    exact Nat.lt_succ_of_lt (h.closed_lt k hk')
  · intro k hk'
    rw [hh] at hk'
    rw [hn]
    exact Nat.lt_succ_of_lt (h.handed_lt k hk')
  · rw [hc]
    exact h.closed_once
  · rw [hh]
    exact h.handed_once
  · rw [hc,hh]
    exact h.disjoint
  · rw [hr]
    exact h.retried_once
  · rw [hr,hc]
    exact h.retried_closed
  · intro k hk'
    rw [hk] at hk'
    cases hk'

private theorem Books.schedule (h : s.Books) {k d : Nat} (hk : s.retrying = some k) (hn : t.created = s.created)
    (hc : t.closed = s.closed) (hh : t.handed = s.handed) (hf : t.sockfd = s.sockfd)
    (hr : t.retries = s.retries ++ [(k,d)]) (ho : t.Owns ↔ s.Owns) (hnone : t.retrying = none) : t.Books := by
  obtain ⟨hclosed,hfresh⟩ := h.retrying_fresh k hk
  have hmap : t.retries.map Prod.fst = s.retries.map Prod.fst ++ [k] := by
    rw [hr,List.map_append]
    rfl
  -- the sockets are those before the step; only the retries are new
  have hb : Books { t with retries := s.retries } := by
    refine h.of_same hn hc hh hf rfl ho ?_
    intro j hj
    have hj' : j ∈ t.retrying := hj
    rw [hnone] at hj'
    cases hj'
  refine ⟨hb.closed_lt,hb.handed_lt,hb.closed_once,hb.handed_once,hb.disjoint,hb.owned,hb.free,?_,?_,?_⟩
  · rw [hmap,← List.concat_eq_append]
    exact h.retried_once.concat hfresh
  · intro j hj
    rw [hmap,List.mem_append,List.mem_singleton] at hj
    rw [hc]
    rcases hj with hj | rfl
    · exact h.retried_closed j hj
    · exact hclosed
  · intro j hj
    rw [hnone] at hj
    cases hj

private theorem retrying_tail {todo : List ConnectorTask} (h : todo = [] ∨ todo = [.handleWrite]) (ht : t.todo = todo) :
    t.retrying = none := by
  rw [retrying,ht]
  rcases h with rfl | rfl
  · rfl
  · rfl

private theorem Moves.books (h : s.Sound) (hm : s.Moves op t) : t.Books := by
  have hb := h.books
  have hd := h.doing
  -- the three ends of `connect()` share the books of a fresh socket
  have hfresh (ht : s.todo = [.connect]) : s.openSockets = [] := by
    rw [Doing,ht] at hd
    have hd' : s.state = .kDisconnected := hd
    refine hb.free ?_
    simp [Owns,ht,hd']
  have hclosed (ht : s.todo = [.connect]) {todo : List ConnectorTask} (htodo : todo = [] ∨ todo = [.retry s.created]) :
      Books { s with
        sockfd := s.created, created := s.created+1, state := .kDisconnected
        closed := s.closed ++ [s.created], todo := todo } := by
    have hnew : Books { s with sockfd := s.created, created := s.created+1, state := .kConnecting, todo := [] } :=
      hb.create (hfresh ht) rfl rfl rfl rfl rfl (.inl rfl) rfl
    refine hnew.close (hnew.owned (.inl rfl)) rfl rfl rfl rfl ?_ ?_
    · rcases htodo with rfl | rfl
      · simp [Owns]
      · simp [Owns]
    · rcases htodo with rfl | rfl
      · simp [retrying]
      · simp [retrying]
  cases hm with
  | startFlag => exact hb.of_same rfl rfl rfl rfl rfl Iff.rfl fun _ => id
  | startQueue _ => exact hb.of_same rfl rfl rfl rfl rfl Iff.rfl fun _ => id
  | stopFlag => exact hb.of_same rfl rfl rfl rfl rfl Iff.rfl fun _ => id
  | stopQueue _ => exact hb.of_same rfl rfl rfl rfl rfl Iff.rfl fun _ => id
  | start ht => exact hb.of_same rfl rfl rfl rfl rfl (by simp [Owns,ht]) (by simp [retrying])
  | restart ht _ => exact hb.of_same rfl rfl rfl rfl rfl (by simp [Owns,ht]) (by simp [retrying])
  | fire ht _ => exact hb.of_same rfl rfl rfl rfl rfl (by simp [Owns,ht]) (by simp [retrying])
  | event ch revents todo ht _ hs htodo =>
    refine hb.of_same rfl rfl rfl rfl rfl (by simp [Owns,hs]) ?_
    rcases htodo with rfl | rfl | rfl | rfl
    all_goals simp [retrying]
  | functor f fs ht hf =>
    rcases h.queued f (by rw [hf]; exact List.mem_cons_self) with rfl | rfl | ⟨k,rfl⟩
    · exact hb.of_same rfl rfl rfl rfl rfl (by simp [Owns,ht]) (by simp [retrying])
    · exact hb.of_same rfl rfl rfl rfl rfl (by simp [Owns,ht]) (by simp [retrying])
    · exact hb.of_same rfl rfl rfl rfl rfl (by simp [Owns,ht]) (by simp [retrying])
  | startInLoop ht _ =>
    cases hc : s.connect with
    | true => exact hb.of_same rfl rfl rfl rfl rfl (by simp [Owns,ht]) (by simp [retrying])
    | false => exact hb.of_same rfl rfl rfl rfl rfl (by simp [Owns,ht]) (by simp [retrying])
  | connecting ht _ => exact hb.create (hfresh ht) rfl rfl rfl rfl rfl (.inl rfl) rfl
  | connectRetry ht => exact hclosed ht (.inr rfl)
  | connectFailed ht =>
    have hst : s.state = .kDisconnected := by
      rw [Doing,ht] at hd
      exact hd
    have hres := hclosed ht (.inl rfl)
    rw [← hst] at hres
    exact hres
  | failed ch task todo ht _ hs =>
    refine hb.close (hb.owned (.inl hs)) rfl rfl rfl rfl ?_ ?_
    · simp [Owns]
    · simp [retrying]
  | established ch ht _ hs => exact hb.of_same rfl rfl rfl rfl rfl (by simp [Owns,hs]) (by simp [retrying])
  | ignored task ht htask hs =>
    refine hb.of_same rfl rfl rfl rfl rfl ?_ (by simp [retrying])
    rcases htask with rfl | rfl
    · simp [Owns,ht]
    · simp [Owns,ht]
  | restarted ht =>
    rw [Doing,ht] at hd
    have hd' : s.state = .kConnected := hd
    exact hb.of_same rfl rfl rfl rfl rfl (by simp [Owns,ht,hd']) (by simp [retrying])
  | connected ht =>
    cases hc : s.connect with
    | true => exact hb.of_same rfl rfl rfl rfl rfl (by simp [Owns,ht]) (by simp [retrying])
    | false => exact hb.of_same rfl rfl rfl rfl rfl (by simp [Owns,ht]) (by simp [retrying])
  | newConnection ht =>
    rw [Doing,ht] at hd
    have hd' : s.state = .kConnected := hd
    exact hb.hand (hb.owned (.inr (.inr (.inl ht)))) rfl rfl rfl rfl (by simp [Owns,hd']) rfl
  | closeUnwanted ht =>
    rw [Doing,ht] at hd
    have hd' : s.state = .kConnected := hd
    exact hb.close (hb.owned (.inr (.inr (.inr ht)))) rfl rfl rfl rfl (by simp [Owns,hd']) (by simp [retrying])
  | retry k todo ht =>
    have htail := hd.tail ht
    have hs := hd.retry (.inl ht)
    cases hc : s.connect with
    | true =>
      refine hb.of_same rfl rfl rfl rfl rfl (by simp [Owns,ht]) ?_
      simp [retrying,ht]
    | false =>
      refine hb.of_same rfl rfl rfl rfl rfl ?_ ?_
      · rcases htail with rfl | rfl
        · simp [Owns,ht]
        · simp [Owns,ht]
      · intro j hj
        rw [retrying_tail htail rfl] at hj
        cases hj
  | schedule k todo ht =>
    have htail := hd.tail ht
    refine hb.schedule (k := k) (by rw [retrying,ht]) rfl rfl rfl rfl rfl ?_ (retrying_tail htail rfl)
    rcases htail with rfl | rfl
    · simp [Owns,ht]
    · simp [Owns,ht]
  | resetChannel k ht => exact hb.of_same rfl rfl rfl rfl rfl (by simp [Owns,ht]) (by simp [retrying])

/-- Every move keeps the connector sound. -/
theorem Moves.sound (h : s.Sound) (hm : s.Moves op t) : t.Sound :=
  ⟨hm.queued h,hm.attached h,hm.doing h,hm.books h⟩

/-- A new connector is sound. -/
theorem new_sound : new.Sound where
  queued := nofun
  attached := .none rfl nofun rfl
  doing := trivial
  books := {
    closed_lt := nofun
    handed_lt := nofun
    closed_once := List.nodup_nil
    handed_once := List.nodup_nil
    disjoint := nofun
    owned := by simp [Owns,new]
    free := fun _ => rfl
    retried_once := List.nodup_nil
    retried_closed := nofun
    retrying_fresh := nofun }

/-- Every step keeps the connector sound, up to an assertion. -/
theorem step_sound (s : Connector) (op : ConnectorOp) (h : s.Sound) (he : machine.Enabled s op) :
    Meets Sound (fun e => ∃ site, e = .assertion site) (machine.step s op) := by
  have hsteps := h.steps he
  change Meets _ _ (s.step op)
  generalize s.step op = r at hsteps
  cases hsteps with
  | ok t hm => exact hm.sound h
  | startInLoop _ _ => exact ⟨_,rfl⟩
  | connecting _ _ => exact ⟨_,rfl⟩

/-- In every run up to its first failed assertion: between two handlers the open sockets are
the one of the attempt, if there is one; a socket is closed at most once or handed over at
most once, never both; and the attempt of a socket has at most one retry, after its close. -/
theorem connector_accounts_for_sockets (ops : List ConnectorOp) (ha : machine.Admissible new ops) :
    Meets (fun s => (s.todo = [] → s.openSockets = if s.state = .kConnecting then [s.sockfd] else []) ∧
        s.closed.Nodup ∧ s.handed.Nodup ∧ (∀ k ∈ s.closed, k ∉ s.handed) ∧
        (s.retries.map Prod.fst).Nodup ∧ ∀ k ∈ s.retries.map Prod.fst, k ∈ s.closed)
      (fun e => ∃ site, e = .assertion site) (machine.exec new ops) := by
  refine (machine.exec_invariant step_sound ops new new_sound ha).mono ?_ (fun _ => id)
  intro s hs
  have hb := hs.books
  refine ⟨?_,hb.closed_once,hb.handed_once,hb.disjoint,hb.retried_once,hb.retried_closed⟩
  intro ht
  split
  · rename_i hc
    exact hb.owned (.inl hc)
  · rename_i hc
    refine hb.free ?_
    simp [Owns,ht,hc]

private def answer (errno : ConnectErrno) : ConnectorOp := .resume ⟨errno,0,false⟩

private def refusedThenConnected : List ConnectorOp :=
  [.startFlag,.startQueue,.functor,answer .success,answer .EINPROGRESS,
    .event (POLLERR ||| POLLOUT),answer .success,answer .success,answer .success,answer .success,
    .functor,answer .success,.fire,answer .success,answer .EINPROGRESS,
    .event POLLOUT,answer .success,answer .success,answer .success]

/-- A first attempt that fails with an error and a write callback in one event, and a second
one that is handed over. -/
theorem connector_accounts_for_two_attempts : machine.Admissible new refusedThenConnected ∧
    ∃ s, machine.exec new refusedThenConnected = .ok s ∧
      (s.todo = [] → s.openSockets = if s.state = .kConnecting then [s.sockfd] else []) ∧
      s.closed.Nodup ∧ s.handed.Nodup ∧ (∀ k ∈ s.closed, k ∉ s.handed) ∧
      (s.retries.map Prod.fst).Nodup ∧ ∀ k ∈ s.retries.map Prod.fst, k ∈ s.closed := by
  have ha : machine.Admissible new refusedThenConnected := by decide +kernel
  exact ⟨ha,(connector_accounts_for_sockets refusedThenConnected ha).of_success (by decide +kernel)⟩

example : (machine.exec new refusedThenConnected).toOption.map (fun s => (s.closed,s.handed,s.retries)) =
    some ([0],[1],[(0,500)]) := by decide +kernel

end LearningMuduo.Tcp.Connector
