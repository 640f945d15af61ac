import LearningMuduo.Library.RoundRobin
import LearningMuduo.Tcp.AcceptorDescriptors
import LearningMuduo.Tcp.TcpServer

/-! A server from its constructor on: `start()`, the pool of I/O loops, and the connections
that the acceptor brings, each in the loop whose turn it is. -/
namespace LearningMuduo.Tcp
open Library

inductive StartAssert where
  | poolStarted | listenning | getNextLoop
  deriving DecidableEq, Repr

/-- What the members of an event loop open, in the order of its constructor. -/
inductive LoopDescriptor where
  | epoll | timerfd | eventfd
  deriving DecidableEq, Repr

/-- The fatal errors are those of the acceptor, of `pthread_create` and of the constructor of a loop. -/
inductive AcceptingFault where
  | acceptor (e : AcceptorFault)
  | pthreadCreate (thread : Nat)
  | noDescriptor (thread : Nat) (kind : LoopDescriptor)
  | notInLoopThread
  | assertion (site : StartAssert)
  deriving DecidableEq, Repr

/-- What a call of `start()` has to do behind its assertions. `pushLoop` is the end of `startLoop()`,
when the new thread has handed over its loop. -/
inductive StartCall where
  | createThread (thread : Nat)
  | openDescriptor (thread : Nat) (kind : LoopDescriptor)
  | pushLoop (thread : Nat)
  | listen
  deriving DecidableEq, Repr

/-- The loop that a call adds to `loops_`. -/
def StartCall.pushed? : StartCall → Option Nat
  | .pushLoop thread => some thread
  | _ => none

/-- `started` is that of the server, `poolStarted` that of its thread pool, and `starting` is the
rest of a running `start()`. The connections are in the order in which they were made, each with
its client. -/
structure AcceptingServer where
  server : TcpServer
  acceptor : Acceptor
  started : Bool
  poolStarted : Bool
  starting : List StartCall
  numThreads : Nat
  highWaterMark : Nat
  connections : List (Nat × Session)

namespace AcceptingServer

/-- The constructor in the thread `loop`, in a process that has the given descriptors. -/
def new (loop : Nat) (table : Slots Holder) (fails : Bool) (highWaterMark : Nat) : Except AcceptingFault AcceptingServer := do
  let acceptor ← ((Acceptor.new table fails).bind fun acceptor => acceptor.step .setNewConnectionCallback).mapError .acceptor
  pure
    { server := TcpServer.new loop []
      acceptor := acceptor
      started := false
      poolStarted := false
      starting := []
      numThreads := 0
      highWaterMark := highWaterMark
      connections := [] }

/-- One round of the loop of `EventLoopThreadPool::start`: `startLoop()`, with the constructor of
the loop in the new thread. -/
def startLoop (thread : Nat) : List StartCall :=
  [.createThread thread,.openDescriptor thread .epoll,.openDescriptor thread .timerfd,.openDescriptor thread .eventfd,
    .pushLoop thread]

/-- `EventLoopThreadPool::start` up to its loop. Every thread is a new one. -/
def startPool (s : AcceptingServer) (inLoopThread : Bool) : Except AcceptingFault AcceptingServer := do
  require (s.poolStarted = false) (.assertion .poolStarted)
  require (inLoopThread = true) .notInLoopThread
  let threads := (List.range s.numThreads).map (s.server.loop+1+·)
  pure { s with poolStarted := true, starting := threads.flatMap startLoop ++ [.listen] }

/-- `TcpServer::start`. -/
def start (s : AcceptingServer) (inLoopThread : Bool) : Except AcceptingFault AcceptingServer :=
  if s.started then pure s else { s with started := true }.startPool inLoopThread

/-- The lowest descriptor goes to the loop of a thread. -/
def openDescriptor (s : AcceptingServer) (thread : Nat) (kind : LoopDescriptor) (fails : Bool) :
    Except AcceptingFault AcceptingServer :=
  match s.acceptor.table.lowest with
  | none => .error (.noDescriptor thread kind)
  | some fd => do
    require (fails = false) (.noDescriptor thread kind)
    pure { s with acceptor := { s.acceptor with table := s.acceptor.table.set fd (some (.loop thread)) } }

/-- The next call of a running `start()`. In the loop's thread `runInLoop` listens at once. -/
def startCall (s : AcceptingServer) (fails : Bool) : StartCall → Except AcceptingFault AcceptingServer
  | .createThread thread => do
    require (fails = false) (.pthreadCreate thread)
    pure s
  | .openDescriptor thread kind => s.openDescriptor thread kind fails
  | .pushLoop thread => pure { s with server := { s.server with loops := s.server.loops ++ [thread] } }
  | .listen => do
    require (s.acceptor.listenning = false) (.assertion .listenning)
    let acceptor ← (s.acceptor.step (.listen fails)).mapError .acceptor
    pure { s with acceptor := acceptor }

/-- `EventLoopThreadPool::getAllLoops`. -/
def getAllLoops (s : AcceptingServer) : List Nat := if s.server.loops = [] then [s.server.loop] else s.server.loops

/-- `newConnection` with the assertion of `getNextLoop`. -/
def newConnection (s : AcceptingServer) (client sockfd : Nat) : Except AcceptingFault AcceptingServer := do
  require (s.poolStarted = true) (.assertion .getNextLoop)
  let (server,session) := s.server.newConnection sockfd s.highWaterMark
  pure { s with server := server, connections := s.connections ++ [(client,session)] }

/-- The acceptor goes on, and calls `newConnection` for a client that it has connected. -/
def accepted (s : AcceptingServer) (acceptor : Acceptor) : Except AcceptingFault AcceptingServer :=
  match acceptor.fates.drop s.acceptor.fates.length with
  | [(client,.connected sockfd)] => { s with acceptor := acceptor }.newConnection client sockfd
  | _ => pure { s with acceptor := acceptor }

inductive AcceptingOp where
  | setThreadNum (numThreads : Nat)
  | start (inLoopThread : Bool)
  | resumeStart (fails : Bool)
  | acceptor (op : Acceptor.AcceptorOp)
  deriving DecidableEq, Repr

def step (s : AcceptingServer) : AcceptingOp → Except AcceptingFault AcceptingServer
  | .setThreadNum numThreads => pure { s with numThreads := numThreads }
  | .start inLoopThread => s.start inLoopThread
  | .resumeStart fails =>
    match s.starting with
    | [] => pure s
    | call :: calls => { s with starting := calls }.startCall fails call
  | .acceptor op => do
    let acceptor ← (s.acceptor.step op).mapError .acceptor
    s.accepted acceptor

/-- The steps of the acceptor that the server does not take for it. -/
def OwnStep : Acceptor.AcceptorOp → Prop
  | .handleRead _ | .resume _ | .arrive _ | .otherOpen | .otherClose _ => True
  | .setNewConnectionCallback | .listen _ | .destroy => False

instance : DecidablePred OwnStep
  | .handleRead _ | .resume _ | .arrive _ | .otherOpen | .otherClose _ => isTrue trivial
  | .setNewConnectionCallback | .listen _ | .destroy => isFalse id

/-- `start()` comes from any thread; the loop's own is then not inside `handleRead` or another
`start()`. `setThreadNum` has no lock, and comes before or after one. -/
def Enabled (s : AcceptingServer) : AcceptingOp → Prop
  | .setThreadNum _ => s.starting = []
  | .start inLoopThread => inLoopThread = true → s.acceptor.todo = [] ∧ s.starting = []
  | .resumeStart _ => s.starting ≠ []
  | .acceptor op => OwnStep op ∧ s.acceptor.Enabled op

instance (s : AcceptingServer) : (op : AcceptingOp) → Decidable (s.Enabled op)
  | .setThreadNum _ => inferInstanceAs (Decidable (_ = _))
  | .start _ => inferInstanceAs (Decidable (_ → _))
  | .resumeStart _ => inferInstanceAs (Decidable (_ ≠ _))
  | .acceptor _ => inferInstanceAs (Decidable (_ ∧ _))

def machine : Machine AcceptingServer AcceptingOp AcceptingFault := ⟨Enabled,step⟩

instance (s : AcceptingServer) (op : AcceptingOp) : Decidable (machine.Enabled s op) :=
  inferInstanceAs (Decidable (s.Enabled op))

end AcceptingServer

namespace Acceptor
variable {s t : Acceptor} {op : AcceptorOp}

/-- A step that may take one client. -/
private structure Extends (s t : Acceptor) : Prop where
  alive : t.alive = s.alive
  fates : t.fates = s.fates ∨ ∃ taken, t.fates = s.fates ++ [taken]

private theorem close_ok {fd : Option Nat} (h : s.close fd = .ok t) : ∃ table, t = { s with table := table } := by
  cases fd with
  | none =>
    cases h
    exact ⟨s.table,rfl⟩
  | some fd =>
    obtain ⟨_,-,h⟩ := bind_eq_ok h
    cases h
    exact ⟨_,rfl⟩

private theorem handleRead_extends {refusal : Option AcceptErrno} (hr : refusal ≠ some .EMFILE)
    (h : s.handleRead refusal = .ok t) : Extends s t := by
  have haccepts := accepts s hr
  unfold handleRead at h
  generalize s.accept refusal = r at haccepts h
  cases haccepts with
  | full hfull =>
    cases h
    exact ⟨rfl,.inl rfl⟩
  | refused errno hne =>
    obtain ⟨_,-,h⟩ := bind_eq_ok h
    rw [if_neg hne] at h
    cases h
    exact ⟨rfl,.inl rfl⟩
  | aborted client rest hb =>
    cases h
    exact ⟨rfl,.inr ⟨_,rfl⟩⟩
  | ok fd client rest hfree hb =>
    dsimp only at h
    split at h
    · cases h
      exact ⟨rfl,.inr ⟨_,rfl⟩⟩
    · obtain ⟨u,hu,h⟩ := bind_eq_ok h
      obtain ⟨table,rfl⟩ := close_ok hu
      cases h
      exact ⟨rfl,.inr ⟨_,rfl⟩⟩

private theorem run_extends {answer : IdleAnswer} {call : IdleCall} {todo : List IdleCall} (hr : answer.refusal ≠ some .EMFILE)
    (h : { s with todo := todo }.run answer call = .ok t) : Extends s t := by
  cases call with
  | closeIdle =>
    obtain ⟨table,rfl⟩ := close_ok h
    exact ⟨rfl,.inl rfl⟩
  | accept =>
    have haccepts := accepts { s with todo := todo } hr
    unfold run at h
    dsimp only at h
    generalize accept { s with todo := todo } answer.refusal = r at haccepts h
    cases haccepts with
    | full hfull =>
      cases h
      exact ⟨rfl,.inl rfl⟩
    | refused errno hne =>
      cases h
      exact ⟨rfl,.inl rfl⟩
    | aborted client rest hb =>
      cases h
      exact ⟨rfl,.inr ⟨_,rfl⟩⟩
    | ok fd client rest hfree hb =>
      cases h
      exact ⟨rfl,.inr ⟨_,rfl⟩⟩
  | closeAccepted =>
    obtain ⟨table,rfl⟩ := close_ok h
    exact ⟨rfl,.inl rfl⟩
  | openIdle =>
    cases h
    unfold openIdle
    split
    · exact ⟨rfl,.inl rfl⟩
    · split
      · exact ⟨rfl,.inl rfl⟩
      · exact ⟨rfl,.inl rfl⟩

private theorem quiet_step (hown : AcceptingServer.OwnStep op) (he : s.Enabled op) (hlisten : s.listenning = false) (ht : s.todo = [])
    (h : s.step op = .ok t) : ∃ table, t = { s with table := table } := by
  cases op with
  | setNewConnectionCallback | listen fails | destroy => exact hown.elim
  | handleRead refusal => exact (Bool.false_ne_true (hlisten.symm.trans he.2.2.1)).elim
  | resume answer => exact (he.1 ht).elim
  | arrive client => exact (Bool.false_ne_true (hlisten.symm.trans he.2)).elim
  | otherOpen =>
    obtain ⟨fd,hfree⟩ := Option.ne_none_iff_exists'.mp he
    rw [step_otherOpen hfree] at h
    cases h
    exact ⟨_,rfl⟩
  | otherClose fd =>
    cases h
    exact ⟨_,rfl⟩

private theorem step_extends (hown : AcceptingServer.OwnStep op) (he : s.Enabled op) (h : s.step op = .ok t) : Extends s t := by
  cases op with
  | setNewConnectionCallback | listen fails | destroy => exact hown.elim
  | handleRead refusal => exact handleRead_extends he.2.2.2 h
  | resume answer =>
    obtain ⟨call,todo,ht⟩ := List.exists_cons_of_ne_nil he.1
    rw [step_resume ht] at h
    exact run_extends he.2 h
  | arrive client =>
    cases h
    exact ⟨rfl,.inl rfl⟩
  | otherOpen =>
    obtain ⟨fd,hfree⟩ := Option.ne_none_iff_exists'.mp he
    rw [step_otherOpen hfree] at h
    cases h
    exact ⟨rfl,.inl rfl⟩
  | otherClose fd =>
    cases h
    exact ⟨rfl,.inl rfl⟩

private theorem new_fresh {table : Slots Holder} {fails : Bool} (h : new table fails = .ok s) :
    s.alive = true ∧ s.listenning = false ∧ s.fates = [] := by
  unfold new openIdle at h
  split at h
  · cases h
  · dsimp only at h
    split at h
    · cases h
      exact ⟨rfl,rfl,rfl⟩
    · split at h
      · cases h
        exact ⟨rfl,rfl,rfl⟩
      · cases h
        exact ⟨rfl,rfl,rfl⟩

end Acceptor

namespace AcceptingServer
variable {s t : AcceptingServer} {op : AcceptingOp}

/-- The client and the descriptor of a connection that the acceptor has made. -/
def connected : Nat × Fate → Option (Nat × Int)
  | (client,.connected sockfd) => some (client,sockfd)
  | _ => none

/-- No client has come, and nobody can come. -/
structure Quiet (s : AcceptingServer) : Prop where
  listenning : s.acceptor.listenning = false
  todo : s.acceptor.todo = []
  fates : s.acceptor.fates = []
  connections : s.connections = []

/-- `next_` is the turn after as many as there were connections; until `start()` has listened, which
it does last, there are none. -/
structure Spread (s : AcceptingServer) : Prop where
  acceptor : s.acceptor.Accounts
  alive : s.acceptor.alive = true
  pool : s.poolStarted = s.started
  fresh : s.started = false → s.server.loops = [] ∧ s.starting = []
  quiet : s.started = false ∨ s.starting ≠ [] → s.Quiet
  last : s.starting ≠ [] → ∃ calls, s.starting = calls ++ [.listen] ∧ .listen ∉ calls
  nodup : (s.server.loops ++ s.starting.filterMap StartCall.pushed?).Nodup
  next : s.server.next = s.connections.length % s.getAllLoops.length
  turns : s.connections.map (fun c => c.2.loopThread) = turns s.getAllLoops s.connections.length
  taken : s.connections.map (fun c => (c.1,c.2.conn.channel.fd)) = s.acceptor.fates.filterMap connected

private theorem getAllLoops_pos (s : AcceptingServer) : 0 < s.getAllLoops.length := by
  unfold getAllLoops
  split
  · exact Nat.zero_lt_one
  · next hne => exact List.length_pos_of_ne_nil hne

/-- The loop whose turn it is, and the turn after. -/
theorem getNextLoop_eq (h : s.server.next < s.getAllLoops.length) :
    ∃ loop, s.getAllLoops[s.server.next]? = some loop ∧
      s.server.getNextLoop = (loop,{ s.server with next := (s.server.next+1) % s.getAllLoops.length }) := by
  unfold getAllLoops at h ⊢
  unfold TcpServer.getNextLoop
  by_cases hloops : s.server.loops = []
  · rw [if_pos hloops] at h ⊢
    have hzero : s.server.next = 0 := Nat.lt_one_iff.mp h
    refine ⟨s.server.loop,?_,?_⟩
    · rw [hzero]
      rfl
    · rw [hloops,List.getElem?_nil,List.length_singleton,Nat.mod_one,← hzero]
  · rw [if_neg hloops] at h ⊢
    refine ⟨s.server.loops[s.server.next],List.getElem?_eq_getElem h,?_⟩
    rw [List.getElem?_eq_getElem h]
    have hnext : (if s.server.next+1 ≥ s.server.loops.length then 0 else s.server.next+1) =
        (s.server.next+1) % s.server.loops.length := by
      split
      · next hge =>
        have heq : s.server.next+1 = s.server.loops.length := Nat.le_antisymm h hge
        rw [heq,Nat.mod_self]
      · next hlt => rw [Nat.mod_eq_of_lt (Nat.lt_of_not_ge hlt)]
    dsimp only
    rw [hnext]

/-- A connection in the loop whose turn it is. -/
theorem newConnection_spread {client sockfd : Nat} (h : s.Spread) (hrun : s.started = true ∧ s.starting = [])
    {acceptor : Acceptor} (ha : acceptor.Accounts) (halive : acceptor.alive = true)
    (hfates : acceptor.fates = s.acceptor.fates ++ [(client,.connected sockfd)]) :
    Meets Spread (fun _ => False) ({ s with acceptor := acceptor }.newConnection client sockfd) := by
  obtain ⟨hstarted,hidle⟩ := hrun
  have hlt : s.server.next < s.getAllLoops.length := by
    rw [h.next]
    exact Nat.mod_lt _ s.getAllLoops_pos
  obtain ⟨loop,hloop,hget⟩ := getNextLoop_eq hlt
  unfold newConnection TcpServer.newConnection
  dsimp only
  rw [require_pos (h.pool.trans hstarted),bind_ok,hget]
  change Spread _
  refine ⟨ha,halive,h.pool,h.fresh,fun hnot => ?_,h.last,h.nodup,?_,?_,?_⟩
  · rcases hnot with hnot | hnot
    · exact (Bool.false_ne_true (hnot.symm.trans hstarted)).elim
    · exact (hnot hidle).elim
  · change (s.server.next+1) % s.getAllLoops.length = (s.connections ++ [_]).length % s.getAllLoops.length
    rw [h.next,Nat.mod_add_mod,List.length_append]
    rfl
  · rw [List.map_append,h.turns,List.length_append]
    change turns s.getAllLoops _ ++ [loop] = turns s.getAllLoops (s.connections.length+1)
    rw [turns_succ,← h.next,hloop]
    rfl
  · rw [List.map_append,h.taken,hfates,List.filterMap_append]
    rfl

private theorem Spread.with_acceptor (h : s.Spread) {acceptor : Acceptor} (ha : acceptor.Accounts)
    (halive : acceptor.alive = true)
    (hquiet : s.started = false ∨ s.starting ≠ [] → acceptor.listenning = false ∧ acceptor.todo = [] ∧ acceptor.fates = [])
    (hfates : acceptor.fates.filterMap connected = s.acceptor.fates.filterMap connected) :
    Spread { s with acceptor := acceptor } := by
  refine ⟨ha,halive,h.pool,h.fresh,fun hnot => ?_,h.last,h.nodup,h.next,h.turns,h.taken.trans hfates.symm⟩
  obtain ⟨hlisten,ht,hf⟩ := hquiet hnot
  exact ⟨hlisten,ht,hf,(h.quiet hnot).connections⟩

/-- What ends a run: a first `start()` in another thread, a thread or a descriptor that it needs and does not get,
and what ends the acceptor. -/
def Stops (e : AcceptingFault) : Prop :=
  e = .notInLoopThread ∨ (∃ thread, e = .pthreadCreate thread) ∨ (∃ thread kind, e = .noDescriptor thread kind) ∨
    ∃ f, e = .acceptor f ∧ Acceptor.Fatal f

private theorem acceptor_spread (h : s.Spread) {op : Acceptor.AcceptorOp} (hown : OwnStep op) (he : s.acceptor.Enabled op) :
    Meets Spread Stops (s.step (.acceptor op)) := by
  have hkeep := Acceptor.step_accounts s.acceptor op h.acceptor he
  change Meets _ _ ((s.acceptor.step op).mapError .acceptor >>= s.accepted)
  cases hstep : s.acceptor.step op with
  | error e =>
    rw [hstep] at hkeep
    exact .inr (.inr (.inr ⟨e,rfl,hkeep⟩))
  | ok acceptor =>
    rw [hstep] at hkeep
    change Meets _ _ (s.accepted acceptor)
    unfold accepted
    by_cases hnot : s.started = false ∨ s.starting ≠ []
    · obtain ⟨hlisten,ht,hf,-⟩ := h.quiet hnot
      obtain ⟨table,rfl⟩ := Acceptor.quiet_step hown he hlisten ht hstep
      rw [List.drop_length]
      exact h.with_acceptor hkeep h.alive (fun _ => ⟨hlisten,ht,hf⟩) rfl
    · have hrun : s.started = true ∧ s.starting = [] := by
        rw [not_or,not_not] at hnot
        exact ⟨Bool.eq_true_of_not_eq_false hnot.1,hnot.2⟩
      obtain ⟨halive,hsame | ⟨⟨client,fate⟩,htaken⟩⟩ := Acceptor.step_extends hown he hstep
      · rw [hsame,List.drop_length]
        exact h.with_acceptor hkeep (halive.trans h.alive) (fun hq => (hnot hq).elim) (congrArg _ hsame)
      · rw [htaken,List.drop_left]
        have hother (hnone : connected (client,fate) = none) : Spread { s with acceptor := acceptor } := by
          refine h.with_acceptor hkeep (halive.trans h.alive) (fun hq => (hnot hq).elim) ?_
          rw [htaken,List.filterMap_append,List.filterMap_cons_none hnone,List.filterMap_nil,List.append_nil]
        cases fate with
        | connected sockfd =>
          exact (newConnection_spread h hrun hkeep (halive.trans h.alive) htaken).mono (fun _ => id) fun _ => False.elim
        | closed => exact hother rfl
        | aborted => exact hother rfl

private theorem last_call {call : StartCall} {calls before : List StartCall} (h : call :: calls = before ++ [.listen])
    (hbefore : .listen ∉ before) : call = .listen ∧ calls = [] ∨
      call ≠ .listen ∧ ∃ before, calls = before ++ [.listen] ∧ .listen ∉ before := by
  cases before with
  | nil =>
    cases h
    exact .inl ⟨rfl,rfl⟩
  | cons first before =>
    cases h
    exact .inr ⟨fun heq => hbefore (heq ▸ List.mem_cons_self),before,rfl,fun hm => hbefore (List.mem_cons_of_mem _ hm)⟩

variable {call : StartCall} {calls : List StartCall}

private theorem Spread.advance (h : s.Spread) (hs : s.starting = call :: calls)
    (hlast : ∃ before, calls = before ++ [.listen] ∧ .listen ∉ before) (hpush : call.pushed? = none) :
    Spread { s with starting := calls } := by
  have hq := h.quiet (.inr (by rw [hs]; exact List.cons_ne_nil call calls))
  have hstarted : ¬ s.started = false := by
    intro hnot
    rw [(h.fresh hnot).2] at hs
    cases hs
  refine ⟨h.acceptor,h.alive,h.pool,fun hnot => (hstarted hnot).elim,
    fun _ => ⟨hq.listenning,hq.todo,hq.fates,hq.connections⟩,fun _ => hlast,?_,h.next,h.turns,h.taken⟩
  have hnodup := h.nodup
  rwa [hs,List.filterMap_cons_none hpush] at hnodup

private theorem startCall_spread (h : s.Spread) (hs : s.starting = call :: calls) (fails : Bool) :
    Meets Spread Stops ({ s with starting := calls }.startCall fails call) := by
  have hne : s.starting ≠ [] := by
    rw [hs]
    exact List.cons_ne_nil call calls
  have hq := h.quiet (.inr hne)
  obtain ⟨before,hall,hbefore⟩ := h.last hne
  have hstarted : s.started = true := by
    by_contra hnot
    exact hne (h.fresh (Bool.eq_false_of_not_eq_true hnot)).2
  obtain ⟨rfl,rfl⟩ | ⟨hcall,hlast⟩ := last_call (hs.symm.trans hall) hbefore
  · have hkeep := Acceptor.step_accounts s.acceptor (.listen fails) h.acceptor ⟨h.alive,hq.todo⟩
    change Meets _ _ (require (s.acceptor.listenning = false) (AcceptingFault.assertion .listenning) >>= fun _ => _)
    rw [require_pos hq.listenning,bind_ok]
    cases fails with
    | true => exact .inr (.inr (.inr ⟨_,rfl,hkeep⟩))
    | false =>
      have hnodup := h.nodup
      rw [hs] at hnodup
      refine ⟨hkeep,h.alive,h.pool,fun hnot => ?_,fun hnot => ?_,fun hnot => (hnot rfl).elim,hnodup,h.next,h.turns,h.taken⟩
      · exact (Bool.false_ne_true (hnot.symm.trans hstarted)).elim
      · rcases hnot with hnot | hnot
        · exact (Bool.false_ne_true (hnot.symm.trans hstarted)).elim
        · exact (hnot rfl).elim
  · cases call with
    | createThread thread =>
      have hnext := h.advance hs hlast rfl
      cases fails with
      | true => exact .inr (.inl ⟨thread,rfl⟩)
      | false => exact hnext
    | openDescriptor thread kind =>
      have hnext := h.advance hs hlast rfl
      have hfault : Stops (.noDescriptor thread kind) := .inr (.inr (.inl ⟨thread,kind,rfl⟩))
      change Meets _ _ (openDescriptor _ thread kind fails)
      unfold openDescriptor
      split
      · exact hfault
      · next fd hfree =>
        cases fails with
        | true => exact hfault
        | false =>
          have haccounts := h.acceptor.takenByOther hfree (show Holder.loop thread ≠ .acceptor by simp)
          exact hnext.with_acceptor haccounts h.alive (fun _ => ⟨hq.listenning,hq.todo,hq.fates⟩) rfl
    | pushLoop thread =>
      have hnodup := h.nodup
      have hpush : StartCall.pushed? (.pushLoop thread) = some thread := rfl
      rw [hs,List.filterMap_cons_some hpush] at hnodup
      have hnone := hq.connections
      refine ⟨h.acceptor,h.alive,h.pool,fun hnot => ?_,fun _ => ⟨hq.listenning,hq.todo,hq.fates,hnone⟩,fun _ => hlast,?_,
        ?_,?_,h.taken⟩
      · exact (Bool.false_ne_true (hnot.symm.trans hstarted)).elim
      · change (s.server.loops ++ [thread] ++ calls.filterMap StartCall.pushed?).Nodup
        rw [List.append_assoc]
        exact hnodup
      · have hzero := h.next
        dsimp only
        rw [hnone] at hzero ⊢
        exact hzero.trans ((Nat.zero_mod _).trans (Nat.zero_mod _).symm)
      · dsimp only
        rw [hnone]
        rfl
    | listen => exact (hcall rfl).elim

private theorem pushed_startLoop (threads : List Nat) :
    (threads.flatMap startLoop ++ [StartCall.listen]).filterMap StartCall.pushed? = threads := by
  induction threads with
  | nil => rfl
  | cons thread threads ih => exact congrArg (thread :: ·) ih

private theorem start_spread (h : s.Spread) (inLoopThread : Bool) : Meets Spread Stops (s.start inLoopThread) := by
  unfold start
  cases hstarted : s.started with
  | true => exact h
  | false =>
    obtain ⟨hloops,-⟩ := h.fresh hstarted
    obtain ⟨hlisten,ht,hf,hnone⟩ := h.quiet (.inl hstarted)
    rw [if_neg Bool.false_ne_true]
    unfold startPool
    dsimp only
    rw [require_pos (h.pool.trans hstarted),bind_ok]
    cases inLoopThread with
    | false =>
      rw [require_neg Bool.false_ne_true]
      exact .inl rfl
    | true =>
      rw [require_pos rfl,bind_ok]
      refine ⟨h.acceptor,h.alive,rfl,nofun,fun _ => ⟨hlisten,ht,hf,hnone⟩,fun _ => ⟨_,rfl,?_⟩,?_,h.next,h.turns,h.taken⟩
      · simp [startLoop]
      · dsimp only
        rw [hloops,List.nil_append,pushed_startLoop]
        exact List.nodup_range.map fun _ _ heq => Nat.add_left_cancel heq

private theorem step_spread (s : AcceptingServer) (op : AcceptingOp) (h : s.Spread) (he : s.Enabled op) :
    Meets Spread Stops (s.step op) := by
  cases op with
  | setThreadNum numThreads => exact ⟨h.acceptor,h.alive,h.pool,h.fresh,fun hnot => ⟨(h.quiet hnot).listenning,
      (h.quiet hnot).todo,(h.quiet hnot).fates,(h.quiet hnot).connections⟩,h.last,h.nodup,h.next,h.turns,h.taken⟩
  | start inLoopThread => exact start_spread h inLoopThread
  | resumeStart fails =>
    obtain ⟨call,calls,hs⟩ := List.exists_cons_of_ne_nil he
    have hstep : s.step (.resumeStart fails) = { s with starting := calls }.startCall fails call := by
      unfold step
      rw [hs]
    rw [hstep]
    exact startCall_spread h hs fails
  | acceptor op => exact acceptor_spread h he.1 he.2

private theorem new_spread {loop highWaterMark : Nat} {table : Slots Holder} {fails : Bool} {first : AcceptingServer}
    (hothers : some Holder.acceptor ∉ table) (hnew : new loop table fails highWaterMark = .ok first) : first.Spread := by
  unfold new at hnew
  cases hacceptor : Acceptor.new table fails with
  | error e =>
    rw [hacceptor] at hnew
    cases hnew
  | ok acceptor =>
    rw [hacceptor] at hnew
    cases hnew
    obtain ⟨h,ht⟩ := Acceptor.new_accounts hothers hacceptor
    obtain ⟨halive,hlisten,hfates⟩ := Acceptor.new_fresh hacceptor
    refine ⟨⟨h.owns,h.staged,h.clients⟩,halive,rfl,fun _ => ⟨rfl,rfl⟩,fun _ => ⟨hlisten,ht,hfates,rfl⟩,
      fun hne => (hne rfl).elim,List.nodup_nil,rfl,rfl,?_⟩
    change [] = acceptor.fates.filterMap connected
    rw [hfates]
    rfl

/-- Two I/O loops, while another thread opens a file and a second `start()` comes from it; then three clients. -/
private def threeClients : List AcceptingOp :=
  [.setThreadNum 2,.start true,.resumeStart false,.resumeStart false,.start false,.resumeStart false,.acceptor .otherOpen] ++
  List.replicate 8 (.resumeStart false) ++
  [.setThreadNum 5,.start true,.acceptor (.arrive 7),.acceptor (.arrive 8),
    .acceptor (.handleRead none),.acceptor (.arrive 9),.acceptor (.handleRead (some .ECONNABORTED)),.acceptor (.handleRead none)]

private def roomForEleven : Slots Holder := some .other :: List.replicate 11 none

end AcceptingServer
end LearningMuduo.Tcp
