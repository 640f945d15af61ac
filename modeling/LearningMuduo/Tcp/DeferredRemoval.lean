import LearningMuduo.Tcp.ActiveChannels
import LearningMuduo.Tcp.ConnectionEffects
import LearningMuduo.Tcp.ConnectorSockets

/-! While a loop iterates `activeChannels_`, nobody removes a channel it has still to handle. -/
namespace LearningMuduo.Tcp
open Library Reactor Timers

namespace Session
variable {s u : Session}

/-- A channel that is in the poller knows it. -/
def Tracked (s : Session) : Prop := s.conn.channel.index = kNew ∨ s.conn.channel.addedToLoop = true

/-- A registered channel stays registered, and a tracked one tracked. -/
private structure Stays (s u : Session) : Prop where
  registered : s.conn.channel.index ≠ kNew → u.conn.channel.index ≠ kNew
  tracked : s.Tracked → u.Tracked

private theorem Stays.of_eq (hi : u.conn.channel.index = s.conn.channel.index)
    (ha : u.conn.channel.addedToLoop = s.conn.channel.addedToLoop) : s.Stays u :=
  ⟨by rw [hi]; exact id,by rw [Tracked,Tracked,hi,ha]; exact id⟩

private theorem Stays.updated (ch : Channel ConnHandler) (op : Interest) (hc : u.conn.channel = (ch.setInterest op).updated) :
    s.Stays u := by
  have hindex : (ch.setInterest op).updated.index ≠ kNew := by
    unfold Channel.updated
    split <;> simp [kNew,kAdded,kDeleted]
  exact ⟨fun _ => by rw [hc]; exact hindex,fun _ => .inr (by rw [hc]; rfl)⟩

private theorem Quiet.stays (h : s.Quiet u) : s.Stays u := by
  rcases h.channel with hc | ⟨op,hc⟩
  · exact .of_eq (by rw [hc]) (by rw [hc])
  · exact .updated s.conn.channel op hc

private theorem Effect.stays (h : s.Effect u) : s.Stays u := by
  cases h with
  | quiet h => exact h.stays
  | closes v _ _ _ hu => exact .updated v.conn.channel .disableAll (by rw [hu]; rfl)
  | forgets v _ _ _ hu => exact .updated v.conn.channel .disableAll (by rw [hu]; rfl)

private theorem resume_stays (h : s.conn.outputBuffer.WF) {t : Nat} {n : Int} (he : s.Enabled (.resume t n)) :
    Meets s.Stays (fun _ => True) (s.resume t n) := by
  change CallAnswer n (s.calls t) at he
  rw [resume]
  cases hc : s.calls t with
  | none => exact .of_eq rfl rfl
  | some point =>
    rw [hc] at he
    cases point with
    | send message =>
      refine (sendInLoop_quiet (s := s.setCall t none) h t he).mono (fun u hq => ?_) fun _ => id
      exact ⟨hq.stays.registered,hq.stays.tracked⟩
    | shutdown =>
      change Meets _ _ (if _ then _ else _)
      split
      · have hq := (shutdownInLoop_quiet ((s.setCall t none).setState .kDisconnecting)).stays
        exact ⟨hq.registered,hq.tracked⟩
      · exact .of_eq rfl rfl
    | forceClose => exact .of_eq rfl rfl
    | queue f => exact .of_eq rfl rfl

private theorem code_stays (h : s.conn.outputBuffer.WF) {a : ConnStep} (he : s.Enabled a) (hfunctor : ∀ n, a ≠ .functor n) :
    Meets s.Stays (fun _ => True) (s.code a) := by
  by_cases hcall : ∃ t c, a = .call t c
  · obtain ⟨t,c,rfl⟩ := hcall
    have hstays : s.Stays (s.call t c) := by
      obtain hc | ⟨p,-,hc⟩ | ⟨message,p,-,hc⟩ := s.call_cases t c <;> rw [hc] <;> exact .of_eq rfl rfl
    exact hstays
  by_cases hresume : ∃ t n, a = .resume t n
  · obtain ⟨t,n,rfl⟩ := hresume
    exact resume_stays h he
  by_cases hremove : a = .removeConnectionInLoop
  · rw [hremove]
    refine removeConnectionInLoop_spec.mono ?_ fun _ _ => trivial
    rintro u ⟨-,rfl⟩
    exact .of_eq rfl rfl
  by_cases hevent : ∃ revents, a = .event revents
  · obtain ⟨revents,rfl⟩ := hevent
    exact .of_eq rfl rfl
  · refine (code_effect h he ?_ ?_ hfunctor ?_ hremove).mono (fun _ => Effect.stays) fun _ => id
    · exact fun t c ha => hcall ⟨t,c,ha⟩
    · exact fun t n ha => hresume ⟨t,n,ha⟩
    · exact fun revents ha => hevent ⟨revents,ha⟩

private theorem functor_tracked (h : s.conn.outputBuffer.WF) (ht : s.Tracked) {n : Int} (he : s.Enabled (.functor n)) :
    Meets Tracked (fun _ => True) (s.code (.functor n)) := by
  have hanswer := he.2.2
  rw [code]
  cases hq : s.ioQueue with
  | nil => exact ht
  | cons f rest =>
    rw [hq] at hanswer
    refine (runFunctor_effect (s := { s with ioQueue := rest }) h hanswer).mono ?_ fun _ => id
    rintro u (heffect | ⟨-,rfl⟩)
    · exact heffect.stays.tracked ht
    · exact .inl rfl

private theorem connectEstablished_stays (s : Session) : Meets s.Stays (fun _ => True) s.connectEstablished := by
  refine Meets.bind (meets_require fun _ => trivial) fun _ _ => ?_
  change s.Stays (if _ then _ else _)
  split
  · exact .updated s.conn.channel .enableReading rfl
  · exact .updated s.conn.channel .enableReading rfl

end Session

namespace Lifetime
variable {l : Lifetime}

/-- What every step of a connection keeps. -/
private def Steady (l : Lifetime) : Prop := l.session.Watched ∧ l.session.Tracked

private theorem step_steady (h : l.Steady) {a : LifeStep} (he : machine.Enabled l a) :
    Meets (fun u => u.Steady ∧ ((∀ n, a ≠ .conn (.functor n)) → l.session.conn.channel.index ≠ kNew →
      u.session.conn.channel.index ≠ kNew)) (fun _ => True) (l.code a) := by
  obtain ⟨hw,ht⟩ := h
  cases a with
  | connectEstablished =>
    have hwatched := Session.connectEstablished_watched hw
    have hstays := Session.connectEstablished_stays l.session
    change Meets _ _ (l.session.connectEstablished >>= _)
    cases hr : l.session.connectEstablished with
    | error e => trivial
    | ok s =>
      rw [hr] at hwatched hstays
      exact ⟨⟨hwatched,hstays.tracked ht⟩,fun _ => hstays.registered⟩
  | take t | drop t | swap | endBatch | endRemovals => exact ⟨⟨hw,ht⟩,fun _ => id⟩
  | conn a =>
    obtain ⟨f,hf,hcode⟩ := l.code_conn a
    have hen := conn_enabled he
    have hwatched := Session.code_watched hw hen
    rw [hcode]
    cases hr : l.session.code a with
    | error e => trivial
    | ok s =>
      rw [hr] at hwatched
      change (f s).Steady ∧ _
      rw [Steady,hf]
      by_cases hfunctor : ∃ n, a = .functor n
      · obtain ⟨n,rfl⟩ := hfunctor
        have htracked := Session.functor_tracked hw.output ht hen
        rw [hr] at htracked
        exact ⟨⟨hwatched,htracked⟩,fun hno => (hno n rfl).elim⟩
      · have hstays := Session.code_stays hw.output hen fun n ha => hfunctor ⟨n,ha⟩
        rw [hr] at hstays
        exact ⟨⟨hwatched,hstays.tracked ht⟩,fun _ => hstays.registered⟩

private theorem new_steady (owner : Owner) (loopThread : Nat) (sockfd : Int) (mark : Nat) :
    (new owner loopThread sockfd mark).Steady := by
  rw [new]
  split
  · exact ⟨Session.new_watched owner loopThread sockfd mark,.inl rfl⟩
  · exact ⟨Session.established_watched owner loopThread sockfd mark,.inr rfl⟩

end Lifetime

/-- The pieces that remove or destroy the channel of an attempt. -/
def ConnectorTask.touches : ConnectorTask → Bool
  | .stopInLoop | .handleWrite | .handleError | .resetChannel _ => true
  | .startInLoop | .connect | .restart | .connected | .newConnection | .closeUnwanted | .retry _ | .schedule _ => false

namespace Connector
variable {s t : Connector}

/-- No new piece that touches the channel, and the channel as it was. -/
structure Calm (s t : Connector) : Prop where
  todo : ∀ task ∈ t.todo, task.touches = true → task ∈ s.todo
  channel : ∀ ch, s.channel = some ch → t.channel = some ch

/-- The same with the channel perhaps removed. -/
structure Handles (s t : Connector) : Prop where
  todo : ∀ task ∈ t.todo, task.touches = true → task ∈ s.todo
  channel : ∀ ch, s.channel = some ch → ∃ ch', t.channel = some ch' ∧ ch'.fd = ch.fd

private theorem Calm.of_next (task : ConnectorTask) (ht : task.touches = false) (hc : t.channel = s.channel)
    (hd : t.todo = task :: s.todo) : s.Calm t := by
  refine ⟨?_,fun ch hch => hc.trans hch⟩
  rw [hd]
  intro other hm htouch
  rcases List.mem_cons.mp hm with rfl | hm
  · rw [ht] at htouch
    cases htouch
  · exact hm

private theorem Calm.of_todo (hc : t.channel = s.channel) (hd : t.todo = s.todo) : s.Calm t :=
  ⟨fun _ hm _ => hd ▸ hm,fun _ hch => hc.trans hch⟩

private theorem connectSocket_calm (s : Connector) (errno : ConnectErrno) :
    Meets s.Calm (fun _ => True) (s.connectSocket errno) := by
  have hconnecting (v : Connector) (hc : v.channel = s.channel) (hd : v.todo = s.todo) (k : Nat) :
      Meets s.Calm (fun _ => True) (v.connecting k) := by
    refine Meets.bind (meets_require fun _ => trivial) fun _ hnone => ?_
    refine ⟨fun task hm _ => hd ▸ hm,fun ch hch => ?_⟩
    rw [show s.channel = none from hc.symm.trans hnone] at hch
    cases hch
  cases errno with
  | success | EINPROGRESS | EINTR | EISCONN =>
    exact hconnecting { s with sockfd := s.created, created := s.created+1 } rfl rfl s.created
  | EAGAIN | EADDRINUSE | EADDRNOTAVAIL | ECONNREFUSED | ENETUNREACH => exact Calm.of_next (.retry s.created) rfl rfl rfl
  | EACCES | EPERM | EAFNOSUPPORT | EALREADY | EBADF | EFAULT | ENOTSOCK | other e => exact .of_todo rfl rfl

private theorem run_calm (s : Connector) (answer : SocketAnswer) {task : ConnectorTask} (ht : task.touches = false) :
    Meets s.Calm (fun _ => True) (s.run answer task) := by
  cases task with
  | stopInLoop | handleWrite | handleError | resetChannel => cases ht
  | startInLoop =>
    refine Meets.bind (meets_require fun _ => trivial) fun _ _ => ?_
    change s.Calm (if _ then _ else _)
    split
    · exact .of_next .connect rfl rfl rfl
    · exact .of_todo rfl rfl
  | connect => exact connectSocket_calm s answer.errno
  | restart => exact Calm.of_next .startInLoop rfl rfl rfl
  | connected =>
    change s.Calm (if _ then _ else _)
    split
    · exact .of_next .newConnection rfl rfl rfl
    · exact .of_next .closeUnwanted rfl rfl rfl
  | newConnection => exact Calm.of_todo rfl rfl
  | closeUnwanted => exact Calm.of_todo rfl rfl
  | retry k =>
    change s.Calm (if _ then _ else _)
    split
    · exact .of_next (.schedule k) rfl rfl rfl
    · exact .of_todo rfl rfl
  | schedule k => exact Calm.of_todo rfl rfl

private theorem removeAndResetChannel_handles (s : Connector) :
    Meets (fun t => t.todo = s.todo ∧ s.Handles t) (fun _ => True) s.removeAndResetChannel := by
  unfold removeAndResetChannel
  cases hc : s.channel with
  | none => trivial
  | some ch =>
    refine Meets.bind (meets_require fun _ => trivial) fun _ _ => ?_
    refine ⟨rfl,fun _ hm _ => hm,?_⟩
    rintro ch' hch'
    rw [hc] at hch'
    cases hch'
    exact ⟨_,rfl,rfl⟩

private theorem Handles.next (h : s.Handles t) {u : Connector} (task : ConnectorTask) (ht : task.touches = false)
    (hc : u.channel = t.channel) (hd : u.todo = task :: t.todo) : s.Handles u := by
  refine ⟨?_,by rw [hc]; exact h.channel⟩
  intro other hm htouch
  exact h.todo other ((Calm.of_next task ht hc hd).todo other hm htouch) htouch

private theorem handleError_handles (s : Connector) : Meets s.Handles (fun _ => True) s.handleError := by
  unfold handleError
  split
  · refine (removeAndResetChannel_handles s).bind fun t ht => ?_
    exact ht.2.next (.retry t.sockfd) rfl rfl rfl
  · exact ⟨fun _ hm _ => hm,fun ch hch => ⟨ch,hch,rfl⟩⟩

private theorem handleWrite_handles (s : Connector) (answer : SocketAnswer) :
    Meets s.Handles (fun _ => True) (s.handleWrite answer) := by
  unfold handleWrite
  split
  · refine (removeAndResetChannel_handles s).bind fun t ht => ?_
    split
    · exact ht.2.next (.retry t.sockfd) rfl rfl rfl
    · split
      · exact ht.2.next (.retry t.sockfd) rfl rfl rfl
      · exact ht.2.next .connected rfl rfl rfl
  · refine Meets.bind (meets_require fun _ => trivial) fun _ _ => ?_
    exact ⟨fun _ hm _ => hm,fun ch hch => ⟨ch,hch,rfl⟩⟩

private theorem step_calm {op : ConnectorOp} (hevent : ∀ revents, op ≠ .event revents) (hfunctor : op ≠ .functor)
    (htask : ∀ answer task todo, op = .resume answer → s.todo = task :: todo → task.touches = false) :
    Meets s.Calm (fun _ => True) (s.step op) := by
  cases op with
  | event revents => exact (hevent revents rfl).elim
  | functor => exact (hfunctor rfl).elim
  | startFlag | startQueue | stopFlag | stopQueue => exact Calm.of_todo rfl rfl
  | start | fire => exact Calm.of_next .startInLoop rfl rfl rfl
  | restart => exact Calm.of_next .restart rfl rfl rfl
  | resume answer =>
    rw [step]
    cases ht : s.todo with
    | nil => exact Calm.of_todo rfl rfl
    | cons task todo =>
      refine (run_calm { s with todo := todo } answer (htask answer task todo rfl ht)).mono ?_ fun _ => id
      rintro t ⟨htodo,hchannel⟩
      refine ⟨fun other hm htouch => ?_,hchannel⟩
      rw [ht]
      exact List.mem_cons_of_mem task (htodo other hm htouch)

private theorem step_handles {answer : SocketAnswer} {task : ConnectorTask} {todo : List ConnectorTask} (ht : s.todo = task :: todo)
    (htask : task = .handleWrite ∨ task = .handleError) : Meets s.Handles (fun _ => True) (s.step (.resume answer)) := by
  have hrun : Meets ({ s with todo := todo } : Connector).Handles (fun _ => True) ({ s with todo := todo }.run answer task) := by
    rcases htask with rfl | rfl
    · exact handleWrite_handles _ answer
    · exact handleError_handles _
  rw [step,ht]
  refine hrun.mono ?_ fun _ => id
  rintro t ⟨htodo,hchannel⟩
  refine ⟨fun other hm htouch => ?_,hchannel⟩
  rw [ht]
  exact List.mem_cons_of_mem task (htodo other hm htouch)

end Connector

/-- Not one of the faults that an early removal would cause. -/
def IterationFault.Elsewhere (e : IterationFault) : Prop := e ≠ .removeChannel ∧ e ≠ .destroyed ∧ e ≠ .dispatched

namespace ActiveLoop
variable {s t : ActiveLoop}

/-- What the connector is doing touches its channel only in a handler of that channel. -/
private def Handling (s : ActiveLoop) (j : Nat) (c : Connector) : Prop := ∀ task ∈ c.todo, task.touches = true →
  (task = .handleWrite ∨ task = .handleError) ∧ ∃ ch, c.channel = some ch ∧ s.current = some (.connector j ch.fd.toNat)

/-- During an iteration no connector touches a channel that is not being handled; the
connections of the list stay registered, and so does every channel that the loop has still to
come to. -/
structure Deferred (s : ActiveLoop) : Prop where
  steady : ∀ l ∈ s.connections, l.Steady
  sound : ∀ c ∈ s.connectors, c.Sound
  tasks : s.eventHandling = true → ∀ j c, s.connectors[j]? = some c → s.Handling j c
  live : s.eventHandling = true → ∀ i, .connection i ∈ s.activeChannels → s.Registered (.connection i)
  ahead : ∀ e ∈ s.rest, s.Registered e.1 ∧ s.current ≠ some e.1
  once : (s.rest.map Prod.fst).Nodup
  handling : s.rest ≠ [] → s.eventHandling = true

private theorem registered_congr (hf : t.freed = s.freed) (hl : t.connections = s.connections)
    (hc : t.connectors = s.connectors) (c : ChannelRef) : t.Registered c ↔ s.Registered c := by
  cases c <;> simp only [Registered,hf,hl,hc]

private theorem not_handling (h : s.Deferred) (he : s.eventHandling = false) : s.rest = [] := by
  by_contra hne
  rw [h.handling hne] at he
  cases he

private theorem Deferred.outside (hsteady : ∀ l ∈ t.connections, l.Steady) (hsound : ∀ c ∈ t.connectors, c.Sound)
    (he : t.eventHandling = false) (hr : t.rest = []) : t.Deferred := by
  refine ⟨hsteady,hsound,fun hh => ?_,fun hh => ?_,?_,by simp [hr],fun hne => (hne hr).elim⟩
  · rw [he] at hh
    cases hh
  · rw [he] at hh
    cases hh
  · rw [hr]
    exact nofun

/-- While the loop iterates, the step removes and destroys no channel but the current one. -/
def Keeps (s t : ActiveLoop) : Prop :=
  s.eventHandling = true → ∀ c, s.current ≠ some c → s.Registered c → t.Registered c

private theorem keeps_of_outside (he : s.eventHandling = false) : s.Keeps t := by
  intro hh
  rw [he] at hh
  cases hh

private theorem Deferred.within (h : s.Deferred) (hsteady : ∀ l ∈ t.connections, l.Steady) (hsound : ∀ c ∈ t.connectors, c.Sound)
    (htasks : s.eventHandling = true → ∀ j c, t.connectors[j]? = some c → s.Handling j c)
    (hlive : s.eventHandling = true → ∀ i, s.Registered (.connection i) → t.Registered (.connection i))
    (hkeep : s.Keeps t) (he : t.eventHandling = s.eventHandling)
    (ha : t.activeChannels = s.activeChannels) (hc : t.current = s.current) (hr : t.rest = s.rest) : t.Deferred := by
  refine ⟨hsteady,hsound,?_,?_,?_,by rw [hr]; exact h.once,by rw [hr,he]; exact h.handling⟩
  · unfold Handling
    rw [he,hc]
    exact htasks
  · rw [he,ha]
    exact fun hh i hi => hlive hh i (h.live hh i hi)
  · rw [hr,hc]
    intro e hm
    obtain ⟨hreg,hne⟩ := h.ahead e hm
    exact ⟨hkeep (h.handling (List.ne_nil_of_mem hm)) e.1 hne hreg,hne⟩

private theorem registered_setConnection {i : Nat} {l u : Lifetime} (hl : s.connections[i]? = some l)
    (hu : l.session.conn.channel.index ≠ kNew → u.session.conn.channel.index ≠ kNew) {c : ChannelRef} (h : s.Registered c) :
    (s.setConnection i u).Registered c := by
  cases c with
  | wakeup | timerfd | acceptor | connector => exact h
  | connection k =>
    obtain ⟨hf,v,hv,hindex⟩ := h
    have hv : s.connections[k]? = some v := hv
    refine ⟨hf,?_⟩
    by_cases hk : k = i
    · subst hk
      rw [hl] at hv
      cases hv
      have hlt := (List.getElem?_eq_some_iff.mp hl).1
      exact ⟨u,List.getElem?_set_self hlt,hu hindex⟩
    · exact ⟨v,(List.getElem?_set_ne (Ne.symm hk)).trans hv,hindex⟩

private theorem registered_setConnector {j : Nat} {u : Connector} {c : ChannelRef} (h : s.Registered c)
    (hj : j < s.connectors.length)
    (hu : ∀ k, c = .connector j k → ∃ ch ∈ u.channel, ch.fd.toNat = k ∧ ch.addedToLoop = true) :
    (s.setConnector j u).Registered c := by
  cases c with
  | wakeup | timerfd | acceptor | connection => exact h
  | connector k sockfd =>
    by_cases hk : k = j
    · subst hk
      exact ⟨u,List.getElem?_set_self hj,hu sockfd rfl⟩
    · obtain ⟨v,hv,hch⟩ := h
      exact ⟨v,(List.getElem?_set_ne (Ne.symm hk)).trans hv,hch⟩

private theorem registered_newConnection (l : Lifetime) {c : ChannelRef} (h : s.Registered c) :
    ({ s with connections := s.connections ++ [l] } : ActiveLoop).Registered c := by
  cases c with
  | wakeup | timerfd | acceptor | connector => exact h
  | connection i =>
    obtain ⟨hf,v,hv,hindex⟩ := h
    exact ⟨hf,v,(List.getElem?_append_left (List.getElem?_eq_some_iff.mp hv).1).trans hv,hindex⟩

private theorem registered_newConnector (v : Connector) {c : ChannelRef} (h : s.Registered c) :
    ({ s with connectors := s.connectors ++ [v] } : ActiveLoop).Registered c := by
  cases c with
  | wakeup | timerfd | acceptor | connection => exact h
  | connector j sockfd =>
    obtain ⟨u,hu,hch⟩ := h
    exact ⟨u,(List.getElem?_append_left (List.getElem?_eq_some_iff.mp hu).1).trans hu,hch⟩

private theorem Registered.channel {j k : Nat} {c : Connector} (h : s.Registered (.connector j k)) (hj : s.connectors[j]? = some c) :
    ∃ ch, c.channel = some ch ∧ ch.fd.toNat = k ∧ ch.addedToLoop = true := by
  obtain ⟨v,hv,hch⟩ := h
  have hv : s.connectors[j]? = some v := hv
  rw [hj] at hv
  cases hv
  exact hch

private theorem setConnection_steady (h : s.Deferred) {u : Lifetime} (hu : u.Steady) (i : Nat) :
    ∀ l ∈ (s.setConnection i u).connections, l.Steady := by
  intro l hl
  rcases List.mem_or_eq_of_mem_set hl with hl | rfl
  · exact h.steady l hl
  · exact hu

private theorem setConnector_sound (h : s.Deferred) {u : Connector} (hu : u.Sound) (j : Nat) :
    ∀ c ∈ (s.setConnector j u).connectors, c.Sound := by
  intro c hc
  rcases List.mem_or_eq_of_mem_set hc with hc | rfl
  · exact h.sound c hc
  · exact hu

private theorem setConnector_tasks (h : s.Deferred) (hh : s.eventHandling = true) {j : Nat} {u : Connector}
    (hj : j < s.connectors.length) (hu : s.Handling j u) :
    ∀ k c, (s.setConnector j u).connectors[k]? = some c → s.Handling k c := by
  intro k c hk
  by_cases hkj : k = j
  · subst hkj
    rw [setConnector,List.getElem?_set_self hj] at hk
    cases hk
    exact hu
  · exact h.tasks hh k c ((List.getElem?_set_ne (Ne.symm hkj)).symm.trans hk)

private theorem connection_deferred (h : s.Deferred) {i : Nat} {l : Lifetime} {a : LifeStep} (hl : s.connections[i]? = some l)
    (hallows : s.AllowsConnection a) (he : Lifetime.machine.Enabled l a) :
    Meets (fun t => t.Deferred ∧ s.Keeps t) IterationFault.Elsewhere (s.code (.connection i a)) := by
  have hfunctor (n : Int) (ha : a = .conn (.functor n)) : s.eventHandling = false := by
    rw [ha] at hallows
    exact hallows
  have hmay : l.removesChannel a = true → s.MayRemove (.connection i) := by
    intro hremoves hh
    cases a with
    | conn a =>
      cases a with
      | functor n =>
        rw [hfunctor n rfl] at hh
        cases hh
      | _ => cases hremoves
    | _ => cases hremoves
  have hsteady := h.steady l (List.mem_of_getElem? hl)
  rw [code,hl]
  refine Meets.bind (meets_require fun _ => by simp [IterationFault.Elsewhere]) fun _ _ => ?_
  rw [require_pos hmay,bind_ok]
  refine Meets.bind (Meets.mapError ((Lifetime.step_steady hsteady he).mono (fun _ => id) fun _ _ => ?_)) ?_
  · simp [IterationFault.Elsewhere]
  rintro u ⟨hu,hindex⟩
  have hall := setConnection_steady h hu i
  by_cases hh : s.eventHandling = true
  · have hkeep {c : ChannelRef} (hc : s.Registered c) : (s.setConnection i u).Registered c := by
      refine registered_setConnection hl (hindex fun n ha => ?_) hc
      rw [hfunctor n ha] at hh
      cases hh
    have hkeeps : s.Keeps (s.setConnection i u) := fun _ _ _ => hkeep
    exact ⟨h.within hall h.sound h.tasks (fun _ _ => hkeep) hkeeps rfl rfl rfl rfl,hkeeps⟩
  · have hh := Bool.not_eq_true _ ▸ hh
    exact ⟨.outside hall h.sound hh (not_handling (s := s) h hh),keeps_of_outside hh⟩

/-- The step of a connector while its loop iterates: no piece that touches a channel is new, and
the channel of a connector that is not being handled stays. -/
theorem connector_within (h : s.Deferred) (hh : s.eventHandling = true) {j : Nat} {c : Connector}
    {op : Connector.ConnectorOp} (hj : s.connectors[j]? = some c) (hallows : s.AllowsConnector op) :
    Meets (fun u => c.Handles u ∧ ((∀ ch, c.channel = some ch → s.current ≠ some (.connector j ch.fd.toNat)) → c.Calm u))
      (fun _ => True) (c.step op) := by
  have hevent (revents : Mask) : op ≠ .event revents := by
    rintro rfl
    exact hallows
  have hfunctor : op ≠ .functor := by
    rintro rfl
    rw [show s.eventHandling = false from hallows] at hh
    cases hh
  have hcalm (hc : Meets c.Calm (fun _ => True) (c.step op)) :
      Meets (fun u => c.Handles u ∧ ((∀ ch, c.channel = some ch → s.current ≠ some (.connector j ch.fd.toNat)) → c.Calm u))
        (fun _ => True) (c.step op) :=
    hc.mono (fun u hu => ⟨⟨hu.todo,fun ch hch => ⟨ch,hu.channel ch hch,rfl⟩⟩,fun _ => hu⟩) fun _ => id
  by_cases htouch : ∃ answer task todo, op = .resume answer ∧ c.todo = task :: todo ∧ task.touches = true
  · obtain ⟨answer,task,todo,rfl,ht,htouch⟩ := htouch
    obtain ⟨htask,ch,hch,hcurrent⟩ := h.tasks hh j c hj task (by rw [ht]; exact List.mem_cons_self) htouch
    exact (Connector.step_handles ht htask).mono (fun u hu => ⟨hu,fun hno => (hno ch hch hcurrent).elim⟩) fun _ => id
  · refine hcalm (Connector.step_calm hevent hfunctor fun answer task todo hop ht => ?_)
    exact Bool.eq_false_iff.mpr fun htrue => htouch ⟨answer,task,todo,hop,ht,htrue⟩

private theorem mayRemove_connector (h : s.Deferred) {j : Nat} {c : Connector} {op : Connector.ConnectorOp}
    (hj : s.connectors[j]? = some c) : ∀ k ∈ c.removesChannel op, s.MayRemove (.connector j k) := by
  intro k hk hh
  cases op with
  | resume answer =>
    change k ∈ (if _ then _ else _) at hk
    split at hk
    · next hcond =>
      have hhead := hcond.2
      cases ht : c.todo with
      | nil => rw [ht] at hhead; simp at hhead
      | cons task todo =>
        have htouch : task.touches = true := by
          rw [ht] at hhead
          simp only [List.head?_cons,List.mem_cons,Option.some.injEq,List.not_mem_nil,or_false] at hhead
          rcases hhead with rfl | rfl | rfl <;> rfl
        obtain ⟨-,ch,hch,hcurrent⟩ := h.tasks hh j c hj task (by rw [ht]; exact List.mem_cons_self) htouch
        rw [hch] at hk
        cases hk
        exact .inl hcurrent
    · cases hk
  | _ => cases hk

private theorem mayDestroy_connector (h : s.Deferred) {j : Nat} {c : Connector} {op : Connector.ConnectorOp}
    (hj : s.connectors[j]? = some c) : ∀ k ∈ c.destroysChannel op, s.MayRemove (.connector j k) := by
  intro k hk hh
  cases op with
  | resume answer =>
    rw [Connector.destroysChannel] at hk
    split at hk
    · next ht =>
      obtain ⟨htask,-⟩ := h.tasks hh j c hj _ (by rw [ht]; exact List.mem_cons_self) rfl
      simp at htask
    · cases hk
  | _ => cases hk

private theorem connector_deferred (h : s.Deferred) {j : Nat} {c : Connector} {op : Connector.ConnectorOp}
    (hj : s.connectors[j]? = some c) (hallows : s.AllowsConnector op) (he : c.Enabled op) :
    Meets (fun t => t.Deferred ∧ s.Keeps t) IterationFault.Elsewhere (s.code (.connector j op)) := by
  have hlt := (List.getElem?_eq_some_iff.mp hj).1
  rw [code,hj]
  dsimp only
  rw [require_pos (mayRemove_connector h hj),bind_ok,require_pos (mayDestroy_connector h hj),bind_ok]
  have hsound := Connector.step_sound c op (h.sound c (List.mem_of_getElem? hj)) he
  have hwithin (hh : s.eventHandling = true) := connector_within h hh hj hallows
  change Meets Connector.Sound _ (c.step op) at hsound
  cases hr : c.step op with
  | error e => simp [Except.mapError,IterationFault.Elsewhere]
  | ok u =>
    rw [hr] at hsound hwithin
    have hall := setConnector_sound h hsound j
    change (s.setConnector j u).Deferred ∧ s.Keeps (s.setConnector j u)
    by_cases hh : s.eventHandling = true
    · obtain ⟨⟨htodo,hfd⟩,hcalm⟩ := hwithin hh
      have hkeeps : s.Keeps (s.setConnector j u) := by
        intro _ ref hne hreg
        refine registered_setConnector hreg hlt fun k hek => ?_
        subst hek
        obtain ⟨ch,hch,hfdk,hadded⟩ := Registered.channel hreg hj
        -- the channel of the connector is not the one being handled
        have hidle : ∀ ch', c.channel = some ch' → s.current ≠ some (.connector j ch'.fd.toNat) := by
          intro ch' hch'
          rw [hch] at hch'
          cases hch'
          rw [hfdk]
          exact hne
        exact ⟨ch,(hcalm hidle).channel ch hch,hfdk,hadded⟩
      refine ⟨h.within h.steady hall (fun _ => setConnector_tasks h hh hlt ?_) (fun _ _ => id) hkeeps rfl rfl rfl rfl,hkeeps⟩
      intro task hm htouch
      obtain ⟨htask,ch,hch,hcurrent⟩ := h.tasks hh j c hj task (htodo task hm htouch) htouch
      obtain ⟨ch',hch',hfd'⟩ := hfd ch hch
      exact ⟨htask,ch',hch',by rw [hfd']; exact hcurrent⟩
    · have hh := Bool.not_eq_true _ ▸ hh
      exact ⟨.outside h.steady hall hh (not_handling (s := s) h hh),keeps_of_outside hh⟩

private theorem poll_deferred (h : s.Deferred) {events : List (ChannelRef × Mask)} (he : s.Enabled (.poll events)) :
    Meets (fun t => t.Deferred ∧ s.Keeps t) IterationFault.Elsewhere (s.code (.poll events)) := by
  obtain ⟨hout,⟨-,htodo,-⟩,-,hnodup,hreports⟩ := he
  refine ⟨⟨h.steady,h.sound,?_,?_,?_,hnodup,fun _ => rfl⟩,keeps_of_outside hout⟩
  · intro _ j c hj task hm
    rw [htodo c (List.mem_of_getElem? hj)] at hm
    cases hm
  · intro _ i hi
    obtain ⟨e,he,hei⟩ := List.mem_map.mp hi
    exact (registered_congr rfl rfl rfl _).mpr (hei ▸ (hreports e he).1)
  · intro e he
    exact ⟨(registered_congr rfl rfl rfl _).mpr (hreports e he).1,nofun⟩

private theorem event_deferred (revents : Mask) (h : s.Deferred) {j k : Nat} {c : Connector} (hj : s.connectors[j]? = some c)
    (hcurrent : s.current = some (.connector j k)) (hreg : s.Registered (.connector j k)) (ht : c.todo = []) :
    Meets (fun u => (s.setConnector j u).Deferred ∧ ∀ ref, s.Registered ref → (s.setConnector j u).Registered ref)
      (fun _ => True) (c.step (.event revents)) := by
  obtain ⟨ch,hch,hfd,hadded⟩ := Registered.channel hreg hj
  have hlt := (List.getElem?_eq_some_iff.mp hj).1
  have hsound := h.sound c (List.mem_of_getElem? hj)
  have hwatched : c.Watched := by rw [Connector.Watched,hch,Option.map_some,hadded]
  have hsteps := hsound.steps (show c.Enabled (.event revents) from ⟨ht,hwatched⟩)
  generalize c.step (.event revents) = r at hsteps
  cases hsteps with
  | startInLoop _ _ => trivial
  | connecting _ _ => trivial
  | ok t hm =>
    have hts := hm.sound hsound
    cases hm with
    | event ch' _ todo _ hc' _ htodo =>
      rw [hch] at hc'
      cases hc'
      have hkeep (ref : ChannelRef) (hreg : s.Registered ref) :
          (s.setConnector j { c with channel := some { ch with revents := revents }, todo := todo }).Registered ref := by
        refine registered_setConnector hreg hlt fun n hen => ?_
        subst hen
        obtain ⟨ch'',hch'',hfd'',-⟩ := Registered.channel hreg hj
        rw [hch] at hch''
        cases hch''
        exact ⟨_,rfl,hfd'',hadded⟩
      refine ⟨h.within h.steady (setConnector_sound h hts j) (fun hh => setConnector_tasks h hh hlt ?_) (fun _ _ => id)
        (fun _ ref _ => hkeep ref) rfl rfl rfl rfl,hkeep⟩
      intro task hm _
      refine ⟨?_,_,rfl,by rw [hcurrent,hfd]⟩
      rcases htodo with rfl | rfl | rfl | rfl
      · cases hm
      · exact .inr (List.mem_singleton.mp hm)
      · exact .inl (List.mem_singleton.mp hm)
      · simpa [or_comm] using hm

private theorem Deferred.advance (h : s.Deferred) {e : ChannelRef × Mask} {rest : List (ChannelRef × Mask)}
    (hr : s.rest = e :: rest) (htodo : ∀ c ∈ s.connectors, c.todo = []) :
    ({ s with current := some e.1, rest := rest } : ActiveLoop).Deferred := by
  have hh : s.eventHandling = true := h.handling (by rw [hr]; exact List.cons_ne_nil _ _)
  have honce := h.once
  rw [hr,List.map_cons,List.nodup_cons] at honce
  refine ⟨h.steady,h.sound,?_,?_,?_,honce.2,fun _ => hh⟩
  · intro _ j v hj task hm
    rw [htodo v (List.mem_of_getElem? hj)] at hm
    cases hm
  · exact fun _ i hi => (registered_congr rfl rfl rfl _).mpr (h.live hh i hi)
  · intro e' he
    refine ⟨(registered_congr rfl rfl rfl _).mpr (h.ahead e' (by rw [hr]; exact List.mem_cons_of_mem _ he)).1,?_⟩
    intro heq
    have heq : e.1 = e'.1 := Option.some.inj heq
    exact honce.1 (List.mem_map.mpr ⟨e',he,heq.symm⟩)

private theorem handleEvent_deferred (h : s.Deferred) {c : ChannelRef} {revents : Mask} {rest : List (ChannelRef × Mask)}
    (hr : s.rest = (c,revents) :: rest) (hfinished : s.Finished) :
    Meets (fun t => t.Deferred ∧ s.Keeps t) IterationFault.Elsewhere
      ({ s with current := some c, rest := rest }.handleEvent c revents) := by
  let s' : ActiveLoop := { s with current := some c, rest := rest }
  obtain ⟨-,htodo,-⟩ := hfinished
  have hreg : s.Registered c := (h.ahead (c,revents) (by rw [hr]; exact List.mem_cons_self)).1
  have hmoved : s'.Deferred := h.advance hr htodo
  have hsame (ref : ChannelRef) : s.Registered ref → s'.Registered ref := (registered_congr rfl rfl rfl ref).mpr
  have hreg' : s'.Registered c := hsame c hreg
  change Meets _ _ (s'.handleEvent c revents)
  unfold handleEvent
  rw [require_pos hreg',bind_ok]
  cases c with
  | wakeup | timerfd | acceptor => exact ⟨hmoved,fun _ ref _ => hsame ref⟩
  | connection i =>
    dsimp only
    split
    · exact ⟨hmoved,fun _ ref _ => hsame ref⟩
    · next l hl =>
      have hsteady := hmoved.steady l (List.mem_of_getElem? hl)
      have hkeep (ref : ChannelRef) (hr : s'.Registered ref) :
          (s'.setConnection i { l with session := l.session.event revents }).Registered ref :=
        registered_setConnection (u := { l with session := l.session.event revents }) hl id hr
      refine ⟨hmoved.within (setConnection_steady hmoved ?_ i) hmoved.sound hmoved.tasks (fun _ _ => hkeep _)
        (fun _ ref _ => hkeep ref) rfl rfl rfl rfl,fun _ ref _ hr => hkeep ref (hsame ref hr)⟩
      exact ⟨⟨hsteady.1.output,hsteady.1.wired,hsteady.1.writing,hsteady.1.pending,hsteady.1.calls⟩,hsteady.2⟩
  | connector j k =>
    dsimp only
    split
    · exact ⟨hmoved,fun _ ref _ => hsame ref⟩
    · next v hv =>
      have hevent := event_deferred revents hmoved hv rfl hreg' (htodo v (List.mem_of_getElem? hv))
      refine Meets.bind (Meets.mapError (hevent.mono (fun _ => id) fun _ _ => ?_)) ?_
      · simp [IterationFault.Elsewhere]
      · exact fun u hu => ⟨hu.1,fun _ ref _ hr => hu.2 ref (hsame ref hr)⟩

/-- The destructor of a connection whose channel the loop may come to fails its assertion. -/
theorem destroyConnection_deferred (h : s.Deferred) (i : Nat) :
    Meets (fun t => t.Deferred ∧ s.Keeps t) IterationFault.Elsewhere (s.destroyConnection i) := by
  unfold destroyConnection
  split
  · exact ⟨h,fun _ _ _ => id⟩
  · next l hl =>
    refine Meets.bind (meets_require fun _ => by simp [IterationFault.Elsewhere]) fun _ hremoved => ?_
    have hnot : ¬ s.Registered (.connection i) := by
      rintro ⟨-,v,hv,hindex⟩
      have hv : s.connections[i]? = some v := hv
      rw [hl] at hv
      cases hv
      rcases (h.steady l (List.mem_of_getElem? hl)).2 with hnew | hadded
      · exact hindex hnew
      · rw [hremoved.1] at hadded
        cases hadded
    have hmay : s.MayRemove (.connection i) := fun hh => .inr fun hm => hnot (h.live hh i hm)
    rw [require_pos hmay,bind_ok]
    have hkeep {c : ChannelRef} (hc : s.Registered c) : ({ s with freed := i :: s.freed } : ActiveLoop).Registered c := by
      cases c with
      | wakeup | timerfd | acceptor | connector => exact hc
      | connection k =>
        obtain ⟨hf,hlive⟩ := hc
        refine ⟨?_,hlive⟩
        rintro (hm | ⟨_,hm⟩)
        · exact hnot ⟨hf,hlive⟩
        · exact hf hm
    have hkeeps : s.Keeps { s with freed := i :: s.freed } := fun _ _ _ => hkeep
    exact ⟨h.within h.steady h.sound h.tasks (fun _ _ => hkeep) hkeeps rfl rfl rfl rfl,hkeeps⟩

private theorem step_deferred (s : ActiveLoop) (a : IterationStep) (h : s.Deferred) (he : machine.Enabled s a) :
    Meets (fun t => t.Deferred ∧ s.Keeps t) IterationFault.Elsewhere (machine.step s a) := by
  cases a with
  | poll events => exact poll_deferred h he
  | dispatch =>
    obtain ⟨-,hne,hfinished⟩ := he
    change Meets _ _ (s.code .dispatch)
    rw [code]
    cases hr : s.rest with
    | nil => exact (hne hr).elim
    | cons e rest => exact handleEvent_deferred h hr hfinished
  | endEvents => exact ⟨.outside h.steady h.sound rfl he.2.1,fun _ ref _ => (registered_congr rfl rfl rfl ref).mpr⟩
  | newConnection owner sockfd mark =>
    change Meets _ _ (s.code (.newConnection owner sockfd mark))
    rw [code,Lifetime.start_new]
    have hkeeps : s.Keeps { s with connections := s.connections ++ [.new owner s.loopThread sockfd mark] } :=
      fun _ _ _ => registered_newConnection _
    refine ⟨h.within ?_ h.sound h.tasks (fun _ _ => registered_newConnection _) hkeeps rfl rfl rfl rfl,hkeeps⟩
    intro l hm
    rcases List.mem_append.mp hm with hm | hm
    · exact h.steady l hm
    · rw [List.mem_singleton.mp hm]
      exact Lifetime.new_steady owner s.loopThread sockfd mark
  | newConnector =>
    have hkeeps : s.Keeps { s with connectors := s.connectors ++ [.new] } := fun _ _ _ => registered_newConnector _
    refine ⟨h.within h.steady ?_ ?_ (fun _ _ => registered_newConnector _) hkeeps rfl rfl rfl rfl,hkeeps⟩
    · intro c hm
      rcases List.mem_append.mp hm with hm | hm
      · exact h.sound c hm
      · rw [List.mem_singleton.mp hm]
        exact Connector.new_sound
    · intro hh j c hj task hm
      by_cases hlt : j < s.connectors.length
      · exact h.tasks hh j c ((List.getElem?_append_left hlt).symm.trans hj) task hm
      · -- the new connector has nothing to do yet
        have hnew := List.mem_of_getElem? ((List.getElem?_append_right (not_lt.mp hlt)).symm.trans hj)
        rw [List.mem_singleton.mp hnew] at hm
        cases hm
  | destroyConnection i => exact destroyConnection_deferred h i
  | connection i a =>
    obtain ⟨hallows,l,hl,he⟩ := he
    exact connection_deferred h hl hallows he
  | connector j op =>
    obtain ⟨hallows,c,hc,he⟩ := he
    exact connector_deferred h hc hallows he
  | timer a =>
    refine Meets.bind (Meets.mapError ((meets_true _).mono (fun _ => id) fun _ _ => ?_)) fun _ _ => ?_
    · simp [IterationFault.Elsewhere]
    · have hkeeps : s.Keeps { s with timerQueue := _ } := fun _ ref _ => (registered_congr rfl rfl rfl ref).mpr
      exact ⟨h.within h.steady h.sound h.tasks (fun _ _ => id) hkeeps rfl rfl rfl rfl,hkeeps⟩

/-- No run fails the assertion of `removeChannel`, destroys a channel that is in the list or
handles one that is not registered: what is ahead stays registered, and of the registered
channels a step removes at most the current one. -/
theorem active_channels_stay_registered (loopThread : Nat) (clock : Int) (ops : List IterationStep)
    (ha : machine.Admissible (new loopThread clock) ops) :
    (∀ e, machine.exec (new loopThread clock) ops = .error e → e.Elsewhere) ∧
    ∀ s, machine.exec (new loopThread clock) ops = .ok s → (∀ e ∈ s.rest, s.Registered e.1) ∧
      ∀ a, machine.Enabled s a → ∀ t, machine.step s a = .ok t → s.Keeps t := by
  have hnew : (new loopThread clock).Deferred :=
    .outside (fun _ hl => (List.not_mem_nil hl).elim) (fun _ hc => (List.not_mem_nil hc).elim) rfl rfl
  have hstep (s : ActiveLoop) (a : IterationStep) (h : s.Deferred) (he : machine.Enabled s a) :
      Meets Deferred IterationFault.Elsewhere (machine.step s a) := (step_deferred s a h he).mono (fun _ => And.left) fun _ => id
  have hrun := machine.exec_invariant hstep ops _ hnew ha
  refine ⟨fun e he => ?_,fun s hs => ?_⟩
  · rw [he] at hrun
    exact hrun
  · rw [hs] at hrun
    refine ⟨fun e hm => (hrun.ahead e hm).1,fun a he t ht => ?_⟩
    have hkeeps := step_deferred s a hrun he
    rw [ht] at hkeeps
    exact hkeeps.2

private def attempt (errno : ConnectErrno) : IterationStep := .connector 0 (.resume ⟨errno,0,false⟩)

/-- One poll reports a connected socket, a closed connection and the wakeup fd. The handler of the
first also stops the connector, the second loses its connection, and the functors do the rest. -/
private def connectedAndClosed : List IterationStep :=
  [.newConnector,.connector 0 .start,attempt .success,attempt .EINPROGRESS,.newConnection .client 9 64,
    .poll [(.connector 0 0,POLLOUT),(.connection 0,POLLIN),(.wakeup,POLLIN)],.dispatch,attempt .success,
    attempt .success,attempt .success,.connector 0 .stopFlag,.connector 0 .stopQueue,.dispatch,
    .connection 0 (.conn (.handler (.received []) 0)),.dispatch,.endEvents,.connector 0 .functor,attempt .success,
    .connection 0 .swap,.connection 0 (.conn (.functor 0)),.connection 0 .endBatch]

/-- A client connects, and its connection is closed by the peer. -/
theorem active_channels_stay_registered_connected : machine.Admissible (new 0 0) connectedAndClosed ∧
    ∃ s, machine.exec (new 0 0) connectedAndClosed = .ok s ∧ (∀ e ∈ s.rest, s.Registered e.1) ∧
      ∀ a, machine.Enabled s a → ∀ t, machine.step s a = .ok t → s.Keeps t := by
  have ha : machine.Admissible (new 0 0) connectedAndClosed := by decide +kernel
  obtain ⟨s,hs,-⟩ := Meets.ok_of_no_error (P := fun _ : ActiveLoop => True) (Q := fun _ => False)
    (x := machine.exec (new 0 0) connectedAndClosed) (by decide +kernel) fun _ => id
  exact ⟨ha,s,hs,(active_channels_stay_registered 0 0 connectedAndClosed ha).2 s hs⟩

end ActiveLoop
end LearningMuduo.Tcp
