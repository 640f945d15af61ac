import LearningMuduo.Tcp.Acceptor

/-! The descriptors of an acceptor: it closes no other, and the one it keeps in reserve lets it
take every client even when there is none left for it. -/
namespace LearningMuduo.Tcp.Acceptor
open Library
variable {s : Acceptor} {op : AcceptorOp} {own reserve : Option Nat} {fd : Nat}

/-- The acceptor has these descriptors in the table and no others. -/
structure Owns (table : Slots Holder) (own reserve : Option Nat) : Prop where
  holds : ∀ k, table.holder k = some .acceptor ↔ own = some k ∨ reserve = some k
  distinct : ∀ k, own = some k → reserve ≠ some k

variable {table : Slots Holder}

private theorem Owns.other (h : Owns table own reserve) (hlt : fd < table.length) (hfd : table.holder fd ≠ some .acceptor)
    {w : Option Holder} (hw : w ≠ some .acceptor) : Owns (table.set fd w) own reserve := by
  refine ⟨fun k => ?_,h.distinct⟩
  rw [Slots.holder_set hlt]
  split
  · next heq =>
    rw [← h.holds k,heq]
    exact ⟨fun hk => (hw hk).elim,fun hk => (hfd hk).elim⟩
  · exact h.holds k

private theorem not_held (hfree : table.lowest = some fd) :
    fd < table.length ∧ table.holder fd ≠ some .acceptor := by
  obtain ⟨hlt,hnone⟩ := Slots.lowest_spec hfree
  refine ⟨hlt,?_⟩
  rw [hnone]
  exact nofun

private theorem Owns.open_idle (h : Owns table own none) (hfree : table.lowest = some fd) :
    Owns (table.set fd (some .acceptor)) own (some fd) := by
  obtain ⟨hlt,hfd⟩ := not_held hfree
  refine ⟨fun k => ?_,fun k hk hsame => ?_⟩
  · rw [Slots.holder_set hlt]
    split
    · next heq => exact ⟨fun _ => .inr (congrArg some heq.symm),fun _ => rfl⟩
    · next hne =>
      rw [h.holds k]
      refine or_congr_right ⟨nofun,fun heq => (hne (Option.some.inj heq).symm).elim⟩
  · exact hfd ((h.holds fd).mpr (.inl (hk.trans hsame.symm)))

private theorem Owns.close_idle (h : Owns table own (some fd)) : Owns (table.set fd none) own none := by
  have hlt := Slots.lt_of_holder ((h.holds fd).mpr (.inr rfl))
  refine ⟨fun k => ?_,fun _ _ => nofun⟩
  rw [Slots.holder_set hlt]
  split
  · next heq =>
    refine ⟨nofun,fun hk => ?_⟩
    rcases hk with hk | hk
    · exact (h.distinct k hk (congrArg some heq.symm)).elim
    · cases hk
  · next hne =>
    rw [h.holds k]
    exact or_congr_right ⟨fun heq => (hne (Option.some.inj heq).symm).elim,nofun⟩

private theorem Owns.swap (h : Owns table own reserve) : Owns table reserve own :=
  ⟨fun k => (h.holds k).trans or_comm,fun k hk hsame => h.distinct k hsame hk⟩

/-- The listening socket, until the destructor has closed it. -/
def socket (s : Acceptor) : Option Nat := if s.alive then some s.acceptSocket else none

/-- The descriptor in reserve. After a `close`, `idleFd_` is only a number. -/
def idle (s : Acceptor) : Option Nat :=
  match s.todo with
  | .accept :: _ | .openIdle :: _ => none
  | _ => s.idleFd

/-- The calls that come after this one. -/
def after : IdleCall → List IdleCall
  | .closeIdle => [.accept,.closeAccepted,.openIdle]
  | .accept => [.closeAccepted,.openIdle]
  | .closeAccepted => [.openIdle]
  | .openIdle => []

structure Accounts (s : Acceptor) : Prop where
  owns : Owns s.table s.socket s.idle
  staged : ∀ call todo, s.todo = call :: todo → todo = after call ∧ s.alive = true
  clients : s.arrived = s.fates.map Prod.fst ++ s.backlog

/-- What `::accept` can do. -/
inductive Accepts (s : Acceptor) : Except AcceptErrno (Nat × Nat) × Acceptor → Prop where
  | full (hfull : s.table.lowest = none) : Accepts s (.error .EMFILE,s)
  | refused (errno : AcceptErrno) (hne : errno ≠ .EMFILE) : Accepts s (.error errno,s)
  | aborted (client : Nat) (rest : List Nat) (hb : s.backlog = client :: rest) :
      Accepts s (.error .ECONNABORTED,{ s with backlog := rest, fates := s.fates ++ [(client,.aborted)] })
  | ok (fd client : Nat) (rest : List Nat) (hfree : s.table.lowest = some fd) (hb : s.backlog = client :: rest) :
      Accepts s (.ok (fd,client),{ s with backlog := rest, table := s.table.set fd (some .acceptor) })

/-- `accept` takes the first client or none. -/
theorem accepts (s : Acceptor) {refusal : Option AcceptErrno} (h : refusal ≠ some .EMFILE) : Accepts s (s.accept refusal) := by
  unfold accept
  split
  · next hfull => exact .full hfull
  · next fd hfree =>
    split
    · next client rest hb => exact .aborted client rest hb
    · next errno _ => exact .refused errno fun heq => h (congrArg some heq)
    · exact .refused .EAGAIN nofun
    · next client rest hb => exact .ok fd client rest hfree hb

private theorem close_own (h : s.table.holder fd = some .acceptor) :
    s.close (some fd) = .ok { s with table := s.table.set fd none } := by
  change (require (s.table.holder fd = some .acceptor) (AcceptorFault.closesForeign fd) >>= fun _ => _) = _
  rw [require_pos h]
  rfl

/-- What ends the process: `listen` has failed, or `accept` in a way that is not expected. -/
def Fatal (e : AcceptorFault) : Prop :=
  e = .listenOrDie ∨ ∃ errno : AcceptErrno, e = .fatal errno ∧ ¬ errno.Expected

variable {answer : IdleAnswer}

private theorem served (h : s.Accounts) {client : Nat} {rest : List Nat} (hb : s.backlog = client :: rest) (fate : Fate) :
    s.arrived = (s.fates ++ [(client,fate)]).map Prod.fst ++ rest := by
  rw [h.clients,hb,List.map_append,List.append_assoc]
  rfl

private theorem handleRead_accounts (h : s.Accounts) (ht : s.todo = []) (halive : s.alive = true)
    {refusal : Option AcceptErrno} (hr : refusal ≠ some .EMFILE) : Meets Accounts Fatal (s.handleRead refusal) := by
  have haccepts := accepts s hr
  unfold handleRead
  generalize s.accept refusal = r at haccepts
  have howns := h.owns
  rw [idle,ht] at howns
  cases haccepts with
  | full hfull =>
    refine ⟨howns,?_,h.clients⟩
    rintro call todo ⟨⟩
    exact ⟨rfl,halive⟩
  | refused errno hne =>
    by_cases he : errno.Expected
    · dsimp only
      rw [require_pos he,bind_ok,if_neg hne]
      exact h
    · dsimp only
      rw [require_neg he,bind_error]
      exact .inr ⟨errno,rfl,he⟩
  | aborted client rest hb =>
    exact ⟨h.owns,h.staged,served h hb .aborted⟩
  | ok fd client rest hfree hb =>
    obtain ⟨hlt,hfd⟩ := not_held hfree
    dsimp only
    split
    · refine ⟨?_,h.staged,served h hb _⟩
      dsimp only
      rw [List.set_set]
      exact h.owns.other hlt hfd nofun
    · rw [close_own (by rw [Slots.holder_set hlt,if_pos rfl]),bind_ok]
      refine ⟨?_,h.staged,served h hb _⟩
      dsimp only
      rw [List.set_set]
      exact h.owns.other hlt hfd nofun

private theorem close_accounts {u : Acceptor} (howns : Owns u.table u.socket u.idleFd)
    (hstaged : ∀ call todo, u.todo = call :: todo → todo = after call ∧ u.alive = true)
    (hclients : u.arrived = u.fates.map Prod.fst ++ u.backlog) (hidle : u.idle = none) :
    Meets Accounts Fatal (u.close u.idleFd) := by
  cases hfd : u.idleFd with
  | none =>
    rw [hfd,← hidle] at howns
    exact ⟨howns,hstaged,hclients⟩
  | some fd =>
    rw [hfd] at howns
    rw [close_own ((howns.holds fd).mpr (.inr rfl))]
    have hclosed := howns.close_idle
    rw [← hidle] at hclosed
    exact ⟨hclosed,hstaged,hclients⟩

private theorem staged_after (halive : s.alive = true) (call : IdleCall) (next : IdleCall) (todo : List IdleCall)
    (h : after call = next :: todo) : todo = after next ∧ s.alive = true := by
  refine ⟨?_,halive⟩
  cases call with
  | closeIdle | accept | closeAccepted =>
    cases h
    rfl
  | openIdle => cases h

private theorem openIdle_spec (h : Owns s.table s.socket none) (fails : Bool) :
    ∃ table reserve, s.openIdle fails = { s with idleFd := reserve, table := table } ∧ Owns table s.socket reserve ∧
      (fails = false → s.table.lowest ≠ none → reserve ≠ none) := by
  unfold openIdle
  split
  · next hfull => exact ⟨s.table,none,rfl,h,fun _ hfree => (hfree hfull).elim⟩
  · next fd hfree =>
    cases fails with
    | true => exact ⟨s.table,none,rfl,h,nofun⟩
    | false => exact ⟨_,some fd,rfl,h.open_idle hfree,fun _ _ => nofun⟩

private theorem resume_accounts (h : s.Accounts) {call : IdleCall} {todo : List IdleCall} (ht : s.todo = call :: todo)
    (hr : answer.refusal ≠ some .EMFILE) : Meets Accounts Fatal ({ s with todo := todo }.run answer call) := by
  obtain ⟨rfl,halive⟩ := h.staged call todo ht
  have howns := h.owns
  rw [idle,ht] at howns
  have hstaged := staged_after halive call
  cases call with
  | closeIdle => exact close_accounts (u := { s with todo := after .closeIdle }) howns hstaged h.clients rfl
  | accept =>
    have haccepts := accepts { s with todo := after .accept } hr
    unfold run
    dsimp only
    generalize accept { s with todo := after .accept } answer.refusal = r at haccepts
    cases haccepts with
    | full hfull => exact ⟨howns,hstaged,h.clients⟩
    | refused errno hne => exact ⟨howns,hstaged,h.clients⟩
    | aborted client rest hb => exact ⟨howns,hstaged,served h hb _⟩
    | ok fd client rest hfree hb => exact ⟨howns.open_idle hfree,hstaged,served h hb _⟩
  | closeAccepted => exact close_accounts (u := { s with todo := after .closeAccepted }) howns hstaged h.clients rfl
  | openIdle =>
    obtain ⟨table,reserve,hopen,howns',-⟩ := openIdle_spec (s := { s with todo := after .openIdle }) howns answer.fails
    change Meets _ _ (pure (openIdle { s with todo := after .openIdle } answer.fails))
    rw [hopen]
    exact ⟨howns',hstaged,h.clients⟩

private theorem destroy_accounts (h : s.Accounts) (ht : s.todo = []) (halive : s.alive = true) :
    Meets Accounts Fatal s.destroy := by
  have howns := h.owns
  rw [socket,if_pos halive] at howns
  unfold destroy
  rw [close_own ((howns.holds _).mpr (.inl rfl)),bind_ok]
  refine ⟨?_,?_,h.clients⟩
  · exact howns.swap.close_idle.swap
  · intro call todo htodo
    rw [ht] at htodo
    cases htodo

/-- Anyone else may take a free descriptor. -/
theorem Accounts.takenByOther (h : s.Accounts) (hfree : s.table.lowest = some fd) {w : Holder} (hw : w ≠ .acceptor) :
    Accounts { s with table := s.table.set fd (some w) } := by
  obtain ⟨hlt,hfd⟩ := not_held hfree
  exact ⟨h.owns.other hlt hfd fun heq => hw (Option.some.inj heq),h.staged,h.clients⟩

/-- Every step keeps the accounts, or ends the process by a fatal error. -/
theorem step_accounts (s : Acceptor) (op : AcceptorOp) (h : s.Accounts) (he : s.Enabled op) :
    Meets Accounts Fatal (s.step op) := by
  cases op with
  | setNewConnectionCallback => exact ⟨h.owns,h.staged,h.clients⟩
  | listen fails =>
    cases fails with
    | false => exact ⟨h.owns,h.staged,h.clients⟩
    | true => exact .inl rfl
  | handleRead refusal => exact handleRead_accounts h he.2.1 he.1 he.2.2.2
  | resume answer =>
    obtain ⟨hne,hr⟩ := he
    obtain ⟨call,todo,ht⟩ := List.exists_cons_of_ne_nil hne
    rw [step_resume ht]
    exact resume_accounts h ht hr
  | destroy => exact destroy_accounts h he.2 he.1
  | arrive client =>
    refine ⟨h.owns,h.staged,?_⟩
    change s.arrived ++ [client] = _ ++ (s.backlog ++ [client])
    rw [h.clients,List.append_assoc]
  | otherOpen =>
    obtain ⟨fd,hfree⟩ := Option.ne_none_iff_exists'.mp he
    rw [step_otherOpen hfree]
    exact h.takenByOther hfree nofun
  | otherClose fd =>
    have hfd : s.table.holder fd = some .other := he
    refine ⟨h.owns.other (Slots.lt_of_holder hfd) ?_ nofun,h.staged,h.clients⟩
    rw [hfd]
    exact nofun

variable {start : Acceptor}

/-- The descriptors of the process before the acceptor are those of others. -/
theorem new_accounts (hothers : some Holder.acceptor ∉ table) {fails : Bool}
    (hnew : new table fails = .ok start) : start.Accounts ∧ start.todo = [] := by
  unfold new at hnew
  split at hnew
  · cases hnew
  · next fd hfree =>
    have hnone : Owns table none none :=
      ⟨fun k => ⟨fun hk => (hothers (Slots.mem_of_holder hk)).elim,fun hk => hk.elim nofun nofun⟩,fun _ _ => nofun⟩
    have hsocket : Owns (table.set fd (some .acceptor)) (some fd) none := (hnone.open_idle hfree).swap
    obtain ⟨table',reserve,hopen,howns,-⟩ := openIdle_spec (s :=
      { acceptSocket := fd
        listenning := false
        newConnectionCallback := false
        idleFd := none
        todo := []
        table := table.set fd (some .acceptor)
        alive := true
        backlog := []
        arrived := []
        fates := [] }) hsocket fails
    dsimp only at hnew
    rw [hopen] at hnew
    cases hnew
    exact ⟨⟨howns,nofun,rfl⟩,rfl⟩

/-- A process with room for three descriptors more. -/
private def roomForThree : Slots Holder := [some .other,none,none,none]

private def reserved : Acceptor where
  acceptSocket := 1
  listenning := false
  newConnectionCallback := false
  idleFd := some 2
  todo := []
  table := [some .other,some .acceptor,some .acceptor,none]
  alive := true
  backlog := []
  arrived := []
  fates := []

/-- Two clients and one descriptor; another thread takes the one in reserve when it is closed. -/
private def raceForReserve : List AcceptorOp :=
  [.setNewConnectionCallback,.listen false,.arrive 7,.arrive 8,.handleRead none,.handleRead none,.resume ⟨none,false⟩,.otherOpen,
    .resume ⟨none,false⟩,.resume ⟨none,false⟩,.resume ⟨none,false⟩,.otherClose 3,.handleRead (some .EINTR),.handleRead none,
    .destroy]

/-- No other thread takes a descriptor while `handleRead` frees one, and /dev/null can be opened. -/
def Undisturbed (s : Acceptor) : AcceptorOp → Prop
  | .otherOpen => s.todo = []
  | .resume answer => answer.fails = false
  | _ => True

instance (s : Acceptor) : (op : AcceptorOp) → Decidable (s.Undisturbed op)
  | .otherOpen | .resume _ => inferInstanceAs (Decidable (_ = _))
  | .setNewConnectionCallback | .listen _ | .handleRead _ | .destroy | .arrive _ | .otherClose _ => isTrue trivial

/-- There is a descriptor for the next call. -/
def Ready (s : Acceptor) : Prop :=
  match s.todo with
  | [] | .closeIdle :: _ => s.idleFd ≠ none
  | .closeAccepted :: _ => s.idleFd ≠ none ∨ s.table.lowest ≠ none
  | .accept :: _ | .openIdle :: _ => s.table.lowest ≠ none

private theorem ready_of_reserve (ht : s.todo = []) (hidle : s.idleFd ≠ none) : s.Ready := by
  rw [Ready,ht]
  exact hidle

private theorem handleRead_ready (hidle : s.idleFd ≠ none) (ht : s.todo = []) {refusal : Option AcceptErrno}
    (hr : refusal ≠ some .EMFILE) : Meets Ready (fun _ => True) (s.handleRead refusal) := by
  have haccepts := accepts s hr
  unfold handleRead
  generalize s.accept refusal = r at haccepts
  cases haccepts with
  | full hfull => exact hidle
  | refused errno hne =>
    by_cases he : errno.Expected
    · dsimp only
      rw [require_pos he,bind_ok,if_neg hne]
      exact ready_of_reserve ht hidle
    · dsimp only
      rw [require_neg he]
      trivial
  | aborted client rest hb => exact ready_of_reserve ht hidle
  | ok fd client rest hfree hb =>
    dsimp only
    split
    · change Ready _
      exact ready_of_reserve ht hidle
    · rw [close_own (by rw [Slots.holder_set (not_held hfree).1,if_pos rfl]),bind_ok]
      change Ready _
      exact ready_of_reserve ht hidle

/-- To close the descriptor in reserve makes one free. -/
theorem close_frees {u : Acceptor} (howns : Owns u.table u.socket u.idleFd)
    (h : u.idleFd ≠ none ∨ u.table.lowest ≠ none) : Meets (fun t => t.todo = u.todo ∧ t.table.lowest ≠ none) (fun _ => True)
      (u.close u.idleFd) := by
  cases hfd : u.idleFd with
  | none => exact ⟨rfl,h.resolve_left fun hne => hne hfd⟩
  | some fd =>
    rw [hfd] at howns
    have hheld := (howns.holds fd).mpr (.inr rfl)
    rw [close_own hheld]
    exact ⟨rfl,Slots.lowest_set_none hheld⟩

private theorem ready_of_free {call : IdleCall} {todo : List IdleCall} (ht : s.todo = call :: todo)
    (hcall : call = .accept ∨ call = .openIdle) (hfree : s.table.lowest ≠ none) : s.Ready := by
  rw [Ready,ht]
  rcases hcall with rfl | rfl
  · exact hfree
  · exact hfree

private theorem resume_ready (h : s.Accounts) (hready : s.Ready) {call : IdleCall} {todo : List IdleCall}
    (ht : s.todo = call :: todo) (hr : answer.refusal ≠ some .EMFILE) (hfails : answer.fails = false) :
    Meets Ready (fun _ => True) ({ s with todo := todo }.run answer call) := by
  obtain ⟨rfl,-⟩ := h.staged call todo ht
  have howns := h.owns
  rw [idle,ht] at howns
  rw [Ready,ht] at hready
  cases call with
  | closeIdle =>
    refine (close_frees (u := { s with todo := after .closeIdle }) howns (.inl hready)).mono ?_ fun _ => id
    exact fun t ht => ready_of_free ht.1 (.inl rfl) ht.2
  | accept =>
    have haccepts := accepts { s with todo := after .accept } hr
    unfold run
    dsimp only
    generalize accept { s with todo := after .accept } answer.refusal = r at haccepts
    cases haccepts with
    | full hfull => exact (hready hfull).elim
    | refused errno hne => exact .inr hready
    | aborted client rest hb => exact .inr hready
    | ok fd client rest hfree hb => exact .inl nofun
  | closeAccepted =>
    refine (close_frees (u := { s with todo := after .closeAccepted }) howns hready).mono ?_ fun _ => id
    exact fun t ht => ready_of_free ht.1 (.inr rfl) ht.2
  | openIdle =>
    obtain ⟨table,reserve,hopen,-,hreserve⟩ := openIdle_spec (s := { s with todo := after .openIdle }) howns answer.fails
    change Meets _ _ (pure (openIdle { s with todo := after .openIdle } answer.fails))
    rw [hopen]
    exact hreserve hfails hready

private theorem step_ready (h : s.Accounts) (hready : s.Ready) (he : s.Enabled op) (hu : s.Undisturbed op) :
    Meets Ready (fun _ => True) (s.step op) := by
  have hrest (ht : s.todo = []) : s.idleFd ≠ none := by
    rw [Ready,ht] at hready
    exact hready
  cases op with
  | setNewConnectionCallback => exact hready
  | listen fails =>
    cases fails with
    | false => exact hready
    | true => trivial
  | handleRead refusal => exact handleRead_ready (hrest he.2.1) he.2.1 he.2.2.2
  | resume answer =>
    obtain ⟨hne,hr⟩ := he
    obtain ⟨call,todo,ht⟩ := List.exists_cons_of_ne_nil hne
    rw [step_resume ht]
    exact resume_ready h hready ht hr hu
  | destroy =>
    have hheld : s.table.holder s.acceptSocket = some .acceptor := by
      refine (h.owns.holds _).mpr (.inl ?_)
      rw [socket,if_pos he.1]
    change Meets _ _ (s.close (some s.acceptSocket) >>= fun s => pure { s with alive := false })
    rw [close_own hheld,bind_ok]
    change Ready _
    exact ready_of_reserve he.2 (hrest he.2)
  | arrive client => exact hready
  | otherOpen =>
    have ht : s.todo = [] := hu
    obtain ⟨fd,hfree⟩ := Option.ne_none_iff_exists'.mp he
    rw [step_otherOpen hfree]
    exact ready_of_reserve (s := { s with table := s.table.set fd (some .other) }) ht (hrest ht)
  | otherClose fd =>
    have hfree := Slots.lowest_set_none (show s.table.holder fd = some .other from he)
    change Ready _
    unfold Ready at hready ⊢
    dsimp only
    split at hready
    · exact hready
    · exact hready
    · exact hready.imp id fun _ => hfree
    · exact hfree
    · exact hfree

/-- One call of `handleRead` that the kernel does not refuse, with what comes after EMFILE. -/
def serve (s : Acceptor) : List AcceptorOp :=
  .handleRead none :: if s.table.lowest = none then List.replicate 4 (.resume ⟨none,false⟩) else []

/-- A client gets the lowest descriptor if there is a callback to take it; its connection is closed if there is no callback or
no descriptor. -/
def outcome (s : Acceptor) : Fate :=
  match s.newConnectionCallback,s.table.lowest with
  | true,some fd => .connected fd
  | _,_ => .closed

/-- The acceptor has taken the first client. -/
structure Taken (s : Acceptor) (client : Nat) (rest : List Nat) (t : Acceptor) : Prop where
  todo : t.todo = []
  backlog : t.backlog = rest
  fates : t.fates = s.fates ++ [(client,s.outcome)]

private theorem accept_of_free {client : Nat} {rest : List Nat} (hfree : s.table.lowest = some fd)
    (hb : s.backlog = client :: rest) :
    s.accept none = (.ok (fd,client),{ s with backlog := rest, table := s.table.set fd (some .acceptor) }) := by
  unfold accept
  rw [hfree,hb]

private theorem run_cons {t u : Acceptor} {ops : List AcceptorOp} (he : s.Enabled op) (hu : s.Undisturbed op)
    (hs : s.step op = .ok t) (h : (machine.guard Undisturbed).Admissible t ops ∧ machine.exec t ops = .ok u) :
    (machine.guard Undisturbed).Admissible s (op :: ops) ∧ machine.exec s (op :: ops) = .ok u := by
  have hstep : machine.step s op = .ok t := hs
  have hstep' : (machine.guard Undisturbed).step s op = .ok t := hs
  refine ⟨⟨⟨he,hu⟩,?_⟩,?_⟩
  · rw [hstep']
    exact h.1
  · rw [Machine.exec,hstep,bind_ok]
    exact h.2

private def granted : AcceptorOp := .resume ⟨none,false⟩

private theorem granted_cons {t u : Acceptor} {ops : List AcceptorOp} {call : IdleCall} {todo : List IdleCall}
    (ht : s.todo = call :: todo) (hs : { s with todo := todo }.run ⟨none,false⟩ call = .ok t)
    (h : (machine.guard Undisturbed).Admissible t ops ∧ machine.exec t ops = .ok u) :
    (machine.guard Undisturbed).Admissible s (granted :: ops) ∧ machine.exec s (granted :: ops) = .ok u := by
  refine run_cons ⟨?_,nofun⟩ rfl ?_ h
  · rw [ht]
    exact List.cons_ne_nil call todo
  · exact (step_resume ht).trans hs

/-- With a full table the client is taken with the descriptor in reserve, which is opened again. -/
theorem serve_full (h : s.Accounts) (hready : s.Ready) (ht : s.todo = []) (he : s.Enabled (.handleRead none))
    {client : Nat} {rest : List Nat} (hb : s.backlog = client :: rest) (hfull : s.table.lowest = none) :
    ∃ t, ((machine.guard Undisturbed).Admissible s s.serve ∧ machine.exec s s.serve = .ok t) ∧ s.Taken client rest t := by
  rw [Ready,ht] at hready
  obtain ⟨k,hk⟩ := Option.ne_none_iff_exists'.mp hready
  have howns := h.owns
  rw [idle,ht,hk] at howns
  have hheld := (howns.holds k).mpr (.inr rfl)
  obtain ⟨fd,hfree⟩ := Option.ne_none_iff_exists'.mp (Slots.lowest_set_none hheld)
  have htaken : Slots.holder ((s.table.set k none).set fd (some .acceptor)) fd = some .acceptor := by
    rw [Slots.holder_set (Slots.lowest_spec hfree).1,if_pos rfl]
  let afterRead : Acceptor := { s with todo := [.closeIdle,.accept,.closeAccepted,.openIdle] }
  let afterClose : Acceptor := { s with todo := after .closeIdle, table := s.table.set k none }
  let afterAccept : Acceptor := { s with
    todo := after .accept
    table := (s.table.set k none).set fd (some .acceptor)
    backlog := rest
    fates := s.fates ++ [(client,.closed)]
    idleFd := some fd }
  let afterRefusal : Acceptor := { afterAccept with
    todo := after .closeAccepted
    table := ((s.table.set k none).set fd (some .acceptor)).set fd none }
  have hread : s.step (.handleRead none) = .ok afterRead := by
    change s.handleRead none = _
    unfold handleRead accept
    rw [hfull]
    rfl
  have hclose : { afterRead with todo := after .closeIdle }.run ⟨none,false⟩ .closeIdle = .ok afterClose :=
    (congrArg (close { s with todo := after .closeIdle }) hk).trans (close_own (s := { s with todo := after .closeIdle }) hheld)
  have haccept : { afterClose with todo := after .accept }.run ⟨none,false⟩ .accept = .ok afterAccept := by
    unfold run
    dsimp only
    rw [accept_of_free (s := { afterClose with todo := after .accept }) hfree hb]
    rfl
  have hrefuse : { afterAccept with todo := after .closeAccepted }.run ⟨none,false⟩ .closeAccepted = .ok afterRefusal :=
    close_own (s := { afterAccept with todo := after .closeAccepted }) htaken
  have hserve : s.serve = .handleRead none :: [granted,granted,granted,granted] := by
    rw [serve,if_pos hfull]
    rfl
  rw [hserve]
  refine ⟨{ afterRefusal with todo := [] }.openIdle false,run_cons he trivial hread (granted_cons rfl hclose
    (granted_cons rfl haccept (granted_cons rfl hrefuse (granted_cons rfl rfl ⟨trivial,rfl⟩)))),?_⟩
  have hout : s.outcome = .closed := by
    unfold outcome
    rw [hfull]
    split
    · next heq => cases heq
    · rfl
  obtain ⟨table,reserve,hopen⟩ : ∃ table reserve, { afterRefusal with todo := [] }.openIdle false =
      { afterRefusal with todo := [], idleFd := reserve, table := table } := by
    unfold openIdle
    split
    · exact ⟨_,_,rfl⟩
    · exact ⟨_,_,rfl⟩
  rw [hopen]
  refine ⟨rfl,rfl,?_⟩
  rw [hout]

/-- With a free descriptor one call is enough. -/
theorem serve_free (ht : s.todo = []) (he : s.Enabled (.handleRead none)) {client : Nat} {rest : List Nat}
    (hb : s.backlog = client :: rest) (hfree : s.table.lowest = some fd) :
    ∃ t, ((machine.guard Undisturbed).Admissible s s.serve ∧ machine.exec s s.serve = .ok t) ∧ s.Taken client rest t := by
  have hserve : s.serve = [.handleRead none] := by
    rw [serve,if_neg (by rw [hfree]; exact nofun)]
  have hread : s.step (.handleRead none) = s.handleRead none := rfl
  have hheld : Slots.holder (s.table.set fd (some .acceptor)) fd = some .acceptor := by
    rw [Slots.holder_set (Slots.lowest_spec hfree).1,if_pos rfl]
  unfold handleRead at hread
  rw [accept_of_free hfree hb] at hread
  dsimp only at hread
  rw [hserve]
  cases hcallback : s.newConnectionCallback with
  | true =>
    rw [hcallback,if_pos rfl] at hread
    refine ⟨_,run_cons he trivial hread ⟨trivial,rfl⟩,ht,rfl,?_⟩
    rw [outcome,hcallback,hfree]
  | false =>
    rw [hcallback,if_neg (by simp),close_own hheld,bind_ok] at hread
    refine ⟨_,run_cons he trivial hread ⟨trivial,rfl⟩,ht,rfl,?_⟩
    rw [outcome,hcallback]

/-- A process in which the constructor has opened /dev/null, no later `open` of it fails but for a full table, and no other
thread takes the descriptor that `handleRead` frees: in every run between two events the acceptor has its descriptor
in reserve, and one call of `handleRead` that is not refused takes the first client, with a full table as with a free
descriptor, so that no client keeps the loop busy in vain. -/
theorem every_client_is_taken (table : Slots Holder) (fails : Bool) (start s : Acceptor)
    (hothers : some Holder.acceptor ∉ table) (hnew : new table fails = .ok start) (hidle : start.idleFd ≠ none)
    (ops : List AcceptorOp)
    (ha : (machine.guard Undisturbed).Admissible start ops) (hs : machine.exec start ops = .ok s) (ht : s.todo = []) :
    s.idleFd ≠ none ∧ ∀ client rest, s.alive = true → s.listenning = true → s.backlog = client :: rest →
      ∃ t, ((machine.guard Undisturbed).Admissible s s.serve ∧ machine.exec s s.serve = .ok t) ∧ s.Taken client rest t := by
  obtain ⟨haccounts,hfirst⟩ := new_accounts hothers hnew
  obtain ⟨h,hready⟩ : s.Accounts ∧ s.Ready := by
    refine (machine.guard Undisturbed).exec_ok_invariant (I := fun s => s.Accounts ∧ s.Ready) ?_
      ⟨haccounts,ready_of_reserve hfirst hidle⟩ ha ?_
    · intro s t op h he hstep
      have hkeep := step_accounts s op h.1 he.1
      have hnext := step_ready h.1 h.2 he.1 he.2
      rw [show s.step op = .ok t from hstep] at hkeep hnext
      exact ⟨hkeep,hnext⟩
    · rw [Machine.exec_guard]
      exact hs
  refine ⟨?_,fun client rest halive hlisten hb => ?_⟩
  · rw [Ready,ht] at hready
    exact hready
  · have he : s.Enabled (.handleRead none) := ⟨halive,ht,hlisten,nofun⟩
    cases hfree : s.table.lowest with
    | none => exact serve_full h hready ht he hb hfree
    | some fd => exact serve_free ht he hb hfree

private def oneDescriptor : List AcceptorOp := [.setNewConnectionCallback,.listen false,.arrive 7,.arrive 8,.arrive 9,
  .handleRead none]

/-- Three clients and one descriptor: the second client is taken with the one in reserve. -/
theorem every_client_is_taken_full : (machine.guard Undisturbed).Admissible reserved oneDescriptor ∧
    ∃ s, machine.exec reserved oneDescriptor = .ok s ∧ s.table.lowest = none ∧ s.idleFd ≠ none ∧
      ∃ t, ((machine.guard Undisturbed).Admissible s s.serve ∧ machine.exec s s.serve = .ok t) ∧ s.Taken 8 [9] t := by
  have ha : (machine.guard Undisturbed).Admissible reserved oneDescriptor := by decide +kernel
  obtain ⟨s,hs,hfull,ht,halive,hlisten,hb⟩ : ∃ s, machine.exec reserved oneDescriptor = .ok s ∧ s.table.lowest = none ∧
      s.todo = [] ∧ s.alive = true ∧ s.listenning = true ∧ s.backlog = [8,9] :=
    Meets.ok_of_no_error (Q := fun _ => False) (by decide +kernel) (fun _ => id)
  obtain ⟨hidle,htaken⟩ := every_client_is_taken roomForThree false reserved s (by decide) rfl nofun oneDescriptor ha hs ht
  exact ⟨ha,s,hs,hfull,hidle,htaken 8 [9] halive hlisten hb⟩

end LearningMuduo.Tcp.Acceptor
