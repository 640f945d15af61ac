import LearningMuduo.Tcp.ConnectorSockets

/-! The delays between the attempts of a connector: they double up to a limit, and only
`restart()` makes them short again. -/
namespace LearningMuduo.Tcp.Connector
open Library
variable {s t : Connector} {op : ConnectorOp}

/-- The delay before the next attempt when k retries have been scheduled since the delay was
last set. -/
def delayAfter (k : Nat) : Nat := min (kInitRetryDelayMs*2^k) kMaxRetryDelayMs

/-- The first n delays. -/
def delays (n : Nat) : List Nat := (List.range n).map delayAfter

private theorem delayAfter_succ (k : Nat) : min (delayAfter k*2) kMaxRetryDelayMs = delayAfter (k+1) := by
  unfold delayAfter
  rw [Nat.pow_succ,← Nat.mul_assoc]
  omega

private theorem delays_succ (n : Nat) : delays (n+1) = delays n ++ [delayAfter n] := by
  rw [delays,List.range_succ,List.map_append]
  rfl

private theorem delayAfter_bounds (k : Nat) : kInitRetryDelayMs ≤ delayAfter k ∧ delayAfter k ≤ kMaxRetryDelayMs := by
  have hgrows : kInitRetryDelayMs*1 ≤ kInitRetryDelayMs*2^k := Nat.mul_le_mul_left _ Nat.one_le_two_pow
  exact ⟨le_min (by omega) (by decide),min_le_right _ _⟩

/-- `restart()` has been called and has not yet set the delay back. -/
def restarting (s : Connector) : Nat := s.todo.count .restart

/-- The retries so far, in rounds that each start with the shortest delay. -/
structure Paced (ops : List ConnectorOp) (s : Connector) : Prop where
  sound : s.Sound
  rounds : ∃ (ns : List Nat) (n : Nat), ns.length+s.restarting ≤ ops.count .restart ∧
    s.retries.map Prod.snd = ns.flatMap delays ++ delays n ∧ s.retryDelayMs = delayAfter n
  timers : s.retries.length = s.timers+ops.count .fire

private theorem Paced.frame {ops : List ConnectorOp} (h : s.Paced ops) (ht : t.Sound) (hr : t.retries = s.retries)
    (hd : t.retryDelayMs = s.retryDelayMs) (hn : t.restarting ≤ s.restarting) (htimers : t.timers = s.timers)
    (hop : op ≠ .fire) : t.Paced (ops ++ [op]) := by
  obtain ⟨ns,n,hlen,hrounds,hdelay⟩ := h.rounds
  refine ⟨ht,⟨ns,n,?_,hr ▸ hrounds,hd ▸ hdelay⟩,?_⟩
  · rw [List.count_append]
    omega
  · rw [hr,htimers,List.count_append,List.count_singleton,if_neg (by simpa using hop)]
    exact h.timers

private theorem restarting_nil (h : s.todo = []) : s.restarting = 0 := by
  rw [restarting,h]
  rfl

private theorem restarting_tail {task : ConnectorTask} {todo : List ConnectorTask} (h : s.todo = task :: todo) :
    todo.count .restart ≤ s.restarting := by
  rw [restarting,h]
  exact List.count_le_count_cons

private theorem Paced.step {ops : List ConnectorOp} (h : s.Paced ops) (hm : s.Moves op t) : t.Paced (ops ++ [op]) := by
  have hsound := hm.sound h.sound
  cases hm with
  | startFlag | stopFlag | startQueue hn | stopQueue hn => exact h.frame hsound rfl rfl le_rfl rfl (by simp)
  | start ht => exact h.frame hsound rfl rfl (Nat.zero_le _) rfl (by simp)
  | restart ht hs =>
    obtain ⟨ns,n,hlen,hrounds,hdelay⟩ := h.rounds
    refine ⟨hsound,⟨ns,n,?_,hrounds,hdelay⟩,?_⟩
    · rw [restarting_nil ht] at hlen
      rw [List.count_append]
      exact Nat.add_le_add hlen le_rfl
    · rw [List.count_append]
      exact h.timers
  | fire ht hn =>
    obtain ⟨ns,n,hlen,hrounds,hdelay⟩ := h.rounds
    have htimers := h.timers
    refine ⟨hsound,⟨ns,n,?_,hrounds,hdelay⟩,?_⟩
    · rw [List.count_append]
      exact (Nat.add_le_add_left (Nat.zero_le _) _).trans (hlen.trans (Nat.le_add_right _ _))
    · rw [List.count_append,List.count_singleton_self]
      dsimp only
      omega
  | event ch revents todo ht hc hs htodo =>
    refine h.frame hsound rfl rfl ?_ rfl (by simp)
    rcases htodo with rfl | rfl | rfl | rfl <;> exact Nat.zero_le _
  | functor f fs ht hf =>
    refine h.frame hsound rfl rfl ?_ rfl (by simp)
    rcases h.sound.queued f (by rw [hf]; exact List.mem_cons_self) with rfl | rfl | ⟨k,rfl⟩ <;> exact Nat.zero_le _
  | startInLoop ht hs =>
    refine h.frame hsound rfl rfl ?_ rfl (by simp)
    cases s.connect <;> exact Nat.zero_le _
  | connecting ht hc => exact h.frame hsound rfl rfl (Nat.zero_le _) rfl (by simp)
  | connectRetry ht => exact h.frame hsound rfl rfl (Nat.zero_le _) rfl (by simp)
  | connectFailed ht => exact h.frame hsound rfl rfl (Nat.zero_le _) rfl (by simp)
  | failed ch task todo ht hc hs =>
    refine h.frame hsound rfl rfl ?_ rfl (by simp)
    exact (List.count_cons_of_ne (by simp)).le.trans (restarting_tail ht)
  | established ch ht hc hs => exact h.frame hsound rfl rfl (Nat.zero_le _) rfl (by simp)
  | ignored task ht htask hs => exact h.frame hsound rfl rfl (Nat.zero_le _) rfl (by simp)
  | restarted ht =>
    -- a new round begins
    obtain ⟨ns,n,hlen,hrounds,-⟩ := h.rounds
    refine ⟨hsound,⟨ns ++ [n],0,?_,?_,rfl⟩,?_⟩
    · rw [restarting,ht] at hlen
      rw [List.count_append,List.length_append]
      exact hlen
    · rw [List.flatMap_append,List.flatMap_singleton]
      change s.retries.map Prod.snd = _ ++ []
      rw [List.append_nil]
      exact hrounds
    · rw [List.count_append]
      exact h.timers
  | connected ht =>
    refine h.frame hsound rfl rfl ?_ rfl (by simp)
    cases s.connect <;> exact Nat.zero_le _
  | newConnection ht => exact h.frame hsound rfl rfl (Nat.zero_le _) rfl (by simp)
  | closeUnwanted ht => exact h.frame hsound rfl rfl (Nat.zero_le _) rfl (by simp)
  | retry k todo ht =>
    refine h.frame hsound rfl rfl ?_ rfl (by simp)
    have htail := restarting_tail ht
    unfold restarting
    cases s.connect with
    | true => rwa [if_pos rfl,List.count_cons_of_ne (by simp)]
    | false => exact htail
  | schedule k todo ht =>
    obtain ⟨ns,n,hlen,hrounds,hdelay⟩ := h.rounds
    have htail := restarting_tail ht
    have htimers := h.timers
    refine ⟨hsound,⟨ns,n+1,?_,?_,?_⟩,?_⟩
    · rw [List.count_append]
      change ns.length+todo.count .restart ≤ _
      omega
    · rw [delays_succ,← List.append_assoc,← hrounds,List.map_append,hdelay]
      rfl
    · change min (s.retryDelayMs*2) kMaxRetryDelayMs = _
      rw [hdelay,delayAfter_succ]
    · rw [List.length_append,List.count_append]
      change _+1 = s.timers+1+(_+0)
      omega
  | resetChannel k ht => exact h.frame hsound rfl rfl (Nat.zero_le _) rfl (by simp)

private theorem new_paced : new.Paced [] := ⟨new_sound,⟨[],0,le_rfl,rfl,rfl⟩,rfl⟩

/-- In every run the delays of the retries come in rounds, at most one for each call of
`restart()` and one before; a round is 500 ms, then twice as much each time, up to 30 s. Each
retry starts one timer, and no timer fires twice. -/
theorem retries_back_off (ops : List ConnectorOp) (ha : machine.Admissible new ops) (s : Connector)
    (hs : machine.exec new ops = .ok s) :
    (∃ rounds : List Nat, rounds.length ≤ ops.count .restart+1 ∧ s.retries.map Prod.snd = rounds.flatMap delays) ∧
    (∀ delay ∈ s.retries.map Prod.snd, kInitRetryDelayMs ≤ delay ∧ delay ≤ kMaxRetryDelayMs) ∧
    s.retries.length = s.timers+ops.count .fire := by
  have hpaced : s.Paced ops := by
    refine machine.exec_ok_history new_paced ?_ ha hs
    intro before t u op h he hstep
    have hsteps := h.sound.steps he
    rw [show t.step op = .ok u from hstep] at hsteps
    cases hsteps with
    | ok _ hm => exact h.step hm
  obtain ⟨ns,n,hlen,hrounds,-⟩ := hpaced.rounds
  have hall : s.retries.map Prod.snd = (ns ++ [n]).flatMap delays := by
    rw [List.flatMap_append,List.flatMap_singleton]
    exact hrounds
  refine ⟨⟨ns ++ [n],?_,hall⟩,?_,hpaced.timers⟩
  · rw [List.length_append]
    exact Nat.add_le_add_right ((Nat.le_add_right _ _).trans hlen) 1
  · intro delay hdelay
    rw [hall] at hdelay
    obtain ⟨m,-,hm⟩ := List.mem_flatMap.mp hdelay
    obtain ⟨k,-,rfl⟩ := List.mem_map.mp hm
    exact delayAfter_bounds k

private def refused : ConnectorOp := .resume ⟨.ECONNREFUSED,0,false⟩

/-- An attempt that is refused, up to its retry timer. -/
private def refusedAttempt : List ConnectorOp := [refused,refused,refused,refused]

private def threeRefusals : List ConnectorOp :=
  [.start] ++ refusedAttempt ++ [.fire] ++ refusedAttempt ++ [.fire] ++ refusedAttempt

/-- Three attempts are refused. -/
theorem retries_back_off_three : machine.Admissible new threeRefusals ∧
    ∃ s, machine.exec new threeRefusals = .ok s ∧ s.retries.map Prod.snd = [500,1000,2000] ∧
      (∃ rounds : List Nat, rounds.length ≤ threeRefusals.count .restart+1 ∧
        s.retries.map Prod.snd = rounds.flatMap delays) ∧
      s.retries.length = s.timers+threeRefusals.count .fire := by
  have ha : machine.Admissible new threeRefusals := by decide +kernel
  obtain ⟨s,hs,hdelays⟩ := Meets.ok_of_no_error (P := fun s : Connector => s.retries.map Prod.snd = [500,1000,2000])
    (Q := fun _ => False) (x := machine.exec new threeRefusals) (by decide +kernel) fun _ => id
  obtain ⟨hrounds,-,htimers⟩ := retries_back_off threeRefusals ha s hs
  exact ⟨ha,s,hs,hdelays,hrounds,htimers⟩

end LearningMuduo.Tcp.Connector
