import LearningMuduo.Socket.InetAddress
import LearningMuduo.Tcp.TcpServer

/-! The map from names to connections of a server: what `newConnection` puts into it and
what `removeConnectionInLoop` takes out of it. -/
namespace LearningMuduo.Tcp
open Library Logging Socket

inductive MapFault where
  | address (site : SocketAssert)
  | connIdOverflow
  | erasedOne
  deriving DecidableEq, Repr

/-- A connection is known by its place among all that were accepted; `accepted` are their
names and `removed` those whose removal has run, both history. -/
structure ServerMap where
  server : TcpServer
  name_ : List UInt8
  ipPort_ : List UInt8
  connections_ : List UInt8 → Option Nat
  accepted : List (List UInt8)
  removed : List Nat

inductive MapStep where
  | newConnection (sockfd : Int) (highWaterMark : Nat)
  | removeConnectionInLoop (i : Nat)
  deriving DecidableEq, Repr

namespace ServerMap

/-- The constructor: both texts are those of the listen address. -/
def new (loop : Nat) (loops : List Nat) (listenAddr : InetAddress) : Except MapFault ServerMap := do
  let name ← listenAddr.toIpPort.mapError .address
  let ipPort ← listenAddr.toIpPort.mapError .address
  return ⟨.new loop loops,name,ipPort,fun _ => none,[],[]⟩

/-- `connName`, by way of an array of 64 characters. -/
def connName (s : ServerMap) (connId : Nat) : List UInt8 :=
  s.name_ ++ cString (snprintf 64 ([45] ++ s.ipPort_ ++ [35] ++ decimal connId)).1

/-- `newConnection` up to the callbacks it sets. -/
def newConnection (s : ServerMap) (sockfd : Int) (highWaterMark : Nat) : Except MapFault ServerMap := do
  let connName := s.connName s.server.nextConnId
  let (server,_) := s.server.newConnection sockfd highWaterMark
  -- `++nextConnId_` on an int
  require (server.nextConnId < 2^31) .connIdOverflow
  return { s with
    server := server
    connections_ := Function.update s.connections_ connName (some s.accepted.length)
    accepted := s.accepted ++ [connName] }

/-- `removeConnectionInLoop(conn)`: `erase` by the name of the connection. -/
def removeConnectionInLoop (s : ServerMap) (i : Nat) : Except MapFault ServerMap :=
  match s.accepted[i]? with
  | none => pure s
  | some name => do
    let n := if (s.connections_ name).isSome then 1 else 0
    require (n = 1) .erasedOne
    return { s with
      connections_ := Function.update s.connections_ name none
      removed := i :: s.removed }

def code (s : ServerMap) : MapStep → Except MapFault ServerMap
  | .newConnection sockfd highWaterMark => s.newConnection sockfd highWaterMark
  | .removeConnectionInLoop i => s.removeConnectionInLoop i

/-- Fewer than 2^31-1 calls of `newConnection`; each connection is removed at most once. -/
def Enabled (s : ServerMap) : MapStep → Prop
  | .newConnection _ _ => s.accepted.length + 1 < 2^31 - 1
  | .removeConnectionInLoop i => i < s.accepted.length ∧ i ∉ s.removed

instance (s : ServerMap) : (a : MapStep) → Decidable (s.Enabled a)
  | .newConnection _ _ => inferInstanceAs (Decidable (_ < _))
  | .removeConnectionInLoop _ => inferInstanceAs (Decidable (_ ∧ _))

def machine : Machine ServerMap MapStep MapFault := ⟨Enabled,code⟩

instance (s : ServerMap) (a : MapStep) : Decidable (machine.Enabled s a) := inferInstanceAs (Decidable (s.Enabled a))

variable {s t : ServerMap}

/-- The map holds the accepted connections that are not removed, each under its name. -/
def Exact (s : ServerMap) : Prop :=
  ∀ name i, s.connections_ name = some i ↔ s.accepted[i]? = some name ∧ i ∉ s.removed

/-- A new entry goes where there was none; a removal takes one entry, that of its own
connection. -/
def EntryOnly (s : ServerMap) (t : ServerMap) : MapStep → Prop
  | .newConnection _ _ => ∃ name, s.connections_ name = none ∧ t.accepted = s.accepted ++ [name] ∧
      t.connections_ = Function.update s.connections_ name (some s.accepted.length) ∧ t.removed = s.removed
  | .removeConnectionInLoop i => ∃ name, s.accepted[i]? = some name ∧ s.connections_ name = some i ∧
      t.accepted = s.accepted ∧ t.connections_ = Function.update s.connections_ name none ∧
      t.removed = i :: s.removed

/-- What every run keeps: the text of the address fits its place in a name, and the i-th
connection has the name with the number i. -/
structure Sound (s : ServerMap) : Prop where
  ipPort_length : s.ipPort_.length ≤ 51
  ipPort_text : 0 ∉ s.ipPort_
  nextConnId : s.server.nextConnId = s.accepted.length + 1
  few : s.accepted.length < 2^31 - 1
  names : ∀ i name, s.accepted[i]? = some name → name = s.connName (i+1)
  removed_lt : ∀ i ∈ s.removed, i < s.accepted.length
  exact : s.Exact

/-- No connection number below 2^31 is cut off. -/
theorem Sound.connName_eq (h : s.Sound) {connId : Nat} (hid : connId < 2^31) :
    s.connName connId = s.name_ ++ ([45] ++ s.ipPort_ ++ [35] ++ decimal connId) := by
  have hdigits : (decimal connId).length ≤ 10 := length_decimal (by decide) (by omega)
  have hl := h.ipPort_length
  have h0 : 0 ∉ decimal connId := by
    rw [decimal_natCast]
    exact zero_not_mem_digits (by decide)
  rw [connName,cString_snprintf]
  · simp only [List.mem_append,List.mem_singleton,h.ipPort_text,h0,or_false]
    decide
  · simp only [List.length_append,List.length_singleton]
    omega

/-- Different numbers make different names. -/
theorem Sound.connName_injective (h : s.Sound) {m n : Nat} (hm : m < 2^31) (hn : n < 2^31)
    (heq : s.connName m = s.connName n) : m = n := by
  rw [h.connName_eq hm,h.connName_eq hn] at heq
  exact decimal_injective (List.append_cancel_left (List.append_cancel_left heq))

private theorem Sound.index_lt (h : s.Sound) {i : Nat} {name : List UInt8} (hi : s.accepted[i]? = some name) :
    i + 1 < 2^31 := by
  have hlt := (List.getElem?_eq_some_iff.mp hi).1
  have hfew := h.few
  omega

/-- A name belongs to one connection. -/
theorem Sound.name_unique (h : s.Sound) {i j : Nat} {name : List UInt8} (hi : s.accepted[i]? = some name)
    (hj : s.accepted[j]? = some name) : i = j := by
  have heq : s.connName (i+1) = s.connName (j+1) := (h.names i name hi).symm.trans (h.names j name hj)
  exact Nat.succ_inj.mp (h.connName_injective (h.index_lt hi) (h.index_lt hj) heq)

private theorem nextConnId_newConnection (server : TcpServer) (sockfd : Int) (highWaterMark : Nat) :
    (server.newConnection sockfd highWaterMark).1.nextConnId = server.nextConnId + 1 := by
  have hloop : server.getNextLoop.2.nextConnId = server.nextConnId := by
    rw [TcpServer.getNextLoop]
    split
    · rfl
    · rfl
  rw [← hloop]
  rfl

/-- The name of the next connection is in use by none. -/
theorem Sound.name_free (h : s.Sound) : s.connections_ (s.connName s.server.nextConnId) = none := by
  have hfew := h.few
  cases hc : s.connections_ (s.connName s.server.nextConnId) with
  | none => rfl
  | some i =>
    have hi := ((h.exact _ i).mp hc).1
    have hlt := (List.getElem?_eq_some_iff.mp hi).1
    have heq := h.names i _ hi
    rw [h.nextConnId] at heq
    have := h.connName_injective (by omega) (by omega) heq
    omega

private theorem getElem?_snoc {names : List (List UInt8)} {last name : List UInt8} {i : Nat} :
    (names ++ [last])[i]? = some name ↔ names[i]? = some name ∨ i = names.length ∧ last = name := by
  rcases lt_trichotomy i names.length with hlt | rfl | hgt
  · rw [List.getElem?_append_left hlt]
    exact ⟨.inl,fun h => h.elim id fun h => (hlt.ne h.1).elim⟩
  · rw [List.getElem?_concat_length]
    simp
  · rw [List.getElem?_eq_none (by rw [List.length_append,List.length_singleton]; omega),
      List.getElem?_eq_none hgt.le]
    simp [hgt.ne']

private theorem newConnection_step (h : s.Sound) (sockfd : Int) (highWaterMark : Nat)
    (he : s.Enabled (.newConnection sockfd highWaterMark)) :
    ∃ t, s.newConnection sockfd highWaterMark = .ok t ∧ t.Sound ∧
      s.EntryOnly t (.newConnection sockfd highWaterMark) := by
  change s.accepted.length + 1 < 2^31 - 1 at he
  have hid := nextConnId_newConnection s.server sockfd highWaterMark
  have hnext := h.nextConnId
  have hfree := h.name_free
  refine ⟨{ s with
    server := (s.server.newConnection sockfd highWaterMark).1
    connections_ := Function.update s.connections_ (s.connName s.server.nextConnId) (some s.accepted.length)
    accepted := s.accepted ++ [s.connName s.server.nextConnId] },?_,⟨h.ipPort_length,h.ipPort_text,?_,?_,?_,?_,?_⟩,
    _,hfree,rfl,rfl,rfl⟩
  · rw [newConnection]
    dsimp only
    rw [require_pos (by omega)]
    rfl
  · rw [List.length_append,List.length_singleton]
    change (s.server.newConnection sockfd highWaterMark).1.nextConnId = _
    omega
  · rw [List.length_append,List.length_singleton]
    exact he
  · intro i name hi
    rcases getElem?_snoc.mp hi with hi | ⟨rfl,rfl⟩
    · exact h.names i name hi
    · rw [h.nextConnId]
      rfl
  · intro i hi
    rw [List.length_append]
    exact Nat.lt_add_right 1 (h.removed_lt i hi)
  · intro name i
    dsimp only
    rw [Function.update_apply,getElem?_snoc]
    split
    · next hname =>
      -- the new name belongs to no connection accepted before
      have hold : s.accepted[i]? = some name → i ∈ s.removed := by
        intro hi
        by_contra hin
        have hsome := (h.exact name i).mpr ⟨hi,hin⟩
        rw [hname,hfree] at hsome
        cases hsome
      constructor
      · intro hi
        cases hi
        exact ⟨.inr ⟨rfl,hname.symm⟩,fun hin => Nat.lt_irrefl _ (h.removed_lt _ hin)⟩
      · rintro ⟨hi | ⟨rfl,-⟩,hin⟩
        · exact (hin (hold hi)).elim
        · rfl
    · next hname =>
      rw [h.exact]
      refine and_congr_left fun _ => ⟨.inl,fun hi => hi.elim id fun hi => (hname hi.2.symm).elim⟩

private theorem removeConnectionInLoop_step (h : s.Sound) (i : Nat) (he : s.Enabled (.removeConnectionInLoop i)) :
    ∃ t, s.removeConnectionInLoop i = .ok t ∧ t.Sound ∧ s.EntryOnly t (.removeConnectionInLoop i) := by
  obtain ⟨hlt,hin⟩ := he
  have hname : s.accepted[i]? = some s.accepted[i] := List.getElem?_eq_getElem hlt
  have hentry : s.connections_ s.accepted[i] = some i := (h.exact _ i).mpr ⟨hname,hin⟩
  refine ⟨{ s with
    connections_ := Function.update s.connections_ s.accepted[i] none
    removed := i :: s.removed },?_,⟨h.ipPort_length,h.ipPort_text,h.nextConnId,h.few,h.names,?_,?_⟩,
    _,hname,hentry,rfl,rfl,rfl⟩
  · rw [removeConnectionInLoop,hname]
    dsimp only
    rw [hentry]
    rfl
  · intro j hj
    rcases List.mem_cons.mp hj with rfl | hj
    · exact hlt
    · exact h.removed_lt j hj
  · intro name j
    change Function.update s.connections_ s.accepted[i] none name = some j ↔ s.accepted[j]? = some name ∧ j ∉ i :: s.removed
    rw [Function.update_apply,List.mem_cons,not_or]
    split
    · next heq =>
      constructor
      · intro hj
        cases hj
      · rintro ⟨hj,hne,-⟩
        exact (hne (h.name_unique hj (heq ▸ hname))).elim
    · next hne =>
      rw [h.exact]
      refine and_congr_right fun hj => ⟨fun hj' => ⟨?_,hj'⟩,And.right⟩
      rintro rfl
      exact hne (Option.some.inj (hj.symm.trans hname))

/-- One step of a sound map. -/
theorem code_step (h : s.Sound) (a : MapStep) (he : s.Enabled a) :
    ∃ t, s.code a = .ok t ∧ t.Sound ∧ s.EntryOnly t a := by
  cases a with
  | newConnection sockfd highWaterMark => exact newConnection_step h sockfd highWaterMark he
  | removeConnectionInLoop i => exact removeConnectionInLoop_step h i he

private theorem new_sound (loop : Nat) (loops : List Nat) (listenAddr : InetAddress) :
    ∃ s, new loop loops listenAddr = .ok s ∧ s.Sound := by
  obtain ⟨text,htext,hlen,h0⟩ := toIpPort_text listenAddr
  refine ⟨⟨.new loop loops,text,text,fun _ => none,[],[]⟩,by rw [new,htext]; rfl,hlen,h0,rfl,show 0 < 2^31 - 1 by decide,?_,?_,?_⟩
  · intro i name hi
    cases hi
  · intro i hi
    cases hi
  · intro name i
    simp

/-- In every run of a server on any address, with fewer than 2^31-1 accepted connections
and each removed at most once, no step fails, `connections_` holds exactly the connections
that are accepted and not removed, each under its own name, and the next step touches no
entry but its own. -/
theorem connection_map_exact (loop : Nat) (loops : List Nat) (listenAddr : InetAddress) :
    ∃ s₀, new loop loops listenAddr = .ok s₀ ∧ ∀ steps, machine.Admissible s₀ steps →
      ∃ s, machine.exec s₀ steps = .ok s ∧ s.Exact ∧
        ∀ a, s.Enabled a → ∃ t, s.code a = .ok t ∧ s.EntryOnly t a := by
  obtain ⟨s₀,hs₀,hsound⟩ := new_sound loop loops listenAddr
  refine ⟨s₀,hs₀,fun steps ha => ?_⟩
  have hstep : ∀ s a, Sound s → machine.Enabled s a → ∃ t, machine.step s a = .ok t ∧ Sound t := by
    intro s a h he
    obtain ⟨t,ht,hsound,-⟩ := code_step h a he
    exact ⟨t,ht,hsound⟩
  obtain ⟨s,hs,h⟩ := machine.exec_total hsound hstep ha
  refine ⟨s,hs,h.exact,fun a he => ?_⟩
  obtain ⟨t,ht,-,honly⟩ := code_step h a he
  exact ⟨t,ht,honly⟩

private def threeClients : List MapStep :=
  [.newConnection 7 0,.newConnection 8 0,.removeConnectionInLoop 0,.newConnection 7 0,.removeConnectionInLoop 2]

/-- Three clients of a server on `[::1]:2000`, of which the first and the third leave. -/
theorem connection_map_exact_three : ∃ s₀ s, new 0 [] (.in6 ![0,0,0,0,0,0,0,1] 2000) = .ok s₀ ∧
    machine.exec s₀ threeClients = .ok s ∧ s.Exact ∧ ∀ a, s.Enabled a → ∃ t, s.code a = .ok t ∧ s.EntryOnly t a := by
  obtain ⟨s₀,hs₀,hrun⟩ := connection_map_exact 0 [] (.in6 ![0,0,0,0,0,0,0,1] 2000)
  obtain ⟨s₀',hs₀',ha⟩ : ∃ s, new 0 [] (.in6 ![0,0,0,0,0,0,0,1] 2000) = .ok s ∧ machine.Admissible s threeClients :=
    Meets.ok_of_no_error (Q := fun _ => False) (by decide +kernel) (fun _ => id)
  rw [hs₀] at hs₀'
  cases hs₀'
  obtain ⟨s,hs,hexact,hnext⟩ := hrun threeClients ha
  exact ⟨s₀,s,hs₀,hs,hexact,hnext⟩

end ServerMap
end LearningMuduo.Tcp
