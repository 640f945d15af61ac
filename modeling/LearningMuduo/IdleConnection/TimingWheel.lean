import LearningMuduo.Library.Machine
import Mathlib.Data.List.Induction
import Mathlib.Data.List.Nodup

/-! The echo server of idleconnection/echo.cc, which closes idle connections with a ring of
buckets, and when it does. -/
namespace LearningMuduo.IdleConnection
open Library

/-- An `Entry`, known by the connection of its `weakConn_`. -/
structure Entry where
  weakConn : Nat
  deriving DecidableEq, Repr

/-- An `unordered_set` of shared pointers. -/
abbrev Bucket := List Entry

/-- A callback of the server, or the end of a connection object. -/
inductive WheelEvent where
  | onConnection (conn : Nat) (connected : Bool)
  | onMessage (conn : Nat)
  | onTimer
  | release (conn : Nat)
  deriving DecidableEq, Repr

/-- `any_cast` on a context that holds no pointer to an entry. -/
inductive WheelFault where
  | badAnyCast
  deriving DecidableEq, Repr

/-- `context` are the weak pointers kept in the connections, `alive` tells which connection
objects exist; `destroyed` and `shutdowns` are history. -/
structure EchoServer where
  connectionBuckets : List Bucket
  context : Nat → Option Entry
  alive : Nat → Bool
  destroyed : List Entry
  shutdowns : List Nat

namespace EchoServer

/-- The constructor: as many empty buckets as the ring holds. -/
def new (idleSeconds : Nat) : EchoServer where
  connectionBuckets := List.replicate idleSeconds []
  context := fun _ => none
  alive := fun _ => false
  destroyed := []
  shutdowns := []

/-- `use_count` of an entry when no local pointer to it is left. -/
def useCount (buckets : List Bucket) (e : Entry) : Nat := buckets.countP (fun bucket => e ∈ bucket)

/-- `connectionBuckets_.back().insert(ep)`. -/
def insertBack (s : EchoServer) (ep : Entry) : EchoServer :=
  { s with connectionBuckets := s.connectionBuckets.modify (s.connectionBuckets.length - 1) (List.insert ep) }

/-- `Entry::~Entry`. -/
def destroy (s : EchoServer) (e : Entry) : EchoServer :=
  { s with
    destroyed := s.destroyed ++ [e]
    shutdowns := s.shutdowns ++ if s.alive e.weakConn then [e.weakConn] else [] }

/-- `connectionBuckets_.push_back(Bucket())` on a full ring: the front bucket goes, and with
it the entries that no other bucket holds. -/
def pushBack (s : EchoServer) : EchoServer :=
  let rest := s.connectionBuckets.drop 1 ++ [[]]
  let gone := (s.connectionBuckets.headD []).filter (fun e => useCount rest e = 0)
  gone.foldl destroy { s with connectionBuckets := rest }

def code (s : EchoServer) : WheelEvent → Except WheelFault EchoServer
  | .onConnection conn connected =>
    if connected then
      let ep : Entry := ⟨conn⟩
      let s := s.insertBack ep
      pure { s with
        context := Function.update s.context conn (some ep)
        alive := Function.update s.alive conn true }
    else do
      require (s.context conn).isSome .badAnyCast
      pure s
  | .onMessage conn =>
    match s.context conn with
    | none => .error .badAnyCast
    | some wp => pure (if 0 < useCount s.connectionBuckets wp then s.insertBack wp else s)
  | .onTimer => pure s.pushBack
  | .release conn => pure { s with alive := Function.update s.alive conn false }

/-- A connection comes up once, before its other events, and exists while it has events. -/
def Enabled (s : EchoServer) : WheelEvent → Prop
  | .onConnection conn true => s.context conn = none
  | .onConnection conn false => s.context conn ≠ none ∧ s.alive conn = true
  | .onMessage conn => s.context conn ≠ none ∧ s.alive conn = true
  | .onTimer => True
  | .release conn => s.alive conn = true

instance (s : EchoServer) : (a : WheelEvent) → Decidable (s.Enabled a)
  | .onConnection _ true => inferInstanceAs (Decidable (_ = _))
  | .onConnection _ false | .onMessage _ => inferInstanceAs (Decidable (_ ≠ _ ∧ _ = _))
  | .onTimer => isTrue trivial
  | .release _ => inferInstanceAs (Decidable (_ = _))

def machine : Machine EchoServer WheelEvent WheelFault := ⟨Enabled,code⟩

instance (s : EchoServer) (a : WheelEvent) : Decidable (machine.Enabled s a) :=
  inferInstanceAs (Decidable (s.Enabled a))

end EchoServer

/-- The connection comes up or gets a message. -/
def WheelEvent.Activity (conn : Nat) (a : WheelEvent) : Prop :=
  a = .onConnection conn true ∨ a = .onMessage conn

instance (conn : Nat) (a : WheelEvent) : Decidable (a.Activity conn) := inferInstanceAs (Decidable (_ ∨ _))

/-- The `onTimer` calls since the most recent activity of a connection, if it had any. -/
def idleTicks (conn : Nat) (events : List WheelEvent) : Option Nat :=
  events.foldl (fun n a => if a.Activity conn then some 0 else if a = .onTimer then n.map (· + 1) else n) none

/-- At some point of the run the connection was idle for so many `onTimer` calls. -/
def Expired (idleSeconds conn : Nat) (events : List WheelEvent) : Prop :=
  ∃ earlier later, events = earlier ++ later ∧ idleTicks conn earlier = some idleSeconds

section
variable {conn : Nat} {events : List WheelEvent} {a : WheelEvent}

private theorem idleTicks_append : idleTicks conn (events ++ [a]) =
    if a.Activity conn then some 0 else if a = .onTimer then (idleTicks conn events).map (· + 1)
      else idleTicks conn events := by
  rw [idleTicks,List.foldl_append]
  rfl

private theorem expired_append {idleSeconds : Nat} : Expired idleSeconds conn (events ++ [a]) ↔
    Expired idleSeconds conn events ∨ idleTicks conn (events ++ [a]) = some idleSeconds := by
  constructor
  · rintro ⟨earlier,later,hsplit,hticks⟩
    rcases List.eq_nil_or_concat later with rfl | ⟨front,last,rfl⟩
    · rw [List.append_nil] at hsplit
      exact .inr (hsplit ▸ hticks)
    · rw [List.concat_eq_append,← List.append_assoc] at hsplit
      obtain ⟨rfl,-⟩ := List.append_inj' hsplit rfl
      exact .inl ⟨earlier,front,rfl,hticks⟩
  · rintro (⟨earlier,later,rfl,hticks⟩ | hticks)
    · exact ⟨earlier,later ++ [a],List.append_assoc ..,hticks⟩
    · exact ⟨events ++ [a],[],(List.append_nil _).symm,hticks⟩

private theorem idleTicks_isSome (h : (idleTicks conn events).isSome) (later : List WheelEvent) :
    (idleTicks conn (events ++ later)).isSome := by
  induction later using List.reverseRecOn with
  | nil => rwa [List.append_nil]
  | append_singleton later a ih =>
    rw [← List.append_assoc,idleTicks_append]
    split
    · rfl
    · split
      · rwa [Option.isSome_map]
      · exact ih

/-- What never came up has not expired. -/
theorem not_expired_of_none {idleSeconds : Nat} (h : idleTicks conn events = none) :
    ¬ Expired idleSeconds conn events := by
  rintro ⟨earlier,later,rfl,hticks⟩
  have hsome := idleTicks_isSome (show (idleTicks conn earlier).isSome by rw [hticks]; rfl) later
  rw [h] at hsome
  cases hsome

/-- Only `onTimer` lets a connection expire. -/
theorem expired_append_ne {idleSeconds : Nat} (hN : 1 ≤ idleSeconds) (ha : a ≠ .onTimer) :
    Expired idleSeconds conn (events ++ [a]) ↔ Expired idleSeconds conn events := by
  rw [expired_append,idleTicks_append]
  refine ⟨fun h => h.elim id fun hticks => ?_,.inl⟩
  split at hticks
  · cases hticks
    cases hN
  · exact ⟨events,[],(List.append_nil events).symm,hticks⟩

end

/-- The j-th bucket holds the entry. -/
def InBucket (buckets : List Bucket) (j : Nat) (e : Entry) : Prop := ∃ bucket, buckets[j]? = some bucket ∧ e ∈ bucket

namespace EchoServer
variable {s t : EchoServer} {idleSeconds conn : Nat} {events : List WheelEvent} {a : WheelEvent}

private theorem useCount_pos {buckets : List Bucket} {e : Entry} : 0 < useCount buckets e ↔ ∃ j, InBucket buckets j e := by
  rw [useCount,List.countP_pos_iff]
  constructor
  · rintro ⟨bucket,hmem,he⟩
    obtain ⟨j,hj⟩ := List.mem_iff_getElem?.mp hmem
    exact ⟨j,bucket,hj,of_decide_eq_true he⟩
  · rintro ⟨j,bucket,hj,he⟩
    exact ⟨bucket,List.mem_iff_getElem?.mpr ⟨j,hj⟩,decide_eq_true he⟩

private theorem inBucket_insertBack (h : 1 ≤ s.connectionBuckets.length) (ep e : Entry) (j : Nat) :
    InBucket (s.insertBack ep).connectionBuckets j e ↔
      InBucket s.connectionBuckets j e ∨ e = ep ∧ j + 1 = s.connectionBuckets.length := by
  simp only [InBucket,insertBack,List.getElem?_modify,Option.map_eq_map,Option.map_eq_some_iff]
  constructor
  · rintro ⟨_,⟨bucket,hj,rfl⟩,he⟩
    split at he
    · next hlast =>
      rcases List.mem_insert_iff.mp he with rfl | he
      · exact .inr ⟨rfl,by omega⟩
      · exact .inl ⟨bucket,hj,he⟩
    · exact .inl ⟨bucket,hj,he⟩
  · rintro (⟨bucket,hj,he⟩ | ⟨rfl,hlast⟩)
    · refine ⟨_,⟨bucket,hj,rfl⟩,?_⟩
      split
      · exact List.mem_insert_of_mem he
      · exact he
    · have hj : j < s.connectionBuckets.length := by omega
      refine ⟨_,⟨_,List.getElem?_eq_getElem hj,rfl⟩,?_⟩
      rw [if_pos (by omega)]
      exact List.mem_insert_self

private theorem inBucket_push {buckets : List Bucket} (h : 1 ≤ buckets.length) (e : Entry) (j : Nat) :
    InBucket (buckets.drop 1 ++ [[]]) j e ↔ InBucket buckets (j+1) e := by
  have hlen : (buckets.drop 1).length = buckets.length - 1 := List.length_drop
  simp only [InBucket]
  rcases Nat.lt_or_ge j (buckets.length - 1) with hlt | hge
  · rw [List.getElem?_append_left (by omega),List.getElem?_drop,Nat.add_comm 1 j]
  · rw [List.getElem?_append_right (by omega),List.getElem?_eq_none (show buckets.length ≤ j + 1 by omega),
      List.getElem?_singleton]
    constructor
    · rintro ⟨bucket,hj,he⟩
      split at hj
      · cases hj
        cases he
      · cases hj
    · rintro ⟨_,hj,-⟩
      cases hj

private theorem foldl_destroy (gone : List Entry) (s : EchoServer) : gone.foldl destroy s = { s with
    destroyed := s.destroyed ++ gone
    shutdowns := s.shutdowns ++ (gone.map Entry.weakConn).filter s.alive } := by
  induction gone generalizing s with
  | nil => rw [List.foldl_nil,List.append_nil,List.map_nil,List.filter_nil,List.append_nil]
  | cons e gone ih =>
    have hshut : s.shutdowns ++ (if s.alive e.weakConn then [e.weakConn] else []) ++
        (gone.map Entry.weakConn).filter s.alive = s.shutdowns ++ ((e :: gone).map Entry.weakConn).filter s.alive := by
      rw [List.map_cons,List.filter_cons,List.append_assoc]
      split
      · rfl
      · rfl
    rw [List.foldl_cons,ih,← hshut,List.append_cons]
    rfl

/-- The ring after a run: an entry that has not expired sits k buckets before the last one
and in none behind, where k are the `onTimer` calls since its latest activity; the other
connections have none. -/
structure Wheel (idleSeconds : Nat) (events : List WheelEvent) (s : EchoServer) : Prop where
  full : s.connectionBuckets.length = idleSeconds
  nodup : ∀ bucket ∈ s.connectionBuckets, bucket.Nodup
  known : ∀ c, s.context c = if (idleTicks c events).isSome then some ⟨c⟩ else none
  held : ∀ c k, idleTicks c events = some k → ¬ Expired idleSeconds c events →
    k + 1 ≤ idleSeconds ∧ InBucket s.connectionBuckets (idleSeconds-1-k) ⟨c⟩ ∧
      ∀ j, InBucket s.connectionBuckets j ⟨c⟩ → j + k + 1 ≤ idleSeconds
  free : ∀ c, idleTicks c events = none ∨ Expired idleSeconds c events →
    ∀ j, ¬ InBucket s.connectionBuckets j ⟨c⟩
  destroyed_iff : ∀ c, ⟨c⟩ ∈ s.destroyed ↔ Expired idleSeconds c events
  once : s.destroyed.Nodup

private theorem Wheel.useCount_iff (h : Wheel idleSeconds events s) (c : Nat) : 0 < useCount s.connectionBuckets ⟨c⟩ ↔
    (idleTicks c events).isSome ∧ ¬ Expired idleSeconds c events := by
  rw [useCount_pos]
  constructor
  · rintro ⟨j,hj⟩
    cases hk : idleTicks c events with
    | none => exact (h.free c (.inl hk) j hj).elim
    | some k => exact ⟨rfl,fun hexp => h.free c (.inr hexp) j hj⟩
  · rintro ⟨hsome,hexp⟩
    obtain ⟨k,hk⟩ := Option.isSome_iff_exists.mp hsome
    exact ⟨_,(h.held c k hk hexp).2.1⟩

private theorem new_wheel (idleSeconds : Nat) : Wheel idleSeconds [] (new idleSeconds) := by
  have hempty : ∀ j e, ¬ InBucket (List.replicate idleSeconds ([] : Bucket)) j e := by
    rintro j e ⟨bucket,hj,he⟩
    rw [List.eq_of_mem_replicate (List.mem_of_getElem? hj)] at he
    cases he
  have hno : ∀ c, ¬ Expired idleSeconds c [] := fun c => not_expired_of_none rfl
  refine ⟨List.length_replicate,?_,fun _ => rfl,?_,fun c _ j => hempty j ⟨c⟩,?_,List.nodup_nil⟩
  · intro bucket hb
    rw [List.eq_of_mem_replicate hb]
    exact List.nodup_nil
  · intro c k hk
    cases hk
  · intro c
    exact ⟨fun hm => (List.not_mem_nil hm).elim,fun hexp => (hno c hexp).elim⟩

private theorem Wheel.same (h : Wheel idleSeconds events s) (hN : 1 ≤ idleSeconds) (ha : a ≠ .onTimer)
    (hidle : ∀ c, a.Activity c → (idleTicks c events).isSome ∧ Expired idleSeconds c events)
    (hb : t.connectionBuckets = s.connectionBuckets) (hc : t.context = s.context) (hd : t.destroyed = s.destroyed) :
    Wheel idleSeconds (events ++ [a]) t := by
  have hexp (c : Nat) : Expired idleSeconds c (events ++ [a]) ↔ Expired idleSeconds c events :=
    expired_append_ne hN ha
  refine ⟨by rw [hb]; exact h.full,by rw [hb]; exact h.nodup,?_,?_,?_,?_,by rw [hd]; exact h.once⟩
  · intro c
    rw [hc,h.known,idleTicks_append,if_neg ha]
    by_cases hact : a.Activity c
    · rw [if_pos (hidle c hact).1,if_pos hact]
      rfl
    · rw [if_neg hact]
  · intro c k hk hne
    rw [hexp] at hne
    rw [idleTicks_append,if_neg ha] at hk
    split at hk
    · next hact => exact (hne (hidle c hact).2).elim
    · rw [hb]
      exact h.held c k hk hne
  · intro c hor
    rw [hb]
    rw [hexp,idleTicks_append,if_neg ha] at hor
    refine h.free c (hor.imp (fun hnone => ?_) id)
    split at hnone
    · cases hnone
    · exact hnone
  · intro c
    rw [hd,hexp]
    exact h.destroyed_iff c

private theorem Wheel.insert (h : Wheel idleSeconds events s) (hN : 1 ≤ idleSeconds) (ha : a ≠ .onTimer)
    (hact : ∀ c, a.Activity c ↔ c = conn) (hne : ¬ Expired idleSeconds conn events)
    (hb : t.connectionBuckets = (s.insertBack ⟨conn⟩).connectionBuckets) (hd : t.destroyed = s.destroyed)
    (hc : t.context = Function.update s.context conn (some ⟨conn⟩)) : Wheel idleSeconds (events ++ [a]) t := by
  have hexp (c : Nat) : Expired idleSeconds c (events ++ [a]) ↔ Expired idleSeconds c events :=
    expired_append_ne hN ha
  have hfull := h.full
  have hticks (c : Nat) : idleTicks c (events ++ [a]) = if c = conn then some 0 else idleTicks c events := by
    rw [idleTicks_append,if_neg ha]
    exact if_congr (hact c) rfl rfl
  have hin (j c : Nat) : InBucket t.connectionBuckets j ⟨c⟩ ↔
      InBucket s.connectionBuckets j ⟨c⟩ ∨ c = conn ∧ j + 1 = idleSeconds := by
    rw [hb,inBucket_insertBack (by omega),hfull,Entry.mk.injEq]
  refine ⟨?_,?_,?_,?_,?_,?_,by rw [hd]; exact h.once⟩
  · rw [hb,insertBack,List.length_modify]
    exact hfull
  · intro bucket hmem
    rw [hb] at hmem
    obtain ⟨j,hj⟩ := List.mem_iff_getElem?.mp hmem
    rw [insertBack,List.getElem?_modify,Option.map_eq_map,Option.map_eq_some_iff] at hj
    obtain ⟨old,hold,rfl⟩ := hj
    have hnodup := h.nodup old (List.mem_of_getElem? hold)
    split
    · exact hnodup.insert
    · exact hnodup
  · intro c
    rw [hc,Function.update_apply,hticks,h.known]
    by_cases heq : c = conn
    · rw [if_pos heq,if_pos heq,heq]
      rfl
    · rw [if_neg heq,if_neg heq]
  · intro c k hk hne'
    rw [hexp] at hne'
    rw [hticks] at hk
    split at hk
    · next hc =>
      cases hk
      refine ⟨hN,(hin _ c).mpr (.inr ⟨hc,by omega⟩),fun j hj => ?_⟩
      obtain ⟨bucket,hj,-⟩ := hj
      have hlt := (List.getElem?_eq_some_iff.mp hj).1
      rw [hb,insertBack,List.length_modify] at hlt
      omega
    · next hc =>
      obtain ⟨hk1,hheld,hlast⟩ := h.held c k hk hne'
      refine ⟨hk1,(hin _ c).mpr (.inl hheld),fun j hj => ?_⟩
      rcases (hin j c).mp hj with hj | ⟨heq,-⟩
      · exact hlast j hj
      · exact (hc heq).elim
  · intro c hor j hj
    rw [hexp,hticks] at hor
    rcases (hin j c).mp hj with hj | ⟨rfl,-⟩
    · refine h.free c (hor.imp (fun hnone => ?_) id) j hj
      split at hnone
      · cases hnone
      · exact hnone
    · rw [if_pos rfl] at hor
      rcases hor with hnone | hexp
      · cases hnone
      · exact hne hexp
  · intro c
    rw [hd,hexp]
    exact h.destroyed_iff c

/-- What a step destroys: the entries of the connections whose idleSeconds-th `onTimer`
since their latest activity it is, each shutting its connection down if that still exists. -/
def Destroys (idleSeconds : Nat) (events : List WheelEvent) (a : WheelEvent) (s t : EchoServer) : Prop :=
  ∃ gone : List Entry, t.destroyed = s.destroyed ++ gone ∧
    t.shutdowns = s.shutdowns ++ (gone.map Entry.weakConn).filter s.alive ∧
    ∀ c, ⟨c⟩ ∈ gone ↔ a = .onTimer ∧ idleTicks c (events ++ [a]) = some idleSeconds ∧ ¬ Expired idleSeconds c events

private theorem destroys_nothing (ha : a ≠ .onTimer) (hd : t.destroyed = s.destroyed) (hs : t.shutdowns = s.shutdowns) :
    Destroys idleSeconds events a s t := by
  refine ⟨[],by rw [hd,List.append_nil],by rw [hs]; exact (List.append_nil _).symm,fun c => ?_⟩
  exact ⟨fun hm => (List.not_mem_nil hm).elim,fun h => (ha h.1).elim⟩

private theorem mem_front {buckets : List Bucket} {e : Entry} : e ∈ buckets.headD [] ↔ InBucket buckets 0 e := by
  cases buckets with
  | nil =>
    constructor
    · exact fun he => (List.not_mem_nil he).elim
    · rintro ⟨_,hj,-⟩
      cases hj
  | cons bucket buckets =>
    constructor
    · exact fun he => ⟨bucket,rfl,he⟩
    · rintro ⟨_,hj,he⟩
      cases hj
      exact he

private theorem Wheel.mem_gone (h : Wheel idleSeconds events s) (hN : 1 ≤ idleSeconds) (c : Nat) :
    ⟨c⟩ ∈ (s.connectionBuckets.headD []).filter (fun e => useCount (s.connectionBuckets.drop 1 ++ [[]]) e = 0) ↔
      (idleTicks c events).map (· + 1) = some idleSeconds ∧ ¬ Expired idleSeconds c events := by
  have hfull := h.full
  have hin (e : Entry) (j : Nat) :
      InBucket (s.connectionBuckets.drop 1 ++ [[]]) j e ↔ InBucket s.connectionBuckets (j+1) e :=
    inBucket_push (by omega) e j
  rw [List.mem_filter,mem_front,decide_eq_true_iff,← Nat.le_zero,← Nat.not_lt,useCount_pos]
  constructor
  · rintro ⟨h0,hrest⟩
    cases hk : idleTicks c events with
    | none => exact (h.free c (.inl hk) 0 h0).elim
    | some k =>
      have hne : ¬ Expired idleSeconds c events := fun hx => h.free c (.inr hx) 0 h0
      obtain ⟨hk1,hheld,-⟩ := h.held c k hk hne
      refine ⟨congrArg some ?_,hne⟩
      by_contra hkN
      change k + 1 ≠ idleSeconds at hkN
      refine hrest ⟨idleSeconds-1-k-1,?_⟩
      rw [hin,show idleSeconds-1-k-1+1 = idleSeconds-1-k by omega]
      exact hheld
  · rintro ⟨hmap,hne⟩
    obtain ⟨k,hk,hkN⟩ := Option.map_eq_some_iff.mp hmap
    change k + 1 = idleSeconds at hkN
    obtain ⟨-,hheld,hlast⟩ := h.held c k hk hne
    rw [show idleSeconds-1-k = 0 by omega] at hheld
    refine ⟨hheld,fun ⟨j,hj⟩ => ?_⟩
    have hle := hlast (j+1) ((hin _ j).mp hj)
    omega

private theorem Wheel.onTimer (h : Wheel idleSeconds events s) (hN : 1 ≤ idleSeconds) :
    Wheel idleSeconds (events ++ [.onTimer]) s.pushBack ∧ Destroys idleSeconds events .onTimer s s.pushBack := by
  have hfull := h.full
  let rest := s.connectionBuckets.drop 1 ++ [[]]
  let gone := (s.connectionBuckets.headD []).filter (fun e => useCount rest e = 0)
  have hpush : s.pushBack = { s with
      connectionBuckets := rest
      destroyed := s.destroyed ++ gone
      shutdowns := s.shutdowns ++ (gone.map Entry.weakConn).filter s.alive } :=
    foldl_destroy gone { s with connectionBuckets := rest }
  have hin (e : Entry) (j : Nat) : InBucket rest j e ↔ InBucket s.connectionBuckets (j+1) e :=
    inBucket_push (by omega) e j
  have hnot (c : Nat) : ¬ WheelEvent.onTimer.Activity c := by
    rintro (hc | hc) <;> cases hc
  have hticks (c : Nat) : idleTicks c (events ++ [.onTimer]) = (idleTicks c events).map (· + 1) := by
    rw [idleTicks_append,if_neg (hnot c),if_pos rfl]
  have hexp (c : Nat) : Expired idleSeconds c (events ++ [.onTimer]) ↔
      Expired idleSeconds c events ∨ (idleTicks c events).map (· + 1) = some idleSeconds := by
    rw [expired_append,hticks]
  have hgone (c : Nat) : ⟨c⟩ ∈ gone ↔ (idleTicks c events).map (· + 1) = some idleSeconds ∧ ¬ Expired idleSeconds c events :=
    h.mem_gone hN c
  have hlen : rest.length = idleSeconds := by
    rw [List.length_append,List.length_drop,List.length_singleton]
    omega
  rw [hpush]
  refine ⟨⟨hlen,?_,?_,?_,?_,?_,?_⟩,gone,rfl,rfl,fun c => ?_⟩
  · intro bucket hmem
    rcases List.mem_append.mp hmem with hmem | hmem
    · exact h.nodup bucket (List.mem_of_mem_drop hmem)
    · rw [List.mem_singleton.mp hmem]
      exact List.nodup_nil
  · intro c
    rw [hticks,Option.isSome_map]
    exact h.known c
  · intro c k hk hne
    rw [hexp,not_or,← hticks,hk] at hne
    rw [hticks] at hk
    obtain ⟨m,hm,rfl⟩ := Option.map_eq_some_iff.mp hk
    obtain ⟨hm1,hheld,hlast⟩ := h.held c m hm hne.1
    have hmN : m + 1 ≠ idleSeconds := fun heq => hne.2 (congrArg some heq)
    refine ⟨by omega,?_,fun j hj => ?_⟩
    · rw [hin,show idleSeconds-1-(m+1)+1 = idleSeconds-1-m by omega]
      exact hheld
    · have hle := hlast (j+1) ((hin _ j).mp hj)
      omega
  · intro c hor j hj
    have hj := (hin _ j).mp hj
    rw [hticks,hexp] at hor
    rcases hor with hnone | hx | hmap
    · exact h.free c (.inl (Option.map_eq_none_iff.mp hnone)) (j+1) hj
    · exact h.free c (.inr hx) (j+1) hj
    · obtain ⟨k,hk,hkN⟩ := Option.map_eq_some_iff.mp hmap
      by_cases hx : Expired idleSeconds c events
      · exact h.free c (.inr hx) (j+1) hj
      · have hle := (h.held c k hk hx).2.2 (j+1) hj
        omega
  · intro c
    rw [List.mem_append,h.destroyed_iff,hgone,hexp]
    by_cases hx : Expired idleSeconds c events
    · simp only [hx,true_or]
    · simp only [hx,false_or,not_false_eq_true,and_true]
  · refine List.nodup_append.mpr ⟨h.once,?_,?_⟩
    · have hhead : (s.connectionBuckets.headD []).Nodup := by
        cases hb : s.connectionBuckets with
        | nil => exact List.nodup_nil
        | cons bucket buckets => exact h.nodup bucket (by rw [hb]; exact List.mem_cons_self)
      exact hhead.filter _
    · rintro ⟨c⟩ hd ⟨c'⟩ hg heq
      cases heq
      exact ((hgone c).mp hg).2 ((h.destroyed_iff c).mp hd)
  · rw [hgone,hticks]
    exact ⟨fun hg => ⟨rfl,hg⟩,And.right⟩

/-- One step of the server. -/
theorem Wheel.step (h : Wheel idleSeconds events s) (hN : 1 ≤ idleSeconds) (he : s.Enabled a) :
    ∃ t, s.code a = .ok t ∧ Wheel idleSeconds (events ++ [a]) t ∧ Destroys idleSeconds events a s t := by
  have hticks (c : Nat) : s.context c ≠ none ↔ (idleTicks c events).isSome := by
    rw [h.known]
    split
    · next hsome => exact ⟨fun _ => hsome,fun _ hnone => Option.some_ne_none _ hnone⟩
    · next hnone => exact ⟨fun hne => (hne rfl).elim,fun hsome => (hnone hsome).elim⟩
  cases a with
  | onTimer => exact ⟨s.pushBack,rfl,(h.onTimer hN).1,(h.onTimer hN).2⟩
  | release conn =>
    refine ⟨_,rfl,h.same hN (by simp) ?_ rfl rfl rfl,destroys_nothing (by simp) rfl rfl⟩
    rintro c (hc | hc) <;> cases hc
  | onConnection conn connected =>
    cases connected with
    | false =>
      refine ⟨s,?_,h.same hN (by simp) ?_ rfl rfl rfl,destroys_nothing (by simp) rfl rfl⟩
      · change (require (s.context conn).isSome WheelFault.badAnyCast >>= fun _ => pure s) = _
        rw [require_pos (Option.ne_none_iff_isSome.mp he.1)]
        rfl
      · rintro c (hc | hc) <;> cases hc
    | true =>
      have hnone : idleTicks conn events = none := by
        have hctx : ¬ s.context conn ≠ none := not_not.mpr he
        rw [hticks] at hctx
        exact Option.not_isSome_iff_eq_none.mp hctx
      refine ⟨_,rfl,h.insert hN (by simp) (fun c => ?_) (not_expired_of_none hnone) rfl rfl rfl,
        destroys_nothing (by simp) rfl rfl⟩
      simp [WheelEvent.Activity,eq_comm]
  | onMessage conn =>
    have hsome := (hticks conn).mp he.1
    have hctx : s.context conn = some ⟨conn⟩ := by rw [h.known,if_pos hsome]
    have hcode : s.code (.onMessage conn) =
        .ok (if 0 < useCount s.connectionBuckets ⟨conn⟩ then s.insertBack ⟨conn⟩ else s) := by
      rw [code,hctx]
      rfl
    have hact (c : Nat) : (WheelEvent.onMessage conn).Activity c ↔ c = conn := by
      simp [WheelEvent.Activity,eq_comm]
    rw [hcode]
    by_cases hx : Expired idleSeconds conn events
    · rw [if_neg (fun hpos => ((h.useCount_iff conn).mp hpos).2 hx)]
      refine ⟨s,rfl,h.same hN (by simp) (fun c hc => ?_) rfl rfl rfl,destroys_nothing (by simp) rfl rfl⟩
      rw [(hact c).mp hc]
      exact ⟨hsome,hx⟩
    · rw [if_pos ((h.useCount_iff conn).mpr ⟨hsome,hx⟩)]
      refine ⟨_,rfl,h.insert hN (by simp) hact hx rfl rfl ?_,destroys_nothing (by simp) rfl rfl⟩
      rw [← hctx,Function.update_eq_self]
      rfl

/-- Every run of the server, with at least one bucket: an entry is alive exactly while its
connection came up and was never idle for idleSeconds calls of `onTimer`, it is destroyed
in the call that makes it so, shutting a connection down that still exists, no entry is
destroyed twice, and no other event destroys any. -/
theorem wheel_closes_idle (hN : 1 ≤ idleSeconds) (events : List WheelEvent)
    (ha : machine.Admissible (new idleSeconds) events) :
    ∃ s, machine.exec (new idleSeconds) events = .ok s ∧
      (∀ c, 0 < useCount s.connectionBuckets ⟨c⟩ ↔
        (idleTicks c events).isSome ∧ ¬ Expired idleSeconds c events) ∧
      (∀ c, ⟨c⟩ ∈ s.destroyed ↔ Expired idleSeconds c events) ∧ s.destroyed.Nodup ∧
      ∀ a, s.Enabled a → ∃ t, s.code a = .ok t ∧ Destroys idleSeconds events a s t := by
  have hrun : ∃ s, machine.exec (new idleSeconds) events = .ok s ∧ Wheel idleSeconds events s := by
    refine machine.exec_history (new_wheel idleSeconds) (fun before s a h _ he => ?_) events ha
    obtain ⟨t,ht,h',-⟩ := h.step hN he
    exact ⟨t,ht,h'⟩
  obtain ⟨s,hs,h⟩ := hrun
  refine ⟨s,hs,h.useCount_iff,h.destroyed_iff,h.once,fun a he => ?_⟩
  obtain ⟨t,ht,-,hd⟩ := h.step hN he
  exact ⟨t,ht,hd⟩

private def twoClients : List WheelEvent :=
  [.onConnection 1 true,.onTimer,.onConnection 2 true,.onMessage 1,.onTimer,.onConnection 2 false,.release 2,
    .onTimer,.onMessage 1,.onTimer]

/-- Three buckets and two clients, of which the second is gone before its entry is. -/
theorem wheel_closes_idle_two : ∃ s, machine.exec (new 3) twoClients = .ok s ∧
    (∀ c, ⟨c⟩ ∈ s.destroyed ↔ Expired 3 c twoClients) ∧ s.destroyed.Nodup := by
  obtain ⟨s,hs,-,hd,hn,-⟩ := wheel_closes_idle (show 1 ≤ 3 by decide) twoClients (by decide +kernel)
  exact ⟨s,hs,hd,hn⟩

example : (machine.exec (new 3) twoClients).map (fun s => (s.destroyed,s.shutdowns)) = .ok ([⟨2⟩],[]) := by
  decide +kernel

end EchoServer
end LearningMuduo.IdleConnection
