import LearningMuduo.Library.Machine
import Mathlib.Data.List.Induction
import Mathlib.Data.List.Nodup

/-! The echo server of idleconnection/sortedlist.cc, which keeps its connections in the
order of their last messages, and when that order breaks. Times are microseconds. -/
namespace LearningMuduo.IdleConnection
open Library

inductive ConnState where
  | kConnecting | kConnected | kDisconnecting | kDisconnected
  deriving DecidableEq, Repr

/-- What an iteration of the loop does: `poll` returns, and callbacks run, each with its
reading of the clock; or a connection object comes to its end. -/
inductive ListEvent where
  | poll (pollReturnTime : Int)
  | connectionUp (conn : Nat) (now : Int)
  | connectionDown (conn : Nat)
  | onMessage (conn : Nat)
  | onTimer (now : Int)
  | release (conn : Nat)
  deriving DecidableEq, Repr

/-- An iterator kept in a node is used after its element was erased. -/
inductive ListFault where
  | danglingPosition
  deriving DecidableEq, Repr

/-- `connectionList` holds weak pointers; `lastReceiveTime` is that of the node kept in the
connection, whose `position` is the one element of the connection. `shutdowns` is history. -/
structure SortedServer where
  idleSeconds : Int
  connectionList : List Nat
  lastReceiveTime : Nat → Int
  state : Nat → ConnState
  alive : Nat → Bool
  pollReturnTime : Int
  clock : Int
  shutdowns : List Nat

def kMicroSecondsPerSecond : Int := 1000*1000

namespace SortedServer

def new (idleSeconds clock : Int) : SortedServer where
  idleSeconds := idleSeconds
  connectionList := []
  lastReceiveTime := fun _ => 0
  state := fun _ => .kConnecting
  alive := fun _ => false
  pollReturnTime := clock
  clock := clock
  shutdowns := []

/-- `shutdown` and `forceCloseWithDelay`, whose `connectionDown` comes later. -/
def shutdown (s : SortedServer) (conn : Nat) : SortedServer :=
  { s with
    state := Function.update s.state conn .kDisconnecting
    shutdowns := s.shutdowns ++ [conn] }

/-- The loop of `onTimer` over what is left of the list: what stays of it, and the server. -/
def scan (now : Int) : List Nat → SortedServer → List Nat × SortedServer
  | [],s => ([],s)
  | conn :: rest,s =>
    if s.alive conn then
      let age := now - s.lastReceiveTime conn
      if age > s.idleSeconds*kMicroSecondsPerSecond then
        let s := if s.state conn = .kConnected then s.shutdown conn else s
        let (kept,s) := scan now rest s
        (conn :: kept,s)
      else if age < 0 then
        let (kept,s) := scan now rest { s with lastReceiveTime := Function.update s.lastReceiveTime conn now }
        (conn :: kept,s)
      else
        -- the rest is taken to be younger
        (conn :: rest,s)
    else scan now rest s

def onTimer (s : SortedServer) (now : Int) : SortedServer :=
  let (kept,s) := scan now s.connectionList { s with clock := now }
  { s with connectionList := kept }

def code (s : SortedServer) : ListEvent → Except ListFault SortedServer
  | .poll pollReturnTime => pure { s with pollReturnTime := pollReturnTime, clock := pollReturnTime }
  | .connectionUp conn now => pure { s with
      clock := now
      state := Function.update s.state conn .kConnected
      alive := Function.update s.alive conn true
      lastReceiveTime := Function.update s.lastReceiveTime conn now
      connectionList := s.connectionList ++ [conn] }
  | .connectionDown conn => do
    require (conn ∈ s.connectionList) .danglingPosition
    return { s with
      state := Function.update s.state conn .kDisconnected
      connectionList := s.connectionList.erase conn }
  | .onMessage conn => do
    require (conn ∈ s.connectionList) .danglingPosition
    return { s with
      lastReceiveTime := Function.update s.lastReceiveTime conn s.pollReturnTime
      connectionList := s.connectionList.erase conn ++ [conn] }
  | .onTimer now => pure (s.onTimer now)
  | .release conn => pure { s with alive := Function.update s.alive conn false }

/-- The clock does not go back. A connection comes up once, goes down once, and has its
messages in between. -/
def Enabled (s : SortedServer) : ListEvent → Prop
  | .poll pollReturnTime => s.clock ≤ pollReturnTime
  | .connectionUp conn now => s.state conn = .kConnecting ∧ s.clock ≤ now
  | .connectionDown conn | .onMessage conn =>
    s.alive conn = true ∧ (s.state conn = .kConnected ∨ s.state conn = .kDisconnecting)
  | .onTimer now => s.clock ≤ now
  | .release conn => s.alive conn = true

instance (s : SortedServer) : (a : ListEvent) → Decidable (s.Enabled a)
  | .poll _ | .onTimer _ => inferInstanceAs (Decidable (_ ≤ _))
  | .connectionUp _ _ => inferInstanceAs (Decidable (_ ∧ _ ≤ _))
  | .connectionDown _ | .onMessage _ => inferInstanceAs (Decidable (_ ∧ (_ ∨ _)))
  | .release _ => inferInstanceAs (Decidable (_ = _))

def machine : Machine SortedServer ListEvent ListFault := ⟨Enabled,code⟩

instance (s : SortedServer) (a : ListEvent) : Decidable (machine.Enabled s a) :=
  inferInstanceAs (Decidable (s.Enabled a))

variable {s t : SortedServer} {now : Int} {conn : Nat} {l : List Nat}

/-- Non-decreasing `lastReceiveTime` over the connections that still exist. -/
def Ordered (s : SortedServer) (l : List Nat) : Prop :=
  (l.filter (s.alive ·)).Pairwise (fun c d => s.lastReceiveTime c ≤ s.lastReceiveTime d)

instance (s : SortedServer) (l : List Nat) : Decidable (s.Ordered l) := inferInstanceAs (Decidable (List.Pairwise _ _))

/-- A live connected connection whose age exceeds the limit. -/
def Idle (s : SortedServer) (now : Int) (conn : Nat) : Prop :=
  s.alive conn = true ∧ s.state conn = .kConnected ∧
    now - s.lastReceiveTime conn > s.idleSeconds*kMicroSecondsPerSecond

instance (s : SortedServer) (now : Int) (conn : Nat) : Decidable (s.Idle now conn) :=
  inferInstanceAs (Decidable (_ ∧ _ ∧ _))

/-- `onTimer` shuts down every idle connection and no other. -/
def ShutsIdle (s : SortedServer) (now : Int) (t : SortedServer) : Prop :=
  ∃ shut, t.shutdowns = s.shutdowns ++ shut ∧ ∀ conn, conn ∈ shut ↔ s.Idle now conn

/-- The list is in order in every state of the run, and each `onTimer` shuts down what is idle. -/
def MissesNone (s : SortedServer) (events : List ListEvent) : Prop :=
  ∀ earlier later t, events = earlier ++ later → machine.exec s earlier = .ok t →
    t.Ordered t.connectionList ∧ ∀ now rest, later = .onTimer now :: rest → t.ShutsIdle now (t.onTimer now)

/-- No other connection of the list has been stamped later than this iteration's `poll`. -/
def MessageInOrder (s : SortedServer) : ListEvent → Prop
  | .onMessage conn => ∀ c ∈ s.connectionList, c ≠ conn → s.alive c = true → s.lastReceiveTime c ≤ s.pollReturnTime
  | _ => True

instance (s : SortedServer) : (a : ListEvent) → Decidable (s.MessageInOrder a)
  | .onMessage _ => inferInstanceAs (Decidable (∀ _ ∈ _, _))
  | .poll _ | .connectionUp _ _ | .connectionDown _ | .onTimer _ | .release _ => isTrue trivial

/-- A connection that is up has one element of the list, and no time stamp is in the future. -/
structure Listed (s : SortedServer) : Prop where
  nodup : s.connectionList.Nodup
  up : ∀ c ∈ s.connectionList, s.state c = .kConnected ∨ s.state c = .kDisconnecting
  listed : ∀ c, s.alive c = true → s.state c = .kConnected ∨ s.state c = .kDisconnecting → c ∈ s.connectionList
  past : ∀ c ∈ s.connectionList, s.alive c = true → s.lastReceiveTime c ≤ s.clock
  pollPast : s.pollReturnTime ≤ s.clock

private theorem new_listed (idleSeconds clock : Int) : (new idleSeconds clock).Listed :=
  ⟨List.nodup_nil,fun _ hc => (List.not_mem_nil hc).elim,fun _ hc => (Bool.false_ne_true hc).elim,
    fun _ hc => (List.not_mem_nil hc).elim,Int.le_refl clock⟩

private theorem new_ordered (idleSeconds clock : Int) : (new idleSeconds clock).Ordered [] := List.Pairwise.nil

/-- Both hold of a shorter list, and of servers that agree on it. -/
theorem Ordered.of_sublist {l' : List Nat} (h : s.Ordered l) (hsub : l'.Sublist l) : s.Ordered l' :=
  h.sublist (hsub.filter _)

private theorem ordered_cons : s.Ordered (conn :: l) ↔
    (s.alive conn = true → ∀ c ∈ l, s.alive c = true → s.lastReceiveTime conn ≤ s.lastReceiveTime c) ∧ s.Ordered l := by
  rw [Ordered,List.filter_cons]
  split
  · next hc =>
    rw [List.pairwise_cons]
    simp only [List.mem_filter,and_imp,hc,true_implies]
    rfl
  · next hc =>
    exact ⟨fun hl => ⟨fun halive => (hc halive).elim,hl⟩,And.right⟩

private theorem ordered_concat : s.Ordered (l ++ [conn]) ↔ s.Ordered l ∧
    (s.alive conn = true → ∀ c ∈ l, s.alive c = true → s.lastReceiveTime c ≤ s.lastReceiveTime conn) := by
  rw [Ordered,List.filter_append,List.pairwise_append]
  simp only [List.mem_filter,List.mem_singleton,and_imp]
  constructor
  · rintro ⟨hl,-,hlast⟩
    exact ⟨hl,fun hc c hmem halive => hlast c hmem halive conn rfl hc⟩
  · rintro ⟨hl,hlast⟩
    refine ⟨hl,(List.pairwise_singleton _ conn).filter _,?_⟩
    rintro c hmem halive _ rfl hc
    exact hlast hc c hmem halive

private theorem ordered_congr (ha : ∀ c ∈ l, t.alive c = s.alive c) (ht : ∀ c ∈ l, t.lastReceiveTime c = s.lastReceiveTime c) :
    t.Ordered l ↔ s.Ordered l := by
  rw [Ordered,Ordered,List.filter_congr ha]
  exact List.Pairwise.iff_of_mem fun {c d} hc hd => by
    rw [ht c (List.mem_of_mem_filter hc),ht d (List.mem_of_mem_filter hd)]

/-- The server after a scan that shut some connections down. -/
def shutAll (s : SortedServer) (shut : List Nat) : SortedServer :=
  { s with
    state := fun c => if c ∈ shut then .kDisconnecting else s.state c
    shutdowns := s.shutdowns ++ shut }

private theorem shutAll_nil : s.shutAll [] = s := by
  simp [shutAll]

private theorem shutAll_shutAll {first shut : List Nat} : (s.shutAll first).shutAll shut = s.shutAll (first ++ shut) := by
  simp only [shutAll,List.append_assoc,List.mem_append]
  congr 1
  funext c
  by_cases hc : c ∈ shut
  · rw [if_pos hc,if_pos (.inr hc)]
  · rw [if_neg hc]
    simp only [hc,or_false]

private theorem shutdown_eq_shutAll : s.shutdown conn = s.shutAll [conn] := by
  simp only [shutAll,shutdown,List.mem_singleton]
  congr 1
  funext c
  rw [Function.update_apply]

/-- What the loop leaves of the list and what it shuts down; on a list in order, every
idle connection. -/
theorem scan_eq (hn : l.Nodup) (hpast : ∀ c ∈ l, s.alive c = true → s.lastReceiveTime c ≤ now) :
    ∃ kept shut, scan now l s = (kept,s.shutAll shut) ∧ kept.Sublist l ∧
      (∀ c ∈ l, s.alive c = true → c ∈ kept) ∧ (∀ c ∈ shut, c ∈ l ∧ s.Idle now c) ∧
      (s.Ordered l → ∀ c ∈ l, s.Idle now c → c ∈ shut) := by
  induction l generalizing s with
  | nil => exact ⟨[],[],by rw [shutAll_nil]; rfl,.slnil,by simp,by simp,by simp⟩
  | cons conn rest ih =>
    obtain ⟨hnot,hnrest⟩ := List.nodup_cons.mp hn
    have hprest : ∀ c ∈ rest, s.alive c = true → s.lastReceiveTime c ≤ now :=
      fun c hc => hpast c (List.mem_cons_of_mem _ hc)
    rw [scan]
    by_cases halive : s.alive conn = true
    · rw [if_pos halive]
      have hage : ¬ now - s.lastReceiveTime conn < 0 := by
        have := hpast conn List.mem_cons_self halive
        omega
      by_cases hold : now - s.lastReceiveTime conn > s.idleSeconds*kMicroSecondsPerSecond
      · rw [if_pos hold]
        let first := if s.state conn = .kConnected then [conn] else []
        have hfirst : ∀ c, c ∈ first ↔ c = conn ∧ s.state conn = .kConnected := by
          intro c
          by_cases hstate : s.state conn = .kConnected
          · simp [first,hstate]
          · simp [first,hstate]
        have hnext : (if s.state conn = .kConnected then s.shutdown conn else s) = s.shutAll first := by
          by_cases hstate : s.state conn = .kConnected
          · simp only [first,if_pos hstate,shutdown_eq_shutAll]
          · simp only [first,if_neg hstate,shutAll_nil]
        -- shutting conn down leaves the rest of the list as it was
        have hidle : ∀ c ∈ rest, (s.shutAll first).Idle now c ↔ s.Idle now c := by
          intro c hc
          have hne : c ∉ first := fun hm => hnot (((hfirst c).mp hm).1 ▸ hc)
          simp only [Idle,shutAll,if_neg hne]
        obtain ⟨kept,shut,hscan,hsub,hlive,hshut,hall⟩ := ih (s := s.shutAll first) hnrest hprest
        refine ⟨conn :: kept,first ++ shut,?_,hsub.cons_cons conn,?_,?_,?_⟩
        · simp only [hnext,hscan,shutAll_shutAll]
        · intro c hc hca
          rcases List.mem_cons.mp hc with rfl | hc
          · exact List.mem_cons_self
          · exact List.mem_cons_of_mem _ (hlive c hc hca)
        · intro c hc
          rcases List.mem_append.mp hc with hc | hc
          · obtain ⟨rfl,hstate⟩ := (hfirst c).mp hc
            exact ⟨List.mem_cons_self,halive,hstate,hold⟩
          · obtain ⟨hmem,hi⟩ := hshut c hc
            exact ⟨List.mem_cons_of_mem _ hmem,(hidle c hmem).mp hi⟩
        · intro hord c hc hi
          rcases List.mem_cons.mp hc with rfl | hc
          · exact List.mem_append_left _ ((hfirst c).mpr ⟨rfl,hi.2.1⟩)
          · exact List.mem_append_right _ (hall (ordered_cons.mp hord).2 c hc ((hidle c hc).mpr hi))
      · rw [if_neg hold,if_neg hage]
        refine ⟨conn :: rest,[],by rw [shutAll_nil],List.Sublist.refl _,fun c hc _ => hc,by simp,?_⟩
        -- the rest is younger
        intro hord c hc hi
        have hle : s.lastReceiveTime conn ≤ s.lastReceiveTime c := by
          rcases List.mem_cons.mp hc with rfl | hc
          · exact Int.le_refl _
          · exact (ordered_cons.mp hord).1 halive c hc hi.1
        have := hi.2.2
        omega
    · rw [if_neg halive]
      obtain ⟨kept,shut,hscan,hsub,hlive,hshut,hall⟩ := ih hnrest hprest
      refine ⟨kept,shut,hscan,hsub.cons conn,?_,?_,?_⟩
      · intro c hc hca
        rcases List.mem_cons.mp hc with rfl | hc
        · exact (halive hca).elim
        · exact hlive c hc hca
      · exact fun c hc => ⟨List.mem_cons_of_mem _ (hshut c hc).1,(hshut c hc).2⟩
      · intro hord c hc hi
        rcases List.mem_cons.mp hc with rfl | hc
        · exact (halive hi.1).elim
        · exact hall (ordered_cons.mp hord).2 c hc hi

private theorem onTimer_eq (h : s.Listed) (hnow : s.clock ≤ now) :
    ∃ kept shut, s.onTimer now = { s.shutAll shut with connectionList := kept,clock := now } ∧
      kept.Sublist s.connectionList ∧ (∀ c ∈ s.connectionList, s.alive c = true → c ∈ kept) ∧
      (∀ c ∈ shut, s.Idle now c) ∧ (s.Ordered s.connectionList → ∀ c, s.Idle now c → c ∈ shut) := by
  obtain ⟨kept,shut,hscan,hsub,hlive,hshut,hall⟩ := scan_eq (s := { s with clock := now }) h.nodup
    (fun c hc halive => Int.le_trans (h.past c hc halive) hnow)
  refine ⟨kept,shut,?_,hsub,hlive,fun c hc => (hshut c hc).2,fun hord c hi => ?_⟩
  · rw [onTimer,hscan]
    rfl
  · exact hall hord c (h.listed c hi.1 (.inl hi.2.1)) hi

/-- On a list in order the timer shuts down what is idle. -/
theorem Listed.shutsIdle (h : s.Listed) (hord : s.Ordered s.connectionList) (hnow : s.clock ≤ now) :
    s.ShutsIdle now (s.onTimer now) := by
  obtain ⟨kept,shut,heq,-,-,hshut,hall⟩ := s.onTimer_eq h hnow
  rw [heq]
  exact ⟨shut,rfl,fun c => ⟨hshut c,hall hord c⟩⟩

/-- What one event does to the list: it keeps the order just when it is no message that comes
behind a later stamp. -/
def Keeps (s : SortedServer) (a : ListEvent) : Prop :=
  ∃ t, s.code a = .ok t ∧ t.Listed ∧ (s.Ordered s.connectionList → (t.Ordered t.connectionList ↔ s.MessageInOrder a))

private theorem Listed.connectionUp (h : s.Listed) (he : s.Enabled (.connectionUp conn now)) :
    s.Keeps (.connectionUp conn now) := by
  obtain ⟨hstate,hclock⟩ : s.state conn = .kConnecting ∧ s.clock ≤ now := he
  have hnot : conn ∉ s.connectionList := by
    intro hc
    rcases h.up conn hc with hup | hup
    · rw [hstate] at hup
      cases hup
    · rw [hstate] at hup
      cases hup
  have hne : ∀ c ∈ s.connectionList, c ≠ conn := fun c hc heq => hnot (heq ▸ hc)
  refine ⟨_,rfl,⟨?_,?_,?_,?_,Int.le_trans h.pollPast hclock⟩,fun hord => iff_of_true ?_ trivial⟩
  · exact List.concat_eq_append ▸ h.nodup.concat hnot
  · intro c hc
    rcases List.mem_append.mp hc with hc | hc
    · simp only [Function.update_of_ne (hne c hc)]
      exact h.up c hc
    · rw [List.mem_singleton.mp hc]
      exact .inl (Function.update_self ..)
  · intro c hca hup
    by_cases hc : c = conn
    · exact List.mem_append_right _ (List.mem_singleton.mpr hc)
    · simp only [Function.update_of_ne hc] at hca hup
      exact List.mem_append_left _ (h.listed c hca hup)
  · intro c hc hca
    rcases List.mem_append.mp hc with hc | hc
    · simp only [Function.update_of_ne (hne c hc)] at hca ⊢
      exact Int.le_trans (h.past c hc hca) hclock
    · simp only [List.mem_singleton.mp hc,Function.update_self,Int.le_refl]
  · refine ordered_concat.mpr ⟨?_,fun _ c hc hca => ?_⟩
    · refine (ordered_congr (s := s) (fun c hc => ?_) (fun c hc => ?_)).mpr hord
      · exact Function.update_of_ne (hne c hc) ..
      · exact Function.update_of_ne (hne c hc) ..
    · simp only [Function.update_of_ne (hne c hc),Function.update_self] at hca ⊢
      exact Int.le_trans (h.past c hc hca) hclock

private theorem Listed.connectionDown (h : s.Listed) (he : s.Enabled (.connectionDown conn)) :
    s.Keeps (.connectionDown conn) := by
  obtain ⟨halive,hup⟩ : s.alive conn = true ∧ (s.state conn = .kConnected ∨ s.state conn = .kDisconnecting) := he
  have hne : ∀ c ∈ s.connectionList.erase conn, c ≠ conn := fun c hc => (h.nodup.mem_erase_iff.mp hc).1
  have hcode : s.code (.connectionDown conn) = .ok { s with
      state := Function.update s.state conn .kDisconnected
      connectionList := s.connectionList.erase conn } := by
    rw [code,require_pos (h.listed conn halive hup)]
    rfl
  refine ⟨_,hcode,⟨h.nodup.erase conn,?_,?_,?_,h.pollPast⟩,fun hord => iff_of_true ?_ trivial⟩
  · intro c hc
    simp only [Function.update_of_ne (hne c hc)]
    exact h.up c (List.mem_of_mem_erase hc)
  · intro c hca hup
    have hc : c ≠ conn := by
      rintro rfl
      simp only [Function.update_self,reduceCtorEq,or_self] at hup
    simp only [Function.update_of_ne hc] at hup
    exact (List.mem_erase_of_ne hc).mpr (h.listed c hca hup)
  · exact fun c hc hca => h.past c (List.mem_of_mem_erase hc) hca
  · exact hord.of_sublist List.erase_sublist

private theorem Listed.onMessage (h : s.Listed) (he : s.Enabled (.onMessage conn)) :
    s.Keeps (.onMessage conn) := by
  obtain ⟨halive,hup⟩ : s.alive conn = true ∧ (s.state conn = .kConnected ∨ s.state conn = .kDisconnecting) := he
  have hmem := h.listed conn halive hup
  have hne : ∀ c ∈ s.connectionList.erase conn, c ≠ conn := fun c hc => (h.nodup.mem_erase_iff.mp hc).1
  have hcode : s.code (.onMessage conn) = .ok { s with
      lastReceiveTime := Function.update s.lastReceiveTime conn s.pollReturnTime
      connectionList := s.connectionList.erase conn ++ [conn] } := by
    rw [code,require_pos hmem]
    rfl
  have hback (c : Nat) : c ∈ s.connectionList.erase conn ++ [conn] ↔ c ∈ s.connectionList := by
    rw [List.mem_append,h.nodup.mem_erase_iff,List.mem_singleton]
    constructor
    · rintro (⟨-,hc⟩ | rfl)
      · exact hc
      · exact hmem
    · intro hc
      by_cases heq : c = conn
      · exact .inr heq
      · exact .inl ⟨heq,hc⟩
  refine ⟨_,hcode,⟨?_,?_,?_,?_,h.pollPast⟩,fun hord => ?_⟩
  · exact List.concat_eq_append ▸ (h.nodup.erase conn).concat (fun hc => hne conn hc rfl)
  · exact fun c hc => h.up c ((hback c).mp hc)
  · exact fun c hca hc => (hback c).mpr (h.listed c hca hc)
  · intro c hc hca
    by_cases heq : c = conn
    · simp only [heq,Function.update_self]
      exact h.pollPast
    · simp only [Function.update_of_ne heq]
      exact h.past c ((hback c).mp hc) hca
  · rw [ordered_concat]
    constructor
    · rintro ⟨-,hlast⟩ c hc hceq hca
      have hle := hlast halive c ((List.mem_erase_of_ne hceq).mpr hc) hca
      simp only [Function.update_of_ne hceq,Function.update_self] at hle
      exact hle
    · intro hmsg
      refine ⟨?_,fun _ c hc hca => ?_⟩
      · refine (ordered_congr (s := s) (fun _ _ => ?_) (fun c hc => ?_)).mpr (hord.of_sublist List.erase_sublist)
        · rfl
        · exact Function.update_of_ne (hne c hc) ..
      · simp only [Function.update_of_ne (hne c hc),Function.update_self]
        exact hmsg c (List.mem_of_mem_erase hc) (hne c hc) hca

private theorem Listed.onTimer (h : s.Listed) (he : s.Enabled (.onTimer now)) : s.Keeps (.onTimer now) := by
  obtain ⟨kept,shut,heq,hsub,hlive,hshut,-⟩ := s.onTimer_eq h he
  have hstate (c : Nat) : s.state c = .kConnected ∨ s.state c = .kDisconnecting ↔
      (s.shutAll shut).state c = .kConnected ∨ (s.shutAll shut).state c = .kDisconnecting := by
    by_cases hc : c ∈ shut
    · simp only [shutAll,if_pos hc,or_true,iff_true]
      exact .inl (hshut c hc).2.1
    · simp only [shutAll,if_neg hc]
  refine ⟨_,congrArg Except.ok heq,⟨h.nodup.sublist hsub,?_,?_,?_,Int.le_trans h.pollPast he⟩,fun hord => iff_of_true ?_ trivial⟩
  · exact fun c hc => (hstate c).mp (h.up c (hsub.subset hc))
  · exact fun c hca hc => hlive c (h.listed c hca ((hstate c).mpr hc)) hca
  · exact fun c hc hca => Int.le_trans (h.past c (hsub.subset hc) hca) he
  · exact hord.of_sublist hsub

private theorem Listed.release (h : s.Listed) : s.Keeps (.release conn) := by
  have hlive : ∀ c, Function.update s.alive conn false c = true → s.alive c = true := by
    intro c hca
    by_cases hc : c = conn
    · rw [hc,Function.update_self] at hca
      cases hca
    · rwa [Function.update_of_ne hc] at hca
  refine ⟨_,rfl,⟨h.nodup,h.up,?_,?_,h.pollPast⟩,fun hord => iff_of_true ?_ trivial⟩
  · exact fun c hca hup => h.listed c (hlive c hca) hup
  · exact fun c hc hca => h.past c hc (hlive c hca)
  · rw [Ordered,List.pairwise_filter] at hord ⊢
    exact hord.imp (fun hcd hc hd => hcd (hlive _ hc) (hlive _ hd))

/-- Every event keeps the list of the open connections, or closes one. -/
theorem Listed.step {a : ListEvent} (h : s.Listed) (he : s.Enabled a) : s.Keeps a := by
  cases a with
  | poll pollReturnTime =>
    have hclock : s.clock ≤ pollReturnTime := he
    refine ⟨_,rfl,⟨h.nodup,h.up,h.listed,fun c hc hca => ?_,Int.le_refl _⟩,fun hord => iff_of_true hord trivial⟩
    exact Int.le_trans (h.past c hc hca) hclock
  | connectionUp conn now => exact h.connectionUp he
  | connectionDown conn => exact h.connectionDown he
  | onMessage conn => exact h.onMessage he
  | onTimer now => exact h.onTimer he
  | release conn => exact h.release

private theorem exec_listed {idleSeconds clock : Int} {events : List ListEvent}
    (ha : machine.Admissible (new idleSeconds clock) events) :
    ∃ s, machine.exec (new idleSeconds clock) events = .ok s ∧ s.Listed := by
  refine machine.exec_total (new_listed idleSeconds clock) (fun s a h he => ?_) ha
  obtain ⟨t,ht,hl,-⟩ := h.step he
  exact ⟨t,ht,hl⟩

private theorem exec_ordered {idleSeconds clock : Int} {events : List ListEvent}
    (ha : (machine.guard MessageInOrder).Admissible (new idleSeconds clock) events)
    (hs : machine.exec (new idleSeconds clock) events = .ok s) : s.Listed ∧ s.Ordered s.connectionList := by
  refine (machine.guard MessageInOrder).exec_ok_invariant (I := fun s => s.Listed ∧ s.Ordered s.connectionList)
    (fun s t a h he ht => ?_) ⟨new_listed idleSeconds clock,new_ordered idleSeconds clock⟩ ha
    (by rw [machine.exec_guard]; exact hs)
  obtain ⟨u,hu,hl,hiff⟩ := h.1.step he.1
  change s.code a = .ok t at ht
  rw [hu] at ht
  cases ht
  exact ⟨hl,(hiff h.2).mpr he.2⟩

/-- A run that misses nothing has missed nothing before. -/
theorem MissesNone.front {events : List ListEvent} {a : ListEvent} (h : s.MissesNone (events ++ [a])) :
    s.MissesNone events := by
  rintro earlier later t rfl ht
  obtain ⟨hord,htimer⟩ := h earlier (later ++ [a]) t (List.append_assoc ..) ht
  refine ⟨hord,?_⟩
  rintro now rest rfl
  exact htimer now (rest ++ [a]) rfl

/-- For every run: the list is in order in every state, and each `onTimer` shuts down every
idle connection and no other, just when no message finds another connection of the list
stamped later than the `poll` that reported the message. -/
theorem misses_none_iff (idleSeconds clock : Int) (events : List ListEvent)
    (ha : machine.Admissible (new idleSeconds clock) events) :
    (new idleSeconds clock).MissesNone events ↔
      (machine.guard MessageInOrder).Admissible (new idleSeconds clock) events := by
  constructor
  · intro h
    induction events using List.reverseRecOn with
    | nil => trivial
    | append_singleton events a ih =>
      obtain ⟨s,hs,hl⟩ := exec_listed (machine.admissible_front ha)
      have hen := (machine.admissible_append ha hs).2.1
      obtain ⟨t,ht,-,hiff⟩ := hl.step hen
      have hexec := machine.exec_concat hs (show machine.step s a = .ok t from ht)
      have hord := (h events [a] s rfl hs).1
      have hord' := (h (events ++ [a]) [] t (List.append_nil _).symm hexec).1
      refine (machine.guard MessageInOrder).admissible_of_append (ih (machine.admissible_front ha) h.front)
        (by rw [machine.exec_guard]; exact hs) ⟨⟨hen,(hiff hord).mp hord'⟩,?_⟩
      change Meets _ _ (s.code a)
      rw [ht]
      trivial
  · rintro h earlier later t rfl ht
    obtain ⟨hl,hord⟩ := exec_ordered ((machine.guard MessageInOrder).admissible_front h) ht
    refine ⟨hord,?_⟩
    rintro now rest rfl
    exact hl.shutsIdle hord (machine.admissible_append ha ht).2.1

private def messageFirst : List ListEvent :=
  [.connectionUp 1 1000000,.poll 50000000,.onMessage 1,.connectionUp 2 50000020,.poll 60000010,.onTimer 60000010,
    .connectionDown 1,.release 1,.poll 60000030,.onTimer 60000030]

/-- The old connection sends its message before the new one comes up. -/
theorem misses_none_message_first : (new 10 0).MissesNone messageFirst :=
  (misses_none_iff 10 0 messageFirst (by decide +kernel)).mpr (by decide +kernel)

private def newcomerFirst : List ListEvent :=
  [.connectionUp 1 1000000,.poll 50000000,.connectionUp 2 50000020,.onMessage 1,.poll 60000010]

/-- Connection 2 is taken in before the message of connection 1 that the same `poll` reported.
Both fall silent, and ten seconds later the timer stops at connection 2. -/
theorem newcomer_hides_idle_connection : machine.Admissible (new 10 0) (newcomerFirst ++ [.onTimer 60000010]) ∧
    ¬ (new 10 0).MissesNone (newcomerFirst ++ [.onTimer 60000010]) ∧
    ∃ s, machine.exec (new 10 0) newcomerFirst = .ok s ∧ ¬ s.Ordered s.connectionList ∧
      s.Idle 60000010 1 ∧ 1 ∉ (s.onTimer 60000010).shutdowns := by
  have hrun : Meets (fun s => ¬ s.Ordered s.connectionList ∧ s.Idle 60000010 1 ∧ 1 ∉ (s.onTimer 60000010).shutdowns)
      (fun _ => False) (machine.exec (new 10 0) newcomerFirst) := by decide +kernel
  obtain ⟨s,hs,hord,hidle,hshut⟩ := hrun.ok_of_no_error (fun _ => id)
  refine ⟨by decide +kernel,fun h => ?_,s,hs,hord,hidle,hshut⟩
  exact hord (h newcomerFirst [.onTimer 60000010] s rfl hs).1

end SortedServer
end LearningMuduo.IdleConnection
