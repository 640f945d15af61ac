import LearningMuduo.Timers.TimerQueue

/-! The two ordered sets of a timer queue and the heap agree, and every timer has one
owner, at every point of every run. -/
namespace LearningMuduo.Timers
open Library

namespace TimerQueue
variable {q : TimerQueue} {p : TimerPtr} {t : Timer} {rest : List TimerPtr}

/-- The pointers in `timers_`. -/
def pointers (q : TimerQueue) : List TimerPtr := q.timers.elems.map Prod.snd

/-- The heap, the two sets and the record of deletions replaced. -/
def stored (q : TimerQueue) (heap : Nat → Option (Nat × Timer)) (timers : OrderedSet entryKey)
    (active : OrderedSet activeKey) (deleted : List Nat) : TimerQueue :=
  { q with heap := heap, timers := timers, activeTimers := active, deleted := deleted }

/-- What holds of the heap alone; deleted blocks are those no live timer has. -/
structure HeapSound (q : TimerQueue) : Prop where
  bounded : ∀ p t, q.get p = some t → p.addr < uintptrMax
  intervals : ∀ p t, q.get p = some t → t.repeat_ = true → 0 ≤ t.interval
  block_lt : ∀ p t, q.get p = some t → p.block < q.allocated
  block_inj : ∀ p p' t t', q.get p = some t → q.get p' = some t' → p.block = p'.block → p = p'
  deleted_once : q.deleted.Nodup
  deleted_iff : ∀ b, b ∈ q.deleted ↔ b < q.allocated ∧ ∀ p t, q.get p = some t → p.block ≠ b

/-- Every live timer is in the sets or in `rest`, once. -/
structure Consistent (q : TimerQueue) (rest : List TimerPtr) : Prop where
  sound : q.HeapSound
  live : ∀ p, (∃ t, q.get p = some t) ↔ p ∈ q.pointers ++ rest
  nodup : (q.pointers ++ rest).Nodup
  entry : ∀ e ∈ q.timers, ∃ t, q.get e.2 = some t ∧ t.expiration = e.1
  active : ∀ a ∈ q.activeTimers, ∃ t, q.get a.1 = some t ∧ toInt t.sequence = a.2
  same : q.pointers.Perm (q.activeTimers.elems.map Prod.fst)

/-- A pointer finds the timer of its own block. -/
theorem get_eq_some : q.get p = some t ↔ q.heap p.addr = some (p.block,t) := by
  unfold get
  cases h : q.heap p.addr with
  | none => simp
  | some x =>
    obtain ⟨block,u⟩ := x
    by_cases hb : block = p.block
    · simp [hb]
    · simp [hb]

/-- Two pointers that find a timer at one address are one. -/
theorem get_unique {p' : TimerPtr} {t' : Timer} (h : q.get p = some t) (h' : q.get p' = some t')
    (ha : p.addr = p'.addr) : p = p' := by
  rw [get_eq_some] at h h'
  rw [ha,h'] at h
  cases p
  cases p'
  cases h
  cases ha
  rfl

/-- A pointer to a live timer can be dereferenced. -/
theorem deref_ok (h : q.get p = some t) (site : DerefSite) : q.deref p site = .ok t := by
  rw [deref,h]
  rfl

private theorem delete_ok (h : q.get p = some t) : q.delete p = .ok { q with
    heap := Function.update q.heap p.addr none, deleted := q.deleted ++ [p.block] } := by
  rw [delete,h]
  rfl

/-- The soundness of the heap does not depend on the sets. -/
theorem HeapSound.of_eq {r : TimerQueue} (h : q.HeapSound) (hh : r.heap = q.heap)
    (ha : r.allocated = q.allocated) (hd : r.deleted = q.deleted) : r.HeapSound := by
  have hg : r.get = q.get := by
    funext p
    unfold get
    rw [hh]
  refine ⟨?_,?_,?_,?_,?_,?_⟩
  · rw [hg]; exact h.bounded
  · rw [hg]; exact h.intervals
  · rw [hg,ha]; exact h.block_lt
  · rw [hg]; exact h.block_inj
  · rw [hd]; exact h.deleted_once
  · rw [hg,ha,hd]; exact h.deleted_iff

/-- Fields outside the heap and the sets are free. -/
theorem Consistent.of_eq {r : TimerQueue} (h : q.Consistent rest) (hh : r.heap = q.heap)
    (ht : r.timers = q.timers) (hact : r.activeTimers = q.activeTimers)
    (ha : r.allocated = q.allocated) (hd : r.deleted = q.deleted) : r.Consistent rest := by
  have hg : r.get = q.get := by
    funext p
    unfold get
    rw [hh]
  refine ⟨h.sound.of_eq hh ha hd,?_,?_,?_,?_,?_⟩
  · rw [hg,pointers,ht]; exact h.live
  · rw [pointers,ht]; exact h.nodup
  · rw [hg,ht]; exact h.entry
  · rw [hg,hact]; exact h.active
  · rw [pointers,ht,hact]; exact h.same

/-- The order of the batch does not matter. -/
theorem Consistent.perm {rest' : List TimerPtr} (h : q.Consistent rest) (hp : rest.Perm rest') :
    q.Consistent rest' := by
  have hall := hp.append_left q.pointers
  refine ⟨h.sound,?_,hall.nodup_iff.mp h.nodup,h.entry,h.active,h.same⟩
  intro p
  rw [h.live,hall.mem_iff]

private theorem Consistent.sizes (h : q.Consistent rest) : q.timers.size = q.activeTimers.size := by
  have hl := h.same.length_eq
  rw [pointers,List.length_map,List.length_map] at hl
  exact hl

/-- A timer of the batch is alive. -/
theorem Consistent.live_rest (h : q.Consistent rest) (hp : p ∈ rest) : ∃ t, q.get p = some t :=
  (h.live p).mpr (List.mem_append_right _ hp)

/-- `timers_` holds the registered timers, each under its expiration. -/
theorem Consistent.timers_iff (h : q.Consistent rest) (x : Int) (p : TimerPtr) :
    ((x,p) : Entry) ∈ q.timers ↔ p ∈ q.pointers ∧ ∃ t, q.get p = some t ∧ t.expiration = x := by
  constructor
  · exact fun he => ⟨List.mem_map_of_mem (f := Prod.snd) he,h.entry _ he⟩
  · rintro ⟨hp,t,ht,rfl⟩
    obtain ⟨e,he,rfl⟩ := List.mem_map.mp hp
    obtain ⟨t',ht',hexp⟩ := h.entry e he
    rw [ht] at ht'
    cases ht'
    rw [hexp]
    exact he

/-- `activeTimers_` holds the same timers, each with its sequence number. -/
theorem Consistent.active_iff (h : q.Consistent rest) (p : TimerPtr) (n : Int) :
    ((p,n) : ActiveTimer) ∈ q.activeTimers ↔
      p ∈ q.pointers ∧ ∃ t, q.get p = some t ∧ toInt t.sequence = n := by
  constructor
  · exact fun ha => ⟨h.same.mem_iff.mpr (List.mem_map_of_mem (f := Prod.fst) ha),h.active _ ha⟩
  · rintro ⟨hp,t,ht,rfl⟩
    obtain ⟨a,ha,rfl⟩ := List.mem_map.mp (h.same.mem_iff.mp hp)
    obtain ⟨t',ht',hseq⟩ := h.active a ha
    rw [ht] at ht'
    cases ht'
    rw [hseq]
    exact ha

/-- A live timer is registered unless `rest` holds it. -/
theorem Consistent.pointers_iff (h : q.Consistent rest) (ht : q.get p = some t) :
    p ∈ q.pointers ↔ p ∉ rest := by
  constructor
  · exact fun hp hrest => List.disjoint_of_nodup_append h.nodup hp hrest
  · intro hrest
    rcases List.mem_append.mp ((h.live p).mp ⟨t,ht⟩) with hp | hp
    · exact hp
    · exact (hrest hp).elim

private theorem Consistent.addr_ne (h : q.Consistent rest) (hp : p ∈ rest) {p' : TimerPtr}
    (hp' : p' ∈ q.pointers) : p'.addr ≠ p.addr := by
  intro ha
  obtain ⟨t,ht⟩ := h.live_rest hp
  obtain ⟨t',ht'⟩ := (h.live p').mpr (List.mem_append_left _ hp')
  have heq := get_unique ht' ht ha
  exact (List.disjoint_of_nodup_append h.nodup) (heq ▸ hp') hp

/-- The flag `insert` returns. -/
def earliest (q : TimerQueue) (expiration : Int) : Bool :=
  match q.timers.begin with
  | none => true
  | some e => decide (expiration < e.1)

private theorem insert_spec (h : q.Consistent (p :: rest)) (ht : q.get p = some t) :
    ∃ timers active, q.insert p =
        .ok (q.stored q.heap timers active q.deleted,q.earliest t.expiration) ∧
      (q.stored q.heap timers active q.deleted).Consistent rest ∧
      timers.elems.Perm ((t.expiration,p) :: q.timers.elems) := by
  have hfresh : ∀ e ∈ q.timers, entryKey e ≠ entryKey (t.expiration,p) := by
    intro e he hk
    have hk' := congrArg (fun x => (ofLex x).2) hk
    exact h.addr_ne List.mem_cons_self (List.mem_map_of_mem he) hk'
  have hfresh' : ∀ a ∈ q.activeTimers, activeKey a ≠ activeKey (p,toInt t.sequence) := by
    intro a ha hk
    have hk' := congrArg (fun x => (ofLex x).1) hk
    exact h.addr_ne List.mem_cons_self (h.same.mem_iff.mpr (List.mem_map_of_mem ha)) hk'
  obtain ⟨hi,hperm⟩ := OrderedSet.insert_fresh hfresh
  obtain ⟨hi',hperm'⟩ := OrderedSet.insert_fresh hfresh'
  have hptr := hperm.map Prod.snd
  have hact := hperm'.map Prod.fst
  have hnew : (q.stored q.heap (q.timers.insert (t.expiration,p)).1
      (q.activeTimers.insert (p,toInt t.sequence)).1 q.deleted).Consistent rest := by
    have hmove : (((q.timers.insert (t.expiration,p)).1.elems.map Prod.snd) ++ rest).Perm
        (q.pointers ++ p :: rest) :=
      (hptr.append_right rest).trans (List.perm_middle.symm)
    refine ⟨h.sound.of_eq rfl rfl rfl,?_,hmove.nodup_iff.mpr h.nodup,?_,?_,?_⟩
    · intro p'
      exact (h.live p').trans hmove.mem_iff.symm
    · intro e he
      rcases List.mem_cons.mp (hperm.mem_iff.mp he) with rfl | he
      · exact ⟨t,ht,rfl⟩
      · exact h.entry e he
    · intro a ha
      rcases List.mem_cons.mp (hperm'.mem_iff.mp ha) with rfl | ha
      · exact ⟨t,ht,rfl⟩
      · exact h.active a ha
    · exact hptr.trans ((h.same.cons p).trans hact.symm)
  refine ⟨_,_,?_,hnew,hperm⟩
  have hs' : (q.timers.insert (t.expiration,p)).1.size =
      (q.activeTimers.insert (p,toInt t.sequence)).1.size := hnew.sizes
  rw [insert,require_pos h.sizes,deref_ok ht]
  simp only [bind_ok]
  rw [require_pos hi,require_pos hi',require_pos hs']
  rfl

private theorem get_stored (heap : Nat → Option (Nat × Timer)) (timers : OrderedSet entryKey)
    (active : OrderedSet activeKey) (deleted : List Nat) :
    (q.stored heap timers active deleted).get p = some t ↔ heap p.addr = some (p.block,t) :=
  get_eq_some

private theorem HeapSound.of_live {r : TimerQueue} (h : q.HeapSound)
    (hlive : ∀ p t, r.get p = some t → ∃ t', q.get p = some t')
    (hi : ∀ p t, r.get p = some t → t.repeat_ = true → 0 ≤ t.interval)
    (ha : r.allocated = q.allocated) (hd : r.deleted.Nodup)
    (hiff : ∀ b, b ∈ r.deleted ↔ b < r.allocated ∧ ∀ p t, r.get p = some t → p.block ≠ b) :
    r.HeapSound := by
  refine ⟨?_,hi,?_,?_,hd,hiff⟩
  · intro p t ht
    obtain ⟨t',ht'⟩ := hlive p t ht
    exact h.bounded p t' ht'
  · intro p t ht
    obtain ⟨t',ht'⟩ := hlive p t ht
    rw [ha]
    exact h.block_lt p t' ht'
  · intro p₁ p₂ t₁ t₂ h₁ h₂
    obtain ⟨u₁,g₁⟩ := hlive p₁ t₁ h₁
    obtain ⟨u₂,g₂⟩ := hlive p₂ t₂ h₂
    exact h.block_inj p₁ p₂ u₁ u₂ g₁ g₂

private theorem Consistent.of_heap {r : TimerQueue} {rest' : List TimerPtr} (h : q.Consistent rest)
    (hs : r.HeapSound) (ht : r.timers = q.timers) (hact : r.activeTimers = q.activeTimers)
    (hlive : ∀ p, (∃ t, r.get p = some t) ↔ p ∈ q.pointers ++ rest')
    (hn : (q.pointers ++ rest').Nodup)
    (hkeep : ∀ p ∈ q.pointers, ∀ t, q.get p = some t → r.get p = some t) : r.Consistent rest' := by
  have hp : r.pointers = q.pointers := congrArg (fun x => x.elems.map Prod.snd) ht
  refine ⟨hs,by rw [hp]; exact hlive,by rw [hp]; exact hn,?_,?_,by rw [hp,hact]; exact h.same⟩
  · intro e he
    rw [ht] at he
    obtain ⟨t,hg,hexp⟩ := h.entry e he
    exact ⟨t,hkeep e.2 (List.mem_map_of_mem he) t hg,hexp⟩
  · intro a ha
    rw [hact] at ha
    obtain ⟨t,hg,hseq⟩ := h.active a ha
    exact ⟨t,hkeep a.1 (h.same.mem_iff.mpr (List.mem_map_of_mem ha)) t hg,hseq⟩

/-- The queue after `delete p`. -/
def erased (q : TimerQueue) (p : TimerPtr) : TimerQueue :=
  q.stored (Function.update q.heap p.addr none) q.timers q.activeTimers (q.deleted ++ [p.block])

/-- A deletion frees the one timer. -/
theorem get_erased (ht : q.get p = some t) (p' : TimerPtr) (t' : Timer) :
    (q.erased p).get p' = some t' ↔ p' ≠ p ∧ q.get p' = some t' := by
  rw [erased,get_stored,Function.update_apply]
  constructor
  · intro hh
    split at hh
    · cases hh
    · rename_i ha
      exact ⟨fun heq => ha (congrArg TimerPtr.addr heq),get_eq_some.mpr hh⟩
  · rintro ⟨hne,hh⟩
    rw [if_neg (fun ha => hne (get_unique hh ht ha))]
    exact get_eq_some.mp hh

private theorem HeapSound.erased (h : q.HeapSound) (ht : q.get p = some t) : (q.erased p).HeapSound := by
  refine h.of_live ?_ ?_ rfl ?_ ?_
  · exact fun p' t' h' => ⟨t',((get_erased ht p' t').mp h').2⟩
  · exact fun p' t' h' => h.intervals p' t' ((get_erased ht p' t').mp h').2
  · have hno : p.block ∉ q.deleted := fun hm => ((h.deleted_iff _).mp hm).2 p t ht rfl
    refine List.nodup_append.mpr ⟨h.deleted_once,List.nodup_singleton _,?_⟩
    rintro a ha b hb rfl
    rw [List.mem_singleton.mp hb] at ha
    exact hno ha
  · intro b
    change b ∈ q.deleted ++ [p.block] ↔ b < q.allocated ∧ _
    rw [List.mem_append,List.mem_singleton,h.deleted_iff]
    constructor
    · rintro (⟨hb,hlive⟩ | rfl)
      · exact ⟨hb,fun p' t' h' => hlive p' t' ((get_erased ht p' t').mp h').2⟩
      · refine ⟨h.block_lt p t ht,fun p' t' h' hbl => ?_⟩
        obtain ⟨hne,h''⟩ := (get_erased ht p' t').mp h'
        exact hne (h.block_inj p' p t' t h'' ht hbl)
    · rintro ⟨hb,hlive⟩
      by_cases hbp : b = p.block
      · exact .inr hbp
      · refine .inl ⟨hb,fun p' t' h' hbl => ?_⟩
        refine hlive p' t' ((get_erased ht p' t').mpr ⟨?_,h'⟩) hbl
        rintro rfl
        exact hbp hbl.symm

/-- Deletion of a timer that only `rest` holds. -/
theorem delete_spec (h : q.Consistent (p :: rest)) :
    q.delete p = .ok (q.stored (Function.update q.heap p.addr none) q.timers q.activeTimers
        (q.deleted ++ [p.block])) ∧
      (q.stored (Function.update q.heap p.addr none) q.timers q.activeTimers
        (q.deleted ++ [p.block])).Consistent rest := by
  obtain ⟨t,ht⟩ := h.live_rest List.mem_cons_self
  obtain ⟨hp,hnodup⟩ := List.nodup_cons.mp (List.perm_middle.nodup_iff.mp h.nodup)
  refine ⟨delete_ok ht,h.of_heap (r := q.erased p) (h.sound.erased ht) rfl rfl ?_ hnodup ?_⟩
  · intro p'
    constructor
    · rintro ⟨t',h'⟩
      obtain ⟨hne,h''⟩ := (get_erased ht p' t').mp h'
      have hm := (h.live p').mp ⟨t',h''⟩
      rcases List.mem_cons.mp (List.perm_middle.mem_iff.mp hm) with heq | hm
      · exact (hne heq).elim
      · exact hm
    · intro hm
      obtain ⟨t',h'⟩ := (h.live p').mpr (List.perm_middle.mem_iff.mpr (List.mem_cons_of_mem p hm))
      exact ⟨t',(get_erased ht p' t').mpr ⟨fun heq => hp (heq ▸ hm),h'⟩⟩
  · intro p' hin t' h'
    exact (get_erased ht p' t').mpr ⟨fun heq => hp (heq ▸ List.mem_append_left _ hin),h'⟩

/-- Taking an active timer out of both sets leaves it in `rest`. -/
theorem unregister_spec (h : q.Consistent rest) {a : ActiveTimer} (ha : a ∈ q.activeTimers)
    (ht : q.get a.1 = some t) :
    (q.timers.erase (entryKey (t.expiration,a.1))).2 = 1 ∧
      (q.activeTimers.erase (activeKey a)).2 = 1 ∧
      (q.stored q.heap (q.timers.erase (entryKey (t.expiration,a.1))).1
        (q.activeTimers.erase (activeKey a)).1 q.deleted).Consistent (a.1 :: rest) ∧
      q.timers.elems.Perm ((t.expiration,a.1) ::
        (q.timers.erase (entryKey (t.expiration,a.1))).1.elems) := by
  have hmem : ((t.expiration,a.1) : Entry) ∈ q.timers := by
    obtain ⟨e,he,heq⟩ := List.mem_map.mp (h.same.mem_iff.mpr (List.mem_map_of_mem (f := Prod.fst) ha))
    obtain ⟨t',ht',hexp⟩ := h.entry e he
    rw [heq,ht] at ht'
    cases ht'
    obtain ⟨x,p⟩ := e
    cases heq
    cases hexp
    exact he
  obtain ⟨hn,hperm⟩ := OrderedSet.erase_mem hmem
  obtain ⟨hn',hperm'⟩ := OrderedSet.erase_mem ha
  have hptr : q.pointers.Perm (a.1 :: _) := hperm.map Prod.snd
  have hact := hperm'.map Prod.fst
  have hmove := (hptr.append_right rest).trans List.perm_middle.symm
  refine ⟨hn,hn',⟨h.sound.of_eq rfl rfl rfl,?_,hmove.nodup_iff.mp h.nodup,?_,?_,?_⟩,hperm⟩
  · intro p'
    exact (h.live p').trans hmove.mem_iff
  · intro e he
    exact h.entry e (hperm.mem_iff.mpr (List.mem_cons_of_mem _ he))
  · intro b hb
    exact h.active b (hperm'.mem_iff.mpr (List.mem_cons_of_mem _ hb))
  · exact (List.perm_cons a.1).mp (hptr.symm.trans (h.same.trans hact))

/-- A new timer is found, and the others as before. -/
theorem get_newTimer {addr : Nat} (hfree : q.heap addr = none) (p : TimerPtr) (u : Timer) :
    (q.newTimer addr t).get p = some u ↔ p = q.nextTimer addr ∧ u = t ∨ q.get p = some u := by
  rw [get_eq_some,get_eq_some]
  change Function.update q.heap addr (some (q.allocated,t)) p.addr = _ ↔ _
  rw [Function.update_apply]
  constructor
  · intro hh
    split at hh
    · rename_i ha
      obtain ⟨hb,ht⟩ := Prod.mk.inj (Option.some.inj hh)
      refine .inl ⟨?_,ht.symm⟩
      rw [nextTimer,hb,← ha]
    · exact .inr hh
  · rintro (⟨rfl,rfl⟩ | hh)
    · exact if_pos rfl
    · rw [if_neg (fun ha => by rw [ha,hfree] at hh; cases hh)]
      exact hh

private theorem HeapSound.newTimer (h : q.HeapSound) {addr : Nat} (hfree : q.heap addr = none)
    (hmax : addr < uintptrMax) (hi : t.repeat_ = true → 0 ≤ t.interval) :
    (q.newTimer addr t).HeapSound := by
  refine ⟨?_,?_,?_,?_,h.deleted_once,?_⟩
  · intro p u hu
    rcases (get_newTimer hfree p u).mp hu with ⟨rfl,_⟩ | hu
    · exact hmax
    · exact h.bounded p u hu
  · intro p u hu
    rcases (get_newTimer hfree p u).mp hu with ⟨_,rfl⟩ | hu
    · exact hi
    · exact h.intervals p u hu
  · intro p u hu
    rcases (get_newTimer hfree p u).mp hu with ⟨rfl,_⟩ | hu
    · exact Nat.lt_succ_self _
    · exact (h.block_lt p u hu).trans (Nat.lt_succ_self _)
  · intro p p' u u' hu hu' hb
    rcases (get_newTimer hfree p u).mp hu with ⟨rfl,_⟩ | hu
    · rcases (get_newTimer hfree p' u').mp hu' with ⟨rfl,_⟩ | hu'
      · rfl
      · exact ((h.block_lt p' u' hu').ne hb.symm).elim
    · rcases (get_newTimer hfree p' u').mp hu' with ⟨rfl,_⟩ | hu'
      · exact ((h.block_lt p u hu).ne hb).elim
      · exact h.block_inj p p' u u' hu hu' hb
  · intro b
    refine (h.deleted_iff b).trans ⟨?_,?_⟩
    · rintro ⟨hb,hlive⟩
      refine ⟨hb.trans (Nat.lt_succ_self _),fun p u hu => ?_⟩
      rcases (get_newTimer hfree p u).mp hu with ⟨rfl,_⟩ | hu
      · exact hb.ne'
      · exact hlive p u hu
    · rintro ⟨hb,hlive⟩
      have hne : b ≠ q.allocated :=
        fun hb' => hlive _ t ((get_newTimer hfree _ _).mpr (.inl ⟨rfl,rfl⟩)) hb'.symm
      exact ⟨lt_of_le_of_ne (Nat.lt_succ_iff.mp hb) hne,
        fun p u hu => hlive p u ((get_newTimer hfree p u).mpr (.inr hu))⟩

/-- A new timer is outside the sets. -/
theorem newTimer_spec (h : q.Consistent rest) {addr : Nat} (hfree : q.heap addr = none)
    (hmax : addr < uintptrMax) (hi : t.repeat_ = true → 0 ≤ t.interval) :
    (q.newTimer addr t).get (q.nextTimer addr) = some t ∧
      (q.newTimer addr t).Consistent (q.nextTimer addr :: rest) := by
  have hnew : q.nextTimer addr ∉ q.pointers ++ rest := by
    intro hm
    obtain ⟨u,hu⟩ := (h.live _).mpr hm
    exact Nat.lt_irrefl _ (h.sound.block_lt _ u hu)
  refine ⟨(get_newTimer hfree _ _).mpr (.inl ⟨rfl,rfl⟩),
    h.of_heap (h.sound.newTimer hfree hmax hi) rfl rfl ?_ ?_ ?_⟩
  · intro p
    rw [List.perm_middle.mem_iff,List.mem_cons,← h.live]
    constructor
    · rintro ⟨u,hu⟩
      rcases (get_newTimer hfree p u).mp hu with ⟨hp,_⟩ | hu
      · exact .inl hp
      · exact .inr ⟨u,hu⟩
    · rintro (hp | ⟨u,hu⟩)
      · exact ⟨t,(get_newTimer hfree p t).mpr (.inl ⟨hp,rfl⟩)⟩
      · exact ⟨u,(get_newTimer hfree p u).mpr (.inr hu)⟩
  · exact List.perm_middle.nodup_iff.mpr (List.nodup_cons.mpr ⟨hnew,h.nodup⟩)
  · exact fun p _ u hu => (get_newTimer hfree p u).mpr (.inr hu)

/-- The timerfd runs until the time given, but for a tenth of a millisecond at least. -/
def armedFor (q : TimerQueue) (expiration : Int) : TimerQueue :=
  { q with timerfd := .armed (max expiration (q.clock+100)) q.clock }

/-- The clamp of `howMuchTimeFromNow` keeps `timerfd_settime` from failing and from disarming. -/
theorem resetTimerfd_eq (q : TimerQueue) (expiration : Int) : q.resetTimerfd expiration = .ok (q.armedFor expiration) := by
  have hsettime : Timerfd.settime q.clock (howMuchTimeFromNow expiration q.clock) =
      some (.armed (max expiration (q.clock+100)) q.clock) := by
    let us := max (expiration-q.clock) 100
    have hus : 100 ≤ us := le_max_right _ _
    have hvalue : howMuchTimeFromNow expiration q.clock = ⟨us/1000000,us%1000000*1000⟩ := by
      unfold howMuchTimeFromNow
      have hclamp : (if expiration-q.clock < 100 then 100 else expiration-q.clock) = us := by
        split <;> omega
      simp only [hclamp]
      rw [Int.tdiv_eq_ediv_of_nonneg (by omega),Int.tmod_eq_emod_of_nonneg (by omega)]
      rfl
    have hwait : q.clock+(⟨us/1000000,us%1000000*1000⟩ : Timespec).microseconds = max expiration (q.clock+100) := by
      unfold Timespec.microseconds kMicroSecondsPerSecond
      dsimp only
      omega
    rw [hvalue,Timerfd.settime,if_neg (by dsimp only; omega),if_neg (by dsimp only; omega),hwait]
  rw [resetTimerfd,hsettime]
  rfl

/-- `addTimerInLoop` puts its timer in both sets, and arms for it if it is the earliest. -/
theorem addTimerInLoop_spec (h : q.Consistent (p :: rest)) (ht : q.get p = some t) :
    ∃ timers active, q.addTimerInLoop p = .ok (if q.earliest t.expiration = true then
          (q.stored q.heap timers active q.deleted).armedFor t.expiration
        else q.stored q.heap timers active q.deleted) ∧
      (q.stored q.heap timers active q.deleted).Consistent rest ∧
      timers.elems.Perm ((t.expiration,p) :: q.timers.elems) := by
  obtain ⟨timers,active,hins,hc,hperm⟩ := insert_spec h ht
  refine ⟨timers,active,?_,hc,hperm⟩
  rw [addTimerInLoop,hins,bind_ok]
  dsimp only
  split
  · rw [deref_ok (q := q.stored q.heap timers active q.deleted) ht,bind_ok,resetTimerfd_eq]
  · rfl

private theorem cancelActive_spec (h : q.Consistent rest) {a : ActiveTimer} (ha : a ∈ q.activeTimers) :
    ∃ heap timers active deleted, q.cancelActive a = .ok (q.stored heap timers active deleted) ∧
      (q.stored heap timers active deleted).Consistent rest ∧ ∀ e ∈ timers, e ∈ q.timers := by
  obtain ⟨t,ht,_⟩ := h.active a ha
  obtain ⟨hn,_,hc,hperm⟩ := unregister_spec h ha ht
  obtain ⟨_,hcd⟩ := delete_spec hc
  refine ⟨_,_,_,_,?_,hcd,fun e he => hperm.mem_iff.mpr (List.mem_cons_of_mem _ he)⟩
  have hdel := delete_ok (q := { q with
    timers := (q.timers.erase (entryKey (t.expiration,a.1))).1 }) (p := a.1) ht
  rw [cancelActive,deref_ok ht,bind_ok]
  dsimp only
  rw [require_pos hn,bind_ok,hdel]
  rfl

/-- `cancelInLoop` deletes a timer of the sets or marks one of the batch. -/
theorem cancelInLoop_spec (h : q.Consistent rest) (timerId : TimerId) :
    ∃ heap timers active deleted canceling, q.cancelInLoop timerId =
        .ok { q.stored heap timers active deleted with cancelingTimers := canceling } ∧
      (q.stored heap timers active deleted).Consistent rest ∧ ∀ e ∈ timers, e ∈ q.timers := by
  have hstay (canceling : OrderedSet (id : ℕ ×ₗ ℤ → ℕ ×ₗ ℤ)) :
      (do
        require (q.timers.size = q.activeTimers.size) (.assertion .cancelAfter)
        pure { q with cancelingTimers := canceling } : Except TimerFault TimerQueue) =
      .ok { q.stored q.heap q.timers q.activeTimers q.deleted with cancelingTimers := canceling } := by
    rw [require_pos h.sizes]
    rfl
  rw [cancelInLoop,require_pos h.sizes,bind_ok]
  dsimp only
  cases hf : q.activeTimers.find (toLex (timerId.timer,toInt timerId.sequence)) with
  | some a =>
    obtain ⟨heap,timers,active,deleted,hx,hc,hsub⟩ := cancelActive_spec h (OrderedSet.find_some hf).1
    refine ⟨heap,timers,active,deleted,q.cancelingTimers,?_,hc,hsub⟩
    dsimp only
    rw [hx,bind_ok,require_pos hc.sizes]
    rfl
  | none =>
    dsimp only
    split
    · exact ⟨q.heap,q.timers,q.activeTimers,q.deleted,_,hstay _,h,fun _ => id⟩
    · exact ⟨q.heap,q.timers,q.activeTimers,q.deleted,_,hstay q.cancelingTimers,h,fun _ => id⟩

/-- The erasing loop of `getExpired` takes exactly the batch out of `activeTimers_`. -/
theorem eraseExpired_fold {base : List TimerPtr} (l : List Entry) :
    ∀ active : OrderedSet activeKey, (∀ e ∈ l, ∃ t, q.get e.2 = some t) →
      (∀ a ∈ active, ∃ t, q.get a.1 = some t ∧ toInt t.sequence = a.2) →
      (l.map Prod.snd ++ base).Perm (active.elems.map Prod.fst) →
      ∃ active', l.foldlM eraseExpired { q with activeTimers := active } =
          .ok { q with activeTimers := active' } ∧
        (∀ a ∈ active', ∃ t, q.get a.1 = some t ∧ toInt t.sequence = a.2) ∧
        base.Perm (active'.elems.map Prod.fst) := by
  induction l with
  | nil => exact fun active _ ha hp => ⟨active,rfl,ha,hp⟩
  | cons e l ih =>
    intro active hl ha hp
    obtain ⟨t,ht⟩ := hl e List.mem_cons_self
    have hmem : ((e.2,toInt t.sequence) : ActiveTimer) ∈ active := by
      obtain ⟨a,hain,heq⟩ := List.mem_map.mp (hp.mem_iff.mp List.mem_cons_self)
      obtain ⟨t',ht',hseq⟩ := ha a hain
      rw [heq,ht] at ht'
      cases ht'
      rw [hseq,← heq]
      exact hain
    obtain ⟨hn,hperm⟩ := OrderedSet.erase_mem hmem
    have hstep : eraseExpired { q with activeTimers := active } e =
        .ok { q with activeTimers := (active.erase (activeKey (e.2,toInt t.sequence))).1 } := by
      rw [eraseExpired,deref_ok (q := { q with activeTimers := active }) ht,bind_ok]
      dsimp only
      rw [require_pos hn]
      rfl
    obtain ⟨active',hx,ha',hp'⟩ := ih (active.erase (activeKey (e.2,toInt t.sequence))).1
      (fun x hx => hl x (List.mem_cons_of_mem e hx))
      (fun a hain => ha a (hperm.mem_iff.mpr (List.mem_cons_of_mem _ hain)))
      ((List.perm_cons e.2).mp (hp.trans (hperm.map Prod.fst)))
    refine ⟨active',?_,ha',hp'⟩
    rw [List.foldlM_cons,hstep]
    exact hx

private theorem now_lt_of_above (h : q.Consistent rest) {now : Int} {e : Entry}
    (he : e ∈ q.timers.above (toLex (now,uintptrMax))) (hin : e ∈ q.timers) : now < e.1 := by
  obtain ⟨t,ht,_⟩ := h.entry e hin
  have hb := h.sound.bounded e.2 t ht
  have hle : toLex (now,uintptrMax) ≤ entryKey e := OrderedSet.le_of_mem_above he
  rcases (Prod.Lex.toLex_le_toLex).mp hle with hlt | ⟨_,hmax⟩
  · exact hlt
  · exact (Nat.not_le.mpr hb hmax).elim

/-- `getExpired` moves the due timers from the sets into the batch. -/
theorem getExpired_spec (h : q.Consistent rest) (now : Int) : ∃ r, q.getExpired now = .ok r ∧
    (∃ active, r = { q with
      expired := q.timers.below (toLex (now,uintptrMax))
      timers := q.timers.above (toLex (now,uintptrMax))
      activeTimers := active }) ∧
    r.Consistent (r.expired.map Prod.snd ++ rest) ∧ ∀ e ∈ r.timers, now < e.1 := by
  have hsplit := q.timers.below_append_above (toLex (now,uintptrMax))
  have hin : ∀ e ∈ q.timers.above (toLex (now,uintptrMax)), e ∈ q.timers := by
    intro e he
    rw [OrderedSet.mem_def,← hsplit]
    exact List.mem_append_right _ he
  have hbelow : ∀ e ∈ q.timers.below (toLex (now,uintptrMax)), e ∈ q.timers := by
    intro e he
    rw [OrderedSet.mem_def,← hsplit]
    exact List.mem_append_left _ he
  have hlate : ∀ e ∈ q.timers.above (toLex (now,uintptrMax)), now < e.1 :=
    fun e he => now_lt_of_above h he (hin e he)
  have hptr : q.pointers = (q.timers.below (toLex (now,uintptrMax))).map Prod.snd ++
      (q.timers.above (toLex (now,uintptrMax))).elems.map Prod.snd := by
    rw [pointers,← hsplit,List.map_append]
  obtain ⟨active,hx,ha,hp⟩ := eraseExpired_fold
    (q := { q with
      expired := q.timers.below (toLex (now,uintptrMax))
      timers := q.timers.above (toLex (now,uintptrMax)) })
    (q.timers.below (toLex (now,uintptrMax))) q.activeTimers
    (fun e he => (h.entry e (hbelow e he)).imp (fun _ => And.left)) h.active (hptr ▸ h.same)
  have hmove : (q.pointers ++ rest).Perm ((q.timers.above (toLex (now,uintptrMax))).elems.map Prod.snd ++
      ((q.timers.below (toLex (now,uintptrMax))).map Prod.snd ++ rest)) := by
    rw [hptr,← List.append_assoc]
    exact List.perm_append_comm.append_right rest
  refine ⟨_,?_,⟨active,rfl⟩,⟨h.sound.of_eq rfl rfl rfl,?_,hmove.nodup_iff.mp h.nodup,?_,ha,hp⟩,hlate⟩
  · rw [getExpired,require_pos h.sizes,bind_ok]
    dsimp only
    rw [require_pos,bind_ok]
    · refine (congrArg (· >>= _) hx).trans ?_
      have hs := hp.length_eq
      rw [List.length_map,List.length_map] at hs
      change (require _ _ >>= _) = _
      rw [require_pos (show (q.timers.above (toLex (now,uintptrMax))).size = active.size from hs)]
      rfl
    · intro e he
      exact hlate e (OrderedSet.begin_le he).1
  · intro p
    exact (h.live p).trans hmove.mem_iff
  · intro e he
    exact h.entry e (hin e he)

/-- The queue in which a live timer has been replaced by u. -/
def replaced (q : TimerQueue) (p : TimerPtr) (u : Timer) : TimerQueue :=
  q.stored (Function.update q.heap p.addr (some (p.block,u))) q.timers q.activeTimers q.deleted

/-- A timer that is changed is found as it is now. -/
theorem get_replaced {u : Timer} (ht : q.get p = some t) (p' : TimerPtr) (t' : Timer) :
    (q.replaced p u).get p' = some t' ↔ p' = p ∧ t' = u ∨ p' ≠ p ∧ q.get p' = some t' := by
  rw [replaced,get_stored,Function.update_apply]
  by_cases hp : p' = p
  · subst hp
    rw [if_pos rfl]
    simp [eq_comm]
  · by_cases ha : p'.addr = p.addr
    · rw [if_pos ha]
      constructor
      · intro hh
        obtain ⟨hb,_⟩ := Prod.mk.inj (Option.some.inj hh)
        refine (hp ?_).elim
        cases p'
        cases p
        cases ha
        cases hb
        rfl
      · rintro (⟨hh,_⟩ | ⟨_,hh⟩)
        · exact (hp hh).elim
        · exact (hp (get_unique hh ht ha)).elim
    · rw [if_neg ha,get_eq_some]
      simp [hp]

private theorem live_replaced {u : Timer} (ht : q.get p = some t) (p' : TimerPtr) :
    (∃ t', (q.replaced p u).get p' = some t') ↔ ∃ t', q.get p' = some t' := by
  constructor
  · rintro ⟨t',h'⟩
    rcases (get_replaced ht p' t').mp h' with ⟨rfl,_⟩ | ⟨_,h'⟩
    · exact ⟨t,ht⟩
    · exact ⟨t',h'⟩
  · rintro ⟨t',h'⟩
    by_cases hp : p' = p
    · exact ⟨u,(get_replaced ht p' u).mpr (.inl ⟨hp,rfl⟩)⟩
    · exact ⟨t',(get_replaced ht p' t').mpr (.inr ⟨hp,h'⟩)⟩

private theorem HeapSound.replaced {u : Timer} (h : q.HeapSound) (ht : q.get p = some t)
    (hi : u.repeat_ = true → 0 ≤ u.interval) : (q.replaced p u).HeapSound := by
  refine h.of_live (fun p' t' h' => (live_replaced ht p').mp ⟨t',h'⟩) ?_ rfl h.deleted_once ?_
  · intro p' t' h'
    rcases (get_replaced ht p' t').mp h' with ⟨_,rfl⟩ | ⟨_,h'⟩
    · exact hi
    · exact h.intervals p' t' h'
  · intro b
    refine (h.deleted_iff b).trans (and_congr_right fun _ => ⟨?_,?_⟩)
    · intro hno p' t' h'
      obtain ⟨t₀,h₀⟩ := (live_replaced ht p').mp ⟨t',h'⟩
      exact hno p' t₀ h₀
    · intro hno p' t' h'
      obtain ⟨t₀,h₀⟩ := (live_replaced (u := u) ht p').mpr ⟨t',h'⟩
      exact hno p' t₀ h₀

/-- `restart` on a timer outside the sets. -/
theorem restart_spec (h : q.Consistent (p :: rest)) (ht : q.get p = some t)
    (hr : t.repeat_ = true) (now : Int) : ∃ heap, q.restart p now =
        .ok (q.stored heap q.timers q.activeTimers q.deleted) ∧
      (q.stored heap q.timers q.activeTimers q.deleted).get p =
        some { t with expiration := now+t.interval } ∧
      (q.stored heap q.timers q.activeTimers q.deleted).Consistent (p :: rest) := by
  have hout : ∀ p' ∈ q.pointers, p' ≠ p := by
    intro p' hp' heq
    exact (List.disjoint_of_nodup_append h.nodup) hp' (heq ▸ List.mem_cons_self)
  have hs : (q.replaced p { t with expiration := now+t.interval }).HeapSound :=
    h.sound.replaced ht (h.sound.intervals p t ht)
  refine ⟨_,?_,(get_replaced ht p _).mpr (.inl ⟨rfl,rfl⟩),h.of_heap hs rfl rfl ?_ h.nodup ?_⟩
  · rw [restart,deref_ok ht,bind_ok]
    dsimp only
    rw [if_pos hr]
    rfl
  · exact fun p' => (live_replaced ht p').trans (h.live p')
  · exact fun p' hin t' h' => (get_replaced ht p' t').mpr (.inr ⟨hout p' hin,h'⟩)

/-- One round of `reset`: the timer goes back to the sets, not before `now`, or is deleted. -/
theorem resetOne_spec {e : Entry} (h : q.Consistent (e.2 :: rest)) (now : Int) :
    ∃ heap timers active deleted, resetOne now q e = .ok (q.stored heap timers active deleted) ∧
      (q.stored heap timers active deleted).Consistent rest ∧
      ∀ x ∈ timers, x ∈ q.timers ∨ now ≤ x.1 := by
  obtain ⟨t,ht⟩ := h.live_rest List.mem_cons_self
  rw [resetOne,deref_ok ht,bind_ok]
  split
  · rename_i hr
    obtain ⟨heap,hx,hget,hc⟩ := restart_spec h ht hr.1 now
    obtain ⟨timers,active,hins,hc',hperm⟩ := insert_spec hc hget
    refine ⟨heap,timers,active,q.deleted,?_,hc',?_⟩
    · rw [hx,bind_ok,hins]
      rfl
    · intro x hxin
      rcases List.mem_cons.mp (hperm.mem_iff.mp hxin) with rfl | hold
      · right
        have hi := h.sound.intervals e.2 t ht hr.1
        change now ≤ now+t.interval
        omega
      · exact .inl hold
  · obtain ⟨hx,hc⟩ := delete_spec h
    exact ⟨_,_,_,_,hx,hc,fun x hxin => .inl hxin⟩

/-- The loop of `reset`, by induction on what is left of the batch. -/
theorem reset_fold (now : Int) (l : List Entry) : ∀ q : TimerQueue,
    q.Consistent (l.map Prod.snd ++ rest) →
    ∃ heap timers active deleted, l.foldlM (resetOne now) q =
        .ok (q.stored heap timers active deleted) ∧
      (q.stored heap timers active deleted).Consistent rest ∧
      ∀ x ∈ timers, x ∈ q.timers ∨ now ≤ x.1 := by
  induction l with
  | nil => exact fun q h => ⟨q.heap,q.timers,q.activeTimers,q.deleted,rfl,h,fun _ => .inl⟩
  | cons e l ih =>
    intro q h
    obtain ⟨heap,timers,active,deleted,hx,hc,hnew⟩ := resetOne_spec (e := e) h now
    obtain ⟨heap',timers',active',deleted',hx',hc',hnew'⟩ := ih _ hc
    refine ⟨heap',timers',active',deleted',?_,hc',?_⟩
    · rw [List.foldlM_cons,hx]
      exact hx'
    · intro x hxin
      rcases hnew' x hxin with hold | hlate
      · exact hnew x hold
      · exact .inr hlate

/-- Armed for the front of `timers_` if that is a valid time. -/
def armedForFront (q : TimerQueue) : TimerQueue :=
  match q.timers.begin with
  | none => q
  | some e => if 0 < e.1 then q.armedFor e.1 else q

/-- The end of `reset` arms for the first timer. -/
theorem armNext_spec (h : q.Consistent rest) : q.armNext = .ok q.armedForFront := by
  unfold armNext armedForFront
  cases hb : q.timers.begin with
  | none => rfl
  | some e =>
    obtain ⟨t,ht,hexp⟩ := h.entry e (OrderedSet.begin_le hb).1
    dsimp only
    rw [deref_ok ht,bind_ok,hexp]
    split
    · exact resetTimerfd_eq q e.1
    · rfl

/-- The end of `reset` touches nothing but the timerfd. -/
theorem armNext_inv {r : TimerQueue} (h : q.armNext = .ok r) : r = q ∨ ∃ expiration, r = q.armedFor expiration := by
  unfold armNext at h
  split at h
  · cases h
    exact .inl rfl
  · obtain ⟨t,-,h⟩ := bind_eq_ok h
    split at h
    · rw [resetTimerfd_eq] at h
      cases h
      exact .inr ⟨_,rfl⟩
    · cases h
      exact .inl rfl

end TimerQueue
end LearningMuduo.Timers
