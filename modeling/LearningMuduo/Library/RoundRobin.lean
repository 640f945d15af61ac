import Mathlib.Data.Int.CardIntervalMod
import Mathlib.Data.List.Nodup

/-! Turns over a list: whoever is in it gets as many as any other, but for one. -/
namespace LearningMuduo.Library
variable {α : Type} {l : List α}

/-- The first k turns. -/
def turns (l : List α) (k : Nat) : List α := (List.range k).filterMap fun i => l[i % l.length]?

/-- The next turn is that of the next element. -/
theorem turns_succ (l : List α) (k : Nat) : turns l (k+1) = turns l k ++ l[k % l.length]?.toList := by
  unfold turns
  rw [List.range_succ,List.filterMap_append]
  congr 1

variable [DecidableEq α]

private theorem count_turns (hl : l.Nodup) {j : Nat} (hj : j < l.length) (k : Nat) :
    (turns l k).count l[j] = k/l.length + if j < k % l.length then 1 else 0 := by
  have hcount : (turns l k).count l[j] = k.count (· ≡ j [MOD l.length]) := by
    induction k with
    | zero => rfl
    | succ k ih =>
      have hk : k % l.length < l.length := Nat.mod_lt k (Nat.zero_lt_of_lt hj)
      rw [turns_succ,List.count_append,ih,Nat.count_succ,List.getElem?_eq_getElem hk,Option.toList_some,List.count_singleton]
      refine congrArg _ (if_congr ?_ rfl rfl)
      rw [beq_iff_eq,hl.getElem_inj_iff,Nat.ModEq,Nat.mod_eq_of_lt hj]
  rw [hcount,Nat.count_modEq_card k (Nat.zero_lt_of_lt hj),Nat.mod_eq_of_lt hj]

/-- No element has had two turns more than another. -/
theorem turns_balanced (hl : l.Nodup) {a b : α} (ha : a ∈ l) (hb : b ∈ l) (k : Nat) :
    (turns l k).count a ≤ (turns l k).count b + 1 := by
  obtain ⟨i,hi,rfl⟩ := List.getElem_of_mem ha
  obtain ⟨j,hj,rfl⟩ := List.getElem_of_mem hb
  rw [count_turns hl hi,count_turns hl hj]
  split_ifs <;> omega

end LearningMuduo.Library
