import Mathlib.Data.List.Basic

/-! Loops that take one field after another off the front of their input. -/
namespace LearningMuduo.Library
variable {α β σ : Type}

/-- One round: the loop ends with a verdict, or goes on with the rest of the input. -/
inductive Round (α σ : Type) where
  | done (ok : Bool) (s : σ)
  | next (s : σ) (rest : List α)

/-- A round that goes on has consumed something. -/
structure FieldLoop (α σ : Type) where
  round : σ → List α → Round α σ
  consumes : ∀ {s xs t rest}, round s xs = .next t rest → rest.length < xs.length

namespace FieldLoop
variable (l : FieldLoop α σ)

def run (s : σ) (xs : List α) : Bool × σ :=
  match h : l.round s xs with
  | .done ok t => (ok,t)
  | .next t rest =>
    have := l.consumes h
    run t rest
termination_by xs.length

/-- What the loop has not read when it ends. -/
def unread (s : σ) (xs : List α) : List α :=
  match h : l.round s xs with
  | .done _ _ => xs
  | .next t rest =>
    have := l.consumes h
    unread t rest
termination_by xs.length

variable {l} {s t u : σ} {xs ys : List α}

/-- A round that ends the loop gives its result. -/
theorem run_done {ok : Bool} (h : l.round s xs = .done ok t) : l.run s xs = (ok,t) := by
  rw [run]
  split
  · next he => rw [h] at he; cases he; rfl
  · next he => rw [h] at he; cases he

/-- A round that goes on leaves the rest to the loop. -/
theorem run_next {rest : List α} (h : l.round s xs = .next t rest) : l.run s xs = l.run t rest := by
  rw [run]
  split
  · next he => rw [h] at he; cases he
  · next he => rw [h] at he; cases he; rfl

/-- A round that ends the loop leaves its input unread. -/
theorem unread_done {ok : Bool} (h : l.round s xs = .done ok t) : l.unread s xs = xs := by
  rw [unread]
  split
  · rfl
  · next he => rw [h] at he; cases he

/-- What is left unread is left by the later rounds. -/
theorem unread_next {rest : List α} (h : l.round s xs = .next t rest) : l.unread s xs = l.unread t rest := by
  rw [unread]
  split
  · next he => rw [h] at he; cases he
  · next he => rw [h] at he; cases he; rfl

/-- From s the loop takes xs off any input and stands at t. -/
def Reads (l : FieldLoop α σ) (s : σ) (xs : List α) (t : σ) : Prop :=
  ∀ rest, l.run s (xs ++ rest) = l.run t rest ∧ l.unread s (xs ++ rest) = l.unread t rest

/-- Nothing is read from no input. -/
theorem Reads.refl (s : σ) : l.Reads s [] s := fun _ => ⟨rfl,rfl⟩

/-- One round that reads xs, whatever follows. -/
theorem Reads.round (h : ∀ rest, l.round s (xs ++ rest) = .next t rest) : l.Reads s xs t :=
  fun rest => ⟨run_next (h rest),unread_next (h rest)⟩

/-- What is read in two parts is read as a whole. -/
theorem Reads.append (h : l.Reads s xs t) (h' : l.Reads t ys u) : l.Reads s (xs ++ ys) u := by
  intro rest
  rw [List.append_assoc,(h _).1,(h _).2]
  exact h' rest

/-- A list of fields, one after another. -/
theorem Reads.flatMap {enc : β → List α} {f : σ → β → σ} (bs : List β) (h : ∀ s, ∀ b ∈ bs, l.Reads s (enc b) (f s b)) (s : σ) :
    l.Reads s (bs.flatMap enc) (bs.foldl f s) := by
  induction bs generalizing s with
  | nil => exact .refl s
  | cons b bs ih =>
    rw [List.flatMap_cons,List.foldl_cons]
    exact (h s b List.mem_cons_self).append (ih (fun s b hb => h s b (List.mem_cons_of_mem _ hb)) (f s b))

/-- The whole input is fields, and the loop ends behind them. -/
theorem Reads.run_eq (h : l.Reads s xs t) {ok : Bool} (hd : l.round t [] = .done ok t) : l.run s xs = (ok,t) := by
  rw [← List.append_nil xs,(h []).1,run_done hd]

/-- A loop that can end where xs is read leaves nothing of it. -/
theorem Reads.unread_eq (h : l.Reads s xs t) {ok : Bool} (hd : l.round t [] = .done ok t) : l.unread s xs = [] := by
  rw [← List.append_nil xs,(h []).2,unread_done hd]

/-- What each round keeps, the loop keeps, on every input. -/
theorem run_invariant {I : σ → Prop} (hnext : ∀ s xs t rest, I s → l.round s xs = .next t rest → I t)
    (hdone : ∀ s xs ok t, I s → l.round s xs = .done ok t → I t) (s : σ) (xs : List α) (hs : I s) : I (l.run s xs).2 := by
  cases h : l.round s xs with
  | done ok t =>
    rw [run_done h]
    exact hdone s xs ok t hs h
  | next t rest =>
    have hlt := l.consumes h
    rw [run_next h]
    exact run_invariant hnext hdone t rest (hnext s xs t rest hs h)
termination_by xs.length

end FieldLoop
end LearningMuduo.Library
