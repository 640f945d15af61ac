import Mathlib.Logic.Basic

/-! Postconditions for code that either returns or stops with a failure. -/
namespace LearningMuduo.Library
variable {ε α β : Type}

/-- `Meets P Q x`: a normal return of x satisfies P and a failure satisfies Q. -/
def Meets (P : α → Prop) (Q : ε → Prop) : Except ε α → Prop
  | .ok a => P a
  | .error e => Q e

instance (P : α → Prop) (Q : ε → Prop) [DecidablePred P] [DecidablePred Q] :
    DecidablePred (Meets P Q)
  | .ok a => inferInstanceAs (Decidable (P a))
  | .error e => inferInstanceAs (Decidable (Q e))

/-- An assertion of the source: it stops the run with the given failure. -/
def require (p : Prop) [Decidable p] (e : ε) : Except ε Unit :=
  if p then .ok () else .error e

/-- A result is held to P. -/
@[simp] theorem meets_ok (P : α → Prop) (Q : ε → Prop) (a : α) :
    Meets P Q (.ok a : Except ε α) ↔ P a := Iff.rfl

/-- An error is held to Q. -/
@[simp] theorem meets_error (P : α → Prop) (Q : ε → Prop) (e : ε) :
    Meets P Q (.error e : Except ε α) ↔ Q e := Iff.rfl

/-- A result is held to P, as `pure` gives it. -/
@[simp] theorem meets_pure (P : α → Prop) (Q : ε → Prop) (a : α) :
    Meets P Q (pure a : Except ε α) ↔ P a := Iff.rfl

/-- A requirement that is met goes on. -/
@[simp] theorem require_pos {p : Prop} [Decidable p] (h : p) (e : ε) :
    require p e = .ok () := if_pos h

/-- A requirement that is not met gives its error. -/
@[simp] theorem require_neg {p : Prop} [Decidable p] (h : ¬ p) (e : ε) :
    require p e = .error e := if_neg h

/-- Code after an assertion may assume it. -/
theorem meets_require {p : Prop} [Decidable p] {Q : ε → Prop} {e : ε} (h : ¬ p → Q e) :
    Meets (fun _ => p) Q (require p e) := by
  by_cases hp : p
  · rw [require_pos hp]
    exact hp
  · rw [require_neg hp]
    exact h hp

/-- A result is handed on. -/
@[simp] theorem bind_ok (a : α) (f : α → Except ε β) : (Except.ok a >>= f) = f a := rfl

/-- An error ends the computation. -/
@[simp] theorem bind_error (e : ε) (f : α → Except ε β) :
    ((Except.error e : Except ε α) >>= f) = .error e := rfl

/-- A computation that succeeds has succeeded in both its parts. -/
theorem bind_eq_ok {x : Except ε α} {f : α → Except ε β} {b : β} (h : (x >>= f) = .ok b) :
    ∃ a, x = .ok a ∧ f a = .ok b := by
  cases x with
  | ok a => exact ⟨a,rfl,h⟩
  | error e => cases h

/-- Two computations with a common first part, the second one mapped. -/
theorem bind_eq_map_bind {γ : Type} {x : Except ε α} {f : α → Except ε β} {g : α → Except ε γ} {k : γ → β}
    (h : ∀ a, f a = k <$> g a) : (x >>= f) = k <$> (x >>= g) := by
  cases x with
  | ok a => exact h a
  | error e => rfl

/-- `Meets` as two statements. -/
theorem meets_iff {P : α → Prop} {Q : ε → Prop} {x : Except ε α} :
    Meets P Q x ↔ (∀ a, x = .ok a → P a) ∧ ∀ e, x = .error e → Q e := by
  cases x with
  | ok a => exact ⟨fun h => ⟨by rintro _ ⟨⟩; exact h,by rintro _ ⟨⟩⟩,fun h => h.1 a rfl⟩
  | error e => exact ⟨fun h => ⟨by rintro _ ⟨⟩,by rintro _ ⟨⟩; exact h⟩,fun h => h.2 e rfl⟩

/-- Every computation meets nothing. -/
theorem meets_true (x : Except ε α) : Meets (fun _ => True) (fun _ => True) x := by
  cases x <;> trivial

/-- The weaker of two demands. -/
theorem Meets.mono {P P' : α → Prop} {Q Q' : ε → Prop} {x : Except ε α} (h : Meets P Q x)
    (hp : ∀ a, P a → P' a) (hq : ∀ e, Q e → Q' e) : Meets P' Q' x := by
  cases x with
  | ok a => exact hp a h
  | error e => exact hq e h

/-- Two demands together. -/
theorem Meets.and {P P' : α → Prop} {Q Q' : ε → Prop} {x : Except ε α} (h : Meets P Q x) (h' : Meets P' Q' x) :
    Meets (fun a => P a ∧ P' a) (fun e => Q e ∧ Q' e) x := by
  cases x with
  | ok a => exact ⟨h,h'⟩
  | error e => exact ⟨h,h'⟩

/-- Sequencing: the second part may assume what the first part guarantees. -/
theorem Meets.bind {P : α → Prop} {R : β → Prop} {Q : ε → Prop} {x : Except ε α}
    {f : α → Except ε β} (h : Meets P Q x) (hf : ∀ a, P a → Meets R Q (f a)) :
    Meets R Q (x >>= f) := by
  cases x with
  | ok a => exact hf a h
  | error e => exact h

/-- A demand on the image of a result. -/
theorem Meets.map {P : β → Prop} {Q : ε → Prop} {x : Except ε α} {f : α → β}
    (h : Meets (fun a => P (f a)) Q x) : Meets P Q (f <$> x) := by
  cases x with
  | ok a => exact h
  | error e => exact h

/-- A demand on the image of an error. -/
theorem Meets.mapError {δ : Type} {P : α → Prop} {Q : δ → Prop} {x : Except ε α} {f : ε → δ}
    (h : Meets P (fun e => Q (f e)) x) : Meets P Q (x.mapError f) := by
  cases x with
  | ok a => exact h
  | error e => exact h

/-- A computation without a permitted error succeeds. -/
theorem Meets.ok_of_no_error {P : α → Prop} {Q : ε → Prop} {x : Except ε α} (h : Meets P Q x)
    (hq : ∀ e, ¬ Q e) : ∃ a, x = .ok a ∧ P a := by
  cases x with
  | ok a => exact ⟨a,rfl,h⟩
  | error e => exact (hq e h).elim

/-- A computation that succeeds has a result that is held to P. -/
theorem Meets.of_success {P : α → Prop} {Q : ε → Prop} {x : Except ε α} (h : Meets P Q x)
    (hx : Meets (fun _ => True) (fun _ => False) x) : ∃ a, x = .ok a ∧ P a := by
  obtain ⟨a,rfl,-⟩ := hx.ok_of_no_error fun _ => id
  exact ⟨a,rfl,h⟩

/-- A computation without a permitted result fails. -/
theorem Meets.error_of_no_ok {P : α → Prop} {Q : ε → Prop} {x : Except ε α} (h : Meets P Q x)
    (hp : ∀ a, ¬ P a) : ∃ e, x = .error e ∧ Q e := by
  cases x with
  | ok a => exact (hp a h).elim
  | error e => exact ⟨e,rfl,h⟩

end LearningMuduo.Library
