import LearningMuduo.Library.Outcome
import Mathlib.Data.List.Induction

/-! Guarded machines. A label carries every answer of the environment, so one
step is a function and a run is a list of labels. -/
namespace LearningMuduo.Library

/-- `Enabled` says which labels may be offered in a state; `step` is the code. -/
structure Machine (σ α ε : Type) where
  Enabled : σ → α → Prop
  step : σ → α → Except ε σ

namespace Machine
variable {σ α ε τ : Type} (m : Machine σ α ε)

def exec (s : σ) : List α → Except ε σ
  | [] => .ok s
  | a :: as => m.step s a >>= fun t => exec t as

/-- Every label of the run is enabled in the state in which it is taken. -/
def Admissible (s : σ) : List α → Prop
  | [] => True
  | a :: as => m.Enabled s a ∧ Meets (fun t => Admissible t as) (fun _ => True) (m.step s a)

instance decidableAdmissible [∀ s a, Decidable (m.Enabled s a)] (s : σ) :
    (as : List α) → Decidable (m.Admissible s as)
  | [] => isTrue trivial
  | a :: as =>
    have : DecidablePred (fun t => m.Admissible t as) := fun t => decidableAdmissible t as
    inferInstanceAs (Decidable (m.Enabled s a ∧ Meets (m.Admissible · as) (fun _ => True) (m.step s a)))

/-- The same code under a stronger guard. -/
def guard (C : σ → α → Prop) : Machine σ α ε := ⟨fun s a => m.Enabled s a ∧ C s a,m.step⟩

instance (C : σ → α → Prop) (s : σ) (a : α) [Decidable (m.Enabled s a)] [Decidable (C s a)] :
    Decidable ((m.guard C).Enabled s a) :=
  inferInstanceAs (Decidable (_ ∧ _))

/-- A step that carries a relation to an abstract step carries it along every run. -/
theorem exec_simulates {R : σ → τ → Prop} {Q : ε → Prop} (spec : τ → α → τ)
    (hstep : ∀ s q a, R s q → m.Enabled s a → Meets (fun t => R t (spec q a)) Q (m.step s a))
    (as : List α) : ∀ s q, R s q → m.Admissible s as →
      Meets (fun t => R t (as.foldl spec q)) Q (m.exec s as) := by
  induction as with
  | nil => intro s q hr _; exact hr
  | cons a as ih =>
    intro s q hr ha
    obtain ⟨hen,hrest⟩ := ha
    have h := hstep s q a hr hen
    change Meets _ _ (m.step s a >>= fun t => m.exec t as)
    cases he : m.step s a with
    | ok t =>
      rw [he] at h hrest
      exact ih t (spec q a) h hrest
    | error e =>
      rw [he] at h
      exact h

/-- A step invariant is an invariant of every run. -/
theorem exec_invariant {I : σ → Prop} {Q : ε → Prop}
    (hstep : ∀ s a, I s → m.Enabled s a → Meets I Q (m.step s a))
    (as : List α) (s : σ) (hs : I s) (ha : m.Admissible s as) :
    Meets I Q (m.exec s as) :=
  m.exec_simulates (R := fun s (_ : Unit) => I s) (fun q _ => q)
    (fun s _ a h he => hstep s a h he) as s () hs ha

/-- What each step that ends well keeps, a run that ends well keeps. -/
theorem exec_ok_invariant {I : σ → Prop} {s t : σ} {as : List α}
    (hstep : ∀ s t a, I s → m.Enabled s a → m.step s a = .ok t → I t)
    (hs : I s) (ha : m.Admissible s as) (he : m.exec s as = .ok t) : I t := by
  have hkeep : ∀ s a, I s → m.Enabled s a → Meets I (fun _ => True) (m.step s a) := by
    intro s a hi hen
    cases hr : m.step s a with
    | ok t => exact hstep s t a hi hen hr
    | error e => trivial
  have hrun := m.exec_invariant hkeep as s hs ha
  rw [he] at hrun
  exact hrun

/-- A guard does not change what the steps do. -/
theorem exec_guard (C : σ → α → Prop) (s : σ) (as : List α) :
    (m.guard C).exec s as = m.exec s as := by
  induction as generalizing s with
  | nil => rfl
  | cons a as ih =>
    change (m.step s a >>= fun t => (m.guard C).exec t as) = m.step s a >>= fun t => m.exec t as
    simp only [ih]

/-- A run whose steps all meet a condition is one of the guarded machine. -/
theorem admissible_guard (C : α → Prop) (s : σ) (as : List α) (ha : m.Admissible s as)
    (hc : ∀ a ∈ as, C a) : (m.guard (fun _ a => C a)).Admissible s as := by
  induction as generalizing s with
  | nil => trivial
  | cons a as ih =>
    refine ⟨⟨ha.1,hc a List.mem_cons_self⟩,?_⟩
    apply Meets.mono ha.2 ?_ (fun _ => id)
    intro t ht
    exact ih t ht (fun b hb => hc b (List.mem_cons_of_mem a hb))

/-- A run in two parts. -/
theorem exec_append (s : σ) (as bs : List α) :
    m.exec s (as ++ bs) = m.exec s as >>= fun t => m.exec t bs := by
  induction as generalizing s with
  | nil => rfl
  | cons a as ih =>
    rw [List.cons_append,exec,exec]
    cases m.step s a with
    | ok t => exact ih t
    | error e => rfl

/-- A run goes on from where its first part has ended. -/
theorem exec_append_ok {s t : σ} {as : List α} (h : m.exec s as = .ok t) (bs : List α) :
    m.exec s (as ++ bs) = m.exec t bs := by
  rw [exec_append,h,bind_ok]

/-- A run and one step more. -/
theorem exec_concat {s t u : σ} {as : List α} {a : α} (h : m.exec s as = .ok t) (hstep : m.step t a = .ok u) :
    m.exec s (as ++ [a]) = .ok u := by
  rw [m.exec_append_ok h,exec,hstep]
  rfl

/-- What follows an admissible step is admissible behind it. -/
theorem admissible_step {s t : σ} {a : α} {as : List α} (ha : m.Admissible s (a :: as))
    (h : m.step s a = .ok t) : m.Admissible t as := by
  have hnext := ha.2
  rw [h] at hnext
  exact hnext

/-- Both parts of an admissible run are, the second one where the first has ended. -/
theorem admissible_append {s t : σ} {as bs : List α} (ha : m.Admissible s (as ++ bs))
    (h : m.exec s as = .ok t) : m.Admissible s as ∧ m.Admissible t bs := by
  induction as generalizing s with
  | nil =>
    cases h
    exact ⟨trivial,ha⟩
  | cons a as ih =>
    obtain ⟨u,hu,hrest⟩ := bind_eq_ok h
    obtain ⟨hfirst,hlast⟩ := ih (m.admissible_step ha hu) hrest
    exact ⟨⟨ha.1,by rw [hu]; exact hfirst⟩,hlast⟩

/-- What leads to a run is a run. -/
theorem admissible_front {s : σ} {as bs : List α} (ha : m.Admissible s (as ++ bs)) : m.Admissible s as := by
  induction as generalizing s with
  | nil => trivial
  | cons a as ih =>
    obtain ⟨hen,hnext⟩ := ha
    exact ⟨hen,hnext.mono (fun _ => ih) (fun _ => id)⟩

/-- An invariant over the history of a run: each step extends it. -/
theorem exec_history {I : List α → σ → Prop} {s : σ} (hs : I [] s)
    (hstep : ∀ before t a, I before t → m.exec s before = .ok t → m.Enabled t a →
      ∃ u, m.step t a = .ok u ∧ I (before ++ [a]) u) (as : List α) (ha : m.Admissible s as) :
    ∃ t, m.exec s as = .ok t ∧ I as t := by
  induction as using List.reverseRecOn with
  | nil => exact ⟨s,rfl,hs⟩
  | append_singleton as a ih =>
    obtain ⟨t,ht,hi⟩ := ih (m.admissible_front ha)
    obtain ⟨u,hu,hi'⟩ := hstep as t a hi ht (m.admissible_append ha ht).2.1
    exact ⟨u,m.exec_concat ht hu,hi'⟩

/-- The same for runs that may fail and did not. -/
theorem exec_ok_history {I : List α → σ → Prop} {s t : σ} {as : List α} (hs : I [] s)
    (hstep : ∀ before t u a, I before t → m.Enabled t a → m.step t a = .ok u → I (before ++ [a]) u)
    (ha : m.Admissible s as) (he : m.exec s as = .ok t) : I as t := by
  induction as using List.reverseRecOn generalizing t with
  | nil =>
    cases he
    exact hs
  | append_singleton as a ih =>
    rw [exec_append] at he
    obtain ⟨u,hu,hlast⟩ := bind_eq_ok he
    obtain ⟨_,hstep',hnil⟩ := bind_eq_ok hlast
    cases hnil
    exact hstep as u t a (ih (m.admissible_front ha) hu) (m.admissible_append ha hu).2.1 hstep'

/-- Steps that cannot fail make runs that cannot fail. -/
theorem exec_total {I : σ → Prop} {s : σ} {as : List α} (hs : I s)
    (hstep : ∀ s a, I s → m.Enabled s a → ∃ t, m.step s a = .ok t ∧ I t) (ha : m.Admissible s as) :
    ∃ t, m.exec s as = .ok t ∧ I t :=
  m.exec_history (I := fun _ => I) hs (fun _ s a h _ he => hstep s a h he) as ha

/-- What the steps of a run show, in order, when f says what one step shows. -/
def observe {β : Type} (f : σ → α → List β) (s : σ) : List α → List β
  | [] => []
  | a :: as => f s a ++ match m.step s a with
    | .ok t => observe f t as
    | .error _ => []

/-- One step more shows what it shows in the state reached. -/
theorem observe_concat {β : Type} (f : σ → α → List β) {s t : σ} {as : List α} (h : m.exec s as = .ok t) (a : α) :
    m.observe f s (as ++ [a]) = m.observe f s as ++ f t a := by
  induction as generalizing s with
  | nil =>
    cases h
    rw [List.nil_append,observe,observe,List.nil_append]
    split <;> exact List.append_nil _
  | cons b as ih =>
    obtain ⟨u,hu,hrest⟩ := bind_eq_ok h
    rw [List.cons_append,observe,observe,hu]
    dsimp only
    rw [ih hrest,List.append_assoc]

/-- Two admissible runs, the second one where the first has ended, are one. -/
theorem admissible_of_append {s t : σ} {as bs : List α} (ha : m.Admissible s as) (h : m.exec s as = .ok t)
    (hb : m.Admissible t bs) : m.Admissible s (as ++ bs) := by
  induction as generalizing s with
  | nil =>
    cases h
    exact hb
  | cons a as ih =>
    obtain ⟨u,hu,hrest⟩ := bind_eq_ok h
    exact ⟨ha.1,by rw [hu]; exact ih (m.admissible_step ha hu) hrest⟩

/-- A run under a stronger guard is a run. -/
theorem admissible_of_guard {C : σ → α → Prop} {s : σ} {as : List α}
    (ha : (m.guard C).Admissible s as) : m.Admissible s as := by
  induction as generalizing s with
  | nil => trivial
  | cons a as ih =>
    obtain ⟨hen,hnext⟩ := ha
    exact ⟨hen.1,hnext.mono (fun _ => ih) (fun _ => id)⟩

end Machine
end LearningMuduo.Library
