import Mathlib.Tactic.Common

/-! Postconditions for computations that return a value or throw. -/

namespace Outcome

universe u v

variable {ε : Type u} {α β : Type v} {x : Except ε α} {f : α → Except ε β} {P P' : α → Prop}
  {Q : β → Prop} {E E' : ε → Prop}

/-- The computation returns a value in `P` or throws an error in `E`. -/
def Sat (x : Except ε α) (P : α → Prop) (E : ε → Prop) : Prop :=
  match x with
  | .ok a => P a
  | .error e => E e

@[simp] theorem sat_ok {a : α} : Sat (.ok a) P E ↔ P a := Iff.rfl

@[simp] theorem sat_error {e : ε} : Sat (.error e) P E ↔ E e := Iff.rfl

@[simp] theorem sat_pure {a : α} : Sat (pure a : Except ε α) P E ↔ P a := Iff.rfl

@[simp] theorem ok_bind (a : α) (f : α → Except ε β) : (Except.ok a >>= f) = f a := rfl

@[simp] theorem error_bind (e : ε) (f : α → Except ε β) : (Except.error e >>= f) = .error e := rfl

theorem sat_true : Sat x (fun _ => True) fun _ => True := by
  cases x <;> trivial

/-- Sequencing: what the first part establishes is the second part's precondition. -/
theorem Sat.bind (hx : Sat x P E) (hf : ∀ a, P a → Sat (f a) Q E) : Sat (x >>= f) Q E := by
  cases x with
  | ok a => exact hf a hx
  | error e => exact hx

theorem Sat.mono (hx : Sat x P E) (hP : ∀ a, P a → P' a) (hE : ∀ e, E e → E' e) :
    Sat x P' E' := by
  cases x with
  | ok a => exact hP a hx
  | error e => exact hE e hx

theorem sat_ite {c : Prop} [Decidable c] {y : Except ε α} (ht : c → Sat x P E)
    (hf : ¬ c → Sat y P E) : Sat (if c then x else y) P E := by
  split
  · exact ht ‹_›
  · exact hf ‹_›

theorem Sat.of_ok {a : α} (hx : Sat x P E) (h : x = .ok a) : P a := by
  subst h
  exact hx

theorem Sat.of_error {e : ε} (hx : Sat x P E) (h : x = .error e) : E e := by
  subst h
  exact hx

/-- A computation with no admissible error returns. -/
theorem Sat.returns (hx : Sat x P fun _ => False) : ∃ a, x = .ok a ∧ P a := by
  cases x with
  | ok a => exact ⟨a, rfl, hx⟩
  | error e => exact hx.elim

/-- A computation with no admissible value throws. -/
theorem Sat.throws (hx : Sat x (fun _ => False) E) : ∃ e, x = .error e ∧ E e := by
  cases x with
  | ok a => exact hx.elim
  | error e => exact ⟨e, rfl, hx⟩

instance [hP : DecidablePred P] [hE : DecidablePred E] : Decidable (Sat x P E) :=
  match x with
  | .ok a => hP a
  | .error e => hE e

/-- A computation returns one value. -/
theorem ok_unique {a b : α} (h : x = .ok a) (h' : x = .ok b) : a = b :=
  Except.ok.inj (h.symm.trans h')

theorem bind_eq_ok {b : β} : x >>= f = .ok b ↔ ∃ a, x = .ok a ∧ f a = .ok b := by
  cases x <;> simp [bind, Except.bind]

theorem bind_eq_error {e : ε} :
    x >>= f = .error e ↔ x = .error e ∨ ∃ a, x = .ok a ∧ f a = .error e := by
  cases x <;> simp [bind, Except.bind]

theorem map_eq_ok {g : α → β} {b : β} : x.map g = .ok b ↔ ∃ a, x = .ok a ∧ g a = b := by
  cases x <;> simp [Except.map]

end Outcome
