import Mathlib.Logic.Function.Basic
import Mathlib.Tactic.Common

/-! Calls on an object that a thrown error leaves as it is by then. -/

namespace Throwing

universe u

variable {ε σ α β ι : Type u} {m : EStateM ε σ α} {f : α → EStateM ε σ β}
  {g : σ → Except ε (σ × α)} {s t : σ} {a : α} {b : β} {e : ε}

@[simp] theorem run_liftExcept_ok :
    EStateM.run (liftExcept (Except.ok a : Except ε α) : EStateM ε σ α) s = .ok a s := rfl

@[simp] theorem run_liftExcept_error :
    EStateM.run (liftExcept (Except.error e : Except ε α) : EStateM ε σ α) s = .error e s := rfl

@[simp] theorem run_throw : EStateM.run (throw e : EStateM ε σ α) s = .error e s := rfl

/-- A call that changes nothing before it throws. -/
def ofExcept (g : σ → Except ε (σ × α)) : EStateM ε σ α := fun s =>
  match g s with
  | .ok (t, a) => .ok a t
  | .error e => .error e s

/-- A call on the `i`th of a family of objects. -/
def onMember [DecidableEq ι] (i : ι) (m : EStateM ε σ α) : EStateM ε (ι → σ) α := fun s =>
  match m.run (s i) with
  | .ok a t => .ok a (Function.update s i t)
  | .error e t => .error e (Function.update s i t)

theorem run_bind_ok : (m >>= f).run s = .ok b t ↔
    ∃ a x, m.run s = .ok a x ∧ (f a).run x = .ok b t := by
  rw [EStateM.run_bind]
  cases m.run s <;> simp

theorem run_bind_error : (m >>= f).run s = .error e t ↔
    m.run s = .error e t ∨ ∃ a x, m.run s = .ok a x ∧ (f a).run x = .error e t := by
  rw [EStateM.run_bind]
  cases m.run s <;> simp

theorem run_get_bind {f : σ → EStateM ε σ β} : (get >>= f).run s = (f s).run s := rfl

theorem run_set_bind {f : PUnit → EStateM ε σ β} : (set t >>= f).run s = (f ⟨⟩).run t := rfl

theorem run_liftExcept_ok_bind :
    (liftExcept (Except.ok a : Except ε α) >>= f).run s = (f a).run s := rfl

theorem run_liftExcept_bind_ok {x : Except ε α} : (liftExcept x >>= f).run s = .ok b t ↔
    ∃ a, x = .ok a ∧ (f a).run s = .ok b t := by
  cases x <;> simp

theorem run_liftExcept_bind_error {x : Except ε α} : (liftExcept x >>= f).run s = .error e t ↔
    x = .error e ∧ t = s ∨ ∃ a, x = .ok a ∧ (f a).run s = .error e t := by
  cases x <;> simp [eq_comm]

theorem run_ofExcept_ok : (ofExcept g).run s = .ok a t ↔ g s = .ok (t, a) := by
  simp only [ofExcept, EStateM.run]
  split <;> simp_all [and_comm]

theorem run_ofExcept_error : (ofExcept g).run s = .error e t ↔ g s = .error e ∧ t = s := by
  simp only [ofExcept, EStateM.run]
  split <;> simp_all [eq_comm]

section Members

variable [DecidableEq ι] {i : ι} {s t : ι → σ}

theorem run_onMember_ok :
    (onMember i m).run s = .ok a t ↔ ∃ x, m.run (s i) = .ok a x ∧ t = Function.update s i x := by
  simp only [onMember, EStateM.run]
  split <;> simp_all [eq_comm]

theorem run_onMember_error : (onMember i m).run s = .error e t ↔
    ∃ x, m.run (s i) = .error e x ∧ t = Function.update s i x := by
  simp only [onMember, EStateM.run]
  split <;> simp_all [eq_comm]

end Members

end Throwing
