import Mathlib.Tactic.Common

/-! Comparing blocks of bytes, the first difference deciding. -/

namespace Memcmp

universe u

variable {ε : Type u} {e : ε} {xs ys us vs : List UInt8} {n : Nat}

/-- `memcmp`, of whose result the sign alone is specified; comparing outside of a block throws. -/
def memcmp (e : ε) (xs ys : List UInt8) (n : Nat) : Except ε Ordering :=
  if n ≤ xs.length ∧ n ≤ ys.length then .ok (compare (xs.take n) (ys.take n)) else .error e

theorem memcmp_eq (e : ε) (hx : n ≤ xs.length) (hy : n ≤ ys.length) :
    memcmp e xs ys n = .ok (compare (xs.take n) (ys.take n)) :=
  if_pos ⟨hx, hy⟩

/-- The bytewise comparison is the lexicographic order. -/
theorem compare_eq_lt_iff : compare xs ys = .lt ↔ xs < ys := by
  induction xs generalizing ys with
  | nil =>
    cases ys with
    | nil => simp
    | cons y ys => simp [List.compare_nil_cons]
  | cons x xs ih =>
    cases ys with
    | nil => simp [List.compare_cons_nil]
    | cons y ys =>
      rw [List.compare_cons_cons, Ordering.then_eq_lt, ih, List.cons_lt_cons_iff,
        Std.compare_eq_lt, Std.compare_eq_iff_eq]

theorem compare_eq_gt_iff : compare xs ys = .gt ↔ ys < xs := by
  rw [← compare_eq_lt_iff]
  exact Std.OrientedCmp.gt_iff_lt

/-- What does not come before comes behind or is the same. -/
theorem not_lt_iff : ¬ xs < ys ↔ xs = ys ∨ ys < xs := by
  rw [← compare_eq_lt_iff, ← compare_eq_gt_iff, ← Std.compare_eq_iff_eq (a := xs)]
  cases compare xs ys <;> simp

/-- Blocks that begin with parts of one length are compared part by part. -/
theorem compare_append (h : xs.length = ys.length) :
    compare (xs ++ us) (ys ++ vs) = (compare xs ys).then (compare us vs) := by
  induction xs generalizing ys with
  | nil =>
    obtain rfl := List.length_eq_zero_iff.mp h.symm
    simp
  | cons x xs ih =>
    cases ys with
    | nil => cases h
    | cons y ys =>
      rw [List.cons_append, List.cons_append, List.compare_cons_cons, List.compare_cons_cons,
        ih (Nat.succ.inj h), Ordering.then_assoc]

end Memcmp
