import Mathlib.Algebra.Group.Nat.Defs
import Mathlib.Tactic.Common

/-! Unsigned 64-bit arithmetic on naturals: every operation wraps modulo `2 ^ 64`. -/

namespace Word64

def size : Nat := 2 ^ 64

def add (a b : Nat) : Nat := (a + b) % size

def sub (a b : Nat) : Nat := (a + (size - b % size)) % size

def mul (a b : Nat) : Nat := a * b % size

/-- A product that has to fit. -/
def mulChecked (a b : Nat) : Option Nat := if a * b < size then some (a * b) else none

variable {a b : Nat}

theorem add_of_lt (h : a + b < 2 ^ 64) : add a b = a + b := Nat.mod_eq_of_lt h

theorem mul_of_lt (h : a * b < 2 ^ 64) : mul a b = a * b := Nat.mod_eq_of_lt h

theorem mulChecked_of_lt (h : a * b < 2 ^ 64) : mulChecked a b = some (a * b) := if_pos h

/-- A checked product is the wrapped one. -/
theorem mul_of_mulChecked {n : Nat} (h : mulChecked a b = some n) : mul a b = n := by
  rw [mulChecked] at h
  split at h
  · rename_i hlt
    cases h
    exact mul_of_lt hlt
  · cases h

theorem sub_of_le (h : b ≤ a) (ha : a < 2 ^ 64) : sub a b = a - b := by
  simp only [sub, size]
  omega

end Word64
