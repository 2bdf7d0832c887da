import Hplsp.Fault
import Hplsp.Lib.Memcmp

/-! `Slice`: views of memory, and what `compare` makes of two of them. -/

namespace Hplsp

open Outcome Memcmp

/-- `data` is the memory from `data_` on, up to the end of the object it points into. -/
structure Slice where
  data : List UInt8
  size : Nat
  size_le : size ≤ data.length

namespace Slice

def bytes (a : Slice) : List UInt8 := a.data.take a.size

/-- `operator==`. -/
def beq (x y : Slice) : Except Fault Bool :=
  if x.size = y.size then do
    let r ← memcmp (.overrun .slice) x.data y.data x.size
    .ok (r == .eq)
  else .ok false

/-- `starts_with`. -/
def startsWith (a s : Slice) : Except Fault Bool :=
  if s.size ≤ a.size then do
    let r ← memcmp (.overrun .slice) a.data s.data s.size
    .ok (r == .eq)
  else .ok false

/-- The variable of this name in `compare`. -/
def minLen (a s : Slice) : Nat := if s.size < a.size then a.size else s.size

/-- `compare`: what `memcmp` and the sizes say is returned as a `bool`. -/
def compare (a s : Slice) : Except Fault Bool := do
  let r ← memcmp (.overrun .slice) a.data s.data (minLen a s)
  let r := if r = .eq then
      if a.size < s.size then .lt
      else if s.size < a.size then .gt
      else r
    else r
  .ok (r != .eq)

/-- The comparison stays within the shorter slice, and as an integer its result is negative, zero
or positive as the bytes of the first come before, are or come behind those of the second. -/
structure ThreeWay (a b : Slice) : Prop where
  inside : minLen a b ≤ min a.size b.size
  signs : ∃ r, a.compare b = .ok r ∧ (r.toInt < 0 ↔ a.bytes < b.bytes) ∧
    (r.toInt = 0 ↔ a.beq b = .ok true) ∧ (0 < r.toInt ↔ b.bytes < a.bytes)

def Antisymmetric (a b : Slice) : Prop :=
  ∃ r r', a.compare b = .ok r ∧ b.compare a = .ok r' ∧ (r.toInt < 0 ↔ 0 < r'.toInt)

def Transitive (a b c : Slice) : Prop :=
  ∀ r r', a.compare b = .ok r → b.compare c = .ok r' → r.toInt < 0 → r'.toInt < 0 →
    ∃ r'', a.compare c = .ok r'' ∧ r''.toInt < 0

variable {a b : Slice}

theorem length_bytes : a.bytes.length = a.size := List.length_take_of_le a.size_le

/-- `operator==` stays within the slices, and tells whether their bytes are the same. -/
theorem beq_eq : a.beq b = .ok (decide (a.bytes = b.bytes)) := by
  by_cases hsize : a.size = b.size
  · rw [beq, if_pos hsize, memcmp_eq _ a.size_le (by rw [hsize]; exact b.size_le), ok_bind]
    nth_rewrite 2 [hsize]
    rw [bytes, bytes]
    congr 1
    rw [Bool.eq_iff_iff, beq_iff_eq, decide_eq_true_iff, Std.compare_eq_iff_eq]
  · have hne : a.bytes ≠ b.bytes := by
      intro heq
      rw [← length_bytes, ← length_bytes (a := b), heq] at hsize
      exact hsize rfl
    rw [beq, if_neg hsize, decide_eq_false hne]

/-- So does `starts_with`, which compares no more than the prefix. -/
theorem startsWith_eq : a.startsWith b = .ok (decide (b.bytes <+: a.bytes)) := by
  by_cases hsize : b.size ≤ a.size
  · have htake : a.data.take b.size = a.bytes.take b.bytes.length := by
      rw [length_bytes, bytes, List.take_take, Nat.min_eq_left hsize]
    rw [startsWith, if_pos hsize, memcmp_eq _ (Nat.le_trans hsize a.size_le) b.size_le, ok_bind]
    congr 1
    rw [Bool.eq_iff_iff, beq_iff_eq, decide_eq_true_iff, Std.compare_eq_iff_eq,
      List.prefix_iff_eq_take, ← htake, eq_comm, bytes]
  · have hlonger : ¬ b.bytes <+: a.bytes := by
      intro hprefix
      have := hprefix.length_le
      rw [length_bytes, length_bytes] at this
      exact hsize this
    rw [startsWith, if_neg hsize, decide_eq_false hlonger]

theorem minLen_le_iff : minLen a b ≤ min a.size b.size ↔ a.size = b.size := by
  rw [minLen]
  split <;> omega

/-- On slices of one size the result tells whether their bytes differ. -/
theorem compare_of_size_eq (hsize : a.size = b.size) :
    a.compare b = .ok (decide (a.bytes ≠ b.bytes)) := by
  have hlen : minLen a b = a.size := by rw [minLen, if_neg (by omega), hsize]
  have hlt : ¬ a.size < b.size := by omega
  have hgt : ¬ b.size < a.size := by omega
  rw [compare, hlen, memcmp_eq _ a.size_le (by rw [hsize]; exact b.size_le), ok_bind]
  simp only [if_neg hlt, if_neg hgt, ite_self]
  nth_rewrite 2 [hsize]
  rw [bytes, bytes]
  congr 1
  rw [Bool.eq_iff_iff, bne_iff_ne, decide_eq_true_iff, ne_eq, ne_eq, Std.compare_eq_iff_eq]

/-- A result of zero comes of slices of one size only. -/
theorem size_eq_of_compare (hok : a.compare b = .ok false) : a.size = b.size := by
  obtain ⟨r, -, hr⟩ := bind_eq_ok.mp hok
  dsimp only at hr
  by_contra hne
  split at hr
  · split at hr
    · cases hr
    · rw [if_pos (by omega)] at hr
      cases hr
  · cases r <;> simp_all

/-- The order and the bounds hold for slices of one size, the first of them not before the second;
antisymmetry for slices with the same bytes; and transitivity for all, as no `bool` is negative. -/
theorem compare_lawful_iff (a b : Slice) :
    (ThreeWay a b ↔ a.size = b.size ∧ ¬ a.bytes < b.bytes) ∧
    (Antisymmetric a b ↔ a.bytes = b.bytes) ∧ ∀ c, Transitive a b c := by
  refine ⟨?_, ?_, fun c r r' _ _ hneg _ => by cases r <;> simp at hneg⟩
  · constructor
    · rintro ⟨hinside, r, hok, hneg, -, -⟩
      refine ⟨minLen_le_iff.mp hinside, fun hlt => ?_⟩
      have := hneg.mpr hlt
      cases r <;> simp at this
    · rintro ⟨hsize, hle⟩
      refine ⟨minLen_le_iff.mpr hsize, _, compare_of_size_eq hsize, ?_, ?_, ?_⟩
      · exact iff_of_false (by cases decide (a.bytes ≠ b.bytes) <;> decide) hle
      · rw [beq_eq]
        by_cases heq : a.bytes = b.bytes <;> simp [heq]
      · have horder := not_lt_iff.mp hle
        by_cases heq : a.bytes = b.bytes
        · exact iff_of_false (by simp [heq]) (by rw [heq]; exact List.lt_irrefl _)
        · exact iff_of_true (by simp [heq]) (horder.resolve_left heq)
  · constructor
    · rintro ⟨r, r', hok, hok', hiff⟩
      cases r' with
      | true =>
        have := hiff.mpr (by decide)
        cases r <;> simp at this
      | false =>
        have hsize := size_eq_of_compare hok'
        rw [compare_of_size_eq hsize] at hok'
        have hsame := of_decide_eq_false (Except.ok.inj hok')
        exact (not_not.mp hsame).symm
    · intro heq
      have hsize : a.size = b.size := by rw [← length_bytes, heq, length_bytes]
      refine ⟨_, _, compare_of_size_eq hsize, compare_of_size_eq hsize.symm, ?_⟩
      rw [decide_eq_false (not_not_intro heq), decide_eq_false (not_not_intro heq.symm)]
      decide

/-- A slice before another of its size; and a slice that ends where its memory does, compared with
a longer one. -/
theorem compare_misses : ∃ a b c : Slice, a.bytes < b.bytes ∧ a.compare b = .ok true ∧
    a.compare c = .error (.overrun .slice) ∧ ¬ ThreeWay a b ∧ ¬ ThreeWay a c := by
  refine ⟨⟨[97], 1, by decide⟩, ⟨[98], 1, by decide⟩, ⟨[97, 98], 2, by decide⟩,
    by decide, by decide, by decide, ?_, ?_⟩
  · rintro ⟨-, r, hok, hneg, -⟩
    obtain rfl : true = r := ok_unique (by decide) hok
    exact absurd (hneg.mpr (by decide)) (by decide)
  · rintro ⟨hinside, -⟩
    exact absurd hinside (by decide)

end Slice

end Hplsp
