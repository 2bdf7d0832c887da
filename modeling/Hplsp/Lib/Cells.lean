import Mathlib.Tactic.Common

/-! Blocks of memory cells: windows, overwrites, and their bounds-checked versions. -/

namespace Cells

universe u

variable {α β : Type u} {ε : Type*} {xs ys : List α} {p q n m : Nat}

/-- The `n` cells of `xs` from position `p`. -/
def slice (xs : List α) (p n : Nat) : List α := (xs.drop p).take n

/-- `xs` with `ys` written over the cells from position `p`. -/
def splice (xs : List α) (p : Nat) (ys : List α) : List α :=
  xs.take p ++ ys ++ xs.drop (p + ys.length)

@[simp] theorem slice_zero : slice xs p 0 = [] := by simp [slice]

theorem length_slice (h : p + n ≤ xs.length) : (slice xs p n).length = n := by
  simp only [slice, List.length_take, List.length_drop]
  omega

theorem length_splice (h : p + ys.length ≤ xs.length) : (splice xs p ys).length = xs.length := by
  simp only [splice, List.length_append, List.length_take, List.length_drop]
  omega

theorem drop_slice : (slice xs p n).drop m = slice xs (p + m) (n - m) := by
  simp [slice, List.drop_take]

theorem take_slice (h : m ≤ n) : (slice xs p n).take m = slice xs p m := by
  simp [slice, List.take_take, Nat.min_eq_left h]

theorem slice_slice (h : q + m ≤ n) : slice (slice xs p n) q m = slice xs (p + q) m := by
  rw [slice, drop_slice, take_slice (by omega)]

theorem slice_middle {zs : List α} (hp : p = xs.length) (hn : n = ys.length) :
    slice (xs ++ ys ++ zs) p n = ys := by
  subst hp
  subst hn
  simp [slice]

theorem slice_add : slice xs p (n + m) = slice xs p n ++ slice xs (p + n) m := by
  simp [slice, List.take_add, List.drop_drop]

theorem take_splice (h : p + ys.length ≤ xs.length) :
    (splice xs p ys).take (p + ys.length) = xs.take p ++ ys := by
  have hlen : (xs.take p ++ ys).length = p + ys.length := by
    simp only [List.length_append, List.length_take]
    omega
  rw [splice, ← hlen, List.take_left]

theorem take_splice_of_le (h : p + ys.length ≤ xs.length) (hq : q ≤ p) :
    (splice xs p ys).take q = xs.take q := by
  have hp : p ≤ xs.length := by omega
  rw [splice, List.append_assoc, List.take_append_of_le_length (by simp; omega), List.take_take,
    Nat.min_eq_left hq]

/-- Writing does not reach the cells behind. -/
theorem drop_splice (h : p + ys.length ≤ xs.length) (hq : p + ys.length ≤ q) :
    (splice xs p ys).drop q = xs.drop q := by
  have hlen : (xs.take p ++ ys).length = p + ys.length := by
    simp only [List.length_append, List.length_take]
    omega
  rw [splice, List.drop_append, List.drop_eq_nil_of_le (by omega), List.nil_append, hlen,
    List.drop_drop]
  congr 1
  omega

/-- Two writes, the second where the first ended, are one. -/
theorem splice_splice (h : p + ys.length ≤ xs.length) (zs : List α) :
    splice (splice xs p ys) (p + ys.length) zs = splice xs p (ys ++ zs) := by
  rw [splice, take_splice h, drop_splice h (Nat.le_add_right _ _), splice, List.length_append,
    List.append_assoc (xs.take p), Nat.add_assoc]

/-- Extending a window over freshly written cells appends them. -/
theorem slice_splice_append (hp : p ≤ q) (h : q + ys.length ≤ xs.length) :
    slice (splice xs q ys) p (q - p + ys.length) = slice xs p (q - p) ++ ys := by
  have htake := take_splice h
  have hsplit : ∀ zs : List α, (zs.drop p).take (q - p + ys.length) =
      (zs.take (q + ys.length)).drop p := by
    intro zs
    rw [List.drop_take]
    congr 1
    omega
  rw [slice, hsplit, htake, List.drop_append_of_le_length (by simp; omega), slice, List.drop_take]

theorem slice_splice_self (h : p + ys.length ≤ xs.length) :
    slice (splice xs p ys) p ys.length = ys := by
  simpa using slice_splice_append (Nat.le_refl p) h

theorem getElem?_slice {i : Nat} (h : i < n) : (slice xs p n)[i]? = xs[p + i]? := by
  rw [slice, List.getElem?_take_of_lt h, List.getElem?_drop]

theorem getElem?_splice (h : p + ys.length ≤ xs.length) (i : Nat) : (splice xs p ys)[i]? =
    if p ≤ i ∧ i < p + ys.length then ys[i - p]? else xs[i]? := by
  have hp : (xs.take p).length = p := by
    rw [List.length_take]
    omega
  rw [splice, List.append_assoc]
  split
  next hin =>
    rw [List.getElem?_append_right (by omega), hp, List.getElem?_append_left (by omega)]
  next hout =>
    rcases Nat.lt_or_ge i p with hbefore | hbehind
    · rw [List.getElem?_append_left (by omega), List.getElem?_take_of_lt hbefore]
    · rw [List.getElem?_append_right (by omega), hp, List.getElem?_append_right (by omega),
        List.getElem?_drop]
      congr 1
      omega

/-- A window sees nothing of what is written outside of it. -/
theorem slice_splice_disjoint (h : p + ys.length ≤ xs.length)
    (hout : q + n ≤ p ∨ p + ys.length ≤ q) : slice (splice xs p ys) q n = slice xs q n := by
  refine List.ext_getElem? fun i => ?_
  rcases Nat.lt_or_ge i n with hi | hi
  · rw [getElem?_slice hi, getElem?_slice hi, getElem?_splice h, if_neg (by omega)]
  · have hnone : ∀ zs : List α, (slice zs q n)[i]? = none := by
      intro zs
      rw [slice, List.getElem?_take, if_neg (by omega)]
    rw [hnone, hnone]

/-- Reading outside the block throws `e`. -/
def readAt (e : ε) (xs : List α) (p n : Nat) : Except ε (List α) :=
  if p + n ≤ xs.length then .ok (slice xs p n) else .error e

/-- Writing outside the block throws `e`. -/
def writeAt (e : ε) (xs : List α) (p : Nat) (ys : List α) : Except ε (List α) :=
  if p + ys.length ≤ xs.length then .ok (splice xs p ys) else .error e

theorem readAt_eq (e : ε) (h : p + n ≤ xs.length) : readAt e xs p n = .ok (slice xs p n) :=
  if_pos h

theorem writeAt_eq (e : ε) (h : p + ys.length ≤ xs.length) :
    writeAt e xs p ys = .ok (splice xs p ys) :=
  if_pos h

theorem readAt_eq_ok {e : ε} :
    readAt e xs p n = .ok ys ↔ p + n ≤ xs.length ∧ slice xs p n = ys := by
  by_cases h : p + n ≤ xs.length <;> simp [readAt, h]

theorem writeAt_eq_ok {e : ε} {zs : List α} :
    writeAt e xs p ys = .ok zs ↔ p + ys.length ≤ xs.length ∧ splice xs p ys = zs := by
  by_cases h : p + ys.length ≤ xs.length <;> simp [writeAt, h]

/-- Writing leaves what lies in front. -/
theorem take_writeAt {e : ε} {zs : List α} (h : writeAt e xs p ys = .ok zs) (hq : q ≤ p) :
    zs.take q = xs.take q := by
  obtain ⟨hroom, rfl⟩ := writeAt_eq_ok.mp h
  exact take_splice_of_le hroom hq

theorem writeAt_writeAt (e : ε) (zs : List α) {k : List α → Except ε β} :
    (writeAt e xs p ys >>= fun xs' => writeAt e xs' (p + ys.length) zs >>= k) =
      writeAt e xs p (ys ++ zs) >>= k := by
  by_cases h : p + ys.length ≤ xs.length
  · have hlen := length_splice h
    simp only [writeAt, if_pos h, bind, Except.bind, hlen, splice_splice h, List.length_append,
      Nat.add_assoc]
  · have hlonger : ¬ p + (ys ++ zs).length ≤ xs.length := by
      rw [List.length_append]
      omega
    simp only [writeAt, if_neg h, if_neg hlonger, bind, Except.bind]

end Cells
