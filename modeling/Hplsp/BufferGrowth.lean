import Mathlib.Data.Nat.Log
import Hplsp.Buffer

/-! The representation invariant of `Buffer`, and the capacities that its growth loop reaches. -/

namespace Hplsp

open Outcome

/-- `2 ^ e` is the least power of two that is at least `n`. -/
def IsRoundUp (n e : Nat) : Prop := n ≤ 2 ^ e ∧ 2 ^ e < 2 * n

theorem exists_isRoundUp {n : Nat} (hn : 0 < n) (h : n ≤ 2 ^ 63) : ∃ e ≤ 63, IsRoundUp n e := by
  refine ⟨Nat.clog 2 n, Nat.clog_le_of_le_pow h, Nat.le_pow_clog (by omega) n, ?_⟩
  rcases Nat.lt_or_ge 1 n with h1 | h1
  · have hpred := Nat.pow_pred_clog_lt_self (b := 2) (by omega) h1
    have hpos : 0 < Nat.clog 2 n := Nat.clog_pos (by omega) h1
    have hsucc : 2 ^ Nat.clog 2 n = 2 * 2 ^ (Nat.clog 2 n).pred := by
      rw [← Nat.pow_succ', Nat.succ_pred_eq_of_pos hpos]
    omega
  · have hone : n = 1 := by omega
    subst hone
    simp

theorem IsRoundUp.unique {n e e' : Nat} (h : IsRoundUp n e) (h' : IsRoundUp n e') : e = e' := by
  have hle : ∀ {i j}, IsRoundUp n i → IsRoundUp n j → i ≤ j := by
    intro i j hi hj
    obtain ⟨-, hlt⟩ := hi
    obtain ⟨hge, -⟩ := hj
    refine Nat.le_of_lt_succ ((Nat.pow_lt_pow_iff_right (show 1 < 2 by decide)).mp ?_)
    rw [Nat.pow_succ]
    omega
  exact Nat.le_antisymm (hle h h') (hle h' h)

/-- The loop of `roundUp2Power` where every doubling has to fit 64 bits. -/
def roundUpChecked (size : Nat) : Nat → Nat → Option Nat
  | 0, _ => none
  | fuel + 1, roundUp =>
    if roundUp < size then (Word64.mulChecked roundUp 2).bind (roundUpChecked size fuel)
    else some roundUp

theorem roundUpChecked_eq {n e : Nat} (he : e ≤ 63) (h : IsRoundUp n e) :
    ∀ fuel j, j ≤ e → e - j < fuel → roundUpChecked n fuel (2 ^ j) = some (2 ^ e) := by
  intro fuel
  induction fuel with
  | zero => intro j _ hf; omega
  | succ fuel ih =>
    intro j hj hf
    by_cases hlt : 2 ^ j < n
    · have hne : j ≠ e := by
        intro hje
        subst hje
        exact absurd h.1 (by omega)
      have hpow : 2 ^ (j + 1) ≤ 2 ^ 63 := Nat.pow_le_pow_right (by omega) (by omega)
      rw [roundUpChecked, if_pos hlt, Word64.mulChecked_of_lt (by omega), ← Nat.pow_succ]
      exact ih (j + 1) (by omega) (by omega)
    · have hje : j = e := by
        by_contra hne
        have hpow : 2 ^ (j + 1) ≤ 2 ^ e := Nat.pow_le_pow_right (by omega) (by omega)
        have := h.2
        rw [Nat.pow_succ] at hpow
        omega
      rw [roundUpChecked, if_neg hlt, hje]

/-- What the checked loop returns, the loop of the source returns. -/
theorem roundUpLoop_of_checked {n result : Nat} : ∀ fuel roundUp,
    roundUpChecked n fuel roundUp = some result → roundUpLoop n fuel roundUp = .ok result := by
  intro fuel
  induction fuel with
  | zero => intro roundUp hok; cases hok
  | succ fuel ih =>
    intro roundUp hok
    rw [roundUpChecked] at hok
    rw [roundUpLoop]
    split at hok
    · rename_i hlt
      obtain ⟨double, hdouble, hok⟩ := Option.bind_eq_some_iff.mp hok
      rw [if_pos hlt, Word64.mul_of_mulChecked hdouble]
      exact ih double hok
    · rename_i hge
      cases hok
      exact if_neg hge

def roundUp2PowerChecked (size : Nat) : Option Nat :=
  if size = 0 then some 0 else roundUpChecked size 65 1

theorem roundUp2PowerChecked_eq {n e : Nat} (hn : 0 < n) (he : e ≤ 63) (h : IsRoundUp n e) :
    roundUp2PowerChecked n = some (2 ^ e) := by
  rw [roundUp2PowerChecked, if_neg (by omega)]
  exact roundUpChecked_eq he h 65 0 (Nat.zero_le e) (by omega)

theorem roundUp2Power_of_checked {n result : Nat} (h : roundUp2PowerChecked n = some result) :
    roundUp2Power n = .ok result := by
  rw [roundUp2PowerChecked] at h
  rw [roundUp2Power]
  split at h
  · rename_i hzero
    cases h
    exact if_pos hzero
  · rename_i hne
    rw [if_neg hne]
    exact roundUpLoop_of_checked _ _ h

theorem roundUp2Power_eq {n e : Nat} (hn : 0 < n) (he : e ≤ 63) (h : IsRoundUp n e) :
    roundUp2Power n = .ok (2 ^ e) :=
  roundUp2Power_of_checked (roundUp2PowerChecked_eq hn he h)

/-- The capacities that `AssureSpace` and `Shrink` make: powers of two, and half-way past one. -/
def IsCapacity (capacity : Nat) : Prop :=
  capacity = 0 ∨ ∃ k, capacity = 2 ^ k ∨ capacity = 3 * 2 ^ k

theorem isCapacity_two_pow (k : Nat) : IsCapacity (2 ^ k) := Or.inr ⟨k, Or.inl rfl⟩

theorem isCapacity_three_mul_two_pow (k : Nat) : IsCapacity (3 * 2 ^ k) := Or.inr ⟨k, Or.inr rfl⟩

/-- Rounding up such a capacity adds a third at most. -/
theorem IsCapacity.roundUp_le {capacity e : Nat} (h : IsCapacity capacity)
    (hround : IsRoundUp capacity e) : 3 * 2 ^ e ≤ 4 * capacity := by
  obtain rfl | ⟨k, rfl | rfl⟩ := h
  · exact absurd hround.2 (Nat.not_lt_zero _)
  · have hself : IsRoundUp (2 ^ k) k := ⟨Nat.le_refl _, by have := Nat.two_pow_pos k; omega⟩
    rw [hround.unique hself]
    omega
  · have hnext : IsRoundUp (3 * 2 ^ k) (k + 2) := by
      have := Nat.two_pow_pos k
      constructor <;> rw [Nat.pow_succ, Nat.pow_succ] <;> omega
    rw [hround.unique hnext, Nat.pow_succ, Nat.pow_succ]
    omega

namespace Buffer

/-- The representation invariant: the cursors in order, inside an array of `capacity_` bytes. -/
structure Valid (b : Buffer) : Prop where
  read_le : b.readPos ≤ b.writePos
  write_le : b.writePos ≤ b.capacity
  capacity_eq : b.capacity = b.buffer.length
  capacity_le : b.capacity ≤ ptrdiffMax

instance (b : Buffer) : Decidable b.Valid :=
  decidable_of_iff (b.readPos ≤ b.writePos ∧ b.writePos ≤ b.capacity ∧
    b.capacity = b.buffer.length ∧ b.capacity ≤ ptrdiffMax)
    ⟨fun ⟨hr, hw, hc, hm⟩ => ⟨hr, hw, hc, hm⟩, fun ⟨hr, hw, hc, hm⟩ => ⟨hr, hw, hc, hm⟩⟩

variable {b : Buffer}

theorem Valid.capacity_lt (h : b.Valid) : b.capacity < 2 ^ 63 := by
  have := h.capacity_le
  simp only [ptrdiffMax] at this
  omega

theorem Valid.readableSize_eq (h : b.Valid) : b.readableSize = b.writePos - b.readPos := by
  have := h.capacity_lt
  exact Word64.sub_of_le h.read_le (by have := h.write_le; omega)

theorem Valid.writableSize_eq (h : b.Valid) : b.writableSize = b.capacity - b.writePos := by
  have := h.capacity_lt
  exact Word64.sub_of_le h.write_le (by omega)

theorem Valid.contents_eq (h : b.Valid) :
    b.contents = Cells.slice b.buffer b.readPos (b.writePos - b.readPos) := by
  rw [contents, h.readableSize_eq]

theorem Valid.length_contents (h : b.Valid) : b.contents.length = b.readableSize := by
  have := h.read_le
  have := h.write_le
  have := h.capacity_eq
  rw [h.contents_eq, Cells.length_slice (by omega), h.readableSize_eq]

theorem Valid.isEmpty_iff (h : b.Valid) : b.isEmpty = true ↔ b.contents = [] := by
  rw [isEmpty, beq_iff_eq, ← h.length_contents, List.length_eq_zero_iff]

theorem valid_new : Buffer.new.Valid := ⟨Nat.le_refl _, Nat.le_refl _, rfl, Nat.zero_le _⟩

@[simp] theorem contents_new : Buffer.new.contents = [] := rfl

/-- What the growth loop leaves in `capacity_` when it needs to reach `target` in all. -/
structure Grown (capacity target result : Nat) : Prop where
  le_result : capacity ≤ result
  reached : target ≤ result
  bound : result = capacity ∨ result ≤ kDefaultSize ∨ result < 2 * target

/-- The bounds from a capacity that the class itself made. -/
structure Tight (capacity target result : Nat) : Prop extends Grown capacity target result where
  tight : IsCapacity capacity →
    result = capacity ∨ result ≤ kDefaultSize ∨ 2 * result ≤ 3 * target
  isCapacity : IsCapacity capacity → IsCapacity result

/-- The growth loop where every product has to fit 64 bits. -/
def growChecked (b : Buffer) (needsize : Nat) : Nat → Nat → Option Nat
  | 0, _ => none
  | fuel + 1, capacity =>
    if Word64.add ({ b with capacity := capacity } : Buffer).writableSize b.readPos < needsize then
      if capacity < kDefaultSize then growChecked b needsize fuel kDefaultSize
      else if capacity ≤ kMaxBufferSize then
        (roundUp2PowerChecked capacity).bind fun newCapacity =>
          if capacity < newCapacity then growChecked b needsize fuel newCapacity
          else (Word64.mulChecked 3 newCapacity).bind fun n => growChecked b needsize fuel (n / 2)
      else none
    else some capacity

theorem growCapacity_of_checked {needsize result : Nat} : ∀ fuel capacity,
    growChecked b needsize fuel capacity = some result →
      growCapacity b needsize fuel capacity = .ok result := by
  intro fuel
  induction fuel with
  | zero => intro capacity hok; cases hok
  | succ fuel ih =>
    intro capacity hok
    rw [growChecked] at hok
    rw [growCapacity]
    split at hok
    · rename_i hguard
      rw [if_pos hguard]
      split at hok
      · rename_i hsmall
        rw [if_pos hsmall]
        exact ih _ hok
      · rename_i hlarge
        rw [if_neg hlarge]
        split at hok
        · rename_i hmax
          obtain ⟨newCapacity, hround, hok⟩ := Option.bind_eq_some_iff.mp hok
          rw [if_pos hmax, roundUp2Power_of_checked hround, ok_bind]
          split at hok
          · rename_i hnext
            rw [if_pos hnext]
            exact ih _ hok
          · rename_i hnext
            obtain ⟨n, hmul, hok⟩ := Option.bind_eq_some_iff.mp hok
            rw [if_neg hnext, Word64.mul_of_mulChecked hmul]
            exact ih _ hok
        · cases hok
    · rename_i hguard
      cases hok
      exact if_neg hguard

theorem newArray_sat (n : Nat) :
    Sat (newArray n) (fun xs => xs.length = n ∧ n ≤ ptrdiffMax)
      (fun e => e = .badAlloc ∧ ptrdiffMax < n) := by
  refine sat_ite (fun h => ?_) (fun h => ?_)
  · simp [h]
  · simp [Nat.lt_of_not_ge h]

section Growth

variable {needsize : Nat} (hb : b.readPos ≤ b.writePos)
include hb

/-- The loop's own test, freed of its wrap-around: `capacity_` has to reach
`ReadableSize() + needsize`. -/
theorem growCapacity_guard {capacity : Nat} (hcap : b.writePos ≤ capacity)
    (hlt : capacity < 2 ^ 64) :
    Word64.add ({ b with capacity := capacity } : Buffer).writableSize b.readPos < needsize ↔
      capacity < b.writePos - b.readPos + needsize := by
  rw [writableSize, Word64.sub_of_le hcap hlt, Word64.add_of_lt (by omega)]
  omega

/-- Nothing to do once the target is reached. -/
theorem growChecked_done {fuel capacity : Nat} (hw : b.writePos ≤ capacity)
    (hcap : capacity < 2 ^ 64) (hdone : b.writePos - b.readPos + needsize ≤ capacity) :
    growChecked b needsize (fuel + 1) capacity = some capacity ∧
      Tight capacity (b.writePos - b.readPos + needsize) capacity := by
  refine ⟨?_, ⟨Nat.le_refl _, hdone, Or.inl rfl⟩, fun _ => Or.inl rfl, id⟩
  rw [growChecked, if_neg (mt (growCapacity_guard hb hw hcap).mp (by omega))]

/-- From the first power of two on, each round moves to the next power of two or half-way
past it; `2 * (63 - e) + 2` bounds the rounds that are left. -/
theorem growChecked_large (hneed : b.writePos - b.readPos + needsize < 2 ^ 63) :
    ∀ fuel capacity e, IsRoundUp capacity e → e ≤ 63 → kDefaultSize ≤ capacity →
      b.writePos ≤ capacity → 2 * (63 - e) + (if capacity = 2 ^ e then 1 else 2) ≤ fuel →
      ∃ result, growChecked b needsize fuel capacity = some result ∧
        Tight capacity (b.writePos - b.readPos + needsize) result := by
  intro fuel
  induction fuel with
  | zero => intro capacity e _ _ _ _ hf; split at hf <;> omega
  | succ fuel ih =>
    intro capacity e hround he hdef hw hf
    have hpow : 2 ^ e ≤ 2 ^ 63 := Nat.pow_le_pow_right (by omega) he
    have hthird : IsCapacity capacity → 3 * 2 ^ e ≤ 4 * capacity := fun h => h.roundUp_le hround
    obtain ⟨hle, hlt⟩ := hround
    by_cases hguard : capacity < b.writePos - b.readPos + needsize
    · have hround : roundUp2PowerChecked capacity = some (2 ^ e) :=
        roundUp2PowerChecked_eq (by simp only [kDefaultSize] at hdef; omega) he ⟨hle, hlt⟩
      rw [growChecked, if_pos ((growCapacity_guard hb hw (by omega)).mpr hguard),
        if_neg (by omega), if_pos (by simp only [kMaxBufferSize]; omega), hround, Option.bind_some]
      by_cases hnext : capacity < 2 ^ e
      · -- up to the next power of two
        have hmore := ih (2 ^ e) e ⟨Nat.le_refl _, by omega⟩ he (by omega) (by omega)
          (by rw [if_neg (by omega)] at hf; rw [if_pos rfl]; omega)
        obtain ⟨result, hok, hgrown, htight, hshape⟩ := hmore
        refine ⟨result, by rw [if_pos hnext, hok], ?_, fun h => ?_, fun _ => ?_⟩
        · exact ⟨by have := hgrown.le_result; omega, hgrown.reached,
            by rcases hgrown.bound with h | h | h <;> omega⟩
        · have := hthird h
          have := htight (isCapacity_two_pow e)
          omega
        · exact hshape (isCapacity_two_pow e)
      · -- from a power of two to one and a half times it
        have heq : capacity = 2 ^ e := by omega
        have he63 : e ≠ 63 := by
          intro h
          subst h
          omega
        obtain ⟨k, rfl⟩ : ∃ k, e = k + 1 := by
          refine Nat.exists_eq_succ_of_ne_zero ?_
          intro h
          subst h
          simp only [kDefaultSize] at hdef
          omega
        have hk : 2 ^ (k + 1) ≤ 2 ^ 62 := Nat.pow_le_pow_right (by omega) (by omega)
        have hmul : Word64.mulChecked 3 (2 ^ (k + 1)) = some (3 * 2 ^ (k + 1)) :=
          Word64.mulChecked_of_lt (by omega)
        have hhalf : 3 * 2 ^ (k + 1) / 2 = 3 * 2 ^ k := by
          rw [Nat.pow_succ]
          omega
        have hmore := ih (3 * 2 ^ k) (k + 2)
          ⟨by rw [Nat.pow_succ, Nat.pow_succ]; omega,
            by rw [Nat.pow_succ, Nat.pow_succ]; have := Nat.two_pow_pos k; omega⟩ (by omega)
          (by rw [heq, Nat.pow_succ] at hdef; omega) (by rw [heq, Nat.pow_succ] at hw; omega)
          (by rw [if_pos heq] at hf; split <;> omega)
        obtain ⟨result, hok, hgrown, htight, hshape⟩ := hmore
        refine ⟨result, by rw [if_neg hnext, hmul, Option.bind_some, hhalf, hok], ?_,
          fun _ => ?_, fun _ => ?_⟩
        · rw [Nat.pow_succ] at heq
          exact ⟨by have := hgrown.le_result; omega, hgrown.reached,
            by rcases hgrown.bound with h | h | h <;> omega⟩
        · have := htight (isCapacity_three_mul_two_pow k)
          rw [Nat.pow_succ] at heq
          omega
        · exact hshape (isCapacity_three_mul_two_pow k)
    · exact ⟨capacity, growChecked_done hb hw (by omega) (by omega)⟩

/-- The growth loop ends and no product in it leaves 64 bits, whatever capacity it starts from. -/
theorem growChecked_spec {capacity : Nat}
    (hneed : b.writePos - b.readPos + needsize < 2 ^ 63) (hw : b.writePos ≤ capacity)
    (hcap : capacity < 2 ^ 63) :
    ∃ result, growChecked b needsize 128 capacity = some result ∧
      Tight capacity (b.writePos - b.readPos + needsize) result := by
  by_cases hsmall : capacity < kDefaultSize
  · by_cases hguard : capacity < b.writePos - b.readPos + needsize
    · obtain ⟨result, hok, hgrown, htight, hshape⟩ := growChecked_large hb hneed 127 kDefaultSize 8
        ⟨by simp [kDefaultSize], by simp [kDefaultSize]⟩ (by omega) (Nat.le_refl _) (by omega)
        (by simp [kDefaultSize])
      have hdefault : IsCapacity kDefaultSize := isCapacity_two_pow 8
      refine ⟨result, ?_, ⟨by have := hgrown.le_result; omega, hgrown.reached,
        by have := hgrown.bound; omega⟩, fun _ => ?_, fun _ => hshape hdefault⟩
      · rw [growChecked, if_pos ((growCapacity_guard hb hw (by omega)).mpr hguard), if_pos hsmall]
        exact hok
      · have := htight hdefault
        omega
    · exact ⟨capacity, growChecked_done hb hw (by omega) (by omega)⟩
  · have hpos : 0 < capacity := by simp only [kDefaultSize] at hsmall; omega
    obtain ⟨e, he, hround⟩ := exists_isRoundUp hpos (by omega)
    exact growChecked_large hb hneed 128 capacity e hround he (by omega) hw
      (by split <;> omega)

/-- The growth loop ends, whatever the capacity it starts from. -/
theorem growCapacity_spec {capacity : Nat}
    (hneed : b.writePos - b.readPos + needsize < 2 ^ 63) (hw : b.writePos ≤ capacity)
    (hcap : capacity < 2 ^ 63) :
    ∃ result, growCapacity b needsize 128 capacity = .ok result ∧
      Grown capacity (b.writePos - b.readPos + needsize) result := by
  obtain ⟨result, hok, htight⟩ := growChecked_spec hb hneed hw hcap
  exact ⟨result, growCapacity_of_checked _ _ hok, htight.toGrown⟩

end Growth

end Buffer

end Hplsp
