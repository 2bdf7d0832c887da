import Hplsp.BufferLimits

/-! The capacities that a buffer can have, and the largest request that gets an array. -/

namespace Hplsp.Buffer

open Outcome

variable {b b' : Buffer} {needsize : Nat}

/-- The cursors in order, below a capacity that the class itself made. Nothing is said of the
array, which may be shorter once a `new[]` has thrown. -/
structure Ordered (b : Buffer) : Prop where
  read_le : b.readPos ≤ b.writePos
  write_le : b.writePos ≤ b.capacity
  capacity_le : b.capacity ≤ 2 ^ 63
  isCapacity : IsCapacity b.capacity

/-- A valid buffer with such a capacity. -/
structure Sized (b : Buffer) : Prop extends b.Valid where
  isCapacity : IsCapacity b.capacity

theorem sized_new : new.Sized := ⟨valid_new, Or.inl rfl⟩

theorem Sized.ordered (h : b.Sized) : b.Ordered :=
  ⟨h.read_le, h.write_le, h.capacity_lt.le, h.isCapacity⟩

theorem Ordered.readableSize_eq (h : b.Ordered) : b.readableSize = b.writePos - b.readPos := by
  have hwle := h.write_le
  have hcap := h.capacity_le
  exact Word64.sub_of_le h.read_le (by omega)

theorem Ordered.writableSize_eq (h : b.Ordered) : b.writableSize = b.capacity - b.writePos := by
  have hcap := h.capacity_le
  exact Word64.sub_of_le h.write_le (by omega)

/-- Of the capacities below `3 * 2 ^ 61` the last is `2 ^ 62`. -/
theorem capacity_le_of_lt {capacity : Nat} (h : IsCapacity capacity)
    (hlt : capacity < 3 * 2 ^ 61) : capacity ≤ 2 ^ 62 := by
  obtain rfl | ⟨k, rfl | rfl⟩ := h
  · exact Nat.zero_le _
  · refine Nat.pow_le_pow_right (by omega) (Nat.le_of_lt_succ ?_)
    exact (Nat.pow_lt_pow_iff_right (show 1 < 2 by decide)).mp (by omega)
  · have hk : k < 61 := (Nat.pow_lt_pow_iff_right (show 1 < 2 by decide)).mp (by omega)
    have hpow : 2 ^ k ≤ 2 ^ 60 := Nat.pow_le_pow_right (by omega) (by omega)
    omega

/-- The last capacity that an array can have. -/
theorem Sized.capacity_le_last (h : b.Sized) : b.capacity ≤ 3 * 2 ^ 61 := by
  by_contra hmore
  have hmax := h.capacity_lt
  rcases h.isCapacity with hzero | ⟨k, hk | hk⟩
  · omega
  · have hlt : 2 ^ k < 2 ^ 63 := hk ▸ hmax
    have hk62 : k < 63 := (Nat.pow_lt_pow_iff_right (show 1 < 2 by decide)).mp hlt
    have hpow : 2 ^ k ≤ 2 ^ 62 := Nat.pow_le_pow_right (by omega) (by omega)
    omega
  · have hk62 : k < 62 := (Nat.pow_lt_pow_iff_right (show 1 < 2 by decide)).mp (by omega)
    have hpow : 2 ^ k ≤ 2 ^ 61 := Nat.pow_le_pow_right (by omega) (by omega)
    omega

/-- The growth loop keeps to such capacities. -/
theorem growCapacity_isCapacity {result : Nat} : ∀ fuel capacity, IsCapacity capacity →
    capacity ≤ 2 ^ 63 → growCapacity b needsize fuel capacity = .ok result →
      IsCapacity result ∧ result ≤ 2 ^ 63 := by
  intro fuel
  induction fuel with
  | zero => intro capacity _ _ hok; cases hok
  | succ fuel ih =>
    intro capacity hcap hle hok
    rcases growCapacity_cases hok with ⟨-, rfl⟩ | ⟨next, hnext, hok⟩
    · exact ⟨hcap, hle⟩
    · rcases hnext with ⟨-, rfl⟩ | ⟨-, ⟨e, he, -, -, rfl⟩ | ⟨k, hk, -, rfl⟩⟩
      · exact ih _ (isCapacity_two_pow 8) (by decide) hok
      · exact ih _ (isCapacity_two_pow e) (Nat.pow_le_pow_right (by omega) he) hok
      · have hpow : 2 ^ k ≤ 2 ^ 61 := Nat.pow_le_pow_right (by omega) hk
        exact ih _ (isCapacity_three_mul_two_pow k) (by omega) hok

/-- The capacity after `2 ^ 62` is `3 * 2 ^ 61`, and the one after that is `2 ^ 63`. -/
theorem NextCapacity.bounds {capacity next : Nat} (h : NextCapacity capacity next)
    (hle : capacity < 2 ^ 63) :
    (capacity < 2 ^ 62 → next ≤ 2 ^ 62) ∧ (capacity = 2 ^ 62 → next = 3 * 2 ^ 61) ∧
      (2 ^ 62 < capacity → next = 2 ^ 63) := by
  rcases h with ⟨hlt, rfl⟩ | ⟨-, ⟨e, he, hround, hlt, rfl⟩ | ⟨k, hk, rfl, rfl⟩⟩
  · simp only [kDefaultSize] at hlt ⊢
    omega
  · obtain ⟨hge, htwice⟩ := hround
    rcases Nat.lt_or_ge e 63 with he | he
    · have hpow : 2 ^ e ≤ 2 ^ 62 := Nat.pow_le_pow_right (by omega) (by omega)
      omega
    · obtain rfl : e = 63 := by omega
      omega
  · rw [Nat.pow_succ]
    rcases Nat.lt_or_ge k 61 with hk | hk
    · have hpow : 2 ^ k ≤ 2 ^ 60 := Nat.pow_le_pow_right (by omega) (by omega)
      omega
    · obtain rfl : k = 61 := by omega
      omega

/-- A capacity that has to grow ends as one that an array can have exactly when it does not start
past `2 ^ 62` and the target is not past `3 * 2 ^ 61`. -/
theorem growCapacity_le_iff {target result : Nat} (hb : b.readPos ≤ b.writePos)
    (htarget : target = b.writePos - b.readPos + needsize) (hlimit : target < 2 ^ 63) :
    ∀ fuel capacity, b.writePos ≤ capacity → capacity < target →
      growCapacity b needsize fuel capacity = .ok result →
        (result ≤ ptrdiffMax ↔ capacity ≤ 2 ^ 62 ∧ target ≤ 3 * 2 ^ 61) := by
  intro fuel
  induction fuel with
  | zero => intro capacity _ _ hok; cases hok
  | succ fuel ih =>
    intro capacity hw hlt hok
    have hguard := (growCapacity_guard hb hw (by omega)).mpr (htarget ▸ hlt)
    rcases growCapacity_cases hok with ⟨hdone, -⟩ | ⟨next, hnext, hok⟩
    · omega
    obtain ⟨hsmall, hmiddle, hlarge⟩ := hnext.bounds (by omega)
    have hmore := hnext.lt
    by_cases hagain : next < target
    · rw [ih next (by omega) hagain hok]
      omega
    · have hresult : result = next := by
        cases fuel with
        | zero => cases hok
        | succ fuel =>
          have hroom : b.writePos ≤ next := by omega
          rw [growCapacity, if_neg (mt (growCapacity_guard hb hroom (by omega)).mp (by omega))]
            at hok
          exact (Except.ok.inj hok).symm
      simp only [ptrdiffMax]
      omega

/-- An `AssureSpace` that returns: nothing to do, or the readable bytes moved to the start. -/
theorem assureSpace_cases (hok : b.assureSpace needsize = .ok b') :
    b' = b ∧ needsize ≤ b.writableSize ∨
      ∃ capacity buffer, growCapacity b needsize 128 b.capacity = .ok capacity ∧
        b' = ⟨0, b.readableSize, capacity, buffer⟩ := by
  rw [assureSpace] at hok
  split at hok
  · rename_i hroom
    cases hok
    exact Or.inl ⟨rfl, hroom⟩
  · obtain ⟨capacity, hgrow, hok⟩ := bind_eq_ok.mp hok
    right
    split at hok
    · obtain ⟨tmp, -, hok⟩ := bind_eq_ok.mp hok
      split at hok
      · cases hok
        exact ⟨capacity, tmp, hgrow, rfl⟩
      · obtain ⟨data, -, hok⟩ := bind_eq_ok.mp hok
        obtain ⟨array, -, hok⟩ := bind_eq_ok.mp hok
        cases hok
        exact ⟨capacity, array, hgrow, rfl⟩
    · split at hok
      · obtain ⟨data, -, hok⟩ := bind_eq_ok.mp hok
        obtain ⟨array, -, hok⟩ := bind_eq_ok.mp hok
        cases hok
        exact ⟨capacity, array, hgrow, rfl⟩
      · cases hok

/-- A `PushData` that returns copied nothing, or its block into what `AssureSpace` left. -/
theorem pushData_cases {data : Data} {n : Nat} (hok : b.pushData data = .ok (b', n)) :
    b' = b.produce 0 ∨ ∃ b₁ size buffer, b.assureSpace (Word64.add size 0) = .ok b₁ ∧
      Word64.add size 0 ≤ b₁.writableSize ∧ b' = { b₁ with buffer := buffer }.produce size := by
  obtain ⟨⟨b₁, k⟩, hat, hok⟩ := bind_eq_ok.mp hok
  simp only at hok
  split at hok
  · cases hok
    cases data with
    | null size =>
      cases hat
      exact Or.inl rfl
    | block bytes =>
      rw [pushDataAt] at hat
      split at hat
      · cases hat
        exact Or.inl rfl
      · split at hat
        · cases hat
          exact Or.inl rfl
        · obtain ⟨b₂, hassure, hat⟩ := bind_eq_ok.mp hat
          split at hat
          · rename_i hroom
            obtain ⟨buffer, -, hat⟩ := bind_eq_ok.mp hat
            cases hat
            exact Or.inr ⟨b₂, bytes.length, buffer, hassure, hroom, rfl⟩
          · cases hat
  · cases hok

/-- A `Consume` that returns moved `readPos_` up to `writePos_` at most. -/
theorem consume_cases {bytes : Nat} (hok : b.consume bytes = .ok b') :
    b' = { b with readPos := 0, writePos := 0 } ∨
      ∃ readPos ≤ b.writePos, b' = { b with readPos := readPos } := by
  rw [consume] at hok
  split at hok
  · rename_i hle
    cases hok
    split
    · exact Or.inl rfl
    · exact Or.inr ⟨_, hle, rfl⟩
  · cases hok

/-- A `Shrink` that returns: nothing to do, no array left, or the least power of two for the
readable bytes. -/
theorem shrink_cases (hcap : b.capacity ≤ 2 ^ 63) (hok : b.shrink = .ok b') :
    b' = b ∧ (b.readableSize = 0 ∧ b.capacity ≤ 8 * 1024 ∨ b.capacity < 4 * b.readableSize) ∨
      b' = new ∧ b.readableSize = 0 ∨
      ∃ e buffer, IsRoundUp b.readableSize e ∧ 4 * b.readableSize ≤ b.capacity ∧
        b' = ⟨0, b.readableSize, 2 ^ e, buffer⟩ := by
  rw [shrink] at hok
  by_cases hempty : b.isEmpty = true
  · have hzero : b.readableSize = 0 := by simpa [isEmpty] using hempty
    rw [if_pos hempty] at hok
    cases hok
    split
    · exact Or.inr (Or.inl ⟨rfl, hzero⟩)
    · exact Or.inl ⟨rfl, Or.inl ⟨hzero, by omega⟩⟩
  · have hpos : b.readableSize ≠ 0 := by simpa [isEmpty] using hempty
    simp only [if_neg hempty] at hok
    split at hok
    · cases hok
      exact Or.inl ⟨rfl, Or.inr (by omega)⟩
    · obtain ⟨e, he, hround⟩ := exists_isRoundUp (n := b.readableSize) (by omega) (by omega)
      rw [roundUp2Power_eq (by omega) he hround, ok_bind] at hok
      obtain ⟨tmp, -, hok⟩ := bind_eq_ok.mp hok
      obtain ⟨data, -, hok⟩ := bind_eq_ok.mp hok
      obtain ⟨array, -, hok⟩ := bind_eq_ok.mp hok
      cases hok
      exact Or.inr (Or.inr ⟨e, array, hround, by omega, rfl⟩)

section Ordered

variable (h : b.Ordered)
include h

theorem assureSpace_ordered (hok : b.assureSpace needsize = .ok b') : b'.Ordered := by
  rcases assureSpace_cases hok with ⟨rfl, -⟩ | ⟨capacity, buffer, hgrow, rfl⟩
  · exact h
  · have hread := h.readableSize_eq
    have hwle := h.write_le
    have hmono := growCapacity_mono _ _ _ hgrow
    obtain ⟨hcap, hle⟩ := growCapacity_isCapacity _ _ h.isCapacity h.capacity_le hgrow
    exact ⟨Nat.zero_le _, by simp only; omega, hle, hcap⟩

/-- A refused `new char[capacity_]`. -/
theorem ordered_of_grown {capacity : Nat}
    (hgrow : growCapacity b needsize 128 b.capacity = .ok capacity) :
    ({ b with capacity := capacity } : Buffer).Ordered := by
  have hmono := growCapacity_mono _ _ _ hgrow
  obtain ⟨hcap, hle⟩ := growCapacity_isCapacity _ _ h.isCapacity h.capacity_le hgrow
  exact ⟨h.read_le, h.write_le.trans hmono, hle, hcap⟩

theorem produce_ordered {bytes : Nat} (hbytes : Word64.add bytes 0 ≤ b.writableSize) :
    (b.produce bytes).Ordered := by
  have hle := h.read_le
  have hwle := h.write_le
  have hcap := h.capacity_le
  rw [h.writableSize_eq] at hbytes
  simp only [Word64.add, Word64.size] at hbytes
  refine ⟨?_, ?_, hcap, h.isCapacity⟩
  · simp only [produce, Word64.add, Word64.size]
    omega
  · simp only [produce, Word64.add, Word64.size]
    omega

theorem pushData_ordered {data : Data} {n : Nat} (hok : b.pushData data = .ok (b', n)) :
    b'.Ordered := by
  rcases pushData_cases hok with rfl | ⟨b₁, size, buffer, hassure, hroom, rfl⟩
  · exact produce_ordered h (Nat.zero_le _)
  · have h₁ := assureSpace_ordered h hassure
    exact produce_ordered (b := { b₁ with buffer := buffer })
      ⟨h₁.read_le, h₁.write_le, h₁.capacity_le, h₁.isCapacity⟩ hroom

theorem clear_ordered : b.clear.Ordered :=
  ⟨Nat.le_refl _, Nat.zero_le _, h.capacity_le, h.isCapacity⟩

theorem consume_ordered {bytes : Nat} (hok : b.consume bytes = .ok b') : b'.Ordered := by
  rcases consume_cases hok with rfl | ⟨readPos, hle, rfl⟩
  · exact clear_ordered h
  · exact ⟨hle, h.write_le, h.capacity_le, h.isCapacity⟩

theorem popData_ordered {isNull : Bool} {size : Nat} {bytes : List UInt8}
    (hok : b.popData isNull size = .ok (b', bytes)) : b'.Ordered := by
  obtain ⟨out, -, hok⟩ := bind_eq_ok.mp hok
  obtain ⟨b₁, hconsume, hok⟩ := bind_eq_ok.mp hok
  cases hok
  exact consume_ordered h hconsume

theorem shrink_ordered (hok : b.shrink = .ok b') : b'.Ordered := by
  rcases shrink_cases h.capacity_le hok with ⟨rfl, -⟩ | ⟨rfl, -⟩ | ⟨e, buffer, hround, hfew, rfl⟩
  · exact h
  · exact sized_new.ordered
  · have hcap := h.capacity_le
    obtain ⟨hge, hlt⟩ := hround
    exact ⟨Nat.zero_le _, hge, by simp only; omega, isCapacity_two_pow e⟩

end Ordered

section Sized

variable (h : b.Sized)
include h

theorem assureSpace_sized (hok : b.assureSpace needsize = .ok b') : b'.Sized :=
  ⟨(assureSpace_ok h.toValid hok).1, (assureSpace_ordered h.ordered hok).isCapacity⟩

theorem produce_sized {bytes : Nat} (hbytes : bytes ≤ b.writableSize) : (b.produce bytes).Sized :=
  ⟨(h.produce hbytes).1, h.isCapacity⟩

theorem pushData_sized {data : Data} {n : Nat} (hok : b.pushData data = .ok (b', n)) :
    b'.Sized := by
  cases data with
  | null size =>
    simp only [pushData, pushDataAt, ok_bind] at hok
    split at hok
    · cases hok
      exact produce_sized h (Nat.zero_le _)
    · cases hok
  | block bytes =>
    exact ⟨(pushData_ok h.toValid hok).1, (pushData_ordered h.ordered hok).isCapacity⟩

theorem consume_sized {bytes : Nat} (hbytes : bytes ≤ b.readableSize)
    (hok : b.consume bytes = .ok b') : b'.Sized := by
  obtain ⟨b₁, hok₁, hvalid, -⟩ := consume_eq h.toValid hbytes
  obtain rfl := ok_unique hok₁ hok
  exact ⟨hvalid, (consume_ordered h.ordered hok).isCapacity⟩

theorem popData_sized {isNull : Bool} {size : Nat} {bytes : List UInt8} (hsize : size < 2 ^ 64)
    (hok : b.popData isNull size = .ok (b', bytes)) : b'.Sized := by
  obtain ⟨out, hpeek, hok⟩ := bind_eq_ok.mp hok
  obtain ⟨b₁, hconsume, hok⟩ := bind_eq_ok.mp hok
  cases hok
  refine consume_sized h ?_ hconsume
  cases isNull with
  | true =>
    simp only [peekDataAt, true_or, if_true] at hpeek
    cases hpeek
    exact Nat.zero_le _
  | false =>
    rw [peekDataAt_eq h.toValid (show size + 0 < 2 ^ 64 from hsize)] at hpeek
    cases hpeek
    rw [List.length_take, List.length_drop, h.length_contents]
    omega

theorem shrink_sized (hok : b.shrink = .ok b') : b'.Sized := by
  obtain ⟨b₁, hok₁, hvalid, -⟩ := shrink_eq h.toValid
  obtain rfl := ok_unique hok₁ hok
  exact ⟨hvalid, (shrink_ordered h.ordered hok).isCapacity⟩

end Sized

end Hplsp.Buffer
