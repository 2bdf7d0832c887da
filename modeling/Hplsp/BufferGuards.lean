import Hplsp.BufferSpec

/-! The size guards of `Buffer` under all 64-bit arguments: exactly when their sums wrap. -/

namespace Hplsp.Buffer

open Outcome

variable {b : Buffer} {bytes : List UInt8} {size offset : Nat}

/-- `PushDataAt` copies below the limit, inside the array, and otherwise does nothing. -/
def PushGuardExact (b : Buffer) (bytes : List UInt8) (offset : Nat) : Prop :=
  if 0 < bytes.length ∧ b.readableSize + bytes.length + offset < kMaxBufferSize then
    Sat (b.pushDataAt (.block bytes) offset)
      (fun r => r.2 = bytes.length ∧ r.1.writePos + offset + bytes.length ≤ r.1.buffer.length)
      (fun e => e = .badAlloc)
  else b.pushDataAt (.block bytes) offset = .ok (b, 0)

/-- `PeekDataAt` returns the number of readable bytes behind `offset`, at most `size`. -/
def PeekGuardExact (b : Buffer) (size offset : Nat) : Prop :=
  ∃ out, b.peekDataAt false size offset = .ok out ∧
    out.length = if offset < b.readableSize then min size (b.readableSize - offset) else 0

/-- `Consume` returns for readable bytes only, and moves `readPos_` forward or empties. -/
def ConsumeGuardExact (b : Buffer) (size : Nat) : Prop :=
  ((∃ b', b.consume size = .ok b') ↔ size ≤ b.readableSize) ∧
    ∀ b', b.consume size = .ok b' → b'.isEmpty = true ∨ b.readPos ≤ b'.readPos

/-- The guard of `PushDataAt` adds in 64 bits, in whatever order. -/
theorem pushGuard_eq : Word64.add (Word64.add b.readableSize size) offset =
    (b.readableSize + size + offset) % 2 ^ 64 := by
  simp only [Word64.add, Word64.size]
  omega

/-- Behind the guard every call that returns has copied all its bytes. -/
theorem pushDataAt_count (hne : bytes.length ≠ 0)
    (hguard : ¬ kMaxBufferSize ≤ (b.readableSize + bytes.length + offset) % 2 ^ 64) :
    Sat (b.pushDataAt (.block bytes) offset) (fun r => r.2 = bytes.length) fun _ => True := by
  rw [pushDataAt, if_neg hne, pushGuard_eq, if_neg hguard]
  refine sat_true.bind fun b' _ => sat_ite (fun _ => ?_) fun _ => trivial
  exact sat_true.bind fun buffer _ => rfl

theorem pushGuardExact_iff (h : b.Valid) : b.PushGuardExact bytes offset ↔
    bytes.length = 0 ∨ b.readableSize + bytes.length + offset < 2 ^ 64 ∨
      kMaxBufferSize ≤ (b.readableSize + bytes.length + offset) % 2 ^ 64 := by
  unfold PushGuardExact
  split
  next hcopy =>
    obtain ⟨hpos, hlimit⟩ := hcopy
    have hfit : b.Fits (bytes.length + offset) := by
      rw [Fits]
      omega
    have hsat := pushDataAt_sat h (Nat.ne_of_gt hpos) hfit
    refine iff_of_true (hsat.mono ?_ fun e he => he.1) ?_
    · rintro ⟨b', n⟩ ⟨hvalid, -, rfl, hroom, -⟩
      have hwle := hvalid.write_le
      rw [hvalid.writableSize_eq] at hroom
      exact ⟨rfl, by rw [← hvalid.capacity_eq]; omega⟩
    · simp only [kMaxBufferSize] at hlimit
      omega
  next hnone =>
    by_cases hzero : bytes.length = 0
    · rw [pushDataAt, if_pos hzero]
      exact iff_of_true rfl (Or.inl hzero)
    by_cases hguard : kMaxBufferSize ≤ (b.readableSize + bytes.length + offset) % 2 ^ 64
    · rw [pushDataAt, if_neg hzero, pushGuard_eq, if_pos hguard]
      exact iff_of_true rfl (Or.inr (Or.inr hguard))
    · -- the wrapped sum passes a guard that the exact sum fails
      refine iff_of_false (fun hok => hzero ?_) ?_
      · exact ((pushDataAt_count hzero hguard).of_ok hok).symm
      · simp only [kMaxBufferSize] at hnone hguard ⊢
        omega

theorem peekGuardExact_iff (h : b.Valid) (hsize : size < 2 ^ 64) : b.PeekGuardExact size offset ↔
    size = 0 ∨ b.readableSize ≤ offset ∨ size + offset < 2 ^ 64 := by
  have hread := h.readableSize_eq
  have hle := h.read_le
  have hwle := h.write_le
  have hcap := h.capacity_lt
  have hlen := h.capacity_eq
  by_cases hnone : size = 0 ∨ b.readableSize ≤ offset
  · refine iff_of_true ⟨[], by simp only [peekDataAt, hnone, or_true, if_true], ?_⟩ (by omega)
    split
    · rcases hnone with hzero | hpast
      · simp [hzero]
      · omega
    · rfl
  by_cases hsum : size + offset < 2 ^ 64
  · refine iff_of_true ⟨_, peekDataAt_eq h hsum, ?_⟩ (Or.inr (Or.inr hsum))
    rw [if_pos (by omega), List.length_take, List.length_drop, h.length_contents]
  · -- the wrapped sum is below the readable size, so that nothing is truncated
    refine iff_of_false ?_ (by omega)
    rintro ⟨out, hok, -⟩
    have hwrap : Word64.add size offset = size + offset - 2 ^ 64 := by
      simp only [Word64.add, Word64.size]
      omega
    rw [peekDataAt, if_neg (by simpa using hnone), hwrap, if_neg (by omega),
      Cells.readAt_eq_ok] at hok
    omega

theorem consumeGuardExact_iff (h : b.Valid) (hsize : size < 2 ^ 64) : b.ConsumeGuardExact size ↔
    b.readPos + size < 2 ^ 64 := by
  have hread := h.readableSize_eq
  have hle := h.read_le
  have hwle := h.write_le
  have hcap := h.capacity_lt
  by_cases hsum : b.readPos + size < 2 ^ 64
  · have hadd := Word64.add_of_lt hsum
    refine iff_of_true ⟨⟨?_, ?_⟩, ?_⟩ hsum
    · rintro ⟨b', hok⟩
      rw [consume, hadd] at hok
      split at hok
      · omega
      · cases hok
    · intro hfit
      obtain ⟨b', hok, -⟩ := consume_eq h hfit
      exact ⟨b', hok⟩
    · intro b' hok
      rw [consume, hadd] at hok
      split at hok
      · cases hok
        split
        · exact Or.inl (by simp [isEmpty, readableSize, clear, Word64.sub, Word64.size])
        · exact Or.inr (Nat.le_add_right _ _)
      · cases hok
  · -- the wrapped cursor lies before `readPos_`
    refine iff_of_false ?_ hsum
    rintro ⟨hadmits, -⟩
    have hwrap : Word64.add b.readPos size = b.readPos + size - 2 ^ 64 := by
      simp only [Word64.add, Word64.size]
      omega
    have hok : ∃ b', b.consume size = .ok b' := by
      rw [consume, hwrap, if_pos (by omega)]
      exact ⟨_, rfl⟩
    have := hadmits.mp hok
    omega

/-- Each guard is exact until its own sum leaves 64 bits. -/
theorem guards_exact_iff (bytes : List UInt8) (offset : Nat) (h : b.Valid)
    (hsize : size < 2 ^ 64) :
    (b.PushGuardExact bytes offset ↔
      bytes.length = 0 ∨ b.readableSize + bytes.length + offset < 2 ^ 64 ∨
        kMaxBufferSize ≤ (b.readableSize + bytes.length + offset) % 2 ^ 64) ∧
    (b.PeekGuardExact size offset ↔
      size = 0 ∨ b.readableSize ≤ offset ∨ size + offset < 2 ^ 64) ∧
    (b.ConsumeGuardExact size ↔ b.readPos + size < 2 ^ 64) :=
  ⟨pushGuardExact_iff h, peekGuardExact_iff h hsize, consumeGuardExact_iff h hsize⟩

theorem guards_exact_iff_small : PushGuardExact ⟨1, 2, 2, [7, 8]⟩ [9] 0 ∧
    PeekGuardExact ⟨1, 2, 2, [7, 8]⟩ 5 0 ∧ ConsumeGuardExact ⟨1, 2, 2, [7, 8]⟩ 5 := by
  have hvalid : Valid ⟨1, 2, 2, [7, 8]⟩ := by decide
  have hsize : 5 < 2 ^ 64 := by decide
  obtain ⟨hpush, hpeek, hconsume⟩ := guards_exact_iff [9] 0 hvalid hsize
  exact ⟨hpush.mpr (by decide), hpeek.mpr (by decide), hconsume.mpr (by decide)⟩

/-- With an argument of `2 ^ 64 - 1` a push overwrites a readable byte, a peek reads behind the
array and a consume makes a consumed byte readable again. -/
theorem guards_wrap :
    pushDataAt ⟨1, 2, 2, [7, 8]⟩ (.block [9]) (2 ^ 64 - 1) = .ok (⟨1, 2, 2, [7, 9]⟩, 1) ∧
      ¬ PushGuardExact ⟨1, 2, 2, [7, 8]⟩ [9] (2 ^ 64 - 1) ∧
      peekDataAt ⟨0, 2, 2, [7, 8]⟩ false (2 ^ 64 - 1) 1 = .error (.overrun .array) ∧
      ¬ PeekGuardExact ⟨0, 2, 2, [7, 8]⟩ (2 ^ 64 - 1) 1 ∧
      consume ⟨1, 2, 2, [7, 8]⟩ (2 ^ 64 - 1) = .ok ⟨0, 2, 2, [7, 8]⟩ ∧
      ¬ ConsumeGuardExact ⟨1, 2, 2, [7, 8]⟩ (2 ^ 64 - 1) := by
  have hvalid : Valid ⟨0, 2, 2, [7, 8]⟩ := by decide
  have hvalid' : Valid ⟨1, 2, 2, [7, 8]⟩ := by decide
  have hsize : 2 ^ 64 - 1 < 2 ^ 64 := by decide
  refine ⟨by decide, mt (pushGuardExact_iff hvalid').mp (by decide), by decide,
    mt (peekGuardExact_iff hvalid hsize).mp (by decide), by decide,
    mt (consumeGuardExact_iff hvalid' hsize).mp (by decide)⟩

end Hplsp.Buffer
