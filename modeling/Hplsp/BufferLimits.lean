import Hplsp.BufferSpec

/-! Calls that return, whatever their arguments: no request below the limit is assumed here. -/

namespace Hplsp

/-- The faults that a `PushData` can end in. -/
def Fault.ofPushData : Fault → Bool
  | .badAlloc | .diverges | .overrun .array => true
  | .assertion a => a == .pushDataBytes || a == .pushDataAtSpace ||
      a == .assureSpaceCapacity || a == .assureSpaceReadPos
  | _ => false

namespace Buffer

open Outcome

variable {b b' : Buffer} {bytes : List UInt8} {needsize size offset : Nat}

/-- What one round of the growth loop makes of `capacity_`. -/
def NextCapacity (capacity next : Nat) : Prop :=
  capacity < kDefaultSize ∧ next = kDefaultSize ∨
    kDefaultSize ≤ capacity ∧
      ((∃ e ≤ 63, IsRoundUp capacity e ∧ capacity < 2 ^ e ∧ next = 2 ^ e) ∨
        ∃ k ≤ 61, capacity = 2 ^ (k + 1) ∧ next = 3 * 2 ^ k)

theorem NextCapacity.lt {capacity next : Nat} (h : NextCapacity capacity next) :
    capacity < next := by
  rcases h with ⟨hlt, rfl⟩ | ⟨-, ⟨e, -, -, hlt, rfl⟩ | ⟨k, -, rfl, rfl⟩⟩
  · exact hlt
  · exact hlt
  · have := Nat.two_pow_pos k
    rw [Nat.pow_succ]
    omega

/-- A growth loop that returns: its test failed, or it goes on from the next capacity. -/
theorem growCapacity_cases {fuel capacity result : Nat}
    (hok : growCapacity b needsize (fuel + 1) capacity = .ok result) :
    needsize ≤ Word64.add ({ b with capacity := capacity } : Buffer).writableSize b.readPos ∧
        result = capacity ∨
      ∃ next, NextCapacity capacity next ∧ growCapacity b needsize fuel next = .ok result := by
  rw [growCapacity] at hok
  split at hok
  · right
    split at hok
    · rename_i hsmall
      exact ⟨kDefaultSize, Or.inl ⟨hsmall, rfl⟩, hok⟩
    · rename_i hdef
      split at hok
      · rename_i hmax
        simp only [kDefaultSize] at hdef
        simp only [kMaxBufferSize] at hmax
        obtain ⟨e, he, hround⟩ := exists_isRoundUp (n := capacity) (by omega) (by omega)
        rw [roundUp2Power_eq (by omega) he hround, ok_bind] at hok
        split at hok
        · rename_i hup
          refine ⟨2 ^ e, Or.inr ⟨?_, Or.inl ⟨e, he, hround, hup, rfl⟩⟩, hok⟩
          simp only [kDefaultSize]
          omega
        · obtain ⟨hge, hlt⟩ := hround
          obtain ⟨k, rfl⟩ : ∃ k, e = k + 1 := by
            refine Nat.exists_eq_succ_of_ne_zero ?_
            rintro rfl
            omega
          have hk : k + 1 < 63 :=
            (Nat.pow_lt_pow_iff_right (show 1 < 2 by decide)).mp (by omega)
          have hpow : 2 ^ k ≤ 2 ^ 61 := Nat.pow_le_pow_right (by omega) (by omega)
          have hhalf : Word64.mul 3 (2 ^ (k + 1)) / 2 = 3 * 2 ^ k := by
            rw [Nat.pow_succ, Word64.mul_of_lt (by omega)]
            omega
          rw [hhalf] at hok
          refine ⟨3 * 2 ^ k, Or.inr ⟨?_, Or.inr ⟨k, by omega, by omega, rfl⟩⟩, hok⟩
          simp only [kDefaultSize]
          omega
      · cases hok
  · rename_i hdone
    cases hok
    exact Or.inl ⟨Nat.le_of_not_lt hdone, rfl⟩

/-- Whatever is asked of it, the growth loop never lowers `capacity_`. -/
theorem growCapacity_mono : ∀ fuel capacity result,
    growCapacity b needsize fuel capacity = .ok result → capacity ≤ result := by
  intro fuel
  induction fuel with
  | zero => intro capacity result hok; cases hok
  | succ fuel ih =>
    intro capacity result hok
    rcases growCapacity_cases hok with ⟨-, rfl⟩ | ⟨next, hnext, hok⟩
    · exact Nat.le_refl _
    · exact hnext.lt.le.trans (ih _ _ hok)

/-- Even for a size past the limit: an `AssureSpace` that returns keeps the buffer valid. -/
theorem assureSpace_ok (h : b.Valid) (hok : b.assureSpace needsize = .ok b') :
    b'.Valid ∧ b'.contents = b.contents := by
  have hread := h.readableSize_eq
  have hle := h.read_le
  have hwle := h.write_le
  have hlen := h.capacity_eq
  rw [assureSpace] at hok
  split at hok
  · cases hok
    exact ⟨h, rfl⟩
  · obtain ⟨capacity, hgrow, hok⟩ := bind_eq_ok.mp hok
    have hmono := growCapacity_mono _ _ _ hgrow
    split at hok
    · obtain ⟨tmp, hnew, hok⟩ := bind_eq_ok.mp hok
      obtain ⟨rfl, hmax⟩ := (newArray_sat capacity).of_ok hnew
      obtain ⟨hvalid, hcontents, -⟩ := h.rebase tmp (by omega) hmax
      split at hok
      · rename_i hzero
        have hempty : b.contents = [] := by
          rw [← List.length_eq_zero_iff, h.length_contents, hzero]
        cases hok
        simp only [hempty, Cells.splice, List.take_zero, List.nil_append, List.length_nil,
          Nat.zero_add, List.drop_zero] at hvalid hcontents
        exact ⟨hvalid, hcontents.trans hempty.symm⟩
      · rw [h.readAt_contents, ok_bind, Cells.writeAt_eq _ (by rw [h.length_contents]; omega),
          ok_bind] at hok
        cases hok
        exact ⟨hvalid, hcontents⟩
    · have hsame : capacity = b.capacity := by omega
      subst hsame
      split at hok
      · obtain ⟨hvalid, hcontents, -⟩ := h.rebase b.buffer (by omega)
          (by rw [← hlen]; exact h.capacity_le)
        rw [h.readAt_contents, ok_bind, Cells.writeAt_eq _ (by rw [h.length_contents]; omega),
          ok_bind, hlen] at hok
        cases hok
        exact ⟨hvalid, hcontents⟩
      · cases hok

/-- A push that copied anything was below the limit in exact arithmetic. -/
theorem fits_of_pushData (h : b.Valid) (hne : bytes.length ≠ 0) {n : Nat}
    (hok : b.pushData (.block bytes) = .ok (b', n)) : b.Fits bytes.length := by
  obtain ⟨⟨b₁, k⟩, hat, hok⟩ := bind_eq_ok.mp hok
  rw [pushDataAt, if_neg hne] at hat
  split at hat
  · cases hat
    simp [Data.size, Ne.symm hne] at hok
  · rename_i hguard
    obtain ⟨b₂, hassure, hat⟩ := bind_eq_ok.mp hat
    obtain ⟨hvalid, hcontents⟩ := assureSpace_ok h hassure
    split at hat
    · obtain ⟨buffer, hwrite, -⟩ := bind_eq_ok.mp hat
      have hread : b.readableSize = b₂.readableSize := by
        rw [← h.length_contents, ← hvalid.length_contents, hcontents]
      have hread₂ := hvalid.readableSize_eq
      have hwle := hvalid.write_le
      have hlen := hvalid.capacity_eq
      have hcap := hvalid.capacity_lt
      rw [Word64.add_of_lt (b := 0) (by omega)] at hwrite
      obtain ⟨hspace, -⟩ := Cells.writeAt_eq_ok.mp hwrite
      rw [Word64.add_of_lt (a := b.readableSize) (by omega), Word64.add_of_lt (by omega)] at hguard
      simp only [Fits]
      omega
    · cases hat

/-- A push that returns has appended its block. -/
theorem pushData_ok (h : b.Valid) {n : Nat} (hok : b.pushData (.block bytes) = .ok (b', n)) :
    b'.Valid ∧ b'.contents = b.contents ++ bytes ∧ n = bytes.length := by
  by_cases hne : bytes.length = 0
  · have hnil := List.length_eq_zero_iff.mp hne
    have hkeep := h.produce (Nat.zero_le b.writableSize)
    simp only [pushData, pushDataAt, hnil, List.length_nil, if_true, ok_bind, Data.size] at hok
    cases hok
    simpa [hnil] using hkeep
  · exact (pushData_sat h (fits_of_pushData h hne hok)).of_ok hok

/-- What `PeekDataAt` delivers depends on the readable bytes only, for all 64-bit arguments. -/
theorem peekDataAt_congr {f : Buffer} (hf : f.Valid) (hb : b.Valid) (hc : b.contents = f.contents)
    {out : List UInt8} (hok : f.peekDataAt false size offset = .ok out) :
    b.peekDataAt false size offset = .ok out ∧ ∃ n, out = (f.contents.drop offset).take n := by
  have hread : b.readableSize = f.readableSize := by
    rw [← hb.length_contents, ← hf.length_contents, hc]
  have hreadf := hf.readableSize_eq
  have hreadb := hb.readableSize_eq
  have hwlef := hf.write_le
  have hwleb := hb.write_le
  have hlef := hf.read_le
  have hleb := hb.read_le
  have hcapf := hf.capacity_lt
  have hcapb := hb.capacity_lt
  have hlenf := hf.capacity_eq
  have hlenb := hb.capacity_eq
  simp only [peekDataAt, Bool.false_eq_true, false_or, hread] at hok ⊢
  split at hok
  next hnone =>
    cases hok
    exact ⟨if_pos hnone, 0, by simp⟩
  next hsome =>
    rw [if_neg hsome]
    rw [Word64.add_of_lt (a := f.readPos) (by omega)] at hok
    rw [Word64.add_of_lt (a := b.readPos) (by omega)]
    have hn : offset + (if f.readableSize < Word64.add size offset then f.readableSize - offset
        else size) ≤ f.readableSize := by
      split
      next => omega
      next hle =>
        rw [if_neg hle] at hok
        obtain ⟨hspace, -⟩ := Cells.readAt_eq_ok.mp hok
        rw [Word64.add_of_lt (by omega)] at hle
        omega
    revert hok hn
    generalize (if f.readableSize < Word64.add size offset then f.readableSize - offset
      else size) = n
    intro hok hn
    have hslice : ∀ g : Buffer, g.Valid → g.readableSize = f.readableSize →
        Cells.slice g.buffer (g.readPos + offset) n = (g.contents.drop offset).take n := by
      intro g hg hgread
      rw [hg.contents_eq, Cells.drop_slice, Cells.take_slice]
      rw [← hg.readableSize_eq]
      omega
    rw [Cells.readAt_eq _ (by omega)] at hok ⊢
    cases hok
    exact ⟨by rw [hslice b hb hread, hslice f hf rfl, hc], n, hslice f hf rfl⟩

section Faults

theorem roundUpLoop_fault (size : Nat) : ∀ fuel roundUp,
    Sat (roundUpLoop size fuel roundUp) (fun _ => True) fun e => e.ofPushData = true := by
  intro fuel
  induction fuel with
  | zero => intro _; rfl
  | succ fuel ih => intro roundUp; exact sat_ite (fun _ => ih _) fun _ => trivial

theorem growCapacity_fault : ∀ fuel capacity,
    Sat (growCapacity b needsize fuel capacity) (fun _ => True) fun e => e.ofPushData = true := by
  intro fuel
  induction fuel with
  | zero => intro _; rfl
  | succ fuel ih =>
    intro capacity
    refine sat_ite (fun _ => ?_) fun _ => trivial
    refine sat_ite (fun _ => ih _) fun _ => ?_
    refine sat_ite (fun _ => ?_) fun _ => rfl
    have hround : Sat (roundUp2Power capacity) (fun _ => True) fun e => e.ofPushData = true :=
      sat_ite (fun _ => trivial) fun _ => roundUpLoop_fault capacity 65 1
    exact hround.bind fun _ _ => sat_ite (fun _ => ih _) fun _ => ih _

theorem readAt_fault {xs : List UInt8} {p n : Nat} :
    Sat (Cells.readAt (Fault.overrun .array) xs p n) (fun _ => True)
      fun e : Fault => e.ofPushData = true :=
  sat_ite (fun _ => trivial) fun _ => rfl

theorem writeAt_fault {xs ys : List UInt8} {p : Nat} :
    Sat (Cells.writeAt (Fault.overrun .array) xs p ys) (fun _ => True)
      fun e : Fault => e.ofPushData = true :=
  sat_ite (fun _ => trivial) fun _ => rfl

theorem assureSpace_fault :
    Sat (b.assureSpace needsize) (fun _ => True) fun e => e.ofPushData = true := by
  refine sat_ite (fun _ => trivial) fun _ => (growCapacity_fault 128 b.capacity).bind ?_
  intro capacity _
  refine sat_ite (fun _ => ?_) fun _ => sat_ite (fun _ => ?_) fun _ => rfl
  · have hnew : Sat (newArray capacity) (fun _ => True) fun e => e.ofPushData = true :=
      sat_ite (fun _ => trivial) fun _ => rfl
    refine hnew.bind fun _ _ => sat_ite (fun _ => trivial) fun _ => ?_
    exact readAt_fault.bind fun _ _ => writeAt_fault.bind fun _ _ => trivial
  · exact readAt_fault.bind fun _ _ => writeAt_fault.bind fun _ _ => trivial

theorem pushData_fault :
    Sat (b.pushData (.block bytes)) (fun _ => True) fun e => e.ofPushData = true := by
  have hat : Sat (b.pushDataAt (.block bytes) 0) (fun _ => True) fun e => e.ofPushData = true := by
    refine sat_ite (fun _ => trivial) fun _ => sat_ite (fun _ => trivial) fun _ => ?_
    refine assureSpace_fault.bind fun _ _ => sat_ite (fun _ => ?_) fun _ => rfl
    exact writeAt_fault.bind fun _ _ => trivial
  exact hat.bind fun _ _ => sat_ite (fun _ => trivial) fun _ => rfl

end Faults

end Buffer

end Hplsp
