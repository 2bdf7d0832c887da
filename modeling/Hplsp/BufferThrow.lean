import Hplsp.BufferSized
import Hplsp.Lib.Throwing

/-! The members of `Buffer` that ask for memory, and what they leave when `operator new[]`
throws. -/

namespace Hplsp

open Outcome Throwing

/-- `new char[n]` with the environment's answer: it throws for want of memory too. -/
def operatorNew (memory : Bool) (n : Nat) : Except Fault (List UInt8) :=
  if memory then newArray n else .error .badAlloc

namespace Buffer

namespace Member

/-- `capacity_` has its new value by the time `new char[capacity_]` throws. -/
def assureSpace (memory : Bool) (needsize : Nat) : EStateM Fault Buffer PUnit := do
  let b ← get
  if needsize ≤ b.writableSize then pure ()
  else
    let dataSize := b.readableSize
    let capacity ← liftExcept (b.growCapacity needsize 128 b.capacity)
    set { b with capacity := capacity }
    if b.capacity < capacity then
      let tmp ← liftExcept (operatorNew memory capacity)
      if dataSize = 0 then set (⟨0, dataSize, capacity, tmp⟩ : Buffer)
      else
        let data ← liftExcept (Cells.readAt (Fault.overrun .array) b.buffer b.readPos dataSize)
        let tmp ← liftExcept (Cells.writeAt (Fault.overrun .array) tmp 0 data)
        set (⟨0, dataSize, capacity, tmp⟩ : Buffer)
    else if 0 < b.readPos then
      let data ← liftExcept (Cells.readAt (Fault.overrun .array) b.buffer b.readPos dataSize)
      let buffer ← liftExcept (Cells.writeAt (Fault.overrun .array) b.buffer 0 data)
      set (⟨0, dataSize, capacity, buffer⟩ : Buffer)
    else throw (.assertion .assureSpaceReadPos)

def pushDataAt (memory : Bool) (data : Data) (offset : Nat) : EStateM Fault Buffer Nat := do
  match data with
  | .null _ => pure 0
  | .block bytes =>
    let b ← get
    if bytes.length = 0 then pure 0
    else if kMaxBufferSize ≤ Word64.add (Word64.add b.readableSize bytes.length) offset then pure 0
    else
      assureSpace memory (Word64.add bytes.length offset)
      let b ← get
      if Word64.add bytes.length offset ≤ b.writableSize then
        let buffer ← liftExcept
          (Cells.writeAt (Fault.overrun .array) b.buffer (Word64.add b.writePos offset) bytes)
        set { b with buffer := buffer }
        pure bytes.length
      else throw (.assertion .pushDataAtSpace)

def pushData (memory : Bool) (data : Data) : EStateM Fault Buffer Nat := do
  let bytes ← pushDataAt memory data 0
  modify fun b => b.produce bytes
  if bytes = data.size then pure bytes else throw (.assertion .pushDataBytes)

/-- `capacity_` keeps its value until the new array is there. -/
def shrink (memory : Bool) : EStateM Fault Buffer PUnit := do
  let b ← get
  if b.isEmpty then set (if 8 * 1024 < b.capacity then ⟨0, 0, 0, []⟩ else b)
  else
    let oldCap := b.capacity
    let dataSize := b.readableSize
    if oldCap / 4 < dataSize then pure ()
    else
      let newCap ← liftExcept (roundUp2Power dataSize)
      let tmp ← liftExcept (operatorNew memory newCap)
      let data ← liftExcept (Cells.readAt (Fault.overrun .array) b.buffer b.readPos dataSize)
      let tmp ← liftExcept (Cells.writeAt (Fault.overrun .array) tmp 0 data)
      set (⟨0, dataSize, newCap, tmp⟩ : Buffer)

end Member

variable {b b' : Buffer} {memory : Bool} {needsize : Nat}

theorem newArray_of_operatorNew {n : Nat} {tmp : List UInt8}
    (hok : operatorNew memory n = .ok tmp) : newArray n = .ok tmp := by
  rw [operatorNew] at hok
  split at hok
  · exact hok
  · cases hok

theorem run_assureSpace_ok (hok : (Member.assureSpace memory needsize).run b = .ok () b') :
    b.assureSpace needsize = .ok b' := by
  rw [Member.assureSpace, run_get_bind] at hok
  rw [assureSpace]
  split at hok
  · rename_i hroom
    cases hok
    exact if_pos hroom
  · rename_i hroom
    rw [if_neg hroom]
    obtain ⟨capacity, hgrow, hok⟩ := run_liftExcept_bind_ok.mp hok
    rw [run_set_bind] at hok
    simp only [hgrow, ok_bind]
    split at hok
    · rename_i hmore
      obtain ⟨tmp, hnew, hok⟩ := run_liftExcept_bind_ok.mp hok
      rw [if_pos hmore, newArray_of_operatorNew hnew, ok_bind]
      split at hok
      · rename_i hzero
        cases hok
        exact if_pos hzero
      · rename_i hzero
        obtain ⟨data, hread, hok⟩ := run_liftExcept_bind_ok.mp hok
        obtain ⟨array, hwrite, hok⟩ := run_liftExcept_bind_ok.mp hok
        cases hok
        rw [if_neg hzero, hread, ok_bind, hwrite, ok_bind]
    · rename_i hmore
      rw [if_neg hmore]
      split at hok
      · rename_i hpos
        obtain ⟨data, hread, hok⟩ := run_liftExcept_bind_ok.mp hok
        obtain ⟨array, hwrite, hok⟩ := run_liftExcept_bind_ok.mp hok
        cases hok
        rw [if_pos hpos, hread, ok_bind, hwrite, ok_bind]
      · cases hok

/-- A throwing `AssureSpace` has changed `capacity_` at most. -/
theorem run_assureSpace_error {e : Fault}
    (herr : (Member.assureSpace memory needsize).run b = .error e b') :
    b' = b ∨ ∃ capacity, growCapacity b needsize 128 b.capacity = .ok capacity ∧
      b' = { b with capacity := capacity } := by
  rw [Member.assureSpace, run_get_bind] at herr
  split at herr
  · cases herr
  · obtain ⟨-, rfl⟩ | ⟨capacity, hgrow, herr⟩ := run_liftExcept_bind_error.mp herr
    · exact Or.inl rfl
    · refine Or.inr ⟨capacity, hgrow, ?_⟩
      rw [run_set_bind] at herr
      split at herr
      · obtain ⟨-, rfl⟩ | ⟨tmp, -, herr⟩ := run_liftExcept_bind_error.mp herr
        · rfl
        · split at herr
          · cases herr
          · obtain ⟨-, rfl⟩ | ⟨data, -, herr⟩ := run_liftExcept_bind_error.mp herr
            · rfl
            · obtain ⟨-, rfl⟩ | ⟨array, -, herr⟩ := run_liftExcept_bind_error.mp herr
              · rfl
              · cases herr
      · split at herr
        · obtain ⟨-, rfl⟩ | ⟨data, -, herr⟩ := run_liftExcept_bind_error.mp herr
          · rfl
          · obtain ⟨-, rfl⟩ | ⟨array, -, herr⟩ := run_liftExcept_bind_error.mp herr
            · rfl
            · cases herr
        · cases herr
          rfl

theorem run_pushDataAt_ok {data : Data} {offset n : Nat}
    (hok : (Member.pushDataAt memory data offset).run b = .ok n b') :
    b.pushDataAt data offset = .ok (b', n) := by
  cases data with
  | null size =>
    cases hok
    rfl
  | block bytes =>
    rw [Member.pushDataAt, run_get_bind] at hok
    rw [pushDataAt]
    split at hok
    · rename_i hzero
      cases hok
      exact if_pos hzero
    · rename_i hne
      rw [if_neg hne]
      split at hok
      · rename_i hlimit
        cases hok
        exact if_pos hlimit
      · rename_i hlimit
        obtain ⟨_, b₁, hassure, hok⟩ := run_bind_ok.mp hok
        rw [if_neg hlimit, run_assureSpace_ok hassure, ok_bind]
        rw [run_get_bind] at hok
        split at hok
        · rename_i hroom
          obtain ⟨array, hwrite, hok⟩ := run_liftExcept_bind_ok.mp hok
          rw [run_set_bind] at hok
          cases hok
          rw [if_pos hroom, hwrite, ok_bind]
        · cases hok

theorem run_pushData_ok {data : Data} {n : Nat}
    (hok : (Member.pushData memory data).run b = .ok n b') : b.pushData data = .ok (b', n) := by
  obtain ⟨k, b₁, hat, hok⟩ := run_bind_ok.mp hok
  obtain ⟨_, b₂, hproduce, hok⟩ := run_bind_ok.mp hok
  cases hproduce
  rw [pushData, run_pushDataAt_ok hat, ok_bind]
  simp only at hok ⊢
  split at hok
  · rename_i hsize
    cases hok
    exact if_pos hsize
  · cases hok

theorem run_shrink_ok (hok : (Member.shrink memory).run b = .ok () b') :
    b.shrink = .ok b' := by
  rw [Member.shrink, run_get_bind] at hok
  rw [shrink]
  split at hok
  · rename_i hempty
    cases hok
    exact if_pos hempty
  · rename_i hne
    rw [if_neg hne]
    simp only at hok ⊢
    split at hok
    · rename_i hfull
      cases hok
      exact if_pos hfull
    · rename_i hfew
      obtain ⟨newCap, hround, hok⟩ := run_liftExcept_bind_ok.mp hok
      obtain ⟨tmp, hnew, hok⟩ := run_liftExcept_bind_ok.mp hok
      obtain ⟨data, hread, hok⟩ := run_liftExcept_bind_ok.mp hok
      obtain ⟨array, hwrite, hok⟩ := run_liftExcept_bind_ok.mp hok
      cases hok
      rw [if_neg hfew, hround, ok_bind, newArray_of_operatorNew hnew, ok_bind, hread, ok_bind,
        hwrite, ok_bind]

/-- In exact arithmetic: the growth loop has to raise `capacity_`. -/
def Grows (b : Buffer) (needsize : Nat) : Prop := b.writableSize + b.readPos < needsize

instance : Decidable (b.Grows needsize) := inferInstanceAs (Decidable (_ < _))

/-- `AssureSpace` gets by with the array it has, or gets the one that it asks for: there is memory,
and the capacity it comes to is one that an array can have. -/
def Served (b : Buffer) (memory : Bool) (needsize : Nat) : Prop :=
  b.Grows needsize →
    memory = true ∧ b.capacity ≤ 2 ^ 62 ∧ b.readableSize + needsize ≤ 3 * 2 ^ 61

instance : Decidable (b.Served memory needsize) := inferInstanceAs (Decidable (_ → _))

theorem Ordered.grows_iff (h : b.Ordered) :
    b.Grows needsize ↔ b.capacity < b.readableSize + needsize := by
  have hle := h.read_le
  have hwle := h.write_le
  rw [Grows, h.writableSize_eq, h.readableSize_eq]
  omega

theorem Valid.grows_iff (h : b.Valid) :
    b.Grows needsize ↔ b.capacity < b.readableSize + needsize := by
  have hle := h.read_le
  have hwle := h.write_le
  rw [Grows, h.writableSize_eq, h.readableSize_eq]
  omega

/-- A buffer that has to grow for a target up to `3 * 2 ^ 61` has no more than `2 ^ 62` bytes. -/
theorem Ordered.served_iff (h : b.Ordered) : b.Served memory needsize ↔
    (b.Grows needsize → memory = true ∧ b.readableSize + needsize ≤ 3 * 2 ^ 61) := by
  rw [Served, h.grows_iff]
  refine forall_congr' fun hgrows => ?_
  have hsmall : b.readableSize + needsize ≤ 3 * 2 ^ 61 → b.capacity ≤ 2 ^ 62 :=
    fun hle => capacity_le_of_lt h.isCapacity (by omega)
  tauto

theorem operatorNew_eq (n : Nat) : operatorNew memory n =
    if memory = true ∧ n ≤ ptrdiffMax then .ok (List.replicate n 0) else .error .badAlloc := by
  rw [operatorNew, newArray]
  split <;> split <;> simp_all

theorem run_assureSpace_served (h : b.Valid) (hfit : b.Fits needsize)
    (hserved : b.Served memory needsize) :
    ∃ b', (Member.assureSpace memory needsize).run b = .ok () b' := by
  have hread := h.readableSize_eq
  have hwrite := h.writableSize_eq
  have hle := h.read_le
  have hwle := h.write_le
  have hcap := h.capacity_lt
  have hlen := h.length_contents
  have hsize := h.capacity_eq
  simp only [Fits, kMaxBufferSize] at hfit
  rw [Member.assureSpace, run_get_bind]
  by_cases hroom : needsize ≤ b.writableSize
  · exact ⟨b, by rw [if_pos hroom]; rfl⟩
  have htarget : b.writePos - b.readPos + needsize < 2 ^ 63 := by omega
  obtain ⟨capacity, hgrow, hmono, hreached, hbound⟩ := growCapacity_spec hle htarget hwle hcap
  simp only [if_neg hroom, hgrow, run_liftExcept_ok_bind, run_set_bind, h.readAt_contents]
  by_cases hgrows : b.Grows needsize
  · have hless := h.grows_iff.mp hgrows
    obtain ⟨rfl, hsmall, hfew⟩ := hserved hgrows
    have hmax : capacity ≤ ptrdiffMax :=
      (growCapacity_le_iff hle rfl htarget _ _ hwle (by omega) hgrow).mpr ⟨hsmall, by omega⟩
    have hnew : operatorNew true capacity = .ok (List.replicate capacity 0) := by
      rw [operatorNew_eq, if_pos ⟨rfl, hmax⟩]
    simp only [if_pos (show b.capacity < capacity by omega), hnew, run_liftExcept_ok_bind]
    split
    · exact ⟨_, rfl⟩
    · rw [run_liftExcept_ok_bind, Cells.writeAt_eq _ (by rw [List.length_replicate]; omega),
        run_liftExcept_ok_bind]
      exact ⟨_, rfl⟩
  · have hdone : growChecked b needsize 128 b.capacity = some b.capacity :=
      (growChecked_done hle hwle (by omega) (by have := mt h.grows_iff.mpr hgrows; omega)).1
    obtain rfl := ok_unique hgrow (growCapacity_of_checked _ _ hdone)
    have hpos : 0 < b.readPos := by
      have := mt h.grows_iff.mpr hgrows
      omega
    rw [if_neg (Nat.lt_irrefl _), if_pos hpos, run_liftExcept_ok_bind,
      Cells.writeAt_eq _ (by omega), run_liftExcept_ok_bind]
    exact ⟨_, rfl⟩

/-- Refused an array, `AssureSpace` throws and leaves a `capacity_` that no array has. -/
theorem run_assureSpace_unserved (h : b.Valid) (hfit : b.Fits needsize)
    (hserved : ¬ b.Served memory needsize) : ∃ capacity, b.capacity < capacity ∧
      (Member.assureSpace memory needsize).run b =
        .error .badAlloc { b with capacity := capacity } := by
  have hread := h.readableSize_eq
  have hle := h.read_le
  have hwle := h.write_le
  have hcap := h.capacity_lt
  simp only [Fits, kMaxBufferSize] at hfit
  obtain ⟨hgrows, hrefused⟩ := Classical.not_imp.mp hserved
  have hless := h.grows_iff.mp hgrows
  have htarget : b.writePos - b.readPos + needsize < 2 ^ 63 := by omega
  obtain ⟨capacity, hgrow, hmono, hreached, hbound⟩ := growCapacity_spec hle htarget hwle hcap
  have hmax := growCapacity_le_iff hle rfl htarget _ _ hwle (by omega) hgrow
  have hroom : ¬ needsize ≤ b.writableSize := by
    rw [h.writableSize_eq]
    omega
  refine ⟨capacity, by omega, ?_⟩
  rw [Member.assureSpace, run_get_bind]
  simp only [if_neg hroom, hgrow, run_liftExcept_ok_bind, run_set_bind]
  rw [if_pos (by omega), operatorNew_eq, if_neg]
  · rfl
  · rintro ⟨rfl, hle⟩
    obtain ⟨hsmall, hfew⟩ := hmax.mp hle
    exact hrefused ⟨rfl, hsmall, by omega⟩

/-- The limit admits a request for which the capacity comes to `2 ^ 63`, past any array. -/
theorem run_assureSpace_last (memory : Bool) : new.Fits (2 ^ 63 - 2) ∧
    (Member.assureSpace memory (2 ^ 63 - 2)).run new = .error .badAlloc ⟨0, 0, 2 ^ 63, []⟩ := by
  have hgrow : new.growCapacity (2 ^ 63 - 2) 128 0 = .ok (2 ^ 63) := by decide +kernel
  refine ⟨by decide, ?_⟩
  rw [Member.assureSpace, run_get_bind, if_neg (by decide)]
  refine run_liftExcept_bind_error.mpr (Or.inr ⟨2 ^ 63, hgrow, ?_⟩)
  rw [run_set_bind, if_pos (by decide), operatorNew_eq, if_neg (by simp [ptrdiffMax])]
  rfl

section Push

variable {bytes : List UInt8}

/-- Below the limit `PushDataAt` asks `AssureSpace` for exactly its bytes. -/
theorem run_pushDataAt_eq (hfit : b.Fits bytes.length) (hne : bytes.length ≠ 0) :
    (Member.pushDataAt memory (.block bytes) 0).run b =
      (Member.assureSpace memory bytes.length >>= fun _ => do
        let b ← get
        if bytes.length ≤ b.writableSize then
          let buffer ← liftExcept
            (Cells.writeAt (Fault.overrun .array) b.buffer (Word64.add b.writePos 0) bytes)
          set { b with buffer := buffer }
          pure bytes.length
        else throw (.assertion .pushDataAtSpace)).run b := by
  have hlimit := hfit
  simp only [Fits, kMaxBufferSize] at hlimit
  rw [Member.pushDataAt, run_get_bind, if_neg hne,
    Word64.add_of_lt (a := b.readableSize) (by omega),
    Word64.add_of_lt (by omega), if_neg (by simp only [kMaxBufferSize]; omega),
    Word64.add_of_lt (by omega), Nat.add_zero]

variable (h : b.Valid) (hfit : b.Fits bytes.length)
include h hfit

theorem run_pushData_served (hserved : b.Served memory bytes.length) :
    ∃ b', (Member.pushData memory (.block bytes)).run b = .ok bytes.length b' := by
  by_cases hne : bytes.length = 0
  · have hat : (Member.pushDataAt memory (.block bytes) 0).run b = .ok 0 b := by
      rw [Member.pushDataAt, run_get_bind, if_pos hne]
      rfl
    refine ⟨b.produce 0, run_bind_ok.mpr ⟨_, _, hat, ?_⟩⟩
    rw [hne]
    exact run_bind_ok.mpr ⟨_, _, rfl, by rw [Data.size, if_pos hne.symm]; rfl⟩
  · obtain ⟨b₁, hassure⟩ := run_assureSpace_served h hfit hserved
    obtain ⟨hvalid, -, hroom⟩ := (assureSpace_sat h hfit).of_ok (run_assureSpace_ok hassure)
    have hspace := hroom
    rw [hvalid.writableSize_eq] at hspace
    have hwle := hvalid.write_le
    have hlen := hvalid.capacity_eq
    have hcap := hvalid.capacity_lt
    have hat : (Member.pushDataAt memory (.block bytes) 0).run b =
        .ok bytes.length { b₁ with buffer := Cells.splice b₁.buffer b₁.writePos bytes } := by
      refine (run_pushDataAt_eq hfit hne).trans (run_bind_ok.mpr ⟨_, _, hassure, ?_⟩)
      rw [run_get_bind, if_pos hroom, Word64.add_of_lt (by omega), Cells.writeAt_eq _ (by omega),
        run_liftExcept_ok_bind, run_set_bind]
      rfl
    refine ⟨({ b₁ with buffer := Cells.splice b₁.buffer b₁.writePos bytes } : Buffer).produce
      bytes.length, run_bind_ok.mpr ⟨_, _, hat, run_bind_ok.mpr ⟨_, _, rfl, ?_⟩⟩⟩
    rw [Data.size, if_pos rfl]
    rfl

theorem run_pushData_unserved (hserved : ¬ b.Served memory bytes.length) :
    ∃ capacity, b.capacity < capacity ∧ (Member.pushData memory (.block bytes)).run b =
      .error .badAlloc { b with capacity := capacity } := by
  have hne : bytes.length ≠ 0 := by
    intro hzero
    obtain ⟨hgrows, -⟩ := Classical.not_imp.mp hserved
    rw [hzero] at hgrows
    exact Nat.not_lt_zero _ hgrows
  obtain ⟨capacity, hmore, herr⟩ := run_assureSpace_unserved h hfit hserved
  refine ⟨capacity, hmore, run_bind_error.mpr (Or.inl ?_)⟩
  exact (run_pushDataAt_eq hfit hne).trans (run_bind_error.mpr (Or.inl herr))

end Push

/-- A throwing `Shrink` has changed nothing. -/
theorem run_shrink_error {e : Fault} (herr : (Member.shrink memory).run b = .error e b') :
    b' = b := by
  rw [Member.shrink, run_get_bind] at herr
  split at herr
  · cases herr
  · simp only at herr
    split at herr
    · cases herr
    · obtain ⟨-, rfl⟩ | ⟨newCap, -, herr⟩ := run_liftExcept_bind_error.mp herr
      · rfl
      · obtain ⟨-, rfl⟩ | ⟨tmp, -, herr⟩ := run_liftExcept_bind_error.mp herr
        · rfl
        · obtain ⟨-, rfl⟩ | ⟨data, -, herr⟩ := run_liftExcept_bind_error.mp herr
          · rfl
          · obtain ⟨-, rfl⟩ | ⟨array, -, herr⟩ := run_liftExcept_bind_error.mp herr
            · rfl
            · cases herr

/-- `Shrink` returns, or is refused its array. -/
theorem run_shrink (h : b.Valid) : (∃ b', (Member.shrink memory).run b = .ok () b') ∨
    memory = false ∧ (Member.shrink memory).run b = .error .badAlloc b := by
  obtain ⟨b', hok, -⟩ := shrink_eq h
  rw [shrink] at hok
  rw [Member.shrink, run_get_bind]
  split at hok
  · rename_i hempty
    exact Or.inl ⟨_, by rw [if_pos hempty]; rfl⟩
  · rename_i hne
    rw [if_neg hne]
    simp only at hok ⊢
    split at hok
    · rename_i hfull
      exact Or.inl ⟨_, by rw [if_pos hfull]; rfl⟩
    · rename_i hfew
      obtain ⟨newCap, hround, hok⟩ := bind_eq_ok.mp hok
      obtain ⟨tmp, hnew, hok⟩ := bind_eq_ok.mp hok
      obtain ⟨data, hread, hok⟩ := bind_eq_ok.mp hok
      obtain ⟨array, hwrite, hok⟩ := bind_eq_ok.mp hok
      rw [if_neg hfew, hround, run_liftExcept_ok_bind, operatorNew]
      cases memory with
      | true =>
        left
        rw [if_pos rfl, hnew, run_liftExcept_ok_bind, hread, run_liftExcept_ok_bind, hwrite,
          run_liftExcept_ok_bind]
        exact ⟨_, rfl⟩
      | false => exact Or.inr ⟨rfl, rfl⟩

end Buffer

end Hplsp
