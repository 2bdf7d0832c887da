import Hplsp.BufferGrowth

/-! What each operation does to a valid buffer and to its readable bytes. -/

namespace Hplsp.Buffer

open Outcome

variable {b : Buffer} {bytes : List UInt8} {needsize size offset : Nat}

/-- `needsize` more bytes stay below the limit that `PushDataAt` tests, in exact arithmetic. -/
def Fits (b : Buffer) (needsize : Nat) : Prop := b.readableSize + needsize < kMaxBufferSize

instance : Decidable (b.Fits needsize) := inferInstanceAs (Decidable (_ < _))

/-- `operator new[]` refused, which it does only past a quarter of the address space. -/
def OutOfMemory (b : Buffer) (needsize : Nat) (e : Fault) : Prop :=
  e = .badAlloc ∧ 2 ^ 62 < b.readableSize + needsize

/-- A fresh array with the readable bytes at its start. -/
theorem valid_rebased {dataSize capacity : Nat} {buffer : List UInt8}
    (hd : dataSize ≤ buffer.length) (hc : capacity = buffer.length) (hm : capacity ≤ ptrdiffMax) :
    Valid ⟨0, dataSize, capacity, buffer⟩ :=
  ⟨Nat.zero_le _, by rw [hc]; exact hd, hc, hm⟩

theorem contents_rebased {dataSize capacity : Nat} {buffer : List UInt8}
    (h : Valid ⟨0, dataSize, capacity, buffer⟩) :
    contents ⟨0, dataSize, capacity, buffer⟩ = Cells.slice buffer 0 dataSize :=
  h.contents_eq

/-- Moving the readable bytes to the start of `cells` makes them the contents there. -/
theorem Valid.rebase (h : b.Valid) (cells : List UInt8) (hd : b.readableSize ≤ cells.length)
    (hm : cells.length ≤ ptrdiffMax) :
    Valid ⟨0, b.readableSize, cells.length, Cells.splice cells 0 b.contents⟩ ∧
      contents ⟨0, b.readableSize, cells.length, Cells.splice cells 0 b.contents⟩ =
        b.contents ∧
      writableSize ⟨0, b.readableSize, cells.length, Cells.splice cells 0 b.contents⟩ =
        cells.length - b.readableSize := by
  have hlen := h.length_contents
  have hcells : (Cells.splice cells 0 b.contents).length = cells.length :=
    Cells.length_splice (by omega)
  have hvalid : Valid ⟨0, b.readableSize, cells.length, Cells.splice cells 0 b.contents⟩ :=
    valid_rebased (by omega) hcells.symm hm
  refine ⟨hvalid, ?_, hvalid.writableSize_eq⟩
  rw [contents_rebased hvalid, ← hlen]
  exact Cells.slice_splice_self (by omega)

theorem Valid.readAt_contents (h : b.Valid) (e : Fault) :
    Cells.readAt e b.buffer b.readPos b.readableSize = .ok b.contents := by
  have := h.read_le
  have := h.write_le
  have := h.capacity_eq
  exact Cells.readAt_eq e (by rw [h.readableSize_eq]; omega)

/-- `AssureSpace` makes room and keeps the readable bytes, whichever branch it takes. -/
theorem assureSpace_sat (h : b.Valid) (hfit : b.Fits needsize) :
    Sat (b.assureSpace needsize)
      (fun b' => b'.Valid ∧ b'.contents = b.contents ∧ needsize ≤ b'.writableSize)
      (OutOfMemory b needsize) := by
  have hread := h.readableSize_eq
  have hwrite := h.writableSize_eq
  have hle := h.read_le
  have hwle := h.write_le
  have hcap := h.capacity_lt
  have hlen := h.capacity_eq
  simp only [Fits, kMaxBufferSize] at hfit
  refine sat_ite (fun hroom => ⟨h, rfl, hroom⟩) (fun hroom => ?_)
  have hneed : b.writePos - b.readPos + needsize < 2 ^ 63 := by omega
  obtain ⟨capacity, hgrow, hle', hreached, hbound⟩ := growCapacity_spec hle hneed hwle hcap
  simp only [hgrow, ok_bind, h.readAt_contents]
  refine sat_ite (fun hmore => ?_) (fun hsame => ?_)
  · -- a new array
    refine ((newArray_sat capacity).mono (fun _ h => h) ?_).bind ?_
    · rintro e ⟨rfl, hmax⟩
      simp only [ptrdiffMax] at hmax
      exact ⟨rfl, by simp only [kDefaultSize] at hbound; omega⟩
    · rintro tmp ⟨rfl, hmax⟩
      obtain ⟨hvalid, hcontents, hroom⟩ := h.rebase tmp (by omega) hmax
      refine sat_ite (fun hzero => ?_) (fun _ => ?_)
      · have hempty : b.contents = [] := by
          rw [← List.length_eq_zero_iff, h.length_contents, hzero]
        simp only [hempty, Cells.splice, List.take_zero, List.nil_append, List.length_nil,
          Nat.zero_add, List.drop_zero] at hvalid hcontents hroom
        exact ⟨hvalid, by rw [hempty]; exact hcontents, by rw [hroom]; omega⟩
      · rw [Cells.writeAt_eq _ (by rw [h.length_contents]; omega), ok_bind]
        exact ⟨hvalid, hcontents, by rw [hroom]; omega⟩
  · -- the same array: only then do the readable bytes move down
    have hsame : capacity = b.capacity := by omega
    subst hsame
    refine sat_ite (fun _ => ?_) (fun hzero => by omega)
    obtain ⟨hvalid, hcontents, hroom⟩ := h.rebase b.buffer (by omega)
      (by rw [← hlen]; exact h.capacity_le)
    rw [Cells.writeAt_eq _ (by rw [h.length_contents]; omega), ok_bind, hlen]
    exact ⟨hvalid, hcontents, by rw [hroom]; omega⟩

/-- Writing behind `writePos_` does not touch the readable bytes. -/
theorem Valid.writeAhead (h : b.Valid) (hroom : offset + bytes.length ≤ b.writableSize) :
    ({ b with buffer := Cells.splice b.buffer (b.writePos + offset) bytes } : Buffer).Valid ∧
      ({ b with buffer := Cells.splice b.buffer (b.writePos + offset) bytes } : Buffer).contents =
        b.contents := by
  have hle := h.read_le
  have hwle := h.write_le
  have hlen := h.capacity_eq
  rw [h.writableSize_eq] at hroom
  have hspl : b.writePos + offset + bytes.length ≤ b.buffer.length := by omega
  have hvalid : ({ b with buffer := Cells.splice b.buffer (b.writePos + offset) bytes } :
      Buffer).Valid :=
    ⟨hle, hwle, hlen.trans (Cells.length_splice hspl).symm, h.capacity_le⟩
  refine ⟨hvalid, ?_⟩
  rw [hvalid.contents_eq, h.contents_eq]
  have hbefore : b.readPos + (b.writePos - b.readPos) ≤ b.writePos + offset := by omega
  exact Cells.slice_splice_disjoint hspl (.inl hbefore)

/-- `Produce` appends the cells it moves `writePos_` over. -/
theorem Valid.produce (h : b.Valid) (hsize : size ≤ b.writableSize) :
    (b.produce size).Valid ∧
      (b.produce size).contents = b.contents ++ Cells.slice b.buffer b.writePos size := by
  have hle := h.read_le
  have hwle := h.write_le
  have hcap := h.capacity_lt
  rw [h.writableSize_eq] at hsize
  have hadd : Word64.add b.writePos size = b.writePos + size := Word64.add_of_lt (by omega)
  have hvalid : (b.produce size).Valid :=
    ⟨by simp only [Buffer.produce, hadd]; omega, by simp only [Buffer.produce, hadd]; omega,
      h.capacity_eq, h.capacity_le⟩
  refine ⟨hvalid, ?_⟩
  have hsplit : b.writePos + size - b.readPos = b.writePos - b.readPos + size := by omega
  rw [hvalid.contents_eq, h.contents_eq]
  simp only [Buffer.produce, hadd, hsplit, Cells.slice_add]
  rw [show b.readPos + (b.writePos - b.readPos) = b.writePos by omega]

theorem pushDataAt_sat (h : b.Valid) (hne : bytes.length ≠ 0)
    (hfit : b.Fits (bytes.length + offset)) :
    Sat (b.pushDataAt (.block bytes) offset)
      (fun r => r.1.Valid ∧ r.1.contents = b.contents ∧ r.2 = bytes.length ∧
        bytes.length + offset ≤ r.1.writableSize ∧
        Cells.slice r.1.buffer (r.1.writePos + offset) bytes.length = bytes)
      (OutOfMemory b (bytes.length + offset)) := by
  have hread := h.readableSize_eq
  have hcap := h.capacity_lt
  have hle := h.read_le
  have hwle := h.write_le
  have hlimit := hfit
  simp only [Fits, kMaxBufferSize] at hlimit
  have hadd : Word64.add bytes.length offset = bytes.length + offset :=
    Word64.add_of_lt (by omega)
  have hsum : Word64.add (Word64.add b.readableSize bytes.length) offset =
      b.readableSize + bytes.length + offset := by
    rw [Word64.add_of_lt (a := b.readableSize) (by omega), Word64.add_of_lt (by omega)]
  rw [pushDataAt, if_neg hne, hsum, if_neg (by simp only [kMaxBufferSize]; omega), hadd]
  refine (assureSpace_sat h hfit).bind ?_
  rintro b' ⟨hvalid, hcontents, hroom⟩
  have hroom' := hroom
  rw [hvalid.writableSize_eq] at hroom'
  have hwle' := hvalid.write_le
  have hcap' := hvalid.capacity_lt
  have hlen' := hvalid.capacity_eq
  obtain ⟨hahead, hkeep⟩ :=
    hvalid.writeAhead (show offset + bytes.length ≤ b'.writableSize by omega)
  rw [if_pos hroom, Word64.add_of_lt (by omega), Cells.writeAt_eq _ (by omega), ok_bind]
  exact ⟨hahead, hkeep.trans hcontents, rfl, hroom, Cells.slice_splice_self (by omega)⟩

theorem pushData_sat (h : b.Valid) (hfit : b.Fits bytes.length) :
    Sat (b.pushData (.block bytes))
      (fun r => r.1.Valid ∧ r.1.contents = b.contents ++ bytes ∧ r.2 = bytes.length)
      (OutOfMemory b bytes.length) := by
  by_cases hne : bytes.length = 0
  · have hnil := List.length_eq_zero_iff.mp hne
    obtain ⟨hvalid, hcontents⟩ := h.produce (Nat.zero_le b.writableSize)
    simp only [Cells.slice_zero, List.append_nil] at hcontents
    simp only [pushData, pushDataAt, hnil, List.length_nil, if_true, ok_bind, Data.size]
    exact ⟨hvalid, by simpa using hcontents, rfl⟩
  · refine (pushDataAt_sat h hne (show b.Fits (bytes.length + 0) from hfit)).bind ?_
    rintro ⟨b', n⟩ ⟨hvalid, hcontents, rfl, hroom, hslice⟩
    obtain ⟨hprod, happend⟩ := hvalid.produce (show bytes.length ≤ b'.writableSize by omega)
    refine sat_ite (fun _ => ⟨hprod, ?_, rfl⟩) (fun hsize => (hsize rfl).elim)
    rw [happend, hcontents]
    exact congrArg _ hslice

/-- Memory runs out only for contents that no machine holds. -/
theorem pushData_returns (h : b.Valid) (hsmall : b.readableSize + bytes.length ≤ 2 ^ 62) :
    ∃ b', b.pushData (.block bytes) = .ok (b', bytes.length) ∧ b'.Valid ∧
      b'.contents = b.contents ++ bytes := by
  have hfit : b.Fits bytes.length := by simp only [Fits, kMaxBufferSize]; omega
  obtain ⟨⟨b', n⟩, hok, hvalid, hcontents, rfl⟩ :=
    ((pushData_sat h hfit).mono (fun _ h => h) (by rintro e ⟨-, hbig⟩; omega)).returns
  exact ⟨b', hok, hvalid, hcontents⟩

theorem valid_clear (h : b.Valid) : b.clear.Valid :=
  ⟨Nat.le_refl _, Nat.zero_le _, h.capacity_eq, h.capacity_le⟩

@[simp] theorem contents_clear : b.clear.contents = [] := by
  simp [contents, clear, readableSize, Word64.sub, Word64.size]

theorem consume_eq (h : b.Valid) (hsize : size ≤ b.readableSize) :
    ∃ b', b.consume size = .ok b' ∧ b'.Valid ∧ b'.contents = b.contents.drop size := by
  have hle := h.read_le
  have hwle := h.write_le
  have hcap := h.capacity_lt
  rw [h.readableSize_eq] at hsize
  have hadd : Word64.add b.readPos size = b.readPos + size := Word64.add_of_lt (by omega)
  have hvalid : ({ b with readPos := b.readPos + size } : Buffer).Valid :=
    ⟨by simp only; omega, hwle, h.capacity_eq, h.capacity_le⟩
  have hcontents : ({ b with readPos := b.readPos + size } : Buffer).contents =
      b.contents.drop size := by
    rw [hvalid.contents_eq, h.contents_eq, Cells.drop_slice, Nat.sub_add_eq]
  rw [consume, hadd, if_pos (by omega)]
  refine ⟨_, rfl, ?_⟩
  split
  · rw [contents_clear, ← hcontents]
    exact ⟨valid_clear hvalid, (hvalid.isEmpty_iff.mp ‹_›).symm⟩
  · exact ⟨hvalid, hcontents⟩

theorem peekDataAt_eq (h : b.Valid) (hsum : size + offset < 2 ^ 64) :
    b.peekDataAt false size offset = .ok ((b.contents.drop offset).take size) := by
  have hle := h.read_le
  have hwle := h.write_le
  have hcap := h.capacity_lt
  have hlen := h.capacity_eq
  have hread := h.readableSize_eq
  simp only [peekDataAt, Bool.false_eq_true, false_or]
  split
  next hnone =>
    rcases hnone with hzero | hpast
    · simp [hzero]
    · rw [List.drop_eq_nil_of_le (by rw [h.length_contents]; exact hpast), List.take_nil]
  next hsome =>
    rw [Word64.add_of_lt hsum, Word64.add_of_lt (by omega), h.contents_eq, Cells.drop_slice]
    split
    · rw [Cells.readAt_eq _ (by omega), ← hread, List.take_of_length_le]
      rw [Cells.length_slice (by omega)]
      omega
    · rw [Cells.readAt_eq _ (by omega), Cells.take_slice (by omega)]

theorem popData_eq (h : b.Valid) (hsize : size < 2 ^ 64) :
    ∃ b', b.popData false size = .ok (b', b.contents.take size) ∧ b'.Valid ∧
      b'.contents = b.contents.drop size := by
  have hlen : (b.contents.take size).length = min size b.readableSize := by
    rw [List.length_take, h.length_contents]
  obtain ⟨b', hok, hvalid, hcontents⟩ :=
    consume_eq h (show (b.contents.take size).length ≤ b.readableSize by omega)
  refine ⟨b', ?_, hvalid, ?_⟩
  · simp only [popData, peekDataAt_eq h (show size + 0 < 2 ^ 64 from hsize), List.drop_zero,
      ok_bind, hok]
  · rw [hcontents, hlen]
    rcases Nat.le_total size b.readableSize with hs | hs
    · rw [Nat.min_eq_left hs]
    · rw [Nat.min_eq_right hs, List.drop_eq_nil_of_le (by rw [h.length_contents]),
        List.drop_eq_nil_of_le (by rw [h.length_contents]; exact hs)]

/-- `Shrink` always gets its array: it is smaller than the one the buffer owns. -/
theorem shrink_eq (h : b.Valid) :
    ∃ b', b.shrink = .ok b' ∧ b'.Valid ∧ b'.contents = b.contents := by
  have hcap := h.capacity_lt
  rw [shrink]
  by_cases hempty : b.isEmpty
  · rw [if_pos hempty]
    refine ⟨_, rfl, ?_⟩
    split
    · exact ⟨valid_new, (h.isEmpty_iff.mp hempty).symm⟩
    · exact ⟨h, rfl⟩
  · rw [if_neg hempty]
    have hpos : b.readableSize ≠ 0 := by simpa [isEmpty] using hempty
    by_cases hfull : b.capacity / 4 < b.readableSize
    · exact ⟨b, if_pos hfull, h, rfl⟩
    · obtain ⟨e, he, hround⟩ := exists_isRoundUp (n := b.readableSize) (by omega) (by omega)
      obtain ⟨hge, hlt⟩ := hround
      have hmax : 2 ^ e ≤ ptrdiffMax := by simp only [ptrdiffMax]; omega
      obtain ⟨hvalid, hcontents, -⟩ := h.rebase (List.replicate (2 ^ e) 0)
        (by simpa using hge) (by simpa using hmax)
      rw [List.length_replicate] at hvalid hcontents
      refine ⟨_, ?_, hvalid, hcontents⟩
      simp only [if_neg hfull, roundUp2Power_eq (by omega) he ⟨hge, hlt⟩, ok_bind, newArray,
        if_pos hmax, h.readAt_contents]
      rw [Cells.writeAt_eq _ (by rw [h.length_contents]; simpa using hge), ok_bind]

end Hplsp.Buffer
