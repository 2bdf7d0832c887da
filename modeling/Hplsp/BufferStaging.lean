import Mathlib.Data.List.Forall2
import Mathlib.Data.List.Induction
import Hplsp.BufferLimits
import Hplsp.BufferQueue

/-! Bytes that `PushDataAt` leaves behind `writePos_`: exactly when `Produce` finds them there. -/

namespace Hplsp.Buffer

open Outcome

/-- The arguments of a `PushDataAt`. -/
structure StagedWrite where
  bytes : List UInt8
  offset : Nat

namespace StagedWrite

/-- The write goes to the byte `i` behind `writePos_`. -/
def Covers (w : StagedWrite) (i : Nat) : Prop := w.offset ≤ i ∧ i < w.offset + w.bytes.length

def SameRequest (w w' : StagedWrite) : Prop :=
  w.bytes.length = w'.bytes.length ∧ w.offset = w'.offset

end StagedWrite

/-- A successful call: it returns its size. -/
def Staged (b : Buffer) (w : StagedWrite) (b' : Buffer) : Prop :=
  b.pushDataAt (.block w.bytes) w.offset = .ok (b', w.bytes.length)

/-- The ranges are disjoint and together make up `[0, n)`. -/
structure Tiles (ws : List StagedWrite) (n : Nat) : Prop where
  covered : ∀ i, (∃ w ∈ ws, w.Covers i) ↔ i < n
  disjoint : ws.Pairwise fun w w' => ∀ i, ¬ (w.Covers i ∧ w'.Covers i)

/-- `Produce(n)` on `b'` appends to the contents of `b` the bytes of each write at its offset. -/
def Survives (b : Buffer) (ws : List StagedWrite) (b' : Buffer) (n : Nat) : Prop :=
  ∃ staged : List UInt8, staged.length = n ∧ (b'.produce n).contents = b.contents ++ staged ∧
    ∀ w ∈ ws, Cells.slice staged w.offset w.bytes.length = w.bytes

/-- Once bytes are staged, every further call finds the room that it asks `AssureSpace` for. -/
def StaysPut (b : Buffer) (ws : List StagedWrite) : Prop :=
  ∀ before w after t, ws = before ++ w :: after → Lts.Run Staged b before t →
    (∃ w₀ ∈ before, w₀.bytes ≠ []) → w.bytes ≠ [] → w.bytes.length + w.offset ≤ t.writableSize

variable {b b' f f' t : Buffer} {w w' : StagedWrite} {ws ws' : List StagedWrite}
  {bytes bytes' : List UInt8} {m n needsize offset size : Nat}

/-- The readable bytes at the start of an array of `capacity` bytes: a new one if that is more
than the buffer has. -/
def relocated (b : Buffer) (capacity : Nat) : Buffer :=
  ⟨0, b.readableSize, capacity,
    Cells.splice (if b.capacity < capacity then List.replicate capacity 0 else b.buffer) 0
      b.contents⟩

/-- The block written behind `writePos_ + offset`. -/
def written (b : Buffer) (bytes : List UInt8) (offset : Nat) : Buffer :=
  { b with buffer := Cells.splice b.buffer (b.writePos + offset) bytes }

theorem StagedWrite.Covers.ne_nil {i : Nat} (h : w.Covers i) : w.bytes ≠ [] := by
  obtain ⟨hoff, hlast⟩ := h
  exact List.ne_nil_of_length_pos (by omega)

theorem StagedWrite.covers_offset (h : w.bytes ≠ []) : w.Covers w.offset :=
  ⟨Nat.le_refl _, Nat.lt_add_of_pos_right (List.length_pos_iff.mpr h)⟩

theorem Tiles.inside (htiles : Tiles ws n) (hw : w ∈ ws) (hne : w.bytes ≠ []) :
    w.offset + w.bytes.length ≤ n := by
  have hpos := List.length_pos_iff.mpr hne
  have := (htiles.covered (w.offset + w.bytes.length - 1)).mp ⟨w, hw, by omega, by omega⟩
  omega

/-- What `AssureSpace` does depends on the cursors and on the readable bytes. -/
theorem assureSpace_eq (h : b.Valid) (hfit : b.Fits needsize) :
    b.assureSpace needsize = if needsize ≤ b.writableSize then .ok b else
      growCapacity b needsize 128 b.capacity >>= fun capacity =>
        if capacity ≤ ptrdiffMax then .ok (b.relocated capacity) else .error .badAlloc := by
  have hread := h.readableSize_eq
  have hwrite := h.writableSize_eq
  have hle := h.read_le
  have hwle := h.write_le
  have hcap := h.capacity_lt
  have hmax := h.capacity_le
  have hlen := h.length_contents
  have hsize := h.capacity_eq
  simp only [Fits, kMaxBufferSize] at hfit
  by_cases hroom : needsize ≤ b.writableSize
  · rw [assureSpace, if_pos hroom, if_pos hroom]
  have hneed : b.writePos - b.readPos + needsize < 2 ^ 63 := by omega
  obtain ⟨capacity, hgrow, hmono, hreached, -⟩ := growCapacity_spec hle hneed hwle hcap
  simp only [assureSpace, if_neg hroom, hgrow, ok_bind, h.readAt_contents]
  by_cases hmore : b.capacity < capacity
  · by_cases hnew : capacity ≤ ptrdiffMax
    · simp only [if_pos hmore, newArray, if_pos hnew, ok_bind, relocated]
      by_cases hzero : b.readableSize = 0
      · have hnil : b.contents = [] := by rw [← List.length_eq_zero_iff, hlen, hzero]
        simp [hzero, hnil, Cells.splice]
      · rw [if_neg hzero, Cells.writeAt_eq _ (by rw [List.length_replicate]; omega), ok_bind]
    · simp only [if_pos hmore, newArray, if_neg hnew, error_bind]
  · have hsame : capacity = b.capacity := by omega
    subst hsame
    rw [if_neg hmore, if_pos (by omega), if_pos hmax, Cells.writeAt_eq _ (by omega), ok_bind,
      relocated, if_neg hmore]

/-- The growth loop looks at the cursors only. -/
theorem growCapacity_congr (hr : f.readPos = b.readPos) (hw : f.writePos = b.writePos) :
    ∀ fuel capacity, growCapacity f needsize fuel capacity =
      growCapacity b needsize fuel capacity := by
  intro fuel
  induction fuel with
  | zero => intro capacity; rfl
  | succ fuel ih =>
    intro capacity
    simp only [growCapacity, writableSize, hr, hw, ih]
    rfl

/-- A write that neither lies past the limit nor wraps copies its block. -/
theorem pushDataAt_eq (h : b.Valid) (hne : bytes ≠ []) (hfit : b.Fits (bytes.length + offset)) :
    b.pushDataAt (.block bytes) offset =
      b.assureSpace (bytes.length + offset) >>= fun b₁ =>
        .ok (b₁.written bytes offset, bytes.length) := by
  have hread := h.readableSize_eq
  have hzero : bytes.length ≠ 0 := fun hzero => hne (List.length_eq_zero_iff.mp hzero)
  have hlimit := hfit
  simp only [Fits, kMaxBufferSize] at hlimit
  rw [pushDataAt, if_neg hzero, Word64.add_of_lt (a := b.readableSize) (by omega),
    Word64.add_of_lt (by omega), if_neg (by simp only [kMaxBufferSize]; omega),
    Word64.add_of_lt (by omega)]
  have hsat := assureSpace_sat h hfit
  cases hassure : b.assureSpace (bytes.length + offset) with
  | error e => rfl
  | ok b₁ =>
    obtain ⟨hvalid, -, hroom⟩ := hsat.of_ok hassure
    have hwle := hvalid.write_le
    have hcap := hvalid.capacity_lt
    have hlen := hvalid.capacity_eq
    have hspace := hroom
    rw [hvalid.writableSize_eq] at hspace
    rw [ok_bind, ok_bind, if_pos hroom, Word64.add_of_lt (by omega),
      Cells.writeAt_eq _ (by omega)]
    rfl

theorem relocated_valid (h : b.Valid) {capacity : Nat} (hc : b.capacity ≤ capacity)
    (hmax : capacity ≤ ptrdiffMax) :
    (b.relocated capacity).Valid ∧ (b.relocated capacity).contents = b.contents := by
  have hread := h.readableSize_eq
  have hwle := h.write_le
  have hlen := h.capacity_eq
  have hcells : (if b.capacity < capacity then List.replicate capacity 0
      else b.buffer).length = capacity := by
    split
    · exact List.length_replicate
    · omega
  obtain ⟨hvalid, hcontents, -⟩ :=
    h.rebase (if b.capacity < capacity then List.replicate capacity 0 else b.buffer)
      (by omega) (by omega)
  rw [hcells] at hvalid hcontents
  exact ⟨hvalid, hcontents⟩

/-- Two buffers with the same cursors, readable bytes and first `m` cells. -/
structure Twin (m : Nat) (b f : Buffer) : Prop where
  left : b.Valid
  right : f.Valid
  readPos : f.readPos = b.readPos
  writePos : f.writePos = b.writePos
  capacity : f.capacity = b.capacity
  contents : f.contents = b.contents
  cells : ∀ i < m, f.buffer[i]? = b.buffer[i]?

theorem Twin.refl (h : b.Valid) : Twin m b b := ⟨h, h, rfl, rfl, rfl, rfl, fun _ _ => rfl⟩

theorem Twin.readableSize (h : Twin m b f) : f.readableSize = b.readableSize := by
  rw [← h.left.length_contents, ← h.right.length_contents, h.contents]

theorem Twin.writableSize (h : Twin m b f) : f.writableSize = b.writableSize := by
  rw [Buffer.writableSize, Buffer.writableSize, h.writePos, h.capacity]

theorem Twin.relocated (h : Twin m b f) {capacity : Nat} (hc : b.capacity ≤ capacity)
    (hmax : capacity ≤ ptrdiffMax) (hm : b.capacity < capacity ∨ n ≤ m) :
    Twin n (b.relocated capacity) (f.relocated capacity) := by
  have hread := h.left.readableSize_eq
  have hwle := h.left.write_le
  have hlen := h.left.capacity_eq
  have hlen' := h.right.capacity_eq
  have hcap := h.capacity
  obtain ⟨hvalid, hcontents⟩ := relocated_valid h.left hc hmax
  obtain ⟨hvalid', hcontents'⟩ := relocated_valid h.right (h.capacity.trans_le hc) hmax
  refine ⟨hvalid, hvalid', rfl, h.readableSize, rfl,
    hcontents'.trans (h.contents.trans hcontents.symm), fun i hi => ?_⟩
  simp only [Buffer.relocated, h.contents, h.capacity]
  have hfits : ∀ cells : List UInt8, b.capacity ≤ cells.length →
      0 + b.contents.length ≤ cells.length := by
    intro cells hcells
    rw [h.left.length_contents]
    omega
  split
  next => rfl
  next hsame =>
    rw [Cells.getElem?_splice (hfits _ (by omega)), Cells.getElem?_splice (hfits _ (by omega))]
    split
    · rfl
    · exact h.cells i (by omega)

theorem Twin.written (h : Twin m b f) (hlen : bytes.length = bytes'.length)
    (hroom : bytes.length + offset ≤ b.writableSize)
    (hm : bytes' = bytes ∨ m ≤ b.writePos + offset) :
    Twin m (b.written bytes offset) (f.written bytes' offset) := by
  have hspace := hroom
  have hsize := h.left.capacity_eq
  have hsize' := h.right.capacity_eq
  have hcap := h.capacity
  have hwrite := h.writePos
  have hwle := h.left.write_le
  obtain ⟨hvalid, hcontents⟩ := h.left.writeAhead
    (show offset + bytes.length ≤ b.writableSize by omega)
  obtain ⟨hvalid', hcontents'⟩ := h.right.writeAhead
    (show offset + bytes'.length ≤ f.writableSize by rw [h.writableSize]; omega)
  rw [h.left.writableSize_eq] at hspace
  refine ⟨hvalid, hvalid', h.readPos, h.writePos, h.capacity,
    hcontents'.trans (h.contents.trans hcontents.symm), fun i hi => ?_⟩
  simp only [Buffer.written, h.writePos]
  rw [Cells.getElem?_splice (by omega), Cells.getElem?_splice (by omega), hlen, h.cells i hi]
  split
  next hin =>
    rcases hm with rfl | hm
    · rfl
    · omega
  next => rfl

/-- What an `AssureSpace` that returns does to two buffers alike. -/
theorem Twin.assureSpace {b₁ : Buffer} (h : Twin m b f) (hfit : b.Fits needsize)
    (hok : b.assureSpace needsize = .ok b₁) :
    (needsize ≤ b.writableSize ∧ b₁ = b ∧ f.assureSpace needsize = .ok f) ∨
      (b.writableSize < needsize ∧ ∃ capacity, b.capacity ≤ capacity ∧ capacity ≤ ptrdiffMax ∧
        (b.capacity < capacity ∨ 0 < b.readPos) ∧ b₁ = b.relocated capacity ∧
        f.assureSpace needsize = .ok (f.relocated capacity)) := by
  have hread := h.left.readableSize_eq
  have hwrite := h.left.writableSize_eq
  have hle := h.left.read_le
  have hwle := h.left.write_le
  have hcap := h.left.capacity_lt
  have hfit' : f.Fits needsize := by rwa [Fits, h.readableSize]
  have hlimit := hfit
  simp only [Fits, kMaxBufferSize] at hlimit
  rw [assureSpace_eq h.left hfit] at hok
  rw [assureSpace_eq h.right hfit', h.writableSize, h.capacity,
    growCapacity_congr h.readPos h.writePos]
  by_cases hroom : needsize ≤ b.writableSize
  · rw [if_pos hroom] at hok ⊢
    cases hok
    exact Or.inl ⟨hroom, rfl, rfl⟩
  · have hneed : b.writePos - b.readPos + needsize < 2 ^ 63 := by omega
    obtain ⟨capacity, hgrow, hmono, hreached, -⟩ := growCapacity_spec hle hneed hwle hcap
    rw [if_neg hroom, hgrow, ok_bind] at hok ⊢
    split at hok
    next hmax =>
      cases hok
      exact Or.inr ⟨by omega, capacity, hmono, hmax, by omega, rfl, if_pos hmax⟩
    next => cases hok

theorem staged_nil (hs : Staged b w b') (hnil : w.bytes = []) : b' = b := by
  simp only [Staged, hnil, pushDataAt, List.length_nil, if_true] at hs
  cases hs
  rfl

/-- A call that copied keeps the cursors in order, and writes inside the array. -/
theorem staged_valid (h : b.Valid) (hs : Staged b w b') :
    b'.Valid ∧ (w.bytes ≠ [] → w.offset < 2 ^ 63 → w.offset + w.bytes.length < 2 ^ 63) := by
  by_cases hnil : w.bytes = []
  · rw [staged_nil hs hnil]
    exact ⟨h, fun hne => (hne hnil).elim⟩
  have hzero : w.bytes.length ≠ 0 := fun hzero => hnil (List.length_eq_zero_iff.mp hzero)
  rw [Staged, pushDataAt, if_neg hzero] at hs
  split at hs
  · exact (hzero (Prod.mk.inj (Except.ok.inj hs)).2.symm).elim
  · obtain ⟨b₁, hassure, hs⟩ := bind_eq_ok.mp hs
    obtain ⟨hvalid, -⟩ := assureSpace_ok h hassure
    split at hs
    · obtain ⟨buffer, hwrite, hs⟩ := bind_eq_ok.mp hs
      cases hs
      obtain ⟨hspace, rfl⟩ := Cells.writeAt_eq_ok.mp hwrite
      have hwle := hvalid.write_le
      have hlen := hvalid.capacity_eq
      have hcap := hvalid.capacity_lt
      refine ⟨⟨hvalid.read_le, hwle, hlen.trans (Cells.length_splice hspace).symm,
        hvalid.capacity_le⟩, fun _ hoff => ?_⟩
      rw [Word64.add_of_lt (by omega)] at hspace
      omega
    · cases hs

/-- A successful call at a range below `2 ^ 63` was below the limit without wrapping. -/
theorem staged_fits (h : b.Valid) (hs : Staged b w b') (hne : w.bytes ≠ [])
    (hsmall : w.offset + w.bytes.length < 2 ^ 63) : b.Fits (w.bytes.length + w.offset) := by
  have hzero : w.bytes.length ≠ 0 := fun hzero => hne (List.length_eq_zero_iff.mp hzero)
  have hread := h.readableSize_eq
  have hwle := h.write_le
  have hcap := h.capacity_lt
  rw [Staged, pushDataAt, if_neg hzero] at hs
  split at hs
  · exact (hzero (Prod.mk.inj (Except.ok.inj hs)).2.symm).elim
  next hguard =>
    rw [Word64.add_of_lt (a := b.readableSize) (by omega), Word64.add_of_lt (by omega)] at hguard
    simp only [Fits]
    omega

/-- One call on two buffers: the same room is found or made, and the blocks are written. -/
theorem Twin.step (h : Twin m b f) (hw : w.SameRequest w') (hs : Staged b w b')
    (hsmall : w.bytes ≠ [] → w.offset + w.bytes.length < 2 ^ 63)
    (hm : w' = w ∨ m ≤ b'.writePos + w.offset) :
    ∃ f', Staged f w' f' ∧ Twin m b' f' ∧ b'.writePos ≤ b.writePos ∧ b'.contents = b.contents := by
  obtain ⟨hlen, hoff⟩ := hw
  by_cases hnil : w.bytes = []
  · have hnil' : w'.bytes = [] := by rw [← List.length_eq_zero_iff, ← hlen, hnil, List.length_nil]
    obtain rfl := staged_nil hs hnil
    refine ⟨f, ?_, h, Nat.le_refl _, rfl⟩
    simp only [Staged, pushDataAt, hnil', List.length_nil, if_true]
  have hne' : w'.bytes ≠ [] := by
    rintro hnil'
    rw [hnil', List.length_nil, List.length_eq_zero_iff] at hlen
    exact hnil hlen
  have hfit := staged_fits h.left hs hnil (hsmall hnil)
  have hfit' : f.Fits (w'.bytes.length + w'.offset) := by
    rwa [Fits, h.readableSize, ← hlen, ← hoff]
  rw [Staged, pushDataAt_eq h.left hnil hfit] at hs
  obtain ⟨b₁, hassure, hs⟩ := bind_eq_ok.mp hs
  cases hs
  obtain ⟨hvalid₁, hcontents₁, hroom⟩ := (assureSpace_sat h.left hfit).of_ok hassure
  have hbytes : w'.bytes = w.bytes ∨ m ≤ b₁.writePos + w.offset := hm.imp (by rintro rfl; rfl) id
  have hread := h.left.readableSize_eq
  obtain ⟨f₁, hassure', htwin, hwrite⟩ : ∃ f₁, f.assureSpace (w'.bytes.length + w'.offset) =
      .ok f₁ ∧ Twin m b₁ f₁ ∧ b₁.writePos ≤ b.writePos := by
    rw [← hlen, ← hoff]
    rcases h.assureSpace hfit hassure with
      ⟨-, rfl, hstay⟩ | ⟨-, capacity, hc, hmax, -, rfl, hmove⟩
    · exact ⟨f, hstay, h, Nat.le_refl _⟩
    · refine ⟨_, hmove, h.relocated hc hmax (Or.inr (Nat.le_refl m)), ?_⟩
      show b.readableSize ≤ b.writePos
      omega
  have hdone := htwin.written hlen hroom hbytes
  refine ⟨f₁.written w'.bytes w.offset, ?_, hdone, hwrite, ?_⟩
  · rw [Staged, pushDataAt_eq h.right hne' hfit', hassure', ok_bind, hoff]
  · exact (hvalid₁.writeAhead (show w.offset + w.bytes.length ≤ b₁.writableSize by omega)).2.trans
      hcontents₁

/-- After a relocation the cells behind `writePos_` are others than before it. -/
theorem Twin.step_relocating (h : Twin m b f) (hs : Staged b w b') (hne : w.bytes ≠ [])
    (hsmall : w.offset + w.bytes.length < 2 ^ 63)
    (hmove : b.writableSize < w.bytes.length + w.offset) (hm : b.writePos + n ≤ m) :
    ∃ f' k, Staged f w f' ∧ Twin k b' f' ∧ b'.writePos + n < k := by
  have hfit := staged_fits h.left hs hne hsmall
  have hfit' : f.Fits (w.bytes.length + w.offset) := by rwa [Fits, h.readableSize]
  have hread := h.left.readableSize_eq
  have hle := h.left.read_le
  rw [Staged, pushDataAt_eq h.left hne hfit] at hs
  obtain ⟨b₁, hassure, hs⟩ := bind_eq_ok.mp hs
  cases hs
  obtain ⟨-, -, hroom⟩ := (assureSpace_sat h.left hfit).of_ok hassure
  rcases h.assureSpace hfit hassure with
    ⟨hstay, -⟩ | ⟨-, capacity, hc, hmax, hwhy, rfl, hassure'⟩
  · omega
  · have hk : b.capacity < capacity ∨ b.readableSize + n + 1 ≤ m := by omega
    have htwin := (h.relocated hc hmax hk).written rfl hroom (Or.inl rfl)
    refine ⟨_, _, ?_, htwin, Nat.lt_succ_self _⟩
    rw [Staged, pushDataAt_eq h.right hne hfit', hassure', ok_bind]

theorem staged_unique (b : Buffer) (w : StagedWrite) (t s : Buffer)
    (ht : Staged b w t) (hs : Staged b w s) : t = s :=
  (Prod.mk.inj (ok_unique ht hs)).1

/-- Two runs with the same requests, and the same data unless nothing is said of the cells. -/
theorem Twin.run (hrun : Lts.Run Staged b ws t) (h : Twin m b f)
    (hws : List.Forall₂ StagedWrite.SameRequest ws ws')
    (hsmall : ∀ w ∈ ws, w.bytes ≠ [] → w.offset + w.bytes.length < 2 ^ 63)
    (hm : ws' = ws ∨ m = 0) :
    ∃ u, Lts.Run Staged f ws' u ∧ Twin m t u ∧ t.writePos ≤ b.writePos ∧
      t.contents = b.contents := by
  induction hrun generalizing f ws' with
  | refl b =>
    cases hws
    exact ⟨f, .refl f, h, Nat.le_refl _, rfl⟩
  | cons hstep _ ih =>
    cases hws with
    | cons hw hws =>
      obtain ⟨f₁, hstep', htwin, hle, hcontents⟩ := h.step hw hstep
        (hsmall _ List.mem_cons_self) (by
          rcases hm with heq | rfl
          · exact Or.inl (List.cons.inj heq).1
          · exact Or.inr (Nat.zero_le _))
      obtain ⟨u, hrest, hlast, hle', hcontents'⟩ := ih htwin hws
        (fun w hw => hsmall w (List.mem_cons_of_mem _ hw)) (by
          rcases hm with heq | rfl
          · exact Or.inl (List.cons.inj heq).2
          · exact Or.inr rfl)
      exact ⟨u, .cons hstep' hrest, hlast, hle'.trans hle, hcontents'.trans hcontents⟩

/-- In a run whose ranges make up `[0, n)`, no range leaves the address space. -/
theorem Tiles.small (htiles : Tiles ws n) (h : b.Valid) (hrun : Lts.Run Staged b ws t) :
    n < 2 ^ 63 := by
  have hnear : ∀ w ∈ ws, w.bytes ≠ [] → w.offset < 2 ^ 63 →
      w.offset + w.bytes.length < 2 ^ 63 := by
    clear htiles
    induction hrun with
    | refl => simp
    | cons hstep _ ih =>
      obtain ⟨hvalid, hfirst⟩ := staged_valid h hstep
      intro w hw
      rcases List.mem_cons.mp hw with rfl | hw
      · exact hfirst
      · exact ih hvalid w hw
  by_contra hbig
  obtain ⟨w, hw, hcovers⟩ := (htiles.covered (2 ^ 63 - 1)).mpr (by omega)
  have hlast := hcovers.2
  have := hnear w hw hcovers.ne_nil (by have := hcovers.1; omega)
  omega

/-- The bytes that `Produce` makes readable are the cells behind `writePos_`. -/
theorem Valid.produce_get (h : b.Valid) (hn : n < 2 ^ 63) {o : Nat} (ho : o < n) :
    (b.produce n).contents[b.contents.length + o]? = b.buffer[b.writePos + o]? := by
  have hread := h.readableSize_eq
  have hle := h.read_le
  have hwle := h.write_le
  have hcap := h.capacity_lt
  have hadd : Word64.add b.writePos n = b.writePos + n := Word64.add_of_lt (by omega)
  have hsize : (b.produce n).readableSize = b.writePos + n - b.readPos := by
    simp only [readableSize, Buffer.produce, hadd]
    exact Word64.sub_of_le (by omega) (by omega)
  rw [Buffer.contents, hsize, h.length_contents, Cells.getElem?_slice (by omega), hread]
  show b.buffer[b.readPos + (b.writePos - b.readPos + o)]? = _
  congr 1
  omega

theorem Survives.get (h : b.Valid) (hn : n < 2 ^ 63) (hc : b.contents = f.contents)
    (hsurv : Survives f ws b n) (hw : w ∈ ws) {o : Nat} (ho : w.Covers o) (hlt : o < n) :
    b.buffer[b.writePos + o]? = w.bytes[o - w.offset]? := by
  obtain ⟨staged, hlen, hcontents, hall⟩ := hsurv
  obtain ⟨hoff, hlast⟩ := ho
  have hget := h.produce_get hn hlt
  rw [hcontents, hc, List.getElem?_append_right (by omega), Nat.add_sub_cancel_left] at hget
  rw [← hget, ← hall w hw, Cells.getElem?_slice (by omega)]
  congr 1
  omega

/-- A call that relocates loses what was staged before it: other bytes there, and the buffer
that `Produce` makes readable is the same. -/
theorem lost_of_moved {w₀ : StagedWrite} {before after : List StagedWrite} (h : b.Valid)
    (htiles : Tiles ws n) (hws : ws = before ++ w :: after)
    (hrun : Lts.Run Staged b ws b') (hbefore : Lts.Run Staged b before t)
    (hmem : w₀ ∈ before) (hne₀ : w₀.bytes ≠ []) (hne : w.bytes ≠ [])
    (hmove : t.writableSize < w.bytes.length + w.offset) :
    ∃ ws' f, List.Forall₂ StagedWrite.SameRequest ws ws' ∧ Lts.Run Staged b ws' f ∧
      ¬ (Survives b ws b' n ∧ Survives b ws' f n) := by
  have hn := htiles.small h hrun
  have hsmall : ∀ w ∈ ws, w.bytes ≠ [] → w.offset + w.bytes.length < 2 ^ 63 :=
    fun w hw hne => (htiles.inside hw hne).trans_lt hn
  obtain ⟨pre, mid, rfl⟩ := List.append_of_mem hmem
  subst hws
  -- the run in its parts: before `w₀`, between `w₀` and `w`, after `w`
  obtain ⟨t', hbefore', hafter⟩ := Lts.run_append.mp hrun
  obtain rfl := hbefore.unique staged_unique hbefore'
  obtain ⟨t₁, hw, hafter⟩ := Lts.run_cons.mp hafter
  obtain ⟨s, hpre, hmid⟩ := Lts.run_append.mp hbefore
  obtain ⟨s₁, hw₀, hmid⟩ := Lts.run_cons.mp hmid
  have hsame : ∀ ws, List.Forall₂ StagedWrite.SameRequest ws ws :=
    fun ws => List.forall₂_same.mpr fun _ _ => ⟨rfl, rfl⟩
  have hmap : w₀.SameRequest ⟨w₀.bytes.map (· + 1), w₀.offset⟩ := ⟨by simp, rfl⟩
  -- the second run writes other bytes at `w₀`, and the same everywhere else
  obtain ⟨_, -, hs, -, hsc⟩ := (Twin.refl (m := 0) h).run hpre (hsame pre)
    (fun w hw => hsmall w (by simp [hw])) (Or.inl rfl)
  obtain ⟨f₁, hfw₀, hstwin, -, hs₁c⟩ := (Twin.refl (m := s₁.writePos + w₀.offset) hs.left).step
    hmap hw₀ (hsmall w₀ (by simp)) (Or.inr (Nat.le_refl _))
  obtain ⟨f₂, hfmid, htwin, hle, htc⟩ := hstwin.run hmid (hsame mid)
    (fun w hw => hsmall w (by simp [hw])) (Or.inl rfl)
  obtain ⟨f₃, k, hfw, hktwin, hk⟩ := htwin.step_relocating hw hne
    (hsmall w (by simp) hne) hmove (Nat.add_le_add_right hle w₀.offset)
  obtain ⟨_, -, -, -, ht₁c⟩ := (Twin.refl (m := 0) htwin.left).step ⟨rfl, rfl⟩ hw
    (hsmall w (by simp)) (Or.inl rfl)
  obtain ⟨f, hfafter, hlast, hle', hlc⟩ := hktwin.run hafter (hsame after)
    (fun w hw => hsmall w (by simp [hw])) (Or.inl rfl)
  refine ⟨pre ++ ⟨w₀.bytes.map (· + 1), w₀.offset⟩ :: mid ++ w :: after, f, ?_, ?_, ?_⟩
  · exact List.rel_append (List.rel_append (hsame pre) (.cons hmap (hsame mid)))
      (hsame (w :: after))
  · exact Lts.run_append.mpr ⟨f₂, Lts.run_append.mpr ⟨s, hpre, .cons hfw₀ hfmid⟩,
      .cons hfw hfafter⟩
  · rintro ⟨hleft, hright⟩
    have hpos := List.length_pos_iff.mpr hne₀
    have hin := htiles.inside (w := w₀) (by simp) hne₀
    have hcontents : b'.contents = b.contents := by
      rw [hlc, ht₁c, htc, hs₁c, hsc]
    have hbyte := hleft.get hlast.left hn hcontents (w := w₀) (by simp)
      (StagedWrite.covers_offset hne₀) (by omega)
    have hbyte' := hright.get hlast.right hn (hlast.contents.trans hcontents)
      (w := ⟨w₀.bytes.map (· + 1), w₀.offset⟩) (by simp)
      (StagedWrite.covers_offset (by simpa using hne₀)) (by simp only; omega)
    rw [hlast.writePos, hlast.cells _ (by simp only; omega), hbyte] at hbyte'
    simp [List.getElem?_eq_getElem hpos] at hbyte'

/-- The bytes of each write stand behind `writePos_`. -/
structure Held (b : Buffer) (ws : List StagedWrite) (t : Buffer) : Prop where
  valid : t.Valid
  contents : t.contents = b.contents
  room : ∀ w ∈ ws, w.bytes ≠ [] → w.bytes.length + w.offset ≤ t.writableSize
  bytes : ∀ w ∈ ws, w.bytes ≠ [] →
    Cells.slice t.buffer (t.writePos + w.offset) w.bytes.length = w.bytes

theorem Held.step (h : Held b ws t) (hs : Staged t w b')
    (hsmall : w.bytes ≠ [] → w.offset + w.bytes.length < 2 ^ 63)
    (hput : (∃ w₀ ∈ ws, w₀.bytes ≠ []) → w.bytes ≠ [] →
      w.bytes.length + w.offset ≤ t.writableSize)
    (hdisjoint : ∀ w₀ ∈ ws, ∀ i, ¬ (w₀.Covers i ∧ w.Covers i)) : Held b (ws ++ [w]) b' := by
  by_cases hnil : w.bytes = []
  · obtain rfl := staged_nil hs hnil
    refine ⟨h.valid, h.contents, fun w' hw' hne' => ?_, fun w' hw' hne' => ?_⟩ <;>
      rcases List.mem_append.mp hw' with hw' | hw'
    · exact h.room w' hw' hne'
    · exact (hne' (by rw [List.mem_singleton.mp hw', hnil])).elim
    · exact h.bytes w' hw' hne'
    · exact (hne' (by rw [List.mem_singleton.mp hw', hnil])).elim
  have hfit := staged_fits h.valid hs hnil (hsmall hnil)
  rw [Staged, pushDataAt_eq h.valid hnil hfit] at hs
  obtain ⟨b₁, hassure, hs⟩ := bind_eq_ok.mp hs
  cases hs
  obtain ⟨hvalid, hcontents, hroom⟩ := (assureSpace_sat h.valid hfit).of_ok hassure
  obtain ⟨hvalid', hcontents'⟩ :=
    hvalid.writeAhead (show w.offset + w.bytes.length ≤ b₁.writableSize by omega)
  have hspace := hroom
  rw [hvalid.writableSize_eq] at hspace
  have hwle := hvalid.write_le
  have hlen := hvalid.capacity_eq
  have hfits : b₁.writePos + w.offset + w.bytes.length ≤ b₁.buffer.length := by omega
  -- no byte is staged yet, or the array stays where it is
  have hold : ∀ w' ∈ ws, w'.bytes ≠ [] → b₁ = t := by
    intro w' hw' hne'
    have hstay := hput ⟨w', hw', hne'⟩ hnil
    rcases (Twin.refl (m := 0) h.valid).assureSpace hfit hassure with ⟨-, heq, -⟩ | ⟨hmove, -⟩
    · exact heq
    · omega
  refine ⟨hvalid', hcontents'.trans (hcontents.trans h.contents), fun w' hw' hne' => ?_,
    fun w' hw' hne' => ?_⟩ <;> rcases List.mem_append.mp hw' with hw' | hw'
  · have hroom' := h.room w' hw' hne'
    rwa [← hold w' hw' hne'] at hroom'
  · rwa [List.mem_singleton.mp hw']
  · have hbytes := h.bytes w' hw' hne'
    rw [← hold w' hw' hne'] at hbytes
    have hpos := List.length_pos_iff.mpr hne'
    have hpos' := List.length_pos_iff.mpr hnil
    have hout := hdisjoint w' hw' (max w'.offset w.offset)
    simp only [StagedWrite.Covers] at hout
    refine Eq.trans (Cells.slice_splice_disjoint hfits ?_) hbytes
    show b₁.writePos + w'.offset + w'.bytes.length ≤ _ ∨ _ ≤ b₁.writePos + w'.offset
    omega
  · rw [List.mem_singleton.mp hw']
    exact Cells.slice_splice_self hfits

theorem Held.run (h : b.Valid) (hrun : Lts.Run Staged b ws t)
    (hsmall : ∀ w ∈ ws, w.bytes ≠ [] → w.offset + w.bytes.length < 2 ^ 63)
    (hdisjoint : ws.Pairwise fun w w' => ∀ i, ¬ (w.Covers i ∧ w'.Covers i))
    (hput : StaysPut b ws) : Held b ws t := by
  induction ws using List.reverseRecOn generalizing t with
  | nil =>
    cases hrun
    exact ⟨h, rfl, by simp, by simp⟩
  | append_singleton ws w ih =>
    obtain ⟨s, hbefore, hlast⟩ := Lts.run_append.mp hrun
    obtain ⟨t', hstep, hnil⟩ := Lts.run_cons.mp hlast
    cases hnil
    rw [List.pairwise_append] at hdisjoint
    have hput' : StaysPut b ws := fun before w' after u heq hu hex hne =>
      hput before w' (after ++ [w]) u (by simp [heq]) hu hex hne
    refine (ih hbefore (fun w' hw' => hsmall w' (by simp [hw'])) hdisjoint.1 hput').step hstep
      (hsmall w (by simp)) (hput ws w [] s rfl hbefore) fun w₀ hw₀ => ?_
    exact hdisjoint.2.2 w₀ hw₀ w (by simp)

/-- What is held is what `Produce` appends. -/
theorem Held.survives (h : Held b ws t) (htiles : Tiles ws n) : Survives b ws t n := by
  have hroom : n ≤ t.writableSize := by
    by_contra hmore
    obtain ⟨w, hw, hcovers⟩ := (htiles.covered (n - 1)).mpr (by omega)
    have hroom := h.room w hw hcovers.ne_nil
    have hlast := hcovers.2
    omega
  obtain ⟨-, hcontents⟩ := h.valid.produce hroom
  have hspace := hroom
  rw [h.valid.writableSize_eq] at hspace
  have hwle := h.valid.write_le
  have hlen := h.valid.capacity_eq
  refine ⟨Cells.slice t.buffer t.writePos n, Cells.length_slice (by omega),
    hcontents.trans (by rw [h.contents]), ?_⟩
  intro w hw
  by_cases hnil : w.bytes = []
  · simp [hnil]
  · rw [Cells.slice_slice (htiles.inside hw hnil)]
    exact h.bytes w hw hnil

theorem covers_of_sameRequest (hw : w.SameRequest w') {i : Nat} : w'.Covers i ↔ w.Covers i := by
  rw [StagedWrite.Covers, StagedWrite.Covers, ← hw.1, ← hw.2]

theorem exists_covers_of_sameRequest (hws : List.Forall₂ StagedWrite.SameRequest ws ws')
    (i : Nat) : (∃ w' ∈ ws', w'.Covers i) ↔ ∃ w ∈ ws, w.Covers i := by
  induction hws with
  | nil => simp
  | cons hw _ ih => simp only [List.exists_mem_cons_iff, ih, covers_of_sameRequest hw]

theorem tiles_of_sameRequest (hws : List.Forall₂ StagedWrite.SameRequest ws ws')
    (htiles : Tiles ws n) : Tiles ws' n := by
  obtain ⟨hcovered, hdisjoint⟩ := htiles
  refine ⟨fun i => (exists_covers_of_sameRequest hws i).trans (hcovered i), ?_⟩
  clear hcovered
  induction hws with
  | nil => exact List.Pairwise.nil
  | @cons w w' ws ws' hw hws ih =>
    obtain ⟨hfirst, hrest⟩ := List.pairwise_cons.mp hdisjoint
    refine List.pairwise_cons.mpr ⟨?_, ih hrest⟩
    clear ih hdisjoint hrest
    induction hws with
    | nil => simp
    | cons hv _ ih =>
      intro v hmem i hi
      rcases List.mem_cons.mp hmem with rfl | hmem
      · rw [covers_of_sameRequest hw, covers_of_sameRequest hv] at hi
        exact hfirst _ List.mem_cons_self i hi
      · exact ih (fun u hu => hfirst u (List.mem_cons_of_mem _ hu)) v hmem i hi

/-- The room that the calls find does not depend on the data. -/
theorem staysPut_of_sameRequest (h : b.Valid)
    (hsmall : ∀ w ∈ ws', w.bytes ≠ [] → w.offset + w.bytes.length < 2 ^ 63)
    (hws : List.Forall₂ StagedWrite.SameRequest ws ws') (hput : StaysPut b ws) :
    StaysPut b ws' := by
  rintro before' w' after' t' rfl hbefore' ⟨w₀', hmem', hne₀'⟩ hne'
  have hsplit := List.take_append_drop before'.length ws
  have hbefore := List.forall₂_take_append _ _ _ hws
  have hrest := List.forall₂_drop_append _ _ _ hws
  revert hsplit hbefore hrest
  generalize ws.take before'.length = before
  generalize ws.drop before'.length = rest
  intro hsplit hbefore hrest
  cases hrest with
  | @cons w _ after _ hw hafter =>
    obtain ⟨t, hrun, htwin, -⟩ := (Twin.refl (m := 0) h).run hbefore'
      (hbefore.flip.imp fun w w' hw => ⟨hw.1.symm, hw.2.symm⟩)
      (fun w hw => hsmall w (by simp [hw])) (Or.inr rfl)
    have hne := ((covers_of_sameRequest hw).mp (StagedWrite.covers_offset hne')).ne_nil
    have hstaged : ∃ w₀ ∈ before, w₀.bytes ≠ [] := by
      obtain ⟨w₀, hmem, hcovers⟩ := (exists_covers_of_sameRequest hbefore w₀'.offset).mp
        ⟨w₀', hmem', StagedWrite.covers_offset hne₀'⟩
      exact ⟨w₀, hmem, hcovers.ne_nil⟩
    have := hput before w after t hsplit.symm hrun hstaged hne
    rw [← htwin.writableSize, ← hw.1, ← hw.2]
    exact this

/-- Whatever the data, the staged bytes survive exactly when no call relocates the array
once bytes are staged. -/
theorem staged_survive_iff (h : b.Valid) (htiles : Tiles ws n) (hrun : Lts.Run Staged b ws b') :
    (∀ ws' f, List.Forall₂ StagedWrite.SameRequest ws ws' → Lts.Run Staged b ws' f →
      Survives b ws' f n) ↔ StaysPut b ws := by
  constructor
  · intro hsurv before w after t heq hbefore hstaged hne
    obtain ⟨w₀, hmem, hne₀⟩ := hstaged
    by_contra hmove
    obtain ⟨ws', f, hsame, hrun', hlost⟩ :=
      lost_of_moved h htiles heq hrun hbefore hmem hne₀ hne (by omega)
    exact hlost ⟨hsurv ws b' (List.forall₂_same.mpr fun _ _ => ⟨rfl, rfl⟩) hrun,
      hsurv ws' f hsame hrun'⟩
  · intro hput ws' f hsame hrun'
    have htiles' := tiles_of_sameRequest hsame htiles
    have hsmall : ∀ w ∈ ws', w.bytes ≠ [] → w.offset + w.bytes.length < 2 ^ 63 :=
      fun w hw hne => (htiles'.inside hw hne).trans_lt (htiles'.small h hrun')
    exact (Held.run h hrun' hsmall htiles'.disjoint
      (staysPut_of_sameRequest h hsmall hsame hput)).survives htiles'

/-- One byte, and the block behind it. -/
theorem tiles_pair (h : bytes.length = 1) (h' : bytes'.length = n) :
    Tiles [⟨bytes, 0⟩, ⟨bytes', 1⟩] (n + 1) ∧ Tiles [⟨bytes', 1⟩, ⟨bytes, 0⟩] (n + 1) := by
  refine ⟨⟨fun i => ?_, ?_⟩, ⟨fun i => ?_, ?_⟩⟩ <;> simp [StagedWrite.Covers, h, h'] <;> omega

/-- A first byte takes an array of 256 bytes. The second write needs a longer array, to which
only readable bytes are copied: the byte is lost. -/
theorem staged_byte_lost : ∃ ws b', Tiles ws 257 ∧ Lts.Run Staged Buffer.new ws b' ∧
    ¬ Survives Buffer.new ws b' 257 := by
  refine ⟨[⟨[9], 0⟩, ⟨List.replicate 256 1, 1⟩],
    ⟨0, 0, 384, 0 :: List.replicate 256 1 ++ List.replicate 127 0⟩,
    (tiles_pair rfl List.length_replicate).1, ?_, ?_⟩
  · have hfirst : Staged Buffer.new ⟨[9], 0⟩ ⟨0, 0, 256, 9 :: List.replicate 255 0⟩ := by
      unfold Staged
      decide +kernel
    refine .cons hfirst (.cons ?_ (.refl _))
    unfold Staged
    decide +kernel
  · rintro ⟨staged, -, hcontents, hall⟩
    have hbyte := hall ⟨[9], 0⟩ List.mem_cons_self
    rw [contents_new, List.nil_append] at hcontents
    rw [← hcontents] at hbyte
    revert hbyte
    decide +kernel

/-- A byte ahead, and then the one in front of it, which finds room. -/
theorem staged_survive_iff_ahead : ∃ b',
    Lts.Run Staged ⟨0, 0, 2, [0, 0]⟩ [⟨[8], 1⟩, ⟨[7], 0⟩] b' ∧
      Survives ⟨0, 0, 2, [0, 0]⟩ [⟨[8], 1⟩, ⟨[7], 0⟩] b' 2 := by
  have hfirst : Staged ⟨0, 0, 2, [0, 0]⟩ ⟨[8], 1⟩ ⟨0, 0, 2, [0, 8]⟩ := by
    unfold Staged
    decide
  have hsecond : Staged ⟨0, 0, 2, [0, 8]⟩ ⟨[7], 0⟩ ⟨0, 0, 2, [7, 8]⟩ := by
    unfold Staged
    decide
  have hrun := Lts.Run.cons hfirst (.cons hsecond (.refl _))
  refine ⟨_, hrun, (staged_survive_iff (by decide) (tiles_pair rfl rfl).2 hrun).mpr ?_ _ _
    (List.forall₂_same.mpr fun _ _ => ⟨rfl, rfl⟩) hrun⟩
  intro before w after t heq hbefore hstaged _
  match before, heq with
  | [], _ => simp at hstaged
  | [_], rfl =>
    obtain rfl := hbefore.unique staged_unique (.cons hfirst (.refl _))
    decide
  | _ :: _ :: before, heq => simp at heq

end Hplsp.Buffer
