import Hplsp.MmapTrace

/-! The three cursors of an `OMmapFile`: exactly when `syncPos_` stays behind `offset_`. -/

namespace Hplsp.TracedFile

open Outcome

variable {t t' : TracedFile} {call : MmapCall} {calls : List MmapCall}

/-- The cursors are in order, and a `Sync` that calls no `msync` leaves nothing uncovered. -/
def SyncsAll (t : TracedFile) : Prop :=
  t.file.syncPos ≤ t.file.offset ∧ t.file.offset ≤ t.file.size ∧
    (t.sync.2 = false → ∀ i, i < t.file.offset → t.dirty i = false)

/-- A `Truncate` cuts nothing that was synced. -/
def CutsUnsynced (t : TracedFile) (call : MmapCall) : Prop :=
  ∀ size, call.op = .truncate size → t.file.syncPos ≤ size

instance (t : TracedFile) : (call : MmapCall) → Decidable (t.CutsUnsynced call)
  | ⟨_, .truncate size⟩ => decidable_of_iff (t.file.syncPos ≤ size) (by simp [CutsUnsynced])
  | ⟨_, .openFile _ _⟩ | ⟨_, .write _⟩ | ⟨_, .sync⟩ | ⟨_, .close⟩ =>
    isTrue fun _ h => by cases h

/-- What was written since the last `msync` lies behind `syncPos_`. -/
structure Cursors (t : TracedFile) : Prop where
  sound : t.file.Sound
  sync_le : t.file.syncPos ≤ t.file.offset
  dirty : ∀ i, i < t.file.offset → t.dirty i = true → t.file.syncPos ≤ i

theorem sync_false (hsync : t.sync.2 = false) :
    t.file.file = none ∨ t.file.offset ≤ t.file.syncPos := by
  change t.file.sync.2 = false at hsync
  rw [OMmapFile.sync] at hsync
  split at hsync
  next hfile => exact .inl hfile
  next =>
    split at hsync
    next hle => exact .inr hle
    next => cases hsync

theorem Cursors.syncsAll (h : t.Cursors) : t.SyncsAll := by
  refine ⟨h.sync_le, h.sound.offset_le, fun hsync i hi => ?_⟩
  rcases sync_false hsync with hclosed | hle
  · have hzero := (h.sound.closed hclosed).2.1
    omega
  · by_contra hdirty
    have := h.dirty i hi (by simpa using hdirty)
    omega

theorem Cursors.sync (h : t.Cursors) : t.sync.1.Cursors := by
  by_cases hidle : t.file.file = none ∨ t.file.offset ≤ t.file.syncPos
  · have hsync : t.file.sync = (t.file, false) := by
      rw [OMmapFile.sync]
      split
      · rfl
      · rw [if_pos (by tauto)]
    have hsame : t.sync.1 = t := by simp [TracedFile.sync, hsync]
    rwa [hsame]
  · obtain ⟨hfile, hlt⟩ := not_or.mp hidle
    have hsync := OMmapFile.sync_eq hfile (Nat.lt_of_not_le hlt)
    refine ⟨h.sound.sync, ?_, fun i hi hdirty => ?_⟩
    · have hcursors : t.file.sync.1.syncPos = t.file.sync.1.offset := by rw [hsync]
      exact Nat.le_of_eq hcursors
    · -- the `msync` covers all that lay behind `syncPos_`
      simp only [TracedFile.sync, hsync, Bool.true_and, Bool.and_eq_true, Bool.not_eq_true',
        Bool.and_eq_false_iff, decide_eq_false_iff_not] at hi hdirty
      have := h.dirty i hi hdirty.1
      omega

theorem Cursors.close (h : t.Cursors) : t.close.Cursors := by
  obtain ⟨hsound, hclosed⟩ := h.sound.close
  obtain ⟨-, hoffset, -, hsync⟩ := hsound.closed hclosed
  refine ⟨?_, ?_, ?_⟩ <;> rw [close_file]
  · exact hsound
  · omega
  · omega

/-- Every operation that cuts nothing synced keeps the cursors in order. -/
theorem Cursors.exec (h : t.Cursors) (hsize : SizesFit call) (hok : t.exec call = .ok t')
    (hcuts : t.CutsUnsynced call) : t'.Cursors := by
  have hsound := sound_exec h.sound hsize hok
  have hle := h.sync_le
  obtain ⟨ans, op⟩ := call
  have hcases := exec_cases hok
  cases op with
  | openFile name bAppend =>
    obtain ⟨opened, hopen, -, hdirty⟩ := hcases
    obtain ⟨-, hsync⟩ := h.sound.openFile hopen
    refine ⟨hsound, by omega, fun i _ hi => ?_⟩
    rw [hdirty] at hi
    cases hi
  | write data =>
    obtain ⟨-, -, hwrite, -, hdirty⟩ := hcases
    obtain ⟨-, -, hsync, -, hoffset, -⟩ := h.sound.write hwrite
    refine ⟨hsound, by omega, fun i hi hwritten => ?_⟩
    rw [hdirty] at hwritten
    simp only [Bool.or_eq_true, Bool.and_eq_true, decide_eq_true_eq] at hwritten
    rw [hsync]
    rcases hwritten with hold | hnew
    · rcases Nat.lt_or_ge i t.file.offset with hlt | hge
      · exact h.dirty i hlt hold
      · omega
    · omega
  | sync =>
    obtain rfl := hcases
    exact h.sync
  | truncate size =>
    obtain ⟨htrunc, -, hdirty⟩ := hcases
    have hcut := hcuts size rfl
    rcases OMmapFile.truncate_ok htrunc with ⟨-, hsame⟩ | ⟨-, name, -, hfile⟩
    · refine ⟨hsound, by rwa [hsame], ?_⟩
      rw [hsame, hdirty]
      exact h.dirty
    · have hoffset : t'.file.offset = min size t.file.offset := by rw [hfile]
      have hsync : t'.file.syncPos = t.file.syncPos := by rw [hfile]
      refine ⟨hsound, by omega, fun i hi hwritten => ?_⟩
      rw [hdirty] at hwritten
      rw [hsync]
      exact h.dirty i (by omega) hwritten
  | close =>
    obtain rfl := hcases
    exact h.close

/-- A `Truncate` below `syncPos_` leaves `offset_` below it. -/
theorem Cursors.cutsUnsynced (h : t.Cursors) (hok : t.exec call = .ok t') (h' : t'.SyncsAll) :
    t.CutsUnsynced call := by
  obtain ⟨ans, op⟩ := call
  rintro size rfl
  obtain ⟨htrunc, -, -⟩ := exec_cases hok
  have hle := h.sync_le
  have hsize := h.sound.offset_le
  have hle' := h'.1
  rcases OMmapFile.truncate_ok htrunc with ⟨heq, -⟩ | ⟨-, name, -, hfile⟩
  · omega
  · rw [hfile] at hle'
    simp only at hle'
    omega

/-- Over runs: the cursors are in order in every state exactly when no `Truncate` that returns
cuts below `syncPos_`. -/
theorem cursors_ordered_iff {disk : FileName → Option SparseFile}
    (hdisk : ∀ name f, disk name = some f → f.len < 2 ^ 64)
    (hsizes : ∀ call ∈ calls, SizesFit call) :
    Lts.StatesMeet exec SyncsAll (new disk) calls ↔
      Lts.StepsMeet exec (Lts.OnReturn exec CutsUnsynced) (new disk) calls := by
  refine Lts.statesMeet_iff_stepsMeet (fun t (h : t.Cursors) => h.syncsAll) ?_ ?_ ?_
  · intro t t' call hcall h hok hcuts
    exact h.exec (hsizes call hcall) hok hcuts
  · intro t t' call hcall h hok h'
    exact h.cutsUnsynced hok h'
  · exact ⟨OMmapFile.sound_new hdisk, Nat.le_refl 0, fun i hi => absurd hi (Nat.not_lt_zero i)⟩

/-- Two bytes are synced, the file is cut to one and another is written: `Sync` skips it. -/
theorem truncate_hides_write : ∃ t,
    Lts.execute exec (new fun _ => none) [⟨⟨true, true, some 4096⟩, .openFile "a.log" false⟩,
      ⟨⟨true, true, some 8192⟩, .write [1, 2]⟩, ⟨⟨true, true, some 8192⟩, .sync⟩,
      ⟨⟨true, true, some 8192⟩, .truncate 1⟩, ⟨⟨true, true, some 12288⟩, .write [3]⟩] = .ok t ∧
      ¬ t.SyncsAll ∧ t.sync.2 = false ∧ 1 < t.file.offset ∧ t.dirty 1 = true := by
  obtain ⟨t, hrun, hsync, hoffset, hdirty⟩ : ∃ t,
      Lts.execute exec (new fun _ => none) [⟨⟨true, true, some 4096⟩, .openFile "a.log" false⟩,
        ⟨⟨true, true, some 8192⟩, .write [1, 2]⟩, ⟨⟨true, true, some 8192⟩, .sync⟩,
        ⟨⟨true, true, some 8192⟩, .truncate 1⟩, ⟨⟨true, true, some 12288⟩, .write [3]⟩] = .ok t ∧
        t.sync.2 = false ∧ 1 < t.file.offset ∧ t.dirty 1 = true := ⟨_, rfl, rfl, by decide, rfl⟩
  refine ⟨t, hrun, fun h => ?_, hsync, hoffset, hdirty⟩
  rw [h.2.2 hsync 1 hoffset] at hdirty
  cases hdirty

/-- Cut to what was synced, the file goes on as it should. -/
theorem cursors_ordered_iff_synced : Lts.StatesMeet exec SyncsAll (new fun _ => none)
    [⟨⟨true, true, some 4096⟩, .openFile "a.log" true⟩, ⟨⟨true, true, some 8192⟩, .write [1]⟩,
      ⟨⟨true, true, some 8192⟩, .sync⟩, ⟨⟨true, true, some 8192⟩, .truncate 1⟩] :=
  (cursors_ordered_iff (by simp) (by simp [SizesFit])).mpr (by decide +kernel)

end Hplsp.TracedFile
