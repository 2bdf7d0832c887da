import Hplsp.MmapTrace

/-! The mappings that an `OMmapFile` has: exactly when each `mmap` is paired with a `munmap`. -/

namespace Hplsp.TracedFile

open Outcome

variable {t t' : TracedFile} {call : MmapCall} {calls : List MmapCall}

/-- An open file has one mapping, of `size_` bytes at `memory_`, and a closed one has none. -/
def Balanced (t : TracedFile) : Prop :=
  if t.file.file = none then t.live = []
  else ∃ base, t.file.memory = some ⟨base, t.file.size⟩ ∧ t.live = [⟨base, t.file.size⟩]

/-- The call leaves `size_` as it is: every block fits in, and every `Truncate` asks for it. -/
def KeepsSize (t : TracedFile) (call : MmapCall) : Prop :=
  match call.op with
  | .write data => t.file.offset + data.length ≤ t.file.size
  | .truncate size => size = t.file.size
  | _ => True

instance (t : TracedFile) : (call : MmapCall) → Decidable (t.KeepsSize call)
  | ⟨_, .write _⟩ => inferInstanceAs (Decidable (_ ≤ _))
  | ⟨_, .truncate _⟩ => inferInstanceAs (Decidable (_ = _))
  | ⟨_, .openFile _ _⟩ | ⟨_, .sync⟩ | ⟨_, .close⟩ => isTrue trivial

theorem Balanced.close (h : t.Balanced) : t.close.live = [] := by
  rw [TracedFile.close]
  by_cases hfile : t.file.file = none
  · rw [Balanced, if_pos hfile] at h
    rw [if_pos hfile, h]
  · rw [Balanced, if_neg hfile] at h
    obtain ⟨base, hmemory, hlive⟩ := h
    rw [if_neg hfile]
    simp [hmemory, hlive]

/-- A second mapping unbalances an open file. -/
theorem not_balanced_append {m m' : Mapping} (hlive : t.live = [m, m']) : ¬ t.Balanced := by
  rw [Balanced, hlive]
  split
  · simp
  · rintro ⟨base, -, hlive⟩
    simp at hlive

theorem balanced_exec (hsound : t.file.Sound) (h : t.Balanced) (hans : call.ans.Succeed)
    (hok : t.exec call = .ok t') : t'.Balanced ↔ t.KeepsSize call := by
  obtain ⟨ans, op⟩ := call
  obtain ⟨base, hbase⟩ := Option.isSome_iff_exists.mp hans.2.2
  have hcases := exec_cases hok
  cases op with
  | openFile name bAppend =>
    obtain ⟨opened, hopen, hlive, -⟩ := hcases
    obtain ⟨hfile, hmemory, -⟩ := OMmapFile.openFile_ok hopen
    refine iff_of_true ?_ trivial
    rw [hbase] at hmemory
    rw [Balanced, if_neg (by simp [hfile])]
    exact ⟨base, hmemory, by rw [hlive, h.close, hmemory]; rfl⟩
  | write data =>
    obtain ⟨newSize, hgrow, hwrite, hlive, -⟩ := hcases
    obtain ⟨hsound', hfile, -, hmapped, -, newSize', hgrow', hfit⟩ := hsound.write hwrite
    obtain rfl := ok_unique hgrow hgrow'
    have hopen : t.file.file ≠ none :=
      fun hclosed => hmapped (hsound'.closed (hfile.trans hclosed)).1
    rw [Balanced, if_neg hopen] at h
    obtain ⟨base', hmemory', hlive'⟩ := h
    rcases hfit with ⟨hfit, rfl, hmemory, hsize⟩ | ⟨hmore, hgrown, hmemory⟩
    · refine iff_of_true ?_ hfit
      rw [Balanced, if_neg (by rwa [hfile])]
      refine ⟨base', by rw [hmemory, hsize, hmemory'], ?_⟩
      rw [hlive, if_neg (Nat.lt_irrefl _), hlive', hsize]
    · refine iff_of_false ?_ (by simpa only [KeepsSize] using by omega)
      rw [hbase] at hmemory
      exact not_balanced_append (by rw [hlive, if_pos hgrown, hlive', hmemory]; rfl)
  | sync =>
    obtain rfl := hcases
    obtain ⟨hfile, hmemory, hsize, -⟩ := t.file.sync_keeps
    refine iff_of_true ?_ trivial
    show if t.file.sync.1.file = none then t.live = []
      else ∃ base, t.file.sync.1.memory = some ⟨base, t.file.sync.1.size⟩ ∧
        t.live = [⟨base, t.file.sync.1.size⟩]
    rw [hfile, hmemory, hsize]
    exact h
  | truncate size =>
    obtain ⟨htrunc, hlive, -⟩ := hcases
    rcases OMmapFile.truncate_ok htrunc with ⟨heq, hsame⟩ | ⟨hne, name, hfile, hfile'⟩
    · refine iff_of_true ?_ heq
      rw [if_pos heq] at hlive
      rwa [Balanced, hsame, hlive]
    · refine iff_of_false ?_ hne
      rw [Balanced, if_neg (by simp [hfile])] at h
      obtain ⟨base', -, hlive'⟩ := h
      exact not_balanced_append (by rw [hlive, if_neg hne, hlive', hfile', hbase]; rfl)
  | close =>
    obtain rfl := hcases
    refine iff_of_true ?_ trivial
    rw [Balanced, close_file, if_pos hsound.close.2, h.close]

/-- Over runs: the mappings are balanced in every state exactly when no call that returns
changes the size of the open file. -/
theorem mappings_balanced_iff {disk : FileName → Option SparseFile}
    (hdisk : ∀ name f, disk name = some f → f.len < 2 ^ 64)
    (hans : ∀ call ∈ calls, call.ans.Succeed) (hsizes : ∀ call ∈ calls, SizesFit call) :
    Lts.StatesMeet exec Balanced (new disk) calls ↔
      Lts.StepsMeet exec (Lts.OnReturn exec KeepsSize) (new disk) calls := by
  refine Lts.statesMeet_iff_stepsMeet (I := fun t => t.file.Sound ∧ t.Balanced)
    (fun t h => h.2) ?_ ?_ ⟨OMmapFile.sound_new hdisk, rfl⟩
  · intro t t' call hcall ⟨hsound, hbalanced⟩ hok hkeeps
    exact ⟨sound_exec hsound (hsizes call hcall) hok,
      (balanced_exec hsound hbalanced (hans call hcall) hok).mpr hkeeps⟩
  · intro t t' call hcall ⟨hsound, hbalanced⟩ hok hbalanced'
    exact (balanced_exec hsound hbalanced (hans call hcall) hok).mp hbalanced'

/-- `Truncate` maps the file again and leaves the first mapping for good: `Close` unmaps one. -/
theorem truncate_leaks : ∃ t t',
    Lts.execute exec (new fun _ => none) [⟨⟨true, true, some 4096⟩, .openFile "a.log" false⟩,
      ⟨⟨true, true, some 8192⟩, .truncate 1⟩] = .ok t ∧ ¬ t.Balanced ∧
      t.live = [⟨4096, 1048576⟩, ⟨8192, 1⟩] ∧ t.exec ⟨⟨true, true, none⟩, .close⟩ = .ok t' ∧
      t'.file.isOpen = false ∧ t'.live = [⟨4096, 1048576⟩] := by
  obtain ⟨t, hrun, hlive, t', hclose⟩ : ∃ t,
      Lts.execute exec (new fun _ => none) [⟨⟨true, true, some 4096⟩, .openFile "a.log" false⟩,
        ⟨⟨true, true, some 8192⟩, .truncate 1⟩] = .ok t ∧
      t.live = [⟨4096, 1048576⟩, ⟨8192, 1⟩] ∧ ∃ t',
        t.exec ⟨⟨true, true, none⟩, .close⟩ = .ok t' ∧ t'.file.isOpen = false ∧
          t'.live = [⟨4096, 1048576⟩] := ⟨_, rfl, rfl, _, rfl, rfl, rfl⟩
  exact ⟨t, t', hrun, not_balanced_append hlive, hlive, hclose⟩

/-- A file that is opened, written within its first size and closed. -/
theorem mappings_balanced_iff_once : Lts.StatesMeet exec Balanced (new fun _ => none)
    [⟨⟨true, true, some 4096⟩, .openFile "a.log" true⟩, ⟨⟨true, true, some 8192⟩, .write [1]⟩,
      ⟨⟨true, true, some 8192⟩, .close⟩] :=
  (mappings_balanced_iff (by simp) (by decide) (by simp [SizesFit])).mpr (by decide +kernel)

end Hplsp.TracedFile
