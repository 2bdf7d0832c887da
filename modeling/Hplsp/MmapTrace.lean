import Hplsp.MmapSync

/-! An `OMmapFile` together with its live mappings and the bytes that no `msync` has covered yet. -/

namespace Hplsp

open Outcome

inductive MmapOp where
  | openFile (name : FileName) (bAppend : Bool)
  | write (data : List UInt8)
  | sync
  | truncate (size : Nat)
  | close
  deriving DecidableEq, Repr

/-- An operation with the system's answers to it. -/
structure MmapCall where
  ans : Answers
  op : MmapOp
  deriving DecidableEq, Repr

/-- `live` are the regions that `mmap` returned and `munmap` has not taken back; `dirty` are the
positions of the file written since an `msync` covered them. -/
structure TracedFile where
  file : OMmapFile
  live : List Mapping
  dirty : Nat → Bool

namespace OMmapFile

variable {s s' : OMmapFile} {ans : Answers} {name : FileName} {data : List UInt8} {size : Nat}

theorem openFile_ok {bAppend opened : Bool} (hok : s.openFile ans name bAppend = .ok (s', opened)) :
    s'.file = some name ∧ s'.memory = ans.mapped.map (⟨·, s'.size⟩) ∧ opened = ans.mapped.isSome ∧
      s'.size = (if bAppend then max kDefaultSize (s.initial name).len else kDefaultSize) ∧
      s'.offset = (if bAppend then (s.initial name).len else 0) ∧ s'.syncPos = s.close.syncPos ∧
      s'.disk = Function.update s.close.disk name (some ((s.initial name).truncate s'.size)) := by
  rw [openFile] at hok
  split at hok
  · cases hok
  · dsimp only at hok
    split at hok
    · cases hok
    · obtain ⟨rfl, rfl⟩ := mapWriteOnly_ok hok
      refine ⟨rfl, rfl, rfl, rfl, rfl, rfl, ?_⟩
      simp [ftruncate, initial]

/-- What every operation keeps, whatever the system answers. -/
structure Sound (s : OMmapFile) : Prop where
  size_lt : s.size < 2 ^ 64
  disk_lt : ∀ name f, s.disk name = some f → f.len < 2 ^ 64
  closed : s.file = none → s.memory = none ∧ s.offset = 0 ∧ s.size = 0 ∧ s.syncPos = 0
  offset_le : s.offset ≤ s.size
  mapped : ∀ m, s.memory = some m → m.length = s.size

theorem sound_new {disk : FileName → Option SparseFile}
    (hdisk : ∀ name f, disk name = some f → f.len < 2 ^ 64) : (new disk).Sound :=
  ⟨Nat.two_pow_pos 64, hdisk, fun _ => ⟨rfl, rfl, rfl, rfl⟩, Nat.le_refl _, fun _ hm => by cases hm⟩

/-- Files that were short enough, with one of them replaced by a short one. -/
theorem update_lt {disk : FileName → Option SparseFile} {f : Option SparseFile}
    (hdisk : ∀ name f, disk name = some f → f.len < 2 ^ 64) (hf : ∀ g, f = some g → g.len < 2 ^ 64)
    (name' : FileName) (g : SparseFile) (hg : Function.update disk name f name' = some g) :
    g.len < 2 ^ 64 := by
  by_cases hname : name' = name
  · subst hname
    rw [Function.update_self] at hg
    exact hf g hg
  · rw [Function.update_of_ne hname] at hg
    exact hdisk name' g hg

theorem ftruncate_lt (h : s.Sound) (hlt : size < 2 ^ 64) (name name' : FileName) (g : SparseFile)
    (hg : s.ftruncate name size name' = some g) : g.len < 2 ^ 64 := by
  refine update_lt h.disk_lt ?_ name' g hg
  rintro g hg
  obtain ⟨f, -, rfl⟩ := Option.map_eq_some_iff.mp hg
  exact hlt

theorem Sound.close (h : s.Sound) : s.close.Sound ∧ s.close.file = none := by
  rw [OMmapFile.close]
  split
  next hfile => exact ⟨h, hfile⟩
  next name hfile =>
    have hlt : s.offset < 2 ^ 64 := Nat.lt_of_le_of_lt h.offset_le h.size_lt
    exact ⟨⟨Nat.two_pow_pos 64, ftruncate_lt h hlt name, fun _ => ⟨rfl, rfl, rfl, rfl⟩,
      Nat.le_refl _, fun _ hm => by cases hm⟩, rfl⟩

theorem Sound.initial_lt (h : s.Sound) (name : FileName) : (s.initial name).len < 2 ^ 64 := by
  rw [initial]
  cases hdisk : s.close.disk name with
  | none => decide
  | some f => exact h.close.1.disk_lt name f hdisk

theorem Sound.openFile (h : s.Sound) {bAppend opened : Bool}
    (hok : s.openFile ans name bAppend = .ok (s', opened)) : s'.Sound ∧ s'.syncPos = 0 := by
  obtain ⟨hfile, hmemory, -, hsize, hoffset, hsync, hdisk⟩ := openFile_ok hok
  have hlen := h.initial_lt name
  have hdefault : kDefaultSize = 1048576 := rfl
  have hlt : s'.size < 2 ^ 64 := by
    rw [hsize]
    split <;> omega
  obtain ⟨-, -, -, hzero⟩ := h.close.1.closed h.close.2
  refine ⟨⟨hlt, ?_, ?_, ?_, ?_⟩, hsync.trans hzero⟩
  · rw [hdisk]
    refine update_lt h.close.1.disk_lt ?_
    rintro g hg
    cases hg
    exact hlt
  · intro hclosed
    rw [hfile] at hclosed
    cases hclosed
  · rw [hsize, hoffset]
    split <;> omega
  · rw [hmemory]
    rintro m hm
    obtain ⟨base, -, rfl⟩ := Option.map_eq_some_iff.mp hm
    rfl

theorem Sound.truncate (h : s.Sound) (hlt : size < 2 ^ 64)
    (hok : s.truncate ans size = .ok s') : s'.Sound := by
  rcases truncate_ok hok with ⟨-, rfl⟩ | ⟨-, name, hfile, rfl⟩
  · exact h
  · refine ⟨hlt, ftruncate_lt h hlt name, ?_, Nat.min_le_left _ _, ?_⟩
    · intro hclosed
      rw [hfile] at hclosed
      cases hclosed
    · rintro m hm
      obtain ⟨base, -, rfl⟩ := Option.map_eq_some_iff.mp hm
      rfl

theorem doubleSize_cases {needed newSize fuel result : Nat}
    (hok : doubleSize needed (fuel + 1) newSize = .ok result) :
    (needed ≤ newSize ∧ result = newSize) ∨ newSize < needed := by
  rw [doubleSize] at hok
  split at hok
  · exact .inr (by assumption)
  · cases hok
    exact .inl ⟨by omega, rfl⟩

/-- A write that returns: its block fitted in, or the file was mapped anew with room for it. -/
theorem Sound.write (h : s.Sound) (hok : s.write ans data = .ok s') :
    s'.Sound ∧ s'.file = s.file ∧ s'.syncPos = s.syncPos ∧ s'.memory ≠ none ∧
      s'.offset = s.offset + data.length ∧
      ∃ newSize, doubleSize (Word64.add s.offset data.length) 128 s.size = .ok newSize ∧
        ((s.offset + data.length ≤ s.size ∧ newSize = s.size ∧ s'.memory = s.memory ∧
            s'.size = s.size) ∨
          (s.size < s.offset + data.length ∧ s.size < newSize ∧
            s'.memory = ans.mapped.map (⟨·, s'.size⟩))) := by
  obtain ⟨newSize, s₁, disk, hgrow, hextend, hcopy, hspace, rfl⟩ := write_ok hok
  obtain ⟨hneeded, hresult⟩ : Word64.add s.offset data.length ≤ newSize ∧
      newSize < 2 ^ 64 := by
    rcases doubleSize_cases hgrow with ⟨hle, rfl⟩ | hmore
    · exact ⟨hle, h.size_lt⟩
    · obtain ⟨hle, -, hlt⟩ := doubleSize_ok _ _ _ hgrow h.size_lt (.inr (by omega))
      exact ⟨hle, hlt⟩
  have hsound : s₁.Sound ∧ s₁.file = s.file ∧ s₁.syncPos = s.syncPos ∧ s₁.offset = s.offset ∧
      ((newSize ≤ s.size ∧ s₁ = s) ∨ (s.size < newSize ∧ s₁.size = newSize ∧
        s₁.memory = ans.mapped.map (⟨·, newSize⟩))) := by
    rcases (extendFileSize_ok hextend).2 with ⟨hmore, htrunc⟩ | ⟨hle, rfl⟩
    · have hsound := h.truncate hresult htrunc
      have hle := h.offset_le
      rcases truncate_ok htrunc with ⟨heq, -⟩ | ⟨-, name, hfile, rfl⟩
      · omega
      · exact ⟨hsound, rfl, rfl, by simp only; omega, .inr ⟨hmore, rfl, rfl⟩⟩
    · exact ⟨h, rfl, rfl, rfl, .inl ⟨hle, rfl⟩⟩
  obtain ⟨hsound, hfile, hsync, hoffset, hcases⟩ := hsound
  obtain ⟨name, m, f, hname, hmemory, hdisk, hm, -, rfl⟩ := copy_ok hcopy
  have hlength := hsound.mapped m hmemory
  have hsize := hsound.size_lt
  have hadd : Word64.add s₁.offset data.length = s₁.offset + data.length :=
    Word64.add_of_lt (by omega)
  rw [hadd] at hspace ⊢
  refine ⟨⟨hsize, ?_, ?_, hspace, hsound.mapped⟩, hfile, hsync, ?_, by simp only [hoffset],
    newSize, hgrow, ?_⟩
  · refine update_lt hsound.disk_lt ?_
    rintro g hg
    cases hg
    exact hsound.disk_lt name f hdisk
  · intro hclosed
    simp only [hname, reduceCtorEq] at hclosed
  · simp [hmemory]
  · rw [hoffset] at hadd
    rcases hcases with ⟨hle, rfl⟩ | ⟨hmore, hsize', hmap⟩
    · rcases doubleSize_cases hgrow with ⟨-, rfl⟩ | hshort
      · exact .inl ⟨hspace, rfl, rfl, rfl⟩
      · omega
    · refine .inr ⟨?_, hmore, by simp only [hmap, hsize']⟩
      rcases doubleSize_cases hgrow with ⟨-, rfl⟩ | hshort <;> omega

/-- `Sync` moves `syncPos_` and nothing else. -/
theorem sync_keeps (s : OMmapFile) : s.sync.1.file = s.file ∧ s.sync.1.memory = s.memory ∧
    s.sync.1.size = s.size ∧ s.sync.1.offset = s.offset := by
  rw [OMmapFile.sync]
  split
  · exact ⟨rfl, rfl, rfl, rfl⟩
  · split <;> exact ⟨rfl, rfl, rfl, rfl⟩

theorem Sound.sync (h : s.Sound) : s.sync.1.Sound := by
  rw [OMmapFile.sync]
  split
  · exact h
  next hfile =>
    split
    · exact h
    · exact ⟨h.size_lt, h.disk_lt, fun hclosed => (hfile hclosed).elim, h.offset_le, h.mapped⟩

end OMmapFile

namespace TracedFile

open OMmapFile (kDefaultSize doubleSize)

variable {t t' : TracedFile} {call : MmapCall} {calls : List MmapCall} {ans : Answers}
  {name : FileName} {data : List UInt8} {size : Nat}

def new (disk : FileName → Option SparseFile) : TracedFile := ⟨.new disk, [], fun _ => false⟩

/-- `munmap(memory_, size_)` of an open file. -/
def close (t : TracedFile) : TracedFile :=
  if t.file.file = none then t
  else
    { t with
      file := t.file.close
      live := match t.file.memory with
        | some m => t.live.erase ⟨m.base, t.file.size⟩
        | none => t.live }

/-- `Open` closes, and then calls `_MapWriteOnly` once. -/
def openFile (t : TracedFile) (ans : Answers) (name : FileName) (bAppend : Bool) :
    Except Fault (TracedFile × Bool) := do
  let (file, opened) ← t.file.openFile ans name bAppend
  .ok (⟨file, t.close.live ++ file.memory.toList, fun _ => false⟩, opened)

/-- `Truncate` calls `_MapWriteOnly` unless the size is what it was. -/
def truncate (t : TracedFile) (ans : Answers) (size : Nat) : Except Fault TracedFile := do
  let file ← t.file.truncate ans size
  .ok { t with
    file := file
    live := if size = t.file.size then t.live else t.live ++ file.memory.toList }

/-- `Write` calls `Truncate` when `_AssureSpace` has doubled the size. -/
def write (t : TracedFile) (ans : Answers) (data : List UInt8) : Except Fault TracedFile := do
  let newSize ← doubleSize (Word64.add t.file.offset data.length) 128 t.file.size
  let file ← t.file.write ans data
  .ok ⟨file, if t.file.size < newSize then t.live ++ file.memory.toList else t.live,
    fun i => t.dirty i || (t.file.offset ≤ i && i < t.file.offset + data.length)⟩

/-- The `msync` covers the positions from `syncPos_` to `offset_`. -/
def sync (t : TracedFile) : TracedFile × Bool :=
  let (file, synced) := t.file.sync
  ({ t with
    file := file
    dirty := fun i =>
      t.dirty i && !(synced && t.file.syncPos ≤ i && i < t.file.offset) }, synced)

def exec (t : TracedFile) (call : MmapCall) : Except Fault TracedFile :=
  match call.op with
  | .openFile name bAppend => do
    let (t, _) ← t.openFile call.ans name bAppend
    .ok t
  | .write data => t.write call.ans data
  | .sync => .ok t.sync.1
  | .truncate size => t.truncate call.ans size
  | .close => .ok t.close

/-- What a call that returns does to the file, the mappings and the written positions. -/
theorem exec_cases (hok : t.exec call = .ok t') :
    match call.op with
    | .openFile name bAppend =>
      ∃ opened, t.file.openFile call.ans name bAppend = .ok (t'.file, opened) ∧
        t'.live = t.close.live ++ t'.file.memory.toList ∧ t'.dirty = fun _ => false
    | .write data =>
      ∃ newSize, doubleSize (Word64.add t.file.offset data.length) 128 t.file.size = .ok newSize ∧
        t.file.write call.ans data = .ok t'.file ∧
        t'.live = (if t.file.size < newSize then t.live ++ t'.file.memory.toList else t.live) ∧
        t'.dirty = fun i =>
          t.dirty i || (t.file.offset ≤ i && i < t.file.offset + data.length)
    | .sync => t' = t.sync.1
    | .truncate size =>
      t.file.truncate call.ans size = .ok t'.file ∧
        t'.live = (if size = t.file.size then t.live else t.live ++ t'.file.memory.toList) ∧
        t'.dirty = t.dirty
    | .close => t' = t.close := by
  rw [exec] at hok
  split at hok
  · obtain ⟨⟨t₁, opened⟩, hopen, heq⟩ := bind_eq_ok.mp hok
    obtain ⟨⟨file, opened⟩, hopen, heq'⟩ := bind_eq_ok.mp hopen
    cases heq
    cases heq'
    exact ⟨_, hopen, rfl, rfl⟩
  · obtain ⟨newSize, hgrow, hok⟩ := bind_eq_ok.mp hok
    obtain ⟨file, hwrite, heq⟩ := bind_eq_ok.mp hok
    cases heq
    exact ⟨newSize, hgrow, hwrite, rfl, rfl⟩
  · exact (Except.ok.inj hok).symm
  · obtain ⟨file, htrunc, heq⟩ := bind_eq_ok.mp hok
    cases heq
    exact ⟨htrunc, rfl, rfl⟩
  · exact (Except.ok.inj hok).symm

theorem close_file : t.close.file = t.file.close := by
  rw [close]
  split
  next hfile => rw [OMmapFile.close, hfile]
  next => rfl

/-- A `Truncate` gets a 64-bit size. -/
def SizesFit (call : MmapCall) : Prop := ∀ size, call.op = .truncate size → size < 2 ^ 64

theorem sound_exec (h : t.file.Sound) (hsize : SizesFit call) (hok : t.exec call = .ok t') :
    t'.file.Sound := by
  obtain ⟨ans, op⟩ := call
  have hcases := exec_cases hok
  cases op with
  | openFile name bAppend =>
    obtain ⟨opened, hopen, -, -⟩ := hcases
    exact (h.openFile hopen).1
  | write data =>
    obtain ⟨newSize, -, hwrite, -, -⟩ := hcases
    exact (h.write hwrite).1
  | sync =>
    obtain rfl := hcases
    exact h.sync
  | truncate size => exact h.truncate (hsize size rfl) hcases.1
  | close =>
    obtain rfl := hcases
    rw [close_file]
    exact h.close.1

end TracedFile

end Hplsp
