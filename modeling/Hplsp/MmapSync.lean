import Hplsp.MmapContent

/-! What `Sync` makes durable: `syncPos_` moves on whether or not `msync` accepted the address. -/

namespace Hplsp

open Outcome

/-- `mmap` returns whole pages. -/
def Answers.PageAligned (page : Nat) (ans : Answers) : Prop :=
  ∃ base, ans.mapped = some base ∧ page ∣ base

namespace OMmapFile

variable {s s' : OMmapFile} {ans : Answers} {name : FileName} {data : List UInt8} {page start : Nat}
  {needed size : Nat} {calls : List FileCall} {call : FileCall}

/-- The position lies in the range of an `msync` that succeeded, its address being a multiple of
the page size. -/
def Covered (s : OMmapFile) (page i : Nat) : Prop :=
  ∃ m ∈ s.msyncs, page ∣ m.addr ∧ m.pos ≤ i ∧ i < m.pos + m.length

/-- A `Sync` that returns true leaves every byte written since `Open` covered. -/
def SyncCovers (page start : Nat) (s : OMmapFile) (call : FileCall) : Prop :=
  call.op = .sync → s.sync.2 = true → ∀ i, start ≤ i → i < s.sync.1.offset →
    s.sync.1.Covered page i

/-- The offsets at which the operations sync, from the offset and `syncPos_` before them. -/
def syncOffsets : Nat → Nat → List FileOp → List Nat
  | _, _, [] => []
  | offset, syncPos, .write data :: ops => syncOffsets (offset + data.length) syncPos ops
  | offset, syncPos, .truncate _ :: ops => syncOffsets offset syncPos ops
  | offset, syncPos, .sync :: ops =>
    if offset ≤ syncPos then syncOffsets offset syncPos ops
    else offset :: syncOffsets offset offset ops

/-- The file is open and mapped at a page boundary. -/
structure Mapped (page : Nat) (s : OMmapFile) : Prop where
  file : s.file ≠ none
  memory : ∃ base, s.memory = some ⟨base, s.size⟩ ∧ page ∣ base
  offset_le : s.offset ≤ s.size
  size_pos : 0 < s.size
  size_lt : s.size < 2 ^ 64

theorem mapWriteOnly_ok {b : Bool} (hok : s.mapWriteOnly ans = .ok (s', b)) :
    s' = { s with memory := ans.mapped.map fun base => ⟨base, s.size⟩ } ∧
      b = ans.mapped.isSome := by
  rw [mapWriteOnly] at hok
  split at hok
  · cases hok
  · cases hok
    exact ⟨rfl, rfl⟩

theorem truncate_ok (hok : s.truncate ans size = .ok s') :
    (size = s.size ∧ s' = s) ∨ (size ≠ s.size ∧ ∃ name, s.file = some name ∧ s' = { s with
      memory := ans.mapped.map (⟨·, size⟩)
      size := size
      offset := min size s.offset
      disk := s.ftruncate name size }) := by
  rw [truncate] at hok
  split at hok
  · cases hok
    exact .inl ⟨by assumption, rfl⟩
  · split at hok
    · cases hok
    · rename_i name hfile
      split at hok
      · cases hok
      · obtain ⟨⟨s₁, b⟩, hmap, hok⟩ := bind_eq_ok.mp hok
        cases hok
        obtain ⟨rfl, -⟩ := mapWriteOnly_ok hmap
        have hoffset : (if size < s.offset then size else s.offset) = min size s.offset := by
          split <;> omega
        exact .inr ⟨by assumption, name, hfile, by rw [hoffset]⟩

theorem Mapped.truncate (h : s.Mapped page) (hans : ans.PageAligned page) (hpos : 0 < size)
    (hlt : size < 2 ^ 64) (hle : s.offset ≤ size) (hok : s.truncate ans size = .ok s') :
    s'.Mapped page ∧ s'.offset = s.offset ∧ s'.syncPos = s.syncPos ∧ s'.msyncs = s.msyncs := by
  rcases truncate_ok hok with ⟨-, rfl⟩ | ⟨-, name, hfile, rfl⟩
  · exact ⟨h, rfl, rfl, rfl⟩
  · have hoffset : min size s.offset = s.offset := Nat.min_eq_right hle
    refine ⟨⟨h.file, ?_, ?_, hpos, hlt⟩, hoffset, rfl, rfl⟩
    · obtain ⟨base, hbase, hdvd⟩ := hans
      exact ⟨base, by simp [hbase], hdvd⟩
    · dsimp only
      omega

/-- A write that returns has moved `offset_` by its length; how far `Sync` has got stays. -/
theorem Mapped.write (h : s.Mapped page) (hans : ans.PageAligned page)
    (hok : s.write ans data = .ok s') :
    s'.Mapped page ∧ s'.offset = s.offset + data.length ∧ s'.syncPos = s.syncPos ∧
      s'.msyncs = s.msyncs := by
  obtain ⟨newSize, s₁, disk, hgrow, hextend, hcopy, hspace, rfl⟩ := write_ok hok
  have hlt := (doubleSize_ok _ _ _ hgrow h.size_lt (.inl h.size_pos)).2.2
  have hle := h.offset_le
  have hmapped : s₁.Mapped page ∧ s₁.offset = s.offset ∧ s₁.syncPos = s.syncPos ∧
      s₁.msyncs = s.msyncs := by
    rcases (extendFileSize_ok hextend).2 with ⟨hmore, htrunc⟩ | ⟨-, rfl⟩
    · exact h.truncate hans (by omega) hlt (by omega) htrunc
    · exact ⟨h, rfl, rfl, rfl⟩
  obtain ⟨hmapped, hoffset, hsync, hmsyncs⟩ := hmapped
  obtain ⟨name, m, f, -, hmemory, -, hm, -⟩ := copy_ok hcopy
  obtain ⟨base, hbase, -⟩ := hmapped.memory
  obtain rfl := Option.some_inj.mp (hmemory.symm.trans hbase)
  have hsize := hmapped.size_lt
  refine ⟨⟨hmapped.file, hmapped.memory, hspace, hmapped.size_pos, hsize⟩, ?_, hsync, hmsyncs⟩
  dsimp only at hm ⊢
  rw [Word64.add_of_lt (by omega), hoffset]

/-- Everything up to `syncPos_` is covered, by calls that went no further. -/
structure Synced (page start : Nat) (s : OMmapFile) : Prop where
  mapped : s.Mapped page
  pos : s.syncPos = 0 ∨ start ≤ s.syncPos
  start_le : start ≤ s.offset
  behind : ∀ m ∈ s.msyncs, m.pos + m.length ≤ s.syncPos
  aligned : ∀ m ∈ s.msyncs, page ∣ m.addr
  covered : ∀ i, start ≤ i → i < s.syncPos → s.Covered page i

theorem Synced.write (h : s.Synced page start) (hans : ans.PageAligned page)
    (hok : s.write ans data = .ok s') :
    s'.Synced page start ∧ s'.offset = s.offset + data.length ∧ s'.syncPos = s.syncPos := by
  obtain ⟨hmapped, hoffset, hsync, hmsyncs⟩ := h.mapped.write hans hok
  have hstart := h.start_le
  refine ⟨⟨hmapped, ?_, by omega, ?_, ?_, ?_⟩, hoffset, hsync⟩
  · rw [hsync]
    exact h.pos
  · rw [hmsyncs, hsync]
    exact h.behind
  · rw [hmsyncs]
    exact h.aligned
  · rw [hsync]
    intro i hi hlt
    obtain ⟨m, hm, hcover⟩ := h.covered i hi hlt
    exact ⟨m, by rwa [hmsyncs], hcover⟩

/-- The address of `syncPos_` in the mapping, which `Sync` passes to `msync`. -/
def syncAddr (s : OMmapFile) : Nat :=
  Word64.add (match s.memory with | some m => m.base | none => 2 ^ 64 - 1) s.syncPos

theorem sync_eq (hfile : s.file ≠ none) (hlt : s.syncPos < s.offset) : s.sync =
    ({ s with
      syncPos := s.offset
      msyncs := s.msyncs ++ [⟨s.syncAddr, s.syncPos, s.offset - s.syncPos⟩] }, true) := by
  rw [OMmapFile.sync, if_neg hfile, if_neg (by omega)]
  rfl

theorem sync_idle (hle : s.offset ≤ s.syncPos) : s.sync = (s, false) := by
  rw [OMmapFile.sync]
  split
  · rfl
  · rfl

/-- The address is a multiple of the page size exactly when `syncPos_` is. -/
theorem dvd_syncAddr (hpage : page ∣ 2 ^ 64) (h : s.Mapped page) :
    page ∣ s.syncAddr ↔ page ∣ s.syncPos := by
  obtain ⟨base, hm, hdvd⟩ := h.memory
  have hword : page ∣ Word64.size := hpage
  rw [syncAddr, hm, Word64.add, Nat.dvd_mod_iff hword]
  exact Nat.dvd_add_right hdvd

/-- A `Sync` that finds something new keeps everything covered exactly when it starts at a page. -/
theorem Synced.sync (h : s.Synced page start) (hpage : page ∣ 2 ^ 64)
    (hlt : s.syncPos < s.offset) (hdvd : page ∣ s.syncPos) : s.sync.1.Synced page start := by
  have haddr := (dvd_syncAddr hpage h.mapped).mpr hdvd
  rw [sync_eq h.mapped.file hlt]
  refine ⟨⟨h.mapped.file, h.mapped.memory, h.mapped.offset_le, h.mapped.size_pos,
    h.mapped.size_lt⟩,
    .inr h.start_le, h.start_le, ?_, ?_, ?_⟩
  · intro m hm
    rcases List.mem_append.mp hm with hold | hnew
    · have hbehind := h.behind m hold
      dsimp only
      omega
    · obtain rfl := List.mem_singleton.mp hnew
      dsimp only
      omega
  · intro m hm
    rcases List.mem_append.mp hm with hold | hnew
    · exact h.aligned m hold
    · obtain rfl := List.mem_singleton.mp hnew
      exact haddr
  · intro i hi hioff
    rcases Nat.lt_or_ge i s.syncPos with hold | hnew
    · obtain ⟨m, hm, hcover⟩ := h.covered i hi hold
      exact ⟨m, List.mem_append_left _ hm, hcover⟩
    · refine ⟨_, List.mem_append_right _ List.mem_cons_self, haddr, hnew, ?_⟩
      dsimp only at hioff ⊢
      omega

/-- Otherwise the first byte of the range is lost to it, and no earlier call went that far. -/
theorem Synced.dvd_of_covers (h : s.Synced page start) (hpage : page ∣ 2 ^ 64)
    (hlt : s.syncPos < s.offset)
    (hcovers : ∀ i, start ≤ i → i < s.sync.1.offset → s.sync.1.Covered page i) :
    page ∣ s.syncPos := by
  rcases h.pos with hzero | hstart
  · rw [hzero]
    exact Nat.dvd_zero page
  · rw [sync_eq h.mapped.file hlt] at hcovers
    obtain ⟨m, hm, hdvd, -, hend⟩ := hcovers s.syncPos hstart hlt
    rcases List.mem_append.mp hm with hold | hnew
    · have hbehind := h.behind m hold
      omega
    · obtain rfl := List.mem_singleton.mp hnew
      exact (dvd_syncAddr hpage h.mapped).mp hdvd

theorem Mapped.sync (h : s.Mapped page) :
    s.sync.1.Mapped page ∧ ∀ m ∈ s.msyncs, m ∈ s.sync.1.msyncs := by
  rcases Nat.lt_or_ge s.syncPos s.offset with hlt | hle
  · rw [sync_eq h.file hlt]
    exact ⟨⟨h.file, h.memory, h.offset_le, h.size_pos, h.size_lt⟩,
      fun m hm => List.mem_append_left _ hm⟩
  · rw [sync_idle hle]
    exact ⟨h, fun m hm => hm⟩

/-- A run of `Write` and `Sync` forgets no call of `msync`. -/
theorem Mapped.execute (h : s.Mapped page) (hans : ∀ call ∈ calls, call.ans.PageAligned page)
    (hops : ∀ call ∈ calls, ∀ size, call.op ≠ .truncate size)
    (hrun : Lts.execute exec s calls = .ok s') : ∀ m ∈ s.msyncs, m ∈ s'.msyncs := by
  induction calls generalizing s with
  | nil =>
    cases hrun
    exact fun m hm => hm
  | cons call calls ih =>
    have hans' := fun call' hmem => hans call' (List.mem_cons_of_mem call hmem)
    have hops' := fun call' hmem => hops call' (List.mem_cons_of_mem call hmem)
    obtain ⟨ans, op⟩ := call
    cases op with
    | write data =>
      cases hwrite : s.write ans data with
      | error e => simp [Lts.execute, exec, hwrite] at hrun
      | ok w =>
        obtain ⟨hw, -, -, hmsyncs⟩ := h.write (hans _ List.mem_cons_self) hwrite
        simp only [Lts.execute, exec, hwrite] at hrun
        have hrest := ih hw hans' hops' hrun
        rwa [hmsyncs] at hrest
    | truncate size => exact absurd rfl (hops _ List.mem_cons_self size)
    | sync =>
      obtain ⟨hw, hgrow⟩ := h.sync
      exact fun m hm => ih hw hans' hops' hrun m (hgrow m hm)

/-- Each sync starts where the one before it ended, and nothing else decides. -/
theorem Synced.syncCovers_iff (h : s.Synced page start) (hpage : page ∣ 2 ^ 64)
    (hans : ∀ call ∈ calls, call.ans.PageAligned page)
    (hops : ∀ call ∈ calls, ∀ size, call.op ≠ .truncate size)
    (hrun : Lts.execute exec s calls = .ok s') :
    (Lts.StepsMeet exec (SyncCovers page start) s calls ↔
      ∀ p ∈ (s.syncPos :: syncOffsets s.offset s.syncPos (calls.map FileCall.op)).dropLast,
        page ∣ p) ∧
    ((∀ m ∈ s'.msyncs, page ∣ m.addr) ↔
      ∀ p ∈ (s.syncPos :: syncOffsets s.offset s.syncPos (calls.map FileCall.op)).dropLast,
        page ∣ p) := by
  induction calls generalizing s with
  | nil =>
    cases hrun
    simpa [Lts.StepsMeet, syncOffsets] using h.aligned
  | cons call calls ih =>
    have hans' := fun call' hmem => hans call' (List.mem_cons_of_mem call hmem)
    have hops' := fun call' hmem => hops call' (List.mem_cons_of_mem call hmem)
    obtain ⟨ans, op⟩ := call
    cases op with
    | write data =>
      cases hwrite : s.write ans data with
      | error e => simp [Lts.execute, exec, hwrite] at hrun
      | ok w =>
        obtain ⟨hw, hoffset, hsync⟩ := h.write (hans _ List.mem_cons_self) hwrite
        simp only [Lts.execute, exec, hwrite] at hrun
        have hrest := ih hw hans' hops' hrun
        rw [hoffset, hsync] at hrest
        simpa [Lts.StepsMeet, exec, hwrite, SyncCovers, syncOffsets] using hrest
    | truncate size => exact absurd rfl (hops _ List.mem_cons_self size)
    | sync =>
      have hrun' : Lts.execute exec s.sync.1 calls = .ok s' := hrun
      rcases Nat.lt_or_ge s.syncPos s.offset with hlt | hle
      · have hnext : s.sync.1.syncPos = s.offset ∧ s.sync.1.offset = s.offset ∧
            s.sync.2 = true := by
          rw [sync_eq h.mapped.file hlt]
          exact ⟨rfl, rfl, rfl⟩
        obtain ⟨hpos, hoffset, htrue⟩ := hnext
        simp only [List.map_cons, syncOffsets, if_neg (Nat.not_le.mpr hlt), List.dropLast_cons_cons,
          List.forall_mem_cons]
        by_cases hdvd : page ∣ s.syncPos
        · have hw := h.sync hpage hlt hdvd
          have hrest := ih hw hans' hops' hrun'
          rw [hpos, hoffset] at hrest
          have hcovers : SyncCovers page start s ⟨ans, .sync⟩ :=
            fun _ _ i hi hioff => hw.covered i hi (by rw [hpos, ← hoffset]; exact hioff)
          simpa [Lts.StepsMeet, exec, hcovers, hdvd] using hrest
        · have hnot : ¬ SyncCovers page start s ⟨ans, .sync⟩ :=
            fun hcovers => hdvd (h.dvd_of_covers hpage hlt (hcovers rfl htrue))
          refine ⟨iff_of_false (fun hmeet => hnot hmeet.1) fun hall => hdvd hall.1,
            iff_of_false (fun hall => ?_) fun hall => hdvd hall.1⟩
          have hlast : (⟨s.syncAddr, s.syncPos, s.offset - s.syncPos⟩ : Msync) ∈
              s.sync.1.msyncs := by
            rw [sync_eq h.mapped.file hlt]
            exact List.mem_append_right _ List.mem_cons_self
          have hmem := h.mapped.sync.1.execute hans' hops' hrun' _ hlast
          exact hdvd ((dvd_syncAddr hpage h.mapped).mp (hall _ hmem))
      · have hidle := sync_idle hle
        rw [hidle] at hrun'
        have hrest := ih h hans' hops' hrun'
        simpa [Lts.StepsMeet, exec, hidle, SyncCovers, syncOffsets, hle] using hrest

theorem synced_openFile {disk : FileName → Option SparseFile} {bAppend : Bool} {opened : Bool}
    (hlt : ((new disk).initial name).len < 2 ^ 63) (hans : ans.PageAligned page)
    (hopen : (new disk).openFile ans name bAppend = .ok (s, opened)) :
    s.Synced page s.offset ∧ s.syncPos = 0 := by
  have hdefault : kDefaultSize = 1048576 := rfl
  have hclose : ((new disk).close.disk name).getD .empty = (new disk).initial name := rfl
  have hopened : ans.opened = true := by
    by_contra hne
    rw [Bool.not_eq_true] at hne
    simp [OMmapFile.openFile, hne] at hopen
  have htruncated : ans.truncated = true := by
    by_contra hne
    rw [Bool.not_eq_true] at hne
    simp [OMmapFile.openFile, hopened, hne] at hopen
  simp only [OMmapFile.openFile, hclose, hopened, htruncated, Bool.not_true, Bool.false_eq_true,
    if_false] at hopen
  obtain ⟨rfl, -⟩ := mapWriteOnly_ok hopen
  obtain ⟨base, hbase, hdvd⟩ := hans
  refine ⟨⟨⟨by simp, ⟨base, by simp [hbase], hdvd⟩, ?_, ?_, ?_⟩, .inl rfl, Nat.le_refl _, ?_, ?_,
    ?_⟩, rfl⟩
  · cases bAppend
    · exact Nat.zero_le _
    · exact Nat.le_max_right _ _
  · dsimp only
    split <;> omega
  · dsimp only
    split <;> omega
  · intro m hm
    cases hm
  · intro m hm
    cases hm
  · intro i hi hlt
    cases hlt

/-- From `Open` on, with writes and syncs in any order: every `Sync` that returns true leaves all
that was written covered, if and only if every sync but the last one found `offset_` at a multiple
of the page size; and only then are all the addresses passed to `msync` multiples of it. -/
theorem sync_covers_iff {disk : FileName → Option SparseFile} {bAppend : Bool}
    (hpage : page ∣ 2 ^ 64) (hlt : ((new disk).initial name).len < 2 ^ 63)
    (hans : ans.PageAligned page) (hopen : (new disk).openFile ans name bAppend = .ok (s, true))
    (hcalls : ∀ call ∈ calls, call.ans.PageAligned page)
    (hops : ∀ call ∈ calls, ∀ size, call.op ≠ .truncate size)
    (hrun : Lts.execute exec s calls = .ok s') :
    ((∀ before ans' after s₁, calls = before ++ ⟨ans', .sync⟩ :: after →
        Lts.execute exec s before = .ok s₁ → s₁.sync.2 = true →
          ∀ i, s.offset ≤ i → i < s₁.sync.1.offset → s₁.sync.1.Covered page i) ↔
      ∀ o ∈ (syncOffsets s.offset 0 (calls.map FileCall.op)).dropLast, page ∣ o) ∧
    ((∀ m ∈ s'.msyncs, page ∣ m.addr) ↔
      ∀ o ∈ (syncOffsets s.offset 0 (calls.map FileCall.op)).dropLast, page ∣ o) := by
  obtain ⟨hsynced, hpos⟩ := synced_openFile hlt hans hopen
  have hiff := hsynced.syncCovers_iff hpage hcalls hops hrun
  have hfirst : (∀ p ∈ (0 :: syncOffsets s.offset 0 (calls.map FileCall.op)).dropLast, page ∣ p) ↔
      ∀ o ∈ (syncOffsets s.offset 0 (calls.map FileCall.op)).dropLast, page ∣ o := by
    cases syncOffsets s.offset 0 (calls.map FileCall.op) <;> simp
  rw [hpos, hfirst, Lts.stepsMeet_iff] at hiff
  refine ⟨Iff.trans ⟨?_, ?_⟩ hiff.1, hiff.2⟩
  · rintro hcovers before ⟨ans', op⟩ after s₁ heq hbefore rfl htrue
    exact hcovers before ans' after s₁ heq hbefore htrue
  · intro hmeet before ans' after s₁ heq hbefore htrue
    exact hmeet before ⟨ans', .sync⟩ after s₁ heq hbefore rfl htrue

/-- Two syncs on a file of one byte less than a page: the first ends at the page boundary, where the
range of the second starts. -/
theorem sync_covers_iff_twice : ∃ s s₁ s',
    (new fun _ => some ⟨4095, fun _ => 0⟩).openFile ⟨true, true, some 4096⟩ "a.log" true =
      .ok (s, true) ∧
    Lts.execute exec s [⟨⟨true, true, some 4096⟩, .write [1]⟩, ⟨⟨true, true, some 4096⟩, .sync⟩,
      ⟨⟨true, true, some 4096⟩, .write [2]⟩] = .ok s₁ ∧ s₁.sync.2 = true ∧
    s₁.sync.1.Covered 4096 4095 ∧ s₁.sync.1.Covered 4096 4096 ∧
    Lts.execute exec s [⟨⟨true, true, some 4096⟩, .write [1]⟩, ⟨⟨true, true, some 4096⟩, .sync⟩,
      ⟨⟨true, true, some 4096⟩, .write [2]⟩, ⟨⟨true, true, some 4096⟩, .sync⟩] = .ok s' ∧
    s'.msyncs = [⟨4096, 0, 4096⟩, ⟨8192, 4096, 1⟩] ∧ ∀ m ∈ s'.msyncs, 4096 ∣ m.addr := by
  have hans : (⟨true, true, some 4096⟩ : Answers).PageAligned 4096 := ⟨4096, rfl, Nat.dvd_refl _⟩
  obtain ⟨s, s₁, s', hopen, hrun₁, hrun, htrue, hstart, hend, hmsyncs⟩ : ∃ s s₁ s',
      (new fun _ => some ⟨4095, fun _ => 0⟩).openFile ⟨true, true, some 4096⟩ "a.log" true =
        .ok (s, true) ∧
      Lts.execute exec s [⟨⟨true, true, some 4096⟩, .write [1]⟩, ⟨⟨true, true, some 4096⟩, .sync⟩,
        ⟨⟨true, true, some 4096⟩, .write [2]⟩] = .ok s₁ ∧
      Lts.execute exec s [⟨⟨true, true, some 4096⟩, .write [1]⟩, ⟨⟨true, true, some 4096⟩, .sync⟩,
        ⟨⟨true, true, some 4096⟩, .write [2]⟩, ⟨⟨true, true, some 4096⟩, .sync⟩] = .ok s' ∧
      s₁.sync.2 = true ∧ s.offset = 4095 ∧ s₁.sync.1.offset = 4097 ∧
      s'.msyncs = [⟨4096, 0, 4096⟩, ⟨8192, 4096, 1⟩] :=
    ⟨_, _, _, rfl, rfl, rfl, rfl, rfl, rfl, rfl⟩
  have hiff := sync_covers_iff (show 4096 ∣ 2 ^ 64 by decide) (by decide) hans hopen
    (by simp [hans]) (by simp) hrun
  rw [hstart] at hiff
  have hcovers := hiff.1.mpr (by decide) _ _ [] s₁ rfl hrun₁ htrue
  rw [hend] at hcovers
  exact ⟨s, s₁, s', hopen, hrun₁, htrue, hcovers 4095 (by omega) (by omega),
    hcovers 4096 (by omega) (by omega), hrun, hmsyncs, hiff.2.mpr (by decide)⟩

/-- The second `Sync` passes the address behind the first byte, `msync` refuses it, `Sync` returns
true all the same, and the second byte is covered by nothing. -/
theorem sync_skips_unaligned : ∃ s s₁,
    (new fun _ => none).openFile ⟨true, true, some 4096⟩ "a.log" true = .ok (s, true) ∧
      Lts.execute exec s [⟨⟨true, true, some 4096⟩, .write [1]⟩, ⟨⟨true, true, some 4096⟩, .sync⟩,
        ⟨⟨true, true, some 4096⟩, .write [2]⟩] = .ok s₁ ∧
      s₁.sync.2 = true ∧ s.offset ≤ 1 ∧ 1 < s₁.sync.1.offset ∧ ¬ s₁.sync.1.Covered 4096 1 ∧
      ⟨4097, 1, 1⟩ ∈ s₁.sync.1.msyncs := by
  obtain ⟨s, s₁, hopen, hrun, htrue, hstart, hend, hmsyncs⟩ : ∃ s s₁,
      (new fun _ => none).openFile ⟨true, true, some 4096⟩ "a.log" true = .ok (s, true) ∧
        Lts.execute exec s [⟨⟨true, true, some 4096⟩, .write [1]⟩,
          ⟨⟨true, true, some 4096⟩, .sync⟩, ⟨⟨true, true, some 4096⟩, .write [2]⟩] = .ok s₁ ∧
        s₁.sync.2 = true ∧ s.offset = 0 ∧ s₁.sync.1.offset = 2 ∧
        s₁.sync.1.msyncs = [⟨4096, 0, 1⟩, ⟨4097, 1, 1⟩] := ⟨_, _, rfl, rfl, rfl, rfl, rfl, rfl⟩
  refine ⟨s, s₁, hopen, hrun, htrue, by omega, by omega, ?_, by simp [hmsyncs]⟩
  rintro ⟨m, hm, hdvd, hle, hlt⟩
  rw [hmsyncs] at hm
  rcases List.mem_cons.mp hm with rfl | hm
  · exact absurd hlt (by decide)
  · obtain rfl := List.mem_singleton.mp hm
    exact absurd hdvd (by decide)

end OMmapFile

end Hplsp
