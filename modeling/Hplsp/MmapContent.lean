import Hplsp.MmapFile
import Hplsp.Lib.Run

/-! What an `OMmapFile` leaves on the disk: the bytes it was given, and nothing else. -/

namespace Hplsp

open Outcome

/-- Every call of the system succeeds. -/
def Answers.Succeed (ans : Answers) : Prop :=
  ans.opened = true ∧ ans.truncated = true ∧ ans.mapped.isSome = true

instance (ans : Answers) : Decidable ans.Succeed := inferInstanceAs (Decidable (_ ∧ _ ∧ _))

inductive FileOp where
  | write (data : List UInt8)
  | sync
  | truncate (size : Nat)
  deriving DecidableEq, Repr

namespace FileOp

/-- What the operation is meant to do to the content. -/
def apply (c : List UInt8) : FileOp → List UInt8
  | .write data => c ++ data
  | .sync => c
  | .truncate size => c.take size

/-- The lengths for which the operations are meant: up to 2^63 behind a `Write`, at least one byte
behind a `Truncate`. -/
def Within (c : List UInt8) : FileOp → Prop
  | .write data => c.length + data.length ≤ 2 ^ 63
  | .sync => True
  | .truncate size => 0 < size ∧ size < 2 ^ 64

instance (c : List UInt8) : (op : FileOp) → Decidable (op.Within c)
  | .write data => inferInstanceAs (Decidable (c.length + data.length ≤ 2 ^ 63))
  | .sync => inferInstanceAs (Decidable True)
  | .truncate size => inferInstanceAs (Decidable (0 < size ∧ size < 2 ^ 64))

def AllWithin : List UInt8 → List FileOp → Prop
  | _, [] => True
  | c, op :: ops => op.Within c ∧ AllWithin (op.apply c) ops

instance : (c : List UInt8) → (ops : List FileOp) → Decidable (AllWithin c ops)
  | _, [] => inferInstanceAs (Decidable True)
  | c, op :: ops =>
    have := instDecidableAllWithin (op.apply c) ops
    inferInstanceAs (Decidable (op.Within c ∧ AllWithin (op.apply c) ops))

end FileOp

/-- An operation with the system's answers to it. -/
structure FileCall where
  ans : Answers
  op : FileOp
  deriving DecidableEq, Repr

namespace OMmapFile

variable {s s' : OMmapFile} {ans : Answers} {name : FileName} {c data : List UInt8}
  {f : SparseFile} {needed size : Nat}

/-- The file is open and mapped over its whole length, and the bytes in front of `offset_` are
those of `c`. -/
structure Holds (s : OMmapFile) (name : FileName) (c : List UInt8) : Prop where
  file : s.file = some name
  mapped : ∃ base, s.memory = some ⟨base, s.size⟩
  offset : s.offset = c.length
  offset_le : s.offset ≤ s.size
  size_pos : 0 < s.size
  size_lt : s.size < 2 ^ 64
  disk : ∃ f, s.disk name = some f ∧ f.len = s.size ∧ f.bytes c.length = c

/-- Up to 2^63 the doubling loop ends, and its products are exact. -/
theorem doubleSize_eq (hneeded : needed ≤ 2 ^ 63) : ∀ fuel newSize, 0 < newSize →
    newSize < 2 ^ 64 → needed ≤ newSize * 2 ^ fuel →
      ∃ k, doubleSize needed (fuel + 1) newSize = .ok (newSize * 2 ^ k) ∧
        needed ≤ newSize * 2 ^ k ∧ newSize * 2 ^ k < 2 ^ 64 := by
  intro fuel
  induction fuel with
  | zero =>
    intro newSize hpos hlt hle
    refine ⟨0, ?_, hle, by simpa using hlt⟩
    rw [doubleSize, if_neg (by omega), Nat.pow_zero, Nat.mul_one]
  | succ fuel ih =>
    intro newSize hpos hlt hle
    by_cases hend : newSize < needed
    · have hexact : Word64.mul newSize 2 = newSize * 2 := Word64.mul_of_lt (by omega)
      obtain ⟨k, hk, hge, hsmall⟩ := ih (newSize * 2) (by omega) (by omega)
        (by rw [Nat.mul_assoc, ← Nat.pow_succ']; exact hle)
      rw [Nat.mul_assoc, ← Nat.pow_succ'] at hk hge hsmall
      refine ⟨k + 1, ?_, hge, hsmall⟩
      rw [doubleSize, if_pos hend, if_neg (by omega), hexact, hk]
    · refine ⟨0, ?_, by omega, by simpa using hlt⟩
      rw [doubleSize, if_neg hend, Nat.pow_zero, Nat.mul_one]

/-- What a call keeps besides the content: the other files, and how far `Sync` has got. -/
structure Keeps (s s' : OMmapFile) (name : FileName) : Prop where
  disk : ∀ name', name' ≠ name → s'.disk name' = s.disk name'
  syncPos : s'.syncPos = s.syncPos
  msyncs : s'.msyncs = s.msyncs

theorem Keeps.refl (s : OMmapFile) (name : FileName) : s.Keeps s name :=
  ⟨fun _ _ => rfl, rfl, rfl⟩

theorem Keeps.trans {s₁ s₂ s₃ : OMmapFile} (h : s₁.Keeps s₂ name) (h' : s₂.Keeps s₃ name) :
    s₁.Keeps s₃ name :=
  ⟨fun name' hne => (h'.disk name' hne).trans (h.disk name' hne), h'.syncPos.trans h.syncPos,
    h'.msyncs.trans h.msyncs⟩

theorem Holds.truncate (h : s.Holds name c) (hans : ans.Succeed) (hpos : 0 < size)
    (hlt : size < 2 ^ 64) : ∃ s', s.truncate ans size = .ok s' ∧ s'.Holds name (c.take size) ∧
      s'.size = size ∧ s.Keeps s' name := by
  obtain ⟨f, hdisk, hlen, hbytes⟩ := h.disk
  have hoffset := h.offset
  have hle := h.offset_le
  rw [OMmapFile.truncate]
  by_cases hsame : size = s.size
  · rw [if_pos hsame, List.take_of_length_le (by omega)]
    exact ⟨s, rfl, h, hsame.symm, .refl s name⟩
  · obtain ⟨-, htruncated, hmapped⟩ := hans
    obtain ⟨base, hbase⟩ := Option.isSome_iff_exists.mp hmapped
    have hfile := h.file
    simp only [hsame, hfile, if_false, htruncated, Bool.not_true, Bool.false_eq_true, mapWriteOnly,
      Nat.ne_of_gt hpos, reduceCtorEq, or_self, ok_bind, hbase, Option.map_some]
    refine ⟨_, rfl, ⟨rfl, ⟨base, rfl⟩, ?_, ?_, hpos, hlt, ?_⟩, rfl, ?_, rfl, rfl⟩
    · simp only [List.length_take]
      split <;> omega
    · dsimp only
      split <;> omega
    · refine ⟨f.truncate size, ?_, rfl, ?_⟩
      · simp [ftruncate, hdisk]
      · rw [SparseFile.bytes_truncate (by simp only [List.length_take]; omega), List.length_take,
          ← SparseFile.take_bytes (Nat.min_le_right size c.length), hbytes]
        exact List.take_eq_take_min.symm
    · intro name' hne
      simp [ftruncate, hne]

theorem Holds.doubleSize_eq (h : s.Holds name c) {len : Nat} (hlen : s.offset + len ≤ 2 ^ 63) :
    ∃ k, doubleSize (s.offset + len) 128 s.size = .ok (s.size * 2 ^ k) ∧
      s.offset + len ≤ s.size * 2 ^ k ∧ s.size * 2 ^ k < 2 ^ 64 := by
  refine OMmapFile.doubleSize_eq hlen 127 s.size h.size_pos h.size_lt ?_
  have hpos := h.size_pos
  have hpow : 2 ^ 63 ≤ 2 ^ 127 := by decide
  calc s.offset + len ≤ 2 ^ 127 := by omega
    _ ≤ s.size * 2 ^ 127 := Nat.le_mul_of_pos_left _ hpos

theorem Holds.assureSpace (h : s.Holds name c) (hans : ans.Succeed) {len : Nat}
    (hlen : s.offset + len ≤ 2 ^ 63) :
    ∃ s', s.assureSpace ans len = .ok s' ∧ s'.Holds name c ∧ s.offset + len ≤ s'.size ∧
      s.Keeps s' name := by
  have hle := h.offset_le
  have hoffset := h.offset
  obtain ⟨k, hgrow, hge, hlt⟩ := h.doubleSize_eq hlen
  rw [OMmapFile.assureSpace, Word64.add_of_lt (by omega), hgrow, ok_bind, extendFileSize, h.file,
    if_neg (by simp)]
  split
  · rename_i hmore
    obtain ⟨s', hok, hholds, hsize, hkeeps⟩ := h.truncate hans (by omega) hlt
    rw [List.take_of_length_le (by omega)] at hholds
    exact ⟨s', hok, hholds, by omega, hkeeps⟩
  · rename_i hmore
    exact ⟨s, rfl, h, by omega, .refl s name⟩

/-- Whatever is needed, a doubling loop that ends has found room. -/
theorem doubleSize_ok : ∀ fuel newSize result, doubleSize needed fuel newSize = .ok result →
    newSize < 2 ^ 64 → 0 < newSize ∨ 0 < needed →
      needed ≤ result ∧ 0 < result ∧ result < 2 ^ 64 := by
  intro fuel
  induction fuel with
  | zero => intro newSize result hok _ _; cases hok
  | succ fuel ih =>
    intro newSize result hok hlt hpos
    rw [doubleSize] at hok
    split at hok
    · refine ih _ _ hok ?_ (.inr (by omega))
      split
      · decide
      · exact Nat.mod_lt _ (by decide)
    · cases hok
      omega

/-- A larger size is a `Truncate`, any other leaves an open file as it is. -/
theorem extendFileSize_ok (hok : s.extendFileSize ans size = .ok s') : s.file ≠ none ∧
    (s.size < size ∧ s.truncate ans size = .ok s' ∨ size ≤ s.size ∧ s' = s) := by
  rw [extendFileSize] at hok
  split at hok
  next => cases hok
  next hfile =>
    split at hok
    next hmore => exact ⟨hfile, .inl ⟨hmore, hok⟩⟩
    next hle =>
      cases hok
      exact ⟨hfile, .inr ⟨Nat.not_lt.mp hle, rfl⟩⟩

theorem copy_ok {disk : FileName → Option SparseFile} (hok : s.copy data = .ok disk) :
    ∃ name m f, s.file = some name ∧ s.memory = some m ∧ s.disk name = some f ∧
      s.offset + data.length ≤ m.length ∧ s.offset + data.length ≤ f.len ∧
        disk = Function.update s.disk name (some (f.write s.offset data)) := by
  rw [copy] at hok
  split at hok
  · rename_i name m hfile hmemory
    split at hok
    · rename_i f hdisk
      split at hok
      · rename_i hbounds
        cases hok
        exact ⟨name, m, f, hfile, hmemory, hdisk, hbounds.1, hbounds.2, rfl⟩
      · cases hok
    · cases hok
  · cases hok

/-- A write that returns has found its room, copied its block there and moved `offset_`. -/
theorem write_ok (hok : s.write ans data = .ok s') : ∃ newSize s₁ disk,
    doubleSize (Word64.add s.offset data.length) 128 s.size = .ok newSize ∧
      s.extendFileSize ans newSize = .ok s₁ ∧ s₁.copy data = .ok disk ∧
      Word64.add s₁.offset data.length ≤ s₁.size ∧
      s' = { s₁ with disk := disk, offset := Word64.add s₁.offset data.length } := by
  obtain ⟨s₁, hassure, hok⟩ := bind_eq_ok.mp hok
  obtain ⟨newSize, hgrow, hextend⟩ := bind_eq_ok.mp hassure
  split at hok
  · rename_i hspace
    obtain ⟨disk, hcopy, hok⟩ := bind_eq_ok.mp hok
    dsimp only at hok
    rw [if_pos hspace] at hok
    cases hok
    exact ⟨newSize, s₁, disk, hgrow, hextend, hcopy, hspace, rfl⟩
  · cases hok

/-- Even beyond 2^63: a write that returns has appended its block. -/
theorem Holds.write_ok (h : s.Holds name c) (hans : ans.Succeed)
    (hok : s.write ans data = .ok s') : s'.Holds name (c ++ data) ∧ s.Keeps s' name := by
  obtain ⟨newSize, s₁, disk, hgrow, hextend, hcopy, hspace, rfl⟩ := OMmapFile.write_ok hok
  obtain ⟨-, hpos, hlt⟩ := doubleSize_ok _ _ _ hgrow h.size_lt (.inl h.size_pos)
  have hle := h.offset_le
  have hoffset := h.offset
  have hheld : s₁.Holds name c ∧ s.Keeps s₁ name := by
    rcases (extendFileSize_ok hextend).2 with ⟨hmore, htrunc⟩ | ⟨-, rfl⟩
    · obtain ⟨s₂, hok, hholds, -, hkeeps⟩ := h.truncate hans hpos hlt
      obtain rfl : s₂ = s₁ := ok_unique hok htrunc
      rw [List.take_of_length_le (by omega)] at hholds
      exact ⟨hholds, hkeeps⟩
    · exact ⟨h, .refl _ name⟩
  obtain ⟨hholds, hkeeps⟩ := hheld
  obtain ⟨name', m, f, hfile, hmemory, hdisk, hm, hf, rfl⟩ := copy_ok hcopy
  obtain rfl := Option.some_inj.mp (hholds.file.symm.trans hfile)
  obtain ⟨f', hdisk', hflen, hbytes⟩ := hholds.disk
  obtain rfl := Option.some_inj.mp (hdisk.symm.trans hdisk')
  have hc := hholds.offset
  have hsize := hholds.size_lt
  have hadd : Word64.add s₁.offset data.length = s₁.offset + data.length :=
    Word64.add_of_lt (by omega)
  refine ⟨⟨hholds.file, hholds.mapped, ?_, hspace, hholds.size_pos, hsize, ?_⟩,
    hkeeps.trans ⟨?_, rfl, rfl⟩⟩
  · dsimp only
    rw [hadd, List.length_append, hc]
  · refine ⟨_, Function.update_self _ _ _, hflen, ?_⟩
    rw [List.length_append, hc, SparseFile.bytes_write, hbytes]
  · intro name'' hne
    exact Function.update_of_ne hne _ _

/-- A write below 2^63 returns: neither assertion fails. -/
theorem Holds.write (h : s.Holds name c) (hans : ans.Succeed)
    (hlen : c.length + data.length ≤ 2 ^ 63) :
    ∃ s', s.write ans data = .ok s' ∧ s'.Holds name (c ++ data) ∧ s.Keeps s' name := by
  rw [← h.offset] at hlen
  obtain ⟨s₁, hassure, hholds, hspace, -⟩ := h.assureSpace hans hlen
  obtain ⟨f, hdisk, hflen, -⟩ := hholds.disk
  obtain ⟨base, hbase⟩ := hholds.mapped
  have hoffset : s₁.offset = s.offset := hholds.offset.trans h.offset.symm
  have hadd : Word64.add s₁.offset data.length = s₁.offset + data.length :=
    Word64.add_of_lt (by omega)
  have hcopy : s₁.copy data =
      .ok (Function.update s₁.disk name (some (f.write s₁.offset data))) := by
    rw [copy, hholds.file, hbase]
    dsimp only
    rw [hdisk]
    dsimp only
    rw [if_pos (by omega)]
  have hok : s.write ans data = .ok { s₁ with
      disk := Function.update s₁.disk name (some (f.write s₁.offset data))
      offset := s₁.offset + data.length } := by
    rw [OMmapFile.write, hassure, ok_bind, hadd, if_pos (by omega), hcopy, ok_bind]
    exact if_pos (by dsimp only; omega)
  exact ⟨_, hok, h.write_ok hans hok⟩

theorem Holds.sync (h : s.Holds name c) : s.sync.1.Holds name c := by
  rw [OMmapFile.sync]
  split
  · exact h
  · split
    · exact h
    · exact ⟨h.file, h.mapped, h.offset, h.offset_le, h.size_pos, h.size_lt, h.disk⟩

/-- `Close` trims what was allocated in advance. -/
theorem Holds.close (h : s.Holds name c) : ∃ f, s.close.disk name = some f ∧ f.contents = c := by
  obtain ⟨f, hdisk, hlen, hbytes⟩ := h.disk
  have hoffset := h.offset
  have hle := h.offset_le
  refine ⟨f.truncate s.offset, ?_, ?_⟩
  · simp [OMmapFile.close, h.file, ftruncate, hdisk]
  · rw [SparseFile.contents, SparseFile.len_truncate, SparseFile.bytes_truncate (by omega), hoffset,
      hbytes]

theorem Holds.close_ne (h : s.Holds name c) {name' : FileName} (hne : name' ≠ name) :
    s.close.disk name' = s.disk name' := by
  simp [OMmapFile.close, h.file, ftruncate, hne]

theorem close_close (s : OMmapFile) : s.close.close = s.close := by
  cases hfile : s.file <;> simp [OMmapFile.close, hfile]

/-- The file as `Open` finds it. -/
def initial (s : OMmapFile) (name : FileName) : SparseFile := (s.close.disk name).getD .empty

theorem holds_openFile (hans : ans.Succeed) (bAppend : Bool) (hlt : (s.initial name).len < 2 ^ 63) :
    ∃ s', s.openFile ans name bAppend = .ok (s', true) ∧
      s'.Holds name (if bAppend then (s.initial name).contents else []) ∧
      s.close.Keeps s' name := by
  obtain ⟨hopened, htruncated, hmapped⟩ := hans
  obtain ⟨base, hbase⟩ := Option.isSome_iff_exists.mp hmapped
  have hdefault : kDefaultSize = 1048576 := rfl
  have hsize : (if bAppend then max kDefaultSize (s.initial name).len else kDefaultSize) ≠ 0 := by
    split <;> omega
  simp only [OMmapFile.openFile, hopened, htruncated, Bool.not_true, Bool.false_eq_true, if_false,
    mapWriteOnly, ← initial.eq_def, hsize, reduceCtorEq, or_self, hbase, Option.map_some,
    Option.isSome_some]
  refine ⟨_, rfl, ⟨rfl, ⟨base, rfl⟩, ?_, ?_, ?_, ?_, ?_⟩, ?_, rfl, rfl⟩
  · cases bAppend <;> simp
  · cases bAppend
    · exact Nat.zero_le _
    · exact Nat.le_max_right _ _
  · exact Nat.pos_of_ne_zero hsize
  · dsimp only
    split <;> omega
  · refine ⟨(s.initial name).truncate _, by simp [ftruncate], rfl, ?_⟩
    cases bAppend
    · rfl
    · simp only [if_true, SparseFile.length_contents]
      exact SparseFile.bytes_truncate (Nat.le_refl _)
  · intro name' hne
    simp [ftruncate, hne]

def exec (s : OMmapFile) (call : FileCall) : Except Fault OMmapFile :=
  match call.op with
  | .write data => s.write call.ans data
  | .sync => .ok s.sync.1
  | .truncate size => s.truncate call.ans size

theorem Holds.exec (h : s.Holds name c) {call : FileCall} (hans : call.ans.Succeed)
    (hwithin : call.op.Within c) :
    ∃ s', s.exec call = .ok s' ∧ s'.Holds name (call.op.apply c) := by
  obtain ⟨ans, op⟩ := call
  cases op with
  | write data =>
    obtain ⟨s', hok, hholds, -⟩ := h.write hans hwithin
    exact ⟨s', hok, hholds⟩
  | sync => exact ⟨_, rfl, h.sync⟩
  | truncate size =>
    obtain ⟨s', hok, hholds, -⟩ := h.truncate hans hwithin.1 hwithin.2
    exact ⟨s', hok, hholds⟩

theorem Holds.execute (h : s.Holds name c) {calls : List FileCall}
    (hans : ∀ call ∈ calls, call.ans.Succeed)
    (hwithin : FileOp.AllWithin c (calls.map FileCall.op)) :
    ∃ s', Lts.execute OMmapFile.exec s calls = .ok s' ∧
      s'.Holds name ((calls.map FileCall.op).foldl FileOp.apply c) := by
  induction calls generalizing s c with
  | nil => exact ⟨s, rfl, h⟩
  | cons call calls ih =>
    obtain ⟨s₁, hok, hholds⟩ := h.exec (hans call List.mem_cons_self) hwithin.1
    obtain ⟨s', hrun, hend⟩ :=
      ih hholds (fun call' hmem => hans call' (List.mem_cons_of_mem _ hmem)) hwithin.2
    refine ⟨s', ?_, hend⟩
    simp only [Lts.execute, hok]
    exact hrun

end OMmapFile

theorem FileOp.allWithin_append {ops ops' : List FileOp} {c : List UInt8} :
    AllWithin c (ops ++ ops') ↔ AllWithin c ops ∧ AllWithin (ops.foldl apply c) ops' := by
  induction ops generalizing c with
  | nil => simp [AllWithin]
  | cons op ops ih => simp [AllWithin, ih, and_assoc]

namespace OMmapFile

/-- From `Open` to `Close`, whatever is written and cut in between: every call returns, the file
ends with exactly the bytes it was given, and every `Write` finds its new size by exact doubling. -/
theorem close_leaves_content {s₀ : OMmapFile} {ans : Answers} {name : FileName} {bAppend : Bool}
    {calls : List FileCall} (hold : (s₀.initial name).len < 2 ^ 63) (hans : ans.Succeed)
    (hcalls : ∀ call ∈ calls, call.ans.Succeed)
    (hwithin : FileOp.AllWithin (if bAppend then (s₀.initial name).contents else [])
      (calls.map FileCall.op)) :
    ∃ s s' f, s₀.openFile ans name bAppend = .ok (s, true) ∧
      Lts.execute exec s calls = .ok s' ∧ s'.close.disk name = some f ∧
      f.contents = (calls.map FileCall.op).foldl FileOp.apply
        (if bAppend then (s₀.initial name).contents else []) ∧
      ∀ before ans' data after, calls = before ++ ⟨ans', .write data⟩ :: after →
        ∃ s₁ k, Lts.execute exec s before = .ok s₁ ∧
          doubleSize (s₁.offset + data.length) 128 s₁.size = .ok (s₁.size * 2 ^ k) ∧
          s₁.offset + data.length ≤ s₁.size * 2 ^ k ∧ s₁.size * 2 ^ k < 2 ^ 64 := by
  obtain ⟨s, hopen, hholds, -⟩ := holds_openFile hans bAppend hold
  obtain ⟨s', hrun, hend⟩ := hholds.execute hcalls hwithin
  obtain ⟨f, hdisk, hcontents⟩ := hend.close
  refine ⟨s, s', f, hopen, hrun, hdisk, hcontents, ?_⟩
  rintro before ans' data after rfl
  rw [List.map_append, FileOp.allWithin_append] at hwithin
  obtain ⟨s₁, hbefore, hmid⟩ := hholds.execute
    (fun call hmem => hcalls call (List.mem_append_left _ hmem)) hwithin.1
  have hlen : s₁.offset + data.length ≤ 2 ^ 63 := by
    rw [hmid.offset]
    exact hwithin.2.1
  obtain ⟨k, hgrow⟩ := hmid.doubleSize_eq hlen
  exact ⟨s₁, k, hbefore, hgrow⟩

/-- Three bytes, the last of them cut off again, and one more. -/
theorem close_leaves_content_cut : ∃ s s' f,
    (new fun _ => none).openFile ⟨true, true, some 4096⟩ "a.log" true = .ok (s, true) ∧
      Lts.execute exec s [⟨⟨true, true, some 4096⟩, .write [1, 2, 3]⟩,
        ⟨⟨true, true, some 4096⟩, .sync⟩, ⟨⟨true, true, some 8192⟩, .truncate 2⟩,
        ⟨⟨true, true, some 4096⟩, .write [4]⟩] = .ok s' ∧
      s'.close.disk "a.log" = some f ∧ f.contents = [1, 2, 4] := by
  obtain ⟨s, s', f, hopen, hrun, hdisk, hcontents, -⟩ :=
    @close_leaves_content (new fun _ => none) ⟨true, true, some 4096⟩ "a.log" true
      [⟨⟨true, true, some 4096⟩, .write [1, 2, 3]⟩, ⟨⟨true, true, some 4096⟩, .sync⟩,
        ⟨⟨true, true, some 8192⟩, .truncate 2⟩, ⟨⟨true, true, some 4096⟩, .write [4]⟩]
      (by decide) ⟨rfl, rfl, rfl⟩ (by simp [Answers.Succeed]) (by decide)
  exact ⟨s, s', f, hopen, hrun, hdisk, hcontents⟩

end OMmapFile

end Hplsp
