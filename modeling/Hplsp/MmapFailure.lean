import Hplsp.LogWrote
import Hplsp.MmapTrace

/-! When `mmap` fails: exactly which calls leave an open file without its mapping. -/

namespace Hplsp

open Outcome

variable {ans : Answers} {name : FileName} {data : List UInt8} {size : Nat}

namespace OMmapFile

variable {s s' : OMmapFile}

/-- The `memcpy` of a `Write` is reached with `memory_` at `kInvalidAddr`. -/
def WritesInvalid (s : OMmapFile) (ans : Answers) (data : List UInt8) : Prop :=
  ∃ s', s.assureSpace ans data.length = .ok s' ∧ Word64.add s'.offset data.length ≤ s'.size ∧
    s'.memory = none

/-- Such a `Write` faults. -/
theorem WritesInvalid.write (h : s.WritesInvalid ans data) :
    s.write ans data = .error (.overrun .mapping) := by
  obtain ⟨s', hassure, hspace, hmemory⟩ := h
  rw [OMmapFile.write, hassure, ok_bind, if_pos hspace, copy]
  split
  next m _ hm =>
    rw [hmemory] at hm
    cases hm
  next => rfl

theorem openFile_returns (hopened : ans.opened = true) (htruncated : ans.truncated = true)
    (name : FileName) (bAppend : Bool) :
    ∃ s', s.openFile ans name bAppend = .ok (s', ans.mapped.isSome) := by
  have hdefault : kDefaultSize = 1048576 := rfl
  have hsize : (if bAppend then max kDefaultSize (s.initial name).len else kDefaultSize) ≠ 0 := by
    split <;> omega
  simp only [OMmapFile.openFile, hopened, htruncated, Bool.not_true, Bool.false_eq_true, if_false,
    mapWriteOnly, ← initial.eq_def, hsize, reduceCtorEq, or_self]
  exact ⟨_, rfl⟩

theorem truncate_returns (hfile : s.file = some name) (htruncated : ans.truncated = true)
    (hne : size ≠ s.size) (hpos : size ≠ 0) : ∃ s', s.truncate ans size = .ok s' := by
  simp only [OMmapFile.truncate, if_neg hne, hfile, htruncated, Bool.not_true, Bool.false_eq_true,
    if_false, mapWriteOnly, hpos, reduceCtorEq, or_self, ok_bind]
  exact ⟨_, rfl⟩

end OMmapFile

namespace TracedFile

open OMmapFile (doubleSize)

variable {t t' : TracedFile} {call : MmapCall} {calls : List MmapCall}

/-- `IsOpen()` implies that `memory_` is a live mapping of at least `size_` bytes. -/
def Usable (t : TracedFile) : Prop :=
  t.file.isOpen = true → ∃ m ∈ t.live, t.file.memory = some m ∧ t.file.size ≤ m.length

/-- The call gets to `mmap`. -/
def Maps (t : TracedFile) : MmapOp → Prop
  | .openFile _ _ => True
  | .write data => t.file.file ≠ none ∧ ∃ newSize,
      doubleSize (Word64.add t.file.offset data.length) 128 t.file.size = .ok newSize ∧
        t.file.size < newSize
  | .truncate size => t.file.file ≠ none ∧ size ≠ 0 ∧ size ≠ t.file.size
  | _ => False

/-- If the call gets to `mmap`, then `mmap` succeeds. -/
def MapsSucceed (t : TracedFile) (call : MmapCall) : Prop :=
  t.Maps call.op → call.ans.mapped.isSome = true

/-- An `Open` that returns false leaves the object closed, and no `Write` stores through an
invalid address. -/
def FailsCleanly (t : TracedFile) (call : MmapCall) : Prop :=
  match call.op with
  | .openFile name bAppend => ∀ t', t.openFile call.ans name bAppend = .ok (t', false) →
      t'.file.isOpen = false
  | .write data => ¬ t.file.WritesInvalid call.ans data
  | _ => True

/-- A fresh mapping of the whole file is a live one. -/
theorem usable_of_mapped {base : Nat} {live : List Mapping}
    (hmemory : t.file.memory = some ⟨base, t.file.size⟩)
    (hlive : t.live = live ++ t.file.memory.toList) : t.Usable := by
  intro _
  refine ⟨_, ?_, hmemory, Nat.le_refl _⟩
  rw [hlive, hmemory]
  simp

theorem not_usable (hfile : t.file.file ≠ none) (hmemory : t.file.memory = none) : ¬ t.Usable := by
  intro h
  obtain ⟨m, -, hm, -⟩ := h (by simpa [OMmapFile.isOpen, Option.isSome_iff_ne_none] using hfile)
  rw [hmemory] at hm
  cases hm

theorem mapsSucceed_openFile {bAppend : Bool} (hopened : ans.opened = true)
    (htruncated : ans.truncated = true) : t.MapsSucceed ⟨ans, .openFile name bAppend⟩ ↔
      t.FailsCleanly ⟨ans, .openFile name bAppend⟩ ∧
        ∀ t', t.exec ⟨ans, .openFile name bAppend⟩ = .ok t' → t'.Usable := by
  constructor
  · intro hmaps
    obtain ⟨base, hbase⟩ := Option.isSome_iff_exists.mp (hmaps trivial)
    refine ⟨fun t' hopen => ?_, fun t' hok => ?_⟩
    · obtain ⟨⟨file, opened⟩, hopen', heq⟩ := bind_eq_ok.mp hopen
      obtain ⟨-, -, hopened', -⟩ := OMmapFile.openFile_ok hopen'
      rw [hbase] at hopened'
      obtain ⟨-, rfl⟩ := Prod.mk.inj (Except.ok.inj heq)
      cases hopened'
    · obtain ⟨opened, hopen, hlive, -⟩ := exec_cases hok
      obtain ⟨-, hmemory, -⟩ := OMmapFile.openFile_ok hopen
      rw [hbase] at hmemory
      exact usable_of_mapped hmemory hlive
  · rintro ⟨-, husable⟩ -
    obtain ⟨s', hopen⟩ := t.file.openFile_returns hopened htruncated name bAppend
    obtain ⟨hfile, hmemory, -⟩ := OMmapFile.openFile_ok hopen
    have hok : t.exec ⟨ans, .openFile name bAppend⟩ =
        .ok ⟨s', t.close.live ++ s'.memory.toList, fun _ => false⟩ := by
      simp only [exec, TracedFile.openFile, hopen, ok_bind]
    by_contra hsome
    have hnone : ans.mapped = none := by simpa using hsome
    exact not_usable (by simp [hfile]) (by simpa [hnone] using hmemory) (husable _ hok)

theorem mapsSucceed_truncate (husable : t.Usable) (htruncated : ans.truncated = true) :
    t.MapsSucceed ⟨ans, .truncate size⟩ ↔
      t.FailsCleanly ⟨ans, .truncate size⟩ ∧
        ∀ t', t.exec ⟨ans, .truncate size⟩ = .ok t' → t'.Usable := by
  constructor
  · intro hmaps
    refine ⟨trivial, fun t' hok => ?_⟩
    obtain ⟨htrunc, hlive, -⟩ := exec_cases hok
    rcases OMmapFile.truncate_ok htrunc with ⟨heq, hsame⟩ | ⟨hne, name, hfile, hfile'⟩
    · rw [if_pos heq] at hlive
      rwa [Usable, hsame, hlive]
    · have hpos : size ≠ 0 := by
        rintro rfl
        simp [OMmapFile.truncate, if_neg hne, hfile, htruncated, OMmapFile.mapWriteOnly] at htrunc
      obtain ⟨base, hbase⟩ :=
        Option.isSome_iff_exists.mp (hmaps ⟨by simp [hfile], hpos, hne⟩)
      rw [if_neg hne] at hlive
      have hmemory : t'.file.memory = some ⟨base, t'.file.size⟩ := by
        simp only at hbase
        rw [hfile', hbase]
        rfl
      exact usable_of_mapped hmemory hlive
  · rintro ⟨-, hnext⟩ ⟨hfile, hpos, hne⟩
    obtain ⟨name, hname⟩ := Option.ne_none_iff_exists'.mp hfile
    obtain ⟨s', htrunc⟩ := OMmapFile.truncate_returns hname htruncated hne hpos
    have hok : t.exec ⟨ans, .truncate size⟩ =
        .ok { t with file := s', live := t.live ++ s'.memory.toList } := by
      simp only [exec, TracedFile.truncate, htrunc, ok_bind, if_neg hne]
    by_contra hsome
    have hnone : ans.mapped = none := by simpa using hsome
    rcases OMmapFile.truncate_ok htrunc with ⟨heq, -⟩ | ⟨-, name', -, hs'⟩
    · exact hne heq
    · refine not_usable ?_ ?_ (hnext _ hok) <;> simp [hs', hname, hnone]

/-- A growing `Write` whose `mmap` fails goes on to its `memcpy`. -/
theorem writesInvalid_of_failed (hsound : t.file.Sound) (htruncated : ans.truncated = true)
    (hmaps : t.Maps (.write data)) (hnone : ans.mapped = none) :
    t.file.WritesInvalid ans data := by
  obtain ⟨hfile, newSize, hgrow, hmore⟩ := hmaps
  obtain ⟨name, hname⟩ := Option.ne_none_iff_exists'.mp hfile
  have hle := hsound.offset_le
  obtain ⟨s', htrunc⟩ := OMmapFile.truncate_returns hname htruncated
    (Nat.ne_of_gt hmore) (Nat.ne_of_gt (Nat.lt_of_le_of_lt (Nat.zero_le _) hmore))
  have hneeded : Word64.add t.file.offset data.length ≤ newSize := by
    rcases OMmapFile.doubleSize_cases hgrow with ⟨hle, rfl⟩ | hshort
    · exact hle
    · exact (OMmapFile.doubleSize_ok _ _ _ hgrow hsound.size_lt (.inr (by omega))).1
  rcases OMmapFile.truncate_ok htrunc with ⟨heq, -⟩ | ⟨-, _, -, hs'⟩
  · omega
  · refine ⟨s', ?_, ?_, by simp [hs', hnone]⟩
    · rw [OMmapFile.assureSpace, hgrow, ok_bind, OMmapFile.extendFileSize, if_neg hfile,
        if_pos hmore, htrunc]
    · have hoffset : s'.offset = t.file.offset := by
        rw [hs']
        exact Nat.min_eq_right (by omega)
      have hsize : s'.size = newSize := by rw [hs']
      rw [hoffset, hsize]
      exact hneeded

theorem mapsSucceed_write (hsound : t.file.Sound) (husable : t.Usable)
    (htruncated : ans.truncated = true) : t.MapsSucceed ⟨ans, .write data⟩ ↔
      t.FailsCleanly ⟨ans, .write data⟩ ∧
        ∀ t', t.exec ⟨ans, .write data⟩ = .ok t' → t'.Usable := by
  constructor
  · intro hmaps
    constructor
    · rintro ⟨s', hassure, -, hmemory⟩
      obtain ⟨newSize, hgrow, hextend⟩ := bind_eq_ok.mp hassure
      obtain ⟨hfile, ⟨hmore, htrunc⟩ | ⟨-, rfl⟩⟩ := OMmapFile.extendFileSize_ok hextend
      · obtain ⟨base, hbase⟩ :=
          Option.isSome_iff_exists.mp (hmaps ⟨hfile, newSize, hgrow, hmore⟩)
        rcases OMmapFile.truncate_ok htrunc with ⟨heq, -⟩ | ⟨-, _, -, hs'⟩
        · omega
        · simp only at hbase
          simp [hs', hbase] at hmemory
      · exact not_usable hfile hmemory husable
    · intro t' hok
      obtain ⟨newSize, hgrow, hwrite, hlive, -⟩ := exec_cases hok
      obtain ⟨-, hfile, -, hmapped, -, newSize', hgrow', hfit⟩ := hsound.write hwrite
      obtain rfl := ok_unique hgrow hgrow'
      rcases hfit with ⟨-, rfl, hmemory, hsize⟩ | ⟨-, hgrown, hmemory⟩
      · rw [if_neg (Nat.lt_irrefl _)] at hlive
        rwa [Usable, OMmapFile.isOpen, hfile, hmemory, hsize, hlive]
      · rw [if_pos hgrown] at hlive
        rw [hmemory] at hmapped
        obtain ⟨m, hm⟩ := Option.ne_none_iff_exists'.mp hmapped
        obtain ⟨base, hbase, rfl⟩ := Option.map_eq_some_iff.mp hm
        exact usable_of_mapped (hmemory.trans hm) hlive
  · rintro ⟨hclean, -⟩ hmaps
    by_contra hsome
    have hnone : ans.mapped = none := by simpa using hsome
    exact hclean (writesInvalid_of_failed hsound htruncated hmaps hnone)

theorem mapsSucceed_iff (hsound : t.file.Sound) (husable : t.Usable)
    (hopened : call.ans.opened = true) (htruncated : call.ans.truncated = true) :
    t.MapsSucceed call ↔
      t.FailsCleanly call ∧ ∀ t', t.exec call = .ok t' → t'.Usable := by
  obtain ⟨ans, op⟩ := call
  cases op with
  | openFile name bAppend => exact mapsSucceed_openFile hopened htruncated
  | write data => exact mapsSucceed_write hsound husable htruncated
  | truncate size => exact mapsSucceed_truncate husable htruncated
  | sync =>
    obtain ⟨hfile, hmemory, hsize, -⟩ := t.file.sync_keeps
    refine iff_of_true (fun h => h.elim) ⟨trivial, fun t' hok => ?_⟩
    obtain rfl := exec_cases hok
    show t.file.sync.1.isOpen = true →
      ∃ m ∈ t.live, t.file.sync.1.memory = some m ∧ t.file.sync.1.size ≤ m.length
    rwa [OMmapFile.isOpen, hfile, hmemory, hsize]
  | close =>
    refine iff_of_true (fun h => h.elim) ⟨trivial, fun t' hok => ?_⟩
    obtain rfl := exec_cases hok
    intro hopen
    rw [close_file, OMmapFile.isOpen, hsound.close.2] at hopen
    cases hopen

end TracedFile

namespace LogFile

variable {env : Nat → OpenAnswers} {fuel : Nat} {w w' : LogFile} {call : LogCall}
  {calls : List LogCall}

/-- `_WriteLog` leaves its loop with a file that `IsOpen()`, whose address is invalid when the
line is copied. -/
def WritesInvalid (env : Nat → OpenAnswers) (fuel : Nat) (w : LogFile) (call : LogCall) : Prop :=
  ∃ w₁ w₂, w.writeConsole call.level call.text = .ok w₁ ∧ w₁.dest &&& LogDest.logFile ≠ 0 ∧
    changeFile env fuel w₁ = .ok w₂ ∧ w₂.file.isOpen = true ∧
      w₂.file.WritesInvalid call.ans call.text

/-- An open file has an address. -/
def HasAddress (w : LogFile) : Prop := w.file.file ≠ none → w.file.memory ≠ none

theorem hasAddress_openLogFile {opened : Bool} (hmapped : ans.mapped.isSome = true)
    (hok : w.openLogFile ans = .ok (w', opened)) : w'.HasAddress := by
  obtain ⟨⟨file, opened'⟩, hopen, heq⟩ := bind_eq_ok.mp hok
  cases heq
  obtain ⟨-, hmemory, -⟩ := OMmapFile.openFile_ok hopen
  obtain ⟨base, hbase⟩ := Option.isSome_iff_exists.mp hmapped
  intro _ hnone
  simp only [hmemory, hbase, Option.map_some, reduceCtorEq] at hnone

/-- With every `mmap` succeeding the loop ends with an address. -/
theorem HasAddress.changeFile (henv : ∀ n, (env n).ans.mapped.isSome = true) (h : w.HasAddress)
    (hok : changeFile env fuel w = .ok w') : w'.HasAddress := by
  induction fuel generalizing w with
  | zero => cases hok
  | succ fuel ih =>
    rw [LogFile.changeFile] at hok
    split at hok
    · obtain ⟨⟨w₁, opened⟩, hopen, hok⟩ := bind_eq_ok.mp hok
      have hnext := hasAddress_openLogFile (henv _) hopen
      dsimp only at hok
      split at hok
      · exact ih hnext hok
      · cases hok
        exact hnext
    · cases hok
      exact h

theorem HasAddress.not_writesInvalid (h : w.HasAddress)
    (henv : ∀ n, (env n).ans.mapped.isSome = true) (hans : call.ans.mapped.isSome = true) :
    ¬ w.WritesInvalid env fuel call := by
  rintro ⟨w₁, w₂, hconsole, -, hchange, -, s', hassure, -, hmemory⟩
  have h₁ : w₁.HasAddress := by rwa [HasAddress, (writeConsole_ok hconsole).1]
  have h₂ := h₁.changeFile henv hchange
  obtain ⟨newSize, -, hextend⟩ := bind_eq_ok.mp hassure
  obtain ⟨hfile, ⟨-, htrunc⟩ | ⟨-, rfl⟩⟩ := OMmapFile.extendFileSize_ok hextend
  · rcases OMmapFile.truncate_ok htrunc with ⟨-, rfl⟩ | ⟨-, _, -, rfl⟩
    · exact h₂ hfile hmemory
    · simp only [Option.map_eq_none_iff] at hmemory
      simp [hmemory] at hans
  · exact h₂ hfile hmemory

theorem HasAddress.writeLog (h : w.HasAddress) (hok : w.writeLog env fuel call = .ok w') :
    w'.HasAddress := by
  rw [LogFile.writeLog] at hok
  split at hok
  · cases hok
  · obtain ⟨w₁, hconsole, hok⟩ := bind_eq_ok.mp hok
    have h₁ : w₁.HasAddress := by rwa [HasAddress, (writeConsole_ok hconsole).1]
    rw [writeFile] at hok
    split at hok
    · obtain ⟨w₂, hchange, hok⟩ := bind_eq_ok.mp hok
      split at hok
      · obtain ⟨file, hwrite, heq⟩ := bind_eq_ok.mp hok
        cases heq
        obtain ⟨_, s₁, _, -, -, hcopy, -, rfl⟩ := OMmapFile.write_ok hwrite
        obtain ⟨_, m, _, -, hm, -⟩ := OMmapFile.copy_ok hcopy
        intro _ hnone
        simp only [hm, reduceCtorEq] at hnone
      · cases hok
    · cases hok
      exact h₁

/-- Over runs of a logger. -/
theorem HasAddress.run (h : w.HasAddress) (henv : ∀ n, (env n).ans.mapped.isSome = true)
    (hans : ∀ call ∈ calls, call.ans.mapped.isSome = true) :
    Lts.StepsMeet (LogFile.writeLog env fuel) (fun w call => ¬ w.WritesInvalid env fuel call)
      w calls := by
  induction calls generalizing w with
  | nil => trivial
  | cons call calls ih =>
    refine ⟨h.not_writesInvalid henv (hans call List.mem_cons_self), fun w' hok => ?_⟩
    exact ih (h.writeLog hok) fun call hcall => hans call (List.mem_cons_of_mem _ hcall)

end LogFile

namespace TracedFile

variable {calls : List MmapCall}

/-- Over runs: an open file is usable in every state, every failed `Open` leaves it closed and no
`Write` stores through an invalid address, exactly when every `mmap` that a call gets to succeeds;
and then `_WriteLog` stores through none either. -/
theorem mapping_failure_iff {disk : FileName → Option SparseFile}
    (hdisk : ∀ name f, disk name = some f → f.len < 2 ^ 64)
    (hans : ∀ call ∈ calls, call.ans.opened = true ∧ call.ans.truncated = true)
    (hsizes : ∀ call ∈ calls, SizesFit call) :
    (Lts.StatesMeet exec Usable (new disk) calls ∧
        Lts.StepsMeet exec FailsCleanly (new disk) calls ↔
      Lts.StepsMeet exec MapsSucceed (new disk) calls) ∧
    ∀ dest directory pid seq env fuel, ∀ logCalls : List LogCall,
      (∀ n, (env n).ans.mapped.isSome = true) →
      (∀ call ∈ logCalls, call.ans.mapped.isSome = true) →
        Lts.StepsMeet (LogFile.writeLog env fuel)
          (fun w call => ¬ w.WritesInvalid env fuel call)
          (LogFile.new dest directory pid seq disk) logCalls := by
  constructor
  · refine Lts.statesMeet_and_stepsMeet_iff (I := fun t => t.file.Sound ∧ t.Usable)
      (fun t h => h.2) ?_ ?_ ⟨OMmapFile.sound_new hdisk, fun hopen => by cases hopen⟩
    · intro t t' call hcall ⟨hsound, husable⟩ hok hmaps
      refine ⟨sound_exec hsound (hsizes call hcall) hok, ?_⟩
      exact ((mapsSucceed_iff hsound husable (hans call hcall).1 (hans call hcall).2).mp hmaps).2
        t' hok
    · intro t call hcall ⟨hsound, husable⟩
      exact mapsSucceed_iff hsound husable (hans call hcall).1 (hans call hcall).2
  · intro dest directory pid seq env fuel logCalls henv hcalls
    have hnew : (LogFile.new dest directory pid seq disk).HasAddress :=
      fun hopen => (hopen rfl).elim
    exact hnew.run henv hcalls

/-- Every `mmap` succeeds in this run, so that the file is usable throughout. -/
theorem mapping_failure_iff_mapped : Lts.StatesMeet exec Usable (new fun _ => none)
    [⟨⟨true, true, some 4096⟩, .openFile "a.log" true⟩, ⟨⟨true, true, some 8192⟩, .write [1]⟩] := by
  refine ((mapping_failure_iff (by simp) (by simp) (by simp [SizesFit])).1.mpr ?_).1
  refine Lts.stepsMeet_iff.mpr fun before call after t heq _ _ => ?_
  have hmem : call ∈ ([⟨⟨true, true, some 4096⟩, .openFile "a.log" true⟩,
      ⟨⟨true, true, some 8192⟩, .write [1]⟩] : List MmapCall) := by simp [heq]
  simp only [List.mem_cons, List.not_mem_nil, or_false] at hmem
  rcases hmem with rfl | rfl <;> rfl

/-- An `Open` whose `mmap` fails returns false and leaves the file open: a `Write` stores through
`kInvalidAddr`, and so does a `_WriteLog` that finds the file open. -/
theorem failed_mapping_stays_open :
    (∃ t, (new fun _ => none).openFile ⟨true, true, none⟩ "a.log" false = .ok (t, false) ∧
      t.file.isOpen = true ∧ ¬ t.Usable ∧
      t.exec ⟨⟨true, true, none⟩, .write [1]⟩ = .error (.overrun .mapping)) ∧
    ((LogFile.new LogDest.logFile "." 1 0 fun _ => none).writeLog
      (fun _ => ⟨"now", ⟨true, true, none⟩⟩) 2 ⟨LogLevel.logINFO, [1], ⟨true, true, none⟩⟩ =
        .error (.overrun .mapping)) := by
  obtain ⟨t, hopen, htrue, hfile, hmemory, hwrite⟩ : ∃ t,
      (new fun _ => none).openFile ⟨true, true, none⟩ "a.log" false = .ok (t, false) ∧
        t.file.isOpen = true ∧ t.file.file = some "a.log" ∧ t.file.memory = none ∧
        t.exec ⟨⟨true, true, none⟩, .write [1]⟩ = .error (.overrun .mapping) :=
    ⟨_, rfl, rfl, rfl, rfl, rfl⟩
  exact ⟨⟨t, hopen, htrue, not_usable (by simp [hfile]) hmemory, hwrite⟩, rfl⟩

end TracedFile

end Hplsp
