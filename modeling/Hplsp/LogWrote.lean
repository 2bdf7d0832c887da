import Mathlib.Data.List.Nodup
import Hplsp.LogFile
import Hplsp.Lib.Run

/-! What holds of a logger between two lines: every line lies whole in one file, and the files in
order hold all the lines. -/

namespace Hplsp

open Outcome

namespace LogFile

/-- A file opened by the logger, with the lines written to it. -/
abbrev Opened := FileName × List (List UInt8)

variable {w w' : LogFile} {env : Nat → OpenAnswers} {fuel : Nat} {call : LogCall}
  {calls : List LogCall} {data : List UInt8} {ans : Answers} {name : FileName}
  {closed files : List Opened} {g : List (List UInt8)} {p : Opened}
  {disk disk' : FileName → Option SparseFile}

/-- The name that the next `_MakeFileName` makes. -/
def nextName (w : LogFile) (env : Nat → OpenAnswers) : FileName :=
  (w.closeLogFile.makeFileName (env w.created.length).now).fileName

/-- A file that the call opens is new or empty. -/
def OpensFresh (env : Nat → OpenAnswers) (w : LogFile) (_ : LogCall) : Prop :=
  w.checkChangeFile = true → (w.file.initial (w.nextName env)).len = 0

/-- The file holds its lines and nothing else, and at least one. -/
def IsStored (disk : FileName → Option SparseFile) (p : Opened) : Prop :=
  ∃ f, disk p.1 = some f ∧ f.contents = p.2.flatten ∧ p.2.flatten ≠ []

/-- The worst line would not have fitted in any more. -/
def IsFull (p : Opened) : Prop := kDefaultLogSize < p.2.flatten.length + kMaxCharPerLog

/-- The file `name` is open with the lines `g`, and the ones before it are done. -/
structure Ready (w : LogFile) (closed : List Opened) (name : FileName) (g : List (List UInt8)) :
    Prop where
  created : w.created = closed.map Prod.fst ++ [name]
  nodup : w.created.Nodup
  holds : w.file.Holds name g.flatten
  stored : ∀ p ∈ closed, IsStored w.file.disk p
  full : ∀ p ∈ closed, IsFull p

/-- What holds between two lines. -/
inductive Wrote (w : LogFile) : List Opened → Prop
  | none : w.file.file = none → w.created = [] → Wrote w []
  | some {closed : List Opened} {name : FileName} {g : List (List UInt8)} :
      w.Ready closed name g → g.flatten ≠ [] → Wrote w (closed ++ [(name, g)])

theorem IsStored.of_disk (h : IsStored disk p) (hdisk : disk' p.1 = disk p.1) :
    IsStored disk' p := by
  obtain ⟨f, hf, hrest⟩ := h
  exact ⟨f, hdisk.trans hf, hrest⟩

theorem IsStored.initial_ne (h : IsStored w.file.close.disk p) :
    (w.file.initial p.1).len ≠ 0 := by
  obtain ⟨f, hf, hcontents, hne⟩ := h
  rw [OMmapFile.initial, hf, Option.getD_some, ← SparseFile.length_contents, hcontents]
  exact fun hlen => hne (List.length_eq_zero_iff.mp hlen)

theorem Ready.name_notMem (h : w.Ready closed name g) : ∀ p ∈ closed, p.1 ≠ name := by
  have hnodup := h.nodup
  rw [h.created, List.nodup_append] at hnodup
  exact fun p hp => hnodup.2.2 p.1 (List.mem_map_of_mem hp) name List.mem_cons_self

/-- Closing the last file leaves all of them done. -/
theorem Ready.close (h : w.Ready closed name g) (hne : g.flatten ≠ []) :
    ∀ p ∈ closed ++ [(name, g)], IsStored w.file.close.disk p := by
  intro p hp
  rcases List.mem_append.mp hp with hold | hnew
  · exact (h.stored p hold).of_disk (h.holds.close_ne (h.name_notMem p hold))
  · obtain rfl := List.mem_singleton.mp hnew
    obtain ⟨f, hf, hcontents⟩ := h.holds.close
    exact ⟨f, hf, hcontents, hne⟩

theorem Wrote.stored (h : w.Wrote files) : w.created = files.map Prod.fst ∧ w.created.Nodup ∧
    ∀ p ∈ files, IsStored w.file.close.disk p := by
  cases h with
  | none hfile hcreated => simp [hcreated]
  | some hready hne => exact ⟨by rw [hready.created]; simp, hready.nodup, hready.close hne⟩

/-- A rotation: the last file is left, and the next one is open and empty. -/
theorem Wrote.openNext (h : w.Wrote files) (hfull : ∀ p ∈ files, IsFull p)
    (hans : (env w.created.length).ans.Succeed)
    (hfresh : (w.file.initial (w.nextName env)).len = 0) :
    ∃ w', (w.closeLogFile.makeFileName (env w.created.length).now).openLogFile
        (env w.created.length).ans = .ok (w', true) ∧
      w'.Ready files (w.nextName env) [] ∧ w'.created.length = w.created.length + 1 ∧
      w'.dest = w.dest := by
  obtain ⟨hcreated, hnodup, hstored⟩ := h.stored
  have hinitial : w.file.close.initial (w.nextName env) = w.file.initial (w.nextName env) := by
    rw [OMmapFile.initial, OMmapFile.initial, OMmapFile.close_close]
  have hempty : (w.file.initial (w.nextName env)).contents = [] :=
    List.length_eq_zero_iff.mp (SparseFile.length_contents.trans hfresh)
  obtain ⟨file, hopen, hholds, hkeeps⟩ := @OMmapFile.holds_openFile w.file.close
    (env w.created.length).ans (w.nextName env) hans true (by rw [hinitial, hfresh]; decide)
  rw [if_pos rfl, hinitial, hempty] at hholds
  rw [OMmapFile.close_close] at hkeeps
  have hnew : ∀ p ∈ files, p.1 ≠ w.nextName env := by
    intro p hp heq
    exact (hstored p hp).initial_ne (heq ▸ hfresh)
  refine ⟨{ w.closeLogFile.makeFileName (env w.created.length).now with
    file := file, created := w.created ++ [w.nextName env] }, ?_, ?_, ?_, rfl⟩
  · refine bind_eq_ok.mpr ⟨(file, true), hopen, rfl⟩
  · refine ⟨by rw [hcreated], ?_, hholds, ?_, hfull⟩
    · refine List.nodup_append.mpr ⟨hnodup, List.nodup_singleton _, ?_⟩
      intro name hname name' hname' heq
      rw [hcreated] at hname
      obtain ⟨p, hp, rfl⟩ := List.mem_map.mp hname
      exact hnew p hp (heq.trans (List.mem_singleton.mp hname'))
    · exact fun p hp => (hstored p hp).of_disk (hkeeps.disk p.1 (hnew p hp))
  · simp

/-- The loop runs its body once if the current file is full for the worst line, else not at all. -/
theorem Wrote.changeFile (h : w.Wrote files) (hans : (env w.created.length).ans.Succeed)
    (hfresh : w.checkChangeFile = true → (w.file.initial (w.nextName env)).len = 0) (fuel : Nat) :
    ∃ w' closed name g, changeFile env (fuel + 2) w = .ok w' ∧ w'.Ready closed name g ∧
      (closed ++ [(name, g)] = files ∨ closed = files ∧ g = []) ∧
      w'.created.length ≤ w.created.length + 1 ∧ w'.dest = w.dest ∧
      w'.checkChangeFile = false := by
  cases hcheck : w.checkChangeFile with
  | true =>
    have hfull : ∀ p ∈ files, IsFull p := by
      intro p hp
      cases h with
      | none => cases hp
      | @some closed name g hready hne =>
        rcases List.mem_append.mp hp with hold | hlast
        · exact hready.full p hold
        · obtain rfl := List.mem_singleton.mp hlast
          have hwrap : Word64.add w.file.offset kMaxCharPerLog ≤ w.file.offset + kMaxCharPerLog :=
            Nat.mod_le _ _
          simp only [checkChangeFile, OMmapFile.isOpen, hready.holds.file, Option.isSome_some,
            Bool.not_true, Bool.false_eq_true, if_false, decide_eq_true_eq] at hcheck
          rw [hready.holds.offset] at hcheck hwrap
          exact Nat.lt_of_lt_of_le hcheck hwrap
    obtain ⟨w', hopen, hready, hlen, hdest⟩ := h.openNext hfull hans (hfresh hcheck)
    have hempty : w'.checkChangeFile = false := by
      simp [checkChangeFile, OMmapFile.isOpen, hready.holds.file, hready.holds.offset, Word64.add,
        kDefaultLogSize, kMaxCharPerLog, Word64.size]
    refine ⟨w', files, w.nextName env, [], ?_, hready, .inr ⟨rfl, rfl⟩, by omega, hdest, hempty⟩
    rw [LogFile.changeFile, if_pos hcheck]
    simp only [hopen, ok_bind, if_true]
    rw [LogFile.changeFile, hempty]
    simp
  | false =>
    cases h with
    | none hfile hcreated => simp [checkChangeFile, OMmapFile.isOpen, hfile] at hcheck
    | @some closed name g hready hne =>
      refine ⟨w, closed, name, g, ?_, hready, .inl rfl, by omega, rfl, hcheck⟩
      rw [LogFile.changeFile, hcheck]
      simp

/-- A line goes whole to the end of the open file. -/
theorem Ready.write (h : w.Ready closed name g) (hans : ans.Succeed) (hne : data ≠ [])
    {file : OMmapFile} (hok : w.file.write ans data = .ok file) :
    ({ w with file := file } : LogFile).Ready closed name (g ++ [data]) ∧
      (g ++ [data]).flatten ≠ [] := by
  obtain ⟨hholds, hkeeps⟩ := h.holds.write_ok hans hok
  have hflatten : (g ++ [data]).flatten = g.flatten ++ data := by simp
  refine ⟨⟨h.created, h.nodup, by rw [hflatten]; exact hholds, ?_, h.full⟩, by simp [hne]⟩
  exact fun p hp => (h.stored p hp).of_disk (hkeeps.disk p.1 (h.name_notMem p hp))

theorem writeConsole_ok {level : UInt32} (hok : w.writeConsole level data = .ok w') :
    w'.file = w.file ∧ w'.created = w.created ∧ w'.dest = w.dest ∧ w'.seq = w.seq ∧
      w'.directory = w.directory ∧ w'.pid = w.pid := by
  rw [writeConsole] at hok
  split at hok
  · obtain ⟨text, -, hok⟩ := bind_eq_ok.mp hok
    cases hok
    exact ⟨rfl, rfl, rfl, rfl, rfl, rfl⟩
  · cases hok
    exact ⟨rfl, rfl, rfl, rfl, rfl, rfl⟩

theorem Wrote.congr (h : w.Wrote files) (hfile : w'.file = w.file)
    (hcreated : w'.created = w.created) : w'.Wrote files := by
  cases h with
  | none hf hc => exact .none (by rw [hfile]; exact hf) (by rw [hcreated]; exact hc)
  | some hready hne =>
    refine .some ⟨?_, ?_, ?_, ?_, hready.full⟩ hne
    · rw [hcreated]
      exact hready.created
    · rw [hcreated]
      exact hready.nodup
    · rw [hfile]
      exact hready.holds
    · rw [hfile]
      exact hready.stored

/-- No file is longer than `n`. -/
def Short (n : Nat) (files : List Opened) : Prop := ∀ p ∈ files, p.2.flatten.length ≤ n

/-- After the test the worst line fits in. -/
theorem Ready.length_add_le (h : w.Ready closed name g) (hcheck : w.checkChangeFile = false)
    {n : Nat} (hn : n + kMaxCharPerLog < 2 ^ 64) (hshort : g.flatten.length ≤ n) :
    g.flatten.length + kMaxCharPerLog ≤ kDefaultLogSize := by
  simp only [checkChangeFile, OMmapFile.isOpen, h.holds.file, Option.isSome_some, Bool.not_true,
    Bool.false_eq_true, if_false, decide_eq_false_iff_not, h.holds.offset] at hcheck
  rw [Word64.add_of_lt (by omega)] at hcheck
  omega

theorem writeConsole_returns {level : UInt32}
    (h : w.dest &&& LogDest.logConsole = 0 ∨ data.length < 2 ^ 31) :
    ∃ w', w.writeConsole level data = .ok w' := by
  rw [writeConsole]
  split
  · rename_i hconsole
    have hlen := h.resolve_left hconsole
    have hprint : printData data = .ok ((data.take (data.length % 2 ^ 32)).takeWhile (· ≠ 0)) :=
      if_pos (by omega)
    exact ⟨_, bind_eq_ok.mpr ⟨_, hprint, rfl⟩⟩
  · exact ⟨w, rfl⟩

/-- Console and rotation: the file that the line goes to is open, with room for the worst line. -/
theorem Wrote.prepare (h : w.Wrote files) {w₁ : LogFile} {level : UInt32}
    (hconsole : w.writeConsole level data = .ok w₁) (henv : ∀ i, (env i).ans.Succeed)
    (hfresh : OpensFresh env w call) (fuel : Nat) :
    ∃ w₂ closed name g, LogFile.changeFile env (fuel + 2) w₁ = .ok w₂ ∧ w₁.dest = w.dest ∧
      w₂.dest = w.dest ∧ w₂.Ready closed name g ∧
      (closed ++ [(name, g)] = files ∨ closed = files ∧ g = []) ∧
      w₂.created.length ≤ w.created.length + 1 ∧
      ∀ n, n + kMaxCharPerLog < 2 ^ 64 → Short n files →
        Short n closed ∧ g.flatten.length + kMaxCharPerLog ≤ kDefaultLogSize := by
  obtain ⟨hfile, hcreated, hdest, hseq, hdir, hpid⟩ := writeConsole_ok hconsole
  have hfresh₁ : w₁.checkChangeFile = true → (w₁.file.initial (w₁.nextName env)).len = 0 := by
    simpa [OpensFresh, checkChangeFile, nextName, makeFileName, closeLogFile, hfile, hcreated,
      hseq, hdir, hpid] using hfresh
  obtain ⟨w₂, closed, name, g, hchange, hready, hfiles, hlen, hdest₂, hcheck⟩ :=
    (h.congr hfile hcreated).changeFile (henv _) hfresh₁ fuel
  refine ⟨w₂, closed, name, g, hchange, hdest, hdest₂.trans hdest, hready, hfiles,
    by rw [← hcreated]; exact hlen, ?_⟩
  intro n hn hshort
  have hsplit : Short n closed ∧ g.flatten.length ≤ n := by
    rcases hfiles with rfl | ⟨rfl, rfl⟩
    · exact ⟨fun p hp => hshort p (List.mem_append_left _ hp),
        hshort (name, g) (List.mem_append_right _ List.mem_cons_self)⟩
    · exact ⟨hshort, Nat.zero_le _⟩
  exact ⟨hsplit.1, hready.length_add_le hcheck hn hsplit.2⟩

/-- One line: it is in the files, whole, and at most one file was opened for it. -/
theorem Wrote.writeLog (h : w.Wrote files) (hdest : w.dest &&& LogDest.logFile ≠ 0)
    (henv : ∀ i, (env i).ans.Succeed) (hans : call.ans.Succeed) (hfresh : OpensFresh env w call)
    (hok : writeLog env (fuel + 2) w call = .ok w') :
    ∃ files', w'.Wrote files' ∧ w'.dest = w.dest ∧
      (files'.map Prod.snd).flatten = (files.map Prod.snd).flatten ++ [call.text] ∧
      w'.created.length ≤ w.created.length + 1 ∧
      ∀ n, n + kMaxCharPerLog < 2 ^ 64 →
        kDefaultLogSize + call.text.length ≤ n + kMaxCharPerLog → Short n files →
          Short n files' := by
  rw [LogFile.writeLog] at hok
  split at hok
  · cases hok
  · rename_i hne
    obtain ⟨w₁, hconsole, hok⟩ := bind_eq_ok.mp hok
    obtain ⟨w₂, closed, name, g, hchange, hdest₁, hdest₂, hready, hfiles, hlen, hroom⟩ :=
      h.prepare hconsole henv hfresh fuel
    rw [writeFile, if_pos (by rw [hdest₁]; exact hdest), hchange, ok_bind] at hok
    split at hok
    · obtain ⟨file, hwrite, hok⟩ := bind_eq_ok.mp hok
      cases hok
      obtain ⟨hready', hne'⟩ := hready.write hans (by simpa using hne) hwrite
      refine ⟨closed ++ [(name, g ++ [call.text])], .some hready' hne', hdest₂, ?_, hlen, ?_⟩
      · rcases hfiles with rfl | ⟨rfl, rfl⟩ <;> simp
      · intro n hn hle hshort p hp
        obtain ⟨hclosed, hspace⟩ := hroom n hn hshort
        rcases List.mem_append.mp hp with hold | hnew
        · exact hclosed p hold
        · obtain rfl := List.mem_singleton.mp hnew
          simp only [List.flatten_append, List.flatten_cons, List.flatten_nil, List.append_nil,
            List.length_append]
          omega
    · cases hok

/-- A line that the console can print and the system can store is written. -/
theorem Wrote.writeLog_returns (h : w.Wrote files) (hdest : w.dest &&& LogDest.logFile ≠ 0)
    (henv : ∀ i, (env i).ans.Succeed) (hans : call.ans.Succeed) (hfresh : OpensFresh env w call)
    (hne : call.text ≠ [])
    (hconsole : w.dest &&& LogDest.logConsole = 0 ∨ call.text.length < 2 ^ 31)
    (hshort : Short (2 ^ 63) files) (hlen : call.text.length + kDefaultLogSize ≤ 2 ^ 63) :
    ∃ w', LogFile.writeLog env (fuel + 2) w call = .ok w' := by
  obtain ⟨w₁, hprint⟩ := @writeConsole_returns w call.text call.level hconsole
  obtain ⟨w₂, closed, name, g, hchange, hdest₁, -, hready, -, -, hroom⟩ :=
    h.prepare hprint henv hfresh fuel
  have hspace := (hroom (2 ^ 63) (by decide) hshort).2
  have hfits : g.flatten.length + call.text.length ≤ 2 ^ 63 := by omega
  obtain ⟨file, hwrite, -⟩ := hready.holds.write hans hfits
  refine ⟨{ w₂ with file := file }, ?_⟩
  rw [LogFile.writeLog, if_neg (by simpa using hne), hprint, ok_bind, writeFile,
    if_pos (by rw [hdest₁]; exact hdest), hchange, ok_bind, if_pos (by
      rw [OMmapFile.isOpen, hready.holds.file]; rfl), hwrite, ok_bind]

/-- A run of lines, from any state between two lines. -/
theorem Wrote.run (h : w.Wrote files) (hdest : w.dest &&& LogDest.logFile ≠ 0)
    (henv : ∀ i, (env i).ans.Succeed) (hans : ∀ call ∈ calls, call.ans.Succeed)
    (hfresh : Lts.StepsMeet (LogFile.writeLog env (fuel + 2)) (OpensFresh env) w calls)
    (hrun : Lts.execute (LogFile.writeLog env (fuel + 2)) w calls = .ok w') :
    ∃ files', w'.Wrote files' ∧ w'.dest = w.dest ∧
      (files'.map Prod.snd).flatten = (files.map Prod.snd).flatten ++ calls.map LogCall.text ∧
      ∀ n, n + kMaxCharPerLog < 2 ^ 64 →
        (∀ call ∈ calls, kDefaultLogSize + call.text.length ≤ n + kMaxCharPerLog) →
          Short n files → Short n files' := by
  induction calls generalizing w files with
  | nil =>
    cases hrun
    exact ⟨files, h, rfl, by simp, fun _ _ _ hshort => hshort⟩
  | cons call calls ih =>
    cases hwrite : LogFile.writeLog env (fuel + 2) w call with
    | error e => simp [Lts.execute, hwrite] at hrun
    | ok w₁ =>
      obtain ⟨files₁, h₁, hdest₁, hlines₁, -, hshort₁⟩ :=
        h.writeLog hdest henv (hans call List.mem_cons_self) hfresh.1 hwrite
      simp only [Lts.execute, hwrite] at hrun
      obtain ⟨files', h', hdest', hlines, hshort⟩ := ih h₁ (by rw [hdest₁]; exact hdest)
        (fun call' hmem => hans call' (List.mem_cons_of_mem _ hmem)) (hfresh.2 w₁ hwrite) hrun
      refine ⟨files', h', hdest'.trans hdest₁, ?_, ?_⟩
      · rw [hlines, hlines₁]
        simp
      · intro n hn hle hold
        exact hshort n hn (fun call' hmem => hle call' (List.mem_cons_of_mem _ hmem))
          (hshort₁ n hn (hle call List.mem_cons_self) hold)

theorem Wrote.run_returns (h : w.Wrote files) (hdest : w.dest &&& LogDest.logFile ≠ 0)
    (henv : ∀ i, (env i).ans.Succeed) (hans : ∀ call ∈ calls, call.ans.Succeed)
    (hfresh : Lts.StepsMeet (LogFile.writeLog env (fuel + 2)) (OpensFresh env) w calls)
    (hne : ∀ call ∈ calls, call.text ≠ [])
    (hconsole : w.dest &&& LogDest.logConsole = 0 ∨ ∀ call ∈ calls, call.text.length < 2 ^ 31)
    (hshort : Short (2 ^ 63) files)
    (hlen : ∀ call ∈ calls, call.text.length + kDefaultLogSize ≤ 2 ^ 63) :
    ∃ w', Lts.execute (LogFile.writeLog env (fuel + 2)) w calls = .ok w' := by
  induction calls generalizing w files with
  | nil => exact ⟨w, rfl⟩
  | cons call calls ih =>
    have hans₁ := hans call List.mem_cons_self
    have hlen₁ := hlen call List.mem_cons_self
    obtain ⟨w₁, hwrite⟩ := h.writeLog_returns hdest henv hans₁ hfresh.1
      (hne call List.mem_cons_self)
      (hconsole.imp_right fun hsmall => hsmall call List.mem_cons_self) hshort hlen₁
    obtain ⟨files₁, h₁, hdest₁, -, -, hshort₁⟩ := h.writeLog hdest henv hans₁ hfresh.1 hwrite
    obtain ⟨w', hrun⟩ := ih h₁ (by rw [hdest₁]; exact hdest)
      (fun call' hmem => hans call' (List.mem_cons_of_mem _ hmem)) (hfresh.2 w₁ hwrite)
      (fun call' hmem => hne call' (List.mem_cons_of_mem _ hmem))
      (by
        rw [hdest₁]
        exact hconsole.imp_right fun hsmall call' hmem =>
          hsmall call' (List.mem_cons_of_mem _ hmem))
      (hshort₁ (2 ^ 63) (by decide) (by omega) hshort)
      (fun call' hmem => hlen call' (List.mem_cons_of_mem _ hmem))
    refine ⟨w', ?_⟩
    simp only [Lts.execute, hwrite]
    exact hrun

theorem Wrote.finalContent_eq (h : w.Wrote files) : ∀ p ∈ files,
    w.finalContent p.1 = p.2.flatten ∧ p.2.flatten ≠ [] := by
  intro p hp
  obtain ⟨f, hf, hcontents, hne⟩ := h.stored.2.2 p hp
  rw [finalContent, hf]
  exact ⟨hcontents, hne⟩

theorem Wrote.full (h : w.Wrote files) : ∀ p ∈ files.dropLast, IsFull p := by
  cases h with
  | none => intro p hp; cases hp
  | some hready hne =>
    rw [List.dropLast_concat]
    exact hready.full

end LogFile

end Hplsp
