import Hplsp.LogWrote

/-! What a line leaves as it was: the files that the logger has not opened. -/

namespace Hplsp

open Outcome

/-- The name that `_MakeFileName` makes. -/
def logName (directory now : String) (pid seq : Nat) : FileName :=
  directory ++ "/" ++ now ++ "@" ++ toString pid ++ "-" ++ toString seq ++ ".log"

theorem eq_of_append_cons {α : Type*} {x : α} {as bs cs ds : List α} (hcs : x ∉ cs) (hds : x ∉ ds)
    (h : as ++ x :: cs = bs ++ x :: ds) : cs = ds := by
  rcases List.append_eq_append_iff.mp h with ⟨es, -, hes⟩ | ⟨es, -, hes⟩
  · cases es with
    | nil => exact (List.cons.inj hes).2
    | cons e es =>
      have hmem : x ∈ cs := by simp [(List.cons.inj hes).2]
      exact absurd hmem hcs
  · cases es with
    | nil => exact (List.cons.inj hes).2.symm
    | cons e es =>
      have hmem : x ∈ ds := by simp [(List.cons.inj hes).2]
      exact absurd hmem hds

theorem dash_notMem_toDigits (n : Nat) : '-' ∉ Nat.toDigits 10 n := by
  intro hmem
  have hdigit := Nat.isDigit_of_mem_toDigits (by decide) (by decide) hmem
  exact absurd hdigit (by decide)

/-- The number stands between the last dash of the name and its end. -/
theorem logName_seq {directory directory' now now' : String} {pid pid' seq seq' : Nat}
    (h : logName directory now pid seq = logName directory' now' pid' seq') : seq = seq' := by
  have hlist := congrArg String.toList h
  simp only [logName, String.toList_append, Nat.toString_eq_repr, Nat.toList_repr] at hlist
  have hcut := List.append_cancel_right hlist
  have hdash : "-".toList = ['-'] := rfl
  rw [hdash, List.append_assoc, List.append_assoc _ ['-']] at hcut
  have hdigits := eq_of_append_cons (dash_notMem_toDigits seq) (dash_notMem_toDigits seq') hcut
  have hnum := congrArg (fun ds => Nat.ofDigitChars 10 ds 0) hdigits
  simpa using hnum

theorem OMmapFile.disk_sync (s : OMmapFile) : s.sync.1.disk = s.disk := by
  rw [sync]
  split
  · rfl
  · split <;> rfl

namespace LogFile

variable {w w' : LogFile} {env : Nat → OpenAnswers} {fuel : Nat} {call : LogCall}
  {files : List Opened} {name : FileName}

theorem nextName_eq : w.nextName env =
    logName w.directory (env w.created.length).now w.pid ((w.seq + 1) % 2 ^ 32) := rfl

/-- What a call leaves as it was: the files that the logger has not opened. There is one number for
each file that it opens. -/
structure Framed (env : Nat → OpenAnswers) (w w' : LogFile) : Prop where
  directory : w'.directory = w.directory
  pid : w'.pid = w.pid
  names : w'.created = w.created ∧ w'.seq = w.seq ∨
    w'.created = w.created ++ [w.nextName env] ∧ w'.seq = (w.seq + 1) % 2 ^ 32
  disk : ∀ name, name ∉ w'.created → w'.file.disk name = w.file.disk name

theorem Wrote.close_disk (h : w.Wrote files) (hname : name ∉ w.created) :
    w.file.close.disk name = w.file.disk name := by
  cases h with
  | none hfile hcreated => simp [OMmapFile.close, hfile]
  | some hready hne =>
    refine hready.holds.close_ne fun heq => hname ?_
    rw [hready.created, heq]
    exact List.mem_append_right _ List.mem_cons_self

/-- Every file that the logger has opened is there. -/
theorem Wrote.disk_ne_none (h : w.Wrote files) (hname : name ∈ w.created) :
    w.file.disk name ≠ Option.none := by
  cases h with
  | none hfile hcreated =>
    rw [hcreated] at hname
    cases hname
  | some hready hne =>
    rw [hready.created] at hname
    rcases List.mem_append.mp hname with hold | hlast
    · obtain ⟨p, hp, rfl⟩ := List.mem_map.mp hold
      obtain ⟨f, hf, -⟩ := hready.stored p hp
      simp [hf]
    · obtain rfl := List.mem_singleton.mp hlast
      obtain ⟨f, hf, -⟩ := hready.holds.disk
      simp [hf]

/-- A name that no file has is new to the logger. -/
theorem Wrote.opensFresh (h : w.Wrote files) (hnone : w.file.disk (w.nextName env) = Option.none) :
    OpensFresh env w call := by
  intro _
  have hname : w.nextName env ∉ w.created := fun hmem => h.disk_ne_none hmem hnone
  rw [OMmapFile.initial, h.close_disk hname, hnone]
  rfl

theorem Wrote.changeFile_framed (h : w.Wrote files) (hans : (env w.created.length).ans.Succeed)
    (hfresh : w.checkChangeFile = true → (w.file.initial (w.nextName env)).len = 0)
    (hok : LogFile.changeFile env (fuel + 2) w = .ok w') : Framed env w w' := by
  rw [LogFile.changeFile] at hok
  split at hok
  · rename_i hcheck
    have hinitial : w.file.close.initial (w.nextName env) = w.file.initial (w.nextName env) := by
      rw [OMmapFile.initial, OMmapFile.initial, OMmapFile.close_close]
    obtain ⟨file, hopen, hholds, hkeeps⟩ := @OMmapFile.holds_openFile w.file.close
      (env w.created.length).ans (w.nextName env) hans true
      (by rw [hinitial, hfresh hcheck]; decide)
    have hlen : file.offset = 0 := by
      rw [hholds.offset, if_pos rfl, hinitial, SparseFile.length_contents, hfresh hcheck]
    have hopened : (w.closeLogFile.makeFileName (env w.created.length).now).openLogFile
        (env w.created.length).ans = .ok ({ w.closeLogFile.makeFileName (env w.created.length).now
          with file := file, created := w.created ++ [w.nextName env] }, true) :=
      bind_eq_ok.mpr ⟨(file, true), hopen, rfl⟩
    simp only [hopened, ok_bind, if_true] at hok
    rw [LogFile.changeFile, if_neg (by
      simp [checkChangeFile, OMmapFile.isOpen, hholds.file, hlen, Word64.add, kDefaultLogSize,
        kMaxCharPerLog, Word64.size])] at hok
    cases hok
    refine ⟨rfl, rfl, .inr ⟨rfl, rfl⟩, fun name hname => ?_⟩
    have hne : name ≠ w.nextName env := fun heq =>
      hname (List.mem_append_right _ (heq ▸ List.mem_cons_self))
    have hold : name ∉ w.created := fun hmem => hname (List.mem_append_left _ hmem)
    calc file.disk name = w.file.close.close.disk name := hkeeps.disk name hne
      _ = w.file.close.disk name := by rw [OMmapFile.close_close]
      _ = w.file.disk name := h.close_disk hold
  · cases hok
    exact ⟨rfl, rfl, .inl ⟨rfl, rfl⟩, fun _ _ => rfl⟩

theorem Wrote.writeLog_framed (h : w.Wrote files) (hdest : w.dest &&& LogDest.logFile ≠ 0)
    (henv : ∀ i, (env i).ans.Succeed) (hans : call.ans.Succeed) (hfresh : OpensFresh env w call)
    (hok : LogFile.writeLog env (fuel + 2) w call = .ok w') : Framed env w w' := by
  rw [LogFile.writeLog] at hok
  split at hok
  · cases hok
  · obtain ⟨w₁, hconsole, hok⟩ := bind_eq_ok.mp hok
    obtain ⟨w₂, closed, name, g, hchange, hdest₁, -, hready, -⟩ :=
      h.prepare hconsole henv hfresh fuel
    obtain ⟨hfile, hcreated, -, hseq, hdir, hpid⟩ := writeConsole_ok hconsole
    have hframed : Framed env w₁ w₂ := by
      refine (h.congr hfile hcreated).changeFile_framed (henv _) ?_ hchange
      simpa [OpensFresh, checkChangeFile, nextName, makeFileName, closeLogFile, hfile, hcreated,
        hseq, hdir, hpid] using hfresh
    rw [writeFile, if_pos (by rw [hdest₁]; exact hdest), hchange, ok_bind] at hok
    split at hok
    · obtain ⟨file, hwrite, hok⟩ := bind_eq_ok.mp hok
      cases hok
      obtain ⟨-, hkeeps⟩ := hready.holds.write_ok hans hwrite
      have hnext : w₁.nextName env = w.nextName env := by
        rw [nextName_eq, nextName_eq, hcreated, hseq, hdir, hpid]
      refine ⟨hframed.directory.trans hdir, hframed.pid.trans hpid, ?_, fun name' hname => ?_⟩
      · rw [← hcreated, ← hseq, ← hnext]
        exact hframed.names
      · have hne : name' ≠ name := by
          rintro rfl
          refine hname ?_
          rw [hready.created]
          exact List.mem_append_right _ List.mem_cons_self
        calc file.disk name' = w₂.file.disk name' := hkeeps.disk name' hne
          _ = w₁.file.disk name' := hframed.disk name' hname
          _ = w.file.disk name' := by rw [hfile]
    · cases hok

end LogFile

end Hplsp
