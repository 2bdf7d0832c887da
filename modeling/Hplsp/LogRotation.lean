import Hplsp.LogFrame

/-! Rotation: a run of lines of one logger. -/

namespace Hplsp

open Outcome

namespace LogFile

variable {w w' : LogFile} {env : Nat → OpenAnswers} {fuel : Nat} {call : LogCall}
  {calls : List LogCall} {files : List Opened}

/-- The files on the disk are those that the logger has opened, with numbers up to its last. -/
structure Alone (w : LogFile) : Prop where
  numbered : ∀ name ∈ w.created, ∃ directory now pid seq,
    seq ≤ w.seq ∧ name = logName directory now pid seq
  disk : ∀ name, name ∉ w.created → w.file.disk name = none

theorem alone_new {dest : UInt32} {directory : String} {pid seq : Nat} :
    (new dest directory pid seq fun _ => none).Alone :=
  ⟨fun _ hname => (by cases hname), fun _ _ => rfl⟩

/-- The next number is new. -/
theorem Alone.disk_nextName (h : w.Alone) (hseq : w.seq + 1 < 2 ^ 32) :
    w.file.disk (w.nextName env) = none := by
  refine h.disk _ fun hmem => ?_
  obtain ⟨directory, now, pid, seq, hle, hname⟩ := h.numbered _ hmem
  have heq := logName_seq (nextName_eq.symm.trans hname)
  omega

theorem Alone.of_framed (h : w.Alone) (hseq : w.seq + 1 < 2 ^ 32) (hframed : Framed env w w') :
    w'.Alone ∧ w'.seq ≤ w.seq + 1 := by
  rcases hframed.names with ⟨hcreated, hnext⟩ | ⟨hcreated, hnext⟩
  · refine ⟨⟨?_, fun name hname => ?_⟩, by omega⟩
    · rw [hcreated, hnext]
      exact h.numbered
    · rw [hframed.disk name hname, h.disk name (hcreated ▸ hname)]
  · rw [Nat.mod_eq_of_lt hseq] at hnext
    refine ⟨⟨fun name hname => ?_, fun name hname => ?_⟩, hnext.le⟩
    · rw [hcreated] at hname
      rw [hnext]
      rcases List.mem_append.mp hname with hold | hlast
      · obtain ⟨directory, now, pid, seq, hle, heq⟩ := h.numbered name hold
        exact ⟨directory, now, pid, seq, Nat.le_succ_of_le hle, heq⟩
      · obtain rfl := List.mem_singleton.mp hlast
        exact ⟨_, _, _, _, (Nat.mod_eq_of_lt hseq).le, nextName_eq⟩
    · rw [hframed.disk name hname]
      exact h.disk name fun hold => hname (hcreated ▸ List.mem_append_left _ hold)

/-- On a disk of its own a logger opens fresh files only, until its number wraps. -/
theorem Alone.opens_fresh (halone : w.Alone) (h : w.Wrote files)
    (hdest : w.dest &&& LogDest.logFile ≠ 0) (henv : ∀ i, (env i).ans.Succeed)
    (hans : ∀ call ∈ calls, call.ans.Succeed) (hseq : w.seq + calls.length < 2 ^ 32) :
    Lts.StepsMeet (LogFile.writeLog env (fuel + 2)) (OpensFresh env) w calls := by
  induction calls generalizing w files with
  | nil => trivial
  | cons call calls ih =>
    rw [List.length_cons] at hseq
    have hnext : w.seq + 1 < 2 ^ 32 := by omega
    have hcall := hans call List.mem_cons_self
    have hfresh : OpensFresh env w call := h.opensFresh (halone.disk_nextName hnext)
    refine ⟨hfresh, fun w₁ hwrite => ?_⟩
    obtain ⟨files₁, h₁, hdest₁, -⟩ := h.writeLog hdest henv hcall hfresh hwrite
    obtain ⟨halone₁, hseq₁⟩ :=
      halone.of_framed hnext (h.writeLog_framed hdest henv hcall hfresh hwrite)
    exact ih halone₁ h₁ (by rw [hdest₁]; exact hdest)
      (fun call' hmem => hans call' (List.mem_cons_of_mem _ hmem)) (by omega)

/-- Lines that are more than one file holds are in two files at least. -/
theorem Opened.one_lt_length {lines : List (List UInt8)} {n : Nat}
    (hlines : (files.map Prod.snd).flatten = lines) (hshort : ∀ p ∈ files, p.2.flatten.length ≤ n)
    (hlong : n < lines.flatten.length) : 1 < files.length := by
  subst hlines
  match files, hshort, hlong with
  | [], _, hlong => simp at hlong
  | [p], hshort, hlong =>
    have hle := hshort p List.mem_cons_self
    simp only [List.map_cons, List.map_nil, List.flatten_cons, List.flatten_nil,
      List.append_nil] at hlong
    omega
  | _ :: _ :: _, _, _ => simp

/-- Lines written by a new logger to fresh files: each lies whole in one file, the files in the
order of their creation hold all of them, only the last may be small, none is too long, and the
rotation loop opens at most one for a line. -/
theorem rotation_keeps_lines {dest : UInt32} {directory : String} {pid seq : Nat}
    {disk : FileName → Option SparseFile} (hdest : dest &&& LogDest.logFile ≠ 0)
    (henv : ∀ i, (env i).ans.Succeed) (hans : ∀ call ∈ calls, call.ans.Succeed)
    (hne : ∀ call ∈ calls, call.text ≠ [])
    (hfresh : Lts.StepsMeet (LogFile.writeLog env (fuel + 2)) (OpensFresh env)
      (new dest directory pid seq disk) calls) :
    (∀ w', Lts.execute (LogFile.writeLog env (fuel + 2)) (new dest directory pid seq disk) calls =
        .ok w' →
      ∃ files : List Opened, w'.created = files.map Prod.fst ∧ w'.created.Nodup ∧
        (files.map Prod.snd).flatten = calls.map LogCall.text ∧
        (∀ p ∈ files, w'.finalContent p.1 = p.2.flatten) ∧
        w'.created.flatMap w'.finalContent = (calls.map LogCall.text).flatten ∧
        (∀ p ∈ files.dropLast, kDefaultLogSize - kMaxCharPerLog < p.2.flatten.length) ∧
        ((∀ call ∈ calls, call.text.length ≤ kMaxCharPerLog) →
          ∀ p ∈ files, p.2.flatten.length ≤ kDefaultLogSize)) ∧
    (∀ before call after w₁ w₂, calls = before ++ call :: after →
      Lts.execute (LogFile.writeLog env (fuel + 2)) (new dest directory pid seq disk) before =
        .ok w₁ → LogFile.writeLog env (fuel + 2) w₁ call = .ok w₂ →
          w₂.created.length ≤ w₁.created.length + 1) ∧
    ((dest &&& LogDest.logConsole = 0 ∨ ∀ call ∈ calls, call.text.length < 2 ^ 31) →
      (∀ call ∈ calls, call.text.length + kDefaultLogSize ≤ 2 ^ 63) →
        ∃ w', Lts.execute (LogFile.writeLog env (fuel + 2)) (new dest directory pid seq disk)
          calls = .ok w') := by
  have hnew : (new dest directory pid seq disk).Wrote [] := .none rfl rfl
  refine ⟨fun w' hrun => ?_, ?_, fun hconsole hlen => ?_⟩
  · obtain ⟨files, hwrote, -, hlines, hshort⟩ := hnew.run hdest henv hans hfresh hrun
    have hcreated := hwrote.stored.1
    have hcontent := fun p hp => (hwrote.finalContent_eq p hp).1
    have hlines' : (files.map Prod.snd).flatten = calls.map LogCall.text := by simpa using hlines
    refine ⟨files, hcreated, hwrote.stored.2.1, hlines', hcontent, ?_, ?_, ?_⟩
    · rw [hcreated, List.flatMap_map, List.flatMap_congr hcontent, ← hlines', List.flatten_flatten,
        List.map_map]
      rfl
    · intro p hp
      have hfull := hwrote.full p hp
      have hmax : kMaxCharPerLog ≤ kDefaultLogSize := by decide
      rw [IsFull] at hfull
      omega
    · intro hsmall
      refine hshort kDefaultLogSize (by decide) (fun call hmem => ?_) fun p hp => by cases hp
      have := hsmall call hmem
      omega
  · rintro before call after w₁ w₂ rfl hbefore hwrite
    obtain ⟨hfresh₁, hfresh₂⟩ := Lts.stepsMeet_append.mp hfresh
    obtain ⟨files, hwrote, hdest₁, -⟩ := hnew.run hdest henv
      (fun call hmem => hans call (List.mem_append_left _ hmem)) hfresh₁ hbefore
    obtain ⟨files', -, -, -, hlen, -⟩ := hwrote.writeLog (by rw [hdest₁]; exact hdest) henv
      (hans call (List.mem_append_right _ List.mem_cons_self)) (hfresh₂ w₁ hbefore).1 hwrite
    exact hlen
  · exact hnew.run_returns hdest henv hans hfresh hne hconsole (fun p hp => by cases hp) hlen

/-- A line as long as `Flush` can make it. -/
def longLine : LogCall :=
  ⟨LogLevel.logINFO, List.replicate kMaxCharPerLog 65, ⟨true, true, some 4096⟩⟩

/-- More than 32 MiB of lines: the logger goes over to a second file. -/
theorem rotation_keeps_lines_rotated : ∃ w', Lts.execute
    (LogFile.writeLog (fun _ => ⟨"[now]", ⟨true, true, some 4096⟩⟩) 2)
      (new LogDest.logFile "." 1 0 fun _ => none) (List.replicate 20000 longLine) = .ok w' ∧
      1 < w'.created.length ∧ w'.created.flatMap w'.finalContent =
        (List.replicate 20000 (List.replicate kMaxCharPerLog 65)).flatten := by
  have hcall : ∀ call ∈ List.replicate 20000 longLine, call = longLine :=
    fun call hmem => List.eq_of_mem_replicate hmem
  have hlen : longLine.text.length = kMaxCharPerLog := List.length_replicate
  have hfresh : Lts.StepsMeet
      (LogFile.writeLog (fun _ => ⟨"[now]", ⟨true, true, some 4096⟩⟩) (0 + 2))
      (OpensFresh fun _ => ⟨"[now]", ⟨true, true, some 4096⟩⟩)
      (new LogDest.logFile "." 1 0 fun _ => none) (List.replicate 20000 longLine) := by
    refine alone_new.opens_fresh (.none rfl rfl) (by decide) (fun _ => ⟨rfl, rfl, rfl⟩) ?_ ?_
    · rintro call hmem
      rw [hcall call hmem]
      exact ⟨rfl, rfl, rfl⟩
    · rw [List.length_replicate]
      decide
  obtain ⟨hruns, -, hreturns⟩ := rotation_keeps_lines (by decide) (fun _ => ⟨rfl, rfl, rfl⟩)
    (fun call hmem => by rw [hcall call hmem]; exact ⟨rfl, rfl, rfl⟩)
    (fun call hmem => List.ne_nil_of_length_pos (by rw [hcall call hmem, hlen]; decide)) hfresh
  obtain ⟨w', hrun⟩ := hreturns (.inl (by decide))
    fun call hmem => by rw [hcall call hmem, hlen]; decide
  obtain ⟨files, hcreated, -, hlines, -, hcontent, -, hshort⟩ := hruns w' hrun
  rw [List.map_replicate] at hlines hcontent
  refine ⟨w', hrun, ?_, hcontent⟩
  rw [hcreated, List.length_map]
  refine Opened.one_lt_length hlines (hshort fun call hmem => by rw [hcall call hmem, hlen]) ?_
  simp only [List.length_flatten, List.map_replicate, List.sum_replicate_nat, hlen]
  decide

end LogFile

end Hplsp
