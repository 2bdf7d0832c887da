import Hplsp.LoggerSafety
import Hplsp.LogStore
import Hplsp.Shutdown

/-! The loggers of a process with the files that the I/O thread writes for them. -/

namespace Hplsp

open Outcome

deriving instance DecidableEq for UpdatePc

namespace Logger

variable {Tid : Type} [LinearOrder Tid] {s s' : Logger Tid} {act : Act Tid} {t : Tid} {r : Record}
  {a : Addr} {e : Entry}

theorem written_lockFlush {fresh : Addr} : (s.lockFlush t r fresh).written = s.written := by
  rw [lockFlush]
  split
  · rfl
  · split
    · split
      · split <;> rfl
      · rfl
    · rfl

theorem written_push {bytes : List UInt8} {next : FlushPc} :
    (s.push t a bytes next).written = s.written := by
  rw [push]
  split
  · rfl
  · split <;> rfl

theorem written_release : (s.release t r a).written = s.written := by
  rw [release]
  split <;> rfl

omit [LinearOrder Tid] in
theorem written_roundUpdate {todo : Bool} {done rest : List Addr} {nOffset : Nat} :
    ∃ new, (s.roundUpdate todo done a rest nOffset).written = s.written ++ new ∧
      new.length ≤ 1 := by
  rw [roundUpdate]
  split
  · exact ⟨[], (List.append_nil _).symm, Nat.zero_le _⟩
  · split
    · exact ⟨[], (List.append_nil _).symm, Nat.zero_le _⟩
    · split
      · exact ⟨[], (List.append_nil _).symm, Nat.zero_le _⟩
      · exact ⟨_, rfl, le_rfl⟩
    · split <;> exact ⟨[], (List.append_nil _).symm, Nat.zero_le _⟩

/-- Only a round of `_Log` calls `_WriteLog`, and it does so once. -/
theorem Step.written (h : Step s act s') : ∃ new, s'.written = s.written ++ new ∧
    new.length ≤ 1 ∧ (act ≠ .roundUpdate → new = []) := by
  have hsame : s'.written = s.written → ∃ new, s'.written = s.written ++ new ∧
      new.length ≤ 1 ∧ (act ≠ .roundUpdate → new = []) := by
    intro heq
    exact ⟨[], by rw [heq, List.append_nil], Nat.zero_le _, fun _ => rfl⟩
  cases h with
  | lockFlush => exact hsame written_lockFlush
  | pushLevel => exact hsame written_push
  | pushLength => exact hsame written_push
  | pushText => exact hsame written_push
  | release => exact hsame written_release
  | roundUpdate =>
    exact written_roundUpdate.imp fun new hnew => ⟨hnew.1, hnew.2, fun hne => absurd rfl hne⟩
  | _ => exact hsame rfl

/-- A line that `_WriteLog` takes. -/
def Writable (e : Entry) : Prop := e.2 ≠ [] ∧ e.2.length ≤ kMaxCharPerLog

/-- Every line that a thread has brought is writable. -/
def Fit (s : Logger Tid) : Prop := ∀ t, ∀ e ∈ s.submittedTo t, Writable e

theorem Fit.step (h : s.Fit) (hstep : Step s act s')
    (hact : ∀ t, ∀ r ∈ act.submitted t, r.text.length ≤ kMaxCharPerLog) : s'.Fit := by
  intro t e he
  rw [submittedTo_step hstep] at he
  rcases List.mem_append.mp he with hold | hnew
  · exact h t e hold
  · obtain ⟨r, hr, rfl⟩ := List.mem_map.mp hnew
    exact ⟨r.text_ne, hact t r hr⟩

theorem Inv.writable (h : s.Inv) (hfit : s.Fit) (hmem : (t, e) ∈ s.written) : Writable e := by
  refine hfit t e ?_
  have hof : e ∈ Tagged.of t s.written :=
    List.mem_map.mpr ⟨(t, e), List.mem_filter.mpr ⟨hmem, by simp⟩, rfl⟩
  have hall : e ∈ Tagged.of t s.flushed ++ (s.pc t).pending.map Record.entry := by
    rw [← h.history t]
    simp [hof]
  rcases List.mem_append.mp hall with hflushed | hpending
  · exact List.mem_append_left _ hflushed
  · refine List.mem_append_right _ ?_
    obtain ⟨r, hr, rfl⟩ := List.mem_map.mp hpending
    refine List.mem_map.mpr ⟨r, ?_, rfl⟩
    cases hpc : s.pc t with
    | release r' a =>
      rw [hpc] at hr
      exact hr
    | _ => simp [hpc, FlushPc.pending] at hr

end Logger

namespace System

variable {Tid : Type} [LinearOrder Tid] {s t : System Tid} {act : Act Tid} {l : LoggerId}
  {lg lg' : Logger Tid}

/-- The calls of `_WriteLog` of a logger, with levels and texts. -/
def entries (s : System Tid) (l : LoggerId) : List Entry :=
  match s.loggers l with
  | some lg => lg.written.map Prod.snd
  | none => []

/-- `Flush` makes lines of at most `kMaxCharPerLog` bytes. -/
def ShortLine : Act Tid → Prop
  | .producer _ (.flush _ r) => r.text.length ≤ kMaxCharPerLog
  | _ => True

instance : ∀ act : Act Tid, Decidable (ShortLine act)
  | .producer _ (.flush _ r) => inferInstanceAs (Decidable (r.text.length ≤ kMaxCharPerLog))
  | .producer _ (.skip _) | .producer _ (.lockFlush _ _) | .producer _ (.push _) => isTrue trivial
  | .producer _ (.release _) | .producer _ (.addBusyLog _) => isTrue trivial
  | .producer _ .lockUpdate | .producer _ .roundUpdate => isTrue trivial
  | .producer _ (.returnUpdate _) | .producer _ .shutdown | .addBusyLog _ _ => isTrue trivial
  | .start | .createLog _ _ | .runLock | .runCollect | .update _ | .updated _ => isTrue trivial
  | .drainLock | .drainEnd | .stopFlag | .stopLock | .stopShutdown => isTrue trivial
  | .stopUnlock | .stopJoin => isTrue trivial

/-- What holds of every logger. -/
def Sound (s : System Tid) : Prop := ∀ l lg, s.loggers l = some lg → lg.Inv ∧ lg.Fit

theorem sound_step (h : s.Sound) (hact : ShortLine act) (hstep : Step s act t) : t.Sound := by
  have hset : ∀ {l lg lg' act'}, s.loggers l = some lg → Logger.Step lg act' lg' →
      (∀ t, ∀ r ∈ Logger.Act.submitted t act', r.text.length ≤ kMaxCharPerLog) →
        (s.setLogger l lg').Sound := by
    intro l lg lg' act' hlg hstep hsub
    obtain ⟨hinv, hfit⟩ := h l lg hlg
    exact s.setLogger_all h ⟨Logger.inv_step hstep hinv, hfit.step hstep hsub⟩
  cases hstep with
  | createLog =>
    rw [createLog]
    split
    · exact h
    · exact s.setLogger_all h ⟨Logger.inv_init _, fun t e he => by cases he⟩
  | @producer l lg lg' act' halive hlg hproduces hstep =>
    refine hset hlg hstep fun t r hr => ?_
    cases act' with
    | flush t' r' =>
      rw [Logger.Act.submitted] at hr
      split at hr
      · obtain rfl := List.mem_singleton.mp hr
        exact hact
      · cases hr
    | _ => cases hr
  | addBusyLog halive hlg hstep => exact hset hlg hstep fun _ _ hr => by cases hr
  | @update l lg lg' act' halive hup hlg hupdates hstep =>
    refine hset hlg hstep fun t r hr => ?_
    cases act' <;> first | cases hr | cases hupdates
  | updated halive hup hlg hstep => exact hset hlg hstep fun _ _ hr => by cases hr
  | stopShutdown halive hstop hlg hstep => exact hset hlg hstep fun _ _ hr => by cases hr
  | _ => exact h

omit [LinearOrder Tid] in
theorem entries_eq (hlg : s.loggers l = some lg) : s.entries l = lg.written.map Prod.snd := by
  rw [entries, hlg]

omit [LinearOrder Tid] in
theorem entries_setLogger_ne {l' : LoggerId} (hne : l' ≠ l) :
    (s.setLogger l lg).entries l' = s.entries l' := by
  rw [entries, setLogger_ne hne, entries]

omit [LinearOrder Tid] in
theorem entries_createLog {level : UInt32} (hnone : s.loggers l = none) (l' : LoggerId) :
    (s.createLog l level).entries l' = s.entries l' := by
  rw [createLog]
  split
  · rfl
  · by_cases hl : l' = l
    · subst hl
      have hnew : (s.setLogger l' (Logger.init level)).entries l' = [] := entries_eq setLogger_self
      have hold : s.entries l' = [] := by rw [entries, hnone]
      exact hnew.trans hold.symm
    · exact entries_setLogger_ne hl

/-- A step of one logger adds to its calls what it adds to `written`. -/
theorem entries_setLogger (hlg : s.loggers l = some lg) {act : Logger.Act Tid}
    (hstep : Logger.Step lg act lg') : ∃ new, new.length ≤ 1 ∧
      (s.setLogger l lg').entries l = s.entries l ++ new ∧ (act ≠ .roundUpdate → new = []) := by
  obtain ⟨new, hnew, hlen, hother⟩ := hstep.written
  refine ⟨new.map Prod.snd, by simpa using hlen, ?_, fun hne => by rw [hother hne]; rfl⟩
  rw [entries_eq setLogger_self, entries_eq hlg, hnew, List.map_append]

theorem entries_quiet (hlg : s.loggers l = some lg) {act : Logger.Act Tid}
    (hstep : Logger.Step lg act lg') (hact : act ≠ .roundUpdate) (l' : LoggerId) :
    (s.setLogger l lg').entries l' = s.entries l' := by
  by_cases hl : l' = l
  · subst hl
    obtain ⟨new, -, hnew, hnone⟩ := entries_setLogger hlg hstep
    rw [hnew, hnone hact, List.append_nil]
  · exact entries_setLogger_ne hl

end System

/-- The loggers and their threads, with the files of all of them. -/
structure LogSystem (Tid : Type) where
  system : System Tid
  store : LogStore LoggerId

namespace LogSystem

open LogFile

variable {Tid : Type} [LinearOrder Tid] {s s' : LogSystem Tid} {u t : System Tid}
  {act : System.Act Tid} {acts : List (System.Act Tid × Answers)} {ans : Answers}
  {env : LoggerId → Nat → OpenAnswers} {fuel : Nat} {files : LoggerId → List Opened}
  {l : LoggerId}

def init (dest : LoggerId → UInt32) (directory : LoggerId → String) (pid : Nat)
    (disk : FileName → Option SparseFile) : LogSystem Tid :=
  ⟨System.init, .init dest directory pid disk⟩

/-- What a step does to the file of the logger that `Update` is on: a round of `_Log` passes a line
to `_WriteLog`, with the system's answers `ans`, and at the end there is a `Sync`. -/
def fileOps (u t : System Tid) (ans : Answers) : System.Act Tid → List (LoggerId × LogOp)
  | .update .roundUpdate =>
    match u.manager.updating with
    | some l =>
      ((t.entries l).drop (u.entries l).length).map fun e => (l, .writeLog ⟨e.1, e.2, ans⟩)
    | none => []
  | .updated _ =>
    match u.manager.updating with
    | some l => [(l, .sync)]
    | none => []
  | _ => []

/-- A step of the system, with what it does to the files. -/
inductive Step (env : LoggerId → Nat → OpenAnswers) (fuel : Nat) :
    LogSystem Tid → System.Act Tid × Answers → LogSystem Tid → Prop
  | step {s act ans t store} : System.Step s.system act t →
      Lts.execute (LogStore.exec env fuel) s.store (fileOps s.system t ans act) = .ok store →
      Step env fuel s (act, ans) ⟨t, store⟩

/-- The operations of a step write what it adds to the calls of each logger. -/
theorem texts_step (hstep : System.Step u act t) (ans : Answers) (l : LoggerId) :
    (t.entries l).map Prod.snd = (u.entries l).map Prod.snd ++
      (Tagged.of l (fileOps u t ans act)).flatMap LogOp.text := by
  have hsame : t.entries l = u.entries l → fileOps u t ans act = [] →
      (t.entries l).map Prod.snd = (u.entries l).map Prod.snd ++
        (Tagged.of l (fileOps u t ans act)).flatMap LogOp.text := by
    intro hentries hops
    rw [hentries, hops]
    simp
  cases hstep with
  | createLog halive hmutex hnone => exact hsame (System.entries_createLog hnone l) rfl
  | producer halive hlg hproduces hstep =>
    refine hsame (System.entries_quiet hlg hstep ?_ l) rfl
    rintro rfl
    cases hproduces
  | addBusyLog halive hlg hstep => exact hsame (System.entries_quiet hlg hstep (by simp) l) rfl
  | @update l' lg lg' act' halive hup hlg hupdates hstep =>
    cases act' with
    | lockUpdate => exact hsame (System.entries_quiet hlg hstep (by simp) l) rfl
    | roundUpdate =>
      obtain ⟨new, -, hnew, -⟩ := System.entries_setLogger hlg hstep
      have hops : fileOps u (u.setLogger l' lg') ans (.update .roundUpdate) =
          (new.map fun e => LogOp.writeLog ⟨e.1, e.2, ans⟩).map fun op => (l', op) := by
        simp only [fileOps, hup, hnew, List.drop_left, List.map_map]
        rfl
      rw [hops]
      by_cases hl : l = l'
      · subst hl
        rw [hnew, List.map_append, Tagged.of_map_self]
        simp [LogOp.text, List.flatMap_map, ← List.map_eq_flatMap]
      · rw [System.entries_setLogger_ne hl, Tagged.of_map_ne (Ne.symm hl)]
        simp
    | _ => cases hupdates
  | @updated l' lg lg' todo halive hup hlg hstep =>
    have hentries := System.entries_quiet hlg hstep (by simp) l
    change ((u.setLogger l' lg').entries l).map Prod.snd = _
    rw [hentries, fileOps, hup]
    by_cases hl : l' = l
    · simp [Tagged.of_cons, hl, LogOp.text]
    · simp [Tagged.of_cons, hl]
  | stopShutdown halive hstop hlg hstep =>
    exact hsame (System.entries_quiet hlg hstep (by simp) l) rfl
  | _ => exact hsame rfl rfl

/-- A step makes at most one call, on a line that `_WriteLog` takes. -/
theorem fileOps_sane (hsound : t.Sound) (hstep : System.Step u act t) (hans : ans.Succeed) :
    (fileOps u t ans act).length ≤ 1 ∧ ∀ e ∈ fileOps u t ans act, e.2.Sane := by
  cases hstep with
  | @update l' lg lg' act' halive hup hlg hupdates hstep =>
    cases act' with
    | lockUpdate => exact ⟨Nat.zero_le _, fun e he => by cases he⟩
    | roundUpdate =>
      obtain ⟨new, hlen, hnew, -⟩ := System.entries_setLogger hlg hstep
      simp only [fileOps, hup, hnew, List.drop_left, List.length_map]
      refine ⟨hlen, fun e he => ?_⟩
      obtain ⟨entry, hentry, rfl⟩ := List.mem_map.mp he
      obtain ⟨hinv, hfit⟩ := hsound l' lg' System.setLogger_self
      have hmem : entry ∈ lg'.written.map Prod.snd := by
        rw [← System.entries_eq System.setLogger_self, hnew]
        exact List.mem_append_right _ hentry
      obtain ⟨p, hp, rfl⟩ := List.mem_map.mp hmem
      obtain ⟨hne, hle⟩ := hinv.writable hfit hp
      exact ⟨hans, hne, hle⟩
    | _ => cases hupdates
  | updated halive hup hlg hstep =>
    rw [fileOps, hup]
    exact ⟨le_rfl, fun e he => by rw [List.mem_singleton.mp he]; trivial⟩
  | _ => exact ⟨Nat.zero_le _, fun e he => by cases he⟩

/-- The files hold what each logger has given to `_WriteLog`. -/
structure Inv (env : LoggerId → Nat → OpenAnswers) (s : LogSystem Tid)
    (files : LoggerId → List Opened) : Prop where
  store : s.store.Inv env files
  short : ∀ l, Short kDefaultLogSize (files l)
  lines : ∀ l, ((files l).map Prod.snd).flatten = (s.system.entries l).map Prod.snd

theorem Inv.step (h : Inv env s files) (henv : ∀ l i, (env l i).ans.Succeed)
    (hsound : s'.system.Sound) (hans : ans.Succeed) (hmade : s'.store.made < 2 ^ 32)
    (hstep : Step env (fuel + 2) s (act, ans) s') : ∃ files', Inv env s' files' := by
  cases hstep with
  | step hsystem hexec =>
    obtain ⟨-, hsane⟩ := fileOps_sane hsound hsystem hans
    obtain ⟨files', hstore, hshort, hlines⟩ := h.store.execute henv hsane hexec hmade h.short
    refine ⟨files', hstore, hshort, fun l => ?_⟩
    rw [hlines, h.lines, texts_step hsystem ans]

/-- What `Update` writes can be written: the files never hold the loggers up. -/
theorem Inv.step_returns (h : Inv env s files) (henv : ∀ l i, (env l i).ans.Succeed)
    (hsound : t.Sound) (hans : ans.Succeed) (hmade : s.store.made < 2 ^ 32)
    (hstep : System.Step s.system act t) :
    ∃ store, Step env (fuel + 2) s (act, ans) ⟨t, store⟩ ∧ store.made ≤ s.store.made + 1 := by
  obtain ⟨hlen, hsane⟩ := fileOps_sane hsound hstep hans
  cases hops : fileOps s.system t ans act with
  | nil => exact ⟨s.store, .step hstep (by rw [hops]; rfl), Nat.le_succ _⟩
  | cons e ops =>
    rw [hops] at hlen hsane
    obtain rfl := List.length_eq_zero_iff.mp (Nat.le_zero.mp (Nat.le_of_succ_le_succ hlen))
    obtain ⟨store, hstore⟩ := h.store.exec_returns henv (hsane e List.mem_cons_self) hmade
      (h.short e.1)
    obtain ⟨-, -, -, -, hcount⟩ := h.store.exec henv (hsane e List.mem_cons_self) hmade hstore
    exact ⟨store, .step hstep (by rw [hops, Lts.execute_singleton]; exact hstore), hcount⟩

theorem made_le_step (hstep : Step env fuel s (act, ans) s') : s.store.made ≤ s'.store.made := by
  cases hstep with
  | step _ hexec => exact LogStore.made_le_execute hexec

/-- The system's calls succeed, and the lines come from `Flush`. -/
def Regular (_ : LogSystem Tid) (e : System.Act Tid × Answers) : Prop :=
  e.2.Succeed ∧ System.ShortLine e.1

variable {dest : LoggerId → UInt32} {directory : LoggerId → String} {pid : Nat}
  {disk : FileName → Option SparseFile}

theorem reached (hdest : ∀ l, dest l &&& LogDest.logFile ≠ 0)
    (hnew : ∀ l i seq, seq < 2 ^ 32 → disk (logName (directory l) (env l i).now pid seq) = none)
    (henv : ∀ l i, (env l i).ans.Succeed)
    (hrun : Lts.Run (Lts.Guarded Regular (Step env (fuel + 2)))
      (init dest directory pid disk : LogSystem Tid) acts s) :
    s.system.Sound ∧ (s.store.made < 2 ^ 32 → ∃ files, Inv env s files) := by
  refine hrun.invariant (I := fun s => s.system.Sound ∧
    (s.store.made < 2 ^ 32 → ∃ files, Inv env s files)) ?_ ⟨fun _ _ hlg => (by cases hlg), ?_⟩
  · rintro s ⟨act, ans⟩ s' ⟨⟨hans, hact⟩, hstep⟩ ⟨hsound, hfiles⟩
    have hsound' : s'.system.Sound := by
      cases hstep with
      | step hsystem hexec => exact System.sound_step hsound hact hsystem
    refine ⟨hsound', fun hmade => ?_⟩
    obtain ⟨files, h⟩ := hfiles (Nat.lt_of_le_of_lt (made_le_step hstep) hmade)
    exact h.step henv hsound' hans hmade hstep
  · exact fun _ => ⟨fun _ => [], LogStore.inv_init hdest hnew, fun _ p hp => (by cases hp),
      fun l => rfl⟩

/-- A run of the loggers is one with their files, as long as it cannot make too many names. -/
theorem Inv.lift {guard : System Tid → System.Act Tid → Prop} {as : List (System.Act Tid)}
    (h : Inv env s files) (henv : ∀ l i, (env l i).ans.Succeed) (hsound : s.system.Sound)
    (hans : ans.Succeed)
    (hrun : Lts.Run (Lts.Guarded (fun u act => System.ShortLine act ∧ guard u act) System.Step)
      s.system as t) (hcount : s.store.made + as.length < 2 ^ 32) :
    ∃ store, Lts.Run (Lts.Guarded (fun s e => Regular s e ∧ guard s.system e.1)
        (Step env (fuel + 2))) s (as.map fun act => (act, ans)) ⟨t, store⟩ ∧
      store.made ≤ s.store.made + as.length := by
  induction as generalizing s files with
  | nil =>
    cases hrun
    exact ⟨s.store, .refl _, le_rfl⟩
  | cons act as ih =>
    rw [List.length_cons] at hcount ⊢
    obtain ⟨u, ⟨⟨hshort, hguard⟩, hstep⟩, hrest⟩ := Lts.run_cons.mp hrun
    have hsound' := System.sound_step hsound hshort hstep
    obtain ⟨store, hstore, hmade⟩ : ∃ store, Step env (fuel + 2) s (act, ans) ⟨u, store⟩ ∧
        store.made ≤ s.store.made + 1 := h.step_returns henv hsound' hans (by omega) hstep
    have hlt : store.made < 2 ^ 32 := by omega
    obtain ⟨files', h'⟩ := h.step henv hsound' hans hlt hstore
    obtain ⟨store', hrun', hmade'⟩ := ih h' hsound' hrest (by dsimp only; omega)
    exact ⟨store', .cons ⟨⟨⟨hans, hshort⟩, hguard⟩, hstore⟩ hrun', by dsimp only at hmade'; omega⟩

/-- The loggers of a run write their files in the current directory of an empty disk. -/
theorem exists_run {guard : System Nat → System.Act Nat → Prop} {t : System Nat}
    (acts : List (System.Act Nat))
    (hrun : Lts.Run (Lts.Guarded (fun u act => System.ShortLine act ∧ guard u act) System.Step)
      System.init acts t) (hlen : acts.length < 2 ^ 32) :
    ∃ store, Lts.Run (Lts.Guarded (fun s e => Regular s e ∧ guard s.system e.1)
        (Step (fun _ _ => ⟨"[now]", ⟨true, true, some 4096⟩⟩) 2))
      (init (fun _ => LogDest.logFile) (fun _ => ".") 1 fun _ => none)
      (acts.map fun act => (act, ⟨true, true, some 4096⟩)) ⟨t, store⟩ ∧ store.made < 2 ^ 32 := by
  have hinv : Inv (fun _ _ => ⟨"[now]", ⟨true, true, some 4096⟩⟩)
      (init (fun _ => LogDest.logFile) (fun _ => ".") 1 fun _ => none : LogSystem Nat)
      fun _ => [] :=
    ⟨LogStore.inv_init (fun _ => by decide) fun _ _ _ _ => rfl, fun _ p hp => (by cases hp),
      fun _ => rfl⟩
  have hcount : 0 + acts.length < 2 ^ 32 := by omega
  obtain ⟨store, hlift, hmade⟩ := hinv.lift (fun _ _ => ⟨rfl, rfl, rfl⟩)
    (fun _ _ hlg => by cases hlg)
    (show Answers.Succeed ⟨true, true, some 4096⟩ from ⟨rfl, rfl, rfl⟩) hrun hcount
  exact ⟨store, hlift, Nat.lt_of_le_of_lt hmade hcount⟩

end LogSystem

end Hplsp
