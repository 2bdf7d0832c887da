import Hplsp.ManagerInv
import Hplsp.SystemAct

/-! Shutting down a session: what `Stop` leaves behind when it returns. -/

namespace Hplsp

namespace System

variable {Tid : Type} [LinearOrder Tid] {s s' : System Tid} {act : Act Tid} {l : LoggerId}
  {lg lg' : Logger Tid} {acts : List (Act Tid)}

def IsShut (s : System Tid) (l : LoggerId) : Prop :=
  ∃ lg, s.loggers l = some lg ∧ lg.shutdown = true

/-- Shut down, and nothing is left in `buffers_`. -/
def IsDrained (s : System Tid) (l : LoggerId) : Prop :=
  ∃ lg, s.loggers l = some lg ∧ lg.shutdown = true ∧ lg.buffers = []

/-- What holds between any two steps. -/
structure Inv (s : System Tid) : Prop where
  manager : s.manager.Inv
  logger : ∀ l lg, s.loggers l = some lg → lg.Inv
  /-- `Update` runs on one logger at a time. -/
  idle : ∀ l lg, s.loggers l = some lg → lg.io ≠ .idle → s.manager.updating = some l
  shutting : ∀ rest, s.manager.stop = .shutting rest → ∀ l ∈ s.manager.created,
    l ∈ rest ∨ s.IsShut l
  past : s.manager.stop.past = true → ∀ l ∈ s.manager.created, s.IsShut l
  clean : s.manager.run.draining = true → ∀ l lg, s.loggers l = some lg → lg.Clean
  drained : s.manager.run.draining = true → ∀ l ∈ s.manager.created,
    l ∈ s.manager.logs ∨ s.IsDrained l

theorem inv_init : (init : System Tid).Inv := by
  refine ⟨LogManager.inv_init, ?_, ?_, ?_, ?_, ?_, ?_⟩ <;>
    simp [init, LogManager.init]

theorem Inv.allIdle (h : s.Inv) (hup : s.manager.updating = none) :
    ∀ l lg, s.loggers l = some lg → lg.io = .idle := by
  intro l lg hlg
  by_contra hne
  have hupdating := h.idle l lg hlg hne
  rw [hup] at hupdating
  cases hupdating

/-- In the drain every logger that `Update` visits is shut down. -/
theorem Inv.updating_isShut (h : s.Inv) (hdrain : s.manager.run.draining = true)
    (hup : s.manager.updating = some l) : s.IsShut l := by
  have hlogs : l ∈ s.manager.logs := by
    rw [LogManager.updating] at hup
    split at hup
    · rename_i hrun
      simp [hrun, RunPc.draining] at hdrain
    · exact List.mem_of_getElem? hup
    · cases hup
  have hcreated := h.manager.logs l hlogs
  rcases h.manager.late hdrain with hpast | hnone
  · exact h.past hpast l hcreated
  · simp [hnone] at hcreated

section OneLogger

omit [LinearOrder Tid] in
theorem setLogger_self : (s.setLogger l lg).loggers l = some lg := Function.update_self _ _ _

omit [LinearOrder Tid] in
theorem setLogger_ne {l' : LoggerId} (h : l' ≠ l) :
    (s.setLogger l lg).loggers l' = s.loggers l' :=
  Function.update_of_ne h _ _

omit [LinearOrder Tid] in
theorem setLogger_all (s : System Tid) {P : Logger Tid → Prop}
    (h : ∀ l lg, s.loggers l = some lg → P lg) (hlg : P lg) :
    ∀ l' lg', (s.setLogger l lg).loggers l' = some lg' → P lg' := by
  intro l' lg₀ hlg₀
  by_cases heq : l' = l
  · subst heq
    obtain rfl := Option.some_inj.mp (setLogger_self.symm.trans hlg₀)
    exact hlg
  · rw [setLogger_ne heq] at hlg₀
    exact h l' lg₀ hlg₀

theorem IsShut.setLogger {l' : LoggerId} (h : s.IsShut l') (hlg : s.loggers l = some lg)
    {act : Logger.Act Tid} (hstep : Logger.Step lg act lg') : (s.setLogger l lg').IsShut l' := by
  obtain ⟨lg₀, hlg₀, hshut⟩ := h
  by_cases heq : l' = l
  · subst heq
    obtain rfl := Option.some_inj.mp (hlg.symm.trans hlg₀)
    exact ⟨lg', setLogger_self, (hstep.shut hshut).1⟩
  · exact ⟨lg₀, (setLogger_ne heq).trans hlg₀, hshut⟩

theorem IsDrained.setLogger {l' : LoggerId} (h : s.IsDrained l') (hlg : s.loggers l = some lg)
    {act : Logger.Act Tid} (hstep : Logger.Step lg act lg') :
    (s.setLogger l lg').IsDrained l' := by
  obtain ⟨lg₀, hlg₀, hshut, hempty⟩ := h
  by_cases heq : l' = l
  · subst heq
    obtain rfl := Option.some_inj.mp (hlg.symm.trans hlg₀)
    exact ⟨lg', setLogger_self, (hstep.shut hshut).1, (hstep.shut hshut).2 hempty⟩
  · exact ⟨lg₀, (setLogger_ne heq).trans hlg₀, hshut, hempty⟩

/-- A step of one logger, outside `Update` or on the logger that `Update` is on. -/
theorem Inv.setLogger (h : s.Inv) (hlg : s.loggers l = some lg) {act : Logger.Act Tid}
    (hstep : Logger.Step lg act lg')
    (hact : act.ofUpdate = false ∨ s.manager.updating = some l) : (s.setLogger l lg').Inv := by
  refine ⟨h.manager, s.setLogger_all h.logger (Logger.inv_step hstep (h.logger l lg hlg)),
    ?_, ?_, ?_, ?_, ?_⟩
  · intro l' lg₀ hlg₀ hio
    by_cases heq : l' = l
    · subst heq
      obtain rfl := Option.some_inj.mp (setLogger_self.symm.trans hlg₀)
      rcases hact with hact | hup
      · rw [hstep.io_eq hact] at hio
        exact h.idle l' lg hlg hio
      · exact hup
    · rw [setLogger_ne heq] at hlg₀
      exact h.idle l' lg₀ hlg₀ hio
  · intro rest hstop l' hl'
    exact (h.shutting rest hstop l' hl').imp_right fun hs => hs.setLogger hlg hstep
  · intro hpast l' hl'
    exact (h.past hpast l' hl').setLogger hlg hstep
  · intro hdrain l' lg₀ hlg₀
    by_cases heq : l' = l
    · subst heq
      obtain rfl := Option.some_inj.mp (setLogger_self.symm.trans hlg₀)
      by_cases hup : s.manager.updating = some l'
      · obtain ⟨lg₁, hlg₁, hshut⟩ := h.updating_isShut hdrain hup
        obtain rfl := Option.some_inj.mp (hlg.symm.trans hlg₁)
        exact hstep.clean hshut (h.clean hdrain l' lg hlg)
      · refine Logger.Clean.of_idle ?_
        rw [hstep.io_eq (hact.resolve_right hup)]
        by_contra hio
        exact hup (h.idle l' lg hlg hio)
    · rw [setLogger_ne heq] at hlg₀
      exact h.clean hdrain l' lg₀ hlg₀
  · intro hdrain l' hl'
    exact (h.drained hdrain l' hl').imp_right fun hs => hs.setLogger hlg hstep

end OneLogger

section OneManager

variable {m : LogManager}

/-- A step of `Run` that begins and ends between two calls of `Update`. -/
theorem Inv.setRun (h : s.Inv) (hm : m.Inv)
    (hidle : ∀ l lg, s.loggers l = some lg → lg.io = .idle)
    (hstop : m.stop = s.manager.stop) (hcreated : m.created = s.manager.created)
    (hdrained : m.run.draining = true → ∀ l ∈ m.created, l ∈ m.logs ∨ s.IsDrained l) :
    ({ s with manager := m } : System Tid).Inv := by
  refine ⟨hm, h.logger, fun l lg hlg hio => absurd (hidle l lg hlg) hio, ?_, ?_, ?_, hdrained⟩
  · intro rest hrest l hl
    rw [hstop] at hrest
    rw [hcreated] at hl
    exact h.shutting rest hrest l hl
  · intro hpast l hl
    rw [hstop] at hpast
    rw [hcreated] at hl
    exact h.past hpast l hl
  · intro _ l lg hlg
    exact Logger.Clean.of_idle (hidle l lg hlg)

/-- A step of `Stop`, with what it must leave behind at the loggers. -/
theorem Inv.setStop (h : s.Inv) (hm : m.Inv) (hrun : m.run = s.manager.run)
    (hlogs : m.logs = s.manager.logs) (hcreated : m.created = s.manager.created)
    (hshutting : ∀ rest, m.stop = .shutting rest → ∀ l ∈ m.created, l ∈ rest ∨ s.IsShut l)
    (hpast : m.stop.past = true → ∀ l ∈ m.created, s.IsShut l) :
    ({ s with manager := m } : System Tid).Inv := by
  have hup : m.updating = s.manager.updating := by
    rw [LogManager.updating, LogManager.updating, hrun, hlogs]
  refine ⟨hm, h.logger, ?_, hshutting, hpast, ?_, ?_⟩
  · intro l lg hlg hio
    exact hup.trans (h.idle l lg hlg hio)
  · intro hdrain
    rw [hrun] at hdrain
    exact h.clean hdrain
  · intro hdrain l hl
    rw [hrun] at hdrain
    rw [hcreated] at hl
    rw [hlogs]
    exact h.drained hdrain l hl

theorem Inv.start (h : s.Inv) (hstop : s.manager.stop = .returned) :
    ({ s with manager := s.manager.start } : System Tid).Inv := by
  have hidle := h.allIdle (by rw [LogManager.updating, h.manager.joined hstop])
  refine ⟨h.manager.start hstop, h.logger, fun l lg hlg hio => absurd (hidle l lg hlg) hio,
    ?_, ?_, ?_, ?_⟩ <;> simp [LogManager.start, StopPc.past, RunPc.draining]

theorem Inv.createLog (h : s.Inv) {level : UInt32} (hnone : s.loggers l = none) :
    (s.createLog l level).Inv := by
  rw [System.createLog]
  split
  · exact h
  · rename_i hshut
    rw [Bool.not_eq_true] at hshut
    have hm := h.manager.createLog (l := l) hshut
    have hleaving := h.manager.basic.not_leaving hshut
    have hstop : s.manager.stop = .idle := by
      by_contra hne
      exact absurd (h.manager.flag.mpr hne) (by simp [hshut])
    have hdraining : (s.manager.createLog l).run.draining = true → False := by
      intro hdrain
      exact absurd (RunPc.leaving_of_draining hdrain) (by simp [LogManager.createLog, hleaving])
    have hup : (s.manager.createLog l).updating = s.manager.updating := by
      simp only [LogManager.updating, LogManager.createLog]
      split <;> simp_all [RunPc.leaving]
    refine ⟨hm, s.setLogger_all h.logger (Logger.inv_init level), ?_, ?_, ?_,
      fun hdrain => (hdraining hdrain).elim, fun hdrain => (hdraining hdrain).elim⟩
    · intro l' lg hlg hio
      by_cases heq : l' = l
      · subst heq
        obtain rfl := Option.some_inj.mp (setLogger_self.symm.trans hlg)
        exact absurd rfl hio
      · exact hup.trans (h.idle l' lg ((setLogger_ne heq).symm.trans hlg) hio)
    · intro rest hrest
      exact absurd (hstop.symm.trans hrest) (by simp)
    · intro hpast
      simp [LogManager.createLog, hstop, StopPc.past] at hpast

theorem Inv.addBusyLog (h : s.Inv) :
    ({ s with manager := s.manager.addBusyLog l } : System Tid).Inv := by
  have hm := h.manager.addBusyLog (l := l)
  rw [LogManager.addBusyLog] at hm ⊢
  split
  · exact h
  · rename_i hfalse
    rw [if_neg hfalse] at hm
    exact ⟨hm, h.logger, h.idle, h.shutting, h.past, h.clean, h.drained⟩

/-- The end of an `Update`. In the drain the logger is erased only when nothing is left in it. -/
theorem Inv.updated (h : s.Inv) (hlg : s.loggers l = some lg) {todo : Bool}
    (hstep : Logger.Step lg (.returnUpdate todo) lg') (hup : s.manager.updating = some l) :
    ({ s.setLogger l lg' with manager := s.manager.updated todo } : System Tid).Inv := by
  have hmove := h.setLogger hlg hstep (.inr hup)
  have hidle : ∀ l' lg₀, (s.setLogger l lg').loggers l' = some lg₀ → lg₀.io = .idle := by
    intro l' lg₀ hlg₀
    by_cases heq : l' = l
    · subst heq
      obtain rfl := Option.some_inj.mp (setLogger_self.symm.trans hlg₀)
      cases hstep
      rfl
    · rw [setLogger_ne heq] at hlg₀
      by_contra hio
      exact heq (Option.some_inj.mp ((h.idle l' lg₀ hlg₀ hio).symm.trans hup))
  have hm : (s.manager.updated todo).Inv := h.manager.updated
  obtain ⟨-, hcreated, hstop⟩ := s.manager.updated_frame todo
  refine hmove.setRun hm hidle hstop hcreated ?_
  rw [LogManager.updated]
  split
  · intro hdrain
    rw [RunPc.draining_next] at hdrain
    cases hdrain
  · rename_i it hrun
    have hdrain : s.manager.run.draining = true := by rw [hrun]; rfl
    split
    · exact fun _ => hmove.drained hdrain
    · rename_i htodo
      rw [Bool.not_eq_true] at htodo
      subst htodo
      intro _ l' hl'
      rcases hmove.drained hdrain l' hl' with hlogs | hdone
      · by_cases heq : l' = l
        · subst heq
          obtain ⟨lg₀, hlg₀, hshut⟩ := h.updating_isShut hdrain hup
          obtain rfl := Option.some_inj.mp (hlg.symm.trans hlg₀)
          have hempty : lg.buffers = [] := by
            cases hstep with
            | returnUpdate hlive hio => exact h.clean hdrain l' lg hlg _ _ _ hio
          exact .inr ⟨lg', setLogger_self, (hstep.shut hshut).1, (hstep.shut hshut).2 hempty⟩
        · obtain ⟨i, hi⟩ := List.mem_iff_getElem?.mp hlogs
          refine .inl (List.mem_eraseIdx_iff_getElem?.mpr ⟨i, ?_, hi⟩)
          rintro rfl
          rw [LogManager.updating, hrun] at hup
          exact heq (Option.some_inj.mp (hi.symm.trans hup))
      · exact .inr hdone
  · exact hmove.drained

end OneManager

/-- The condition on the order of the two threads: the I/O thread enters the drain only when
`Stop` has shut the loggers down, or when there is none in `logs_`. -/
def DrainsAfterStop (s : System Tid) : Act Tid → Prop
  | .drainLock => s.manager.stop = .joining ∨ s.manager.logs = []
  | _ => True

instance (s : System Tid) : ∀ act, Decidable (s.DrainsAfterStop act)
  | .drainLock => inferInstanceAs (Decidable (s.manager.stop = .joining ∨ s.manager.logs = []))
  | .start | .createLog _ _ | .producer _ _ | .addBusyLog _ _ | .runLock => isTrue trivial
  | .runCollect | .update _ | .updated _ | .drainEnd | .stopFlag | .stopLock => isTrue trivial
  | .stopShutdown | .stopUnlock | .stopJoin => isTrue trivial

theorem inv_step (h : s.Inv) (hguard : s.DrainsAfterStop act) (hstep : Step s act s') :
    s'.Inv := by
  cases hstep with
  | start halive hstop => exact h.start hstop
  | createLog halive hmutex hnone => exact h.createLog hnone
  | @producer l lg lg' act halive hlg hproduces hstep =>
    refine h.setLogger hlg hstep (.inl ?_)
    cases act <;> first | rfl | cases hproduces
  | addBusyLog halive hlg hstep => exact (h.setLogger hlg hstep (.inl rfl)).addBusyLog
  | runLock halive hrun =>
    have hup := h.allIdle (by rw [LogManager.updating, hrun])
    have hm := h.manager.runLock hrun
    refine h.setRun hm hup rfl rfl fun hdrain => ?_
    simp only [LogManager.runLock] at hdrain
    split at hdrain
    · cases hdrain
    · rw [RunPc.draining_next] at hdrain
      cases hdrain
  | runCollect halive hrun hmutex =>
    have hup := h.allIdle (by rw [LogManager.updating, hrun])
    refine h.setRun (h.manager.runCollect hrun) hup rfl rfl fun hdrain => ?_
    rw [LogManager.runCollect, RunPc.draining_next] at hdrain
    cases hdrain
  | update halive hup hlg hupdates hstep => exact h.setLogger hlg hstep (.inr hup)
  | updated halive hup hlg hstep => exact h.updated hlg hstep hup
  | drainLock halive hrun hmutex =>
    have hidle := h.allIdle (by rw [LogManager.updating, hrun])
    refine h.setRun (h.manager.drainLock hrun hguard) hidle rfl rfl fun _ l hl => .inl ?_
    exact h.manager.kept (by rw [hrun]; rfl) l hl
  | drainEnd halive hrun hend =>
    have hup := h.allIdle (by
      rw [LogManager.updating, hrun]
      exact List.getElem?_eq_none hend)
    have hm := h.manager.drainEnd hrun
    have hdrained := h.drained (by rw [hrun]; rfl)
    rw [LogManager.drainEnd] at hm ⊢
    split
    · rename_i hlogs
      rw [if_pos hlogs] at hm
      exact h.setRun hm hup rfl rfl fun _ => hdrained
    · rename_i hlogs
      rw [if_neg hlogs] at hm
      exact h.setRun hm hup rfl rfl fun _ => hdrained
  | stopFlag halive hstop =>
    refine h.setStop (h.manager.setStop rfl (by simp) ?_ (by simp)) rfl rfl rfl ?_ ?_
    · simp [hstop, StopPc.past]
    · simp [LogManager.stopFlag]
    · simp [LogManager.stopFlag, StopPc.past]
  | stopLock halive hstop hmutex =>
    have hflag := h.manager.flag.mpr (by simp [hstop])
    refine h.setStop (h.manager.setStop hflag (by simp) ?_ (by simp)) rfl rfl rfl ?_ ?_
    · simp [hstop, StopPc.past]
    · rintro rest ⟨⟩ l hl
      by_cases hdrain : s.manager.run.draining = true
      · rcases h.manager.late hdrain with hpast | hnone
        · simp [hstop, StopPc.past] at hpast
        · simp [LogManager.stopLock, hnone] at hl
      · exact .inl (h.manager.kept (by simpa using hdrain) l hl)
    · simp [LogManager.stopLock, StopPc.past]
  | @stopShutdown l rest lg lg' halive hstop hlg hstep =>
    have hmove := h.setLogger hlg hstep (.inl rfl)
    have hflag := h.manager.flag.mpr (by simp [hstop])
    refine hmove.setStop (h.manager.setStop hflag (by simp) ?_ (by simp)) rfl rfl rfl ?_ ?_
    · simp [hstop, StopPc.past]
    · rintro rest ⟨⟩ l' hl'
      rcases hmove.shutting (l :: rest) hstop l' hl' with hmem | hshut
      · refine (List.mem_cons.mp hmem).symm.imp_right fun heq => ?_
        subst heq
        cases hstep
        exact ⟨_, setLogger_self, rfl⟩
      · exact .inr hshut
    · simp [StopPc.past]
  | stopUnlock halive hstop =>
    have hflag := h.manager.flag.mpr (by simp [hstop])
    refine h.setStop (h.manager.setStop hflag (by simp) (fun _ => rfl) (by simp)) rfl rfl rfl
      (by simp [LogManager.stopUnlock]) fun _ l hl => ?_
    exact (h.shutting [] hstop l hl).resolve_left (by simp)
  | stopJoin halive hstop hrun =>
    have hflag := h.manager.flag.mpr (by simp [hstop])
    refine h.setStop (h.manager.setStop hflag (by simp) (fun _ => rfl) (fun _ => hrun)) rfl rfl rfl
      (by simp) fun _ => h.past (by rw [hstop]; rfl)

/-- Once `Stop` has returned, every logger of the session is shut down, and every line whose
`Flush` is over was written or printed once, in its thread's order. -/
def NothingLost (s : System Tid) : Prop :=
  s.manager.stop = .returned → ∀ l ∈ s.manager.created, ∃ lg, s.loggers l = some lg ∧
    lg.shutdown = true ∧ lg.buffers = [] ∧ lg.io = .idle ∧
      ∀ t, Tagged.of t lg.written ++ Tagged.of t lg.printed = Tagged.of t lg.flushed

theorem Inv.nothingLost (h : s.Inv) : s.NothingLost := by
  intro hstop l hl
  have hrun := h.manager.joined hstop
  have hlogs := h.manager.erased hrun
  have hdrained := (h.drained (by rw [hrun]; rfl) l hl).resolve_left (by simp [hlogs])
  obtain ⟨lg, hlg, hshut, hempty⟩ := hdrained
  have hio : lg.io = .idle := h.allIdle (by rw [LogManager.updating, hrun]) l lg hlg
  refine ⟨lg, hlg, hshut, hempty, hio, fun t => ?_⟩
  have hinv := h.logger l lg hlg
  have hhistory := hinv.history t
  have htmp : lg.waitingTmp = [] := by rw [Logger.waitingTmp, hio]; rfl
  have hbuffers : lg.waitingBuffers = [] := by rw [Logger.waitingBuffers, hempty]; rfl
  have hpending : (lg.pc t).pending = [] := by
    refine FlushPc.pending_of_info ?_
    by_contra hne
    obtain ⟨a, ha⟩ := Option.isSome_iff_exists.mp (by simpa only [Bool.not_eq_false] using hne)
    have hmem := hinv.filling t a ha
    simp [hempty] at hmem
  simpa [htmp, hbuffers, hpending] using hhistory

/-- In every run in which the drain waits for `Stop` to shut the loggers down, nothing is lost. -/
theorem stop_loses_nothing (h : Lts.Run (Lts.Guarded DrainsAfterStop Step) init acts s) :
    s.NothingLost := by
  have hinv : s.Inv := h.invariant (fun _ _ _ hstep hinv => inv_step hinv hstep.1 hstep.2) inv_init
  exact hinv.nothingLost

/-- In the other order: `Stop` shuts the one logger down, and the drain comes last. -/
theorem stop_loses_nothing_in_order : ∃ (acts : List (Act Nat)) (s : System Nat),
    Lts.Run (Lts.Guarded DrainsAfterStop Step) init acts s ∧ s.manager.stop = .returned ∧
      s.manager.created = [0] ∧ (s.loggers 0).any (fun lg => lg.written = [(0, 1, [10])] ∧
        lg.printed = [(0, 1, [11])]) = true ∧ s.NothingLost := by
  obtain ⟨s, hrun, hstop, hcreated, hlines⟩ : ∃ s : System Nat,
      Lts.Run (Lts.Guarded DrainsAfterStop Step) init session s ∧ s.manager.stop = .returned ∧
        s.manager.created = [0] ∧ (s.loggers 0).any (fun lg => lg.written = [(0, 1, [10])] ∧
          lg.printed = [(0, 1, [11])]) = true :=
    Lts.exists_run (Lts.guarded_sound (act_sound (n := 1))) below_init (by decide +kernel)
  exact ⟨session, s, hrun, hstop, hcreated, hlines, stop_loses_nothing hrun⟩

/-- The drain comes first and takes the logger out of `logs_`, so `Stop` does not shut it down,
and a line flushed afterwards stays in its `buffers_` for good. -/
theorem drain_before_stop_loses : ∃ (acts : List (Act Nat)) (s : System Nat) (lg : Logger Nat),
    Lts.Run Step init acts s ∧ s.manager.stop = .returned ∧ 0 ∈ s.manager.created ∧
      s.loggers 0 = some lg ∧ lg.shutdown = false ∧ lg.written = [] ∧ lg.printed = [] ∧
      lg.flushed = [(0, 1, [10])] ∧ ¬ s.NothingLost := by
  obtain ⟨acts, s, hrun, hstop, hcreated, hlines⟩ : ∃ (acts : List (Act Nat)) (s : System Nat),
      Lts.Run Step init acts s ∧ s.manager.stop = .returned ∧ 0 ∈ s.manager.created ∧
        (s.loggers 0).any (fun lg => lg.shutdown = false ∧ lg.written = [] ∧ lg.printed = [] ∧
          lg.flushed = [(0, 1, [10])]) = true :=
    -- the session begins, `Stop` sets the flag, and the I/O thread sees it and drains
    ⟨[.start, .createLog 0 1, .stopFlag, .runLock, .runCollect, .update .lockUpdate,
      .updated false, .drainLock, .update .lockUpdate, .updated false, .drainEnd,
      -- a producer flushes a line, and `Stop` finds no logger
      .producer 0 (.flush 0 ⟨1, [10], by decide, by decide⟩), .producer 0 (.lockFlush 0 0),
      .producer 0 (.push 0), .producer 0 (.push 0), .producer 0 (.push 0),
      .producer 0 (.release 0), .stopLock, .stopUnlock, .stopJoin],
      Lts.exists_run (act_sound (n := 1)) below_init (by decide +kernel)⟩
  obtain ⟨lg, hlg, hlost⟩ := (Option.any_eq_true _ _).mp hlines
  obtain ⟨hopen, hwritten, hprinted, hflushed⟩ := of_decide_eq_true hlost
  refine ⟨acts, s, lg, hrun, hstop, hcreated, hlg, hopen, hwritten, hprinted, hflushed, ?_⟩
  intro hnothing
  obtain ⟨lg', hlg', hshut, -⟩ := hnothing hstop 0 hcreated
  obtain rfl := Option.some_inj.mp (hlg.symm.trans hlg')
  rw [hopen] at hshut
  cases hshut

end System

end Hplsp
