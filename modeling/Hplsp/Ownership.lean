import Hplsp.Lib.Printf
import Hplsp.LoggerFill
import Hplsp.Shutdown

/-!
# Whose loggers the I/O thread updates

`busyLogs_` and `tmpBusy` hold raw pointers; the loggers belong to `logs_` and to the clients, who
give up theirs when they like.
-/

namespace Hplsp

theorem RunPc.next_eq_update {run run' : Bool} {ls tmpBusy : List LoggerId}
    (h : RunPc.next run ls = .update run' tmpBusy) : tmpBusy = ls := by
  cases ls with
  | nil =>
    rw [next] at h
    split at h <;> cases h
  | cons l ls =>
    cases h
    rfl

namespace LogManager

variable {m : LogManager} {l : LoggerId}

/-- The pointers in `busyLogs_`, and the logger that `Run` updates, are in `logs_`. -/
structure Owns (m : LogManager) : Prop where
  busyLogs : ∀ l ∈ m.busyLogs, l ∈ m.logs
  updating : ∀ l, m.updating = some l → l ∈ m.logs

/-- All pointers that the manager holds are to loggers of its session. -/
structure Session (m : LogManager) : Prop where
  basic : m.Basic
  busy : ∀ l ∈ m.busyLogs, l ∈ m.created
  tmpBusy : ∀ run tmpBusy, m.run = .update run tmpBusy → ∀ l ∈ tmpBusy, l ∈ m.created
  quiet : m.run.leaving = true → m.busyLogs = []

theorem Session.owns (h : m.Session) : m.Owns := by
  constructor
  · intro l hl
    have hleaving : m.run.leaving = false := by
      by_contra hne
      have hnone := h.quiet (by simpa using hne)
      simp [hnone] at hl
    exact h.basic.kept (RunPc.not_draining hleaving) l (h.busy l hl)
  · intro l hl
    rw [LogManager.updating] at hl
    split at hl
    · rename_i run tmpBusy hrun
      have hmem := h.tmpBusy run tmpBusy hrun l (List.mem_of_head? hl)
      exact h.basic.kept (by rw [hrun]; rfl) l hmem
    · exact List.mem_of_getElem? hl
    · cases hl

theorem session_init : init.Session :=
  ⟨basic_init, by simp [init], by simp [init], fun _ => rfl⟩

theorem Session.start (h : m.Session) (hstop : m.stop = .returned) : m.start.Session := by
  have hbusy : m.busyLogs = [] := h.quiet (by rw [h.basic.joined hstop]; rfl)
  refine ⟨h.basic.start hstop, ?_, ?_, fun _ => hbusy⟩
  · intro l hl
    rw [LogManager.start, hbusy] at hl
    cases hl
  · intro run tmpBusy hrun
    cases hrun

theorem Session.createLog (h : m.Session) (hshut : m.shutdown = false) :
    (m.createLog l).Session :=
  ⟨h.basic.createLog hshut, fun l' hl' => List.mem_cons_of_mem _ (h.busy l' hl'),
    fun run tmpBusy hrun l' hl' => List.mem_cons_of_mem _ (h.tmpBusy run tmpBusy hrun l' hl'),
    h.quiet⟩

theorem Session.addBusyLog (h : m.Session) (hcond : m.shutdown = true ∨ l ∈ m.created) :
    (m.addBusyLog l).Session := by
  have hbasic := h.basic.addBusyLog (l := l)
  rw [LogManager.addBusyLog] at hbasic ⊢
  split
  · exact h
  · rename_i hfalse
    rw [if_neg hfalse] at hbasic
    simp only [Bool.or_eq_true, not_or, Bool.not_eq_true] at hfalse
    refine ⟨hbasic, fun l' hl' => ?_, h.tmpBusy, fun hleaving => ?_⟩
    · rcases (List.mem_orderedInsert _).mp hl' with rfl | hold
      · exact hcond.resolve_left (by simp [hfalse.1])
      · exact h.busy l' hold
    · exact absurd (h.basic.leaving hleaving) (by simp [hfalse.1])

/-- A pointer to a logger of another session stays in `busyLogs_`. -/
theorem Session.addBusyLog_stale (h : m.Session) (hshut : m.shutdown = false)
    (hl : l ∉ m.created) : ¬ (m.addBusyLog l).Owns := by
  have hnew : l ∉ m.busyLogs := fun hmem => hl (h.busy l hmem)
  rw [LogManager.addBusyLog, if_neg (by simp [hshut, hnew])]
  intro howns
  have hmem := howns.busyLogs l ((List.mem_orderedInsert _).mpr (.inl rfl))
  exact hl (h.basic.logs l hmem)

theorem Session.runLock (h : m.Session) (hrun : m.run = .loop) : m.runLock.Session := by
  refine ⟨h.basic.runLock hrun, by simp [LogManager.runLock], ?_, fun _ => rfl⟩
  intro run tmpBusy hupdate l hl
  simp only [LogManager.runLock] at hupdate
  split at hupdate
  · cases hupdate
  · rw [RunPc.next_eq_update hupdate] at hl
    exact h.busy l hl

theorem Session.runCollect (h : m.Session) {run : Bool} (hrun : m.run = .collect run) :
    (m.runCollect run).Session := by
  refine ⟨h.basic.runCollect hrun, h.busy, ?_, fun hleaving => h.quiet ?_⟩
  · intro run' tmpBusy hupdate l hl
    rw [RunPc.next_eq_update hupdate] at hl
    exact h.basic.logs l hl
  · rw [LogManager.runCollect, RunPc.leaving_next] at hleaving
    rwa [hrun]

theorem Session.updated (h : m.Session) {todo : Bool} : (m.updated todo).Session := by
  obtain ⟨hbusy, hcreated, -⟩ := m.updated_frame todo
  refine ⟨h.basic.updated, by rw [hbusy, hcreated]; exact h.busy, ?_, ?_⟩
  · rw [hcreated, LogManager.updated]
    split
    · rename_i run tmpBusy hrun
      intro run' tmpBusy' hupdate l hl
      rw [RunPc.next_eq_update hupdate] at hl
      exact h.tmpBusy run tmpBusy hrun l (List.mem_of_mem_tail hl)
    · split
      · rintro _ _ ⟨⟩
      · exact h.tmpBusy
    · exact h.tmpBusy
  · rw [hbusy, LogManager.updated]
    split
    · rename_i run tmpBusy hrun
      intro hleaving
      rw [RunPc.leaving_next] at hleaving
      exact h.quiet (by rwa [hrun])
    · rename_i it hrun
      exact fun _ => h.quiet (by rw [hrun]; rfl)
    · exact h.quiet

/-- A step of the drain that does not change what is in `busyLogs_`. -/
theorem Session.setDrain (h : m.Session) {run : RunPc} {mutex : Option Holder}
    (hbasic : ({ m with logsMutex := mutex, run := run } : LogManager).Basic)
    (hleaving : m.run.leaving = true) (hrun : run.draining = true) :
    ({ m with logsMutex := mutex, run := run } : LogManager).Session := by
  refine ⟨hbasic, h.busy, ?_, fun _ => h.quiet hleaving⟩
  rintro run' tmpBusy rfl
  cases hrun

theorem Session.drainLock (h : m.Session) (hrun : m.run = .drainLock) : m.drainLock.Session :=
  h.setDrain (h.basic.drainLock hrun) (by rw [hrun]; rfl) rfl

theorem Session.drainEnd (h : m.Session) {it : Nat} (hrun : m.run = .drain it) :
    m.drainEnd.Session := by
  have hbasic := h.basic.drainEnd hrun
  rw [LogManager.drainEnd] at hbasic ⊢
  split
  · rename_i hlogs
    rw [if_pos hlogs] at hbasic
    exact h.setDrain hbasic (by rw [hrun]; rfl) rfl
  · rename_i hlogs
    rw [if_neg hlogs] at hbasic
    exact h.setDrain hbasic (by rw [hrun]; rfl) rfl

theorem Session.setStop (h : m.Session) {shutdown : Bool} {stop : StopPc} {mutex : Option Holder}
    (hflag : shutdown = true) (hidle : stop ≠ .idle)
    (hjoined : stop = .returned → m.run = .finished) :
    ({ m with shutdown := shutdown, stop := stop, logsMutex := mutex } : LogManager).Session :=
  ⟨h.basic.setStop hflag hidle hjoined, h.busy, h.tmpBusy, h.quiet⟩

end LogManager

/-- The system, and the loggers to which clients still have a `shared_ptr`. -/
structure ClientSystem (Tid : Type) where
  system : System Tid
  held : LoggerId → Bool

namespace ClientSystem

variable {Tid : Type} [LinearOrder Tid] {s s' : ClientSystem Tid}

def init : ClientSystem Tid := ⟨System.init, fun _ => false⟩

/-- The logger has an owner: it has not been destroyed. -/
def Owned (s : ClientSystem Tid) (l : LoggerId) : Prop :=
  s.held l = true ∨ l ∈ s.system.manager.logs

inductive Act (Tid : Type) where
  | sys (act : System.Act Tid)
  | drop (l : LoggerId)

/-- May the logger be used in the step? A `Flush` begins through a client's pointer; nothing goes on
with a logger that is destroyed. -/
def Uses (s : ClientSystem Tid) : System.Act Tid → Prop
  | .producer l (.flush _ _) | .producer l (.skip _) => s.held l = true
  | .producer l _ | .addBusyLog l _ => s.Owned l
  | .update _ | .updated _ => ∀ l, s.system.manager.updating = some l → s.Owned l
  | _ => True

/-- What the clients hold after a step: `CreateLog` returns a pointer to the new logger. -/
def holding (s : ClientSystem Tid) : System.Act Tid → LoggerId → Bool
  | .createLog l _ => if s.system.manager.shutdown then s.held else Function.update s.held l true
  | _ => s.held

inductive Step : ClientSystem Tid → Act Tid → ClientSystem Tid → Prop
  | sys {s act t} : s.Uses act → System.Step s.system act t → Step s (.sys act) ⟨t, s.holding act⟩
  | drop {s l} : s.held l = true →
      Step s (.drop l) { s with held := Function.update s.held l false }

/-- The pointers that the I/O thread has are to loggers of `logs_`. -/
def Owns (s : ClientSystem Tid) : Prop := s.system.manager.Owns

/-- A `Flush` that gets to `AddBusyLog` in a running session is on a logger of that session. -/
def FlushesOwnSession (s : ClientSystem Tid) : Act Tid → Prop
  | .sys (.addBusyLog l _) => s.system.manager.shutdown = true ∨ l ∈ s.system.manager.created
  | _ => True

end ClientSystem

namespace System

variable {Tid : Type} [LinearOrder Tid] {s s' : System Tid} {act : Act Tid}

/-- Every step keeps the session, `AddBusyLog` on a logger of another one apart. -/
theorem Step.session (hstep : Step s act s') (h : s.manager.Session)
    (hcond : ∀ l t, act = .addBusyLog l t → s.manager.shutdown = true ∨ l ∈ s.manager.created) :
    s'.manager.Session := by
  cases hstep with
  | start halive hstop => exact h.start hstop
  | createLog halive hmutex hnone =>
    rw [System.createLog]
    split
    · exact h
    · rename_i hshut
      exact h.createLog (Bool.not_eq_true _ ▸ hshut)
  | producer halive hlg hproduces hstep => exact h
  | addBusyLog halive hlg hstep => exact h.addBusyLog (hcond _ _ rfl)
  | runLock halive hrun => exact h.runLock hrun
  | runCollect halive hrun hmutex => exact h.runCollect hrun
  | update halive hup hlg hupdates hstep => exact h
  | updated halive hup hlg hstep => exact h.updated
  | drainLock halive hrun hmutex => exact h.drainLock hrun
  | drainEnd halive hrun hend => exact h.drainEnd hrun
  | stopFlag halive hstop => exact h.setStop rfl (by simp) (by simp)
  | stopLock halive hstop hmutex =>
    exact h.setStop (h.basic.flag.mpr (by simp [hstop])) (by simp) (by simp)
  | stopShutdown halive hstop hlg hstep =>
    exact h.setStop (h.basic.flag.mpr (by simp [hstop])) (by simp) (by simp)
  | stopUnlock halive hstop =>
    exact h.setStop (h.basic.flag.mpr (by simp [hstop])) (by simp) (by simp)
  | stopJoin halive hstop hrun =>
    exact h.setStop (h.basic.flag.mpr (by simp [hstop])) (by simp) fun _ => hrun

end System

namespace ClientSystem

variable {Tid : Type} [LinearOrder Tid] {s s' : ClientSystem Tid} {act : Act Tid}

theorem session_step (h : s.system.manager.Session) (hstep : Step s act s')
    (hcond : s.FlushesOwnSession act) : s'.system.manager.Session := by
  cases hstep with
  | sys huses hstep =>
    refine hstep.session h ?_
    rintro l t rfl
    exact hcond
  | drop hheld => exact h

theorem flushesOwnSession_of_owns (h : s.system.manager.Session) (hstep : Step s act s')
    (howns : s'.Owns) : s.FlushesOwnSession act := by
  cases hstep with
  | drop hheld => trivial
  | sys huses hstep =>
    cases hstep with
    | @addBusyLog l lg lg' t halive hlg hstep =>
      by_contra hnot
      obtain ⟨hshut, hl⟩ := not_or.mp hnot
      exact h.addBusyLog_stale (Bool.not_eq_true _ ▸ hshut) hl howns
    | _ => trivial

/-- The I/O thread's pointers are to loggers that `logs_` owns, whatever the order of the steps,
exactly when no `Flush` reports a logger of an earlier session as busy. -/
theorem owns_iff (acts : List (Act Tid)) :
    Lts.StatesAlong Step Owns init acts ↔ Lts.StepsAlong Step FlushesOwnSession init acts :=
  Lts.statesAlong_iff_stepsAlong (I := fun s => s.system.manager.Session)
    (fun _ h => h.owns) (fun _ _ _ h hstep hcond => session_step h hstep hcond)
    (fun _ _ _ h hstep howns => flushesOwnSession_of_owns h hstep howns) LogManager.session_init

end ClientSystem

namespace Logger

variable {Tid : Type} [LinearOrder Tid] {s s' : Logger Tid} {act : Act Tid} {t : Tid}

/-- Shut down, with no `Flush` behind its test of `shutdown_`. -/
structure Retired (s : Logger Tid) : Prop where
  shut : s.shutdown = true
  pc : ∀ t, s.pc t = .idle ∨ ∃ r, s.pc t = .ready r

theorem Retired.setPc (h : s.Retired) {pc : FlushPc}
    (hpc : pc = .idle ∨ ∃ r, pc = .ready r) (t : Tid) : (s.setPc t pc).Retired := by
  refine ⟨h.shut, fun t' => ?_⟩
  by_cases heq : t' = t
  · subst heq
    simpa [Logger.setPc] using hpc
  · simpa [Logger.setPc, heq] using h.pc t'

omit [LinearOrder Tid] in
/-- What a thread does not do on a retired logger. -/
theorem Retired.not_behind (h : s.Retired) {pc : FlushPc} (hpc : s.pc t = pc) :
    pc = .idle ∨ ∃ r, pc = .ready r :=
  hpc ▸ h.pc t

theorem Retired.step (h : s.Retired) (hstep : Step s act s') : s'.Retired := by
  cases hstep with
  | flush hlive hpc hlevel => exact h.setPc (.inr ⟨_, rfl⟩) _
  | skip hlive hpc => exact h
  | @lockFlush t r fresh hlive hpc hfresh =>
    have hprinted : ({ s with
        printed := s.printed ++ [(t, r.entry)]
        flushed := s.flushed ++ [(t, r.entry)] } : Logger Tid).Retired := ⟨h.shut, h.pc⟩
    rw [lockFlush, if_pos h.shut]
    exact hprinted.setPc (.inl rfl) t
  | pushLevel hlive hpc => simpa using h.not_behind hpc
  | pushLength hlive hpc => simpa using h.not_behind hpc
  | pushText hlive hpc => simpa using h.not_behind hpc
  | release hlive hpc => simpa using h.not_behind hpc
  | addBusyLog hlive hpc => simpa using h.not_behind hpc
  | lockUpdate hlive hio => exact ⟨h.shut, h.pc⟩
  | roundUpdate hlive hio =>
    obtain ⟨hshut, -, hpc⟩ := roundUpdate_frame (s := s)
    exact ⟨hshut.trans h.shut, fun t => hpc ▸ h.pc t⟩
  | returnUpdate hlive hio => exact ⟨h.shut, h.pc⟩
  | shutdown hlive => exact ⟨rfl, h.pc⟩

end Logger

namespace System

variable {Tid : Type} [LinearOrder Tid] {s s' : System Tid} {act : Act Tid} {l : LoggerId}
  {lg lg' : Logger Tid}

/-- The loggers of earlier sessions are retired. -/
def OthersRetired (s : System Tid) : Prop :=
  ∀ l lg, s.loggers l = some lg → l ∈ s.manager.created ∨ lg.Retired

theorem OthersRetired.setLogger (h : s.OthersRetired) (hlg : s.loggers l = some lg)
    {act : Logger.Act Tid} (hstep : Logger.Step lg act lg') {m : LogManager}
    (hcreated : m.created = s.manager.created) :
    ({ s.setLogger l lg' with manager := m } : System Tid).OthersRetired := by
  intro l' lg₀ hlg₀
  rw [hcreated]
  by_cases heq : l' = l
  · subst heq
    obtain rfl := Option.some_inj.mp (setLogger_self.symm.trans hlg₀)
    exact (h l' lg hlg).imp_right fun hretired => hretired.step hstep
  · exact h l' lg₀ ((setLogger_ne heq).symm.trans hlg₀)

/-- `Start` finds every logger retired. -/
def StartsClean (s : System Tid) : Act Tid → Prop
  | .start => ∀ l lg, s.loggers l = some lg → lg.Retired
  | _ => True

theorem Step.othersRetired (hstep : Step s act s') (h : s.OthersRetired)
    (hclean : s.StartsClean act) : s'.OthersRetired := by
  cases hstep with
  | start halive hstop => exact fun l lg hlg => .inr (hclean l lg hlg)
  | @createLog l level halive hmutex hnone =>
    rw [System.createLog]
    split
    · exact h
    · intro l' lg hlg
      by_cases heq : l' = l
      · subst heq
        exact .inl List.mem_cons_self
      · exact (h l' lg ((setLogger_ne heq).symm.trans hlg)).imp_left (List.mem_cons_of_mem _)
  | producer halive hlg hproduces hstep => exact h.setLogger hlg hstep rfl
  | @addBusyLog l lg lg' t halive hlg hstep =>
    refine h.setLogger hlg hstep ?_
    rw [LogManager.addBusyLog]
    split <;> rfl
  | update halive hup hlg hupdates hstep => exact h.setLogger hlg hstep rfl
  | @updated l lg lg' todo halive hup hlg hstep =>
    exact h.setLogger hlg hstep (s.manager.updated_frame todo).2.1
  | stopShutdown halive hstop hlg hstep => exact h.setLogger hlg hstep rfl
  | drainEnd halive hrun hend =>
    intro l lg hlg
    dsimp only
    rw [LogManager.drainEnd]
    split <;> exact h l lg hlg
  | _ => exact h

end System

namespace ClientSystem

variable {Tid : Type} [LinearOrder Tid] {s s' : ClientSystem Tid} {act : Act Tid}
  {acts : List (Act Tid)}

def StartsClean (s : ClientSystem Tid) : Act Tid → Prop
  | .sys act => s.system.StartsClean act
  | .drop _ => True

/-- If every `Start` finds the loggers there are shut down, and no `Flush` on its way to
`AddBusyLog`, then the I/O thread never updates a logger that it does not own. -/
theorem owns_of_startsClean (h : Lts.Run (Lts.Guarded StartsClean Step) init acts s) :
    s.Owns := by
  have hinv : s.system.manager.Session ∧ s.system.OthersRetired := by
    refine h.invariant (I := fun s => s.system.manager.Session ∧ s.system.OthersRetired) ?_
      ⟨LogManager.session_init, fun _ _ hlg => by cases hlg⟩
    rintro s act s' ⟨hclean, hstep⟩ ⟨hsession, hretired⟩
    cases hstep with
    | drop hheld => exact ⟨hsession, hretired⟩
    | sys huses hstep =>
      refine ⟨hstep.session hsession ?_, hstep.othersRetired hretired hclean⟩
      rintro l t rfl
      cases hstep with
      | addBusyLog halive hlg hstep =>
        refine .inr ((hretired l _ hlg).resolve_right fun hold => ?_)
        cases hstep with
        | addBusyLog hlive hpc => simpa using hold.not_behind hpc
  exact hinv.1.owns

section Lift

variable {t t' : System Tid} {act : System.Act Tid} {acts : List (System.Act Tid)}

/-- The clients have kept all their pointers. -/
def KeptAll (s : ClientSystem Tid) : Prop :=
  ∀ l lg, s.system.loggers l = some lg → s.held l = true

theorem KeptAll.uses (h : s.KeptAll) (hstep : System.Step s.system act t) : s.Uses act := by
  cases hstep with
  | @producer l lg lg' act halive hlg hproduces hstep =>
    cases act with
    | flush t r => exact h l lg hlg
    | skip t => exact h l lg hlg
    | _ => exact .inl (h l lg hlg)
  | addBusyLog halive hlg hstep => exact .inl (h _ _ hlg)
  | update halive hup hlg hupdates hstep =>
    intro l hl
    exact .inl (h l _ (Option.some_inj.mp (hup.symm.trans hl) ▸ hlg))
  | updated halive hup hlg hstep =>
    intro l hl
    exact .inl (h l _ (Option.some_inj.mp (hup.symm.trans hl) ▸ hlg))
  | _ => trivial

omit [LinearOrder Tid] in
theorem KeptAll.setLogger (h : s.KeptAll) {l : LoggerId} {lg lg' : Logger Tid}
    (hlg : s.system.loggers l = some lg) (m : LogManager) :
    KeptAll ⟨{ s.system.setLogger l lg' with manager := m }, s.held⟩ := by
  intro l' lg₀ hlg₀
  by_cases heq : l' = l
  · subst heq
    exact h l' lg hlg
  · exact h l' lg₀ ((System.setLogger_ne heq).symm.trans hlg₀)

theorem KeptAll.step (h : s.KeptAll) (hstep : System.Step s.system act t) :
    KeptAll ⟨t, s.holding act⟩ := by
  cases hstep with
  | @createLog l level halive hmutex hnone =>
    rw [System.createLog, holding]
    split
    · exact h
    · intro l' lg hlg
      by_cases heq : l' = l
      · subst heq
        exact Function.update_self _ _ _
      · exact (Function.update_of_ne heq _ _).trans
          (h l' lg ((System.setLogger_ne heq).symm.trans hlg))
  | producer halive hlg hproduces hstep => exact h.setLogger hlg _
  | addBusyLog halive hlg hstep => exact h.setLogger hlg _
  | update halive hup hlg hupdates hstep => exact h.setLogger hlg _
  | updated halive hup hlg hstep => exact h.setLogger hlg _
  | stopShutdown halive hstop hlg hstep => exact h.setLogger hlg _
  | _ => exact h

/-- As long as no client drops a pointer, the system runs as it does by itself. -/
theorem KeptAll.lift (h : s.KeptAll) (hrun : Lts.Run System.Step s.system acts t') :
    ∃ held, Lts.Run Step s (acts.map .sys) ⟨t', held⟩ ∧ KeptAll ⟨t', held⟩ := by
  obtain ⟨system, held⟩ := s
  induction acts generalizing system held with
  | nil =>
    cases hrun
    exact ⟨held, .refl _, h⟩
  | cons act acts ih =>
    obtain ⟨u, hstep, hrest⟩ := Lts.run_cons.mp hrun
    obtain ⟨held', hrun', hheld'⟩ := ih _ _ (h.step hstep) hrest
    exact ⟨held', .cons (.sys (h.uses hstep) hstep) hrun', hheld'⟩

end Lift

end ClientSystem

namespace System

variable {Tid : Type} [LinearOrder Tid] {l : LoggerId} {lg lg' : Logger Tid} {m : LogManager}

/-- A system with one logger. -/
def single (l : LoggerId) (lg : Logger Tid) (m : LogManager) : System Tid :=
  ({ loggers := fun _ => none, manager := m } : System Tid).setLogger l lg

omit [LinearOrder Tid] in
theorem single_all {P : Logger Tid → Prop} (h : P lg) :
    ∀ l' lg', (single l lg m).loggers l' = some lg' → P lg' :=
  setLogger_all _ (fun _ _ hlg => by cases hlg) h

omit [LinearOrder Tid] in
theorem setLogger_single : (single l lg m).setLogger l lg' = single l lg' m := by
  simp [single, setLogger]

/-- A thread's steps on the one logger there is. -/
theorem run_flush {acts : List (Logger.Act Tid)} (h : Lts.Run Logger.Step lg acts lg')
    (hacts : ∀ act ∈ acts, act.ofFlush = true) (m : LogManager) :
    Lts.Run Step (single l lg m) (acts.map (.producer l)) (single l lg' m) := by
  induction h with
  | refl => exact .refl _
  | @cons lg lg₁ lg' act acts hstep hrest ih =>
    refine .cons ?_ (ih fun act hact => hacts act (List.mem_cons_of_mem _ hact))
    have hproduces : (single l lg m).Produces act := by
      have hflush := hacts act List.mem_cons_self
      cases hstep with
      | flush hlive hpc hlevel => exact single_all hpc
      | lockFlush | pushLevel | pushLength | pushText | release => trivial
      | _ => cases hflush
    have hmove := Step.producer (single_all hstep.live) setLogger_self hproduces hstep
    rwa [setLogger_single] at hmove

theorem step_addBusyLog {t : Tid} (hlive : lg.fault = none) (hpc : lg.pc t = .addBusyLog) :
    Step (single l lg m) (.addBusyLog l t) (single l (lg.setPc t .idle) (m.addBusyLog l)) := by
  have hmove := Step.addBusyLog (s := single l lg m) (single_all hlive) setLogger_self
    (.addBusyLog hlive hpc)
  rwa [setLogger_single] at hmove

/-- An `Update` of a logger with nothing to write. -/
theorem run_update {level : UInt32} (hup : m.updating = some l) :
    Lts.Run Step (single l (Logger.init level : Logger Tid) m) [.update .lockUpdate, .updated false]
      (single l (Logger.init level) (m.updated false)) := by
  have hlock : Step (single l (Logger.init level : Logger Tid) m) (.update .lockUpdate)
      (single l (Logger.init level).lockUpdate m) := by
    have hupdates : Updates (.lockUpdate : Logger.Act Tid) := trivial
    have hmove := Step.update (single_all rfl) hup setLogger_self hupdates
      (.lockUpdate (s := (Logger.init level : Logger Tid)) rfl rfl)
    rwa [setLogger_single] at hmove
  have hreturn : Step (single l (Logger.init level : Logger Tid).lockUpdate m) (.updated false)
      (single l (Logger.init level) (m.updated false)) := by
    have hmove := Step.updated (single_all rfl) hup setLogger_self
      (.returnUpdate (s := (Logger.init level : Logger Tid).lockUpdate) rfl rfl)
    rwa [setLogger_single] at hmove
  exact .cons hlock (.cons hreturn (.refl _))

/-- A session whose drain comes before `Stop` can shut its one logger down, and the `Start` of the
next one. -/
theorem session_leaves_logger (level : UInt32) : ∃ acts, Lts.Run Step (init : System Tid) acts
    (single 0 (Logger.init level) LogManager.init.start) := by
  let m₁ := LogManager.init.start
  let m₂ := (m₁.createLog 0).stopFlag
  let m₃ := m₂.runLock.runCollect false
  let m₄ := (m₃.updated false).drainLock
  let m₅ := (m₄.updated false).drainEnd
  let m₆ : LogManager := { m₅.stopLock.stopUnlock with stop := .returned }
  have halive : ∀ m : LogManager, (single 0 (Logger.init level : Logger Tid) m).Alive :=
    fun m => single_all rfl
  have hnone : ∀ m : LogManager, ({ init with manager := m } : System Tid).Alive :=
    fun m l lg hlg => by cases hlg
  have hbegin : Lts.Run Step (init : System Tid) [.start, .createLog 0 level, .stopFlag]
      (single 0 (Logger.init level) m₂) :=
    .cons (.start (hnone _) rfl) (.cons (.createLog (hnone m₁) rfl rfl)
      (.cons (.stopFlag (halive (m₁.createLog 0)) rfl) (.refl _)))
  have hleave : Lts.Run Step (single 0 (Logger.init level : Logger Tid) m₂) [.runLock, .runCollect]
      (single 0 (Logger.init level) m₃) :=
    .cons (.runLock (halive m₂) rfl) (.cons (.runCollect (halive m₂.runLock) rfl rfl) (.refl _))
  have hdrain : Lts.Run Step (single 0 (Logger.init level : Logger Tid) (m₃.updated false))
      [.drainLock] (single 0 (Logger.init level) m₄) :=
    .cons (.drainLock (halive (m₃.updated false)) rfl rfl) (.refl _)
  have hend : Lts.Run Step (single 0 (Logger.init level : Logger Tid) (m₄.updated false))
      [.drainEnd] (single 0 (Logger.init level) m₅) :=
    .cons (.drainEnd (halive (m₄.updated false)) rfl (Nat.le_refl 0)) (.refl _)
  have hstop : Lts.Run Step (single 0 (Logger.init level : Logger Tid) m₅)
      [.stopLock, .stopUnlock, .stopJoin, .start]
      (single 0 (Logger.init level) LogManager.init.start) :=
    .cons (.stopLock (halive m₅) rfl rfl) (.cons (.stopUnlock (halive m₅.stopLock) rfl)
      (.cons (.stopJoin (halive m₅.stopLock.stopUnlock) rfl rfl)
        (.cons (.start (halive m₆) rfl) (.refl _))))
  have hupdates := Lts.run_append.mpr ⟨_, hleave, run_update (m := m₃) rfl⟩
  have hdrains := Lts.run_append.mpr ⟨_, hdrain, run_update (m := m₄) rfl⟩
  exact ⟨_, Lts.run_append.mpr ⟨_, hbegin, Lts.run_append.mpr ⟨_, hupdates,
    Lts.run_append.mpr ⟨_, hdrains, Lts.run_append.mpr ⟨_, hend, hstop⟩⟩⟩⟩⟩

end System

namespace ClientSystem

/-- The logger that the first session has left flushes past the threshold in the second one, and its
client drops it: the I/O thread is about to update a logger that is destroyed. -/
theorem destroyed_logger_updated : ∃ (acts : List (Act Nat)) (s : ClientSystem Nat),
    Lts.Run Step init acts s ∧ s.system.manager.updating = some 0 ∧ ¬ s.Owned 0 ∧
      ¬ Lts.StatesAlong Step Owns init acts := by
  let r : Record := ⟨1, Printf.ascii "2025-01-01[00:00:00.000000][INFO]a|1\n", by decide, by decide⟩
  obtain ⟨first, hfirst⟩ : ∃ acts, Lts.Run System.Step (System.init : System Nat) acts
      (System.single 0 (Logger.init 1) LogManager.init.start) := System.session_leaves_logger 1
  obtain ⟨fill, lg, hfill, hfills, hlive, hpc⟩ :=
    Logger.comes_to_addBusyLog (r := r) 1 (0 : Nat) (by decide) (by decide +kernel)
  let m := LogManager.init.start.addBusyLog 0
  have hbusy : System.Step (System.single 0 lg LogManager.init.start) (.addBusyLog 0 0)
      (System.single 0 (lg.setPc 0 .idle) m) := System.step_addBusyLog hlive hpc
  have hlock : System.Step (System.single 0 (lg.setPc 0 .idle) m) .runLock
      (System.single 0 (lg.setPc 0 .idle) m.runLock) := .runLock (System.single_all hlive) rfl
  have hrun := Lts.run_append.mpr ⟨_, hfirst, Lts.run_append.mpr
    ⟨_, System.run_flush hfill hfills _, .cons hbusy (.cons hlock (.refl _))⟩⟩
  have hkept : KeptAll (init : ClientSystem Nat) := fun l lg hlg => by cases hlg
  obtain ⟨held, hclient, hheld⟩ := hkept.lift hrun
  have hdrop := Lts.run_append.mpr ⟨_, hclient,
    .cons (.drop (hheld 0 _ System.setLogger_self)) (.refl _)⟩
  have hup : m.runLock.updating = some 0 := by decide
  refine ⟨_, _, hdrop, hup, ?_, fun hall => ?_⟩
  · rintro (hheld | hlogs)
    · simp at hheld
    · cases hlogs
  · cases (hall.last hdrop).updating 0 hup

end ClientSystem

end Hplsp
