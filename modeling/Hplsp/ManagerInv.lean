import Hplsp.Manager

/-! Invariants of a session in which the drain comes after `Stop`'s second critical section. -/

namespace Hplsp

namespace RunPc

/-- Has the I/O thread taken `logsMutex_` for the drain? -/
def draining : RunPc → Bool
  | .drain _ | .finished => true
  | _ => false

/-- Has the I/O thread seen `shutdown_`? -/
def leaving : RunPc → Bool
  | .collect run | .update run _ => !run
  | .loop => false
  | _ => true

@[simp] theorem leaving_next (run : Bool) (tmpBusy : List LoggerId) :
    (next run tmpBusy).leaving = !run := by
  cases tmpBusy <;> cases run <;> rfl

@[simp] theorem draining_next (run : Bool) (tmpBusy : List LoggerId) :
    (next run tmpBusy).draining = false := by
  cases tmpBusy <;> cases run <;> rfl

theorem leaving_of_draining {run : RunPc} (h : run.draining = true) : run.leaving = true := by
  cases run <;> simp_all [draining, leaving]

theorem not_draining {run : RunPc} (h : run.leaving = false) : run.draining = false := by
  cases run <;> simp_all [draining, leaving]

end RunPc

/-- Is `Stop` behind its second critical section? -/
def StopPc.past : StopPc → Bool
  | .joining | .returned => true
  | _ => false

namespace LogManager

variable {m : LogManager} {l : LoggerId}

/-- What holds of the manager's own fields between any two steps. -/
structure Inv (m : LogManager) : Prop where
  logs : ∀ l ∈ m.logs, l ∈ m.created
  flag : m.shutdown = true ↔ m.stop ≠ .idle
  leaving : m.run.leaving = true → m.shutdown = true
  kept : m.run.draining = false → ∀ l ∈ m.created, l ∈ m.logs
  /-- The drain finds the loggers shut down, or none at all. -/
  late : m.run.draining = true → m.stop.past = true ∨ m.created = []
  erased : m.run = .finished → m.logs = []
  joined : m.stop = .returned → m.run = .finished

/-- What holds whatever the order of the drain and `Stop`. -/
structure Basic (m : LogManager) : Prop where
  logs : ∀ l ∈ m.logs, l ∈ m.created
  flag : m.shutdown = true ↔ m.stop ≠ .idle
  leaving : m.run.leaving = true → m.shutdown = true
  kept : m.run.draining = false → ∀ l ∈ m.created, l ∈ m.logs
  erased : m.run = .finished → m.logs = []
  joined : m.stop = .returned → m.run = .finished

theorem Inv.basic (h : m.Inv) : m.Basic :=
  ⟨h.logs, h.flag, h.leaving, h.kept, h.erased, h.joined⟩

theorem Basic.inv (h : m.Basic)
    (hlate : m.run.draining = true → m.stop.past = true ∨ m.created = []) : m.Inv :=
  ⟨h.logs, h.flag, h.leaving, h.kept, hlate, h.erased, h.joined⟩

theorem basic_init : init.Basic := by
  refine ⟨?_, ?_, ?_, ?_, ?_, ?_⟩ <;> simp [init, RunPc.draining]

theorem Basic.start (h : m.Basic) (hstop : m.stop = .returned) : m.start.Basic := by
  have hlogs := h.erased (h.joined hstop)
  refine ⟨?_, ?_, ?_, ?_, ?_, ?_⟩ <;> simp [LogManager.start, hlogs, RunPc.leaving]

/-- Nothing is created once the I/O thread has seen `shutdown_`. -/
theorem Basic.not_leaving (h : m.Basic) (hshut : m.shutdown = false) : m.run.leaving = false := by
  by_contra hne
  exact absurd (h.leaving (by simpa using hne)) (by simp [hshut])

theorem Basic.not_draining (h : m.Basic) (hshut : m.shutdown = false) :
    m.run.draining = false :=
  RunPc.not_draining (h.not_leaving hshut)

theorem Basic.createLog (h : m.Basic) (hshut : m.shutdown = false) : (m.createLog l).Basic := by
  have hdraining := h.not_draining hshut
  refine ⟨?_, h.flag, h.leaving, ?_, ?_, h.joined⟩
  · intro l' hl'
    rcases List.mem_append.mp hl' with hold | hnew
    · exact List.mem_cons_of_mem _ (h.logs l' hold)
    · exact List.mem_cons.mpr (.inl (List.mem_singleton.mp hnew))
  · intro _ l' hl'
    rcases List.mem_cons.mp hl' with rfl | hold
    · exact List.mem_append_right _ List.mem_cons_self
    · exact List.mem_append_left _ (h.kept hdraining l' hold)
  · intro hfinished
    change m.run = .finished at hfinished
    exact absurd hdraining (by simp [hfinished, RunPc.draining])

theorem Basic.addBusyLog (h : m.Basic) : (m.addBusyLog l).Basic := by
  rw [LogManager.addBusyLog]
  split
  · exact h
  · exact ⟨h.logs, h.flag, h.leaving, h.kept, h.erased, h.joined⟩

/-- A step of `Run` outside the drain. -/
theorem Basic.setRun (h : m.Basic) {run : RunPc} {busyLogs : List LoggerId}
    (hbefore : m.run.draining = false) (hafter : run.draining = false)
    (hleaving : run.leaving = true → m.shutdown = true) :
    ({ m with run := run, busyLogs := busyLogs } : LogManager).Basic := by
  refine ⟨h.logs, h.flag, hleaving, fun _ => h.kept hbefore, ?_, ?_⟩
  · rintro rfl
    simp [RunPc.draining] at hafter
  · intro hstop
    simp [h.joined hstop, RunPc.draining] at hbefore

theorem draining_runLock : m.runLock.run.draining = false := by
  rw [LogManager.runLock]
  dsimp only
  split
  · rfl
  · exact RunPc.draining_next _ _

theorem Basic.runLock (h : m.Basic) (hrun : m.run = .loop) : m.runLock.Basic := by
  refine h.setRun (by rw [hrun]; rfl) draining_runLock ?_
  split
  · simp [RunPc.leaving]
  · simp

theorem Basic.runCollect (h : m.Basic) {run : Bool} (hrun : m.run = .collect run) :
    (m.runCollect run).Basic := by
  refine h.setRun (by rw [hrun]; rfl) (RunPc.draining_next _ _) fun hleaving => h.leaving ?_
  rw [RunPc.leaving_next] at hleaving
  rwa [hrun]

/-- The end of an `Update` moves `Run` and erases from `logs_`; the rest stays. -/
theorem updated_frame (m : LogManager) (todo : Bool) :
    (m.updated todo).busyLogs = m.busyLogs ∧ (m.updated todo).created = m.created ∧
      (m.updated todo).stop = m.stop := by
  rw [LogManager.updated]
  split
  · exact ⟨rfl, rfl, rfl⟩
  · split <;> exact ⟨rfl, rfl, rfl⟩
  · exact ⟨rfl, rfl, rfl⟩

theorem Basic.updated (h : m.Basic) {todo : Bool} : (m.updated todo).Basic := by
  rw [LogManager.updated]
  split
  · rename_i run tmpBusy hrun
    refine h.setRun (by rw [hrun]; rfl) (RunPc.draining_next _ _) fun hleaving => h.leaving ?_
    rw [RunPc.leaving_next] at hleaving
    rwa [hrun]
  · rename_i it hrun
    have hflag := h.leaving (by rw [hrun]; rfl)
    have hjoined : m.stop ≠ .returned := by
      intro hstop
      simp [h.joined hstop] at hrun
    split
    · exact ⟨h.logs, h.flag, fun _ => hflag, by simp [RunPc.draining], by simp,
        fun hstop => absurd hstop hjoined⟩
    · exact ⟨fun l hl => h.logs l (List.mem_of_mem_eraseIdx hl), h.flag, fun _ => hflag,
        by simp [hrun, RunPc.draining], by simp [hrun], fun hstop => absurd hstop hjoined⟩
  · exact h

theorem Basic.drainLock (h : m.Basic) (hrun : m.run = .drainLock) : m.drainLock.Basic := by
  refine ⟨h.logs, h.flag, fun _ => h.leaving (by rw [hrun]; rfl), ?_, ?_, ?_⟩
  · simp [LogManager.drainLock, RunPc.draining]
  · simp [LogManager.drainLock]
  · intro hstop
    have hfinished := h.joined hstop
    simp [hrun] at hfinished

theorem Basic.drainEnd (h : m.Basic) {it : Nat} (hrun : m.run = .drain it) : m.drainEnd.Basic := by
  have hflag := h.leaving (by rw [hrun]; rfl)
  rw [LogManager.drainEnd]
  split
  · rename_i hlogs
    exact ⟨h.logs, h.flag, fun _ => hflag, by simp [RunPc.draining], fun _ => hlogs, fun _ => rfl⟩
  · refine ⟨h.logs, h.flag, fun _ => hflag, by simp [RunPc.draining], by simp, ?_⟩
    intro hstop
    simp [h.joined hstop] at hrun

/-- A step of `Stop` from one of its program points to another. -/
theorem Basic.setStop (h : m.Basic) {shutdown : Bool} {stop : StopPc} {mutex : Option Holder}
    (hflag : shutdown = true) (hidle : stop ≠ .idle)
    (hjoined : stop = .returned → m.run = .finished) :
    ({ m with shutdown := shutdown, stop := stop, logsMutex := mutex } : LogManager).Basic :=
  ⟨h.logs, by simpa [hflag] using hidle, fun _ => hflag, h.kept, h.erased, hjoined⟩

section Late

theorem inv_init : init.Inv := basic_init.inv (by simp [init, StopPc.past])

theorem Inv.start (h : m.Inv) (hstop : m.stop = .returned) : m.start.Inv :=
  (h.basic.start hstop).inv (by simp [LogManager.start])

theorem Inv.createLog (h : m.Inv) (hshut : m.shutdown = false) : (m.createLog l).Inv := by
  have hdraining := h.basic.not_draining hshut
  refine (h.basic.createLog hshut).inv fun hdrain => ?_
  exact absurd (hdraining.symm.trans hdrain) (by simp)

theorem Inv.addBusyLog (h : m.Inv) : (m.addBusyLog l).Inv := by
  refine h.basic.addBusyLog.inv ?_
  rw [LogManager.addBusyLog]
  split <;> exact h.late

theorem Inv.runLock (h : m.Inv) (hrun : m.run = .loop) : m.runLock.Inv := by
  refine (h.basic.runLock hrun).inv fun hdrain => ?_
  exact absurd (draining_runLock.symm.trans hdrain) (by simp)

theorem Inv.runCollect (h : m.Inv) {run : Bool} (hrun : m.run = .collect run) :
    (m.runCollect run).Inv := by
  refine (h.basic.runCollect hrun).inv fun hdrain => ?_
  exact absurd ((RunPc.draining_next _ _).symm.trans hdrain) (by simp)

theorem Inv.updated (h : m.Inv) {todo : Bool} : (m.updated todo).Inv := by
  refine h.basic.updated.inv ?_
  rw [LogManager.updated]
  split
  · intro hdrain
    exact absurd ((RunPc.draining_next _ _).symm.trans hdrain) (by simp)
  · rename_i it hrun
    have hlate := h.late (by rw [hrun]; rfl)
    split <;> exact fun _ => hlate
  · exact h.late

/-- The drain begins: the condition on the order of the two threads comes in here. -/
theorem Inv.drainLock (h : m.Inv) (hrun : m.run = .drainLock)
    (horder : m.stop = .joining ∨ m.logs = []) : m.drainLock.Inv := by
  refine (h.basic.drainLock hrun).inv fun _ => ?_
  rcases horder with hstop | hlogs
  · exact .inl (by simp [LogManager.drainLock, hstop, StopPc.past])
  · refine .inr (List.eq_nil_iff_forall_not_mem.mpr fun l hl => ?_)
    have hmem := h.kept (by rw [hrun]; rfl) l hl
    simp [hlogs] at hmem

theorem Inv.drainEnd (h : m.Inv) {it : Nat} (hrun : m.run = .drain it) : m.drainEnd.Inv := by
  have hlate := h.late (by rw [hrun]; rfl)
  refine (h.basic.drainEnd hrun).inv ?_
  rw [LogManager.drainEnd]
  split <;> exact fun _ => hlate

theorem Inv.setStop (h : m.Inv) {shutdown : Bool} {stop : StopPc} {mutex : Option Holder}
    (hflag : shutdown = true) (hidle : stop ≠ .idle)
    (hpast : m.stop.past = true → stop.past = true)
    (hjoined : stop = .returned → m.run = .finished) :
    ({ m with shutdown := shutdown, stop := stop, logsMutex := mutex } : LogManager).Inv :=
  (h.basic.setStop hflag hidle hjoined).inv fun hdrain => (h.late hdrain).imp_left hpast

end Late

end LogManager

end Hplsp
