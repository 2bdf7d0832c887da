import Hplsp.Manager

/-! The steps of the loggers of a process as functions, for sessions that can be computed. -/

namespace Hplsp

namespace Logger

variable {Tid : Type} [LinearOrder Tid]

/-- What the action does to a logger whose process is alive. -/
def next (s : Logger Tid) : Act Tid → Option (Logger Tid)
  | .flush t r =>
    if s.pc t = .idle ∧ s.isLevelForbid r.level = false then some (s.setPc t (.ready r)) else none
  | .skip t => if s.pc t = .idle then some s else none
  | .lockFlush t fresh =>
    match s.pc t, s.heap fresh with
    | .ready r, none => some (s.lockFlush t r fresh)
    | _, _ => none
  | .push t =>
    match s.pc t with
    | .pushLevel r a => some (s.push t a (LittleEndian.encode 4 r.level.toNat) (.pushLength r a))
    | .pushLength r a => some (s.push t a (LittleEndian.encode 8 r.text.length) (.pushText r a))
    | .pushText r a => some (s.push t a r.text (.release r a))
    | _ => none
  | .release t =>
    match s.pc t with
    | .release r a => some (s.release t r a)
    | _ => none
  | .addBusyLog t => if s.pc t = .addBusyLog then some (s.setPc t .idle) else none
  | .lockUpdate =>
    match s.io with
    | .idle => some s.lockUpdate
    | _ => none
  | .roundUpdate =>
    match s.io with
    | .log todo done (a :: rest) nOffset => some (s.roundUpdate todo done a rest nOffset)
    | _ => none
  | .returnUpdate todo =>
    match s.io with
    | .log todo' done [] _ => if todo = todo' then some (s.returnUpdate done) else none
    | _ => none
  | .shutdown => some s.doShutdown

def act (s : Logger Tid) (a : Act Tid) : Option (Logger Tid) :=
  match s.fault with
  | none => s.next a
  | some _ => none

theorem act_sound {s s' : Logger Tid} {a : Act Tid} (h : s.act a = some s') : Step s a s' := by
  unfold act at h
  split at h
  case h_2 => cases h
  rename_i hfault
  cases a with
  | flush t r =>
    obtain ⟨⟨hpc, hlevel⟩, h⟩ := Option.ite_none_right_eq_some.mp h
    cases h
    exact .flush hfault hpc hlevel
  | skip t =>
    obtain ⟨hpc, h⟩ := Option.ite_none_right_eq_some.mp h
    cases h
    exact .skip hfault hpc
  | lockFlush t fresh =>
    simp only [next] at h
    split at h
    · cases h
      exact .lockFlush hfault ‹_› ‹_›
    · cases h
  | push t =>
    simp only [next] at h
    split at h
    · cases h
      exact .pushLevel hfault ‹_›
    · cases h
      exact .pushLength hfault ‹_›
    · cases h
      exact .pushText hfault ‹_›
    · cases h
  | release t =>
    simp only [next] at h
    split at h
    · cases h
      exact .release hfault ‹_›
    · cases h
  | addBusyLog t =>
    obtain ⟨hpc, h⟩ := Option.ite_none_right_eq_some.mp h
    cases h
    exact .addBusyLog hfault hpc
  | lockUpdate =>
    simp only [next] at h
    split at h
    · cases h
      exact .lockUpdate hfault ‹_›
    · cases h
  | roundUpdate =>
    simp only [next] at h
    split at h
    · cases h
      exact .roundUpdate hfault ‹_›
    · cases h
  | returnUpdate todo =>
    simp only [next] at h
    split at h
    · rename_i hio
      split at h
      · rename_i htodo
        subst htodo
        cases h
        exact .returnUpdate hfault hio
      · cases h
    · cases h
  | shutdown =>
    cases h
    exact .shutdown hfault

end Logger

namespace System

variable {Tid : Type} [LinearOrder Tid] {s s' : System Tid} {n : Nat}

/-- No logger has an address from `n` on. -/
def Below (n : Nat) (s : System Tid) : Prop := ∀ l, n ≤ l → s.loggers l = none

/-- Every logger below `n` has the property. -/
def allBelow (n : Nat) (s : System Tid) (p : Logger Tid → Bool) : Bool :=
  (List.range n).all fun l => (s.loggers l).all p

omit [LinearOrder Tid] in
theorem all_of_allBelow {p : Logger Tid → Bool} (hbelow : s.Below n) (h : s.allBelow n p = true)
    (l : LoggerId) (lg : Logger Tid) (hlg : s.loggers l = some lg) : p lg = true := by
  have hl : l < n := by
    by_contra hlarge
    rw [hbelow l (Nat.not_lt.mp hlarge)] at hlg
    cases hlg
  have hall := List.all_eq_true.mp h l (List.mem_range.mpr hl)
  rwa [hlg] at hall

def producesBelow (n : Nat) (s : System Tid) : Logger.Act Tid → Bool
  | .flush t _ => s.allBelow n fun lg => lg.pc t = .idle
  | .skip _ | .lockFlush _ _ | .push _ | .release _ => true
  | _ => false

def updates : Logger.Act Tid → Bool
  | .lockUpdate | .roundUpdate => true
  | _ => false

/-- A step of the logger, and what else it does. -/
def onLogger (s : System Tid) (l : LoggerId) (act : Logger.Act Tid)
    (after : System Tid → System Tid) : Option (System Tid) :=
  (s.loggers l).bind fun lg => (lg.act act).map fun lg' => after (s.setLogger l lg')

/-- What the action does in a process that is alive, with no logger from `n` on. -/
def next (n : Nat) (s : System Tid) : Act Tid → Option (System Tid)
  | .start =>
    if s.manager.stop = .returned then some { s with manager := s.manager.start } else none
  | .createLog l level =>
    match s.loggers l with
    | none =>
      if l < n ∧ s.manager.logsMutex = none then some (s.createLog l level) else none
    | some _ => none
  | .producer l act => if s.producesBelow n act then s.onLogger l act id else none
  | .addBusyLog l t =>
    s.onLogger l (.addBusyLog t) fun s => { s with manager := s.manager.addBusyLog l }
  | .runLock =>
    if s.manager.run = .loop then some { s with manager := s.manager.runLock } else none
  | .runCollect =>
    match s.manager.run with
    | .collect run =>
      if s.manager.logsMutex = none then some { s with manager := s.manager.runCollect run }
      else none
    | _ => none
  | .update act =>
    s.manager.updating.bind fun l => if updates act then s.onLogger l act id else none
  | .updated todo =>
    s.manager.updating.bind fun l => s.onLogger l (.returnUpdate todo) fun s =>
      { s with manager := s.manager.updated todo }
  | .drainLock =>
    if s.manager.run = .drainLock ∧ s.manager.logsMutex = none then
      some { s with manager := s.manager.drainLock }
    else none
  | .drainEnd =>
    match s.manager.run with
    | .drain it =>
      if s.manager.logs.length ≤ it then some { s with manager := s.manager.drainEnd } else none
    | _ => none
  | .stopFlag =>
    if s.manager.stop = .idle then some { s with manager := s.manager.stopFlag } else none
  | .stopLock =>
    if s.manager.stop = .flagged ∧ s.manager.logsMutex = none then
      some { s with manager := s.manager.stopLock }
    else none
  | .stopShutdown =>
    match s.manager.stop with
    | .shutting (l :: rest) => s.onLogger l .shutdown fun s =>
      { s with manager := { s.manager with stop := .shutting rest } }
    | _ => none
  | .stopUnlock =>
    if s.manager.stop = .shutting [] then some { s with manager := s.manager.stopUnlock } else none
  | .stopJoin =>
    if s.manager.stop = .joining ∧ s.manager.run = .finished then
      some { s with manager := { s.manager with stop := .returned } }
    else none

def act (n : Nat) (s : System Tid) (a : Act Tid) : Option (System Tid) :=
  if s.allBelow n fun lg => lg.fault.isNone then s.next n a else none

theorem onLogger_eq_some {l : LoggerId} {act : Logger.Act Tid} {after : System Tid → System Tid}
    (h : s.onLogger l act after = some s') : ∃ lg lg', s.loggers l = some lg ∧
      Logger.Step lg act lg' ∧ after (s.setLogger l lg') = s' := by
  obtain ⟨lg, hlg, h⟩ := Option.bind_eq_some_iff.mp h
  obtain ⟨lg', hact, rfl⟩ := Option.map_eq_some_iff.mp h
  exact ⟨lg, lg', hlg, Logger.act_sound hact, rfl⟩

omit [LinearOrder Tid] in
theorem produces_of_below {act : Logger.Act Tid} (hbelow : s.Below n)
    (h : s.producesBelow n act = true) : s.Produces act := by
  cases act with
  | flush t r => exact fun l lg hlg => of_decide_eq_true (all_of_allBelow hbelow h l lg hlg)
  | skip | lockFlush | push | release => trivial
  | _ => cases h

omit [LinearOrder Tid] in
theorem Below.setLogger {l : LoggerId} {lg lg' : Logger Tid} (h : s.Below n)
    (hlg : s.loggers l = some lg) : (s.setLogger l lg').Below n := by
  intro l' hl'
  have hne : l' ≠ l := by
    rintro rfl
    rw [h l' hl'] at hlg
    cases hlg
  exact (Function.update_of_ne hne _ _).trans (h l' hl')

theorem act_sound (s : System Tid) (a : Act Tid) (s' : System Tid) (hbelow : s.Below n)
    (h : s.act n a = some s') : Step s a s' ∧ s'.Below n := by
  obtain ⟨hfault, h⟩ := Option.ite_none_right_eq_some.mp h
  have halive : s.Alive := fun l lg hlg =>
    Option.isNone_iff_eq_none.mp (all_of_allBelow hbelow hfault l lg hlg)
  cases a with
  | start =>
    obtain ⟨hstop, h⟩ := Option.ite_none_right_eq_some.mp h
    cases h
    exact ⟨.start halive hstop, hbelow⟩
  | createLog l level =>
    simp only [next] at h
    split at h
    case h_2 => cases h
    rename_i hnone
    obtain ⟨⟨hl, hmutex⟩, h⟩ := Option.ite_none_right_eq_some.mp h
    cases h
    refine ⟨.createLog halive hmutex hnone, ?_⟩
    unfold createLog
    split
    · exact hbelow
    · intro l' hl'
      have hne : l' ≠ l := Nat.ne_of_gt (Nat.lt_of_lt_of_le hl hl')
      exact (Function.update_of_ne hne _ _).trans (hbelow l' hl')
  | producer l act =>
    obtain ⟨hproduces, h⟩ := Option.ite_none_right_eq_some.mp h
    obtain ⟨lg, lg', hlg, hstep, rfl⟩ := onLogger_eq_some h
    exact ⟨.producer halive hlg (produces_of_below hbelow hproduces) hstep, hbelow.setLogger hlg⟩
  | addBusyLog l t =>
    simp only [next] at h
    obtain ⟨lg, lg', hlg, hstep, rfl⟩ := onLogger_eq_some h
    exact ⟨.addBusyLog halive hlg hstep, hbelow.setLogger hlg⟩
  | runLock =>
    obtain ⟨hrun, h⟩ := Option.ite_none_right_eq_some.mp h
    cases h
    exact ⟨.runLock halive hrun, hbelow⟩
  | runCollect =>
    simp only [next] at h
    split at h
    · rename_i hrun
      obtain ⟨hmutex, h⟩ := Option.ite_none_right_eq_some.mp h
      cases h
      exact ⟨.runCollect halive hrun hmutex, hbelow⟩
    · cases h
  | update act =>
    obtain ⟨l, hl, h⟩ := Option.bind_eq_some_iff.mp h
    obtain ⟨hupdates, h⟩ := Option.ite_none_right_eq_some.mp h
    obtain ⟨lg, lg', hlg, hstep, rfl⟩ := onLogger_eq_some h
    refine ⟨.update halive hl hlg ?_ hstep, hbelow.setLogger hlg⟩
    cases act <;> trivial
  | updated todo =>
    obtain ⟨l, hl, h⟩ := Option.bind_eq_some_iff.mp h
    obtain ⟨lg, lg', hlg, hstep, rfl⟩ := onLogger_eq_some h
    exact ⟨.updated halive hl hlg hstep, hbelow.setLogger hlg⟩
  | drainLock =>
    obtain ⟨⟨hrun, hmutex⟩, h⟩ := Option.ite_none_right_eq_some.mp h
    cases h
    exact ⟨.drainLock halive hrun hmutex, hbelow⟩
  | drainEnd =>
    simp only [next] at h
    split at h
    · rename_i hrun
      obtain ⟨hle, h⟩ := Option.ite_none_right_eq_some.mp h
      cases h
      exact ⟨.drainEnd halive hrun hle, hbelow⟩
    · cases h
  | stopFlag =>
    obtain ⟨hstop, h⟩ := Option.ite_none_right_eq_some.mp h
    cases h
    exact ⟨.stopFlag halive hstop, hbelow⟩
  | stopLock =>
    obtain ⟨⟨hstop, hmutex⟩, h⟩ := Option.ite_none_right_eq_some.mp h
    cases h
    exact ⟨.stopLock halive hstop hmutex, hbelow⟩
  | stopShutdown =>
    simp only [next] at h
    split at h
    · rename_i hstop
      obtain ⟨lg, lg', hlg, hstep, rfl⟩ := onLogger_eq_some h
      exact ⟨.stopShutdown halive hstop hlg hstep, hbelow.setLogger hlg⟩
    · cases h
  | stopUnlock =>
    obtain ⟨hstop, h⟩ := Option.ite_none_right_eq_some.mp h
    cases h
    exact ⟨.stopUnlock halive hstop, hbelow⟩
  | stopJoin =>
    obtain ⟨⟨hstop, hrun⟩, h⟩ := Option.ite_none_right_eq_some.mp h
    cases h
    exact ⟨.stopJoin halive hstop hrun, hbelow⟩

omit [LinearOrder Tid] in
theorem below_init : (init : System Tid).Below n := fun _ _ => rfl

/-- A session with a line that is written, and one that is flushed when `Stop` has shut the logger
down. -/
def session : List (Act Nat) :=
  [.start, .createLog 0 1, .producer 0 (.flush 0 ⟨1, [10], by decide, by decide⟩),
    .producer 0 (.lockFlush 0 0), .producer 0 (.push 0), .producer 0 (.push 0),
    .producer 0 (.push 0), .producer 0 (.release 0), .stopFlag, .stopLock, .stopShutdown,
    .producer 0 (.flush 0 ⟨1, [11], by decide, by decide⟩), .producer 0 (.lockFlush 0 1),
    .stopUnlock, .runLock, .runCollect, .update .lockUpdate, .update .roundUpdate,
    .update .roundUpdate, .updated false, .drainLock, .update .lockUpdate, .updated false,
    .drainEnd, .stopJoin]

end System

end Hplsp
