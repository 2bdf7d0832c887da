import Hplsp.LoggerStep

/-!
# The log manager

`Start`, `CreateLog`, `AddBusyLog`, `Stop` and the I/O thread's `Run`, as steps over all loggers.
A critical section of `mutex_`, taking `logsMutex_` and giving it back are one step each; the
loggers move by their own steps.
-/

namespace Hplsp

/-- The address of a `Logger`. -/
abbrev LoggerId := Nat

/-- Who holds `logsMutex_` for longer than one step. -/
inductive Holder where
  | run
  | stop
  deriving DecidableEq, Repr

/-- Where the I/O thread is in `Run`; the flag is the local variable `run`. -/
inductive RunPc where
  | loop
  | collect (run : Bool)
  | update (run : Bool) (tmpBusy : List LoggerId)
  | drainLock
  | drain (it : Nat)
  | finished
  deriving DecidableEq, Repr

/-- Where `Stop` is; `idle` is a running session, `returned` the time before `Start` as well. -/
inductive StopPc where
  | idle
  | flagged
  | shutting (rest : List LoggerId)
  | joining
  | returned
  deriving DecidableEq, Repr

structure LogManager where
  logs : List LoggerId
  busyLogs : List LoggerId
  shutdown : Bool
  logsMutex : Option Holder
  run : RunPc
  stop : StopPc
  /-- The loggers that `CreateLog` has returned since `Start`. -/
  created : List LoggerId

/-- The rest of the `for` loop over `tmpBusy`, or what follows it. -/
def RunPc.next (run : Bool) : List LoggerId → RunPc
  | [] => if run then .loop else .drainLock
  | l :: tmpBusy => .update run (l :: tmpBusy)

namespace LogManager

def init : LogManager where
  logs := []
  busyLogs := []
  shutdown := true
  logsMutex := none
  run := .finished
  stop := .returned
  created := []

def start (m : LogManager) : LogManager :=
  { m with shutdown := false, run := .loop, stop := .idle, created := [] }

def createLog (m : LogManager) (l : LoggerId) : LogManager :=
  { m with logs := m.logs ++ [l], created := l :: m.created }

def addBusyLog (m : LogManager) (l : LoggerId) : LogManager :=
  if m.shutdown || m.busyLogs.contains l then m
  else { m with busyLogs := m.busyLogs.orderedInsert (· ≤ ·) l }

/-- The critical section of `Run` on `mutex_`. -/
def runLock (m : LogManager) : LogManager :=
  { m with
    busyLogs := []
    run := if m.busyLogs = [] then .collect !m.shutdown else .next (!m.shutdown) m.busyLogs }

/-- Nobody was busy: all of `logs_`. -/
def runCollect (m : LogManager) (run : Bool) : LogManager := { m with run := .next run m.logs }

/-- The logger on which the I/O thread is in `Update`. -/
def updating (m : LogManager) : Option LoggerId :=
  match m.run with
  | .update _ tmpBusy => tmpBusy.head?
  | .drain it => m.logs[it]?
  | _ => none

/-- What `Run` does with the result of an `Update`: the drain erases the loggers without `todo`. -/
def updated (m : LogManager) (todo : Bool) : LogManager :=
  match m.run with
  | .update run tmpBusy => { m with run := .next run tmpBusy.tail }
  | .drain it =>
    if todo then { m with run := .drain (it + 1) } else { m with logs := m.logs.eraseIdx it }
  | _ => m

def drainLock (m : LogManager) : LogManager :=
  { m with logsMutex := some .run, run := .drain 0 }

/-- The end of the inner loop of the drain, and of the outer one once `logs_` is empty. -/
def drainEnd (m : LogManager) : LogManager :=
  if m.logs = [] then { m with logsMutex := none, run := .finished }
  else { m with run := .drain 0 }

def stopFlag (m : LogManager) : LogManager := { m with shutdown := true, stop := .flagged }

def stopLock (m : LogManager) : LogManager :=
  { m with logsMutex := some .stop, stop := .shutting m.logs }

def stopUnlock (m : LogManager) : LogManager := { m with logsMutex := none, stop := .joining }

end LogManager

/-- All loggers ever made, and the manager. -/
structure System (Tid : Type) where
  loggers : LoggerId → Option (Logger Tid)
  manager : LogManager

namespace System

variable {Tid : Type} [LinearOrder Tid]

def init : System Tid where
  loggers := fun _ => none
  manager := .init

def setLogger (s : System Tid) (l : LoggerId) (lg : Logger Tid) : System Tid :=
  { s with loggers := Function.update s.loggers l (some lg) }

/-- With `shutdown_` set the caller gets the null log, on which nothing is ever flushed. -/
def createLog (s : System Tid) (l : LoggerId) (level : UInt32) : System Tid :=
  if s.manager.shutdown then s
  else { s.setLogger l (Logger.init level) with manager := s.manager.createLog l }

/-- No assertion has aborted the process. -/
def Alive (s : System Tid) : Prop := ∀ l lg, s.loggers l = some lg → lg.fault = none

inductive Act (Tid : Type) where
  | start
  | createLog (l : LoggerId) (level : UInt32)
  | producer (l : LoggerId) (act : Logger.Act Tid)
  | addBusyLog (l : LoggerId) (t : Tid)
  | runLock
  | runCollect
  | update (act : Logger.Act Tid)
  | updated (todo : Bool)
  | drainLock
  | drainEnd
  | stopFlag
  | stopLock
  | stopShutdown
  | stopUnlock
  | stopJoin

/-- May a producer take the step? A thread starts a `Flush` only when it is in no other one. -/
def Produces (s : System Tid) : Logger.Act Tid → Prop
  | .flush t _ => ∀ l lg, s.loggers l = some lg → lg.pc t = .idle
  | .skip _ | .lockFlush _ _ | .push _ | .release _ => True
  | _ => False

/-- The steps inside `Update`. -/
def Updates : Logger.Act Tid → Prop
  | .lockUpdate | .roundUpdate => True
  | _ => False

inductive Step : System Tid → Act Tid → System Tid → Prop
  | start {s} : s.Alive → s.manager.stop = .returned →
      Step s .start { s with manager := s.manager.start }
  | createLog {s l level} : s.Alive → s.manager.logsMutex = none → s.loggers l = none →
      Step s (.createLog l level) (s.createLog l level)
  | producer {s l lg lg' act} : s.Alive → s.loggers l = some lg → s.Produces act →
      Logger.Step lg act lg' → Step s (.producer l act) (s.setLogger l lg')
  | addBusyLog {s l lg lg' t} : s.Alive → s.loggers l = some lg →
      Logger.Step lg (.addBusyLog t) lg' →
      Step s (.addBusyLog l t) { s.setLogger l lg' with manager := s.manager.addBusyLog l }
  | runLock {s} : s.Alive → s.manager.run = .loop →
      Step s .runLock { s with manager := s.manager.runLock }
  | runCollect {s run} : s.Alive → s.manager.run = .collect run → s.manager.logsMutex = none →
      Step s .runCollect { s with manager := s.manager.runCollect run }
  | update {s l lg lg' act} : s.Alive → s.manager.updating = some l → s.loggers l = some lg →
      Updates act → Logger.Step lg act lg' → Step s (.update act) (s.setLogger l lg')
  | updated {s l lg lg' todo} : s.Alive → s.manager.updating = some l → s.loggers l = some lg →
      Logger.Step lg (.returnUpdate todo) lg' →
      Step s (.updated todo) { s.setLogger l lg' with manager := s.manager.updated todo }
  | drainLock {s} : s.Alive → s.manager.run = .drainLock → s.manager.logsMutex = none →
      Step s .drainLock { s with manager := s.manager.drainLock }
  | drainEnd {s it} : s.Alive → s.manager.run = .drain it → s.manager.logs.length ≤ it →
      Step s .drainEnd { s with manager := s.manager.drainEnd }
  | stopFlag {s} : s.Alive → s.manager.stop = .idle →
      Step s .stopFlag { s with manager := s.manager.stopFlag }
  | stopLock {s} : s.Alive → s.manager.stop = .flagged → s.manager.logsMutex = none →
      Step s .stopLock { s with manager := s.manager.stopLock }
  | stopShutdown {s l rest lg lg'} : s.Alive → s.manager.stop = .shutting (l :: rest) →
      s.loggers l = some lg → Logger.Step lg .shutdown lg' →
      Step s .stopShutdown
        { s.setLogger l lg' with manager := { s.manager with stop := .shutting rest } }
  | stopUnlock {s} : s.Alive → s.manager.stop = .shutting [] →
      Step s .stopUnlock { s with manager := s.manager.stopUnlock }
  | stopJoin {s} : s.Alive → s.manager.stop = .joining → s.manager.run = .finished →
      Step s .stopJoin { s with manager := { s.manager with stop := .returned } }

end System

end Hplsp
