import Mathlib.Data.List.Sort
import Hplsp.Frame
import Hplsp.Lib.Run
import Hplsp.Lib.Tagged

/-!
# One logger

The producers' `Flush`, from the finished line on, and the I/O thread's `Update`, as steps on the
logger they share. A critical section of `mutex_`, a store to `inuse_`, a `PushData` and a round
of `_Log` are one step each.
-/

namespace Hplsp

/-- A level with the bytes of a line, as `_WriteLog` receives them. -/
abbrev Entry := UInt32 × List UInt8

def Record.entry (r : Record) : Entry := (r.level, r.text)

/-- The address of a `BufferInfo` on the heap. -/
abbrev Addr := Nat

/-- `owner` is a ghost: the thread under whose key the object was created. -/
structure BufferInfo (Tid : Type) where
  inuse : Bool
  buffer : Buffer
  owner : Tid

/-- Where a thread is in `Flush`. -/
inductive FlushPc where
  | idle
  | ready (r : Record)
  | pushLevel (r : Record) (info : Addr)
  | pushLength (r : Record) (info : Addr)
  | pushText (r : Record) (info : Addr)
  | release (r : Record) (info : Addr)
  | addBusyLog
  deriving DecidableEq

/-- Where the I/O thread is in `Update`: in `_Log` on the first of `rest` at `nOffset`, with
the buffers of `done` written. -/
inductive UpdatePc where
  | idle
  | log (todo : Bool) (done rest : List Addr) (nOffset : Nat)

structure Logger (Tid : Type) where
  heap : Addr → Option (BufferInfo Tid)
  /-- `buffers_`, in the order of its keys. -/
  buffers : List (Tid × Addr)
  shutdown : Bool
  level : UInt32
  pc : Tid → FlushPc
  io : UpdatePc
  /-- What ended the process, if anything did. -/
  fault : Option Fault
  /-- The calls of `_WriteLog` so far, the lines that `Flush` printed itself, and the lines whose
  `Flush` is over, each with its thread. -/
  written : List (Tid × Entry)
  printed : List (Tid × Entry)
  flushed : List (Tid × Entry)

/-- `kFlushThreshold`. -/
def kFlushThreshold : Nat := 2 * 1024 * 1024

namespace Logger

variable {Tid : Type} [LinearOrder Tid]

def init (level : UInt32) : Logger Tid where
  heap := fun _ => none
  buffers := []
  shutdown := false
  level := level
  pc := fun _ => .idle
  io := .idle
  fault := none
  written := []
  printed := []
  flushed := []

def isLevelForbid (s : Logger Tid) (level : UInt32) : Bool := level &&& s.level == 0

def setPc (s : Logger Tid) (t : Tid) (pc : FlushPc) : Logger Tid :=
  { s with pc := Function.update s.pc t pc }

def crash (s : Logger Tid) (e : Fault) : Logger Tid := { s with fault := some e }

/-- The first critical section of `Flush`, after the lookup: `inuse_ = true`. -/
def acquire (s : Logger Tid) (t : Tid) (r : Record) (a : Addr) (info : BufferInfo Tid) :
    Logger Tid :=
  { s with heap := Function.update s.heap a (some { info with inuse := true }) }.setPc t
    (.pushLevel r a)

/-- The critical section of `Flush`; `fresh` is where `new BufferInfo()` would go. -/
def lockFlush (s : Logger Tid) (t : Tid) (r : Record) (fresh : Addr) : Logger Tid :=
  if s.shutdown then
    { s with
      printed := s.printed ++ [(t, r.entry)]
      flushed := s.flushed ++ [(t, r.entry)] }.setPc t .idle
  else
    match s.buffers.lookup t with
    | some a =>
      match s.heap a with
      | some info => if info.inuse then s.crash (.assertion .flushInuse) else s.acquire t r a info
      | none => s.crash (.overrun .heap)
    | none =>
      { s with
        buffers := s.buffers.orderedInsert (fun p q => p.1 ≤ q.1) (t, fresh) }.acquire t r fresh
        ⟨false, Buffer.new, t⟩

/-- One of the three pushes through the raw pointer `info`. -/
def push (s : Logger Tid) (t : Tid) (a : Addr) (bytes : List UInt8) (next : FlushPc) :
    Logger Tid :=
  match s.heap a with
  | none => s.crash (.overrun .heap)
  | some info =>
    match info.buffer.pushData (.block bytes) with
    | .error e => s.crash e
    | .ok (b, _) =>
      { s with heap := Function.update s.heap a (some { info with buffer := b }) }.setPc t next

/-- `inuse_ = false`, in either branch of the threshold test. -/
def release (s : Logger Tid) (t : Tid) (r : Record) (a : Addr) : Logger Tid :=
  match s.heap a with
  | none => s.crash (.overrun .heap)
  | some info =>
    { s with
      heap := Function.update s.heap a (some { info with inuse := false })
      flushed := s.flushed ++ [(t, r.entry)] }.setPc t
      (if kFlushThreshold < info.buffer.readableSize then .addBusyLog else .idle)

def inuseAt (s : Logger Tid) (a : Addr) : Bool :=
  match s.heap a with
  | some info => info.inuse
  | none => false

/-- The critical section of `Update`. -/
def lockUpdate (s : Logger Tid) : Logger Tid :=
  { s with
    buffers := s.buffers.filter fun p => s.inuseAt p.2
    io := .log (s.buffers.any fun p => s.inuseAt p.2) []
      ((s.buffers.filter fun p => !s.inuseAt p.2).map Prod.snd) 0 }

/-- One round of `_Log` on the first buffer of `rest`. -/
def roundUpdate (s : Logger Tid) (todo : Bool) (done : List Addr) (a : Addr) (rest : List Addr)
    (nOffset : Nat) : Logger Tid :=
  match s.heap a with
  | none => s.crash (.overrun .heap)
  | some info =>
    match logRound info.buffer.contents nOffset with
    | .error e => s.crash e
    | .ok (.write c nOffset) =>
      if c.len = 0 then s.crash (.assertion .writeLogRecord)
      else
        { s with
          written := s.written ++
            [(info.owner, c.level, Cells.slice info.buffer.contents c.pos c.len)]
          io := .log todo done (a :: rest) nOffset }
    | .ok _ =>
      if nOffset = info.buffer.readableSize then { s with io := .log todo (done ++ [a]) rest 0 }
      else s.crash (.assertion .updateWritten)

/-- The end of `Update`: `tmpBufs` goes out of scope. -/
def returnUpdate (s : Logger Tid) (done : List Addr) : Logger Tid :=
  { s with
    heap := fun a => if a ∈ done then none else s.heap a
    io := .idle }

def doShutdown (s : Logger Tid) : Logger Tid := { s with shutdown := true }

inductive Act (Tid : Type) where
  | flush (t : Tid) (r : Record)
  | skip (t : Tid)
  | lockFlush (t : Tid) (fresh : Addr)
  | push (t : Tid)
  | release (t : Tid)
  | addBusyLog (t : Tid)
  | lockUpdate
  | roundUpdate
  | returnUpdate (todo : Bool)
  | shutdown

/-- The steps of a logger whose process is alive. `skip` is a `Flush` that leaves early, at a
forbidden level or with an empty line. -/
inductive Step : Logger Tid → Act Tid → Logger Tid → Prop
  | flush {s t r} : s.fault = none → s.pc t = .idle → s.isLevelForbid r.level = false →
      Step s (.flush t r) (s.setPc t (.ready r))
  | skip {s t} : s.fault = none → s.pc t = .idle → Step s (.skip t) s
  | lockFlush {s t r fresh} : s.fault = none → s.pc t = .ready r → s.heap fresh = none →
      Step s (.lockFlush t fresh) (s.lockFlush t r fresh)
  | pushLevel {s t r a} : s.fault = none → s.pc t = .pushLevel r a →
      Step s (.push t)
        (s.push t a (LittleEndian.encode 4 r.level.toNat) (.pushLength r a))
  | pushLength {s t r a} : s.fault = none → s.pc t = .pushLength r a →
      Step s (.push t) (s.push t a (LittleEndian.encode 8 r.text.length) (.pushText r a))
  | pushText {s t r a} : s.fault = none → s.pc t = .pushText r a →
      Step s (.push t) (s.push t a r.text (.release r a))
  | release {s t r a} : s.fault = none → s.pc t = .release r a →
      Step s (.release t) (s.release t r a)
  | addBusyLog {s t} : s.fault = none → s.pc t = .addBusyLog →
      Step s (.addBusyLog t) (s.setPc t .idle)
  | lockUpdate {s} : s.fault = none → s.io = .idle → Step s .lockUpdate s.lockUpdate
  | roundUpdate {s todo done a rest nOffset} : s.fault = none →
      s.io = .log todo done (a :: rest) nOffset →
      Step s .roundUpdate (s.roundUpdate todo done a rest nOffset)
  | returnUpdate {s todo done nOffset} : s.fault = none → s.io = .log todo done [] nOffset →
      Step s (.returnUpdate todo) (s.returnUpdate done)
  | shutdown {s} : s.fault = none → Step s .shutdown s.doShutdown

/-- A state that some run from a new logger reaches. -/
def Reachable (s : Logger Tid) : Prop := ∃ level acts, Lts.Run Step (init level) acts s

end Logger

end Hplsp
