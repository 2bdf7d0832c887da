import Hplsp.Frame
import Hplsp.Manager
import Hplsp.TimeUtil

/-!
# The line under construction

`operator<<` and `Flush` on the thread-local `tmpBuffer_`, up to the point where the finished line
is printed or handed to the logger's buffer.
-/

namespace Hplsp

open Outcome Printf

def kPrefixLevelLen : Nat := 6
def kPrefixTimeLen : Nat := 27

/-- Where the text of a line begins. -/
def kPrefixLen : Nat := kPrefixLevelLen + kPrefixTimeLen

/-- The thread-local statics of `Logger`. -/
structure Line where
  tmpBuffer : List UInt8
  pos : Nat
  lastLogSecond : Int
  lastLogMSecond : Int
  curLevel : UInt32
  tid : List UInt8
  tidLen : Nat

/-- What `Flush` and `operator<<` read of the logger they are called on. -/
structure LoggerFlags where
  level : UInt32
  shutdown : Bool
  deriving DecidableEq, Repr

def LoggerFlags.isLevelForbid (fl : LoggerFlags) (level : UInt32) : Bool := level &&& fl.level == 0

/-- `localtime_r`, and what printing `std::this_thread::get_id()` yields. -/
structure Platform where
  localtime : Nat → Tm
  threadId : List UInt8

/-- What `%.6g` prints. -/
structure DoubleText where
  text : List UInt8
  text_ne : text ≠ []
  length_le : text.length ≤ 13
  noNul : NoNul text

/-- An argument of `operator<<`, one constructor for each overload. -/
inductive Fragment where
  | cstr (msg : List UInt8)
  | ucstr (msg : List UInt8)
  | string (msg : List UInt8)
  | ptr (a : UInt64)
  | uchar (a : UInt8)
  | char (a : Int8)
  | ushort (a : UInt16)
  | short (a : Int16)
  | uint (a : UInt32)
  | int (a : Int32)
  | ulong (a : UInt64)
  | long (a : Int64)
  | ulonglong (a : UInt64)
  | longlong (a : Int64)
  | double (a : DoubleText)

namespace Fragment

/-- The characters that the overload copies or prints; `strlen` stops at the first NUL. -/
def text : Fragment → List UInt8
  | .cstr msg | .ucstr msg | .string msg => msg.takeWhile (· ≠ 0)
  | .ptr a => hexPadded 18 a.toNat
  -- `%hhd` for the unsigned one and `%hhu` for the other
  | .uchar a => signed a.toInt8.toInt
  | .char a => decimal a.toUInt8.toNat
  | .ushort a => decimal a.toNat
  | .short a => signed a.toInt
  | .uint a => decimal a.toNat
  | .int a => signed a.toInt
  | .ulong a => decimal a.toNat
  | .long a => signed a.toInt
  | .ulonglong a => decimal a.toNat
  | .longlong a => signed a.toInt
  | .double a => a.text

/-- The room that the overload asks for. -/
def width : Fragment → Nat
  | .cstr msg | .ucstr msg | .string msg => (msg.takeWhile (· ≠ 0)).length
  | .ptr _ => 18
  | .uchar _ | .char _ => 3
  | .ushort _ | .short _ => 5
  | .uint _ | .int _ => 10
  | .ulong _ | .long _ | .ulonglong _ | .longlong _ => 20
  | .double _ => 20

end Fragment

/-- A finished line, with the way it left `Flush`. -/
inductive Emission where
  | queued (level : UInt32) (text : List UInt8)
  | printed (text : List UInt8)
  deriving DecidableEq, Repr

namespace Line

def init : Line where
  tmpBuffer := List.replicate kMaxCharPerLog 0
  pos := kPrefixLen
  lastLogSecond := -1
  lastLogMSecond := -1
  curLevel := 0
  tid := List.replicate 16 0
  tidLen := 0

def reset (l : Line) : Line := { l with curLevel := 0, pos := kPrefixLen }

/-- The three overloads for strings. -/
def appendText (l : Line) (msg : List UInt8) : Except Fault Line :=
  if kMaxCharPerLog ≤ l.pos + msg.length then .ok l
  else do
    let tmpBuffer ← Cells.writeAt (.overrun .tmpBuffer) l.tmpBuffer l.pos msg
    .ok { l with tmpBuffer := tmpBuffer, pos := l.pos + msg.length }

/-- The other overloads: `snprintf` stores what fits, and returns the length of the whole text. -/
def appendNumber (l : Line) (width : Nat) (text : List UInt8) : Except Fault Line :=
  if l.pos + width < kMaxCharPerLog then do
    let tmpBuffer ← Cells.writeAt (.overrun .tmpBuffer) l.tmpBuffer l.pos
      (stored (kMaxCharPerLog - l.pos) text)
    .ok { l with tmpBuffer := tmpBuffer, pos := l.pos + text.length }
  else .ok l

def append (l : Line) (fl : LoggerFlags) (f : Fragment) : Except Fault Line :=
  if fl.isLevelForbid l.curLevel then .ok l
  else match f with
    | .cstr _ | .ucstr _ | .string _ => l.appendText f.text
    | _ => l.appendNumber f.width f.text

/-- The time in front of the line: all of it in a new second, else the microseconds if they
differ from those stored last. -/
def stamp (p : Platform) (l : Line) (now : Time) : Except Fault Line :=
  if (now.seconds : Int) ≠ l.lastLogSecond then do
    let text ← Time.formatTime p.localtime now
    let tmpBuffer ← Cells.writeAt (.overrun .tmpBuffer) l.tmpBuffer 0 text
    .ok { l with tmpBuffer := tmpBuffer, lastLogSecond := now.seconds }
  else
    let msec := now.microSeconds % 1000000
    if (msec : Int) ≠ l.lastLogMSecond then do
      let tmpBuffer ← Cells.writeAt (.overrun .tmpBuffer) l.tmpBuffer 20
        (stored 7 (padded 6 (decimal msec)))
      let tmpBuffer ← Cells.writeAt (.overrun .tmpBuffer) tmpBuffer 26 [chr ']']
      .ok { l with tmpBuffer := tmpBuffer, lastLogMSecond := msec }
    else .ok l

/-- The texts of the `switch` in `Flush`, of which `kPrefixLevelLen` bytes are copied. -/
def levelText (level : UInt32) : List UInt8 :=
  if level = LogLevel.logINFO then ascii "[INFO]:"
  else if level = LogLevel.logDEBUG then ascii "[DBGUG]:"
  else if level = LogLevel.logWARN then ascii "[WARN]:"
  else if level = LogLevel.logERROR then ascii "[ERROR]:"
  else ascii "[???]:"

def writeLevel (l : Line) (level : UInt32) : Except Fault Line := do
  let tmpBuffer ← Cells.writeAt (.overrun .tmpBuffer) l.tmpBuffer kPrefixTimeLen
    ((levelText level).take kPrefixLevelLen)
  .ok { l with tmpBuffer := tmpBuffer }

/-- `tid_`, filled on the thread's first line. -/
def fillTid (p : Platform) (l : Line) : Except Fault Line :=
  if l.tidLen = 0 then do
    let tidLen := min p.threadId.length 16
    let tid ← Cells.writeAt (.overrun .tid) l.tid 0 [chr '|']
    let tid ← Cells.writeAt (.overrun .tid) tid 1 (p.threadId.take tidLen)
    .ok { l with tid := tid, tidLen := tidLen + 1 }
  else .ok l

/-- The thread tag, the newline and the NUL, which nothing checks the room for. -/
def terminate (l : Line) : Except Fault Line := do
  let tag ← Cells.readAt (.overrun .tid) l.tid 0 l.tidLen
  let tmpBuffer ← Cells.writeAt (.overrun .tmpBuffer) l.tmpBuffer l.pos tag
  let pos := l.pos + l.tidLen
  let tmpBuffer ← Cells.writeAt (.overrun .tmpBuffer) tmpBuffer pos [chr '\n']
  let pos := pos + 1
  let tmpBuffer ← Cells.writeAt (.overrun .tmpBuffer) tmpBuffer pos [0]
  .ok { l with tmpBuffer := tmpBuffer, pos := pos }

/-- `Flush` between the test for an empty line and the lock. -/
def finish (p : Platform) (l : Line) (level : UInt32) (now : Time) : Except Fault Line := do
  let l ← l.stamp p now
  let l ← l.writeLevel level
  let l ← l.fillTid p
  l.terminate

/-- `Flush`, with its five exits. The one for a logger that is shut down does not reset. -/
def flush (p : Platform) (l : Line) (fl : LoggerFlags) (level : UInt32) (now : Time) :
    Except Fault (Line × Option Emission) :=
  if level ≠ l.curLevel then .error (.assertion .flushLevel)
  else if fl.isLevelForbid l.curLevel then .ok (l.reset, none)
  else if level &&& l.curLevel = 0 ∨ l.pos < kPrefixLen then .error (.assertion .flushState)
  else if l.pos = kPrefixLen then .ok (l, none)
  else do
    let l ← l.finish p level now
    if fl.shutdown then .ok (l, some (.printed (l.tmpBuffer.takeWhile (· ≠ 0))))
    else .ok (l.reset, some (.queued level (l.tmpBuffer.take l.pos)))

end Line

/-- A thread's view of logging: its statics, the loggers, and the lines it has emitted. -/
structure ThreadLog where
  line : Line
  loggers : LoggerId → LoggerFlags
  out : List (LoggerId × Emission)

/-- What happens on the thread, and `Shutdown`, which may come from any other. -/
inductive Event where
  | setCurLevel (level : UInt32)
  | append (l : LoggerId) (f : Fragment)
  | flush (l : LoggerId) (level : UInt32) (now : Time)
  | shutdown (l : LoggerId)

namespace ThreadLog

def init (loggers : LoggerId → LoggerFlags) : ThreadLog := ⟨Line.init, loggers, []⟩

def setShutdown (loggers : LoggerId → LoggerFlags) (l : LoggerId) : LoggerId → LoggerFlags :=
  Function.update loggers l { loggers l with shutdown := true }

def step (p : Platform) (s : ThreadLog) : Event → Except Fault ThreadLog
  | .setCurLevel level => .ok { s with line := { s.line with curLevel := level } }
  | .append l f => do
    let line ← s.line.append (s.loggers l) f
    .ok { s with line := line }
  | .flush l level now => do
    let (line, emission) ← s.line.flush p (s.loggers l) level now
    .ok { s with line := line, out := s.out ++ emission.toList.map fun e => (l, e) }
  | .shutdown l => .ok { s with loggers := setShutdown s.loggers l }

end ThreadLog

end Hplsp
