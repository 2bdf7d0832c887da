import Hplsp.Frame
import Hplsp.MmapContent

/-! `_WriteLog`: one line to the console and to the current log file, with the rotation. -/

namespace Hplsp

open Outcome

def kDefaultLogSize : Nat := 32 * 1024 * 1024

namespace LogDest

def logConsole : UInt32 := 0x01
def logFile : UInt32 := 0x02

end LogDest

/-- The escape sequences of `_Color` that `_WriteLog` prints. -/
inductive LogColor where
  | red
  | green
  | yellow
  | normal
  | white
  deriving DecidableEq, Repr

namespace LogColor

def text : LogColor → String
  | .red => "\x1b[1;31;40m"
  | .green => "\x1b[1;32;40m"
  | .yellow => "\x1b[1;33;40m"
  | .normal => "\x1b[0m"
  | .white => "\x1b[1;37;40m"

def bytes (c : LogColor) : List UInt8 := c.text.toList.map fun ch => UInt8.ofNat ch.toNat

/-- The `switch` of `_WriteLog`. -/
def ofLevel (level : UInt32) : LogColor :=
  if level = LogLevel.logINFO then .green
  else if level = LogLevel.logDEBUG then .white
  else if level = LogLevel.logWARN then .yellow
  else .red

end LogColor

/-- What the system contributes to one `_OpenLogFile`: the text of the time, and the answers. -/
structure OpenAnswers where
  now : String
  ans : Answers

/-- The part of a `Logger` that `_WriteLog` uses, with `Logger::seq_` and all that went to the
console. -/
structure LogFile where
  dest : UInt32
  directory : String
  pid : Nat
  seq : Nat
  fileName : FileName
  file : OMmapFile
  console : List UInt8
  /-- The names passed to `_OpenLogFile` so far. -/
  created : List FileName

/-- A call of `_WriteLog`, with the system's answers to the write. -/
structure LogCall where
  level : UInt32
  text : List UInt8
  ans : Answers

/-- `fprintf(stdout, "%.*s", static_cast<int>(len), data)`: up to a NUL, and up to `len` characters
unless the cast makes it negative. -/
def printData (data : List UInt8) : Except Fault (List UInt8) :=
  let precision := data.length % 2 ^ 32
  if precision < 2 ^ 31 then .ok ((data.take precision).takeWhile (· ≠ 0))
  else if 0 ∈ data then .ok (data.takeWhile (· ≠ 0))
  else .error (.overrun .logData)

namespace LogFile

/-- A logger after `Init`, before its first line. -/
def new (dest : UInt32) (directory : String) (pid seq : Nat)
    (disk : FileName → Option SparseFile) : LogFile :=
  ⟨dest, directory, pid, seq, "", .new disk, [], []⟩

def checkChangeFile (w : LogFile) : Bool :=
  if !w.file.isOpen then true else kDefaultLogSize < Word64.add w.file.offset kMaxCharPerLog

def makeFileName (w : LogFile) (now : String) : LogFile :=
  let seq := (w.seq + 1) % 2 ^ 32
  { w with
    seq := seq
    fileName :=
      w.directory ++ "/" ++ now ++ "@" ++ toString w.pid ++ "-" ++ toString seq ++ ".log" }

def openLogFile (w : LogFile) (ans : Answers) : Except Fault (LogFile × Bool) := do
  let (file, opened) ← w.file.openFile ans w.fileName true
  .ok ({ w with file := file, created := w.created ++ [w.fileName] }, opened)

def closeLogFile (w : LogFile) : LogFile := { w with file := w.file.close }

/-- The `while` loop of `_WriteLog`. The answers are numbered by the files opened so far. -/
def changeFile (env : Nat → OpenAnswers) : Nat → LogFile → Except Fault LogFile
  | 0, _ => .error .diverges
  | fuel + 1, w =>
    if w.checkChangeFile then do
      let answers := env w.created.length
      let (w, opened) ← (w.closeLogFile.makeFileName answers.now).openLogFile answers.ans
      if opened then changeFile env fuel w else .ok w
    else .ok w

def writeConsole (w : LogFile) (level : UInt32) (data : List UInt8) : Except Fault LogFile :=
  if w.dest &&& LogDest.logConsole ≠ 0 then do
    let text ← printData data
    .ok { w with
      console := w.console ++ (LogColor.ofLevel level).bytes ++ text ++ LogColor.normal.bytes }
  else .ok w

def writeFile (env : Nat → OpenAnswers) (fuel : Nat) (w : LogFile) (ans : Answers)
    (data : List UInt8) : Except Fault LogFile :=
  if w.dest &&& LogDest.logFile ≠ 0 then do
    let w ← changeFile env fuel w
    if w.file.isOpen then
      let file ← w.file.write ans data
      .ok { w with file := file }
    else .error (.assertion .writeLogOpen)
  else .ok w

def writeLog (env : Nat → OpenAnswers) (fuel : Nat) (w : LogFile) (call : LogCall) :
    Except Fault LogFile :=
  if call.text.length = 0 then .error (.assertion .writeLogRecord)
  else do
    let w ← w.writeConsole call.level call.text
    writeFile env fuel w call.ans call.text

/-- The content that a file has at last, once `~Logger` has closed the current one. -/
def finalContent (w : LogFile) (name : FileName) : List UInt8 :=
  match w.file.close.disk name with
  | some f => f.contents
  | none => []

end LogFile

end Hplsp
