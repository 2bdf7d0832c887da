import Mathlib.Logic.Function.Basic
import Hplsp.Fault
import Hplsp.Lib.SparseFile

/-!
# Memory-mapped output files

`OMmapFile` with the files of the system it writes to. A shared mapping is coherent with its file,
so a store through `memory_` is a store to the file.
-/

namespace Hplsp

open Outcome

/-- What a path names on the disk. -/
abbrev FileName := String

/-- The pages that `memory_` points to. -/
structure Mapping where
  base : Nat
  length : Nat
  deriving DecidableEq, Repr

/-- A call of `msync` on `length` bytes at `addr`, which map the file from `pos` on. -/
structure Msync where
  addr : Nat
  pos : Nat
  length : Nat
  deriving DecidableEq, Repr

/-- What the system answers during one call: whether `open` and the asserted `ftruncate` succeed,
and where `mmap` puts the pages. -/
structure Answers where
  opened : Bool
  truncated : Bool
  mapped : Option Nat
  deriving DecidableEq, Repr

/-- `file_` is the path behind the descriptor; `disk` and `msyncs` are outside the object. -/
structure OMmapFile where
  file : Option FileName
  memory : Option Mapping
  offset : Nat
  size : Nat
  syncPos : Nat
  disk : FileName → Option SparseFile
  msyncs : List Msync

namespace OMmapFile

def kDefaultSize : Nat := 1 * 1024 * 1024

/-- `OMmapFile()` on a system with the given files. -/
def new (disk : FileName → Option SparseFile) : OMmapFile := ⟨none, none, 0, 0, 0, disk, []⟩

def isOpen (s : OMmapFile) : Bool := s.file.isSome

/-- `ftruncate` on the open file. -/
def ftruncate (s : OMmapFile) (name : FileName) (size : Nat) : FileName → Option SparseFile :=
  Function.update s.disk name ((s.disk name).map fun f => f.truncate size)

def close (s : OMmapFile) : OMmapFile :=
  match s.file with
  | none => s
  | some name => ⟨none, none, 0, 0, 0, s.ftruncate name s.offset, s.msyncs⟩

/-- Whether `msync` succeeds makes no difference here. -/
def sync (s : OMmapFile) : OMmapFile × Bool :=
  if s.file = none then (s, false)
  else if s.offset ≤ s.syncPos then (s, false)
  else
    -- `kInvalidAddr` is all ones
    let memory := match s.memory with
      | some m => m.base
      | none => 2 ^ 64 - 1
    ({ s with
      syncPos := s.offset
      msyncs := s.msyncs ++ [⟨Word64.add memory s.syncPos, s.syncPos, s.offset - s.syncPos⟩] },
      true)

def mapWriteOnly (s : OMmapFile) (ans : Answers) : Except Fault (OMmapFile × Bool) :=
  if s.size = 0 ∨ s.file = none then .error (.assertion .mmapMap)
  else
    .ok ({ s with memory := ans.mapped.map fun base => ⟨base, s.size⟩ }, ans.mapped.isSome)

def openFile (s : OMmapFile) (ans : Answers) (name : FileName) (bAppend : Bool) :
    Except Fault (OMmapFile × Bool) :=
  let s := s.close
  if !ans.opened then .error (.assertion .mmapOpen)
  else
    -- `O_CREAT`
    let f := (s.disk name).getD .empty
    let s := { s with
      file := some name
      size := if bAppend then max kDefaultSize f.len else kDefaultSize
      offset := if bAppend then f.len else 0
      disk := Function.update s.disk name (some f) }
    if !ans.truncated then .error (.assertion .mmapFtruncate)
    else mapWriteOnly { s with disk := s.ftruncate name s.size } ans

def truncate (s : OMmapFile) (ans : Answers) (size : Nat) : Except Fault OMmapFile :=
  if size = s.size then .ok s
  else
    match s.file with
    | none => .error (.assertion .mmapFtruncate)
    | some name =>
      if !ans.truncated then .error (.assertion .mmapFtruncate)
      else do
        let (s, _) ← mapWriteOnly { s with
          size := size
          offset := if size < s.offset then size else s.offset
          disk := s.ftruncate name size } ans
        .ok s

def extendFileSize (s : OMmapFile) (ans : Answers) (size : Nat) : Except Fault OMmapFile :=
  if s.file = none then .error (.assertion .mmapExtend)
  else if s.size < size then s.truncate ans size
  else .ok s

/-- The loop of `_AssureSpace` on `newSize`. From any start, doubling modulo 2^64 comes to 0 within
64 rounds and from `kDefaultSize` to 0 again in 44, so more rounds than that never end. -/
def doubleSize (needed : Nat) : Nat → Nat → Except Fault Nat
  | 0, _ => .error .diverges
  | fuel + 1, newSize =>
    if newSize < needed then
      doubleSize needed fuel (if newSize = 0 then kDefaultSize else Word64.mul newSize 2)
    else .ok newSize

def assureSpace (s : OMmapFile) (ans : Answers) (len : Nat) : Except Fault OMmapFile := do
  let newSize ← doubleSize (Word64.add s.offset len) 128 s.size
  s.extendFileSize ans newSize

/-- The `memcpy` to `memory_ + offset_`; past the end of the pages or of the file it faults. -/
def copy (s : OMmapFile) (data : List UInt8) : Except Fault (FileName → Option SparseFile) :=
  match s.file, s.memory with
  | some name, some m =>
    match s.disk name with
    | some f =>
      if s.offset + data.length ≤ m.length ∧ s.offset + data.length ≤ f.len then
        .ok (Function.update s.disk name (some (f.write s.offset data)))
      else .error (.overrun .mapping)
    | none => .error (.overrun .mapping)
  | _, _ => .error (.overrun .mapping)

def write (s : OMmapFile) (ans : Answers) (data : List UInt8) : Except Fault OMmapFile := do
  let s ← s.assureSpace ans data.length
  if Word64.add s.offset data.length ≤ s.size then
    let disk ← s.copy data
    let s := { s with disk := disk, offset := Word64.add s.offset data.length }
    if s.offset ≤ s.size then .ok s else .error (.assertion .mmapWriteAfter)
  else .error (.assertion .mmapWriteBefore)

end OMmapFile

end Hplsp
