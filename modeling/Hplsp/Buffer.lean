import Hplsp.Fault

/-! `Buffer`: two cursors into one growing array, with every operation of `Buffer.cc` as it is when
there is memory. -/

namespace Hplsp

/-- `buffer` is the array that `buffer_` owns, empty when it owns none. -/
structure Buffer where
  readPos : Nat
  writePos : Nat
  capacity : Nat
  buffer : List UInt8
  deriving DecidableEq, Repr

/-- A `const void*` argument with its size: null, or the block it points to. -/
inductive Data where
  | null (size : Nat)
  | block (bytes : List UInt8)
  deriving DecidableEq, Repr

def Data.size : Data → Nat
  | .null n => n
  | .block bytes => bytes.length

/-- No array has more bytes than `PTRDIFF_MAX`; `new char[n]` throws beyond it. -/
def ptrdiffMax : Nat := 2 ^ 63 - 1

/-- `new char[n]` when there is memory. The cells are zero here where C++ leaves them
indeterminate. -/
def newArray (n : Nat) : Except Fault (List UInt8) :=
  if n ≤ ptrdiffMax then .ok (List.replicate n 0) else .error .badAlloc

/-- `while (roundUp < size) roundUp *= 2`, which leaves `roundUp` at zero forever once
64 doublings have shifted its bit out. -/
def roundUpLoop (size : Nat) : Nat → Nat → Except Fault Nat
  | 0, _ => .error .diverges
  | fuel + 1, roundUp =>
    if roundUp < size then roundUpLoop size fuel (Word64.mul roundUp 2) else .ok roundUp

def roundUp2Power (size : Nat) : Except Fault Nat :=
  if size = 0 then .ok 0 else roundUpLoop size 65 1

namespace Buffer

def kMaxBufferSize : Nat := (2 ^ 64 - 1) / 2
def kDefaultSize : Nat := 256

/-- `Buffer()`. -/
def new : Buffer := ⟨0, 0, 0, []⟩

def readableSize (b : Buffer) : Nat := Word64.sub b.writePos b.readPos

def writableSize (b : Buffer) : Nat := Word64.sub b.capacity b.writePos

def isEmpty (b : Buffer) : Bool := b.readableSize == 0

/-- The readable bytes, those in `[readPos_, writePos_)`. -/
def contents (b : Buffer) : List UInt8 := Cells.slice b.buffer b.readPos b.readableSize

def produce (b : Buffer) (bytes : Nat) : Buffer :=
  { b with writePos := Word64.add b.writePos bytes }

def clear (b : Buffer) : Buffer := { b with readPos := 0, writePos := 0 }

/-- The `while` loop of `AssureSpace`, on `capacity_` alone: the cursors do not move in it. -/
def growCapacity (b : Buffer) (needsize : Nat) : Nat → Nat → Except Fault Nat
  | 0, _ => .error .diverges
  | fuel + 1, capacity =>
    if Word64.add ({ b with capacity := capacity } : Buffer).writableSize b.readPos < needsize then
      if capacity < kDefaultSize then growCapacity b needsize fuel kDefaultSize
      else if capacity ≤ kMaxBufferSize then do
        let newCapacity ← roundUp2Power capacity
        if capacity < newCapacity then growCapacity b needsize fuel newCapacity
        else growCapacity b needsize fuel (Word64.mul 3 newCapacity / 2)
      else .error (.assertion .assureSpaceCapacity)
    else .ok capacity

def assureSpace (b : Buffer) (needsize : Nat) : Except Fault Buffer :=
  if needsize ≤ b.writableSize then .ok b
  else do
    let dataSize := b.readableSize
    let capacity ← growCapacity b needsize 128 b.capacity
    if b.capacity < capacity then
      let tmp ← newArray capacity
      if dataSize = 0 then .ok ⟨0, dataSize, capacity, tmp⟩
      else
        let data ← Cells.readAt (.overrun .array) b.buffer b.readPos dataSize
        let tmp ← Cells.writeAt (.overrun .array) tmp 0 data
        .ok ⟨0, dataSize, capacity, tmp⟩
    else if 0 < b.readPos then
      let data ← Cells.readAt (.overrun .array) b.buffer b.readPos dataSize
      let buffer ← Cells.writeAt (.overrun .array) b.buffer 0 data
      .ok ⟨0, dataSize, capacity, buffer⟩
    else .error (.assertion .assureSpaceReadPos)

/-- Copies a block behind `writePos_ + offset`; the count is zero when nothing was copied. -/
def pushDataAt (b : Buffer) (data : Data) (offset : Nat) : Except Fault (Buffer × Nat) :=
  match data with
  | .null _ => .ok (b, 0)
  | .block bytes =>
    if bytes.length = 0 then .ok (b, 0)
    else if kMaxBufferSize ≤ Word64.add (Word64.add b.readableSize bytes.length) offset then
      .ok (b, 0)
    else do
      let b ← b.assureSpace (Word64.add bytes.length offset)
      if Word64.add bytes.length offset ≤ b.writableSize then
        let buffer ← Cells.writeAt (.overrun .array) b.buffer (Word64.add b.writePos offset) bytes
        .ok ({ b with buffer := buffer }, bytes.length)
      else .error (.assertion .pushDataAtSpace)

def pushData (b : Buffer) (data : Data) : Except Fault (Buffer × Nat) := do
  let (b, bytes) ← b.pushDataAt data 0
  if bytes = data.size then .ok (b.produce bytes, bytes)
  else .error (.assertion .pushDataBytes)

def consume (b : Buffer) (bytes : Nat) : Except Fault Buffer :=
  if Word64.add b.readPos bytes ≤ b.writePos then
    let b := { b with readPos := Word64.add b.readPos bytes }
    .ok (if b.isEmpty then b.clear else b)
  else .error (.assertion .consumeReadable)

/-- The bytes copied to `buf`, which may be null; their number is the returned count. -/
def peekDataAt (b : Buffer) (isNull : Bool) (size offset : Nat) : Except Fault (List UInt8) :=
  let dataSize := b.readableSize
  if isNull ∨ size = 0 ∨ dataSize ≤ offset then .ok []
  else
    let size := if dataSize < Word64.add size offset then dataSize - offset else size
    Cells.readAt (.overrun .array) b.buffer (Word64.add b.readPos offset) size

def popData (b : Buffer) (isNull : Bool) (size : Nat) : Except Fault (Buffer × List UInt8) := do
  let bytes ← b.peekDataAt isNull size 0
  let b ← b.consume bytes.length
  .ok (b, bytes)

def shrink (b : Buffer) : Except Fault Buffer :=
  if b.isEmpty then .ok (if 8 * 1024 < b.capacity then ⟨0, 0, 0, []⟩ else b)
  else
    let oldCap := b.capacity
    let dataSize := b.readableSize
    if oldCap / 4 < dataSize then .ok b
    else do
      let newCap ← roundUp2Power dataSize
      let tmp ← newArray newCap
      let data ← Cells.readAt (.overrun .array) b.buffer b.readPos dataSize
      let tmp ← Cells.writeAt (.overrun .array) tmp 0 data
      .ok ⟨0, dataSize, newCap, tmp⟩

/-- `_MoveFrom` with a source other than `this`: the destination and what is left of the source. -/
def moveFrom (other : Buffer) : Except Fault (Buffer × Buffer) := do
  let source : Buffer := { other with buffer := [] }
  let source ← source.clear.shrink
  .ok (other, source)

end Buffer

end Hplsp
