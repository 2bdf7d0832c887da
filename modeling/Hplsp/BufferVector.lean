import Hplsp.BufferQueue
import Hplsp.BufferThrow

/-! `BufferVector`: a list of buffers that small pushes share the last node of. -/

namespace Hplsp

structure BufferVector where
  buffers : List Buffer
  totalBytes : Nat

/-- The argument pair `(ReadAddr(), ReadableSize())`, whose pointer is null without an array. -/
def Buffer.readData (b : Buffer) : Except Fault Data :=
  if b.buffer = [] then .ok (.null b.readableSize)
  else do
    let bytes ← Cells.readAt (.overrun .array) b.buffer b.readPos b.readableSize
    .ok (.block bytes)

namespace BufferVector

def kMinSize : Nat := 1024

def new : BufferVector := ⟨[], 0⟩

/-- The readable bytes of all nodes, front to back. -/
def contents (v : BufferVector) : List UInt8 := v.buffers.flatMap Buffer.contents

def shouldMerge (v : BufferVector) : Bool :=
  match v.buffers.getLast? with
  | none => false
  | some last => last.readableSize < kMinSize

/-- The list with `f` applied to `buffers.back()`, and a copy of what `f` returned. -/
def updateLast (f : Buffer → Except Fault (Buffer × Nat)) : List Buffer → Except Fault (List Buffer)
  | [] => .ok []
  | [last] => do
    let (last, _) ← f last
    .ok [last]
  | b :: bs => do
    let bs ← updateLast f bs
    .ok (b :: bs)

/-- `Push(Buffer&&)` with memory there: the vector, and what is left of the argument. -/
def pushBuffer (v : BufferVector) (buf : Buffer) : Except Fault (BufferVector × Buffer) := do
  let totalBytes := Word64.add v.totalBytes buf.readableSize
  if v.shouldMerge then
    let data ← buf.readData
    let buffers ← updateLast (fun last => last.pushData data) v.buffers
    .ok (⟨buffers, totalBytes⟩, buf)
  else
    let (node, buf) ← buf.moveFrom
    .ok (⟨v.buffers ++ [node], totalBytes⟩, buf)

/-- The environment's answers to the requests of one push for memory: for an array of bytes, and for
a list node. -/
structure Memory where
  array : Bool
  node : Bool

/-- `Buffer(data, size)`: a throw destroys it. -/
def construct (memory : Memory) (data : Data) : Except Fault Buffer :=
  match (Buffer.Member.pushData memory.array data).run .new with
  | .ok _ b => .ok b
  | .error e _ => .error e

/-- The list node that `push_back` allocates. -/
def newNode (memory : Memory) : Except Fault PUnit :=
  if memory.node then .ok ⟨⟩ else .error .badAlloc

/-- A call on `buffers.back()`, which exists when `_ShouldMerge()`. -/
def onLast (m : EStateM Fault Buffer Nat) : EStateM Fault BufferVector PUnit := fun v =>
  match v.buffers.getLast? with
  | none => .ok ⟨⟩ v
  | some last => match m.run last with
    | .ok _ last => .ok ⟨⟩ { v with buffers := v.buffers.dropLast ++ [last] }
    | .error e last => .error e { v with buffers := v.buffers.dropLast ++ [last] }

namespace Member

/-- `Push(Buffer&&)`; `totalBytes` has its new value when anything throws. -/
def pushBuffer (memory : Memory) (buf : Buffer) : EStateM Fault BufferVector Buffer := do
  modify fun v => { v with totalBytes := Word64.add v.totalBytes buf.readableSize }
  let v ← get
  if v.shouldMerge then
    let data ← liftExcept buf.readData
    onLast (Buffer.Member.pushData memory.array data)
    pure buf
  else
    let _ ← liftExcept (newNode memory)
    let (node, buf) ← liftExcept buf.moveFrom
    set { v with buffers := v.buffers ++ [node] }
    pure buf

/-- `Push(const void*, size_t)`. -/
def pushBytes (memory : Memory) (data : Data) : EStateM Fault BufferVector PUnit := do
  modify fun v => { v with totalBytes := Word64.add v.totalBytes data.size }
  let v ← get
  if v.shouldMerge then onLast (Buffer.Member.pushData memory.array data)
  else
    let node ← liftExcept (construct memory data)
    let _ ← liftExcept (newNode memory)
    set { v with buffers := v.buffers ++ [node] }

end Member

/-- `Pop()` on a non-empty vector. -/
def pop (v : BufferVector) : BufferVector :=
  match v.buffers with
  | [] => v
  | front :: rest => ⟨rest, Word64.sub v.totalBytes front.readableSize⟩

def clear (_ : BufferVector) : BufferVector := ⟨[], 0⟩

end BufferVector

end Hplsp
