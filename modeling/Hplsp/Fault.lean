import Hplsp.Lib.Cells
import Hplsp.Lib.Word64
import Hplsp.Lib.Outcome

/-! The ways in which a call can fail to return. -/

namespace Hplsp

/-- The assertions of the modelled functions, one for each `assert` in the source. -/
inductive Assertion where
  | pushDataBytes
  | pushDataAtSpace
  | consumeReadable
  | assureSpaceCapacity
  | assureSpaceReadPos
  | flushLevel
  | flushState
  | flushInuse
  | updateWritten
  | writeLogRecord
  | writeLogOpen
  | mmapOpen
  | mmapFtruncate
  | mmapMap
  | mmapExtend
  | mmapWriteBefore
  | mmapWriteAfter
  deriving DecidableEq, Repr

/-- The objects whose bounds the model checks at every access. -/
inductive Object where
  | array
  | logData
  | heap
  | tmpBuffer
  | tid
  | yearTable
  | numberTable
  | mapping
  | slice
  deriving DecidableEq, Repr

/-- Why a call did not return: `operator new[]` threw, an `assert` aborted the process,
an access left its object, or a loop went on forever. -/
inductive Fault where
  | badAlloc
  | assertion (a : Assertion)
  | overrun (o : Object)
  | diverges
  deriving DecidableEq, Repr

end Hplsp
