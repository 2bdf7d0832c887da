import Mathlib.Logic.Function.Basic

/-! A family of unbounded FIFO queues over any element type. -/

namespace Fifo

variable {ι α : Type*}

inductive Op (ι α : Type*) where
  | push (i : ι) (xs : List α)
  | pop (i : ι) (n : Nat)
  | peek (i : ι) (n offset : Nat)
  | drop (i : ι) (n : Nat)
  | keep
  | clear (i : ι)
  | swap (i j : ι)

variable [DecidableEq ι]

/-- The queues after the operation, and the elements it delivers. -/
def step (qs : ι → List α) : Op ι α → (ι → List α) × List α
  | .push i xs => (Function.update qs i (qs i ++ xs), [])
  | .pop i n => (Function.update qs i ((qs i).drop n), (qs i).take n)
  | .peek i n offset => (qs, ((qs i).drop offset).take n)
  | .drop i n => (Function.update qs i ((qs i).drop n), [])
  | .keep => (qs, [])
  | .clear i => (Function.update qs i [], [])
  | .swap i j => (Function.update (Function.update qs i (qs j)) j (qs i), [])

end Fifo
