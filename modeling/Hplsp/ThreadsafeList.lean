import Mathlib.Logic.Function.Basic
import Hplsp.Lib.Linked
import Hplsp.Lib.Run

/-! `threadsafe_list`: any number of threads on one list. Every lock, unlock, link update and
predicate test is a step of its own. -/

namespace Hplsp.ThreadsafeList

open Linked

/-- A call; `newNode` is the address that `new node(value)` gets. -/
inductive Op (ν α : Type) where
  | pushFront (newNode : ν) (value : α)
  | findFirstIf (P : α → Bool)
  | removeIf (p : α → Bool)

/-- What a thread does next, with its local variables. -/
inductive Pc (ν α : Type) where
  | finished (found : Option α)
  | pushLock (newNode : ν) (value : α)
  | pushTake (newNode : ν) (value : α)
  | pushLink (newNode : ν) (value : α)
  | pushUnlock
  | findLock (P : α → Bool)
  | findRead (P : α → Bool) (current : Place ν)
  | findLockNext (P : α → Bool) (current : Place ν) (next : ν)
  | findUnlock (P : α → Bool) (current : Place ν) (next : ν)
  | findTest (P : α → Bool) (next : ν)
  | findReturn (next : ν)
  | findNone (current : Place ν)
  | removeLock (p : α → Bool)
  | removeRead (p : α → Bool) (current : Place ν)
  | removeLockNext (p : α → Bool) (current : Place ν) (next : ν)
  | removeTest (p : α → Bool) (current : Place ν) (next : ν)
  | removeTake (p : α → Bool) (current : Place ν) (next : ν)
  | removeLink (p : α → Bool) (current : Place ν) (next : ν)
  | removeUnlock (p : α → Bool) (current : Place ν) (next : ν)
  | removeDelete (p : α → Bool) (current : Place ν) (next : ν)
  | removeAdvance (p : α → Bool) (current : Place ν) (next : ν)
  | removeExit (current : Place ν)

def Pc.Finished : Pc ν α → Prop
  | .finished _ => True
  | _ => False

/-- The heap and the threads; `data` is there as long as the node is. -/
structure State (τ ν α : Type) where
  next : Place ν → Option ν
  data : ν → Option α
  owner : Place ν → Option τ
  pc : τ → Pc ν α

namespace State

variable {τ ν α : Type} [DecidableEq τ] [DecidableEq ν]

def initial : State τ ν α := ⟨fun _ => none, fun _ => none, fun _ => none, fun _ => .finished none⟩

/-- `head` is part of the list itself. -/
def alive (s : State τ ν α) : Place ν → Bool
  | .head => true
  | .node a => (s.data a).isSome

def goto (s : State τ ν α) (t : τ) (pc : Pc ν α) : State τ ν α :=
  { s with pc := Function.update s.pc t pc }

/-- Locking waits as long as the mutex has an owner. -/
def lock (s : State τ ν α) (t : τ) (p : Place ν) (pc : Pc ν α) : Option (State τ ν α) :=
  if s.alive p ∧ s.owner p = none then
    some { s with owner := Function.update s.owner p (some t), pc := Function.update s.pc t pc }
  else none

def unlock (s : State τ ν α) (t : τ) (p : Place ν) (pc : Pc ν α) : Option (State τ ν α) :=
  if s.alive p ∧ s.owner p = some t then
    some { s with owner := Function.update s.owner p none, pc := Function.update s.pc t pc }
  else none

/-- `p->next.get()`. -/
def read (s : State τ ν α) (p : Place ν) : Option (Option ν) :=
  if s.alive p then some (s.next p) else none

/-- A local pointer `= std::move(src->next)`, which is the pointer that was read before. -/
def take (s : State τ ν α) (t : τ) (src : Place ν) (a : ν) (pc : Pc ν α) :
    Option (State τ ν α) :=
  if s.alive src ∧ s.next src = some a then
    some { s with next := Function.update s.next src none, pc := Function.update s.pc t pc }
  else none

/-- `dst->next = std::move(src->next)`. -/
def move (s : State τ ν α) (t : τ) (dst src : Place ν) (pc : Pc ν α) : Option (State τ ν α) :=
  if s.alive dst ∧ s.alive src ∧ s.next dst = none then
    some { s with
      next := Function.update (Function.update s.next dst (s.next src)) src none
      pc := Function.update s.pc t pc }
  else none

/-- `dst->next = std::move(pointer)` for a local pointer to the node `a`. -/
def link (s : State τ ν α) (t : τ) (dst : Place ν) (a : ν) (pc : Pc ν α) : Option (State τ ν α) :=
  if s.alive dst ∧ s.next dst = none then
    some { s with next := Function.update s.next dst (some a), pc := Function.update s.pc t pc }
  else none

/-- A local pointer to the node `a` goes out of scope. -/
def delete (s : State τ ν α) (t : τ) (a : ν) (pc : Pc ν α) : Option (State τ ν α) :=
  if s.alive (.node a) ∧ s.owner (.node a) = none ∧ s.next (.node a) = none then
    some { s with data := Function.update s.data a none, pc := Function.update s.pc t pc }
  else none

/-- A call by a thread that has none to finish; the constructor of `node` runs at once. -/
def call (s : State τ ν α) (t : τ) (op : Op ν α) : Option (State τ ν α) :=
  match s.pc t, op with
  | .finished _, .pushFront newNode value =>
    if s.alive (.node newNode) then none
    else some { s with
      next := Function.update s.next (.node newNode) none
      data := Function.update s.data newNode (some value)
      owner := Function.update s.owner (.node newNode) none
      pc := Function.update s.pc t (.pushLock newNode value) }
  | .finished _, .findFirstIf P => some (s.goto t (.findLock P))
  | .finished _, .removeIf p => some (s.goto t (.removeLock p))
  | _, _ => none

/-- The next step of a thread. There is none while it waits for a mutex, and none where it would
touch a deleted node, unlock what it has not locked or drop a link that is still in place. -/
def run (s : State τ ν α) (t : τ) : Option (State τ ν α) :=
  match s.pc t with
  | .finished _ => none
  | .pushLock newNode value => s.lock t .head (.pushTake newNode value)
  | .pushTake newNode value => s.move t (.node newNode) .head (.pushLink newNode value)
  | .pushLink newNode _ => s.link t .head newNode .pushUnlock
  | .pushUnlock => s.unlock t .head (.finished none)
  | .findLock P => s.lock t .head (.findRead P .head)
  | .findRead P current => (s.read current).map fun
    | some next => s.goto t (.findLockNext P current next)
    | none => s.goto t (.findNone current)
  | .findLockNext P current next => s.lock t (.node next) (.findUnlock P current next)
  | .findUnlock P current next => s.unlock t current (.findTest P next)
  | .findTest P next => (s.data next).map fun value =>
    s.goto t (if P value then .findReturn next else .findRead P (.node next))
  | .findReturn next => (s.data next).bind fun value =>
    s.unlock t (.node next) (.finished (some value))
  | .findNone current => s.unlock t current (.finished none)
  | .removeLock p => s.lock t .head (.removeRead p .head)
  | .removeRead p current => (s.read current).map fun
    | some next => s.goto t (.removeLockNext p current next)
    | none => s.goto t (.removeExit current)
  | .removeLockNext p current next => s.lock t (.node next) (.removeTest p current next)
  | .removeTest p current next => (s.data next).map fun value =>
    s.goto t (if p value then .removeTake p current next else .removeAdvance p current next)
  | .removeTake p current next => s.take t current next (.removeLink p current next)
  | .removeLink p current next => s.move t current (.node next) (.removeUnlock p current next)
  | .removeUnlock p current next => s.unlock t (.node next) (.removeDelete p current next)
  | .removeDelete p current next => s.delete t next (.removeRead p current)
  | .removeAdvance p current next => s.unlock t current (.removeRead p (.node next))
  | .removeExit current => s.unlock t current (.finished none)

end State

/-- A thread calls, or a thread takes its next step. -/
inductive Action (τ ν α : Type) where
  | call (t : τ) (op : Op ν α)
  | run (t : τ)

variable {τ ν α : Type} [DecidableEq τ] [DecidableEq ν]

def step (s : State τ ν α) : Action τ ν α → Option (State τ ν α)
  | .call t op => s.call t op
  | .run t => s.run t

def Step (s : State τ ν α) (act : Action τ ν α) (s' : State τ ν α) : Prop := step s act = some s'

/-- Several actions in a row. -/
def execute (s : State τ ν α) : List (Action τ ν α) → Option (State τ ν α)
  | [] => some s
  | act :: acts => (step s act).bind fun s' => execute s' acts

theorem run_iff_execute {s s' : State τ ν α} {acts : List (Action τ ν α)} :
    Lts.Run Step s acts s' ↔ execute s acts = some s' := by
  induction acts generalizing s with
  | nil =>
    constructor
    · rintro ⟨⟩
      rfl
    · intro h
      cases h
      exact .refl _
  | cons act acts ih => simp only [Lts.run_cons, execute, Option.bind_eq_some_iff, Step, ih]

/-- The place whose link a thread has moved into a pointer of its own. -/
def Pc.moved : Pc ν α → Option (Place ν)
  | .pushLink _ _ => some .head
  | .removeLink _ current _ => some current
  | _ => none

/-- Where that pointer leads: `new_node->next` and `old_next`. -/
def Pc.link (next : Place ν → Option ν) : Pc ν α → Option ν
  | .pushLink newNode _ => next (.node newNode)
  | .removeLink _ _ oldNext => some oldNext
  | _ => none

/-- The links, with the one that the owner of a place has moved followed through its pointer. -/
def State.succ (s : State τ ν α) (p : Place ν) : Option ν :=
  match s.owner p with
  | some t => if (s.pc t).moved = some p then (s.pc t).link s.next else s.next p
  | none => s.next p

/-- The values of nodes. -/
def State.values (s : State τ ν α) (l : List ν) : List α := l.filterMap s.data

end Hplsp.ThreadsafeList
