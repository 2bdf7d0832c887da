import Mathlib.Logic.Function.Basic
import Hplsp.Lib.Atomic
import Hplsp.Lib.Linked
import Hplsp.Lib.Pthread
import Hplsp.Lib.Word64

/-! `msgqueue`: any number of threads on one queue. Every lock, unlock, wait and signal and every
statement on the queue's fields is a step of its own. -/

namespace Hplsp.Msgqueue

open Linked

inductive Op (μ : Type) where
  | put (msg : μ)
  | get
  | setNonblock
  | setBlock

inductive Result (μ : Type) where
  | done
  | got (msg : Option μ)
  deriving DecidableEq

/-- Where a `void *` link is stored: in `head1`, in `head2` or in a message. -/
inductive Slot (μ : Type) where
  | head (second : Bool)
  | link (msg : μ)
  deriving DecidableEq

/-- What a thread does next, with its local variables: `old` is the `get_head` and `cnt` the count
of `__msgqueue_swap`. -/
inductive Pc (μ : Type) where
  | idle
  | putNull (msg : μ)
  | putLock (msg : μ)
  | putTest (msg : μ)
  | putWait (msg : μ)
  | putLink (msg : μ)
  | putTail (msg : μ)
  | putCount
  | putUnlock
  | putSignal
  | getLock
  | getTest
  | swapHead
  | swapLock (old : Bool)
  | swapTest (old : Bool)
  | swapWait (old : Bool)
  | swapBroadcast (old : Bool) (cnt : Nat)
  | swapPut (old : Bool) (cnt : Nat)
  | swapTail (old : Bool) (cnt : Nat)
  | swapZero (cnt : Nat)
  | swapUnlock (cnt : Nat)
  | getTake
  | getUnlock (msg : Option μ)
  | nonblockSet
  | nonblockLock
  | nonblockSignal
  | nonblockBroadcast
  | nonblockUnlock
  | blockSet
  | returning (result : Result μ)

def Op.start {μ : Type} : Op μ → Pc μ
  | .put msg => .putNull msg
  | .get => .getLock
  | .setNonblock => .nonblockSet
  | .setBlock => .blockSet

/-- The queue, and what every thread does next. `sent` and `received` are ghosts: the messages that
have been linked in, and those that have been taken out. -/
structure State (τ μ : Type) where
  msgMax : Nat
  msgCnt : Nat
  nonblock : Bool
  mem : Slot μ → Option μ
  /-- Which of the two heads `get_head` and `put_head` point to: the second one? -/
  getHead : Bool
  putHead : Bool
  putTail : Slot μ
  getMutex : Option τ
  putMutex : Option τ
  getCond : List τ
  putCond : List τ
  pc : τ → Pc μ
  sent : List μ
  received : List μ

namespace State

variable {τ μ : Type} [DecidableEq τ] [DecidableEq μ]

/-- `msgqueue_create(maxlen, linkoff)`; a message is named by the link at `linkoff` in it. -/
def create (maxlen : Nat) : State τ μ where
  msgMax := maxlen
  msgCnt := 0
  nonblock := false
  mem := fun _ => none
  getHead := false
  putHead := true
  putTail := .head true
  getMutex := none
  putMutex := none
  getCond := []
  putCond := []
  pc := fun _ => .idle
  sent := []
  received := []

def goto (s : State τ μ) (t : τ) (pc : Pc μ) : State τ μ :=
  { s with pc := Function.update s.pc t pc }

def store (s : State τ μ) (slot : Slot μ) (msg : Option μ) : State τ μ :=
  { s with mem := Function.update s.mem slot msg }

def lockGet (s : State τ μ) (t : τ) (pc : Pc μ) : Option (State τ μ) := do
  let owner ← Pthread.lock s.getMutex t
  some ({ s with getMutex := owner }.goto t pc)

def unlockGet (s : State τ μ) (t : τ) (pc : Pc μ) : Option (State τ μ) := do
  let owner ← Pthread.unlock s.getMutex t
  some ({ s with getMutex := owner }.goto t pc)

def lockPut (s : State τ μ) (t : τ) (pc : Pc μ) : Option (State τ μ) := do
  let owner ← Pthread.lock s.putMutex t
  some ({ s with putMutex := owner }.goto t pc)

def unlockPut (s : State τ μ) (t : τ) (pc : Pc μ) : Option (State τ μ) := do
  let owner ← Pthread.unlock s.putMutex t
  some ({ s with putMutex := owner }.goto t pc)

/-- `pthread_cond_signal(&queue->get_cond)`. -/
def signalGet (s : State τ μ) (t : τ) (woken : Option τ) (pc : Pc μ) : Option (State τ μ) := do
  let getCond ← Pthread.signal s.getCond woken
  some ({ s with getCond := getCond }.goto t pc)

/-- The test `msg_cnt > msg_max - 1` of the code, in the arithmetic of `size_t`. -/
def full (s : State τ μ) : Bool := Word64.sub s.msgMax 1 < s.msgCnt

/-- The next step of a thread, `woken` being the thread that a signal wakes. There is none while it
waits, and none where it would follow a null pointer or unlock what it has not locked. -/
def run (s : State τ μ) (t : τ) (woken : Option τ) : Option (State τ μ) :=
  match s.pc t with
  | .idle => none
  | .putNull msg => some ((s.store (.link msg) none).goto t (.putLock msg))
  | .putLock msg => s.lockPut t (.putTest msg)
  | .putTest msg =>
    if s.full && !s.nonblock then
      { s with putCond := t :: s.putCond }.unlockPut t (.putWait msg)
    else some (s.goto t (.putLink msg))
  | .putWait msg => if t ∈ s.putCond then none else s.lockPut t (.putTest msg)
  | .putLink msg =>
    some ({ s.store s.putTail (some msg) with sent := s.sent ++ [msg] }.goto t (.putTail msg))
  | .putTail msg => some ({ s with putTail := .link msg }.goto t .putCount)
  | .putCount => some ({ s with msgCnt := s.msgCnt + 1 }.goto t .putUnlock)
  | .putUnlock => s.unlockPut t .putSignal
  | .putSignal => s.signalGet t woken (.returning .done)
  | .getLock => s.lockGet t .getTest
  | .getTest => some (s.goto t (if (s.mem (.head s.getHead)).isSome then .getTake else .swapHead))
  | .swapHead => some ({ s with getHead := s.putHead }.goto t (.swapLock s.getHead))
  | .swapLock old => s.lockPut t (.swapTest old)
  | .swapTest old =>
    if s.msgCnt = 0 ∧ s.nonblock = false then
      { s with getCond := t :: s.getCond }.unlockPut t (.swapWait old)
    else some (s.goto t (.swapBroadcast old s.msgCnt))
  | .swapWait old => if t ∈ s.getCond then none else s.lockPut t (.swapTest old)
  | .swapBroadcast old cnt =>
    some ({ s with putCond := if s.full then [] else s.putCond }.goto t (.swapPut old cnt))
  | .swapPut old cnt => some ({ s with putHead := old }.goto t (.swapTail old cnt))
  | .swapTail old cnt => some ({ s with putTail := .head old }.goto t (.swapZero cnt))
  | .swapZero cnt => some ({ s with msgCnt := 0 }.goto t (.swapUnlock cnt))
  | .swapUnlock cnt => s.unlockPut t (if 0 < cnt then .getTake else .getUnlock none)
  | .getTake => (s.mem (.head s.getHead)).map fun msg =>
    { s.store (.head s.getHead) (s.mem (.link msg)) with received := s.received ++ [msg] }.goto t
      (.getUnlock (some msg))
  | .getUnlock msg => s.unlockGet t (.returning (.got msg))
  | .nonblockSet => some ({ s with nonblock := true }.goto t .nonblockLock)
  | .nonblockLock => s.lockPut t .nonblockSignal
  | .nonblockSignal => s.signalGet t woken .nonblockBroadcast
  | .nonblockBroadcast => some ({ s with putCond := [] }.goto t .nonblockUnlock)
  | .nonblockUnlock => s.unlockPut t (.returning .done)
  | .blockSet => some ({ s with nonblock := false }.goto t (.returning .done))
  | .returning _ => none

/-- A thread that waits at a condition wakes up by itself. -/
def wake (s : State τ μ) (t : τ) : State τ μ :=
  { s with getCond := Pthread.wake s.getCond t, putCond := Pthread.wake s.putCond t }

end State

/-- The message that a thread has put forward and not yet linked in, or has taken out and not yet
returned. -/
def Pc.own {μ : Type} : Pc μ → Option μ
  | .putNull msg | .putLock msg | .putTest msg | .putWait msg | .putLink msg => some msg
  | .getUnlock msg | .returning (.got msg) => msg
  | _ => none

variable {τ μ : Type} [DecidableEq τ] [DecidableEq μ]

/-- The messages that have been linked in and not yet taken out. -/
def State.pending (s : State τ μ) : List μ := s.sent.drop s.received.length

/-- The message is its caller's: the queue has no part of it. -/
def State.Outside (s : State τ μ) (msg : μ) : Prop :=
  msg ∉ s.pending ∧ ∀ t, (s.pc t).own ≠ some msg

inductive Action (τ μ : Type) where
  | event (e : Atomic.Event τ (Op μ) (Result μ))
  | run (t : τ) (woken : Option τ)
  | wake (t : τ)

def Action.visible : Action τ μ → Option (Atomic.Event τ (Op μ) (Result μ))
  | .event e => some e
  | _ => none

/-- A caller may put any message that is its own; the rest is up to the threads. -/
inductive Step : State τ μ → Action τ μ → State τ μ → Prop
  | call {s t op} : s.pc t = .idle → (∀ msg, op = .put msg → s.Outside msg) →
      Step s (.event (.call t op)) (s.goto t op.start)
  | ret {s t result} : s.pc t = .returning result →
      Step s (.event (.ret t result)) (s.goto t .idle)
  | run {s s' t woken} : s.run t woken = some s' → Step s (.run t woken) s'
  | wake {s t} : Step s (.wake t) (s.wake t)

/-- What the queue is for: a queue of messages, that `msgqueue_get` waits at unless it has been set
not to. -/
structure Fifo (μ : Type) where
  queue : List μ
  nonblock : Bool

inductive Effect : Fifo μ → Op μ → Fifo μ → Result μ → Prop
  | put {q msg} : Effect q (.put msg) { q with queue := q.queue ++ [msg] } .done
  | get {q msg rest} : q.queue = msg :: rest →
      Effect q .get { q with queue := rest } (.got (some msg))
  | getNone {q} : q.queue = [] → q.nonblock = true → Effect q .get q (.got none)
  | setNonblock {q} : Effect q .setNonblock { q with nonblock := true } .done
  | setBlock {q} : Effect q .setBlock { q with nonblock := false } .done

end Hplsp.Msgqueue
