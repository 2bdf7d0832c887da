import Hplsp.Lib.Run
import Hplsp.Msgqueue
import Mathlib.Data.Fintype.Basic

/-! `thrdpool`: the threads of one pool, those that use it, and who ends it. The message queue of
the pool is the atomic one: what a call does to it is one step, and `msgqueue_put` signals
`get_cond` in a step after that. -/

namespace Hplsp

namespace Msgqueue

variable {μ : Type} {q q' : Fifo μ}

/-- `msgqueue_put`. -/
def Fifo.put (q : Fifo μ) (msg : μ) : Fifo μ := { q with queue := q.queue ++ [msg] }

/-- `msgqueue_get`, with no result as long as it waits. -/
def Fifo.get (q : Fifo μ) : Option (Option μ × Fifo μ) :=
  match q.queue with
  | msg :: rest => some (some msg, { q with queue := rest })
  | [] => if q.nonblock then some (none, q) else none

/-- `msgqueue_set_nonblock`. -/
def Fifo.setNonblock (q : Fifo μ) : Fifo μ := { q with nonblock := true }

theorem effect_put_iff {msg : μ} : Effect q (.put msg) q' .done ↔ q.put msg = q' := by
  constructor
  · rintro ⟨⟩
    rfl
  · rintro rfl
    exact .put

theorem effect_get_iff {msg : Option μ} :
    Effect q .get q' (.got msg) ↔ q.get = some (msg, q') := by
  constructor
  · intro h
    cases h with
    | get hqueue => rw [Fifo.get, hqueue]
    | getNone hqueue hnonblock => rw [Fifo.get, hqueue, if_pos hnonblock]
  · intro h
    rw [Fifo.get] at h
    split at h
    · rename_i hqueue
      cases h
      exact .get hqueue
    · rename_i hqueue
      obtain ⟨hnonblock, h⟩ := Option.ite_none_right_eq_some.mp h
      cases h
      exact .getNone hqueue hnonblock

theorem effect_setNonblock_iff : Effect q .setNonblock q' .done ↔ q.setNonblock = q' := by
  constructor
  · rintro ⟨⟩
    rfl
  · rintro rfl
    exact .setNonblock

end Msgqueue

namespace Thrdpool

open Msgqueue (Fifo)

/-- Whose call of `__thrdpool_terminate` it is: that of `thrdpool_create`, when not all threads
could be started, or that of `thrdpool_destroy`. -/
inductive Closer where
  | creator
  | destroyer (inPool : Bool)
  deriving DecidableEq

def Closer.inPool : Closer → Bool
  | creator => false
  | destroyer inPool => inPool

/-- What a thread does next, with its local variables. A thread of the pool that runs a task is a
`client`, as the callers are that are not of the pool. -/
inductive Pc (τ ε : Type) where
  | unborn
  | client
  | start
  | check
  | get
  | taskEnd
  | free
  | exitLock
  | exitTid
  | exitCount (tid : Option τ)
  | exitSignal (tid : Option τ)
  | exitUnlock (tid : Option τ)
  | exitJoin (tid : τ)
  | ended
  | createTest (nthreads : Nat)
  | createThread (nthreads : Nat)
  | createCount (nthreads : Nat) (child : τ)
  | createEnd (nthreads : Nat)
  | schedule (entry : ε)
  | scheduleSignal
  | increaseLock
  | increaseThread
  | increaseCount (child : τ)
  | increaseUnlock
  | terminateLock (closer : Closer)
  | terminateNonblock (closer : Closer)
  | terminateSet (closer : Closer)
  | terminateDetach
  | terminateCount
  | terminateTest (closer : Closer)
  | terminateWait (closer : Closer)
  | terminateUnlock (closer : Closer)
  | terminateTid (closer : Closer)
  | terminateJoin (closer : Closer) (tid : τ)
  | drain (inPool : Bool)
  | deleteKey (closer : Closer)
  | destroyMutex (closer : Closer)
  | destroyQueue (closer : Closer)
  | freePool

/-- The pool, and what every thread does next. `scheduled`, `started` and `drained` are ghosts: the
entries put into the queue, those whose task has been started and those that `thrdpool_destroy` has
taken out; so are `exits`, the threads in the order in which they have put themselves into `tid`,
`joins`, who has joined whom, `opened`, whether `thrdpool_create` has returned the pool, and
`closer`, who has called `__thrdpool_terminate`. -/
structure State (τ ε : Type) where
  queue : Fifo ε
  nthreads : Nat
  tid : Option τ
  mutex : Option τ
  terminate : Bool
  term : List τ
  /-- The threads that `pthread_getspecific` gives the pool. -/
  key : τ → Bool
  detached : τ → Bool
  noKey : Bool
  noMutex : Bool
  noQueue : Bool
  freed : Bool
  pc : τ → Pc τ ε
  scheduled : List ε
  started : List ε
  drained : List ε
  exits : List τ
  joins : List (τ × τ)
  opened : Bool
  closer : Option τ

/-- Where `thrdpool_create` and `thrdpool_destroy` go on after `__thrdpool_terminate`. -/
def Closer.next {τ ε : Type} : Closer → Pc τ ε
  | creator => .deleteKey .creator
  | destroyer inPool => .drain inPool

namespace State

variable {τ ε : Type} [DecidableEq τ]

/-- `thrdpool_create(nthreads, _)` by `creator`, about to start the threads of the pool. The other
threads that there are already are no threads of the pool. -/
def create (creator : τ) (outside : τ → Bool) (nthreads : Nat) : State τ ε where
  queue := ⟨[], false⟩
  nthreads := 0
  tid := none
  mutex := none
  terminate := false
  term := []
  key := fun _ => false
  detached := fun _ => false
  noKey := false
  noMutex := false
  noQueue := false
  freed := false
  pc := fun t =>
    if t = creator then .createTest nthreads else if outside t then .client else .unborn
  scheduled := []
  started := []
  drained := []
  exits := []
  joins := []
  opened := false
  closer := none

def goto (s : State τ ε) (t : τ) (pc : Pc τ ε) : State τ ε :=
  { s with pc := Function.update s.pc t pc }

omit [DecidableEq τ] in
/-- The threads that have been joined. -/
def joined (s : State τ ε) : List τ := s.joins.map Prod.snd

def lock (s : State τ ε) (t : τ) (pc : Pc τ ε) : Option (State τ ε) := do
  let owner ← Pthread.lock s.mutex t
  some ({ s with mutex := owner }.goto t pc)

def unlock (s : State τ ε) (t : τ) (pc : Pc τ ε) : Option (State τ ε) := do
  let owner ← Pthread.unlock s.mutex t
  some ({ s with mutex := owner }.goto t pc)

/-- `pthread_join` waits for the end of the thread. -/
def join (s : State τ ε) (t tid : τ) (pc : Pc τ ε) : Option (State τ ε) :=
  match s.pc tid with
  | .ended => some ({ s with joins := s.joins ++ [(t, tid)] }.goto t pc)
  | _ => none

/-- The next step of a thread, `woken` being the thread that a signal wakes; there is none while it
waits, and the client's own code is no step of the pool. -/
def run (s : State τ ε) (t : τ) (woken : Option τ) : Option (State τ ε) :=
  match s.pc t with
  | .unborn | .client | .ended => none
  | .start => some ({ s with key := Function.update s.key t true }.goto t .check)
  | .check => some (s.goto t (if s.terminate then .exitLock else .get))
  | .get => s.queue.get.map fun
    | (none, _) => s.goto t .exitLock
    | (some entry, queue) =>
      { s with queue := queue, started := s.started ++ [entry] }.goto t .client
  | .taskEnd => some (s.goto t (if s.nthreads = 0 then .free else .check))
  | .free => some ({ s with freed := true }.goto t .ended)
  | .exitLock => s.lock t .exitTid
  | .exitTid =>
    some ({ s with tid := some t, exits := s.exits ++ [t] }.goto t (.exitCount s.tid))
  | .exitCount tid => some ({ s with nthreads := s.nthreads - 1 }.goto t
    (if s.nthreads - 1 = 0 then .exitSignal tid else .exitUnlock tid))
  | .exitSignal tid => do
    let term ← Pthread.signal s.term woken
    some ({ s with term := term }.goto t (.exitUnlock tid))
  | .exitUnlock tid => s.unlock t (tid.elim .ended .exitJoin)
  | .exitJoin tid => s.join t tid .ended
  | .createTest nthreads =>
    some (s.goto t (if s.nthreads < nthreads then .createThread nthreads else .createEnd nthreads))
  | .createThread _ => none
  | .createCount nthreads _ =>
    some ({ s with nthreads := s.nthreads + 1 }.goto t (.createTest nthreads))
  | .createEnd nthreads =>
    if s.nthreads = nthreads then some ({ s with opened := true }.goto t .client)
    else some ({ s with closer := some t }.goto t (.terminateLock .creator))
  | .schedule entry =>
    some ({ s with queue := s.queue.put entry, scheduled := s.scheduled ++ [entry] }.goto t
      .scheduleSignal)
  | .scheduleSignal => some (s.goto t .client)
  | .increaseLock => s.lock t .increaseThread
  | .increaseThread => none
  | .increaseCount _ => some ({ s with nthreads := s.nthreads + 1 }.goto t .increaseUnlock)
  | .increaseUnlock => s.unlock t .client
  | .terminateLock closer => s.lock t (.terminateNonblock closer)
  | .terminateNonblock closer =>
    some ({ s with queue := s.queue.setNonblock }.goto t (.terminateSet closer))
  | .terminateSet closer => some ({ s with terminate := true }.goto t
    (if closer.inPool then .terminateDetach else .terminateTest closer))
  | .terminateDetach =>
    some ({ s with detached := Function.update s.detached t true }.goto t .terminateCount)
  | .terminateCount =>
    some ({ s with nthreads := s.nthreads - 1 }.goto t (.terminateTest (.destroyer true)))
  | .terminateTest closer =>
    if 0 < s.nthreads then { s with term := t :: s.term }.unlock t (.terminateWait closer)
    else some (s.goto t (.terminateUnlock closer))
  | .terminateWait closer => if t ∈ s.term then none else s.lock t (.terminateTest closer)
  | .terminateUnlock closer => s.unlock t (.terminateTid closer)
  | .terminateTid closer => some (s.goto t (s.tid.elim closer.next (.terminateJoin closer)))
  | .terminateJoin closer tid => s.join t tid closer.next
  | .drain inPool => s.queue.get.map fun
    | (none, _) => s.goto t (.deleteKey (.destroyer inPool))
    | (some entry, queue) =>
      { s with queue := queue, drained := s.drained ++ [entry] }.goto t (.drain inPool)
  | .deleteKey closer => some ({ s with noKey := true }.goto t (.destroyMutex closer))
  | .destroyMutex closer => some ({ s with noMutex := true }.goto t (.destroyQueue closer))
  | .destroyQueue closer =>
    some ({ s with noQueue := true }.goto t (if closer.inPool then .client else .freePool))
  | .freePool => some ({ s with freed := true }.goto t .client)

/-- `pthread_create` starts a thread, or does not. -/
def spawn (s : State τ ε) (t child : τ) : Option (State τ ε) :=
  match s.pc t, s.pc child with
  | .createThread nthreads, .unborn =>
    some ((s.goto child .start).goto t (.createCount nthreads child))
  | .increaseThread, .unborn => some ((s.goto child .start).goto t (.increaseCount child))
  | _, _ => none

def refuse (s : State τ ε) (t : τ) : Option (State τ ε) :=
  match s.pc t with
  | .createThread nthreads => some (s.goto t (.createEnd nthreads))
  | .increaseThread => some (s.goto t .increaseUnlock)
  | _ => none

/-- A thread that waits at a condition wakes up by itself. -/
def wake (s : State τ ε) (t : τ) : State τ ε := { s with term := Pthread.wake s.term t }

end State

namespace Pc

variable {τ ε : Type}

/-- In a call of `thrdpool_schedule` or of `thrdpool_increase`. -/
def uses : Pc τ ε → Bool
  | schedule _ | scheduleSignal => true
  | increaseLock | increaseThread | increaseCount _ | increaseUnlock => true
  | _ => false

/-- In `__thrdpool_terminate`, with `term` on the stack. -/
def terminates : Pc τ ε → Bool
  | terminateLock _ | terminateNonblock _ | terminateSet _ | terminateDetach | terminateCount =>
    true
  | terminateTest _ | terminateWait _ | terminateUnlock _ | terminateTid _ => true
  | terminateJoin _ _ => true
  | _ => false

/-- The next step reads or writes the pool, or frees it. -/
def needsPool : Pc τ ε → Bool
  | unborn | client | scheduleSignal | exitJoin _ | ended => false
  | _ => true

def needsMutex : Pc τ ε → Bool
  | exitLock | exitTid | exitCount _ | exitSignal _ | exitUnlock _ => true
  | increaseLock | increaseThread | increaseCount _ | increaseUnlock => true
  | terminateLock _ | terminateNonblock _ | terminateSet _ | terminateDetach | terminateCount =>
    true
  | terminateTest _ | terminateWait _ | terminateUnlock _ | destroyMutex _ => true
  | _ => false

def needsQueue : Pc τ ε → Bool
  | get | schedule _ | scheduleSignal | terminateNonblock _ | drain _ | destroyQueue _ => true
  | _ => false

def needsKey : Pc τ ε → Bool
  | start | deleteKey _ => true
  | _ => false

end Pc

variable {τ ε : Type} [DecidableEq τ]

/-- `term` of `__thrdpool_terminate` is there to be signalled. -/
def State.termAlive (s : State τ ε) : Bool :=
  s.terminate && s.closer.any fun t => (s.pc t).terminates

/-- The next step of the thread is not defined: it needs what is no longer there, unlocks a mutex of
another thread, signals a condition that is not there, joins a thread a second time or one that has
been detached, or counts below zero. -/
def State.faults (s : State τ ε) (t : τ) : Bool :=
  ((s.pc t).needsPool && s.freed) || ((s.pc t).needsMutex && s.noMutex) ||
  ((s.pc t).needsQueue && s.noQueue) || ((s.pc t).needsKey && s.noKey) ||
  match s.pc t with
  | .exitUnlock _ | .increaseUnlock | .terminateTest _ | .terminateUnlock _ => s.mutex ≠ some t
  | .destroyMutex _ => s.mutex ≠ none
  | .exitCount _ | .terminateCount => s.nthreads = 0
  | .exitSignal _ => !s.termAlive
  | .exitJoin tid | .terminateJoin _ tid => tid ∈ s.joined ∨ s.detached tid = true
  | _ => false

inductive Action (τ ε : Type) where
  | schedule (t : τ) (entry : ε)
  | increase (t : τ)
  | destroy (t : τ)
  | finish (t : τ)
  | spawn (t child : τ)
  | refuse (t : τ)
  | run (t : τ) (woken : Option τ)
  | wake (t : τ)

/-- Once `thrdpool_create` has returned the pool, every thread may call. -/
inductive Step : State τ ε → Action τ ε → State τ ε → Prop
  | schedule {s t entry} : s.pc t = .client → s.opened = true →
      Step s (.schedule t entry) (s.goto t (.schedule entry))
  | increase {s t} : s.pc t = .client → s.opened = true →
      Step s (.increase t) (s.goto t .increaseLock)
  | destroy {s t} : s.pc t = .client → s.opened = true →
      Step s (.destroy t) ({ s with closer := some t }.goto t
        (.terminateLock (.destroyer (s.key t))))
  | finish {s t} : s.pc t = .client → s.key t = true → Step s (.finish t) (s.goto t .taskEnd)
  | spawn {s s' t child} : s.spawn t child = some s' → Step s (.spawn t child) s'
  | refuse {s s' t} : s.refuse t = some s' → Step s (.refuse t) s'
  | run {s s' t woken} : s.run t woken = some s' → Step s (.run t woken) s'
  | wake {s t} : Step s (.wake t) (s.wake t)

/-- A call, if the thread is in one of its own functions and there is the pool. -/
def State.call (s : State τ ε) (t : τ) (pc : Pc τ ε) : Option (State τ ε) :=
  match s.pc t with
  | .client => if s.opened then some (s.goto t pc) else none
  | _ => none

/-- The step that an action stands for, as a function. -/
def State.act (s : State τ ε) : Action τ ε → Option (State τ ε)
  | .schedule t entry => s.call t (.schedule entry)
  | .increase t => s.call t .increaseLock
  | .destroy t =>
    { s with closer := some t }.call t (.terminateLock (.destroyer (s.key t)))
  | .finish t =>
    match s.pc t with
    | .client => if s.key t then some (s.goto t .taskEnd) else none
    | _ => none
  | .spawn t child => s.spawn t child
  | .refuse t => s.refuse t
  | .run t woken => s.run t woken
  | .wake t => some (s.wake t)

theorem State.call_eq_some {s s' : State τ ε} {t : τ} {pc : Pc τ ε} (h : s.call t pc = some s') :
    s.pc t = .client ∧ s.opened = true ∧ s.goto t pc = s' := by
  unfold State.call at h
  split at h
  · rename_i hpc
    obtain ⟨hopened, h⟩ := Option.ite_none_right_eq_some.mp h
    exact ⟨hpc, hopened, Option.some_inj.mp h⟩
  · cases h

theorem act_sound (s : State τ ε) (a : Action τ ε) (s' : State τ ε) (_ : True)
    (h : s.act a = some s') : Step s a s' ∧ True := by
  refine ⟨?_, trivial⟩
  cases a with
  | schedule t entry =>
    obtain ⟨hpc, hopened, rfl⟩ := State.call_eq_some h
    exact .schedule hpc hopened
  | increase t =>
    obtain ⟨hpc, hopened, rfl⟩ := State.call_eq_some h
    exact .increase hpc hopened
  | destroy t =>
    obtain ⟨hpc, hopened, rfl⟩ := State.call_eq_some h
    exact .destroy hpc hopened
  | finish t =>
    simp only [State.act] at h
    split at h
    · rename_i hpc
      obtain ⟨hkey, h⟩ := Option.ite_none_right_eq_some.mp h
      cases h
      exact .finish hpc hkey
    · cases h
  | spawn t child => exact .spawn h
  | refuse t => exact .refuse h
  | run t woken => exact .run h
  | wake t =>
    cases h
    exact .wake

/-- What the pool asks of those who call. `thrdpool_destroy` is called once, by a task or not, when
no thread from outside is in a call, one that has put a task and has yet to signal included; from
then on only tasks call, and not the one that ends the pool. -/
def State.Permits (s : State τ ε) : Action τ ε → Prop
  | .schedule t _ | .increase t => s.closer = none ∨ s.key t = true ∧ s.closer ≠ some t
  | .destroy _ => s.closer = none ∧ ∀ t, s.key t = false → (s.pc t).uses = false
  | _ => True

instance [Fintype τ] (s : State τ ε) : ∀ a, Decidable (s.Permits a)
  | .schedule t _ | .increase t =>
    inferInstanceAs (Decidable (s.closer = none ∨ s.key t = true ∧ s.closer ≠ some t))
  | .destroy _ =>
    inferInstanceAs (Decidable (s.closer = none ∧ ∀ t, s.key t = false → (s.pc t).uses = false))
  | .finish _ | .spawn _ _ | .refuse _ | .run _ _ | .wake _ => isTrue trivial

end Thrdpool

end Hplsp
