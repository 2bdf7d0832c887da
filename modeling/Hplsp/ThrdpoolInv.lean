import Hplsp.Lib.Reap
import Hplsp.Thrdpool

/-! What the threads of a pool are to it, and how far its end has come. -/

namespace Hplsp.Thrdpool

/-- What a thread is to the pool: not one of its threads; not yet started; started and not yet
counted in `nthreads`; counted; no more counted because it ends; no more counted because it has
called `thrdpool_destroy`. -/
inductive Role where
  | outside
  | unborn
  | fresh
  | live
  | gone
  | closer
  deriving DecidableEq

def Role.inPool : Role → Bool
  | outside | unborn => false
  | fresh | live | gone | closer => true

namespace Pc

variable {τ ε : Type}

def holds : Pc τ ε → Bool
  | exitTid | exitCount _ | exitSignal _ | exitUnlock _ => true
  | increaseThread | increaseCount _ | increaseUnlock => true
  | terminateNonblock _ | terminateSet _ | terminateDetach | terminateCount => true
  | terminateTest _ | terminateUnlock _ => true
  | _ => false

/-- Where a thread of the pool can be at any time before the end. -/
def works : Pc τ ε → Bool
  | start | check | get | client | taskEnd | schedule _ | scheduleSignal | increaseLock => true
  | _ => false

/-- In `thrdpool_increase`, with the mutex. -/
def increases : Pc τ ε → Bool
  | increaseThread | increaseCount _ | increaseUnlock => true
  | _ => false

/-- The thread that has been started and is about to be counted. -/
def child : Pc τ ε → Option τ
  | createCount _ child | increaseCount child => some child
  | _ => none

/-- How many threads `thrdpool_create` is to start. -/
def creates : Pc τ ε → Option Nat
  | createTest nthreads | createThread nthreads | createCount nthreads _ | createEnd nthreads =>
    some nthreads
  | _ => none

/-- How far the end of the pool has come, and whether it is one of its threads that ends it. -/
def closing : Pc τ ε → Option (Bool × Nat)
  | terminateLock closer => some (closer.inPool, 1)
  | terminateNonblock closer => some (closer.inPool, 2)
  | terminateSet closer => some (closer.inPool, 3)
  | terminateDetach => some (true, 4)
  | terminateCount => some (true, 5)
  | terminateTest closer | terminateWait closer => some (closer.inPool, 6)
  | terminateUnlock closer => some (closer.inPool, 7)
  | terminateTid closer | terminateJoin closer _ => some (closer.inPool, 8)
  | drain inPool => some (inPool, 9)
  | deleteKey closer => some (closer.inPool, 10)
  | destroyMutex closer => some (closer.inPool, 11)
  | destroyQueue closer => some (closer.inPool, 12)
  | freePool => some (false, 13)
  | _ => none

/-- In the call of `__thrdpool_terminate` by `thrdpool_create`. -/
def abandons : Pc τ ε → Bool
  | terminateLock closer | terminateNonblock closer | terminateSet closer => closer = .creator
  | terminateTest closer | terminateWait closer | terminateUnlock closer => closer = .creator
  | terminateTid closer | terminateJoin closer _ => closer = .creator
  | _ => false

/-- The thread has begun to end: whom it has left to join. -/
def duty : Pc τ ε → Option (Reap.Duty τ)
  | exitCount tid | exitSignal tid | exitUnlock tid => some (.owes tid)
  | exitJoin tid => some (.owes (some tid))
  | ended => some .settled
  | _ => none

def signals : Pc τ ε → Bool
  | exitSignal _ => true
  | _ => false

def waits : Pc τ ε → Bool
  | terminateWait _ => true
  | _ => false

end Pc

variable {τ ε : Type}

/-- In a task, or past one. -/
def Pc.tasked : Pc τ ε → Bool
  | client | taskEnd | free => true
  | pc => pc.uses || pc.closing.isSome

/-- Where a thread of its role can be when the end of the pool has come that far. -/
def Fits (stage : Nat) (role : Role) (pc : Pc τ ε) : Prop :=
  match role with
  | .outside => pc = .client ∨ (pc.uses = true ∨ pc.creates.isSome = true) ∧ stage = 0 ∨
      pc.closing = some (false, stage)
  | .unborn => pc = .unborn
  | .fresh => pc.works = true ∧ stage ≤ 6 ∨ pc = .exitLock ∧ 3 ≤ stage ∧ stage ≤ 6 ∨
      pc.closing = some (true, stage) ∧ stage = 1
  | .live => (pc.works = true ∨ pc.increases = true) ∧ stage ≤ 6 ∨
      pc = .exitLock ∧ 3 ≤ stage ∧ stage ≤ 6 ∨
      (pc = .exitTid ∨ ∃ tid, pc = .exitCount tid) ∧ 4 ≤ stage ∧ stage ≤ 6 ∨
      pc.closing = some (true, stage) ∧ stage ≤ 5
  | .gone => (∃ tid, pc = .exitSignal tid ∨ pc = .exitUnlock tid) ∧ 4 ≤ stage ∧ stage ≤ 6 ∨
      ((∃ tid, pc = .exitJoin tid) ∨ pc = .ended) ∧ 4 ≤ stage
  | .closer => (pc = .client ∨ pc = .taskEnd ∨ pc = .free) ∧ stage = 14 ∨
      pc = .ended ∧ stage = 15 ∨ pc.closing = some (true, stage) ∧ 6 ≤ stage

section Fits

variable {stage n last : Nat} {r : Role} {pc : Pc τ ε} {t : τ} {inPool : Bool}

section Unfolded

attribute [local simp] Fits Pc.works Pc.increases Pc.uses Pc.creates Pc.closing

theorem fits_routine (hpc : pc = .start ∨ pc = .check ∨ pc = .get) :
    Fits stage r pc ↔ (r = .fresh ∨ r = .live) ∧ stage ≤ 6 := by
  rcases hpc with rfl | rfl | rfl <;> cases r <;> simp

theorem fits_client : Fits stage r (.client : Pc τ ε) ↔
    r = .outside ∨ (r = .fresh ∨ r = .live) ∧ stage ≤ 6 ∨ r = .closer ∧ stage = 14 := by
  cases r <;> simp

theorem fits_taskEnd : Fits stage r (.taskEnd : Pc τ ε) ↔
    (r = .fresh ∨ r = .live) ∧ stage ≤ 6 ∨ r = .closer ∧ stage = 14 := by
  cases r <;> simp

theorem fits_free : Fits stage r (.free : Pc τ ε) ↔ r = .closer ∧ stage = 14 := by
  cases r <;> simp

theorem fits_exitLock : Fits stage r (.exitLock : Pc τ ε) ↔
    (r = .fresh ∨ r = .live) ∧ 3 ≤ stage ∧ stage ≤ 6 := by
  cases r <;> simp

theorem fits_leaving (hpc : pc = .exitTid ∨ ∃ tid, pc = .exitCount tid) :
    Fits stage r pc ↔ r = .live ∧ 4 ≤ stage ∧ stage ≤ 6 := by
  rcases hpc with rfl | ⟨tid, rfl⟩ <;> cases r <;> simp

theorem fits_left (hpc : ∃ tid, pc = .exitSignal tid ∨ pc = .exitUnlock tid) :
    Fits stage r pc ↔ r = .gone ∧ 4 ≤ stage ∧ stage ≤ 6 := by
  obtain ⟨tid, rfl | rfl⟩ := hpc <;> cases r <;> simp

theorem fits_exitJoin : Fits stage r (.exitJoin t : Pc τ ε) ↔ r = .gone ∧ 4 ≤ stage := by
  cases r <;> simp

theorem fits_ended : Fits stage r (.ended : Pc τ ε) ↔
    r = .gone ∧ 4 ≤ stage ∨ r = .closer ∧ stage = 15 := by
  cases r <;> simp

theorem fits_call
    (hpc : (∃ entry, pc = .schedule entry) ∨ pc = .scheduleSignal ∨ pc = .increaseLock) :
    Fits stage r pc ↔ r = .outside ∧ stage = 0 ∨ (r = .fresh ∨ r = .live) ∧ stage ≤ 6 := by
  rcases hpc with ⟨entry, rfl⟩ | rfl | rfl <;> cases r <;> simp

theorem fits_increases (hpc : pc.increases = true) :
    Fits stage r pc ↔ r = .outside ∧ stage = 0 ∨ r = .live ∧ stage ≤ 6 := by
  cases pc <;> cases r <;> simp_all

theorem fits_creates (hpc : pc.creates = some n) : Fits stage r pc ↔ r = .outside ∧ stage = 0 := by
  cases pc <;> cases r <;> simp_all

end Unfolded

theorem Pc.facts_of_closing (h : pc.closing ≠ none) : pc.child = none ∧ pc ≠ .start ∧
    pc.uses = false ∧ pc.creates = none ∧ pc.signals = false ∧ pc.tasked = true := by
  cases pc <;> first
    | exact absurd rfl h
    | simp [Pc.child, Pc.uses, Pc.creates, Pc.signals, Pc.tasked, Pc.closing]

theorem Pc.works_of_closing (h : pc.closing ≠ none) :
    pc.works = false ∧ pc.increases = false := by
  cases pc <;> first | exact absurd rfl h | exact ⟨rfl, rfl⟩

theorem Pc.closing_le (h : pc.closing = some (inPool, last)) : last ≤ 13 := by
  cases pc <;> first | (simp [Pc.closing] at h) <;> omega

theorem Pc.closing_of_abandons (h : pc.abandons = true) : pc.closing ≠ none := by
  cases pc <;> first | exact absurd h Bool.false_ne_true | simp [Pc.closing]

theorem fits_closing (hpc : pc.closing = some (inPool, last)) : Fits stage r pc ↔
    stage = last ∧ (r = .outside ∧ inPool = false ∨ inPool = true ∧
      (r = .fresh ∧ last = 1 ∨ r = .live ∧ last ≤ 5 ∨ r = .closer ∧ 6 ≤ last)) := by
  have hsome : pc.closing ≠ none := by simp [hpc]
  obtain ⟨-, -, huses, hcreates, -, -⟩ := Pc.facts_of_closing hsome
  obtain ⟨hworks, hincreases⟩ := Pc.works_of_closing hsome
  have hne : ∀ {pc' : Pc τ ε}, pc'.closing = none → pc ≠ pc' := by
    rintro _ hnone rfl
    exact hsome hnone
  have hcaller : pc ≠ .client ∧ pc ≠ .unborn ∧ pc ≠ .taskEnd ∧ pc ≠ .free :=
    ⟨hne rfl, hne rfl, hne rfl, hne rfl⟩
  have hexits : pc ≠ .exitLock ∧ pc ≠ .exitTid ∧ pc ≠ .ended ∧ (∀ tid, pc ≠ .exitCount tid) ∧
      (∀ tid, pc ≠ .exitSignal tid) ∧ (∀ tid, pc ≠ .exitUnlock tid) ∧ ∀ tid, pc ≠ .exitJoin tid :=
    ⟨hne rfl, hne rfl, hne rfl, fun _ => hne rfl, fun _ => hne rfl, fun _ => hne rfl,
      fun _ => hne rfl⟩
  cases r <;> simp [Fits, huses, hcreates, hworks, hincreases, hpc, hcaller, hexits] <;> grind

end Fits

/-- What is known of the threads that the pool itself does not keep. -/
structure Ghost (τ : Type) where
  stage : Nat
  role : τ → Role
  /-- Those counted in `nthreads`. -/
  live : List τ
  /-- Those that have put themselves into `tid`, the last of them first. -/
  chain : List τ
  spawning : Option τ

structure Counted (nthreads : Nat) (live : List τ) (role : τ → Role) : Prop where
  count : nthreads = live.length
  nodup : live.Nodup
  mem : ∀ t, t ∈ live ↔ role t = .live

/-- One thread at a time has been started and is not yet counted. -/
structure Spawning (pc : τ → Pc τ ε) (role : τ → Role) (spawning : Option τ) : Prop where
  fresh : ∀ t, role t = .fresh ↔ spawning = some t
  parent : ∀ child, spawning = some child → ∃ t, (pc t).child = some child
  child : ∀ t child, (pc t).child = some child → spawning = some child

/-- `thrdpool_in_pool`. -/
def Keyed (key : τ → Bool) (pc : τ → Pc τ ε) (role : τ → Role) : Prop :=
  ∀ t, key t = true ↔ (role t).inPool = true ∧ pc t ≠ .start

/-- One thread ends the pool. -/
structure Closing (closer : Option τ) (pc : τ → Pc τ ε) (role : τ → Role) (stage : Nat)
    (detached : τ → Bool) : Prop where
  one : ∀ t, (pc t).closing ≠ none → closer = some t
  here : ∀ t, closer = some t →
    (pc t).closing ≠ none ∨ stage = 15 ∧ role t = .outside ∨ 14 ≤ stage ∧ role t = .closer
  left : ∀ t, role t = .closer ∨ pc t = .terminateCount → detached t = true
  role : ∀ t, role t = .closer → closer = some t
  zero : stage = 0 ↔ closer = none
  detached : ∀ t, detached t = true → closer = some t

/-- What there is left of the pool at each stage of its end. -/
structure Flags (s : State τ ε) (stage : Nat) : Prop where
  last : stage ≤ 15
  nonblock : s.queue.nonblock = decide (3 ≤ stage)
  terminate : s.terminate = decide (4 ≤ stage)
  noKey : s.noKey = decide (11 ≤ stage)
  noMutex : s.noMutex = decide (12 ≤ stage)
  noQueue : s.noQueue = decide (13 ≤ stage)
  freed : s.freed = decide (15 ≤ stage)

/-- Each thread that ends joins the one before it, and who ends the pool the last one. -/
structure Exits (tid : Option τ) (chain : List τ) (pc : τ → Pc τ ε) (role : τ → Role)
    (joined : List τ) (stage : Nat) : Prop where
  tid : tid = chain.head?
  chained : Reap.Chained (fun t => (pc t).duty) joined chain
  nodup : chain.Nodup
  mem : ∀ t, t ∈ chain ↔ role t = .gone ∨ ∃ tid, pc t = .exitCount tid
  joinedNodup : joined.Nodup
  settled : ∀ t ∈ joined, t ∈ chain ∧ (pc t).duty = some .settled
  head : ∀ t ∈ chain.head?, t ∈ joined → 9 ≤ stage
  reaped : 9 ≤ stage → ∀ t ∈ chain, t ∈ joined
  joining : ∀ t closer tid, pc t = .terminateJoin closer tid → chain.head? = some tid

/-- No task before `thrdpool_create` has returned, and a thread to run it from then on. -/
structure Opening (opened : Bool) (pc : τ → Pc τ ε) (role : τ → Role) (live : List τ) (stage : Nat)
    (scheduled : List ε) : Prop where
  unopened : opened = false →
    scheduled = [] ∧ ∀ t, (role t).inPool = true → (pc t).tasked = false
  uses : ∀ t, (pc t).uses = true → opened = true
  creates : ∀ t nthreads, (pc t).creates = some nthreads → 1 ≤ nthreads ∧ opened = false
  one : ∀ t t', (pc t).creates ≠ none → (pc t').creates ≠ none → t = t'
  abandons : ∀ t, (pc t).abandons = true → opened = false
  live : opened = true → stage = 0 → live ≠ []

/-- Who waits for the threads to end has some left to wait for, or is about to be woken. -/
structure Waits (term : List τ) (pc : τ → Pc τ ε) (nthreads : Nat) : Prop where
  waits : ∀ t ∈ term, (pc t).waits = true
  signal : term ≠ [] → nthreads = 0 → ∃ t, (pc t).signals = true

/-- The tasks are started in the order in which they were scheduled, and those left over at the end
are taken out in that order. -/
structure Tasks (s : State τ ε) (stage : Nat) : Prop where
  order : s.scheduled = s.started ++ s.drained ++ s.queue.queue
  drained : s.drained ≠ [] → 9 ≤ stage
  closed : 10 ≤ stage → s.queue.queue = []

structure Inv (s : State τ ε) (g : Ghost τ) : Prop where
  fits : ∀ t, Fits g.stage (g.role t) (s.pc t)
  counted : Counted s.nthreads g.live g.role
  spawning : Spawning s.pc g.role g.spawning
  mutex : Pthread.Owned Pc.holds s.pc s.mutex
  keyed : Keyed s.key s.pc g.role
  closing : Closing s.closer s.pc g.role g.stage s.detached
  flags : Flags s g.stage
  empty : 7 ≤ g.stage → g.live = [] ∧ g.spawning = none
  exits : Exits s.tid g.chain s.pc g.role s.joined g.stage
  opening : Opening s.opened s.pc g.role g.live g.stage s.scheduled
  waits : Waits s.term s.pc s.nthreads
  tasks : Tasks s g.stage

/-- The pool when its first thread is about to be started. -/
def Ghost.create (creator : τ) (outside : τ → Bool) [DecidableEq τ] : Ghost τ where
  stage := 0
  role := fun t => if t = creator ∨ outside t = true then .outside else .unborn
  live := []
  chain := []
  spawning := none

section Create

variable [DecidableEq τ] {creator : τ} {outside : τ → Bool} {nthreads : Nat}

theorem place_create (t : τ) :
    let s : State τ ε := State.create creator outside nthreads
    let role := (Ghost.create creator outside).role t
    t = creator ∧ s.pc t = .createTest nthreads ∧ role = .outside ∨
      s.pc t = .client ∧ role = .outside ∨ s.pc t = .unborn ∧ role = .unborn := by
  by_cases ht : t = creator
  · exact .inl ⟨ht, if_pos ht, if_pos (.inl ht)⟩
  · cases hout : outside t with
    | true => exact .inr (.inl ⟨by simp [State.create, ht, hout], by simp [Ghost.create, hout]⟩)
    | false =>
      exact .inr (.inr ⟨by simp [State.create, ht, hout], by simp [Ghost.create, ht, hout]⟩)

theorem inv_create (hpos : 1 ≤ nthreads) :
    Inv (State.create creator outside nthreads : State τ ε) (Ghost.create creator outside) := by
  generalize hs : (State.create creator outside nthreads : State τ ε) = s
  generalize hg : Ghost.create creator outside = g
  have hplace : ∀ t, t = creator ∧ s.pc t = .createTest nthreads ∧ g.role t = .outside ∨
      s.pc t = .client ∧ g.role t = .outside ∨ s.pc t = .unborn ∧ g.role t = .unborn := by
    subst hs hg
    exact place_create
  have hcases : ∀ (p : Role → Pc τ ε → Prop), p .outside (.createTest nthreads) →
      p .outside .client → p .unborn .unborn → ∀ t, p (g.role t) (s.pc t) := by
    intro p hcreator hclient hunborn t
    rcases hplace t with ⟨-, hpc, hrole⟩ | ⟨hpc, hrole⟩ | ⟨hpc, hrole⟩ <;> rwa [hpc, hrole]
  have hlive : g.live = [] := by rw [← hg]; rfl
  have hstage : g.stage = 0 := by rw [← hg]; rfl
  have hspawning : g.spawning = none := by rw [← hg]; rfl
  have hchain : g.chain = [] := by rw [← hg]; rfl
  constructor
  · rw [hstage]
    exact hcases _ (by simp [Fits, Pc.creates]) (by simp [Fits]) rfl
  · refine ⟨by rw [hlive, ← hs]; rfl, by simp [hlive], fun t => ?_⟩
    rw [hlive]
    exact hcases (fun role _ => t ∈ [] ↔ role = .live) (by simp) (by simp) (by simp) t
  · refine ⟨fun t => ?_, by simp [hspawning], fun t child => ?_⟩
    · rw [hspawning]
      exact hcases (fun role _ => role = .fresh ↔ none = some t) (by simp) (by simp) (by simp) t
    · exact hcases (fun _ pc => pc.child = some child → _) (by simp [Pc.child]) (by simp [Pc.child])
        (by simp [Pc.child]) t
  · intro t
    have hmutex : s.mutex = none := by rw [← hs]; rfl
    rw [hmutex]
    exact hcases (fun _ pc => none = some t ↔ pc.holds = true) (by simp [Pc.holds])
      (by simp [Pc.holds]) (by simp [Pc.holds]) t
  · intro t
    have hkey : s.key t = false := by rw [← hs]; rfl
    rw [hkey]
    exact hcases (fun role pc => false = true ↔ role.inPool = true ∧ pc ≠ .start)
      (by simp [Role.inPool]) (by simp [Role.inPool]) (by simp [Role.inPool]) t
  · have hcloser : s.closer = none := by rw [← hs]; rfl
    refine ⟨fun t => ?_, by simp [hcloser], fun t => ?_, fun t => ?_, by simp [hstage, hcloser], ?_⟩
    · exact hcases (fun _ pc => pc.closing ≠ none → _) (by simp [Pc.closing]) (by simp [Pc.closing])
        (by simp [Pc.closing]) t
    · exact hcases (fun role pc => role = .closer ∨ pc = .terminateCount → _) (by simp) (by simp)
        (by simp) t
    · exact hcases (fun role _ => role = .closer → _) (by simp) (by simp) (by simp) t
    · rw [← hs]
      intro t hdetached
      cases hdetached
  · rw [hstage, ← hs]
    exact ⟨Nat.zero_le _, rfl, rfl, rfl, rfl, rfl, rfl⟩
  · rw [hstage]
    omega
  · have hjoined : s.joined = [] := by rw [← hs]; rfl
    rw [hchain, hjoined, hstage]
    refine ⟨by rw [← hs]; rfl, trivial, List.nodup_nil, fun t => ?_, List.nodup_nil, by simp,
      by simp, by simp, fun t closer tid => ?_⟩
    · exact hcases (fun role pc => t ∈ [] ↔ role = .gone ∨ ∃ tid, pc = .exitCount tid) (by simp)
        (by simp) (by simp) t
    · exact hcases (fun _ pc => pc = .terminateJoin closer tid → _) (by simp) (by simp) (by simp) t
  · have hopened : s.opened = false := by rw [← hs]; rfl
    have hscheduled : s.scheduled = [] := by rw [← hs]; rfl
    rw [hopened, hscheduled, hstage]
    refine ⟨fun _ => ⟨rfl, ?_⟩, ?_, fun t n => ?_, fun t t' ht ht' => ?_, fun _ _ => rfl, by simp⟩
    · exact hcases (fun role pc => role.inPool = true → pc.tasked = false)
        (by simp [Role.inPool]) (by simp [Role.inPool]) (by simp [Role.inPool])
    · exact hcases (fun _ pc => pc.uses = true → _) (by simp [Pc.uses]) (by simp [Pc.uses])
        (by simp [Pc.uses])
    · refine hcases (fun _ pc => pc.creates = some n → 1 ≤ n ∧ _) ?_ (by simp [Pc.creates])
        (by simp [Pc.creates]) t
      rintro ⟨⟩
      exact ⟨hpos, rfl⟩
    · have hcreator : ∀ t, (s.pc t).creates ≠ none → t = creator := by
        intro t ht
        rcases hplace t with ⟨htc, -⟩ | ⟨hpc, -⟩ | ⟨hpc, -⟩
        · exact htc
        · exact absurd (by rw [hpc]; rfl) ht
        · exact absurd (by rw [hpc]; rfl) ht
      rw [hcreator t ht, hcreator t' ht']
  · have hterm : s.term = [] := by rw [← hs]; rfl
    rw [hterm]
    exact ⟨by simp, by simp⟩
  · rw [hstage, ← hs]
    exact ⟨rfl, by simp [State.create], by omega⟩

end Create

end Hplsp.Thrdpool
