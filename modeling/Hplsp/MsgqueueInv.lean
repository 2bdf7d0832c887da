import Hplsp.Msgqueue

/-! The two lists of a `msgqueue`, and what the holders of its mutexes are doing to them. -/

namespace Hplsp.Msgqueue

open Linked

/-- What the holder of `put_mutex` has left to do for the list. -/
inductive PutPhase (μ : Type) where
  | whole
  | linked (msg : μ)
  | counting
  | swapped (old : Bool)
  | reset

/-- What the holder of `get_mutex` knows of its list. -/
inductive GetPhase where
  | whole
  | taking
  | empty
  | waiting (old : Bool)
  | passing (old : Bool) (cnt : Nat)
  | counted (cnt : Nat)

namespace Pc

variable {μ : Type} {pc : Pc μ} {a : μ}

def holdsPut : Pc μ → Bool
  | putTest _ | putLink _ | putTail _ | putCount | putUnlock => true
  | swapTest _ | swapBroadcast _ _ | swapPut _ _ | swapTail _ _ | swapZero _ | swapUnlock _ => true
  | nonblockSignal | nonblockBroadcast | nonblockUnlock => true
  | _ => false

def holdsGet : Pc μ → Bool
  | getTest | swapHead | swapLock _ | swapTest _ | swapWait _ | swapBroadcast _ _ => true
  | swapPut _ _ | swapTail _ _ | swapZero _ | swapUnlock _ | getTake | getUnlock _ => true
  | _ => false

def putPhase : Pc μ → PutPhase μ
  | putTail msg => .linked msg
  | putCount => .counting
  | swapTail old _ => .swapped old
  | swapZero _ => .reset
  | _ => .whole

def getPhase : Pc μ → GetPhase
  | getTake => .taking
  | swapHead => .empty
  | swapLock old | swapTest old | swapWait old => .waiting old
  | swapBroadcast old cnt | swapPut old cnt => .passing old cnt
  | swapTail _ cnt | swapZero cnt | swapUnlock cnt => .counted cnt
  | _ => .whole

/-- The message whose link the thread has set to null and that is not in the list yet. -/
def fresh : Pc μ → Option μ
  | putLock msg | putTest msg | putWait msg | putLink msg => some msg
  | _ => none

/-- How far the call has got, as its caller would see it: an operation takes effect when its message
is linked in or taken out, or when the test of `__msgqueue_swap` finds nothing to wait for. -/
def status : Pc μ → Atomic.Status (Op μ) (Result μ)
  | idle => .idle
  | putNull msg | putLock msg | putTest msg | putWait msg | putLink msg => .called (.put msg)
  | putTail _ | putCount | putUnlock | putSignal => .done .done
  | getLock | getTest | swapHead | swapLock _ | swapTest _ | swapWait _ | getTake => .called .get
  | swapBroadcast _ cnt | swapPut _ cnt | swapTail _ cnt | swapZero cnt | swapUnlock cnt =>
    if cnt = 0 then .done (.got none) else .called .get
  | getUnlock msg => .done (.got msg)
  | nonblockSet => .called .setNonblock
  | nonblockLock | nonblockSignal | nonblockBroadcast | nonblockUnlock => .done .done
  | blockSet => .called .setBlock
  | returning result => .done result

theorem putPhase_of_not_holds (pc : Pc μ) (h : pc.holdsPut = false) : pc.putPhase = .whole := by
  cases pc <;> simp_all [putPhase, holdsPut]

theorem getPhase_of_not_holds (pc : Pc μ) (h : pc.holdsGet = false) : pc.getPhase = .whole := by
  cases pc <;> simp_all [getPhase, holdsGet]

theorem fresh_own (h : pc.fresh = some a) : pc.own = some a := by
  cases pc <;> simp_all [fresh, own]

/-- A thread passes the test of `__msgqueue_swap` with both mutexes. -/
theorem holds_of_passing {old : Bool} {cnt : Nat} (h : pc.getPhase = .passing old cnt) :
    pc.holdsPut = true ∧ pc.holdsGet = true := by
  cases pc <;> simp_all [getPhase, holdsPut, holdsGet]

end Pc

/-- The slot of a place in the list behind one of the heads. -/
def Slot.at {μ : Type} (second : Bool) : Place μ → Slot μ
  | .head => .head second
  | .node msg => .link msg

variable {τ μ : Type} [DecidableEq τ] [DecidableEq μ] {s s' : State τ μ} {t t' : τ}
  {G G' P P' : List μ} {pc new : Pc μ} {a b : μ} {slot : Slot μ} {second : Bool} {p q : Place μ}

namespace State

/-- The links of the list behind one of the heads. -/
def succ (s : State τ μ) (second : Bool) (p : Place μ) : Option μ := s.mem (Slot.at second p)

def putPhase (s : State τ μ) : PutPhase μ := Pthread.phase .whole Pc.putPhase s.pc s.putMutex

def getPhase (s : State τ μ) : GetPhase := Pthread.phase .whole Pc.getPhase s.pc s.getMutex

/-- The end and the length of the list that messages are put into. -/
def PutOk (s : State τ μ) (P : List μ) : PutPhase μ → Prop
  | .whole => s.putTail = Slot.at s.putHead (last .head P) ∧ s.msgCnt = P.length
  | .linked msg => ∃ P', P = P' ++ [msg] ∧ s.putTail = Slot.at s.putHead (last .head P') ∧
      s.msgCnt = P'.length
  | .counting => s.putTail = Slot.at s.putHead (last .head P) ∧ s.msgCnt + 1 = P.length
  | .swapped old => P = [] ∧ s.putHead = old
  | .reset => P = [] ∧ s.putTail = .head s.putHead

/-- The list that messages are taken from, apart from the other one. -/
def Apart (s : State τ μ) (G : List μ) : Prop :=
  s.getHead ≠ s.putHead ∧ Path (s.succ s.getHead) .head G

/-- Both pointers are at the list that messages are put into; `old` is where the other head is. -/
def Joined (s : State τ μ) (G : List μ) (old : Bool) : Prop :=
  s.getHead = s.putHead ∧ old ≠ s.putHead ∧ s.mem (.head old) = none ∧ G = []

def GetOk (s : State τ μ) (G P : List μ) : GetPhase → Prop
  | .whole => s.Apart G
  | .taking => s.Apart G ∧ G ≠ []
  | .empty => s.Apart G ∧ G = []
  | .waiting old => s.Joined G old
  | .passing old cnt => s.Joined G old ∧ cnt = P.length
  | .counted cnt => s.Apart G ∧ cnt = G.length

omit [DecidableEq τ] [DecidableEq μ] in
theorem succ_of_mem (h : s'.mem = s.mem) : s'.succ second = s.succ second := by
  funext p
  rw [succ, h, succ]

end State

omit [DecidableEq μ] in
@[simp] theorem Slot.at_inj : Slot.at second p = Slot.at second q ↔ p = q := by
  cases p <;> cases q <;> simp [Slot.at]

omit [DecidableEq μ] in
@[simp] theorem Slot.at_eq_link : Slot.at second p = .link a ↔ p = .node a := by
  cases p <;> simp [Slot.at]

omit [DecidableEq μ] in
@[simp] theorem Slot.at_eq_head {b : Bool} :
    Slot.at second p = .head b ↔ p = .head ∧ second = b := by
  cases p <;> simp [Slot.at]

omit [DecidableEq μ] in
theorem mem_of_last (h : last .head P = .node a) : a ∈ P :=
  node_mem_places.mp (h ▸ last_mem_places)

/-- The messages `G` wait in the list that is taken from, and `P` in the one that is put into. -/
structure Inv (s : State τ μ) (G P : List μ) : Prop where
  putPath : Path (s.succ s.putHead) .head P
  put : s.PutOk P s.putPhase
  get : s.GetOk G P s.getPhase
  nodup : (G ++ P).Nodup
  sent : s.sent = s.received ++ (G ++ P)
  getMutex : Pthread.Owned Pc.holdsGet s.pc s.getMutex
  putMutex : Pthread.Owned Pc.holdsPut s.pc s.putMutex
  own : ∀ t a, (s.pc t).own = some a → a ∉ G ++ P
  ownUnique : ∀ t t' a, (s.pc t).own = some a → (s.pc t').own = some a → t = t'
  fresh : ∀ t a, (s.pc t).fresh = some a → s.mem (.link a) = none

omit [DecidableEq τ] [DecidableEq μ] in
theorem inv_create (maxlen : Nat) : Inv (State.create maxlen : State τ μ) [] [] where
  putPath := path_nil.mpr rfl
  put := ⟨rfl, rfl⟩
  get := ⟨by simp [State.create], path_nil.mpr rfl⟩
  nodup := List.nodup_nil
  sent := rfl
  getMutex t := by simp [State.create, Pc.holdsGet]
  putMutex t := by simp [State.create, Pc.holdsPut]
  own := by simp [State.create, Pc.own]
  ownUnique := by simp [State.create, Pc.own]
  fresh := by simp [State.create, Pc.fresh]

namespace Inv

variable (h : Inv s G P)
include h

omit [DecidableEq τ] [DecidableEq μ] in
theorem pending_eq : s.pending = G ++ P := by
  rw [State.pending, h.sent, List.drop_left]

omit [DecidableEq μ] in
/-- A thread that goes on with the mutexes that it has. -/
theorem stays (t : τ) (new : Pc μ) (hget : new.holdsGet = (s.pc t).holdsGet)
    (hput : new.holdsPut = (s.pc t).holdsPut) :
    Pthread.Owned Pc.holdsGet (Function.update s.pc t new) s.getMutex ∧
      Pthread.Owned Pc.holdsPut (Function.update s.pc t new) s.putMutex :=
  ⟨h.getMutex.goto hget, h.putMutex.goto hput⟩

omit [DecidableEq μ] in
/-- What is left to show of a step of one thread. -/
theorem step (G' P' : List μ) (hpc : s'.pc = Function.update s.pc t new)
    (hgetMutex : Pthread.Owned Pc.holdsGet (Function.update s.pc t new) s'.getMutex)
    (hputMutex : Pthread.Owned Pc.holdsPut (Function.update s.pc t new) s'.putMutex)
    (hpath : Path (s'.succ s'.putHead) .head P')
    {putPhase : PutPhase μ} (hputPhase : s'.putPhase = putPhase) (hput : s'.PutOk P' putPhase)
    {getPhase : GetPhase} (hgetPhase : s'.getPhase = getPhase) (hget : s'.GetOk G' P' getPhase)
    (hnodup : (G' ++ P').Nodup)
    (hsent : s'.sent = s'.received ++ (G' ++ P'))
    (hnew : ∀ a ∈ G' ++ P', a ∈ G ++ P ∨ (s.pc t).own = some a)
    (hown : ∀ a, new.own = some a → a ∉ G' ++ P' ∧ ∀ t', t' ≠ t → (s.pc t').own ≠ some a)
    (hmem : ∀ a, s'.mem (.link a) = s.mem (.link a) ∨ s'.mem (.link a) = none ∨ a ∈ G ++ P)
    (hfresh : ∀ a, new.fresh = some a → s'.mem (.link a) = none) : Inv s' G' P' := by
  have hself : s'.pc t = new := by rw [hpc, Function.update_self]
  have hother : ∀ t', t' ≠ t → s'.pc t' = s.pc t' := by
    intro t' ht
    rw [hpc, Function.update_of_ne ht]
  refine ⟨hpath, hputPhase ▸ hput, hgetPhase ▸ hget, hnodup, hsent, hpc ▸ hgetMutex,
    hpc ▸ hputMutex, ?_, ?_, ?_⟩
  · intro t' a ha hmem'
    by_cases ht : t' = t
    · rw [ht, hself] at ha
      exact (hown a ha).1 hmem'
    · rw [hother t' ht] at ha
      rcases hnew a hmem' with hold | hold
      · exact h.own t' a ha hold
      · exact ht (h.ownUnique t' t a ha hold)
  · intro t₁ t₂ a h₁ h₂
    by_cases ht₁ : t₁ = t
    · by_cases ht₂ : t₂ = t
      · rw [ht₁, ht₂]
      · rw [ht₁, hself] at h₁
        rw [hother t₂ ht₂] at h₂
        exact absurd h₂ ((hown a h₁).2 t₂ ht₂)
    · rw [hother t₁ ht₁] at h₁
      by_cases ht₂ : t₂ = t
      · rw [ht₂, hself] at h₂
        exact absurd h₁ ((hown a h₂).2 t₁ ht₁)
      · rw [hother t₂ ht₂] at h₂
        exact h.ownUnique t₁ t₂ a h₁ h₂
  · intro t' a ha
    by_cases ht : t' = t
    · rw [ht, hself] at ha
      exact hfresh a ha
    · rw [hother t' ht] at ha
      rcases hmem a with hsame | hnull | hold
      · rw [hsame]
        exact h.fresh t' a ha
      · exact hnull
      · exact absurd hold (h.own t' a (Pc.fresh_own ha))

end Inv

end Hplsp.Msgqueue
