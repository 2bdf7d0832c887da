import Hplsp.MsgqueueAtomic

/-! Who waits at the conditions of a message queue, and who is about to wake them. -/

namespace Hplsp.Msgqueue

namespace Pc

variable {μ : Type}

def waitsGet : Pc μ → Bool
  | swapWait _ => true
  | _ => false

def waitsPut : Pc μ → Bool
  | putWait _ => true
  | _ => false

/-- A message has been put and `get_cond` not yet signalled. -/
def tellsMessage : Pc μ → Bool
  | putUnlock | putSignal => true
  | _ => false

/-- The queue has been set to return and `get_cond` not yet signalled. -/
def tellsGetMode : Pc μ → Bool
  | nonblockLock | nonblockSignal => true
  | _ => false

/-- The queue has been set to return and `put_cond` not yet broadcast. -/
def tellsPutMode : Pc μ → Bool
  | nonblockLock | nonblockSignal | nonblockBroadcast => true
  | _ => false

/-- Between the broadcast of `__msgqueue_swap` and `msg_cnt = 0`. -/
def emptying : Pc μ → Bool
  | swapPut _ _ | swapTail _ _ | swapZero _ => true
  | _ => false

theorem emptying_holdsPut {pc : Pc μ} (h : pc.emptying = true) : pc.holdsPut = true := by
  cases pc <;> simp_all [emptying, holdsPut]

theorem waitsGet_holdsGet {pc : Pc μ} (h : pc.waitsGet = true) : pc.holdsGet = true := by
  cases pc <;> simp_all [waitsGet, holdsGet]

end Pc

variable {τ μ : Type} [DecidableEq τ] {s s' : State τ μ} {t t' : τ}
  {G P : List μ} {pc old new : Pc μ} {a : μ} {woken : Option τ}

/-- Who waits to take has nothing to take, unless it is about to be told. -/
structure GetWait (s : State τ μ) : Prop where
  waits : ∀ t ∈ s.getCond, (s.pc t).waitsGet = true
  message : s.getCond ≠ [] → s.msgCnt ≠ 0 → ∃ t, (s.pc t).tellsMessage = true
  mode : s.getCond ≠ [] → s.nonblock = true → ∃ t, (s.pc t).tellsGetMode = true

/-- Who waits to put has no room, unless it is about to be told. -/
structure PutWait (s : State τ μ) : Prop where
  waits : ∀ t ∈ s.putCond, (s.pc t).waitsPut = true
  room : s.putCond ≠ [] → s.full = true
  mode : s.putCond ≠ [] → s.nonblock = true → ∃ t, (s.pc t).tellsPutMode = true
  emptying : ∀ t, (s.pc t).emptying = true → s.putCond = []

omit [DecidableEq τ] in
/-- Nobody waits at `get_cond`. -/
theorem GetWait.nil (h : s.getCond = []) : GetWait s := by
  constructor <;> simp [h]

omit [DecidableEq τ] in
/-- Nobody waits at `put_cond`. -/
theorem PutWait.nil (h : s.putCond = []) : PutWait s := by
  constructor <;> simp [h]

namespace GetWait

variable (h : GetWait s)
include h

omit [DecidableEq τ] in
theorem out (hpc : s.pc t = old) (hold : old.waitsGet = false) : t ∉ s.getCond := by
  intro ht
  have hwaits := h.waits t ht
  rw [hpc, hold] at hwaits
  cases hwaits

/-- A step of a thread that does not wait and does not take back what it is about to tell. -/
theorem keep (hpc : s.pc t = old) (hpc' : s'.pc = Function.update s.pc t new)
    (hcond : s'.getCond = s.getCond) (hcnt : s'.msgCnt = s.msgCnt)
    (hnonblock : s'.nonblock = s.nonblock) (ht : t ∉ s.getCond)
    (hmessage : old.tellsMessage = true → new.tellsMessage = true)
    (hmode : old.tellsGetMode = true → new.tellsGetMode = true) : GetWait s' := by
  subst hpc
  refine ⟨?_, ?_, ?_⟩ <;> rw [hpc', hcond]
  · exact Pthread.waiting_update h.waits ht
  · rw [hcnt]
    exact fun hwait hsome => Pthread.exists_update (h.message hwait hsome) hmessage
  · rw [hnonblock]
    exact fun hwait hset => Pthread.exists_update (h.mode hwait hset) hmode

end GetWait

namespace PutWait

variable (h : PutWait s)
include h

omit [DecidableEq τ] in
theorem out (hpc : s.pc t = old) (hold : old.waitsPut = false) : t ∉ s.putCond := by
  intro ht
  have hwaits := h.waits t ht
  rw [hpc, hold] at hwaits
  cases hwaits

/-- A thread that is not about to empty the queue now. -/
theorem emptying_update (hnew : new.emptying = true → (s.pc t).emptying = true) :
    ∀ t', (Function.update s.pc t new t').emptying = true → s.putCond = [] := by
  intro t'
  by_cases ht : t' = t
  · rw [ht, Function.update_self]
    exact fun hemptying => h.emptying t (hnew hemptying)
  · rw [Function.update_of_ne ht]
    exact h.emptying t'

theorem keep (hpc : s.pc t = old) (hpc' : s'.pc = Function.update s.pc t new)
    (hcond : s'.putCond = s.putCond) (hcnt : s'.msgCnt = s.msgCnt) (hmax : s'.msgMax = s.msgMax)
    (hnonblock : s'.nonblock = s.nonblock) (ht : t ∉ s.putCond)
    (hmode : old.tellsPutMode = true → new.tellsPutMode = true)
    (hemptying : new.emptying = true → old.emptying = true) : PutWait s' := by
  subst hpc
  refine ⟨?_, ?_, ?_, ?_⟩ <;> rw [hcond]
  · rw [hpc']
    exact Pthread.waiting_update h.waits ht
  · rw [State.full, hmax, hcnt]
    exact h.room
  · rw [hpc', hnonblock]
    exact fun hwait hset => Pthread.exists_update (h.mode hwait hset) hmode
  · rw [hpc']
    exact h.emptying_update hemptying

end PutWait

/-- Two points of a thread, the second of which leaves nobody waiting for more than the first. -/
structure Pc.Tells (old new : Pc μ) : Prop where
  getWaits : old.waitsGet = false
  putWaits : old.waitsPut = false
  message : old.tellsMessage = true → new.tellsMessage = true
  getMode : old.tellsGetMode = true → new.tellsGetMode = true
  putMode : old.tellsPutMode = true → new.tellsPutMode = true
  emptying : new.emptying = true → old.emptying = true

/-- What the threads wait for and who waits is as it was. -/
structure SameWaits (s s' : State τ μ) : Prop where
  getCond : s'.getCond = s.getCond
  putCond : s'.putCond = s.putCond
  msgCnt : s'.msgCnt = s.msgCnt
  msgMax : s'.msgMax = s.msgMax
  nonblock : s'.nonblock = s.nonblock

/-- Nobody waits in vain. -/
structure Waiting (s : State τ μ) : Prop where
  get : GetWait s
  put : PutWait s

omit [DecidableEq τ] in
theorem waiting_create (maxlen : Nat) : Waiting (State.create maxlen : State τ μ) :=
  ⟨.nil rfl, .nil rfl⟩

namespace Waiting

variable (h : Waiting s)
include h

/-- A step that changes nothing that the conditions are about. -/
theorem keep (hpc : s.pc t = old) (hpc' : s'.pc = Function.update s.pc t new)
    (hsame : SameWaits s s') (htells : old.Tells new) : Waiting s' :=
  ⟨h.get.keep hpc hpc' hsame.getCond hsame.msgCnt hsame.nonblock (h.get.out hpc htells.getWaits)
      htells.message htells.getMode,
    h.put.keep hpc hpc' hsame.putCond hsame.msgCnt hsame.msgMax hsame.nonblock
      (h.put.out hpc htells.putWaits) htells.putMode htells.emptying⟩

theorem lockPut (hrun : s.lockPut t new = some s') (hpc : s.pc t = old)
    (htells : old.Tells new) : Waiting s' := by
  obtain ⟨owner, -, hrun⟩ := Option.bind_eq_some_iff.mp hrun
  cases hrun
  exact h.keep hpc rfl ⟨rfl, rfl, rfl, rfl, rfl⟩ htells

theorem lockGet (hrun : s.lockGet t new = some s') (hpc : s.pc t = old)
    (htells : old.Tells new) : Waiting s' := by
  obtain ⟨owner, -, hrun⟩ := Option.bind_eq_some_iff.mp hrun
  cases hrun
  exact h.keep hpc rfl ⟨rfl, rfl, rfl, rfl, rfl⟩ htells

theorem unlockGet (hrun : s.unlockGet t new = some s') (hpc : s.pc t = old)
    (htells : old.Tells new) : Waiting s' := by
  obtain ⟨owner, -, hrun⟩ := Option.bind_eq_some_iff.mp hrun
  cases hrun
  exact h.keep hpc rfl ⟨rfl, rfl, rfl, rfl, rfl⟩ htells

theorem unlockPut (hrun : s.unlockPut t new = some s') (hpc : s.pc t = old)
    (htells : old.Tells new) : Waiting s' := by
  obtain ⟨owner, -, hrun⟩ := Option.bind_eq_some_iff.mp hrun
  cases hrun
  exact h.keep hpc rfl ⟨rfl, rfl, rfl, rfl, rfl⟩ htells

/-- Only the holder of `get_mutex` waits at `get_cond`, so that one signal reaches whoever waits. -/
theorem signal_eq_nil {getCond : List τ} (hinv : Inv s G P)
    (hsignal : Pthread.signal s.getCond woken = some getCond) : getCond = [] := by
  by_cases hnone : s.getCond = []
  · exact List.eq_nil_of_subset_nil (hnone ▸ Pthread.signal_subset hsignal)
  · obtain ⟨t, ht⟩ := List.exists_mem_of_ne_nil _ hnone
    refine Pthread.signal_eq_nil (t := t) hsignal fun t' ht' => ?_
    exact hinv.getMutex.unique (Pc.waitsGet_holdsGet (h.get.waits t' ht'))
      (Pc.waitsGet_holdsGet (h.get.waits t ht))

/-- `while (msg_cnt > msg_max - 1 && !nonblock) pthread_cond_wait(&queue->put_cond, ..)`. -/
theorem putSleep (hinv : Inv s G P) (hpc : s.pc t = .putTest a)
    (hfull : s.full = true) (hblock : s.nonblock = false)
    (hrun : { s with putCond := t :: s.putCond }.unlockPut t (.putWait a) = some s') :
    Waiting s' := by
  obtain ⟨owner, -, hrun⟩ := Option.bind_eq_some_iff.mp hrun
  cases hrun
  have hnew : t ∉ s.putCond := h.put.out hpc rfl
  refine ⟨h.get.keep hpc rfl rfl rfl rfl (h.get.out hpc rfl) id id, ?_, fun _ => hfull, ?_, ?_⟩
  · intro t' ht'
    rcases List.mem_cons.mp ht' with rfl | ht'
    · simp [State.goto, Pc.waitsPut]
    · exact Pthread.waiting_update h.put.waits hnew t' ht'
  · intro _ hset
    exact absurd (hblock.symm.trans hset) (by simp)
  · intro t' hemptying
    by_cases ht : t' = t
    · subst ht
      simp [State.goto, Pc.emptying] at hemptying
    · have hemptying : (s.pc t').emptying = true := by simpa [State.goto, ht] using hemptying
      refine absurd (hinv.putMutex.unique (Pc.emptying_holdsPut hemptying) ?_) ht
      rw [hpc]
      rfl

/-- `while (msg_cnt == 0 && !nonblock) pthread_cond_wait(&queue->get_cond, ..)`. -/
theorem getSleep {head : Bool} (hpc : s.pc t = .swapTest head)
    (hcnt : s.msgCnt = 0) (hblock : s.nonblock = false)
    (hrun : { s with getCond := t :: s.getCond }.unlockPut t (.swapWait head) = some s') :
    Waiting s' := by
  obtain ⟨owner, -, hrun⟩ := Option.bind_eq_some_iff.mp hrun
  cases hrun
  have hnew : t ∉ s.getCond := h.get.out hpc rfl
  refine ⟨⟨?_, fun _ hsome => absurd hcnt hsome, ?_⟩,
    h.put.keep hpc rfl rfl rfl rfl rfl (h.put.out hpc rfl) id id⟩
  · intro t' ht'
    rcases List.mem_cons.mp ht' with rfl | ht'
    · simp [State.goto, Pc.waitsGet]
    · exact Pthread.waiting_update h.get.waits hnew t' ht'
  · intro _ hset
    exact absurd (hblock.symm.trans hset) (by simp)

theorem putCount (hpc : s.pc t = .putCount) :
    Waiting ({ s with msgCnt := s.msgCnt + 1 }.goto t .putUnlock) := by
  refine ⟨⟨?_, fun _ _ => ⟨t, by simp [State.goto, Pc.tellsMessage]⟩, ?_⟩, ?_, ?_, ?_, ?_⟩
  · exact Pthread.waiting_update h.get.waits (h.get.out hpc rfl)
  · exact fun hwait hset => Pthread.exists_update (h.get.mode hwait hset)
      (by simp [hpc, Pc.tellsGetMode])
  · exact Pthread.waiting_update h.put.waits (h.put.out hpc rfl)
  · intro hwait
    have hfull : Word64.sub s.msgMax 1 < s.msgCnt := of_decide_eq_true (h.put.room hwait)
    exact decide_eq_true (Nat.lt_succ_of_lt hfull)
  · exact fun hwait hset => Pthread.exists_update (h.put.mode hwait hset)
      (by simp [hpc, Pc.tellsPutMode])
  · exact h.put.emptying_update (by simp [Pc.emptying])

theorem swapBroadcast {head : Bool} {cnt : Nat} (hpc : s.pc t = .swapBroadcast head cnt) :
    Waiting ({ s with putCond := if s.full then [] else s.putCond }.goto t
      (.swapPut head cnt)) := by
  have hnone : (if s.full then [] else s.putCond) = [] := by
    by_cases hfull : s.full = true
    · rw [if_pos hfull]
    · rw [if_neg hfull]
      by_contra hwait
      exact hfull (h.put.room hwait)
  rw [hnone]
  exact ⟨h.get.keep hpc rfl rfl rfl rfl (h.get.out hpc rfl) id id, .nil rfl⟩

theorem swapZero {cnt : Nat} (hpc : s.pc t = .swapZero cnt) :
    Waiting ({ s with msgCnt := 0 }.goto t (.swapUnlock cnt)) := by
  refine ⟨⟨?_, fun _ hsome => absurd rfl hsome, ?_⟩, .nil (h.put.emptying t (by rw [hpc]; rfl))⟩
  · exact Pthread.waiting_update h.get.waits (h.get.out hpc rfl)
  · exact fun hwait hset => Pthread.exists_update (h.get.mode hwait hset)
      (by simp [hpc, Pc.tellsGetMode])

theorem nonblockSet (hpc : s.pc t = .nonblockSet) :
    Waiting ({ s with nonblock := true }.goto t .nonblockLock) := by
  refine ⟨⟨?_, ?_, ?_⟩, ?_, h.put.room, ?_, ?_⟩
  · exact Pthread.waiting_update h.get.waits (h.get.out hpc rfl)
  · exact fun hwait hsome => Pthread.exists_update (h.get.message hwait hsome)
      (by simp [hpc, Pc.tellsMessage])
  · exact fun _ _ => ⟨t, by simp [State.goto, Pc.tellsGetMode]⟩
  · exact Pthread.waiting_update h.put.waits (h.put.out hpc rfl)
  · exact fun _ _ => ⟨t, by simp [State.goto, Pc.tellsPutMode]⟩
  · exact h.put.emptying_update (by simp [Pc.emptying])

theorem signalGet (hinv : Inv s G P) (hrun : s.signalGet t woken new = some s')
    (hpc : s.pc t = old) (hwaits : old.waitsPut = false)
    (hmode : old.tellsPutMode = true → new.tellsPutMode = true)
    (hemptying : new.emptying = true → old.emptying = true) : Waiting s' := by
  obtain ⟨getCond, hsignal, hrun⟩ := Option.bind_eq_some_iff.mp hrun
  cases hrun
  exact ⟨.nil (h.signal_eq_nil hinv hsignal),
    h.put.keep hpc rfl rfl rfl rfl rfl (h.put.out hpc hwaits) hmode hemptying⟩

theorem nonblockBroadcast (hpc : s.pc t = .nonblockBroadcast) :
    Waiting ({ s with putCond := [] }.goto t .nonblockUnlock) :=
  ⟨h.get.keep hpc rfl rfl rfl rfl (h.get.out hpc rfl) id id, .nil rfl⟩

theorem blockSet (hpc : s.pc t = .blockSet) :
    Waiting ({ s with nonblock := false }.goto t (.returning .done)) := by
  refine ⟨⟨?_, ?_, fun _ hset => (by cases hset)⟩, ?_, h.put.room, fun _ hset => (by cases hset),
    ?_⟩
  · exact Pthread.waiting_update h.get.waits (h.get.out hpc rfl)
  · exact fun hwait hsome => Pthread.exists_update (h.get.message hwait hsome)
      (by simp [hpc, Pc.tellsMessage])
  · exact Pthread.waiting_update h.put.waits (h.put.out hpc rfl)
  · exact h.put.emptying_update (by simp [Pc.emptying])

/-- A thread that has been woken locks the mutex again. -/
theorem wakeUp (hrun : s.lockPut t new = some s') (hpc : s.pc t = old)
    (hget : t ∉ s.getCond) (hput : t ∉ s.putCond)
    (hmessage : old.tellsMessage = true → new.tellsMessage = true)
    (hgetMode : old.tellsGetMode = true → new.tellsGetMode = true)
    (hputMode : old.tellsPutMode = true → new.tellsPutMode = true)
    (hemptying : new.emptying = true → old.emptying = true) : Waiting s' := by
  obtain ⟨owner, -, hrun⟩ := Option.bind_eq_some_iff.mp hrun
  cases hrun
  exact ⟨h.get.keep hpc rfl rfl rfl rfl hget hmessage hgetMode,
    h.put.keep hpc rfl rfl rfl rfl rfl hput hputMode hemptying⟩

/-- Every step of a thread leaves nobody waiting in vain. -/
theorem run [DecidableEq μ] (hinv : Inv s G P) (hrun : s.run t woken = some s') : Waiting s' := by
  cases hpc : s.pc t with simp only [State.run, hpc] at hrun
  | idle | returning result => cases hrun
  | putNull msg =>
    cases hrun
    exact h.keep hpc rfl ⟨rfl, rfl, rfl, rfl, rfl⟩ ⟨rfl, rfl, id, id, id, id⟩
  | putLock msg => exact h.lockPut hrun hpc ⟨rfl, rfl, id, id, id, id⟩
  | putTest msg =>
    split at hrun
    · rename_i hwait
      simp only [Bool.and_eq_true, Bool.not_eq_true'] at hwait
      exact h.putSleep hinv hpc hwait.1 hwait.2 hrun
    · cases hrun
      exact h.keep hpc rfl ⟨rfl, rfl, rfl, rfl, rfl⟩ ⟨rfl, rfl, id, id, id, id⟩
  | putWait msg =>
    split at hrun
    · cases hrun
    · rename_i hput
      exact h.wakeUp hrun hpc (h.get.out hpc rfl) hput id id id id
  | putLink msg =>
    cases hrun
    exact h.keep hpc rfl ⟨rfl, rfl, rfl, rfl, rfl⟩ ⟨rfl, rfl, id, id, id, id⟩
  | putTail msg =>
    cases hrun
    exact h.keep hpc rfl ⟨rfl, rfl, rfl, rfl, rfl⟩ ⟨rfl, rfl, id, id, id, id⟩
  | putCount => cases hrun; exact h.putCount hpc
  | putUnlock => exact h.unlockPut hrun hpc ⟨rfl, rfl, id, id, id, id⟩
  | putSignal => exact h.signalGet hinv hrun hpc rfl id id
  | getLock => exact h.lockGet hrun hpc ⟨rfl, rfl, id, id, id, id⟩
  | getTest =>
    cases hrun
    split <;> exact h.keep hpc rfl ⟨rfl, rfl, rfl, rfl, rfl⟩ ⟨rfl, rfl, id, id, id, id⟩
  | swapHead =>
    cases hrun
    exact h.keep hpc rfl ⟨rfl, rfl, rfl, rfl, rfl⟩ ⟨rfl, rfl, id, id, id, id⟩
  | swapLock head => exact h.lockPut hrun hpc ⟨rfl, rfl, id, id, id, id⟩
  | swapTest head =>
    split at hrun
    · rename_i hwait
      exact h.getSleep hpc hwait.1 hwait.2 hrun
    · cases hrun
      exact h.keep hpc rfl ⟨rfl, rfl, rfl, rfl, rfl⟩ ⟨rfl, rfl, id, id, id, id⟩
  | swapWait head =>
    split at hrun
    · cases hrun
    · rename_i hget
      exact h.wakeUp hrun hpc hget (h.put.out hpc rfl) id id id id
  | swapBroadcast head cnt =>
    obtain rfl := Option.some_inj.mp hrun
    exact h.swapBroadcast hpc
  | swapPut head cnt =>
    cases hrun
    exact h.keep hpc rfl ⟨rfl, rfl, rfl, rfl, rfl⟩ ⟨rfl, rfl, id, id, id, id⟩
  | swapTail head cnt =>
    cases hrun
    exact h.keep hpc rfl ⟨rfl, rfl, rfl, rfl, rfl⟩ ⟨rfl, rfl, id, id, id, id⟩
  | swapZero cnt => cases hrun; exact h.swapZero hpc
  | swapUnlock cnt =>
    split at hrun <;> exact h.unlockPut hrun hpc ⟨rfl, rfl, id, id, id, fun he => by cases he⟩
  | getTake =>
    obtain ⟨a, -, rfl⟩ := Option.map_eq_some_iff.mp hrun
    exact h.keep hpc rfl ⟨rfl, rfl, rfl, rfl, rfl⟩ ⟨rfl, rfl, id, id, id, id⟩
  | getUnlock msg => exact h.unlockGet hrun hpc ⟨rfl, rfl, id, id, id, id⟩
  | nonblockSet => cases hrun; exact h.nonblockSet hpc
  | nonblockLock => exact h.lockPut hrun hpc ⟨rfl, rfl, id, fun _ => rfl, fun _ => rfl, id⟩
  | nonblockSignal => exact h.signalGet hinv hrun hpc rfl (fun _ => rfl) id
  | nonblockBroadcast => cases hrun; exact h.nonblockBroadcast hpc
  | nonblockUnlock => exact h.unlockPut hrun hpc ⟨rfl, rfl, id, id, id, id⟩
  | blockSet => cases hrun; exact h.blockSet hpc

theorem wake : Waiting (s.wake t) := by
  refine ⟨⟨fun t' ht' => h.get.waits t' (Pthread.mem_wake.mp ht').1, fun hwait => ?_,
    fun hwait => ?_⟩, fun t' ht' => h.put.waits t' (Pthread.mem_wake.mp ht').1, fun hwait => ?_,
    fun hwait => ?_, fun t' hemptying => ?_⟩
  · exact h.get.message fun hnil => hwait (by simp [State.wake, Pthread.wake, hnil])
  · exact h.get.mode fun hnil => hwait (by simp [State.wake, Pthread.wake, hnil])
  · exact h.put.room fun hnil => hwait (by simp [State.wake, Pthread.wake, hnil])
  · exact h.put.mode fun hnil => hwait (by simp [State.wake, Pthread.wake, hnil])
  · simp [State.wake, Pthread.wake, h.put.emptying t' hemptying]

end Waiting

end Hplsp.Msgqueue
