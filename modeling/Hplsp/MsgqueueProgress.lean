import Hplsp.MsgqueueWait

/-! No call of a message queue waits in vain. -/

namespace Hplsp.Msgqueue

variable {τ μ : Type} [DecidableEq τ] [DecidableEq μ] {s s' : State τ μ} {t t' : τ}
  {G P : List μ} {pc : Pc μ} {maxlen : Nat} {as : List (Action τ μ)}

/-- The thread is about to lock `put_mutex`. -/
def Pc.locksPut : Pc μ → Bool
  | putLock _ | putWait _ | swapLock _ | swapWait _ | nonblockLock => true
  | _ => false

/-- What a thread that cannot go on is waiting for. -/
inductive Blocked (s : State τ μ) (t : τ) : Prop
  | outside : s.pc t = .idle → Blocked s t
  | returning {result : Result μ} : s.pc t = .returning result → Blocked s t
  | putMutex : (s.pc t).locksPut = true → s.putMutex ≠ none → Blocked s t
  | getMutex : s.pc t = .getLock → s.getMutex ≠ none → Blocked s t
  | putCond {msg : μ} : s.pc t = .putWait msg → t ∈ s.putCond → Blocked s t
  | getCond {head : Bool} : s.pc t = .swapWait head → t ∈ s.getCond → Blocked s t

omit [DecidableEq μ] in
theorem lockPut_eq_none (h : s.lockPut t pc = none) : s.putMutex ≠ none := by
  intro hfree
  simp [State.lockPut, Pthread.lock, hfree] at h

omit [DecidableEq μ] in
theorem lockGet_eq_none (h : s.lockGet t pc = none) : s.getMutex ≠ none := by
  intro hfree
  simp [State.lockGet, Pthread.lock, hfree] at h

omit [DecidableEq μ] in
theorem unlockPut_ne_none (howner : s.putMutex = some t) : s.unlockPut t pc ≠ none := by
  simp [State.unlockPut, Pthread.unlock, howner]

omit [DecidableEq μ] in
theorem unlockGet_ne_none (howner : s.getMutex = some t) : s.unlockGet t pc ≠ none := by
  simp [State.unlockGet, Pthread.unlock, howner]

/-- Only these keep a thread from its next step: it owns what it unlocks, and finds a message where
it takes one. -/
theorem Inv.blocked (h : Inv s G P) (hstuck : ∀ woken, s.run t woken = none) : Blocked s t := by
  have hput : (s.pc t).holdsPut = true → s.putMutex = some t := (h.putMutex t).mpr
  have hget : (s.pc t).holdsGet = true → s.getMutex = some t := (h.getMutex t).mpr
  obtain ⟨woken, getCond, hsignal⟩ := Pthread.exists_signal s.getCond
  replace hstuck := hstuck woken
  cases hpc : s.pc t with simp only [State.run, hpc] at hstuck
  | idle => exact .outside hpc
  | returning result => exact .returning hpc
  | putLock msg => exact .putMutex (by rw [hpc]; rfl) (lockPut_eq_none hstuck)
  | putTest msg =>
    split at hstuck
    · exact absurd hstuck (unlockPut_ne_none (hput (by rw [hpc]; rfl)))
    · cases hstuck
  | putWait msg =>
    split at hstuck
    · rename_i hwait
      exact .putCond hpc hwait
    · exact .putMutex (by rw [hpc]; rfl) (lockPut_eq_none hstuck)
  | putUnlock => exact absurd hstuck (unlockPut_ne_none (hput (by rw [hpc]; rfl)))
  | putSignal | nonblockSignal => simp [State.signalGet, hsignal] at hstuck
  | getLock => exact .getMutex hpc (lockGet_eq_none hstuck)
  | swapLock head => exact .putMutex (by rw [hpc]; rfl) (lockPut_eq_none hstuck)
  | swapTest head =>
    split at hstuck
    · exact absurd hstuck (unlockPut_ne_none (hput (by rw [hpc]; rfl)))
    · cases hstuck
  | swapWait head =>
    split at hstuck
    · rename_i hwait
      exact .getCond hpc hwait
    · exact .putMutex (by rw [hpc]; rfl) (lockPut_eq_none hstuck)
  | swapUnlock cnt => exact absurd hstuck (unlockPut_ne_none (hput (by rw [hpc]; rfl)))
  | getTake =>
    have hget := h.get
    rw [h.getPhase_eq hpc rfl] at hget
    obtain ⟨⟨-, hpath⟩, hne⟩ := hget
    exact absurd (hpath.eq_nil (Option.map_eq_none_iff.mp hstuck)) hne
  | getUnlock msg => exact absurd hstuck (unlockGet_ne_none (hget (by rw [hpc]; rfl)))
  | nonblockLock => exact .putMutex (by rw [hpc]; rfl) (lockPut_eq_none hstuck)
  | nonblockUnlock => exact absurd hstuck (unlockPut_ne_none (hput (by rw [hpc]; rfl)))
  | _ => cases hstuck

/-- What a thread waits for when none can go on. -/
inductive Idles (s : State τ μ) (t : τ) : Prop
  | outside : s.pc t = .idle → Idles s t
  | returning {result : Result μ} : s.pc t = .returning result → Idles s t
  | getMutex : s.pc t = .getLock → s.getMutex ≠ none → Idles s t
  | putCond {msg : μ} : s.pc t = .putWait msg → t ∈ s.putCond → Idles s t
  | getCond {head : Bool} : s.pc t = .swapWait head → t ∈ s.getCond → Idles s t

/-- Nobody waits for `put_mutex`: who has it can go on. -/
theorem Inv.idles (h : Inv s G P) (hstuck : ∀ t woken, s.run t woken = none) (t : τ) :
    s.putMutex = none ∧ Idles s t := by
  have hfree : s.putMutex = none := by
    cases howner : s.putMutex with
    | none => rfl
    | some t' =>
      have hholds := (h.putMutex t').mp howner
      cases h.blocked (hstuck t') with
      | putMutex hlocks => cases hpc : s.pc t' <;> simp_all [Pc.locksPut, Pc.holdsPut]
      | outside hpc | returning hpc | getMutex hpc | putCond hpc | getCond hpc =>
        rw [hpc] at hholds
        cases hholds
  refine ⟨hfree, ?_⟩
  cases h.blocked (hstuck t) with
  | outside hpc => exact .outside hpc
  | returning hpc => exact .returning hpc
  | putMutex _ hheld => exact absurd hfree hheld
  | getMutex hpc hheld => exact .getMutex hpc hheld
  | putCond hpc hwait => exact .putCond hpc hwait
  | getCond hpc hwait => exact .getCond hpc hwait

omit [DecidableEq τ] [DecidableEq μ] in
theorem Idles.tells (h : Idles s t) :
    (s.pc t).tellsMessage = false ∧ (s.pc t).tellsGetMode = false ∧
      (s.pc t).tellsPutMode = false := by
  cases h with
  | outside hpc | returning hpc | getMutex hpc | putCond hpc | getCond hpc =>
    rw [hpc]
    exact ⟨rfl, rfl, rfl⟩

/-- Who waits at `get_cond` then waits on an empty queue. -/
theorem Inv.empty (h : Inv s G P) (hwaiting : Waiting s)
    (hstuck : ∀ t woken, s.run t woken = none) {head : Bool} (hpc : s.pc t = .swapWait head)
    (hwait : t ∈ s.getCond) : s.pending = [] ∧ s.nonblock = false := by
  have hsome := List.ne_nil_of_mem hwait
  have hcnt : s.msgCnt = 0 := by
    by_contra hcnt
    obtain ⟨t', htells⟩ := hwaiting.get.message hsome hcnt
    exact absurd htells (by simp [(h.idles hstuck t').2.tells])
  have hmode : s.nonblock = false := by
    by_contra hset
    obtain ⟨t', htells⟩ := hwaiting.get.mode hsome (by simpa using hset)
    exact absurd htells (by simp [(h.idles hstuck t').2.tells])
  have hput : s.PutOk P .whole := by
    have hput := h.put
    rwa [State.putPhase, (h.idles hstuck t).1] at hput
  have hget := h.get
  rw [h.getPhase_eq hpc rfl] at hget
  refine ⟨?_, hmode⟩
  rw [h.pending_eq, hget.2.2.2, List.nil_append]
  exact List.length_eq_zero_iff.mp (hput.2.symm.trans hcnt)

theorem Inv.crowded (h : Inv s G P) (hwaiting : Waiting s)
    (hstuck : ∀ t woken, s.run t woken = none) (hwait : t ∈ s.putCond) :
    s.full = true ∧ s.nonblock = false := by
  have hsome := List.ne_nil_of_mem hwait
  refine ⟨hwaiting.put.room hsome, ?_⟩
  by_contra hset
  obtain ⟨t', htells⟩ := hwaiting.put.mode hsome (by simpa using hset)
  exact absurd htells (by simp [(h.idles hstuck t').2.tells])

theorem step_waiting {a : Action τ μ} (h : Step s a s') (hinv : Inv s G P) (hwaiting : Waiting s) :
    Waiting s' := by
  cases h with
  | @call t op hpc hmsg =>
    refine hwaiting.keep hpc rfl ⟨rfl, rfl, rfl, rfl, rfl⟩ ⟨rfl, rfl, ?_, ?_, ?_, ?_⟩
    · simp [Pc.tellsMessage]
    · simp [Pc.tellsGetMode]
    · simp [Pc.tellsPutMode]
    · cases op <;> exact id
  | ret hpc =>
    exact hwaiting.keep hpc rfl ⟨rfl, rfl, rfl, rfl, rfl⟩ ⟨rfl, rfl, id, id, id, id⟩
  | run hrun => exact hwaiting.run hinv hrun
  | wake => exact hwaiting.wake

theorem step_inv {a : Action τ μ} (h : Step s a s') (hinv : Inv s G P) : ∃ G' P', Inv s' G' P' := by
  cases h with
  | call hpc hmsg => exact ⟨G, P, hinv.call hpc hmsg⟩
  | ret hpc => exact ⟨G, P, hinv.ret hpc⟩
  | run hrun =>
    obtain ⟨G', P', hinv', -⟩ := hinv.run hrun
    exact ⟨G', P', hinv'⟩
  | wake => exact ⟨G, P, hinv.modes _ _ s.nonblock⟩

theorem reached (h : Lts.Run Step (State.create maxlen) as s) :
    (∃ G P, Inv s G P) ∧ Waiting s := by
  refine h.invariant (I := fun s => (∃ G P, Inv s G P) ∧ Waiting s) ?_
    ⟨⟨[], [], inv_create maxlen⟩, waiting_create maxlen⟩
  rintro s a s' hstep ⟨⟨G, P, hinv⟩, hwaiting⟩
  exact ⟨step_inv hstep hinv, step_waiting hstep hinv hwaiting⟩

/-- When no thread can go on, every call has come to its end, but for those that wait to take from
an empty queue or to put into a full one, with the queue not set to return. -/
theorem calls_end (h : Lts.Run Step (State.create maxlen) as s)
    (hstuck : ∀ t woken, s.run t woken = none) (t : τ) :
    s.pc t = .idle ∨ (∃ result, s.pc t = .returning result) ∨
    ((s.pc t).status = .called .get ∧ s.pending = [] ∧ s.nonblock = false) ∨
    (∃ msg, (s.pc t).status = .called (.put msg) ∧ s.full = true ∧ s.nonblock = false) := by
  obtain ⟨⟨G, P, hinv⟩, hwaiting⟩ := reached h
  cases (hinv.idles hstuck t).2 with
  | outside hpc => exact .inl hpc
  | returning hpc => exact .inr (.inl ⟨_, hpc⟩)
  | putCond hpc hwait =>
    exact .inr (.inr (.inr ⟨_, by rw [hpc]; rfl, hinv.crowded hwaiting hstuck hwait⟩))
  | getCond hpc hwait =>
    exact .inr (.inr (.inl ⟨by rw [hpc]; rfl, hinv.empty hwaiting hstuck hpc hwait⟩))
  | getMutex hpc hheld =>
    -- The owner waits at `get_cond`.
    obtain ⟨t', howner⟩ := Option.ne_none_iff_exists'.mp hheld
    have hholds := (hinv.getMutex t').mp howner
    refine .inr (.inr (.inl ⟨by rw [hpc]; rfl, ?_⟩))
    cases (hinv.idles hstuck t').2 with
    | getCond hpc' hwait => exact hinv.empty hwaiting hstuck hpc' hwait
    | outside hpc' | returning hpc' | getMutex hpc' | putCond hpc' =>
      rw [hpc'] at hholds
      cases hholds

/-- A getter waits for a message that nobody puts. -/
theorem calls_end_waiting : ∃ as s, Lts.Run Step (State.create 1 : State Bool Nat) as s ∧
    (s.pc true).status = .called .get ∧ s.pending = [] ∧ s.nonblock = false := by
  have hrun : Lts.Run Step (State.create 1 : State Bool Nat)
      (.event (.call true .get) :: List.replicate 5 (.run true none)) _ :=
    .cons (.call rfl (by simp)) <| .cons (.run rfl) <| .cons (.run rfl) <| .cons (.run rfl) <|
      .cons (.run rfl) <| .cons (.run rfl) <| .refl _
  obtain ⟨s, hs, hpc, hstuck⟩ : ∃ s, Lts.Run Step (State.create 1 : State Bool Nat) _ s ∧
      s.pc true = .swapWait false ∧ ∀ t woken, s.run t woken = none :=
    ⟨_, hrun, rfl, by rintro (_ | _) woken <;> rfl⟩
  refine ⟨_, s, hs, ?_⟩
  simpa [hpc, Pc.status] using calls_end hs hstuck true

end Hplsp.Msgqueue
