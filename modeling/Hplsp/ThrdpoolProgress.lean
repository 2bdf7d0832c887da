import Hplsp.ThrdpoolSafety

/-! No call of a thread pool waits in vain. -/

namespace Hplsp.Thrdpool

variable {τ ε : Type} [DecidableEq τ] {s s' : State τ ε} {g : Ghost τ} {t t' creator : τ}
  {pc : Pc τ ε} {outside : τ → Bool} {nthreads : Nat} {as : List (Action τ ε)}

/-- The thread is about to lock the mutex. -/
def Pc.locks : Pc τ ε → Bool
  | exitLock | increaseLock | terminateLock _ | terminateWait _ => true
  | _ => false

/-- Outside of the pool's own code. -/
def Pc.rests : Pc τ ε → Bool
  | unborn | client | ended => true
  | _ => false

/-- Whom the thread is about to join. -/
def Pc.joins : Pc τ ε → Option τ
  | exitJoin tid | terminateJoin _ tid => some tid
  | _ => none

/-- What a thread that cannot go on is waiting for. -/
inductive Blocked (s : State τ ε) (t : τ) : Prop
  | rests : (s.pc t).rests = true → Blocked s t
  | get : s.pc t = .get → s.queue.queue = [] → s.queue.nonblock = false → Blocked s t
  | mutex : (s.pc t).locks = true → s.mutex ≠ none → Blocked s t
  | term : (s.pc t).waits = true → t ∈ s.term → Blocked s t
  | join {tid : τ} : (s.pc t).joins = some tid → s.pc tid ≠ .ended → Blocked s t

theorem join_eq_none {tid : τ} (h : s.join t tid pc = none) : s.pc tid ≠ .ended := by
  intro hended
  simp [State.join, hended] at h

theorem lock_eq_none (h : s.lock t pc = none) : s.mutex ≠ none := by
  intro hfree
  simp [State.lock, Pthread.lock, hfree] at h

theorem unlock_ne_none (howner : s.mutex = some t) : s.unlock t pc ≠ none := by
  simp [State.unlock, Pthread.unlock, howner]

theorem get_eq_none {ε : Type} {q : Msgqueue.Fifo ε} (h : q.get = none) :
    q.queue = [] ∧ q.nonblock = false := by
  unfold Msgqueue.Fifo.get at h
  split at h
  · cases h
  · rename_i hqueue
    split at h
    · cases h
    · rename_i hblock
      exact ⟨hqueue, Bool.eq_false_iff.mpr hblock⟩

/-- No thread can go on, no thread is being started, and no task runs. -/
structure State.Stuck (s : State τ ε) : Prop where
  run : ∀ t woken, s.run t woken = none
  refuse : ∀ t, s.refuse t = none
  tasks : ∀ t, s.pc t = .client → s.key t = false

namespace Inv

variable (h : Inv s g)
include h

/-- Only these keep a thread from its next step. -/
theorem blocked (hstuck : s.Stuck) (t : τ) : Blocked s t := by
  have howner : (s.pc t).holds = true → s.mutex = some t := (h.mutex t).mpr
  obtain ⟨woken, term, hsignal⟩ := Pthread.exists_signal s.term
  have hrun := hstuck.run t woken
  have hrefuse := hstuck.refuse t
  cases hpc : s.pc t with simp only [State.run, State.refuse, hpc] at hrun hrefuse
  | unborn | client | ended => exact .rests (by rw [hpc]; rfl)
  | get =>
    obtain ⟨hqueue, hblock⟩ := get_eq_none (Option.map_eq_none_iff.mp hrun)
    exact .get hpc hqueue hblock
  | exitLock | increaseLock | terminateLock closer =>
    exact .mutex (by rw [hpc]; rfl) (lock_eq_none hrun)
  | exitSignal tid => simp [hsignal] at hrun
  | exitUnlock tid | increaseUnlock | terminateUnlock closer =>
    exact absurd hrun (unlock_ne_none (howner (by rw [hpc]; rfl)))
  | exitJoin tid | terminateJoin closer tid => exact .join (by rw [hpc]; rfl) (join_eq_none hrun)
  | createEnd n => split at hrun <;> cases hrun
  | terminateTest closer =>
    split at hrun
    · exact absurd hrun (unlock_ne_none (howner (by rw [hpc]; rfl)))
    · cases hrun
  | terminateWait closer =>
    split at hrun
    · rename_i hwait
      exact .term (by rw [hpc]; rfl) hwait
    · exact .mutex (by rw [hpc]; rfl) (lock_eq_none hrun)
  | drain inPool =>
    -- The queue has been set to return long before.
    obtain ⟨-, hblock⟩ := get_eq_none (Option.map_eq_none_iff.mp hrun)
    have hstage : g.stage = 9 := h.stage_of hpc rfl
    rw [h.flags.nonblock, hstage] at hblock
    cases hblock
  | createThread n | increaseThread => cases hrefuse
  | _ => cases hrun

/-- The mutex is free: who has it can go on. -/
theorem mutex_free (hstuck : s.Stuck) : s.mutex = none := by
  cases howner : s.mutex with
  | none => rfl
  | some t' =>
    have hholds := (h.mutex t').mp howner
    cases h.blocked hstuck t' with
    | rests hrests => cases hpc : s.pc t' <;> simp_all [Pc.rests, Pc.holds]
    | get hpc => simp [hpc, Pc.holds] at hholds
    | mutex hlocks => cases hpc : s.pc t' <;> simp_all [Pc.locks, Pc.holds]
    | term hwaits => cases hpc : s.pc t' <;> simp_all [Pc.waits, Pc.holds]
    | join hjoins => cases hpc : s.pc t' <;> simp_all [Pc.joins, Pc.holds]

/-- All threads that have begun to end have ended. -/
theorem chain_ended (hstuck : s.Stuck) (ht : t ∈ g.chain) : s.pc t = .ended := by
  have hended : ∀ u, (s.pc u).duty = some .settled → s.pc u = .ended := by
    intro u hsettled
    cases hpc : s.pc u <;> simp [hpc, Pc.duty] at hsettled
    rfl
  have howes : ∀ u next, (s.pc u).duty = some (.owes next) →
      ∃ b, next = some b ∧ s.pc b ≠ .ended := by
    intro u next hduty
    have hfree := h.mutex_free hstuck
    cases h.blocked hstuck u with
    | rests hrests => cases hpc : s.pc u <;> simp_all [Pc.rests, Pc.duty]
    | get hpc => simp [hpc, Pc.duty] at hduty
    | mutex _ hheld => exact absurd hfree hheld
    | term hwaits => cases hpc : s.pc u <;> simp_all [Pc.waits, Pc.duty]
    | @join tid hjoins hrunning =>
      cases hpc : s.pc u <;> simp [hpc, Pc.joins, Pc.duty] at hjoins hduty
      exact ⟨tid, by rw [← hduty, hjoins], hrunning⟩
  by_contra hrunning
  obtain ⟨a, -, hnone | ⟨b, hsome, hsettled⟩⟩ :=
    h.exits.chained.exists_ready ht fun hsettled => hrunning (hended t hsettled)
  · obtain ⟨b, hb, -⟩ := howes a none hnone
    cases hb
  · obtain ⟨c, hc, hbusy⟩ := howes a (some b) hsome
    cases hc
    exact hbusy (hended b hsettled)

/-- A thread that is counted is in the loop of the pool or in a task, which does not last. -/
theorem live_not_resting (hstuck : s.Stuck) (hrole : g.role t = .live) :
    (s.pc t).rests = false := by
  cases hpc : s.pc t with
  | unborn => simp [fits_unborn.mp (h.place hpc)] at hrole
  | ended =>
    rcases fits_ended.mp (h.place hpc) with ⟨hother, -⟩ | ⟨hother, -⟩ <;> simp [hrole] at hother
  | client =>
    have hkey := (h.keyed t).mpr ⟨by rw [hrole]; rfl, by simp [hpc]⟩
    rw [hstuck.tasks t hpc] at hkey
    cases hkey
  | _ => rfl

/-- Who ends the pool does not wait for a thread that has not begun to end. -/
theorem not_waiting (hstuck : s.Stuck) : t ∉ s.term := by
  intro hterm
  have hfree := h.mutex_free hstuck
  have hsome := List.ne_nil_of_mem hterm
  have hstage : g.stage = 6 := by
    by_contra hstage
    exact hsome (h.term_nil hstage)
  have hcount : s.nthreads ≠ 0 := by
    intro hzero
    obtain ⟨u, hsignals⟩ := h.waits.signal hsome hzero
    have hholds : (s.pc u).holds = true := by
      cases hpc : s.pc u <;> simp_all [Pc.signals, Pc.holds]
    rw [h.not_holds hfree] at hholds
    cases hholds
  have hlive : g.live ≠ [] := by
    rintro hnil
    rw [h.counted.count, hnil] at hcount
    exact hcount rfl
  obtain ⟨u, hu⟩ := List.exists_mem_of_ne_nil _ hlive
  have hrole := (h.counted.mem u).mp hu
  cases h.blocked hstuck u with
  | rests hrests => exact absurd hrests (by simp [h.live_not_resting hstuck hrole])
  | get _ _ hblock =>
    rw [h.flags.nonblock, hstage] at hblock
    cases hblock
  | mutex _ hheld => exact hheld hfree
  | term hwaits' =>
    cases hpc : s.pc u with
    | terminateWait closer =>
      have hplace := ((fits_closing rfl).mp (h.place hpc)).2
      simp [hrole] at hplace
    | _ => simp [hpc, Pc.waits] at hwaits'
  | join hjoins =>
    cases hpc : s.pc u with
    | exitJoin tid => simp [(fits_exitJoin.mp (h.place hpc)).1] at hrole
    | terminateJoin closer tid =>
      have height : g.stage = 8 := h.stage_of hpc rfl
      omega
    | _ => simp [hpc, Pc.joins] at hjoins

/-- Whom a thread is about to join has ended. -/
theorem not_joining (hstuck : s.Stuck) {tid : τ} (hjoins : (s.pc t).joins = some tid) :
    s.pc tid = .ended := by
  refine h.chain_ended hstuck ?_
  cases hpc : s.pc t with
  | exitJoin b =>
    rw [hpc] at hjoins
    obtain rfl := Option.some_inj.mp hjoins
    have hmem := (h.exits.mem t).mpr (.inl (fits_exitJoin.mp (h.place hpc)).1)
    exact List.mem_of_mem_tail (h.exits.chained.owed hmem (by rw [hpc]; rfl)).1
  | terminateJoin closer b =>
    rw [hpc] at hjoins
    obtain rfl := Option.some_inj.mp hjoins
    exact List.mem_of_mem_head? (h.exits.joining t closer b hpc)
  | _ => simp [hpc, Pc.joins] at hjoins

/-- What a thread does when none can go on: nothing, or it waits for a task. -/
theorem resting (hstuck : s.Stuck) (t : τ) : (s.pc t).rests = true ∨
    s.pc t = .get ∧ s.queue.queue = [] ∧ s.queue.nonblock = false := by
  cases h.blocked hstuck t with
  | rests hrests => exact .inl hrests
  | get hpc hqueue hblock => exact .inr ⟨hpc, hqueue, hblock⟩
  | mutex _ hheld => exact absurd (h.mutex_free hstuck) hheld
  | term hwaits hterm => exact absurd hterm (h.not_waiting hstuck)
  | join hjoins hrunning => exact absurd (h.not_joining hstuck hjoins) hrunning

theorem not_closing (hstuck : s.Stuck) (t : τ) : (s.pc t).closing = none := by
  rcases h.resting hstuck t with hrests | ⟨hpc, -⟩
  · cases hpc : s.pc t <;> first | rfl | simp [hpc, Pc.rests] at hrests
  · rw [hpc]
    rfl

/-- The pool is whole, or there is nothing left of it. -/
theorem closer_done (hstuck : s.Stuck) (hclosed : s.closer ≠ none) : s.freed = true := by
  obtain ⟨t, hcloser⟩ := Option.ne_none_iff_exists'.mp hclosed
  have hlast : g.stage = 15 := by
    rcases h.closing.here t hcloser with hclosing | ⟨hstage, -⟩ | ⟨hstage, hrole⟩
    · exact absurd (h.not_closing hstuck t) hclosing
    · exact hstage
    · by_contra hlt
      have hplace := h.fits t
      have hmost := h.flags.last
      rw [hrole] at hplace
      rcases h.resting hstuck t with hrests | ⟨hpc, -⟩
      · rcases hplace with ⟨hpc | hpc | hpc, -⟩ | ⟨-, hended⟩ | ⟨hclosing, -⟩
        · have hkey := (h.keyed t).mpr ⟨by rw [hrole]; rfl, by simp [hpc]⟩
          rw [hstuck.tasks t hpc] at hkey
          cases hkey
        · simp [hpc, Pc.rests] at hrests
        · simp [hpc, Pc.rests] at hrests
        · omega
        · simp [h.not_closing hstuck t] at hclosing
      · have hget := (fits_routine (.inr (.inr hpc))).mp (h.fits t)
        omega
  rw [h.flags.freed, hlast]
  rfl

theorem closer_none (hstuck : s.Stuck) (hblock : s.queue.nonblock = false) : s.closer = none := by
  have hstage : g.stage < 3 := by simpa [hblock] using h.flags.nonblock
  refine h.closing.zero.mp ?_
  by_contra hclosed
  obtain ⟨t, inPool, -, hclosing⟩ := h.closer_at hclosed (by omega)
  rw [h.not_closing hstuck t] at hclosing
  cases hclosing

/-- There is a thread to run the tasks as long as nobody ends the pool. -/
theorem all_started (hstuck : s.Stuck) (hcloser : s.closer = none) : s.scheduled = s.started := by
  have hstage := h.closing.zero.mpr hcloser
  have horder := h.tasks.order
  rw [h.drained_nil (by omega), List.append_nil] at horder
  cases hopened : s.opened with
  | false =>
    rw [(h.opening.unopened hopened).1] at horder
    rw [(h.opening.unopened hopened).1, (List.append_eq_nil_iff.mp horder.symm).1]
  | true =>
    obtain ⟨u, hu⟩ := List.exists_mem_of_ne_nil _ (h.opening.live hopened hstage)
    have hrole := (h.counted.mem u).mp hu
    rcases h.resting hstuck u with hrests | ⟨-, hqueue, -⟩
    · exact absurd hrests (by simp [h.live_not_resting hstuck hrole])
    · rw [horder, hqueue, List.append_nil]

end Inv

/-- When nothing can go on, all calls have returned, and no task is left: the threads of the pool
wait for one, or, if the pool has been ended, all have ended and it has been freed. -/
theorem calls_return (hpos : 1 ≤ nthreads)
    (h : Lts.Run (Lts.Guarded State.Permits Step) (State.create creator outside nthreads) as s)
    (hstuck : s.Stuck) :
    (s.closer = none → s.scheduled = s.started) ∧
    (s.closer ≠ none → s.freed = true ∧ s.scheduled = s.started ++ s.drained) ∧
    ∀ t, s.pc t = .unborn ∨ s.pc t = .ended ∨ s.pc t = .client ∧ s.key t = false ∨
      s.pc t = .get ∧ s.closer = none := by
  obtain ⟨g, hinv⟩ := inv_reachable hpos h
  refine ⟨hinv.all_started hstuck, fun hclosed => ?_, fun t => ?_⟩
  · have hfreed := hinv.closer_done hstuck hclosed
    have hstage : 15 ≤ g.stage := by simpa [hfreed] using hinv.flags.freed
    refine ⟨hfreed, ?_⟩
    rw [hinv.tasks.order, hinv.tasks.closed (by omega), List.append_nil]
  · rcases hinv.resting hstuck t with hrests | ⟨hpc, -, hblock⟩
    · cases hpc : s.pc t with
      | unborn => exact .inl rfl
      | client => exact .inr (.inr (.inl ⟨rfl, hstuck.tasks t hpc⟩))
      | ended => exact .inr (.inl rfl)
      | _ => simp [hpc, Pc.rests] at hrests
    · exact .inr (.inr (.inr ⟨hpc, hinv.closer_none hstuck hblock⟩))

/-- A thread back from its only task. -/
theorem calls_return_waiting : ∃ as s, Lts.Run (Lts.Guarded State.Permits Step)
    (State.create false (fun _ => false) 1 : State Bool Nat) as s ∧ s.pc true = .get ∧
      s.scheduled = [7] ∧ s.scheduled = s.started := by
  have hrun : Lts.Run (Lts.Guarded State.Permits Step)
      (State.create false (fun _ => false) 1 : State Bool Nat)
      (List.flatten [[.run false none, .spawn false true], .replicate 3 (.run false none),
        .replicate 2 (.run true none), [.schedule false 7], .replicate 2 (.run false none),
        [.run true none, .finish true], .replicate 2 (.run true none)]) _ :=
    .of_foldlM (Lts.guarded_sound act_sound) trivial rfl
  refine ⟨_, _, hrun, rfl, rfl, (calls_return (by decide) hrun ⟨?_, ?_, ?_⟩).1 rfl⟩
  · rintro (_ | _) woken <;> rfl
  · rintro (_ | _) <;> rfl
  · rintro (_ | _) hpc
    · rfl
    · cases hpc

end Hplsp.Thrdpool
