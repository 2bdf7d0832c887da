import Hplsp.Lib.Run
import Hplsp.ThrdpoolClose

/-! What the threads of a pool, those that use it and who ends it never do. -/

namespace Hplsp.Thrdpool

variable {τ ε : Type} [DecidableEq τ] {s s' : State τ ε} {g : Ghost τ} {t child creator : τ}
  {woken : Option τ} {a : Action τ ε} {outside : τ → Bool} {nthreads : Nat}
  {as : List (Action τ ε)}

namespace Inv

variable (h : Inv s g)
include h

theorem run (hrun : s.run t woken = some s') : ∃ g', Inv s' g' := by
  cases hpc : s.pc t with simp only [State.run, hpc] at hrun
  | unborn | client | ended => cases hrun
  | start =>
    obtain rfl := Option.some_inj.mp hrun
    exact ⟨g, h.start hpc⟩
  | check =>
    obtain rfl := Option.some_inj.mp hrun
    exact ⟨g, h.check hpc⟩
  | get =>
    obtain ⟨⟨got, q⟩, hget, rfl⟩ := Option.map_eq_some_iff.mp hrun
    unfold Msgqueue.Fifo.get at hget
    split at hget
    · rename_i entry queue hqueue
      cases hget
      exact ⟨g, h.getSome hpc hqueue⟩
    · obtain ⟨hnonblock, hget⟩ := Option.ite_none_right_eq_some.mp hget
      cases hget
      exact ⟨g, h.getNone hpc hnonblock⟩
  | taskEnd =>
    obtain rfl := Option.some_inj.mp hrun
    exact ⟨g, h.taskEnd hpc⟩
  | free =>
    obtain rfl := Option.some_inj.mp hrun
    exact ⟨_, h.free hpc⟩
  | exitLock => exact ⟨g, h.exitLock hpc hrun⟩
  | exitTid =>
    obtain rfl := Option.some_inj.mp hrun
    exact ⟨_, h.exitTid hpc⟩
  | exitCount tid =>
    obtain rfl := Option.some_inj.mp hrun
    exact ⟨_, h.exitCount hpc⟩
  | exitSignal tid =>
    obtain ⟨term, hsignal, hrun⟩ := Option.bind_eq_some_iff.mp hrun
    obtain rfl := Option.some_inj.mp hrun
    exact ⟨g, h.exitSignal hpc hsignal⟩
  | exitUnlock tid => exact ⟨g, h.exitUnlock hpc hrun⟩
  | exitJoin tid => exact ⟨g, h.exitJoin hpc hrun⟩
  | createTest n =>
    obtain rfl := Option.some_inj.mp hrun
    exact ⟨g, h.createTest hpc⟩
  | createThread n => cases hrun
  | createCount n child =>
    obtain rfl := Option.some_inj.mp hrun
    exact ⟨_, h.count_of_pc .create hpc⟩
  | createEnd n =>
    split at hrun
    · rename_i hcount
      obtain rfl := Option.some_inj.mp hrun
      exact ⟨g, h.createReturn hpc hcount⟩
    · obtain rfl := Option.some_inj.mp hrun
      exact ⟨_, h.createFail hpc⟩
  | schedule entry =>
    obtain rfl := Option.some_inj.mp hrun
    exact ⟨g, h.schedule hpc⟩
  | scheduleSignal =>
    obtain rfl := Option.some_inj.mp hrun
    exact ⟨g, h.scheduleSignal hpc⟩
  | increaseLock => exact ⟨g, h.increaseLock hpc hrun⟩
  | increaseThread => cases hrun
  | increaseCount child =>
    obtain rfl := Option.some_inj.mp hrun
    exact ⟨_, h.count_of_pc .increase hpc⟩
  | increaseUnlock => exact ⟨g, h.increaseUnlock hpc hrun⟩
  | terminateLock closer => exact ⟨_, h.terminateLock hpc hrun⟩
  | terminateNonblock closer =>
    obtain rfl := Option.some_inj.mp hrun
    exact ⟨_, h.terminateNonblock hpc⟩
  | terminateSet closer =>
    obtain rfl := Option.some_inj.mp hrun
    exact ⟨_, h.terminateSet hpc⟩
  | terminateDetach =>
    obtain rfl := Option.some_inj.mp hrun
    exact ⟨_, h.terminateDetach hpc⟩
  | terminateCount =>
    obtain rfl := Option.some_inj.mp hrun
    exact ⟨_, h.terminateCount hpc⟩
  | terminateTest closer =>
    split at hrun
    · rename_i hpos
      exact ⟨g, h.terminateTestWait hpc hpos hrun⟩
    · rename_i hzero
      obtain rfl := Option.some_inj.mp hrun
      exact ⟨_, h.terminateTestDone hpc (by omega)⟩
  | terminateWait closer =>
    split at hrun
    · cases hrun
    · rename_i hout
      exact ⟨g, h.terminateWait hpc hout hrun⟩
  | terminateUnlock closer => exact ⟨_, h.terminateUnlock hpc hrun⟩
  | terminateTid closer =>
    cases htid : s.tid with
    | none =>
      rw [htid] at hrun
      obtain rfl := Option.some_inj.mp hrun
      exact ⟨_, h.terminateTidNone hpc htid⟩
    | some tid =>
      rw [htid] at hrun
      obtain rfl := Option.some_inj.mp hrun
      exact ⟨g, h.terminateTidSome hpc htid⟩
  | terminateJoin closer tid => exact ⟨_, h.terminateJoin hpc hrun⟩
  | drain inPool =>
    obtain ⟨⟨got, q⟩, hget, rfl⟩ := Option.map_eq_some_iff.mp hrun
    unfold Msgqueue.Fifo.get at hget
    split at hget
    · rename_i entry queue hqueue
      cases hget
      exact ⟨g, h.drainSome hpc hqueue⟩
    · rename_i hqueue
      obtain ⟨-, hget⟩ := Option.ite_none_right_eq_some.mp hget
      cases hget
      exact ⟨_, h.drainNone hpc hqueue⟩
  | deleteKey closer =>
    obtain rfl := Option.some_inj.mp hrun
    exact ⟨_, h.deleteKey hpc⟩
  | destroyMutex closer =>
    obtain rfl := Option.some_inj.mp hrun
    exact ⟨_, h.destroyMutex hpc⟩
  | destroyQueue closer =>
    cases hin : closer.inPool with
    | true =>
      rw [hin] at hrun
      obtain rfl := Option.some_inj.mp hrun
      exact ⟨_, h.destroyQueueHere hpc hin⟩
    | false =>
      rw [hin] at hrun
      obtain rfl := Option.some_inj.mp hrun
      exact ⟨_, h.destroyQueue hpc hin⟩
  | freePool =>
    obtain rfl := Option.some_inj.mp hrun
    exact ⟨_, h.freePool hpc⟩

theorem spawn (hspawn : s.spawn t child = some s') : ∃ g', Inv s' g' := by
  unfold State.spawn at hspawn
  split at hspawn
  · rename_i hpc hunborn
    obtain rfl := Option.some_inj.mp hspawn
    exact ⟨_, h.spawn_of_pc .create hpc hunborn⟩
  · rename_i hpc hunborn
    obtain rfl := Option.some_inj.mp hspawn
    exact ⟨_, h.spawn_of_pc .increase hpc hunborn⟩
  · cases hspawn

theorem next (hpermits : s.Permits a) (hstep : Step s a s') : ∃ g', Inv s' g' := by
  cases hstep with
  | schedule hpc hopened => exact ⟨g, h.callSchedule hpc hopened hpermits⟩
  | increase hpc hopened => exact ⟨g, h.callIncrease hpc hopened hpermits⟩
  | destroy hpc hopened => exact ⟨_, h.callDestroy hpc hopened hpermits.1 hpermits.2⟩
  | finish hpc hkey => exact ⟨g, h.finish hpc hkey⟩
  | spawn hspawn => exact h.spawn hspawn
  | refuse hrun => exact ⟨g, h.refuse hrun⟩
  | run hrun => exact h.run hrun
  | wake => exact ⟨g, h.wake⟩

end Inv

/-- Whatever the threads do, in whatever order. -/
theorem inv_reachable (hpos : 1 ≤ nthreads)
    (h : Lts.Run (Lts.Guarded State.Permits Step) (State.create creator outside nthreads) as s) :
    ∃ g, Inv s g :=
  Lts.Run.invariant (I := fun s => ∃ g, Inv s g) h
    (fun _ _ _ ⟨hpermits, hstep⟩ ⟨_, hinv⟩ => hinv.next hpermits hstep) ⟨_, inv_create hpos⟩

omit [DecidableEq τ] in
/-- Who does not end the pool needs it only before the threads have ended, or frees it. -/
theorem Fits.early {stage : Nat} {r : Role} {pc : Pc τ ε} (h : Fits stage r pc)
    (hclosing : pc.closing = none) : stage ≤ 6 ∨ (pc = .taskEnd ∨ pc = .free) ∧ stage = 14 ∨
      pc = .unborn ∨ pc = .client ∨ (∃ tid, pc = .exitJoin tid) ∨ pc = .ended := by
  cases r with
  | outside =>
    rcases h with hpc | ⟨-, hzero⟩ | hsome
    · exact .inr (.inr (.inr (.inl hpc)))
    · exact .inl (by omega)
    · simp [hclosing] at hsome
  | unborn => exact .inr (.inr (.inl h))
  | fresh =>
    rcases h with ⟨-, hsix⟩ | ⟨-, -, hsix⟩ | ⟨hsome, -⟩
    · exact .inl hsix
    · exact .inl hsix
    · simp [hclosing] at hsome
  | live =>
    rcases h with ⟨-, hsix⟩ | ⟨-, -, hsix⟩ | ⟨-, -, hsix⟩ | ⟨hsome, -⟩
    · exact .inl hsix
    · exact .inl hsix
    · exact .inl hsix
    · simp [hclosing] at hsome
  | gone =>
    rcases h with ⟨-, -, hsix⟩ | ⟨hjoin | hended, -⟩
    · exact .inl hsix
    · exact .inr (.inr (.inr (.inr (.inl hjoin))))
    · exact .inr (.inr (.inr (.inr (.inr hended))))
  | closer =>
    rcases h with ⟨hclient | htask | hfree, hstage⟩ | ⟨hended, -⟩ | ⟨hsome, -⟩
    · exact .inr (.inr (.inr (.inl hclient)))
    · exact .inr (.inl ⟨.inl htask, hstage⟩)
    · exact .inr (.inl ⟨.inr hfree, hstage⟩)
    · exact .inr (.inr (.inr (.inr (.inr hended))))
    · simp [hclosing] at hsome

omit [DecidableEq τ] in
/-- How long each part of the pool is needed. -/
theorem Fits.needs {stage : Nat} {r : Role} {pc : Pc τ ε} (h : Fits stage r pc) :
    (pc.needsPool = true → stage < 15) ∧ (pc.needsMutex = true → stage < 12) ∧
      (pc.needsQueue = true → stage < 13) ∧ (pc.needsKey = true → stage < 11) ∧
      (pc.holds = true → stage < 8) := by
  cases hclosing : pc.closing with
  | some last =>
    obtain ⟨inPool, last⟩ := last
    obtain ⟨rfl, -⟩ := (fits_closing hclosing).mp h
    cases pc <;> simp [Pc.closing] at hclosing <;> obtain ⟨-, rfl⟩ := hclosing <;>
      simp [Pc.needsPool, Pc.needsMutex, Pc.needsQueue, Pc.needsKey, Pc.holds]
  | none =>
    rcases h.early hclosing with hsix | ⟨hpc, hstage⟩ | hpc
    · exact ⟨by omega, by omega, by omega, by omega, by omega⟩
    · rcases hpc with rfl | rfl <;>
        simp [hstage, Pc.needsMutex, Pc.needsQueue, Pc.needsKey, Pc.holds]
    · rcases hpc with rfl | rfl | ⟨tid, rfl⟩ | rfl <;>
        simp [Pc.needsPool, Pc.needsMutex, Pc.needsQueue, Pc.needsKey, Pc.holds]

namespace Inv

variable (h : Inv s g)
include h

omit [DecidableEq τ] in
/-- The part of the pool that a thread needs is still there. -/
theorem kept : ((s.pc t).needsPool = true → s.freed = false) ∧
    ((s.pc t).needsMutex = true → s.noMutex = false) ∧
    ((s.pc t).needsQueue = true → s.noQueue = false) ∧
    ((s.pc t).needsKey = true → s.noKey = false) := by
  obtain ⟨hpool, hmutex, hqueue, hkey, -⟩ := (h.fits t).needs
  refine ⟨fun hneeds => ?_, fun hneeds => ?_, fun hneeds => ?_, fun hneeds => ?_⟩
  · rw [h.flags.freed]
    exact decide_eq_false (Nat.not_le.mpr (hpool hneeds))
  · rw [h.flags.noMutex]
    exact decide_eq_false (Nat.not_le.mpr (hmutex hneeds))
  · rw [h.flags.noQueue]
    exact decide_eq_false (Nat.not_le.mpr (hqueue hneeds))
  · rw [h.flags.noKey]
    exact decide_eq_false (Nat.not_le.mpr (hkey hneeds))

omit [DecidableEq τ] in
/-- Nobody joins the thread that has ended the pool. -/
theorem not_detached (hmem : t ∈ g.chain) : s.detached t = false := by
  refine Bool.eq_false_iff.mpr fun hdetached => ?_
  have hcloser := h.closing.detached t hdetached
  rcases h.closing.here t hcloser with hclosing | hrole
  · rcases (h.exits.mem t).mp hmem with hgone | ⟨tid, hcount⟩
    · have hplace := h.fits t
      rw [hgone] at hplace
      rcases hplace with ⟨⟨tid, hpc | hpc⟩, -⟩ | ⟨⟨tid, hpc⟩ | hpc, -⟩ <;>
        exact hclosing (by rw [hpc]; rfl)
    · exact hclosing (by rw [hcount]; rfl)
  · rcases (h.exits.mem t).mp hmem with hgone | ⟨tid, hcount⟩
    · rcases hrole with ⟨-, hrole⟩ | ⟨-, hrole⟩ <;> simp [hrole] at hgone
    · have hplace := (fits_leaving (.inr ⟨tid, rfl⟩)).mp (h.place hcount)
      omega

omit [DecidableEq τ] in
/-- `term` is there as long as a thread can be about to signal it. -/
theorem term_alive (hfour : 4 ≤ g.stage) (hsix : g.stage ≤ 6) : s.termAlive = true := by
  obtain ⟨t, inPool, hcloser, hclosing⟩ := h.closer_at (by omega) (by omega)
  have hterminates : (s.pc t).terminates = true := by
    cases hpc : s.pc t <;> first
      | rfl
      | (simp [hpc, Pc.closing] at hclosing) <;> omega
  have hterminate : s.terminate = true := h.flags.terminate.trans (decide_eq_true hfour)
  simp [State.termAlive, hterminate, hcloser, hterminates]

/-- The next step of every thread is defined. -/
theorem no_fault (t : τ) : s.faults t = false := by
  obtain ⟨hpool, hmutex, hqueue, hkey⟩ := h.kept (t := t)
  have howner : (s.pc t).holds = true → s.mutex = some t := (h.mutex t).mpr
  have hkept : (((s.pc t).needsPool && s.freed) || ((s.pc t).needsMutex && s.noMutex) ||
      ((s.pc t).needsQueue && s.noQueue) || ((s.pc t).needsKey && s.noKey)) = false := by
    simp only [Bool.or_eq_false_iff, Bool.and_eq_false_imp]
    exact ⟨⟨⟨hpool, hmutex⟩, hqueue⟩, hkey⟩
  rw [State.faults, hkept, Bool.false_or]
  cases hpc : s.pc t with
  | exitUnlock tid => simp [howner (by rw [hpc]; rfl)]
  | increaseUnlock => simp [howner (by rw [hpc]; rfl)]
  | terminateTest closer => simp [howner (by rw [hpc]; rfl)]
  | terminateUnlock closer => simp [howner (by rw [hpc]; rfl)]
  | destroyMutex closer =>
    have hstage : g.stage = 11 := h.stage_of hpc rfl
    have hfree : s.mutex = none := by
      cases howner' : s.mutex with
      | none => rfl
      | some t' =>
        have hearly := (h.fits t').needs.2.2.2.2 ((h.mutex t').mp howner')
        omega
    simp [hfree]
  | exitCount tid =>
    have hrole := ((fits_leaving (.inr ⟨tid, rfl⟩)).mp (h.place hpc)).1
    simp [h.nthreads_ne_zero hrole]
  | terminateCount =>
    have hrole : g.role t = .live := by
      have hplace := ((fits_closing rfl).mp (h.place hpc)).2
      simpa using hplace
    simp [h.nthreads_ne_zero hrole]
  | exitSignal tid =>
    obtain ⟨-, hfour, hsix⟩ := (fits_left ⟨tid, .inl rfl⟩).mp (h.place hpc)
    simp [h.term_alive hfour hsix]
  | exitJoin tid =>
    have hmem := (h.exits.mem t).mpr (.inl (fits_exitJoin.mp (h.place hpc)).1)
    obtain ⟨htail, hjoined⟩ := h.exits.chained.owed hmem (by rw [hpc]; rfl)
    simp [hjoined, h.not_detached (List.mem_of_mem_tail htail)]
  | terminateJoin closer tid =>
    have hhead := h.exits.joining t closer tid hpc
    have hjoined := h.head_not_joined (h.stage_of hpc rfl) hhead
    simp [hjoined, h.not_detached (List.mem_of_mem_head? hhead)]
  | _ => rfl

omit [DecidableEq τ] in
/-- What has become of a thread when those of the pool have been joined. -/
theorem reaped (hlate : 9 ≤ g.stage) (t : τ) :
    (g.role t).inPool = false ∧ t ∉ s.joined ∧ s.pc t ≠ .start ∨
      g.role t = .closer ∧ s.closer = some t ∧ s.detached t = true ∧ t ∉ s.joined ∨
      g.role t = .gone ∧ s.closer ≠ some t ∧ s.pc t = .ended ∧ s.detached t = false ∧
        t ∈ s.joined := by
  have hout : g.role t = .outside ∨ g.role t = .unborn ∨ g.role t = .closer → t ∉ s.joined := by
    intro hrole hmem
    obtain ⟨hchain, hsettled⟩ := h.exits.settled t hmem
    rcases (h.exits.mem t).mp hchain with hgone | ⟨tid, hcount⟩
    · rcases hrole with hrole | hrole | hrole <;> simp [hrole] at hgone
    · simp [hcount, Pc.duty] at hsettled
  obtain ⟨hlive, hspawning⟩ := h.empty (by omega)
  cases hrole : g.role t with
  | outside =>
    refine .inl ⟨rfl, hout (.inl hrole), fun hpc => ?_⟩
    have hplace := (fits_routine (.inl rfl)).mp (h.place hpc)
    omega
  | unborn =>
    refine .inl ⟨rfl, hout (.inr (.inl hrole)), fun hpc => ?_⟩
    have hplace := (fits_routine (.inl rfl)).mp (h.place hpc)
    omega
  | fresh =>
    have hsome := (h.spawning.fresh t).mp hrole
    rw [hspawning] at hsome
    cases hsome
  | live =>
    have hmem := (h.counted.mem t).mpr hrole
    rw [hlive] at hmem
    cases hmem
  | gone =>
    have hmem := (h.exits.mem t).mpr (.inl hrole)
    have hjoined := h.exits.reaped hlate t hmem
    have hended : s.pc t = .ended := by
      have hsettled := (h.exits.settled t hjoined).2
      cases hpc : s.pc t <;> simp [hpc, Pc.duty] at hsettled
      rfl
    refine .inr (.inr ⟨rfl, fun hcloser => ?_, hended, h.not_detached hmem, hjoined⟩)
    rcases h.closing.here t hcloser with hclosing | ⟨-, hother⟩ | ⟨-, hother⟩
    · exact hclosing (by rw [hended]; rfl)
    · simp [hrole] at hother
    · simp [hrole] at hother
  | closer =>
    exact .inr (.inl ⟨rfl, h.closing.role t hrole, h.closing.left t (.inl hrole),
      hout (.inr (.inr hrole))⟩)

end Inv

/-- Called as the pool asks, no step of a pool of one thread or more is undefined: nothing of the
pool is used after it is destroyed or freed, `term` is signalled only while there is one, the mutex
is unlocked by its owner only, and no thread is joined twice or joined after it has been detached.
-/
theorem never_faults (hpos : 1 ≤ nthreads)
    (h : Lts.Run (Lts.Guarded State.Permits Step) (State.create creator outside nthreads) as s)
    (t : τ) : s.faults t = false := by
  obtain ⟨g, hinv⟩ := inv_reachable hpos h
  exact hinv.no_fault t

/-- The pool ended and freed by its only thread. -/
theorem never_faults_in_pool : ∃ as s, Lts.Run (Lts.Guarded State.Permits Step)
    (State.create false (fun _ => false) 1 : State Bool Nat) as s ∧ s.key true = true ∧
      s.closer = some true ∧ s.freed = true ∧ ∀ t, s.faults t = false := by
  obtain ⟨as, s, hrun, hkey, hcloser, hfreed⟩ : ∃ as s, Lts.Run (Lts.Guarded State.Permits Step)
      (State.create false (fun _ => false) 1 : State Bool Nat) as s ∧ s.key true = true ∧
        s.closer = some true ∧ s.freed = true :=
    ⟨List.flatten [[.run false none, .spawn false true], .replicate 3 (.run false none),
        .replicate 2 (.run true none), [.schedule false 7], .replicate 2 (.run false none),
        [.run true none, .destroy true], .replicate 12 (.run true none), [.finish true],
        .replicate 2 (.run true none)],
      Lts.exists_run (Lts.guarded_sound act_sound) trivial (by decide +kernel)⟩
  exact ⟨as, s, hrun, hkey, hcloser, hfreed, never_faults (by decide) hrun⟩

/-- A task that ends the pool while the call that has scheduled it is not back yet: that signals a
condition of the queue that there is no more. -/
theorem faults_of_early_destroy : ∃ as s, Lts.Run Step
    (State.create false (fun _ => false) 1 : State Bool Nat) as s ∧ s.closer = some true ∧
      s.noQueue = true ∧ s.faults false = true :=
  ⟨List.flatten [[.run false none, .spawn false true], .replicate 3 (.run false none),
      .replicate 2 (.run true none), [.schedule false 7, .run false none, .run true none,
      .destroy true], .replicate 12 (.run true none)],
    Lts.exists_run act_sound trivial (by decide +kernel)⟩

/-- A pool of no thread can be freed by the first one that `thrdpool_increase` starts, before that
counts it: its task ends when the count is still zero. -/
theorem faults_of_no_thread : ∃ as s, Lts.Run (Lts.Guarded State.Permits Step)
    (State.create false (fun _ => false) 0 : State Bool Nat) as s ∧ s.closer = none ∧
      s.faults false = true :=
  ⟨List.flatten [.replicate 2 (.run false none), [.schedule false 7],
      .replicate 2 (.run false none), [.increase false, .run false none, .spawn false true],
      .replicate 3 (.run true none), [.finish true], .replicate 2 (.run true none)],
    Lts.exists_run (Lts.guarded_sound act_sound) trivial (by decide +kernel)⟩

/-- Tasks are started in the order in which they are scheduled; those left when the pool is ended
are handed over in that order, and none is lost. -/
theorem tasks_in_order (hpos : 1 ≤ nthreads)
    (h : Lts.Run (Lts.Guarded State.Permits Step) (State.create creator outside nthreads) as s) :
    s.scheduled = s.started ++ s.drained ++ s.queue.queue ∧
      (s.noQueue = true → s.scheduled = s.started ++ s.drained) := by
  obtain ⟨g, hinv⟩ := inv_reachable hpos h
  refine ⟨hinv.tasks.order, fun hdone => ?_⟩
  have hstage : 13 ≤ g.stage := by simpa [hdone] using hinv.flags.noQueue
  rw [hinv.tasks.order, hinv.tasks.closed (by omega), List.append_nil]

/-- A pool of one thread with two tasks, ended before the second is started. -/
theorem tasks_in_order_ended : ∃ as s, Lts.Run (Lts.Guarded State.Permits Step)
    (State.create false (fun _ => false) 1 : State Bool Nat) as s ∧ s.started = [7] ∧
      s.drained = [8] ∧ s.scheduled = s.started ++ s.drained := by
  obtain ⟨as, s, hrun, hstarted, hdrained, hdone⟩ : ∃ as s,
      Lts.Run (Lts.Guarded State.Permits Step)
        (State.create false (fun _ => false) 1 : State Bool Nat) as s ∧ s.started = [7] ∧
        s.drained = [8] ∧ s.noQueue = true :=
    ⟨List.flatten [[.run false none, .spawn false true], .replicate 3 (.run false none),
        .replicate 2 (.run true none), [.schedule false 7], .replicate 2 (.run false none),
        [.run true none, .schedule false 8], .replicate 2 (.run false none),
        [.finish true, .run true none, .destroy false], .replicate 4 (.run false none),
        .replicate 4 (.run true none), [.run true (some false), .run true none],
        .replicate 11 (.run false none)],
      Lts.exists_run (Lts.guarded_sound act_sound) trivial (by decide +kernel)⟩
  exact ⟨as, s, hrun, hstarted, hdrained, (tasks_in_order (by decide) hrun).2 hdone⟩

end Hplsp.Thrdpool
