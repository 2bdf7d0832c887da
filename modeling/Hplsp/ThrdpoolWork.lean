import Hplsp.ThrdpoolStep

/-! The invariant along the steps of the threads that work, of `thrdpool_create`, and of the calls
that do not end the pool. -/

namespace Hplsp.Thrdpool

variable {τ ε : Type} [DecidableEq τ] {s s' : State τ ε} {g : Ghost τ} {t child : τ}
  {old new : Pc τ ε} {entry : ε} {queue : List ε} {n : Nat}

namespace Inv

variable (h : Inv s g)
include h

theorem start (hpc : s.pc t = .start) :
    Inv ({ s with key := Function.update s.key t true }.goto t .check) g := by
  have hplace := (fits_routine (.inl rfl)).mp (h.place hpc)
  refine h.step hpc rfl ⟨rfl, rfl, rfl, rfl, rfl, rfl, rfl, rfl, rfl, rfl, rfl⟩
    ⟨⟨rfl, rfl⟩, rfl, ⟨rfl, rfl⟩, by simp, .inl rfl, rfl, id⟩
    ((fits_routine (.inr (.inl rfl))).mpr hplace) (h.mutex.goto (by rw [hpc]; rfl)) ?_
    (h.opening_goto hpc (by simp [Pc.uses]) (fun _ htasked => by cases htasked) (.inl rfl)
      (by simp [Pc.abandons]) fun _ => rfl)
    (h.waits_goto hpc rfl rfl) (h.same_tasks rfl rfl rfl rfl)
  intro t'
  by_cases ht : t' = t
  · rw [ht]
    rcases hplace.1 with hrole | hrole <;> simp [State.goto, hrole, Role.inPool]
  · simp only [State.goto, Function.update_of_ne ht]
    exact h.keyed t'

theorem check (hpc : s.pc t = .check) :
    Inv (s.goto t (if s.terminate then .exitLock else .get)) g := by
  have hplace := (fits_routine (.inr (.inl rfl))).mp (h.place hpc)
  by_cases hterminate : s.terminate = true
  · have hstage : 4 ≤ g.stage := by simpa [hterminate] using h.flags.terminate
    rw [if_pos hterminate]
    exact h.pass hpc ⟨⟨rfl, rfl⟩, rfl, ⟨rfl, rfl⟩, by simp, .inl rfl, rfl, id⟩
      (fits_exitLock.mpr ⟨hplace.1, by omega, hplace.2⟩) (by simp) rfl rfl (by simp [Pc.uses]) id
  · rw [if_neg hterminate]
    exact h.pass hpc ⟨⟨rfl, rfl⟩, rfl, ⟨rfl, rfl⟩, by simp, .inl rfl, rfl, id⟩
      ((fits_routine (.inr (.inr rfl))).mpr hplace) (by simp) rfl rfl (by simp [Pc.uses]) id

/-- The queue has been set to return, and is empty. -/
theorem getNone (hpc : s.pc t = .get) (hnonblock : s.queue.nonblock = true) :
    Inv (s.goto t .exitLock) g := by
  have hplace := (fits_routine (.inr (.inr rfl))).mp (h.place hpc)
  have hstage : 3 ≤ g.stage := by simpa [hnonblock] using h.flags.nonblock
  exact h.pass hpc ⟨⟨rfl, rfl⟩, rfl, ⟨rfl, rfl⟩, by simp, .inl rfl, rfl, id⟩
    (fits_exitLock.mpr ⟨hplace.1, hstage, hplace.2⟩) (by simp) rfl rfl (by simp [Pc.uses]) id

omit [DecidableEq τ] in
theorem opened_of_queue (hqueue : s.queue.queue ≠ []) : s.opened = true := by
  cases hopened : s.opened with
  | true => rfl
  | false =>
    have horder := h.tasks.order
    rw [(h.opening.unopened hopened).1] at horder
    exact absurd (List.append_eq_nil_iff.mp horder.symm).2 hqueue

omit [DecidableEq τ] in
/-- Tasks are taken out of the queue by threads only before any is taken out by who ends the pool.
-/
theorem drained_nil (hstage : g.stage ≤ 6) : s.drained = [] := by
  by_contra hsome
  have hnine := h.tasks.drained hsome
  omega

theorem getSome (hpc : s.pc t = .get) (hqueue : s.queue.queue = entry :: queue) :
    Inv ({ s with queue := { s.queue with queue := queue }, started := s.started ++ [entry] }.goto t
      .client) g := by
  have hplace := (fits_routine (.inr (.inr rfl))).mp (h.place hpc)
  have hopened := h.opened_of_queue (by simp [hqueue])
  have hdrained := h.drained_nil hplace.2
  refine h.step hpc rfl ⟨rfl, rfl, rfl, rfl, rfl, rfl, rfl, rfl, rfl, rfl, rfl⟩
    ⟨⟨rfl, rfl⟩, rfl, ⟨rfl, rfl⟩, by simp, .inl rfl, rfl, id⟩
    (fits_client.mpr (.inr (.inl hplace))) (h.mutex.goto (by rw [hpc]; rfl))
    (h.keyed.goto (fun _ => rfl) (by simp) (by simp [hpc]))
    (h.opening_goto hpc (by simp [Pc.uses]) (fun hclosed => absurd hopened (by simp [hclosed]))
      (.inl rfl) (by simp [Pc.abandons]) fun _ => rfl)
    (h.waits_goto hpc rfl rfl) ⟨?_, ?_, ?_⟩
  · have horder := h.tasks.order
    rw [hqueue] at horder
    simpa [State.goto, hdrained] using horder
  · exact h.tasks.drained
  · exact fun hten => absurd hplace.2 (by omega)

omit [DecidableEq τ] in
theorem opened_of_tasked (hpool : (g.role t).inPool = true) (htasked : (s.pc t).tasked = true) :
    s.opened = true := by
  cases hopened : s.opened with
  | true => rfl
  | false =>
    rw [(h.opening.unopened hopened).2 t hpool] at htasked
    cases htasked

omit [DecidableEq τ] in
/-- A thread of the pool does not find the count at zero after a task. -/
theorem live_ne_nil (hrole : g.role t = .fresh ∨ g.role t = .live)
    (htasked : (s.pc t).tasked = true) : g.live ≠ [] := by
  have hopened := h.opened_of_tasked (by rcases hrole with hrole | hrole <;> rw [hrole] <;> rfl)
    htasked
  rcases hrole with hrole | hrole
  · obtain ⟨t', hchild, hholds | ⟨hclosed, -⟩⟩ := h.parent hrole
    · cases hpc : s.pc t' with
      | increaseCount child =>
        rcases (fits_increases rfl).mp (h.place hpc) with ⟨-, hzero⟩ | ⟨hlive, -⟩
        · exact h.opening.live hopened hzero
        · exact List.ne_nil_of_mem ((h.counted.mem t').mpr hlive)
      | _ => simp_all [Pc.child, Pc.holds]
    · rw [hopened] at hclosed
      cases hclosed
  · exact List.ne_nil_of_mem ((h.counted.mem t).mpr hrole)

theorem taskEnd (hpc : s.pc t = .taskEnd) :
    Inv (s.goto t (if s.nthreads = 0 then .free else .check)) g := by
  rcases fits_taskEnd.mp (h.place hpc) with ⟨hrole, hstage⟩ | ⟨hrole, hstage⟩
  · have hlive := h.live_ne_nil hrole (by rw [hpc]; rfl)
    have hcount : s.nthreads ≠ 0 := by simpa [h.counted.count] using hlive
    rw [if_neg hcount]
    exact h.pass hpc ⟨⟨rfl, rfl⟩, rfl, ⟨rfl, rfl⟩, by simp, .inl rfl, rfl, id⟩
      ((fits_routine (.inr (.inl rfl))).mpr ⟨hrole, hstage⟩) (by simp) rfl rfl (by simp [Pc.uses])
      (by simp [Pc.tasked])
  · have hcount : s.nthreads = 0 := by
      rw [h.counted.count, (h.empty (by omega)).1]
      rfl
    rw [if_pos hcount]
    exact h.pass hpc ⟨⟨rfl, rfl⟩, rfl, ⟨rfl, rfl⟩, by simp, .inl rfl, rfl, id⟩
      (fits_free.mpr ⟨hrole, hstage⟩) (by simp) rfl rfl (by simp [Pc.uses]) (by simp [Pc.tasked])

omit [DecidableEq τ] in
/-- A thread that has not been counted yet does not get the mutex. -/
theorem not_fresh (hfree : s.mutex = none) (hopened : s.opened = true ∨ g.stage ≠ 0) :
    g.role t ≠ .fresh := by
  intro hfresh
  obtain ⟨t', -, hholds | ⟨hclosed, hzero⟩⟩ := h.parent hfresh
  · rw [h.not_holds hfree] at hholds
    cases hholds
  · rcases hopened with hopened | hstage
    · rw [hopened] at hclosed
      cases hclosed
    · exact hstage hzero

theorem exitLock (hpc : s.pc t = .exitLock) (hrun : s.lock t .exitTid = some s') : Inv s' g := by
  obtain ⟨hrole, hthree, hsix⟩ := fits_exitLock.mp (h.place hpc)
  have hfree : s.mutex = none := lock_free hrun
  have hlive := hrole.resolve_left (h.not_fresh hfree (.inr (by omega)))
  -- Who has set the queue to return has the mutex until `terminate` is set.
  have hfour : g.stage ≠ 3 := by
    intro hstage
    obtain ⟨t', inPool, -, hclosing⟩ := h.closer_at (by omega) (by omega)
    have hholds := h.not_holds (t := t') hfree
    cases hpc' : s.pc t' <;> simp_all [Pc.closing, Pc.holds]
  exact h.lock hrun hpc ⟨⟨rfl, rfl⟩, rfl, ⟨rfl, rfl⟩, by simp, .inl rfl, rfl, id⟩
    ((fits_leaving (.inl rfl)).mpr ⟨hlive, by omega, hsix⟩) (by simp) rfl (h.out hpc rfl)
    (by simp [Pc.uses]) (by simp [Pc.tasked, Pc.uses, Pc.closing])

theorem createTest (hpc : s.pc t = .createTest n) :
    Inv (s.goto t (if s.nthreads < n then .createThread n else .createEnd n)) g := by
  have hplace := (fits_creates rfl).mp (h.place hpc)
  split
  · exact h.pass hpc ⟨⟨rfl, rfl⟩, rfl, ⟨rfl, rfl⟩, by simp, .inr rfl, rfl, id⟩
      ((fits_creates rfl).mpr hplace) (by simp) rfl rfl (by simp [Pc.uses]) id
  · exact h.pass hpc ⟨⟨rfl, rfl⟩, rfl, ⟨rfl, rfl⟩, by simp, .inr rfl, rfl, id⟩
      ((fits_creates rfl).mpr hplace) (by simp) rfl rfl (by simp [Pc.uses]) id

/-- All threads have been started: `thrdpool_create` returns the pool. -/
theorem createReturn (hpc : s.pc t = .createEnd n) (hcount : s.nthreads = n) :
    Inv ({ s with opened := true }.goto t .client) g := by
  obtain ⟨hrole, hstage⟩ := (fits_creates rfl).mp (h.place hpc)
  have hcreates : (s.pc t).creates = some n := by rw [hpc]; rfl
  refine h.step hpc rfl ⟨rfl, rfl, rfl, rfl, rfl, rfl, rfl, rfl, rfl, rfl, rfl⟩
    ⟨⟨rfl, rfl⟩, rfl, ⟨rfl, rfl⟩, by simp, .inl rfl, rfl, id⟩ (fits_client.mpr (.inl hrole))
    (h.mutex.goto (by rw [hpc]; rfl)) (h.keyed.goto (fun _ => rfl) (by simp) (by simp [hpc]))
    ?_ (h.waits_goto hpc rfl rfl) (h.same_tasks rfl rfl rfl rfl)
  -- Nobody else is creating the pool.
  have hnone : ∀ t', (Function.update s.pc t .client t').creates = none := by
    intro t'
    by_cases ht : t' = t
    · rw [ht, Function.update_self]
      rfl
    · rw [Function.update_of_ne ht]
      by_contra hsome
      exact ht (h.opening.one t' t hsome (by rw [hcreates]; exact Option.some_ne_none n))
  refine ⟨fun hclosed => absurd hclosed (by simp [State.goto]), fun _ _ => rfl, fun t' m hm => ?_,
    fun t₁ _ h₁ => absurd (hnone t₁) h₁, fun t' ht' => ?_, fun _ _ => ?_⟩
  · rw [hnone t'] at hm
    cases hm
  · by_cases ht : t' = t
    · simp [ht, Pc.abandons] at ht'
    · rw [Function.update_of_ne ht] at ht'
      have hcloser := h.closing.one t' (Pc.closing_of_abandons ht')
      rw [h.closing.zero.mp hstage] at hcloser
      cases hcloser
  · have hpos := (h.opening.creates t n hcreates).1
    have hlength : g.live.length = n := h.counted.count.symm.trans hcount
    exact List.ne_nil_of_length_pos (by omega)

theorem schedule (hpc : s.pc t = .schedule entry) :
    Inv ({ s with queue := s.queue.put entry, scheduled := s.scheduled ++ [entry] }.goto t
      .scheduleSignal) g := by
  have hplace := (fits_call (.inl ⟨_, rfl⟩)).mp (h.place hpc)
  have hopened := h.opening.uses t (by rw [hpc]; rfl)
  have hstage : g.stage ≤ 6 := by
    rcases hplace with ⟨-, hzero⟩ | ⟨-, hsix⟩
    · omega
    · exact hsix
  refine h.step hpc rfl ⟨rfl, rfl, rfl, rfl, rfl, rfl, rfl, rfl, rfl, rfl, rfl⟩
    ⟨⟨rfl, rfl⟩, rfl, ⟨rfl, rfl⟩, by simp, .inl rfl, rfl, id⟩
    ((fits_call (.inr (.inl rfl))).mpr hplace) (h.mutex.goto (by rw [hpc]; rfl))
    (h.keyed.goto (fun _ => rfl) (by simp) (by simp [hpc]))
    (h.opening_goto hpc (fun _ => hopened) (fun hclosed => absurd hopened (by simp [hclosed]))
      (.inl rfl) (by simp [Pc.abandons]) fun hclosed => absurd hopened (by simp [hclosed]))
    (h.waits_goto hpc rfl rfl) ⟨?_, ?_, fun hten => absurd hstage (by omega)⟩
  · simp [State.goto, Msgqueue.Fifo.put, h.tasks.order]
  · exact h.tasks.drained

/-- `msgqueue_put` returns. Who ends the pool waits for a task that has called it. -/
theorem scheduleSignal (hpc : s.pc t = .scheduleSignal) : Inv (s.goto t .client) g := by
  have hplace := (fits_call (.inr (.inl rfl))).mp (h.place hpc)
  exact h.pass hpc ⟨⟨rfl, rfl⟩, rfl, ⟨rfl, rfl⟩, by simp, .inl rfl, rfl, id⟩
    (fits_client.mpr (hplace.imp And.left .inl)) (by simp) rfl rfl (by simp [Pc.uses])
    (fun _ => rfl)

theorem increaseLock (hpc : s.pc t = .increaseLock) (hrun : s.lock t .increaseThread = some s') :
    Inv s' g := by
  have hopened := h.opening.uses t (by rw [hpc]; rfl)
  refine h.lock hrun hpc ⟨⟨rfl, rfl⟩, rfl, ⟨rfl, rfl⟩, by simp, .inl rfl, rfl, id⟩
    ((fits_increases rfl).mpr ?_) (by simp) rfl (h.out hpc rfl) (fun _ => rfl) (fun _ => rfl)
  rcases (fits_call (.inr (.inr rfl))).mp (h.place hpc) with hout | ⟨hrole, hstage⟩
  · exact .inl hout
  · exact .inr ⟨hrole.resolve_left (h.not_fresh (lock_free hrun) (.inl hopened)), hstage⟩

theorem increaseUnlock (hpc : s.pc t = .increaseUnlock) (hrun : s.unlock t .client = some s') :
    Inv s' g := by
  refine h.unlock hrun hpc ⟨⟨rfl, rfl⟩, rfl, ⟨rfl, rfl⟩, by simp, .inl rfl, rfl, id⟩
    (fits_client.mpr ?_) (by simp) rfl rfl (by simp [Pc.uses]) (fun _ => rfl)
  exact ((fits_increases rfl).mp (h.place hpc)).imp And.left
    fun hlive => .inl ⟨.inr hlive.1, hlive.2⟩

theorem refuse (hrun : s.refuse t = some s') : Inv s' g := by
  cases hpc : s.pc t with
  | createThread n =>
    simp only [State.refuse, hpc] at hrun
    cases hrun
    exact h.pass hpc ⟨⟨rfl, rfl⟩, rfl, ⟨rfl, rfl⟩, by simp, .inr rfl, rfl, id⟩
      ((fits_creates rfl).mpr ((fits_creates rfl).mp (h.place hpc))) (by simp) rfl rfl
      (by simp [Pc.uses]) id
  | increaseThread =>
    simp only [State.refuse, hpc] at hrun
    cases hrun
    exact h.pass hpc ⟨⟨rfl, rfl⟩, rfl, ⟨rfl, rfl⟩, by simp, .inl rfl, rfl, id⟩
      ((fits_increases rfl).mpr ((fits_increases rfl).mp (h.place hpc))) (by simp) rfl rfl
      (fun _ => h.opening.uses t (by rw [hpc]; rfl)) id
  | _ => simp [State.refuse, hpc] at hrun

omit [DecidableEq τ] in
/-- Who may call is no thread that has ended the pool. -/
theorem usable (hpc : s.pc t = .client)
    (hwho : s.closer = none ∨ s.key t = true ∧ s.closer ≠ some t) :
    g.role t = .outside ∧ g.stage = 0 ∨ (g.role t = .fresh ∨ g.role t = .live) ∧ g.stage ≤ 6 := by
  rcases fits_client.mp (h.place hpc) with hrole | hrole | ⟨hrole, -⟩
  · refine .inl ⟨hrole, h.closing.zero.mpr ?_⟩
    rcases hwho with hnone | ⟨hkey, -⟩
    · exact hnone
    · have hpool := ((h.keyed t).mp hkey).1
      rw [hrole] at hpool
      cases hpool
  · exact .inr hrole
  · have hcloser := h.closing.role t hrole
    rcases hwho with hnone | ⟨-, hother⟩
    · rw [hnone] at hcloser
      cases hcloser
    · exact absurd hcloser hother

theorem callSchedule (hpc : s.pc t = .client) (hopened : s.opened = true)
    (hpermits : s.Permits (.schedule t entry)) : Inv (s.goto t (.schedule entry)) g :=
  h.pass hpc ⟨⟨rfl, rfl⟩, rfl, ⟨rfl, rfl⟩, by simp, .inl rfl, rfl, id⟩
    ((fits_call (.inl ⟨_, rfl⟩)).mpr (h.usable hpc hpermits)) (by simp) rfl rfl (fun _ => hopened)
    (fun _ => rfl)

theorem callIncrease (hpc : s.pc t = .client) (hopened : s.opened = true)
    (hpermits : s.Permits (.increase t)) : Inv (s.goto t .increaseLock) g :=
  h.pass hpc ⟨⟨rfl, rfl⟩, rfl, ⟨rfl, rfl⟩, by simp, .inl rfl, rfl, id⟩
    ((fits_call (.inr (.inr rfl))).mpr (h.usable hpc hpermits)) (by simp) rfl rfl
    (fun _ => hopened) (fun _ => rfl)

theorem finish (hpc : s.pc t = .client) (hkey : s.key t = true) : Inv (s.goto t .taskEnd) g := by
  have hpool := ((h.keyed t).mp hkey).1
  refine h.pass hpc ⟨⟨rfl, rfl⟩, rfl, ⟨rfl, rfl⟩, by simp, .inl rfl, rfl, id⟩ (fits_taskEnd.mpr ?_)
    (by simp) rfl rfl (by simp [Pc.uses]) id
  rcases fits_client.mp (h.place hpc) with hrole | hrole
  · rw [hrole] at hpool
    cases hpool
  · exact hrole

theorem wake : Inv (s.wake t) g where
  fits := h.fits
  counted := h.counted
  spawning := h.spawning
  mutex := h.mutex
  keyed := h.keyed
  closing := h.closing
  flags := ⟨h.flags.last, h.flags.nonblock, h.flags.terminate, h.flags.noKey, h.flags.noMutex,
    h.flags.noQueue, h.flags.freed⟩
  empty := h.empty
  exits := h.exits
  opening := h.opening
  waits := ⟨fun t' ht' => h.waits.waits t' (Pthread.mem_wake.mp ht').1, fun hsome =>
    h.waits.signal fun hnil => hsome (by simp [State.wake, Pthread.wake, hnil])⟩
  tasks := h.same_tasks rfl rfl rfl rfl

end Inv

end Hplsp.Thrdpool
