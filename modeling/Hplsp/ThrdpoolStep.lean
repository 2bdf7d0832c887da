import Hplsp.ThrdpoolInv

/-! The invariant along every step of a pool. -/

namespace Hplsp.Thrdpool

variable {τ ε : Type} [DecidableEq τ] {s s' : State τ ε} {g : Ghost τ} {t t' : τ}
  {pc : τ → Pc τ ε} {role role' : τ → Role} {old new pc₀ : Pc τ ε} {r : Role} {stage stage' : Nat}
  {live live' chain joined term term' : List τ} {spawning tid closer : Option τ}
  {key detached : τ → Bool} {opened : Bool} {nthreads nthreads' : Nat}
  {scheduled scheduled' : List ε}

/-! What each part of the invariant asks of the thread that goes on. -/

theorem fits_goto (h : ∀ t', t' ≠ t → Fits stage (role t') (pc t'))
    (hnew : Fits stage (role t) new) :
    ∀ t', Fits stage (role t') (Function.update pc t new t') := by
  intro t'
  by_cases ht : t' = t
  · rw [ht, Function.update_self]
    exact hnew
  · rw [Function.update_of_ne ht]
    exact h t' ht

theorem Spawning.goto (h : Spawning pc role spawning)
    (hrole : ∀ t', role' t' = .fresh ↔ role t' = .fresh) (hold : (pc t).child = none)
    (hnew : new.child = none) : Spawning (Function.update pc t new) role' spawning := by
  refine ⟨fun t' => (hrole t').trans (h.fresh t'), fun child hchild => ?_, fun t' child => ?_⟩
  · obtain ⟨t', ht'⟩ := h.parent child hchild
    have hne : t' ≠ t := by
      rintro rfl
      rw [hold] at ht'
      cases ht'
    exact ⟨t', by rwa [Function.update_of_ne hne]⟩
  · by_cases ht : t' = t
    · rw [ht, Function.update_self, hnew]
      exact fun hchild => by cases hchild
    · rw [Function.update_of_ne ht]
      exact h.child t' child

theorem Keyed.goto (h : Keyed key pc role) (hrole : ∀ t', (role' t').inPool = (role t').inPool)
    (hnew : new ≠ .start) (hold : pc t ≠ .start) : Keyed key (Function.update pc t new) role' := by
  intro t'
  rw [hrole t', h t']
  by_cases ht : t' = t
  · rw [ht, Function.update_self]
    simp [hnew, hold]
  · rw [Function.update_of_ne ht]

theorem Closing.goto (h : Closing closer pc role stage detached)
    (hrole : ∀ t', (role' t' = .outside ↔ role t' = .outside) ∧
      (role' t' = .closer ↔ role t' = .closer))
    (hclosing : new.closing = none ↔ (pc t).closing = none) (hzero : stage' = 0 ↔ stage = 0)
    (hlast : 14 ≤ stage → stage' = stage) (hleft : new = .terminateCount → detached t = true) :
    Closing closer (Function.update pc t new) role' stage' detached := by
  have hsame : ∀ t', (Function.update pc t new t').closing = none ↔ (pc t').closing = none := by
    intro t'
    by_cases ht : t' = t
    · rw [ht, Function.update_self, hclosing]
    · rw [Function.update_of_ne ht]
  refine ⟨fun t' ht' => h.one t' fun hnone => ht' ((hsame t').mpr hnone), fun t' ht' => ?_,
    fun t' ht' => ?_, fun t' ht' => h.role t' ((hrole t').2.mp ht'), hzero.trans h.zero,
    h.detached⟩
  rcases h.here t' ht' with hhere | ⟨hstage, hout⟩ | ⟨hstage, hin⟩
  · exact .inl fun hnone => hhere ((hsame t').mp hnone)
  · exact .inr (.inl ⟨(hlast (by omega)).trans hstage, (hrole t').1.mpr hout⟩)
  · exact .inr (.inr ⟨(hlast hstage).symm ▸ hstage, (hrole t').2.mpr hin⟩)
  · by_cases ht : t' = t
    · rw [ht, Function.update_self] at ht'
      rw [ht]
      exact ht'.elim (fun hin => h.left t (.inl ((hrole t).2.mp hin))) hleft
    · rw [Function.update_of_ne ht] at ht'
      exact h.left t' (ht'.imp_left (hrole t').2.mp)

theorem Closing.detach (h : Closing closer pc role stage detached) (hcloser : closer = some t) :
    Closing closer pc role stage (Function.update detached t true) := by
  refine ⟨h.one, h.here, fun t' ht' => ?_, h.role, h.zero, fun t' ht' => ?_⟩
  · by_cases ht : t' = t
    · rw [ht, Function.update_self]
    · rw [Function.update_of_ne ht]
      exact h.left t' ht'
  · by_cases ht : t' = t
    · rwa [ht]
    · rw [Function.update_of_ne ht] at ht'
      exact h.detached t' ht'

theorem Exits.goto (h : Exits tid chain pc role joined stage)
    (hothers : ∀ t', t' ≠ t → (role' t' = .gone ↔ role t' = .gone))
    (hself : (role' t = .gone ∨ ∃ tid, new = .exitCount tid) ↔
      (role t = .gone ∨ ∃ tid, pc t = .exitCount tid))
    (hduty : new.duty = (pc t).duty)
    (hjoin : ∀ closer tid, new = .terminateJoin closer tid → chain.head? = some tid)
    (hstage : 9 ≤ stage' ↔ 9 ≤ stage) :
    Exits tid chain (Function.update pc t new) role' joined stage' := by
  have hsame : ∀ t', (Function.update pc t new t').duty = (pc t').duty := by
    intro t'
    by_cases ht : t' = t
    · rw [ht, Function.update_self, hduty]
    · rw [Function.update_of_ne ht]
  refine ⟨h.tid, h.chained.congr fun t' _ => hsame t', h.nodup, fun t' => ?_, h.joinedNodup,
    fun t' ht' => ?_, fun t' ht' hj => hstage.mpr (h.head t' ht' hj),
    fun hs => h.reaped (hstage.mp hs), fun t' closer tid => ?_⟩
  · by_cases ht : t' = t
    · rw [ht, Function.update_self, hself, h.mem t]
    · rw [Function.update_of_ne ht, hothers t' ht, h.mem t']
  · rw [hsame t']
    exact h.settled t' ht'
  · by_cases ht : t' = t
    · rw [ht, Function.update_self]
      exact hjoin closer tid
    · rw [Function.update_of_ne ht]
      exact h.joining t' closer tid

theorem Opening.goto (h : Opening opened pc role live stage scheduled)
    (hrole : ∀ t', t' ≠ t → (role' t').inPool = true → (role t').inPool = true)
    (hself : opened = false → (role' t).inPool = true → new.tasked = false)
    (huses : new.uses = true → opened = true)
    (hcreates : new.creates = none ∨ new.creates = (pc t).creates)
    (habandons : new.abandons = true → opened = false)
    (hlive : opened = true → stage' = 0 → live' ≠ [])
    (hscheduled : opened = false → scheduled' = scheduled) :
    Opening opened (Function.update pc t new) role' live' stage' scheduled' := by
  have hback : ∀ t' n, (Function.update pc t new t').creates = some n →
      (pc t').creates = some n := by
    intro t' n hn
    by_cases ht : t' = t
    · rw [ht, Function.update_self] at hn
      rw [ht]
      rcases hcreates with hnone | hsame
      · rw [hnone] at hn
        cases hn
      · rw [← hsame, hn]
    · rwa [Function.update_of_ne ht] at hn
  have hback' : ∀ t', (Function.update pc t new t').creates ≠ none → (pc t').creates ≠ none := by
    intro t' ht'
    obtain ⟨n, hn⟩ := Option.ne_none_iff_exists'.mp ht'
    rw [hback t' n hn]
    exact Option.some_ne_none n
  refine ⟨fun hopened => ⟨?_, fun t' => ?_⟩, fun t' => ?_,
    fun t' n hn => h.creates t' n (hback t' n hn),
    fun t₁ t₂ h₁ h₂ => h.one t₁ t₂ (hback' t₁ h₁) (hback' t₂ h₂), fun t' => ?_, hlive⟩
  · rw [hscheduled hopened]
    exact (h.unopened hopened).1
  · by_cases ht : t' = t
    · rw [ht, Function.update_self]
      exact hself hopened
    · rw [Function.update_of_ne ht]
      exact fun hpool => (h.unopened hopened).2 t' (hrole t' ht hpool)
  · by_cases ht : t' = t
    · rw [ht, Function.update_self]
      exact huses
    · rw [Function.update_of_ne ht]
      exact h.uses t'
  · by_cases ht : t' = t
    · rw [ht, Function.update_self]
      exact habandons
    · rw [Function.update_of_ne ht]
      exact h.abandons t'

theorem Waits.goto (h : Waits term pc nthreads) (hterm : ∀ t' ∈ term', t' ∈ term ∧ t' ≠ t)
    (hsignals : (pc t).signals = true → new.signals = true)
    (hcount : nthreads' = 0 → nthreads = 0) : Waits term' (Function.update pc t new) nthreads' := by
  refine ⟨fun t' ht' => ?_, fun hsome hzero => ?_⟩
  · obtain ⟨hmem, hne⟩ := hterm t' ht'
    rw [Function.update_of_ne hne]
    exact h.waits t' hmem
  · obtain ⟨t', ht'⟩ := List.exists_mem_of_ne_nil _ hsome
    have hold := h.signal (List.ne_nil_of_mem (hterm t' ht').1) (hcount hzero)
    exact Pthread.exists_update hold hsignals

/-- Only a thread that has ended is joined. -/
theorem join_eq_some {b : τ} (hrun : s.join t b new = some s') :
    s.pc b = .ended ∧ { s with joins := s.joins ++ [(t, b)] }.goto t new = s' := by
  unfold State.join at hrun
  split at hrun
  · exact ⟨‹_›, Option.some_inj.mp hrun⟩
  · cases hrun

theorem joined_join {b : τ} :
    ({ s with joins := s.joins ++ [(t, b)] }.goto t new).joined = s.joined ++ [b] := by
  simp [State.joined, State.goto]

theorem lock_free (hrun : s.lock t new = some s') : s.mutex = none := by
  obtain ⟨owner, hlock, -⟩ := Option.bind_eq_some_iff.mp hrun
  exact (Pthread.lock_eq_some.mp hlock).1

/-- Two points of a thread between which nothing is done that the others could see. -/
structure Pc.Alike (old new : Pc τ ε) : Prop where
  child : old.child = none ∧ new.child = none
  closing : new.closing = old.closing
  duty : old.duty = none ∧ new.duty = none
  join : ∀ closer tid, new ≠ .terminateJoin closer tid
  creates : new.creates = none ∨ new.creates = old.creates
  signals : old.signals = false
  abandons : new.abandons = true → old.abandons = true

omit [DecidableEq τ] in
theorem Pc.Alike.count (h : old.Alike new) (hnew : new = .terminateCount) :
    old = .terminateCount := by
  have hclosing := h.closing
  rw [hnew] at hclosing
  cases old <;> simp [Pc.closing] at hclosing
  rfl

/-- The pool is as it was, but for the tasks, the mutex, who waits and who may call. -/
structure SamePool (s s' : State τ ε) : Prop where
  nonblock : s'.queue.nonblock = s.queue.nonblock
  nthreads : s'.nthreads = s.nthreads
  tid : s'.tid = s.tid
  terminate : s'.terminate = s.terminate
  detached : s'.detached = s.detached
  noKey : s'.noKey = s.noKey
  noMutex : s'.noMutex = s.noMutex
  noQueue : s'.noQueue = s.noQueue
  freed : s'.freed = s.freed
  joined : s'.joined = s.joined
  closer : s'.closer = s.closer

omit [DecidableEq τ] in
theorem SamePool.flags (h : SamePool s s') (hflags : Flags s stage) : Flags s' stage where
  last := hflags.last
  nonblock := h.nonblock.trans hflags.nonblock
  terminate := h.terminate.trans hflags.terminate
  noKey := h.noKey.trans hflags.noKey
  noMutex := h.noMutex.trans hflags.noMutex
  noQueue := h.noQueue.trans hflags.noQueue
  freed := h.freed.trans hflags.freed

namespace Inv

variable (h : Inv s g)
include h

omit [DecidableEq τ] in
theorem place (hpc : s.pc t = old) : Fits g.stage (g.role t) old := hpc ▸ h.fits t

/-- A step that neither starts nor ends a thread, nor is about the end of the pool. -/
theorem step (hpc : s.pc t = old) (hpc' : s'.pc = Function.update s.pc t new)
    (hsame : SamePool s s') (halike : old.Alike new) (hfits : Fits g.stage (g.role t) new)
    (hmutex : Pthread.Owned Pc.holds (Function.update s.pc t new) s'.mutex)
    (hkeyed : Keyed s'.key (Function.update s.pc t new) g.role)
    (hopening : Opening s'.opened (Function.update s.pc t new) g.role g.live g.stage s'.scheduled)
    (hwaits : Waits s'.term (Function.update s.pc t new) s.nthreads) (htasks : Tasks s' g.stage) :
    Inv s' g := by
  subst hpc
  have hcount : ∀ {pc : Pc τ ε}, pc.duty = none → ∀ tid, pc ≠ .exitCount tid := by
    rintro _ hduty tid rfl
    cases hduty
  constructor
  · rw [hpc']
    exact fits_goto (fun t' _ => h.fits t') hfits
  · rw [hsame.nthreads]
    exact h.counted
  · rw [hpc']
    exact h.spawning.goto (fun _ => Iff.rfl) halike.child.1 halike.child.2
  · rwa [hpc']
  · rwa [hpc']
  · rw [hpc', hsame.closer, hsame.detached]
    exact h.closing.goto (fun _ => ⟨Iff.rfl, Iff.rfl⟩) (by rw [halike.closing]) Iff.rfl
      (fun _ => rfl) fun hnew => h.closing.left t (.inr (halike.count hnew))
  · exact hsame.flags h.flags
  · exact h.empty
  · rw [hpc', hsame.tid, hsame.joined]
    refine h.exits.goto (fun _ _ => Iff.rfl) ?_ (halike.duty.2.trans halike.duty.1.symm)
      (fun closer tid hnew => absurd hnew (halike.join closer tid)) Iff.rfl
    simp [hcount halike.duty.1, hcount halike.duty.2]
  · rwa [hpc']
  · rwa [hpc', hsame.nthreads]
  · exact htasks

/-- What a thread that is no thread of the pool yet, or has yet no task, does not do. -/
theorem opening_goto (hpc : s.pc t = old) (huses : new.uses = true → s.opened = true)
    (htasked : s.opened = false → new.tasked = true → old.tasked = true)
    (hcreates : new.creates = none ∨ new.creates = old.creates)
    (habandons : new.abandons = true → old.abandons = true) {scheduled : List ε}
    (hscheduled : s.opened = false → scheduled = s.scheduled) :
    Opening s.opened (Function.update s.pc t new) g.role g.live g.stage scheduled := by
  subst hpc
  refine h.opening.goto (fun _ _ => id) (fun hopened hpool => ?_) huses hcreates
    (fun hnew => h.opening.abandons t (habandons hnew)) h.opening.live hscheduled
  cases hnew : new.tasked with
  | false => rfl
  | true =>
    have hold := (h.opening.unopened hopened).2 t hpool
    rw [htasked hopened hnew] at hold
    cases hold

omit [DecidableEq τ] in
theorem out (hpc : s.pc t = old) (hwaits : old.waits = false) : t ∉ s.term := by
  intro ht
  have hold := h.waits.waits t ht
  rw [hpc, hwaits] at hold
  cases hold

theorem waits_goto (hpc : s.pc t = old) (hwaits : old.waits = false)
    (hsignals : old.signals = false) : Waits s.term (Function.update s.pc t new) s.nthreads :=
  h.waits.goto (fun _ ht' => ⟨ht', fun heq => h.out hpc hwaits (heq ▸ ht')⟩)
    (fun hs => absurd (hsignals.symm.trans (hpc ▸ hs)) Bool.noConfusion) id

omit [DecidableEq τ] in
theorem same_tasks (hscheduled : s'.scheduled = s.scheduled) (hstarted : s'.started = s.started)
    (hdrained : s'.drained = s.drained) (hqueue : s'.queue.queue = s.queue.queue) :
    Tasks s' g.stage := by
  obtain ⟨horder, hlate, hclosed⟩ := h.tasks
  constructor
  · rw [hscheduled, hstarted, hdrained, hqueue, horder]
  · rwa [hdrained]
  · rwa [hqueue]

theorem pass (hpc : s.pc t = old) (halike : old.Alike new) (hfits : Fits g.stage (g.role t) new)
    (hstart : old ≠ .start ∧ new ≠ .start) (hholds : new.holds = old.holds)
    (hwaits : old.waits = false) (huses : new.uses = true → s.opened = true)
    (htasked : new.tasked = true → old.tasked = true) : Inv (s.goto t new) g :=
  h.step hpc rfl ⟨rfl, rfl, rfl, rfl, rfl, rfl, rfl, rfl, rfl, rfl, rfl⟩ halike hfits
    (h.mutex.goto (hpc ▸ hholds)) (h.keyed.goto (fun _ => rfl) hstart.2 (hpc ▸ hstart.1))
    (h.opening_goto hpc huses (fun _ => htasked) halike.creates halike.abandons fun _ => rfl)
    (h.waits_goto hpc hwaits halike.signals) (h.same_tasks rfl rfl rfl rfl)

theorem lock (hrun : s.lock t new = some s') (hpc : s.pc t = old) (halike : old.Alike new)
    (hfits : Fits g.stage (g.role t) new) (hstart : old ≠ .start ∧ new ≠ .start)
    (hholds : new.holds = true) (hout : t ∉ s.term) (huses : new.uses = true → old.uses = true)
    (htasked : new.tasked = true → old.tasked = true) : Inv s' g := by
  obtain ⟨owner, hlock, hrun⟩ := Option.bind_eq_some_iff.mp hrun
  cases hrun
  exact h.step hpc rfl ⟨rfl, rfl, rfl, rfl, rfl, rfl, rfl, rfl, rfl, rfl, rfl⟩ halike hfits
    (h.mutex.lock hlock hholds) (h.keyed.goto (fun _ => rfl) hstart.2 (hpc ▸ hstart.1))
    (h.opening_goto hpc (fun hnew => h.opening.uses t (hpc ▸ huses hnew)) (fun _ => htasked)
      halike.creates halike.abandons fun _ => rfl)
    (h.waits.goto (fun _ ht' => ⟨ht', fun heq => hout (heq ▸ ht')⟩)
      (fun hs => absurd (halike.signals.symm.trans (hpc ▸ hs)) Bool.noConfusion) id)
    (h.same_tasks rfl rfl rfl rfl)

theorem unlock (hrun : s.unlock t new = some s') (hpc : s.pc t = old) (halike : old.Alike new)
    (hfits : Fits g.stage (g.role t) new) (hstart : old ≠ .start ∧ new ≠ .start)
    (hholds : new.holds = false) (hwaits : old.waits = false)
    (huses : new.uses = true → old.uses = true)
    (htasked : new.tasked = true → old.tasked = true) : Inv s' g := by
  obtain ⟨owner, hunlock, hrun⟩ := Option.bind_eq_some_iff.mp hrun
  cases hrun
  exact h.step hpc rfl ⟨rfl, rfl, rfl, rfl, rfl, rfl, rfl, rfl, rfl, rfl, rfl⟩ halike hfits
    (h.mutex.unlock hunlock hholds) (h.keyed.goto (fun _ => rfl) hstart.2 (hpc ▸ hstart.1))
    (h.opening_goto hpc (fun hnew => h.opening.uses t (hpc ▸ huses hnew)) (fun _ => htasked)
      halike.creates halike.abandons fun _ => rfl)
    (h.waits_goto hpc hwaits halike.signals) (h.same_tasks rfl rfl rfl rfl)

omit [DecidableEq τ] in
theorem not_holds (hfree : s.mutex = none) : (s.pc t).holds = false := by
  cases hholds : (s.pc t).holds with
  | false => rfl
  | true =>
    rw [(h.mutex t).mpr hholds] at hfree
    cases hfree

end Inv

omit [DecidableEq τ] in
theorem Fits.stage_eq (h : Fits stage r pc₀) (hclosing : pc₀.closing ≠ none) :
    ∃ inPool, pc₀.closing = some (inPool, stage) := by
  obtain ⟨⟨inPool, last⟩, hsome⟩ := Option.ne_none_iff_exists'.mp hclosing
  obtain ⟨rfl, -⟩ := (fits_closing hsome).mp h
  exact ⟨inPool, hsome⟩

namespace Inv

variable (h : Inv s g)
include h

omit [DecidableEq τ] in
/-- Where the thread that ends the pool is at each stage of it. -/
theorem closer_at (hclosed : g.stage ≠ 0) (hlast : g.stage < 14) :
    ∃ t inPool, s.closer = some t ∧ (s.pc t).closing = some (inPool, g.stage) := by
  obtain ⟨t, ht⟩ := Option.ne_none_iff_exists'.mp fun hnone => hclosed (h.closing.zero.mpr hnone)
  rcases h.closing.here t ht with hhere | ⟨hstage, -⟩ | ⟨hstage, -⟩
  · obtain ⟨inPool, hat⟩ := (h.fits t).stage_eq hhere
    exact ⟨t, inPool, ht, hat⟩
  · omega
  · omega

omit [DecidableEq τ] in
/-- Who has started a thread and has yet to count it has the mutex, or is still creating the pool.
-/
theorem parent (hfresh : g.role t = .fresh) : ∃ t', (s.pc t').child = some t ∧
    ((s.pc t').holds = true ∨ s.opened = false ∧ g.stage = 0) := by
  obtain ⟨t', ht'⟩ := h.spawning.parent t ((h.spawning.fresh t).mp hfresh)
  refine ⟨t', ht', ?_⟩
  cases hpc : s.pc t' with
  | increaseCount child => exact .inl rfl
  | createCount n child =>
    refine .inr ⟨(h.opening.creates t' n (by rw [hpc]; rfl)).2, ?_⟩
    have hplace := h.place hpc
    cases hrole : g.role t' <;> simp_all [Fits, Pc.works, Pc.increases, Pc.closing]
  | _ => simp [hpc, Pc.child] at ht'

end Inv

omit [DecidableEq τ] in
/-- A thread that does not end the pool, when the end goes on. -/
theorem Fits.mono (h : Fits stage r pc₀) (hle : stage ≤ stage') (hclosing : pc₀.closing = none)
    (hrole : r ≠ .closer)
    (hstart : stage = 0 → r = .outside → pc₀.uses = false ∧ pc₀.creates = none)
    (hend : 6 < stage' → stage ≤ 6 → r ≠ .fresh ∧ r ≠ .live ∧ pc₀.holds = false) :
    Fits stage' r pc₀ := by
  have hlast : r = .fresh ∨ r = .live ∨ pc₀.holds = true → stage ≤ 6 → stage' ≤ 6 := by
    intro hbusy hsix
    by_contra hlt
    obtain ⟨hfresh, hlive, hholds⟩ := hend (by omega) hsix
    rcases hbusy with hbusy | hbusy | hbusy
    · exact hfresh hbusy
    · exact hlive hbusy
    · rw [hholds] at hbusy
      cases hbusy
  cases r with
  | closer => exact absurd rfl hrole
  | unborn => exact h
  | outside =>
    rcases h with h | ⟨h, hzero⟩ | h
    · exact .inl h
    · obtain ⟨huses, hcreates⟩ := hstart hzero rfl
      simp only [huses, hcreates] at h
      simp at h
    · rw [hclosing] at h
      cases h
  | fresh =>
    rcases h with ⟨h, hsix⟩ | ⟨h, hthree, hsix⟩ | ⟨h, -⟩
    · exact .inl ⟨h, hlast (.inl rfl) hsix⟩
    · exact .inr (.inl ⟨h, by omega, hlast (.inl rfl) hsix⟩)
    · rw [hclosing] at h
      cases h
  | live =>
    rcases h with ⟨h, hsix⟩ | ⟨h, hthree, hsix⟩ | ⟨h, hfour, hsix⟩ | ⟨h, -⟩
    · exact .inl ⟨h, hlast (.inr (.inl rfl)) hsix⟩
    · exact .inr (.inl ⟨h, by omega, hlast (.inr (.inl rfl)) hsix⟩)
    · exact .inr (.inr (.inl ⟨h, by omega, hlast (.inr (.inl rfl)) hsix⟩))
    · rw [hclosing] at h
      cases h
  | gone =>
    rcases h with ⟨h, hfour, hsix⟩ | ⟨h, hfour⟩
    · refine .inl ⟨h, by omega, hlast (.inr (.inr ?_)) hsix⟩
      obtain ⟨tid, rfl | rfl⟩ := h <;> rfl
    · exact .inr ⟨h, by omega⟩

/-- All that is not about the end of the pool is as it was. -/
structure SameThreads (s s' : State τ ε) : Prop where
  nthreads : s'.nthreads = s.nthreads
  key : s'.key = s.key
  opened : s'.opened = s.opened
  closer : s'.closer = s.closer
  term : s'.term = s.term
  scheduled : s'.scheduled = s.scheduled

namespace Inv

variable (h : Inv s g)
include h

/-- A step of the thread that ends the pool. -/
theorem advance (stage : Nat) (hpc : s.pc t = old) (hold : old.closing ≠ none)
    (hpc' : s'.pc = Function.update s.pc t new) (hsame : SameThreads s s')
    (hle : g.stage ≤ stage) (hfits : Fits stage (g.role t) new) (hnew : new.closing ≠ none)
    (hwaits : old.waits = false) (hduty : old.duty = none ∧ new.duty = none)
    (habandons : new.abandons = true → old.abandons = true)
    (hmutex : Pthread.Owned Pc.holds (Function.update s.pc t new) s'.mutex)
    (hdetached : s'.detached = s.detached ∧ new ≠ .terminateCount ∨
      s'.detached = Function.update s.detached t true) (hflags : Flags s' stage)
    (hempty : 7 ≤ stage → g.live = [] ∧ g.spawning = none)
    (hheld : 6 < stage → g.stage ≤ 6 → ∀ t', t' ≠ t → (s.pc t').holds = false)
    (hexits : Exits s'.tid g.chain (Function.update s.pc t new) g.role s'.joined stage)
    (htasks : Tasks s' stage) : Inv s' { g with stage := stage } := by
  subst hpc
  obtain ⟨inPool, hat⟩ := (h.fits t).stage_eq hold
  have hlast := Pc.closing_le hat
  have hcloser := h.closing.one t hold
  have hzero : g.stage ≠ 0 := fun hzero => by
    rw [h.closing.zero.mp hzero] at hcloser
    cases hcloser
  have hother : ∀ t', t' ≠ t → Fits stage (g.role t') (s.pc t') := by
    intro t' ht
    refine (h.fits t').mono hle ?_ ?_ (fun hs => absurd hs hzero) fun hlt hsix => ?_
    · by_contra hnone
      exact ht (Option.some_inj.mp ((h.closing.one t' hnone).symm.trans hcloser))
    · intro hrole
      exact ht (Option.some_inj.mp ((h.closing.role t' hrole).symm.trans hcloser))
    · obtain ⟨hlive, hspawning⟩ := hempty (by omega)
      refine ⟨fun hfresh => ?_, fun hrole => ?_, hheld hlt hsix t' ht⟩
      · have hsome := (h.spawning.fresh t').mp hfresh
        rw [hspawning] at hsome
        cases hsome
      · have hmem := (h.counted.mem t').mpr hrole
        rw [hlive] at hmem
        cases hmem
  obtain ⟨hchild, hstart, -, -, hsignals, htasked⟩ := Pc.facts_of_closing hold
  obtain ⟨hchild', hstart', huses, hcreates, -, -⟩ := Pc.facts_of_closing hnew
  constructor
  · rw [hpc']
    exact fits_goto hother hfits
  · rw [hsame.nthreads]
    exact h.counted
  · rw [hpc']
    exact h.spawning.goto (fun _ => Iff.rfl) hchild hchild'
  · rw [hpc']
    exact hmutex
  · rw [hpc', hsame.key]
    exact h.keyed.goto (fun _ => rfl) hstart' hstart
  · rw [hpc']
    have hgoto : ∀ detached, Closing s.closer s.pc g.role g.stage detached →
        (new = .terminateCount → detached t = true) →
        Closing s.closer (Function.update s.pc t new) g.role stage detached :=
      fun detached hclosing => hclosing.goto (fun _ => ⟨Iff.rfl, Iff.rfl⟩) (by simp [hold, hnew])
        ⟨fun hs => by omega, fun hs => absurd hs hzero⟩ fun hs => absurd hs (by omega)
    rw [hsame.closer]
    rcases hdetached with ⟨hdetached, hcount⟩ | hdetached
    · rw [hdetached]
      exact hgoto _ h.closing fun hcounts => absurd hcounts hcount
    · rw [hdetached]
      exact hgoto _ (h.closing.detach hcloser) fun _ => Function.update_self _ _ _
  · exact hflags
  · exact hempty
  · rw [hpc']
    exact hexits
  · rw [hpc', hsame.opened, hsame.scheduled]
    refine h.opening.goto (fun _ _ => id) (fun hopened hpool => ?_)
      (fun hs => absurd (huses.symm.trans hs) Bool.noConfusion) (.inl hcreates)
      (fun hs => h.opening.abandons t (habandons hs))
      (fun _ (hs : stage = 0) => absurd hs (by omega)) fun _ => rfl
    exact absurd (htasked.symm.trans ((h.opening.unopened hopened).2 t hpool)) Bool.noConfusion
  · rw [hpc', hsame.nthreads, hsame.term]
    exact h.waits.goto (fun t' ht' => ⟨ht', fun heq => h.out rfl hwaits (heq ▸ ht')⟩)
      (fun hs => absurd (hsignals.symm.trans hs) Bool.noConfusion) id
  · exact htasks

end Inv

end Hplsp.Thrdpool
