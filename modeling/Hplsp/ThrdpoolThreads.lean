import Hplsp.ThrdpoolWork

/-! The invariant along the steps that start a thread of the pool, and that end one. -/

namespace Hplsp.Thrdpool

variable {τ ε : Type} [DecidableEq τ] {s s' : State τ ε} {g : Ghost τ} {t t' child b : τ}
  {old new pc : Pc τ ε} {n stage : Nat} {r : Role} {tid woken : Option τ}

omit [DecidableEq τ] in
theorem fits_unborn : Fits stage r (.unborn : Pc τ ε) ↔ r = .unborn := by
  cases r <;> simp [Fits, Pc.works, Pc.increases, Pc.uses, Pc.creates, Pc.closing]

omit [DecidableEq τ] in
/-- A thread that is counted can be where it could be before. -/
theorem Fits.count (h : Fits stage .fresh pc) : Fits stage .live pc := by
  rcases h with ⟨hworks, hsix⟩ | hexit | ⟨hclosing, hone⟩
  · exact .inl ⟨.inl hworks, hsix⟩
  · exact .inr (.inl hexit)
  · exact .inr (.inr (.inr ⟨hclosing, by omega⟩))

/-- Between `pthread_create` and its return. -/
def Pc.starts : Pc τ ε → Bool
  | createThread _ | createCount _ _ | increaseThread | increaseCount _ => true
  | _ => false

/-- The points before and after `pthread_create` has started a thread. -/
inductive Pc.Spawns (child : τ) : Pc τ ε → Pc τ ε → Prop
  | create {n : Nat} : Spawns child (.createThread n) (.createCount n child)
  | increase : Spawns child .increaseThread (.increaseCount child)

/-- The points before and after a thread that has been started is counted. -/
inductive Pc.Counts (child : τ) : Pc τ ε → Pc τ ε → Prop
  | create {n : Nat} : Counts child (.createCount n child) (.createTest n)
  | increase : Counts child (.increaseCount child) .increaseUnlock

namespace Inv

variable (h : Inv s g)
include h

omit [DecidableEq τ] in
/-- Threads are started one at a time. -/
theorem starts_unique (ht : (s.pc t).starts = true) (ht' : (s.pc t').starts = true) : t = t' := by
  have hcases : ∀ u, (s.pc u).starts = true →
      (s.pc u).holds = true ∧ s.opened = true ∨ (s.pc u).creates ≠ none ∧ s.opened = false := by
    intro u hu
    cases hpc : s.pc u with
    | createThread n =>
      exact .inr ⟨by simp [Pc.creates], (h.opening.creates u n (by rw [hpc]; rfl)).2⟩
    | createCount n c =>
      exact .inr ⟨by simp [Pc.creates], (h.opening.creates u n (by rw [hpc]; rfl)).2⟩
    | increaseThread => exact .inl ⟨rfl, h.opening.uses u (by rw [hpc]; rfl)⟩
    | increaseCount c => exact .inl ⟨rfl, h.opening.uses u (by rw [hpc]; rfl)⟩
    | _ => simp [hpc, Pc.starts] at hu
  rcases hcases t ht with ⟨hholds, hopened⟩ | ⟨hcreates, hclosed⟩ <;>
    rcases hcases t' ht' with ⟨hholds', hopened'⟩ | ⟨hcreates', hclosed'⟩
  · exact h.mutex.unique hholds hholds'
  · simp [hopened] at hclosed'
  · simp [hopened'] at hclosed
  · exact h.opening.one t t' hcreates hcreates'

omit [DecidableEq τ] in
theorem starts_stage (ht : (s.pc t).starts = true) :
    g.role t = .outside ∧ g.stage = 0 ∨ g.role t = .live ∧ g.stage ≤ 6 := by
  cases hpc : s.pc t with
  | createThread n => exact .inl ((fits_creates rfl).mp (h.place hpc))
  | createCount n c => exact .inl ((fits_creates rfl).mp (h.place hpc))
  | increaseThread => exact (fits_increases rfl).mp (h.place hpc)
  | increaseCount c => exact (fits_increases rfl).mp (h.place hpc)
  | _ => simp [hpc, Pc.starts] at ht

theorem spawn_of_pc (hspawns : old.Spawns child new) (hpc : s.pc t = old)
    (hunborn : s.pc child = .unborn) : Inv ((s.goto child .start).goto t new)
      { g with role := Function.update g.role child .fresh, spawning := some child } := by
  have hstarts : (s.pc t).starts = true := by rw [hpc]; cases hspawns <;> rfl
  have hplace := h.starts_stage hstarts
  have hsix : g.stage ≤ 6 := by rcases hplace with ⟨-, hs⟩ | ⟨-, hs⟩ <;> omega
  have hrole : g.role child = .unborn := fits_unborn.mp (h.place hunborn)
  have hne : t ≠ child := by
    rintro rfl
    rw [hpc] at hunborn
    subst hunborn
    cases hspawns
  have hothers : ∀ t', t' ≠ child → Function.update g.role child .fresh t' = g.role t' :=
    fun t' ht => Function.update_of_ne ht _ _
  have hfresh : Function.update g.role child .fresh child = .fresh := Function.update_self _ _ _
  have hpc' : Function.update s.pc child .start t = old := by rw [Function.update_of_ne hne, hpc]
  have hspawning : g.spawning = none := by
    cases hsome : g.spawning with
    | none => rfl
    | some c =>
      obtain ⟨u, hu⟩ := h.spawning.parent c hsome
      have hu' : (s.pc u).starts = true := by
        cases hpcu : s.pc u <;> simp_all [Pc.child, Pc.starts]
      rw [← h.starts_unique hstarts hu', hpc] at hu
      cases hspawns <;> cases hu
  have hsame : ∀ r, r ≠ .unborn → r ≠ .fresh →
      ∀ t', Function.update g.role child .fresh t' = r ↔ g.role t' = r := by
    intro r hunborn' hfresh' t'
    by_cases ht : t' = child
    · rw [ht, hfresh, hrole]
      exact ⟨fun heq => absurd heq.symm hfresh', fun heq => absurd heq.symm hunborn'⟩
    · rw [hothers t' ht]
  have hclosing : old.closing = none ∧ new.closing = none := by cases hspawns <;> exact ⟨rfl, rfl⟩
  have hduty : old.duty = none ∧ new.duty = none := by cases hspawns <;> exact ⟨rfl, rfl⟩
  constructor
  · have hnew : Fits g.stage (g.role t) new := by
      cases hspawns with
      | create => exact (fits_creates rfl).mpr ((fits_creates rfl).mp (h.place hpc))
      | increase => exact (fits_increases rfl).mpr ((fits_increases rfl).mp (h.place hpc))
    have hborn : ∀ t', Fits g.stage (Function.update g.role child .fresh t')
        (Function.update s.pc child .start t') := by
      intro t'
      by_cases ht : t' = child
      · rw [ht, hfresh, Function.update_self]
        exact (fits_routine (.inl rfl)).mpr ⟨.inl rfl, hsix⟩
      · rw [hothers t' ht, Function.update_of_ne ht]
        exact h.fits t'
    rw [← hothers t hne] at hnew
    exact fits_goto (fun t' _ => hborn t') hnew
  · exact ⟨h.counted.count, h.counted.nodup,
      fun t' => (h.counted.mem t').trans (hsame .live (by simp) (by simp) t').symm⟩
  · refine ⟨fun t' => ?_, fun c hc => ⟨t, ?_⟩, fun t' c hc => ?_⟩
    · by_cases ht : t' = child
      · simp [ht]
      · simp [hothers t' ht, h.spawning.fresh t', hspawning, Ne.symm ht]
    · cases hc
      simp only [State.goto, Function.update_self]
      cases hspawns <;> rfl
    · by_cases ht : t' = t
      · simp only [State.goto, ht, Function.update_self] at hc
        rw [← hc]
        cases hspawns <;> rfl
      · by_cases hchild : t' = child
        · simp [State.goto, hchild, Function.update_of_ne (Ne.symm hne), Pc.child] at hc
        · simp only [State.goto, Function.update_of_ne ht, Function.update_of_ne hchild] at hc
          rw [h.spawning.child t' c hc] at hspawning
          cases hspawning
  · refine (h.mutex.goto (by rw [hunborn]; rfl)).goto ?_
    rw [hpc']
    cases hspawns <;> rfl
  · have hborn : Keyed s.key (Function.update s.pc child .start)
        (Function.update g.role child .fresh) := by
      intro t'
      by_cases ht : t' = child
      · rw [ht, Function.update_self, h.keyed child, hrole]
        simp [Role.inPool]
      · rw [hothers t' ht, Function.update_of_ne ht]
        exact h.keyed t'
    refine hborn.goto (fun _ => rfl) ?_ ?_
    · cases hspawns <;> simp
    · rw [hpc']
      cases hspawns <;> simp
  · refine (h.closing.goto (fun t' => ⟨hsame .outside (by simp) (by simp) t',
      hsame .closer (by simp) (by simp) t'⟩) (by rw [hunborn]; exact Iff.rfl) Iff.rfl
      (fun _ => rfl) (by simp)).goto (fun _ => ⟨Iff.rfl, Iff.rfl⟩) ?_ Iff.rfl (fun _ => rfl) ?_
    · rw [hpc', hclosing.1, hclosing.2]
    · cases hspawns <;> simp
  · exact ⟨h.flags.last, h.flags.nonblock, h.flags.terminate, h.flags.noKey, h.flags.noMutex,
      h.flags.noQueue, h.flags.freed⟩
  · exact fun hseven => absurd hsix (Nat.not_le.mpr hseven)
  · refine (h.exits.goto (fun t' _ => hsame .gone (by simp) (by simp) t') ?_
      (by rw [hunborn]; rfl) (by simp) Iff.rfl).goto (fun _ _ => Iff.rfl) ?_ ?_ ?_ Iff.rfl
    · simp [hrole, hunborn]
    · rw [hpc']
      cases hspawns <;> simp
    · rw [hpc', hduty.1, hduty.2]
    · cases hspawns <;> simp
  · have hborn : Opening s.opened (Function.update s.pc child .start)
        (Function.update g.role child .fresh) g.live g.stage s.scheduled :=
      h.opening.goto (fun t' ht hpool => hothers t' ht ▸ hpool) (fun _ _ => rfl) (by simp [Pc.uses])
        (.inl rfl) (by simp [Pc.abandons]) h.opening.live fun _ => rfl
    have huses : new.uses = true → s.opened = true := by
      cases hspawns with
      | create => exact fun huses => by cases huses
      | increase => exact fun _ => h.opening.uses t (by rw [hpc]; rfl)
    refine hborn.goto (fun _ _ => id) (fun hclosed _ => ?_) huses ?_ ?_ h.opening.live fun _ => rfl
    · cases hspawns with
      | create => rfl
      | increase =>
        rw [huses rfl] at hclosed
        cases hclosed
    · rw [hpc']
      cases hspawns
      · exact .inr rfl
      · exact .inl rfl
    · cases hspawns <;> simp [Pc.abandons]
  · refine (h.waits_goto hunborn rfl rfl).goto (fun t' ht => ⟨ht, ?_⟩) ?_ id
    · rintro rfl
      refine h.out hpc ?_ ht
      cases hspawns <;> rfl
    · rw [hpc']
      cases hspawns <;> exact fun hs => absurd hs (by simp [Pc.signals])
  · exact h.same_tasks rfl rfl rfl rfl

theorem count_of_pc (hcounts : old.Counts child new) (hpc : s.pc t = old) :
    Inv ({ s with nthreads := s.nthreads + 1 }.goto t new)
      { g with
        role := Function.update g.role child .live
        live := child :: g.live
        spawning := none } := by
  have hstarts : (s.pc t).starts = true := by rw [hpc]; cases hcounts <;> rfl
  have hplace := h.starts_stage hstarts
  have hsix : g.stage ≤ 6 := by rcases hplace with ⟨-, hs⟩ | ⟨-, hs⟩ <;> omega
  have hspawning : g.spawning = some child := by
    refine h.spawning.child t child ?_
    rw [hpc]
    cases hcounts <;> rfl
  have hfresh : g.role child = .fresh := (h.spawning.fresh child).mpr hspawning
  have hne : t ≠ child := by
    rintro rfl
    rcases hplace with ⟨hrole, -⟩ | ⟨hrole, -⟩ <;> simp [hrole] at hfresh
  have hothers : ∀ t', t' ≠ child → Function.update g.role child .live t' = g.role t' :=
    fun t' ht => Function.update_of_ne ht _ _
  have hlive : Function.update g.role child .live child = .live := Function.update_self _ _ _
  have hsame : ∀ r, r ≠ .fresh → r ≠ .live →
      ∀ t', Function.update g.role child .live t' = r ↔ g.role t' = r := by
    intro r hfresh' hlive' t'
    by_cases ht : t' = child
    · rw [ht, hlive, hfresh]
      exact ⟨fun heq => absurd heq.symm hlive', fun heq => absurd heq.symm hfresh'⟩
    · rw [hothers t' ht]
  have hpool : ∀ t', (Function.update g.role child .live t').inPool = (g.role t').inPool := by
    intro t'
    by_cases ht : t' = child
    · rw [ht, hlive, hfresh]
      rfl
    · rw [hothers t' ht]
  have hnone : new.child = none ∧ old.duty = none ∧ new.duty = none ∧ old.closing = none ∧
      new.closing = none ∧ old.holds = new.holds ∧ old ≠ .start ∧ new ≠ .start ∧
      old.waits = false ∧ old.signals = false := by
    cases hcounts <;> simp [Pc.child, Pc.duty, Pc.closing, Pc.holds, Pc.waits, Pc.signals]
  obtain ⟨hchild', hduty, hduty', hclosing, hclosing', hholds, hstart, hstart', hwaits, hsignals⟩ :=
    hnone
  constructor
  · have hnew : Fits g.stage (g.role t) new := by
      cases hcounts with
      | create => exact (fits_creates rfl).mpr ((fits_creates rfl).mp (h.place hpc))
      | increase => exact (fits_increases rfl).mpr ((fits_increases rfl).mp (h.place hpc))
    have hfits : ∀ t', Fits g.stage (Function.update g.role child .live t') (s.pc t') := by
      intro t'
      by_cases ht : t' = child
      · have hold := h.fits child
        rw [hfresh] at hold
        rw [ht, hlive]
        exact hold.count
      · rw [hothers t' ht]
        exact h.fits t'
    rw [← hothers t hne] at hnew
    exact fits_goto (fun t' _ => hfits t') hnew
  · have hout : child ∉ g.live := by
      intro hmem
      rw [(h.counted.mem child).mp hmem] at hfresh
      cases hfresh
    refine ⟨congrArg (· + 1) h.counted.count, List.nodup_cons.mpr ⟨hout, h.counted.nodup⟩,
      fun t' => ?_⟩
    by_cases ht : t' = child
    · simp [ht]
    · simp [ht, h.counted.mem t']
  · refine ⟨fun t' => ?_, fun c hc => (by cases hc), fun t' c hc => ?_⟩
    · by_cases ht : t' = child
      · simp [ht]
      · simp [ht, h.spawning.fresh t', hspawning, Ne.symm ht]
    · by_cases ht : t' = t
      · simp [State.goto, ht, hchild'] at hc
      · simp only [State.goto, Function.update_of_ne ht] at hc
        have hstarts' : (s.pc t').starts = true := by
          cases hpc' : s.pc t' <;> simp_all [Pc.child, Pc.starts]
        exact absurd (h.starts_unique hstarts' hstarts) ht
  · exact h.mutex.goto (hpc ▸ hholds.symm)
  · exact h.keyed.goto hpool hstart' (hpc ▸ hstart)
  · exact h.closing.goto (fun t' => ⟨hsame .outside (by simp) (by simp) t',
      hsame .closer (by simp) (by simp) t'⟩) (by rw [hpc, hclosing, hclosing']) Iff.rfl
      (fun _ => rfl) fun hnew => absurd (hnew ▸ hclosing') (by simp [Pc.closing])
  · exact ⟨h.flags.last, h.flags.nonblock, h.flags.terminate, h.flags.noKey, h.flags.noMutex,
      h.flags.noQueue, h.flags.freed⟩
  · exact fun hseven => absurd hsix (Nat.not_le.mpr hseven)
  · refine h.exits.goto (fun t' _ => hsame .gone (by simp) (by simp) t') ?_
      (by rw [hpc, hduty, hduty']) ?_ Iff.rfl
    · rw [hsame .gone (by simp) (by simp) t, hpc]
      cases hcounts <;> simp
    · cases hcounts <;> simp
  · refine h.opening.goto (fun t' _ => ?_) (fun hopened _ => ?_) (fun huses => ?_) ?_ ?_
      (fun _ _ => List.cons_ne_nil child g.live) fun _ => rfl
    · exact fun hin => (hpool t').symm.trans hin
    · cases hcounts with
      | create => rfl
      | increase =>
        have huses := h.opening.uses t (by rw [hpc]; rfl)
        simp [hopened] at huses
    · cases hcounts with
      | create => cases huses
      | increase => exact h.opening.uses t (by rw [hpc]; rfl)
    · rw [hpc]
      cases hcounts
      · exact .inr rfl
      · exact .inl rfl
    · cases hcounts <;> simp [Pc.abandons]
  · exact h.waits.goto (fun t' ht => ⟨ht, fun heq => h.out hpc hwaits (heq ▸ ht)⟩)
      (fun hs => absurd (hsignals.symm.trans (hpc ▸ hs)) Bool.noConfusion)
      fun hzero => absurd hzero (Nat.succ_ne_zero s.nthreads)
  · exact h.same_tasks rfl rfl rfl rfl

end Inv

/-- Past the last task, with the mutex or after it. -/
def Pc.leaves : Pc τ ε → Bool
  | exitTid | exitCount _ | exitSignal _ | exitUnlock _ | exitJoin _ | ended => true
  | _ => false

omit [DecidableEq τ] in
theorem Pc.facts_of_leaves (h : pc.leaves = true) : pc.child = none ∧ pc ≠ .start ∧
    pc.closing = none ∧ pc.creates = none ∧ pc.tasked = false ∧ pc.uses = false := by
  cases pc <;> first
    | exact absurd h Bool.false_ne_true
    | simp [Pc.child, Pc.closing, Pc.creates, Pc.tasked, Pc.uses]

/-- All that a thread that ends does not change. -/
structure SameEnd (s s' : State τ ε) : Prop where
  queue : s'.queue = s.queue
  terminate : s'.terminate = s.terminate
  key : s'.key = s.key
  detached : s'.detached = s.detached
  gone : s'.noKey = s.noKey ∧ s'.noMutex = s.noMutex ∧ s'.noQueue = s.noQueue ∧ s'.freed = s.freed
  tasks : s'.scheduled = s.scheduled ∧ s'.started = s.started ∧ s'.drained = s.drained
  opened : s'.opened = s.opened
  closer : s'.closer = s.closer

namespace Inv

variable (h : Inv s g)
include h

/-- A step of a thread that ends, as which it may be counted no more. -/
theorem leave (role' : τ → Role) (live chain : List τ) (hpc : s.pc t = old)
    (hpc' : s'.pc = Function.update s.pc t new) (hold : old.leaves = true)
    (hnew : new.leaves = true) (hsame : SameEnd s s') (hfour : 4 ≤ g.stage)
    (hothers : ∀ t', t' ≠ t → role' t' = g.role t')
    (hrole : g.role t = .live ∨ g.role t = .gone) (hrole' : role' t = .live ∨ role' t = .gone)
    (hfits : Fits g.stage (role' t) new) (hcounted : Counted s'.nthreads live role')
    (hempty : 7 ≤ g.stage → live = [])
    (hmutex : Pthread.Owned Pc.holds (Function.update s.pc t new) s'.mutex)
    (hexits : Exits s'.tid chain (Function.update s.pc t new) role' s'.joined g.stage)
    (hwaits : Waits s'.term (Function.update s.pc t new) s'.nthreads) :
    Inv s' { g with role := role', live := live, chain := chain } := by
  obtain ⟨hchild, hstart, hclosing, hcreates, htasked, huses⟩ := Pc.facts_of_leaves hold
  obtain ⟨hchild', hstart', hclosing', hcreates', htasked', huses'⟩ := Pc.facts_of_leaves hnew
  have hiff : ∀ r, r ≠ .live → r ≠ .gone → ∀ t', role' t' = r ↔ g.role t' = r := by
    intro r hlive hgone t'
    by_cases ht : t' = t
    · rw [ht]
      rcases hrole with hrole | hrole <;> rcases hrole' with hrole' | hrole' <;>
        simp [hrole, hrole', Ne.symm hlive, Ne.symm hgone]
    · rw [hothers t' ht]
  have hpool : ∀ t', (role' t').inPool = (g.role t').inPool := by
    intro t'
    by_cases ht : t' = t
    · rw [ht]
      rcases hrole with hrole | hrole <;> rcases hrole' with hrole' | hrole' <;>
        rw [hrole, hrole'] <;> rfl
    · rw [hothers t' ht]
  have hfits' : ∀ t', t' ≠ t → Fits g.stage (role' t') (s.pc t') := by
    intro t' ht
    rw [hothers t' ht]
    exact h.fits t'
  constructor
  · rw [hpc']
    exact fits_goto hfits' hfits
  · exact hcounted
  · rw [hpc']
    exact h.spawning.goto (hiff .fresh (by simp) (by simp)) (hpc ▸ hchild) hchild'
  · rwa [hpc']
  · rw [hpc', hsame.key]
    exact h.keyed.goto hpool hstart' (hpc ▸ hstart)
  · rw [hpc', hsame.closer, hsame.detached]
    exact h.closing.goto (fun t' => ⟨hiff .outside (by simp) (by simp) t',
      hiff .closer (by simp) (by simp) t'⟩) (by rw [hpc, hclosing, hclosing']) Iff.rfl
      (fun _ => rfl) fun hnew => absurd (hnew ▸ hclosing') (by simp [Pc.closing])
  · obtain ⟨hnoKey, hnoMutex, hnoQueue, hfreed⟩ := hsame.gone
    exact ⟨h.flags.last, hsame.queue ▸ h.flags.nonblock, hsame.terminate ▸ h.flags.terminate,
      hnoKey ▸ h.flags.noKey, hnoMutex ▸ h.flags.noMutex, hnoQueue ▸ h.flags.noQueue,
      hfreed ▸ h.flags.freed⟩
  · exact fun hseven => ⟨hempty hseven, (h.empty hseven).2⟩
  · rwa [hpc']
  · rw [hpc', hsame.opened, hsame.tasks.1]
    exact h.opening.goto (fun t' _ hin => (hpool t').symm.trans hin) (fun _ _ => htasked')
      (fun hs => absurd (huses'.symm.trans hs) Bool.noConfusion) (.inl hcreates')
      (fun hs => absurd hclosing' (Pc.closing_of_abandons hs))
      (fun _ (hs : g.stage = 0) => absurd hs (by omega)) fun _ => rfl
  · rwa [hpc']
  · exact h.same_tasks hsame.tasks.1 hsame.tasks.2.1 hsame.tasks.2.2 (congrArg _ hsame.queue)

/-- Whether the thread is the last to put itself into `tid` is decided with the mutex. -/
theorem exitTid (hpc : s.pc t = .exitTid) :
    Inv ({ s with tid := some t, exits := s.exits ++ [t] }.goto t (.exitCount s.tid))
      { g with chain := t :: g.chain } := by
  obtain ⟨hrole, hfour, hsix⟩ := (fits_leaving (.inl rfl)).mp (h.place hpc)
  have hout : t ∉ g.chain := by
    intro hmem
    rcases (h.exits.mem t).mp hmem with hgone | ⟨tid, hcount⟩
    · simp [hrole] at hgone
    · simp [hpc] at hcount
  have hjoined : t ∉ s.joined := fun hmem => hout (h.exits.settled t hmem).1
  refine h.leave g.role g.live (t :: g.chain) hpc rfl rfl rfl
    ⟨rfl, rfl, rfl, rfl, ⟨rfl, rfl, rfl, rfl⟩, ⟨rfl, rfl, rfl⟩, rfl, rfl⟩ hfour (fun _ _ => rfl)
    (.inl hrole) (.inl hrole) ((fits_leaving (.inr ⟨_, rfl⟩)).mpr ⟨hrole, hfour, hsix⟩) h.counted
    (fun hseven => (h.empty hseven).1) (h.mutex.goto (by rw [hpc]; rfl)) ?_
    (h.waits_goto hpc rfl rfl)
  have hsame : ∀ t', t' ∈ g.chain → Function.update s.pc t (.exitCount s.tid) t' = s.pc t' := by
    intro t' ht
    refine Function.update_of_ne ?_ _ _
    rintro rfl
    exact hout ht
  refine ⟨rfl, h.exits.chained.begin (fun t' ht => by rw [hsame t' ht]) ?_ fun b hb hmem => ?_,
    List.nodup_cons.mpr ⟨hout, h.exits.nodup⟩, fun t' => ?_, h.exits.joinedNodup, fun t' ht => ?_,
    fun t' ht hmem => ?_, fun hnine => absurd hsix (by omega), fun t' closer tid hjoin => ?_⟩
  · simp [Pc.duty, h.exits.tid]
  · exact absurd (h.exits.head b hb hmem) (by omega)
  · by_cases ht : t' = t
    · simp [ht]
    · simp [ht, h.exits.mem t']
  · obtain ⟨hmem, hsettled⟩ := h.exits.settled t' ht
    exact ⟨List.mem_cons_of_mem t hmem, by rw [hsame t' hmem]; exact hsettled⟩
  · cases ht
    exact absurd hmem hjoined
  · by_cases ht : t' = t
    · simp [ht] at hjoin
    · rw [Function.update_of_ne ht] at hjoin
      have hplace := (fits_closing rfl).mp (h.place hjoin)
      exact absurd hplace.1 (by omega)

omit [DecidableEq τ] in
theorem nthreads_ne_zero (hrole : g.role t = .live) : s.nthreads ≠ 0 := by
  have hmem := (h.counted.mem t).mpr hrole
  rw [h.counted.count]
  exact Nat.ne_of_gt (List.length_pos_of_mem hmem)

/-- A thread is no more counted. -/
theorem uncount (r : Role) (hr : r ≠ .live) (hrole : g.role t = .live) :
    Counted (s.nthreads - 1) (g.live.erase t) (Function.update g.role t r) := by
  have hmem := (h.counted.mem t).mpr hrole
  refine ⟨?_, h.counted.nodup.erase t, fun t' => ?_⟩
  · rw [h.counted.count, List.length_erase_of_mem hmem]
  · rw [h.counted.nodup.mem_erase_iff]
    by_cases ht : t' = t
    · simp [ht, hr]
    · simp [ht, h.counted.mem t']

theorem exitCount (hpc : s.pc t = .exitCount tid) :
    Inv ({ s with nthreads := s.nthreads - 1 }.goto t
      (if s.nthreads - 1 = 0 then .exitSignal tid else .exitUnlock tid))
      { g with role := Function.update g.role t .gone, live := g.live.erase t } := by
  obtain ⟨hrole, hfour, hsix⟩ := (fits_leaving (.inr ⟨_, rfl⟩)).mp (h.place hpc)
  generalize hnew : (if s.nthreads - 1 = 0 then .exitSignal tid else .exitUnlock tid : Pc τ ε) = new
  have hleft : new = .exitSignal tid ∨ new = .exitUnlock tid := by
    rw [← hnew]
    split
    · exact .inl rfl
    · exact .inr rfl
  have hself : Function.update g.role t .gone t = .gone := Function.update_self _ _ _
  have hothers : ∀ t', t' ≠ t → Function.update g.role t .gone t' = g.role t' :=
    fun t' ht => Function.update_of_ne ht _ _
  refine h.leave _ _ g.chain hpc rfl rfl (by rcases hleft with rfl | rfl <;> rfl)
    ⟨rfl, rfl, rfl, rfl, ⟨rfl, rfl, rfl, rfl⟩, ⟨rfl, rfl, rfl⟩, rfl, rfl⟩ hfour hothers
    (.inl hrole) (.inr hself) ?_ (h.uncount .gone (by simp) hrole)
    (fun hseven => absurd hsix (by omega)) (h.mutex.goto ?_) (h.exits.goto ?_ ?_ ?_ ?_ Iff.rfl)
    ⟨fun t' ht' => ?_, fun _ (hzero : s.nthreads - 1 = 0) => ?_⟩
  · rw [hself]
    exact (fits_left ⟨tid, hleft⟩).mpr ⟨rfl, hfour, hsix⟩
  · rw [hpc]
    rcases hleft with rfl | rfl <;> rfl
  · exact fun t' ht => by rw [hothers t' ht]
  · simp [hpc]
  · rw [hpc]
    rcases hleft with rfl | rfl <;> rfl
  · rcases hleft with rfl | rfl <;> simp
  · have hne : t' ≠ t := by
      rintro rfl
      exact h.out hpc rfl ht'
    rw [Function.update_of_ne hne]
    exact h.waits.waits t' ht'
  · refine ⟨t, ?_⟩
    rw [Function.update_self, ← hnew, if_pos hzero]
    rfl

/-- Only who ends the pool can wait at `term`. -/
theorem exitSignal (hpc : s.pc t = .exitSignal tid) {term : List τ}
    (hsignal : Pthread.signal s.term woken = some term) :
    Inv ({ s with term := term }.goto t (.exitUnlock tid)) g := by
  obtain ⟨hrole, hfour, hsix⟩ := (fits_left ⟨tid, .inl rfl⟩).mp (h.place hpc)
  obtain ⟨u, -, hcloser, -⟩ := h.closer_at (by omega) (by omega)
  have hnil : term = [] := by
    refine Pthread.signal_eq_nil hsignal (t := u) fun t' ht' => ?_
    have hwaits := h.waits.waits t' ht'
    have hclosing : (s.pc t').closing ≠ none := by
      cases hpc' : s.pc t' <;> simp_all [Pc.waits, Pc.closing]
    exact Option.some_inj.mp ((h.closing.one t' hclosing).symm.trans hcloser)
  refine h.leave g.role g.live g.chain hpc rfl rfl rfl
    ⟨rfl, rfl, rfl, rfl, ⟨rfl, rfl, rfl, rfl⟩, ⟨rfl, rfl, rfl⟩, rfl, rfl⟩ hfour (fun _ _ => rfl)
    (.inr hrole) (.inr hrole) ((fits_left ⟨tid, .inr rfl⟩).mpr ⟨hrole, hfour, hsix⟩) h.counted
    (fun hseven => (h.empty hseven).1) (h.mutex.goto (by rw [hpc]; rfl))
    (h.exits.goto (fun _ _ => Iff.rfl) (by simp [hpc]) (by rw [hpc]; rfl) (by simp) Iff.rfl) ?_
  rw [hnil]
  exact ⟨fun t' ht' => absurd ht' List.not_mem_nil, fun hsome => absurd rfl hsome⟩

theorem exitUnlock (hpc : s.pc t = .exitUnlock tid)
    (hrun : s.unlock t (tid.elim .ended .exitJoin) = some s') : Inv s' g := by
  obtain ⟨hrole, hfour, hsix⟩ := (fits_left ⟨tid, .inr rfl⟩).mp (h.place hpc)
  obtain ⟨owner, hunlock, hrun⟩ := Option.bind_eq_some_iff.mp hrun
  cases hrun
  generalize hnew : (tid.elim .ended .exitJoin : Pc τ ε) = new
  have hfacts : new.leaves = true ∧ new.holds = false ∧ (∀ tid, new ≠ .exitCount tid) ∧
      (∀ closer tid, new ≠ .terminateJoin closer tid) ∧ Fits g.stage .gone new := by
    cases tid with
    | none => subst hnew; exact ⟨rfl, rfl, by simp, by simp, fits_ended.mpr (.inl ⟨rfl, hfour⟩)⟩
    | some b => subst hnew; exact ⟨rfl, rfl, by simp, by simp, fits_exitJoin.mpr ⟨rfl, hfour⟩⟩
  obtain ⟨hleaves, hholds, hcount, hjoin, hfits⟩ := hfacts
  refine h.leave g.role g.live g.chain hpc rfl rfl hleaves
    ⟨rfl, rfl, rfl, rfl, ⟨rfl, rfl, rfl, rfl⟩, ⟨rfl, rfl, rfl⟩, rfl, rfl⟩ hfour (fun _ _ => rfl)
    (.inr hrole) (.inr hrole) (hrole.symm ▸ hfits) h.counted (fun hseven => (h.empty hseven).1)
    (h.mutex.unlock hunlock hholds) ?_ (h.waits_goto hpc rfl rfl)
  cases tid with
  | some b =>
    subst hnew
    exact h.exits.goto (fun _ _ => Iff.rfl) (by simp [hpc]) (by rw [hpc]; rfl)
      (fun closer tid hnew => absurd hnew (hjoin closer tid)) Iff.rfl
  | none =>
    subst hnew
    have hout : t ∉ s.joined := by
      intro hmem
      have hsettled := (h.exits.settled t hmem).2
      rw [hpc] at hsettled
      cases hsettled
    refine ⟨h.exits.tid, h.exits.chained.finish (fun a ha => by rw [Function.update_of_ne ha])
      (by rw [hpc]; rfl) (by rw [Function.update_self]; rfl), h.exits.nodup, fun t' => ?_,
      h.exits.joinedNodup, fun t' ht => ?_, h.exits.head, h.exits.reaped,
      fun t' closer tid hjoin' => ?_⟩
    · by_cases ht : t' = t
      · simp [ht, h.exits.mem t, hpc]
      · simp [ht, h.exits.mem t']
    · have hne : t' ≠ t := by
        rintro rfl
        exact hout ht
      rw [Function.update_of_ne hne]
      exact h.exits.settled t' ht
    · by_cases ht : t' = t
      · simp [ht] at hjoin'
      · rw [Function.update_of_ne ht] at hjoin'
        exact h.exits.joining t' closer tid hjoin'

theorem exitJoin (hpc : s.pc t = .exitJoin b) (hrun : s.join t b .ended = some s') : Inv s' g := by
  obtain ⟨hrole, hfour⟩ := fits_exitJoin.mp (h.place hpc)
  obtain ⟨hended, rfl⟩ := join_eq_some hrun
  have hmem : t ∈ g.chain := (h.exits.mem t).mpr (.inl hrole)
  have hduty : (s.pc t).duty = some (.owes (some b)) := by rw [hpc]; rfl
  obtain ⟨htail, hjoined⟩ := h.exits.chained.owed hmem hduty
  have hne : b ≠ t := by
    rintro rfl
    simp [hpc] at hended
  have hout : t ∉ s.joined := by
    intro hin
    have hsettled := (h.exits.settled t hin).2
    rw [hpc] at hsettled
    cases hsettled
  have hbchain := List.mem_of_mem_tail htail
  refine h.leave g.role g.live g.chain hpc rfl rfl rfl
    ⟨rfl, rfl, rfl, rfl, ⟨rfl, rfl, rfl, rfl⟩, ⟨rfl, rfl, rfl⟩, rfl, rfl⟩ hfour (fun _ _ => rfl)
    (.inr hrole) (.inr hrole) (fits_ended.mpr (.inl ⟨hrole, hfour⟩)) h.counted
    (fun hseven => (h.empty hseven).1) (h.mutex.goto (by rw [hpc]; rfl)) ?_
    (h.waits_goto hpc rfl rfl)
  rw [joined_join]
  refine ⟨h.exits.tid, h.exits.chained.join h.exits.nodup hmem
    (fun a ha => by rw [Function.update_of_ne ha]) hduty (by rw [Function.update_self]; rfl),
    h.exits.nodup, fun t' => ?_, ?_, fun t' ht => ?_, fun t' ht hin => ?_, fun hnine t' ht => ?_,
    fun t' closer tid hjoin => ?_⟩
  · by_cases ht : t' = t
    · simp [ht, h.exits.mem t, hpc]
    · simp [ht, h.exits.mem t']
  · exact List.nodup_append.mpr ⟨h.exits.joinedNodup, List.nodup_singleton b, by
      rintro a ha c hc rfl
      exact hjoined (List.mem_singleton.mp hc ▸ ha)⟩
  · rcases List.mem_append.mp ht with hold | hlast
    · have hne' : t' ≠ t := by
        rintro rfl
        exact hout hold
      rw [Function.update_of_ne hne']
      exact h.exits.settled t' hold
    · rw [List.mem_singleton.mp hlast, Function.update_of_ne hne, hended]
      exact ⟨hbchain, rfl⟩
  · rcases List.mem_append.mp hin with hin | hin
    · exact h.exits.head t' ht hin
    · -- The first of the chain is not among those behind it.
      rw [List.mem_singleton.mp hin] at ht
      have hnodup := h.exits.nodup
      cases hchain : g.chain with
      | nil => simp [hchain] at ht
      | cons a l =>
        rw [hchain] at hnodup ht htail
        cases ht
        exact absurd htail (List.nodup_cons.mp hnodup).1
  · exact List.mem_append_left _ (h.exits.reaped hnine t' ht)
  · by_cases ht : t' = t
    · simp [ht] at hjoin
    · rw [Function.update_of_ne ht] at hjoin
      exact h.exits.joining t' closer tid hjoin

end Inv

end Hplsp.Thrdpool
