import Hplsp.ThrdpoolThreads

/-! The invariant along the steps of who ends the pool. -/

namespace Hplsp.Thrdpool

variable {τ ε : Type} [DecidableEq τ] {s s' : State τ ε} {g : Ghost τ} {t t' tid : τ}
  {old new pc : Pc τ ε} {entry : ε} {queue : List ε} {n stage : Nat} {closer : Closer}
  {inPool : Bool}

/-- How far the end of the pool has come when `__thrdpool_terminate` returns. -/
def Closer.reached : Closer → Nat
  | creator => 10
  | destroyer _ => 9

namespace Inv

variable (h : Inv s g)
include h

/-- Nobody else is in a call: `__thrdpool_terminate` is called. -/
theorem close (hpc : s.pc t = old) (hzero : s.closer = none)
    (hold : old.child = none ∧ old.holds = false ∧ old.closing = none ∧ old ≠ .start ∧
      old.waits = false ∧ old.signals = false ∧ old.duty = none)
    (hopened : s.opened = true ∨ g.role t = .outside)
    (hrole : g.role t = .outside ∧ closer.inPool = false ∨
      (g.role t = .fresh ∨ g.role t = .live) ∧ closer.inPool = true)
    (hcreator : closer = .creator → s.opened = false)
    (hothers : ∀ t', t' ≠ t → g.role t' = .outside →
      (s.pc t').uses = false ∧ (s.pc t').creates = none) :
    Inv ({ s with closer := some t }.goto t (.terminateLock closer)) { g with stage := 1 } := by
  obtain ⟨hchild, hholds, hclosing, hstart, hwaits, hsignals, hduty⟩ := hold
  have hstage : g.stage = 0 := h.closing.zero.mpr hzero
  have hnone : ∀ t', (s.pc t').closing = none ∧ g.role t' ≠ .closer := by
    intro t'
    refine ⟨?_, fun hcloser => ?_⟩
    · by_contra hsome
      rw [h.closing.one t' hsome] at hzero
      cases hzero
    · rw [h.closing.role t' hcloser] at hzero
      cases hzero
  have hcount : ∀ tid, old ≠ .exitCount tid := by
    rintro tid rfl
    cases hduty
  have hnew : Fits 1 (g.role t) (.terminateLock closer : Pc τ ε) := by
    refine (fits_closing rfl).mpr ⟨rfl, ?_⟩
    rcases hrole with hout | ⟨hfresh | hlive, hin⟩
    · exact .inl hout
    · exact .inr ⟨hin, .inl ⟨hfresh, rfl⟩⟩
    · exact .inr ⟨hin, .inr (.inl ⟨hlive, by decide⟩)⟩
  constructor
  · refine fits_goto (fun t' ht => ?_) hnew
    exact (h.fits t').mono (hstage ▸ Nat.zero_le 1) (hnone t').1 (hnone t').2
      (fun _ => hothers t' ht)
        fun (hlt : 6 < 1) => absurd hlt (by decide)
  · exact h.counted
  · exact h.spawning.goto (fun _ => Iff.rfl) (hpc ▸ hchild) rfl
  · exact h.mutex.goto (hpc ▸ hholds.symm)
  · exact h.keyed.goto (fun _ => rfl) (by simp) (hpc ▸ hstart)
  · refine ⟨fun t' ht' => ?_, fun t' ht' => ?_, fun t' ht' => ?_,
      fun t' ht' => absurd ht' (hnone t').2, by simp [State.goto], fun t' ht' => ?_⟩
    · by_cases ht : t' = t
      · rw [ht]
        rfl
      · simp only [State.goto, Function.update_of_ne ht] at ht'
        exact absurd (hnone t').1 ht'
    · obtain rfl := Option.some_inj.mp ht'
      exact .inl (by simp [State.goto, Pc.closing])
    · by_cases ht : t' = t
      · simp [State.goto, ht, (hnone t).2] at ht'
      · simp only [State.goto, Function.update_of_ne ht] at ht'
        exact h.closing.left t' ht'
    · have hcloser := h.closing.detached t' ht'
      rw [hzero] at hcloser
      cases hcloser
  · have hflags := h.flags
    rw [hstage] at hflags
    exact ⟨Nat.le_of_ble_eq_true rfl, hflags.nonblock, hflags.terminate, hflags.noKey,
      hflags.noMutex, hflags.noQueue, hflags.freed⟩
  · exact fun (hseven : 7 ≤ 1) => absurd hseven (by decide)
  · refine h.exits.goto (fun _ _ => Iff.rfl) (by simp [hpc, hcount]) (by rw [hpc, hduty]; rfl)
      (by simp) ?_
    show 9 ≤ 1 ↔ 9 ≤ g.stage
    simp [hstage]
  · refine h.opening.goto (fun _ _ => id) (fun hclosed hpool => ?_) (by simp [Pc.uses]) (.inl rfl)
      (fun habandons => hcreator ?_) (by simp) fun _ => rfl
    · rcases hopened with hopened | hout
      · rw [hopened] at hclosed
        cases hclosed
      · rw [hout] at hpool
        cases hpool
    · cases closer with
      | creator => rfl
      | destroyer => cases habandons
  · exact h.waits_goto hpc hwaits hsignals
  · exact ⟨h.tasks.order, fun hsome => absurd (h.tasks.drained hsome) (by omega),
      fun (hten : 10 ≤ 1) => absurd hten (by decide)⟩

theorem createFail (hpc : s.pc t = .createEnd n) :
    Inv ({ s with closer := some t }.goto t (.terminateLock .creator)) { g with stage := 1 } := by
  obtain ⟨hrole, hstage⟩ := (fits_creates rfl).mp (h.place hpc)
  have hcreates : (s.pc t).creates = some n := by rw [hpc]; rfl
  have hclosed := (h.opening.creates t n hcreates).2
  refine h.close hpc (h.closing.zero.mp hstage)
    ⟨rfl, rfl, rfl, by simp, rfl, rfl, rfl⟩ (.inr hrole) (.inl ⟨hrole, rfl⟩)
    (fun _ => hclosed) fun t' ht _ => ⟨?_, ?_⟩
  · cases huses : (s.pc t').uses with
    | false => rfl
    | true =>
      rw [h.opening.uses t' huses] at hclosed
      cases hclosed
  · by_contra hsome
    exact ht (h.opening.one t' t hsome (by rw [hcreates]; exact Option.some_ne_none n))

theorem callDestroy (hpc : s.pc t = .client) (hopened : s.opened = true) (hcloser : s.closer = none)
    (hothers : ∀ t', s.key t' = false → (s.pc t').uses = false) :
    Inv ({ s with closer := some t }.goto t (.terminateLock (.destroyer (s.key t))))
      { g with stage := 1 } := by
  have hstage := h.closing.zero.mpr hcloser
  refine h.close hpc hcloser ⟨rfl, rfl, rfl, by simp, rfl, rfl, rfl⟩ (.inl hopened) ?_ (by simp)
    fun t' _ hrole => ⟨hothers t' ?_, ?_⟩
  · rcases fits_client.mp (h.place hpc) with hrole | ⟨hrole, -⟩ | ⟨-, hlast⟩
    · refine .inl ⟨hrole, Bool.eq_false_iff.mpr fun hkey => ?_⟩
      have hpool := ((h.keyed t).mp hkey).1
      rw [hrole] at hpool
      cases hpool
    · refine .inr ⟨hrole, (h.keyed t).mpr ⟨?_, by simp [hpc]⟩⟩
      rcases hrole with hrole | hrole <;> rw [hrole] <;> rfl
    · omega
  · refine Bool.eq_false_iff.mpr fun hkey => ?_
    have hpool := ((h.keyed t').mp hkey).1
    rw [hrole] at hpool
    cases hpool
  · by_contra hsome
    obtain ⟨n, hn⟩ := Option.ne_none_iff_exists'.mp hsome
    rw [(h.opening.creates t' n hn).2] at hopened
    cases hopened

omit [DecidableEq τ] in
theorem stage_of (hpc : s.pc t = old) (hclosing : old.closing = some (inPool, stage)) :
    g.stage = stage := ((fits_closing hclosing).mp (h.place hpc)).1

/-- A step of who ends the pool that is not about the threads that it has still to join. -/
theorem proceed (stage : Nat) (hpc : s.pc t = old) (hold : old.closing = some (inPool, n))
    (hpc' : s'.pc = Function.update s.pc t new) (hnew : new.closing = some (inPool, stage))
    (hsame : SameThreads s s') (htid : s'.tid = s.tid) (hjoined : s'.joined = s.joined)
    (hle : n ≤ stage) (hfresh : g.role t ≠ .fresh) (hsix : 6 ≤ stage → inPool = true → 6 ≤ n)
    (hwaits : old.waits = false)
    (hjoin : ∀ closer tid, new = .terminateJoin closer tid → g.chain.head? = some tid)
    (habandons : new.abandons = true → old.abandons = true)
    (hmutex : Pthread.Owned Pc.holds (Function.update s.pc t new) s'.mutex)
    (hdetached : s'.detached = s.detached ∧ new ≠ .terminateCount ∨
      s'.detached = Function.update s.detached t true) (hflags : Flags s' stage)
    (hempty : 7 ≤ stage → g.live = [] ∧ g.spawning = none)
    (hheld : 6 < stage → n ≤ 6 → ∀ t', t' ≠ t → (s.pc t').holds = false)
    (hnine : 9 ≤ stage ↔ 9 ≤ n) (htasks : Tasks s' stage) : Inv s' { g with stage := stage } := by
  have hstage := h.stage_of hpc hold
  have hold' : old.closing ≠ none := by simp [hold]
  have hnew' : new.closing ≠ none := by simp [hnew]
  have hduty : ∀ {pc : Pc τ ε}, pc.closing ≠ none →
      pc.duty = none ∧ ∀ tid, pc ≠ .exitCount tid := by
    intro pc hclosing
    cases pc <;> first | exact ⟨rfl, by simp⟩ | exact absurd rfl hclosing
  refine h.advance stage hpc hold' hpc' hsame (hstage ▸ hle) ((fits_closing hnew).mpr ⟨rfl, ?_⟩)
    hnew' hwaits ⟨(hduty hold').1, (hduty hnew').1⟩ habandons hmutex hdetached hflags hempty
    (fun hlt hle => hheld hlt (hstage ▸ hle)) ?_ htasks
  · rcases ((fits_closing hold).mp (h.place hpc)).2 with hout | ⟨hin, hrole | ⟨hlive, hfive⟩ |
      ⟨hcloser, hn⟩⟩
    · exact .inl hout
    · exact absurd hrole.1 hfresh
    · refine .inr ⟨hin, .inr (.inl ⟨hlive, ?_⟩)⟩
      by_contra hlt
      have := hsix (by omega) hin
      omega
    · exact .inr ⟨hin, .inr (.inr ⟨hcloser, by omega⟩)⟩
  · rw [htid, hjoined]
    refine h.exits.goto (fun _ _ => Iff.rfl) ?_ ?_ hjoin (by rw [hstage]; exact hnine)
    · simp [hpc, (hduty hold').2, (hduty hnew').2]
    · rw [hpc, (hduty hold').1, (hduty hnew').1]

omit [DecidableEq τ] in
theorem not_fresh_at (hpc : s.pc t = old) (hclosing : old.closing = some (inPool, n)) (hn : n ≠ 1) :
    g.role t ≠ .fresh := by
  intro hfresh
  have hplace := ((fits_closing hclosing).mp (h.place hpc)).2
  simp [hfresh, hn] at hplace

omit [DecidableEq τ] in
theorem tasks_mono (stage : Nat) (hle : g.stage ≤ stage) (hten : 10 ≤ stage → s.queue.queue = []) :
    Tasks s stage :=
  ⟨h.tasks.order, fun hsome => Nat.le_trans (h.tasks.drained hsome) hle, hten⟩

omit [DecidableEq τ] in
theorem term_nil (hstage : g.stage ≠ 6) : s.term = [] := by
  by_contra hsome
  obtain ⟨t', ht'⟩ := List.exists_mem_of_ne_nil _ hsome
  have hwaits := h.waits.waits t' ht'
  cases hpc : s.pc t' with
  | terminateWait closer => exact hstage (h.stage_of hpc rfl)
  | _ => simp [hpc, Pc.waits] at hwaits

theorem terminateLock (hpc : s.pc t = .terminateLock closer)
    (hrun : s.lock t (.terminateNonblock closer) = some s') : Inv s' { g with stage := 2 } := by
  have hstage : g.stage = 1 := h.stage_of hpc rfl
  have hfresh := h.not_fresh (t := t) (lock_free hrun) (.inr (by omega))
  have hflags : Flags s 1 := hstage ▸ h.flags
  have htasks := h.tasks_mono 2 (by omega) (by omega)
  obtain ⟨owner, hlock, hrun⟩ := Option.bind_eq_some_iff.mp hrun
  cases hrun
  exact h.proceed 2 hpc rfl rfl rfl ⟨rfl, rfl, rfl, rfl, rfl, rfl⟩ rfl rfl (by omega) hfresh
    (by omega) rfl (by simp) id (h.mutex.lock hlock rfl) (.inl ⟨rfl, by simp⟩)
    ⟨by omega, hflags.nonblock, hflags.terminate, hflags.noKey, hflags.noMutex, hflags.noQueue,
      hflags.freed⟩ (by omega) (by omega) (by omega) ⟨htasks.order, htasks.drained, htasks.closed⟩

theorem terminateNonblock (hpc : s.pc t = .terminateNonblock closer) :
    Inv ({ s with queue := s.queue.setNonblock }.goto t (.terminateSet closer))
      { g with stage := 3 } := by
  have hstage : g.stage = 2 := h.stage_of hpc rfl
  have hflags : Flags s 2 := hstage ▸ h.flags
  have htasks := h.tasks_mono 3 (by omega) (by omega)
  exact h.proceed 3 hpc rfl rfl rfl ⟨rfl, rfl, rfl, rfl, rfl, rfl⟩ rfl rfl (by omega)
    (h.not_fresh_at hpc rfl (by omega)) (by omega) rfl (by simp) id
    (h.mutex.goto (by rw [hpc]; rfl))
    (.inl ⟨rfl, by simp⟩) ⟨by omega, rfl, hflags.terminate, hflags.noKey, hflags.noMutex,
      hflags.noQueue, hflags.freed⟩ (by omega) (by omega) (by omega)
    ⟨htasks.order, htasks.drained, htasks.closed⟩

theorem terminateSet (hpc : s.pc t = .terminateSet closer) :
    Inv ({ s with terminate := true }.goto t
      (if closer.inPool then .terminateDetach else .terminateTest closer))
      { g with stage := if closer.inPool then 4 else 6 } := by
  have hstage : g.stage = 3 := h.stage_of hpc rfl
  have hflags : Flags s 3 := hstage ▸ h.flags
  have hfresh := h.not_fresh_at hpc rfl (by omega)
  cases hin : closer.inPool with
  | true =>
    have htasks := h.tasks_mono 4 (by omega) (by omega)
    have hnew : (Pc.terminateDetach : Pc τ ε).closing = some (closer.inPool, 4) := by
      rw [hin]
      rfl
    exact h.proceed 4 hpc rfl rfl hnew ⟨rfl, rfl, rfl, rfl, rfl, rfl⟩ rfl rfl (by omega) hfresh
      (by omega) rfl (by simp) (by simp [Pc.abandons]) (h.mutex.goto (by rw [hpc]; rfl))
      (.inl ⟨rfl, by simp⟩) ⟨by omega, hflags.nonblock, rfl, hflags.noKey, hflags.noMutex,
        hflags.noQueue, hflags.freed⟩ (by omega) (by omega) (by omega)
      ⟨htasks.order, htasks.drained, htasks.closed⟩
  | false =>
    have htasks := h.tasks_mono 6 (by omega) (by omega)
    have hnew : (Pc.terminateTest closer : Pc τ ε).closing = some (closer.inPool, 6) := rfl
    exact h.proceed 6 hpc rfl rfl hnew ⟨rfl, rfl, rfl, rfl, rfl, rfl⟩ rfl rfl (by omega) hfresh
      (by simp [hin]) rfl (by simp) id (h.mutex.goto (by rw [hpc]; rfl)) (.inl ⟨rfl, by simp⟩)
      ⟨by omega, hflags.nonblock, rfl, hflags.noKey, hflags.noMutex, hflags.noQueue,
        hflags.freed⟩ (by omega) (by omega) (by omega)
      ⟨htasks.order, htasks.drained, htasks.closed⟩

theorem terminateDetach (hpc : s.pc t = .terminateDetach) :
    Inv ({ s with detached := Function.update s.detached t true }.goto t .terminateCount)
      { g with stage := 5 } := by
  have hstage : g.stage = 4 := h.stage_of hpc rfl
  have hflags : Flags s 4 := hstage ▸ h.flags
  have htasks := h.tasks_mono 5 (by omega) (by omega)
  exact h.proceed 5 hpc rfl rfl rfl ⟨rfl, rfl, rfl, rfl, rfl, rfl⟩ rfl rfl (by omega)
    (h.not_fresh_at hpc rfl (by omega)) (by omega) rfl (by simp) id
    (h.mutex.goto (by rw [hpc]; rfl))
    (.inr rfl) ⟨by omega, hflags.nonblock, hflags.terminate, hflags.noKey, hflags.noMutex,
      hflags.noQueue, hflags.freed⟩ (by omega) (by omega) (by omega)
    ⟨htasks.order, htasks.drained, htasks.closed⟩

/-- A thread of the pool that ends it waits for the others only. -/
theorem terminateCount (hpc : s.pc t = .terminateCount) :
    Inv ({ s with nthreads := s.nthreads - 1 }.goto t (.terminateTest (.destroyer true)))
      { g with stage := 6, role := Function.update g.role t .closer, live := g.live.erase t } := by
  have hstage : g.stage = 5 := h.stage_of hpc rfl
  have hcloser := h.closing.one t (by rw [hpc]; simp [Pc.closing])
  have hrole : g.role t = .live := by
    have hplace := ((fits_closing rfl).mp (h.place hpc)).2
    simpa using hplace
  have hself : Function.update g.role t .closer t = .closer := Function.update_self _ _ _
  have hothers : ∀ t', t' ≠ t → Function.update g.role t .closer t' = g.role t' :=
    fun t' ht => Function.update_of_ne ht _ _
  have hsame : ∀ r, r ≠ .live → r ≠ .closer →
      ∀ t', Function.update g.role t .closer t' = r ↔ g.role t' = r := by
    intro r hlive hclosed t'
    by_cases ht : t' = t
    · rw [ht, hself, hrole]
      exact ⟨fun heq => absurd heq.symm hclosed, fun heq => absurd heq.symm hlive⟩
    · rw [hothers t' ht]
  have hpool : ∀ t', (Function.update g.role t .closer t').inPool = (g.role t').inPool := by
    intro t'
    by_cases ht : t' = t
    · rw [ht, hself, hrole]
      rfl
    · rw [hothers t' ht]
  have hclosing : ∀ t', t' ≠ t → (s.pc t').closing = none := by
    intro t' ht
    by_contra hsome
    exact ht (Option.some_inj.mp ((h.closing.one t' hsome).symm.trans hcloser))
  have hfits : ∀ t', t' ≠ t → Fits 6 (Function.update g.role t .closer t') (s.pc t') := by
    intro t' ht
    rw [hothers t' ht]
    refine (h.fits t').mono (by omega) (hclosing t' ht) (fun hclosed => ?_) (by omega) (by omega)
    exact ht (Option.some_inj.mp ((h.closing.role t' hclosed).symm.trans hcloser))
  have hflags : Flags s 5 := hstage ▸ h.flags
  constructor
  · refine fits_goto hfits ((fits_closing rfl).mpr ⟨rfl, .inr ⟨rfl, .inr (.inr ⟨hself, ?_⟩)⟩⟩)
    exact Nat.le_refl 6
  · exact h.uncount .closer (by simp) hrole
  · exact h.spawning.goto (hsame .fresh (by simp) (by simp)) (by rw [hpc]; rfl) rfl
  · exact h.mutex.goto (by rw [hpc]; rfl)
  · exact h.keyed.goto hpool (by simp) (by simp [hpc])
  · refine ⟨fun t' ht' => ?_, fun t' ht' => .inl ?_, fun t' ht' => ?_, fun t' ht' => ?_,
      by simp [State.goto, hcloser], h.closing.detached⟩
    · by_cases ht : t' = t
      · rw [ht]
        exact hcloser
      · simp only [State.goto, Function.update_of_ne ht] at ht'
        exact h.closing.one t' ht'
    · obtain rfl := Option.some_inj.mp (hcloser.symm.trans ht')
      simp [State.goto, Pc.closing]
    · by_cases ht : t' = t
      · rw [ht]
        exact h.closing.left t (.inr hpc)
      · simp only [State.goto, Function.update_of_ne ht] at ht'
        exact h.closing.left t' ht'
    · by_cases ht : t' = t
      · rw [ht]
        exact hcloser
      · exact h.closing.role t' ((hothers t' ht).symm.trans ht')
  · exact ⟨Nat.le_of_ble_eq_true rfl, hflags.nonblock, hflags.terminate, hflags.noKey,
      hflags.noMutex, hflags.noQueue, hflags.freed⟩
  · exact fun (hseven : 7 ≤ 6) => absurd hseven (by decide)
  · refine h.exits.goto (fun t' _ => hsame .gone (by simp) (by simp) t') ?_ (by rw [hpc]; rfl)
      (by simp) ?_
    · simp [hrole, hpc]
    · rw [hstage]
      exact ⟨fun (hnine : 9 ≤ 6) => absurd hnine (by decide), fun hnine => absurd hnine (by decide)⟩
  · exact h.opening.goto (fun t' _ hin => (hpool t').symm.trans hin) (fun hclosed _ => by
      have hin : (g.role t).inPool = true := by rw [hrole]; rfl
      have htasked := (h.opening.unopened hclosed).2 t hin
      rw [hpc] at htasked
      cases htasked) (by simp [Pc.uses]) (.inl rfl) (by simp [Pc.abandons])
      (fun _ (hzero : 6 = 0) => absurd hzero (by decide)) fun _ => rfl
  · have hterm : s.term = [] := h.term_nil (by omega)
    refine ⟨fun t' (ht' : t' ∈ s.term) => ?_, fun (hsome : s.term ≠ []) => absurd hterm hsome⟩
    rw [hterm] at ht'
    cases ht'
  · have htasks := h.tasks_mono 6 (by omega) (by omega)
    exact ⟨htasks.order, htasks.drained, htasks.closed⟩

/-- It waits for the threads that are still counted. -/
theorem terminateTestWait (hpc : s.pc t = .terminateTest closer) (hpos : 0 < s.nthreads)
    (hrun : { s with term := t :: s.term }.unlock t (.terminateWait closer) = some s') :
    Inv s' g := by
  obtain ⟨owner, hunlock, hrun⟩ := Option.bind_eq_some_iff.mp hrun
  cases hrun
  have hfits : Fits g.stage (g.role t) (.terminateWait closer : Pc τ ε) :=
    (fits_closing rfl).mpr ((fits_closing rfl).mp (h.place hpc))
  have habandons : (Pc.terminateWait closer : Pc τ ε).abandons = true →
      (Pc.terminateTest closer : Pc τ ε).abandons = true := id
  refine h.step hpc rfl ⟨rfl, rfl, rfl, rfl, rfl, rfl, rfl, rfl, rfl, rfl, rfl⟩
    ⟨⟨rfl, rfl⟩, rfl, ⟨rfl, rfl⟩, by simp, .inl rfl, rfl, id⟩ hfits (h.mutex.unlock hunlock rfl)
    (h.keyed.goto (fun _ => rfl) (by simp) (by simp [hpc]))
    (h.opening_goto hpc (by simp [Pc.uses]) (fun _ _ => rfl) (.inl rfl) habandons
      fun _ => rfl)
    ⟨fun t' ht' => ?_, fun _ hzero => absurd hzero (by omega)⟩ (h.same_tasks rfl rfl rfl rfl)
  rcases List.mem_cons.mp ht' with heq | hmem
  · rw [heq, Function.update_self]
    rfl
  · have hne : t' ≠ t := by
      rintro rfl
      exact h.out hpc rfl hmem
    rw [Function.update_of_ne hne]
    exact h.waits.waits t' hmem

/-- All threads have begun to end, and none is being started. -/
theorem terminateTestDone (hpc : s.pc t = .terminateTest closer) (hzero : s.nthreads = 0) :
    Inv (s.goto t (.terminateUnlock closer)) { g with stage := 7 } := by
  have hstage : g.stage = 6 := h.stage_of hpc rfl
  have hflags : Flags s 6 := hstage ▸ h.flags
  have htasks := h.tasks_mono 7 (by omega) (by omega)
  have hholds : (s.pc t).holds = true := by rw [hpc]; rfl
  have hlive : g.live = [] := List.eq_nil_of_length_eq_zero (h.counted.count.symm.trans hzero)
  have hspawning : g.spawning = none := by
    cases hsome : g.spawning with
    | none => rfl
    | some child =>
      obtain ⟨t', hchild, hbusy⟩ := h.parent ((h.spawning.fresh child).mpr hsome)
      rcases hbusy with hheld | ⟨-, hstart⟩
      · rw [← h.mutex.unique hholds hheld, hpc] at hchild
        cases hchild
      · omega
  exact h.proceed 7 hpc rfl rfl rfl ⟨rfl, rfl, rfl, rfl, rfl, rfl⟩ rfl rfl (by omega)
    (h.not_fresh_at hpc rfl (by omega)) (by omega) rfl (by simp) id
    (h.mutex.goto (by rw [hpc]; rfl))
    (.inl ⟨rfl, by simp⟩) ⟨by omega, hflags.nonblock, hflags.terminate, hflags.noKey,
    hflags.noMutex, hflags.noQueue, hflags.freed⟩ (fun _ => ⟨hlive, hspawning⟩)
    (fun _ _ t' ht => Bool.eq_false_iff.mpr fun hheld => ht (h.mutex.unique hheld hholds))
    (by omega) ⟨htasks.order, htasks.drained, htasks.closed⟩

theorem terminateWait (hpc : s.pc t = .terminateWait closer) (hout : t ∉ s.term)
    (hrun : s.lock t (.terminateTest closer) = some s') : Inv s' g :=
  h.lock hrun hpc ⟨⟨rfl, rfl⟩, rfl, ⟨rfl, rfl⟩, by simp, .inl rfl, rfl, id⟩
    ((fits_closing rfl).mpr ((fits_closing rfl).mp (h.place hpc))) (by simp) rfl hout
    (by simp [Pc.uses]) (fun _ => rfl)

theorem terminateUnlock (hpc : s.pc t = .terminateUnlock closer)
    (hrun : s.unlock t (.terminateTid closer) = some s') : Inv s' { g with stage := 8 } := by
  have hstage : g.stage = 7 := h.stage_of hpc rfl
  have hflags : Flags s 7 := hstage ▸ h.flags
  have htasks := h.tasks_mono 8 (by omega) (by omega)
  obtain ⟨owner, hunlock, hrun⟩ := Option.bind_eq_some_iff.mp hrun
  cases hrun
  exact h.proceed 8 hpc rfl rfl rfl ⟨rfl, rfl, rfl, rfl, rfl, rfl⟩ rfl rfl (by omega)
    (h.not_fresh_at hpc rfl (by omega)) (by omega) rfl (by simp) id (h.mutex.unlock hunlock rfl)
    (.inl ⟨rfl, by simp⟩) ⟨by omega, hflags.nonblock, hflags.terminate, hflags.noKey,
    hflags.noMutex, hflags.noQueue, hflags.freed⟩
    (fun _ => h.empty (by omega)) (by omega) (by omega)
    ⟨htasks.order, htasks.drained, htasks.closed⟩

/-- `__thrdpool_terminate` returns. -/
theorem terminateReturn (joins : List (τ × τ)) (hpc : s.pc t = old)
    (hold : old.closing = some (closer.inPool, 8)) (hwaits : old.waits = false)
    (hduty : old.duty = none) (hholds : old.holds = false)
    (hcreator : closer = .creator → s.opened = false)
    (hexits : Exits s.tid g.chain (Function.update s.pc t closer.next) g.role
      (joins.map Prod.snd) closer.reached) :
    Inv ({ s with joins := joins }.goto t closer.next) { g with stage := closer.reached } := by
  have hstage : g.stage = 8 := h.stage_of hpc hold
  have hflags : Flags s 8 := hstage ▸ h.flags
  have hnew : (closer.next : Pc τ ε).closing = some (closer.inPool, closer.reached) := by
    cases closer <;> rfl
  have hfacts : (closer.next : Pc τ ε).duty = none ∧ (closer.next : Pc τ ε).holds = false ∧
      (closer.next : Pc τ ε).abandons = false ∧ (closer.next : Pc τ ε) ≠ .terminateCount := by
    cases closer <;> exact ⟨rfl, rfl, rfl, by simp [Closer.next]⟩
  have hle : 9 ≤ closer.reached ∧ closer.reached ≤ 10 := by cases closer <;> simp [Closer.reached]
  have hclosed : 10 ≤ closer.reached → s.queue.queue = [] := by
    intro hten
    cases closer with
    | destroyer inPool => exact absurd hten (by simp [Closer.reached])
    | creator =>
      by_contra hsome
      rw [h.opened_of_queue hsome] at hcreator
      cases hcreator rfl
  have htasks := h.tasks_mono closer.reached (by omega) hclosed
  refine h.advance closer.reached hpc (by simp [hold]) rfl ⟨rfl, rfl, rfl, rfl, rfl, rfl⟩ (by omega)
    ((fits_closing hnew).mpr ⟨rfl, ?_⟩) (by simp [hnew]) hwaits ⟨hduty, hfacts.1⟩
    (fun habandons => absurd habandons (by simp [hfacts]))
    (h.mutex.goto (by rw [hpc, hholds, hfacts.2.1])) (.inl ⟨rfl, hfacts.2.2.2⟩)
    ⟨by omega, ?_, ?_, ?_, ?_, ?_, ?_⟩ (fun _ => h.empty (by omega)) (by omega) hexits
    ⟨htasks.order, htasks.drained, htasks.closed⟩
  · rcases ((fits_closing hold).mp (h.place hpc)).2 with hout | ⟨hin, hrole⟩
    · exact .inl hout
    · rcases hrole with ⟨-, hone⟩ | ⟨-, hfive⟩ | ⟨hrole, -⟩
      · omega
      · omega
      · exact .inr ⟨hin, .inr (.inr ⟨hrole, by omega⟩)⟩
  · rw [decide_eq_true (by omega)]
    exact hflags.nonblock
  · rw [decide_eq_true (by omega)]
    exact hflags.terminate
  · rw [decide_eq_false (by omega)]
    exact hflags.noKey
  · rw [decide_eq_false (by omega)]
    exact hflags.noMutex
  · rw [decide_eq_false (by omega)]
    exact hflags.noQueue
  · rw [decide_eq_false (by omega)]
    exact hflags.freed

omit [DecidableEq τ] in
/-- The call of `__thrdpool_terminate` is that of `thrdpool_create` only if that returns no pool. -/
theorem opened_of_creator (hpc : s.pc t = old)
    (habandons : old.abandons = decide (closer = .creator)) :
    closer = .creator → s.opened = false := by
  rintro rfl
  exact h.opening.abandons t (by rw [hpc, habandons]; rfl)

omit [DecidableEq τ] in
/-- The last to begin to end is not joined before. -/
theorem head_not_joined (hstage : g.stage = 8) (hhead : g.chain.head? = some tid) :
    tid ∉ s.joined :=
  fun hmem => absurd (h.exits.head tid hhead hmem) (by omega)

theorem terminateTidNone (hpc : s.pc t = .terminateTid closer) (htid : s.tid = none) :
    Inv (s.goto t closer.next) { g with stage := closer.reached } := by
  have hchain : g.chain = [] := List.head?_eq_none_iff.mp (h.exits.tid.symm.trans htid)
  have hjoined : s.joined = [] := by
    refine List.eq_nil_iff_forall_not_mem.mpr fun t' ht' => ?_
    have hmem := (h.exits.settled t' ht').1
    rw [hchain] at hmem
    cases hmem
  refine h.terminateReturn s.joins hpc rfl rfl rfl rfl (h.opened_of_creator hpc rfl) ?_
  have hcount : ∀ tid, (closer.next : Pc τ ε) ≠ .exitCount tid := by
    cases closer <;> simp [Closer.next]
  show Exits _ _ _ _ s.joined _
  refine ⟨h.exits.tid, by rw [hchain]; trivial, h.exits.nodup, fun t' => ?_, h.exits.joinedNodup,
    by simp [hjoined], by simp [hchain], by simp [hchain], fun t' closer' b hjoin => ?_⟩
  · by_cases ht : t' = t
    · simp [ht, h.exits.mem t, hpc, hcount]
    · simp [ht, h.exits.mem t']
  · by_cases ht : t' = t
    · rw [ht, Function.update_self] at hjoin
      cases closer <;> cases hjoin
    · rw [Function.update_of_ne ht] at hjoin
      exact h.exits.joining t' closer' b hjoin

theorem terminateTidSome (hpc : s.pc t = .terminateTid closer) (htid : s.tid = some tid) :
    Inv (s.goto t (.terminateJoin closer tid)) g := by
  have hstage : g.stage = 8 := h.stage_of hpc rfl
  have hflags : Flags s 8 := hstage ▸ h.flags
  have htasks := h.tasks_mono 8 (by omega) (by omega)
  have hjoin : ∀ closer' b, (Pc.terminateJoin closer tid : Pc τ ε) = .terminateJoin closer' b →
      g.chain.head? = some b := by
    rintro closer' b ⟨⟩
    exact h.exits.tid.symm.trans htid
  have hinv : Inv (s.goto t (.terminateJoin closer tid)) { g with stage := 8 } :=
    h.proceed 8 hpc rfl rfl rfl ⟨rfl, rfl, rfl, rfl, rfl, rfl⟩ rfl rfl (Nat.le_refl 8)
      (h.not_fresh_at hpc rfl (by omega)) (by omega) rfl hjoin id (h.mutex.goto (by rw [hpc]; rfl))
      (.inl ⟨rfl, by simp⟩) ⟨by omega, hflags.nonblock, hflags.terminate, hflags.noKey,
      hflags.noMutex, hflags.noQueue, hflags.freed⟩ (fun _ => h.empty (by omega)) (by omega) Iff.rfl
      ⟨htasks.order, htasks.drained, htasks.closed⟩
  rwa [← hstage] at hinv

/-- With the last of the threads that end, all have been joined. -/
theorem terminateJoin (hpc : s.pc t = .terminateJoin closer tid)
    (hrun : s.join t tid closer.next = some s') : Inv s' { g with stage := closer.reached } := by
  obtain ⟨hended, rfl⟩ := join_eq_some hrun
  have hstage : g.stage = 8 := h.stage_of hpc rfl
  have hhead := h.exits.joining t closer tid hpc
  have hjoined := h.head_not_joined hstage hhead
  have hcount : ∀ tid, (closer.next : Pc τ ε) ≠ .exitCount tid := by
    cases closer <;> simp [Closer.next]
  have hnine : 9 ≤ closer.reached := by cases closer <;> simp [Closer.reached]
  have hduty : ∀ t', (Function.update s.pc t closer.next t').duty = (s.pc t').duty := by
    intro t'
    by_cases ht : t' = t
    · rw [ht, Function.update_self, hpc]
      cases closer <;> rfl
    · rw [Function.update_of_ne ht]
  have htail : tid ∉ g.chain.tail := by
    have hnodup := h.exits.nodup
    cases hchain : g.chain with
    | nil => exact List.not_mem_nil
    | cons a l =>
      rw [hchain] at hhead hnodup
      cases hhead
      exact (List.nodup_cons.mp hnodup).1
  have hsettled : ∀ b ∈ s.joined, (s.pc b).duty = some .settled :=
    fun b hb => (h.exits.settled b hb).2
  have hall := h.exits.chained.all_settled hsettled fun a ha => by
    rw [hhead] at ha
    cases ha
    rw [hended]
    rfl
  refine h.terminateReturn _ hpc rfl rfl rfl rfl (h.opened_of_creator hpc rfl) ?_
  have hjoins : (s.joins ++ [(t, tid)]).map Prod.snd = s.joined ++ [tid] := List.map_append
  rw [hjoins]
  refine ⟨h.exits.tid, (h.exits.chained.reap htail).congr fun a _ => hduty a, h.exits.nodup,
    fun t' => ?_, ?_, fun t' ht => ?_, fun _ _ _ => hnine, fun _ t' ht => ?_,
    fun t' closer' b hjoin => ?_⟩
  · by_cases ht : t' = t
    · simp [ht, h.exits.mem t, hpc, hcount]
    · simp [ht, h.exits.mem t']
  · exact List.nodup_append.mpr ⟨h.exits.joinedNodup, List.nodup_singleton tid, by
      rintro a ha c hc rfl
      exact hjoined (List.mem_singleton.mp hc ▸ ha)⟩
  · rw [hduty t']
    rcases List.mem_append.mp ht with hold | hlast
    · exact h.exits.settled t' hold
    · rw [List.mem_singleton.mp hlast, hended]
      exact ⟨List.mem_of_mem_head? hhead, rfl⟩
  · cases hchain : g.chain with
    | nil => simp [hchain] at ht
    | cons a l =>
      have htails := hall.2
      rw [hchain] at ht hhead htails
      cases hhead
      rcases List.mem_cons.mp ht with rfl | ht
      · exact List.mem_append_right _ List.mem_cons_self
      · exact List.mem_append_left _ (htails t' ht)
  · by_cases ht : t' = t
    · rw [ht, Function.update_self] at hjoin
      cases closer <;> cases hjoin
    · rw [Function.update_of_ne ht] at hjoin
      exact h.exits.joining t' closer' b hjoin

theorem drainSome (hpc : s.pc t = .drain inPool) (hqueue : s.queue.queue = entry :: queue) :
    Inv ({ s with queue := { s.queue with queue := queue }, drained := s.drained ++ [entry] }.goto t
      (.drain inPool)) g := by
  have hstage : g.stage = 9 := h.stage_of hpc rfl
  have hflags : Flags s 9 := hstage ▸ h.flags
  have horder : s.scheduled = s.started ++ (s.drained ++ [entry]) ++ queue := by
    rw [h.tasks.order, hqueue]
    simp
  have hinv : Inv ({ s with
      queue := { s.queue with queue := queue }, drained := s.drained ++ [entry] }.goto t
        (.drain inPool)) { g with stage := 9 } :=
    h.proceed 9 hpc rfl rfl rfl ⟨rfl, rfl, rfl, rfl, rfl, rfl⟩ rfl rfl (Nat.le_refl 9)
      (h.not_fresh_at hpc rfl (by omega)) (by omega) rfl (by simp) id (h.mutex.goto (by rw [hpc]))
      (.inl ⟨rfl, by simp⟩) ⟨by omega, hflags.nonblock, hflags.terminate, hflags.noKey,
      hflags.noMutex, hflags.noQueue, hflags.freed⟩ (fun _ => h.empty (by omega)) (by omega) Iff.rfl
      ⟨horder, fun _ => Nat.le_refl 9, by omega⟩
  rwa [← hstage] at hinv

theorem drainNone (hpc : s.pc t = .drain inPool) (hqueue : s.queue.queue = []) :
    Inv (s.goto t (.deleteKey (.destroyer inPool))) { g with stage := 10 } := by
  have hstage : g.stage = 9 := h.stage_of hpc rfl
  have hflags : Flags s 9 := hstage ▸ h.flags
  have htasks := h.tasks_mono 10 (by omega) fun _ => hqueue
  exact h.proceed 10 hpc rfl rfl rfl ⟨rfl, rfl, rfl, rfl, rfl, rfl⟩ rfl rfl (by omega)
    (h.not_fresh_at hpc rfl (by omega)) (by omega) rfl (by simp) (by simp [Pc.abandons])
    (h.mutex.goto (by rw [hpc]; rfl)) (.inl ⟨rfl, by simp⟩) ⟨by omega, hflags.nonblock,
      hflags.terminate, hflags.noKey, hflags.noMutex, hflags.noQueue, hflags.freed⟩
    (fun _ => h.empty (by omega)) (by omega) (by omega)
    ⟨htasks.order, htasks.drained, htasks.closed⟩

theorem deleteKey (hpc : s.pc t = .deleteKey closer) :
    Inv ({ s with noKey := true }.goto t (.destroyMutex closer)) { g with stage := 11 } := by
  have hstage : g.stage = 10 := h.stage_of hpc rfl
  have hflags : Flags s 10 := hstage ▸ h.flags
  have htasks := h.tasks_mono 11 (by omega) fun _ => h.tasks.closed (by omega)
  exact h.proceed 11 hpc rfl rfl rfl ⟨rfl, rfl, rfl, rfl, rfl, rfl⟩ rfl rfl (by omega)
    (h.not_fresh_at hpc rfl (by omega)) (by omega) rfl (by simp) (by simp [Pc.abandons])
    (h.mutex.goto (by rw [hpc]; rfl)) (.inl ⟨rfl, by simp⟩) ⟨by omega, hflags.nonblock,
      hflags.terminate, rfl, hflags.noMutex, hflags.noQueue, hflags.freed⟩
    (fun _ => h.empty (by omega)) (by omega) (by omega)
    ⟨htasks.order, htasks.drained, htasks.closed⟩

theorem destroyMutex (hpc : s.pc t = .destroyMutex closer) :
    Inv ({ s with noMutex := true }.goto t (.destroyQueue closer)) { g with stage := 12 } := by
  have hstage : g.stage = 11 := h.stage_of hpc rfl
  have hflags : Flags s 11 := hstage ▸ h.flags
  have htasks := h.tasks_mono 12 (by omega) fun _ => h.tasks.closed (by omega)
  exact h.proceed 12 hpc rfl rfl rfl ⟨rfl, rfl, rfl, rfl, rfl, rfl⟩ rfl rfl (by omega)
    (h.not_fresh_at hpc rfl (by omega)) (by omega) rfl (by simp) (by simp [Pc.abandons])
    (h.mutex.goto (by rw [hpc]; rfl)) (.inl ⟨rfl, by simp⟩) ⟨by omega, hflags.nonblock,
      hflags.terminate, hflags.noKey, rfl, hflags.noQueue, hflags.freed⟩
    (fun _ => h.empty (by omega)) (by omega) (by omega)
    ⟨htasks.order, htasks.drained, htasks.closed⟩

/-- The end of the pool is over for the thread that has called for it. -/
theorem done (stage : Nat) (hpc : s.pc t = old)
    (hold : old.child = none ∧ old.holds = false ∧ old ≠ .start ∧ old.waits = false ∧
      old.signals = false ∧ old.tasked = true ∧ ∀ tid, old ≠ .exitCount tid)
    (hnew : new = .client ∨ new = .ended) (hpc' : s'.pc = Function.update s.pc t new)
    (hsame : SameThreads s s') (hmutex : s'.mutex = s.mutex) (htid : s'.tid = s.tid)
    (hjoined : s'.joined = s.joined) (hdetached : s'.detached = s.detached)
    (hten : 10 ≤ g.stage) (hle : g.stage ≤ stage)
    (hcloser : s.closer = some t)
    (hrole : stage = 15 ∧ g.role t = .outside ∨ 14 ≤ stage ∧ g.role t = .closer)
    (hfits : Fits stage (g.role t) new) (hflags : Flags s' stage)
    (htasks : s'.started = s.started ∧ s'.drained = s.drained ∧ s'.queue.queue = s.queue.queue) :
    Inv s' { g with stage := stage } := by
  obtain ⟨hchild, hholds, hstart, hwaits, hsignals, htasked, hcount⟩ := hold
  have hfacts : new.child = none ∧ new.holds = false ∧ new ≠ .start ∧ new.closing = none ∧
      (∀ tid, new ≠ .exitCount tid) ∧ new.uses = false ∧ new.creates = none ∧ new.abandons = false ∧
      ∀ closer tid, new ≠ .terminateJoin closer tid := by
    rcases hnew with rfl | rfl <;> simp [Pc.child, Pc.holds, Pc.closing, Pc.uses, Pc.creates,
      Pc.abandons]
  obtain ⟨hchild', hholds', hstart', hclosing', hcount', huses', hcreates', habandons', hjoin'⟩ :=
    hfacts
  have hself : ∀ t', t' ≠ t → (s.pc t').closing = none := by
    intro t' ht
    by_contra hsome
    exact ht (Option.some_inj.mp ((h.closing.one t' hsome).symm.trans hcloser))
  have hfits' : ∀ t', t' ≠ t → Fits stage (g.role t') (s.pc t') := by
    intro t' ht
    refine (h.fits t').mono hle (hself t' ht) (fun hclosed => ?_) (by omega) (by omega)
    exact ht (Option.some_inj.mp ((h.closing.role t' hclosed).symm.trans hcloser))
  have hout : t ∉ g.chain := by
    intro hmem
    rcases (h.exits.mem t).mp hmem with hgone | ⟨tid, hcounts⟩
    · rcases hrole with ⟨-, hrole⟩ | ⟨-, hrole⟩ <;> rw [hrole] at hgone <;> cases hgone
    · exact hcount tid (hpc.symm.trans hcounts)
  have hothers : ∀ t' ∈ g.chain, Function.update s.pc t new t' = s.pc t' := by
    intro t' ht'
    refine Function.update_of_ne ?_ _ _
    rintro rfl
    exact hout ht'
  constructor
  · rw [hpc']
    exact fits_goto hfits' hfits
  · rw [hsame.nthreads]
    exact h.counted
  · rw [hpc']
    exact h.spawning.goto (fun _ => Iff.rfl) (hpc ▸ hchild) hchild'
  · rw [hpc', hmutex]
    exact h.mutex.goto (by rw [hpc, hholds, hholds'])
  · rw [hpc', hsame.key]
    exact h.keyed.goto (fun _ => rfl) hstart' (hpc ▸ hstart)
  · rw [hpc', hsame.closer, hdetached]
    refine ⟨fun t' ht' => ?_, fun t' ht' => .inr ?_, fun t' ht' => ?_, h.closing.role,
      ⟨fun (hzero : stage = 0) => absurd hzero (by omega), fun hnone => ?_⟩, h.closing.detached⟩
    · by_cases ht : t' = t
      · rw [ht]
        exact hcloser
      · rw [Function.update_of_ne ht] at ht'
        exact h.closing.one t' ht'
    · obtain rfl := Option.some_inj.mp (hcloser.symm.trans ht')
      exact hrole
    · by_cases ht : t' = t
      · rw [ht, Function.update_self] at ht'
        rw [ht]
        refine h.closing.left t (ht'.imp_right fun hcounts => ?_)
        rcases hnew with rfl | rfl <;> cases hcounts
      · rw [Function.update_of_ne ht] at ht'
        exact h.closing.left t' ht'
    · rw [hcloser] at hnone
      cases hnone
  · exact hflags
  · exact fun _ => h.empty (by omega)
  · rw [hpc', htid, hjoined]
    refine ⟨h.exits.tid, h.exits.chained.congr fun a ha => by rw [hothers a ha], h.exits.nodup,
      fun t' => ?_, h.exits.joinedNodup, fun t' ht => ?_, fun _ _ _ => ?_,
      fun _ => h.exits.reaped (by omega), fun t' closer tid hjoin => ?_⟩
    · by_cases ht : t' = t
      · rw [ht, Function.update_self, h.exits.mem t, hpc]
        simp [hcount, hcount']
      · rw [Function.update_of_ne ht]
        exact h.exits.mem t'
    · obtain ⟨hmem, hsettled⟩ := h.exits.settled t' ht
      rw [hothers t' hmem]
      exact ⟨hmem, hsettled⟩
    · show 9 ≤ stage
      omega
    · by_cases ht : t' = t
      · rw [ht, Function.update_self] at hjoin
        exact absurd hjoin (hjoin' closer tid)
      · rw [Function.update_of_ne ht] at hjoin
        exact h.exits.joining t' closer tid hjoin
  · rw [hpc', hsame.opened, hsame.scheduled]
    refine h.opening.goto (fun _ _ => id) (fun hclosed hpool => ?_)
      (fun hs => absurd (huses'.symm.trans hs) Bool.noConfusion) (.inl hcreates')
      (fun hs => absurd (habandons'.symm.trans hs) Bool.noConfusion)
      (fun _ (hzero : stage = 0) => absurd hzero (by omega)) fun _ => rfl
    have hidle := (h.opening.unopened hclosed).2 t hpool
    rw [hpc, htasked] at hidle
    cases hidle
  · rw [hpc', hsame.nthreads, hsame.term]
    exact h.waits.goto (fun t' ht' => ⟨ht', fun heq => h.out hpc hwaits (heq ▸ ht')⟩)
      (fun hs => absurd (hsignals.symm.trans (hpc ▸ hs)) Bool.noConfusion) id
  · obtain ⟨hstarted, hdrained, hqueue⟩ := htasks
    have hbefore := h.tasks_mono stage hle fun _ => h.tasks.closed hten
    refine ⟨?_, ?_, ?_⟩
    · rw [hsame.scheduled, hstarted, hdrained, hqueue]
      exact hbefore.order
    · rw [hdrained]
      exact hbefore.drained
    · rw [hqueue]
      exact hbefore.closed

/-- The pool itself is left to the caller's loop, if the caller is one of its threads. -/
theorem destroyQueueHere (hpc : s.pc t = .destroyQueue closer) (hin : closer.inPool = true) :
    Inv ({ s with noQueue := true }.goto t .client) { g with stage := 14 } := by
  have hstage : g.stage = 12 := h.stage_of hpc rfl
  have hflags : Flags s 12 := hstage ▸ h.flags
  have hrole : g.role t = .closer := by
    have hplace := ((fits_closing rfl).mp (h.place hpc)).2
    simpa [hin] using hplace
  exact h.done 14 hpc (by simp [Pc.child, Pc.holds, Pc.waits, Pc.signals, Pc.tasked, Pc.closing])
    (.inl rfl) rfl ⟨rfl, rfl, rfl, rfl, rfl, rfl⟩ rfl rfl rfl rfl (by omega) (by omega)
    (h.closing.one t (by rw [hpc]; simp [Pc.closing])) (.inr ⟨Nat.le_refl 14, hrole⟩)
    (fits_client.mpr (.inr (.inr ⟨hrole, rfl⟩))) ⟨by omega, hflags.nonblock, hflags.terminate,
      hflags.noKey, hflags.noMutex, rfl, hflags.freed⟩ ⟨rfl, rfl, rfl⟩

theorem destroyQueue (hpc : s.pc t = .destroyQueue closer) (hin : closer.inPool = false) :
    Inv ({ s with noQueue := true }.goto t .freePool) { g with stage := 13 } := by
  have hstage : g.stage = 12 := h.stage_of hpc rfl
  have hflags : Flags s 12 := hstage ▸ h.flags
  have htasks := h.tasks_mono 13 (by omega) fun _ => h.tasks.closed (by omega)
  have hnew : (Pc.freePool : Pc τ ε).closing = some (closer.inPool, 13) := by
    rw [hin]
    rfl
  exact h.proceed 13 hpc rfl rfl hnew ⟨rfl, rfl, rfl, rfl, rfl, rfl⟩ rfl rfl (by omega)
    (h.not_fresh_at hpc rfl (by omega)) (by omega) rfl (by simp) (by simp [Pc.abandons])
    (h.mutex.goto (by rw [hpc]; rfl)) (.inl ⟨rfl, by simp⟩) ⟨by omega, hflags.nonblock,
      hflags.terminate, hflags.noKey, hflags.noMutex, rfl, hflags.freed⟩
    (fun _ => h.empty (by omega)) (by omega) (by omega)
    ⟨htasks.order, htasks.drained, htasks.closed⟩

theorem freePool (hpc : s.pc t = .freePool) :
    Inv ({ s with freed := true }.goto t .client) { g with stage := 15 } := by
  have hstage : g.stage = 13 := h.stage_of hpc rfl
  have hflags : Flags s 13 := hstage ▸ h.flags
  have hrole : g.role t = .outside := by
    have hplace := ((fits_closing rfl).mp (h.place hpc)).2
    simpa using hplace
  exact h.done 15 hpc (by simp [Pc.child, Pc.holds, Pc.waits, Pc.signals, Pc.tasked, Pc.closing])
    (.inl rfl) rfl ⟨rfl, rfl, rfl, rfl, rfl, rfl⟩ rfl rfl rfl rfl (by omega) (by omega)
    (h.closing.one t (by rw [hpc]; simp [Pc.closing])) (.inl ⟨rfl, hrole⟩)
    (fits_client.mpr (.inl hrole)) ⟨by omega, hflags.nonblock, hflags.terminate, hflags.noKey,
      hflags.noMutex, hflags.noQueue, rfl⟩ ⟨rfl, rfl, rfl⟩

/-- The thread of the pool that has ended it frees it after the task. -/
theorem free (hpc : s.pc t = .free) :
    Inv ({ s with freed := true }.goto t .ended) { g with stage := 15 } := by
  obtain ⟨hrole, hstage⟩ := fits_free.mp (h.place hpc)
  have hflags : Flags s 14 := hstage ▸ h.flags
  exact h.done 15 hpc (by simp [Pc.child, Pc.holds, Pc.waits, Pc.signals, Pc.tasked])
    (.inr rfl) rfl ⟨rfl, rfl, rfl, rfl, rfl, rfl⟩ rfl rfl rfl rfl (by omega) (by omega)
    (h.closing.role t hrole) (.inr ⟨by omega, hrole⟩) (fits_ended.mpr (.inr ⟨hrole, rfl⟩))
    ⟨by omega, hflags.nonblock, hflags.terminate, hflags.noKey, hflags.noMutex, hflags.noQueue, rfl⟩
    ⟨rfl, rfl, rfl⟩

end Inv

end Hplsp.Thrdpool
