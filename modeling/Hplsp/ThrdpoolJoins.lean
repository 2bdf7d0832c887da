import Hplsp.ThrdpoolSafety

/-! Who joins the threads of a pool. -/

namespace Hplsp.Thrdpool

variable {τ ε : Type} [DecidableEq τ] {s s' : State τ ε} {g : Ghost τ} {t u b creator : τ}
  {new : Pc τ ε} {woken : Option τ} {a : Action τ ε} {outside : τ → Bool} {nthreads : Nat}
  {as : List (Action τ ε)}

/-- Who is to join the thread: the next one that ends, or, if it is the last, who ends the pool. -/
def State.Joiner (s : State τ ε) (t u : τ) : Prop :=
  [t, u] <:+: s.exits ∨ s.exits.getLast? = some t ∧ s.closer = some u

/-- The threads join one another in the order in which they have put themselves into `tid`. -/
structure Joining (s : State τ ε) : Prop where
  tid : s.tid = s.exits.getLast?
  nodup : s.exits.Nodup
  mem : ∀ t ∈ s.exits, (s.pc t).duty ≠ none
  owes : ∀ t b, (s.pc t).duty = some (.owes (some b)) → [b, t] <:+: s.exits
  joins : ∀ t u, (u, t) ∈ s.joins → s.Joiner t u
  detached : ∀ t, s.detached t = true → s.key t = true

theorem joining_create : Joining (State.create creator outside nthreads : State τ ε) where
  tid := rfl
  nodup := List.nodup_nil
  mem := fun t ht => by cases ht
  owes := fun t b hduty => by
    simp only [State.create] at hduty
    split at hduty
    · cases hduty
    · split at hduty <;> cases hduty
  joins := fun t u hmem => by cases hmem
  detached := fun t ht => by cases ht

/-- Nothing is changed that is about the end of a thread. -/
structure SameExits (s s' : State τ ε) : Prop where
  tid : s'.tid = s.tid
  exits : s'.exits = s.exits
  joins : s'.joins = s.joins
  detached : s'.detached = s.detached
  key : ∀ t, s.key t = true → s'.key t = true
  closer : s.closer = none ∨ s'.closer = s.closer

/-- The fields that the end of a thread is about. -/
def State.exiting (s : State τ ε) :=
  (s.tid, s.exits, s.joins, s.detached, s.key, s.closer)

omit [DecidableEq τ] in
theorem SameExits.of_eq (h : s'.exiting = s.exiting) : SameExits s s' := by
  simp only [State.exiting, Prod.mk.injEq] at h
  obtain ⟨htid, hexits, hjoins, hdetached, hkey, hcloser⟩ := h
  exact ⟨htid, hexits, hjoins, hdetached, fun t ht => by rwa [hkey], .inr hcloser⟩

namespace Joining

variable (h : Joining s)
include h

theorem goto (hsame : SameExits s s') (hpc' : s'.pc = Function.update s.pc t new)
    (hduty : new.duty = (s.pc t).duty ∨ new.duty = some .settled) : Joining s' := by
  refine ⟨by rw [hsame.tid, hsame.exits, h.tid], by rw [hsame.exits]; exact h.nodup,
    fun t' ht' => ?_, fun t' b hb => ?_, fun t' u hu => ?_, fun t' ht' => ?_⟩
  · rw [hsame.exits] at ht'
    have hold := h.mem t' ht'
    rw [hpc']
    by_cases ht : t' = t
    · rw [ht, Function.update_self]
      rcases hduty with hduty | hduty
      · rw [hduty, ← ht]
        exact hold
      · rw [hduty]
        exact Option.some_ne_none _
    · rwa [Function.update_of_ne ht]
  · rw [hsame.exits]
    rw [hpc'] at hb
    by_cases ht : t' = t
    · rw [ht, Function.update_self] at hb
      rcases hduty with hduty | hduty
      · rw [ht]
        exact h.owes t b (hduty ▸ hb)
      · rw [hduty] at hb
        cases hb
    · rw [Function.update_of_ne ht] at hb
      exact h.owes t' b hb
  · rw [hsame.joins] at hu
    rcases h.joins t' u hu with hnext | ⟨hlast, hcloser⟩
    · exact .inl (hsame.exits ▸ hnext)
    · refine .inr ⟨hsame.exits ▸ hlast, ?_⟩
      rcases hsame.closer with hnone | hcloser'
      · rw [hnone] at hcloser
        cases hcloser
      · rw [hcloser', hcloser]
  · rw [hsame.detached] at ht'
    exact hsame.key t' (h.detached t' ht')

theorem lock (hrun : s.lock t new = some s') (hduty : new.duty = (s.pc t).duty) : Joining s' := by
  obtain ⟨owner, -, hrun⟩ := Option.bind_eq_some_iff.mp hrun
  cases hrun
  exact h.goto (.of_eq rfl) rfl (.inl hduty)

theorem unlock (hrun : s.unlock t new = some s')
    (hduty : new.duty = (s.pc t).duty ∨ new.duty = some .settled) : Joining s' := by
  obtain ⟨owner, -, hrun⟩ := Option.bind_eq_some_iff.mp hrun
  cases hrun
  exact h.goto (.of_eq rfl) rfl hduty

omit [DecidableEq τ] in
theorem join (hb : s.Joiner b u) : Joining { s with joins := s.joins ++ [(u, b)] } := by
  refine ⟨h.tid, h.nodup, h.mem, h.owes, fun t u' hu' => ?_, h.detached⟩
  rcases List.mem_append.mp hu' with hold | hnew
  · exact h.joins t u' hold
  · cases List.mem_singleton.mp hnew
    exact hb

theorem detach (hkey : s.key t = true) :
    Joining { s with detached := Function.update s.detached t true } := by
  refine ⟨h.tid, h.nodup, h.mem, h.owes, h.joins, fun t' ht' => ?_⟩
  by_cases ht : t' = t
  · rwa [ht]
  · simp only [Function.update_of_ne ht] at ht'
    exact h.detached t' ht'

/-- The thread puts itself into `tid`, and has the one before it to join. -/
theorem exit (hinv : Inv s g) (hpc : s.pc t = .exitTid) : Joining
    ({ s with tid := some t, exits := s.exits ++ [t] }.goto t (.exitCount s.tid)) := by
  obtain ⟨-, -, hsix⟩ := (fits_leaving (.inl rfl)).mp (hinv.place hpc)
  have hout : t ∉ s.exits := by
    intro hmem
    have hduty := h.mem t hmem
    rw [hpc] at hduty
    exact hduty rfl
  have hmore : ∀ {a b}, [a, b] <:+: s.exits → [a, b] <:+: s.exits ++ [t] :=
    List.infix_append_of_infix_left
  refine ⟨List.getLast?_concat.symm, ?_, fun t' ht' => ?_, fun t' b hb => ?_, fun t' u hu => ?_,
    h.detached⟩
  · exact List.nodup_append.mpr ⟨h.nodup, List.nodup_singleton t, by
      rintro a ha c hc rfl
      exact hout (List.mem_singleton.mp hc ▸ ha)⟩
  · by_cases ht : t' = t
    · simp [State.goto, ht, Pc.duty]
    · simp only [State.goto, Function.update_of_ne ht]
      exact h.mem t' ((List.mem_append.mp ht').resolve_right fun hlast =>
        ht (List.mem_singleton.mp hlast))
  · by_cases ht : t' = t
    · simp only [State.goto, ht, Function.update_self, Pc.duty] at hb
      cases htid : s.tid with
      | none => simp [htid] at hb
      | some c =>
        obtain rfl : c = b := by simpa [htid] using hb
        obtain ⟨before, hlast⟩ := List.getLast?_eq_some_iff.mp (h.tid.symm.trans htid)
        exact ⟨before, [], by simp [State.goto, hlast, ht]⟩
    · simp only [State.goto, Function.update_of_ne ht] at hb
      exact hmore (h.owes t' b hb)
  · -- Nobody has joined the last one yet.
    rcases h.joins t' u hu with hnext | ⟨hlast, -⟩
    · exact .inl (hmore hnext)
    · have hhead : g.chain.head? = some t' :=
        hinv.exits.tid.symm.trans (h.tid.trans hlast)
      have hjoined : t' ∈ s.joined := List.mem_map_of_mem hu
      exact absurd (hinv.exits.head t' hhead hjoined) (by omega)

theorem run (hinv : Inv s g) (hrun : s.run t woken = some s') : Joining s' := by
  cases hpc : s.pc t with simp only [State.run, hpc] at hrun
  | unborn | client | ended | createThread n | increaseThread => cases hrun
  | start =>
    cases hrun
    refine h.goto ⟨rfl, rfl, rfl, rfl, fun t' ht' => ?_, .inr rfl⟩ rfl (.inl (by rw [hpc]; rfl))
    by_cases ht : t' = t
    · simp [State.goto, ht]
    · simpa [State.goto, ht] using ht'
  | check | taskEnd | createTest n | exitCount tid | terminateSet closer | destroyQueue closer =>
    cases hrun
    refine h.goto (.of_eq rfl) rfl (.inl ?_)
    rw [hpc]
    split <;> rfl
  | free =>
    cases hrun
    exact h.goto (.of_eq rfl) rfl (.inr rfl)
  | createCount n child | schedule entry | scheduleSignal | increaseCount child
  | terminateNonblock closer | terminateCount | deleteKey closer | destroyMutex closer | freePool =>
    cases hrun
    exact h.goto (.of_eq rfl) rfl (.inl (by rw [hpc]; rfl))
  | get | drain inPool =>
    obtain ⟨⟨got, q⟩, -, rfl⟩ := Option.map_eq_some_iff.mp hrun
    cases got with
    | none => exact h.goto (.of_eq rfl) rfl (.inl (by rw [hpc]; rfl))
    | some entry =>
      exact h.goto (.of_eq rfl) rfl (.inl (by simp [hpc, Pc.duty]))
  | createEnd n =>
    split at hrun
    · cases hrun
      exact h.goto (.of_eq rfl) rfl (.inl (by rw [hpc]; rfl))
    · cases hrun
      have hzero := hinv.closing.zero.mp ((fits_creates rfl).mp (hinv.place hpc)).2
      exact h.goto ⟨rfl, rfl, rfl, rfl, fun _ => id, .inl hzero⟩ rfl (.inl (by rw [hpc]; rfl))
  | exitLock | increaseLock | terminateLock closer => exact h.lock hrun (by rw [hpc]; rfl)
  | exitTid =>
    cases hrun
    exact h.exit hinv hpc
  | exitSignal tid =>
    obtain ⟨term, -, hrun⟩ := Option.bind_eq_some_iff.mp hrun
    cases hrun
    exact h.goto (.of_eq rfl) rfl (.inl (by rw [hpc]; rfl))
  | exitUnlock tid =>
    refine h.unlock hrun ?_
    cases tid with
    | none => exact .inr rfl
    | some b => exact .inl (by rw [hpc]; rfl)
  | increaseUnlock | terminateUnlock closer => exact h.unlock hrun (.inl (by rw [hpc]; rfl))
  | exitJoin b =>
    obtain ⟨-, rfl⟩ := join_eq_some hrun
    have hnext := h.owes t b (by rw [hpc]; rfl)
    exact (h.join (.inl hnext)).goto (.of_eq rfl) rfl (.inr rfl)
  | terminateDetach =>
    cases hrun
    have hplace := ((fits_closing rfl).mp (hinv.place hpc)).2
    have hpool : (g.role t).inPool = true := by
      rcases hplace with ⟨-, hin⟩ | ⟨-, ⟨hrole, -⟩ | ⟨hrole, -⟩ | ⟨hrole, -⟩⟩
      · cases hin
      · rw [hrole]; rfl
      · rw [hrole]; rfl
      · rw [hrole]; rfl
    have hkey := (hinv.keyed t).mpr ⟨hpool, by simp [hpc]⟩
    exact (h.detach hkey).goto (.of_eq rfl) rfl (.inl (by rw [hpc]; rfl))
  | terminateTest closer =>
    split at hrun
    · have hterm : Joining { s with term := t :: s.term } :=
        ⟨h.tid, h.nodup, h.mem, h.owes, h.joins, h.detached⟩
      exact hterm.unlock hrun (.inl (by rw [hpc]; rfl))
    · cases hrun
      exact h.goto (.of_eq rfl) rfl (.inl (by rw [hpc]; rfl))
  | terminateWait closer =>
    split at hrun
    · cases hrun
    · exact h.lock hrun (by rw [hpc]; rfl)
  | terminateTid closer =>
    cases hrun
    refine h.goto (.of_eq rfl) rfl (.inl ?_)
    rw [hpc]
    cases s.tid <;> cases closer <;> rfl
  | terminateJoin closer b =>
    obtain ⟨-, rfl⟩ := join_eq_some hrun
    have hlast : s.exits.getLast? = some b :=
      h.tid.symm.trans (hinv.exits.tid.trans (hinv.exits.joining t closer b hpc))
    have hcloser := hinv.closing.one t (by simp [hpc, Pc.closing])
    refine (h.join (.inr ⟨hlast, hcloser⟩)).goto (.of_eq rfl) rfl (.inl ?_)
    rw [hpc]
    cases closer <;> rfl

theorem born (hpc : (s.pc t).duty = none) (hunborn : s.pc u = .unborn) (hnew : new.duty = none) :
    Joining ((s.goto u .start).goto t new) := by
  have hborn : Joining (s.goto u .start) :=
    h.goto (.of_eq rfl) rfl (.inl (by rw [hunborn]; rfl))
  refine hborn.goto (.of_eq rfl) rfl (.inl ?_)
  rw [hnew]
  by_cases hne : t = u
  · simp [State.goto, hne, Pc.duty]
  · simp [State.goto, hne, hpc]

theorem spawn (hspawn : s.spawn t u = some s') : Joining s' := by
  unfold State.spawn at hspawn
  split at hspawn
  · rename_i hpc hunborn
    cases hspawn
    exact h.born (by rw [hpc]; rfl) hunborn rfl
  · rename_i hpc hunborn
    cases hspawn
    exact h.born (by rw [hpc]; rfl) hunborn rfl
  · cases hspawn

theorem refuse (hrun : s.refuse t = some s') : Joining s' := by
  unfold State.refuse at hrun
  split at hrun
  · rename_i hpc
    cases hrun
    exact h.goto (.of_eq rfl) rfl (.inl (by rw [hpc]; rfl))
  · rename_i hpc
    cases hrun
    exact h.goto (.of_eq rfl) rfl (.inl (by rw [hpc]; rfl))
  · cases hrun

theorem next (hinv : Inv s g) (hpermits : s.Permits a) (hstep : Step s a s') : Joining s' := by
  cases hstep with
  | schedule hpc | increase hpc | finish hpc =>
    exact h.goto (.of_eq rfl) rfl (.inl (by rw [hpc]; rfl))
  | destroy hpc =>
    exact h.goto ⟨rfl, rfl, rfl, rfl, fun _ => id, .inl hpermits.1⟩ rfl (.inl (by rw [hpc]; rfl))
  | spawn hspawn => exact h.spawn hspawn
  | refuse hrun => exact h.refuse hrun
  | run hrun => exact h.run hinv hrun
  | wake => exact ⟨h.tid, h.nodup, h.mem, h.owes, h.joins, h.detached⟩

end Joining

theorem joining_reachable (hpos : 1 ≤ nthreads)
    (h : Lts.Run (Lts.Guarded State.Permits Step) (State.create creator outside nthreads) as s) :
    (∃ g, Inv s g) ∧ Joining s := by
  refine Lts.Run.invariant (I := fun s => (∃ g, Inv s g) ∧ Joining s) h ?_
    ⟨⟨_, inv_create hpos⟩, joining_create⟩
  rintro s a s' ⟨hpermits, hstep⟩ ⟨⟨g, hinv⟩, hjoining⟩
  exact ⟨hinv.next hpermits hstep, hjoining.next hinv hpermits hstep⟩

/-- Before the first task is handed over, and before the pool is taken apart, every thread of the
pool has ended and has been joined once, by the next that ended or, the last one, by who ends the
pool; but for one that ends the pool itself, which is detached. No other thread is either. -/
theorem threads_reaped (hpos : 1 ≤ nthreads)
    (h : Lts.Run (Lts.Guarded State.Permits Step) (State.create creator outside nthreads) as s)
    (hlate : s.drained ≠ [] ∨ s.noKey = true) (t : τ) : s.exits.Nodup ∧
    (s.key t = true → s.closer = some t ∧ s.detached t = true ∧ s.joined.count t = 0 ∨
      s.closer ≠ some t ∧ s.pc t = .ended ∧ s.detached t = false ∧ s.joined.count t = 1 ∧
        ∃ u, (u, t) ∈ s.joins ∧ s.Joiner t u) ∧
    (s.key t = false → s.pc t ≠ .start ∧ s.detached t = false ∧ s.joined.count t = 0) := by
  obtain ⟨⟨g, hinv⟩, hjoining⟩ := joining_reachable hpos h
  have hstage : 9 ≤ g.stage := by
    rcases hlate with hsome | hgone
    · exact hinv.tasks.drained hsome
    · have heleven : 11 ≤ g.stage := by simpa [hgone] using hinv.flags.noKey
      omega
  have hkey := hinv.keyed t
  have hdetached' : s.key t = false → s.detached t = false := by
    intro hother
    refine Bool.eq_false_iff.mpr fun hdetached => ?_
    rw [hjoining.detached t hdetached] at hother
    cases hother
  refine ⟨hjoining.nodup, ?_⟩
  rcases hinv.reaped hstage t with ⟨hpool, hout, hstart⟩ | ⟨hrole, hcloser, hdetached, hout⟩ |
    ⟨hrole, hcloser, hended, hdetached, hmem⟩
  · refine ⟨fun hin => ?_, fun hother => ⟨hstart, hdetached' hother, List.count_eq_zero.mpr hout⟩⟩
    rw [(hkey.mp hin).1] at hpool
    cases hpool
  · refine ⟨fun _ => .inl ⟨hcloser, hdetached, List.count_eq_zero.mpr hout⟩,
      fun hother => ⟨fun hpc => ?_, hdetached' hother, List.count_eq_zero.mpr hout⟩⟩
    have hplace := (fits_routine (.inl rfl)).mp (hinv.place hpc)
    omega
  · refine ⟨fun _ => .inr ⟨hcloser, hended, hdetached, ?_, ?_⟩, fun hother => ?_⟩
    · exact List.count_eq_one_of_mem hinv.exits.joinedNodup hmem
    · obtain ⟨⟨u, b⟩, hjoins, rfl⟩ := List.mem_map.mp hmem
      exact ⟨u, hjoins, hjoining.joins b u hjoins⟩
    · rw [hkey.mpr ⟨by rw [hrole]; rfl, by simp [hended]⟩] at hother
      cases hother

/-- Two threads: the first to end is joined by the second, that one by who ends the pool. -/
theorem threads_reaped_two : ∃ as s, Lts.Run (Lts.Guarded State.Permits Step)
    (State.create 0 (fun _ => false) 2 : State (Fin 3) Nat) as s ∧ s.exits = [1, 2] ∧
      s.joins = [(2, 1), (0, 2)] ∧ ∀ t, s.key t = true → ∃ u, (u, t) ∈ s.joins ∧ s.Joiner t u := by
  obtain ⟨as, s, hrun, hexits, hjoins, hgone, hcloser, hother⟩ : ∃ as s,
      Lts.Run (Lts.Guarded State.Permits Step)
        (State.create 0 (fun _ => false) 2 : State (Fin 3) Nat) as s ∧ s.exits = [1, 2] ∧
        s.joins = [(2, 1), (0, 2)] ∧ s.noKey = true ∧ s.closer = some 0 ∧ s.key 0 = false :=
    ⟨List.flatten [[.run 0 none, .spawn 0 1, .run 0 none, .run 0 none, .spawn 0 2],
        .replicate 3 (.run 0 none), .replicate 2 (.run 1 none), .replicate 2 (.run 2 none),
        [.destroy 0], .replicate 4 (.run 0 none), .replicate 5 (.run 1 none),
        .replicate 4 (.run 2 none), [.run 2 (some 0)], .replicate 2 (.run 2 none),
        .replicate 7 (.run 0 none)],
      Lts.exists_run (Lts.guarded_sound act_sound) trivial (by decide +kernel)⟩
  refine ⟨as, s, hrun, hexits, hjoins, fun t hkey => ?_⟩
  rcases (threads_reaped (by decide) hrun (.inr hgone) t).2.1 hkey with
    ⟨hself, -⟩ | ⟨-, -, -, -, hjoined⟩
  · obtain rfl : 0 = t := Option.some_inj.mp (hcloser.symm.trans hself)
    rw [hother] at hkey
    cases hkey
  · exact hjoined

end Hplsp.Thrdpool
