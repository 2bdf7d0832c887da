import Hplsp.ThreadsafeListProgress

/-! Lock coupling is sound, for any threads in any order. -/

namespace Hplsp.ThreadsafeList

open Linked

variable {τ ν α : Type} [DecidableEq τ] [DecidableEq ν] {s s' : State τ ν α} {t t' : τ}
  {l l' : List ν} {p : Place ν} {a : ν} {P : α → Bool}

/-- What one step may do to the values of the list. -/
inductive ValueStep (s : State τ ν α) (act : Action τ ν α) : List α → List α → Prop
  | same (values : List α) : ValueStep s act values values
  | push {t : τ} {newNode : ν} {value : α} {values : List α} : act = .run t →
    s.pc t = .pushLink newNode value → ValueStep s act values (value :: values)
  | remove {t : τ} {p : α → Bool} {current : Place ν} {next : ν} {value : α} {xs ys : List α} :
    act = .run t → s.pc t = .removeLink p current next → p value = true →
      ValueStep s act (xs ++ value :: ys) (xs ++ ys)

/-- The nodes in the list are `l`, and the locks do for it what they are there for. -/
structure Sound (s : State τ ν α) (l : List ν) : Prop where
  path : Path s.succ .head l
  plain : (∀ t, (s.pc t).moved = none) → Path s.next .head l
  reachable : ∀ t p, p ∈ (s.pc t).held ∨ (s.pc t).waits = some p →
    p ∈ places .head l ∨ ∃ a, (s.pc t).unlinked = some a ∧ p = .node a
  unlinked : ∀ t t' a, (s.pc t).unlinked = some a → t' ≠ t →
    .node a ∉ (s.pc t').held ∧ (s.pc t').waits ≠ some (.node a)
  changes : ∀ act s', Step s act s' →
    ∃ l', Path s'.succ .head l' ∧ ValueStep s act (s.values l) (s'.values l')
  blocked : ∀ t, ¬ (s.pc t).Finished → s.run t = none →
    ∃ p t', t' ≠ t ∧ (s.pc t).waits = some p ∧ p ∈ (s.pc t').held
  unblocked : (∃ t, ¬ (s.pc t).Finished) → ∃ t s', ¬ (s.pc t).Finished ∧ s.run t = some s'
  removeIf : (∀ t, (s.pc t).Finished) → ∀ t p, ∃ n s' l',
    Lts.Run Step s (.call t (.removeIf p) :: List.replicate n (.run t)) s' ∧
    (∀ t', (s'.pc t').Finished) ∧ Path s'.next .head l' ∧
    s'.values l' = (s.values l).filter fun value => !p value

omit [DecidableEq τ] [DecidableEq ν] in
theorem values_filter (s : State τ ν α) (P : α → Bool) (l : List ν) :
    s.values (l.filter fun a => !(s.data a).any P) =
      (s.values l).filter fun value => !P value := by
  induction l with
  | nil => rfl
  | cons a l ih =>
    simp only [State.values] at ih ⊢
    cases hv : s.data a with
    | none => simp [hv, ih]
    | some v => cases hP : P v <;> simp [hv, hP, ih]

theorem call_finished {op : Op ν α} (hcall : s.call t op = some s') : (s.pc t).Finished := by
  cases hpc : s.pc t with
  | finished found => exact trivial
  | _ => simp [State.call, hpc] at hcall

omit [DecidableEq τ] [DecidableEq ν] in
theorem Changes.valueStep (h : Changes s t l l') {act : Action τ ν α}
    (hact : act = .run t ∨ (s.pc t).moved = none) :
    ValueStep s act (s.values l) (s.values l') := by
  rcases hact with hact | hmoved
  · cases h with
    | same => exact .same _
    | push hpc hvalue =>
      rw [State.values, State.values, List.filterMap_cons_some hvalue]
      exact .push hact hpc
    | remove hpc hvalue hP =>
      rw [State.values, State.values, List.filterMap_append, List.filterMap_append,
        List.filterMap_cons_some hvalue]
      exact .remove hact hpc hP
  · rw [h.eq_of_not_moved hmoved]
    exact .same _

namespace Inv

variable (h : Inv s l)
include h

theorem changes {act : Action τ ν α} (hstep : Step s act s') :
    ∃ l', Path s'.succ .head l' ∧ ValueStep s act (s.values l) (s'.values l') := by
  have hadvances : ∃ t, Advances s t l s' ∧ (act = .run t ∨ (s.pc t).moved = none) := by
    cases act with
    | call t op => exact ⟨t, h.call hstep, Or.inr (call_finished hstep).moved_eq⟩
    | run t => exact ⟨t, h.run hstep, Or.inl rfl⟩
  obtain ⟨t, ⟨l', hs', hchanges, hdata, -⟩, hact⟩ := hadvances
  refine ⟨l', hs'.path, ?_⟩
  rw [show s'.values l' = s.values l' from List.filterMap_congr hdata]
  exact hchanges.valueStep hact

omit [DecidableEq τ] in
/-- Where a thread holds a lock or waits for one. -/
theorem reachable (hp : p ∈ (s.pc t).held ∨ (s.pc t).waits = some p) :
    p ∈ places .head l ∨ ∃ a, (s.pc t).unlinked = some a ∧ p = .node a := by
  rcases hp with hp | hwaits
  · refine ((h.ok t).held p hp).imp_right ?_
    rintro ⟨a, ha, rfl⟩
    exact ⟨a, Pc.removed_unlinked ha, rfl⟩
  · rcases Pc.waits_eq hwaits with ⟨rfl, -⟩ | ⟨current, a, rfl, -, hedge⟩
    · exact Or.inl List.mem_cons_self
    · exact Or.inl (node_mem_places.mpr (h.edge_mem hedge).2)

omit [DecidableEq τ] in
/-- A node that is out of the list is nobody else's. -/
theorem unlinked (ha : (s.pc t).unlinked = some a) (ht : t' ≠ t) :
    .node a ∉ (s.pc t').held ∧ (s.pc t').waits ≠ some (.node a) := by
  have hown := Pc.unlinked_own ha
  refine ⟨fun hp => ht (h.mine_unique (Or.inl hp) (Or.inr ⟨a, hown, rfl⟩)), fun hwaits => ?_⟩
  rcases Pc.waits_eq hwaits with ⟨heq, -⟩ | ⟨current, b, heq, -, hedge⟩
  · cases heq
  · cases heq
    exact ((h.ok t).own a hown).1 (h.edge_mem hedge).2

theorem blocked (hpc : ¬ (s.pc t).Finished) (hrun : s.run t = none) :
    ∃ p t', t' ≠ t ∧ (s.pc t).waits = some p ∧ p ∈ (s.pc t').held := by
  rcases h.progress t hpc with ⟨s', hok⟩ | ⟨p, t', hwaits, howner⟩
  · rw [hrun] at hok
    cases hok
  · refine ⟨p, t', ?_, hwaits, (h.owner p t').mp howner⟩
    rintro rfl
    exact h.waits_other hwaits howner

/-- `remove_if` alone, from the call to the end. -/
theorem removeIf (hidle : ∀ t, (s.pc t).Finished) (t : τ) (P : α → Bool) : ∃ n s' l',
    Lts.Run Step s (.call t (.removeIf P) :: List.replicate n (.run t)) s' ∧
    (∀ t', (s'.pc t').Finished) ∧ Path s'.next .head l' ∧
    s'.values l' = (s.values l).filter fun value => !P value := by
  have hcall : s.call t (.removeIf P) = some (s.goto t (.removeLock P)) := by
    have hpc := hidle t
    cases heq : s.pc t <;> simp_all [State.call, Pc.Finished]
  obtain ⟨l', hs₀, hchanges, -, hothers⟩ := h.call hcall
  rw [hchanges.eq_of_not_moved (hidle t).moved_eq] at hs₀
  have hstart : Solo t (s.goto t (.removeLock P)) (.removeLock P) (s.goto t (.removeLock P)) l :=
    ⟨⟨0, .refl _⟩, hs₀, fun t' ht => hothers t' ht ▸ hidle t', Function.update_self ..,
      fun _ _ => rfl⟩
  have hhead : ∃ s₁, Solo t (s.goto t (.removeLock P)) (.removeRead P (last .head [])) s₁
      ([] ++ l) := by
    refine hstart.same id rfl fun s₁ hrun => ?_
    simp only [State.run, hstart.pc_eq] at hrun
    exact lock_pc hrun
  obtain ⟨s₁, h₁⟩ := hhead
  obtain ⟨s', hs'⟩ := h₁.remove_loop
  obtain ⟨n, hrun⟩ := hs'.run
  have hfinished : ∀ t', (s'.pc t').Finished := by
    intro t'
    by_cases ht : t' = t
    · rw [ht, hs'.pc_eq]
      trivial
    · exact hs'.alone t' ht
  refine ⟨n, s', _, .cons hcall hrun, hfinished,
    hs'.inv.plain fun t' => (hfinished t').moved_eq, ?_⟩
  rw [show s'.values _ = (s.goto t (.removeLock P)).values _ from List.filterMap_congr hs'.data]
  exact values_filter s P l

end Inv

/-- A value is pushed, and another thread then holds its node to test it. -/
def testing : List (Action Bool Nat Nat) :=
  [.call true (.pushFront 1 7), .run true, .run true, .run true, .run true,
    .call false (.findFirstIf fun value => value == 7), .run false, .run false, .run false,
    .run false]

theorem run_testing :
    ∃ s, Lts.Run Step State.initial testing s ∧ .node 1 ∈ (s.pc false).held := by
  obtain ⟨s, hs, hheld⟩ : ∃ s, execute State.initial testing = some s ∧
      (s.pc false).held = [.node 1] := ⟨_, rfl, rfl⟩
  exact ⟨s, run_iff_execute.mpr hs, by simp [hheld]⟩

/-- Between the two link updates of a `push_front`, the node that another thread holds cannot be
reached from `head`. -/
theorem link_out_of_sight : ∃ (acts : List (Action Bool Nat Nat)) (s : State Bool Nat Nat),
    Lts.Run Step State.initial acts s ∧ .node 1 ∈ (s.pc false).held ∧
    (∀ t, (s.pc t).unlinked = none) ∧ ∀ l, Links s.next .head l → 1 ∉ l := by
  have hrun : ∃ s, execute State.initial
      (testing ++ [.call true (.pushFront 2 8), .run true, .run true]) = some s ∧
      (s.pc false).held = [.node 1] ∧ (s.pc false).unlinked = none ∧
      (s.pc true).unlinked = none ∧ s.next .head = none := ⟨_, rfl, rfl, rfl, rfl, rfl⟩
  obtain ⟨s, hs, hheld, hfalse, htrue, hnull⟩ := hrun
  refine ⟨_, s, run_iff_execute.mpr hs, by simp [hheld], ?_, ?_⟩
  · rintro (_ | _)
    · exact hfalse
    · exact htrue
  · rintro (_ | ⟨a, l⟩) hlinks
    · exact List.not_mem_nil
    · rw [Links, hnull] at hlinks
      cases hlinks.1

/-- Any number of threads that push, find and remove: every lock is on a node of the list or on one
that only its owner still knows of, values come and go as the calls say, and the threads never all
wait. -/
theorem lock_coupling_sound {acts : List (Action τ ν α)}
    (h : Lts.Run Step State.initial acts s) : ∃ l, Sound s l := by
  obtain ⟨l, hs⟩ := reachable_inv h
  refine ⟨l, hs.path, hs.plain, fun t p => hs.reachable, fun t t' a => hs.unlinked,
    fun act s' => hs.changes, fun t => hs.blocked, ?_, hs.removeIf⟩
  rintro ⟨t, hpc⟩
  obtain ⟨t', s', hrun⟩ := hs.unblocked hpc
  refine ⟨t', s', fun hfinished => ?_, hrun⟩
  cases hpc' : s.pc t' <;> simp_all [State.run, Pc.Finished]

theorem lock_coupling_sound_testing : ∃ (s : State Bool Nat Nat) (l : List Nat),
    .node 1 ∈ (s.pc false).held ∧ Sound s l := by
  obtain ⟨s, hrun, hheld⟩ := run_testing
  obtain ⟨l, hsound⟩ := lock_coupling_sound hrun
  exact ⟨s, l, hheld, hsound⟩

end Hplsp.ThreadsafeList
