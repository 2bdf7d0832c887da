import Mathlib.Data.List.Basic
import Hplsp.ThreadsafeListStep

/-! A thread only ever waits for a thread further along the list, and alone it gets to the end. -/

namespace Hplsp.ThreadsafeList

open Linked

variable {τ ν α : Type} [DecidableEq τ] [DecidableEq ν] {s s' : State τ ν α} {t t' : τ}
  {l l' l₁ l₂ : List ν} {pc pc' : Pc ν α} {p q : Place ν} {a b : ν} {P : α → Bool}

theorem lock_or_owned (hp : s.alive p = true) :
    (∃ s', s.lock t p pc = some s') ∨ ∃ t', s.owner p = some t' := by
  cases howner : s.owner p with
  | none => exact Or.inl ⟨_, if_pos ⟨hp, howner⟩⟩
  | some t' => exact Or.inr ⟨t', rfl⟩

namespace Inv

variable (h : Inv s l)
include h

theorem unlock_held (hp : p ∈ (s.pc t).held) : ∃ s', s.unlock t p pc = some s' :=
  ⟨_, if_pos ⟨h.alive_of_mine (Or.inl hp), (h.owner p t).mpr hp⟩⟩

/-- A thread that cannot take its next step waits for a mutex that is locked. -/
theorem progress (t : τ) (hpc : ¬ (s.pc t).Finished) : (∃ s', s.run t = some s') ∨
    ∃ p t', (s.pc t).waits = some p ∧ s.owner p = some t' := by
  have hok := h.ok t
  have hlock : ∀ {p pc'}, s.run t = s.lock t p pc' → (s.pc t).waits = some p →
      s.alive p = true → (∃ s', s.run t = some s') ∨
        ∃ p t', (s.pc t).waits = some p ∧ s.owner p = some t' := by
    intro p pc' hrun hwaits halive
    rw [hrun]
    exact (lock_or_owned halive).imp_right fun ⟨t', howner⟩ => ⟨p, t', hwaits, howner⟩
  have hunlock : ∀ {p pc'}, s.run t = s.unlock t p pc' → p ∈ (s.pc t).held →
      (∃ s', s.run t = some s') ∨ ∃ p t', (s.pc t).waits = some p ∧ s.owner p = some t' := by
    intro p pc' hrun hp
    rw [hrun]
    exact Or.inl (h.unlock_held hp)
  have hread : ∀ {p} {f : Option ν → State τ ν α}, s.run t = (s.read p).map f →
      p ∈ (s.pc t).held → ∃ s', s.run t = some s' := by
    intro p f hrun hp
    rw [hrun, h.read_eq hp]
    exact ⟨_, rfl⟩
  have hnext : ∀ {p a}, (s.pc t).edge = some (p, a) → s.alive (.node a) = true :=
    fun hedge => h.alive _ (h.edge_mem hedge).2
  have hmine : ∀ {p}, (s.pc t).Mine p → s.alive p = true := h.alive_of_mine
  cases heq : s.pc t with
  | finished found => exact absurd (heq ▸ trivial) hpc
  | pushLock a v =>
    rw [heq] at hlock
    exact hlock (by simp only [State.run, heq]; rfl) rfl rfl
  | pushTake a v =>
    rw [heq] at hok hmine
    simp only [State.run, heq]
    exact Or.inl ⟨_, if_pos ⟨hmine (Or.inr ⟨a, rfl, rfl⟩), rfl, hok.null _ rfl⟩⟩
  | pushLink a v =>
    rw [heq] at hok
    simp only [State.run, heq]
    exact Or.inl ⟨_, if_pos ⟨rfl, hok.null _ rfl⟩⟩
  | pushUnlock =>
    rw [heq] at hunlock
    exact hunlock (by simp only [State.run, heq]; rfl) (List.mem_singleton.mpr rfl)
  | findLock P =>
    rw [heq] at hlock
    exact hlock (by simp only [State.run, heq]; rfl) rfl rfl
  | findRead P p =>
    rw [heq] at hread
    exact Or.inl (hread (by simp only [State.run, heq]; rfl) (List.mem_singleton.mpr rfl))
  | findLockNext P p a =>
    rw [heq] at hlock hnext
    exact hlock (by simp only [State.run, heq]; rfl) rfl (hnext rfl)
  | findUnlock P p a =>
    rw [heq] at hunlock
    exact hunlock (by simp only [State.run, heq]; rfl) List.mem_cons_self
  | findTest P a =>
    obtain ⟨v, hv⟩ := h.exists_data (t := t) (a := a) (by simp [heq, Pc.held])
    simp only [State.run, heq, hv]
    exact Or.inl ⟨_, rfl⟩
  | findReturn a =>
    obtain ⟨v, hv⟩ := h.exists_data (t := t) (a := a) (by simp [heq, Pc.held])
    rw [heq] at hunlock
    exact hunlock (by simp only [State.run, heq, hv, Option.bind_some]; rfl)
      (List.mem_singleton.mpr rfl)
  | findNone p =>
    rw [heq] at hunlock
    exact hunlock (by simp only [State.run, heq]; rfl) (List.mem_singleton.mpr rfl)
  | removeLock P =>
    rw [heq] at hlock
    exact hlock (by simp only [State.run, heq]; rfl) rfl rfl
  | removeRead P p =>
    rw [heq] at hread
    exact Or.inl (hread (by simp only [State.run, heq]; rfl) (List.mem_singleton.mpr rfl))
  | removeLockNext P p a =>
    rw [heq] at hlock hnext
    exact hlock (by simp only [State.run, heq]; rfl) rfl (hnext rfl)
  | removeTest P p a =>
    obtain ⟨v, hv⟩ := h.exists_data (t := t) (a := a) (by simp [heq, Pc.held])
    simp only [State.run, heq, hv]
    exact Or.inl ⟨_, rfl⟩
  | removeTake P p a =>
    have hp : p ∈ (s.pc t).held := by simp [heq, Pc.held]
    have hsucc := h.succ_of_held hp (by simp [heq, Pc.moved])
    rw [heq] at hok
    simp only [State.run, heq]
    exact Or.inl ⟨_, if_pos ⟨hmine (Or.inl hp), hsucc.symm.trans (hok.edge p a rfl)⟩⟩
  | removeLink P p a =>
    rw [heq] at hok hmine
    simp only [State.run, heq]
    exact Or.inl ⟨_, if_pos ⟨hmine (Or.inl List.mem_cons_self),
      hmine (Or.inl (List.mem_cons_of_mem p List.mem_cons_self)), hok.null _ rfl⟩⟩
  | removeUnlock P p a =>
    rw [heq] at hunlock
    exact hunlock (by simp only [State.run, heq]; rfl) (List.mem_cons_of_mem p List.mem_cons_self)
  | removeDelete P p a =>
    have hne : .node a ∉ (s.pc t).held := by
      intro ha
      have hmem := h.held_places (by rw [heq]; rfl) ha
      exact (hok.own a (by rw [heq]; rfl)).1 (node_mem_places.mp hmem)
    have hfree := h.owner_own (by rw [heq]; rfl) hne
    rw [heq] at hok hmine
    simp only [State.run, heq]
    exact Or.inl ⟨_, if_pos ⟨hmine (Or.inr ⟨a, rfl, rfl⟩), hfree, hok.null _ rfl⟩⟩
  | removeAdvance P p a =>
    rw [heq] at hunlock
    exact hunlock (by simp only [State.run, heq]; rfl) List.mem_cons_self
  | removeExit p =>
    rw [heq] at hunlock
    exact hunlock (by simp only [State.run, heq]; rfl) (List.mem_singleton.mpr rfl)

/-- The owner of a place can step, or it waits for the next node. -/
theorem owner_progress (howner : s.owner p = some t) : (∃ s', s.run t = some s') ∨
    ∃ b t', s.succ p = some b ∧ s.owner (.node b) = some t' := by
  have hp := (h.owner p t).mp howner
  refine (h.progress t (Pc.not_finished hp)).imp_right ?_
  rintro ⟨q, t', hwaits, howner'⟩
  rcases Pc.waits_eq hwaits with ⟨-, hheld⟩ | ⟨current, b, rfl, hheld, hedge⟩
  · rw [hheld] at hp
    cases hp
  · rw [hheld] at hp
    obtain rfl := List.mem_singleton.mp hp
    exact ⟨b, t', (h.ok t).edge p b hedge, howner'⟩

/-- Waiting leads along the list, so it ends at a thread that can step. -/
theorem unblocked_of_owner (hpath : Path s.succ p l') (howner : s.owner p = some t) :
    ∃ t' s', s.run t' = some s' := by
  induction l' generalizing p t with
  | nil =>
    rcases h.owner_progress howner with hrun | ⟨b, t', hsucc, -⟩
    · exact ⟨t, hrun⟩
    · rw [path_nil.mp hpath] at hsucc
      cases hsucc
  | cons a l' ih =>
    obtain ⟨ha, hrest⟩ := path_cons.mp hpath
    rcases h.owner_progress howner with hrun | ⟨b, t', hsucc, howner'⟩
    · exact ⟨t, hrun⟩
    · rw [ha] at hsucc
      obtain rfl := Option.some_inj.mp hsucc
      exact ih hrest howner'

theorem unblocked (hpc : ¬ (s.pc t).Finished) : ∃ t' s', s.run t' = some s' := by
  rcases h.progress t hpc with hrun | ⟨p, t', hwaits, howner⟩
  · exact ⟨t, hrun⟩
  · rcases Pc.waits_eq hwaits with ⟨rfl, -⟩ | ⟨current, b, rfl, -, hedge⟩
    · exact h.unblocked_of_owner h.path howner
    · obtain ⟨l₁, l₂, rfl⟩ := List.append_of_mem (h.edge_mem hedge).2
      exact h.unblocked_of_owner (path_cons.mp (path_append.mp h.path).2).2 howner

end Inv

theorem lock_pc (hlock : s.lock t p pc = some s') : s'.pc t = pc := by
  rw [State.lock, Option.ite_none_right_eq_some] at hlock
  obtain ⟨-, hlock⟩ := hlock
  cases hlock
  exact Function.update_self ..

theorem unlock_pc (hunlock : s.unlock t p pc = some s') : s'.pc t = pc := by
  rw [State.unlock, Option.ite_none_right_eq_some] at hunlock
  obtain ⟨-, hunlock⟩ := hunlock
  cases hunlock
  exact Function.update_self ..

theorem delete_pc (hdelete : s.delete t a pc = some s') : s'.pc t = pc := by
  rw [State.delete, Option.ite_none_right_eq_some] at hdelete
  obtain ⟨-, hdelete⟩ := hdelete
  cases hdelete
  exact Function.update_self ..

omit [DecidableEq τ] [DecidableEq ν] in
theorem Changes.eq_of_not_moved (h : Changes s t l l') (hmoved : (s.pc t).moved = none) :
    l' = l := by
  cases h with
  | same => rfl
  | push hpc =>
    rw [hpc] at hmoved
    cases hmoved
  | remove hpc =>
    rw [hpc] at hmoved
    cases hmoved

omit [DecidableEq τ] [DecidableEq ν] in
theorem Changes.eq_of_removeLink (h : Changes s t (l₁ ++ a :: l₂) l')
    (hpc : s.pc t = .removeLink P p a) (hnodup : (l₁ ++ a :: l₂).Nodup) : l' = l₁ ++ l₂ := by
  have hfresh := (List.nodup_cons.mp (List.nodup_middle.mp hnodup)).1
  rw [List.mem_append, not_or] at hfresh
  generalize heq : l₁ ++ a :: l₂ = l at h
  cases h with
  | same l hmoved =>
    rw [hpc] at hmoved
    cases hmoved
  | push hpush =>
    rw [hpc] at hpush
    cases hpush
  | remove hremove =>
    rw [hpc] at hremove
    cases hremove
    obtain ⟨rfl, -, rfl⟩ := (List.append_cons_inj_of_notMem hfresh.1 hfresh.2).mp heq
    rfl

/-- Where `t` is once it has taken steps alone from `s₀`, the list then being `l`. -/
structure Solo (t : τ) (s₀ : State τ ν α) (pc : Pc ν α) (s : State τ ν α) (l : List ν) : Prop where
  run : ∃ n, Lts.Run Step s₀ (List.replicate n (.run t)) s
  inv : Inv s l
  alone : ∀ t', t' ≠ t → (s.pc t').Finished
  pc_eq : s.pc t = pc
  data : ∀ a ∈ l, s.data a = s₀.data a

namespace Solo

variable {s₀ : State τ ν α}

/-- Alone, a thread never waits. -/
theorem next (h : Solo t s₀ pc s l) (hpc : ¬ pc.Finished) (hpush : ∀ a v, pc ≠ .pushLink a v) :
    ∃ s' l', s.run t = some s' ∧ Changes s t l l' ∧ Solo t s₀ (s'.pc t) s' l' := by
  have hrun : ∃ s', s.run t = some s' := by
    rcases h.inv.progress t (h.pc_eq ▸ hpc) with hrun | ⟨p, t', hwaits, howner⟩
    · exact hrun
    · have ht : t' ≠ t := fun heq => h.inv.waits_other hwaits (heq ▸ howner)
      have hp := (h.inv.owner p t').mp howner
      rw [(h.alone t' ht).held_eq] at hp
      cases hp
  obtain ⟨s', hrun⟩ := hrun
  obtain ⟨l', hs', hchanges, hdata, hothers⟩ := h.inv.run hrun
  obtain ⟨n, hfirst⟩ := h.run
  refine ⟨s', l', hrun, hchanges, ⟨n + 1, ?_⟩, hs', fun t' ht => ?_, rfl, fun a ha => ?_⟩
  · rw [List.replicate_succ']
    exact Lts.run_append.mpr ⟨s, hfirst, .cons hrun (.refl s')⟩
  · rw [hothers t' ht]
    exact h.alone t' ht
  · rw [hdata a ha]
    refine h.data a ?_
    cases hchanges with
    | same => exact ha
    | push hlink => exact absurd (h.pc_eq.symm.trans hlink) (hpush _ _)
    | remove => exact ((List.sublist_cons_self _ _).append_left _).subset ha

/-- A step without a link of the list. -/
theorem same (h : Solo t s₀ pc s l) (hpc : ¬ pc.Finished) (hmoved : pc.moved = none)
    (hnext : ∀ s', s.run t = some s' → s'.pc t = pc') : ∃ s', Solo t s₀ pc' s' l := by
  have hpush : ∀ a v, pc ≠ .pushLink a v := by
    rintro a v rfl
    cases hmoved
  obtain ⟨s', l', hrun, hchanges, hs'⟩ := h.next hpc hpush
  rw [hnext s' hrun, hchanges.eq_of_not_moved (h.pc_eq ▸ hmoved)] at hs'
  exact ⟨s', hs'⟩

theorem read (h : Solo t s₀ (.removeRead P p) s l) : s.read p = some (s.succ p) := by
  have hp : p ∈ (s.pc t).held := by
    rw [h.pc_eq]
    exact List.mem_singleton.mpr rfl
  rw [h.inv.read_eq hp, h.inv.succ_of_held hp]
  rw [h.pc_eq]
  exact nofun

/-- The end of the list. -/
theorem exit (h : Solo t s₀ (.removeRead P (last .head l)) s l) :
    ∃ s', Solo t s₀ (.finished none) s' l := by
  have hread := h.read
  rw [h.inv.path.2] at hread
  have hexit : ∃ s₁, Solo t s₀ (.removeExit (last .head l)) s₁ l := by
    refine h.same id rfl fun s₁ hrun => ?_
    simp only [State.run, h.pc_eq, hread, Option.map_some] at hrun
    cases hrun
    exact Function.update_self ..
  obtain ⟨s₁, h₁⟩ := hexit
  refine h₁.same id rfl fun s₂ hrun => ?_
  simp only [State.run, h₁.pc_eq] at hrun
  exact unlock_pc hrun

/-- On to the test of the next node. -/
theorem advance (h : Solo t s₀ (.removeRead P (last .head l₁)) s (l₁ ++ a :: l₂)) :
    ∃ s', Solo t s₀ (.removeTest P (last .head l₁) a) s' (l₁ ++ a :: l₂) := by
  have hread := h.read
  rw [(path_cons.mp (path_append.mp h.inv.path).2).1] at hread
  have hlock : ∃ s₁, Solo t s₀ (.removeLockNext P (last .head l₁) a) s₁ (l₁ ++ a :: l₂) := by
    refine h.same id rfl fun s₁ hrun => ?_
    simp only [State.run, h.pc_eq, hread, Option.map_some] at hrun
    cases hrun
    exact Function.update_self ..
  obtain ⟨s₁, h₁⟩ := hlock
  refine h₁.same id rfl fun s₂ hrun => ?_
  simp only [State.run, h₁.pc_eq] at hrun
  exact lock_pc hrun

/-- The lock of a node that stays takes the place of the lock before it. -/
theorem keepNode (h : Solo t s₀ (.removeTest P p a) s (l₁ ++ a :: l₂))
    (hP : (s₀.data a).any P = false) :
    ∃ s', Solo t s₀ (.removeRead P (.node a)) s' (l₁ ++ a :: l₂) := by
  have htest : ∃ s₁, Solo t s₀ (.removeAdvance P p a) s₁ (l₁ ++ a :: l₂) := by
    refine h.same id rfl fun s₁ hrun => ?_
    simp only [State.run, h.pc_eq] at hrun
    obtain ⟨v, hv, rfl⟩ := Option.map_eq_some_iff.mp hrun
    rw [← h.data a (by simp), hv] at hP
    rw [if_neg (by simpa using hP)]
    exact Function.update_self ..
  obtain ⟨s₁, h₁⟩ := htest
  refine h₁.same id rfl fun s₂ hrun => ?_
  simp only [State.run, h₁.pc_eq] at hrun
  exact unlock_pc hrun

/-- A node that satisfies the predicate goes. -/
theorem dropNode (h : Solo t s₀ (.removeTest P p a) s (l₁ ++ a :: l₂))
    (hP : (s₀.data a).any P = true) : ∃ s', Solo t s₀ (.removeRead P p) s' (l₁ ++ l₂) := by
  have htest : ∃ s₁, Solo t s₀ (.removeTake P p a) s₁ (l₁ ++ a :: l₂) := by
    refine h.same id rfl fun s₁ hrun => ?_
    simp only [State.run, h.pc_eq] at hrun
    obtain ⟨v, hv, rfl⟩ := Option.map_eq_some_iff.mp hrun
    rw [← h.data a (by simp), hv] at hP
    rw [if_pos (by simpa using hP)]
    exact Function.update_self ..
  obtain ⟨s₁, h₁⟩ := htest
  have htake : ∃ s₂, Solo t s₀ (.removeLink P p a) s₂ (l₁ ++ a :: l₂) := by
    refine h₁.same id rfl fun s₂ hrun => ?_
    simp only [State.run, h₁.pc_eq] at hrun
    exact (take_eq_some hrun).1.pc_self
  obtain ⟨s₂, h₂⟩ := htake
  obtain ⟨s₃, l', hrun, hchanges, h₃⟩ := h₂.next id (by simp)
  simp only [State.run, h₂.pc_eq] at hrun
  rw [(move_eq_some hrun).1.pc_self, hchanges.eq_of_removeLink h₂.pc_eq h₂.inv.path.nodup] at h₃
  have hunlock : ∃ s₄, Solo t s₀ (.removeDelete P p a) s₄ (l₁ ++ l₂) := by
    refine h₃.same id rfl fun s₄ hrun => ?_
    simp only [State.run, h₃.pc_eq] at hrun
    exact unlock_pc hrun
  obtain ⟨s₄, h₄⟩ := hunlock
  refine h₄.same id rfl fun s₅ hrun => ?_
  simp only [State.run, h₄.pc_eq] at hrun
  exact delete_pc hrun

/-- The loop of `remove_if`: induction along what is left of the list. -/
theorem remove_loop (h : Solo t s₀ (.removeRead P (last .head l₁)) s (l₁ ++ l₂)) :
    ∃ s', Solo t s₀ (.finished none) s' (l₁ ++ l₂.filter fun a => !(s₀.data a).any P) := by
  induction l₂ generalizing l₁ s with
  | nil =>
    rw [List.append_nil] at h
    simpa using h.exit
  | cons a l₂ ih =>
    obtain ⟨s₁, h₁⟩ := h.advance
    cases hP : (s₀.data a).any P with
    | true =>
      obtain ⟨s₂, h₂⟩ := h₁.dropNode hP
      simpa [hP] using ih h₂
    | false =>
      obtain ⟨s₂, h₂⟩ := h₁.keepNode hP
      have hlast : last .head (l₁ ++ [a]) = .node a := last_append
      rw [List.append_cons l₁ a l₂, ← hlast] at h₂
      simpa [hP] using ih h₂

end Solo

end Hplsp.ThreadsafeList
