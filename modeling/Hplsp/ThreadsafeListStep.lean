import Hplsp.ThreadsafeListInv

/-! The invariant along every step of `push_front`, `find_first_if` and `remove_if`. -/

namespace Hplsp.ThreadsafeList

open Linked

variable {τ ν α : Type} [DecidableEq τ] [DecidableEq ν] {s s' : State τ ν α} {t t' : τ}
  {l l' : List ν} {pc pc' : Pc ν α} {p q : Place ν} {a b : ν} {P : α → Bool}
  {v : α}

/-- What an update of links by `t` leaves alone. -/
structure Relinked (t : τ) (pc : Pc ν α) (s s' : State τ ν α) : Prop where
  data : s'.data = s.data
  owner : s'.owner = s.owner
  pc : s'.pc = Function.update s.pc t pc

theorem take_eq_some (htake : s.take t p a pc = some s') :
    Relinked t pc s s' ∧ s.next p = some a ∧ s'.next = Function.update s.next p none := by
  rw [State.take, Option.ite_none_right_eq_some] at htake
  obtain ⟨⟨-, hread⟩, htake⟩ := htake
  cases htake
  exact ⟨⟨rfl, rfl, rfl⟩, hread, rfl⟩

theorem move_eq_some (hmove : s.move t p q pc = some s') :
    Relinked t pc s s' ∧ s.next p = none ∧
      s'.next = Function.update (Function.update s.next p (s.next q)) q none := by
  rw [State.move, Option.ite_none_right_eq_some] at hmove
  obtain ⟨⟨-, -, hnull⟩, hmove⟩ := hmove
  cases hmove
  exact ⟨⟨rfl, rfl, rfl⟩, hnull, rfl⟩

theorem link_eq_some (hlink : s.link t p a pc = some s') :
    Relinked t pc s s' ∧ s'.next = Function.update s.next p (some a) := by
  rw [State.link, Option.ite_none_right_eq_some] at hlink
  obtain ⟨-, hlink⟩ := hlink
  cases hlink
  exact ⟨⟨rfl, rfl, rfl⟩, rfl⟩

omit [DecidableEq ν] in
theorem Relinked.pc_self (h : Relinked t pc s s') : s'.pc t = pc := by
  rw [h.pc, Function.update_self]

omit [DecidableEq ν] in
theorem Relinked.toLocal (h : Relinked t pc s s')
    (hnext : ∀ p, ¬ (s.pc t).Mine p → s'.next p = s.next p)
    (hplaces : ∀ p ∈ places .head l, ¬ (s.pc t).Mine p → p ∈ places .head l')
    (hnodes : ∀ a ∈ l', a ∈ l ∨ (s.pc t).own = some a) : Local t s s' l l' where
  pc t' ht := by rw [h.pc, Function.update_of_ne ht]
  owner p t' _ := by rw [h.owner]
  next p _ := hnext p
  data a _ _ := by rw [h.data]
  places := hplaces
  nodes := hnodes

namespace Inv

variable (h : Inv s l)
include h

theorem relink (hlinks : Relinked t pc s s') (hlocal : Local t s s' l l')
    (hpath : Path s'.succ .head l') (hheld : pc.held = (s.pc t).held) (hok : s'.Ok l' pc)
    (hown : ∀ a, pc.own = some a → (s.pc t).own = some a ∨ a ∈ l) : Inv s' l' := by
  refine h.step hlocal hpath (fun a ha => ?_) (fun p => ?_) ?_ fun a ha => ?_
  · rw [hlinks.data]
    rcases hlocal.nodes a ha with hmem | hmine
    · exact h.alive a hmem
    · exact ((h.ok t).own a hmine).2
  · rw [hlinks.owner, hlinks.pc_self, hheld]
    exact h.owner p t
  · rwa [hlinks.pc_self]
  · rw [hlinks.pc_self] at ha
    exact (hown a ha).imp_right Or.inl

/-- `new_node->next = std::move(head.next)`: the list goes on behind the new node. -/
theorem pushTake (hpc : s.pc t = .pushTake a v)
    (hmove : s.move t (.node a) .head (.pushLink a v) = some s') : Advances s t l s' := by
  obtain ⟨hlinks, -, hnext⟩ := move_eq_some hmove
  have hheld : (s.pc t).held = [.head] := by rw [hpc]; rfl
  have hown : (s.pc t).own = some a := by rw [hpc]; rfl
  have hmoved : (s.pc t).moved = none := by rw [hpc]; rfl
  have hhead : .head ∈ (s.pc t).held := by simp [hheld]
  obtain ⟨hmem, halive⟩ := (h.ok t).own a hown
  have hlocal : Local t s s' l l := by
    refine hlinks.toLocal (fun p hmine => ?_) (fun _ hp _ => hp) fun _ ha => Or.inl ha
    have hp : p ≠ .head := fun heq => hmine (Or.inl (heq ▸ hhead))
    have hnode : p ≠ .node a := fun heq => hmine (Or.inr ⟨a, hown, heq⟩)
    rw [hnext, Function.update_of_ne hp, Function.update_of_ne hnode]
  have hpath : Path s'.succ .head l := by
    refine h.path.congr fun q hq => ?_
    cases q with
    | head =>
      have howner : s'.owner .head = some t := by
        rw [hlinks.owner]
        exact (h.owner .head t).mpr hhead
      rw [State.succ_of_moved howner (by rw [hlinks.pc_self]; rfl), hlinks.pc_self,
        h.succ_of_held hhead (by simp [hmoved])]
      simp [Pc.link, hnext]
    | node b =>
      have hne : b ≠ a := fun heq => hmem (heq ▸ node_mem_places.mp hq)
      exact hlocal.succ_congr h (by simp [hnext, hne]) (by simp [hmoved])
        (by simp [hlinks.pc_self, Pc.moved])
  have hok : s'.Ok l (.pushLink a v) := by
    have hold := (h.ok t).known
    rw [hpc] at hold
    refine ⟨fun p hp => Or.inl ?_, List.nodup_singleton _, ?_, by simp [Pc.edge], ?_,
      hlinks.data ▸ hold⟩
    · rw [List.mem_singleton.mp hp]
      exact List.mem_cons_self
    · simp [Pc.own, hmem, halive, hlinks.data]
    · simp [Pc.null, hnext]
  exact ⟨l, h.relink hlinks hlocal hpath hheld.symm hok fun b hb => Or.inl (hown.trans hb),
    .same l hmoved, fun _ _ => by rw [hlinks.data], hlocal.pc⟩

/-- `head.next = std::move(new_node)`: the node is in the list, in front. -/
theorem pushLink (hpc : s.pc t = .pushLink a v)
    (hlink : s.link t .head a .pushUnlock = some s') : Advances s t l s' := by
  obtain ⟨hlinks, hnext⟩ := link_eq_some hlink
  have hheld : (s.pc t).held = [.head] := by rw [hpc]; rfl
  have hown : (s.pc t).own = some a := by rw [hpc]; rfl
  have hhead : .head ∈ (s.pc t).held := by simp [hheld]
  have howner := (h.owner .head t).mpr hhead
  have hfree := h.owner_own hown (by simp [hheld])
  obtain ⟨hmem, halive⟩ := (h.ok t).own a hown
  have hlocal : Local t s s' l (a :: l) := by
    refine hlinks.toLocal (fun p hmine => ?_) (fun p hp _ => ?_) fun b hb => ?_
    · have hp : p ≠ .head := fun heq => hmine (Or.inl (heq ▸ hhead))
      rw [hnext, Function.update_of_ne hp]
    · exact places_subset (List.subset_cons_self a l) hp
    · exact (List.mem_cons.mp hb).elim (fun heq => Or.inr (heq ▸ hown)) Or.inl
  have hmoved : (s'.pc t).moved = none := by rw [hlinks.pc_self]; rfl
  have hpath : Path s'.succ .head (a :: l) := by
    refine h.path.push ?_ ?_ fun b hb => ?_
    · rw [State.succ_of_owner (hlinks.owner ▸ howner) (by simp [hmoved]), hnext,
        Function.update_self]
    · rw [State.succ_eq_next (by simp [hlinks.owner, hfree]),
        State.succ_of_moved howner (by rw [hpc]; rfl), hpc, hnext,
        Function.update_of_ne (by simp)]
      rfl
    · exact hlocal.succ_congr h (by simp [hnext]) (by simp [hpc, Pc.moved]) (by simp [hmoved])
  have hok : s'.Ok (a :: l) .pushUnlock :=
    .walk ⟨rfl, rfl, rfl, rfl⟩ (fun p hp => List.mem_singleton.mp hp ▸ List.mem_cons_self)
      (List.nodup_singleton _) (by simp [Pc.edge])
  have hvalue : s.data a = some v := by
    obtain ⟨w, hw, rfl⟩ := (h.ok t).known a (fun w => w = v) (by rw [hpc]; rfl)
    exact hw
  have hown : ∀ b, (Pc.pushUnlock : Pc ν α).own = some b → (s.pc t).own = some b ∨ b ∈ l := by
    simp [Pc.own, Pc.unlinked]
  exact ⟨a :: l, h.relink hlinks hlocal hpath hheld.symm hok hown, .push hpc hvalue,
    fun _ _ => by rw [hlinks.data], hlocal.pc⟩

/-- `old_next = std::move(current->next)`: the list goes on behind the old pointer. -/
theorem removeTake (hpc : s.pc t = .removeTake P p a)
    (htake : s.take t p a (.removeLink P p a) = some s') : Advances s t l s' := by
  obtain ⟨hlinks, hread, hnext⟩ := take_eq_some htake
  have hheld : (s.pc t).held = [p, .node a] := by rw [hpc]; rfl
  have hmoved : (s.pc t).moved = none := by rw [hpc]; rfl
  have hp : p ∈ (s.pc t).held := by simp [hheld]
  have hedge : (s.pc t).edge = some (p, a) := by rw [hpc]; rfl
  have hne := h.edge_ne hedge
  have howner := (h.owner p t).mpr hp
  have hlocal : Local t s s' l l := by
    refine hlinks.toLocal (fun q hmine => ?_) (fun _ hq _ => hq) fun _ hb => Or.inl hb
    have hq : q ≠ p := fun heq => hmine (Or.inl (heq ▸ hp))
    rw [hnext, Function.update_of_ne hq]
  have hsucc : s'.succ p = some a := by
    rw [State.succ_of_moved (hlinks.owner ▸ howner) (by rw [hlinks.pc_self]; rfl), hlinks.pc_self]
    rfl
  have hpath : Path s'.succ .head l := by
    refine h.path.congr fun q _ => ?_
    by_cases hq : q = p
    · rw [hq, hsucc, (h.ok t).edge p a hedge]
    · exact hlocal.succ_congr h (by simp [hnext, hq]) (by simp [hmoved])
        (by simp [hlinks.pc_self, Pc.moved, Ne.symm hq])
  have hok : s'.Ok l (.removeLink P p a) := by
    have hold := h.ok t
    rw [hpc] at hold
    refine ⟨hold.held, hold.nodup, by simp [Pc.own, Pc.unlinked], fun q b hqb => ?_,
      fun q hq => ?_, ?_⟩
    · cases hqb
      exact hsucc
    · cases hq
      rw [hnext, Function.update_self]
    · rw [hlinks.data]
      exact hold.known
  have hown : ∀ b, (Pc.removeLink P p a).own = some b → (s.pc t).own = some b ∨ b ∈ l := by
    simp [Pc.own, Pc.unlinked]
  exact ⟨l, h.relink hlinks hlocal hpath hheld.symm hok hown, .same l hmoved,
    fun _ _ => by rw [hlinks.data], hlocal.pc⟩

/-- `current->next = std::move(next->next)`: the node is out of the list. -/
theorem removeLink (hpc : s.pc t = .removeLink P p a)
    (hmove : s.move t p (.node a) (.removeUnlock P p a) = some s') : Advances s t l s' := by
  obtain ⟨hlinks, -, hnext⟩ := move_eq_some hmove
  have hheld : (s.pc t).held = [p, .node a] := by rw [hpc]; rfl
  have hmoved : (s.pc t).moved = some p := by rw [hpc]; rfl
  have hmoved' : (s'.pc t).moved = none := by rw [hlinks.pc_self]; rfl
  have hp : p ∈ (s.pc t).held := by simp [hheld]
  have ha : .node a ∈ (s.pc t).held := by simp [hheld]
  have hedge : (s.pc t).edge = some (p, a) := by rw [hpc]; rfl
  have hne := h.edge_ne hedge
  obtain ⟨hplace, hmem⟩ := h.edge_mem hedge
  obtain ⟨value, hvalue, hP⟩ := (h.ok t).known a (fun v => P v = true) (by rw [hpc]; rfl)
  obtain ⟨l₁, l₂, rfl, hlast⟩ := h.path.split hplace ((h.ok t).edge p a hedge)
  have hfresh : a ∉ l₁ ++ l₂ := (List.nodup_cons.mp (List.nodup_middle.mp h.path.nodup)).1
  have hplaces : ∀ q ∈ places .head (l₁ ++ a :: l₂), q ≠ .node a → q ∈ places .head (l₁ ++ l₂) := by
    intro q hq hqa
    cases q with
    | head => exact List.mem_cons_self
    | node b =>
      have hb := node_mem_places.mp hq
      have hba : b ≠ a := fun heq => hqa (heq ▸ rfl)
      simp only [List.mem_append, List.mem_cons, hba, false_or] at hb
      exact node_mem_places.mpr (List.mem_append.mpr hb)
  have hlocal : Local t s s' (l₁ ++ a :: l₂) (l₁ ++ l₂) := by
    refine hlinks.toLocal (fun q hmine => ?_) (fun q hq hmine => ?_) fun b hb => Or.inl ?_
    · have hqp : q ≠ p := fun heq => hmine (Or.inl (heq ▸ hp))
      have hqa : q ≠ .node a := fun heq => hmine (Or.inl (heq ▸ ha))
      rw [hnext, Function.update_of_ne hqa, Function.update_of_ne hqp]
    · exact hplaces q hq fun heq => hmine (Or.inl (heq ▸ ha))
    · exact ((List.sublist_cons_self a l₂).append_left l₁).subset hb
  have hpath : Path s'.succ .head (l₁ ++ l₂) := by
    refine h.path.remove ?_ fun q hqp hqa => ?_
    · rw [hlast, State.succ_of_owner (hlinks.owner ▸ (h.owner p t).mpr hp) (by simp [hmoved']),
        h.succ_of_held ha (by simp [hmoved, hne]), hnext, Function.update_of_ne hne,
        Function.update_self]
    · rw [hlast] at hqp
      exact hlocal.succ_congr h (by simp [hnext, hqp, hqa]) (by simp [hmoved, Ne.symm hqp])
        (by simp [hmoved'])
  have hok : s'.Ok (l₁ ++ l₂) (.removeUnlock P p a) := by
    have hold := h.ok t
    rw [hpc] at hold
    refine ⟨fun q hq => ?_, hold.nodup, fun b hb => ?_, by simp [Pc.edge], fun q hq => ?_,
      by simp [Pc.known]⟩
    · rcases List.mem_cons.mp hq with rfl | hq
      · exact Or.inl (hplaces _ hplace hne)
      · exact Or.inr ⟨a, rfl, List.mem_singleton.mp hq⟩
    · cases hb
      rw [hlinks.data, hvalue]
      exact ⟨hfresh, rfl⟩
    · cases hq
      rw [hnext, Function.update_self]
  have hown : ∀ b, (Pc.removeUnlock P p a).own = some b →
      (s.pc t).own = some b ∨ b ∈ l₁ ++ a :: l₂ := by
    intro b hb
    cases hb
    exact Or.inr hmem
  exact ⟨l₁ ++ l₂, h.relink hlinks hlocal hpath hheld.symm hok hown, .remove hpc hvalue hP,
    fun _ _ => by rw [hlinks.data], hlocal.pc⟩

/-- The end of `old_next`: the node is gone, and nobody else knows of it. -/
theorem removeDelete (hpc : s.pc t = .removeDelete P p a)
    (hdelete : s.delete t a (.removeRead P p) = some s') : Advances s t l s' := by
  rw [State.delete, Option.ite_none_right_eq_some] at hdelete
  obtain ⟨-, hdelete⟩ := hdelete
  have hnext : s'.next = s.next := by cases hdelete; rfl
  have howner : s'.owner = s.owner := by cases hdelete; rfl
  have hdata : s'.data = Function.update s.data a none := by cases hdelete; rfl
  have hpcs : s'.pc = Function.update s.pc t (.removeRead P p) := by cases hdelete; rfl
  have hpct : s'.pc t = .removeRead P p := by rw [hpcs, Function.update_self]
  have hown : (s.pc t).own = some a := by rw [hpc]; rfl
  have hmoved : (s.pc t).moved = none := by rw [hpc]; rfl
  obtain ⟨hmem, -⟩ := (h.ok t).own a hown
  have hlocal : Local t s s' l l := {
    pc := fun t' ht => by rw [hpcs, Function.update_of_ne ht]
    owner := fun q t' _ => by rw [howner]
    next := fun q _ _ => by rw [hnext]
    data := fun b _ hb => by
      rw [hown] at hb
      have hba : b ≠ a := fun heq => hb (heq ▸ rfl)
      rw [hdata, Function.update_of_ne hba]
    places := fun _ hq _ => hq
    nodes := fun _ hb => Or.inl hb }
  have hkept : ∀ b ∈ l, s'.data b = s.data b := by
    intro b hb
    have hba : b ≠ a := fun heq => hmem (heq ▸ hb)
    rw [hdata, Function.update_of_ne hba]
  refine h.unchanged hlocal (fun q _ => by rw [hnext]) hkept (fun q => ?_) hmoved
    (by rw [hpct]; rfl) ?_ ?_
  · rw [howner, h.owner, hpc, hpct]
    exact Iff.rfl
  · rw [hpct]
    refine .walk ⟨rfl, rfl, rfl, rfl⟩ (fun q hq => ?_) (List.nodup_singleton _)
      (by simp [Pc.edge])
    exact h.held_places (t := t) (by rw [hpc]; rfl) (by rwa [hpc])
  · rw [hpct]
    simp [Pc.own, Pc.unlinked]

/-- `current->next.get()`, in a loop that goes on or ends. -/
theorem read {next : Option ν} (hw : (s.pc t).Walks) (hheld : (s.pc t).held = [p])
    (hread : s.read p = some next) (hw' : pc.Walks) (hheld' : pc.held = [p])
    (hedge' : ∀ q a, pc.edge = some (q, a) → q = p ∧ next = some a) :
    Advances s t l (s.goto t pc) := by
  refine h.goto (hheld'.trans hheld.symm) hw.moved hw'.moved ?_ (hw'.own.trans hw.own.symm)
  refine .walk hw' (fun q hq => ?_) (hheld' ▸ List.nodup_singleton p) fun q a ha => ?_
  · exact h.held_places hw.removed (hheld ▸ hheld' ▸ hq)
  · obtain ⟨rfl, rfl⟩ := hedge' q a ha
    exact h.succ_of_read hheld hw.moved hread

/-- The lock of the next node, with the lock of the current place held. -/
theorem lockNext (hw : (s.pc t).Walks) (hheld : (s.pc t).held = [p])
    (hedge : (s.pc t).edge = some (p, a)) (hlock : s.lock t (.node a) pc = some s')
    (hw' : pc.Walks) (hheld' : pc.held = [p, .node a]) (hedge' : pc.edge = some (p, a)) :
    Advances s t l s' := by
  obtain ⟨hp, ha⟩ := h.edge_mem hedge
  have hne := h.edge_ne hedge
  refine h.lock hlock (fun q => ?_) hw.moved hw'.moved ?_ (hw'.own.trans hw.own.symm)
  · simp [hheld, hheld', or_comm]
  · refine .walk hw' (fun q hq => ?_) ?_ fun q b hb => ?_
    · rw [hheld'] at hq
      rcases List.mem_cons.mp hq with rfl | hq
      · exact hp
      · exact List.mem_singleton.mp hq ▸ node_mem_places.mpr ha
    · simpa [hheld'] using hne
    · rw [hedge'] at hb
      cases hb
      exact (h.ok t).edge p a hedge

/-- The lock behind is given up once the next node is locked. -/
theorem unlockCurrent (hw : (s.pc t).Walks) (hheld : (s.pc t).held = [p, .node a])
    (hedge : (s.pc t).edge = some (p, a)) (hunlock : s.unlock t p pc = some s') (hw' : pc.Walks)
    (hheld' : pc.held = [.node a]) (hedge' : pc.edge = none) : Advances s t l s' := by
  obtain ⟨-, ha⟩ := h.edge_mem hedge
  have hne := h.edge_ne hedge
  refine h.unlock hunlock (fun q => ?_) hw.moved hw'.moved ?_ (hw'.own.trans hw.own.symm)
  · rw [hheld, hheld', List.mem_singleton, List.mem_cons, List.mem_singleton]
    constructor
    · rintro rfl
      exact ⟨hne.symm, Or.inr rfl⟩
    · rintro ⟨hqp, hq⟩
      exact hq.resolve_left hqp
  · refine .walk hw' (fun q hq => ?_) (hheld' ▸ List.nodup_singleton _) (by simp [hedge'])
    rw [hheld'] at hq
    exact List.mem_singleton.mp hq ▸ node_mem_places.mpr ha

/-- The first lock of a walk. -/
theorem lockHead (hw : (s.pc t).Walks) (hheld : (s.pc t).held = [])
    (hlock : s.lock t .head pc = some s') (hw' : pc.Walks) (hheld' : pc.held = [.head])
    (hedge' : pc.edge = none) : Advances s t l s' := by
  refine h.lock hlock (by simp [hheld, hheld']) hw.moved hw'.moved ?_ (hw'.own.trans hw.own.symm)
  refine .walk hw' (fun q hq => ?_) (hheld' ▸ List.nodup_singleton _) (by simp [hedge'])
  rw [hheld'] at hq
  exact List.mem_singleton.mp hq ▸ List.mem_cons_self

/-- The last unlock of a call. -/
theorem finish {found : Option α} (hw : (s.pc t).Walks) (hheld : (s.pc t).held = [p])
    (hunlock : s.unlock t p (.finished found) = some s') : Advances s t l s' := by
  refine h.unlock hunlock (fun q => ?_) hw.moved rfl ?_ hw.own.symm
  · rw [hheld]
    simp [Pc.held]
  · exact .rest ⟨rfl, rfl, rfl, rfl⟩ rfl rfl

/-- A predicate test, which keeps all locks. -/
theorem test (hw : (s.pc t).Walks) (hheld : pc.held = (s.pc t).held) (hmoved' : pc.moved = none)
    (hown' : pc.own = none) (hnull' : pc.null = none)
    (hedge' : ∀ q a, pc.edge = some (q, a) → (s.pc t).edge = some (q, a))
    (hknown' : ∀ a Q, pc.known = some (a, Q) → ∃ v, s.data a = some v ∧ Q v) :
    Advances s t l (s.goto t pc) := by
  refine h.goto hheld hw.moved hmoved' ?_ (hown'.trans hw.own.symm)
  refine ⟨fun q hq => Or.inl (h.held_places hw.removed (hheld ▸ hq)), hheld ▸ (h.ok t).nodup,
    by simp [hown'], fun q a ha => (h.ok t).edge q a (hedge' q a ha), by simp [hnull'], hknown'⟩

/-- The lock of the node that is out of the list is given up. -/
theorem removeUnlock (hpc : s.pc t = .removeUnlock P p a)
    (hunlock : s.unlock t (.node a) (.removeDelete P p a) = some s') : Advances s t l s' := by
  have hok := h.ok t
  have hheld : (s.pc t).held = [p, .node a] := by rw [hpc]; rfl
  have hne : p ≠ .node a := by
    have hnodup := hok.nodup
    rw [hheld] at hnodup
    simpa using hnodup
  refine h.unlock hunlock (fun q => ?_) (by rw [hpc]; rfl) rfl ?_ (by rw [hpc]; rfl)
  · rw [hheld, List.mem_cons, List.mem_singleton]
    constructor
    · intro hq
      obtain rfl := List.mem_singleton.mp hq
      exact ⟨hne, Or.inl rfl⟩
    · rintro ⟨hqa, hq⟩
      exact List.mem_singleton.mpr (hq.resolve_right hqa)
  · have hp := hok.held p (by simp [hheld])
    rw [hpc] at hok hp
    refine ⟨fun q hq => Or.inl ?_, List.nodup_singleton _, hok.own, by simp [Pc.edge], hok.null,
      by simp [Pc.known]⟩
    obtain rfl := List.mem_singleton.mp hq
    refine hp.resolve_right ?_
    rintro ⟨b, hb, heq⟩
    cases hb
    exact hne heq

/-- A new node is nobody else's. -/
theorem pushFront {found : Option α} (hpc : s.pc t = .finished found)
    (hfresh : s.alive (.node a) = false) (hnext : s'.next = Function.update s.next (.node a) none)
    (hdata : s'.data = Function.update s.data a (some v))
    (howner : s'.owner = Function.update s.owner (.node a) none)
    (hpcs : s'.pc = Function.update s.pc t (.pushLock a v)) : Advances s t l s' := by
  have hpct : s'.pc t = .pushLock a v := by rw [hpcs, Function.update_self]
  have hmoved : (s.pc t).moved = none := by rw [hpc]; rfl
  have hnone : s.data a = none := Option.not_isSome_iff_eq_none.mp (ne_true_of_eq_false hfresh)
  have hmem : a ∉ l := fun ha => Bool.false_ne_true (hfresh.symm.trans (h.alive a ha))
  have hfree : s.owner (.node a) = none := by
    refine Option.eq_none_iff_forall_ne_some.mpr fun t' ht' => ?_
    exact Bool.false_ne_true
      (hfresh.symm.trans (h.alive_of_mine (Or.inl ((h.owner _ t').mp ht'))))
  have hsame : s'.owner = s.owner := by rw [howner, ← hfree, Function.update_eq_self]
  have hlocal : Local t s s' l l := {
    pc := fun t' ht => by rw [hpcs, Function.update_of_ne ht]
    owner := fun q t' _ => by rw [hsame]
    next := fun q hq _ => by
      have hqa : q ≠ .node a := fun heq => ne_true_of_eq_false hfresh (heq ▸ hq)
      rw [hnext, Function.update_of_ne hqa]
    data := fun b hb _ => by
      have hba : b ≠ a := fun heq => ne_true_of_eq_false hfresh (heq ▸ hb)
      rw [hdata, Function.update_of_ne hba]
    places := fun _ hq _ => hq
    nodes := fun _ hb => Or.inl hb }
  have hkept : ∀ b ∈ l, s'.data b = s.data b := by
    intro b hb
    have hba : b ≠ a := fun heq => hmem (heq ▸ hb)
    rw [hdata, Function.update_of_ne hba]
  refine h.unchanged hlocal (fun q hq => ?_) hkept (fun q => ?_) hmoved (by rw [hpct]; rfl) ?_ ?_
  · have hqa : q ≠ .node a := fun heq => hmem (node_mem_places.mp (heq ▸ hq))
    rw [hnext, Function.update_of_ne hqa]
  · rw [hsame, h.owner, hpc, hpct]
    exact Iff.rfl
  · rw [hpct]
    refine ⟨by simp [Pc.held], List.nodup_nil, fun b hb => ?_, by simp [Pc.edge], fun q hq => ?_,
      fun b Q hQ => ?_⟩
    · cases hb
      rw [hdata, Function.update_self]
      exact ⟨hmem, rfl⟩
    · cases hq
      rw [hnext, Function.update_self]
    · cases hQ
      exact ⟨v, by rw [hdata, Function.update_self], rfl⟩
  · intro b hb
    rw [hpct] at hb
    cases hb
    exact Or.inr (Or.inr hnone)

/-- A call only makes the thread start. -/
theorem call {op : Op ν α} (hcall : s.call t op = some s') : Advances s t l s' := by
  cases hpc : s.pc t with
  | finished found =>
    have hw : (s.pc t).Walks := by rw [hpc]; exact ⟨rfl, rfl, rfl, rfl⟩
    cases op with
    | pushFront newNode value =>
      simp only [State.call, hpc] at hcall
      split at hcall
      · cases hcall
      · rename_i hfresh
        cases hcall
        exact h.pushFront hpc (by simpa using hfresh) rfl rfl rfl rfl
    | findFirstIf P =>
      simp only [State.call, hpc] at hcall
      cases hcall
      refine h.goto (by rw [hpc]; rfl) hw.moved rfl ?_ hw.own.symm
      exact .rest ⟨rfl, rfl, rfl, rfl⟩ rfl rfl
    | removeIf p =>
      simp only [State.call, hpc] at hcall
      cases hcall
      refine h.goto (by rw [hpc]; rfl) hw.moved rfl ?_ hw.own.symm
      exact .rest ⟨rfl, rfl, rfl, rfl⟩ rfl rfl
  | _ => simp [State.call, hpc] at hcall

/-- Every step of a thread keeps the invariant. -/
theorem run (hrun : s.run t = some s') : Advances s t l s' := by
  cases hpc : s.pc t with
  | finished found => simp [State.run, hpc] at hrun
  | pushLock a v =>
    have hok := h.ok t
    simp only [State.run, hpc] at hrun
    rw [hpc] at hok
    refine h.lock hrun (by simp [hpc, Pc.held]) (by rw [hpc]; rfl) rfl ?_ (by rw [hpc]; rfl)
    exact ⟨fun p hp => Or.inl (List.mem_singleton.mp hp ▸ List.mem_cons_self),
      List.nodup_singleton _, hok.own, by simp [Pc.edge], hok.null, hok.known⟩
  | pushTake a v =>
    simp only [State.run, hpc] at hrun
    exact h.pushTake hpc hrun
  | pushLink a v =>
    simp only [State.run, hpc] at hrun
    exact h.pushLink hpc hrun
  | pushUnlock =>
    have hw : (s.pc t).Walks := by rw [hpc]; exact ⟨rfl, rfl, rfl, rfl⟩
    simp only [State.run, hpc] at hrun
    exact h.finish hw (by rw [hpc]; rfl) hrun
  | findLock P =>
    have hw : (s.pc t).Walks := by rw [hpc]; exact ⟨rfl, rfl, rfl, rfl⟩
    simp only [State.run, hpc] at hrun
    exact h.lockHead hw (by rw [hpc]; rfl) hrun ⟨rfl, rfl, rfl, rfl⟩ rfl rfl
  | findRead P p =>
    have hw : (s.pc t).Walks := by rw [hpc]; exact ⟨rfl, rfl, rfl, rfl⟩
    simp only [State.run, hpc] at hrun
    obtain ⟨next, hread, rfl⟩ := Option.map_eq_some_iff.mp hrun
    cases next with
    | none => exact h.read hw (by rw [hpc]; rfl) hread ⟨rfl, rfl, rfl, rfl⟩ rfl (by simp [Pc.edge])
    | some a =>
      exact h.read hw (by rw [hpc]; rfl) hread ⟨rfl, rfl, rfl, rfl⟩ rfl (by simp [Pc.edge, eq_comm])
  | findLockNext P p a =>
    have hw : (s.pc t).Walks := by rw [hpc]; exact ⟨rfl, rfl, rfl, rfl⟩
    simp only [State.run, hpc] at hrun
    exact h.lockNext hw (by rw [hpc]; rfl) (by rw [hpc]; rfl) hrun ⟨rfl, rfl, rfl, rfl⟩ rfl rfl
  | findUnlock P p a =>
    have hw : (s.pc t).Walks := by rw [hpc]; exact ⟨rfl, rfl, rfl, rfl⟩
    simp only [State.run, hpc] at hrun
    exact h.unlockCurrent hw (by rw [hpc]; rfl) (by rw [hpc]; rfl) hrun ⟨rfl, rfl, rfl, rfl⟩ rfl rfl
  | findTest P a =>
    have hw : (s.pc t).Walks := by rw [hpc]; exact ⟨rfl, rfl, rfl, rfl⟩
    simp only [State.run, hpc] at hrun
    obtain ⟨value, -, rfl⟩ := Option.map_eq_some_iff.mp hrun
    split
    · exact h.test hw (by rw [hpc]; rfl) rfl rfl rfl (by simp [Pc.edge]) (by simp [Pc.known])
    · exact h.test hw (by rw [hpc]; rfl) rfl rfl rfl (by simp [Pc.edge]) (by simp [Pc.known])
  | findReturn a =>
    have hw : (s.pc t).Walks := by rw [hpc]; exact ⟨rfl, rfl, rfl, rfl⟩
    simp only [State.run, hpc] at hrun
    obtain ⟨value, -, hrun⟩ := Option.bind_eq_some_iff.mp hrun
    exact h.finish hw (by rw [hpc]; rfl) hrun
  | findNone p =>
    have hw : (s.pc t).Walks := by rw [hpc]; exact ⟨rfl, rfl, rfl, rfl⟩
    simp only [State.run, hpc] at hrun
    exact h.finish hw (by rw [hpc]; rfl) hrun
  | removeLock P =>
    have hw : (s.pc t).Walks := by rw [hpc]; exact ⟨rfl, rfl, rfl, rfl⟩
    simp only [State.run, hpc] at hrun
    exact h.lockHead hw (by rw [hpc]; rfl) hrun ⟨rfl, rfl, rfl, rfl⟩ rfl rfl
  | removeRead P p =>
    have hw : (s.pc t).Walks := by rw [hpc]; exact ⟨rfl, rfl, rfl, rfl⟩
    simp only [State.run, hpc] at hrun
    obtain ⟨next, hread, rfl⟩ := Option.map_eq_some_iff.mp hrun
    cases next with
    | none => exact h.read hw (by rw [hpc]; rfl) hread ⟨rfl, rfl, rfl, rfl⟩ rfl (by simp [Pc.edge])
    | some a =>
      exact h.read hw (by rw [hpc]; rfl) hread ⟨rfl, rfl, rfl, rfl⟩ rfl (by simp [Pc.edge, eq_comm])
  | removeLockNext P p a =>
    have hw : (s.pc t).Walks := by rw [hpc]; exact ⟨rfl, rfl, rfl, rfl⟩
    simp only [State.run, hpc] at hrun
    exact h.lockNext hw (by rw [hpc]; rfl) (by rw [hpc]; rfl) hrun ⟨rfl, rfl, rfl, rfl⟩ rfl rfl
  | removeTest P p a =>
    have hw : (s.pc t).Walks := by rw [hpc]; exact ⟨rfl, rfl, rfl, rfl⟩
    simp only [State.run, hpc] at hrun
    obtain ⟨value, hvalue, rfl⟩ := Option.map_eq_some_iff.mp hrun
    split
    · rename_i hP
      refine h.test hw (by rw [hpc]; rfl) rfl rfl rfl (fun q b hb => by rwa [hpc]) fun b Q hb => ?_
      cases hb
      exact ⟨value, hvalue, hP⟩
    · exact h.test hw (by rw [hpc]; rfl) rfl rfl rfl (fun q b hb => by rwa [hpc])
        (by simp [Pc.known])
  | removeTake P p a =>
    simp only [State.run, hpc] at hrun
    exact h.removeTake hpc hrun
  | removeLink P p a =>
    simp only [State.run, hpc] at hrun
    exact h.removeLink hpc hrun
  | removeUnlock P p a =>
    simp only [State.run, hpc] at hrun
    exact h.removeUnlock hpc hrun
  | removeDelete P p a =>
    simp only [State.run, hpc] at hrun
    exact h.removeDelete hpc hrun
  | removeAdvance P p a =>
    have hw : (s.pc t).Walks := by rw [hpc]; exact ⟨rfl, rfl, rfl, rfl⟩
    simp only [State.run, hpc] at hrun
    exact h.unlockCurrent hw (by rw [hpc]; rfl) (by rw [hpc]; rfl) hrun ⟨rfl, rfl, rfl, rfl⟩ rfl rfl
  | removeExit p =>
    have hw : (s.pc t).Walks := by rw [hpc]; exact ⟨rfl, rfl, rfl, rfl⟩
    simp only [State.run, hpc] at hrun
    exact h.finish hw (by rw [hpc]; rfl) hrun

end Inv

theorem reachable_inv {acts : List (Action τ ν α)} (h : Lts.Run Step State.initial acts s) :
    ∃ l, Inv s l := by
  refine h.invariant (I := fun s => ∃ l, Inv s l) (fun s act s' hstep hs => ?_) ⟨[], inv_initial⟩
  obtain ⟨l, hs⟩ := hs
  cases act with
  | call t op =>
    obtain ⟨l', hs', -⟩ := hs.call hstep
    exact ⟨l', hs'⟩
  | run t =>
    obtain ⟨l', hs', -⟩ := hs.run hstep
    exact ⟨l', hs'⟩

end Hplsp.ThreadsafeList
