import Hplsp.ThreadsafeList

/-! Which mutexes a thread holds and which pointers it relies on, and that each step keeps it so. -/

namespace Hplsp.ThreadsafeList

open Linked

namespace Pc

variable {ν α : Type}

/-- The places whose mutex the thread holds. -/
def held : Pc ν α → List (Place ν)
  | .finished _ | .pushLock _ _ | .findLock _ | .removeLock _ => []
  | .pushTake _ _ | .pushLink _ _ | .pushUnlock => [.head]
  | .findRead _ current | .findLockNext _ current _ | .findNone current => [current]
  | .findUnlock _ current next => [current, .node next]
  | .findTest _ next | .findReturn next => [.node next]
  | .removeRead _ current | .removeLockNext _ current _ | .removeDelete _ current _
  | .removeExit current => [current]
  | .removeTest _ current next | .removeTake _ current next | .removeLink _ current next
  | .removeUnlock _ current next | .removeAdvance _ current next => [current, .node next]

/-- The place whose mutex the thread is about to lock. -/
def waits : Pc ν α → Option (Place ν)
  | .pushLock _ _ | .findLock _ | .removeLock _ => some .head
  | .findLockNext _ _ next | .removeLockNext _ _ next => some (.node next)
  | _ => none

/-- The node that a `remove_if` has taken out of the list and still holds. -/
def removed : Pc ν α → Option ν
  | .removeUnlock _ _ next => some next
  | _ => none

/-- The node that a `remove_if` has taken out of the list. -/
def unlinked : Pc ν α → Option ν
  | .removeUnlock _ _ next | .removeDelete _ _ next => some next
  | _ => none

/-- The node that only the thread points to, not yet or no longer in the list. -/
def own : Pc ν α → Option ν
  | .pushLock newNode _ | .pushTake newNode _ | .pushLink newNode _ => some newNode
  | pc => pc.unlinked

/-- The link that the thread has read under a mutex that it still holds. -/
def edge : Pc ν α → Option (Place ν × ν)
  | .findLockNext _ current next | .findUnlock _ current next => some (current, next)
  | .removeLockNext _ current next | .removeTest _ current next | .removeTake _ current next
  | .removeLink _ current next | .removeAdvance _ current next => some (current, next)
  | _ => none

/-- The place whose link is null, as the thread relies on. -/
def null : Pc ν α → Option (Place ν)
  | .pushLock newNode _ | .pushTake newNode _ => some (.node newNode)
  | .pushLink _ _ => some .head
  | .removeLink _ current _ => some current
  | .removeUnlock _ _ next | .removeDelete _ _ next => some (.node next)
  | _ => none

/-- The node of whose value the thread knows something: it is the one to push, or it satisfied the
predicate. -/
def known : Pc ν α → Option (ν × (α → Prop))
  | .pushLock newNode value | .pushTake newNode value | .pushLink newNode value =>
    some (newNode, fun v => v = value)
  | .removeTake p _ next | .removeLink p _ next => some (next, fun v => p v = true)
  | _ => none

/-- The places that no other thread touches. -/
def Mine (pc : Pc ν α) (p : Place ν) : Prop := p ∈ pc.held ∨ ∃ a, pc.own = some a ∧ p = .node a

/-- The thread has nothing but locks of the list and what it reads under them. -/
structure Walks (pc : Pc ν α) : Prop where
  own : pc.own = none
  moved : pc.moved = none
  null : pc.null = none
  known : pc.known = none

variable {pc : Pc ν α} {p : Place ν} {a : ν} {Q : α → Prop}

theorem not_finished (hp : p ∈ pc.held) : ¬ pc.Finished := by
  cases pc <;> simp_all [held, Finished]

theorem Finished.held_eq (h : pc.Finished) : pc.held = [] := by
  cases pc <;> simp_all [held, Finished]

theorem Finished.moved_eq (h : pc.Finished) : pc.moved = none := by
  cases pc <;> simp_all [moved, Finished]

theorem unlinked_own (h : pc.unlinked = some a) : pc.own = some a := by
  cases pc <;> simp_all [own, unlinked]

theorem removed_unlinked (h : pc.removed = some a) : pc.unlinked = some a := by
  cases pc <;> simp_all [removed, unlinked]

theorem removed_own (h : pc.removed = some a) : pc.own = some a :=
  unlinked_own (removed_unlinked h)

theorem Walks.removed (h : pc.Walks) : pc.removed = none := by
  refine Option.eq_none_iff_forall_ne_some.mpr fun a ha => ?_
  have hown := removed_own ha
  rw [h.own] at hown
  cases hown

theorem edge_held (h : pc.edge = some (p, a)) : p ∈ pc.held := by
  cases pc <;> simp_all [edge, held]

theorem edge_own (h : pc.edge = some (p, a)) : pc.own = none := by
  cases pc <;> simp_all [edge, own, unlinked]

theorem null_mine (h : pc.null = some p) : pc.Mine p := by
  cases pc <;> simp_all [null, held, own, unlinked, Mine]

theorem known_cases (h : pc.known = some (a, Q)) :
    pc.own = some a ∨ ∃ p, pc.edge = some (p, a) := by
  cases pc <;> simp_all [known, own, edge]

theorem waits_eq (h : pc.waits = some p) :
    p = .head ∧ pc.held = [] ∨ ∃ current a, p = .node a ∧ pc.held = [current] ∧
      pc.edge = some (current, a) := by
  cases pc <;> simp_all [waits, held, edge]

/-- The link that stands for a moved one depends on what is the thread's own. -/
theorem link_congr {next next' : Place ν → Option ν} (h : ∀ p, pc.Mine p → next' p = next p) :
    pc.link next' = pc.link next := by
  cases pc with
  | pushLink newNode value => exact h _ (Or.inr ⟨newNode, rfl, rfl⟩)
  | _ => rfl

end Pc

variable {τ ν α : Type} [DecidableEq ν] {s s' : State τ ν α} {t t' : τ} {l l' : List ν}
  {pc pc' : Pc ν α} {p q : Place ν} {a b : ν}

theorem State.succ_of_moved (howner : s.owner p = some t) (hmoved : (s.pc t).moved = some p) :
    s.succ p = (s.pc t).link s.next := by
  simp only [State.succ, howner, if_pos hmoved]

theorem State.succ_of_owner (howner : s.owner p = some t) (hmoved : (s.pc t).moved ≠ some p) :
    s.succ p = s.next p := by
  simp only [State.succ, howner, if_neg hmoved]

/-- What a thread can rely on at `pc` when the list is `l`. -/
structure State.Ok (s : State τ ν α) (l : List ν) (pc : Pc ν α) : Prop where
  held : ∀ p ∈ pc.held, p ∈ places .head l ∨ ∃ a, pc.removed = some a ∧ p = .node a
  nodup : pc.held.Nodup
  own : ∀ a, pc.own = some a → a ∉ l ∧ (s.data a).isSome
  edge : ∀ p a, pc.edge = some (p, a) → s.succ p = some a
  null : ∀ p, pc.null = some p → s.next p = none
  known : ∀ a Q, pc.known = some (a, Q) → ∃ v, s.data a = some v ∧ Q v

theorem State.Ok.walk (hw : pc.Walks) (hheld : ∀ p ∈ pc.held, p ∈ places .head l)
    (hnodup : pc.held.Nodup) (hedge : ∀ p a, pc.edge = some (p, a) → s.succ p = some a) :
    s.Ok l pc :=
  ⟨fun p hp => Or.inl (hheld p hp), hnodup, by simp [hw.own], hedge, by simp [hw.null],
    by simp [hw.known]⟩

theorem State.Ok.rest (hw : pc.Walks) (hheld : pc.held = []) (hedge : pc.edge = none) :
    s.Ok l pc :=
  .walk hw (by simp [hheld]) (by simp [hheld]) (by simp [hedge])

/-- The list hangs together, and every thread can rely on its own part of it. -/
structure Inv (s : State τ ν α) (l : List ν) : Prop where
  path : Path s.succ .head l
  alive : ∀ a ∈ l, (s.data a).isSome
  owner : ∀ p t, s.owner p = some t ↔ p ∈ (s.pc t).held
  ok : ∀ t, s.Ok l (s.pc t)
  own : ∀ t t' a, (s.pc t).own = some a → (s.pc t').own = some a → t = t'

theorem inv_initial : Inv (State.initial : State τ ν α) [] where
  path := path_nil.mpr rfl
  alive := by simp
  owner := by simp [State.initial, Pc.held]
  ok t := by constructor <;> simp [State.initial, Pc.held, Pc.own, Pc.unlinked, Pc.edge, Pc.null,
    Pc.known]
  own := by simp [State.initial, Pc.own, Pc.unlinked]

namespace Inv

variable (h : Inv s l)
include h

theorem succ_of_held (hp : p ∈ (s.pc t).held) (hmoved : (s.pc t).moved ≠ some p) :
    s.succ p = s.next p :=
  State.succ_of_owner ((h.owner p t).mpr hp) hmoved

/-- What one thread holds or owns, no other one does. -/
theorem mine_unique (ht : (s.pc t).Mine p) (ht' : (s.pc t').Mine p) : t = t' := by
  have hheld : ∀ {t t' a}, .node a ∈ (s.pc t).held → (s.pc t').own = some a → t = t' := by
    intro t t' a hp ha
    rcases (h.ok t).held _ hp with hmem | ⟨b, hb, heq⟩
    · exact absurd (node_mem_places.mp hmem) ((h.ok t').own a ha).1
    · cases heq
      exact h.own _ _ _ (Pc.removed_own hb) ha
  rcases ht with hp | ⟨a, ha, rfl⟩
  · rcases ht' with hp' | ⟨a, ha, rfl⟩
    · exact Option.some_inj.mp (((h.owner p t).mpr hp).symm.trans ((h.owner p t').mpr hp'))
    · exact hheld hp ha
  · rcases ht' with hp' | ⟨b, hb, heq⟩
    · exact (hheld hp' ha).symm
    · cases heq
      exact h.own _ _ _ ha hb

/-- A link that a thread goes along is one of the list. -/
theorem edge_mem (hedge : (s.pc t).edge = some (p, a)) : p ∈ places .head l ∧ a ∈ l := by
  have hp : p ∈ places .head l := by
    rcases (h.ok t).held p (Pc.edge_held hedge) with hmem | ⟨b, hb, -⟩
    · exact hmem
    · have hown := Pc.removed_own hb
      rw [Pc.edge_own hedge] at hown
      cases hown
  exact ⟨hp, h.path.succ_mem hp ((h.ok t).edge p a hedge)⟩

theorem held_places (hremoved : (s.pc t).removed = none) (hp : p ∈ (s.pc t).held) :
    p ∈ places .head l := by
  rcases (h.ok t).held p hp with hmem | ⟨a, ha, -⟩
  · exact hmem
  · rw [hremoved] at ha
    cases ha

/-- The two ends of a link are two places. -/
theorem edge_ne (hedge : (s.pc t).edge = some (p, a)) : p ≠ .node a := by
  rintro rfl
  exact h.path.succ_ne (h.edge_mem hedge).2 ((h.ok t).edge _ a hedge) rfl

/-- Nobody holds a node that only one thread points to, unless this thread does. -/
theorem owner_own (hown : (s.pc t).own = some a) (hheld : .node a ∉ (s.pc t).held) :
    s.owner (.node a) = none := by
  refine Option.eq_none_iff_forall_ne_some.mpr fun t' howner => ?_
  have hp := (h.owner _ t').mp howner
  obtain rfl := h.mine_unique (Or.inl hp) (Or.inr ⟨a, hown, rfl⟩)
  exact hheld hp

/-- The pointer that a thread reads is a link of the list. -/
theorem succ_of_read {next : Option ν} (hheld : (s.pc t).held = [p])
    (hmoved : (s.pc t).moved = none) (hread : s.read p = some next) : s.succ p = next := by
  rw [State.read, Option.ite_none_right_eq_some] at hread
  have hp : p ∈ (s.pc t).held := by simp [hheld]
  rw [h.succ_of_held hp (by simp [hmoved])]
  exact Option.some.inj hread.2

theorem alive_of_mine (hp : (s.pc t).Mine p) : s.alive p = true := by
  have hown : ∀ {a}, (s.pc t).own = some a → s.alive (.node a) = true :=
    fun ha => ((h.ok t).own _ ha).2
  rcases hp with hp | ⟨a, ha, rfl⟩
  · rcases (h.ok t).held p hp with hmem | ⟨a, ha, rfl⟩
    · cases p with
      | head => rfl
      | node a => exact h.alive a (node_mem_places.mp hmem)
    · exact hown (Pc.removed_own ha)
  · exact hown ha

/-- Nobody waits for itself. -/
theorem waits_other (hwaits : (s.pc t).waits = some p) : s.owner p ≠ some t := by
  intro howner
  have hp := (h.owner p t).mp howner
  rcases Pc.waits_eq hwaits with ⟨-, hheld⟩ | ⟨current, b, rfl, hheld, hedge⟩
  · rw [hheld] at hp
    cases hp
  · rw [hheld] at hp
    exact h.edge_ne hedge (List.mem_singleton.mp hp).symm

theorem read_eq (hp : p ∈ (s.pc t).held) : s.read p = some (s.next p) :=
  if_pos (h.alive_of_mine (Or.inl hp))

theorem exists_data (ha : .node a ∈ (s.pc t).held) : ∃ v, s.data a = some v :=
  Option.isSome_iff_exists.mp (h.alive_of_mine (Or.inl ha))

end Inv

/-- A step of `t` from `s`, where the list is `l`, to `s'`, where it is `l'`, leaves the places of
all other threads alone. -/
structure Local (t : τ) (s s' : State τ ν α) (l l' : List ν) : Prop where
  pc : ∀ t', t' ≠ t → s'.pc t' = s.pc t'
  owner : ∀ p t', t' ≠ t → (s'.owner p = some t' ↔ s.owner p = some t')
  next : ∀ p, s.alive p = true → ¬ (s.pc t).Mine p → s'.next p = s.next p
  data : ∀ a, (s.data a).isSome → (s.pc t).own ≠ some a → s'.data a = s.data a
  places : ∀ p ∈ places .head l, ¬ (s.pc t).Mine p → p ∈ places .head l'
  nodes : ∀ a ∈ l', a ∈ l ∨ (s.pc t).own = some a

/-- Other threads see the same links. -/
theorem Local.succ_eq (hlocal : Local t s s' l l') (h : Inv s l) (ht : t' ≠ t)
    (hp : p ∈ (s.pc t').held) : s'.succ p = s.succ p := by
  have howner := (h.owner p t').mpr hp
  have hnext : ∀ q, (s.pc t').Mine q → s'.next q = s.next q := fun q hq =>
    hlocal.next q (h.alive_of_mine hq) fun hmine => ht (h.mine_unique hq hmine)
  simp only [State.succ, howner, (hlocal.owner p t' ht).mpr howner, hlocal.pc t' ht,
    Pc.link_congr hnext, hnext p (Or.inl hp)]

/-- The other threads can go on relying on what they rely on. -/
theorem Local.ok (hlocal : Local t s s' l l') (h : Inv s l) (ht : t' ≠ t) :
    s'.Ok l' (s'.pc t') := by
  have hok := h.ok t'
  have hother : ∀ p, (s.pc t').Mine p → ¬ (s.pc t).Mine p :=
    fun p hp hmine => ht (h.mine_unique hp hmine)
  have hown : ∀ a, (s.pc t').own = some a → (s.pc t).own ≠ some a :=
    fun a ha heq => ht (h.own _ _ _ ha heq)
  rw [hlocal.pc t' ht]
  refine ⟨fun p hp => ?_, hok.nodup, fun a ha => ?_, fun p a ha => ?_, fun p hp => ?_,
    fun a Q ha => ?_⟩
  · exact (hok.held p hp).imp_left fun hmem => hlocal.places p hmem (hother p (Or.inl hp))
  · obtain ⟨hmem, halive⟩ := hok.own a ha
    refine ⟨fun hmem' => ?_, by rwa [hlocal.data a halive (hown a ha)]⟩
    exact (hlocal.nodes a hmem').elim hmem (hown a ha)
  · rw [hlocal.succ_eq h ht (Pc.edge_held ha)]
    exact hok.edge p a ha
  · have hmine := Pc.null_mine hp
    rw [hlocal.next p (h.alive_of_mine hmine) (hother p hmine)]
    exact hok.null p hp
  · obtain ⟨v, hv, hQ⟩ := hok.known a Q ha
    refine ⟨v, ?_, hQ⟩
    rw [hlocal.data a (by rw [hv]; rfl), hv]
    rcases Pc.known_cases ha with hmine | ⟨p, hedge⟩
    · exact hown a hmine
    · exact fun hmine => ((h.ok t).own a hmine).1 (h.edge_mem hedge).2

/-- Where no link is moved, there is nothing to follow. -/
theorem State.succ_eq_next (hmoved : ∀ t, s.owner p = some t → (s.pc t).moved ≠ some p) :
    s.succ p = s.next p := by
  rw [State.succ]
  split
  · rename_i t howner
    exact if_neg (hmoved t howner)
  · rfl

/-- A link that is neither updated nor moved is seen as before. -/
theorem Local.succ_congr (hlocal : Local t s s' l l') (h : Inv s l)
    (hnext : s'.next p = s.next p) (hmoved : (s.pc t).moved ≠ some p)
    (hmoved' : (s'.pc t).moved ≠ some p) : s'.succ p = s.succ p := by
  by_cases hother : ∃ t', t' ≠ t ∧ s.owner p = some t'
  · obtain ⟨t', ht, howner⟩ := hother
    exact hlocal.succ_eq h ht ((h.owner p t').mp howner)
  · have hself : ∀ t', s'.owner p = some t' ∨ s.owner p = some t' → t' = t := by
      intro t' howner
      by_contra hne
      exact hother ⟨t', hne, howner.elim (hlocal.owner p t' hne).mp id⟩
    rw [State.succ_eq_next fun t' ht => hself t' (Or.inl ht) ▸ hmoved',
      State.succ_eq_next fun t' ht => hself t' (Or.inr ht) ▸ hmoved, hnext]

theorem Inv.plain (h : Inv s l) (hmoved : ∀ t, (s.pc t).moved = none) : Path s.next .head l := by
  refine h.path.congr fun p _ => (State.succ_eq_next fun t _ => ?_).symm
  rw [hmoved t]
  exact nofun

/-- What is left for the thread that takes the step. -/
theorem Inv.step (h : Inv s l) (hlocal : Local t s s' l l') (hpath : Path s'.succ .head l')
    (halive : ∀ a ∈ l', (s'.data a).isSome)
    (howner : ∀ p, s'.owner p = some t ↔ p ∈ (s'.pc t).held) (hok : s'.Ok l' (s'.pc t))
    (hown : ∀ a, (s'.pc t).own = some a → (s.pc t).own = some a ∨ a ∈ l ∨ s.data a = none) :
    Inv s' l' := by
  have hnew : ∀ t' a, t' ≠ t → (s'.pc t).own = some a → (s'.pc t').own ≠ some a := by
    intro t' a ht ha ha'
    rw [hlocal.pc t' ht] at ha'
    obtain ⟨hmem, hsome⟩ := (h.ok t').own a ha'
    rcases hown a ha with hold | hold | hold
    · exact ht (h.own _ _ _ ha' hold)
    · exact hmem hold
    · rw [hold] at hsome
      cases hsome
  refine ⟨hpath, halive, fun p t' => ?_, fun t' => ?_, fun t₁ t₂ a h₁ h₂ => ?_⟩
  · by_cases ht : t' = t
    · rw [ht]
      exact howner p
    · rw [hlocal.owner p t' ht, hlocal.pc t' ht]
      exact h.owner p t'
  · by_cases ht : t' = t
    · rw [ht]
      exact hok
    · exact hlocal.ok h ht
  · by_cases ht₁ : t₁ = t
    · subst ht₁
      by_contra hne
      exact hnew t₂ a (Ne.symm hne) h₁ h₂
    · by_cases ht₂ : t₂ = t
      · subst ht₂
        exact absurd h₁ (hnew t₁ a ht₁ h₂)
      · rw [hlocal.pc t₁ ht₁] at h₁
        rw [hlocal.pc t₂ ht₂] at h₂
        exact h.own _ _ _ h₁ h₂

theorem State.Ok.congr (hok : s.Ok l pc) (hsucc : s'.succ = s.succ) (hnext : s'.next = s.next)
    (hdata : s'.data = s.data) : s'.Ok l pc := by
  refine ⟨hok.held, hok.nodup, ?_, ?_, ?_, ?_⟩
  · rw [hdata]
    exact hok.own
  · rw [hsucc]
    exact hok.edge
  · rw [hnext]
    exact hok.null
  · rw [hdata]
    exact hok.known

/-- How a step changes the list: `push_front` puts its node in front, and `remove_if` takes out one
whose value satisfied its predicate. -/
inductive Changes (s : State τ ν α) (t : τ) : List ν → List ν → Prop
  | same (l : List ν) : (s.pc t).moved = none → Changes s t l l
  | push {newNode : ν} {value : α} {l : List ν} : s.pc t = .pushLink newNode value →
    s.data newNode = some value → Changes s t l (newNode :: l)
  | remove {P : α → Bool} {current : Place ν} {next : ν} {value : α} {l₁ l₂ : List ν} :
    s.pc t = .removeLink P current next → s.data next = some value → P value = true →
      Changes s t (l₁ ++ next :: l₂) (l₁ ++ l₂)

/-- What a step leaves of the invariant and of the list. -/
def Advances (s : State τ ν α) (t : τ) (l : List ν) (s' : State τ ν α) : Prop :=
  ∃ l', Inv s' l' ∧ Changes s t l l' ∧ (∀ a ∈ l', s'.data a = s.data a) ∧
    ∀ t', t' ≠ t → s'.pc t' = s.pc t'

section Steps

variable [DecidableEq τ]

omit [DecidableEq τ] in
/-- A step that leaves the list and its nodes as they are. -/
theorem Inv.unchanged (h : Inv s l) (hlocal : Local t s s' l l)
    (hnext : ∀ p ∈ places .head l, s'.next p = s.next p) (hdata : ∀ a ∈ l, s'.data a = s.data a)
    (howner : ∀ p, s'.owner p = some t ↔ p ∈ (s'.pc t).held) (hmoved : (s.pc t).moved = none)
    (hmoved' : (s'.pc t).moved = none) (hok : s'.Ok l (s'.pc t))
    (hown : ∀ a, (s'.pc t).own = some a → (s.pc t).own = some a ∨ a ∈ l ∨ s.data a = none) :
    Advances s t l s' := by
  refine ⟨l, h.step hlocal ?_ (fun a ha => ?_) howner hok hown, .same l hmoved, hdata, hlocal.pc⟩
  · exact h.path.congr fun p hp =>
      hlocal.succ_congr h (hnext p hp) (by simp [hmoved]) (by simp [hmoved'])
  · rw [hdata a ha]
    exact h.alive a ha

/-- A step that changes neither links nor nodes. -/
theorem Inv.keep (h : Inv s l) (hnext : s'.next = s.next) (hdata : s'.data = s.data)
    (hpc : s'.pc = Function.update s.pc t pc')
    (hothers : ∀ p t', t' ≠ t → (s'.owner p = some t' ↔ s.owner p = some t'))
    (howner : ∀ p, s'.owner p = some t ↔ p ∈ pc'.held) (hmoved : (s.pc t).moved = none)
    (hmoved' : pc'.moved = none) (hok : s.Ok l pc') (hown : pc'.own = (s.pc t).own) :
    Advances s t l s' := by
  have hpct : s'.pc t = pc' := by rw [hpc, Function.update_self]
  have hlocal : Local t s s' l l := {
    pc := fun t' ht => by rw [hpc, Function.update_of_ne ht]
    owner := hothers
    next := fun p _ _ => by rw [hnext]
    data := fun a _ _ => by rw [hdata]
    places := fun p hp _ => hp
    nodes := fun a ha => Or.inl ha }
  have hsucc : s'.succ = s.succ := by
    funext p
    exact hlocal.succ_congr h (by rw [hnext]) (by simp [hmoved]) (by simp [hpct, hmoved'])
  refine h.unchanged hlocal (fun p _ => by rw [hnext]) (fun a _ => by rw [hdata]) ?_ hmoved
    (by rw [hpct, hmoved']) ?_ ?_
  · rw [hpct]
    exact howner
  · rw [hpct]
    exact hok.congr hsucc hnext hdata
  · intro a ha
    rw [hpct, hown] at ha
    exact Or.inl ha

theorem Inv.goto (h : Inv s l) (hheld : pc'.held = (s.pc t).held) (hmoved : (s.pc t).moved = none)
    (hmoved' : pc'.moved = none) (hok : s.Ok l pc') (hown : pc'.own = (s.pc t).own) :
    Advances s t l (s.goto t pc') := by
  refine h.keep rfl rfl rfl (fun _ _ _ => Iff.rfl) (fun p => ?_) hmoved hmoved' hok hown
  rw [hheld]
  exact h.owner p t

theorem Inv.lock (h : Inv s l) (hlock : s.lock t q pc' = some s')
    (hheld : ∀ p, p ∈ pc'.held ↔ p = q ∨ p ∈ (s.pc t).held) (hmoved : (s.pc t).moved = none)
    (hmoved' : pc'.moved = none) (hok : s.Ok l pc') (hown : pc'.own = (s.pc t).own) :
    Advances s t l s' := by
  rw [State.lock, Option.ite_none_right_eq_some] at hlock
  obtain ⟨⟨-, hfree⟩, hlock⟩ := hlock
  cases hlock
  refine h.keep rfl rfl rfl (fun p t' ht => ?_) (fun p => ?_) hmoved hmoved' hok hown
  · by_cases hp : p = q
    · subst hp
      simp [hfree, Ne.symm ht]
    · simp [hp]
  · by_cases hp : p = q
    · subst hp
      simp [hheld]
    · simp [hp, hheld, h.owner]

theorem Inv.unlock (h : Inv s l) (hunlock : s.unlock t q pc' = some s')
    (hheld : ∀ p, p ∈ pc'.held ↔ p ≠ q ∧ p ∈ (s.pc t).held) (hmoved : (s.pc t).moved = none)
    (hmoved' : pc'.moved = none) (hok : s.Ok l pc') (hown : pc'.own = (s.pc t).own) :
    Advances s t l s' := by
  rw [State.unlock, Option.ite_none_right_eq_some] at hunlock
  obtain ⟨⟨-, howner⟩, hunlock⟩ := hunlock
  cases hunlock
  refine h.keep rfl rfl rfl (fun p t' ht => ?_) (fun p => ?_) hmoved hmoved' hok hown
  · by_cases hp : p = q
    · subst hp
      simp [howner, Ne.symm ht]
    · simp [hp]
  · by_cases hp : p = q
    · subst hp
      simp [hheld]
    · simp [hp, hheld, h.owner]

end Steps

end Hplsp.ThreadsafeList
