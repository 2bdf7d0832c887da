import Mathlib.Data.List.Nodup

/-! Lists of nodes that hang together by links, from a head on. -/

namespace Linked

universe u

/-- Where a link can start: at the list itself or at one of its nodes. -/
inductive Place (ν : Type u) where
  | head
  | node (a : ν)
  deriving DecidableEq, Repr

variable {ν : Type u} {succ succ' : Place ν → Option ν} {p q : Place ν} {a b : ν}
  {l l' l₁ l₂ : List ν}

/-- The place of the last of `l`, or `p` if there is none. -/
def last (p : Place ν) : List ν → Place ν
  | [] => p
  | a :: l => last (.node a) l

/-- Following the links from `p` visits `l`, and may go on. -/
def Links (succ : Place ν → Option ν) : Place ν → List ν → Prop
  | _, [] => True
  | p, a :: l => succ p = some a ∧ Links succ (.node a) l

/-- Following the links from `p` visits `l` and ends there. -/
def Path (succ : Place ν → Option ν) (p : Place ν) (l : List ν) : Prop :=
  Links succ p l ∧ succ (last p l) = none

/-- The places from which the links of a path start. -/
def places (p : Place ν) (l : List ν) : List (Place ν) := p :: l.map .node

@[simp] theorem last_append : last p (l₁ ++ l₂) = last (last p l₁) l₂ := by
  induction l₁ generalizing p with
  | nil => rfl
  | cons a l₁ ih => exact ih

theorem last_mem_places : last p l ∈ places p l := by
  induction l generalizing p with
  | nil => exact List.mem_cons_self
  | cons a l ih => exact List.mem_cons_of_mem p ih

theorem places_subset (h : l ⊆ l') (hq : q ∈ places p l) : q ∈ places p l' := by
  rcases List.mem_cons.mp hq with rfl | hq
  · exact List.mem_cons_self
  · obtain ⟨a, ha, rfl⟩ := List.mem_map.mp hq
    exact List.mem_cons_of_mem p (List.mem_map_of_mem (h ha))

/-- The first of several distinct places is not the last of them. -/
theorem ne_last (h : (places p (a :: l₁ ++ l₂)).Nodup) : p ≠ last (.node a) l₁ := by
  intro hlast
  have hmem : last (.node a) l₁ ∈ places (.node a) (l₁ ++ l₂) :=
    places_subset (List.subset_append_left _ _) last_mem_places
  rw [← hlast] at hmem
  exact (List.nodup_cons.mp h).1 hmem

theorem links_append : Links succ p (l₁ ++ l₂) ↔ Links succ p l₁ ∧ Links succ (last p l₁) l₂ := by
  induction l₁ generalizing p with
  | nil => simp [Links, last]
  | cons a l₁ ih => simp [Links, last, ih, and_assoc]

theorem path_nil : Path succ p [] ↔ succ p = none := by simp [Path, Links, last]

theorem path_cons : Path succ p (a :: l) ↔ succ p = some a ∧ Path succ (.node a) l := by
  simp [Path, Links, last, and_assoc]

theorem path_append : Path succ p (l₁ ++ l₂) ↔ Links succ p l₁ ∧ Path succ (last p l₁) l₂ := by
  simp [Path, links_append, and_assoc]

/-- Links only depend on the places that they start from. -/
theorem Links.congr (h : Links succ p l) (heq : ∀ q ∈ places p l, succ' q = succ q) :
    Links succ' p l := by
  induction l generalizing p with
  | nil => trivial
  | cons a l ih =>
    refine ⟨(heq p List.mem_cons_self).trans h.1, ih h.2 fun q hq => ?_⟩
    exact heq q (List.mem_cons_of_mem p hq)

theorem Path.eq_nil (h : Path succ p l) (hp : succ p = none) : l = [] := by
  cases l with
  | nil => rfl
  | cons b l =>
    rw [(path_cons.mp h).1] at hp
    cases hp

theorem Path.eq_cons (h : Path succ p l) (ha : succ p = some a) : ∃ l', l = a :: l' := by
  cases l with
  | nil =>
    rw [path_nil, ha] at h
    cases h
  | cons b l =>
    rw [path_cons, ha] at h
    obtain rfl := Option.some_inj.mp h.1
    exact ⟨l, rfl⟩

/-- A path only depends on the links of its places. -/
theorem Path.congr (h : Path succ p l) (heq : ∀ q ∈ places p l, succ' q = succ q) :
    Path succ' p l :=
  ⟨h.1.congr heq, (heq _ last_mem_places).trans h.2⟩

/-- A path that starts elsewhere, with the same first node. -/
theorem Path.redirect (h : Path succ p l) (hq : succ' q = succ p)
    (heq : ∀ a ∈ l, succ' (.node a) = succ (.node a)) : Path succ' q l := by
  cases l with
  | nil => exact path_nil.mpr (hq.trans (path_nil.mp h))
  | cons a l =>
    obtain ⟨ha, hrest⟩ := path_cons.mp h
    refine path_cons.mpr ⟨hq.trans ha, hrest.congr fun q hq => ?_⟩
    rcases List.mem_map.mp (show q ∈ (a :: l).map .node from hq) with ⟨b, hb, rfl⟩
    exact heq b hb

theorem Path.unique (h : Path succ p l) (h' : Path succ p l') : l = l' := by
  induction l generalizing p l' with
  | nil =>
    cases l' with
    | nil => rfl
    | cons b l' =>
      rw [path_nil] at h
      rw [path_cons, h] at h'
      cases h'.1
  | cons a l ih =>
    rw [path_cons] at h
    cases l' with
    | nil =>
      rw [path_nil, h.1] at h'
      cases h'
    | cons b l' =>
      rw [path_cons, h.1] at h'
      obtain rfl := Option.some_inj.mp h'.1
      rw [ih h.2 h'.2]

/-- A path that came back to one of its nodes would never end. -/
theorem Path.nodup (h : Path succ p l) : l.Nodup := by
  induction l generalizing p with
  | nil => exact List.nodup_nil
  | cons a l ih =>
    have hrest := (path_cons.mp h).2
    refine List.nodup_cons.mpr ⟨fun hmem => ?_, ih hrest⟩
    obtain ⟨l₁, l₂, rfl⟩ := List.append_of_mem hmem
    have hback := (path_append.mp hrest).2
    have hlen := congrArg List.length (hrest.unique (path_cons.mp hback).2)
    simp only [List.length_append, List.length_cons] at hlen
    omega

/-- No node of a path is linked to itself. -/
theorem Path.succ_ne (h : Path succ p l) (ha : a ∈ l) (hb : succ (.node a) = some b) : b ≠ a := by
  obtain ⟨l₁, l₂, rfl⟩ := List.append_of_mem ha
  obtain ⟨l₂, rfl⟩ := (path_cons.mp (path_append.mp h).2).2.eq_cons hb
  rintro rfl
  have hnodup := (List.nodup_append.mp h.nodup).2.1
  exact (List.nodup_cons.mp hnodup).1 List.mem_cons_self

/-- Every place of a path splits it. -/
theorem exists_split (hq : q ∈ places p l) : ∃ l₁ l₂, l = l₁ ++ l₂ ∧ last p l₁ = q := by
  induction l generalizing p with
  | nil =>
    obtain rfl := List.mem_singleton.mp hq
    exact ⟨[], [], rfl, rfl⟩
  | cons a l ih =>
    rcases List.mem_cons.mp hq with rfl | hq
    · exact ⟨[], a :: l, rfl, rfl⟩
    · obtain ⟨l₁, l₂, rfl, hlast⟩ := ih hq
      exact ⟨a :: l₁, l₂, rfl, hlast⟩

/-- The successor of a place is the next node of the path. -/
theorem Path.split (h : Path succ p l) (hq : q ∈ places p l) (ha : succ q = some a) :
    ∃ l₁ l₂, l = l₁ ++ a :: l₂ ∧ last p l₁ = q := by
  obtain ⟨l₁, l₂, rfl, rfl⟩ := exists_split hq
  obtain ⟨l₂, rfl⟩ := (path_append.mp h).2.eq_cons ha
  exact ⟨l₁, l₂, rfl, rfl⟩

theorem Path.succ_mem (h : Path succ p l) (hq : q ∈ places p l) (ha : succ q = some a) : a ∈ l := by
  obtain ⟨l₁, l₂, rfl, -⟩ := h.split hq ha
  simp

theorem node_mem_places : .node a ∈ places .head l ↔ a ∈ l := by simp [places]

theorem nodup_places (h : l.Nodup) : (places .head l).Nodup := by
  refine List.nodup_cons.mpr ⟨by simp, h.map fun a b hab => ?_⟩
  injection hab

theorem Path.remove_of_nodup (h : Path succ p (l₁ ++ a :: l₂))
    (hnodup : (places p (l₁ ++ a :: l₂)).Nodup) (ha : succ' (last p l₁) = succ (.node a))
    (heq : ∀ q ∈ places p (l₁ ++ a :: l₂), q ≠ last p l₁ → q ≠ .node a → succ' q = succ q) :
    Path succ' p (l₁ ++ l₂) := by
  induction l₁ generalizing p with
  | nil =>
    refine (path_cons.mp h).2.redirect ha fun b hb => ?_
    simp only [List.nil_append, places, List.map_cons, List.nodup_cons, List.mem_cons,
      List.mem_map, not_or] at hnodup
    refine heq (.node b) (by simp [places, hb]) ?_ ?_
    · rintro rfl
      exact hnodup.1.2 ⟨b, hb, rfl⟩
    · exact fun hba => hnodup.2.1 ⟨b, hb, hba⟩
  | cons b l₁ ih =>
    obtain ⟨hb, hrest⟩ := path_cons.mp h
    obtain ⟨hp, htail⟩ := List.nodup_cons.mp hnodup
    refine path_cons.mpr ⟨(heq p List.mem_cons_self (ne_last hnodup) ?_).trans hb,
      ih hrest htail ha fun q hq => heq q (List.mem_cons_of_mem p hq)⟩
    rintro rfl
    simp at hp

/-- A node leaves the path when the link to it skips it. -/
theorem Path.remove (h : Path succ .head (l₁ ++ a :: l₂))
    (ha : succ' (last .head l₁) = succ (.node a))
    (heq : ∀ q, q ≠ last .head l₁ → q ≠ .node a → succ' q = succ q) :
    Path succ' .head (l₁ ++ l₂) :=
  h.remove_of_nodup (nodup_places h.nodup) ha fun q _ => heq q

theorem Path.concat_of_nodup (h : Path succ p l) (hnodup : (places p (l ++ [a])).Nodup)
    (hlast : succ' (last p l) = some a) (hend : succ' (.node a) = none)
    (heq : ∀ q ∈ places p l, q ≠ last p l → succ' q = succ q) : Path succ' p (l ++ [a]) := by
  induction l generalizing p with
  | nil => exact path_cons.mpr ⟨hlast, path_nil.mpr hend⟩
  | cons b l ih =>
    obtain ⟨hb, hrest⟩ := path_cons.mp h
    obtain ⟨-, htail⟩ := List.nodup_cons.mp hnodup
    exact path_cons.mpr ⟨(heq p List.mem_cons_self (ne_last hnodup)).trans hb,
      ih hrest htail hlast fun q hq => heq q (List.mem_cons_of_mem p hq)⟩

/-- A new node behind the others. -/
theorem Path.concat (h : Path succ .head l) (ha : a ∉ l) (hlast : succ' (last .head l) = some a)
    (hend : succ' (.node a) = none)
    (heq : ∀ q ∈ places .head l, q ≠ last .head l → succ' q = succ q) :
    Path succ' .head (l ++ [a]) := by
  refine h.concat_of_nodup (nodup_places ?_) hlast hend heq
  exact List.nodup_append.mpr ⟨h.nodup, List.nodup_singleton a, fun b hb c hc => by
    rintro rfl
    exact ha (List.mem_singleton.mp hc ▸ hb)⟩

/-- A new node in front of the others. -/
theorem Path.push (h : Path succ .head l) (hhead : succ' .head = some a)
    (ha : succ' (.node a) = succ .head) (heq : ∀ b ∈ l, succ' (.node b) = succ (.node b)) :
    Path succ' .head (a :: l) :=
  path_cons.mpr ⟨hhead, h.redirect ha heq⟩

end Linked
