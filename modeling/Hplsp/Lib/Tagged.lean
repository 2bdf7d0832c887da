import Mathlib.Data.List.Nodup

/-! Lists whose entries carry a key, and the entries of one key in their order. -/

namespace Tagged

variable {κ α β : Type*} [DecidableEq κ] {k k' : κ} {xs ys : List (κ × α)}

/-- The entries under the key `k`, in order. -/
def of (k : κ) (xs : List (κ × α)) : List α := (xs.filter fun p => p.1 = k).map Prod.snd

@[simp] theorem of_nil : of k ([] : List (κ × α)) = [] := rfl

@[simp] theorem of_append : of k (xs ++ ys) = of k xs ++ of k ys := by simp [of]

theorem of_cons (p : κ × α) : of k (p :: xs) = if p.1 = k then p.2 :: of k xs else of k xs := by
  simp only [of, List.filter_cons]
  split <;> simp_all

theorem of_map_self (as : List α) : of k (as.map fun a => (k, a)) = as := by
  induction as with
  | nil => rfl
  | cons a as ih => simp [of_cons, ih]

theorem of_map_ne (h : k' ≠ k) (as : List α) : of k (as.map fun a => (k', a)) = [] := by
  induction as with
  | nil => rfl
  | cons a as ih => simp [of_cons, h, ih]

theorem of_flatMap (bs : List β) (f : β → List (κ × α)) :
    of k (bs.flatMap f) = bs.flatMap fun b => of k (f b) := by
  induction bs with
  | nil => rfl
  | cons b bs ih => simp [ih]

omit [DecidableEq κ] in
theorem flatMap_of_notMem {entries : List (κ × β)} {f : κ × β → List α}
    (hk : k ∉ entries.map Prod.fst) (hf : ∀ e ∈ entries, e.1 ≠ k → f e = []) :
    entries.flatMap f = [] := by
  refine List.flatMap_eq_nil_iff.mpr fun e he => hf e he ?_
  intro hek
  exact hk (List.mem_map.mpr ⟨e, he, hek⟩)

omit [DecidableEq κ] in
/-- The one entry of a key is all that belongs to it. -/
theorem flatMap_of_mem {entries : List (κ × β)} {f : κ × β → List α} {b : β}
    (hmem : (k, b) ∈ entries) (hnodup : (entries.map Prod.fst).Nodup)
    (hf : ∀ e ∈ entries, e.1 ≠ k → f e = []) : entries.flatMap f = f (k, b) := by
  obtain ⟨before, after, rfl⟩ := List.append_of_mem hmem
  simp only [List.map_append, List.map_cons, List.nodup_append, List.nodup_cons] at hnodup
  have hbefore : before.flatMap f = [] := by
    refine flatMap_of_notMem (k := k) ?_ fun e he => hf e (List.mem_append_left _ he)
    intro hk
    exact hnodup.2.2 k hk k List.mem_cons_self rfl
  have hafter : after.flatMap f = [] :=
    flatMap_of_notMem hnodup.2.1.1 fun e he =>
      hf e (List.mem_append_right _ (List.mem_cons_of_mem _ he))
  simp [hbefore, hafter]

/-- With at most one entry for each key, splitting a list keeps what belongs to the key `k`. -/
theorem flatMap_partition {entries : List (κ × β)} {f : κ × β → List α} (p : κ × β → Bool)
    (hnodup : (entries.map Prod.fst).Nodup) (hf : ∀ e ∈ entries, e.1 ≠ k → f e = []) :
    (entries.filter fun e => !p e).flatMap f ++ (entries.filter p).flatMap f =
      entries.flatMap f := by
  induction entries with
  | nil => rfl
  | cons e entries ih =>
    simp only [List.map_cons, List.nodup_cons] at hnodup
    have hrest := ih hnodup.2 fun e' he' => hf e' (List.mem_cons_of_mem e he')
    by_cases hk : e.1 = k
    · -- the other entries have other keys, so they contribute nothing
      have hnone : ∀ q : κ × β → Bool, (entries.filter q).flatMap f = [] := by
        intro q
        refine flatMap_of_notMem (k := k) ?_ fun e' he' =>
          hf e' (List.mem_cons_of_mem e (List.mem_of_mem_filter he'))
        intro hk'
        obtain ⟨e', he', hek⟩ := List.mem_map.mp hk'
        exact hnodup.1 (List.mem_map.mpr ⟨e', List.mem_of_mem_filter he', hek.trans hk.symm⟩)
      simp only [hnone, List.append_nil] at hrest
      cases hp : p e <;> simp [hp, hnone, ← hrest]
    · have hnil := hf e List.mem_cons_self hk
      cases hp : p e <;> simp [hp, hnil, hrest]

end Tagged
