import Mathlib.Data.List.Basic
import Mathlib.Logic.Function.Basic

/-! Threads that end one after another, each of which joins the one that began to end before it, so
that only the last has to be joined from elsewhere. -/

namespace Reap

/-- What a thread that ends has left to do: to join the one before it, if any, or nothing. -/
inductive Duty (τ : Type*) where
  | owes (next : Option τ)
  | settled

variable {τ : Type*} {duty duty' : τ → Option (Duty τ)} {joined : List τ} {l : List τ} {a b t : τ}

/-- A thread with `next` before it has that one left to join, or has joined it. -/
def Fits (joined : List τ) (next : Option τ) : Option (Duty τ) → Prop
  | some (.owes left) => left = next ∧ ∀ b ∈ next, b ∉ joined
  | some .settled => ∀ b ∈ next, b ∈ joined
  | none => False

/-- The threads that have begun to end, the last of them first. -/
def Chained (duty : τ → Option (Duty τ)) (joined : List τ) : List τ → Prop
  | [] => True
  | a :: l => Fits joined l.head? (duty a) ∧ Chained duty joined l

theorem Chained.congr (h : Chained duty joined l) (heq : ∀ a ∈ l, duty' a = duty a) :
    Chained duty' joined l := by
  induction l with
  | nil => trivial
  | cons a l ih =>
    refine ⟨?_, ih h.2 fun b hb => heq b (List.mem_cons_of_mem a hb)⟩
    rw [heq a List.mem_cons_self]
    exact h.1

/-- Another thread begins to end. -/
theorem Chained.begin (h : Chained duty joined l) (heq : ∀ a ∈ l, duty' a = duty a)
    (ht : duty' t = some (.owes l.head?)) (hhead : ∀ b ∈ l.head?, b ∉ joined) :
    Chained duty' joined (t :: l) :=
  ⟨by rw [ht]; exact ⟨rfl, hhead⟩, h.congr heq⟩

/-- A thread is joined that is not the one before this one. -/
theorem Fits.reap {next : Option τ} {d : Option (Duty τ)} (h : Fits joined next d)
    (hb : ∀ c ∈ next, c ≠ b) : Fits (joined ++ [b]) next d := by
  cases d with
  | none => exact h
  | some d =>
    cases d with
    | owes left =>
      refine ⟨h.1, fun c hc hmem => ?_⟩
      rcases List.mem_append.mp hmem with hmem | hmem
      · exact h.2 c hc hmem
      · exact hb c hc (List.mem_singleton.mp hmem)
    | settled => exact fun c hc => List.mem_append_left _ (h c hc)

/-- A thread is joined that no thread of the chain owes a join. -/
theorem Chained.reap (h : Chained duty joined l) (hb : b ∉ l.tail) :
    Chained duty (joined ++ [b]) l := by
  induction l with
  | nil => trivial
  | cons a l ih =>
    have hnext : ∀ c ∈ l.head?, c ≠ b := by
      rintro c hc rfl
      exact hb (List.mem_of_mem_head? hc)
    exact ⟨h.1.reap hnext, ih h.2 fun hmem => hb (List.mem_of_mem_tail hmem)⟩

/-- What a thread owes a join is in the chain, not the last to begin, and not yet joined. -/
theorem Chained.owed (h : Chained duty joined l) (ht : t ∈ l)
    (hduty : duty t = some (.owes (some b))) : b ∈ l.tail ∧ b ∉ joined := by
  induction l with
  | nil => cases ht
  | cons a l ih =>
    rcases List.mem_cons.mp ht with rfl | ht
    · have hfits := h.1
      rw [hduty] at hfits
      exact ⟨List.mem_of_mem_head? hfits.1.symm, hfits.2 b hfits.1.symm⟩
    · obtain ⟨hmem, hjoined⟩ := ih h.2 ht
      exact ⟨List.mem_of_mem_tail hmem, hjoined⟩

/-- The first of the chain has nobody to join. -/
theorem Chained.finish (h : Chained duty joined l) (heq : ∀ a, a ≠ t → duty' a = duty a)
    (hduty : duty t = some (.owes none)) (hsettled : duty' t = some .settled) :
    Chained duty' joined l := by
  induction l with
  | nil => trivial
  | cons a l ih =>
    refine ⟨?_, ih h.2⟩
    have hfits := h.1
    by_cases ha : a = t
    · subst ha
      rw [hduty] at hfits
      rw [hsettled, ← hfits.1]
      exact fun b hb => by cases hb
    · rw [heq a ha]
      exact hfits

/-- A thread joins the one before it. -/
theorem Chained.join (h : Chained duty joined l) (hnodup : l.Nodup) (ht : t ∈ l)
    (heq : ∀ a, a ≠ t → duty' a = duty a) (hduty : duty t = some (.owes (some b)))
    (hsettled : duty' t = some .settled) : Chained duty' (joined ++ [b]) l := by
  induction l with
  | nil => trivial
  | cons a l ih =>
    obtain ⟨ha, hnodup⟩ := List.nodup_cons.mp hnodup
    have hfits := h.1
    by_cases hat : a = t
    · subst hat
      rw [hduty] at hfits
      have hrest : Chained duty' joined l :=
        h.2.congr fun c hc => heq c fun hca => ha (hca ▸ hc)
      have hb : b ∉ l.tail := by
        cases l with
        | nil => exact List.not_mem_nil
        | cons c l =>
          cases hfits.1
          exact (List.nodup_cons.mp hnodup).1
      refine ⟨?_, hrest.reap hb⟩
      rw [hsettled, ← hfits.1]
      rintro c ⟨⟩
      exact List.mem_append_right _ List.mem_cons_self
    · have ht : t ∈ l := (List.mem_cons.mp ht).resolve_left (Ne.symm hat)
      obtain ⟨hb, -⟩ := h.2.owed ht hduty
      have hhead : ∀ c ∈ l.head?, c ≠ b := by
        rintro c hc rfl
        cases l with
        | nil => cases hc
        | cons d l =>
          cases hc
          exact (List.nodup_cons.mp hnodup).1 hb
      refine ⟨?_, ih h.2 hnodup ht⟩
      rw [heq a hat]
      exact hfits.reap hhead

/-- When the last to begin has ended, all have, and all but that one have been joined. -/
theorem Chained.all_settled (h : Chained duty joined l)
    (hjoined : ∀ b ∈ joined, duty b = some .settled)
    (hhead : ∀ a ∈ l.head?, duty a = some .settled) :
    (∀ a ∈ l, duty a = some .settled) ∧ ∀ b ∈ l.tail, b ∈ joined := by
  induction l with
  | nil => simp
  | cons a l ih =>
    have ha := hhead a rfl
    have hfits := h.1
    rw [ha] at hfits
    obtain ⟨hsettled, htail⟩ := ih h.2 fun b hb => hjoined b (hfits b hb)
    refine ⟨fun b hb => ?_, fun b hb => ?_⟩
    · rcases List.mem_cons.mp hb with rfl | hb
      · exact ha
      · exact hsettled b hb
    · cases l with
      | nil => cases hb
      | cons c l =>
        rcases List.mem_cons.mp hb with rfl | hb
        · exact hfits b rfl
        · exact htail b hb

/-- As long as a thread of the chain has not ended, one of them can end now. -/
theorem Chained.exists_ready (h : Chained duty joined l) (ht : t ∈ l)
    (hduty : duty t ≠ some .settled) : ∃ a ∈ l, duty a = some (.owes none) ∨
      ∃ b, duty a = some (.owes (some b)) ∧ duty b = some .settled := by
  induction l generalizing t with
  | nil => cases ht
  | cons a l ih =>
    by_cases hrest : ∃ b ∈ l, duty b ≠ some .settled
    · obtain ⟨b, hb, hbusy⟩ := hrest
      obtain ⟨c, hc, hready⟩ := ih h.2 hb hbusy
      exact ⟨c, List.mem_cons_of_mem a hc, hready⟩
    · have hsettled : ∀ b ∈ l, duty b = some .settled := by
        intro b hb
        by_contra hbusy
        exact hrest ⟨b, hb, hbusy⟩
      obtain rfl : t = a := by
        rcases List.mem_cons.mp ht with rfl | ht
        · rfl
        · exact absurd (hsettled t ht) hduty
      refine ⟨t, List.mem_cons_self, ?_⟩
      have hfits := h.1
      cases hd : duty t with
      | none =>
        rw [hd] at hfits
        exact hfits.elim
      | some d =>
        cases d with
        | settled => exact absurd hd hduty
        | owes next =>
          rw [hd] at hfits
          obtain ⟨rfl, -⟩ := hfits
          cases l with
          | nil => exact .inl rfl
          | cons b l => exact .inr ⟨b, rfl, hsettled b List.mem_cons_self⟩

end Reap
