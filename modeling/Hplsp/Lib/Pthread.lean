import Mathlib.Data.List.Basic
import Mathlib.Logic.Function.Basic

/-! Mutexes and condition variables, as the thread that holds the one and the threads that wait at
the other. -/

namespace Pthread

variable {τ : Type*} [DecidableEq τ] {owner owner' : Option τ} {waiting waiting' : List τ}
  {t t' : τ} {woken : Option τ}

/-- Locking waits as long as the mutex has an owner. -/
def lock (owner : Option τ) (t : τ) : Option (Option τ) :=
  if owner = none then some (some t) else none

/-- Only the owner unlocks. -/
def unlock (owner : Option τ) (t : τ) : Option (Option τ) :=
  if owner = some t then some none else none

/-- A signal wakes one of the threads that wait, unless there is none. -/
def signal (waiting : List τ) : Option τ → Option (List τ)
  | none => if waiting = [] then some [] else none
  | some t => if t ∈ waiting then some (waiting.filter (· ≠ t)) else none

/-- A thread stops waiting without a signal. -/
def wake (waiting : List τ) (t : τ) : List τ := waiting.filter (· ≠ t)

omit [DecidableEq τ] in
theorem lock_eq_some : lock owner t = some owner' ↔ owner = none ∧ owner' = some t := by
  simp [lock, eq_comm]

theorem unlock_eq_some : unlock owner t = some owner' ↔ owner = some t ∧ owner' = none := by
  simp [unlock, eq_comm]

theorem mem_wake : t' ∈ wake waiting t ↔ t' ∈ waiting ∧ t' ≠ t := by simp [wake]

/-- Whom a signal leaves waiting was waiting. -/
theorem signal_subset (h : signal waiting woken = some waiting') : waiting' ⊆ waiting := by
  cases woken with
  | none =>
    obtain ⟨-, h⟩ := Option.ite_none_right_eq_some.mp h
    cases h
    exact List.nil_subset _
  | some t =>
    obtain ⟨-, h⟩ := Option.ite_none_right_eq_some.mp h
    cases h
    exact List.filter_sublist.subset

/-- A signal leaves nobody waiting where only one thread can wait. -/
theorem signal_eq_nil (h : signal waiting woken = some waiting') (hone : ∀ t' ∈ waiting, t' = t) :
    waiting' = [] := by
  cases woken with
  | none =>
    obtain ⟨-, h⟩ := Option.ite_none_right_eq_some.mp h
    cases h
    rfl
  | some u =>
    obtain ⟨hu, h⟩ := Option.ite_none_right_eq_some.mp h
    cases h
    refine List.filter_eq_nil_iff.mpr fun v hv => ?_
    simp [hone u hu, hone v hv]

/-- A signal can always be sent. -/
theorem exists_signal (waiting : List τ) :
    ∃ woken waiting', signal waiting woken = some waiting' := by
  cases waiting with
  | nil => exact ⟨none, [], rfl⟩
  | cons t waiting => exact ⟨some t, _, if_pos List.mem_cons_self⟩

section Threads

variable {κ : Type*} {pc : τ → κ} {new : κ} {f : κ → Bool}

/-- Some thread is still at such a point after a step of a thread that leaves none. -/
theorem exists_update (h : ∃ t', f (pc t') = true) (hnew : f (pc t) = true → f new = true) :
    ∃ t', f (Function.update pc t new t') = true := by
  obtain ⟨t', ht'⟩ := h
  by_cases ht : t' = t
  · subst ht
    exact ⟨t', by simpa using hnew ht'⟩
  · exact ⟨t', by simpa [ht] using ht'⟩

/-- The threads that wait stay where they are. -/
theorem waiting_update (h : ∀ t' ∈ waiting, f (pc t') = true) (ht : t ∉ waiting) :
    ∀ t' ∈ waiting, f (Function.update pc t new t') = true := by
  intro t' hmem
  have hne : t' ≠ t := fun heq => ht (heq ▸ hmem)
  rw [Function.update_of_ne hne]
  exact h t' hmem

end Threads

section Owner

variable {κ φ : Type*} {pc : τ → κ} {new : κ} {holds : κ → Bool} {whole : φ} {f : κ → φ}

/-- The owner of a mutex is the thread that is at a point where it holds it. -/
def Owned (holds : κ → Bool) (pc : τ → κ) (owner : Option τ) : Prop :=
  ∀ t, owner = some t ↔ holds (pc t) = true

theorem Owned.goto (h : Owned holds pc owner) (hnew : holds new = holds (pc t)) :
    Owned holds (Function.update pc t new) owner := by
  intro t'
  by_cases ht : t' = t
  · subst ht
    simp [hnew, h t']
  · simp [ht, h t']

theorem Owned.lock (h : Owned holds pc owner) (hlock : Pthread.lock owner t = some owner')
    (hnew : holds new = true) : Owned holds (Function.update pc t new) owner' := by
  obtain ⟨rfl, rfl⟩ := lock_eq_some.mp hlock
  intro t'
  by_cases ht : t' = t
  · subst ht
    simp [hnew]
  · simp [ht, ← h t', Ne.symm ht]

theorem Owned.unlock (h : Owned holds pc owner) (hunlock : Pthread.unlock owner t = some owner')
    (hnew : holds new = false) : Owned holds (Function.update pc t new) owner' := by
  obtain ⟨rfl, rfl⟩ := unlock_eq_some.mp hunlock
  intro t'
  by_cases ht : t' = t
  · subst ht
    simp [hnew]
  · simp [ht, ← h t', Ne.symm ht]

omit [DecidableEq τ] in
/-- Two threads never hold one mutex. -/
theorem Owned.unique (h : Owned holds pc owner) (ht : holds (pc t) = true)
    (ht' : holds (pc t') = true) : t = t' :=
  Option.some_inj.mp (((h t).mpr ht).symm.trans ((h t').mpr ht'))

/-- What the owner of a mutex is about under it, and `whole` if there is none. -/
def phase (whole : φ) (f : κ → φ) (pc : τ → κ) (owner : Option τ) : φ :=
  owner.elim whole fun t => f (pc t)

omit [DecidableEq τ] in
theorem Owned.phase_eq (h : Owned holds pc owner) (ht : holds (pc t) = true) :
    phase whole f pc owner = f (pc t) := by
  rw [(h t).mpr ht]
  rfl

theorem Owned.phase_self (h : Owned holds (Function.update pc t new) owner)
    (hnew : holds new = true) : phase whole f (Function.update pc t new) owner = f new := by
  rw [h.phase_eq (t := t) (by rwa [Function.update_self]), Function.update_self]

/-- A thread that is about the same as before, with the mutex or without it. -/
theorem Owned.phase_congr (h : Owned holds pc owner)
    (h' : Owned holds (Function.update pc t new) owner')
    (hwhole : ∀ k, holds k = false → f k = whole) (hnew : f new = f (pc t)) :
    phase whole f (Function.update pc t new) owner' = phase whole f pc owner := by
  by_cases hother : ∃ t', t' ≠ t ∧ holds (pc t') = true
  · obtain ⟨t', ht, hholds⟩ := hother
    rw [h.phase_eq hholds, h'.phase_eq (t := t') (by rwa [Function.update_of_ne ht]),
      Function.update_of_ne ht]
  · have hself : ∀ t', holds (pc t') = true → t' = t := by
      intro t' hholds
      by_contra hne
      exact hother ⟨t', hne, hholds⟩
    have hbefore : phase whole f pc owner = f (pc t) := by
      cases howner : owner with
      | none =>
        refine (hwhole _ (Bool.eq_false_iff.mpr fun hholds => ?_)).symm
        rw [(h t).mpr hholds] at howner
        cases howner
      | some t' => rw [hself t' ((h t').mp howner)]; rfl
    have hafter : phase whole f (Function.update pc t new) owner' = f new := by
      cases howner : owner' with
      | none =>
        refine (hwhole _ (Bool.eq_false_iff.mpr fun hholds => ?_)).symm
        have hmine := (h' t).mpr (by rwa [Function.update_self])
        rw [hmine] at howner
        cases howner
      | some t' =>
        have hholds := (h' t').mp howner
        by_cases ht : t' = t
        · rw [ht]
          simp [phase]
        · rw [Function.update_of_ne ht] at hholds
          exact absurd (hself t' hholds) ht
    rw [hbefore, hafter, hnew]

end Owner

end Pthread
