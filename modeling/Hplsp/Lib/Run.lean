import Mathlib.Tactic.Common

/-! Runs of labelled transition systems, and of step functions that may throw. -/

namespace Lts

universe u

variable {σ τ α : Type*} {step : σ → α → σ → Prop} {s t : σ} {as : List α}

/-- `Run step s as t`: the labels `as`, taken in order, lead from `s` to `t`. -/
inductive Run (step : σ → α → σ → Prop) : σ → List α → σ → Prop
  | refl (s : σ) : Run step s [] s
  | cons {s t u : σ} {a : α} {as : List α} : step s a t → Run step t as u → Run step s (a :: as) u

/-- Only the steps that meet the condition. -/
def Guarded (guard : σ → α → Prop) (step : σ → α → σ → Prop) (s : σ) (a : α) (t : σ) : Prop :=
  guard s a ∧ step s a t

/-- What every step preserves, every run preserves. -/
theorem Run.invariant {I : σ → Prop} (h : Run step s as t)
    (hstep : ∀ s a t, step s a t → I s → I t) (hs : I s) : I t := by
  induction h with
  | refl => exact hs
  | cons h _ ih => exact ih (hstep _ _ _ h hs)

/-- A run whose labels all meet the condition. -/
theorem Run.guarded {cond : α → Prop} (h : Run step s as t) (hcond : ∀ a ∈ as, cond a) :
    Run (Guarded (fun _ => cond) step) s as t := by
  induction h with
  | refl s => exact .refl s
  | cons hstep _ ih =>
    have hrest := ih fun a ha => hcond a (List.mem_cons_of_mem _ ha)
    exact .cons ⟨hcond _ List.mem_cons_self, hstep⟩ hrest

theorem run_append {bs : List α} {u : σ} :
    Run step s (as ++ bs) u ↔ ∃ t, Run step s as t ∧ Run step t bs u := by
  constructor
  · intro h
    induction as generalizing s with
    | nil => exact ⟨s, .refl s, h⟩
    | cons a as ih =>
      cases h with
      | cons hstep hrest =>
        obtain ⟨t, has, hbs⟩ := ih hrest
        exact ⟨t, .cons hstep has, hbs⟩
  · rintro ⟨t, has, hbs⟩
    induction has with
    | refl => exact hbs
    | cons hstep _ ih => exact .cons hstep (ih hbs)

theorem run_cons {a : α} : Run step s (a :: as) t ↔ ∃ u, step s a u ∧ Run step u as t := by
  constructor
  · rintro (_ | ⟨hstep, hrest⟩)
    exact ⟨_, hstep, hrest⟩
  · rintro ⟨u, hstep, hrest⟩
    exact .cons hstep hrest

theorem Run.unique {u : σ} (hstep : ∀ s a t u, step s a t → step s a u → t = u)
    (h : Run step s as t) (h' : Run step s as u) : t = u := by
  induction h with
  | refl =>
    cases h'
    rfl
  | cons hfirst _ ih =>
    obtain ⟨w, hw, hrest⟩ := run_cons.mp h'
    cases hstep _ _ _ _ hfirst hw
    exact ih hrest

section Computed

variable {f : σ → α → Option σ} {I P : σ → Prop} [DecidablePred P]

omit [DecidablePred P] in
/-- A function that takes only steps takes a run. -/
theorem Run.of_foldlM (hf : ∀ s a t, I s → f s a = some t → step s a t ∧ I t) (hs : I s)
    (h : as.foldlM f s = some t) : Run step s as t := by
  induction as generalizing s with
  | nil =>
    cases h
    exact .refl _
  | cons a as ih =>
    obtain ⟨u, hu, hrest⟩ := Option.bind_eq_some_iff.mp h
    obtain ⟨hstep, hnext⟩ := hf s a u hs hu
    exact .cons hstep (ih hnext hrest)

theorem exists_run (hf : ∀ s a t, I s → f s a = some t → step s a t ∧ I t) (hs : I s)
    (h : (as.foldlM f s).any (fun t => decide (P t)) = true) : ∃ t, Run step s as t ∧ P t := by
  obtain ⟨t, ht, hP⟩ := (Option.any_eq_true _ _).mp h
  exact ⟨t, .of_foldlM hf hs ht, of_decide_eq_true hP⟩

/-- A function that takes a step only when the guard admits it. -/
def guarded (guard : σ → α → Prop) [∀ s a, Decidable (guard s a)] (f : σ → α → Option σ) (s : σ)
    (a : α) : Option σ :=
  if guard s a then f s a else none

omit [DecidablePred P] in
theorem guarded_sound {guard : σ → α → Prop} [∀ s a, Decidable (guard s a)]
    (hf : ∀ s a t, I s → f s a = some t → step s a t ∧ I t) (s : σ) (a : α) (t : σ) (hs : I s)
    (h : guarded guard f s a = some t) : Guarded guard step s a t ∧ I t := by
  obtain ⟨hguard, h⟩ := Option.ite_none_right_eq_some.mp h
  exact ⟨⟨hguard, (hf s a t hs h).1⟩, (hf s a t hs h).2⟩

end Computed

section Along

variable {P I : σ → Prop} {cond : σ → α → Prop}

/-- Every state that a run with these labels passes through, the first one included, is in `P`. -/
def StatesAlong (step : σ → α → σ → Prop) (P : σ → Prop) : σ → List α → Prop
  | s, [] => P s
  | s, a :: as => P s ∧ ∀ t, step s a t → StatesAlong step P t as

/-- Every step of a run with these labels meets the condition. -/
def StepsAlong (step : σ → α → σ → Prop) (cond : σ → α → Prop) : σ → List α → Prop
  | _, [] => True
  | s, a :: as => ∀ t, step s a t → cond s a ∧ StepsAlong step cond t as

theorem StatesAlong.first (h : StatesAlong step P s as) : P s := by
  cases as with
  | nil => exact h
  | cons a as => exact h.1

theorem StatesAlong.last (h : StatesAlong step P s as) (hrun : Run step s as t) : P t := by
  induction hrun with
  | refl => exact h
  | cons hstep _ ih => exact ih (h.2 _ hstep)

/-- A condition that decides at each step whether the next state is in `P` decides it for all. -/
theorem statesAlong_iff_stepsAlong (hP : ∀ s, I s → P s)
    (hgood : ∀ s a t, I s → step s a t → cond s a → I t)
    (hbad : ∀ s a t, I s → step s a t → P t → cond s a) (hs : I s) :
    StatesAlong step P s as ↔ StepsAlong step cond s as := by
  induction as generalizing s with
  | nil => exact iff_of_true (hP s hs) trivial
  | cons a as ih =>
    constructor
    · rintro ⟨-, hrest⟩ t hstep
      have hcond := hbad s a t hs hstep (hrest t hstep).first
      exact ⟨hcond, (ih (hgood s a t hs hstep hcond)).mp (hrest t hstep)⟩
    · intro h
      refine ⟨hP s hs, fun t hstep => ?_⟩
      obtain ⟨hcond, hrest⟩ := h t hstep
      exact (ih (hgood s a t hs hstep hcond)).mpr hrest

end Along

section Functions

variable {ε : Type u} {σ : Type u} {α : Type*} {f : σ → α → Except ε σ} {s t : σ} {as : List α}

/-- Execute the labels in order, stopping at the first error. -/
def execute (f : σ → α → Except ε σ) : σ → List α → Except ε σ
  | s, [] => .ok s
  | s, a :: as => match f s a with
    | .ok t => execute f t as
    | .error e => .error e

theorem execute_append {bs : List α} :
    execute f s (as ++ bs) = execute f s as >>= fun t => execute f t bs := by
  induction as generalizing s with
  | nil => rfl
  | cons a as ih =>
    cases hs : f s a with
    | ok w => simp only [List.cons_append, execute, hs, ih]
    | error e => simp [execute, hs, bind, Except.bind]

theorem execute_singleton (a : α) : execute f s [a] = f s a := by
  cases hs : f s a <;> simp [execute, hs]

/-- Every step that the execution takes, the one that throws included, meets the condition. -/
def StepsMeet (f : σ → α → Except ε σ) (cond : σ → α → Prop) : σ → List α → Prop
  | _, [] => True
  | s, a :: as => cond s a ∧ ∀ t, f s a = .ok t → StepsMeet f cond t as

instance stepsMeetDecidable {cond : σ → α → Prop} [∀ s a, Decidable (cond s a)] :
    ∀ (s : σ) (as : List α), Decidable (StepsMeet f cond s as)
  | _, [] => isTrue trivial
  | s, a :: as => match h : f s a with
    | .ok t =>
      have : Decidable (StepsMeet f cond t as) := stepsMeetDecidable t as
      decidable_of_iff (cond s a ∧ StepsMeet f cond t as) (by simp [StepsMeet, h])
    | .error _ => decidable_of_iff (cond s a) (by simp [StepsMeet, h])

theorem stepsMeet_append {cond : σ → α → Prop} {bs : List α} : StepsMeet f cond s (as ++ bs) ↔
    StepsMeet f cond s as ∧ ∀ t, execute f s as = .ok t → StepsMeet f cond t bs := by
  induction as generalizing s with
  | nil => simp [StepsMeet, execute]
  | cons a as ih =>
    cases hs : f s a with
    | ok w => simp [StepsMeet, execute, hs, ih, and_assoc]
    | error e => simp [StepsMeet, execute, hs]

theorem stepsMeet_iff {cond : σ → α → Prop} : StepsMeet f cond s as ↔
    ∀ before a after t, as = before ++ a :: after → execute f s before = .ok t → cond t a := by
  constructor
  · rintro h before a after t rfl ht
    exact ((stepsMeet_append.mp h).2 t ht).1
  · intro h
    induction as generalizing s with
    | nil => trivial
    | cons b as ih =>
      refine ⟨h [] b as s rfl rfl, fun w hw => ih fun before a after t heq ht => ?_⟩
      refine h (b :: before) a after t (by rw [heq]; rfl) ?_
      simpa only [execute, hw] using ht

/-- Every state that the execution passes through, the first one included, is in `P`. -/
def StatesMeet (f : σ → α → Except ε σ) (P : σ → Prop) : σ → List α → Prop
  | s, [] => P s
  | s, a :: as => P s ∧ ∀ t, f s a = .ok t → StatesMeet f P t as

/-- The steps that return meet the condition; nothing is asked of a step that throws. -/
def OnReturn (f : σ → α → Except ε σ) (cond : σ → α → Prop) (s : σ) (a : α) : Prop :=
  (∃ t, f s a = .ok t) → cond s a

instance {cond : σ → α → Prop} [∀ s a, Decidable (cond s a)] (s : σ) (a : α) :
    Decidable (OnReturn f cond s a) :=
  match h : f s a with
  | .ok t => decidable_of_iff (cond s a) (by simp [OnReturn, h])
  | .error _ => isTrue (by simp [OnReturn, h])

theorem statesMeet_iff {P : σ → Prop} : StatesMeet f P s as ↔
    ∀ before after t, as = before ++ after → execute f s before = .ok t → P t := by
  induction as generalizing s with
  | nil =>
    constructor
    · rintro h before after t heq ht
      obtain ⟨rfl, rfl⟩ := List.append_eq_nil_iff.mp heq.symm
      cases ht
      exact h
    · exact fun h => h [] [] s rfl rfl
  | cons a as ih =>
    constructor
    · rintro ⟨hs, hrest⟩ before after t heq ht
      cases before with
      | nil =>
        cases ht
        exact hs
      | cons b before =>
        obtain ⟨rfl, htail⟩ := List.cons.inj heq
        rw [execute] at ht
        split at ht
        next u hu => exact ih.mp (hrest u hu) before after t htail ht
        next => cases ht
    · intro h
      refine ⟨h [] (a :: as) s rfl rfl, fun u hu => ih.mpr fun before after t heq ht => ?_⟩
      refine h (a :: before) after t (by rw [heq]; rfl) ?_
      simpa only [execute, hu] using ht

/-- A condition that decides of each step whether it is in `Q` and leads to a state in `P` decides
it for all. -/
theorem statesMeet_and_stepsMeet_iff {I P : σ → Prop} {Q cond : σ → α → Prop}
    (hP : ∀ s, I s → P s)
    (hI : ∀ s t, ∀ a ∈ as, I s → f s a = .ok t → cond s a → I t)
    (hcond : ∀ s, ∀ a ∈ as, I s → (cond s a ↔ Q s a ∧ ∀ t, f s a = .ok t → P t)) (hs : I s) :
    StatesMeet f P s as ∧ StepsMeet f Q s as ↔ StepsMeet f cond s as := by
  induction as generalizing s with
  | nil => exact iff_of_true ⟨hP s hs, trivial⟩ trivial
  | cons a as ih =>
    have hfirst := hcond s a List.mem_cons_self hs
    have hrest : ∀ {u}, f s a = .ok u → cond s a →
        (StatesMeet f P u as ∧ StepsMeet f Q u as ↔ StepsMeet f cond u as) :=
      fun hu hc => ih (fun s t b hb => hI s t b (List.mem_cons_of_mem a hb))
        (fun s b hb => hcond s b (List.mem_cons_of_mem a hb))
        (hI s _ a List.mem_cons_self hs hu hc)
    constructor
    · rintro ⟨⟨-, hstates⟩, hq, hsteps⟩
      have hc : cond s a := hfirst.mpr
        ⟨hq, fun u hu => statesMeet_iff.mp (hstates u hu) [] as u rfl rfl⟩
      exact ⟨hc, fun u hu => (hrest hu hc).mp ⟨hstates u hu, hsteps u hu⟩⟩
    · rintro ⟨hc, hsteps⟩
      refine ⟨⟨hP s hs, fun u hu => ?_⟩, (hfirst.mp hc).1, fun u hu => ?_⟩
      · exact ((hrest hu hc).mpr (hsteps u hu)).1
      · exact ((hrest hu hc).mpr (hsteps u hu)).2

/-- A condition that decides at each step that returns whether the next state is in `P` decides
it for all. -/
theorem statesMeet_iff_stepsMeet {I P : σ → Prop} {cond : σ → α → Prop} (hP : ∀ s, I s → P s)
    (hgood : ∀ s t, ∀ a ∈ as, I s → f s a = .ok t → cond s a → I t)
    (hbad : ∀ s t, ∀ a ∈ as, I s → f s a = .ok t → P t → cond s a) (hs : I s) :
    StatesMeet f P s as ↔ StepsMeet f (OnReturn f cond) s as := by
  have htrue : ∀ {s}, StepsMeet f (fun _ _ => True) s as :=
    stepsMeet_iff.mpr fun _ _ _ _ _ _ => trivial
  refine Iff.trans ⟨fun h => ⟨h, htrue⟩, fun h => h.1⟩
    (statesMeet_and_stepsMeet_iff hP ?_ ?_ hs)
  · intro s t a ha hI hok hc
    exact hgood s t a ha hI hok (hc ⟨t, hok⟩)
  · intro s a ha hI
    constructor
    · intro hc
      exact ⟨trivial, fun t hok => hP t (hgood s t a ha hI hok (hc ⟨t, hok⟩))⟩
    · rintro ⟨-, hnext⟩ ⟨t, hok⟩
      exact hbad s t a ha hI hok (hnext t hok)

/-- Conditions that agree in the states of an invariant agree on the executions that keep it. -/
theorem stepsMeet_congr {I : σ → Prop} {cond cond' : σ → α → Prop}
    (hcond : ∀ s, ∀ a ∈ as, I s → (cond s a ↔ cond' s a))
    (hI : ∀ s t, ∀ a ∈ as, I s → f s a = .ok t → cond' s a → I t) (hs : I s) :
    StepsMeet f cond s as ↔ StepsMeet f cond' s as := by
  have htrue : StatesMeet f (fun _ => True) s as := statesMeet_iff.mpr fun _ _ _ _ _ => trivial
  refine Iff.trans ⟨fun h => ⟨htrue, h⟩, And.right⟩
    (statesMeet_and_stepsMeet_iff (fun _ _ => trivial) hI ?_ hs)
  intro s a ha h
  rw [← hcond s a ha h]
  exact ⟨fun hc => ⟨hc, fun _ _ => trivial⟩, And.left⟩

/-- An execution meets a condition if the execution that it is the image of does. -/
theorem stepsMeet_map {τ : Type u} {g : τ → σ} {f' : τ → α → Except ε τ} {cond : σ → α → Prop}
    (h : ∀ s a, f (g s) a = (f' s a).map g) {s : τ} :
    StepsMeet f cond (g s) as ↔ StepsMeet f' (fun s a => cond (g s) a) s as := by
  induction as generalizing s with
  | nil => exact Iff.rfl
  | cons a as ih =>
    cases hs : f' s a with
    | ok t => simp [StepsMeet, h, hs, Except.map, ih]
    | error e => simp [StepsMeet, h, hs, Except.map]

/-- A condition that decides each step's errors decides the errors of the whole execution. -/
theorem execute_avoids_iff {I : σ → Prop} {bad : ε → Prop} {cond : σ → α → Prop}
    (hok : ∀ s a t, I s → f s a = .ok t → I t ∧ cond s a)
    (herr : ∀ s a e, I s → f s a = .error e → (¬ bad e ↔ cond s a)) (hs : I s) :
    (∀ e, execute f s as = .error e → ¬ bad e) ↔ StepsMeet f cond s as := by
  induction as generalizing s with
  | nil => simp [execute, StepsMeet]
  | cons a as ih =>
    cases h : f s a with
    | ok t =>
      obtain ⟨ht, hc⟩ := hok s a t hs h
      simp [execute, StepsMeet, h, hc, ih ht]
    | error e => simp [execute, StepsMeet, h, herr s a e hs h]

end Functions

end Lts
