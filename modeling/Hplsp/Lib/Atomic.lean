import Mathlib.Logic.Function.Basic
import Hplsp.Lib.Run

/-! Objects whose calls take effect at one instant between the call and its return. -/

namespace Atomic

variable {τ σ ω ρ : Type*}

/-- Where a thread is with its call of the object. -/
inductive Status (ω ρ : Type*) where
  | idle
  | called (op : ω)
  | done (result : ρ)

/-- What the callers see. -/
inductive Event (τ ω ρ : Type*) where
  | call (t : τ) (op : ω)
  | ret (t : τ) (result : ρ)

structure Object (τ σ ω ρ : Type*) where
  state : σ
  status : τ → Status ω ρ

inductive Act (τ ω ρ : Type*) where
  | event (e : Event τ ω ρ)
  | effect (t : τ)

def Act.visible : Act τ ω ρ → Option (Event τ ω ρ)
  | .event e => some e
  | .effect _ => none

variable [DecidableEq τ]

/-- `effect` is what an operation does to the state, all at once, and the result it has then. -/
inductive Step (effect : σ → ω → σ → ρ → Prop) :
    Object τ σ ω ρ → Act τ ω ρ → Object τ σ ω ρ → Prop
  | call {o t op} : o.status t = .idle → Step effect o (.event (.call t op))
      { o with status := Function.update o.status t (.called op) }
  | effect {o t op state result} : o.status t = .called op → effect o.state op state result →
      Step effect o (.effect t) ⟨state, Function.update o.status t (.done result)⟩
  | ret {o t result} : o.status t = .done result → Step effect o (.event (.ret t result))
      { o with status := Function.update o.status t .idle }

/-- What a step of an implementation does for its caller: nothing, or all of its operation. -/
inductive Took (effect : σ → ω → σ → ρ → Prop) : Status ω ρ → σ → Status ω ρ → σ → Prop
  | silent {status state} : Took effect status state status state
  | effect {op state state' result} : effect state op state' result →
      Took effect (.called op) state (.done result) state'

theorem Took.run {effect : σ → ω → σ → ρ → Prop} {o : Object τ σ ω ρ} {t : τ}
    {status : Status ω ρ} {state : σ} (h : Took effect (o.status t) o.state status state) :
    ∃ acts, Lts.Run (Step effect) o acts ⟨state, Function.update o.status t status⟩ ∧
      acts.filterMap Act.visible = [] := by
  generalize hbefore : o.status t = before at h
  cases h with
  | silent =>
    refine ⟨[], ?_, rfl⟩
    rw [← hbefore, Function.update_eq_self]
    exact .refl o
  | effect heffect => exact ⟨[.effect t], .cons (.effect hbefore heffect) (.refl _), rfl⟩

def init (state : σ) : Object τ σ ω ρ := ⟨state, fun _ => .idle⟩

/-- What the callers see is what they would see if each call were done at one instant. -/
def Linearizable (effect : σ → ω → σ → ρ → Prop) (state : σ) (events : List (Event τ ω ρ)) : Prop :=
  ∃ acts o, Lts.Run (Step effect) (init state) acts o ∧ acts.filterMap Act.visible = events

section Simulation

variable {κ α : Type*} {effect : σ → ω → σ → ρ → Prop} {step : κ → α → κ → Prop}
  {event : α → Option (Event τ ω ρ)} {R : κ → Object τ σ ω ρ → Prop} {s s' : κ} {as : List α}

/-- Each step matched by steps of the atomic object that show the same: so is a run. -/
theorem run_of_simulation (hstep : ∀ s a s' o, step s a s' → R s o → ∃ acts o',
      Lts.Run (Step effect) o acts o' ∧ acts.filterMap Act.visible = (event a).toList ∧ R s' o')
    {o : Object τ σ ω ρ} (h : Lts.Run step s as s') (hs : R s o) :
    ∃ acts o', Lts.Run (Step effect) o acts o' ∧
      acts.filterMap Act.visible = as.filterMap event ∧ R s' o' := by
  induction h generalizing o with
  | refl => exact ⟨[], o, .refl o, rfl, hs⟩
  | @cons s u s' a as hfirst _ ih =>
    obtain ⟨acts, o₁, hacts, hvisible, hu⟩ := hstep _ _ _ _ hfirst hs
    obtain ⟨acts', o', hacts', hvisible', hs'⟩ := ih hu
    refine ⟨acts ++ acts', o', Lts.run_append.mpr ⟨o₁, hacts, hacts'⟩, ?_, hs'⟩
    rw [List.filterMap_append, hvisible, hvisible']
    cases ha : event a <;> simp [ha]

end Simulation

end Atomic
