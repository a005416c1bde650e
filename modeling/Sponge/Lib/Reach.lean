import Mathlib.Tactic

/-!
# Lib/Reach — the states a guarded machine can reach

A machine is a partial step function `step : σ → ι → Option σ`, `none` where the step is refused or
the code throws, and a guard `ok` saying which inputs the environment may offer in which state.
`Reach step ok s₀` is the set of states of all runs from `s₀` whose every input meets the guard.

Safety is proved by `Reach.invariant`; a concrete run is produced by evaluating `exec`, which runs a
list of inputs and checks the guard at each of them.
-/

/-- **The states reached from `s₀`** by steps that meet the guard `ok`. -/
inductive Reach {σ ι : Type*} (step : σ → ι → Option σ) (ok : σ → ι → Prop) (s₀ : σ) : σ → Prop
  | refl : Reach step ok s₀ s₀
  | tail {s s' : σ} {i : ι} : Reach step ok s₀ s → ok s i → step s i = some s' → Reach step ok s₀ s'

namespace Reach

variable {σ ι : Type*} {step : σ → ι → Option σ} {ok : σ → ι → Prop} {s₀ s : σ}

/-- **The invariant rule**: what holds at the start and is kept by every allowed step holds in every
reached state. -/
theorem invariant {I : σ → Prop} (h : Reach step ok s₀ s) (init : I s₀)
    (keep : ∀ s i s', I s → ok s i → step s i = some s' → I s') : I s := by
  induction h with
  | refl => exact init
  | tail _ hok hstep ih => exact keep _ _ _ ih hok hstep

theorem trans {s' : σ} (h : Reach step ok s₀ s) (h' : Reach step ok s s') :
    Reach step ok s₀ s' := by
  induction h' with
  | refl => exact h
  | tail _ hok hstep ih => exact .tail ih hok hstep

/-- Inputs may be chosen in view of the state. -/
theorem of_choice
    (h : Reach (fun s (f : σ → ι) => step s (f s)) (fun s f => ok s (f s)) s₀ s) :
    Reach step ok s₀ s := by
  induction h with
  | refl => exact .refl
  | tail _ hok hstep ih => exact ih.tail hok hstep

end Reach

section Exec

variable {σ ι : Type*} (step : σ → ι → Option σ) (ok : σ → ι → Prop)
  [∀ s i, Decidable (ok s i)]

/-- Run a list of inputs, checking the guard at each of them. -/
def exec : σ → List ι → Option σ
  | s, [] => some s
  | s, i :: is => if ok s i then (step s i).bind fun s' => exec s' is else none

variable {step ok}

/-- **What `exec` computes is reachable.** -/
theorem reach_of_exec {s s' : σ} : ∀ {is : List ι}, exec step ok s is = some s' →
    Reach step ok s s' := by
  intro is
  induction is generalizing s with
  | nil =>
    intro h
    obtain rfl : s = s' := Option.some.inj h
    exact .refl
  | cons i is ih =>
    intro h
    rw [exec] at h
    split at h
    · rename_i hok
      obtain ⟨s₁, hs₁, h₁⟩ := Option.bind_eq_some_iff.mp h
      exact (Reach.refl.tail hok hs₁).trans (ih h₁)
    · cases h

variable (step ok) in
/-- A run found by evaluation, with what is wanted of its last state. -/
theorem exists_reach_of_exec (s : σ) (is : List ι) (p : σ → Bool)
    (h : (exec step ok s is).any p = true) : ∃ s', Reach step ok s s' ∧ p s' = true := by
  obtain ⟨s', hs', hp⟩ := (Option.any_eq_true p _).mp h
  exact ⟨s', reach_of_exec hs', hp⟩

end Exec
