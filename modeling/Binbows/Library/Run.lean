/-
Binbows/Library/Run.lean

Runs of a machine under a guard.

A machine is a partial step function `step : σ → ι → Option σ`; an input that
it does not return from gives `none`.  A guard says which inputs are allowed in
which state, and `Reaches step ok` is the reflexive and transitive closure of
the allowed steps.  What every allowed step preserves holds in every state
reached (`Reaches.invariant`), and a guard may be weakened along an invariant
(`Reaches.mono`).

Within one step, calls that may fail are made one after the other; `bind_eq_ok` says
when such a sequence returns.
-/
import Mathlib.Logic.Relation

namespace Run

variable {σ ι : Type*}

/-- One allowed step. -/
def Step (step : σ → ι → Option σ) (ok : σ → ι → Prop) (s s' : σ) : Prop :=
  ∃ i, ok s i ∧ step s i = some s'

/-- The states that allowed steps lead to. -/
abbrev Reaches (step : σ → ι → Option σ) (ok : σ → ι → Prop) : σ → σ → Prop :=
  Relation.ReflTransGen (Step step ok)

variable {step : σ → ι → Option σ} {ok ok' : σ → ι → Prop} {s s' : σ} {I : σ → Prop}

/-- What every allowed step preserves, a run preserves. -/
theorem Reaches.invariant (h : Reaches step ok s s') (h0 : I s)
    (hstep : ∀ {s i s'}, I s → ok s i → step s i = some s' → I s') : I s' := by
  induction h with
  | refl => exact h0
  | tail _ hs ih =>
      obtain ⟨i, hok, hi⟩ := hs
      exact hstep ih hok hi

/-- A guard may be weakened where an invariant gives the weaker one. -/
theorem Reaches.mono (h : Reaches step ok s s') (h0 : I s)
    (hstep : ∀ {s i s'}, I s → ok s i → step s i = some s' → I s')
    (hok : ∀ {s i}, I s → ok s i → ok' s i) : Reaches step ok' s s' ∧ I s' := by
  induction h with
  | refl => exact ⟨.refl, h0⟩
  | tail _ hs ih =>
      obtain ⟨i, hi, hs⟩ := hs
      exact ⟨ih.1.tail ⟨i, hok ih.2 hi, hs⟩, hstep ih.2 hi hs⟩

/-- One allowed step more. -/
theorem Reaches.snoc {i : ι} {s'' : σ} (h : Reaches step ok s s') (hok : ok s' i)
    (hs : step s' i = some s'') : Reaches step ok s s'' :=
  h.tail ⟨i, hok, hs⟩

/-! ### Computations that may fail -/

/-- Inversion of a sequence of two calls. -/
theorem bind_eq_ok {ε α β : Type} {x : Except ε α} {f : α → Except ε β} {b : β} :
    (x >>= f) = .ok b ↔ ∃ a, x = .ok a ∧ f a = .ok b := by
  cases x with
  | error e =>
      constructor
      · intro h
        cases h
      · rintro ⟨a, ha, -⟩
        cases ha
  | ok a =>
      refine ⟨fun h => ⟨a, rfl, h⟩, ?_⟩
      rintro ⟨a', ha, h⟩
      cases ha
      exact h

end Run
