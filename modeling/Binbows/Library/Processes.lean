/-
Binbows/Library/Processes.lean

Programs that take turns on one system.

A pool of processes holds what is left of the program of each.  Any process that is at a
call may be the next to make it (`Turn`), and a run of the pool is any sequence of turns.

If every program follows its protocol, and every good call of one process leads to a
state in which all processes are in the phases that they count on, then this holds in
every interleaving (`follows_of_turns`).
-/
import Binbows.Library.Calls
import Mathlib.Logic.Function.Basic
import Mathlib.Logic.Relation

namespace Calls

variable {Call Reply Err α β σ ι : Type} [DecidableEq ι]
  {handler : Call → σ → Except Err (Reply × σ)} {ps ps' : ι → Program Call Reply Err α} {s s' : σ}
  {p : Program Call Reply Err α} {a : α} {i : ι}

/-! ### Turns -/

/-- One process makes the call that it is at. -/
def Turn (handler : Call → σ → Except Err (Reply × σ))
    (x y : (ι → Program Call Reply Err α) × σ) : Prop :=
  ∃ i c next r, x.1 i = .call c next ∧ handler c x.2 = .ok (r, y.2) ∧
    y.1 = Function.update x.1 i (next r)

/-- A run of the pool: the processes take turns in some order. -/
def Interleaves (handler : Call → σ → Except Err (Reply × σ))
    (ps : ι → Program Call Reply Err α) (s : σ) (ps' : ι → Program Call Reply Err α) (s' : σ) :
    Prop :=
  Relation.ReflTransGen (Turn handler) (ps, s) (ps', s')

/-- One process may have the system to itself until it returns. -/
theorem interleaves_of_run (h : (ps i).run handler s = .ok (a, s')) :
    Interleaves handler ps s (Function.update ps i (.ret a)) s' := by
  generalize hp : ps i = p at h
  induction p generalizing ps s with
  | ret a' =>
      cases h
      rw [← hp, Function.update_eq_self]
      exact .refl
  | fail e => cases h
  | call c next ih =>
      rw [Program.run] at h
      cases hc : handler c s with
      | error e =>
          rw [hc] at h
          cases h
      | ok rs =>
          obtain ⟨r, s₁⟩ := rs
          rw [hc] at h
          have hturn : Turn handler (ps, s) (Function.update ps i (next r), s₁) :=
            ⟨i, c, next, r, hp, hc, rfl⟩
          have hrest := ih r (Function.update_self i (next r) ps) h
          rw [Function.update_idem] at hrest
          exact .head hturn hrest

/-- Run the pool for some turns; nothing comes of a turn of a process that is at no call. -/
def runTurns (handler : Call → σ → Except Err (Reply × σ)) :
    List ι → (ι → Program Call Reply Err α) → σ → Option ((ι → Program Call Reply Err α) × σ)
  | [], ps, s => some (ps, s)
  | i :: turns, ps, s =>
      match ps i with
      | .call c next =>
          match handler c s with
          | .ok (r, s') => runTurns handler turns (Function.update ps i (next r)) s'
          | .error _ => none
      | _ => none

theorem interleaves_of_turns {turns : List ι} (h : runTurns handler turns ps s = some (ps', s')) :
    Interleaves handler ps s ps' s' := by
  induction turns generalizing ps s with
  | nil =>
      cases h
      exact .refl
  | cons i turns ih =>
      rw [runTurns] at h
      cases hp : ps i with
      | ret a =>
          rw [hp] at h
          cases h
      | fail e =>
          rw [hp] at h
          cases h
      | call c next =>
          rw [hp] at h
          dsimp only at h
          cases hc : handler c s with
          | error e =>
              rw [hc] at h
              cases h
          | ok rs =>
              obtain ⟨r, s₁⟩ := rs
              rw [hc] at h
              exact .head ⟨i, c, next, r, hp, hc, rfl⟩ (ih h)

/-- Run two programs to their ends, in the order that is given. -/
def shareTurns (handler : Call → σ → Except Err (Reply × σ)) :
    List Bool → Program Call Reply Err α → Program Call Reply Err β → σ → Option ((α × β) × σ)
  | [], .ret a, .ret b, s => some ((a, b), s)
  | true :: turns, .call c next, q, s =>
      match handler c s with
      | .ok (r, s') => shareTurns handler turns (next r) q s'
      | .error _ => none
  | false :: turns, p, .call c next, s =>
      match handler c s with
      | .ok (r, s') => shareTurns handler turns p (next r) s'
      | .error _ => none
  | _, _, _, _ => none

theorem shared_of_turns {turns : List Bool} {q : Program Call Reply Err β} {b : β}
    (h : shareTurns handler turns p q s = some ((a, b), s')) :
    ∃ l, Shared handler p q s l a b s' := by
  -- by the turns: each turn is one call of the side that has it
  induction turns generalizing p q s with
  | nil =>
      cases p with
      | ret a' =>
          cases q with
          | ret b' =>
              cases h
              exact ⟨[], ⟨rfl, rfl⟩, ⟨rfl, rfl⟩, rfl⟩
          | fail e => cases h
          | call c next => cases h
      | fail e => cases h
      | call c next => cases h
  | cons who turns ih =>
      cases who with
      | true =>
          cases p with
          | ret a' => simp [shareTurns] at h
          | fail e => simp [shareTurns] at h
          | call c next =>
              rw [shareTurns] at h
              cases hc : handler c s with
              | error e =>
                  rw [hc] at h
                  cases h
              | ok rs =>
                  obtain ⟨r, s₁⟩ := rs
                  rw [hc] at h
                  obtain ⟨l, hl⟩ := ih h
                  exact ⟨_, hl.left hc⟩
      | false =>
          cases q with
          | ret b' => simp [shareTurns] at h
          | fail e => simp [shareTurns] at h
          | call c next =>
              rw [shareTurns] at h
              cases hc : handler c s with
              | error e =>
                  rw [hc] at h
                  cases h
              | ok rs =>
                  obtain ⟨r, s₁⟩ := rs
                  rw [hc] at h
                  obtain ⟨l, hl⟩ := ih h
                  exact ⟨_, hl.right hc⟩

/-! ### Protocols of all the processes -/

variable {Phase : Type} {k : ι → Protocol Call Reply Phase} {E : ι → Phase → Err → Prop}
  {Q : ι → Phase → α → Prop} {g : ι → Phase}

/-- **Processes that follow their protocols do so in every interleaving.**  What a good call
of one process does must keep the phases of all. -/
theorem follows_of_turns {I : (ι → Phase) → σ → Prop} (h : Interleaves handler ps s ps' s')
    (hps : ∀ i, (ps i).Follows (k i) (E i) (g i) (Q i)) (hs : I g s)
    (hcall : ∀ g i c s r s', I g s → (k i).good (g i) c → handler c s = .ok (r, s') →
      (k i).valid c r ∧ I (Function.update g i ((k i).next (g i) c r)) s') :
    ∃ g', I g' s' ∧ ∀ i, (ps' i).Follows (k i) (E i) (g' i) (Q i) := by
  suffices hall : ∀ x y, Relation.ReflTransGen (Turn handler) x y →
      ∀ g, (∀ i, (x.1 i).Follows (k i) (E i) (g i) (Q i)) → I g x.2 →
        ∃ g', I g' y.2 ∧ ∀ i, (y.1 i).Follows (k i) (E i) (g' i) (Q i) from hall _ _ h g hps hs
  intro x y hxy
  induction hxy with
  | refl => exact fun g hps hs => ⟨g, hs, hps⟩
  | tail _ hturn ih =>
      intro g hps hs
      obtain ⟨g₁, hs₁, hps₁⟩ := ih g hps hs
      obtain ⟨i, c, next, r, hat, hserve, hrest⟩ := hturn
      have hi := hps₁ i
      rw [hat] at hi
      obtain ⟨hvalid, hs₂⟩ := hcall g₁ i c _ r _ hs₁ hi.1 hserve
      refine ⟨_, hs₂, fun j => ?_⟩
      rw [hrest]
      by_cases hj : j = i
      · subst hj
        rw [Function.update_self, Function.update_self]
        exact hi.2 r hvalid
      · rw [Function.update_of_ne hj, Function.update_of_ne hj]
        exact hps₁ j

end Calls
