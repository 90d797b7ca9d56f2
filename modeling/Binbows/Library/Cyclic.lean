/-
Binbows/Library/Cyclic.lean

Turns in cyclic order.

The members of a set `A` of numbers below `n` take turns: the one after `c` is
the first member of `A` in the cyclic order `c + 1, …, n - 1, 0, …, c`
(`IsNext`).  Seen from a member `p`, each turn goes to the nearest member that
lies further on, or back to `p` when there is none (`IsNext.cases`).  So between
two consecutive turns of `p` everybody else in `A` has exactly one
(`exists_unique_turn`).
-/
import Mathlib.Data.Fin.Basic
import Mathlib.Data.Set.Basic
import Mathlib.Tactic.Basic

namespace Cyclic

variable {n : Nat} {A : Set (Fin n)} {c q p : Fin n}

/-- The position of `x` in the order `c + 1, …, n - 1, 0, …, c`. -/
def rank (c x : Fin n) : Nat := if c < x then x - c - 1 else x + n - c - 1

/-- The number of steps from `p` on to `x`. -/
def dist (p x : Fin n) : Nat := if p ≤ x then x - p else x + n - p

/-- `q` is the first member of `A` after `c`. -/
structure IsNext (A : Set (Fin n)) (c q : Fin n) : Prop where
  mem : q ∈ A
  first : ∀ x ∈ A, rank c q ≤ rank c x

theorem dist_self : dist p p = 0 := by simp [dist]

theorem dist_pos (h : q ≠ p) : 0 < dist p q := by
  unfold dist
  split_ifs <;> omega

theorem dist_injective (h : dist p c = dist p q) : c = q := by
  unfold dist at h
  split_ifs at h <;> omega

/-- Seen from a member `p`, the turn after that of `c` goes to the nearest
member beyond `c`, or it comes back to `p`. -/
theorem IsNext.cases (h : IsNext A c q) (hp : p ∈ A) :
    (dist p c < dist p q ∧ ∀ x ∈ A, dist p c < dist p x → dist p q ≤ dist p x) ∨
    (q = p ∧ ∀ x ∈ A, dist p x ≤ dist p c) := by
  have hqp := h.first p hp
  rcases eq_or_ne q p with rfl | hne
  · refine .inr ⟨rfl, fun x hx => ?_⟩
    have hx := h.first x hx
    unfold rank at hx
    unfold dist
    split_ifs at hx ⊢ <;> omega
  · refine .inl ⟨?_, fun x hx hlt => ?_⟩
    · unfold rank at hqp
      unfold dist
      split_ifs at hqp ⊢ <;> omega
    · have hx := h.first x hx
      unfold rank at hx hqp
      unfold dist at hlt ⊢
      split_ifs at hx hqp hlt ⊢ <;> omega

/-- **Everybody has a turn.**  If the turns from `m` to `m'` follow the cyclic
order, `p` has the turns `m` and `m'` and none in between, then every other
member has exactly one turn in between. -/
theorem exists_unique_turn (turn : Nat → Fin n) {m m' : Nat} (hm : m < m') (hp : p ∈ A)
    (hturn : ∀ l, m ≤ l → l < m' → IsNext A (turn l) (turn (l + 1)))
    (hfirst : turn m = p) (hlast : turn m' = p) (hbetween : ∀ l, m < l → l < m' → turn l ≠ p)
    (hq : q ∈ A) (hne : q ≠ p) : ∃! l, (m < l ∧ l < m') ∧ turn l = q := by
  -- until the turn comes back to `p`, it moves away from it
  have hgrow : ∀ l, m ≤ l → l + 1 < m' → dist p (turn l) < dist p (turn (l + 1)) := by
    intro l hl hl'
    rcases (hturn l hl (by omega)).cases hp with ⟨hlt, -⟩ | ⟨heq, -⟩
    · exact hlt
    · exact absurd heq (hbetween (l + 1) (by omega) hl')
  have hmono : ∀ a b, m ≤ a → a < b → b < m' → dist p (turn a) < dist p (turn b) := by
    intro a b ha hab
    induction b, hab using Nat.le_induction with
    | base => exact fun hb => hgrow a ha hb
    | succ b hb ih =>
        intro hb'
        exact (ih (by omega)).trans (hgrow b (by omega) hb')
  -- it cannot pass `q` by
  have hexists : ∃ l, (m < l ∧ l < m') ∧ turn l = q := by
    by_contra hnone
    have hbelow : ∀ l, m ≤ l → l < m' → dist p (turn l) < dist p q := by
      intro l hl
      induction l, hl using Nat.le_induction with
      | base =>
          intro _
          rw [hfirst, dist_self]
          exact dist_pos hne
      | succ l hl ih =>
          intro hl'
          rcases (hturn l hl (by omega)).cases hp with ⟨-, hnear⟩ | ⟨heq, -⟩
          · refine lt_of_le_of_ne (hnear q hq (ih (by omega))) fun heq => ?_
            exact hnone ⟨l + 1, ⟨by omega, hl'⟩, dist_injective heq⟩
          · exact absurd heq (hbetween (l + 1) (by omega) hl')
    obtain ⟨l, rfl⟩ : ∃ l, m' = l + 1 := ⟨m' - 1, by omega⟩
    have hl := hbelow l (by omega) (by omega)
    rcases (hturn l (by omega) (by omega)).cases hp with ⟨hlt, -⟩ | ⟨-, hall⟩
    · rw [hlast, dist_self] at hlt
      exact absurd hlt (by omega)
    · exact absurd (hall q hq) (by omega)
  obtain ⟨l, hl, hlq⟩ := hexists
  refine ⟨l, ⟨hl, hlq⟩, ?_⟩
  rintro l' ⟨hl', hlq'⟩
  rcases lt_trichotomy l' l with hlt | heq | hgt
  · have h := hmono l' l (by omega) hlt hl.2
    rw [hlq, hlq'] at h
    exact absurd h (lt_irrefl _)
  · exact heq
  · have h := hmono l l' (by omega) hgt hl'.2
    rw [hlq, hlq'] at h
    exact absurd h (lt_irrefl _)

end Cyclic
