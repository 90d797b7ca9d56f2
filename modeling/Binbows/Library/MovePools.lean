/-
Binbows/Library/MovePools.lean

Any number of moves on one map, where no two have the same source.

A value that is copied is there twice, until its source is taken out.  The sources that
are about to go do not count: without them the map still holds, of everything that it held
at first, a value that is at least as much (`Store.Keeps`).  No step of any move changes
this, so that nothing is lost at any time.

Two moves with one source are another matter: a value that comes to the source between
their deletions is taken out by the second.

Main result: `Store.Keeps.step`.
-/
import Binbows.Library.MovePairs
import Mathlib.Order.Defs.Unbundled

namespace Moves

variable {E K V ι : Type*} [DecidableEq K] [DecidableEq ι] {R : Store K V} {le : V → V → Prop}
  {P : ι → Plan E K} {F F' F₀ : K → Option V} {g : ι → Progress V} {p : Progress V} {x y : V}
  {k k' : K} {i j : ι}

/-- A move has the value `x` in hand, and its source is still there. -/
def Progress.Holds (p : Progress V) (x : V) : Prop := p = .loaded x ∨ p = .copied x

/-- A copy of `k` was made, and `k` is about to go. -/
def Pending (P : ι → Plan E K) (g : ι → Progress V) (k : K) : Prop :=
  ∃ i x, g i = .copied x ∧ (P i).src = .ok (some k)

/-- Something that is at least as much as `x` is there to stay. -/
def Stays (le : V → V → Prop) (P : ι → Plan E K) (g : ι → Progress V) (F : K → Option V) (x : V) :
    Prop :=
  ∃ k y, F k = some y ∧ le x y ∧ ¬ Pending P g k

/-- Everything that was there at first stays. -/
structure Store.Keeps (R : Store K V) (le : V → V → Prop) (P : ι → Plan E K) (F₀ : K → Option V)
    (g : ι → Progress V) (F : K → Option V) : Prop where
  holds : ∀ {i x}, (g i).Holds x → ∃ k, (P i).src = .ok (some k) ∧ F k = some x ∧ R.fits x
  stays : ∀ {k x}, F₀ k = some x → Stays le P g F x

omit [DecidableEq ι] in
theorem keeps_start [Std.Refl le] : R.Keeps le P F₀ (fun _ => .start) F₀ where
  holds h := by rcases h with h | h <;> cases h
  stays {k x} hx := ⟨k, x, hx, Std.Refl.refl x, by rintro ⟨i, z, hz, -⟩; cases hz⟩

omit [DecidableEq K] in
/-- What is pending after a step of one move, if its own source is not. -/
theorem pending_update (hp : ∀ x, p ≠ .copied x) (h : Pending P (Function.update g i p) k) :
    Pending P g k := by
  obtain ⟨j, x, hx, hk⟩ := h
  by_cases hj : j = i
  · subst hj
    rw [Function.update_self] at hx
    exact absurd hx (hp x)
  · rw [Function.update_of_ne hj] at hx
    exact ⟨j, x, hx, hk⟩

/-- A move that changes nothing and writes nothing. -/
theorem Store.Keeps.quiet (h : R.Keeps le P F₀ g F) (hp : ∀ x, p ≠ .copied x)
    (hholds : ∀ {x}, p.Holds x → ∃ k, (P i).src = .ok (some k) ∧ F k = some x ∧ R.fits x) :
    R.Keeps le P F₀ (Function.update g i p) F where
  holds {j x} hx := by
    by_cases hj : j = i
    · subst hj
      rw [Function.update_self] at hx
      exact hholds hx
    · rw [Function.update_of_ne hj] at hx
      exact h.holds hx
  stays hx := by
    obtain ⟨k, y, hy, hle, hpending⟩ := h.stays hx
    exact ⟨k, y, hy, hle, fun hk => hpending (pending_update hp hk)⟩

/-- **No step of any move loses anything.** -/
theorem Store.Keeps.step [IsTrans V le] (h : R.Keeps le P F₀ g F)
    (hcopy : ∀ {x}, R.fits x → le x (R.copy x))
    (hsources : ∀ {i j k}, (P i).src = .ok (some k) → (P j).src = .ok (some k) → i = j)
    (hs : R.Step (P i) (g i) F p F') : R.Keeps le P F₀ (Function.update g i p) F' := by
  -- by what the process does next; only a copy and an erasure change the map
  generalize hi : g i = q at hs
  cases hs with
  | fail _ _ =>
      refine h.quiet (by simp) ?_
      intro x hx
      rcases hx with hx | hx
      · cases hx
      · cases hx
  | @load _ k x hk hx hfits =>
      refine h.quiet (by simp) ?_
      intro z hz
      rcases hz with hz | hz
      -- the value is read where it stands
      · cases hz
        exact ⟨k, hk, hx, hfits⟩
      · cases hz
  | refuse _ _ =>
      refine h.quiet (by simp) ?_
      intro x hx
      rcases hx with hx | hx
      · cases hx
      · cases hx
  | @write _ k' x hk' hfresh hroom =>
      obtain ⟨k, hk, hx, hfits⟩ := h.holds (i := i) (x := x) (.inl hi)
      -- what was in use still is, with the same value
      have hold : ∀ {l : K} {y : V}, F l = some y →
          Function.update F k' (some (R.copy x)) l = some y := by
        intro l y hl
        have hne : l ≠ k' := by
          rintro rfl
          rw [hfresh] at hl
          cases hl
        rw [Function.update_of_ne hne, hl]
      -- only this process can wait for its own source
      have hpending : ∀ {l : K}, l ≠ k → Pending P (Function.update g i (.copied x)) l →
          Pending P g l := by
        rintro l hne ⟨j, z, hz, hl⟩
        by_cases hj : j = i
        · subst hj
          rw [hk] at hl
          exact absurd (Option.some.inj (Except.ok.inj hl)).symm hne
        · rw [Function.update_of_ne hj] at hz
          exact ⟨j, z, hz, hl⟩
      constructor
      · intro j z hz
        by_cases hj : j = i
        · subst hj
          rw [Function.update_self] at hz
          rcases hz with hz | hz
          · cases hz
          · cases hz
            exact ⟨k, hk, hold hx, hfits⟩
        · rw [Function.update_of_ne hj] at hz
          obtain ⟨l, hl, hlz, hfits'⟩ := h.holds hz
          exact ⟨l, hl, hold hlz, hfits'⟩
      -- a value stays where it was, unless this was the source of the copy
      · intro l z hz
        obtain ⟨l', y, hy, hle, hstays⟩ := h.stays hz
        by_cases hl' : l' = k
        · -- the copy stands for the source
          subst hl'
          obtain rfl : x = y := Option.some.inj (hx.symm.trans hy)
          refine ⟨k', R.copy x, Function.update_self _ _ _, IsTrans.trans _ _ _ hle (hcopy hfits), ?_⟩
          have hne : k' ≠ l' := by
            rintro rfl
            rw [hfresh] at hx
            cases hx
          intro hpend
          obtain ⟨j, w, hw, hj⟩ := hpending hne hpend
          obtain ⟨m, hm, hmw, -⟩ := h.holds (.inr hw)
          rw [hj] at hm
          obtain rfl := Option.some.inj (Except.ok.inj hm)
          rw [hfresh] at hmw
          cases hmw
        · exact ⟨l', y, hold hy, hle, fun hpend => hstays (hpending hl' hpend)⟩
  -- nobody else waits for this source, as no two processes share one
  | @erase _ k x hk =>
      have hpend : Pending P g k := ⟨i, x, hi, hk⟩
      constructor
      · intro j z hz
        by_cases hj : j = i
        · subst hj
          rw [Function.update_self] at hz
          rcases hz with hz | hz
          · cases hz
          · cases hz
        · rw [Function.update_of_ne hj] at hz
          obtain ⟨l, hl, hlz, hfits⟩ := h.holds hz
          have hne : l ≠ k := by
            rintro rfl
            exact hj (hsources hl hk)
          refine ⟨l, hl, ?_, hfits⟩
          rw [Function.update_of_ne hne, hlz]
      · intro l z hz
        obtain ⟨l', y, hy, hle, hstays⟩ := h.stays hz
        -- where a value stays is no source that waits to go
        have hne : l' ≠ k := by
          rintro rfl
          exact hstays hpend
        refine ⟨l', y, ?_, hle, fun hp => hstays (pending_update (by simp) hp)⟩
        rw [Function.update_of_ne hne, hy]

end Moves
