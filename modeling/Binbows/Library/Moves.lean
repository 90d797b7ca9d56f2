/-
Binbows/Library/Moves.lean

Moving an entry of a map in two steps, and a second move that comes in between.

A map gives the keys in use their values.  A move makes a copy of the value at its
source under its destination, where the destination is not in use (`Copies`), and
takes the source out later.  Between the two steps the map is at a stage that no
move as a whole leads to: both keys are in use.

The first move may also end there, where it does not find its source again.

What another move finds there it would also find before the move or after it, in
one of the two (`Copies.stage_eq_or`); what it reads, it would read after the move,
unless it reads the source (`Copies.stage_of_stage`); and the rest of the first
move may be put off until the second is done (`erase_stage`).
-/
import Mathlib.Logic.Function.Basic

namespace Moves

variable {K V : Type*} [DecidableEq K]

/-- From where, and where to. -/
structure Move (K : Type*) where
  src : K
  dst : K

/-- There is no value at the key that fits. -/
def Unreadable (fits : V → Prop) (F : K → Option V) (k : K) : Prop := ∀ x, F k = some x → ¬ fits x

namespace Move

/-- The map with the copy. -/
def copied (m : Move K) (F : K → Option V) (y : V) : K → Option V :=
  Function.update F m.dst (some y)

/-- The map after the move. -/
def moved (m : Move K) (F : K → Option V) (y : V) : K → Option V :=
  Function.update (m.copied F y) m.src none

/-- The map from the copy on; the source may be gone. -/
def stage (m : Move K) (F : K → Option V) (y : V) (gone : Bool) : K → Option V :=
  if gone then m.moved F y else m.copied F y

/-- The move finds `x` at its source and may copy it. -/
structure Copies (m : Move K) (fits : V → Prop) (F : K → Option V) (x : V) : Prop where
  source : F m.src = some x
  fits : fits x
  fresh : F m.dst = none

end Move

variable {m m' : Move K} {fits : V → Prop} {F G : K → Option V} {x y y' z : V} {k : K}
  {gone gone' erases : Bool}

namespace Move

@[simp] theorem stage_true : m.stage F y true = m.moved F y := rfl

@[simp] theorem stage_false : m.stage F y false = m.copied F y := rfl

@[simp] theorem copied_dst : m.copied F y m.dst = some y := Function.update_self ..

theorem copied_of_ne (h : k ≠ m.dst) : m.copied F y k = F k := Function.update_of_ne h ..

@[simp] theorem moved_src : m.moved F y m.src = none := Function.update_self ..

theorem moved_of_ne (h : k ≠ m.src) : m.moved F y k = m.copied F y k := Function.update_of_ne h ..

/-- The source may go after the second move made its copy, or even after that is
done, as long as the copy was not made there. -/
theorem erase_stage (h : m'.dst ≠ m.src) :
    Function.update (m'.stage (m.copied F y) y' gone') m.src none =
      m'.stage (m.moved F y) y' gone' := by
  have hcopied : Function.update (m'.copied (m.copied F y) y') m.src none =
      m'.copied (m.moved F y) y' :=
    Function.update_comm h _ _ _
  cases gone' with
  | false => exact hcopied
  | true =>
      rw [stage_true, stage_true, moved, moved, ← hcopied]
      by_cases hsrc : m'.src = m.src
      · rw [hsrc, Function.update_idem]
      · exact Function.update_comm hsrc _ _ _

/-- Nothing comes of a move onto the source that was just taken out. -/
theorem moved_moved_self (hsrc : m'.src = m.src) (hdst : m'.dst = m.src) :
    m'.moved (m.moved F y) y' = m.moved F y := by
  unfold moved copied
  rw [hsrc, hdst, Function.update_idem, Function.update_idem]

/-- What is free in between is free when the move is done, and that is where it erases its
source or where it does not. -/
theorem stage_eq_none (hle : gone = true → erases = true) (hk : m.stage F y gone k = none) :
    m.stage F y erases k = none := by
  cases gone with
  | true => rwa [hle rfl]
  | false =>
      cases erases with
      | false => exact hk
      | true =>
          by_cases hsrc : k = m.src
          · subst hsrc
            exact moved_src
          · exact (moved_of_ne hsrc).trans hk

namespace Copies

variable (h : m.Copies fits F x)

include h

omit [DecidableEq K] in
theorem dst_ne_src : m.dst ≠ m.src := by
  intro heq
  have hfresh := h.fresh
  rw [heq, h.source] at hfresh
  cases hfresh

@[simp] theorem stage_dst : m.stage F y gone m.dst = some y := by
  cases gone with
  | false => exact copied_dst
  | true =>
      rw [stage_true, moved_of_ne h.dst_ne_src]
      exact copied_dst

theorem copied_src : m.copied F y m.src = some x := by
  rw [copied_of_ne h.dst_ne_src.symm, h.source]

/-- What stands at a key in between stood there before the move, or does after. -/
theorem stage_eq_or (hle : gone = true → erases = true) (y : V) (k : K) :
    m.stage F y gone k = F k ∨ m.stage F y gone k = m.stage F y erases k := by
  cases gone with
  | true => exact .inr (by rw [hle rfl])
  | false =>
      cases erases with
      | false => exact .inr rfl
      | true =>
          by_cases hk : k = m.src
          · subst hk
            exact .inl (h.copied_src.trans h.source.symm)
          · exact .inr (moved_of_ne hk).symm

/-- Only the source reads otherwise once the move is done. -/
theorem stage_of_stage (hle : gone = true → erases = true) (hk : m.stage F y gone k = some z) :
    m.stage F y erases k = some z ∨ (erases = true ∧ k = m.src ∧ z = x) := by
  cases gone with
  | true =>
      rw [hle rfl]
      exact .inl hk
  | false =>
      cases erases with
      | false => exact .inl hk
      | true =>
          by_cases hsrc : k = m.src
          · subst hsrc
            rw [stage_false, h.copied_src] at hk
            exact .inr ⟨rfl, rfl, (Option.some.inj hk).symm⟩
          · exact .inl ((moved_of_ne hsrc).trans hk)

theorem stage_of_before (hk : F k = some z) :
    m.stage F y erases k = some z ∨ (erases = true ∧ k = m.src ∧ z = x) := by
  have hne : k ≠ m.dst := by
    rintro rfl
    rw [h.fresh] at hk
    cases hk
  have hstage : m.stage F y false k = some z := (copied_of_ne hne).trans hk
  have hle : false = true → erases = true := fun hfalse => by cases hfalse
  exact h.stage_of_stage hle hstage

theorem ne_src (hk : m.copied F y k = none) : k ≠ m.src := by
  rintro rfl
  rw [h.copied_src] at hk
  cases hk

theorem unreadable_or (hle : gone = true → erases = true)
    (hk : Unreadable fits (m.stage F y gone) k) :
    Unreadable fits F k ∨ Unreadable fits (m.stage F y erases) k := by
  unfold Unreadable at hk ⊢
  rcases h.stage_eq_or hle y k with heq | heq
  · exact .inl (heq ▸ hk)
  · exact .inr (heq ▸ hk)

theorem taken_or (hle : gone = true → erases = true) (hk : m.stage F y gone k ≠ none) :
    F k ≠ none ∨ m.stage F y erases k ≠ none := by
  rcases h.stage_eq_or hle y k with heq | heq
  · exact .inl (heq ▸ hk)
  · exact .inr (heq ▸ hk)

end Copies

end Move

end Moves
