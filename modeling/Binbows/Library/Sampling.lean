/-
Binbows/Library/Sampling.lean

Reading a device that changes on its own.

The `n`-th access to the device is made at time `time n`.  One waits until the device is
ready (`poll`), and one takes samples until two in a row are equal (`settle`).

Main results: `settle_eq_some`, a settled value was sampled twice in a row; `settle_of_quiet`,
it settles where the device is quiet for a while; and `still`, between two equal readings of
a value that does not come back so soon nothing has changed.
-/
import Mathlib.Order.Monotone.Basic

namespace Sampling

variable {V : Type} [DecidableEq V] {p : Nat → Prop} [DecidablePred p] {fuel n n' k a b c : Nat}
  {sample : Nat → Option (V × Nat)} {v last : V}

/-! ### Waiting -/

/-- The first access from `n` on at which `p` holds. -/
def poll (p : Nat → Prop) [DecidablePred p] : (fuel : Nat) → (n : Nat) → Option Nat
  | 0, _ => none
  | fuel + 1, n => if p n then some n else poll p fuel (n + 1)

theorem poll_eq_some (h : poll p fuel n = some k) : n ≤ k ∧ p k := by
  induction fuel generalizing n with
  | zero => cases h
  | succ fuel ih =>
      rw [poll] at h
      split_ifs at h with hn
      · cases h
        exact ⟨le_rfl, hn⟩
      · obtain ⟨hle, hk⟩ := ih h
        exact ⟨Nat.le_of_succ_le hle, hk⟩

/-- Waiting ends at the latest where `p` holds. -/
theorem poll_of_le (hn : n ≤ k) (hk : p k) (hfuel : k < n + fuel) :
    ∃ m, poll p fuel n = some m ∧ n ≤ m ∧ m ≤ k := by
  induction fuel generalizing n with
  | zero => exact absurd hfuel (not_lt.mpr hn)
  | succ fuel ih =>
      rw [poll]
      split_ifs with hp
      · exact ⟨n, rfl, le_rfl, hn⟩
      · have hlt : n < k := lt_of_le_of_ne hn fun h => hp (h ▸ hk)
        obtain ⟨m, hm, hle, hle'⟩ := ih hlt (by omega)
        exact ⟨m, hm, by omega, hle'⟩

/-! ### Two samples in a row -/

/-- Take samples until one equals the one before it. -/
def settle (sample : Nat → Option (V × Nat)) : (fuel : Nat) → (last : V) → (n : Nat) →
    Option (V × Nat)
  | 0, _, _ => none
  | fuel + 1, last, n =>
      (sample n).bind fun r => if r.1 = last then some r else settle sample fuel r.1 r.2

/-- **What settles was sampled twice in a row.** -/
theorem settle_eq_some (hle : ∀ {n v n'}, sample n = some (v, n') → n ≤ n')
    (hfirst : sample k = some (last, n)) (h : settle sample fuel last n = some (v, n')) :
    ∃ i j, k ≤ i ∧ sample i = some (v, j) ∧ sample j = some (v, n') := by
  induction fuel generalizing k last n with
  | zero => cases h
  | succ fuel ih =>
      rw [settle] at h
      obtain ⟨⟨now, m⟩, hsample, h⟩ := Option.bind_eq_some_iff.mp h
      dsimp only at h
      split_ifs at h with hsame
      · obtain ⟨rfl, rfl⟩ := Prod.mk.inj (Option.some.inj h)
        subst hsame
        exact ⟨k, n, le_rfl, hfirst, hsample⟩
      · obtain ⟨i, j, hi, hfound⟩ := ih hsample h
        exact ⟨i, j, (hle hfirst).trans hi, hfound⟩

/-- **It settles where the device is quiet for a while.**  A sample that begins before `a`
ends within `c` behind `a`; behind `a` all samples are `v`, until three of them fit. -/
theorem settle_of_quiet
    (hbefore : ∀ n, n < a → ∃ w n', sample n = some (w, n') ∧ n < n' ∧ n' ≤ a + c)
    (hquiet : ∀ n, a ≤ n → n ≤ a + 2 * c → ∃ n', sample n = some (v, n') ∧ n ≤ n' ∧
      n' ≤ n + c)
    (hn : n ≤ a + c) (hfuel : a + 2 ≤ n + fuel ∧ 2 ≤ fuel) :
    (settle sample fuel last n).isSome := by
  induction fuel generalizing last n with
  | zero => exact absurd hfuel.2 (by decide)
  | succ fuel ih =>
      rw [settle]
      rcases Nat.lt_or_ge n a with hlt | hge
      · obtain ⟨w, m, hsample, hm, hle⟩ := hbefore n hlt
        rw [hsample, Option.bind_some]
        split_ifs
        · rfl
        · exact ih hle ⟨by omega, by omega⟩
      · obtain ⟨m, hsample, hm, hm'⟩ := hquiet n hge (by omega)
        rw [hsample, Option.bind_some]
        split_ifs
        · rfl
        · -- the next sample is the same
          obtain ⟨fuel, rfl⟩ : ∃ fuel', fuel = fuel' + 1 := ⟨fuel - 1, by omega⟩
          dsimp only
          rw [settle]
          obtain ⟨m', hsample', -⟩ := hquiet m (by omega) (by omega)
          rw [hsample', Option.bind_some, if_pos rfl]
          rfl

/-! ### A clock -/

variable {time : Nat → Nat} {f : Nat → V} {period i j : Nat}

omit [DecidableEq V] in
/-- **Between two equal readings nothing has changed**, if a value does not come back within
the period. -/
theorem still (hmono : Monotone time)
    (hf : ∀ t t', t ≤ t' → t' < t + period → f t = f t' → t = t')
    (hperiod : time j < time i + period) (hi : i ≤ k) (hk : k ≤ j)
    (hsame : f (time i) = f (time j)) : time k = time i := by
  have hends : time i = time j := hf _ _ (hmono (hi.trans hk)) hperiod hsame
  apply le_antisymm
  · rw [hends]
    exact hmono hk
  · exact hmono hi

end Sampling
