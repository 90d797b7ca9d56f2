/-
Binbows/Library/Pool.lean

The books of a pool.

A pool has finitely many frames, one of them reserved for good.  Frames are
handed out under keys (`frameAt`), and two tables are kept beside that: which
frames are in use, and how many are not.  `Balanced` says that the three agree
for a set `S` of keys: the keys of `S` hold different frames, and what is in
use is what they hold, and the reserved frame.

Handing a free frame out under a new key (`Balanced.grant`) and taking one back
(`Balanced.revoke`) keep the books balanced.
-/
import Mathlib.Data.Fintype.Card
import Mathlib.Data.Set.Function

namespace Pool

variable {F K : Type*} [Fintype F]

/-- The number of frames that are not in use. -/
def freeCount (used : F → Bool) : Nat :=
  (Finset.univ.filter fun f => used f = false).card

/-- The keys of `S` hold different frames, and these are the ones in use. -/
structure Balanced (used : F → Bool) (free : Nat) (frameAt : K → Option F) (reserved : F)
    (S : Set K) : Prop where
  free_eq : free = freeCount used
  used_iff : ∀ f, used f = true ↔ f = reserved ∨ ∃ k ∈ S, frameAt k = some f
  holds : ∀ k ∈ S, ∃ f, frameAt k = some f ∧ f ≠ reserved
  injOn : Set.InjOn frameAt S

variable {used used' : F → Bool} {free free' : Nat} {frameAt frameAt' : K → Option F}
  {reserved f : F} {S : Set K} {k : K}

theorem exists_free (h : freeCount used ≠ 0) : ∃ f, used f = false := by
  obtain ⟨f, hf⟩ := Finset.card_ne_zero.mp h
  exact ⟨f, (Finset.mem_filter.mp hf).2⟩

namespace Balanced

/-- The pool before anything is handed out. -/
theorem empty (frameAt : K → Option F) (hused : ∀ f, used f = true ↔ f = reserved) :
    Balanced used (freeCount used) frameAt reserved ∅ where
  free_eq := rfl
  used_iff f := by simp [hused f]
  holds k hk := absurd hk (Set.notMem_empty k)
  injOn := Set.injOn_empty frameAt

/-- Only what the keys of `S` hold matters. -/
theorem congr (h : Balanced used free frameAt reserved S)
    (hS : ∀ k ∈ S, frameAt' k = frameAt k) : Balanced used free frameAt' reserved S where
  free_eq := h.free_eq
  used_iff f := by
    rw [h.used_iff]
    refine or_congr Iff.rfl (exists_congr fun k => and_congr_right fun hk => ?_)
    rw [hS k hk]
  holds k hk := by
    rw [hS k hk]
    exact h.holds k hk
  injOn := h.injOn.congr fun k hk => (hS k hk).symm

theorem used_of_frameAt (h : Balanced used free frameAt reserved S) (hk : k ∈ S)
    (hf : frameAt k = some f) : used f = true :=
  (h.used_iff f).mpr (.inr ⟨k, hk, hf⟩)

end Balanced

variable [DecidableEq F]

theorem freeCount_update_true (hf : used f = false) :
    freeCount (Function.update used f true) = freeCount used - 1 := by
  have hset : (Finset.univ.filter fun g => Function.update used f true g = false) =
      (Finset.univ.filter fun g => used g = false).erase f := by
    ext g
    by_cases hg : g = f
    · simp [hg]
    · simp [hg]
  rw [freeCount, hset, Finset.card_erase_of_mem (by simp [hf]), freeCount]

theorem freeCount_update_false (hf : used f = true) :
    freeCount (Function.update used f false) = freeCount used + 1 := by
  have hset : (Finset.univ.filter fun g => Function.update used f false g = false) =
      insert f (Finset.univ.filter fun g => used g = false) := by
    ext g
    by_cases hg : g = f
    · simp [hg]
    · simp [hg]
  rw [freeCount, hset, Finset.card_insert_of_notMem (by simp [hf]), freeCount]

namespace Balanced

variable [DecidableEq K]

/-- Hand a free frame out under a new key. -/
theorem grant (h : Balanced used free frameAt reserved S) (hk : k ∉ S) (hf : used f = false) :
    Balanced (Function.update used f true) (free - 1) (Function.update frameAt k (some f))
      reserved (insert k S) := by
  -- the old keys keep what they hold, and none of them holds the new frame
  have hkeep : ∀ q ∈ S, Function.update frameAt k (some f) q = frameAt q := by
    intro q hq
    refine Function.update_of_ne ?_ _ _
    rintro rfl
    exact hk hq
  have hfresh : ∀ q ∈ S, frameAt q ≠ some f := by
    intro q hq hqf
    rw [h.used_of_frameAt hq hqf] at hf
    exact absurd hf (by simp)
  constructor
  -- what is in use is one frame more
  · rw [freeCount_update_true hf, h.free_eq]
  · intro g
    rcases eq_or_ne g f with rfl | hg
    · simp
    · have hgf : ∀ q ∈ S, (Function.update frameAt k (some f) q = some g ↔ frameAt q = some g) :=
        fun q hq => by rw [hkeep q hq]
      rw [Function.update_of_ne hg, h.used_iff]
      refine or_congr Iff.rfl ⟨?_, ?_⟩
      · rintro ⟨q, hq, hqg⟩
        exact ⟨q, Set.mem_insert_of_mem k hq, (hgf q hq).mpr hqg⟩
      · rintro ⟨q, rfl | hq, hqg⟩
        · simp [Ne.symm hg] at hqg
        · exact ⟨q, hq, (hgf q hq).mp hqg⟩
  -- what is handed out is not the reserved frame, which was in use
  · rintro q (rfl | hq)
    · refine ⟨f, by simp, ?_⟩
      rintro rfl
      rw [(h.used_iff f).mpr (.inl rfl)] at hf
      exact absurd hf (by simp)
    · rw [hkeep q hq]
      exact h.holds q hq
  -- the new key differs from the old ones in what it holds
  · rintro q (rfl | hq) q' (rfl | hq') heq
    · rfl
    · rw [hkeep q' hq', Function.update_self] at heq
      exact absurd heq.symm (hfresh q' hq')
    · rw [hkeep q hq, Function.update_self] at heq
      exact absurd heq (hfresh q hq)
    · rw [hkeep q hq, hkeep q' hq'] at heq
      exact h.injOn hq hq' heq

/-- Take the frame of a key back. -/
theorem revoke (h : Balanced used free frameAt reserved S) (hk : k ∈ S)
    (hf : frameAt k = some f) :
    Balanced (Function.update used f false) (free + 1) (Function.update frameAt k none)
      reserved (S \ {k}) := by
  have hkeep : ∀ q ∈ S \ {k}, Function.update frameAt k none q = frameAt q :=
    fun q hq => Function.update_of_ne hq.2 _ _
  constructor
  · rw [freeCount_update_false (h.used_of_frameAt hk hf), h.free_eq]
  · intro g
    rcases eq_or_ne g f with rfl | hg
    · obtain ⟨g', hg', hres⟩ := h.holds k hk
      obtain rfl : g = g' := Option.some.inj (hf.symm.trans hg')
      simp only [Function.update_self, Bool.false_eq_true, false_iff, not_or, hres,
        not_false_eq_true, true_and, not_exists, not_and]
      intro q hq hqg
      rw [hkeep q hq] at hqg
      exact hq.2 (h.injOn hq.1 hk (hqg.trans hf.symm))
    · rw [Function.update_of_ne hg, h.used_iff]
      refine or_congr Iff.rfl ⟨?_, ?_⟩
      · rintro ⟨q, hq, hqg⟩
        have hne : q ≠ k := by
          rintro rfl
          exact hg (Option.some.inj (hqg.symm.trans hf))
        exact ⟨q, ⟨hq, hne⟩, (hkeep q ⟨hq, hne⟩).trans hqg⟩
      · rintro ⟨q, hq, hqg⟩
        exact ⟨q, hq.1, (hkeep q hq).symm.trans hqg⟩
  · intro q hq
    rw [hkeep q hq]
    exact h.holds q hq.1
  · intro q hq q' hq' heq
    rw [hkeep q hq, hkeep q' hq'] at heq
    exact h.injOn hq.1 hq'.1 heq

end Balanced

end Pool
