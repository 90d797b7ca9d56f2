/-
Binbows/Strings.lean

The byte helpers of `stdlib/string.c` that the kernel rests on.  A C buffer of
known length is a function from its offsets.
-/
import Binbows.Library.Bytes
import Mathlib.Data.List.FinRange

namespace Binbows

open Bytes

variable {n : Nat}

/-- `strlen`: how many characters come before the first NUL.  Where the buffer
holds none, the loop of the source runs past its end; the length is `n` then. -/
def strlen (str : Fin n → Byte) : Nat :=
  ((List.finRange n).takeWhile fun i => str i ≠ 0).length

/-- The loop of `memcmp` over the offsets that are left. -/
def memcmpLoop (s1 s2 : Fin n → Byte) : List (Fin n) → Int
  | [] => 0
  | i :: is =>
      if s1 i < s2 i then -1
      else if s2 i < s1 i then 1
      else memcmpLoop s1 s2 is

/-- `memcmp`: compare two buffers of `n` bytes. -/
def memcmp (s1 s2 : Fin n → Byte) : Int := memcmpLoop s1 s2 (List.finRange n)

/-- `strlen` is the index of the first NUL. -/
theorem strlen_eq {str : Fin n → Byte} {m : Fin n} (hne : ∀ i < m, str i ≠ 0)
    (h0 : str m = 0) : strlen str = m := by
  have hsplit : List.finRange n = (List.finRange n).take m ++ (List.finRange n).drop m :=
    (List.take_append_drop ..).symm
  have htake : ∀ i ∈ (List.finRange n).take m, decide (str i ≠ 0) = true := by
    intro i hi
    obtain ⟨j, hj, rfl⟩ := List.getElem_of_mem hi
    have hjm : j < m.val := by
      rw [List.length_take] at hj
      omega
    simp only [List.getElem_take, List.getElem_finRange, decide_eq_true_eq]
    exact hne _ (Fin.lt_def.mpr hjm)
  have hdrop : (List.finRange n).drop m = m :: (List.finRange n).drop (m + 1) := by
    rw [List.drop_eq_getElem_cons (by simp)]
    simp
  rw [strlen, hsplit, List.takeWhile_append_of_pos htake, hdrop,
    List.takeWhile_cons_of_neg (by simp [h0])]
  simp

theorem memcmpLoop_eq_zero_iff (s1 s2 : Fin n → Byte) (is : List (Fin n)) :
    memcmpLoop s1 s2 is = 0 ↔ ∀ i ∈ is, s1 i = s2 i := by
  induction is with
  | nil => simp [memcmpLoop]
  | cons i is ih =>
      rw [memcmpLoop, List.forall_mem_cons]
      split_ifs with hlt hgt
      · have hne : s1 i ≠ s2 i := by
          rintro h
          rw [h] at hlt
          exact absurd hlt (by simp)
        simp [hne]
      · have hne : s1 i ≠ s2 i := by
          rintro h
          rw [h] at hgt
          exact absurd hgt (by simp)
        simp [hne]
      · have heq : s1 i = s2 i := by bv_omega
        simp [heq, ih]

/-- `memcmp` returns zero exactly on equal buffers. -/
@[simp] theorem memcmp_eq_zero_iff (s1 s2 : Fin n → Byte) :
    memcmp s1 s2 = 0 ↔ s1 = s2 := by
  rw [memcmp, memcmpLoop_eq_zero_iff]
  constructor
  · intro h
    funext i
    exact h i (List.mem_finRange i)
  · rintro rfl i -
    rfl

end Binbows
