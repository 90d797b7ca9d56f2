/-
Binbows/Library/Bytes.lean

Packed memory images.  A block of memory is a function from byte offsets, and
the two ways in which packed structures overlay it are

* an array of `n` records of `k` elements each, laid end to end: `group` cuts
  the block into records and `flatten` lays records end to end;
* a little-endian machine word of two or four bytes: `word16` and `word32`
  read a word, `bytes16` and `bytes32` give its bytes.

Each pair is a bijection, so a structure written to memory and read back is
the structure that was written.
-/
import Mathlib.Logic.Equiv.Fin.Basic
import Mathlib.Data.Fintype.Basic
import Mathlib.Data.BitVec
import Mathlib.Tactic.FinCases

namespace Bytes

abbrev Byte := BitVec 8

variable {α : Type*} {n k : Nat}

/-! ### Arrays of records -/

/-- Record `i` of a block that holds `n` records of `k` elements. -/
def group (f : Fin (n * k) → α) (i : Fin n) (j : Fin k) : α :=
  f (finProdFinEquiv (i, j))

/-- Lay `n` records of `k` elements end to end. -/
def flatten (f : Fin n → Fin k → α) (x : Fin (n * k)) : α :=
  f x.divNat x.modNat

@[simp] theorem group_flatten (f : Fin n → Fin k → α) : group (flatten f) = f := by
  funext i j
  have h : finProdFinEquiv.symm (finProdFinEquiv (i, j)) = (i, j) :=
    finProdFinEquiv.symm_apply_apply (i, j)
  exact congrArg (fun p => f p.1 p.2) h

@[simp] theorem flatten_group (f : Fin (n * k) → α) : flatten (group f) = f := by
  funext x
  exact congrArg f (finProdFinEquiv.apply_symm_apply x)

/-! ### Little-endian words -/

/-- Byte `i` of a 16-bit word. -/
def bytes16 (x : BitVec 16) (i : Fin 2) : Byte := x.extractLsb' (8 * i) 8

/-- The 16-bit word with the given bytes, least significant first. -/
def word16 (b : Fin 2 → Byte) : BitVec 16 := b 1 ++ b 0

/-- Byte `i` of a 32-bit word. -/
def bytes32 (x : BitVec 32) (i : Fin 4) : Byte := x.extractLsb' (8 * i) 8

/-- The 32-bit word with the given bytes, least significant first. -/
def word32 (b : Fin 4 → Byte) : BitVec 32 := b 3 ++ b 2 ++ b 1 ++ b 0

@[simp] theorem word16_bytes16 (x : BitVec 16) : word16 (bytes16 x) = x := by
  simp only [word16, bytes16]
  ext i hi
  simp
  grind

@[simp] theorem word32_bytes32 (x : BitVec 32) : word32 (bytes32 x) = x := by
  simp only [word32, bytes32]
  ext i hi
  simp
  grind

@[simp] theorem bytes16_word16 (b : Fin 2 → Byte) : bytes16 (word16 b) = b := by
  funext k
  simp only [word16, bytes16]
  fin_cases k <;> (ext i hi; simp; try grind)

@[simp] theorem bytes32_word32 (b : Fin 4 → Byte) : bytes32 (word32 b) = b := by
  funext k
  simp only [word32, bytes32]
  fin_cases k <;> (ext i hi; simp; try grind)

/-- The lower half of a word, from its first two bytes. -/
theorem word16_lower (x : BitVec 32) :
    (word16 fun i => bytes32 x ⟨i, by omega⟩) = x.setWidth 16 := by
  simp only [word16, bytes32]
  ext i hi
  simp
  grind

/-- The upper half of a word, from its last two bytes. -/
theorem word16_upper (x : BitVec 32) :
    (word16 fun i => bytes32 x ⟨2 + i, by omega⟩) = (x >>> 16).setWidth 16 := by
  simp only [word16, bytes32]
  ext i hi
  simp
  grind

/-! ### A word from its two halves -/

/-- The 32-bit word with the given upper and lower half. -/
def join16 (high low : BitVec 16) : BitVec 32 :=
  (high.setWidth 32 <<< 16) ||| low.setWidth 32

theorem and_lowHalf (x : BitVec 32) :
    x &&& 0xFFFF#32 = (x.setWidth 16).setWidth 32 := by
  apply BitVec.eq_of_toNat_eq
  have h := Nat.and_two_pow_sub_one_eq_mod x.toNat 16
  simp only [BitVec.toNat_and, BitVec.toNat_ofNat, BitVec.toNat_setWidth]
  rw [show (0xFFFF % 2 ^ 32 : Nat) = 2 ^ 16 - 1 from rfl, h]
  omega

/-- A word is joined again from its upper half and its masked lower half. -/
theorem join16_halves (x : BitVec 32) :
    join16 ((x >>> 16).setWidth 16) ((x &&& 0xFFFF#32).setWidth 16) = x := by
  rw [and_lowHalf, join16]
  ext i hi
  simp
  grind

theorem toNat_join16 (high low : BitVec 16) :
    (join16 high low).toNat = high.toNat * 2 ^ 16 + low.toNat := by
  have happend : join16 high low = high ++ low := by
    unfold join16
    ext i hi
    simp
    grind
  rw [happend, BitVec.toNat_append, ← Nat.shiftLeft_add_eq_or_of_lt low.isLt, Nat.shiftLeft_eq]

end Bytes
