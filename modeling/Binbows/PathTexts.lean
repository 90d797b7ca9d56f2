/-
Binbows/PathTexts.lean

The strings in the arrays of the shell.

`string b` is what a C function sees of an array: its characters up to the first NUL.
The functions that edit `current_path` are described by what they make of its string,
whatever stands behind the NUL:

* `strcat` appends (`strcat_string`), where the array has room for it;
* the loop of `change_dir` for `..` cuts the last component off (`trimPath_string`);
* the loop at the top of `multiple_cd` takes the last component out
  (`lastFolderName_string`).
-/
import Mathlib.Data.List.GetD
import Mathlib.Data.List.TakeWhile
import Binbows.ShellPaths

namespace Binbows

open Bytes
open Terminal (chars text)

variable {n m : Nat} {b : Fin n → Byte} {l src : List Byte}

/-! ### The string in an array -/

@[simp] theorem length_span {b : Fin n → Byte} {start count : Nat} :
    (span b start count).length = count := by
  simp [span]

@[simp] theorem length_string {b : Fin n → Byte} : (string b).length = strlen b := by
  simp [string]

/-- `strcmp` compares the strings. -/
@[simp] theorem strcmp_eq_one_iff {str1 str2 : List Byte} : strcmp str1 str2 = 1 ↔ str1 = str2 := by
  rw [strcmp]
  split_ifs with hlen hdiff
  · exact iff_of_false (by simp) fun heq => hlen (congrArg List.length heq)
  · obtain ⟨i, -, hne⟩ := hdiff
    exact iff_of_false (by simp) fun heq => hne (by rw [heq])
  · refine iff_of_true rfl ?_
    apply List.ext_getElem (not_not.mp hlen)
    intro i hi hi'
    by_contra hne
    apply hdiff
    refine ⟨i, List.mem_range.mpr hi, ?_⟩
    rwa [List.getD_eq_getElem _ _ hi, List.getD_eq_getElem _ _ hi']

/-! ### What lies behind an array -/

theorem length_pathString {behind : List Byte} {path : Fin 8 → Byte} :
    strlen path ≤ (pathString behind path).length := by
  rw [pathString]
  split_ifs
  · rw [List.length_append, length_string]
    exact Nat.le_add_right _ _
  · rw [length_string]

/-- A string of less than eight characters ends in its array. -/
theorem pathString_short {behind : List Byte} {path : Fin 8 → Byte} (h : strlen path < 8) :
    pathString behind path = string path := if_neg h.ne

theorem chars_of_lt {k : Nat} (h : k < n) : chars b k = b ⟨k, h⟩ := dif_pos h

theorem chars_of_ge {k : Nat} (h : n ≤ k) : chars b k = 0 := dif_neg (not_lt.mpr h)

theorem chars_buffer (hlen : l.length ≤ n) (k : Nat) : chars (buffer n l) k = l.getD k 0 := by
  by_cases h : k < n
  · rw [chars_of_lt h, buffer]
  · rw [chars_of_ge (not_lt.mp h), List.getD_eq_default _ _ (by omega)]

theorem strlen_eq_findIdx : strlen b = (List.finRange n).findIdx fun i => b i = 0 := by
  rw [strlen, List.takeWhile_eq_take_findIdx_not, List.length_take,
    Nat.min_eq_left List.findIdx_le_length]
  simp

theorem strlen_le : strlen b ≤ n := by
  rw [strlen_eq_findIdx]
  exact le_trans List.findIdx_le_length (List.length_finRange).le

/-- No character in front of the NUL is one. -/
theorem chars_ne_zero {k : Nat} (h : k < strlen b) : chars b k ≠ 0 := by
  have hk : k < n := lt_of_lt_of_le h strlen_le
  rw [strlen_eq_findIdx] at h
  have hnot := List.not_of_lt_findIdx h
  rw [List.getElem_finRange] at hnot
  rw [chars_of_lt hk]
  simpa using hnot

@[simp] theorem chars_strlen : chars b (strlen b) = 0 := by
  by_cases h : strlen b < n
  · have hfound : (List.finRange n).findIdx (fun i => b i = 0) < (List.finRange n).length := by
      rwa [List.length_finRange, ← strlen_eq_findIdx]
    have hnul := List.findIdx_getElem (w := hfound)
    rw [List.getElem_finRange] at hnul
    rw [chars_of_lt h]
    simpa [strlen_eq_findIdx] using hnul
  · exact chars_of_ge (not_lt.mp h)

/-- `strlen` counts up to the first NUL. -/
theorem strlen_eq_of_chars (hne : ∀ k < m, chars b k ≠ 0) (h0 : chars b m = 0) :
    strlen b = m := by
  rcases lt_trichotomy (strlen b) m with hlt | heq | hgt
  · exact absurd chars_strlen (hne _ hlt)
  · exact heq
  · exact absurd h0 (chars_ne_zero hgt)

theorem string_getElem {k : Nat} (h : k < (string b).length) : (string b)[k] = chars b k := by
  simp [string, span]

theorem zero_notMem_string : (0 : Byte) ∉ string b := by
  intro h0
  obtain ⟨k, hk, hget⟩ := List.getElem_of_mem h0
  rw [string_getElem] at hget
  rw [length_string] at hk
  exact chars_ne_zero hk hget

/-- When an array holds a string. -/
theorem string_eq_iff (hlen : l.length ≤ n) : string b = l ↔
    (0 : Byte) ∉ l ∧ (∀ k < l.length, chars b k = l.getD k 0) ∧ chars b l.length = 0 := by
  constructor
  · rintro rfl
    refine ⟨zero_notMem_string, fun k hk => ?_, by simp⟩
    rw [List.getD_eq_getElem _ _ hk, string_getElem]
  · rintro ⟨h0, hchars, hend⟩
    have hstrlen : strlen b = l.length := by
      refine strlen_eq_of_chars (fun k hk => ?_) hend
      rw [hchars k hk, List.getD_eq_getElem _ _ hk]
      intro hzero
      exact h0 (hzero ▸ List.getElem_mem hk)
    apply List.ext_getElem
    · rw [length_string, hstrlen]
    · intro k hk hk'
      rw [string_getElem, hchars k hk', List.getD_eq_getElem _ _ hk']

@[simp] theorem string_buffer (hlen : l.length ≤ n) (h0 : (0 : Byte) ∉ l) :
    string (buffer n l) = l := by
  rw [string_eq_iff hlen]
  refine ⟨h0, fun k _ => chars_buffer hlen k, ?_⟩
  rw [chars_buffer hlen, List.getD_eq_default _ _ le_rfl]

/-! ### strcat -/

/-- `strcat` appends to the string. -/
theorem strcat_string (hfit : strlen b + src.length < n) (h0 : (0 : Byte) ∉ src) :
    ∃ b', strcat b src = .ok b' ∧ string b' = string b ++ src := by
  unfold strcat memcpy
  rw [if_pos (by rw [List.length_append, List.length_singleton]; omega)]
  refine ⟨_, rfl, ?_⟩
  have hlen : (string b ++ src).length = strlen b + src.length := by simp
  rw [string_eq_iff (by omega), hlen]
  have hold : ∀ k < strlen b, chars b k = (string b).getD k 0 := by
    intro k hk
    rw [List.getD_eq_getElem _ _ (by simpa using hk), string_getElem]
  refine ⟨?_, fun k hk => ?_, ?_⟩
  · rw [List.mem_append, not_or]
    exact ⟨zero_notMem_string, h0⟩
  · rw [chars_of_lt (by omega)]
    dsimp only
    split_ifs with hin
    · rw [List.getD_append _ _ _ _ (by omega),
        List.getD_append_right _ _ _ _ (by simpa using hin.1), length_string]
    · rw [List.length_append, List.length_singleton] at hin
      rw [List.getD_append _ _ _ _ (by rw [length_string]; omega), ← hold k (by omega),
        chars_of_lt (by omega)]
  · rw [chars_of_lt hfit]
    dsimp only
    rw [if_pos (by simp), Nat.add_sub_cancel_left, List.getD_append_right _ _ _ _ le_rfl]
    simp

theorem strcat_error (hfull : n ≤ strlen b + src.length) : strcat b src = .error .outOfBounds := by
  unfold strcat memcpy
  rw [if_neg (by rw [List.length_append, List.length_singleton]; omega)]

/-! ### The last component -/

variable {k start length : Nat} {front name : List Byte} {path : PathBuffer}

/-- The characters of an array that holds a string. -/
theorem chars_of_string (h : string b = l) (hk : k < l.length) : chars b k = l.getD k 0 := by
  rw [← h] at hk ⊢
  rw [List.getD_eq_getElem _ _ hk, string_getElem]

theorem componentStart_eq (hle : start ≤ k)
    (hname : ∀ j, start ≤ j → j < k → chars b j ≠ slash)
    (hstart : start = 0 ∨ chars b (start - 1) = slash) : componentStart b k = start := by
  induction k with
  | zero =>
      rw [componentStart]
      omega
  | succ k ih =>
      rw [componentStart]
      split_ifs with hslash
      · -- the slash is not part of the component
        by_contra hne
        exact hname k (by omega) (Nat.lt_succ_self k) hslash
      · rcases Nat.lt_or_eq_of_le hle with hlt | rfl
        · apply ih (Nat.le_of_lt_succ hlt)
          intro j hj hjk
          exact hname j hj (Nat.lt_succ_of_lt hjk)
        · rcases hstart with h0 | hback
          · cases h0
          · exact absurd hback hslash

/-- A path text whose last component is `name`. -/
structure EndsIn (path : PathBuffer) (front name : List Byte) : Prop where
  string_eq : string path = front ++ name ++ [slash]
  front_slash : front = [] ∨ front.getLast? = some slash
  name_slash : slash ∉ name

namespace EndsIn

theorem strlen_eq (h : EndsIn path front name) :
    strlen path = front.length + name.length + 1 := by
  rw [← length_string, h.string_eq, List.length_append, List.length_append, List.length_singleton]

theorem chars_front (h : EndsIn path front name) (hk : k < front.length) :
    chars path k = front.getD k 0 := by
  rw [chars_of_string h.string_eq (by simp; omega), List.append_assoc, List.getD_append _ _ _ _ hk]

theorem chars_name (h : EndsIn path front name) (hk : k < name.length) :
    chars path (front.length + k) = name.getD k 0 := by
  rw [chars_of_string h.string_eq (by simp; omega), List.append_assoc,
    List.getD_append_right _ _ _ _ (Nat.le_add_right _ _), Nat.add_sub_cancel_left,
    List.getD_append _ _ _ _ hk]

/-- No character of the last component is a slash. -/
theorem chars_ne_slash (h : EndsIn path front name) (hk : front.length ≤ k)
    (hk' : k < front.length + name.length) : chars path k ≠ slash := by
  obtain ⟨j, rfl⟩ := Nat.exists_eq_add_of_le hk
  have hj : j < name.length := by omega
  rw [h.chars_name hj, List.getD_eq_getElem _ _ hj]
  intro hslash
  exact h.name_slash (hslash ▸ List.getElem_mem hj)

theorem chars_back (h : EndsIn path front name) (hne : front ≠ []) :
    chars path (front.length - 1) = slash := by
  have hpos : front.length - 1 < front.length := by
    have := List.length_pos_of_ne_nil hne
    omega
  have hlast := h.front_slash.resolve_left hne
  rw [List.getLast?_eq_getElem?] at hlast
  rw [h.chars_front hpos, List.getD_eq_getElem?_getD, hlast]
  rfl

end EndsIn

/-- The first loop of `multiple_cd` takes the last component out of `current_path`. -/
theorem lastFolderName_string (h : EndsIn path front name) :
    lastFolderName path = buffer 8 name := by
  have hstart : componentStart path (strlen path - 1) = front.length := by
    rw [h.strlen_eq, Nat.add_sub_cancel]
    apply componentStart_eq (Nat.le_add_right _ _)
    · exact fun j => h.chars_ne_slash
    · by_cases hne : front = []
      · exact .inl (by rw [hne]; rfl)
      · exact .inr (h.chars_back hne)
  unfold lastFolderName
  dsimp only
  rw [hstart, h.strlen_eq, Nat.add_sub_cancel, Nat.add_sub_cancel_left]
  congr 1
  apply List.ext_getElem
  · simp [span]
  · intro k hk hk'
    simp only [span, List.getElem_map, List.getElem_range]
    rw [h.chars_name hk', List.getD_eq_getElem _ _ hk']

/-! ### Cutting the last component off -/

/-- The loop zeroes what stands between `start` and where it begins. -/
theorem trimPath_eq (h5 : 5 ≤ start) (hle : start ≤ k + 1)
    (hrun : ∀ j, start ≤ j → j ≤ k → chars path j = slash → length - 2 ≤ j)
    (hstop : chars path (start - 1) = slash ∧ start - 1 < length - 2) :
    trimPath length path k = fun i => if start ≤ i.val ∧ i.val ≤ k then 0 else path i := by
  induction k generalizing path with
  | zero => omega
  -- from the right, over the characters of the name in front of the last slash
  | succ k ih =>
      rw [trimPath]
      split_ifs with hlow hslash
      · funext i
        rw [if_neg (by omega)]
      -- the slash in front of what goes
      · have hstart : start = k + 1 + 1 := by
          by_contra hne
          have := hrun (k + 1) (by omega) le_rfl hslash.1
          omega
        funext i
        rw [if_neg (by omega)]
      · -- this character goes, and the loop runs on
        have hlt : start ≤ k + 1 := by
          by_contra hge
          obtain rfl : start = k + 1 + 1 := by omega
          exact hslash hstop
        -- what is cleared lies behind all that is still looked at
        have hkeep : ∀ j, j ≤ k →
            chars (fun i : Fin maxCmdLength => if i.val = k + 1 then 0 else path i) j =
              chars path j := by
          intro j hj
          unfold chars
          split_ifs with hin
          · exact if_neg (by dsimp only; omega)
          · rfl
        rw [ih hlt]
        · funext i
          by_cases hi : i.val = k + 1
          · rw [if_neg (by omega), if_pos hi, if_pos (by omega)]
          · rw [if_neg hi]
            exact if_congr (by omega) rfl rfl
        -- the loop has the same text in front of it
        · intro j hj hjk hc
          rw [hkeep j hjk] at hc
          exact hrun j hj (by omega) hc
        · rw [hkeep _ (by omega)]
          exact hstop

/-- The loop of `change_dir` cuts the last component off. -/
theorem trimPath_string (h : EndsIn path front name) (hne : name ≠ []) (h5 : 5 ≤ front.length) :
    string (trimPath (strlen path) path (strlen path - 1)) = front := by
  have hpos := List.length_pos_of_ne_nil hne
  have hstrlen := h.strlen_eq
  have hle : strlen path ≤ maxCmdLength := strlen_le
  have hfront : front ≠ [] := by
    rintro rfl
    simp at h5
  rw [trimPath_eq h5 (by omega)]
  · rw [string_eq_iff (by omega)]
    refine ⟨?_, fun k hk => ?_, ?_⟩
    · intro h0
      apply zero_notMem_string (b := path)
      rw [h.string_eq]
      exact List.mem_append_left _ (List.mem_append_left _ h0)
    · have hin : k < maxCmdLength := by omega
      rw [chars_of_lt hin, if_neg (by dsimp only; omega), ← chars_of_lt (b := path) hin]
      exact h.chars_front hk
    · rw [chars_of_lt (by omega), if_pos (by dsimp only; omega)]
  · intro j hj hj' hslash
    by_contra hlt
    exact h.chars_ne_slash hj (by omega) hslash
  · exact ⟨h.chars_back hfront, by omega⟩

end Binbows
