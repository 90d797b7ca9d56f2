/-
Binbows/StringHelpers.lean

The string helpers of `stdlib/string.c`, loop by loop.

A pointer into a string that is only read is what its array holds from there on; `none` is
a read past the end of the array.  The arrays of the copying helpers are taken as the memory
from the pointer on, so a helper may read behind a terminator; `none` is a loop that has not
come to an end.

Main results:

* `strstr` is exact and reads neither string past its terminator (`strstr_exact`);
* `strcat`, `namecpy` and `extcpy` build the strings that they are meant to build, whatever
  stood in the destination (`strcat_reads`, `namecpy_reads`, `extcpy_reads`);
* `strcpy` puts its terminator one byte too far: it builds its string exactly where the byte
  behind the copied characters was a NUL before (`strcpy_reads_iff`, `copies_exact_iff`).
-/
import Mathlib.Data.List.Infix
import Binbows.PathTexts
import Binbows.Shell

namespace Binbows

open Bytes
open Terminal (chars)

namespace CString

/-! ### strstr -/

/-- The inner loop of `strstr`: `n` when it stops. -/
def matchLoop : (h2 n : List Byte) → Option (List Byte)
  | [], _ => none
  | h :: h2, n =>
      if h = 0 then some n
      else
        match n with
        | [] => none
        | c :: n => if c = 0 ∨ h ≠ c then some (c :: n) else matchLoop h2 n

/-- The outer loop of `strstr`. -/
def searchLoop (needle : List Byte) : (h : List Byte) → Option Int
  | [] => none
  | h :: hs =>
      if h = 0 then some 0
      else do
        let first ← needle.head?
        if h = first then
          let n ← matchLoop (h :: hs) needle
          let c ← n.head?
          if c = 0 then some 1 else searchLoop needle hs
        else searchLoop needle hs

def strstr (haystack needle : List Byte) : Option Int := do
  let first ← needle.head?
  if first = 0 then some 1 else searchLoop needle haystack

variable {hs ns haystack needle : List Byte}

/-- The inner loop uses up the needle exactly where the needle stands at this place of the
haystack. -/
theorem matchLoop_spec (hh : (0 : Byte) ∉ hs) (hn : (0 : Byte) ∉ ns) :
    ∃ rest, matchLoop (hs ++ [0]) (ns ++ [0]) = some (rest ++ [0]) ∧
      (0 : Byte) ∉ rest ∧ (rest = [] ↔ ns <+: hs) := by
  induction hs generalizing ns with
  | nil => exact ⟨ns, by simp [matchLoop], hn, by simp⟩
  | cons h hs ih =>
      rw [List.mem_cons, not_or] at hh
      cases ns with
      | nil => exact ⟨[], by simp [matchLoop], by simp, by simp⟩
      | cons c ns =>
          rw [List.mem_cons, not_or] at hn
          by_cases heq : h = c
          · subst heq
            obtain ⟨rest, hloop, h0, hiff⟩ := ih hh.2 hn.2
            refine ⟨rest, ?_, h0, ?_⟩
            · rw [List.cons_append, List.cons_append, matchLoop, if_neg (Ne.symm hh.1),
                if_neg (not_or.mpr ⟨Ne.symm hh.1, not_not.mpr rfl⟩), hloop]
            · rw [hiff, List.prefix_cons_inj]
          · -- the two characters differ, and the loop stops here
            refine ⟨c :: ns, ?_, ?_, ?_⟩
            · rw [List.cons_append, List.cons_append, matchLoop, if_neg (Ne.symm hh.1),
                if_pos (.inr heq)]
            · rw [List.mem_cons, not_or]
              exact hn
            · rw [List.cons_prefix_cons]
              simp [Ne.symm heq]

/-- A needle with a first character is found where it starts, or further on. -/
theorem searchLoop_eq {c : Byte} (hh : (0 : Byte) ∉ hs) (hn : (0 : Byte) ∉ c :: ns) :
    searchLoop (c :: ns ++ [0]) (hs ++ [0]) = some (if c :: ns <:+: hs then 1 else 0) := by
  induction hs with
  | nil => simp [searchLoop]
  | cons h hs ih =>
      rw [List.mem_cons, not_or] at hh
      rw [List.cons_append, List.cons_append, searchLoop, if_neg (Ne.symm hh.1), List.head?_cons,
        Option.bind_eq_bind, Option.bind_some]
      have hhead : c :: ns <:+: h :: hs ↔ c :: ns <+: h :: hs ∨ c :: ns <:+: hs :=
        List.infix_cons_iff
      by_cases hfirst : h = c
      · rw [if_pos hfirst]
        have hhs : (0 : Byte) ∉ h :: hs := by
          rw [List.mem_cons, not_or]
          exact hh
        obtain ⟨rest, hloop, h0, hiff⟩ := matchLoop_spec hhs hn
        rw [List.cons_append, List.cons_append] at hloop
        rw [hloop, Option.bind_eq_bind, Option.bind_some]
        cases rest with
        | nil =>
            have hfound : c :: ns <:+: h :: hs := hhead.mpr (.inl (hiff.mp rfl))
            simp [hfound]
        | cons r rest =>
            -- a partial match: the loop goes on with the next character
            rw [List.mem_cons, not_or] at h0
            have hnot : ¬ c :: ns <+: h :: hs := fun hpre => by cases hiff.mpr hpre
            rw [List.cons_append, List.head?_cons, Option.bind_some, if_neg (Ne.symm h0.1),
              ← List.cons_append, ih hh.2]
            exact congrArg some (if_congr (by rw [hhead, or_iff_right hnot]) rfl rfl)
      · rw [if_neg hfirst, ← List.cons_append, ih hh.2]
        have hnot : ¬ c :: ns <+: h :: hs := by
          rw [List.cons_prefix_cons]
          exact fun hpre => hfirst hpre.1.symm
        exact congrArg some (if_congr (by rw [hhead, or_iff_right hnot]) rfl rfl)

theorem strstr_eq (hh : (0 : Byte) ∉ haystack) (hn : (0 : Byte) ∉ needle) :
    strstr (haystack ++ [0]) (needle ++ [0]) = some (if needle <:+: haystack then 1 else 0) := by
  cases needle with
  | nil => simp [strstr]
  | cons c ns =>
      rw [strstr, List.cons_append, List.head?_cons, Option.bind_eq_bind, Option.bind_some,
        if_neg (fun h0 => hn (by simp [h0])), ← List.cons_append]
      exact searchLoop_eq hh hn

/-- **Substring search is exact**: on two strings whose arrays end with the terminator,
`strstr` comes to an end without a read past either, and returns 1 exactly where the needle
occurs in the haystack. -/
theorem strstr_exact (haystack needle : List Byte) (hh : (0 : Byte) ∉ haystack)
    (hn : (0 : Byte) ∉ needle) :
    ∃ ret, strstr (haystack ++ [0]) (needle ++ [0]) = some ret ∧
      (ret = 1 ↔ needle <:+: haystack) ∧ (ret = 0 ↔ ¬ needle <:+: haystack) := by
  refine ⟨_, strstr_eq hh hn, ?_, ?_⟩
  all_goals split_ifs with h <;> simp [h]

/-- `aab` in `aaab`: the second try overlaps the first. -/
theorem strstr_exact_overlap :
    ∃ ret, strstr ([1, 1, 1, 2] ++ [0]) ([1, 1, 2] ++ [0]) = some ret ∧
      (ret = 1 ↔ [1, 1, 2] <:+: ([1, 1, 1, 2] : List Byte)) ∧
      (ret = 0 ↔ ¬ [1, 1, 2] <:+: ([1, 1, 1, 2] : List Byte)) :=
  strstr_exact _ _ (by decide) (by decide)

theorem strstrLoop_iff {c : Byte} : strstrLoop (c :: ns) hs = true ↔ c :: ns <:+: hs := by
  induction hs with
  | nil => simp [strstrLoop]
  | cons h hs ih =>
      rw [strstrLoop, Bool.or_eq_true, ih, List.isPrefixOf_iff_prefix, ← List.infix_cons_iff]

/-- The search of `find` over the strings in its arrays. -/
theorem strstr_refines (hh : (0 : Byte) ∉ haystack) (hn : (0 : Byte) ∉ needle) :
    strstr (haystack ++ [0]) (needle ++ [0]) =
      some (if Binbows.strstr haystack needle = true then 1 else 0) := by
  rw [strstr_eq hh hn]
  refine congrArg some (if_congr ?_ rfl rfl)
  cases needle with
  | nil => simp [Binbows.strstr]
  | cons c ns => simp [Binbows.strstr, strstrLoop_iff]

/-! ### Strings in memory -/

/-- What stands in memory from the pointer on reads as the string `l`, and a NUL ends it. -/
structure Reads (b : Nat → Byte) (l : List Byte) : Prop where
  chars_eq : ∀ k < l.length, b k = l.getD k 0
  no_nul : (0 : Byte) ∉ l
  nul : b l.length = 0

variable {b dest src : Nat → Byte} {go : Nat → Bool} {l s t : List Byte}
  {fuel m n i k : Nat}

/-- The strings in the arrays of the shell are read the same way. -/
theorem reads_chars_iff {b : Fin n → Byte} (hlen : l.length ≤ n) :
    Reads (chars b) l ↔ string b = l := by
  rw [string_eq_iff hlen]
  constructor
  · rintro ⟨hchars, h0, hnul⟩
    exact ⟨h0, hchars, hnul⟩
  · rintro ⟨h0, hchars, hnul⟩
    exact ⟨hchars, h0, hnul⟩

theorem Reads.ne_zero (h : Reads b l) (hk : k < l.length) : b k ≠ 0 := by
  rw [h.chars_eq k hk, List.getD_eq_getElem _ _ hk]
  intro h0
  exact h.no_nul (h0 ▸ List.getElem_mem hk)

/-- A string is also a string from any of its characters on. -/
theorem Reads.drop (h : Reads b l) (hm : m ≤ l.length) :
    Reads (fun k => b (m + k)) (l.drop m) where
  chars_eq := by
    intro k hk
    rw [List.length_drop] at hk
    show b (m + k) = (l.drop m).getD k 0
    rw [h.chars_eq _ (by omega), List.getD_eq_getElem?_getD, List.getD_eq_getElem?_getD,
      List.getElem?_drop]
  no_nul := fun h0 => h.no_nul (List.mem_of_mem_drop h0)
  nul := by
    show b (m + (l.drop m).length) = 0
    rw [List.length_drop, Nat.add_sub_cancel' hm, h.nul]

/-! ### The loops -/

/-- A loop that only counts: where `go` fails first, from `i` on. -/
def scanLoop (go : Nat → Bool) : (fuel i : Nat) → Option Nat
  | 0, _ => none
  | fuel + 1, i => if go i then scanLoop go fuel (i + 1) else some i

/-- A loop that copies `src[j]` to `dest[start + j]` while `go j`: the counter when it stops,
and `dest` then. -/
def copyLoop (go : Nat → Bool) (src : Nat → Byte) (start : Nat) :
    (fuel j : Nat) → (dest : Nat → Byte) → Option (Nat × (Nat → Byte))
  | 0, _, _ => none
  | fuel + 1, j, dest =>
      if go j then copyLoop go src start fuel (j + 1) (Function.update dest (start + j) (src j))
      else some (j, dest)

def strlen (fuel : Nat) (str : Nat → Byte) : Option Nat :=
  scanLoop (fun i => str i ≠ 0) fuel 0

def strcat (fuel : Nat) (dest src : Nat → Byte) : Option (Nat → Byte) := do
  let i ← scanLoop (fun i => dest i ≠ 0) fuel 0
  let (j, dest) ← copyLoop (fun j => src j ≠ 0) src i fuel 0 dest
  return Function.update dest (i + j) 0

/-- `strcpy`.  The counter stands behind the last character when the loop is done, and the
terminator goes one further. -/
def strcpy (fuel : Nat) (dest src : Nat → Byte) : Option (Nat → Byte) := do
  let n ← strlen fuel src
  let (i, dest) ← copyLoop (fun i => i < n) src 0 (n + 1) 0 dest
  return Function.update dest (i + 1) 0

/-- `namecpy`.  The loop does not stop at a NUL. -/
def namecpy (dest src : Nat → Byte) (n : Nat) : Option (Nat → Byte) := do
  let (i, dest) ← copyLoop (fun i => i < n ∧ src i ≠ dot) src 0 (n + 1) 0 dest
  return Function.update dest i 0

def extcpy (fuel : Nat) (dest src : Nat → Byte) (n : Nat) : Option (Nat → Byte) := do
  let dotIndex ← scanLoop (fun i => src i ≠ 0 ∧ src i ≠ dot) fuel 0
  let dotIndex := if src dotIndex = dot then dotIndex + 1 else dotIndex
  let (i, dest) ← copyLoop (fun i => i < n ∧ src (dotIndex + i) ≠ 0)
    (fun i => src (dotIndex + i)) 0 (n + 1) 0 dest
  return Function.update dest i 0

theorem scanLoop_eq (hgo : ∀ j, i ≤ j → j < m → go j = true) (hstop : go m = false) (hle : i ≤ m)
    (hfuel : m - i < fuel) : scanLoop go fuel i = some m := by
  induction fuel generalizing i with
  | zero => omega
  | succ fuel ih =>
      rw [scanLoop]
      rcases Nat.lt_or_eq_of_le hle with hlt | rfl
      · rw [if_pos (hgo i le_rfl hlt)]
        apply ih
        · intro j hj
          exact hgo j (by omega)
        · exact hlt
        · omega
      · rw [if_neg (by simp [hstop])]

/-- A destination with `m` characters of `src` copied in at `start`. -/
def copied (dest src : Nat → Byte) (start m : Nat) : Nat → Byte := fun k =>
  if start ≤ k ∧ k < start + m then src (k - start) else dest k

/-- One more character. -/
theorem update_copied : Function.update (copied dest src i m) (i + m) (src m) =
    copied dest src i (m + 1) := by
  funext k
  unfold copied
  by_cases hk : k = i + m
  · subst hk
    rw [Function.update_self, if_pos (by omega), Nat.add_sub_cancel_left]
  · rw [Function.update_of_ne hk]
    exact if_congr (by omega) rfl rfl

theorem copyLoop_copied (dest src : Nat → Byte) (i : Nat) (hgo : ∀ j < m, go j = true)
    (hstop : go m = false) (hk : k ≤ m)
    (hfuel : m - k < fuel) :
    copyLoop go src i fuel k (copied dest src i k) = some (m, copied dest src i m) := by
  induction fuel generalizing k with
  | zero => omega
  | succ fuel ih =>
      rw [copyLoop]
      rcases Nat.lt_or_eq_of_le hk with hlt | rfl
      · rw [if_pos (hgo k hlt), update_copied]
        exact ih hlt (by omega)
      · rw [if_neg (by simp [hstop])]

/-- What a copying loop leaves behind. -/
theorem copyLoop_eq (hgo : ∀ j < m, go j = true) (hstop : go m = false) (hfuel : m < fuel) :
    copyLoop go src i fuel 0 dest = some (m, copied dest src i m) := by
  have hstart : copied dest src i 0 = dest := by
    funext k
    exact if_neg (by omega)
  have hloop := copyLoop_copied dest src i hgo hstop (Nat.zero_le m) hfuel
  rwa [hstart] at hloop

/-! ### What the helpers build -/

theorem strlen_eq (h : Reads src s) (hfuel : s.length < fuel) : strlen fuel src = some s.length := by
  apply scanLoop_eq
  · intro j _ hj
    simpa using h.ne_zero hj
  · simp [h.nul]
  · exact Nat.zero_le _
  · exact hfuel

/-- The characters of `dest` in front of the place where the copy starts, and the copy, with
a NUL behind. -/
theorem reads_copied (hdest : ∀ k < t.length, dest k = t.getD k 0) (ht : (0 : Byte) ∉ t)
    (hsrc : ∀ k < s.length, src k = s.getD k 0) (hs : (0 : Byte) ∉ s) :
    Reads (Function.update (copied dest src t.length s.length) (t.length + s.length) 0)
      (t ++ s) where
  chars_eq := by
    intro k hk
    rw [List.length_append] at hk
    rw [Function.update_of_ne (by omega), copied]
    split_ifs with hin
    · rw [List.getD_append_right _ _ _ _ hin.1, hsrc _ (by omega)]
    · rw [List.getD_append _ _ _ _ (by omega), hdest _ (by omega)]
  no_nul := by
    rw [List.mem_append, not_or]
    exact ⟨ht, hs⟩
  nul := by
    rw [List.length_append, Function.update_self]

/-- `strcat` appends. -/
theorem strcat_reads (hdest : Reads dest t) (hsrc : Reads src s) (hfuel : s.length < fuel)
    (hfuel' : t.length < fuel) : ∃ b, strcat fuel dest src = some b ∧ Reads b (t ++ s) := by
  refine ⟨_, ?_, reads_copied hdest.chars_eq hdest.no_nul hsrc.chars_eq hsrc.no_nul⟩
  have hend : scanLoop (fun i => dest i ≠ 0) fuel 0 = some t.length := strlen_eq hdest hfuel'
  have hcopy : copyLoop (fun j => src j ≠ 0) src t.length fuel 0 dest =
      some (s.length, copied dest src t.length s.length) := by
    apply copyLoop_eq
    · intro j hj
      simpa using hsrc.ne_zero hj
    · simp [hsrc.nul]
    · exact hfuel
  rw [strcat, hend, Option.bind_eq_bind, Option.bind_some, hcopy]
  rfl

/-- A string without the copied part in front: what `strcpy`, `namecpy` and `extcpy` make. -/
theorem reads_copied_zero (dest : Nat → Byte) (hsrc : ∀ k < s.length, src k = s.getD k 0)
    (hs : (0 : Byte) ∉ s) :
    Reads (Function.update (copied dest src 0 s.length) s.length 0) s := by
  have hnone : ∀ k < ([] : List Byte).length, dest k = ([] : List Byte).getD k 0 := by
    intro k hk
    exact absurd hk (Nat.not_lt_zero k)
  simpa using reads_copied hnone List.not_mem_nil hsrc hs

/-- The characters of a string up to a dot and behind it. -/
theorem Reads.of_dot {w u : List Byte} (h : Reads src (w ++ dot :: u)) :
    (∀ k < w.length, src k = w.getD k 0) ∧ (0 : Byte) ∉ w ∧ src w.length = dot ∧
      Reads (fun k => src (w.length + 1 + k)) u := by
  refine ⟨fun k hk => ?_, ?_, ?_, ?_⟩
  · rw [h.chars_eq k (by simp; omega), List.getD_append _ _ _ _ hk]
  · intro h0
    exact h.no_nul (List.mem_append_left _ h0)
  · rw [h.chars_eq _ (by simp), List.getD_append_right _ _ _ _ le_rfl, Nat.sub_self]
    rfl
  · have hdrop := h.drop (m := w.length + 1) (by simp)
    rwa [List.drop_append, List.drop_eq_nil_of_le (by omega), Nat.add_sub_cancel_left] at hdrop

theorem takeWhile_dot {w u : List Byte} (hw : dot ∉ w) :
    (w ++ dot :: u).takeWhile (· ≠ dot) = w := by
  have hall : ∀ c ∈ w, decide (c ≠ dot) = true := by
    intro c hc
    simpa using fun hdot : c = dot => hw (hdot ▸ hc)
  rw [List.takeWhile_append_of_pos hall, List.takeWhile_cons_of_neg (by simp), List.append_nil]

theorem dropWhile_dot {w u : List Byte} (hw : dot ∉ w) :
    (w ++ dot :: u).dropWhile (· ≠ dot) = dot :: u := by
  have hall : ∀ c ∈ w, decide (c ≠ dot) = true := by
    intro c hc
    simpa using fun hdot : c = dot => hw (hdot ▸ hc)
  rw [List.dropWhile_append_of_pos hall, List.dropWhile_cons_of_neg (by simp)]

theorem takeWhile_of_no_dot (hs : dot ∉ s) : s.takeWhile (· ≠ dot) = s := by
  rw [List.takeWhile_eq_self_iff]
  intro c hc
  simpa using fun hdot : c = dot => hs (hdot ▸ hc)

theorem dropWhile_of_no_dot (hs : dot ∉ s) : s.dropWhile (· ≠ dot) = [] := by
  rw [List.dropWhile_eq_nil_iff]
  intro c hc
  simpa using fun hdot : c = dot => hs (hdot ▸ hc)

theorem Reads.ne_dot (h : Reads src s) (hs : dot ∉ s) (hk : k < s.length) : src k ≠ dot := by
  rw [h.chars_eq k hk, List.getD_eq_getElem _ _ hk]
  intro hdot
  exact hs (hdot ▸ List.getElem_mem hk)

/-- `namecpy` takes what stands in front of the first dot. -/
theorem namecpy_reads (hsrc : Reads src s) (hn : s.length ≤ n) :
    ∃ b, namecpy dest src n = some b ∧ Reads b (s.takeWhile (· ≠ dot)) := by
  -- up to the dot
  by_cases hs : dot ∈ s
  · obtain ⟨w, u, rfl, hw⟩ := List.eq_append_cons_of_mem hs
    obtain ⟨hchars, h0, hdot, -⟩ := hsrc.of_dot
    rw [takeWhile_dot hw]
    rw [List.length_append, List.length_cons] at hn
    refine ⟨_, ?_, reads_copied_zero dest hchars h0⟩
    rw [namecpy, copyLoop_eq (m := w.length)]
    · rfl
    · intro j hj
      have hne : src j ≠ dot := by
        rw [hchars j hj, List.getD_eq_getElem _ _ hj]
        exact fun heq => hw (heq ▸ List.getElem_mem hj)
      simp only [decide_eq_true_eq]
      exact ⟨by omega, hne⟩
    · simp [hdot]
    · omega
  · -- the loop runs behind the terminator, to the count or to a dot that stands there
    have hstops : ∃ m, ¬ (m < n ∧ src m ≠ dot) := ⟨n, fun h => lt_irrefl _ h.1⟩
    obtain ⟨m, hm⟩ : ∃ m, m = Nat.find hstops := ⟨_, rfl⟩
    have hstop : ¬ (m < n ∧ src m ≠ dot) := hm ▸ Nat.find_spec hstops
    have hgo : ∀ j < m, j < n ∧ src j ≠ dot := by
      intro j hj
      exact not_not.mp (Nat.find_min hstops (hm ▸ hj))
    have hle : m ≤ n := hm ▸ Nat.find_min' hstops fun h => lt_irrefl _ h.1
    have hlong : s.length ≤ m := by
      by_contra hlt
      exact hstop ⟨by omega, hsrc.ne_dot hs (by omega)⟩
    rw [takeWhile_of_no_dot hs]
    refine ⟨Function.update (copied dest src 0 m) m 0, ?_, ?_, hsrc.no_nul, ?_⟩
    -- what it copies behind the terminator is not part of the string
    · rw [namecpy, copyLoop_eq (m := m)]
      · rfl
      · intro j hj
        simpa using hgo j hj
      · simpa using hstop
      · omega
    · intro k hk
      rw [Function.update_of_ne (by omega), copied, if_pos (by omega), hsrc.chars_eq _ (by omega),
        Nat.sub_zero]
    · rcases Nat.lt_or_eq_of_le hlong with hlt | heq
      · rw [Function.update_of_ne (by omega), copied, if_pos (by omega), Nat.sub_zero, hsrc.nul]
      · rw [heq, Function.update_self]

/-- The second loop of `extcpy`. -/
theorem extCopy_reads {b : Nat → Byte} (hsrc : Reads b s) (hn : s.length ≤ n) :
    copyLoop (fun i => i < n ∧ b i ≠ 0) b 0 (n + 1) 0 dest =
      some (s.length, copied dest b 0 s.length) := by
  apply copyLoop_eq
  · intro j hj
    simp only [decide_eq_true_eq]
    exact ⟨by omega, hsrc.ne_zero hj⟩
  · simp [hsrc.nul]
  · omega

/-- `extcpy` takes what stands behind the first dot. -/
theorem extcpy_reads (hsrc : Reads src s) (hn : s.length ≤ n) (hfuel : s.length < fuel) :
    ∃ b, extcpy fuel dest src n = some b ∧ Reads b (s.dropWhile (· ≠ dot)).tail := by
  by_cases hs : dot ∈ s
  · obtain ⟨w, u, rfl, hw⟩ := List.eq_append_cons_of_mem hs
    obtain ⟨hchars, h0, hdot, hext⟩ := hsrc.of_dot
    rw [dropWhile_dot hw, List.tail_cons]
    rw [List.length_append, List.length_cons] at hn hfuel
    -- the scan stops at the dot, and the copy starts behind it
    have hscan : scanLoop (fun i => src i ≠ 0 ∧ src i ≠ dot) fuel 0 = some w.length := by
      apply scanLoop_eq
      · intro j _ hj
        have hne : src j ≠ dot := by
          rw [hchars j hj, List.getD_eq_getElem _ _ hj]
          exact fun heq => hw (heq ▸ List.getElem_mem hj)
        simp only [decide_eq_true_eq]
        exact ⟨hsrc.ne_zero (by simp; omega), hne⟩
      · simp [hdot]
      · exact Nat.zero_le _
      · omega
    refine ⟨_, ?_, reads_copied_zero dest hext.chars_eq hext.no_nul⟩
    rw [extcpy, hscan, Option.bind_eq_bind, Option.bind_some]
    dsimp only
    rw [if_pos hdot, extCopy_reads hext (by omega)]
    rfl
  -- without a dot the scan stops at the terminator, and nothing is copied
  · have hscan : scanLoop (fun i => src i ≠ 0 ∧ src i ≠ dot) fuel 0 = some s.length := by
      apply scanLoop_eq
      · intro j _ hj
        simp only [decide_eq_true_eq]
        exact ⟨hsrc.ne_zero hj, hsrc.ne_dot hs hj⟩
      · simp [hsrc.nul]
      · exact Nat.zero_le _
      · omega
    have hnil : Reads (fun k => src (s.length + k)) [] := by
      have hdrop := hsrc.drop (m := s.length) le_rfl
      rwa [List.drop_length] at hdrop
    have hne : src s.length ≠ dot := by
      rw [hsrc.nul]
      decide
    rw [dropWhile_of_no_dot hs, List.tail_nil]
    refine ⟨_, ?_, reads_copied_zero dest hnil.chars_eq hnil.no_nul⟩
    rw [extcpy, hscan, Option.bind_eq_bind, Option.bind_some]
    dsimp only
    rw [if_neg hne, extCopy_reads hnil (Nat.zero_le _)]
    rfl

/-- What `strcpy` leaves in its destination. -/
theorem strcpy_eq (hsrc : Reads src s) (hfuel : s.length < fuel) :
    strcpy fuel dest src =
      some (Function.update (copied dest src 0 s.length) (s.length + 1) 0) := by
  rw [strcpy, strlen_eq hsrc hfuel, Option.bind_eq_bind, Option.bind_some,
    copyLoop_eq (m := s.length)]
  · rfl
  · intro j hj
    simpa using hj
  · simp
  · exact Nat.lt_succ_self _

/-- `strcpy` leaves the byte behind the characters as it was. -/
theorem strcpy_reads_iff (hsrc : Reads src s) (hfuel : s.length < fuel) :
    (∃ b, strcpy fuel dest src = some b ∧ Reads b s) ↔ dest s.length = 0 := by
  rw [strcpy_eq hsrc hfuel]
  have hbehind : Function.update (copied dest src 0 s.length) (s.length + 1) 0 s.length =
      dest s.length := by
    rw [Function.update_of_ne (by omega), copied, if_neg (by omega)]
  constructor
  · rintro ⟨b, hb, hreads⟩
    rw [← hbehind, Option.some.inj hb, hreads.nul]
  · intro h0
    refine ⟨_, rfl, ?_, hsrc.no_nul, ?_⟩
    · intro k hk
      rw [Function.update_of_ne (by omega), copied, if_pos (by omega), Nat.sub_zero,
        hsrc.chars_eq k hk]
    · rw [hbehind, h0]

/-- The four copies, each from its own destination. -/
structure CopiesExact (fuel n : Nat) (src dest appended name ext : Nat → Byte)
    (s t : List Byte) : Prop where
  strcpy_reads : ∃ b, strcpy fuel dest src = some b ∧ Reads b s
  strcat_reads : ∃ b, strcat fuel appended src = some b ∧ Reads b (t ++ s)
  namecpy_reads : ∃ b, namecpy name src n = some b ∧ Reads b (s.takeWhile (· ≠ dot))
  extcpy_reads : ∃ b, extcpy fuel ext src n = some b ∧ Reads b (s.dropWhile (· ≠ dot)).tail
  split_eq : dot ∈ s → s = s.takeWhile (· ≠ dot) ++ dot :: (s.dropWhile (· ≠ dot)).tail

/-- **When the copies are exact**: `strcat`, `namecpy` and `extcpy` are right on every string
and whatever their destinations held; `strcpy` where its destination held a NUL at the place
of the terminator. -/
theorem copies_exact_iff {name ext appended : Nat → Byte} (hsrc : Reads src s)
    (happended : Reads appended t) (hn : s.length ≤ n) (hfuel : s.length < fuel)
    (hfuel' : t.length < fuel) :
    CopiesExact fuel n src dest appended name ext s t ↔ dest s.length = 0 := by
  constructor
  · intro h
    exact (strcpy_reads_iff hsrc hfuel).mp h.strcpy_reads
  · intro h0
    refine ⟨(strcpy_reads_iff hsrc hfuel).mpr h0, CString.strcat_reads happended hsrc hfuel hfuel',
      CString.namecpy_reads hsrc hn, CString.extcpy_reads hsrc hn hfuel, fun hs => ?_⟩
    obtain ⟨w, u, rfl, hw⟩ := List.eq_append_cons_of_mem hs
    rw [takeWhile_dot hw, dropWhile_dot hw, List.tail_cons]

/-- A string in memory, and stale bytes behind its NUL. -/
def held (l : List Byte) (k : Nat) : Byte :=
  if k < l.length then l.getD k 0 else if k = l.length then 0 else ascii 'q'

theorem held_reads {l : List Byte} (h0 : (0 : Byte) ∉ l) : Reads (held l) l where
  chars_eq k hk := if_pos hk
  no_nul := h0
  nul := by rw [held, if_neg (lt_irrefl _), if_pos rfl]

/-- `a.b` over `xyz`, whose NUL stands where that of the copy belongs, and behind `xy`; the
name and the extension over stale bytes. -/
theorem copies_exact_iff_dotted :
    CopiesExact 4 3 (held (['a', '.', 'b'].map ascii)) (held (['x', 'y', 'z'].map ascii))
      (held (['x', 'y'].map ascii)) (fun _ => ascii 'q') (fun _ => ascii 'q')
      (['a', '.', 'b'].map ascii) (['x', 'y'].map ascii) :=
  (copies_exact_iff (held_reads (by decide)) (held_reads (by decide)) (by decide) (by decide)
    (by decide)).mpr rfl

/-- A destination that held `bb`: the copy of `a` reads as `ab`. -/
theorem copies_not_exact :
    Reads (held [ascii 'a']) [ascii 'a'] ∧
      ¬ CopiesExact 2 1 (held [ascii 'a']) (held [ascii 'b', ascii 'b']) (held []) (held [])
        (held []) [ascii 'a'] [] := by
  have hreads := held_reads (l := [ascii 'a']) (by decide)
  refine ⟨hreads, fun h => ?_⟩
  have hzero := (strcpy_reads_iff hreads (by decide)).mp h.strcpy_reads
  exact absurd hzero (by decide)

end CString

end Binbows
