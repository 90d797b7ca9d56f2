/-
Binbows/FileArguments.lean

The argument of `cat`, `rm` and `cp` that names a file.

An argument `DIR/N.E` or `N.E` is a directory, a name and an extension (`FileArgument`).
`cat` looks for the last slash and the last dot.  `rm` and `cp` scan forward: they copy
characters up to the first space or single dot, where two dots in a row are copied as they
are (`copyWord_dir`, `copyWord_stop`), take three characters behind it for the extension, and
look for a slash in front of it, though not at the first character (`nameStart_slash`).

The file that a command asks for is computed from its argument here (`catSource_eq`,
`removeTarget_eq`, `moveSource_eq`).
-/
import Binbows.FileRequests

namespace Binbows

open Chain SlotTree Bytes Volume Run Calls
open Terminal (chars text)

variable {v : Volume} {line : CommandLine} {place moved : Place} {k : FileKey}
  {stale : StaleStack} {behind : List Byte} {l typed dir name front tail : List Byte}
  {skip n : Nat}

/-! ### Lines -/

/-- The line consists of these characters.  What stands behind them in the buffer does not
matter. -/
structure CommandLine.Reads (line : CommandLine) (l : List Byte) : Prop where
  length_eq : line.curCmdLength.toNat = l.length
  fits : l.length ≤ maxCmdLength
  chars_eq : ∀ k < l.length, chars line.cmdBuffer k = l.getD k 0

namespace CommandLine.Reads

theorem span_eq {start count : Nat} (h : line.Reads l) (hle : start + count ≤ l.length) :
    span line.cmdBuffer start count = (l.drop start).take count := by
  apply List.ext_getElem
  · rw [length_span, List.length_take, List.length_drop]
    omega
  · intro i hi hi'
    rw [length_span] at hi
    simp only [span, List.getElem_map, List.getElem_range, List.getElem_take, List.getElem_drop]
    rw [h.chars_eq _ (by omega), List.getD_eq_getElem _ _ (by omega)]

/-- The arguments are what stands behind the command. -/
theorem arguments (h : line.Reads l) (hskip : skip ≤ l.length) :
    line.arguments skip = .ok (l.drop skip) := by
  have hfits := h.fits
  rw [CommandLine.arguments, if_pos (by rw [h.length_eq]; exact ⟨hskip, hfits⟩), h.length_eq,
    h.span_eq (by omega), List.take_of_length_le (by rw [List.length_drop])]

/-- A line that is longer than the command has arguments. -/
theorem not_noArguments (h : line.Reads l) (h0 : (0 : Byte) ∉ l) (hlen : n + 1 < l.length) :
    ¬ line.NoArguments n := by
  have hstrlen : l.length ≤ strlen line.cmdBuffer := by
    by_contra hlt
    have hnul := chars_strlen (b := line.cmdBuffer)
    rw [h.chars_eq _ (not_le.mp hlt), List.getD_eq_getElem _ _ (not_le.mp hlt)] at hnul
    exact h0 (hnul ▸ List.getElem_mem _)
  unfold CommandLine.NoArguments
  omega

/-- The last component of a line starts behind its last slash. -/
theorem componentStart_eq (h : line.Reads (front ++ slash :: name)) (hname : slash ∉ name) :
    componentStart line.cmdBuffer line.curCmdLength.toNat = front.length + 1 := by
  rw [h.length_eq]
  apply Binbows.componentStart_eq
  · simp
  · intro j hj hj'
    rw [h.chars_eq j hj', List.getD_append_right _ _ _ _ (by omega)]
    obtain ⟨i, hi⟩ : ∃ i, j - front.length = i + 1 := ⟨j - front.length - 1, by omega⟩
    rw [hi, List.getD_cons_succ]
    rw [List.length_append, List.length_cons] at hj'
    rw [List.getD_eq_getElem _ _ (by omega)]
    exact fun heq => hname (heq ▸ List.getElem_mem _)
  · right
    rw [Nat.add_sub_cancel, h.chars_eq _ (by simp), List.getD_append_right _ _ _ _ le_rfl,
      Nat.sub_self]
    rfl

/-- An argument with a slash is split at its last one. -/
theorem splitPath_eq (h : line.Reads (typed ++ dir ++ slash :: name)) (hname : slash ∉ name)
    (hroom : typed.length + dir.length + 1 < maxCmdLength) :
    line.splitPath typed.length = .ok (dir, name) := by
  have hlen : (typed ++ dir ++ slash :: name).length = typed.length + dir.length + 1 + name.length := by
    simp
    omega
  rw [CommandLine.splitPath, h.componentStart_eq hname, List.length_append,
    if_neg (not_or.mpr ⟨by omega, not_le.mpr hroom⟩),
    h.length_eq, h.span_eq (by omega), h.span_eq (by omega), hlen]
  have hdir : ((typed ++ dir ++ slash :: name).drop typed.length).take
      (typed.length + dir.length + 1 - (typed.length + 1)) = dir := by
    rw [List.append_assoc, List.drop_left, Nat.add_right_comm, Nat.add_sub_cancel_left,
      List.take_left]
  have hrest : ((typed ++ dir ++ slash :: name).drop (typed.length + dir.length + 1)).take
      (typed.length + dir.length + 1 + name.length - (typed.length + dir.length + 1)) = name := by
    have hsplit : typed ++ dir ++ slash :: name = (typed ++ dir ++ [slash]) ++ name := by simp
    have hlong : typed.length + dir.length + 1 = (typed ++ dir ++ [slash]).length := by
      rw [List.length_append, List.length_append, List.length_singleton]
    rw [Nat.add_sub_cancel_left, hsplit, hlong, List.drop_left, List.take_length]
  rw [hdir, hrest]

end CommandLine.Reads

/-- A line that was typed reads as it was typed. -/
theorem lineOf_reads {keys : List Char} (h : keys.length ≤ maxCmdLength) :
    (lineOf keys).Reads (keys.map ascii) where
  length_eq := by
    show (BitVec.ofNat 8 keys.length).toNat = _
    rw [BitVec.toNat_ofNat, List.length_map, Nat.mod_eq_of_lt]
    exact lt_of_le_of_lt h (by decide)
  fits := by rwa [List.length_map]
  chars_eq k _ := chars_buffer (by rwa [List.length_map]) k

/-! ### The scan for an extension -/

/-- Where the loops of `rm` and `cp` stop in a directory: what is in front of its first space
or single dot, and what is behind. -/
def firstStop : List Byte → Option (List Byte × List Byte)
  | [] => none
  | c :: cs =>
      if c = space then some ([], cs)
      else if c = dot then
        match cs with
        | [] => some ([], [])
        | c' :: cs' =>
            if c' = dot then (firstStop cs').map fun p => (c :: c' :: p.1, p.2)
            else some ([], c' :: cs')
      else (firstStop cs).map fun p => (c :: p.1, p.2)

/-- The characters of a name. -/
def PlainChars (l : List Byte) : Prop := ∀ c ∈ l, c ≠ 0 ∧ c ≠ dot ∧ c ≠ slash ∧ c ≠ space

theorem copyWord_cons {c : Byte} {cs : List Byte} (hspace : c ≠ space) (hzero : c ≠ 0)
    (hdot : c ≠ dot) : copyWord (c :: cs) = (c :: (copyWord cs).1, (copyWord cs).2) := by
  rw [copyWord.eq_def]
  dsimp only
  rw [if_neg (not_or.mpr ⟨hspace, hzero⟩), if_neg hdot]

/-- Two dots are copied as they are. -/
theorem copyWord_dots {cs : List Byte} :
    copyWord (dot :: dot :: cs) = (dot :: dot :: (copyWord cs).1, (copyWord cs).2) := by
  rw [copyWord.eq_def]
  dsimp only
  rw [if_neg (by decide), if_pos rfl, if_pos rfl]

/-- The loop stops at a single dot. -/
theorem copyWord_dot {cs : List Byte} (h : cs.head? ≠ some dot) :
    copyWord (dot :: cs) = ([], dot :: cs) := by
  rw [copyWord.eq_def]
  dsimp only
  rw [if_neg (by decide), if_pos rfl]
  cases cs with
  | nil => rfl
  | cons c cs =>
      dsimp only
      rw [if_neg fun hc => h (by rw [hc]; rfl)]

theorem copyWord_space {cs : List Byte} : copyWord (space :: cs) = ([], space :: cs) := by
  rw [copyWord.eq_def]
  exact if_pos (.inl rfl)

theorem copyWord_plain {more : List Byte} (h : PlainChars name) :
    copyWord (name ++ more) = (name ++ (copyWord more).1, (copyWord more).2) := by
  induction name with
  | nil => rfl
  | cons c name ih =>
      obtain ⟨hzero, hdot, -, hspace⟩ := h c List.mem_cons_self
      rw [List.cons_append, copyWord_cons hspace hzero hdot,
        ih fun c hc => h c (List.mem_cons_of_mem _ hc)]
      rfl

/-- The loop runs through a directory without stops. -/
theorem copyWord_dir {more : List Byte} (h0 : 0 ∉ dir) (hstop : firstStop dir = none) :
    copyWord (dir ++ slash :: more) =
      (dir ++ slash :: (copyWord more).1, (copyWord more).2) := by
  fun_induction firstStop dir with
  | case1 => exact copyWord_cons (by decide) (by decide) (by decide)
  | case2 => cases hstop
  | case3 => cases hstop
  | case4 cs _ ih =>
      rw [Option.map_eq_none_iff] at hstop
      have hcs : 0 ∉ cs := fun h => h0 (List.mem_cons_of_mem _ (List.mem_cons_of_mem _ h))
      rw [List.cons_append, List.cons_append, copyWord_dots, ih hcs hstop]
      rfl
  | case5 => cases hstop
  | case6 c cs hspace hdot ih =>
      rw [Option.map_eq_none_iff] at hstop
      have hcs : 0 ∉ cs := fun h => h0 (List.mem_cons_of_mem _ h)
      have hc : c ≠ 0 := fun h => h0 (h ▸ List.mem_cons_self)
      rw [List.cons_append, copyWord_cons hspace hc hdot, ih hcs hstop]
      rfl

/-- The loop ends at the first stop of a directory. -/
theorem copyWord_stop {rest : List Byte} (more : List Byte) (h0 : 0 ∉ dir)
    (hstop : firstStop dir = some (front, rest)) :
    ∃ stop, dir = front ++ stop :: rest ∧
      copyWord (dir ++ slash :: more) = (front, stop :: rest ++ slash :: more) := by
  fun_induction firstStop dir generalizing front rest with
  | case1 => cases hstop
  | case2 cs =>
      cases hstop
      exact ⟨space, rfl, copyWord_space⟩
  | case3 =>
      cases hstop
      refine ⟨dot, rfl, copyWord_dot ?_⟩
      exact fun h => absurd (Option.some.inj h) (by decide)
  | case4 cs _ ih =>
      obtain ⟨⟨front', rest'⟩, hcs', heq⟩ := Option.map_eq_some_iff.mp hstop
      cases heq
      have hcs : 0 ∉ cs := fun h => h0 (List.mem_cons_of_mem _ (List.mem_cons_of_mem _ h))
      obtain ⟨stop, rfl, hword⟩ := ih hcs hcs'
      refine ⟨stop, rfl, ?_⟩
      rw [List.cons_append, List.cons_append, copyWord_dots, hword]
  | case5 c cs hc =>
      cases hstop
      refine ⟨dot, rfl, copyWord_dot ?_⟩
      exact fun h => hc (Option.some.inj h)
  | case6 c cs hspace hdot ih =>
      obtain ⟨⟨front', rest'⟩, hcs', heq⟩ := Option.map_eq_some_iff.mp hstop
      cases heq
      have hcs : 0 ∉ cs := fun h => h0 (List.mem_cons_of_mem _ h)
      have hc : c ≠ 0 := fun h => h0 (h ▸ List.mem_cons_self)
      obtain ⟨stop, rfl, hword⟩ := ih hcs hcs'
      refine ⟨stop, rfl, ?_⟩
      rw [List.cons_append, copyWord_cons hspace hc hdot, hword]

theorem length_copyWord (l : List Byte) :
    (copyWord l).1.length + (copyWord l).2.length = l.length := by
  fun_induction copyWord l with
  | case1 => rfl
  | case2 => simp
  | case3 => simp
  | case4 => simp_all; omega
  | case5 => simp
  | case6 => simp_all; omega

/-! ### The name in a word -/

theorem nameStart_eq {src : List Byte} {p j : Nat} (hp : 0 < p) (hpj : p ≤ j)
    (hslash : src.getD p 0 = slash) (hbehind : ∀ i, p < i → i ≤ j → src.getD i 0 ≠ slash) :
    nameStart src j = p + 1 := by
  induction j with
  | zero => omega
  | succ j ih =>
      rw [nameStart]
      by_cases hj : p = j + 1
      · rw [if_pos (hj ▸ hslash), hj]
      · rw [if_neg (hbehind _ (by omega) le_rfl)]
        exact ih (by omega) fun i hi hij => hbehind i hi (by omega)

theorem nameStart_zero {src : List Byte} {j : Nat}
    (h : ∀ i, 0 < i → i ≤ j → src.getD i 0 ≠ slash) : nameStart src j = 0 := by
  induction j with
  | zero => rfl
  | succ j ih =>
      rw [nameStart, if_neg (h _ (by omega) le_rfl)]
      exact ih fun i hi hij => h i hi (by omega)

theorem getD_ne_slash (hname : slash ∉ name) (i : Nat) : name.getD i 0 ≠ slash := by
  rw [List.getD_eq_getElem?_getD]
  cases hi : name[i]? with
  | none => decide
  | some c => exact fun h => hname (h ▸ List.mem_of_getElem? hi)

/-- The name behind a directory. -/
theorem nameStart_dir (hdir : dir ≠ []) (hname : slash ∉ name) :
    nameStart (dir ++ slash :: name) (dir ++ slash :: name).length = dir.length + 1 := by
  apply nameStart_eq (List.length_pos_iff.mpr hdir)
  · rw [List.length_append]
    omega
  · rw [List.getD_append_right _ _ _ _ le_rfl, Nat.sub_self]
    rfl
  · intro i hi _
    obtain ⟨m, rfl⟩ : ∃ m, i = dir.length + (m + 1) := ⟨i - dir.length - 1, by omega⟩
    rw [List.getD_append_right _ _ _ _ (by omega), Nat.add_sub_cancel_left, List.getD_cons_succ]
    exact getD_ne_slash hname m

/-- A name alone. -/
theorem nameStart_name (hname : slash ∉ name) : nameStart name name.length = 0 :=
  nameStart_zero fun i _ _ => getD_ne_slash hname i

/-- A slash in front belongs to the name. -/
theorem nameStart_slash (hname : slash ∉ name) :
    nameStart (slash :: name) (slash :: name).length = 0 := by
  apply nameStart_zero
  intro i hi _
  obtain ⟨m, rfl⟩ : ∃ m, i = m + 1 := ⟨i - 1, by omega⟩
  rw [List.getD_cons_succ]
  exact getD_ne_slash hname m

/-! ### Arguments -/

/-- An argument `DIR/N.E` or `N.E`, or without an extension `DIR/N` or `N`. -/
structure FileArgument where
  dir : Option (List Byte)
  name : List Byte
  ext : Option (List Byte)
  dir_text : ∀ d ∈ dir, 0 ∉ d
  name_text : PlainChars name
  ext_text : ∀ e ∈ ext, PlainChars e
  /-- without an extension there is no dot -/
  undotted : ext = none → ∀ d ∈ dir, dot ∉ d

namespace FileArgument

variable {arg : FileArgument}

/-- What stands in front of the name. -/
def dirPart (arg : FileArgument) : List Byte :=
  match arg.dir with
  | none => []
  | some d => d ++ [slash]

/-- The name with its extension. -/
def file (arg : FileArgument) : List Byte :=
  match arg.ext with
  | none => arg.name
  | some e => arg.name ++ dot :: e

def text (arg : FileArgument) : List Byte := arg.dirPart ++ arg.file

/-- The directory; without one it is where the shell stands. -/
def folder (arg : FileArgument) : List Byte := arg.dir.getD []

def extension (arg : FileArgument) : List Byte := arg.ext.getD []

/-- A name of one to eight characters and an extension of one to three. -/
def Proper (arg : FileArgument) : Prop :=
  arg.name ≠ [] ∧ arg.name.length ≤ 8 ∧ arg.extension ≠ [] ∧ arg.extension.length ≤ 3

/-- The name or the extension is too long, or there is no extension. -/
def Odd (arg : FileArgument) : Prop :=
  8 < arg.name.length ∨ 3 < arg.extension.length ∨ arg.ext = none

/-- The file that the argument names in a directory. -/
def key (arg : FileArgument) (d : BitVec 32) : FileKey :=
  ⟨d, buffer 8 arg.name, buffer 3 arg.extension⟩

/-- The file has the name and the extension of the argument. -/
def Names (arg : FileArgument) (k : FileKey) : Prop :=
  arg.name.length ≤ 8 ∧ arg.extension.length ≤ 3 ∧ k.name = buffer 8 arg.name ∧
    k.ext = buffer 3 arg.extension

theorem extension_plain : PlainChars arg.extension := by
  unfold extension
  cases h : arg.ext with
  | none => exact nofun
  | some e => exact arg.ext_text e h

theorem file_noSlash : slash ∉ arg.file := by
  intro hmem
  unfold file at hmem
  cases h : arg.ext with
  | none =>
      rw [h] at hmem
      exact (arg.name_text _ hmem).2.2.1 rfl
  | some e =>
      rw [h] at hmem
      rcases List.mem_append.mp hmem with hmem | hmem
      · exact (arg.name_text _ hmem).2.2.1 rfl
      · rcases List.mem_cons.mp hmem with hmem | hmem
        · exact absurd hmem (by decide)
        · exact (arg.ext_text e h _ hmem).2.2.1 rfl

theorem zero_notMem_text : 0 ∉ arg.text := by
  intro hmem
  rcases List.mem_append.mp hmem with hmem | hmem
  · unfold dirPart at hmem
    cases h : arg.dir with
    | none =>
        rw [h] at hmem
        exact absurd hmem List.not_mem_nil
    | some d =>
        rw [h] at hmem
        rcases List.mem_append.mp hmem with hmem | hmem
        · exact arg.dir_text d h hmem
        · exact absurd (List.mem_singleton.mp hmem) (by decide)
  · unfold file at hmem
    cases h : arg.ext with
    | none =>
        rw [h] at hmem
        exact (arg.name_text _ hmem).1 rfl
    | some e =>
        rw [h] at hmem
        rcases List.mem_append.mp hmem with hmem | hmem
        · exact (arg.name_text _ hmem).1 rfl
        · rcases List.mem_cons.mp hmem with hmem | hmem
          · exact absurd hmem (by decide)
          · exact (arg.ext_text e h _ hmem).1 rfl

end FileArgument

/-! ### What the commands find -/

/-- The commands that act on a file. -/
inductive FileCommand
  | cat | rm | cp
  deriving DecidableEq

namespace FileCommand

/-- The command with the space behind it. -/
def word : FileCommand → List Byte
  | .cat => ['c', 'a', 't', ' '].map ascii
  | .rm => ['r', 'm', ' '].map ascii
  | .cp => ['c', 'p', ' '].map ascii

def run (command : FileCommand) (stale : StaleStack) :
    CommandLine → Place → ShellProgram Place :=
  match command with
  | .cat => Binbows.cat stale.pathBuffer
  | .rm => rmCaller stale.pathBuffer
  | .cp => cpCaller stale.copy

/-- What stands behind `path_buffer` when the command walks to the directory of its file. -/
def behindPath (command : FileCommand) (stale : StaleStack) : List Byte :=
  match command with
  | .cat => stale.pathBuffer
  | .rm => stale.pathBuffer
  | .cp => stale.copy.src

/-- The line gives the argument to the command.  Behind it there may be more, except for
`cat`, which takes the rest of the line. -/
structure Given (command : FileCommand) (line : CommandLine) (arg : FileArgument)
    (tail : List Byte) : Prop where
  reads : line.Reads (command.word ++ arg.text ++ tail)
  file_ne_nil : arg.file ≠ []
  tail_space : tail = [] ∨ command ≠ .cat ∧ tail.head? = some space
  tail_text : 0 ∉ tail

end FileCommand

variable {command : FileCommand} {arg : FileArgument}

theorem FileCommand.Given.zero_notMem (h : command.Given line arg tail) :
    0 ∉ command.word ++ arg.text ++ tail := by
  intro hmem
  rcases List.mem_append.mp hmem with hmem | hmem
  · rcases List.mem_append.mp hmem with hmem | hmem
    · cases command
      all_goals exact absurd hmem (by decide)
    · exact FileArgument.zero_notMem_text hmem
  · exact h.tail_text hmem

/-- There is an argument. -/
theorem FileCommand.Given.not_noArguments (h : command.Given line arg tail)
    (hn : n + 1 = command.word.length) : ¬ line.NoArguments n := by
  apply h.reads.not_noArguments h.zero_notMem
  have := List.length_pos_iff.mpr h.file_ne_nil
  rw [FileArgument.text, List.length_append, List.length_append, List.length_append]
  omega

theorem FileCommand.Given.arguments (h : command.Given line arg tail) :
    line.arguments command.word.length = .ok (arg.text ++ tail) := by
  rw [h.reads.arguments (by rw [List.append_assoc, List.length_append]; omega), List.append_assoc,
    List.drop_left]

/-! #### cat -/

theorem take_plain {e : List Byte} (hname : name.length ≤ 10) :
    (name ++ dot :: e).take 11 = name ++ dot :: e.take (10 - name.length) := by
  rw [List.take_append, List.take_of_length_le (by omega)]
  obtain ⟨m, hm⟩ : ∃ m, 11 - name.length = m + 1 := ⟨10 - name.length, by omega⟩
  rw [hm, List.take_succ_cons]
  congr 3
  omega

/-- What is behind the last separator. -/
theorem takeWhile_last {c : Byte} {e : List Byte} (he : c ∉ e) :
    ((name ++ c :: e).reverse.takeWhile (· ≠ c)).reverse = e := by
  have hall : ∀ x ∈ e.reverse, decide (x ≠ c) = true := by
    intro x hx
    rw [List.mem_reverse] at hx
    exact decide_eq_true fun h => he (h ▸ hx)
  rw [List.reverse_append, List.reverse_cons, List.append_assoc,
    List.takeWhile_append_of_pos hall, List.singleton_append,
    List.takeWhile_cons_of_neg (by simp), List.append_nil, List.reverse_reverse]

theorem PlainChars.dot_notMem (h : PlainChars name) : dot ∉ name := fun hmem => (h _ hmem).2.1 rfl

theorem PlainChars.take (h : PlainChars name) (n : Nat) : PlainChars (name.take n) :=
  fun c hc => h c (List.mem_of_mem_take hc)

/-- A name without a dot in its first characters. -/
theorem splitDot_plain (h : dot ∉ name.take 11) : splitDot name =
    if (name.take 11).length ≤ 8 then .ok (buffer 8 (name.take 11), 0) else .error .outOfBounds := by
  have hnone : ¬ ((name.take 11).any (· = dot)) = true := by
    intro hany
    obtain ⟨c, hc, hdot⟩ := List.any_eq_true.mp hany
    exact h (of_decide_eq_true hdot ▸ hc)
  rw [splitDot]
  dsimp only
  rw [if_neg hnone]

/-- A name that is split at its last dot. -/
theorem splitDot_dot {e : List Byte} (hsplit : name.take 11 = front ++ dot :: e) (he : dot ∉ e) :
    splitDot name = if front.length ≤ 8 ∧ e.length ≤ 3 then .ok (buffer 8 front, buffer 3 e)
      else .error .outOfBounds := by
  have hsome : ((front ++ dot :: e).any (· = dot)) = true := by simp
  have hfront : (front ++ dot :: e).take ((front ++ dot :: e).length - e.length - 1) = front := by
    have hcount : (front ++ dot :: e).length - e.length - 1 = front.length := by
      rw [List.length_append, List.length_cons]
      omega
    rw [hcount, List.take_left]
  rw [splitDot]
  dsimp only
  rw [hsplit, if_pos hsome, takeWhile_last he, hfront]

/-- `cat` takes the name, and as much of the extension as there is room for in eleven
characters. -/
theorem splitDot_file (hlen : arg.name.length ≤ 8) : splitDot arg.file =
    if (arg.extension.take (10 - arg.name.length)).length ≤ 3 then
      .ok (buffer 8 arg.name, buffer 3 (arg.extension.take (10 - arg.name.length)))
    else .error .outOfBounds := by
  unfold FileArgument.file FileArgument.extension
  cases hext : arg.ext with
  | none =>
      have htake : arg.name.take 11 = arg.name := List.take_of_length_le (by omega)
      have hplain : dot ∉ arg.name.take 11 := (arg.name_text.take 11).dot_notMem
      dsimp only
      rw [splitDot_plain hplain, htake, if_pos hlen, Option.getD_none, List.take_nil]
      rfl
  | some e =>
      have he := ((arg.ext_text e hext).take (10 - arg.name.length)).dot_notMem
      dsimp only
      rw [splitDot_dot (take_plain (by omega)) he, Option.getD_some]
      split_ifs with hboth hshort hshort
      · rfl
      · exact absurd hboth.2 hshort
      · exact absurd ⟨hlen, hshort⟩ hboth
      · rfl

/-- A long name runs out of its array. -/
theorem splitDot_long (hlen : 8 < arg.name.length) :
    splitDot arg.file = .error .outOfBounds := by
  unfold FileArgument.file
  have hplain : dot ∉ arg.name.take 11 := (arg.name_text.take 11).dot_notMem
  cases hext : arg.ext with
  | none =>
      dsimp only
      rw [splitDot_plain hplain, if_neg (by rw [List.length_take]; omega)]
  | some e =>
      dsimp only
      by_cases hten : arg.name.length ≤ 10
      · have he := ((arg.ext_text e hext).take (10 - arg.name.length)).dot_notMem
        rw [splitDot_dot (take_plain hten) he]
        exact if_neg fun hboth => absurd hboth.1 (not_le.mpr hlen)
      · have htake : (arg.name ++ dot :: e).take 11 = arg.name.take 11 :=
          List.take_append_of_le_length (by omega)
        rw [splitDot_plain (htake ▸ hplain), htake, if_neg (by rw [List.length_take]; omega)]

/-- The file of a name in the directory that a path leads to. -/
def Volume.fileAt (v : Volume) (behind path name : List Byte) (place : Place) :
    Except ShellFault (Option FileKey) := do
  let found ← v.leads behind path place
  match found with
  | none => return none
  | some c =>
      let s ← splitDot name
      return some ⟨c, s.1, s.2⟩

/-- `cat` goes to the directory of its argument, and there it splits the rest. -/
theorem catSource_eq (h : FileCommand.cat.Given line arg tail) :
    v.catSource behind line place = v.fileAt behind arg.folder arg.file place := by
  obtain rfl : tail = [] := h.tail_space.resolve_right fun h => h.1 rfl
  have hno : ¬ line.NoArguments 3 := h.not_noArguments rfl
  have hargs : line.arguments 4 = .ok (arg.text ++ []) := h.arguments
  have hreads := h.reads
  rw [List.append_nil] at hargs hreads
  have hslash := arg.file_noSlash
  unfold FileArgument.text FileArgument.dirPart at hargs hreads
  unfold FileArgument.folder
  -- without a slash the name is split as it stands
  cases hdir : arg.dir with
  | none =>
      rw [hdir] at hargs
      change _ = Except.ok arg.file at hargs
      have hnone : ¬ (arg.file.any (· = slash)) = true := by
        intro hany
        obtain ⟨c, hc, hcs⟩ := List.any_eq_true.mp hany
        exact hslash (of_decide_eq_true hcs ▸ hc)
      rw [catSource_here hno hargs hnone, Place.fileKey, Option.getD_none, Volume.fileAt, leads_nil]
      cases splitDot arg.file with
      | error e => rfl
      | ok s => rfl
  | some d =>
      rw [hdir] at hargs hreads
      change _ = Except.ok (d ++ [slash] ++ arg.file) at hargs
      -- with one the path in front of the last slash is walked
      have hsome : ((d ++ [slash] ++ arg.file).any (· = slash)) = true := by simp
      have hpath : line.Reads (FileCommand.cat.word ++ d ++ slash :: arg.file) := by
        simpa using hreads
      have hroom : FileCommand.cat.word.length + d.length + 1 < maxCmdLength := by
        have hfits := hpath.fits
        have hpos := List.length_pos_iff.mpr h.file_ne_nil
        rw [List.length_append, List.length_append, List.length_cons] at hfits
        omega
      have hsplit : line.splitPath 4 = .ok (d, arg.file) := hpath.splitPath_eq hslash hroom
      rw [Volume.catSource, if_neg hno, hargs]
      change ite _ _ _ = _
      rw [if_pos hsome, hsplit, Option.getD_some, Volume.fileAt, Volume.leads]
      change (v.resolve behind d place >>= _) = _
      cases hresolve : v.resolve behind d place with
      | error e => rfl
      | ok r =>
          obtain ⟨ret, moved⟩ := r
          change ite _ _ _ = (Except.ok (ite _ _ _) >>= _)
          by_cases hret : ret = 0
          · rw [if_neg (not_not.mpr hret), if_pos hret, Place.fileKey]
            cases splitDot arg.file with
            | error e => rfl
            | ok s => rfl
          · rw [if_pos hret, if_neg hret]
            rfl

/-! #### rm and cp -/

/-- The file of a name and an extension in the directory that a path leads to; none without
an extension. -/
def Volume.fileIn (v : Volume) (behind path name ext : List Byte) (place : Place) :
    Except ShellFault (Option FileKey) :=
  if ext = [] then .ok none
  else (v.leads behind path place).map fun found =>
    found.map fun c => ⟨c, buffer 8 name, buffer 3 ext⟩

/-- The directory of a word: `rm` drops the slash behind it, and `cp` keeps it. -/
def FileCommand.pathOf (command : FileCommand) (src : List Byte) : List Byte :=
  if command = .rm then src.take (nameStart src src.length - 1) else directoryOf src

/-- The file that is asked for, as `rm` and `cp` find it in what the line says. -/
def FileCommand.scan (command : FileCommand) (v : Volume) (behind buf : List Byte)
    (place : Place) : Except ShellFault (Option FileKey) :=
  v.fileIn behind (command.pathOf (copyWord buf).1)
    (fileName (copyWord buf).1) (copyExt ((copyWord buf).2.drop 1)) place

theorem length_copyExt (l : List Byte) : (copyExt l).length ≤ l.length := by
  rw [copyExt]
  exact le_trans (List.takeWhile_prefix _).length_le (List.length_take_le' _ _)

/-- A line is short enough for `rm`. -/
theorem parseRemove_eq {buf : List Byte} (hlen : buf.length ≤ 125) : parseRemove buf =
    if copyExt ((copyWord buf).2.drop 1) = [] then .ok none
    else .ok (some ((copyWord buf).1.take (nameStart (copyWord buf).1 (copyWord buf).1.length - 1),
      buffer 8 (fileName (copyWord buf).1), buffer 3 (copyExt ((copyWord buf).2.drop 1)))) := by
  have := length_copyWord buf
  rw [parseRemove]
  dsimp only
  rw [if_neg (by unfold maxCmdLength; omega)]

/-- It is short enough for `cp`. -/
theorem parseCopy_ok {buf : List Byte} (hlen : buf.length ≤ 125) :
    (copyExt ((copyWord buf).2.drop 1) = [] ∧ parseCopy buf = .ok none) ∨
      (copyExt ((copyWord buf).2.drop 1) ≠ [] ∧ ∃ args, parseCopy buf = .ok (some args)) := by
  have hword := length_copyWord buf
  have hext := length_copyExt ((copyWord buf).2.drop 1)
  rw [parseCopy]
  dsimp only
  rw [if_neg (by unfold maxCmdLength; omega)]
  by_cases hnone : copyExt ((copyWord buf).2.drop 1) = []
  · rw [if_pos hnone]
    exact .inl ⟨hnone, rfl⟩
  · rw [if_neg hnone]
    have hpos := List.length_pos_iff.mpr hnone
    have hdest := length_copyWord
      ((copyWord buf).2.drop (1 + (copyExt ((copyWord buf).2.drop 1)).length + 1))
    rw [List.length_drop] at hext hdest
    rw [if_neg (by unfold maxCmdLength; omega)]
    exact .inr ⟨hnone, _, rfl⟩

/-- A path that was resolved, and the file behind it. -/
theorem resolve_file {path : List Byte} {name : EntryName} {ext : EntryExt} :
    (v.resolve behind path place >>= fun r =>
      Except.ok (if r.1 = 0 then some (FileKey.mk r.2.workingDirectory name ext) else none)) =
      (v.leads behind path place).map fun found => found.map fun c => ⟨c, name, ext⟩ := by
  rw [Volume.leads]
  cases v.resolve behind path place with
  | error e => rfl
  | ok r =>
      obtain ⟨ret, moved⟩ := r
      show Except.ok (ite _ _ _) = Except.ok (Option.map _ (ite _ _ _))
      by_cases hret : ret = 0
      · rw [if_pos hret, if_pos hret]
        rfl
      · rw [if_neg hret, if_neg hret]
        rfl

theorem FileCommand.Given.length_le (h : command.Given line arg tail) (hcat : command ≠ .cat) :
    (arg.text ++ tail).length ≤ 125 := by
  have hword : command.word.length = 3 := by
    cases command with
    | cat => exact absurd rfl hcat
    | rm => rfl
    | cp => rfl
  have hfits := h.reads.fits
  rw [List.append_assoc, List.length_append, hword] at hfits
  unfold maxCmdLength at hfits
  omega

theorem removeTarget_eq (h : FileCommand.rm.Given line arg tail) :
    v.removeTarget stale.pathBuffer line place =
      FileCommand.rm.scan v stale.pathBuffer (arg.text ++ tail) place := by
  have hno : ¬ line.NoArguments 2 := h.not_noArguments rfl
  have hargs : line.arguments 3 = .ok (arg.text ++ tail) := h.arguments
  rw [Volume.removeTarget, CommandLine.removeArgs, if_neg hno, hargs]
  change (parseRemove (arg.text ++ tail) >>= _) = _
  rw [parseRemove_eq (h.length_le (by decide)), FileCommand.scan, Volume.fileIn, FileCommand.pathOf,
    if_pos rfl]
  by_cases hnone : copyExt ((copyWord (arg.text ++ tail)).2.drop 1) = []
  · rw [if_pos hnone, if_pos hnone]
    rfl
  · rw [if_neg hnone, if_neg hnone, ← resolve_file]
    rfl

theorem moveSource_eq (h : FileCommand.cp.Given line arg tail) :
    v.moveSource stale.copy line place =
      FileCommand.cp.scan v stale.copy.src (arg.text ++ tail) place := by
  have hno : ¬ line.NoArguments 2 := h.not_noArguments rfl
  have hargs : line.arguments 3 = .ok (arg.text ++ tail) := h.arguments
  rw [Volume.moveSource, CommandLine.moveArgs, if_neg hno, hargs]
  change (parseCopy (arg.text ++ tail) >>= _) = _
  have hpath : FileCommand.cp.pathOf (copyWord (arg.text ++ tail)).1 =
      directoryOf (copyWord (arg.text ++ tail)).1 := if_neg (by decide)
  rw [FileCommand.scan, Volume.fileIn, hpath]
  rcases parseCopy_ok (h.length_le (by decide)) with ⟨hnone, hparse⟩ | ⟨hsome, args, hparse⟩
  · rw [hparse, if_pos hnone]
    rfl
  · obtain ⟨-, -, hsrc, hname, hext⟩ := parseCopy_eq_some hparse
    rw [hparse, if_neg hsome, ← resolve_file, ← hsrc, ← hname, ← hext]
    rfl

/-! #### The word of an argument -/

/-- What is read as the extension of an argument without stops: its own, or else the next
argument. -/
def FileArgument.extRead (arg : FileArgument) (tail : List Byte) : List Byte :=
  match arg.ext with
  | none => copyExt (tail.drop 1)
  | some e => e.take 3

theorem copyExt_plain {e : List Byte} (he : PlainChars e)
    (htail : tail = [] ∨ tail.head? = some space) : copyExt (e ++ tail) = e.take 3 := by
  have hall : ∀ c ∈ e.take 3, decide (c ≠ space ∧ c ≠ 0) = true := by
    intro c hc
    obtain ⟨hzero, -, -, hspace⟩ := he.take 3 c hc
    exact decide_eq_true ⟨hspace, hzero⟩
  have hstop : (tail.take (3 - e.length)).takeWhile (fun c => c ≠ space ∧ c ≠ 0) = [] := by
    rcases htail with rfl | htail
    · rw [List.take_nil]
      rfl
    · obtain ⟨more, rfl⟩ := List.head?_eq_some_iff.mp htail
      cases 3 - e.length with
      | zero => rfl
      | succ m => rw [List.take_succ_cons, List.takeWhile_cons_of_neg (by decide)]
  rw [copyExt, List.take_append, List.takeWhile_append_of_pos hall, hstop, List.append_nil]

/-- The loop copies the name, and it stops at the dot or behind the argument. -/
theorem copyWord_file (arg : FileArgument) (htail : tail = [] ∨ tail.head? = some space) :
    (copyWord (arg.file ++ tail)).1 = arg.name ∧
      copyExt ((copyWord (arg.file ++ tail)).2.drop 1) = arg.extRead tail := by
  unfold FileArgument.file FileArgument.extRead
  cases hext : arg.ext with
  | none =>
      have hstop : copyWord tail = ([], tail) := by
        rcases htail with rfl | htail
        · rfl
        · obtain ⟨more, rfl⟩ := List.head?_eq_some_iff.mp htail
          exact copyWord_space
      dsimp only
      rw [copyWord_plain arg.name_text, hstop, List.append_nil]
      exact ⟨rfl, rfl⟩
  | some e =>
      have he := arg.ext_text e hext
      have hhead : (e ++ tail).head? ≠ some dot := by
        intro hdot
        cases e with
        | nil =>
            rcases htail with rfl | htail
            · cases hdot
            · rw [List.nil_append, htail] at hdot
              exact absurd (Option.some.inj hdot) (by decide)
        | cons c e => exact (he c List.mem_cons_self).2.1 (Option.some.inj hdot)
      dsimp only
      rw [List.append_assoc, List.cons_append, copyWord_plain arg.name_text, copyWord_dot hhead,
        List.append_nil]
      exact ⟨rfl, copyExt_plain he htail⟩

end Binbows
