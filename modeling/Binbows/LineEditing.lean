/-
Binbows/LineEditing.lean

The input loop of the shell: from key presses to a command line.

A key press goes through `keyboard_isr` into the one-character buffer of the
driver, and from there through the loop of `main` into `cmd_buffer`.  What the
commands do is a parameter here: none of them writes `cmd_buffer` or
`cur_cmd_length`, and all that they do to the driver is text output.

The line that one expects is a list of characters (`applyKey`).  The loop clears
`cmd_buffer[cur_cmd_length]` before it decrements the length, so a deleted
character stays in the buffer, behind the end of the line, and the driver drops a
backspace when the cursor is not right of the prompt.  Either way a backspace on a
line that is not empty goes wrong, and so does character 128
(`Terminal.Ready.not_careful`).

Main result: `line_edited_iff`.
-/
import Binbows.Strings
import Binbows.TextOutput

namespace Binbows

open Bytes KeyboardDriverState

/-- `MAX_CMD_LENGTH`. -/
abbrev maxCmdLength : Nat := 128

/-- `cmd_buffer` and `cur_cmd_length`. -/
structure CommandLine where
  cmdBuffer : Fin maxCmdLength → Byte
  curCmdLength : Byte

/-- `cmd_buffer[i] = c`, with no result outside of the buffer. -/
def CommandLine.store (line : CommandLine) (i : Nat) (c : Byte) : Option CommandLine :=
  if h : i < maxCmdLength then
    some { line with cmdBuffer := Function.update line.cmdBuffer ⟨i, h⟩ c }
  else none

/-- The shell and the driver, with the rest of the world that a command acts on. -/
structure Terminal (World : Type*) where
  line : CommandLine
  currentPath : Fin maxCmdLength → Byte
  keyboard : KeyboardDriverState
  world : World

/-- A command reads the line and acts on the path and the world; it gives its
text output, or nothing if it does not return. -/
abbrev Command (World : Type*) :=
  CommandLine → (Fin maxCmdLength → Byte) → World →
    Option (List TextCall × (Fin maxCmdLength → Byte) × World)

namespace Terminal

variable {World : Type*}

/-- Text output of the shell. -/
def print (calls : List TextCall) (t : Terminal World) : Terminal World :=
  { t with keyboard := calls.foldl (fun k call => (call.run k).1) t.keyboard }

/-- A string constant as an array of characters. -/
def text (chars : List Char) (i : Nat) : Byte := (chars.map ascii).getD i 0

/-- A buffer as an array of characters. -/
def chars {n : Nat} (buffer : Fin n → Byte) (i : Nat) : Byte :=
  if h : i < n then buffer ⟨i, h⟩ else 0

/-- `template_print`. -/
def templatePrint (t : Terminal World) : Terminal World :=
  let length := strlen t.currentPath
  let t' := t.print [
    .puts (text ['B', 'i', 'n', 'b', 'o', 'w', 's', '@', 'I', 'F', '-', '2', '2', '3', '0']) 15 0xB,
    .puts (text [':']) 1 0x7,
    .puts (chars t.currentPath) (BitVec.ofNat 8 length) 0xD,
    .puts (text ['$']) 1 0x7,
    .puts (text [' ']) 1 0xF]
  { t' with keyboard := t'.keyboard.changeKeyboardTemplateLength (BitVec.ofNat 8 (length + 18)) }

/-- `execute`, with the dispatch on the command as a parameter. -/
def execute (command : Command World) (t : Terminal World) : Option (Terminal World) :=
  match command t.line t.currentPath t.world with
  | none => none
  | some (output, currentPath, world) =>
      some (print (output ++ [.putchar newline 0xF])
        { t with
          line := { cmdBuffer := fun _ => 0, curCmdLength := 0 }
          currentPath := currentPath
          world := world })

/-- `usual`. -/
def usual (buf : Byte) (t : Terminal World) : Option (Terminal World) :=
  if t.line.curCmdLength.toNat ≥ maxCmdLength then some t
  else
    (t.line.store t.line.curCmdLength.toNat buf).map fun line =>
      print [.putchar buf 0xF]
        { t with line := { line with curCmdLength := line.curCmdLength + 1 } }

/-- The body of the loop of `main`, for the character that it got. -/
def handleChar (command : Command World) (buf : Byte) (t : Terminal World) :
    Option (Terminal World) :=
  if buf = 0 then some t
  else if buf = newline then ((t.print [.putchar buf 0]).execute command).map templatePrint
  else if buf = backspace then
    if 0 < t.line.curCmdLength then
      (t.line.store t.line.curCmdLength.toNat 0).map fun line =>
        print [.putchar buf 0]
          { t with line := { line with curCmdLength := line.curCmdLength - 1 } }
    else some t
  else t.usual buf

/-- One round of the loop of `main`. -/
def mainLoop (command : Command World) (t : Terminal World) : Option (Terminal World) :=
  { t with keyboard := t.keyboard.getKeyboardBuffer.2 }.handleChar command
    t.keyboard.getKeyboardBuffer.1

/-- A key press that `keyboard_isr` handles and the loop of `main` consumes. -/
def keyPress (command : Command World) (t : Terminal World) (scancode : Byte) :
    Option (Terminal World) :=
  { t with keyboard := t.keyboard.keyboardIsr scancode }.mainLoop command

end Terminal

/-! ### The line that one expects -/

/-- An ordinary line after a key: a newline ends it, a backspace takes its last
character away, and another character goes to its end while there is room for it
and for the terminating NUL. -/
def applyKey (line : List Byte) (scancode : Byte) : List Byte :=
  let key := keyboardScancode1ToAsciiMap scancode
  if key = 0 then line
  else if key = newline then []
  else if key = backspace then line.dropLast
  else if line.length < 127 then line ++ [key]
  else line

/-- The command line holds the characters of `l`, and NULs from there on. -/
structure CommandLine.Holds (line : CommandLine) (l : List Byte) : Prop where
  bound : line.curCmdLength ≤ 127
  length : line.curCmdLength.toNat = l.length
  buffer : ∀ i : Fin maxCmdLength, line.cmdBuffer i = l.getD i 0
  strlen : Binbows.strlen line.cmdBuffer = line.curCmdLength.toNat

/-- The command line holds what one expects before and after every key. -/
def Edits {World : Type*} (command : Command World) (t : Terminal World) (l : List Byte) :
    List Byte → Prop
  | [] => t.line.Holds l
  | scancode :: keys => t.line.Holds l ∧
      ∀ t' ∈ t.keyPress command scancode, Edits command t' (applyKey l scancode) keys

/-- No backspace on a line that is not empty, and no character on a full one. -/
def CommandLine.Careful (line : CommandLine) (scancode : Byte) : Prop :=
  (keyboardScancode1ToAsciiMap scancode = backspace → line.curCmdLength = 0) ∧
    (keyboardScancode1ToAsciiMap scancode ∉ [0, newline, backspace] →
      line.curCmdLength < 127)

instance {line : CommandLine} {scancode : Byte} : Decidable (line.Careful scancode) :=
  instDecidableAnd

/-- Every key is careful where it is pressed. -/
def CarefulKeys {World : Type*} (command : Command World) (t : Terminal World) :
    List Byte → Prop
  | [] => True
  | scancode :: keys => t.line.Careful scancode ∧
      ∀ t' ∈ t.keyPress command scancode, CarefulKeys command t' keys

variable {World : Type*} {command : Command World} {t t' : Terminal World} {line : CommandLine}
  {l keys : List Byte} {scancode c : Byte} {k : KeyboardDriverState}

/-! ### The driver waits for a key -/

/-- The driver takes input, and its buffer is empty. -/
def KeyboardDriverState.Awaiting (k : KeyboardDriverState) : Prop :=
  k.keyboardInputOn = true ∧ k.keyboardBuffer = 0

theorem putchar_awaiting {color : Byte} (h : k.Awaiting) : (k.putchar c color).1.Awaiting := by
  simp only [putchar]
  split_ifs
  all_goals exact h

theorem changeKeyboardTemplateLength_awaiting {x : Byte} (h : k.Awaiting) :
    (k.changeKeyboardTemplateLength x).Awaiting := h

theorem after_awaiting {ss : List TextStep} (h : k.Awaiting) : (after k ss).Awaiting := by
  induction ss generalizing k with
  | nil => exact h
  | cons s ss ih =>
      apply ih
      cases s with
      | putchar c color => exact putchar_awaiting h
      | clearScreen => exact h
      | writeClock jam menit detik => exact h

theorem Terminal.print_awaiting {calls : List TextCall} (h : t.keyboard.Awaiting) :
    (t.print calls).keyboard.Awaiting := by
  show (calls.foldl (fun k call => (call.run k).1) t.keyboard).Awaiting
  induction calls using List.reverseRecOn with
  | nil => exact h
  | append_singleton calls call ih =>
      rw [List.foldl_append, List.foldl_cons, List.foldl_nil, TextCall.run_eq]
      exact after_awaiting ih

theorem Terminal.templatePrint_awaiting (h : t.keyboard.Awaiting) :
    t.templatePrint.keyboard.Awaiting :=
  changeKeyboardTemplateLength_awaiting (print_awaiting h)

theorem Terminal.templatePrint_line : t.templatePrint.line = t.line := by
  simp only [templatePrint, print]

/-- The character that the loop of `main` gets for a key. -/
def delivered (k : KeyboardDriverState) (key : Byte) : Byte :=
  if key = backspace ∧ ¬ k.templateLength < k.cursorColumn then 0 else key

theorem keyboardIsr_eq (h : k.Awaiting) : k.keyboardIsr scancode =
    { k with keyboardBuffer := delivered k (keyboardScancode1ToAsciiMap scancode) } := by
  obtain ⟨row, column, on, buffer, length⟩ := k
  obtain ⟨rfl, rfl⟩ : on = true ∧ buffer = 0 := h
  unfold keyboardIsr delivered
  generalize keyboardScancode1ToAsciiMap scancode = key
  by_cases hnone : key = 0
  · simp [hnone]
  by_cases hback : key = backspace
  · by_cases hright : length < column
    · simp [hback, hright]
      exact fun h => h.symm
    · simp [hback, hright]
  · simp [hback]
    exact fun h => h.symm

/-- The key goes through the buffer of the driver and leaves it empty. -/
theorem Terminal.keyPress_eq (h : t.keyboard.Awaiting) :
    t.keyPress command scancode =
      t.handleChar command (delivered t.keyboard (keyboardScancode1ToAsciiMap scancode)) := by
  have hflush : ∀ key, ({ t.keyboard with keyboardBuffer := key }).getKeyboardBuffer =
      (key, t.keyboard) := by
    intro key
    rw [getKeyboardBuffer, ← h.2]
  rw [keyPress, mainLoop, keyboardIsr_eq h]
  simp only [hflush]

/-! ### One key -/

theorem CommandLine.store_eq (i : Fin maxCmdLength) :
    line.store i.val c = some { line with cmdBuffer := Function.update line.cmdBuffer i c } := by
  rw [store, dif_pos i.isLt]

theorem Terminal.keyPress_none (h : t.keyboard.Awaiting)
    (hkey : delivered t.keyboard (keyboardScancode1ToAsciiMap scancode) = 0) :
    t.keyPress command scancode = some t := by
  rw [keyPress_eq h, hkey, handleChar, if_pos rfl]

theorem Terminal.keyPress_newline (h : t.keyboard.Awaiting)
    (hkey : keyboardScancode1ToAsciiMap scancode = newline)
    (ht' : t' ∈ t.keyPress command scancode) :
    t'.keyboard.Awaiting ∧ t'.line = ⟨fun _ => 0, 0⟩ := by
  have hdel : delivered t.keyboard newline = newline := if_neg fun h => absurd h.1 (by decide)
  rw [keyPress_eq h, hkey, hdel, handleChar, if_neg (by decide), if_pos rfl, Option.mem_def,
    Option.map_eq_some_iff] at ht'
  obtain ⟨t₁, ht₁, rfl⟩ := ht'
  rw [execute] at ht₁
  split at ht₁
  · cases ht₁
  · obtain rfl := Option.some.inj ht₁
    exact ⟨templatePrint_awaiting (print_awaiting (print_awaiting (t := t) h)), rfl⟩

theorem Terminal.keyPress_backspace (command : Command World) (h : t.keyboard.Awaiting)
    (hkey : keyboardScancode1ToAsciiMap scancode = backspace)
    (hlen : t.line.curCmdLength.toNat < 128) :
    ∃ t', t.keyPress command scancode = some t' ∧ t'.keyboard.Awaiting ∧
      (t'.line = t.line ∨ 0 < t.line.curCmdLength ∧
        t'.line = ⟨Function.update t.line.cmdBuffer ⟨_, hlen⟩ 0, t.line.curCmdLength - 1⟩) := by
  by_cases hright : t.keyboard.templateLength < t.keyboard.cursorColumn
  · have hdel : delivered t.keyboard backspace = backspace := if_neg fun h => h.2 hright
    rw [keyPress_eq h, hkey, hdel, handleChar, if_neg (by decide), if_neg (by decide), if_pos rfl]
    split_ifs with hpos
    · rw [CommandLine.store_eq ⟨_, hlen⟩]
      exact ⟨_, rfl, print_awaiting (t := t) h, .inr ⟨hpos, rfl⟩⟩
    · exact ⟨t, rfl, h, .inl rfl⟩
  · have hdel : delivered t.keyboard backspace = 0 := if_pos ⟨rfl, hright⟩
    exact ⟨t, keyPress_none h (hkey ▸ hdel), h, .inl rfl⟩

theorem Terminal.keyPress_char (command : Command World) (h : t.keyboard.Awaiting)
    (hkey : keyboardScancode1ToAsciiMap scancode ∉ [0, newline, backspace])
    (hlen : t.line.curCmdLength.toNat < 128) :
    ∃ t', t.keyPress command scancode = some t' ∧ t'.keyboard.Awaiting ∧
      t'.line = ⟨Function.update t.line.cmdBuffer ⟨_, hlen⟩ (keyboardScancode1ToAsciiMap scancode),
        t.line.curCmdLength + 1⟩ := by
  simp only [List.mem_cons, List.not_mem_nil, or_false, not_or] at hkey
  obtain ⟨hnone, hnew, hback⟩ := hkey
  have hdel : delivered t.keyboard (keyboardScancode1ToAsciiMap scancode) =
      keyboardScancode1ToAsciiMap scancode := if_neg fun h => hback h.1
  rw [keyPress_eq h, hdel, handleChar, if_neg hnone, if_neg hnew, if_neg hback, usual,
    if_neg (not_le.mpr hlen), CommandLine.store_eq ⟨_, hlen⟩]
  exact ⟨_, rfl, print_awaiting (t := t) h, rfl⟩

/-! ### What the line holds -/

/-- A line without NULs that the buffer holds is what `strlen` finds. -/
theorem CommandLine.Holds.of_buffer (hlen : line.curCmdLength.toNat = l.length)
    (hbound : l.length < 128) (hbuf : ∀ i, line.cmdBuffer i = l.getD i 0)
    (hl : 0 ∉ l) : line.Holds l where
  bound := by bv_omega
  length := hlen
  buffer := hbuf
  strlen := by
    have hstr : Binbows.strlen line.cmdBuffer = (⟨l.length, hbound⟩ : Fin maxCmdLength) := by
      apply strlen_eq
      · intro i hi hzero
        have hi : i.val < l.length := hi
        rw [hbuf, List.getD_eq_getElem?_getD, List.getElem?_eq_getElem hi] at hzero
        exact hl (hzero ▸ List.getElem_mem hi)
      · rw [hbuf]
        simp
    rw [hstr, hlen]

theorem CommandLine.Holds.length_lt (h : line.Holds l) : l.length < 128 := by
  have hbound := h.bound
  have hlen := h.length
  bv_omega

theorem CommandLine.holds_nil : (⟨fun _ => 0, 0⟩ : CommandLine).Holds [] :=
  .of_buffer rfl (by decide) (fun _ => rfl) List.not_mem_nil

/-- A character goes to the end of the line. -/
theorem CommandLine.Holds.append (h : line.Holds l) (hl : 0 ∉ l) (hc : c ≠ 0)
    (hroom : l.length < 127) (hlen : line.curCmdLength.toNat < 128) :
    (⟨Function.update line.cmdBuffer ⟨_, hlen⟩ c, line.curCmdLength + 1⟩ : CommandLine).Holds
      (l ++ [c]) := by
  have hlength := h.length
  have hmem : 0 ∉ l ++ [c] := by
    rw [List.mem_append, List.mem_singleton, not_or]
    exact ⟨hl, hc.symm⟩
  refine .of_buffer ?_ ?_ (fun i => ?_) hmem
  · rw [List.length_append, List.length_singleton, ← hlength]
    show (line.curCmdLength + 1).toNat = _
    bv_omega
  · rw [List.length_append, List.length_singleton]
    omega
  · show Function.update line.cmdBuffer ⟨_, hlen⟩ c i = _
    by_cases hi : i = ⟨_, hlen⟩
    · subst hi
      simp [hlength]
    · have hval : i.val ≠ l.length := fun hval => hi (Fin.ext (hval.trans hlength.symm))
      rw [Function.update_of_ne hi, h.buffer]
      rcases lt_or_gt_of_ne hval with hlt | hgt
      · simp [List.getElem?_append_left hlt]
      · have hend : l.length + 1 ≤ i.val := hgt
        have hlong : (l ++ [c]).length ≤ i.val := by simpa using hend
        rw [List.getD_eq_getElem?_getD, List.getD_eq_getElem?_getD,
          List.getElem?_eq_none hgt.le, List.getElem?_eq_none hlong]

/-- A character that the loop has deleted stays behind the end of the line. -/
theorem CommandLine.Holds.not_dropLast (h : line.Holds l) (hl : 0 ∉ l)
    (hpos : 0 < line.curCmdLength) {hlen : line.curCmdLength.toNat < 128} :
    ¬ (⟨Function.update line.cmdBuffer ⟨_, hlen⟩ 0, line.curCmdLength - 1⟩ : CommandLine).Holds
      l.dropLast := by
  intro h'
  have hlength := h.length
  obtain ⟨i, hi⟩ : ∃ i : Fin maxCmdLength, i.val = l.length - 1 :=
    ⟨⟨l.length - 1, show _ < 128 by omega⟩, rfl⟩
  have hlast : i.val < l.length := by bv_omega
  have hne : i ≠ ⟨_, hlen⟩ := by
    intro heq
    have hval : i.val = line.curCmdLength.toNat := Fin.ext_iff.mp heq
    omega
  have hbuf : Function.update line.cmdBuffer ⟨_, hlen⟩ 0 i = l.dropLast.getD i 0 := h'.buffer i
  rw [Function.update_of_ne hne, h.buffer, List.getD_eq_getElem?_getD,
    List.getD_eq_getElem?_getD, List.getElem?_eq_getElem hlast,
    List.getElem?_eq_none (by rw [List.length_dropLast, hi])] at hbuf
  have hzero : l[i.val] = 0 := hbuf
  exact hl (hzero ▸ List.getElem_mem hlast)

/-! ### The run -/

theorem applyKey_none (hkey : keyboardScancode1ToAsciiMap scancode = 0) :
    applyKey l scancode = l := if_pos hkey

theorem applyKey_newline (hkey : keyboardScancode1ToAsciiMap scancode = newline) :
    applyKey l scancode = [] := by
  rw [applyKey]
  simp only [hkey]
  rfl

theorem applyKey_backspace (hkey : keyboardScancode1ToAsciiMap scancode = backspace) :
    applyKey l scancode = l.dropLast := by
  rw [applyKey]
  simp only [hkey]
  rfl

theorem applyKey_char (hkey : keyboardScancode1ToAsciiMap scancode ∉ [0, newline, backspace]) :
    applyKey l scancode =
      if l.length < 127 then l ++ [keyboardScancode1ToAsciiMap scancode] else l := by
  simp only [List.mem_cons, List.not_mem_nil, or_false, not_or] at hkey
  obtain ⟨hnone, hnew, hback⟩ := hkey
  rw [applyKey]
  simp only [if_neg hnone, if_neg hnew, if_neg hback]

/-- The driver waits, and the buffer holds the line that one expects. -/
structure Terminal.Ready (t : Terminal World) (l : List Byte) : Prop where
  awaiting : t.keyboard.Awaiting
  holds : t.line.Holds l
  noNul : 0 ∉ l

/-- A careful key does to the buffer what one expects of it. -/
theorem Terminal.Ready.careful (h : t.Ready l) (hcareful : t.line.Careful scancode)
    (ht' : t' ∈ t.keyPress command scancode) : t'.Ready (applyKey l scancode) := by
  have hlen : t.line.curCmdLength.toNat < 128 := h.holds.length ▸ h.holds.length_lt
  -- by what the key is: nothing, enter, backspace, a character
  by_cases hnone : keyboardScancode1ToAsciiMap scancode = 0
  · have hdel : delivered t.keyboard (keyboardScancode1ToAsciiMap scancode) = 0 := by
      rw [delivered, hnone, ite_self]
    rw [keyPress_none h.awaiting hdel, Option.mem_def, Option.some.injEq] at ht'
    rw [applyKey_none hnone, ← ht']
    exact h
  by_cases hnew : keyboardScancode1ToAsciiMap scancode = newline
  · obtain ⟨hawait, hline⟩ := keyPress_newline h.awaiting hnew ht'
    rw [applyKey_newline hnew]
    exact ⟨hawait, hline ▸ CommandLine.holds_nil, List.not_mem_nil⟩
  by_cases hback : keyboardScancode1ToAsciiMap scancode = backspace
  · have hzero := hcareful.1 hback
    -- a careful backspace finds the line empty
    obtain ⟨t₁, ht₁, hawait, hline | ⟨hpos, -⟩⟩ :=
      keyPress_backspace command h.awaiting hback hlen
    · rw [ht₁, Option.mem_def, Option.some.injEq] at ht'
      obtain rfl : l = [] := by
        rw [← List.length_eq_zero_iff, ← h.holds.length, hzero]
        rfl
      rw [applyKey_backspace hback, ← ht']
      exact ⟨hawait, hline ▸ h.holds, List.not_mem_nil⟩
    · rw [hzero] at hpos
      exact absurd hpos (by decide)
  · have hkey : keyboardScancode1ToAsciiMap scancode ∉ [0, newline, backspace] := by
      simp [hnew, hback]
      exact hnone
    -- a careful character finds room in the line
    have hroom : l.length < 127 := by
      have hlt := hcareful.2 hkey
      rw [← h.holds.length]
      bv_omega
    obtain ⟨t₁, ht₁, hawait, hline⟩ := keyPress_char command h.awaiting hkey hlen
    rw [ht₁, Option.mem_def, Option.some.injEq] at ht'
    rw [applyKey_char hkey, if_pos hroom, ← ht']
    refine ⟨hawait, hline ▸ h.holds.append h.noNul hnone hroom hlen, ?_⟩
    rw [List.mem_append, List.mem_singleton, not_or]
    exact ⟨h.noNul, fun h0 => hnone h0.symm⟩

/-- A key that is not careful is handled, and what comes out is wrong. -/
theorem Terminal.Ready.not_careful (command : Command World) (h : t.Ready l)
    (hcareful : ¬ t.line.Careful scancode) :
    ∃ t' ∈ t.keyPress command scancode, ¬ t'.line.Holds (applyKey l scancode) := by
  have hlen : t.line.curCmdLength.toNat < 128 := h.holds.length ▸ h.holds.length_lt
  rcases not_and_or.mp hcareful with hback | hchar
  · -- a backspace on a line that is not empty
    obtain ⟨hback, hzero⟩ := Classical.not_imp.mp hback
    have hpos : 0 < t.line.curCmdLength := by bv_omega
    obtain ⟨t', ht', -, hline | ⟨-, hline⟩⟩ :=
      keyPress_backspace command h.awaiting hback hlen
    · refine ⟨t', ht', fun h' => ?_⟩
      have hlength := h'.length
      rw [applyKey_backspace hback, hline, h.holds.length, List.length_dropLast,
        ← h.holds.length] at hlength
      bv_omega
    · refine ⟨t', ht', ?_⟩
      rw [applyKey_backspace hback, hline]
      exact h.holds.not_dropLast h.noNul hpos
  · -- a character on a full line
    obtain ⟨hkey, hfull⟩ := Classical.not_imp.mp hchar
    obtain ⟨t', ht', -, hline⟩ := keyPress_char command h.awaiting hkey hlen
    refine ⟨t', ht', fun h' => ?_⟩
    have hbound := h'.bound
    rw [hline] at hbound
    have hbound : t.line.curCmdLength + 1 ≤ 127 := hbound
    bv_omega

theorem Edits.holds (h : Edits command t l keys) : t.line.Holds l := by
  cases keys with
  | nil => exact h
  | cons scancode keys => exact h.1

theorem Terminal.Ready.edits_iff (h : t.Ready l) :
    Edits command t l keys ↔ CarefulKeys command t keys := by
  induction keys generalizing t l with
  | nil => exact iff_of_true h.holds trivial
  | cons scancode keys ih =>
      constructor
      · rintro ⟨-, hrest⟩
        by_cases hcareful : t.line.Careful scancode
        · exact ⟨hcareful, fun t' ht' => (ih (h.careful hcareful ht')).mp (hrest t' ht')⟩
        · obtain ⟨t', ht', hwrong⟩ := h.not_careful command hcareful
          exact absurd (hrest t' ht').holds hwrong
      · rintro ⟨hcareful, hrest⟩
        exact ⟨h.holds, fun t' ht' => (ih (h.careful hcareful ht')).mpr (hrest t' ht')⟩

/-- **Line editing is exact as long as no backspace is pressed on a line that is
not empty and no character on a line of 127 characters, and no longer.**  From a
fresh prompt, for all commands and all keys. -/
theorem line_edited_iff (command : Command World) (t : Terminal World) (keys : List Byte)
    (hline : t.line = ⟨fun _ => 0, 0⟩) (hon : t.keyboard.keyboardInputOn = true)
    (hbuf : t.keyboard.keyboardBuffer = 0) :
    Edits command t.templatePrint [] keys ↔ CarefulKeys command t.templatePrint keys := by
  have hready : t.templatePrint.Ready [] :=
    { awaiting := Terminal.templatePrint_awaiting ⟨hon, hbuf⟩
      holds := by
        rw [Terminal.templatePrint_line, hline]
        exact CommandLine.holds_nil
      noNul := List.not_mem_nil }
  exact hready.edits_iff

/-- The scancodes of `l`, `s`, newline and backspace. -/
def lKey : Byte := 0x26
def sKey : Byte := 0x1F
def enterKey : Byte := 0x1C
def backspaceKey : Byte := 0x0E

/-- The shell as `main` starts it, before the prompt. -/
def startedTerminal : Terminal Unit :=
  { line := ⟨fun _ => 0, 0⟩
    currentPath := fun i => Terminal.text ['r', 'o', 'o', 't', '/'] i
    keyboard := idleKeyboard.keyboardStateActivate
    world := () }

/-- A command that answers with a line of text. -/
def answer : Command Unit := fun _ currentPath world =>
  some ([.puts (Terminal.text ['o', 'k']) 2 0xF], currentPath, world)

instance decidableCarefulKeys : (t : Terminal World) → (keys : List Byte) →
    Decidable (CarefulKeys command t keys)
  | _, [] => inferInstanceAs (Decidable True)
  | t, scancode :: keys =>
      have : DecidablePred fun t' => CarefulKeys command t' keys :=
        fun t' => decidableCarefulKeys t' keys
      inferInstanceAs (Decidable (t.line.Careful scancode ∧
        ∀ t' ∈ t.keyPress command scancode, CarefulKeys command t' keys))

/-- The command `ls`, and the first letter of the next one. -/
theorem line_edited_ls :
    Edits answer startedTerminal.templatePrint [] [lKey, sKey, enterKey, lKey] :=
  (line_edited_iff answer startedTerminal _ rfl rfl rfl).mpr (by decide +kernel)

/-- The letter `l`, deleted: it is still in the buffer. -/
theorem line_not_edited :
    ¬ Edits answer startedTerminal.templatePrint [] [lKey, backspaceKey] := by
  intro h
  have hstale : ((startedTerminal.templatePrint.keyPress answer lKey).bind
      fun t => (t.keyPress answer backspaceKey).map fun t' => t'.line.cmdBuffer 0) =
        some (ascii 'l') := by decide +kernel
  obtain ⟨t₁, h₁, hstale⟩ := Option.bind_eq_some_iff.mp hstale
  obtain ⟨t₂, h₂, hstale⟩ := Option.map_eq_some_iff.mp hstale
  have hbuf := ((h.2 t₁ h₁).2 t₂ h₂).holds.buffer 0
  rw [hstale] at hbuf
  exact absurd hbuf (by decide)

end Binbows
