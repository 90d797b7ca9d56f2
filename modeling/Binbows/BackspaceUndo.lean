/-
Binbows/BackspaceUndo.lean

A backspace behind a character.

`putchar` writes to the frame buffer, which starts with the 25 rows of 80 cells of the
screen.  A backspace takes the cursor one column back and blanks the cell there; at the start
of a row it takes the cursor to column 80 of the row above and blanks nothing.  That column
is where the cursor stands behind a full row: the row wraps at column 81, so one more
character goes to the first cell of the next row before the cursor does.

Main result: over all text that `putchar` prints after `keyboard_state_activate`, a backspace
undoes a character exactly where the cursor is not in column 80, or the character is a space
and the row not the last (`backspace_undoes_iff`).
-/
import Binbows.TextOutput

namespace Binbows

open Bytes KeyboardDriverState

/-! ### The frame buffer -/

/-- The colours of a cell. -/
def FramebufferWrite.colors (w : FramebufferWrite) : Byte := (w.bg &&& 0x0F) <<< 4 ||| (w.fg &&& 0x0F)

/-- `framebuffer_write`. -/
def FramebufferWrite.apply (w : FramebufferWrite) (memory : Nat → Byte) : Nat → Byte :=
  Function.update (Function.update memory w.offset w.c) (w.offset + 1) w.colors

/-- The frame buffer after some writes. -/
def drawn (memory : Nat → Byte) (writes : List FramebufferWrite) : Nat → Byte :=
  writes.foldl (fun memory w => w.apply memory) memory

/-- The bytes of the frame buffer that are on the screen. -/
abbrev screenSize : Nat := 4000

variable {k : KeyboardDriverState} {memory : Nat → Byte} {w w' : FramebufferWrite}
  {c color color' : Byte} {offset : Nat}

@[simp] theorem drawn_nil : drawn memory [] = memory := rfl

@[simp] theorem drawn_cons (ws : List FramebufferWrite) :
    drawn memory (w :: ws) = drawn (w.apply memory) ws := rfl

theorem FramebufferWrite.apply_offset : w.apply memory w.offset = w.c := by
  rw [apply, Function.update_of_ne (by omega), Function.update_self]

theorem FramebufferWrite.apply_of_ne (h : offset ≠ w.offset) (h' : offset ≠ w.offset + 1) :
    w.apply memory offset = memory offset := by
  rw [apply, Function.update_of_ne h', Function.update_of_ne h]

/-! ### Texts -/

/-- The steps that print a text. -/
def typed (text : List (Byte × Byte)) : List TextStep := text.map fun p => .putchar p.1 p.2

/-- The cursor is on the screen or right behind the end of a row. -/
structure KeyboardDriverState.InRows (k : KeyboardDriverState) : Prop where
  row : k.cursorRow ≤ 24
  column : k.cursorColumn ≤ 80

/-- Behind a full row the cursor goes to the start of the next one. -/
theorem putchar_full (hb : c ≠ backspace) (hn : c ≠ newline) (hcol : k.cursorColumn = 80) :
    k.putchar c color = ({ k with cursorRow := (k.cursorRow + 1) % 25, cursorColumn := 0 },
      [⟨k.cursorRow, k.cursorColumn, c, color, 0x0⟩]) := by
  rw [putchar, if_neg hb]
  simp only [if_pos hn, hcol]
  rw [if_pos (.inr (by decide))]

/-- One character keeps the cursor there. -/
theorem KeyboardDriverState.InRows.putchar (h : k.InRows) (c color : Byte) :
    (k.putchar c color).1.InRows := by
  obtain ⟨hrow, hcol⟩ := h
  have hwrap : (k.cursorRow + 1) % 25 ≤ 24 := by
    have hlt : (k.cursorRow + 1) % 25 < 25 := BitVec.umod_lt _ (by decide)
    bv_omega
  by_cases hb : c = backspace
  · rw [KeyboardDriverState.putchar, if_pos hb]
    split_ifs with h0 hr
    · exact ⟨hrow, show k.cursorColumn - 1 ≤ 80 by bv_omega⟩
    · exact ⟨show k.cursorRow - 1 ≤ 24 by bv_omega, show (80 : Byte) ≤ 80 by decide⟩
    · exact ⟨hrow, hcol⟩
  · by_cases hn : c = newline
    · rw [hn, putchar_newline]
      exact ⟨hwrap, show (0 : Byte) ≤ 80 by decide⟩
    · by_cases hfull : k.cursorColumn = 80
      · rw [putchar_full hb hn hfull]
        exact ⟨hwrap, show (0 : Byte) ≤ 80 by decide⟩
      · rw [putchar_char hb hn hfull]
        exact ⟨hrow, show k.cursorColumn + 1 ≤ 80 by bv_omega⟩

/-- And so does every text. -/
theorem KeyboardDriverState.InRows.after (h : k.InRows) (text : List (Byte × Byte)) :
    (Binbows.after k (typed text)).InRows := by
  induction text generalizing k with
  | nil => exact h
  | cons p text ih => exact ih (h.putchar p.1 p.2)

theorem keyboardStateActivate_inRows : k.keyboardStateActivate.InRows :=
  ⟨show (0 : Byte) ≤ 24 by decide, show (0 : Byte) ≤ 80 by decide⟩

/-! ### A character and a backspace -/

/-- The driver after a character and a backspace. -/
def erased (k : KeyboardDriverState) (c color color' : Byte) : KeyboardDriverState :=
  ((k.putchar c color).1.putchar backspace color').1

/-- The frame buffer after a character and a backspace. -/
def erasedScreen (k : KeyboardDriverState) (memory : Nat → Byte) (c color color' : Byte) :
    Nat → Byte :=
  drawn memory ((k.putchar c color).2 ++ ((k.putchar c color).1.putchar backspace color').2)

/-- The byte of the frame buffer where the next character goes. -/
def KeyboardDriverState.cell (k : KeyboardDriverState) : Nat :=
  160 * k.cursorRow.toNat + 2 * k.cursorColumn.toNat

/-- The backspace undoes the character: the cursor is where it was, and of the screen only
the cell of the character changes, which is blank then. -/
structure BackspaceUndoes (k : KeyboardDriverState) (memory : Nat → Byte) (c color color' : Byte) :
    Prop where
  cursorRow : (erased k c color color').cursorRow = k.cursorRow
  cursorColumn : (erased k c color color').cursorColumn = k.cursorColumn
  others : ∀ offset < screenSize, offset ≠ k.cell → offset ≠ k.cell + 1 →
    erasedScreen k memory c color color' offset = memory offset
  blank : erasedScreen k memory c color color' k.cell = ascii ' '

/-- Inside of a row the two cells are the same. -/
theorem backspaceUndoes_of_ne (hk : k.InRows) (hb : c ≠ backspace) (hn : c ≠ newline)
    (hcol : k.cursorColumn ≠ 80) : BackspaceUndoes k memory c color color' := by
  have hback : k.cursorColumn + 1 - 1 = k.cursorColumn := by bv_omega
  have hpos : 0 < k.cursorColumn + 1 := by
    have := hk.column
    bv_omega
  have hputs : k.putchar c color = ({ k with cursorColumn := k.cursorColumn + 1 },
      [⟨k.cursorRow, k.cursorColumn, c, color, 0x0⟩]) := putchar_char hb hn hcol
  have herase : (k.putchar c color).1.putchar backspace color' =
      (k, [⟨k.cursorRow, k.cursorColumn, ascii ' ', 0xF, 0x0⟩]) := by
    rw [hputs, KeyboardDriverState.putchar, if_pos rfl, if_pos hpos]
    simp only [hback]
  have hscreen : erasedScreen k memory c color color' =
      FramebufferWrite.apply ⟨k.cursorRow, k.cursorColumn, ascii ' ', 0xF, 0x0⟩
        (FramebufferWrite.apply ⟨k.cursorRow, k.cursorColumn, c, color, 0x0⟩ memory) := by
    rw [erasedScreen, herase, hputs]
    rfl
  refine ⟨by rw [erased, herase], by rw [erased, herase], fun offset _ hne hne' => ?_, ?_⟩
  · rw [hscreen, FramebufferWrite.apply_of_ne hne hne', FramebufferWrite.apply_of_ne hne hne']
  · rw [hscreen]
    exact FramebufferWrite.apply_offset

/-- The row below another one. -/
theorem nextRow {row : Byte} (h : row ≤ 24) (hne : row ≠ 24) :
    0 < row + 1 ∧ (row + 1) % 25 = row + 1 := by
  have hlt : row + 1 < 25 := by bv_omega
  exact ⟨by bv_omega, BitVec.umod_eq_of_lt hlt⟩

/-- Behind a full row the character goes to the next row, and the backspace blanks nothing. -/
theorem backspaceUndoes_full_iff (hk : k.InRows) (hb : c ≠ backspace) (hn : c ≠ newline)
    (hcol : k.cursorColumn = 80) :
    BackspaceUndoes k memory c color color' ↔ c = ascii ' ' ∧ k.cursorRow ≠ 24 := by
  have hputs : k.putchar c color = ({ k with cursorRow := (k.cursorRow + 1) % 25, cursorColumn := 0 },
      [⟨k.cursorRow, k.cursorColumn, c, color, 0x0⟩]) := putchar_full hb hn hcol
  have hcell : k.cell = FramebufferWrite.offset ⟨k.cursorRow, k.cursorColumn, c, color, 0x0⟩ := rfl
  by_cases hlast : k.cursorRow = 24
  · -- the cursor goes to the first cell of the screen and stays there
    refine iff_of_false (fun h => ?_) (fun h => h.2 hlast)
    have hcolumn := h.cursorColumn
    rw [erased, hputs, hlast, hcol] at hcolumn
    exact absurd hcolumn (by simp [KeyboardDriverState.putchar])
  · obtain ⟨hpos, hnext⟩ := nextRow hk.row hlast
    have hback : k.cursorRow + 1 - 1 = k.cursorRow := by bv_omega
    have herase : (k.putchar c color).1.putchar backspace color' = (k, []) := by
      rw [hputs, KeyboardDriverState.putchar, if_pos rfl]
      simp only [hnext]
      rw [if_neg (by decide), if_pos hpos, hback, ← hcol]
    have hscreen : erasedScreen k memory c color color' =
        FramebufferWrite.apply ⟨k.cursorRow, k.cursorColumn, c, color, 0x0⟩ memory := by
      rw [erasedScreen, herase, hputs]
      rfl
    constructor
    · intro h
      refine ⟨?_, hlast⟩
      rw [← h.blank, hscreen, hcell, FramebufferWrite.apply_offset]
    · rintro ⟨hc, -⟩
      refine ⟨by rw [erased, herase], by rw [erased, herase], fun offset _ hne hne' => ?_, ?_⟩
      · rw [hscreen, FramebufferWrite.apply_of_ne hne hne']
      · rw [hscreen, hcell, FramebufferWrite.apply_offset, hc]

/-- **When a backspace undoes a character**, after any text. -/
theorem backspace_undoes_iff (k : KeyboardDriverState) (memory : Nat → Byte)
    (text : List (Byte × Byte)) (c color color' : Byte) (hb : c ≠ backspace) (hn : c ≠ newline) :
    BackspaceUndoes (after k.keyboardStateActivate (typed text))
        (drawn memory (issued k.keyboardStateActivate (typed text))) c color color' ↔
      (after k.keyboardStateActivate (typed text)).cursorColumn ≠ 80 ∨
        (c = ascii ' ' ∧ (after k.keyboardStateActivate (typed text)).cursorRow ≠ 24) := by
  have hrows := (keyboardStateActivate_inRows (k := k)).after text
  by_cases hcol : (after k.keyboardStateActivate (typed text)).cursorColumn = 80
  · rw [backspaceUndoes_full_iff hrows hb hn hcol, or_iff_right (not_not.mpr hcol)]
  · exact iff_of_true (backspaceUndoes_of_ne hrows hb hn hcol) (.inl hcol)

/-- A prompt of two characters, and a third. -/
theorem backspace_undoes_prompt :
    BackspaceUndoes (after idleKeyboard.keyboardStateActivate (typed [(ascii '$', 7), (ascii ' ', 7)]))
        (drawn (fun _ => 0)
          (issued idleKeyboard.keyboardStateActivate (typed [(ascii '$', 7), (ascii ' ', 7)])))
        (ascii 'x') 0xF 0xF ↔
      (after idleKeyboard.keyboardStateActivate
          (typed [(ascii '$', 7), (ascii ' ', 7)])).cursorColumn ≠ 80 ∨
        (ascii 'x' = ascii ' ' ∧ (after idleKeyboard.keyboardStateActivate
          (typed [(ascii '$', 7), (ascii ' ', 7)])).cursorRow ≠ 24) :=
  backspace_undoes_iff idleKeyboard _ _ _ _ _ (by decide) (by decide)

/-- Behind a full first row: the letter stays where it was put. -/
theorem backspace_not_undoes :
    ¬ BackspaceUndoes
      (after idleKeyboard.keyboardStateActivate (typed (List.replicate 80 (ascii 'a', 0xF))))
      (drawn (fun _ => 0)
        (issued idleKeyboard.keyboardStateActivate (typed (List.replicate 80 (ascii 'a', 0xF)))))
      (ascii 'x') 0xF 0xF := by
  have hrows := (keyboardStateActivate_inRows (k := idleKeyboard)).after
    (List.replicate 80 (ascii 'a', 0xF))
  have hcol : (after idleKeyboard.keyboardStateActivate
      (typed (List.replicate 80 (ascii 'a', 0xF)))).cursorColumn = 80 := by decide +kernel
  intro h
  exact absurd ((backspaceUndoes_full_iff hrows (by decide) (by decide) hcol).mp h).1 (by decide)

end Binbows
