/-
Binbows/Keyboard.lean

The keyboard and text driver of `Keyboard/keyboard.c` over `framebuffer.c`.

The driver state is the cursor, the one-character keyboard buffer and the
length of the shell's prompt.  A text function gives the new driver state and
the list of its calls of `framebuffer_write`, in order; the hardware cursor
that `framebuffer_set_cursor` moves is not modelled.
-/
import Binbows.Library.Bytes
import Mathlib.Data.List.Basic

namespace Binbows

open Bytes

/-- A character constant. -/
def ascii (c : Char) : Byte := BitVec.ofNat 8 c.toNat

/-- `struct KeyboardDriverState`, but for `read_extended_mode`, which nothing uses. -/
structure KeyboardDriverState where
  cursorRow : Byte
  cursorColumn : Byte
  keyboardInputOn : Bool
  keyboardBuffer : Byte
  templateLength : Byte
deriving DecidableEq

/-! ### The frame buffer -/

/-- One call of `framebuffer_write`. -/
structure FramebufferWrite where
  row : Byte
  col : Byte
  c : Byte
  fg : Byte
  bg : Byte
deriving DecidableEq

/-- The byte of the frame buffer that gets the character; the next one gets the colours. -/
def FramebufferWrite.offset (w : FramebufferWrite) : Nat := 160 * w.row.toNat + 2 * w.col.toNat

/-- `framebuffer_clear`. -/
def framebufferClear : List FramebufferWrite :=
  (List.range 25).flatMap fun i => (List.range 80).map fun j =>
    ⟨BitVec.ofNat 8 i, BitVec.ofNat 8 j, 0x00, 0x07, 0x00⟩

/-! ### Key presses -/

/-- `keyboard_scancode_1_to_ascii_map`. -/
def keyboardScancode1ToAsciiMap (scancode : Byte) : Byte :=
  let nul := Char.ofNat 0
  let table : List Char := [
    nul, Char.ofNat 0x1B, '1', '2', '3', '4', '5', '6', '7', '8', '9', '0', '-', '=',
      Char.ofNat 0x08, '\t',
    'q', 'w', 'e', 'r', 't', 'y', 'u', 'i', 'o', 'p', '[', ']', '\n', nul, 'a', 's',
    'd', 'f', 'g', 'h', 'j', 'k', 'l', ';', Char.ofNat 0x27, Char.ofNat 0x60, nul, '\\',
      'z', 'x', 'c', 'v',
    'b', 'n', 'm', ',', '.', '/', nul, '*', nul, ' ', nul, nul, nul, nul, nul, nul,
    nul, nul, nul, nul, nul, nul, nul, nul, nul, nul, '-', nul, nul, nul, '+']
  ascii (table.getD scancode.toNat nul)

/-- The backspace key. -/
def backspace : Byte := 0x08

/-- The newline key. -/
def newline : Byte := ascii '\n'

namespace KeyboardDriverState

/-- `keyboard_isr`, for the scancode that it reads. -/
def keyboardIsr (scancode : Byte) (k : KeyboardDriverState) : KeyboardDriverState :=
  if ¬ k.keyboardInputOn then k
  else
    let key := keyboardScancode1ToAsciiMap scancode
    if key = 0 then k
    else if key = backspace then
      -- a deletion would reach into the prompt
      if k.templateLength < k.cursorColumn then { k with keyboardBuffer := key } else k
    else { k with keyboardBuffer := key }

/-- `keyboard_state_activate`. -/
def keyboardStateActivate (_k : KeyboardDriverState) : KeyboardDriverState :=
  { keyboardInputOn := true, cursorColumn := 0, cursorRow := 0, keyboardBuffer := 0,
    templateLength := 0 }

/-- `get_keyboard_buffer`: the character, and the driver with its buffer flushed. -/
def getKeyboardBuffer (k : KeyboardDriverState) : Byte × KeyboardDriverState :=
  (k.keyboardBuffer, { k with keyboardBuffer := 0 })

/-- `change_keyboard_template_length`. -/
def changeKeyboardTemplateLength (x : Byte) (k : KeyboardDriverState) : KeyboardDriverState :=
  { k with templateLength := x }

/-! ### Text output -/

/-- `putchar`. -/
def putchar (c color : Byte) (k : KeyboardDriverState) :
    KeyboardDriverState × List FramebufferWrite :=
  if c = backspace then
    if 0 < k.cursorColumn then
      ({ k with cursorColumn := k.cursorColumn - 1 },
        [⟨k.cursorRow, k.cursorColumn - 1, ascii ' ', 0xF, 0x0⟩])
    else if 0 < k.cursorRow then
      ({ k with cursorRow := k.cursorRow - 1, cursorColumn := 80 }, [])
    else (k, [])
  else
    let column := if c ≠ newline then k.cursorColumn + 1 else k.cursorColumn
    let writes := if c ≠ newline then [⟨k.cursorRow, k.cursorColumn, c, color, 0x0⟩] else []
    if c = newline ∨ column = 81 then
      ({ k with cursorRow := (k.cursorRow + 1) % 25, cursorColumn := 0 }, writes)
    else ({ k with cursorColumn := column }, writes)

/-- The loop of `puts` over the indices that are left. -/
def putsLoop (charp : Nat → Byte) (color : Byte) :
    List Nat → KeyboardDriverState → KeyboardDriverState × List FramebufferWrite
  | [], k => (k, [])
  | i :: is, k =>
      if charp i = 0 then (k, [])
      else
        let (k', writes) := putchar (charp i) color k
        let (k'', writes') := putsLoop charp color is k'
        (k'', writes ++ writes')

/-- `puts`. -/
def puts (charp : Nat → Byte) (charcnt color : Byte) (k : KeyboardDriverState) :
    KeyboardDriverState × List FramebufferWrite :=
  putsLoop charp color (List.range charcnt.toNat) k

/-- `clear_screen`. -/
def clearScreen (k : KeyboardDriverState) : KeyboardDriverState × List FramebufferWrite :=
  ({ k with cursorColumn := 0, cursorRow := -1 }, framebufferClear)

end KeyboardDriverState

/-! ### The clock -/

/-- `intToChar`. -/
def intToChar (digit : Nat) : Byte :=
  ascii (['0', '1', '2', '3', '4', '5', '6', '7', '8', '9'].getD digit (Char.ofNat 0))

/-- The first loop of `printDigits`: the power of ten of the leading digit. -/
def printDivisor (temp divisor : Nat) : Nat :=
  if temp > 9 then printDivisor (temp / 10) (divisor * 10) else divisor

/-- The second loop of `printDigits`. -/
def printLoop (number : Byte) (divisor : Nat) (colPrint : Byte) : List FramebufferWrite :=
  if divisor > 0 then
    let digit := number.toNat / divisor
    ⟨24, colPrint, intToChar digit, 0xA, 0⟩ ::
      printLoop (BitVec.ofNat 8 (number.toNat % divisor)) (divisor / 10) (colPrint + 1)
  else []
termination_by divisor

/-- `printDigits`. -/
def printDigits (number colPrint : Byte) : List FramebufferWrite :=
  if number ≠ 0 then
    let divisor := printDivisor number.toNat 1
    if number > 9 then printLoop number divisor colPrint
    else [⟨24, colPrint, intToChar number.toNat, 0xA, 0⟩, ⟨24, colPrint + 1, ascii ' ', 0xA, 0⟩]
  else [⟨24, colPrint, intToChar 0, 0xA, 0⟩, ⟨24, colPrint + 1, ascii ' ', 0xA, 0⟩]

/-- One field of the clock: two digits, the first of them `0` where the number has one. -/
def writeField (number colPrint : Byte) : List FramebufferWrite :=
  if number ≤ 9 then
    ⟨24, colPrint, ascii '0', 0xA, 0⟩ :: printDigits number (colPrint + 1)
  else printDigits number colPrint

/-- `writeClock`. -/
def writeClock (jam menit detik : Byte) : List FramebufferWrite :=
  writeField jam 72 ++ ⟨24, 74, ascii ':', 0xA, 0⟩ :: writeField menit 75 ++
    ⟨24, 77, ascii ':', 0xA, 0⟩ :: writeField detik 78

end Binbows
