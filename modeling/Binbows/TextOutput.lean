/-
Binbows/TextOutput.lean

Where text output goes on the screen.

The screen has 25 rows of 80 columns, and text output is a sequence of steps:
`puts` is a loop of `putchar`.  The driver wraps the cursor at column 81 instead
of 80, backs it up to column 80 at the start of a row, leaves it in row -1 after
a clear, and blanks the column behind a second of one digit.  Each of these leaves
the screen, and nothing else does (`TextStep.careful_iff`).

Main result: `text_on_screen_iff`.
-/
import Binbows.Keyboard
import Mathlib.Tactic.SplitIfs

namespace Binbows

open Bytes KeyboardDriverState

/-- A call of a text output function. -/
inductive TextCall
  | putchar (c color : Byte)
  | puts (charp : Nat → Byte) (charcnt color : Byte)
  | clearScreen
  | writeClock (jam menit detik : Byte)

/-- A call that is no loop over another. -/
inductive TextStep
  | putchar (c color : Byte)
  | clearScreen
  | writeClock (jam menit detik : Byte)

variable {k : KeyboardDriverState} {s : TextStep} {ss : List TextStep}

/-! ### Calls and steps -/

/-- What a call does. -/
def TextCall.run (k : KeyboardDriverState) : TextCall → KeyboardDriverState × List FramebufferWrite
  | .putchar c color => k.putchar c color
  | .puts charp charcnt color => k.puts charp charcnt color
  | .clearScreen => k.clearScreen
  | .writeClock jam menit detik => (k, Binbows.writeClock jam menit detik)

/-- What a step does. -/
def TextStep.run (k : KeyboardDriverState) : TextStep → KeyboardDriverState × List FramebufferWrite
  | .putchar c color => k.putchar c color
  | .clearScreen => k.clearScreen
  | .writeClock jam menit detik => (k, Binbows.writeClock jam menit detik)

/-- The driver after some steps. -/
def after (k : KeyboardDriverState) (ss : List TextStep) : KeyboardDriverState :=
  ss.foldl (fun k s => (s.run k).1) k

/-- The writes of some steps, in order. -/
def issued (k : KeyboardDriverState) : List TextStep → List FramebufferWrite
  | [] => []
  | s :: ss => (s.run k).2 ++ issued (s.run k).1 ss

/-- The characters that `puts` gets to: up to the first NUL. -/
def putsChars (charp : Nat → Byte) (is : List Nat) : List Byte :=
  (is.map charp).takeWhile (· ≠ 0)

/-- The steps of a call. -/
def TextCall.steps : TextCall → List TextStep
  | .putchar c color => [.putchar c color]
  | .puts charp charcnt color =>
      (putsChars charp (List.range charcnt.toNat)).map (.putchar · color)
  | .clearScreen => [.clearScreen]
  | .writeClock jam menit detik => [.writeClock jam menit detik]

@[simp] theorem after_nil : after k [] = k := rfl

@[simp] theorem after_cons : after k (s :: ss) = after (s.run k).1 ss := rfl

@[simp] theorem issued_nil : issued k [] = [] := rfl

@[simp] theorem issued_cons :
    issued k (s :: ss) = (s.run k).2 ++ issued (s.run k).1 ss := rfl

theorem putsLoop_eq (charp : Nat → Byte) (color : Byte) (is : List Nat) :
    putsLoop charp color is k =
      (after k ((putsChars charp is).map (.putchar · color)),
        issued k ((putsChars charp is).map (.putchar · color))) := by
  induction is generalizing k with
  | nil => rfl
  | cons i is ih =>
      rw [putsLoop]
      by_cases h : charp i = 0
      · have hnil : putsChars charp (i :: is) = [] := by simp [putsChars, h]
        rw [if_pos h, hnil]
        rfl
      · have hcons : putsChars charp (i :: is) = charp i :: putsChars charp is := by
          rw [putsChars, List.map_cons, List.takeWhile_cons_of_pos (by simpa using h)]
          rfl
        rw [if_neg h, hcons]
        show ((putsLoop charp color is (putchar (charp i) color k).1).1,
          (putchar (charp i) color k).2 ++
            (putsLoop charp color is (putchar (charp i) color k).1).2) = _
        rw [ih]
        rfl

/-- A call does what its steps do, one after the other. -/
theorem TextCall.run_eq (call : TextCall) :
    call.run k = (after k call.steps, issued k call.steps) := by
  cases call with
  | puts charp charcnt color => exact putsLoop_eq charp color _
  | putchar c color => simp [run, steps, TextStep.run]
  | clearScreen => simp [run, steps, TextStep.run]
  | writeClock jam menit detik => simp [run, steps, TextStep.run]

/-! ### On the screen -/

/-- The target of a write is on the screen. -/
def FramebufferWrite.OnScreen (w : FramebufferWrite) : Prop := w.row < 25 ∧ w.col < 80

/-- The cursor is on the screen. -/
def KeyboardDriverState.OnScreen (k : KeyboardDriverState) : Prop :=
  k.cursorRow < 25 ∧ k.cursorColumn < 80

/-- A step with which a text may go on: no backspace, no newline and no clear. -/
def TextStep.Forward : TextStep → Prop
  | .putchar c _ => c ≠ backspace ∧ c ≠ newline
  | .clearScreen => False
  | .writeClock .. => True

/-- The writes of the characters of a text, without those of the clock. -/
def printed (k : KeyboardDriverState) : List TextStep → List FramebufferWrite
  | [] => []
  | .putchar c color :: ss => (k.putchar c color).2 ++ printed (k.putchar c color).1 ss
  | s :: ss => printed (s.run k).1 ss

/-- Some steps stay on the screen: every write does, the cursor does all the
time, and no fewer than 2000 characters overwrite one another. -/
structure StaysOnScreen (k : KeyboardDriverState) (ss : List TextStep) : Prop where
  writes : ∀ w ∈ issued k ss, w.OnScreen
  cursor : ∀ pre, pre <+: ss → (after k pre).OnScreen
  apart : ∀ pre text post, ss = pre ++ text ++ post → (∀ s ∈ text, s.Forward) →
    (printed (after k pre) text).length < 2000 →
    ((printed (after k pre) text).map FramebufferWrite.offset).Nodup

/-- The cursor is where a step needs it, and the step is none that always
leaves the screen. -/
def TextStep.Careful (k : KeyboardDriverState) : TextStep → Prop
  | .putchar c _ =>
      if c = backspace then ¬ (k.cursorColumn = 0 ∧ 0 < k.cursorRow)
      else c = newline ∨ k.cursorColumn ≠ 79
  | .clearScreen => False
  | .writeClock _ _ detik => 10 ≤ detik

instance : Decidable (s.Careful k) :=
  match s with
  | .putchar c _ =>
      inferInstanceAs (Decidable (if c = backspace then ¬ (k.cursorColumn = 0 ∧ 0 < k.cursorRow)
        else c = newline ∨ k.cursorColumn ≠ 79))
  | .clearScreen => inferInstanceAs (Decidable False)
  | .writeClock _ _ detik => inferInstanceAs (Decidable (10 ≤ detik))

/-- Every step is careful where it is taken. -/
def CarefulSteps (k : KeyboardDriverState) : List TextStep → Prop
  | [] => True
  | s :: ss => s.Careful k ∧ CarefulSteps (s.run k).1 ss

instance decidableCarefulSteps : (k : KeyboardDriverState) → (ss : List TextStep) →
    Decidable (CarefulSteps k ss)
  | _, [] => inferInstanceAs (Decidable True)
  | k, s :: ss => @instDecidableAnd _ _ _ (decidableCarefulSteps (s.run k).1 ss)

/-- A time of day. -/
def TextStep.ValidClock : TextStep → Prop
  | .writeClock jam menit detik => jam < 24 ∧ menit < 60 ∧ detik < 60
  | _ => True

/-! ### The clock -/

variable {number col jam menit detik c color : Byte}

theorem printDigits_onScreen_iff (hnum : number < 100) :
    (∀ w ∈ printDigits number col, w.OnScreen) ↔ col < 80 ∧ col + 1 < 80 := by
  have hlong : number > 9 → printDivisor number.toNat 1 = 10 := by
    intro h
    rw [printDivisor, if_pos (by bv_omega), printDivisor, if_neg (by bv_omega)]
  rw [printDigits]
  split_ifs with h0 h9
  · -- two digits: the divisors are 10 and 1
    dsimp only
    rw [hlong h9, printLoop, printLoop, printLoop]
    simp [FramebufferWrite.OnScreen]
  · simp [FramebufferWrite.OnScreen]
  · simp [FramebufferWrite.OnScreen]

theorem writeField_onScreen_iff (hnum : number < 100) (hcol : col < 79) :
    (∀ w ∈ writeField number col, w.OnScreen) ↔ 10 ≤ number ∨ col < 78 := by
  rw [writeField]
  split_ifs with h
  · rw [List.forall_mem_cons, printDigits_onScreen_iff hnum]
    simp only [FramebufferWrite.OnScreen]
    bv_omega
  · rw [printDigits_onScreen_iff hnum]
    bv_omega

/-- The hour and the minute fit, but the blank behind a second of one digit
goes to column 80. -/
theorem writeClock_onScreen_iff (hjam : jam < 24) (hmenit : menit < 60) (hdetik : detik < 60) :
    (∀ w ∈ writeClock jam menit detik, w.OnScreen) ↔ 10 ≤ detik := by
  have hhour : ∀ w ∈ writeField jam 72, w.OnScreen :=
    (writeField_onScreen_iff (by bv_omega) (by decide)).mpr (.inr (by decide))
  have hminute : ∀ w ∈ writeField menit 75, w.OnScreen :=
    (writeField_onScreen_iff (by bv_omega) (by decide)).mpr (.inr (by decide))
  have hsecond : (∀ w ∈ writeField detik 78, w.OnScreen) ↔ 10 ≤ detik := by
    rw [writeField_onScreen_iff (by bv_omega) (by decide)]
    simp
  rw [← hsecond, writeClock]
  simp only [List.forall_mem_append, List.forall_mem_cons]
  constructor
  · rintro ⟨-, -, h⟩
    exact h
  · intro h
    exact ⟨⟨hhour, ⟨by decide, by decide⟩, hminute⟩, ⟨by decide, by decide⟩, h⟩

/-! ### One step -/

theorem putchar_newline : k.putchar newline color =
    ({ k with cursorRow := (k.cursorRow + 1) % 25, cursorColumn := 0 }, []) := by
  have hb : newline ≠ backspace := by decide
  simp [putchar, hb]

theorem putchar_char (hb : c ≠ backspace) (hn : c ≠ newline) (hcol : k.cursorColumn ≠ 80) :
    k.putchar c color = ({ k with cursorColumn := k.cursorColumn + 1 },
      [⟨k.cursorRow, k.cursorColumn, c, color, 0x0⟩]) := by
  have h81 : k.cursorColumn + 1 ≠ 81 := by bv_omega
  simp only [putchar, if_neg hb, if_pos hn, if_neg (not_or.mpr ⟨hn, h81⟩)]

theorem putchar_careful_iff (hk : k.OnScreen) :
    (TextStep.putchar c color).Careful k ↔
      (∀ w ∈ (k.putchar c color).2, w.OnScreen) ∧ (k.putchar c color).1.OnScreen := by
  obtain ⟨hrow, hcol⟩ := hk
  rw [TextStep.Careful]
  by_cases hb : c = backspace
  · rw [if_pos hb, putchar, if_pos hb]
    split_ifs with h0 hr
    · -- the cursor goes one column back
      have hback : k.cursorColumn - 1 < 80 := by bv_omega
      apply iff_of_true
      · rintro ⟨heq, -⟩
        rw [heq] at h0
        exact absurd h0 (by decide)
      · exact ⟨List.forall_mem_singleton.mpr ⟨hrow, hback⟩, hrow, hback⟩
    · -- at the start of a row it goes to column 80
      apply iff_of_false
      · exact fun h => h ⟨by bv_omega, hr⟩
      · exact fun h => absurd h.2.2 (show ¬ (80 : Byte) < 80 by decide)
    · exact iff_of_true (fun h => hr h.2) ⟨by simp, hrow, hcol⟩
  · rw [if_neg hb]
    by_cases hn : c = newline
    · have hwrap : (k.cursorRow + 1) % 25 < 25 := BitVec.umod_lt _ (by decide)
      rw [hn, putchar_newline]
      exact iff_of_true (.inl rfl) ⟨by simp, hwrap, show (0 : Byte) < 80 by decide⟩
    · have hnext : k.cursorColumn + 1 < 80 ↔ k.cursorColumn ≠ 79 := by bv_omega
      rw [putchar_char hb hn (by bv_omega), or_iff_right hn, ← hnext, List.forall_mem_singleton]
      constructor
      · exact fun h => ⟨⟨hrow, hcol⟩, hrow, h⟩
      · exact fun h => h.2.2

/-- **A step keeps the cursor and its writes on the screen exactly if it is
careful.** -/
theorem TextStep.careful_iff (hk : k.OnScreen) (hs : s.ValidClock) :
    s.Careful k ↔ (∀ w ∈ (s.run k).2, w.OnScreen) ∧ (s.run k).1.OnScreen := by
  cases s with
  | putchar c color => exact putchar_careful_iff hk
  | clearScreen =>
      -- the row is -1
      have hrow : ¬ (-1 : Byte) < 25 := by decide
      exact iff_of_false id fun h => hrow h.2.1
  | writeClock jam menit detik =>
      obtain ⟨hjam, hmenit, hdetik⟩ := hs
      rw [Careful, run, writeClock_onScreen_iff hjam hmenit hdetik, and_iff_left hk]

/-! ### All steps -/

/-- The part of `StaysOnScreen` that looks at one step at a time. -/
theorem carefulSteps_iff (hk : k.OnScreen) (hss : ∀ s ∈ ss, s.ValidClock) :
    CarefulSteps k ss ↔
      (∀ w ∈ issued k ss, w.OnScreen) ∧ ∀ pre, pre <+: ss → (after k pre).OnScreen := by
  induction ss generalizing k with
  | nil => simp [CarefulSteps, hk]
  | cons s ss ih =>
      obtain ⟨hs, hss⟩ := List.forall_mem_cons.mp hss
      rw [CarefulSteps, TextStep.careful_iff hk hs]
      constructor
      · rintro ⟨⟨hw, hk'⟩, hrest⟩
        obtain ⟨hws, hpre⟩ := (ih hk' hss).mp hrest
        refine ⟨List.forall_mem_append.mpr ⟨hw, hws⟩, fun pre h => ?_⟩
        rcases List.prefix_cons_iff.mp h with rfl | ⟨t, rfl, ht⟩
        · exact hk
        · exact hpre t ht
      · rintro ⟨hws, hpre⟩
        obtain ⟨hw, hws⟩ := List.forall_mem_append.mp hws
        have hk' : (s.run k).1.OnScreen := hpre [s] (by simp)
        refine ⟨⟨hw, hk'⟩, (ih hk' hss).mpr ⟨hws, fun pre h => ?_⟩⟩
        exact hpre (s :: pre) (List.prefix_cons_inj s |>.mpr h)

theorem carefulSteps_append (ss' : List TextStep) :
    CarefulSteps k (ss ++ ss') ↔ CarefulSteps k ss ∧ CarefulSteps (after k ss) ss' := by
  induction ss generalizing k with
  | nil => simp [CarefulSteps]
  | cons s ss ih => simp [CarefulSteps, ih, and_assoc]

/-- Careful characters go from left to right along one row. -/
theorem printed_increasing (hk : k.OnScreen) (hcareful : CarefulSteps k ss)
    (hforward : ∀ s ∈ ss, s.Forward) :
    ((printed k ss).map FramebufferWrite.offset).Pairwise (· < ·) ∧
      ∀ w ∈ printed k ss, 160 * k.cursorRow.toNat + 2 * k.cursorColumn.toNat ≤ w.offset := by
  -- by the steps: what is printed next lies behind what has been printed
  induction ss generalizing k with
  | nil => simp [printed]
  | cons s ss ih =>
      obtain ⟨hs, hrest⟩ := hcareful
      obtain ⟨hf, hfs⟩ := List.forall_mem_cons.mp hforward
      cases s with
      | clearScreen => exact hs.elim
      | writeClock jam menit detik => exact ih hk hrest hfs
      | putchar c color =>
          obtain ⟨hb, hn⟩ := hf
          obtain ⟨hrow, hcol⟩ := hk
          -- in the last column the text would wrap
          have h79 : k.cursorColumn ≠ 79 := by
            rw [TextStep.Careful, if_neg hb] at hs
            exact hs.resolve_left hn
          have hput : k.putchar c color = ({ k with cursorColumn := k.cursorColumn + 1 },
              [⟨k.cursorRow, k.cursorColumn, c, color, 0x0⟩]) :=
            putchar_char hb hn (by bv_omega)
          have hcol' : k.cursorColumn + 1 < 80 := by bv_omega
          have hnext : (k.cursorColumn + 1).toNat = k.cursorColumn.toNat + 1 := by bv_omega
          rw [TextStep.run, hput] at hrest
          obtain ⟨hlt, hbound⟩ := ih (k := { k with cursorColumn := k.cursorColumn + 1 })
            ⟨hrow, hcol'⟩ hrest hfs
          -- the rest is printed from the next column on
          have hge : ∀ w ∈ printed { k with cursorColumn := k.cursorColumn + 1 } ss,
              160 * k.cursorRow.toNat + 2 * (k.cursorColumn.toNat + 1) ≤ w.offset := by
            intro w hw
            rw [← hnext]
            exact hbound w hw
          rw [printed, hput]
          simp only [List.singleton_append, List.map_cons, List.pairwise_cons,
            List.forall_mem_map, List.forall_mem_cons]
          refine ⟨⟨fun w hw => ?_, hlt⟩, le_rfl, fun w hw => ?_⟩
          · have := hge w hw
            show 160 * k.cursorRow.toNat + 2 * k.cursorColumn.toNat < w.offset
            omega
          · have := hge w hw
            omega

/-- **Text output stays on the screen exactly if every step is careful.**  For
all calls after `keyboard_state_activate`: a character other than newline and
backspace must not be put in the last column, a backspace not at the start of a
row other than the first, the screen not be cleared, and the clock not be written
in the first ten seconds of a minute. -/
theorem text_on_screen_iff (k : KeyboardDriverState) (calls : List TextCall)
    (hclock : ∀ call ∈ calls, ∀ s ∈ call.steps, s.ValidClock) :
    StaysOnScreen k.keyboardStateActivate (calls.flatMap TextCall.steps) ↔
      CarefulSteps k.keyboardStateActivate (calls.flatMap TextCall.steps) := by
  have hk : k.keyboardStateActivate.OnScreen := 
    ⟨show (0 : Byte) < 25 by decide, show (0 : Byte) < 80 by decide⟩
  have hvalid : ∀ s ∈ calls.flatMap TextCall.steps, s.ValidClock := by
    intro s hs
    obtain ⟨call, hcall, hs⟩ := List.mem_flatMap.mp hs
    exact hclock call hcall s hs
  have hiff := carefulSteps_iff hk hvalid
  constructor
  · intro h
    exact hiff.mpr ⟨h.writes, h.cursor⟩
  · intro h
    obtain ⟨hwrites, hcursor⟩ := hiff.mp h
    refine ⟨hwrites, hcursor, fun pre text post heq hforward _ => ?_⟩
    rw [heq, carefulSteps_append, carefulSteps_append] at h
    have hpre : (after k.keyboardStateActivate pre).OnScreen :=
      hcursor pre ⟨text ++ post, by rw [heq, List.append_assoc]⟩
    exact (printed_increasing hpre h.1.2 hforward).1.imp ne_of_lt

/-- The driver before `keyboard_state_activate`. -/
def idleKeyboard : KeyboardDriverState :=
  { cursorRow := 0, cursorColumn := 0, keyboardInputOn := false, keyboardBuffer := 0,
    templateLength := 0 }

/-- A full row but for its last column, a newline, and the clock. -/
theorem text_on_screen_row :
    StaysOnScreen idleKeyboard.keyboardStateActivate
      ([.puts (fun _ => ascii 'a') 79 0xF, .putchar newline 0xF,
        .writeClock 23 59 10].flatMap TextCall.steps) := by
  refine (text_on_screen_iff idleKeyboard _ fun call hcall s hs => ?_).mpr (by decide +kernel)
  simp only [List.mem_cons, List.not_mem_nil, or_false] at hcall
  rcases hcall with rfl | rfl | rfl
  · obtain ⟨c, -, rfl⟩ := List.mem_map.mp hs
    trivial
  · rw [List.mem_singleton.mp hs]
    trivial
  · rw [List.mem_singleton.mp hs]
    exact ⟨by decide, by decide, by decide⟩

/-- The second row, written before the first one ends: of 82 characters, the
cursor stands in column 80 after 80, number 81 goes to column 80, and number 82
to the same byte. -/
theorem text_not_on_screen :
    (∃ w ∈ issued idleKeyboard.keyboardStateActivate
        (List.replicate 82 (.putchar (ascii 'a') 0xF)), ¬ w.OnScreen) ∧
      ¬ (after idleKeyboard.keyboardStateActivate
        (List.replicate 80 (.putchar (ascii 'a') 0xF))).OnScreen ∧
      ¬ ((printed idleKeyboard.keyboardStateActivate
        (List.replicate 82 (.putchar (ascii 'a') 0xF))).map FramebufferWrite.offset).Nodup ∧
      ¬ StaysOnScreen idleKeyboard.keyboardStateActivate
        ([.puts (fun _ => ascii 'a') 82 0xF].flatMap TextCall.steps) := by
  refine ⟨?_, ?_, by decide +kernel, fun h => ?_⟩
  · refine ⟨⟨0, 80, ascii 'a', 0xF, 0⟩, by decide +kernel, fun h => absurd h.2 (by decide)⟩
  · exact fun h => absurd h.2 (by decide +kernel)
  · have hcursor := h.cursor (List.replicate 80 (.putchar (ascii 'a') 0xF)) ⟨[
      .putchar (ascii 'a') 0xF, .putchar (ascii 'a') 0xF], by rfl⟩
    exact absurd hcursor.2 (by decide +kernel)

end Binbows
