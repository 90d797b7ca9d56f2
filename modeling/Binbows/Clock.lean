/-
Binbows/Clock.lean

The clock in the corner of the screen.

`read_rtc` reads second, minute and hour one after the other, from a clock that goes on.
So it reads all three twice, until they agree.  If that takes less than a minute, equal
seconds mean that nothing has changed in between, and the three belong to one moment
(`readRtc_moment`).

The chip gives binary or BCD, and hours up to 24 or up to 12.  The conversion is right but
for one hour: that of a twelve hour clock at twelve is taken for the other twelve
(`convert_encode`).

Main result: `clock_shows_time`.  System call 78 draws the time of one moment, seven hours
on, and it does return where the chip keeps still for a while.
-/
import Binbows.BackspaceUndo
import Binbows.Library.Sampling
import Mathlib.Tactic.IntervalCases

namespace Binbows

open Bytes Sampling

/-! ### read_rtc -/

/-- What a read of the data port gives: for the number of the access, and the register that
was chosen before it. -/
abbrev Cmos := Nat → Byte → Byte

/-- The globals `secondc`, `minutec` and `hourc`. -/
structure RtcTime where
  secondc : Byte
  minutec : Byte
  hourc : Byte
deriving DecidableEq

variable {cmos : Cmos} {fuel n n' k : Nat} {now last : RtcTime}

def getRTCRegister (cmos : Cmos) (reg : Byte) (n : Nat) : Byte := cmos n reg

def getUpdateInProgressFlag (cmos : Cmos) (n : Nat) : Byte := getRTCRegister cmos 0x0A n &&& 0x80

/-- The loop that waits for an update to end, and the three registers behind it. -/
def readRegisters (cmos : Cmos) (fuel n : Nat) : Option (RtcTime × Nat) :=
  (poll (fun n => getUpdateInProgressFlag cmos n = 0) fuel n).map fun n =>
    (⟨getRTCRegister cmos 0x00 (n + 1), getRTCRegister cmos 0x02 (n + 2),
      getRTCRegister cmos 0x04 (n + 3)⟩, n + 4)

/-- The conversions at the end of `read_rtc`. -/
def RtcTime.convert (t : RtcTime) (registerB : Byte) : RtcTime :=
  let t := if registerB &&& 0x04 = 0 then
      ⟨(t.secondc &&& 0x0F) + (t.secondc / 16) * 10, (t.minutec &&& 0x0F) + (t.minutec / 16) * 10,
        ((t.hourc &&& 0x0F) + ((t.hourc &&& 0x70) / 16) * 10) ||| (t.hourc &&& 0x80)⟩
    else t
  if registerB &&& 0x02 = 0 ∧ t.hourc &&& 0x80 ≠ 0 then
    { t with hourc := ((t.hourc &&& 0x7F) + 12) % 24 }
  else t

/-- `read_rtc`, from the `n`-th access on; `none` where it is still waiting. -/
def readRtc (cmos : Cmos) (fuel n : Nat) : Option (RtcTime × Nat) := do
  let (last, n) ← readRegisters cmos fuel n
  let (now, n) ← settle (readRegisters cmos fuel) fuel last n
  pure (now.convert (getRTCRegister cmos 0x0B n), n + 1)

/-- What system call 78 draws. -/
def RtcTime.draw (t : RtcTime) : List FramebufferWrite :=
  writeClock (BitVec.ofNat 8 ((t.hourc.toNat + 7) % 24)) t.minutec t.secondc

/-! ### The chip -/

/-- How the chip gives its numbers. -/
structure RtcMode where
  binary : Bool
  hours24 : Bool
deriving DecidableEq

def RtcMode.encode (mode : RtcMode) (x : Nat) : Byte :=
  if mode.binary then BitVec.ofNat 8 x else BitVec.ofNat 8 (x / 10 * 16 + x % 10)

/-- Twelve hours are counted from twelve to eleven, and the second twelve are marked. -/
def RtcMode.encodeHour (mode : RtcMode) (hour : Nat) : Byte :=
  if mode.hours24 then mode.encode hour
  else mode.encode (if hour % 12 = 0 then 12 else hour % 12) ||| if hour < 12 then 0 else 0x80

/-- The chip shows the time of its accesses, in seconds of the day, and time does not go
back. -/
structure Cmos.Shows (cmos : Cmos) (time : Nat → Nat) (mode : RtcMode) : Prop where
  mono : Monotone time
  second : ∀ n, cmos n 0x00 = mode.encode (time n % 60)
  minute : ∀ n, cmos n 0x02 = mode.encode (time n / 60 % 60)
  hour : ∀ n, cmos n 0x04 = mode.encodeHour (time n / 3600 % 24)
  binary : ∀ n, cmos n 0x0B &&& 0x04 = 0 ↔ ¬ mode.binary
  hours24 : ∀ n, cmos n 0x0B &&& 0x02 = 0 ↔ ¬ mode.hours24

/-- The chip is not at an update, and the time stands, for twelve accesses. -/
def Cmos.Quiet (cmos : Cmos) (time : Nat → Nat) (a : Nat) : Prop :=
  ∀ n, a ≤ n → n < a + 12 → getUpdateInProgressFlag cmos n = 0 ∧ time n = time a

/-- The hour that `read_rtc` takes for the hour of the chip. -/
def RtcMode.readHour (mode : RtcMode) (hour : Nat) : Nat :=
  if mode.hours24 ∨ hour % 12 ≠ 0 then hour else (hour + 12) % 24

variable {mode : RtcMode} {time : Nat → Nat} {x y : Nat}

theorem encode_injective (hx : x < 60) (hy : y < 60) (h : mode.encode x = mode.encode y) :
    x = y := by
  have hall : ∀ (mode : Bool) (x y : Fin 60),
      (⟨mode, true⟩ : RtcMode).encode x = (⟨mode, true⟩ : RtcMode).encode y → x = y := by
    decide +kernel
  exact Fin.ext_iff.mp (hall mode.binary ⟨x, hx⟩ ⟨y, hy⟩ h)

/-- A number of two digits. -/
def fromBcd (x : Byte) : Byte := (x &&& 0x0F) + (x / 16) * 10

theorem convert_number (mode : RtcMode) (hx : x < 60) :
    (if ¬ mode.binary then fromBcd (mode.encode x) else mode.encode x) = BitVec.ofNat 8 x := by
  have hall : ∀ (binary : Bool) (x : Fin 60),
      (if ¬ binary then fromBcd ((⟨binary, true⟩ : RtcMode).encode x)
        else (⟨binary, true⟩ : RtcMode).encode x) = BitVec.ofNat 8 x := by
    decide +kernel
  exact hall mode.binary ⟨x, hx⟩

/-- The hour of the chip without its coding, and the mark for the second twelve hours. -/
def RtcMode.plainHour (mode : RtcMode) (hour : Byte) : Byte :=
  if ¬ mode.binary then ((hour &&& 0x0F) + ((hour &&& 0x70) / 16) * 10) ||| (hour &&& 0x80)
  else hour

theorem convert_hour (mode : RtcMode) {hour : Nat} (hhour : hour < 24) :
    (if ¬ mode.hours24 ∧ mode.plainHour (mode.encodeHour hour) &&& 0x80 ≠ 0 then
        ((mode.plainHour (mode.encodeHour hour) &&& 0x7F) + 12) % 24
      else mode.plainHour (mode.encodeHour hour)) = BitVec.ofNat 8 (mode.readHour hour) := by
  have hall : ∀ (binary hours24 : Bool) (hour : Fin 24),
      (if ¬ hours24 ∧ (⟨binary, hours24⟩ : RtcMode).plainHour
          ((⟨binary, hours24⟩ : RtcMode).encodeHour hour) &&& 0x80 ≠ 0 then
        (((⟨binary, hours24⟩ : RtcMode).plainHour
          ((⟨binary, hours24⟩ : RtcMode).encodeHour hour) &&& 0x7F) + 12) % 24
      else (⟨binary, hours24⟩ : RtcMode).plainHour
          ((⟨binary, hours24⟩ : RtcMode).encodeHour hour)) =
        BitVec.ofNat 8 ((⟨binary, hours24⟩ : RtcMode).readHour hour) := by
    decide +kernel
  exact hall mode.binary mode.hours24 ⟨hour, hhour⟩

/-- **The conversion takes the coding back**, but for the hour at twelve. -/
theorem convert_encode {second minute hour : Nat} {registerB : Byte} (hsecond : second < 60)
    (hminute : minute < 60) (hhour : hour < 24) (hbinary : registerB &&& 0x04 = 0 ↔ ¬ mode.binary)
    (hhours : registerB &&& 0x02 = 0 ↔ ¬ mode.hours24) :
    (⟨mode.encode second, mode.encode minute, mode.encodeHour hour⟩ : RtcTime).convert registerB =
      ⟨BitVec.ofNat 8 second, BitVec.ofNat 8 minute, BitVec.ofNat 8 (mode.readHour hour)⟩ := by
  have hplain : (if ¬ mode.binary then
      (⟨fromBcd (mode.encode second), fromBcd (mode.encode minute),
        ((mode.encodeHour hour &&& 0x0F) + ((mode.encodeHour hour &&& 0x70) / 16) * 10) |||
          (mode.encodeHour hour &&& 0x80)⟩ : RtcTime)
      else ⟨mode.encode second, mode.encode minute, mode.encodeHour hour⟩) =
      ⟨BitVec.ofNat 8 second, BitVec.ofNat 8 minute, mode.plainHour (mode.encodeHour hour)⟩ := by
    rw [← convert_number mode hsecond, ← convert_number mode hminute, RtcMode.plainHour]
    split_ifs
    · rfl
    · rfl
  have hconvert : (⟨mode.encode second, mode.encode minute, mode.encodeHour hour⟩ :
      RtcTime).convert registerB =
      if ¬ mode.hours24 ∧ mode.plainHour (mode.encodeHour hour) &&& 0x80 ≠ 0 then
        ⟨BitVec.ofNat 8 second, BitVec.ofNat 8 minute,
          ((mode.plainHour (mode.encodeHour hour) &&& 0x7F) + 12) % 24⟩
      else ⟨BitVec.ofNat 8 second, BitVec.ofNat 8 minute,
        mode.plainHour (mode.encodeHour hour)⟩ := by
    unfold fromBcd at hplain
    simp only [RtcTime.convert, hbinary, hhours, hplain]
  rw [hconvert, ← convert_hour mode hhour]
  split_ifs
  · rfl
  · rfl

/-! ### One moment -/

theorem readRegisters_eq_some (h : readRegisters cmos fuel n = some (now, n')) :
    ∃ k, n ≤ k ∧ n' = k + 4 ∧ now = ⟨cmos (k + 1) 0x00, cmos (k + 2) 0x02, cmos (k + 3) 0x04⟩ := by
  obtain ⟨k, hk, h⟩ := Option.map_eq_some_iff.mp h
  obtain ⟨rfl, rfl⟩ := Prod.mk.inj h
  exact ⟨k, (poll_eq_some hk).1, rfl, rfl⟩

theorem readRegisters_le (h : readRegisters cmos fuel n = some (now, n')) : n ≤ n' := by
  obtain ⟨k, hk, rfl, -⟩ := readRegisters_eq_some h
  omega

/-- Two equal samples within a minute belong to one moment. -/
theorem samples_moment (hshow : cmos.Shows time mode) {i j : Nat}
    (hi : readRegisters cmos fuel i = some (now, j))
    (hj : readRegisters cmos fuel j = some (now, n')) (hquick : time n' < time i + 60) :
    ∃ k, i ≤ k ∧ k ≤ n' ∧ now = ⟨mode.encode (time k % 60), mode.encode (time k / 60 % 60),
      mode.encodeHour (time k / 3600 % 24)⟩ := by
  obtain ⟨k, hik, rfl, hnow⟩ := readRegisters_eq_some hi
  obtain ⟨m, hkm, rfl, hnow'⟩ := readRegisters_eq_some hj
  have hstart : time i ≤ time (k + 1) := hshow.mono (by omega)
  have hend : time (m + 1) ≤ time (m + 4) := hshow.mono (by omega)
  -- the seconds are equal, and they do not come back within a minute
  have hseconds : mode.encode (time (k + 1) % 60) = mode.encode (time (m + 1) % 60) := by
    rw [← hshow.second, ← hshow.second]
    exact congrArg RtcTime.secondc (hnow.symm.trans hnow')
  have hback : ∀ t t', t ≤ t' → t' < t + 60 → mode.encode (t % 60) = mode.encode (t' % 60) →
      t = t' := by
    intro t t' hle hlt hsame
    have hmod := encode_injective (Nat.mod_lt _ (by decide)) (Nat.mod_lt _ (by decide)) hsame
    omega
  have hstill : ∀ x, k + 1 ≤ x → x ≤ m + 1 → time x = time (k + 1) := fun x hx hx' =>
    still hshow.mono hback (by omega) hx hx' hseconds
  refine ⟨k + 1, by omega, by omega, ?_⟩
  rw [hnow, hshow.second, hshow.minute, hshow.hour, hstill (k + 2) (by omega) (by omega),
    hstill (k + 3) (by omega) (by omega)]

/-- **What `read_rtc` returns is the time of one moment.** -/
theorem readRtc_moment (hshow : cmos.Shows time mode) (h : readRtc cmos fuel n = some (now, n'))
    (hquick : time n' < time n + 60) : ∃ k, n ≤ k ∧ k ≤ n' ∧
      now = ⟨BitVec.ofNat 8 (time k % 60), BitVec.ofNat 8 (time k / 60 % 60),
        BitVec.ofNat 8 (mode.readHour (time k / 3600 % 24))⟩ := by
  obtain ⟨⟨last, n₁⟩, hfirst, h⟩ := Option.bind_eq_some_iff.mp h
  obtain ⟨⟨shown, n₂⟩, hsettle, h⟩ := Option.bind_eq_some_iff.mp h
  obtain ⟨rfl, rfl⟩ := Prod.mk.inj (Option.some.inj h)
  obtain ⟨i, j, hni, hi, hj⟩ := settle_eq_some readRegisters_le hfirst hsettle
  have hstart : time n ≤ time i := hshow.mono hni
  have hend : time n₂ ≤ time (n₂ + 1) := hshow.mono (Nat.le_succ _)
  obtain ⟨k, hik, hkn, rfl⟩ := samples_moment hshow hi hj (by omega)
  refine ⟨k, hni.trans hik, Nat.le_succ_of_le hkn, ?_⟩
  exact convert_encode (Nat.mod_lt _ (by decide)) (Nat.mod_lt _ (by decide))
    (Nat.mod_lt _ (by decide)) (hshow.binary _) (hshow.hours24 _)

/-! ### It returns -/

theorem readRegisters_of_quiet {a : Nat} (hquiet : cmos.Quiet time a) (hn : n ≤ a)
    (hfuel : a < n + fuel) : ∃ now n', readRegisters cmos fuel n = some (now, n') ∧ n < n' ∧
      n' ≤ a + 4 := by
  obtain ⟨m, hm, hle, hle'⟩ := poll_of_le (p := fun n => getUpdateInProgressFlag cmos n = 0)
    hn (hquiet a le_rfl (by omega)).1 hfuel
  have hread : ∃ now, readRegisters cmos fuel n = some (now, m + 4) := by
    unfold readRegisters
    rw [hm]
    exact ⟨_, rfl⟩
  obtain ⟨now, hread⟩ := hread
  exact ⟨now, m + 4, hread, by omega, by omega⟩

/-- A sample at a quiet time is that of the moment. -/
theorem readRegisters_quiet (hshow : cmos.Shows time mode) {a : Nat}
    (hquiet : cmos.Quiet time a) (hn : a ≤ n) (hlast : n ≤ a + 8) (hfuel : 0 < fuel) :
    readRegisters cmos fuel n = some (⟨mode.encode (time a % 60), mode.encode (time a / 60 % 60),
      mode.encodeHour (time a / 3600 % 24)⟩, n + 4) := by
  obtain ⟨fuel, rfl⟩ : ∃ fuel', fuel = fuel' + 1 := ⟨fuel - 1, by omega⟩
  unfold readRegisters
  rw [poll, if_pos (hquiet n hn (by omega)).1]
  show some ((⟨cmos (n + 1) 0x00, cmos (n + 2) 0x02, cmos (n + 3) 0x04⟩ : RtcTime), n + 4) = _
  rw [hshow.second, hshow.minute, hshow.hour, (hquiet (n + 1) (by omega) (by omega)).2,
    (hquiet (n + 2) (by omega) (by omega)).2, (hquiet (n + 3) (by omega) (by omega)).2]

/-- **`read_rtc` returns** where the chip keeps still for twelve accesses. -/
theorem readRtc_of_quiet (hshow : cmos.Shows time mode) {a : Nat} (hquiet : cmos.Quiet time a)
    (hn : n ≤ a) (hfuel : a + 2 ≤ fuel) : (readRtc cmos fuel n).isSome := by
  have hread : ∀ m ≤ a, ∃ now n', readRegisters cmos fuel m = some (now, n') ∧ m < n' ∧
      n' ≤ a + 4 := fun m hm => readRegisters_of_quiet hquiet hm (by omega)
  obtain ⟨last, n₁, hfirst, -, hle⟩ := hread n hn
  have hsettle : (settle (readRegisters cmos fuel) fuel last n₁).isSome := by
    apply settle_of_quiet (a := a) (c := 4)
    · exact fun m hm => hread m hm.le
    · intro m hm hm'
      exact ⟨m + 4, readRegisters_quiet hshow hquiet hm (by omega) (by omega), by omega, le_rfl⟩
    · exact hle
    · omega
  obtain ⟨⟨shown, n₂⟩, hshown⟩ := Option.isSome_iff_exists.mp hsettle
  unfold readRtc
  rw [hfirst, Option.bind_eq_bind, Option.bind_some]
  dsimp only
  rw [hshown]
  rfl

/-! ### The screen -/

variable {memory : Nat → Byte} {number col : Byte} {offset hour minute second : Nat}

/-- Two digits. -/
def twoDigits (x : Nat) : List Byte := [intToChar (x / 10), intToChar (x % 10)]

/-- `hh:mm:ss`. -/
def clockText (hour minute second : Nat) : List Byte :=
  twoDigits hour ++ ascii ':' :: twoDigits minute ++ ascii ':' :: twoDigits second

/-- The last eight cells of the screen show a time. -/
def ShowsClock (memory : Nat → Byte) (hour minute second : Nat) : Prop :=
  ∀ i < 8, memory (160 * 24 + 2 * (72 + i)) = (clockText hour minute second).getD i 0

theorem drawn_append (ws ws' : List FramebufferWrite) :
    drawn memory (ws ++ ws') = drawn (drawn memory ws) ws' := List.foldl_append

/-- A write to the last row. -/
theorem apply_lastRow {c fg bg : Byte} :
    (⟨24, col, c, fg, bg⟩ : FramebufferWrite).apply memory offset =
      if offset = 3840 + 2 * col.toNat + 1 then FramebufferWrite.colors ⟨24, col, c, fg, bg⟩
      else if offset = 3840 + 2 * col.toNat then c else memory offset := by
  show Function.update (Function.update memory (3840 + 2 * col.toNat) c)
    (3840 + 2 * col.toNat + 1) _ offset = _
  rw [Function.update_apply, Function.update_apply]

theorem writeField_eq (hnum : number < 100) : writeField number col =
    if number ≤ 9 then [⟨24, col, ascii '0', 0xA, 0⟩,
      ⟨24, col + 1, intToChar number.toNat, 0xA, 0⟩, ⟨24, col + 1 + 1, ascii ' ', 0xA, 0⟩]
    else [⟨24, col, intToChar (number.toNat / 10), 0xA, 0⟩,
      ⟨24, col + 1, intToChar (number.toNat % 10), 0xA, 0⟩] := by
  rw [writeField]
  split_ifs with h9
  · rw [printDigits]
    split_ifs with h0 hgt
    · exact absurd hgt (by bv_omega)
    · rfl
    · rw [not_not.mp h0]
      rfl
  · have h0 : number ≠ 0 := by
      rintro rfl
      exact h9 (by decide)
    have hgt : number > 9 := by bv_omega
    have hdivisor : printDivisor number.toNat 1 = 10 := by
      rw [printDivisor, if_pos (by bv_omega), printDivisor, if_neg (by bv_omega)]
    have hrest : (BitVec.ofNat 8 (number.toNat % 10)).toNat = number.toNat % 10 := by
      rw [BitVec.toNat_ofNat]
      omega
    rw [printDigits, if_pos h0]
    dsimp only
    rw [if_pos hgt, hdivisor, printLoop, printLoop, printLoop]
    simp [hrest]

/-- **A field of the clock**: its two digits, and nothing else but perhaps the next cell. -/
theorem drawn_writeField (memory : Nat → Byte) (hnum : number < 100) (hcol : col ≤ 78) :
    drawn memory (writeField number col) (3840 + 2 * col.toNat) = intToChar (number.toNat / 10) ∧
      drawn memory (writeField number col) (3840 + 2 * col.toNat + 2) =
        intToChar (number.toNat % 10) ∧
      ∀ offset, offset < 3840 + 2 * col.toNat ∨ 3840 + 2 * col.toNat + 6 ≤ offset →
        drawn memory (writeField number col) offset = memory offset := by
  have hcol1 : (col + 1).toNat = col.toNat + 1 := by bv_omega
  have hcol2 : (col + 1 + 1).toNat = col.toNat + 2 := by bv_omega
  rw [writeField_eq hnum]
  split_ifs with h9
  · have htens : intToChar (number.toNat / 10) = ascii '0' := by
      rw [show number.toNat / 10 = 0 by bv_omega]
      rfl
    have hones : number.toNat % 10 = number.toNat := by bv_omega
    rw [htens, hones]
    simp only [drawn_cons, drawn_nil, apply_lastRow, hcol1, hcol2]
    refine ⟨?_, ?_, fun offset h => ?_⟩
    all_goals split_ifs <;> first | rfl | omega
  · simp only [drawn_cons, drawn_nil, apply_lastRow, hcol1]
    refine ⟨?_, ?_, fun offset h => ?_⟩
    all_goals split_ifs <;> first | rfl | omega

/-- A field of the clock, for a number and a column. -/
theorem drawn_field (memory : Nat → Byte) (x col : Nat) (hx : x < 60) (hcol : col ≤ 78) :
    drawn memory (writeField (BitVec.ofNat 8 x) (BitVec.ofNat 8 col)) (3840 + 2 * col) =
        intToChar (x / 10) ∧
      drawn memory (writeField (BitVec.ofNat 8 x) (BitVec.ofNat 8 col)) (3840 + 2 * col + 2) =
        intToChar (x % 10) ∧
      ∀ offset, offset < 3840 + 2 * col ∨ 3840 + 2 * col + 6 ≤ offset →
        drawn memory (writeField (BitVec.ofNat 8 x) (BitVec.ofNat 8 col)) offset =
          memory offset := by
  have hx' : (BitVec.ofNat 8 x).toNat = x := by
    rw [BitVec.toNat_ofNat]
    omega
  have hcol' : (BitVec.ofNat 8 col).toNat = col := by
    rw [BitVec.toNat_ofNat]
    omega
  have hnum : BitVec.ofNat 8 x < 100 := by bv_omega
  have hlow : BitVec.ofNat 8 col ≤ 78 := by bv_omega
  have h := drawn_writeField memory hnum hlow
  rwa [hx', hcol'] at h

/-- **The clock is on the screen**, in the last eight cells, and no other cell changes. -/
theorem drawn_writeClock (memory : Nat → Byte) (hhour : hour < 24) (hminute : minute < 60)
    (hsecond : second < 60) :
    ShowsClock (drawn memory (writeClock (BitVec.ofNat 8 hour) (BitVec.ofNat 8 minute)
        (BitVec.ofNat 8 second))) hour minute second ∧
      ∀ offset < 160 * 24 + 2 * 72, drawn memory (writeClock (BitVec.ofNat 8 hour)
        (BitVec.ofNat 8 minute) (BitVec.ofNat 8 second)) offset = memory offset := by
  -- the frame buffer after each field
  obtain ⟨m₁, hm₁⟩ : ∃ m, m = drawn memory (writeField (BitVec.ofNat 8 hour) (BitVec.ofNat 8 72)) :=
    ⟨_, rfl⟩
  obtain ⟨m₂, hm₂⟩ : ∃ m, m = drawn ((⟨24, 74, ascii ':', 0xA, 0⟩ : FramebufferWrite).apply m₁)
    (writeField (BitVec.ofNat 8 minute) (BitVec.ofNat 8 75)) := ⟨_, rfl⟩
  obtain ⟨m₃, hm₃⟩ : ∃ m, m = drawn ((⟨24, 77, ascii ':', 0xA, 0⟩ : FramebufferWrite).apply m₂)
    (writeField (BitVec.ofNat 8 second) (BitVec.ofNat 8 78)) := ⟨_, rfl⟩
  have hend : drawn memory (writeClock (BitVec.ofNat 8 hour) (BitVec.ofNat 8 minute)
      (BitVec.ofNat 8 second)) = m₃ := by
    rw [writeClock, drawn_append, drawn_append, drawn_cons, drawn_cons, hm₃, hm₂, hm₁]
    rfl
  obtain ⟨hh, hh', hrest₁⟩ := drawn_field memory hour 72 (by omega) (by decide)
  obtain ⟨hm, hm', hrest₂⟩ := drawn_field
    ((⟨24, 74, ascii ':', 0xA, 0⟩ : FramebufferWrite).apply m₁) minute 75 hminute (by decide)
  obtain ⟨hs, hs', hrest₃⟩ := drawn_field
    ((⟨24, 77, ascii ':', 0xA, 0⟩ : FramebufferWrite).apply m₂) second 78 hsecond (by decide)
  rw [← hm₁] at hh hh' hrest₁
  rw [← hm₂] at hm hm' hrest₂
  rw [← hm₃] at hs hs' hrest₃
  have hcolon : ∀ (m : Nat → Byte) (col : Byte) (offset : Nat), offset ≠ 3840 + 2 * col.toNat →
      offset ≠ 3840 + 2 * col.toNat + 1 →
      (⟨24, col, ascii ':', 0xA, 0⟩ : FramebufferWrite).apply m offset = m offset := by
    intro m col offset h h'
    rw [apply_lastRow, if_neg h', if_neg h]
  -- a field leaves what is in front of it
  have hkeep₂ : ∀ offset < 3988, m₂ offset = m₁ offset := by
    intro offset h
    rw [hrest₂ offset (.inl (by omega))]
    exact hcolon m₁ 74 offset (by simp; omega) (by simp; omega)
  have hkeep₃ : ∀ offset < 3994, m₃ offset = m₂ offset := by
    intro offset h
    rw [hrest₃ offset (.inl (by omega))]
    exact hcolon m₂ 77 offset (by simp; omega) (by simp; omega)
  have hfirst : m₂ 3988 = ascii ':' := by
    rw [hrest₂ 3988 (.inl (by decide)), apply_lastRow, if_neg (by decide), if_pos (by decide)]
  have hlast : m₃ 3994 = ascii ':' := by
    rw [hrest₃ 3994 (.inl (by decide)), apply_lastRow, if_neg (by decide), if_pos (by decide)]
  rw [hend]
  constructor
  · intro i hi
    interval_cases i
    · exact (hkeep₃ 3984 (by decide)).trans ((hkeep₂ 3984 (by decide)).trans hh)
    · exact (hkeep₃ 3986 (by decide)).trans ((hkeep₂ 3986 (by decide)).trans hh')
    · exact (hkeep₃ 3988 (by decide)).trans hfirst
    · exact (hkeep₃ 3990 (by decide)).trans hm
    · exact (hkeep₃ 3992 (by decide)).trans hm'
    · exact hlast
    · exact hs
    · exact hs'
  · intro offset h
    rw [hkeep₃ offset (by omega), hkeep₂ offset (by omega), hrest₁ offset (.inl (by omega))]

/-- One time has one text. -/
theorem ShowsClock.hour_eq {hour' : Nat} (h : ShowsClock memory hour minute second)
    (h' : ShowsClock memory hour' minute second) (hhour : hour < 24) (hhour' : hour' < 24) :
    hour = hour' := by
  have htens : intToChar (hour / 10) = intToChar (hour' / 10) :=
    (h 0 (by decide)).symm.trans (h' 0 (by decide))
  have hones : intToChar (hour % 10) = intToChar (hour' % 10) :=
    (h 1 (by decide)).symm.trans (h' 1 (by decide))
  have hall : ∀ x y : Fin 10, intToChar x = intToChar y → x = y := by decide
  have h1 := Fin.ext_iff.mp (hall ⟨hour / 10, by omega⟩ ⟨hour' / 10, by omega⟩ htens)
  have h2 := Fin.ext_iff.mp (hall ⟨hour % 10, by omega⟩ ⟨hour' % 10, by omega⟩ hones)
  dsimp only at h1 h2
  omega

/-! ### System call 78 -/

theorem readHour_eq_iff :
    (mode.readHour hour + 7) % 24 = (hour + 7) % 24 ↔ mode.hours24 ∨ hour % 12 ≠ 0 := by
  unfold RtcMode.readHour
  split_ifs with h
  · exact iff_of_true rfl h
  · exact iff_of_false (by omega) h

/-- **System call 78 draws the time of one moment.**  The chip shows the time, in either of
its codings, and time goes on while it is read.  If the call takes less than a minute, the
last eight cells of the screen show minute and second of a moment of the call, and the hour
seven hours on, as long as the chip counts to 24 or the hour is not twelve; and no other cell
changes.  The call returns where the chip keeps still for a while. -/
theorem clock_shows_time (hshow : cmos.Shows time mode) (n : Nat) :
    (∀ fuel now n' memory, readRtc cmos fuel n = some (now, n') → time n' < time n + 60 →
      ∃ k, n ≤ k ∧ k ≤ n' ∧
        (ShowsClock (drawn memory now.draw) ((time k / 3600 % 24 + 7) % 24) (time k / 60 % 60)
            (time k % 60) ↔ mode.hours24 ∨ time k / 3600 % 12 ≠ 0) ∧
        ∀ offset < 160 * 24 + 2 * 72, drawn memory now.draw offset = memory offset) ∧
    ∀ a, n ≤ a → cmos.Quiet time a → ∀ fuel, a + 2 ≤ fuel → (readRtc cmos fuel n).isSome := by
  -- a reading that comes to an end is that of one moment
  constructor
  · intro fuel now n' memory hread hquick
    obtain ⟨k, hnk, hkn, rfl⟩ := readRtc_moment hshow hread hquick
    have hhour : time k / 3600 % 24 < 24 := Nat.mod_lt _ (by decide)
    have hread : mode.readHour (time k / 3600 % 24) < 24 := by
      unfold RtcMode.readHour
      split_ifs
      · exact hhour
      · exact Nat.mod_lt _ (by decide)
    -- the hour is less than 24, so its byte holds it
    have hbyte : (BitVec.ofNat 8 (mode.readHour (time k / 3600 % 24))).toNat =
        mode.readHour (time k / 3600 % 24) := by
      rw [BitVec.toNat_ofNat]
      omega
    have hlate : (mode.readHour (time k / 3600 % 24) + 7) % 24 < 24 := Nat.mod_lt _ (by decide)
    have hminute : time k / 60 % 60 < 60 := Nat.mod_lt _ (by decide)
    have hsecond : time k % 60 < 60 := Nat.mod_lt _ (by decide)
    obtain ⟨hclock, hrest⟩ := drawn_writeClock memory hlate hminute hsecond
    refine ⟨k, hnk, hkn, ?_, ?_⟩
    -- the hour on the screen is the right one exactly if the mode tells it
    · have htwelve : time k / 3600 % 12 = time k / 3600 % 24 % 12 := by omega
      rw [htwelve, ← readHour_eq_iff, RtcTime.draw, hbyte]
      constructor
      · intro h
        exact hclock.hour_eq h hlate (Nat.mod_lt _ (by decide))
      · intro h
        rwa [← h]
    · rw [RtcTime.draw, hbyte]
      exact hrest
  · exact fun a hn hquiet fuel hfuel => readRtc_of_quiet hshow hquiet hn hfuel

/-- A chip that counts to 24 in BCD, at five past one, and at an update now and then. -/
def tickingTime (n : Nat) : Nat := 47109 + n / 8

def tickingMode : RtcMode := ⟨false, true⟩

def tickingCmos : Cmos := fun n reg =>
  if reg = 0x00 then tickingMode.encode (tickingTime n % 60)
  else if reg = 0x02 then tickingMode.encode (tickingTime n / 60 % 60)
  else if reg = 0x04 then tickingMode.encodeHour (tickingTime n / 3600 % 24)
  else if reg = 0x0A then (if n % 8 = 0 then 0x80 else 0)
  else 0x02

theorem tickingCmos_shows : tickingCmos.Shows tickingTime tickingMode where
  mono n n' h := Nat.add_le_add_left (Nat.div_le_div_right h) _
  second _ := rfl
  minute _ := rfl
  hour _ := rfl
  binary _ := by
    show (0x02 : Byte) &&& 0x04 = 0 ↔ ¬ false = true
    decide
  hours24 _ := by
    show (0x02 : Byte) &&& 0x02 = 0 ↔ ¬ true = true
    decide

theorem clock_shows_time_ticking : (readRtc tickingCmos 20 0).isSome ∧
    (∀ fuel now n' memory, readRtc tickingCmos fuel 0 = some (now, n') →
      tickingTime n' < tickingTime 0 + 60 → ∃ k, 0 ≤ k ∧ k ≤ n' ∧
        (ShowsClock (drawn memory now.draw) ((tickingTime k / 3600 % 24 + 7) % 24)
            (tickingTime k / 60 % 60) (tickingTime k % 60) ↔
          tickingMode.hours24 ∨ tickingTime k / 3600 % 12 ≠ 0) ∧
        ∀ offset < 160 * 24 + 2 * 72, drawn memory now.draw offset = memory offset) ∧
    ∀ a, 0 ≤ a → tickingCmos.Quiet tickingTime a → ∀ fuel, a + 2 ≤ fuel →
      (readRtc tickingCmos fuel 0).isSome := by
  refine ⟨by decide, ?_⟩
  exact clock_shows_time tickingCmos_shows 0

end Binbows
