/-
Binbows/KillNumbers.lean

The number that system call 11 decodes from its two characters.

The text is a decimal numeral, padded with zero bytes.  The call takes the first
character as the units and the second as the tens, tests neither for a digit and
does not compare the result with the size of the process list.

The results are for every state after boot, whatever was called before: what the
call needs of the tables is `KillReady`, which every event keeps.

Main result: `kill_exact_iff`, for which texts and which processes the call does
what it says.
-/
import Binbows.KernelRuns

namespace Binbows

open Bytes Run

variable {k k' : KernelState} {request : FAT32DriverRequest} {p p' : PagingState}
  {i : Fin processCountMax} {d : Fin pagingDirectoryTableMaxCount} {e : KernelEvent}
  {buf : Fin 2 → Byte} {n : Nat} {va : BitVec 32}

/-! ### What a destruction needs -/

/-- No entry and no control block takes a destruction out of bounds. -/
structure KillReady (k : KernelState) : Prop where
  sound : k.paging.Sound
  count : ∀ x, (k.processList x).pageFrameUsedCount.toNat ≤ processPageFrameCountMax

theorem KillReady.congr (h : KillReady k) (hsound : k.paging.Sound → k'.paging.Sound)
    (hcount : ∀ x, (k'.processList x).pageFrameUsedCount = (k.processList x).pageFrameUsedCount ∨
      (k'.processList x).pageFrameUsedCount.toNat ≤ processPageFrameCountMax) : KillReady k' := by
  refine ⟨hsound h.sound, fun x => ?_⟩
  rcases hcount x with heq | hle
  · rw [heq]
    exact h.count x
  · exact hle

theorem CreateEffect.killReady (he : CreateEffect k k' i d) (h : KillReady k) : KillReady k' := by
  refine h.congr he.paging.sound fun x => ?_
  rcases eq_or_ne x i with rfl | hne
  · exact he.count
  · rw [he.others x hne]
    exact .inl rfl

theorem DestroyEffect.killReady (he : DestroyEffect k k' i) (h : KillReady k) : KillReady k' := by
  refine h.congr he.paging.sound fun x => .inl ?_
  rcases eq_or_ne x i with rfl | hne
  · exact he.count
  · rw [he.others x hne]

theorem Saved.killReady {ctx : Context} (hs : Saved k k' ctx i) (h : KillReady k) :
    KillReady k' := by
  refine h.congr (fun hsound => hs.paging ▸ hsound) fun x => .inl ?_
  rcases eq_or_ne x i with rfl | hne
  · rw [hs.pcb]
  · rw [hs.others x hne]

theorem Switched.killReady {ctx : Context} (hs : Switched k k' ctx i) (h : KillReady k) :
    KillReady k' := by
  refine h.congr (fun hsound => ?_) fun x => .inl ?_
  · rw [hs.paging]
    exact hsound
  · rw [hs.processList]
    rcases eq_or_ne x i with rfl | hne
    · rw [Function.update_self]
    · rw [Function.update_of_ne hne]

theorem create_killReady {ret : Int} (h : KillReady k)
    (hr : k.processCreateUserProcess request = .ok (ret, k')) : KillReady k' := by
  obtain rfl | ⟨i, d, he⟩ := processCreateUserProcess_effect hr
  · exact h
  · exact he.killReady h

/-- Every event keeps the tables ready. -/
theorem handle_killReady (h : KillReady k) (he : k.handle e = .ok k') : KillReady k' := by
  cases e with
  | user fs ram =>
      cases he
      exact ⟨h.sound, h.count⟩
  | timer frame =>
      obtain ⟨c, k₁, ctx, i, hs, hi, -⟩ := handle_timer he
      exact hi.killReady (hs.killReady h)
  | create request =>
      obtain ⟨ret, hr⟩ := handle_create he
      exact create_killReady h hr
  | exit =>
      obtain ⟨c, ref, b, k₂, ctx, i, -, hdestroy, hi, -⟩ := handle_exit he
      obtain ⟨x, -, hd⟩ := processDestroy_effect hdestroy
      have hcr : KillReady (k.setPaging (k.paging.setCr3 ref)) := ⟨h.sound, h.count⟩
      exact hi.killReady (hd.killReady hcr)
  | kill buf =>
      obtain ⟨b, hdestroy⟩ := handle_kill he
      obtain ⟨x, -, hd⟩ := processDestroy_effect hdestroy
      exact hd.killReady h

theorem boot_killReady (fs : FsState) (ram : Ram) : KillReady (.boot fs ram) := by
  refine ⟨fun d page => ?_, fun _ => Nat.zero_le _⟩
  dsimp only [KernelState.boot, PagingState.boot]
  split_ifs
  · exact fun _ => by decide
  · exact fun hp => absurd hp (by simp)

theorem reaches_killReady {fs : FsState} {ram : Ram} {k₀ : KernelState}
    {ok : KernelState → KernelEvent → Prop} (h₀ : kernelSetup fs ram = .ok k₀)
    (h : Reaches KernelState.step ok k₀ k) : KillReady k := by
  refine h.invariant (I := KillReady) ?_ fun hs _ hstep =>
    handle_killReady hs (KernelState.step_eq_some.mp hstep)
  obtain ⟨⟨ret, k₁⟩, hcreate, h₀⟩ := bind_eq_ok.mp h₀
  obtain ⟨⟨ctx, k₂⟩, hswitch, h₀⟩ := bind_eq_ok.mp h₀
  cases h₀
  obtain ⟨i, hi⟩ := schedulerSwitch_eq_ok hswitch
  exact hi.killReady (create_killReady (boot_killReady _ _) hcreate)

/-! ### Destructions come back -/

theorem freeUserPageFrame_returns (h : p.Sound) (d : Fin pagingDirectoryTableMaxCount)
    (va : BitVec 32) : ∃ b p', p.freeUserPageFrame (some (.list d)) va = .ok (b, p') := by
  unfold PagingState.freeUserPageFrame
  dsimp only
  split_ifs with hpresent hlt
  · exact ⟨_, _, rfl⟩
  · rw [PagingState.frame_lowerAddress] at hlt
    exact absurd (h d (pageIndex va) hpresent) hlt
  · exact ⟨_, _, rfl⟩

theorem unmapFrames_returns (h : p.Sound) (d : Fin pagingDirectoryTableMaxCount)
    (addrs : List (BitVec 32)) : ∃ p', KernelState.unmapFrames (some (.list d)) addrs p = .ok p' := by
  induction addrs generalizing p with
  | nil => exact ⟨p, rfl⟩
  | cons va rest ih =>
      obtain ⟨b, p₁, hfree⟩ := freeUserPageFrame_returns h d va
      obtain ⟨p', hp'⟩ := ih ((freeUserPageFrame_kept hfree).sound h)
      refine ⟨p', ?_⟩
      rw [KernelState.unmapFrames]
      exact bind_eq_ok.mpr ⟨_, hfree, hp'⟩

/-- An active process is destroyed, and no other slot changes. -/
theorem processDestroy_active (h : KillReady k) (hset : SettledSlots k) (hi : k.Active i) :
    ∃ k', k.processDestroy (BitVec.ofNat 32 i) = .ok (true, k') ∧
      k'.processList = Function.update k.processList i
        { k.processList i with state := .inactive } := by
  obtain ⟨d, hd⟩ := hset.directory i (.inl hi)
  obtain ⟨p, hunmap⟩ := unmapFrames_returns h.sound d (KernelState.recordedAddrs (k.processList i)
    (frameSlots (k.processList i).pageFrameUsedCount))
  have hval : (BitVec.ofNat 32 i).toNat = i := by
    have hlt := i.isLt
    rw [BitVec.toNat_ofNat, Nat.mod_eq_of_lt (hlt.trans (by decide))]
  unfold KernelState.processDestroy
  simp only [hval, Fin.eta]
  rw [dif_pos i.isLt, if_neg hi, if_neg (not_lt.mpr (h.count i)), hd, hunmap]
  exact ⟨_, rfl, rfl⟩

theorem processDestroy_idle (hi : ¬ k.Active i) :
    k.processDestroy (BitVec.ofNat 32 i) = .ok (false, k) := by
  have hval : (BitVec.ofNat 32 i).toNat = i := by
    have hlt := i.isLt
    rw [BitVec.toNat_ofNat, Nat.mod_eq_of_lt (hlt.trans (by decide))]
  unfold KernelState.processDestroy
  simp only [hval, Fin.eta]
  rw [dif_pos i.isLt, if_pos (not_not.mp hi)]

/-! ### The decoding -/

/-- The decimal numeral of a number below 100, padded with a zero byte. -/
def numeral (n : Nat) : Fin 2 → Byte := fun i =>
  ((Nat.toDigits 10 n).map fun c => BitVec.ofNat 8 c.toNat).getD i 0

/-- The characters weigh as many as `n` when the first one is taken for the
units and the second one, unless it is the padding, for the tens. -/
def Weighs (buf : Fin 2 → Byte) (n : Nat) : Prop :=
  let first := buf ⟨0, Nat.two_pos⟩
  let second := buf ⟨1, Nat.one_lt_two⟩
  (if second = 0 ∧ first ≠ 0 then first.toInt - 48
    else (first.toInt - 48) + 10 * (second.toInt - 48)) = (n : Int)

instance : Decidable (Weighs buf n) := inferInstanceAs (Decidable (_ = (n : Int)))

/-- What system call 11 should do: it destroys the process that the text names
and no other, and where it names none it changes nothing. -/
structure KillExact (k : KernelState) (buf : Fin 2 → Byte) : Prop where
  named : ∀ i : Fin processCountMax, buf = numeral i → k.Active i →
    ∃ k', k.syscallKill buf = .ok (0, k') ∧ k'.processList =
      Function.update k.processList i { k.processList i with state := .inactive }
  refused : (∀ i : Fin processCountMax, buf = numeral i → ¬ k.Active i) →
    k.syscallKill buf = .ok (1, k)

/-- One digit, or 11, which reads the same both ways; or a text that weighs as
many as an idle slot and names no process. -/
def KillDecodes (k : KernelState) (buf : Fin 2 → Byte) : Prop :=
  (∃ i : Fin processCountMax, buf = numeral i ∧ (i.val < 10 ∨ i.val = 11)) ∨
    ((∃ i : Fin processCountMax, Weighs buf i ∧ ¬ k.Active i) ∧
      ∀ i : Fin processCountMax, buf = numeral i → ¬ k.Active i)

theorem weighs_iff : Weighs buf n ↔ killPid buf = n := by
  unfold Weighs killPid
  dsimp only
  have hzero : ('0'.toNat : Int) = 48 := rfl
  rw [hzero]
  by_cases hone : buf ⟨1, Nat.one_lt_two⟩ = 0 ∧ buf ⟨0, Nat.two_pos⟩ ≠ 0
  · rw [if_pos hone, if_pos hone.symm]
  · rw [if_neg hone, if_neg fun h => hone h.symm]
    omega

/-- The number that a numeral stands for: here the first of two digits is the tens. -/
def numeralValue (buf : Fin 2 → Byte) : Nat :=
  let first := buf ⟨0, Nat.two_pos⟩
  let second := buf ⟨1, Nat.one_lt_two⟩
  if second = 0 then first.toNat - 48 else (first.toNat - 48) * 10 + (second.toNat - 48)

theorem numeralValue_numeral (i : Fin processCountMax) : numeralValue (numeral i) = i := by
  revert i
  decide

theorem numeral_injective {i i' : Fin processCountMax} (h : numeral i = numeral i') : i = i' := by
  apply Fin.ext
  rw [← numeralValue_numeral i, ← numeralValue_numeral i', h]

/-- Which numerals weigh what they name. -/
theorem weighs_numeral {i : Fin processCountMax} :
    Weighs (numeral i) i ↔ i.val < 10 ∨ i.val = 11 := by
  revert i
  decide

theorem syscallKill_active (h : KillReady k) (hset : SettledSlots k) (hw : Weighs buf i)
    (hi : k.Active i) : ∃ k', k.syscallKill buf = .ok (0, k') ∧ k'.processList =
      Function.update k.processList i { k.processList i with state := .inactive } := by
  obtain ⟨k', hdestroy, hlist⟩ := processDestroy_active h hset hi
  refine ⟨k', ?_, hlist⟩
  rw [KernelState.syscallKill, weighs_iff.mp hw, BitVec.ofInt_natCast, hdestroy]
  rfl

theorem syscallKill_idle (hw : Weighs buf i) (hi : ¬ k.Active i) :
    k.syscallKill buf = .ok (1, k) := by
  rw [KernelState.syscallKill, weighs_iff.mp hw, BitVec.ofInt_natCast, processDestroy_idle hi]
  rfl

/-- A call that comes back has indexed the list inside. -/
theorem syscallKill_returns {ret : Byte} (h : k.syscallKill buf = .ok (ret, k')) :
    ∃ i : Fin processCountMax, Weighs buf i := by
  obtain ⟨⟨b, k₁⟩, hdestroy, -⟩ := bind_eq_ok.mp h
  obtain ⟨i, hi, -⟩ := processDestroy_effect hdestroy
  exact ⟨i, weighs_iff.mpr (killPid_eq hi)⟩

theorem killExact_iff (h : KillReady k) (hset : SettledSlots k) :
    KillExact k buf ↔ KillDecodes k buf := by
  constructor
  · intro hexact
    by_cases hnamed : ∃ i : Fin processCountMax, buf = numeral i ∧ k.Active i
    · obtain ⟨i, rfl, hi⟩ := hnamed
      obtain ⟨k', hkill, hlist⟩ := hexact.named i rfl hi
      obtain ⟨j, hj⟩ := syscallKill_returns hkill
      -- the slot that was destroyed is the one that the characters weigh
      have hji : j = i := by
        by_contra hne
        by_cases hactive : k.Active j
        · obtain ⟨k'', hkill', hlist'⟩ := syscallKill_active h hset hj hactive
          obtain rfl : k' = k'' := (Prod.ext_iff.mp (Except.ok.inj (hkill.symm.trans hkill'))).2
          have hslot := congrFun (hlist.symm.trans hlist') i
          rw [Function.update_self, Function.update_of_ne (Ne.symm hne)] at hslot
          exact hi (congrArg ProcessControlBlock.state hslot).symm
        · rw [syscallKill_idle hj hactive] at hkill
          cases hkill
      subst hji
      exact .inl ⟨j, rfl, weighs_numeral.mp hj⟩
    · have hnone : ∀ i : Fin processCountMax, buf = numeral i → ¬ k.Active i :=
        fun i hb hi => hnamed ⟨i, hb, hi⟩
      have hkill := hexact.refused hnone
      obtain ⟨j, hj⟩ := syscallKill_returns hkill
      refine .inr ⟨⟨j, hj, fun hactive => ?_⟩, hnone⟩
      obtain ⟨k', hkill', -⟩ := syscallKill_active h hset hj hactive
      rw [hkill] at hkill'
      cases hkill'
  · rintro (⟨i, rfl, hi⟩ | ⟨⟨i, hw, hidle⟩, hnone⟩)
    · have hw := weighs_numeral.mpr hi
      refine ⟨fun i' hb hactive => ?_, fun hnone => ?_⟩
      · obtain rfl := numeral_injective hb
        exact syscallKill_active h hset hw hactive
      · exact syscallKill_idle hw (hnone i rfl)
    · exact ⟨fun i' hb hactive => absurd hactive (hnone i' hb), fun _ => syscallKill_idle hw hidle⟩

/-- **`kill`.**  In every state after boot, whatever the processes called before,
system call 11 destroys the process that its text names and no other, and changes
nothing where the text names none, if and only if the decoding meets the text. -/
theorem kill_exact_iff {fs : FsState} {ram : Ram} {k₀ : KernelState}
    (h₀ : kernelSetup fs ram = .ok k₀)
    (h : Reaches KernelState.step (fun _ _ => True) k₀ k) (buf : Fin 2 → Byte) :
    KillExact k buf ↔ KillDecodes k buf :=
  killExact_iff (reaches_killReady h₀ h) (reaches_settled h₀ h).toSettledSlots

/-- The shell kills the second shell. -/
theorem kill_exact_twoShells :
    ∃ k, shellKernel.step (.create shellRequest) = some k ∧ k.Active 1 ∧ KillExact k (numeral 1) := by
  have hrun : (shellKernel.step (.create shellRequest)).map
      (fun k => (k.processList 1).state) = some .ready := by decide +kernel
  obtain ⟨k, hk, hstate⟩ := Option.map_eq_some_iff.mp hrun
  refine ⟨k, hk, by simp [KernelState.Active, hstate], ?_⟩
  exact (kill_exact_iff shellKernel_setup (.single ⟨_, trivial, hk⟩) (numeral 1)).mpr
    (.inl ⟨1, rfl, by decide⟩)

/-- Where there is no process 10, `kill 10` kills process 1. -/
theorem kill_not_exact :
    ∃ k, shellKernel.step (.create shellRequest) = some k ∧ ¬ k.Active 10 ∧
      ¬ KillExact k (numeral 10) := by
  have hrun : (shellKernel.step (.create shellRequest)).map (fun k =>
      ((k.processList 10).state, (k.syscallKill (numeral 10)).toOption.map fun r =>
        (r.1, (r.2.processList 1).state))) = some (.inactive, some (0, .inactive)) := by
    decide +kernel
  obtain ⟨k, hk, hrun⟩ := Option.map_eq_some_iff.mp hrun
  obtain ⟨hstate, hkill⟩ := Prod.ext_iff.mp hrun
  dsimp only at hstate hkill
  have hidle : ¬ k.Active 10 := not_not.mpr hstate
  refine ⟨k, hk, hidle, fun hexact => ?_⟩
  have hrefused := hexact.refused fun i hi => by
    obtain rfl : 10 = i := numeral_injective hi
    exact hidle
  rw [hrefused] at hkill
  cases hkill

end Binbows
