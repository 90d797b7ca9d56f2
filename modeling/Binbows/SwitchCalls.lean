/-
Binbows/SwitchCalls.lean

The search of the scheduler when no slot is Ready.

`kernel_setup` and the exit system call trigger the scheduler whether or not a
process is left.  Without one, the exit test of the search loop never holds for
`current_pid` -1 and 0, since the body wraps `context_id` to 0 and increments it
before the test sees it; from any other slot the loop comes back to that slot
and its context is loaded although its process is gone.

Main results:

* `searchLoop_hangs` and `searchNext_current`: the two ways to go wrong.
* `switch_ready_iff`: the call of `kernel_setup` switches to a Ready slot exactly
  if the creation of process 0 succeeded, and the call of an exit exactly if
  some other process is active.
-/
import Binbows.KernelRuns

namespace Binbows

open Run

variable {k k' : KernelState} {i c x : Fin processCountMax} {ctx : Context}
  {list : Fin processCountMax → ProcessControlBlock} {cur : Option (Fin processCountMax)}

/-! ### The loop -/

/-- Slot 0 is never seen by the exit test: the loop gets to it by wrapping
`context_id`, which is incremented before the next test. -/
theorem searchLoop_hangs (hidle : ∀ x, (list x).state ≠ .ready)
    (hcur : ∀ c, cur = some c → c = 0) {contextId : Nat}
    (hid : ∀ c, cur = some c → 0 < contextId) (fuel : Nat) :
    KernelState.searchLoop list cur fuel contextId = .error .noReturn := by
  induction fuel generalizing contextId with
  | zero => rfl
  | succ fuel ih =>
      unfold KernelState.searchLoop
      split
      · next c hc =>
        obtain ⟨hc, hval⟩ := Option.filter_eq_some_iff.mp hc
        have hpos := hid c hc
        have hval : c.val = contextId := by simpa using hval
        rw [hcur c hc] at hval
        exact absurd hval hpos.ne
      · dsimp only
        rw [if_neg (hidle _)]
        apply ih
        exact fun _ _ => Nat.succ_pos _

/-- The loop of `scheduler_switch_to_next_process` ends at slot `x`, after any
number of rounds. -/
def KernelState.SearchEnds (k : KernelState) (x : Fin processCountMax) : Prop :=
  ∃ fuel, KernelState.searchLoop k.processList k.currentPid fuel
    (KernelState.firstContextId k.currentPid) = .ok x

theorem KernelState.SearchEnds.of_searchNext (h : k.searchNext = .ok x) : k.SearchEnds x :=
  ⟨KernelState.searchFuel, h⟩

/-- No slot is Ready. -/
def KernelState.Idle (k : KernelState) : Prop :=
  ∀ x, (k.processList x).state ≠ .ready

/-- With no process, or slot 0, as the current one the search never ends. -/
theorem KernelState.Idle.not_searchEnds (h : k.Idle)
    (hcur : ∀ c, k.currentPid = some c → c = 0) : ¬ k.SearchEnds x := by
  rintro ⟨fuel, hfuel⟩
  rw [searchLoop_hangs h hcur] at hfuel
  · cases hfuel
  · intro c hc
    rw [hc]
    exact Nat.succ_pos _

/-- From any other slot the search comes back to it. -/
theorem KernelState.Idle.searchNext_current (h : k.Idle) (hc : k.currentPid = some c)
    (hpos : 0 < c.val) : k.searchNext = .ok c := by
  have hlt := position_lt k.currentPid c
  refine searchLoop_eq (.inr ⟨hc, hpos⟩) (fun y hy => absurd hy (h y)) (firstContextId_le _) ?_ ?_
  · rw [position_first]
    exact Nat.zero_le _
  · rw [position_first]
    unfold searchFuel
    omega

/-! ### A switch to a Ready slot -/

/-- `scheduler_switch_to_next_process` ends its search, and the slot whose
context it loads and marks as Running was Ready when the search ended. -/
def KernelState.SwitchesToReady (k : KernelState) : Prop :=
  ∃ x ctx k', k.SearchEnds x ∧ (k.processList x).state = .ready ∧
    k.schedulerSwitch = .ok (ctx, k') ∧ ctx = (k.processList x).context ∧
    k'.currentPid = some x ∧ (k'.processList x).state = .running

/-- A Ready slot is enough. -/
theorem SettledSlots.switchesToReady (h : SettledSlots k)
    (hready : ∃ x, (k.processList x).state = .ready) : k.SwitchesToReady := by
  obtain ⟨x, hx⟩ := KernelState.exists_firstReady hready
  have hsearch := hx.searchNext_eq
  obtain ⟨d, hd⟩ := h.directory x (.inl (by simp [KernelState.Active, hx.ready]))
  have huse : k.paging.usePageDirectory (k.processList x).directory =
      .ok (k.paging.setCr3 (.list d)) := by
    rw [hd]
    rfl
  have hswitch : ∃ k', k.schedulerSwitch = .ok ((k.processList x).context, k') := by
    unfold KernelState.schedulerSwitch
    rw [hsearch]
    refine ⟨_, bind_eq_ok.mpr ⟨x, rfl, bind_eq_ok.mpr ⟨_, huse, rfl⟩⟩⟩
  obtain ⟨k', hk'⟩ := hswitch
  obtain ⟨y, hy⟩ := schedulerSwitch_eq_ok hk'
  obtain rfl : x = y := Except.ok.inj (hsearch.symm.trans hy.search)
  refine ⟨x, _, k', .of_searchNext hsearch, hx.ready, hk', rfl, hy.current, ?_⟩
  rw [hy.processList, Function.update_self]

theorem SettledSlots.switchesToReady_iff (h : SettledSlots k) :
    k.SwitchesToReady ↔ ∃ x, (k.processList x).state = .ready := by
  constructor
  · rintro ⟨x, ctx, k', -, hready, -⟩
    exact ⟨x, hready⟩
  · exact h.switchesToReady

/-! ### The two calls -/

/-- `kernel_setup` up to its call of `scheduler_switch_to_next_process`. -/
def setupCreate (fs : FsState) (ram : Ram) : Except KernelFault (Int × KernelState) :=
  (KernelState.boot (initializeFilesystemFat32 fs) ram).processCreateUserProcess shellRequest

theorem kernelSetup_eq (fs : FsState) (ram : Ram) :
    kernelSetup fs ram = (setupCreate fs ram).bind fun (_, k) =>
      k.schedulerSwitch.bind fun (_, k) => .ok k :=
  rfl

/-- Case 10 of `syscall` up to its call of `scheduler_switch_to_next_process`. -/
def KernelState.exitDestroy (k : KernelState) : Except KernelFault KernelState := do
  let curPcb := k.processGetCurrentRunningPcbPointer
  let paging ← k.paging.usePageDirectory (k.processList 0).directory
  let k := k.setPaging paging
  match curPcb with
  | none => .error .nullPointer
  | some i => do
      let (_, k) ← k.processDestroy (k.processList i).pid
      .ok k

theorem KernelState.syscallExit_eq (k : KernelState) :
    k.syscallExit = k.exitDestroy.bind KernelState.schedulerSwitch := by
  unfold KernelState.syscallExit KernelState.exitDestroy
  dsimp only [Bind.bind, Except.bind]
  cases k.paging.usePageDirectory (k.processList 0).directory with
  | error e => rfl
  | ok p =>
      cases k.processGetCurrentRunningPcbPointer with
      | none => rfl
      | some i =>
          dsimp only
          cases (k.setPaging p).processDestroy ((k.setPaging p).processList i).pid with
          | error e => rfl
          | ok r => rfl

/-- The process list when `kernel_setup` calls the scheduler. -/
theorem setupCreate_ready_iff {fs : FsState} {ram : Ram} {ret : Int}
    (h : setupCreate fs ram = .ok (ret, k)) :
    (∃ x, (k.processList x).state = .ready) ↔ ret = 0 := by
  have hcases := KernelState.processCreateUserProcess_cases
    (KernelState.boot_consistent (initializeFilesystemFat32 fs) ram) h
  rcases hcases with ⟨hne, -, rfl⟩ | ⟨-, i, d, r, mem, -, hcreate⟩
  · refine iff_of_false ?_ hne
    rintro ⟨x, hx⟩
    cases hx
  · rcases hcreate with ⟨rfl, -, hfailed⟩ | ⟨rfl, -, hcreated⟩
    · refine iff_of_false ?_ (by decide)
      rintro ⟨x, hx⟩
      rcases eq_or_ne x i with rfl | hne
      · rw [hfailed.state] at hx
        cases hx
      · rw [hfailed.others x hne] at hx
        cases hx
    · exact iff_of_true ⟨i, hcreated.state⟩ rfl

/-- The process list when an exit calls the scheduler. -/
theorem exitDestroy_effect (h : Settled k) (he : k.exitDestroy = .ok k') :
    ∃ c, k.currentPid = some c ∧ SettledSlots k' ∧ (k'.processList c).state = .inactive ∧
      ∀ x ≠ c, k'.processList x = k.processList x := by
  obtain ⟨p, huse, hrest⟩ := bind_eq_ok.mp he
  obtain ⟨ref, -, rfl⟩ := KernelState.usePageDirectory_eq_ok.mp huse
  unfold KernelState.processGetCurrentRunningPcbPointer at hrest
  split at hrest
  · cases hrest
  · next c hc =>
    obtain ⟨⟨b, k₂⟩, hdestroy, hrest⟩ := bind_eq_ok.mp hrest
    cases hrest
    have h₁ : SettledSlots (k.setPaging (k.paging.setCr3 ref)) := ⟨h.idle, h.pid, h.directory⟩
    obtain ⟨x, hpid, hd⟩ := processDestroy_effect hdestroy
    obtain rfl := h.slot_eq (.inr hc) hpid
    exact ⟨x, hc, hd.settledSlots h₁, hd.inactive h₁ (.inr hc), hd.others⟩

theorem exitDestroy_ready_iff (h : Settled k) (he : k.exitDestroy = .ok k') :
    (∃ x, (k'.processList x).state = .ready) ↔ ∃ x, k.currentPid ≠ some x ∧ k.Active x := by
  obtain ⟨c, hc, -, hinactive, hothers⟩ := exitDestroy_effect h he
  refine exists_congr fun x => ?_
  rcases eq_or_ne x c with rfl | hne
  · refine iff_of_false ?_ fun hx => hx.1 hc
    rw [hinactive]
    exact fun hx => by cases hx
  · have hcur : k.currentPid ≠ some x := fun hx => hne (Option.some.inj (hx.symm.trans hc))
    rw [hothers x hne]
    rcases h.idle x hcur with hstate | hstate <;> simp [KernelState.Active, hstate, hcur]

/-- **The calls of the scheduler.**  After boot, `kernel_setup` switches to a
Ready slot exactly if process 0 was created; after any run, an exit does exactly
if some other process is active. -/
theorem switch_ready_iff (fs : FsState) (ram : Ram) :
    (∀ ret k, setupCreate fs ram = .ok (ret, k) → (k.SwitchesToReady ↔ ret = 0)) ∧
    ∀ k₀ k k', kernelSetup fs ram = .ok k₀ →
      Reaches KernelState.step (fun _ _ => True) k₀ k → k.exitDestroy = .ok k' →
      (k'.SwitchesToReady ↔ ∃ x, k.currentPid ≠ some x ∧ k.Active x) := by
  constructor
  · intro ret k h
    rw [(create_settled (boot_settled _ _) h).switchesToReady_iff]
    exact setupCreate_ready_iff h
  · intro k₀ k k' h₀ hrun he
    have hset := reaches_settled h₀ hrun
    obtain ⟨c, -, hslots, -⟩ := exitDestroy_effect hset he
    rw [hslots.switchesToReady_iff]
    exact exitDestroy_ready_iff hset he

/-- The boot from `shellDisk`, and the exit of the shell after it has created
another one. -/
theorem switch_ready_twoShells :
    (∃ k, setupCreate shellDisk noRam = .ok (0, k) ∧ k.SwitchesToReady) ∧
    ∃ k k', shellKernel.step (.create shellRequest) = some k ∧ k.exitDestroy = .ok k' ∧
      k'.SwitchesToReady := by
  constructor
  · have hrun : (setupCreate shellDisk noRam).toOption.map Prod.fst = some 0 := by
      decide +kernel
    obtain ⟨⟨ret, k⟩, hk, rfl⟩ := Option.map_eq_some_iff.mp hrun
    have hk := toOption_eq_some.mp hk
    exact ⟨k, hk, ((switch_ready_iff shellDisk noRam).1 0 k hk).mpr rfl⟩
  · have hrun : ((shellKernel.step (.create shellRequest)).bind fun k =>
        k.exitDestroy.toOption.map fun _ => (k.currentPid, (k.processList 1).state)) =
        some (some 0, .ready) := by decide +kernel
    obtain ⟨k, hk, hrun⟩ := Option.bind_eq_some_iff.mp hrun
    obtain ⟨k', hk', hrun⟩ := Option.map_eq_some_iff.mp hrun
    obtain ⟨hcur, hstate⟩ : k.currentPid = some 0 ∧ (k.processList 1).state = .ready := by
      simpa using hrun
    have hk' := toOption_eq_some.mp hk'
    refine ⟨k, k', hk, hk', ?_⟩
    apply ((switch_ready_iff shellDisk noRam).2 shellKernel k k' shellKernel_setup
      (.single ⟨_, trivial, hk⟩) hk').mpr
    exact ⟨1, by simp [hcur], by simp [KernelState.Active, hstate]⟩

/-- The shell under a name that the disk does not have. -/
def missingRequest : FAT32DriverRequest := { shellRequest with ext := 1 }

/-- Shell 1 kills shell 0.  The creation that finds no file leaves slot 0 inactive, with a
directory in which the kernel is mapped: so the exit can load it. -/
def lastShellEvents : List KernelEvent :=
  [.create shellRequest, .timer { intNumber := 0x20#32 }, .kill ![48#8, 0#8],
    .create missingRequest]

/-- Without a file to boot from, `kernel_setup` searches for ever; and the last shell that
exits is switched to again. -/
theorem switch_not_ready :
    (∃ k, setupCreate .blank noRam = .ok (4, k) ∧ ∀ x, ¬ k.SearchEnds x) ∧
    ∃ k k' ctx k'', shellKernel.run lastShellEvents = some k ∧
      (k.paging.pageDirectoryList 0 0x300).frame = some 0 ∧
      (k.processList 0).context.pageDirectoryVirtualAddr = some (.list 0) ∧
      k.exitDestroy = .ok k' ∧ k'.schedulerSwitch = .ok (ctx, k'') ∧ k''.currentPid = some 1 ∧
      (k'.processList 1).state = .inactive := by
  constructor
  · have hrun : (setupCreate .blank noRam).toOption.map (fun r => (r.1, r.2.currentPid)) =
        some (4, none) := by decide +kernel
    obtain ⟨⟨ret, k⟩, hk, hrun⟩ := Option.map_eq_some_iff.mp hrun
    obtain ⟨rfl, hcur⟩ := Prod.ext_iff.mp hrun
    have hk := toOption_eq_some.mp hk
    have hidle : k.Idle := fun x hx =>
      absurd ((setupCreate_ready_iff hk).mp ⟨x, hx⟩) (by decide)
    refine ⟨k, hk, fun x => hidle.not_searchEnds fun c hc => ?_⟩
    cases hcur.symm.trans hc
  · have hrun : ((shellKernel.run lastShellEvents).bind fun k =>
        k.exitDestroy.toOption.bind fun k' => k'.schedulerSwitch.toOption.map fun r =>
          (r.2.currentPid, (k'.processList 1).state,
            (k.processList 0).context.pageDirectoryVirtualAddr,
            (k.paging.pageDirectoryList 0 0x300).frame)) =
        some (some 1, .inactive, some (.list 0), some 0) := by
      decide +kernel
    obtain ⟨k, hk, hrun⟩ := Option.bind_eq_some_iff.mp hrun
    obtain ⟨k', hk', hrun⟩ := Option.bind_eq_some_iff.mp hrun
    obtain ⟨⟨ctx, k''⟩, hk'', hrun⟩ := Option.map_eq_some_iff.mp hrun
    simp only [Prod.mk.injEq] at hrun
    obtain ⟨hcur, hstate, hdir, hkernel⟩ := hrun
    exact ⟨k, k', ctx, k'', hk, hkernel, hdir, toOption_eq_some.mp hk', toOption_eq_some.mp hk'',
      hcur, hstate⟩

end Binbows
