/-
Binbows/RunningProcess.lean

The process that runs.

Two system calls can leave the tables without a proper running process: a kill
of the caller itself, which returns to a process that is gone, and an exit while
no other process is Ready, after which the search of the scheduler comes back to
the slot that was just freed.  `KeepsRunning` excludes exactly these.

Main results:

* `running_consistent`: while no event is one of these, every state of a run
  after boot is `RunningConsistent`, the next one is if and only if its event
  is not one of these, and nothing but a creation wakes an inactive slot.
-/
import Binbows.RoundRobin

namespace Binbows

open Bytes Run

variable {k k' : KernelState} {i c x : Fin processCountMax} {ctx : Context} {e : KernelEvent}
  {d : Fin pagingDirectoryTableMaxCount}

/-! ### Consistency along the scheduler -/

namespace KernelState.Consistent

/-- Consistency looks at the records of the active slots only, so the context
and the state of an active slot may change. -/
theorem congr_slot (h : k.Consistent) (hbal : k'.paging.Balanced k.keys)
    (hused : k'.paging.pageDirectoryUsed = k.paging.pageDirectoryUsed)
    (hothers : ∀ x ≠ i, k'.processList x = k.processList x)
    (hi : k.Active i) (hi' : k'.Active i)
    (hpid : (k'.processList i).pid = (k.processList i).pid)
    (hdir : (k'.processList i).directory = (k.processList i).directory)
    (hcount : (k'.processList i).pageFrameUsedCount = (k.processList i).pageFrameUsedCount)
    (haddrs : (k'.processList i).virtualAddrUsed = (k.processList i).virtualAddrUsed)
    (hn : k'.activeProcessCount = k.activeProcessCount) : k'.Consistent := by
  have hslot : ∀ {α : Type} (field : ProcessControlBlock → α),
      field (k'.processList i) = field (k.processList i) →
      ∀ x, field (k'.processList x) = field (k.processList x) := by
    intro α field hfield x
    rcases eq_or_ne x i with rfl | hne
    · exact hfield
    · rw [hothers x hne]
  refine h.congr hbal (fun d hd => hused ▸ hd) (fun x => ?_)
    (fun x _ => hslot ProcessControlBlock.pid hpid x)
    (fun x _ => hslot ProcessControlBlock.directory hdir x)
    (fun x _ => hslot ProcessControlBlock.pageFrameUsedCount hcount x)
    (fun x _ => hslot ProcessControlBlock.virtualAddrUsed haddrs x) hn
  rcases eq_or_ne x i with rfl | hne
  · exact iff_of_true hi' hi
  · rw [KernelState.Active, KernelState.Active, hothers x hne]

theorem setCr3 (h : k.Consistent) (ref : DirectoryRef) :
    (k.setPaging (k.paging.setCr3 ref)).Consistent :=
  ⟨h.balanced, h.runsOn, h.directory_inj, h.active_eq⟩

end KernelState.Consistent

/-- The saved context has the directory in CR3. -/
theorem Saved.consistent (hs : Saved k k' ctx c) (h : k.Consistent) (hc : k.Active c)
    (hctx : ctx.pageDirectoryVirtualAddr = (k.processList c).directory) : k'.Consistent := by
  have hpcb := hs.pcb
  have hdir : (k'.processList c).directory = (k.processList c).directory := by
    rw [hpcb]
    exact hctx
  refine h.congr_slot ?_ ?_ hs.others hc ?_ ?_ hdir ?_ ?_ hs.active
  · rw [hs.paging]
    exact h.balanced
  · rw [hs.paging]
  all_goals simp [KernelState.Active, hpcb]

theorem Switched.processList_self (hs : Switched k k' ctx i) :
    k'.processList i = { k.processList i with state := .running } := by
  rw [hs.processList, Function.update_self]

theorem Switched.others (hs : Switched k k' ctx i) : ∀ x ≠ i, k'.processList x = k.processList x := by
  intro x hne
  rw [hs.processList, Function.update_of_ne hne]

theorem Switched.consistent (hs : Switched k k' ctx i) (h : k.Consistent) (hi : k.Active i) :
    k'.Consistent := by
  have hpcb := hs.processList_self
  refine h.congr_slot ?_ ?_ hs.others hi ?_ ?_ ?_ ?_ ?_ hs.active
  · rw [hs.paging]
    exact h.balanced
  · rw [hs.paging]
    rfl
  all_goals simp [KernelState.Active, hpcb]

/-! ### The running process -/

/-- Slot `current_pid` is the running one, on the directory in CR3. -/
structure RunningConsistent (k : KernelState) : Prop where
  running : ∃ c, k.currentPid = some c ∧ (∀ i, (k.processList i).state = .running ↔ i = c) ∧
    ∃ d, (k.processList c).directory = some (.list d) ∧ k.paging.cr3 = .list d ∧
      k.paging.pageDirectoryUsed d = true ∧
      ∀ i, i ≠ c → k.Active i → (k.processList i).directory ≠ some (.list d)
  active_count : k.activeProcessCount = (Finset.univ.filter k.Active).card

/-- The invariant of the runs. -/
structure Runs (k : KernelState) (c : Fin processCountMax) : Prop where
  settled : Settled k
  consistent : k.Consistent
  current : k.currentPid = some c
  state : (k.processList c).state = .running
  directory : (k.processList c).directory = some k.paging.cr3

theorem Runs.active (h : Runs k c) : k.Active c := by
  simp [KernelState.Active, h.state]

theorem Runs.runningConsistent (h : Runs k c) : RunningConsistent k := by
  obtain ⟨d, hruns, hused⟩ := h.consistent.runsOn c h.active
  refine ⟨⟨c, h.current, fun i => ⟨fun hi => ?_, ?_⟩, d, hruns.directory, ?_, hused, ?_⟩,
    h.consistent.active_eq⟩
  · by_contra hne
    have hcur : k.currentPid ≠ some i := by
      rw [h.current]
      exact fun heq => hne (Option.some.inj heq).symm
    rcases h.settled.idle i hcur with hstate | hstate
    · rw [hstate] at hi
      cases hi
    · rw [hstate] at hi
      cases hi
  · rintro rfl
    exact h.state
  · exact Option.some.inj (h.directory.symm.trans hruns.directory)
  · intro i hne hi hdir
    exact hne (h.consistent.directory_inj i c hi h.active (hdir.trans hruns.directory.symm))

/-- What the switch to an active slot leads to. -/
theorem Switched.runs (hs : Switched k k' ctx i) (h : k.Consistent) (hi : k.Active i)
    (hset : Settled k') : Runs k' i where
  settled := hset
  consistent := hs.consistent h hi
  current := hs.current
  state := by rw [hs.processList_self]
  directory := by
    rw [hs.processList_self]
    exact hs.cr3

/-! ### The events that keep it -/

/-- The events after which a process runs properly: not the exit of the only
process that could run, nor a kill of the caller itself. -/
def KeepsRunning (k : KernelState) : KernelEvent → Prop
  | .exit => ∃ x, k.currentPid ≠ some x ∧ (k.processList x).state = .ready
  | .kill buf => ∃ i : Fin processCountMax, killPid buf = i ∧ k.currentPid ≠ some i
  | _ => True

/-- The state `k₂` when the running process has exited, before the switch. -/
structure Exited (k k₂ : KernelState) (c : Fin processCountMax) : Prop where
  consistent : k₂.Consistent
  current : k₂.currentPid = some c
  inactive : (k₂.processList c).state = .inactive
  others : ∀ x ≠ c, k₂.processList x = k.processList x

theorem Runs.exit (h : Runs k c) (he : k.handle .exit = .ok k') :
    ∃ k₂ ctx i, Exited k k₂ c ∧ Switched k₂ k' ctx i := by
  obtain ⟨c', ref, b, k₂, ctx, i, hc, hdestroy, hi, -⟩ := handle_exit he
  obtain rfl : c = c' := Option.some.inj (h.current.symm.trans hc)
  have h₁ := h.consistent.setCr3 ref
  obtain ⟨x, hx, hcases⟩ := KernelState.processDestroy_cases h₁ hdestroy
  obtain rfl := h.settled.slot_eq (.inr h.current) hx
  obtain ⟨-, hidle, -⟩ | ⟨-, d, hd⟩ := hcases
  · exact absurd h.active hidle
  · refine ⟨k₂, ctx, i, ⟨hd.consistent h₁, hd.current.trans hc, ?_, fun y hne => ?_⟩, hi⟩
    · rw [hd.processList, Function.update_self]
    · rw [hd.processList, Function.update_of_ne hne]
      rfl

/-- The running process kills the process in slot `i`. -/
theorem Runs.kill {buf : Fin 2 → Byte} (h : Runs k c) (he : k.handle (.kill buf) = .ok k') :
    ∃ i : Fin processCountMax, killPid buf = i ∧ k'.Consistent ∧ k'.currentPid = some c ∧
      k'.paging.cr3 = k.paging.cr3 ∧ (∀ x ≠ i, k'.processList x = k.processList x) ∧
      (k'.processList i).state = .inactive := by
  obtain ⟨b, hdestroy⟩ := handle_kill he
  obtain ⟨i, hi, hcases⟩ := KernelState.processDestroy_cases h.consistent hdestroy
  refine ⟨i, killPid_eq hi, KernelState.destroy_consistent h.consistent hdestroy, ?_⟩
  obtain ⟨-, hidle, rfl⟩ | ⟨-, d, hd⟩ := hcases
  · exact ⟨h.current, rfl, fun _ _ => rfl, not_not.mp hidle⟩
  · refine ⟨hd.current.trans h.current, hd.cr3, fun x hne => ?_, ?_⟩
    · rw [hd.processList, Function.update_of_ne hne]
    · rw [hd.processList, Function.update_self]

/-- An event that `KeepsRunning` allows keeps the invariant. -/
theorem Runs.handle (h : Runs k c) (hk : KeepsRunning k e) (he : k.handle e = .ok k') :
    ∃ c', Runs k' c' := by
  have hset := handle_settled h.settled he
  -- by what happens: the search ends at a ready slot, if there is one
  cases e with
  | user fs ram =>
      cases he
      exact ⟨c, hset, h.consistent.setStore fs ram, h.current, h.state, h.directory⟩
  | timer frame =>
      obtain ⟨c', k₁, ctx, i, hs, hi, -⟩ := handle_timer he
      obtain rfl : c = c' := Option.some.inj (h.current.symm.trans hs.current)
      have h₁ := hs.consistent h.consistent h.active h.directory.symm
      have hready : (k₁.processList c).state = .ready := by rw [hs.pcb]
      have hfirst := hi.firstReady ⟨c, hready⟩
      exact ⟨i, hi.runs h₁ (by simp [KernelState.Active, hfirst.ready]) hset⟩
  | create request =>
      obtain ⟨ret, hr⟩ := handle_create he
      have h' := KernelState.create_consistent h.consistent hr
      obtain rfl | ⟨i, d, hc⟩ := processCreateUserProcess_effect hr
      · exact ⟨c, h⟩
      · have hne : c ≠ i := by
          rintro rfl
          exact h.active hc.inactive
        refine ⟨c, hset, h', hc.current.trans h.current, ?_, ?_⟩
        · rw [hc.others c hne]
          exact h.state
        · rw [hc.others c hne, hc.paging.cr3]
          exact h.directory
  -- a ready slot is left when the process has exited
  | exit =>
      obtain ⟨k₂, ctx, i, hexit, hi⟩ := h.exit he
      obtain ⟨x, hx, hready⟩ := hk
      have hne : x ≠ c := by
        rintro rfl
        exact hx h.current
      rw [← hexit.others x hne] at hready
      have hfirst := hi.firstReady ⟨x, hready⟩
      exact ⟨i, hi.runs hexit.consistent (by simp [KernelState.Active, hfirst.ready]) hset⟩
  -- the process that is killed is not the one that runs
  | kill buf =>
      obtain ⟨i, hi, h', hcur, hcr, hothers, -⟩ := h.kill he
      obtain ⟨i', hi', hne⟩ := hk
      obtain rfl : i = i' := Fin.ext (by omega)
      have hne : c ≠ i := by
        rintro rfl
        exact hne h.current
      refine ⟨c, hset, h', hcur, ?_, ?_⟩
      · rw [hothers c hne]
        exact h.state
      · rw [hothers c hne, hcr]
        exact h.directory

/-- An event that it excludes leaves no proper running process. -/
theorem Runs.not_runningConsistent (h : Runs k c) (hk : ¬ KeepsRunning k e)
    (he : k.handle e = .ok k') : ¬ RunningConsistent k' := by
  cases e with
  | user fs ram => exact absurd trivial hk
  | timer frame => exact absurd trivial hk
  | create request => exact absurd trivial hk
  | exit =>
      intro h'
      obtain ⟨k₂, ctx, i, hexit, hi⟩ := h.exit he
      -- nobody else is Ready, so the search ends at the slot that was freed
      obtain rfl : i = c := by
        rcases searchLoop_ok hi.search with hready | hcur
        · by_contra hne
          refine hk ⟨i, ?_, ?_⟩
          · rw [h.current]
            exact fun heq => hne (Option.some.inj heq).symm
          · rw [← hexit.others i hne]
            exact hready
        · exact Option.some.inj (hcur.symm.trans hexit.current)
      -- the slot is in use again, and the count does not know of it
      have hactive : k'.Active i := by simp [KernelState.Active, hi.processList_self]
      have hcard := KernelState.card_active_insert (not_not.mpr hexit.inactive) hactive
        fun x hne => by rw [KernelState.Active, KernelState.Active, hi.others x hne]
      have hcount := h'.active_count
      rw [hi.active, hexit.consistent.active_eq, hcard] at hcount
      omega
  -- the one that runs has killed itself, and nobody is Running
  | kill buf =>
      intro h'
      obtain ⟨i, hi, -, hcur, -, -, hstate⟩ := h.kill he
      obtain rfl : c = i := by
        by_contra hne
        refine hk ⟨i, hi, ?_⟩
        rw [h.current]
        exact fun heq => hne (Option.some.inj heq)
      obtain ⟨c', hc', hrunning, -⟩ := h'.running
      obtain rfl : c = c' := Option.some.inj (hcur.symm.trans hc')
      have := (hrunning c).mpr rfl
      rw [hstate] at this
      cases this

/-- Only a creation wakes an inactive slot. -/
theorem Runs.wakes (h : Runs k c) (hk : KeepsRunning k e) (he : k.handle e = .ok k')
    (hx : (k.processList x).state = .inactive) (hx' : (k'.processList x).state ≠ .inactive) :
    ∃ request, e = .create request := by
  have hne : x ≠ c := by
    rintro rfl
    exact h.active hx
  -- a switch only wakes a slot that was ready
  cases e with
  | create request => exact ⟨request, rfl⟩
  | user fs ram =>
      cases he
      exact absurd hx hx'
  | timer frame =>
      obtain ⟨c', k₁, ctx, i, hs, hi, -⟩ := handle_timer he
      obtain rfl : c = c' := Option.some.inj (h.current.symm.trans hs.current)
      have hfirst := hi.firstReady ⟨c, by rw [hs.pcb]⟩
      rw [← hs.others x hne] at hx
      have hxi : x ≠ i := by
        rintro rfl
        rw [hfirst.ready] at hx
        cases hx
      rw [hi.others x hxi] at hx'
      exact absurd hx hx'
  | exit =>
      obtain ⟨k₂, ctx, i, hexit, hi⟩ := h.exit he
      obtain ⟨y, hy, hready⟩ := hk
      have hyc : y ≠ c := by
        rintro rfl
        exact hy h.current
      rw [← hexit.others y hyc] at hready
      have hfirst := hi.firstReady ⟨y, hready⟩
      rw [← hexit.others x hne] at hx
      have hxi : x ≠ i := by
        rintro rfl
        rw [hfirst.ready] at hx
        cases hx
      rw [hi.others x hxi] at hx'
      exact absurd hx hx'
  | kill buf =>
      obtain ⟨i, -, -, -, -, hothers, hstate⟩ := h.kill he
      rcases eq_or_ne x i with rfl | hxi
      · exact absurd hstate hx'
      · rw [hothers x hxi] at hx'
        exact absurd hx hx'

/-! ### Runs after boot -/

theorem kernelSetup_runs {fs : FsState} {ram : Ram} (h : kernelSetup fs ram = .ok k) :
    ∃ c, Runs k c := by
  have hset := kernelSetup_settled h
  obtain ⟨⟨ret, k₁⟩, hcreate, h⟩ := bind_eq_ok.mp h
  obtain ⟨⟨ctx, k₂⟩, hswitch, h⟩ := bind_eq_ok.mp h
  cases h
  obtain ⟨i, hi⟩ := schedulerSwitch_eq_ok hswitch
  have h₁ := KernelState.create_consistent (KernelState.boot_consistent _ _) hcreate
  have hcur : k₁.currentPid = none := by
    obtain rfl | ⟨i, d, hc⟩ := processCreateUserProcess_effect hcreate
    · rfl
    · exact hc.current
  have hready : (k₁.processList i).state = .ready := by
    refine (searchLoop_ok hi.search).resolve_right fun hc => ?_
    rw [hcur] at hc
    cases hc
  exact ⟨i, hi.runs h₁ (by simp [KernelState.Active, hready]) hset⟩

/-- **The running process.**  While no process kills itself or exits as the
last one that could run, every state of a run after boot has a proper running
process; the next state has one exactly if its event is not one of these; and a
process that is gone stays so until its slot is used for another. -/
theorem running_consistent {fs : FsState} {ram : Ram} {k₀ : KernelState}
    (h₀ : kernelSetup fs ram = .ok k₀) (h : Reaches KernelState.step KeepsRunning k₀ k) :
    RunningConsistent k ∧ ∀ e k', k.handle e = .ok k' →
      (RunningConsistent k' ↔ KeepsRunning k e) ∧
      (KeepsRunning k e → ∀ x, (k.processList x).state = .inactive →
        (k'.processList x).state ≠ .inactive → ∃ request, e = .create request) := by
  obtain ⟨c, hc⟩ := h.invariant (I := fun k => ∃ c, Runs k c) (kernelSetup_runs h₀)
    fun ⟨c, hc⟩ hok hstep => hc.handle hok (KernelState.step_eq_some.mp hstep)
  refine ⟨hc.runningConsistent, fun e k' he => ⟨⟨fun h' => ?_, fun hk => ?_⟩, fun hk x => ?_⟩⟩
  · by_contra hk
    exact hc.not_runningConsistent hk he h'
  · obtain ⟨c', hc'⟩ := hc.handle hk he
    exact hc'.runningConsistent
  · exact hc.wakes hk he

/-- The shell creates another shell, which runs after a timer interrupt. -/
theorem running_consistent_twoShells :
    ∃ k, (k.processList 1).state = .running ∧ RunningConsistent k := by
  have hrun : (((shellKernel.step (.create shellRequest)).bind fun k₁ =>
      (k₁.step (.timer { intNumber := 0x20#32 })).map fun k₂ => (k₂.processList 1).state)) =
      some .running := by decide +kernel
  obtain ⟨k₁, h₁, hrun⟩ := Option.bind_eq_some_iff.mp hrun
  obtain ⟨k₂, h₂, hrun⟩ := Option.map_eq_some_iff.mp hrun
  exact ⟨k₂, hrun, (running_consistent shellKernel_setup
    (.tail (.single ⟨.create shellRequest, trivial, h₁⟩) ⟨.timer _, trivial, h₂⟩)).1⟩

/-- The shell kills process 0, itself: no process is Running then. -/
theorem running_not_consistent :
    ∃ k₀ k, kernelSetup shellDisk noRam = .ok k₀ ∧
      k₀.step (.kill ![48#8, 0#8]) = some k ∧ ¬ RunningConsistent k := by
  have hrun : ((shellKernel.step (.kill ![48#8, 0#8])).map fun k =>
      (k.currentPid, (k.processList 0).state)) = some (some 0, .inactive) := by decide +kernel
  obtain ⟨k, hk, hrun⟩ := Option.map_eq_some_iff.mp hrun
  obtain ⟨hcur, hstate⟩ : k.currentPid = some 0 ∧ (k.processList 0).state = .inactive := by
    simpa using hrun
  refine ⟨shellKernel, k, shellKernel_setup, hk, fun h => ?_⟩
  obtain ⟨c, hc, hrunning, -⟩ := h.running
  obtain rfl : 0 = c := Option.some.inj (hcur.symm.trans hc)
  have := (hrunning 0).mpr rfl
  rw [hstate] at this
  cases this

end Binbows
