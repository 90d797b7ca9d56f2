/-
Binbows/RoundRobin.lean

The turns of the processes.

A timer interrupt saves the current process, which makes its slot Ready, and
switches to the first Ready slot in the cyclic order.  Every slot in use is
Ready by then, so the turn goes to the next slot in use (`timer_turn`), and the
slots in use stay the same.  With the general fact about turns in cyclic order
(`Cyclic.exists_unique_turn`) that is round robin.

Main results:

* `round_robin`: the search ends at the first Ready slot, every timer interrupt
  returns, and between two turns of a process everybody else has exactly one.
-/
import Binbows.KernelRuns

namespace Binbows

open Bytes Run

variable {k k' : KernelState} {c i q x : Fin processCountMax} {ctx : Context}
  {frame : InterruptFrame}

/-! ### One timer interrupt -/

/-- Once the current process is saved, the slots in use are the Ready ones. -/
theorem Saved.ready_iff (hs : Saved k k' ctx c) (h : SettledSlots k) :
    (k'.processList x).state = .ready ↔ k.InUse x := by
  rcases eq_or_ne x c with rfl | hne
  · rw [hs.pcb]
    exact iff_of_true rfl (.inr hs.current)
  · have hcur : k.currentPid ≠ some x := by
      rw [hs.current]
      exact fun heq => hne (Option.some.inj heq).symm
    rw [hs.others x hne, KernelState.InUse, KernelState.Active, or_iff_left hcur]
    rcases h.idle x hcur with hstate | hstate
    · simp [hstate]
    · simp [hstate]

theorem Switched.firstReady (hs : Switched k k' ctx i)
    (h : ∃ x, (k.processList x).state = .ready) : k.FirstReady i := by
  obtain ⟨x, hx⟩ := KernelState.exists_firstReady h
  obtain rfl : x = i := Except.ok.inj (hx.searchNext_eq.symm.trans hs.search)
  exact hx

theorem Switched.inUse_iff (hs : Switched k k' ctx i) (hi : k.FirstReady i)
    (hidle : ∀ x, (k.processList x).state = .inactive ∨ (k.processList x).state = .ready) :
    k'.InUse x ↔ (k.processList x).state = .ready := by
  rcases eq_or_ne x i with rfl | hne
  · exact iff_of_true (.inr hs.current) hi.ready
  · have hcur : k'.currentPid ≠ some x := by
      rw [hs.current]
      exact fun heq => hne (Option.some.inj heq).symm
    rw [KernelState.InUse, KernelState.Active, or_iff_left hcur, hs.processList,
      Function.update_of_ne hne]
    rcases hidle x with hstate | hstate
    · simp [hstate]
    · simp [hstate]

/-- The turn goes to the next slot in use, and the slots in use stay the same. -/
theorem timer_turn (h : Settled k) (he : k.handle (.timer frame) = .ok k') :
    ∃ c i, k.currentPid = some c ∧ k'.currentPid = some i ∧
      Cyclic.IsNext {x | k.InUse x} c i ∧ ∀ x, k'.InUse x ↔ k.InUse x := by
  obtain ⟨c, k₁, ctx, i, hs, hi, -⟩ := handle_timer he
  have hready : ∀ x, (k₁.processList x).state = .ready ↔ k.InUse x :=
    fun x => hs.ready_iff h.toSettledSlots
  have hidle : ∀ x, (k₁.processList x).state = .inactive ∨ (k₁.processList x).state = .ready := by
    intro x
    rcases eq_or_ne x c with rfl | hne
    · exact .inr ((hready x).mpr (.inr hs.current))
    · rw [hs.others x hne]
      refine h.idle x fun hx => ?_
      exact hne (Option.some.inj (hx.symm.trans hs.current))
  have hfirst : k₁.FirstReady i := hi.firstReady ⟨c, (hready c).mpr (.inr hs.current)⟩
  refine ⟨c, i, hs.current, hi.current, ⟨(hready i).mp hfirst.ready, fun x hx => ?_⟩, fun x => ?_⟩
  · -- `position` after `c` is the rank in the cyclic order
    have hle := hfirst.first x ((hready x).mpr hx)
    rw [hs.current'] at hle
    exact hle
  · rw [hi.inUse_iff hfirst hidle, hready]

theorem schedulerSwitch_returns {ref : DirectoryRef} (hi : k.searchNext = .ok i)
    (hd : (k.processList i).directory = some ref) : ∃ r, k.schedulerSwitch = .ok r := by
  rw [KernelState.schedulerSwitch, hi]
  show ∃ r, (k.paging.usePageDirectory (k.processList i).directory >>= _) = .ok r
  rw [hd]
  exact ⟨_, rfl⟩

/-- A timer interrupt returns to user mode. -/
theorem timer_returns (h : Settled k) (hc : k.currentPid = some c) (frame : InterruptFrame) :
    ∃ k', k.handle (.timer frame) = .ok k' := by
  obtain ⟨k₁, hsave⟩ : ∃ k₁, k.schedulerSave (k.frameContext frame) = .ok k₁ := by
    unfold KernelState.schedulerSave KernelState.processGetCurrentRunningPcbPointer
    rw [hc]
    exact ⟨_, rfl⟩
  obtain ⟨c', hs⟩ := schedulerSave_eq_ok hsave
  -- the process that was interrupted is Ready, so the search ends
  obtain ⟨i, hi⟩ := KernelState.exists_firstReady (k := k₁)
    ⟨c', (hs.ready_iff h.toSettledSlots).mpr (.inr hs.current)⟩
  obtain ⟨d, hd⟩ := (hs.settledSlots h).directory i (.inl (by simp [KernelState.Active, hi.ready]))
  obtain ⟨⟨ctx, k₂⟩, hswitch⟩ := schedulerSwitch_returns hi.searchNext_eq hd
  refine ⟨k₂, ?_⟩
  rw [KernelState.handle, KernelState.timerInterrupt, hsave]
  show (k₁.schedulerSwitch >>= _) = .ok k₂
  rw [hswitch]
  rfl

/-! ### Runs of timer interrupts -/

/-- `s 0, …, s n` are the states of a run of timer interrupts, with user code
and its file requests running before each of them. -/
def TimerRun (s : Nat → KernelState) (n : Nat) : Prop :=
  ∀ l < n, ∃ fs ram frame, ((s l).setStore fs ram).handle (.timer frame) = .ok (s (l + 1))

/-- The process that the run selects at `l`. -/
def turn (s : Nat → KernelState) (l : Nat) : Fin processCountMax := ((s l).currentPid).getD 0

theorem Settled.setStore (h : Settled k) (fs : FsState) (ram : Ram) : Settled (k.setStore fs ram) :=
  ⟨⟨h.idle, h.pid, h.directory⟩, h.cr3⟩

/-- One step of a run, in terms of its turns. -/
structure TurnStep (s : Nat → KernelState) (l : Nat) : Prop where
  settled : Settled (s (l + 1))
  inUse_iff : ∀ x, (s (l + 1)).InUse x ↔ (s l).InUse x
  current : (s l).currentPid = some (turn s l)
  current' : (s (l + 1)).currentPid = some (turn s (l + 1))
  next : Cyclic.IsNext {x | (s l).InUse x} (turn s l) (turn s (l + 1))

variable {s : Nat → KernelState} {n l m m' : Nat} {p : Fin processCountMax}

theorem TimerRun.turnStep (hrun : TimerRun s n) (hl : l < n) (h : Settled (s l)) :
    TurnStep s l := by
  obtain ⟨fs, ram, frame, he⟩ := hrun l hl
  have hset := h.setStore fs ram
  obtain ⟨c, i, hc, hi, hnext, hkeep⟩ := timer_turn hset he
  have hturn : turn s l = c := congrArg (Option.getD · 0) hc
  have hturn' : turn s (l + 1) = i := congrArg (Option.getD · 0) hi
  refine ⟨handle_settled hset he, hkeep, ?_, ?_, ?_⟩
  · rw [hturn]
    exact hc
  · rw [hturn']
    exact hi
  · rw [hturn, hturn']
    exact hnext

/-- The slots in use stay the same along a run. -/
theorem TimerRun.settled (hrun : TimerRun s n) (h : Settled (s 0)) :
    ∀ l ≤ n, Settled (s l) ∧ ∀ x, (s l).InUse x ↔ (s 0).InUse x := by
  intro l
  induction l with
  | zero => exact fun _ => ⟨h, fun x => Iff.rfl⟩
  | succ l ih =>
      intro hl
      obtain ⟨hset, huse⟩ := ih (by omega)
      have hstep := hrun.turnStep (by omega) hset
      exact ⟨hstep.settled, fun x => (hstep.inUse_iff x).trans (huse x)⟩

/-- Between two consecutive turns of `p` every other slot in use has one. -/
theorem TimerRun.exists_unique_turn (hrun : TimerRun s n) (h : Settled (s 0)) (hm : m < m')
    (hn : m' ≤ n) (hfirst : (s m).currentPid = some p) (hlast : (s m').currentPid = some p)
    (hbetween : ∀ l, m < l → l < m' → (s l).currentPid ≠ some p)
    (hq : (s m).InUse q) (hne : q ≠ p) :
    ∃! l, (m < l ∧ l < m') ∧ (s l).currentPid = some q := by
  have hinv := hrun.settled h
  have hstep : ∀ l < n, TurnStep s l := fun l hl => hrun.turnStep hl (hinv l (by omega)).1
  -- in a run of at least one step every state has a current process
  have hcur : ∀ l, l ≤ m' → ∀ x, (s l).currentPid = some x ↔ turn s l = x := by
    intro l hl x
    have hsome : (s l).currentPid = some (turn s l) := by
      rcases Nat.lt_or_ge l n with hlt | hge
      · exact (hstep l hlt).current
      · obtain ⟨j, rfl⟩ : ∃ j, l = j + 1 := ⟨l - 1, by omega⟩
        exact (hstep j (by omega)).current'
    rw [hsome, Option.some_inj]
  have hset : ∀ l ≤ n, {x | (s l).InUse x} = {x | (s 0).InUse x} :=
    fun l hl => Set.ext (hinv l hl).2
  have hp : p ∈ {x | (s 0).InUse x} := ((hinv m (by omega)).2 p).mp (.inr hfirst)
  obtain ⟨l, ⟨hl, hlq⟩, huniq⟩ := Cyclic.exists_unique_turn (turn s) hm hp
    (fun l _ hl' => by
      have hnext := (hstep l (by omega)).next
      rwa [hset l (by omega)] at hnext)
    ((hcur m (by omega) p).mp hfirst) ((hcur m' le_rfl p).mp hlast)
    (fun l hl hl' heq => hbetween l hl hl' ((hcur l (by omega) p).mpr heq))
    (((hinv m (by omega)).2 q).mp hq) hne
  refine ⟨l, ⟨hl, (hcur l (by omega) q).mpr hlq⟩, ?_⟩
  rintro l' ⟨hl', hlq'⟩
  exact huniq l' ⟨hl', (hcur l' (by omega) q).mp hlq'⟩

/-- **Round robin without starvation.**  The search of the scheduler ends at
the first Ready slot in the cyclic order whenever there is one.  So in every
state of the kernel a timer interrupt returns, and in a run of timer interrupts
every other active process is selected exactly once between two consecutive
selections of one process. -/
theorem round_robin :
    (∀ k : KernelState, (∃ x, (k.processList x).state = .ready) →
      ∃ x, k.searchNext = .ok x ∧ k.FirstReady x) ∧
    ∀ fs ram k₀ k, kernelSetup fs ram = .ok k₀ →
      Reaches KernelState.step (fun _ _ => True) k₀ k →
      (∀ fs ram frame, ∃ k', (k.setStore fs ram).handle (.timer frame) = .ok k') ∧
      ∀ s n m m' p, s 0 = k → TimerRun s n → m < m' → m' ≤ n →
        (s m).currentPid = some p → (s m').currentPid = some p →
        (∀ l, m < l → l < m' → (s l).currentPid ≠ some p) →
        ∀ q, (s m).Active q → q ≠ p →
          ∃! l, (m < l ∧ l < m') ∧ (s l).currentPid = some q := by
  refine ⟨fun k hk => ?_, fun fs ram k₀ k h₀ hk => ⟨fun fs ram frame => ?_, ?_⟩⟩
  · obtain ⟨x, hx⟩ := KernelState.exists_firstReady hk
    exact ⟨x, hx.searchNext_eq, hx⟩
  · obtain ⟨c, hc⟩ := reaches_current h₀ hk
    exact timer_returns ((reaches_settled h₀ hk).setStore fs ram) hc frame
  · rintro s n m m' p rfl hrun hm hn hfirst hlast hbetween q hq hne
    exact hrun.exists_unique_turn (reaches_settled h₀ hk) hm hn hfirst hlast hbetween
      (.inl hq) hne

/-- The shell creates another shell, and two timer interrupts follow. -/
theorem round_robin_twoShells :
    ∃ s : Nat → KernelState, (s 0).currentPid = some 0 ∧ (s 0).Active 1 ∧ TimerRun s 2 ∧
      ∃! l, (0 < l ∧ l < 2) ∧ (s l).currentPid = some 1 := by
  let tick : KernelEvent := .timer { intNumber := 0x20#32 }
  have hrun : (((shellKernel.run [.create shellRequest]).bind fun k₀ =>
      (k₀.step tick).bind fun k₁ => (k₁.step tick).map fun k₂ =>
        (k₀.currentPid, (k₀.processList 1).state, k₁.currentPid, k₂.currentPid))) =
      some (some 0, .ready, some 1, some 0) := by decide +kernel
  obtain ⟨k₀, hk₀, hrun⟩ := Option.bind_eq_some_iff.mp hrun
  obtain ⟨k₁, hk₁, hrun⟩ := Option.bind_eq_some_iff.mp hrun
  obtain ⟨k₂, hk₂, hrun⟩ := Option.map_eq_some_iff.mp hrun
  obtain ⟨hc₀, hstate, hc₁, hc₂⟩ : k₀.currentPid = some 0 ∧ (k₀.processList 1).state = .ready ∧
      k₁.currentPid = some 1 ∧ k₂.currentPid = some 0 := by simpa using hrun
  let s : Nat → KernelState := fun l => if l = 0 then k₀ else if l = 1 then k₁ else k₂
  have hticks : TimerRun s 2 := by
    intro l hl
    refine ⟨(s l).fs, (s l).ram, { intNumber := 0x20#32 }, KernelState.step_eq_some.mp ?_⟩
    obtain rfl | rfl : l = 0 ∨ l = 1 := by omega
    · exact hk₁
    · exact hk₂
  have hactive : (s 0).Active 1 := by
    intro h
    rw [show (s 0).processList = k₀.processList from rfl, hstate] at h
    cases h
  refine ⟨s, hc₀, hactive, hticks, ?_⟩
  refine (round_robin.2 _ _ _ _ shellKernel_setup (KernelState.run_reaches hk₀)).2 s 2 0 2 0 rfl
    hticks (by decide) le_rfl hc₀ hc₂ (fun l hl hl' => ?_) 1 hactive (by decide)
  obtain rfl : l = 1 := by omega
  rw [show (s 1).currentPid = some 1 from hc₁]
  decide

end Binbows
