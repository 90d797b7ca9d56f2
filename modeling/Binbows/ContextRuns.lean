/-
Binbows/ContextRuns.lean

A process from a timer interrupt to its next turn.

While others run, the context that was saved for a process stays in its control
block (`Suspension.context_eq`).  So what it gets back is decided by the stub on
the way in and by `process_context_switch` on the way out, where three things
get lost: ESP when the low bits of DS are clear, null selectors other than 0,
and EAX, which is loaded through the wrong base.

Main results:

* `context_restored_iff`: when a process continues with the registers it was
  interrupted with.
-/
import Binbows.ContextSwitch
import Binbows.RunningProcess

namespace Binbows

open Bytes Run X86

variable {k k' : KernelState} {p c i x : Fin processCountMax} {ctx : Context} {e : KernelEvent}
  {frame : InterruptFrame} {layout : KernelLayout}

/-! ### Address spaces -/

/-- What the processor sees through a directory. -/
def PageDirectory.space (dir : PageDirectory) (ram : Ram) : Space := fun a =>
  if (dir (pageIndex a)).flag.presentBit then some (dir.addressSpace ram a) else none

/-- The address space in CR3. -/
def KernelState.space (k : KernelState) : Space :=
  (k.paging.directory k.paging.cr3).space k.ram

/-! ### The context in the control block -/

/-- What an event passes to `process_context_switch`, if it ends there. -/
def KernelState.switch (k : KernelState) : KernelEvent → Except KernelFault (Context × KernelState)
  | .timer frame => k.timerInterrupt frame
  | .exit => k.syscallExit
  | _ => .error .noReturn

/-- An event while others run and that is no kill of `p` leaves the control
block of `p` alone, or ends in a switch to the context in it. -/
theorem handle_others (h : Settled k) (he : k.handle e = .ok k') (hp : k.Active p)
    (hcur : k.currentPid ≠ some p) (halive : ∀ buf, e = .kill buf → killPid buf ≠ p) :
    (k'.currentPid ≠ some p ∧ k'.processList p = k.processList p) ∨
      (k'.currentPid = some p ∧ k.switch e = .ok ((k.processList p).context, k')) := by
  have hne : ∀ {c}, k.currentPid = some c → p ≠ c := by
    rintro c hc rfl
    exact hcur hc
  -- the switch at the end of a timer interrupt or an exit
  have hswitch : ∀ {k₁ ctx i}, Switched k₁ k' ctx i → k₁.processList p = k.processList p →
      k.switch e = .ok (ctx, k') →
      (k'.currentPid ≠ some p ∧ k'.processList p = k.processList p) ∨
        (k'.currentPid = some p ∧ k.switch e = .ok ((k.processList p).context, k')) := by
    intro k₁ ctx i hi hpcb hswitch
    rcases eq_or_ne p i with rfl | hpi
    · rw [hi.context, hpcb] at hswitch
      exact .inr ⟨hi.current, hswitch⟩
    · refine .inl ⟨?_, (hi.others p hpi).trans hpcb⟩
      rw [hi.current]
      exact fun heq => hpi (Option.some.inj heq).symm
  -- by what happens: only the scheduler hands the machine to `p`
  cases e with
  | user fs ram =>
      cases he
      exact .inl ⟨hcur, rfl⟩
  | timer frame =>
      obtain ⟨c, k₁, ctx, i, hs, hi, htimer⟩ := handle_timer he
      exact hswitch hi (hs.others p (hne hs.current)) htimer
  | create request =>
      obtain ⟨ret, hr⟩ := handle_create he
      obtain rfl | ⟨i, d, hc⟩ := processCreateUserProcess_effect hr
      · exact .inl ⟨hcur, rfl⟩
      · refine .inl ⟨hc.current ▸ hcur, hc.others p ?_⟩
        rintro rfl
        exact hp hc.inactive
  -- the process that exits is another one
  | exit =>
      obtain ⟨c, ref, b, k₂, ctx, i, hc, hdestroy, hi, hexit⟩ := handle_exit he
      obtain ⟨x, hpid, hd⟩ := processDestroy_effect hdestroy
      obtain rfl := h.slot_eq (.inr hc) hpid
      exact hswitch hi (hd.others p (hne hc)) hexit
  | kill buf =>
      obtain ⟨b, hdestroy⟩ := handle_kill he
      obtain ⟨i, hi, hd⟩ := processDestroy_effect hdestroy
      refine .inl ⟨hd.current ▸ hcur, hd.others p ?_⟩
      rintro rfl
      exact halive buf rfl (killPid_eq hi)

/-- Process `p` is interrupted by the timer in `s 0`, others run, and the event
in `s n` goes back to `p`. -/
structure Suspension (p : Fin processCountMax) (frame : InterruptFrame) (s : Nat → KernelState)
    (e : Nat → KernelEvent) (n : Nat) : Prop where
  interrupted : (s 0).currentPid = some p
  timer : e 0 = .timer frame
  run : ∀ l ≤ n, (s l).handle (e l) = .ok (s (l + 1))
  others : ∀ l, 0 < l → l ≤ n → (s l).currentPid ≠ some p
  alive : ∀ l, 0 < l → l ≤ n → ∀ buf, e l = .kill buf → killPid buf ≠ p
  back : (s (n + 1)).currentPid = some p

/-- The context that is saved for `p` is the one that is loaded for it. -/
theorem Suspension.switch_eq {s : Nat → KernelState} {e : Nat → KernelEvent} {n : Nat}
    (h : Suspension p frame s e n) (hset : Settled (s 0)) :
    (s n).switch (e n) = .ok ((s 0).frameContext frame, s (n + 1)) := by
  have hfirst := h.run 0 (Nat.zero_le n)
  rw [h.timer] at hfirst
  obtain ⟨c, k₁, ctx, i, hs, hi, htimer⟩ := handle_timer hfirst
  obtain rfl : p = c := Option.some.inj (h.interrupted.symm.trans hs.current)
  have hpcb : k₁.processList p = { (s 0).processList p with
      context := (s 0).frameContext frame, state := .ready } := hs.pcb
  -- by the length of the suspension
  rcases Nat.eq_zero_or_pos n with rfl | hpos
  · -- the search comes back to `p` at once
    obtain rfl : p = i := Option.some.inj (h.back.symm.trans hi.current)
    rw [h.timer]
    refine htimer.trans ?_
    rw [hi.context, hpcb]
  · -- what the control block of `p` holds while others run
    have hkeeps : ∀ l, 0 < l → l ≤ n → Settled (s l) ∧ (s l).processList p = k₁.processList p := by
      intro l hl
      induction l, hl using Nat.le_induction with
      | base =>
          intro _
          have hpi : p ≠ i := by
            rintro rfl
            exact h.others 1 Nat.one_pos hpos hi.current
          exact ⟨handle_settled hset hfirst, hi.others p hpi⟩
      | succ l hl ih =>
          intro hn
          obtain ⟨hsl, hpl⟩ := ih (by omega)
          have hstep := h.run l (by omega)
          have hactive : (s l).Active p := by simp [KernelState.Active, hpl, hpcb]
          refine ⟨handle_settled hsl hstep, ?_⟩
          rcases handle_others hsl hstep hactive (h.others l hl (by omega))
              (h.alive l hl (by omega)) with ⟨-, heq⟩ | ⟨hcur, -⟩
          · exact heq.trans hpl
          · exact absurd hcur (h.others (l + 1) (Nat.succ_pos l) hn)
    obtain ⟨hsn, hpn⟩ := hkeeps n hpos le_rfl
    -- at the end the scheduler comes to `p`, and loads what its block holds
    have hactive : (s n).Active p := by simp [KernelState.Active, hpn, hpcb]
    rcases handle_others hsn (h.run n le_rfl) hactive (h.others n hpos le_rfl)
        (h.alive n hpos le_rfl) with ⟨hcur, -⟩ | ⟨-, hswitch⟩
    · exact absurd h.back hcur
    · rw [hpn, hpcb] at hswitch
      exact hswitch

/-! ### What is restored -/

/-- When `process_context_switch` gives a process back the registers that it was
interrupted with: `ctx` is its saved context and `mem` its address space. -/
structure Restored (layout : KernelLayout) (program : Program) (ctx : Context) (mem : Space) :
    Prop where
  /-- the kernel's stack can be accessed -/
  stack : StackPresent layout mem
  /-- the context can be read through DS -/
  ds : ¬ (program.seg .ds).IsNull
  /-- the stub took ESP from the user's stack, or the kernel's was the same -/
  esp : LooksLikeKernel program.toCpu → program.gpr .esp = layout.esp0 - 44
  /-- no null selector is lost -/
  null : ∀ s, (program.seg s).IsNull → program.seg s = 0
  /-- EAX is found where the process's own ECX points to -/
  eax : (switchMemory layout ctx mem).load32 (program.gpr .ecx + 28) = some (program.gpr .eax)

theorem selector_savedFrame (k : KernelState) (layout : KernelLayout) (program : Program) :
    (k.frameContext (savedFrame layout program)).selector = program.seg := by
  funext s
  have hwidth : ∀ v : Selector, (v.setWidth 32).setWidth 16 = v := by
    intro v
    simp
  cases s <;> exact hwidth _

/-- What the saved context resumes is the program itself exactly if ESP, the
selectors and EAX are. -/
theorem resumed_eq_iff (k : KernelState) (layout : KernelLayout) (program : UserProgram)
    (eax : Word) :
    (k.frameContext (savedFrame layout program.toProgram)).resumed eax = program.toProgram ↔
      (LooksLikeKernel program.toCpu → program.gpr .esp = layout.esp0 - 44) ∧
      (∀ s, (program.seg s).IsNull → program.seg s = 0) ∧ eax = program.gpr .eax := by
  have hesp : (k.frameContext (savedFrame layout program.toProgram)).gpr .esp =
      if LooksLikeKernel program.toCpu then layout.esp0 - 44 else program.gpr .esp := rfl
  -- `iret` leaves a null selector as zero
  have hleave : ∀ s, ((k.frameContext (savedFrame layout program.toProgram)).resumed eax).seg s =
      if (program.seg s).IsNull then 0 else program.seg s := by
    intro s
    rw [Context.resumed, selector_savedFrame]
    exact (program.loadable s).leave_eq
  constructor
  · intro h
    have hgpr := congrArg (fun p : Program => p.gpr) h
    have hseg := congrArg (fun p : Program => p.seg) h
    refine ⟨fun hkernel => ?_, fun s hnull => ?_, ?_⟩
    · have := congrFun hgpr .esp
      rw [if_pos hkernel] at hesp
      exact (this.symm.trans hesp)
    · have := hleave s
      rw [if_pos hnull] at this
      exact (congrFun hseg s).symm.trans this
    · exact congrFun hgpr .eax
  -- the registers one by one: only esp may have been pushed from elsewhere
  · rintro ⟨hkernel, hnull, rfl⟩
    refine Program.ext (funext fun r => ?_) (funext fun s => ?_) rfl rfl
    · cases r with
      | esp =>
          refine hesp.trans ?_
          split_ifs with hlooks
          · exact (hkernel hlooks).symm
          · rfl
      | _ => rfl
    · rw [hleave]
      split_ifs with hs
      · exact (hnull s hs).symm
      · rfl

/-- **The context switch.**  A process that the timer interrupts, and that is
not destroyed while others run, is switched back to with the context that was
saved; it continues with all of its registers if and only if `Restored` holds
of the address space it comes back to. -/
theorem context_restored_iff {fs : FsState} {ram : Ram} {k₀ : KernelState}
    (h₀ : kernelSetup fs ram = .ok k₀) {s : Nat → KernelState} {e : Nat → KernelEvent} {n : Nat}
    (hreach : Reaches KernelState.step (fun _ _ => True) k₀ (s 0))
    (hsusp : Suspension p frame s e n) (cpu : Cpu) (program : UserProgram)
    (hframe : timerFrame layout program.toProgram (s 0).space = some frame) :
    ∃ ctx, (s n).switch (e n) = .ok (ctx, s (n + 1)) ∧
      (switchTo layout cpu ctx (s (n + 1)).space = some program.toProgram ↔
        Restored layout program.toProgram ctx (s (n + 1)).space) := by
  refine ⟨_, hsusp.switch_eq (reaches_settled h₀ hreach), ?_⟩
  obtain rfl := timerFrame_eq_some hframe
  have hselector := selector_savedFrame (s 0) layout program.toProgram
  rw [switchTo_eq_some fun s => by rw [hselector]; exact (program.loadable s).inner, hselector]
  constructor
  · rintro ⟨hstack, hds, eax, hload, hprogram⟩
    obtain ⟨hesp, hnull, heax⟩ := (resumed_eq_iff _ _ _ _).mp hprogram.symm
    exact ⟨hstack, hds, hesp, hnull, heax ▸ hload⟩
  · rintro ⟨hstack, hds, hesp, hnull, hload⟩
    exact ⟨hstack, hds, _, hload, ((resumed_eq_iff _ _ _ _).mpr ⟨hesp, hnull, rfl⟩).symm⟩

/-! ### The shell of the examples -/

def shellLayout : KernelLayout where
  esp0 := 0xC0300000
  esp := 0xC02FFF00
  handlerReturn := 0xC0100100
  switchReturn := 0xC0100200
  pageDirectory _ := 0xC0200000

/-- The shell with `eax` in EAX and 0 in ECX, so that EAX is loaded from address
28, which holds 0. -/
def shellProgram (eax : Word) : UserProgram where
  gpr
    | .esp => 0x3FFFFC
    | .eax => eax
    | _ => 0
  seg _ := userDataSelector
  eflags := 0x202
  eip := 0x10
  loadable _ := by decide

/-- The shell, interrupted with 0 in EAX, continues as it was after another
shell has run. -/
theorem context_restored_twoShells :
    ∃ (k k' : KernelState) (ctx : Context),
      switchTo shellLayout (shellProgram 0).toCpu ctx k'.space = some (shellProgram 0).toProgram ∧
        k.currentPid = some 1 ∧ k'.currentPid = some 0 := by
  -- the second shell runs for one time slice
  let frame := savedFrame shellLayout (shellProgram 0).toProgram
  let tick : KernelEvent := .timer { intNumber := 0x20#32 }
  have hrun : (((shellKernel.run [.create shellRequest]).bind fun k₀ =>
      (k₀.step (.timer frame)).bind fun k₁ => (k₁.step tick).map fun k₂ => decide (
        (timerFrame shellLayout (shellProgram 0).toProgram k₀.space).isSome ∧
        k₀.currentPid = some 0 ∧ k₁.currentPid = some 1 ∧ k₂.currentPid = some 0 ∧
        (List.range 84).all (fun j =>
          (k₂.space (shellLayout.esp - 84 + BitVec.ofNat 32 j)).isSome) ∧
        (switchMemory shellLayout (k₀.frameContext frame) k₂.space).load32 28 = some 0))) =
      some true := by decide +kernel
  obtain ⟨k₀, hk₀, hrun⟩ := Option.bind_eq_some_iff.mp hrun
  obtain ⟨k₁, hk₁, hrun⟩ := Option.bind_eq_some_iff.mp hrun
  obtain ⟨k₂, hk₂, hrun⟩ := Option.map_eq_some_iff.mp hrun
  obtain ⟨hframe, hc₀, hc₁, hc₂, hpresent, hload⟩ := of_decide_eq_true hrun
  obtain ⟨frame', hframe⟩ := Option.isSome_iff_exists.mp hframe
  have hsaved : frame' = frame := timerFrame_eq_some hframe
  let s : Nat → KernelState := fun l => if l = 0 then k₀ else if l = 1 then k₁ else k₂
  let e : Nat → KernelEvent := fun l => if l = 0 then .timer frame else tick
  -- the run between the two ticks
  have hsusp : Suspension 0 frame s e 1 := by
    refine ⟨hc₀, rfl, fun l hl => KernelState.step_eq_some.mp ?_, fun l hpos hl => ?_,
      fun l hpos hl buf hbuf => ?_, hc₂⟩
    · obtain rfl | rfl : l = 0 ∨ l = 1 := by omega
      · exact hk₁
      · exact hk₂
    · obtain rfl : l = 1 := by omega
      rw [show (s 1).currentPid = some 1 from hc₁]
      decide
    · obtain rfl : l = 1 := by omega
      cases hbuf
  obtain ⟨ctx, hctx, hiff⟩ := context_restored_iff shellKernel_setup
    (KernelState.run_reaches hk₀) hsusp (shellProgram 0).toCpu (shellProgram 0)
    (hsaved ▸ hframe)
  refine ⟨k₁, k₂, ctx, hiff.mpr ⟨?_, by decide, fun h => absurd h (by decide), ?_, ?_⟩, hc₁, hc₂⟩
  · intro j hj
    exact List.all_eq_true.mp hpresent j (List.mem_range.mpr hj)
  · exact fun s hnull => absurd hnull (show ¬ Selector.IsNull userDataSelector by decide)
  · have hsame := hctx.symm.trans (hsusp.switch_eq
      (reaches_settled shellKernel_setup (KernelState.run_reaches hk₀)))
    cases hsame
    exact hload

/-- Interrupted with 1 in EAX, it comes back with 0. -/
theorem context_not_restored :
    ∃ frame ctx k', kernelSetup shellDisk noRam = .ok shellKernel ∧
      timerFrame shellLayout (shellProgram 1).toProgram shellKernel.space = some frame ∧
      shellKernel.switch (.timer frame) = .ok (ctx, k') ∧
      shellKernel.currentPid = some 0 ∧ k'.currentPid = some 0 ∧
      ∀ cpu, switchTo shellLayout cpu ctx k'.space ≠ some (shellProgram 1).toProgram := by
  let frame := savedFrame shellLayout (shellProgram 1).toProgram
  have hframe : (timerFrame shellLayout (shellProgram 1).toProgram shellKernel.space).isSome := by
    decide +kernel
  obtain ⟨frame', hframe⟩ := Option.isSome_iff_exists.mp hframe
  obtain rfl : frame' = frame := timerFrame_eq_some hframe
  -- the interrupted process is taken up again at once, with 0 in eax
  have hrun : ((shellKernel.switch (.timer frame)).toOption.map fun r =>
      (shellKernel.currentPid, r.2.currentPid,
        (switchMemory shellLayout r.1 r.2.space).load32 (r.1.cpu.ecx + 28))) =
      some (some 0, some 0, some 0) := by decide +kernel
  obtain ⟨⟨ctx, k'⟩, hswitch, hrun⟩ := Option.map_eq_some_iff.mp hrun
  simp only [Prod.mk.injEq] at hrun
  obtain ⟨hc, hc', hload⟩ := hrun
  have hswitch := toOption_eq_some.mp hswitch
  have hsusp : Suspension 0 frame (fun l => if l = 0 then shellKernel else k')
      (fun _ => .timer frame) 0 := by
    refine ⟨hc, rfl, fun l hl => ?_, fun l hpos hl => absurd hl (by omega),
      fun l hpos hl => absurd hl (by omega), hc'⟩
    obtain rfl : l = 0 := by omega
    show shellKernel.handle (.timer frame) = .ok k'
    have htimer : shellKernel.timerInterrupt frame = .ok (ctx, k') := hswitch
    rw [KernelState.handle, htimer]
    rfl
  have hctx : ctx = shellKernel.frameContext frame := by
    have hreach : Reaches KernelState.step (fun _ _ => True) shellKernel shellKernel := .refl
    have hsame := hswitch.symm.trans
      (hsusp.switch_eq (reaches_settled shellKernel_setup hreach))
    cases hsame
    rfl
  refine ⟨frame, ctx, k', shellKernel_setup, hframe, hswitch, hc, hc', fun cpu hprogram => ?_⟩
  rw [switchTo_eq_some] at hprogram
  · obtain ⟨-, -, eax, heax, hprogram⟩ := hprogram
    obtain rfl : 0 = eax := Option.some.inj (hload.symm.trans heax)
    have heax : (1 : Word) = 0 := congrArg (fun p : Program => p.gpr .eax) hprogram
    exact absurd heax (by decide)
  · intro s
    rw [hctx, selector_savedFrame]
    exact ((shellProgram 1).loadable s).inner

end Binbows
