/-
Binbows/ContextSwitch.lean

The way of a process through the kernel and back (`cpu/intsetup.s`,
`kernel-entrypoint.s`): the stub that the timer interrupt enters through and
that lays out the `InterruptFrame`, and `process_context_switch`, which loads a
`Context` and leaves the kernel.
-/
import Binbows.Library.X86
import Binbows.RoundRobin

namespace Binbows

open Bytes Run X86

/-! ### Descriptors -/

/-- `global_descriptor_table`: null, kernel code and data, user code and data,
the task state segment, and entries that were never filled in. -/
def globalDescriptorTable : DescriptorTable :=
  [⟨0, false, 0, false⟩, ⟨0xA, true, 0, true⟩, ⟨0x2, true, 0, true⟩, ⟨0xA, true, 3, true⟩,
    ⟨0x2, true, 3, true⟩, ⟨0x9, false, 0, true⟩] ++ List.replicate 26 ⟨0, false, 0, false⟩

/-- `GDT_USER_CODE_SELECTOR`, with user privilege. -/
def userCodeSelector : Selector := 0x18 ||| 0x3

/-- `GDT_USER_DATA_SELECTOR`, with user privilege. -/
def userDataSelector : Selector := 0x20 ||| 0x3

/-- A process in user mode: its segment registers hold what ring 3 can load. -/
structure UserProgram extends Program where
  loadable : ∀ s, globalDescriptorTable.Loadable 3 (seg s)

/-- The addresses that the linker and the compiler have chosen. -/
structure KernelLayout where
  /-- `_interrupt_tss_entry.esp0` -/
  esp0 : Word
  /-- the stack pointer when `scheduler_switch_to_next_process` has pushed
  nothing yet for its call of `process_context_switch` -/
  esp : Word
  /-- the instruction after the call of `main_interrupt_handler` -/
  handlerReturn : Word
  /-- the instruction after the call of `process_context_switch` -/
  switchReturn : Word
  pageDirectory : Option DirectoryRef → Word

/-! ### The interrupt stub -/

/-- `struct CPURegister` at an address. -/
def CPURegister.read (m : Space) (a : Word) : Option CPURegister := do
  return {
    edi := ← m.load32 (a + 0)
    esi := ← m.load32 (a + 4)
    ebp := ← m.load32 (a + 8)
    esp := ← m.load32 (a + 12)
    ebx := ← m.load32 (a + 16)
    edx := ← m.load32 (a + 20)
    ecx := ← m.load32 (a + 24)
    eax := ← m.load32 (a + 28)
    gs := ← m.load32 (a + 32)
    fs := ← m.load32 (a + 36)
    es := ← m.load32 (a + 40)
    ds := ← m.load32 (a + 44) }

/-- `struct InterruptFrame` at an address. -/
def InterruptFrame.read (m : Space) (a : Word) : Option InterruptFrame := do
  return {
    cpu := ← CPURegister.read m a
    intNumber := ← m.load32 (a + 48)
    errorCode := ← m.load32 (a + 52)
    eip := ← m.load32 (a + 56)
    cs := ← m.load32 (a + 60)
    eflags := ← m.load32 (a + 64) }

/-- `segment_register_setup`, up to the call of `main_interrupt_handler`; the
result is the argument of that call. -/
def segmentRegisterSetup (layout : KernelLayout) (m : Machine) : Option InterruptFrame := do
  let m := m.mov .eax ((m.gpr .eax &&& 0xFFFF0000) ||| 0x10)
  let m ← m.movSegment globalDescriptorTable .ds ((m.gpr .eax).setWidth 16)
  let m ← m.movSegment globalDescriptorTable .es ((m.gpr .eax).setWidth 16)
  let m ← m.movSegment globalDescriptorTable .fs ((m.gpr .eax).setWidth 16)
  let m ← m.movSegment globalDescriptorTable .gs ((m.gpr .eax).setWidth 16)
  let m ← m.pop .eax
  let m ← m.popf
  let m := m.mov .ebp m.esp
  let m ← m.push layout.handlerReturn
  InterruptFrame.read m.mem (m.esp + 4)

/-- `interprivilege_interrupt`: the stack pointer that the processor pushed goes
into the frame. -/
def interprivilegeInterrupt (layout : KernelLayout) (m : Machine) : Option InterruptFrame := do
  let m ← m.load .eax .esp 76
  let m ← m.store .esp 20 .eax
  segmentRegisterSetup layout m

/-- `call_generic_handler`. -/
def callGenericHandler (layout : KernelLayout) (m : Machine) : Option InterruptFrame := do
  let m ← m.pushSegment .ds
  let m ← m.pushSegment .es
  let m ← m.pushSegment .fs
  let m ← m.pushSegment .gs
  let m ← m.pushad
  let m ← m.pushf
  let m ← m.push (m.gpr .eax)
  let m ← m.load .eax .esp 52
  let m := m.mov .eax (m.gpr .eax &&& 0x3)
  if m.gpr .eax = 0 then segmentRegisterSetup layout m
  else interprivilegeInterrupt layout m

/-- `no_error_code_interrupt_handler`. -/
def interruptHandler (layout : KernelLayout) (intNumber : Word) (m : Machine) :
    Option InterruptFrame := do
  let m ← m.push 0
  let m ← m.push intNumber
  callGenericHandler layout m

/-- What `main_interrupt_handler` gets when the timer interrupts a process. -/
def timerFrame (layout : KernelLayout) (program : Program) (mem : Space) :
    Option InterruptFrame := do
  let m ← Machine.interruptEntry program userCodeSelector userDataSelector layout.esp0 mem
  interruptHandler layout 0x20 m

/-! ### The context switch -/

/-- `process_context_switch` loads the segment registers first. -/
def loadSegments (m : Machine) : Option Machine := do
  let m ← m.loadSegment globalDescriptorTable .gs .esp 36
  let m ← m.loadSegment globalDescriptorTable .fs .esp 40
  let m ← m.loadSegment globalDescriptorTable .es .esp 44
  m.loadSegment globalDescriptorTable .ds .esp 48

/-- The words for `iret`, with the address of `ctx` in ECX. -/
def pushReturnState (m : Machine) : Option Machine := do
  let m := m.mov .ecx (m.esp + 0x04)
  let m := m.mov .eax (0x20 ||| 0x3)
  let m ← m.push (m.gpr .eax)
  let m ← m.load .eax .ecx 12
  let m ← m.push (m.gpr .eax)
  let m ← m.load .eax .ecx 52
  let m ← m.push (m.gpr .eax)
  let m := m.mov .eax (0x18 ||| 0x3)
  let m ← m.push (m.gpr .eax)
  let m ← m.load .eax .ecx 48
  m.push (m.gpr .eax)

/-- The rest of the registers.  ECX is one of them, so EAX is loaded through
the ECX of the process. -/
def loadRegisters (m : Machine) : Option Machine := do
  let m ← m.load .edi .ecx 0
  let m ← m.load .esi .ecx 4
  let m ← m.load .ebp .ecx 8
  let m ← m.load .ebx .ecx 16
  let m ← m.load .edx .ecx 20
  let m ← m.load .ecx .ecx 24
  m.load .eax .ecx 28

/-- `process_context_switch`, with its argument on the stack. -/
def processContextSwitch (m : Machine) : Option Program := do
  let m ← loadSegments m
  let m ← pushReturnState m
  let m ← loadRegisters m
  m.iret globalDescriptorTable

def CPURegister.words (cpu : CPURegister) : List Word :=
  [cpu.edi, cpu.esi, cpu.ebp, cpu.esp, cpu.ebx, cpu.edx, cpu.ecx, cpu.eax, cpu.gs, cpu.fs, cpu.es,
    cpu.ds]

/-- `struct Context` in memory. -/
def Context.words (layout : KernelLayout) (ctx : Context) : List Word :=
  ctx.cpu.words ++ [ctx.eip, ctx.eflags, layout.pageDirectory ctx.pageDirectoryVirtualAddr]

/-- The words that the call of `process_context_switch` pushes, the last word of
its argument first. -/
def callWords (layout : KernelLayout) (ctx : Context) : List Word :=
  (ctx.words layout).reverse ++ [layout.switchReturn]

/-- The call of `process_context_switch` at the end of
`scheduler_switch_to_next_process`, in the address space of the next process. -/
def switchTo (layout : KernelLayout) (cpu : Cpu) (ctx : Context) (mem : Space) :
    Option Program := do
  let m : Machine := { cpu with mem := mem }
  let m ← (m.mov .esp layout.esp).pushAll (callWords layout ctx)
  processContextSwitch m

/-! ### The frame of a timer interrupt -/

def InterruptFrame.words (frame : InterruptFrame) : List Word :=
  frame.cpu.words ++ [frame.intNumber, frame.errorCode, frame.eip, frame.cs, frame.eflags]

theorem CPURegister.read_of_holds {m : Space} {a : Word} {ws : List Word} {cpu : CPURegister}
    (h : m.Holds a (cpu.words ++ ws)) : CPURegister.read m a = some cpu := by
  have hedi : m.load32 (a + 0) = some cpu.edi := h.load (i := 0) rfl rfl
  have hesi : m.load32 (a + 4) = some cpu.esi := h.load (i := 1) rfl rfl
  have hebp : m.load32 (a + 8) = some cpu.ebp := h.load (i := 2) rfl rfl
  have hesp : m.load32 (a + 12) = some cpu.esp := h.load (i := 3) rfl rfl
  have hebx : m.load32 (a + 16) = some cpu.ebx := h.load (i := 4) rfl rfl
  have hedx : m.load32 (a + 20) = some cpu.edx := h.load (i := 5) rfl rfl
  have hecx : m.load32 (a + 24) = some cpu.ecx := h.load (i := 6) rfl rfl
  have heax : m.load32 (a + 28) = some cpu.eax := h.load (i := 7) rfl rfl
  have hgs : m.load32 (a + 32) = some cpu.gs := h.load (i := 8) rfl rfl
  have hfs : m.load32 (a + 36) = some cpu.fs := h.load (i := 9) rfl rfl
  have hes : m.load32 (a + 40) = some cpu.es := h.load (i := 10) rfl rfl
  have hds : m.load32 (a + 44) = some cpu.ds := h.load (i := 11) rfl rfl
  simp only [CPURegister.read, hedi, hesi, hebp, hesp, hebx, hedx, hecx, heax, hgs, hfs, hes, hds]
  rfl

/-- What is laid out as a frame is read as that frame. -/
theorem InterruptFrame.read_of_holds {m : Space} {a : Word} {ws : List Word}
    {frame : InterruptFrame} (h : m.Holds a (frame.words ++ ws)) :
    InterruptFrame.read m a = some frame := by
  have hwords : m.Holds a (frame.cpu.words ++
      ([frame.intNumber, frame.errorCode, frame.eip, frame.cs, frame.eflags] ++ ws)) := by
    rw [← List.append_assoc]
    exact h
  have hcpu := CPURegister.read_of_holds hwords
  have hnumber : m.load32 (a + 48) = some frame.intNumber := h.load (i := 12) rfl rfl
  have herror : m.load32 (a + 52) = some frame.errorCode := h.load (i := 13) rfl rfl
  have heip : m.load32 (a + 56) = some frame.eip := h.load (i := 14) rfl rfl
  have hcs : m.load32 (a + 60) = some frame.cs := h.load (i := 15) rfl rfl
  have heflags : m.load32 (a + 64) = some frame.eflags := h.load (i := 16) rfl rfl
  simp only [InterruptFrame.read, hcpu, hnumber, herror, heip, hcs, heflags]
  rfl

variable {layout : KernelLayout} {m : Machine} {frame f : InterruptFrame} {ws : List Word}
  {eax eflags esp : Word}

theorem segmentRegisterSetup_eq_some (h : segmentRegisterSetup layout m = some frame)
    (hs : m.Stack (eax :: eflags :: (f.words ++ ws))) (hlen : ws.length < 100) : frame = f := by
  unfold segmentRegisterSetup at h
  obtain ⟨m₁, h₁, h⟩ := Option.bind_eq_some_iff.mp h
  obtain ⟨m₂, h₂, h⟩ := Option.bind_eq_some_iff.mp h
  obtain ⟨m₃, h₃, h⟩ := Option.bind_eq_some_iff.mp h
  obtain ⟨m₄, h₄, h⟩ := Option.bind_eq_some_iff.mp h
  obtain ⟨m₅, h₅, h⟩ := Option.bind_eq_some_iff.mp h
  obtain ⟨m₆, h₆, h⟩ := Option.bind_eq_some_iff.mp h
  obtain ⟨m₇, h₇, h⟩ := Option.bind_eq_some_iff.mp h
  have hs₄ := (((hs.mov (by decide)).movSegment h₁).movSegment h₂).movSegment h₃ |>.movSegment h₄
  have hs₆ := (hs₄.pop (by decide) h₅).popf h₆
  have hwords : (f.words ++ ws).length < 120 := by
    simp [InterruptFrame.words, CPURegister.words]
    omega
  have hs₇ := (hs₆.mov (by decide)).push (by omega) h₇
  have hframe := hs₇.drop (n := 1) (b := m₇.esp + 4) rfl
  exact Option.some.inj (h.symm.trans (InterruptFrame.read_of_holds hframe))

theorem interprivilegeInterrupt_eq_some (h : interprivilegeInterrupt layout m = some frame)
    (hs : m.Stack (eax :: eflags :: (f.words ++ esp :: ws))) (hlen : ws.length < 90) :
    frame = { f with cpu := { f.cpu with esp := esp } } := by
  unfold interprivilegeInterrupt at h
  obtain ⟨m₁, h₁, hstore⟩ := Option.bind_eq_some_iff.mp h
  obtain ⟨m₂, h₂, hsetup⟩ := Option.bind_eq_some_iff.mp hstore
  -- the user's stack pointer lies above the frame
  have hload : m.load .eax .esp 76 = some (m.mov .eax esp) := hs.load (i := 19) rfl rfl
  obtain rfl := Option.some.inj (hload.symm.trans h₁)
  have hwords : (eax :: eflags :: (f.words ++ esp :: ws)).length = ws.length + 20 := by
    simp [InterruptFrame.words, CPURegister.words]
  have hs₂ : m₂.Stack (eax :: eflags ::
      (({ f with cpu := { f.cpu with esp := esp } } : InterruptFrame).words ++ esp :: ws)) := by
    have hstore := (hs.mov (by decide)).store (i := 5) (by omega) (by omega) rfl h₂
    rwa [Machine.mov_gpr_self] at hstore
  refine segmentRegisterSetup_eq_some hsetup hs₂ ?_
  rw [List.length_cons]
  omega

/-- The registers in the order of `struct CPURegister`, with `esp` for ESP. -/
def registersOf (cpu : Cpu) (esp : Word) : CPURegister where
  edi := cpu.gpr .edi
  esi := cpu.gpr .esi
  ebp := cpu.gpr .ebp
  esp := esp
  ebx := cpu.gpr .ebx
  edx := cpu.gpr .edx
  ecx := cpu.gpr .ecx
  eax := cpu.gpr .eax
  gs := (cpu.seg .gs).setWidth 32
  fs := (cpu.seg .fs).setWidth 32
  es := (cpu.seg .es).setWidth 32
  ds := (cpu.seg .ds).setWidth 32

/-- The low bits of DS are clear: the stub takes the interrupt for one inside
the kernel. -/
def LooksLikeKernel (cpu : Cpu) : Prop := (cpu.seg .ds).setWidth 32 &&& 0x3#32 = 0

instance (cpu : Cpu) : Decidable (LooksLikeKernel cpu) := inferInstanceAs (Decidable (_ = _))

/-- The frame that the stub makes of the registers and of what is on the stack
already. -/
theorem callGenericHandler_eq_some {intNumber errorCode eip cs ss : Word}
    (h : callGenericHandler layout m = some frame)
    (hs : m.Stack [intNumber, errorCode, eip, cs, eflags, esp, ss]) :
    frame = {
      cpu := registersOf m.toCpu (if LooksLikeKernel m.toCpu then m.esp - 16 else esp)
      intNumber, errorCode, eip, cs, eflags } := by
  unfold callGenericHandler at h
  obtain ⟨m₁, h₁, hes⟩ := Option.bind_eq_some_iff.mp h
  obtain ⟨m₂, h₂, hfs⟩ := Option.bind_eq_some_iff.mp hes
  obtain ⟨m₃, h₃, hgs⟩ := Option.bind_eq_some_iff.mp hfs
  obtain ⟨m₄, h₄, hall⟩ := Option.bind_eq_some_iff.mp hgs
  obtain ⟨m₅, h₅, hflags⟩ := Option.bind_eq_some_iff.mp hall
  obtain ⟨m₆, h₆, heax⟩ := Option.bind_eq_some_iff.mp hflags
  obtain ⟨m₇, h₇, hload⟩ := Option.bind_eq_some_iff.mp heax
  obtain ⟨m₈, h₈, hjump⟩ := Option.bind_eq_some_iff.mp hload
  -- the four segment registers, `pushad`, the flags and eax
  obtain ⟨-, rfl⟩ := Machine.push_eq_some.mp h₁
  obtain ⟨-, rfl⟩ := Machine.push_eq_some.mp h₂
  obtain ⟨-, rfl⟩ := Machine.push_eq_some.mp h₃
  obtain ⟨-, rfl⟩ := Machine.push_eq_some.mp h₄
  obtain rfl := Machine.pushad_eq_some h₅
  obtain ⟨-, rfl⟩ := Machine.push_eq_some.mp h₆
  obtain ⟨-, hm₇⟩ := Machine.push_eq_some.mp h₇
  -- the frame as it is before the low bits of DS are looked at
  let f : InterruptFrame :=
    { cpu := registersOf m.toCpu (m.esp - 4 - 4 - 4 - 4), intNumber, errorCode, eip, cs, eflags }
  let pushes : List Word := [(m.seg .ds).setWidth 32, (m.seg .es).setWidth 32,
    (m.seg .fs).setWidth 32, (m.seg .gs).setWidth 32, m.gpr .eax, m.gpr .ecx, m.gpr .edx,
    m.gpr .ebx, m.esp - 4 - 4 - 4 - 4, m.gpr .ebp, m.gpr .esi, m.gpr .edi, m.eflags, m.gpr .eax]
  have hpushes : m₇ = m.pushedAll pushes := hm₇
  -- the words that the stub has pushed are those of the frame
  have hs₇ : m₇.Stack (m.gpr .eax :: m.eflags :: (f.words ++ [esp, ss])) := by
    rw [hpushes]
    exact hs.pushedAll pushes (by simp [pushes])
  have hds : m₇.load .eax .esp 52 = some (m₇.mov .eax ((m.seg .ds).setWidth 32)) :=
    hs₇.load (i := 13) rfl rfl
  obtain rfl := Option.some.inj (hds.symm.trans h₈)
  have hs₈ := (hs₇.mov (r := .eax) (v := (m.seg .ds).setWidth 32) (by decide)).mov
    (r := .eax) (v := (m.seg .ds).setWidth 32 &&& 0x3) (by decide)
  dsimp only at hjump
  rw [Machine.mov_gpr_self, Machine.mov_gpr_self] at hjump
  have hesp : m.esp - 4 - 4 - 4 - 4 = m.esp - 16 := by bv_omega
  -- the stub goes on by the low bits of DS
  split_ifs at hjump with hzero
  · have hkernel : LooksLikeKernel m.toCpu := hzero
    rw [if_pos hkernel, ← hesp]
    exact segmentRegisterSetup_eq_some hjump hs₈ (by simp)
  · have huser : ¬ LooksLikeKernel m.toCpu := hzero
    rw [if_neg huser]
    exact interprivilegeInterrupt_eq_some hjump hs₈ (by simp)

/-- The frame of a timer interrupt.  ESP is the one of the kernel's stack when
the stub takes the interrupt for one inside the kernel. -/
def savedFrame (layout : KernelLayout) (program : Program) : InterruptFrame where
  cpu := registersOf program.toCpu
    (if LooksLikeKernel program.toCpu then layout.esp0 - 44 else program.gpr .esp)
  intNumber := 0x20
  errorCode := 0
  eip := program.eip
  cs := userCodeSelector.setWidth 32
  eflags := program.eflags

theorem timerFrame_eq_some {program : Program} {mem : Space}
    (h : timerFrame layout program mem = some frame) : frame = savedFrame layout program := by
  unfold timerFrame at h
  obtain ⟨m₁, h₁, hhandler⟩ := Option.bind_eq_some_iff.mp h
  obtain rfl := Machine.interruptEntry_eq_some h₁
  unfold interruptHandler at hhandler
  obtain ⟨m₂, h₂, hnumber⟩ := Option.bind_eq_some_iff.mp hhandler
  obtain ⟨m₃, h₃, hgeneric⟩ := Option.bind_eq_some_iff.mp hnumber
  obtain ⟨-, rfl⟩ := Machine.push_eq_some.mp h₂
  obtain ⟨-, rfl⟩ := Machine.push_eq_some.mp h₃
  have hs := Machine.Stack.pushedAll (m := Machine.mov { program with mem := mem } .esp layout.esp0)
    [userDataSelector.setWidth 32, program.gpr .esp, program.eflags,
      userCodeSelector.setWidth 32, program.eip, 0, 0x20] Space.Holds.nil (by simp)
  have hframe := callGenericHandler_eq_some hgeneric hs
  have hesp : layout.esp0 - 4 - 4 - 4 - 4 - 4 - 4 - 4 - 16 = layout.esp0 - 44 := by bv_omega
  rw [savedFrame, ← hesp]
  exact hframe

/-! ### The registers that the context switch loads -/

def Context.gpr (ctx : Context) : Gpr → Word
  | .edi => ctx.cpu.edi
  | .esi => ctx.cpu.esi
  | .ebp => ctx.cpu.ebp
  | .esp => ctx.cpu.esp
  | .ebx => ctx.cpu.ebx
  | .edx => ctx.cpu.edx
  | .ecx => ctx.cpu.ecx
  | .eax => ctx.cpu.eax

def Context.selector (ctx : Context) : Seg → Selector
  | .gs => ctx.cpu.gs.setWidth 16
  | .fs => ctx.cpu.fs.setWidth 16
  | .es => ctx.cpu.es.setWidth 16
  | .ds => ctx.cpu.ds.setWidth 16

/-- What `iret` takes. -/
def Context.returnWords (ctx : Context) : List Word :=
  [0x23, ctx.cpu.esp, ctx.eflags, 0x1B, ctx.eip]

/-- The memory when EAX is loaded. -/
def switchMemory (layout : KernelLayout) (ctx : Context) (mem : Space) : Space :=
  mem.pushed layout.esp (callWords layout ctx ++ ctx.returnWords)

/-- The process after the context switch, with `eax` in EAX. -/
def Context.resumed (ctx : Context) (eax : Word) : Program where
  gpr := Function.update ctx.gpr .eax eax
  seg := fun s => globalDescriptorTable.leave (ctx.selector s)
  eflags := ctx.eflags
  eip := ctx.eip

variable {ctx : Context} {m' : Machine} {mem : Space} {cpu : Cpu} {program : Program}

theorem loadSegments_eq (hs : m.Stack (layout.switchReturn :: ctx.words layout))
    (hloadable : ∀ s, globalDescriptorTable.Loadable 0 (ctx.selector s)) :
    loadSegments m = some { m with seg := ctx.selector } := by
  have hstep : ∀ (seg : Seg → Selector) (s : Seg) (i : Nat) (offset w : Word),
      offset = BitVec.ofNat 32 (4 * i) →
      (layout.switchReturn :: ctx.words layout)[i]? = some w →
      w.setWidth 16 = ctx.selector s →
      Machine.loadSegment globalDescriptorTable { m with seg := seg } s .esp offset =
        some { m with seg := Function.update seg s (ctx.selector s) } := by
    intro seg s i offset w ho hw hselector
    have hseg : Machine.Stack { m with seg := seg } (layout.switchReturn :: ctx.words layout) := hs
    rw [hseg.loadSegment ho hw, hselector]
    exact Machine.movSegment_eq_some.mpr ⟨hloadable s, rfl⟩
  simp only [loadSegments, Option.bind_eq_bind]
  rw [hstep m.seg .gs 9 36 _ rfl rfl rfl, Option.bind_some, hstep _ .fs 10 40 _ rfl rfl rfl,
    Option.bind_some, hstep _ .es 11 44 _ rfl rfl rfl, Option.bind_some,
    hstep _ .ds 12 48 _ rfl rfl rfl]
  refine congrArg (fun seg => some ({ m with seg := seg } : Machine)) ?_
  funext s
  cases s <;> rfl

/-- It gets through only if the pages of the stack are there and DS is not
null. -/
theorem pushReturnState_present (h : pushReturnState m = some m') :
    m.mem.Present (m.esp - 20) 20 ∧ ¬ (m.seg .ds).IsNull := by
  simp only [pushReturnState, Option.bind_eq_bind] at h
  obtain ⟨m₁, hpush₁, h₁⟩ := Option.bind_eq_some_iff.mp h
  obtain ⟨m₂, hload₁, h₂⟩ := Option.bind_eq_some_iff.mp h₁
  obtain ⟨m₃, hpush₂, h₃⟩ := Option.bind_eq_some_iff.mp h₂
  obtain ⟨m₄, hload₂, h₄⟩ := Option.bind_eq_some_iff.mp h₃
  obtain ⟨m₅, hpush₃, h₅⟩ := Option.bind_eq_some_iff.mp h₄
  obtain ⟨m₇, hpush₄, h₇⟩ := Option.bind_eq_some_iff.mp h₅
  obtain ⟨m₈, hload₃, hpush₅⟩ := Option.bind_eq_some_iff.mp h₇
  obtain ⟨hds, w₁, -, rfl⟩ := Machine.load_eq_some.mp hload₁
  obtain ⟨-, w₂, -, rfl⟩ := Machine.load_eq_some.mp hload₂
  obtain ⟨-, w₃, -, rfl⟩ := Machine.load_eq_some.mp hload₃
  -- each push finds its word present, and the pages stay
  obtain ⟨p₁, e₁, t₁⟩ := Machine.push_present hpush₁
  obtain ⟨p₂, e₂, t₂⟩ := Machine.push_present hpush₂
  obtain ⟨p₃, e₃, t₃⟩ := Machine.push_present hpush₃
  obtain ⟨p₄, e₄, t₄⟩ := Machine.push_present hpush₄
  obtain ⟨p₅, -, -⟩ := Machine.push_present hpush₅
  -- in terms of the pages that were there before
  have e₁ : m₁.esp = m.esp - 4 := e₁
  have e₂ : m₃.esp = m₁.esp - 4 := e₂
  have e₃ : m₅.esp = m₃.esp - 4 := e₃
  have e₄ : m₇.esp = m₅.esp - 4 := e₄
  have p₂ : m.mem.Present (m₁.esp - 4) 4 := (t₁ _ _).mp p₂
  have p₃ : m.mem.Present (m₃.esp - 4) 4 := (t₁ _ _).mp ((t₂ _ _).mp p₃)
  have p₄ : m.mem.Present (m₅.esp - 4) 4 := (t₁ _ _).mp ((t₂ _ _).mp ((t₃ _ _).mp p₄))
  have p₅ : m.mem.Present (m₇.esp - 4) 4 :=
    (t₁ _ _).mp ((t₂ _ _).mp ((t₃ _ _).mp ((t₄ _ _).mp p₅)))
  -- the five words lie next to each other
  have p₄₅ := (Space.present_add (n := 4) (k := 4) (b := m₅.esp - 4) (by bv_omega)).mpr ⟨p₅, p₄⟩
  have p₃₅ := (Space.present_add (n := 8) (k := 4) (b := m₃.esp - 4) (by bv_omega)).mpr ⟨p₄₅, p₃⟩
  have p₂₅ := (Space.present_add (n := 12) (k := 4) (b := m₁.esp - 4) (by bv_omega)).mpr ⟨p₃₅, p₂⟩
  have p₁₅ := (Space.present_add (n := 16) (k := 4) (b := m.esp - 4) (by bv_omega)).mpr ⟨p₂₅, p₁⟩
  have hesp : m₇.esp - 4 = m.esp - 20 := by bv_omega
  rw [hesp] at p₁₅
  have hseg : m₁.seg .ds = m.seg .ds := by
    rw [(Machine.push_eq_some.mp hpush₁).2]
    rfl
  rw [← hseg]
  exact ⟨p₁₅, (hds.resolve_left (by decide)).resolve_left (by decide)⟩

/-- The machine `m'` on the way through `pushReturnState`: since `m` it has
pushed `front`, the last word first, and ECX is the address of `ctx`. -/
structure Pushing (layout : KernelLayout) (ctx : Context) (m m' : Machine) (front : List Word) :
    Prop where
  stack : m'.Stack (front ++ layout.switchReturn :: ctx.words layout)
  ecx : m'.gpr .ecx = m.esp + 4
  esp : m'.esp = m.esp - BitVec.ofNat 32 (4 * front.length)
  seg : m'.seg = m.seg
  present : m'.mem.Present (m.esp - 20) 20
  mem : m'.mem = m.mem.pushed m.esp front.reverse

variable {front : List Word} {v w offset : Word} {i : Nat}

theorem Pushing.mov (h : Pushing layout ctx m m' front) :
    Pushing layout ctx m (m'.mov .eax v) front where
  stack := h.stack.mov (by decide)
  ecx := (Machine.mov_gpr_of_ne (by decide)).trans h.ecx
  esp := (Machine.mov_gpr_of_ne (by decide)).trans h.esp
  seg := h.seg
  present := h.present
  mem := h.mem

theorem Pushing.push (h : Pushing layout ctx m m' front) (hv : m'.gpr .eax = v)
    (hfront : front.length < 5) :
    ∃ m₁, m'.push (m'.gpr .eax) = some m₁ ∧ Pushing layout ctx m m₁ (v :: front) := by
  have hword : (m'.mem.load32 (m'.esp - 4)).isSome := by
    refine h.present.load32_isSome (i := 16 - 4 * front.length) ?_ (by omega)
    rw [h.esp]
    bv_omega
  subst hv
  refine ⟨m'.pushed (m'.gpr .eax), Machine.push_eq_some.mpr ⟨hword, rfl⟩, ?_⟩
  constructor
  · refine h.stack.pushed ?_
    simp [Context.words, CPURegister.words]
    omega
  · exact (Machine.pushed_gpr (by decide)).trans h.ecx
  · rw [Machine.pushed_esp, h.esp, List.length_cons]
    bv_omega
  · exact h.seg
  · exact h.present.write32
  · rw [List.reverse_cons, Space.pushed_concat, ← h.mem, List.length_reverse, ← h.esp]
    rfl

theorem Pushing.holds (h : Pushing layout ctx m m' front) :
    m'.mem.Holds (m'.gpr .ecx) (ctx.words layout) := by
  have hdrop := h.stack.drop (n := front.length + 1) (b := m'.gpr .ecx) (by
    rw [h.ecx, h.esp]
    bv_omega)
  simpa using hdrop

/-- A word of `ctx` is loaded. -/
theorem Pushing.load (h : Pushing layout ctx m m' front) (hds : ¬ (m.seg .ds).IsNull)
    (ho : offset = BitVec.ofNat 32 (4 * i)) (hw : (ctx.words layout)[i]? = some w) :
    m'.load .eax .ecx offset = some (m'.mov .eax w) :=
  Machine.load_of_holds h.holds (.inr (.inr (h.seg ▸ hds))) ho hw

/-- Otherwise it puts the words for `iret` on the stack. -/
theorem pushReturnState_eq (hs : m.Stack (layout.switchReturn :: ctx.words layout))
    (hpresent : m.mem.Present (m.esp - 20) 20) (hds : ¬ (m.seg .ds).IsNull) :
    ∃ m', pushReturnState m = some m' ∧ Pushing layout ctx m m' ctx.returnWords.reverse := by
  have h₀ : Pushing layout ctx m (m.mov .ecx (m.esp + 0x04)) [] := by
    refine ⟨hs.mov (by decide), Machine.mov_gpr_self, ?_, rfl, hpresent, rfl⟩
    exact (Machine.mov_gpr_of_ne (by decide)).trans (by simp)
  have h₁ := h₀.mov (v := 0x20 ||| 0x3)
  obtain ⟨m₂, hpush₂, h₂⟩ := h₁.push (v := 0x23) Machine.mov_gpr_self (by decide)
  have hload₃ : m₂.load .eax .ecx 12 = _ := h₂.load (i := 3) hds rfl rfl
  have h₃ := h₂.mov (v := ctx.cpu.esp)
  obtain ⟨m₄, hpush₄, h₄⟩ := h₃.push Machine.mov_gpr_self (by simp)
  have hload₅ : m₄.load .eax .ecx 52 = _ := h₄.load (i := 13) hds rfl rfl
  have h₅ := h₄.mov (v := ctx.eflags)
  obtain ⟨m₆, hpush₆, h₆⟩ := h₅.push Machine.mov_gpr_self (by simp)
  have h₇ := h₆.mov (v := 0x18 ||| 0x3)
  obtain ⟨m₈, hpush₈, h₈⟩ := h₇.push (v := 0x1B) Machine.mov_gpr_self (by simp)
  have hload₉ : m₈.load .eax .ecx 48 = _ := h₈.load (i := 12) hds rfl rfl
  have h₉ := h₈.mov (v := ctx.eip)
  obtain ⟨m₁₀, hpush₁₀, h₁₀⟩ := h₉.push Machine.mov_gpr_self (by simp)
  refine ⟨m₁₀, ?_, h₁₀⟩
  simp only [pushReturnState, Option.bind_eq_bind]
  rw [hpush₂, Option.bind_some, hload₃, Option.bind_some, hpush₄, Option.bind_some, hload₅,
    Option.bind_some, hpush₆, Option.bind_some, hpush₈, Option.bind_some, hload₉,
    Option.bind_some, hpush₁₀]

/-- Every register but ESP and EAX is loaded from `ctx`, and EAX through the
ECX that was just loaded. -/
theorem loadRegisters_eq (hctx : m.mem.Holds (m.gpr .ecx) (ctx.words layout))
    (hds : ¬ (m.seg .ds).IsNull) :
    ∃ m' : Machine, loadRegisters m = (m.mem.load32 (ctx.cpu.ecx + 28)).map (m'.mov .eax) ∧
      m'.mem = m.mem ∧ m'.esp = m.esp ∧ m'.seg = m.seg ∧
      ∀ r, r ≠ .esp → r ≠ .eax → m'.gpr r = ctx.gpr r := by
  -- six of the registers come from the block, which ecx points to until it is loaded
  have hload : ∀ (m' : Machine) (r : Gpr) (i : Nat) (offset w : Word), m'.mem = m.mem →
      m'.gpr .ecx = m.gpr .ecx → m'.seg = m.seg → offset = BitVec.ofNat 32 (4 * i) →
      (ctx.words layout)[i]? = some w → m'.load r .ecx offset = some (m'.mov r w) := by
    intro m' r i offset w hmem hecx hseg ho hw
    refine Machine.load_of_holds ?_ (.inr (.inr (hseg ▸ hds))) ho hw
    rw [hmem, hecx]
    exact hctx
  let m₁ := m.mov .edi ctx.cpu.edi
  let m₂ := m₁.mov .esi ctx.cpu.esi
  let m₃ := m₂.mov .ebp ctx.cpu.ebp
  let m₄ := m₃.mov .ebx ctx.cpu.ebx
  let m₅ := m₄.mov .edx ctx.cpu.edx
  -- eax is loaded last, through the new ecx
  have hlast : (m₅.mov .ecx ctx.cpu.ecx).load .eax .ecx 28 =
      (m.mem.load32 (ctx.cpu.ecx + 28)).map ((m₅.mov .ecx ctx.cpu.ecx).mov .eax) := by
    have hds' : ¬ ((m₅.mov .ecx ctx.cpu.ecx).seg .ds).IsNull := hds
    rw [Machine.load, if_pos (.inr (.inr hds')), Machine.mov_gpr_self]
    rfl
  refine ⟨m₅.mov .ecx ctx.cpu.ecx, ?_, rfl, rfl, rfl, ?_⟩
  · simp only [loadRegisters, Option.bind_eq_bind]
    rw [hload m .edi 0 0 _ rfl rfl rfl rfl rfl, Option.bind_some,
      hload m₁ .esi 1 4 _ rfl rfl rfl rfl rfl, Option.bind_some,
      hload m₂ .ebp 2 8 _ rfl rfl rfl rfl rfl, Option.bind_some,
      hload m₃ .ebx 4 16 _ rfl rfl rfl rfl rfl, Option.bind_some,
      hload m₄ .edx 5 20 _ rfl rfl rfl rfl rfl, Option.bind_some,
      hload m₅ .ecx 6 24 _ rfl rfl rfl rfl rfl, Option.bind_some]
    exact hlast
  · intro r hesp heax
    cases r with
    | esp => exact absurd rfl hesp
    | eax => exact absurd rfl heax
    | _ => rfl

/-- `process_context_switch`, when the pages of the stack are there and DS is
not null. -/
theorem processContextSwitch_eq (hs : m.Stack (layout.switchReturn :: ctx.words layout))
    (hloadable : ∀ s, globalDescriptorTable.Loadable 0 (ctx.selector s))
    (hpresent : m.mem.Present (m.esp - 20) 20) (hds : ¬ (ctx.selector .ds).IsNull) :
    processContextSwitch m =
      ((m.mem.pushed m.esp ctx.returnWords).load32 (ctx.cpu.ecx + 28)).map ctx.resumed := by
  have hsegs := loadSegments_eq hs hloadable
  generalize hm₁ : ({ m with seg := ctx.selector } : Machine) = m₁ at hsegs
  have hs₁ : m₁.Stack (layout.switchReturn :: ctx.words layout) := by
    rw [← hm₁]
    exact hs
  obtain ⟨m₂, hpush, h₂⟩ := pushReturnState_eq hs₁ (by rw [← hm₁]; exact hpresent)
    (by rw [← hm₁]; exact hds)
  have hseg₂ : m₂.seg = ctx.selector := by
    rw [h₂.seg, ← hm₁]
  -- the loads leave the memory and the stack as they are
  obtain ⟨m₃, hloads, hmem₃, hesp₃, hseg₃, hgpr₃⟩ := loadRegisters_eq h₂.holds (by
    rw [hseg₂]
    exact hds)
  have hmem₂ : m₂.mem = m.mem.pushed m.esp ctx.returnWords := by
    rw [h₂.mem, ← hm₁, List.reverse_reverse]
  simp only [processContextSwitch, Option.bind_eq_bind]
  rw [hsegs, Option.bind_some, hpush, Option.bind_some, hloads, hmem₂]
  rcases (m.mem.pushed m.esp ctx.returnWords).load32 (ctx.cpu.ecx + 28) with - | v
  · rfl
  -- what `iret` pops: the words that were pushed before
  · have hs₃ : (m₃.mov .eax v).Stack
        (ctx.eip :: 0x1B :: ctx.eflags :: ctx.cpu.esp :: 0x23 :: layout.switchReturn ::
          ctx.words layout) := by
      rw [Machine.Stack, Machine.mov_mem, hmem₃]
      show m₂.mem.Holds m₃.esp _
      rw [hesp₃]
      exact h₂.stack
    show (m₃.mov .eax v).iret globalDescriptorTable = some (ctx.resumed v)
    rw [hs₃.iret (by decide) (by decide)]
    refine congrArg some (Program.ext (funext fun r => ?_) ?_ rfl rfl)
    · rcases eq_or_ne r .esp with rfl | hesp
      · rfl
      · rcases eq_or_ne r .eax with rfl | heax
        · rfl
        · show Function.update (Function.update m₃.gpr .eax v) .esp _ r =
            Function.update ctx.gpr .eax v r
          rw [Function.update_of_ne hesp, Function.update_of_ne heax, Function.update_of_ne heax,
            hgpr₃ r hesp heax]
    · rw [Machine.mov_seg, hseg₃, hseg₂]
      rfl

/-- It gets through only then. -/
theorem processContextSwitch_eq_some (hs : m.Stack (layout.switchReturn :: ctx.words layout))
    (hloadable : ∀ s, globalDescriptorTable.Loadable 0 (ctx.selector s)) :
    processContextSwitch m = some program ↔
      m.mem.Present (m.esp - 20) 20 ∧ ¬ (ctx.selector .ds).IsNull ∧
      ∃ eax, (m.mem.pushed m.esp ctx.returnWords).load32 (ctx.cpu.ecx + 28) = some eax ∧
        program = ctx.resumed eax := by
  constructor
  · intro h
    obtain ⟨m₂, h₂, hrest⟩ := Option.bind_eq_some_iff.mp h
    obtain rfl := Option.some.inj ((loadSegments_eq hs hloadable).symm.trans h₂)
    obtain ⟨m₃, h₃, -⟩ := Option.bind_eq_some_iff.mp hrest
    obtain ⟨hp, hds⟩ := pushReturnState_present h₃
    rw [processContextSwitch_eq hs hloadable hp hds] at h
    obtain ⟨eax, hload, hprogram⟩ := Option.map_eq_some_iff.mp h
    exact ⟨hp, hds, eax, hload, hprogram.symm⟩
  · rintro ⟨hp, hds, eax, hload, rfl⟩
    rw [processContextSwitch_eq hs hloadable hp hds, hload]
    rfl

/-- The stack that the context switch uses. -/
def StackPresent (layout : KernelLayout) (mem : Space) : Prop := mem.Present (layout.esp - 84) 84

/-- The whole of the switch to a context whose selectors can be loaded. -/
theorem switchTo_eq_some (hloadable : ∀ s, globalDescriptorTable.Loadable 0 (ctx.selector s)) :
    switchTo layout cpu ctx mem = some program ↔
      StackPresent layout mem ∧ ¬ (ctx.selector .ds).IsNull ∧
      ∃ eax, (switchMemory layout ctx mem).load32 (ctx.cpu.ecx + 28) = some eax ∧
        program = ctx.resumed eax := by
  have hlength : (callWords layout ctx).length = 16 := rfl
  obtain ⟨m, hm, hmem, hesp⟩ : ∃ m : Machine, m = Machine.mov { cpu with mem := mem } .esp layout.esp ∧
      m.mem = mem ∧ m.esp = layout.esp := ⟨_, rfl, rfl, Machine.mov_gpr_self⟩
  -- the call pushes its argument, which is the whole context, and where to return
  have hcall : ∀ {m'}, m.pushAll (callWords layout ctx) = some m' ↔
      mem.Present (layout.esp - 64) 64 ∧ m' = m.pushedAll (callWords layout ctx) := by
    intro m'
    rw [Machine.pushAll_eq_some (by rw [hlength]; decide), hlength, hesp, hmem]
    rfl
  -- the part after the call
  have hswitch : ∀ m₁, m.pushAll (callWords layout ctx) = some m₁ →
      (processContextSwitch m₁ = some program ↔
        mem.Present (layout.esp - 84) 20 ∧ ¬ (ctx.selector .ds).IsNull ∧
        ∃ eax, (switchMemory layout ctx mem).load32 (ctx.cpu.ecx + 28) = some eax ∧
          program = ctx.resumed eax) := by
    intro m₁ hm₁
    have hpresent := Machine.pushAll_present hm₁
    obtain ⟨-, hpushed⟩ := hcall.mp hm₁
    have hs₁ : m₁.Stack (layout.switchReturn :: ctx.words layout) := by
      rw [hpushed]
      exact Machine.Stack.pushedAll (callWords layout ctx) Space.Holds.nil
        (by rw [hlength]; decide)
    have hesp₁ : m₁.esp = layout.esp - 64 := by
      rw [hpushed, Machine.pushedAll_esp, hlength, hesp]
      rfl
    have hmem₁ : m₁.mem.pushed m₁.esp ctx.returnWords = switchMemory layout ctx mem := by
      rw [hesp₁, hpushed, Machine.pushedAll_mem, hesp, hmem, switchMemory, Space.pushed_append,
        hlength]
      rfl
    have hbelow : layout.esp - 64 - 20 = layout.esp - 84 := by bv_omega
    rw [processContextSwitch_eq_some hs₁ hloadable, hmem₁, hpresent, hesp₁, hbelow, hmem]
  -- the two stretches of the stack lie next to each other
  have hstack : StackPresent layout mem ↔
      mem.Present (layout.esp - 84) 20 ∧ mem.Present (layout.esp - 64) 64 :=
    Space.present_add (n := 20) (k := 64) (by bv_omega)
  have hdef : switchTo layout cpu ctx mem =
      (m.pushAll (callWords layout ctx)).bind processContextSwitch := by
    rw [hm]
    rfl
  rw [hdef, Option.bind_eq_some_iff, hstack]
  constructor
  · rintro ⟨m₁, hm₁, hrest⟩
    obtain ⟨hbelow, hds, heax⟩ := (hswitch m₁ hm₁).mp hrest
    exact ⟨⟨hbelow, (hcall.mp hm₁).1⟩, hds, heax⟩
  · rintro ⟨⟨hbelow, hcalled⟩, hds, heax⟩
    have hm₁ := hcall.mpr ⟨hcalled, rfl⟩
    exact ⟨_, hm₁, (hswitch _ hm₁).mpr ⟨hbelow, hds, heax⟩⟩

end Binbows
