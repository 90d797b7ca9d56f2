/-
Binbows/Scheduler.lean

The scheduler (`scheduler/scheduler.c`) and the kernel's entries that change
processes (`Interrupt/interrupt.c`, `kernel.c`).

The search of `scheduler_switch_to_next_process` is a loop over `context_id`
with fuel; `context_id` is never negative.  `scheduler_switch_to_next_process`
ends in `process_context_switch`, so its model returns the context that this
call gets, beside the kernel state.

`KernelEvent` lists what happens to the kernel between two stretches of user
code, with the arguments of a system call already taken out of the caller's
memory.  The cell in which a call leaves its return code is the caller's own
and not part of the state.
-/
import Binbows.Process

namespace Binbows

open Bytes

namespace KernelState

/-! ### The scheduler -/

/-- `scheduler_save_context_to_current_running_pcb`. -/
def schedulerSave (k : KernelState) (ctx : Context) : Except KernelFault KernelState :=
  match k.processGetCurrentRunningPcbPointer with
  | none => .error .nullPointer
  | some i => .ok (k.modifyPcb i fun pcb => { pcb with context := ctx, state := .ready })

/-- The search loop of `scheduler_switch_to_next_process`. -/
def searchLoop (list : Fin processCountMax → ProcessControlBlock)
    (currentPid : Option (Fin processCountMax)) :
    (fuel contextId : Nat) → Except KernelFault (Fin processCountMax)
  | 0, _ => .error .noReturn
  | fuel + 1, contextId =>
      match currentPid.filter fun i => i.val = contextId with
      | some i => .ok i  -- context_id == current_pid
      | none =>
          let i : Fin processCountMax :=
            if h : contextId < processCountMax then ⟨contextId, h⟩ else 0
          if (list i).state = .ready then .ok i
          else searchLoop list currentPid fuel (i + 1)

/-- `current_pid + 1`. -/
def firstContextId (currentPid : Option (Fin processCountMax)) : Nat :=
  match currentPid with
  | none => 0
  | some i => i + 1

/-- Enough fuel for every search that ends. -/
abbrev searchFuel : Nat := 2 * processCountMax

/-- The slot that `scheduler_switch_to_next_process` ends its search at. -/
def searchNext (k : KernelState) : Except KernelFault (Fin processCountMax) :=
  searchLoop k.processList k.currentPid searchFuel (firstContextId k.currentPid)

/-- `scheduler_switch_to_next_process`, up to the call of
`process_context_switch`. -/
def schedulerSwitch (k : KernelState) : Except KernelFault (Context × KernelState) := do
  let i ← k.searchNext
  let nextContext := (k.processList i).context
  let k := k.modifyPcb i fun pcb => { pcb with state := .running }
  let k := { k with currentPid := some i }
  let paging ← k.paging.usePageDirectory nextContext.pageDirectoryVirtualAddr
  .ok (nextContext, k.setPaging paging)

end KernelState

/-! ### Kernel entries -/

/-- What `main_interrupt_handler` gets; `error_code`, `eip`, `cs` and `eflags`
are the `int_stack`. -/
structure InterruptFrame where
  cpu : CPURegister := {}
  intNumber : BitVec 32
  errorCode : BitVec 32 := 0
  eip : BitVec 32 := 0
  cs : BitVec 32 := 0
  eflags : BitVec 32 := 0

namespace KernelState

/-- The `cur_context` of the timer interrupt. -/
def frameContext (k : KernelState) (frame : InterruptFrame) : Context where
  cpu := frame.cpu
  eflags := frame.eflags
  eip := frame.eip
  pageDirectoryVirtualAddr := some k.paging.cr3

/-- Case 0x20 of `main_interrupt_handler`. -/
def timerInterrupt (k : KernelState) (frame : InterruptFrame) :
    Except KernelFault (Context × KernelState) := do
  let k ← k.schedulerSave (k.frameContext frame)
  k.schedulerSwitch

/-- Case 10 of `syscall`: the running process ends. -/
def syscallExit (k : KernelState) : Except KernelFault (Context × KernelState) := do
  let curPcb := k.processGetCurrentRunningPcbPointer
  -- use shell page dir
  let paging ← k.paging.usePageDirectory (k.processList 0).directory
  let k := k.setPaging paging
  match curPcb with
  | none => .error .nullPointer
  | some i => do
      let (_, k) ← k.processDestroy (k.processList i).pid
      k.schedulerSwitch

end KernelState

/-- The number that case 11 of `syscall` reads from its two characters.  With a
character in both places `strlen` finds no terminator in the buffer. -/
def killPid (buf : Fin 2 → Byte) : Int :=
  let digit : Byte → Int := fun c => c.toInt - '0'.toNat
  let first := buf ⟨0, Nat.two_pos⟩
  let second := buf ⟨1, Nat.one_lt_two⟩
  if first ≠ 0 ∧ second = 0 then digit first
  else digit first + digit second * 10

namespace KernelState

/-- Case 11 of `syscall`, with its return code. -/
def syscallKill (k : KernelState) (buf : Fin 2 → Byte) :
    Except KernelFault (Byte × KernelState) := do
  let (destroyed, k) ← k.processDestroy (BitVec.ofInt 32 (killPid buf))
  .ok (if destroyed then 0 else 1, k)

end KernelState

inductive KernelEvent
  /-- what user code and the system calls for files and devices do meanwhile -/
  | user (fs : FsState) (ram : Ram)
  /-- the timer interrupt -/
  | timer (frame : InterruptFrame)
  /-- system call 8 -/
  | create (request : FAT32DriverRequest)
  /-- system call 10 -/
  | exit
  /-- system call 11 -/
  | kill (buf : Fin 2 → Byte)

/-- The kernel state when control is back in user mode. -/
def KernelState.handle (k : KernelState) : KernelEvent → Except KernelFault KernelState
  | .user fs ram => .ok (k.setStore fs ram)
  | .timer frame => do
      let (_, k) ← k.timerInterrupt frame
      .ok k
  | .create request => do
      let (_, k) ← k.processCreateUserProcess request
      .ok k
  | .exit => do
      let (_, k) ← k.syscallExit
      .ok k
  | .kill buf => do
      let (_, k) ← k.syscallKill buf
      .ok k

def KernelState.step (k : KernelState) (e : KernelEvent) : Option KernelState :=
  (k.handle e).toOption

/-! ### Boot -/

/-- The static tables before `kernel_setup` runs. -/
def KernelState.boot (fs : FsState) (ram : Ram) : KernelState where
  paging := .boot
  processList _ := {}
  activeProcessCount := 0
  currentPid := none
  fs := fs
  ram := ram

/-- `"shell"`. -/
def shellName : EntryName := fun i =>
  (['s', 'h', 'e', 'l', 'l'].map fun c => BitVec.ofNat 8 c.toNat).getD i 0

/-- The request of `kernel_setup`. -/
def shellRequest : FAT32DriverRequest where
  buf := 0
  name := shellName
  ext := 0
  parentClusterNumber := rootClusterNumber
  bufferSize := 0x100000#32

/-- `kernel_setup`: mount the file system, create process 0 and run it. -/
def kernelSetup (fs : FsState) (ram : Ram) : Except KernelFault KernelState := do
  let (_, k) ← (KernelState.boot (initializeFilesystemFat32 fs) ram).processCreateUserProcess
    shellRequest
  let (_, k) ← k.schedulerSwitch
  .ok k

end Binbows
