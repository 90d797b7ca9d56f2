/-
Binbows/Process.lean

Processes (`process/process.c`): the process list, the creation of a process
from a file and its destruction.

The tables of the process manager, the page manager and the file system and
the page frames of RAM are one record, `KernelState`.  `current_pid` is -1 or
an index of the process list, an `Option (Fin processCountMax)`.  A function
that calls `read` reads into the address space of the directory in CR3
(`readFile`): what is stored through a user page lands in the frame that the
page maps, and a store to anywhere else is the fault `strayStore`.

The loops over the page frames of a process are recursions over the slots of
`virtual_addr_used` that are left.
-/
import Binbows.Paging
import Binbows.Fat32Lookup

namespace Binbows

open Bytes

/-! ### Process control blocks -/

abbrev processCountMax : Nat := 16

instance : NeZero processCountMax := ⟨by decide⟩

abbrev processPageFrameCountMax : Nat := 8

structure CPURegister where
  edi : BitVec 32 := 0
  esi : BitVec 32 := 0
  ebp : BitVec 32 := 0
  esp : BitVec 32 := 0
  ebx : BitVec 32 := 0
  edx : BitVec 32 := 0
  ecx : BitVec 32 := 0
  eax : BitVec 32 := 0
  gs : BitVec 32 := 0
  fs : BitVec 32 := 0
  es : BitVec 32 := 0
  ds : BitVec 32 := 0
  deriving DecidableEq

structure Context where
  cpu : CPURegister := {}
  eip : BitVec 32 := 0
  eflags : BitVec 32 := 0
  pageDirectoryVirtualAddr : Option DirectoryRef := none
  deriving DecidableEq

inductive ProcessState
  | inactive
  | ready
  | running
  | waiting
  deriving DecidableEq, Repr

structure ProcessControlBlock where
  pid : BitVec 32 := 0
  state : ProcessState := .inactive
  nama : EntryName := 0
  virtualAddrUsed : Fin processPageFrameCountMax → BitVec 32 := fun _ => 0
  pageFrameUsedCount : BitVec 32 := 0
  context : Context := {}

/-- The page directory of a process. -/
abbrev ProcessControlBlock.directory (pcb : ProcessControlBlock) : Option DirectoryRef :=
  pcb.context.pageDirectoryVirtualAddr

/-- The page frames of RAM. -/
abbrev Ram := Fin pageFrameMaxCount → BitVec 22 → Byte

structure KernelState where
  paging : PagingState
  processList : Fin processCountMax → ProcessControlBlock
  activeProcessCount : Int
  currentPid : Option (Fin processCountMax)
  fs : FsState
  ram : Ram

namespace KernelState

/-- The driver and RAM after file requests and user code. -/
def setStore (k : KernelState) (fs : FsState) (ram : Ram) : KernelState :=
  { k with fs := fs, ram := ram }

def setPaging (k : KernelState) (p : PagingState) : KernelState := { k with paging := p }

def modifyPcb (k : KernelState) (i : Fin processCountMax)
    (change : ProcessControlBlock → ProcessControlBlock) : KernelState :=
  { k with processList := Function.update k.processList i (change (k.processList i)) }

/-- `process_list_get_inactive_index`; `none` is `PROCESS_COUNT_MAX`. -/
def processListGetInactiveIndex (k : KernelState) : Option (Fin processCountMax) :=
  (List.finRange processCountMax).find? fun i => (k.processList i).state = .inactive

/-- `process_generate_new_pid`. -/
def processGenerateNewPid (k : KernelState) : BitVec 32 × KernelState :=
  let pid := match k.processListGetInactiveIndex with
    | none => BitVec.ofNat 32 processCountMax
    | some i => BitVec.ofNat 32 i
  (pid, { k with activeProcessCount := k.activeProcessCount + 1 })

/-- `process_get_current_running_pcb_pointer`; `none` is NULL. -/
def processGetCurrentRunningPcbPointer (k : KernelState) : Option (Fin processCountMax) :=
  k.currentPid

end KernelState

/-- `ceil_div`, in 32-bit arithmetic. -/
def ceilDiv (numerator denominator : BitVec 32) : BitVec 32 :=
  (numerator + denominator - 1) / denominator

/-! ### Reading a file into an address space -/

/-- An entry of a directory that user code may use. -/
def PageDirectoryEntry.IsUser (e : PageDirectoryEntry) : Prop :=
  e.flag.presentBit ∧ e.flag.userSupervisor

instance (e : PageDirectoryEntry) : Decidable e.IsUser :=
  inferInstanceAs (Decidable (_ ∧ _))

/-- The memory that a directory shows; what it does not map reads as zero. -/
def PageDirectory.addressSpace (dir : PageDirectory) (ram : Ram) : Memory := fun a =>
  match (dir (pageIndex a)).frame with
  | none => 0
  | some f => ram f (a.setWidth 22)

/-- The frames after the user pages of a directory were written. -/
def PageDirectory.writeBack (dir : PageDirectory) (mem : Memory) (ram : Ram) : Ram := fun f o =>
  match (List.finRange pageEntryCount).find? fun page =>
    (dir page).IsUser ∧ (dir page).frame = some f with
  | none => ram f o
  | some page => mem (BitVec.ofNat 10 page ++ o)

/-- The addresses that the `while` loop of `read` stores clusters to. -/
def chainStores (t : FAT32FileAllocationTable) :
    (fuel : Nat) → (clusterNum buf : BitVec 32) → List (BitVec 32)
  | 0, _, _ => []
  | fuel + 1, clusterNum, buf =>
      if clusterNum = fat32FatEndOfFile then []
      else
        match t.clusterMapAt clusterNum with
        | .error _ => [buf]
        | .ok next => buf :: chainStores t fuel next (buf + BitVec.ofNat 32 clusterSize)

/-- The addresses that a successful `read` stores clusters to. -/
def readStores (request : FAT32DriverRequest) (s : FsState) : List (BitVec 32) :=
  let t := (s.readDirTable request.parentClusterNumber).dirTableBuf
  match readMatch request t with
  | none => []
  | some i => chainStores s.clusterMap chainFuel (t i).cluster request.buf

/-- A cluster at this address lies in user pages. -/
def PageDirectory.HoldsCluster (dir : PageDirectory) (a : BitVec 32) : Prop :=
  (dir (pageIndex a)).IsUser ∧
    (dir (pageIndex (a + BitVec.ofNat 32 (clusterSize - 1)))).IsUser

instance (dir : PageDirectory) (a : BitVec 32) : Decidable (dir.HoldsCluster a) :=
  inferInstanceAs (Decidable (_ ∧ _))

/-- `read` as the kernel calls it: into the address space in CR3. -/
def KernelState.readFile (k : KernelState) (request : FAT32DriverRequest) :
    Except KernelFault (Int × KernelState) :=
  let dir := k.paging.directory k.paging.cr3
  match read request (dir.addressSpace k.ram) k.fs with
  | .error e => .error (.fat32 e)
  | .ok r =>
      if r.ret = 0 ∧ ¬ (readStores request k.fs).all fun a => dir.HoldsCluster a then
        .error .strayStore
      else .ok (r.ret, k.setStore r.fs (dir.writeBack r.mem k.ram))

/-! ### Creating a process -/

/-- The slots of `virtual_addr_used` that a loop up to `n` runs over. -/
def frameSlots (n : BitVec 32) : List (Fin processPageFrameCountMax) :=
  (List.finRange processPageFrameCountMax).filter fun j => j.val < n.toNat

/-- The virtual address of page `j`: `i * PAGE_FRAME_SIZE`. -/
def frameAddr (j : Fin processPageFrameCountMax) : BitVec 32 :=
  BitVec.ofNat 32 j * pageFrameSize

namespace KernelState

/-- The loop that maps the pages of process `i`, one frame for each slot. -/
def mapFrames (i : Fin processCountMax) (pageDir : Option DirectoryRef) :
    List (Fin processPageFrameCountMax) → KernelState → Except KernelFault KernelState
  | [], k => .ok k
  | j :: js, k => do
      let (_, paging) ← k.paging.allocateUserPageFrame pageDir (frameAddr j)
      mapFrames i pageDir js <| (k.setPaging paging).modifyPcb i fun pcb =>
        { pcb with virtualAddrUsed := Function.update pcb.virtualAddrUsed j (frameAddr j) }

/-- The loop that gives the frames at the recorded addresses back. -/
def unmapFrames (pageDir : Option DirectoryRef) :
    (virtualAddrs : List (BitVec 32)) → PagingState → Except KernelFault PagingState
  | [], p => .ok p
  | virtualAddr :: rest, p => do
      let (_, p) ← p.freeUserPageFrame pageDir virtualAddr
      unmapFrames pageDir rest p

/-- The addresses that a process has recorded for slots `js`. -/
def recordedAddrs (pcb : ProcessControlBlock) (js : List (Fin processPageFrameCountMax)) :
    List (BitVec 32) :=
  js.map pcb.virtualAddrUsed

/-- The context that a new process starts with. -/
def initialContext (old : Context) : Context :=
  { old with
    eflags := old.eflags ||| (0x2#32 ||| 0x200#32)
    cpu := {
      ds := 0x20#32 ||| 0x3#32
      es := 0x20#32 ||| 0x3#32
      fs := 0x20#32 ||| 0x3#32
      gs := 0x20#32 ||| 0x3#32
      edi := 0
      esi := 0
      ebp := 0
      esp := 0x400000#32 - 4
      ebx := 0
      edx := 0
      ecx := 0
      eax := 0 }
    eip := 0 }

/-- The end of `process_create_user_process`: fill in the control block. -/
def startProcess (k : KernelState) (i : Fin processCountMax) (request : FAT32DriverRequest)
    (pageFrameCountNeeded : BitVec 32) : KernelState :=
  let k := k.modifyPcb i fun pcb =>
    { pcb with
      pageFrameUsedCount := pageFrameCountNeeded
      context := initialContext pcb.context }
  let (pid, k) := k.processGenerateNewPid
  k.modifyPcb i fun pcb => { pcb with pid := pid, state := .ready, nama := request.name }

/-- `process_create_user_process` after its three checks. -/
def loadProcess (k : KernelState) (request : FAT32DriverRequest)
    (pageFrameCountNeeded : BitVec 32) (pIndex : Fin processCountMax) :
    Except KernelFault (Int × KernelState) := do
  let (newPage, paging) := k.paging.createNewPageDirectory
  let k := (k.setPaging paging).modifyPcb pIndex fun pcb =>
    { pcb with context := { pcb.context with pageDirectoryVirtualAddr := newPage } }
  let k ← k.mapFrames pIndex newPage (frameSlots pageFrameCountNeeded)
  let currDir := k.paging.cr3
  let paging ← k.paging.usePageDirectory newPage
  let (ret, k) ← (k.setPaging paging).readFile request
  let paging ← k.paging.usePageDirectory (some currDir)
  let k := k.setPaging paging
  if ret ≠ 0 then
    let paging ← unmapFrames newPage
      (recordedAddrs (k.processList pIndex) (frameSlots pageFrameCountNeeded)) k.paging
    .ok (4, k.setPaging paging)
  else .ok (0, k.startProcess pIndex request pageFrameCountNeeded)

/-- `page_frame_count_needed`: the frames of the executable and one for the
stack. -/
def pageFrameCountNeeded (request : FAT32DriverRequest) : BitVec 32 :=
  ceilDiv (request.bufferSize + pageFrameSize) pageFrameSize

def processCreateUserProcess (k : KernelState) (request : FAT32DriverRequest) :
    Except KernelFault (Int × KernelState) :=
  if processCountMax ≤ k.activeProcessCount then .ok (1, k)
  -- entrypoint in the kernel's section at higher half
  else if kernelVirtualAddressBase ≤ request.buf then .ok (2, k)
  else
    let needed := pageFrameCountNeeded request
    if ¬ k.paging.allocateCheck needed ∨ BitVec.ofNat 32 processPageFrameCountMax < needed then
      .ok (3, k)
    else
      match k.processListGetInactiveIndex with
      | none => .error .outOfBounds
      | some pIndex => k.loadProcess request needed pIndex

/-! ### Destroying a process -/

/-- `process_destroy`. -/
def processDestroy (k : KernelState) (pid : BitVec 32) :
    Except KernelFault (Bool × KernelState) :=
  if h : pid.toNat < processCountMax then
    let i : Fin processCountMax := ⟨pid.toNat, h⟩
    let pcb := k.processList i
    if pcb.state = .inactive then .ok (false, k)
    else if processPageFrameCountMax < pcb.pageFrameUsedCount.toNat then .error .outOfBounds
    else do
      let slots := frameSlots pcb.pageFrameUsedCount
      let paging ← unmapFrames pcb.directory (recordedAddrs pcb slots) k.paging
      match paging.freePageDirectory pcb.directory with
      | (false, paging) => do
          -- cancel free user page frame
          let k ← (k.setPaging paging).mapFrames i pcb.directory slots
          .ok (false, k)
      | (true, paging) =>
          let k := (k.setPaging paging).modifyPcb i fun pcb => { pcb with state := .inactive }
          .ok (true, { k with activeProcessCount := k.activeProcessCount - 1 })
  else .error .outOfBounds

end KernelState

end Binbows
