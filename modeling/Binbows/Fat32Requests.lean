/-
Binbows/Fat32Requests.lean

The four requests of `filesystem/fat32.c`: `read_directory`, `read`, `write`
and `delete`.

A request gets the driver state and the caller's memory and returns the C
return code, the memory and the state, or a `Fault` when the C code would
index `cluster_map` out of range or never return.  Each `for` loop over slots
or clusters is a recursion over the indices that are left; the two `while`
loops over the allocation table carry fuel.
-/
import Binbows.Fat32

namespace Binbows

open Bytes

/-- What a request leaves behind: return code, caller's memory, driver. -/
structure Reply where
  ret : Int
  mem : Memory
  fs : FsState

/-- The test every request makes first:
`cluster_map[parent_cluster_number] != FAT32_FAT_END_OF_FILE`. -/
def parentCheck (s : FsState) (parent : BitVec 32) (rejected accepted : Except Fault Reply) :
    Except Fault Reply :=
  match s.clusterMap.clusterMapAt parent with
  | .error e => .error e
  | .ok v => if v ≠ fat32FatEndOfFile then rejected else accepted

/-! ### read_directory -/

/-- The scan of `read_directory` over the slots that are left. -/
def readDirectoryLoop (request : FAT32DriverRequest) (mem : Memory) (s : FsState) :
    List (Fin directoryEntryCount) → (foundButNotFolder found : Bool) → Reply
  | [], foundButNotFolder, found =>
      if foundButNotFolder then ⟨1, mem, s⟩
      else if !found then ⟨2, mem, s⟩
      else ⟨-1, mem, s⟩
  | i :: is, foundButNotFolder, found =>
      if ¬ (s.dirTableBuf i).Occupied then
        readDirectoryLoop request mem s is foundButNotFolder found
      else if memcmp (s.dirTableBuf i).name request.name = 0 then
        if (s.dirTableBuf i).IsSubdirectory then
          ⟨0, mem.store request.buf (readClusters s.disk (s.dirTableBuf i).cluster), s⟩
        else readDirectoryLoop request mem s is true true
      else readDirectoryLoop request mem s is foundButNotFolder found

def readDirectory (request : FAT32DriverRequest) (mem : Memory) (s : FsState) :
    Except Fault Reply :=
  if request.bufferSize ≠ BitVec.ofNat 32 clusterSize then .ok ⟨-1, mem, s⟩
  else
    parentCheck s request.parentClusterNumber (.ok ⟨-1, mem, s⟩)
      (.ok (readDirectoryLoop request mem (s.readDirTable request.parentClusterNumber)
        (List.finRange directoryEntryCount) false false))

/-! ### read -/

/-- The `while` loop of `read`: copy the clusters of a chain out, one after the
other. -/
def readChain (t : FAT32FileAllocationTable) (disk : Disk) :
    (fuel : Nat) → (clusterNum buf : BitVec 32) → Memory → Except Fault Memory
  | 0, _, _, _ => .error .noReturn
  | fuel + 1, clusterNum, buf, mem =>
      if clusterNum = fat32FatEndOfFile then .ok mem
      else
        let mem := mem.store buf (readClusters disk clusterNum)
        match t.clusterMapAt clusterNum with
        | .error e => .error e
        | .ok next => readChain t disk fuel next (buf + BitVec.ofNat 32 clusterSize) mem

/-- Enough fuel for every chain of `cluster_map` that ends. -/
abbrev chainFuel : Nat := clusterMapSize + 1

/-- The scan of `read` over the slots that are left. -/
def readLoop (request : FAT32DriverRequest) (mem : Memory) (s : FsState) :
    List (Fin directoryEntryCount) → (foundButNotFile found : Bool) → Except Fault Reply
  | [], foundButNotFile, found =>
      if foundButNotFile then .ok ⟨1, mem, s⟩
      else if !found then .ok ⟨3, mem, s⟩
      else .ok ⟨-1, mem, s⟩
  | i :: is, foundButNotFile, found =>
      if ¬ (s.dirTableBuf i).Occupied then readLoop request mem s is foundButNotFile found
      else if memcmp (s.dirTableBuf i).name request.name = 0 then
        if ¬ (s.dirTableBuf i).IsSubdirectory ∧ memcmp (s.dirTableBuf i).ext request.ext = 0 then
          if request.bufferSize < (s.dirTableBuf i).filesize then .ok ⟨2, mem, s⟩
          else
            match readChain s.clusterMap s.disk chainFuel (s.dirTableBuf i).cluster
              request.buf mem with
            | .error e => .error e
            | .ok mem => .ok ⟨0, mem, s⟩
        else if (s.dirTableBuf i).IsSubdirectory then readLoop request mem s is true true
        else readLoop request mem s is foundButNotFile true
      else readLoop request mem s is foundButNotFile found

def read (request : FAT32DriverRequest) (mem : Memory) (s : FsState) : Except Fault Reply :=
  parentCheck s request.parentClusterNumber (.ok ⟨-1, mem, s⟩)
    (readLoop request mem (s.readDirTable request.parentClusterNumber)
      (List.finRange directoryEntryCount) false false)

/-! ### write -/

/-- The duplicate check of `write` at one slot in use. -/
def sameEntry (request : FAT32DriverRequest) (e : FAT32DirectoryEntry) : Prop :=
  memcmp e.name request.name = 0 ∧
    ((e.IsSubdirectory ∧ request.bufferSize = 0) ∨
      (request.bufferSize ≠ 0 ∧ memcmp e.ext request.ext = 0))

instance (request : FAT32DriverRequest) (e : FAT32DirectoryEntry) :
    Decidable (sameEntry request e) := by
  unfold sameEntry
  infer_instance

/-- The first scan of `write`: `none` where it returns 1, otherwise
`empty_slot_exist`. -/
def writeScan (request : FAT32DriverRequest) (t : FAT32DirectoryTable) :
    List (Fin directoryEntryCount) → (emptySlotExist : Bool) → Option Bool
  | [], emptySlotExist => some emptySlotExist
  | i :: is, emptySlotExist =>
      if ¬ (t i).Occupied then writeScan request t is true
      else if sameEntry request (t i) then none
      else writeScan request t is emptySlotExist

/-- `needed_size`: clusters for the buffer, one for a directory. -/
def neededSize (bufferSize : BitVec 32) : Nat :=
  let clusterNumberRoundedDown := bufferSize.toNat / clusterSize
  let remainderFromClusterSize := bufferSize.toNat % clusterSize
  let oneOrZeroRemainder := if remainderFromClusterSize ≠ 0 then 1 else 0
  let neededSize := clusterNumberRoundedDown + oneOrZeroRemainder
  if neededSize = 0 then 1 else neededSize

/-- `available_size`. -/
def availableSize (t : FAT32FileAllocationTable) : Nat :=
  (List.finRange clusterMapSize).countP fun i => t i = fat32FatEmptyEntry

/-- The variables of the allocation loop.  Both cluster numbers start as zero,
which the loop takes for "none yet". -/
structure AllocState where
  clusterMap : FAT32FileAllocationTable
  disk : Disk
  buf : BitVec 32
  sizeWritten : Nat
  lastClusterWritten : Fin clusterMapSize
  firstClusterWritten : Fin clusterMapSize

/-- Take cluster `i`: the body of the allocation loop at an empty entry. -/
def AllocState.take (request : FAT32DriverRequest) (mem : Memory) (a : AllocState)
    (i : Fin clusterMapSize) : AllocState where
  clusterMap :=
    if a.lastClusterWritten ≠ 0 then
      Function.update a.clusterMap a.lastClusterWritten (clusterOf i)
    else a.clusterMap
  disk :=
    if request.bufferSize ≠ 0 then writeClusters a.disk (mem.load a.buf) (clusterOf i)
    else a.disk
  buf := a.buf + BitVec.ofNat 32 clusterSize
  sizeWritten := a.sizeWritten + 1
  lastClusterWritten := i
  firstClusterWritten := if a.lastClusterWritten ≠ 0 then a.firstClusterWritten else i

/-- The allocation loop of `write` over the clusters that are left. -/
def allocLoop (request : FAT32DriverRequest) (mem : Memory) (needed : Nat) :
    List (Fin clusterMapSize) → AllocState → AllocState
  | [], a => a
  | i :: is, a =>
      if a.sizeWritten < needed then
        if a.clusterMap i = fat32FatEmptyEntry then
          allocLoop request mem needed is (a.take request mem i)
        else allocLoop request mem needed is a
      else a

/-- The file branch of `write` after the clusters are written: enter the file
in the first slot that is not in use. -/
def enterFile (s : FsState) (request : FAT32DriverRequest) (first : Fin clusterMapSize)
    (needed : Nat) : FsState :=
  let s := s.readDirTable request.parentClusterNumber
  let s := match s.dirTableBuf.firstEmpty with
    | none => s
    | some i => { s with
        -- `attribute = !ATTR_SUBDIRECTORY` is zero
        dirTableBuf := Function.update s.dirTableBuf i
          ((s.dirTableBuf i).fill request.name request.ext 0 (clusterOf first)
            (BitVec.ofNat 32 (needed * clusterSize))) }
  s.writeDirTable request.parentClusterNumber

/-- The clusters of a new file or directory are found, written and chained up:
the allocation loop and the marker behind it. -/
def allocate (request : FAT32DriverRequest) (mem : Memory) (s : FsState) : AllocState :=
  let a := allocLoop request mem (neededSize request.bufferSize) (List.finRange clusterMapSize)
    ⟨s.clusterMap, s.disk, request.buf, 0, 0, 0⟩
  { a with
    clusterMap := Function.update a.clusterMap a.lastClusterWritten fat32FatEndOfFile }

/-- `write` from the allocation on. -/
def writeCommit (request : FAT32DriverRequest) (mem : Memory) (s : FsState) : FsState :=
  let a := allocate request mem s
  let s := { s with clusterMap := a.clusterMap, disk := a.disk }
  if request.bufferSize = 0 then
    (createDirectoryTable s (fun _ => .zero) request.name request.parentClusterNumber
      a.lastClusterWritten).writeClusterMap
  else
    (enterFile s request a.firstClusterWritten (neededSize request.bufferSize)).writeClusterMap

def write (request : FAT32DriverRequest) (mem : Memory) (s : FsState) : Except Fault Reply :=
  parentCheck s request.parentClusterNumber (.ok ⟨2, mem, s⟩) <|
    let s := s.readDirTable request.parentClusterNumber
    match writeScan request s.dirTableBuf (List.finRange directoryEntryCount) false with
    | none => .ok ⟨1, mem, s⟩
    | some false => .ok ⟨-1, mem, s⟩
    | some true =>
        if availableSize s.clusterMap < neededSize request.bufferSize then .ok ⟨-1, mem, s⟩
        else .ok ⟨0, mem, writeCommit request mem s⟩

/-! ### delete -/

/-- The entry that `delete` acts on: the first slot in use with the requested
name and extension. -/
def deleteMatch (request : FAT32DriverRequest) (t : FAT32DirectoryTable) :
    Option (Fin directoryEntryCount) :=
  (List.finRange directoryEntryCount).find? fun i =>
    (t i).Occupied ∧ memcmp request.name (t i).name = 0 ∧ memcmp request.ext (t i).ext = 0

/-- `not_empty`: the scan over the victim's table, which starts at slot 3. -/
def notEmpty (t : FAT32DirectoryTable) : Bool :=
  (List.finRange directoryEntryCount).any fun j => 3 ≤ j.val ∧ (t j).Occupied

/-- Release slot `i` of the buffered table and write the table back. -/
def releaseSlot (s : FsState) (parent : BitVec 32) (i : Fin directoryEntryCount) : FsState :=
  { s with
    dirTableBuf := Function.update s.dirTableBuf i (s.dirTableBuf i).clear }.writeDirTable parent

/-- Zero a cluster on disk. -/
def zeroCluster (s : FsState) (cluster : BitVec 32) : FsState :=
  { s with
    clusterBuf := 0
    disk := writeClusters s.disk 0 cluster }

/-- `cluster_map[cluster] = FAT32_FAT_EMPTY_ENTRY`. -/
def freeEntry (s : FsState) (cluster : BitVec 32) : Except Fault FsState :=
  if h : cluster.toNat < clusterMapSize then
    .ok { s with
      clusterMap := Function.update s.clusterMap ⟨cluster.toNat, h⟩ fat32FatEmptyEntry }
  else .error .outOfBounds

/-- The `while` loop of `delete`: zero and free the clusters of a chain. -/
def freeChain : (fuel : Nat) → FsState → (clusterNum : BitVec 32) → Except Fault FsState
  | 0, _, _ => .error .noReturn
  | fuel + 1, s, clusterNum =>
      if clusterNum = fat32FatEndOfFile then .ok s
      else
        match s.clusterMap.clusterMapAt clusterNum with
        | .error e => .error e
        | .ok copyClusterNum =>
            match freeEntry (zeroCluster s clusterNum) clusterNum with
            | .error e => .error e
            | .ok s => freeChain fuel s copyClusterNum

/-- Enough fuel for every run of the freeing loop that ends. -/
abbrev freeFuel : Nat := 2 * clusterMapSize + 2

def delete (request : FAT32DriverRequest) (mem : Memory) (s : FsState) : Except Fault Reply :=
  parentCheck s request.parentClusterNumber (.ok ⟨-1, mem, s⟩) <|
    let s := s.readDirTable request.parentClusterNumber
    match deleteMatch request s.dirTableBuf with
    | none => .ok ⟨1, mem, s⟩
    | some i =>
        let clusterNum := (s.dirTableBuf i).cluster
        if (s.dirTableBuf i).IsSubdirectory then
          if i = 0 then .ok ⟨-1, mem, s⟩  -- tried to delete root
          else if notEmpty (.ofCluster (readClusters s.disk clusterNum)) then .ok ⟨2, mem, s⟩
          else
            match freeEntry (releaseSlot s request.parentClusterNumber i) clusterNum with
            | .error e => .error e
            | .ok s => .ok ⟨0, mem, (zeroCluster s clusterNum).writeClusterMap⟩
        else
          match freeChain freeFuel (releaseSlot s request.parentClusterNumber i) clusterNum with
          | .error e => .error e
          | .ok s => .ok ⟨0, mem, s.writeClusterMap⟩

/-! ### Requests as system calls -/

/-- The system calls 0 to 3. -/
inductive FsOp
  | read
  | readDirectory
  | write
  | delete
  deriving DecidableEq, Repr

/-- One request, with the memory the caller has at that moment. -/
structure FsCall where
  op : FsOp
  request : FAT32DriverRequest
  mem : Memory

def FsCall.exec (c : FsCall) (s : FsState) : Except Fault Reply :=
  match c.op with
  | .read => Binbows.read c.request c.mem s
  | .readDirectory => Binbows.readDirectory c.request c.mem s
  | .write => Binbows.write c.request c.mem s
  | .delete => Binbows.delete c.request c.mem s

end Binbows
