/-
Binbows/Fat32.lean

The data of the FAT32 driver (`header/filesystem/fat32.h`) and the part of
`filesystem/fat32.c` below the four requests: the tables as they lie on disk,
`create_directory_table`, `create_fat32` and `initialize_filesystem_fat32`.

The driver's static state and the disk behind it are one record, `FsState`.
The C code indexes `cluster_map` without a range test; `clusterMapAt` makes
the test visible, as the fault `outOfBounds`.

A directory table and the allocation table are overlays of one cluster, and
reading back what was written gives the same table
(`FAT32DirectoryTable.ofCluster_toCluster`,
`FAT32FileAllocationTable.ofCluster_toCluster`).
-/
import Binbows.Disk

namespace Binbows

open Bytes

/-! ### Constants -/

abbrev cluster0Value : BitVec 32 := 0x0FFFFFF0#32

abbrev cluster1Value : BitVec 32 := 0x0FFFFFFF#32

/-- Also "this is the last valid cluster in the chain". -/
abbrev fat32FatEndOfFile : BitVec 32 := 0x0FFFFFFF#32

abbrev fat32FatEmptyEntry : BitVec 32 := 0#32

abbrev fatClusterNumber : BitVec 32 := 1#32

abbrev rootClusterNumber : BitVec 32 := 2#32

abbrev attrSubdirectory : Byte := 0b00010000#8

abbrev uattrNotEmpty : Byte := 0b10101010#8

/-- The first block of a formatted disk. -/
def fsSignature : BlockBuffer := fun i =>
  if i = 510 then BitVec.ofNat 8 'O'.toNat
  else if i = 511 then BitVec.ofNat 8 'k'.toNat
  else
    ([ 'C', 'o', 'u', 'r', 's', 'e', ' ', ' ', ' ', ' ', ' ', ' ', ' ', ' ', ' ', ' ',
       'D', 'e', 's', 'i', 'g', 'n', 'e', 'd', ' ', 'b', 'y', ' ', ' ', ' ', ' ', ' ',
       'L', 'a', 'b', ' ', 'S', 'i', 's', 't', 'e', 'r', ' ', 'I', 'T', 'B', ' ', ' ',
       'M', 'a', 'd', 'e', ' ', 'w', 'i', 't', 'h', ' ', '<', '3', ' ', ' ', ' ', ' ',
       '-', '-', '-', '-', '-', '-', '-', '-', '-', '-', '-', '2', '0', '2', '4', '\n'
     ].map fun c => BitVec.ofNat 8 c.toNat).getD i 0

/-! ### Directory tables -/

abbrev EntryName := Fin 8 → Byte

abbrev EntryExt := Fin 3 → Byte

structure FAT32DirectoryEntry where
  name : EntryName
  ext : EntryExt
  attr : Byte
  userAttribute : Byte
  undelete : Byte
  createTime : BitVec 16
  createDate : BitVec 16
  accessDate : BitVec 16
  clusterHigh : BitVec 16
  modifiedTime : BitVec 16
  modifiedDate : BitVec 16
  clusterLow : BitVec 16
  filesize : BitVec 32

/-- `CLUSTER_SIZE / sizeof(struct FAT32DirectoryEntry)`; an entry is 32 bytes. -/
abbrev directoryEntryCount : Nat := 64

instance : NeZero directoryEntryCount := ⟨by decide⟩

abbrev FAT32DirectoryTable := Fin directoryEntryCount → FAT32DirectoryEntry

namespace FAT32DirectoryEntry

/-- The entry in use: `user_attribute == UATTR_NOT_EMPTY`. -/
def Occupied (e : FAT32DirectoryEntry) : Prop := e.userAttribute = uattrNotEmpty

/-- The entry stands for a folder: `attribute == ATTR_SUBDIRECTORY`. -/
def IsSubdirectory (e : FAT32DirectoryEntry) : Prop := e.attr = attrSubdirectory

instance (e : FAT32DirectoryEntry) : Decidable e.Occupied :=
  inferInstanceAs (Decidable (e.userAttribute = uattrNotEmpty))

instance (e : FAT32DirectoryEntry) : Decidable e.IsSubdirectory :=
  inferInstanceAs (Decidable (e.attr = attrSubdirectory))

/-- `(cluster_high << 16) | cluster_low`. -/
def cluster (e : FAT32DirectoryEntry) : BitVec 32 := join16 e.clusterHigh e.clusterLow

/-- The `= {}` initialiser. -/
def zero : FAT32DirectoryEntry where
  name := 0
  ext := 0
  attr := 0
  userAttribute := 0
  undelete := 0
  createTime := 0
  createDate := 0
  accessDate := 0
  clusterHigh := 0
  modifiedTime := 0
  modifiedDate := 0
  clusterLow := 0
  filesize := 0

/-- Fill in an entry: what the driver assigns when it takes a slot. -/
def fill (e : FAT32DirectoryEntry) (name : EntryName) (ext : EntryExt) (attr : Byte)
    (cluster : BitVec 32) (filesize : BitVec 32) : FAT32DirectoryEntry :=
  { e with
    name := name
    ext := ext
    attr := attr
    userAttribute := uattrNotEmpty
    clusterHigh := (cluster >>> 16).setWidth 16
    clusterLow := (cluster &&& 0xFFFF#32).setWidth 16
    filesize := filesize }

/-- Release an entry: what the driver assigns when it gives a slot up
(`user_attribute = !UATTR_NOT_EMPTY` is zero). -/
def clear (e : FAT32DirectoryEntry) : FAT32DirectoryEntry :=
  { e with
    name := 0
    ext := 0
    attr := 0
    userAttribute := 0
    clusterHigh := 0
    clusterLow := 0
    filesize := 0 }

section

variable (e : FAT32DirectoryEntry) (name : EntryName) (ext : EntryExt) (attr : Byte)
  (c size : BitVec 32)

@[simp] theorem fill_filesize : (e.fill name ext attr c size).filesize = size := rfl

@[simp] theorem fill_occupied : (e.fill name ext attr c size).Occupied := rfl

@[simp] theorem fill_isSubdirectory :
    (e.fill name ext attr c size).IsSubdirectory ↔ attr = attrSubdirectory := Iff.rfl

@[simp] theorem fill_cluster : (e.fill name ext attr c size).cluster = c := join16_halves c

@[simp] theorem not_clear_occupied : ¬ e.clear.Occupied := by
  show ¬ (0#8 = uattrNotEmpty)
  decide

/-- Filling an entry in touches only what releasing it resets. -/
@[simp] theorem clear_fill : (e.fill name ext attr c size).clear = e.clear := rfl

@[simp] theorem clear_clear : e.clear.clear = e.clear := rfl

end

/-! ### The entry as 32 bytes -/

def toBytes (e : FAT32DirectoryEntry) (k : Fin 32) : Byte :=
  if h : k.val < 8 then e.name ⟨k, h⟩
  else if h : k.val < 11 then e.ext ⟨k - 8, by omega⟩
  else if k = 11 then e.attr
  else if k = 12 then e.userAttribute
  else if k = 13 then e.undelete
  else if h : k.val < 16 then bytes16 e.createTime ⟨k - 14, by omega⟩
  else if h : k.val < 18 then bytes16 e.createDate ⟨k - 16, by omega⟩
  else if h : k.val < 20 then bytes16 e.accessDate ⟨k - 18, by omega⟩
  else if h : k.val < 22 then bytes16 e.clusterHigh ⟨k - 20, by omega⟩
  else if h : k.val < 24 then bytes16 e.modifiedTime ⟨k - 22, by omega⟩
  else if h : k.val < 26 then bytes16 e.modifiedDate ⟨k - 24, by omega⟩
  else if h : k.val < 28 then bytes16 e.clusterLow ⟨k - 26, by omega⟩
  else bytes32 e.filesize ⟨k - 28, by omega⟩

def ofBytes (b : Fin 32 → Byte) : FAT32DirectoryEntry where
  name i := b ⟨i, by omega⟩
  ext i := b ⟨8 + i, by omega⟩
  attr := b 11
  userAttribute := b 12
  undelete := b 13
  createTime := word16 fun i => b ⟨14 + i, by omega⟩
  createDate := word16 fun i => b ⟨16 + i, by omega⟩
  accessDate := word16 fun i => b ⟨18 + i, by omega⟩
  clusterHigh := word16 fun i => b ⟨20 + i, by omega⟩
  modifiedTime := word16 fun i => b ⟨22 + i, by omega⟩
  modifiedDate := word16 fun i => b ⟨24 + i, by omega⟩
  clusterLow := word16 fun i => b ⟨26 + i, by omega⟩
  filesize := word32 fun i => b ⟨28 + i, by omega⟩

@[simp] theorem ofBytes_toBytes (e : FAT32DirectoryEntry) : ofBytes e.toBytes = e := by
  have h16 : ∀ x : BitVec 16, (word16 fun i => bytes16 x i) = x := word16_bytes16
  have hname : (fun i : Fin 8 => e.toBytes ⟨i, by omega⟩) = e.name := by
    funext i
    simp [toBytes]
  have hext : (fun i : Fin 3 => e.toBytes ⟨8 + i, by omega⟩) = e.ext := by
    funext i
    fin_cases i <;> rfl
  have hsize : (fun i : Fin 4 => e.toBytes ⟨28 + i, by omega⟩) = bytes32 e.filesize := by
    funext i
    fin_cases i <;> rfl
  simp only [ofBytes, hname, hext, hsize, word32_bytes32]
  rcases e with ⟨name, ext, attr, uattr, und, ct, cd, ad, ch, mt, md, cl, size⟩
  congr 1
  · exact h16 ct
  · exact h16 cd
  · exact h16 ad
  · exact h16 ch
  · exact h16 mt
  · exact h16 md
  · exact h16 cl

@[simp] theorem toBytes_ofBytes (b : Fin 32 → Byte) : (ofBytes b).toBytes = b := by
  funext k
  fin_cases k <;> simp [toBytes, ofBytes]

end FAT32DirectoryEntry

namespace FAT32DirectoryTable

/-- The table as the driver writes it to a cluster. -/
def toCluster (t : FAT32DirectoryTable) : ClusterBuffer :=
  flatten (n := directoryEntryCount) fun i => (t i).toBytes

/-- The table as the driver finds it in a cluster. -/
def ofCluster (b : ClusterBuffer) : FAT32DirectoryTable := fun i =>
  .ofBytes (group (n := directoryEntryCount) b i)

@[simp] theorem ofCluster_toCluster (t : FAT32DirectoryTable) : ofCluster t.toCluster = t := by
  funext i
  have h : group (n := directoryEntryCount) t.toCluster = fun i => (t i).toBytes :=
    group_flatten _
  rw [ofCluster, h, FAT32DirectoryEntry.ofBytes_toBytes]

@[simp] theorem toCluster_ofCluster (b : ClusterBuffer) : (ofCluster b).toCluster = b := by
  have h : (fun i => (ofCluster b i).toBytes) = group (n := directoryEntryCount) b := by
    funext i
    exact FAT32DirectoryEntry.toBytes_ofBytes _
  rw [toCluster, h]
  exact flatten_group (n := directoryEntryCount) (k := 32) b

/-- The first slot that is not in use. -/
def firstEmpty (t : FAT32DirectoryTable) : Option (Fin directoryEntryCount) :=
  (List.finRange directoryEntryCount).find? fun i => ¬ (t i).Occupied

end FAT32DirectoryTable

/-! ### The allocation table -/

abbrev FAT32FileAllocationTable := Fin clusterMapSize → BitVec 32

namespace FAT32FileAllocationTable

def toCluster (t : FAT32FileAllocationTable) : ClusterBuffer :=
  flatten (n := clusterMapSize) fun i => bytes32 (t i)

def ofCluster (b : ClusterBuffer) : FAT32FileAllocationTable := fun i =>
  word32 (group (n := clusterMapSize) b i)

@[simp] theorem ofCluster_toCluster (t : FAT32FileAllocationTable) :
    ofCluster t.toCluster = t := by
  funext i
  have h : group (n := clusterMapSize) t.toCluster = fun i => bytes32 (t i) := group_flatten _
  rw [ofCluster, h, word32_bytes32]

@[simp] theorem toCluster_ofCluster (b : ClusterBuffer) : (ofCluster b).toCluster = b := by
  have h : (fun i => bytes32 (ofCluster b i)) = group (n := clusterMapSize) b := by
    funext i
    rw [ofCluster, bytes32_word32]
  rw [toCluster, h]
  exact flatten_group (n := clusterMapSize) (k := 4) b

end FAT32FileAllocationTable

/-! ### Driver state -/

/-- The static `fat32_driver` and the disk behind it. -/
structure FsState where
  clusterMap : FAT32FileAllocationTable
  dirTableBuf : FAT32DirectoryTable
  clusterBuf : ClusterBuffer
  disk : Disk

structure FAT32DriverRequest where
  buf : BitVec 32
  name : EntryName
  ext : EntryExt
  parentClusterNumber : BitVec 32
  bufferSize : BitVec 32

/-- The ways in which a request does not return. -/
inductive Fault
  /-- `cluster_map` is indexed outside its 512 entries -/
  | outOfBounds
  /-- a loop over the allocation table never ends -/
  | noReturn
  deriving DecidableEq, Repr

/-- `cluster_map[cluster]`. -/
def FAT32FileAllocationTable.clusterMapAt (t : FAT32FileAllocationTable) (cluster : BitVec 32) :
    Except Fault (BitVec 32) :=
  if h : cluster.toNat < clusterMapSize then .ok (t ⟨cluster.toNat, h⟩) else .error .outOfBounds

/-- The number of a cluster that `cluster_map` has an entry for. -/
def clusterOf (i : Fin clusterMapSize) : BitVec 32 := BitVec.ofNat 32 i

/-- `read_clusters(fat32_driver.dir_table_buf.table, cluster, 1)`. -/
def FsState.readDirTable (s : FsState) (cluster : BitVec 32) : FsState :=
  { s with dirTableBuf := .ofCluster (readClusters s.disk cluster) }

/-- `write_clusters(fat32_driver.dir_table_buf.table, cluster, 1)`. -/
def FsState.writeDirTable (s : FsState) (cluster : BitVec 32) : FsState :=
  { s with disk := writeClusters s.disk s.dirTableBuf.toCluster cluster }

/-- `write_cluster_map`. -/
def FsState.writeClusterMap (s : FsState) : FsState :=
  { s with disk := writeClusters s.disk s.clusterMap.toCluster fatClusterNumber }

/-! ### Formatting -/

/-- `create_directory_table`.  The table of a new directory is written before
its parent is updated; both go through the one static buffer. -/
def createDirectoryTable (s : FsState) (dirTable : FAT32DirectoryTable) (name : EntryName)
    (parentDirCluster : BitVec 32) (selfCluster : Fin clusterMapSize) : FsState :=
  let dirTable := Function.update dirTable 0
    ((dirTable 0).fill name 0 attrSubdirectory (clusterOf selfCluster) 0)
  -- init parent
  let s := s.readDirTable parentDirCluster
  let dirTable := Function.update dirTable 1
    ((dirTable 1).fill (s.dirTableBuf 0).name (dirTable 1).ext attrSubdirectory
      parentDirCluster 0)
  let dirTable : FAT32DirectoryTable := fun i =>
    if 2 ≤ i.val then (dirTable i).clear else dirTable i
  let s := { s with
    disk := writeClusters s.disk (FAT32DirectoryTable.toCluster dirTable) (clusterOf selfCluster)
    clusterMap := Function.update s.clusterMap selfCluster fat32FatEndOfFile }
  if parentDirCluster = clusterOf selfCluster ∧ parentDirCluster = 2#32 then s
  else
    -- update parent
    let s := match s.dirTableBuf.firstEmpty with
      | none => s
      | some i => { s with
          dirTableBuf := Function.update s.dirTableBuf i
            ((s.dirTableBuf i).fill name 0 attrSubdirectory (clusterOf selfCluster) 0) }
    s.writeDirTable parentDirCluster

/-- `is_empty_storage`: the boot sector does not carry the signature. -/
def isEmptyStorage (disk : Disk) : Bool :=
  memcmp (readBlocks disk 0#32 1 0) fsSignature ≠ 0

/-- `"root\0\0\0"`. -/
def rootName : EntryName := fun i =>
  (['r', 'o', 'o', 't'].map fun c => BitVec.ofNat 8 c.toNat).getD i 0

/-- The allocation table of an empty file system. -/
def freshClusterMap : FAT32FileAllocationTable := fun i =>
  if i = 0 then cluster0Value
  else if i = 1 then cluster1Value
  else if i = 2 then fat32FatEndOfFile
  else fat32FatEmptyEntry

/-- `create_fat32`.  The allocation table is set up in memory; the boot sector
and the root directory go to the disk. -/
def createFat32 (s : FsState) : FsState :=
  let s := { s with disk := writeBlocks s.disk (fun _ : Fin 1 => fsSignature) 0#32 }
  let s := { s with clusterMap := freshClusterMap }
  let rootTable : FAT32DirectoryTable := fun _ => .zero
  let rootTable := Function.update rootTable 0 { rootTable 0 with name := rootName, ext := 0 }
  let s := { s with
    disk := writeClusters s.disk (FAT32DirectoryTable.toCluster rootTable) rootClusterNumber }
  createDirectoryTable s (fun _ => .zero) rootName rootClusterNumber 2

/-- `initialize_filesystem_fat32`. -/
def initializeFilesystemFat32 (s : FsState) : FsState :=
  if isEmptyStorage s.disk then createFat32 s
  else { s with clusterMap := .ofCluster (readClusters s.disk fatClusterNumber) }

end Binbows
