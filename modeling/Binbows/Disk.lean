/-
Binbows/Disk.lean

The disk (`filesystem/disk.c`) and the caller's memory that sectors are moved
to and from.

The ATA ports take the low 28 bits of a logical block address, so the disk is
a map from 28-bit sector numbers to blocks of 512 bytes.  A cluster is four
consecutive blocks.  Every call of `read_clusters` and `write_clusters` in the
kernel moves exactly one cluster, so the cluster count is not a parameter
here.

The facts the file system needs are at the end: a cluster reads back what was
last written to it, and writing one cluster changes no other.
-/
import Binbows.Strings
import Mathlib.Logic.Function.Basic
import Mathlib.Data.List.Induction

namespace Binbows

open Bytes

abbrev blockSize : Nat := 512

abbrev clusterBlockCount : Nat := 4

/-- `CLUSTER_SIZE`, that is `BLOCK_SIZE*CLUSTER_BLOCK_COUNT`. -/
abbrev clusterSize : Nat := 2048

/-- `CLUSTER_MAP_SIZE`: the number of clusters the allocation table covers. -/
abbrev clusterMapSize : Nat := 512

instance : NeZero clusterMapSize := ⟨by decide⟩

abbrev BlockBuffer := Fin blockSize → Byte

abbrev ClusterBuffer := Fin clusterSize → Byte

/-- The blocks of the disk by their 28-bit sector number. -/
abbrev Disk := Nat → BlockBuffer

/-! ### Blocks -/

/-- The sector the controller reaches for block `i` of a transfer. -/
def sector (logicalBlockAddress : BitVec 32) (i : Nat) : Nat :=
  (logicalBlockAddress.toNat + i) % 2 ^ 28

def readBlocks (disk : Disk) (logicalBlockAddress : BitVec 32) (blockCount : Nat) :
    Fin blockCount → BlockBuffer :=
  fun i => disk (sector logicalBlockAddress i)

def writeBlocks {blockCount : Nat} (disk : Disk) (ptr : Fin blockCount → BlockBuffer)
    (logicalBlockAddress : BitVec 32) : Disk :=
  (List.finRange blockCount).foldl
    (fun d (i : Fin blockCount) => Function.update d (sector logicalBlockAddress i) (ptr i)) disk

/-- A transfer leaves the sectors it does not name alone. -/
theorem writeBlocks_of_ne {blockCount : Nat} {disk : Disk} {ptr : Fin blockCount → BlockBuffer}
    {lba : BitVec 32} {b : Nat} (h : ∀ i : Fin blockCount, sector lba i ≠ b) :
    writeBlocks disk ptr lba b = disk b := by
  unfold writeBlocks
  generalize List.finRange blockCount = is
  induction is generalizing disk with
  | nil => rfl
  | cons i is ih =>
      rw [List.foldl_cons, ih]
      exact Function.update_of_ne (h i).symm _ _

/-- A short transfer puts block `i` of the source in the `i`-th sector. -/
theorem writeBlocks_sector {blockCount : Nat} (hcount : blockCount ≤ 2 ^ 28) (disk : Disk)
    (ptr : Fin blockCount → BlockBuffer) (lba : BitVec 32) (i : Fin blockCount) :
    writeBlocks disk ptr lba (sector lba i) = ptr i := by
  have hinj : ∀ j : Fin blockCount, sector lba j = sector lba i → j = i := by
    intro j hj
    unfold sector at hj
    omega
  unfold writeBlocks
  have hmem : i ∈ List.finRange blockCount := List.mem_finRange i
  generalize List.finRange blockCount = is at hmem
  induction is using List.reverseRecOn with
  | nil => simp at hmem
  | append_singleton is j ih =>
      rw [List.foldl_append, List.foldl_cons, List.foldl_nil]
      by_cases hij : j = i
      · rw [hij, Function.update_self]
      · have hne : sector lba i ≠ sector lba j := fun h => hij (hinj j h.symm)
        rw [Function.update_of_ne hne]
        refine ih ?_
        simpa [Ne.symm hij] using hmem

/-! ### Clusters -/

/-- `cluster_to_lba`, in 32-bit arithmetic. -/
def clusterToLba (cluster : BitVec 32) : BitVec 32 :=
  cluster * BitVec.ofNat 32 clusterBlockCount

def readClusters (disk : Disk) (clusterNumber : BitVec 32) : ClusterBuffer :=
  flatten (readBlocks disk (clusterToLba clusterNumber) clusterBlockCount)

def writeClusters (disk : Disk) (ptr : ClusterBuffer) (clusterNumber : BitVec 32) : Disk :=
  writeBlocks disk (group (n := clusterBlockCount) ptr) (clusterToLba clusterNumber)

theorem sector_clusterToLba (c : BitVec 32) {i : Nat} (hi : i < 4) :
    sector (clusterToLba c) i = 4 * (c.toNat % 2 ^ 26) + i := by
  unfold sector clusterToLba clusterBlockCount
  simp only [BitVec.toNat_mul, BitVec.toNat_ofNat]
  omega

@[simp] theorem readClusters_writeClusters_self (disk : Disk) (ptr : ClusterBuffer)
    (c : BitVec 32) : readClusters (writeClusters disk ptr c) c = ptr := by
  have h : readBlocks (writeClusters disk ptr c) (clusterToLba c) clusterBlockCount
      = group (n := clusterBlockCount) ptr := by
    funext i
    exact writeBlocks_sector (by unfold clusterBlockCount; omega) _ _ _ i
  rw [readClusters, h]
  exact flatten_group (n := clusterBlockCount) (k := blockSize) ptr

/-- Two clusters that the controller tells apart do not share a sector. -/
theorem readClusters_writeClusters_of_ne {disk : Disk} {ptr : ClusterBuffer}
    {c c' : BitVec 32} (h : c.toNat % 2 ^ 26 ≠ c'.toNat % 2 ^ 26) :
    readClusters (writeClusters disk ptr c) c' = readClusters disk c' := by
  have hb : readBlocks (writeClusters disk ptr c) (clusterToLba c') clusterBlockCount
      = readBlocks disk (clusterToLba c') clusterBlockCount := by
    funext i
    refine writeBlocks_of_ne fun j => ?_
    have hi : i.val < 4 := i.isLt
    have hj : j.val < 4 := j.isLt
    rw [sector_clusterToLba c hj, sector_clusterToLba c' hi]
    omega
  rw [readClusters, hb, readClusters]

/-- The clusters that the allocation table covers are told apart. -/
theorem readClusters_writeClusters {disk : Disk} {ptr : ClusterBuffer} {c c' : BitVec 32}
    (hc : c.toNat < clusterMapSize) (hc' : c'.toNat < clusterMapSize) :
    readClusters (writeClusters disk ptr c) c' =
      if c = c' then ptr else readClusters disk c' := by
  split_ifs with h
  · rw [h, readClusters_writeClusters_self]
  · apply readClusters_writeClusters_of_ne
    have hne : c.toNat ≠ c'.toNat := fun he => h (BitVec.eq_of_toNat_eq he)
    unfold clusterMapSize at hc hc'
    omega

/-- Writing a cluster changes its own four sectors. -/
theorem writeClusters_of_ne {disk : Disk} {ptr : ClusterBuffer} {c : BitVec 32} {b : Nat}
    (hc : c.toNat < clusterMapSize) (h : b / clusterBlockCount ≠ c.toNat) :
    writeClusters disk ptr c b = disk b := by
  refine writeBlocks_of_ne fun i => ?_
  have hi : i.val < 4 := i.isLt
  rw [sector_clusterToLba c hi]
  unfold clusterBlockCount clusterMapSize at *
  omega

/-- Writing to a cluster what was read from it puts its sectors back. -/
theorem writeClusters_readClusters {disk disk' : Disk} {c : BitVec 32} {b : Nat}
    (hc : c.toNat < clusterMapSize) (h : b / clusterBlockCount = c.toNat) :
    writeClusters disk (readClusters disk' c) c b = disk' b := by
  have hi : b % clusterBlockCount < clusterBlockCount := Nat.mod_lt _ (by decide)
  have hb : b = sector (clusterToLba c) (⟨b % clusterBlockCount, hi⟩ : Fin clusterBlockCount) := by
    rw [sector_clusterToLba c hi]
    unfold clusterBlockCount clusterMapSize at *
    omega
  have hgroup : group (n := clusterBlockCount) (readClusters disk' c) =
      readBlocks disk' (clusterToLba c) clusterBlockCount := group_flatten _
  rw [hb, writeClusters, writeBlocks_sector (by unfold clusterBlockCount; omega), hgroup]
  rfl

/-! ### The caller's memory -/

/-- The caller's address space, byte by byte. -/
abbrev Memory := BitVec 32 → Byte

/-- The cluster-sized piece of memory at an address. -/
def Memory.load (mem : Memory) (addr : BitVec 32) : ClusterBuffer :=
  fun k => mem (addr + BitVec.ofNat 32 k)

/-- Store one cluster at an address. -/
def Memory.store (mem : Memory) (addr : BitVec 32) (data : ClusterBuffer) : Memory :=
  fun a => if h : (a - addr).toNat < clusterSize then data ⟨(a - addr).toNat, h⟩ else mem a

/-- Store clusters one after the other from an address on. -/
def Memory.storeAll (mem : Memory) (addr : BitVec 32) : List ClusterBuffer → Memory
  | [] => mem
  | data :: rest =>
      Memory.storeAll (mem.store addr data) (addr + BitVec.ofNat 32 clusterSize) rest

end Binbows
