/-
Binbows/FileAllocation.lean

Where `write` puts a new file.

The allocation loop of `write` links each free cluster that it meets to the one
before, in the very table that it scans, with zero for "none yet".  On an intact
volume this comes to what one would want: the file gets the lowest free
clusters, as one chain in increasing order, piece by piece of the buffer, and
nothing else changes (`Allocated`).

Main result: `write_allocates`.
-/
import Binbows.FileSystemRuns

namespace Binbows

open Chain Volume FAT32FileAllocationTable

variable {request : FAT32DriverRequest} {mem : Memory} {s s' : FsState}
  {i : Fin directoryEntryCount} {l : List (Fin clusterMapSize)} {k : Fin clusterMapSize}

/-- `buffer_size / CLUSTER_SIZE`, rounded up. -/
def clusterCount (bufferSize : BitVec 32) : Nat :=
  (bufferSize.toNat + (clusterSize - 1)) / clusterSize

/-- A new file in slot `i` of its parent directory, on the clusters `l`. -/
structure Allocated (request : FAT32DriverRequest) (mem : Memory) (s s' : FsState)
    (i : Fin directoryEntryCount) (l : List (Fin clusterMapSize)) : Prop where
  count : l.length = clusterCount request.bufferSize
  increasing : l.Pairwise (· < ·)
  wasFree : ∀ k ∈ l, s.clusterMap k = fat32FatEmptyEntry
  /-- every other free cluster comes after them -/
  lowest : ∀ k, s.clusterMap k = fat32FatEmptyEntry → k ∉ l → ∀ j ∈ l, j < k
  chain : Walk s'.clusterMap.view fat32FatEndOfFile (clusterOf (l.headD 0)) (l.map clusterOf)
  otherFat : ∀ k ∉ l, s'.clusterMap k = s.clusterMap k
  data : ∀ (n : Nat) (hn : n < l.length), readClusters s'.disk (clusterOf l[n]) =
    mem.load (request.buf + BitVec.ofNat 32 (n * clusterSize))
  slot : ¬ (s.volume.table request.parentClusterNumber i).Occupied
  firstSlot : ∀ j < i, (s.volume.table request.parentClusterNumber j).Occupied
  /-- the entry, but for the times that the driver never sets -/
  entry : s'.volume.table request.parentClusterNumber i =
    (s.volume.table request.parentClusterNumber i).fill request.name request.ext 0
      (clusterOf (l.headD 0))
      (BitVec.ofNat 32 (clusterCount request.bufferSize * clusterSize))
  filesize : (s'.volume.table request.parentClusterNumber i).filesize.toNat =
    clusterCount request.bufferSize * clusterSize
  otherSlots : ∀ j ≠ i, s'.volume.table request.parentClusterNumber j =
    s.volume.table request.parentClusterNumber j
  /-- the sectors of all clusters but the allocation table's, the parent's and the file's -/
  otherSectors : ∀ b : Nat, (∀ c ∈ fatClusterNumber :: request.parentClusterNumber ::
    l.map clusterOf, b / clusterBlockCount ≠ c.toNat) → s'.disk b = s.disk b

/-! ### The lowest free clusters -/

theorem freeClusters_pairwise (t : FAT32FileAllocationTable) :
    (freeClusters t).Pairwise (· < ·) := by
  unfold freeClusters freeIn
  exact (List.pairwise_lt_finRange _).sublist List.filter_sublist

/-- The clusters that are not taken come after those that are. -/
theorem takenClusters_lowest {t : FAT32FileAllocationTable} {n : Nat} {j : Fin clusterMapSize}
    (hk : t k = fat32FatEmptyEntry) (hkt : k ∉ takenClusters t n) (hj : j ∈ takenClusters t n) :
    j < k := by
  have hsorted := freeClusters_pairwise t
  rw [← List.take_append_drop n (freeClusters t)] at hsorted
  refine (List.pairwise_append.mp hsorted).2.2 j hj k ?_
  have hmem : k ∈ (freeClusters t).take n ++ (freeClusters t).drop n := by
    rw [List.take_append_drop]
    exact mem_freeClusters.mpr hk
  exact (List.mem_append.mp hmem).resolve_left hkt

/-! ### The commit -/

theorem FileCommitted.allocated (hf : FileCommitted request mem s s' i l) (h : s.volume.Intact)
    (hp : s.volume.Directory request.parentClusterNumber) (hsize : request.bufferSize ≠ 0) :
    Allocated request mem s s' i l := by
  have hcount : neededSize request.bufferSize = clusterCount request.bufferSize :=
    neededSize_eq hsize
  have htable := hf.table_eq (h.directory_lt hp) (h.directory_ne_fat hp)
  -- the fields of the new entry, from its slot
  have hentry : s'.volume.table request.parentClusterNumber i =
      fileEntryOf request (s.volume.table request.parentClusterNumber i) (l.headD 0) := by
    rw [htable, Function.update_self]
  exact {
    count := hf.length_eq.trans hcount
    increasing := by
      rw [← hf.taken]
      exact (freeClusters_pairwise _).sublist (List.take_sublist _ _)
    wasFree := fun k hk => hf.wasFree hk
    -- the scan takes free clusters from the lowest on
    lowest := by
      intro k hk hkl j hj
      rw [← hf.taken] at hkl hj
      exact takenClusters_lowest hk hkl hj
    chain := by
      rw [hf.fat, hf.head_eq]
      exact walk_link (hf.nodup.map clusterOf_injective) fun hmem =>
        (hf.range h hmem).ne_endOfFile rfl
    otherFat := by
      intro k hk
      rw [← view_clusterOf s'.clusterMap, hf.fat, link_of_notMem, view_clusterOf]
      rwa [List.mem_map_of_injective clusterOf_injective]
    -- cluster by cluster, what the caller's buffer held
    data := by
      intro n hn
      have hcontent := hf.content_new h (h.directory_lt hp) (h.fat_directory_ne_empty hp)
      have hlen : n < (loads mem request.buf (neededSize request.bufferSize)).length := by
        rw [length_loads, ← hf.length_eq]
        exact hn
      rw [← getElem_loads hlen]
      simp only [← hcontent, List.getElem_map]
      rfl
    slot := FAT32DirectoryTable.firstEmpty_eq_some hf.slot
    firstSlot := fun j hj => FAT32DirectoryTable.firstEmpty_first hf.slot hj
    entry := by
      rw [hentry, ← hcount]
      rfl
    filesize := by
      rw [hentry, fileEntryOf, FAT32DirectoryEntry.fill_filesize, hf.size_eq, hf.length_eq, hcount]
    otherSlots := by
      intro j hj
      rw [htable, Function.update_of_ne hj]
    -- the three stores are the data, the parent, and the table of clusters
    otherSectors := by
      intro b hb
      obtain ⟨hfat, hparent, hrest⟩ := List.forall_mem_cons.mp hb |>.imp id List.forall_mem_cons.mp
      rw [hf.disk, writeClusters_of_ne (by decide) hfat,
        writeClusters_of_ne (h.directory_lt hp) hparent, writeData_of_ne hrest] }

/-- The clusters of the file are no longer free, and all others are what they were. -/
theorem Allocated.availableSize_eq (ha : Allocated request mem s s' i l)
    (h0 : s.clusterMap 0 ≠ fat32FatEmptyEntry) :
    availableSize s.clusterMap = availableSize s'.clusterMap + l.length := by
  have hused : ∀ k ∈ l, s'.clusterMap k ≠ fat32FatEmptyEntry := by
    intro k hk hempty
    have hnext := ha.chain.next_mem (List.mem_map_of_mem hk)
    rw [view_clusterOf, hempty] at hnext
    rcases hnext with heof | hmem
    · exact absurd heof (by decide)
    · -- the chain would lead to cluster 0, which was not free
      obtain ⟨j, hj, hzero⟩ := List.mem_map.mp hmem
      obtain rfl : j = 0 := clusterOf_injective hzero
      exact h0 (ha.wasFree 0 hj)
  have hperm : (freeClusters s.clusterMap).Perm (freeClusters s'.clusterMap ++ l) := by
    rw [List.perm_ext_iff_of_nodup (nodup_freeClusters _)]
    · intro k
      rw [List.mem_append, mem_freeClusters, mem_freeClusters]
      constructor
      · intro hk
        by_cases hkl : k ∈ l
        · exact .inr hkl
        · exact .inl (by rwa [ha.otherFat k hkl])
      · rintro (hk | hk)
        · have hkl : k ∉ l := fun hkl => hused k hkl hk
          rwa [← ha.otherFat k hkl]
        · exact ha.wasFree k hk
    · rw [List.nodup_append]
      refine ⟨nodup_freeClusters _, ha.increasing.imp ne_of_lt, ?_⟩
      rintro k hk j hj rfl
      exact hused k hj (mem_freeClusters.mp hk)
  rw [Binbows.availableSize_eq, Binbows.availableSize_eq, hperm.length_eq, List.length_append]

/-! ### When a write succeeds -/

/-- The check against the entries in use, for a file. -/
theorem sameEntry_file_iff {e : FAT32DirectoryEntry} (hsize : request.bufferSize ≠ 0) :
    sameEntry request e ↔ e.name = request.name ∧ e.ext = request.ext := by
  rw [sameEntry_iff]
  constructor
  · rintro ⟨hn, ⟨-, h0⟩ | ⟨-, hx⟩⟩
    · exact absurd h0 hsize
    · exact ⟨hn, hx⟩
  · rintro ⟨hn, hx⟩
    exact ⟨hn, .inr ⟨hsize, hx⟩⟩

theorem write_succeeds_iff {r : Reply} (h : s.volume.Intact)
    (hp : s.volume.Directory request.parentClusterNumber) (hr : write request mem s = .ok r) :
    r.ret = 0 ↔ (∀ j, (s.volume.table request.parentClusterNumber j).Occupied →
        ¬ sameEntry request (s.volume.table request.parentClusterNumber j)) ∧
      (∃ j, ¬ (s.volume.table request.parentClusterNumber j).Occupied) ∧
      neededSize request.bufferSize ≤ availableSize s.clusterMap := by
  constructor
  · intro hret
    rcases write_cases hr with ⟨hne, -⟩ | hw
    · exact absurd hret hne
    · obtain ⟨hfresh, hempty⟩ := writeScan_finRange_eq_some_true.mp hw.scan
      exact ⟨hfresh, hempty, hw.available⟩
  · rintro ⟨hfresh, hempty, hav⟩
    rw [write_eq, parentCheck_directory h hp,
      writeScan_finRange_eq_some_true.mpr ⟨hfresh, hempty⟩] at hr
    dsimp only at hr
    rw [if_neg (not_lt.mpr hav)] at hr
    cases hr
    rfl

/-- A file that was written lies on the lowest free clusters. -/
theorem write_allocated {r : Reply} (h : s.volume.Intact)
    (hp : s.volume.Directory request.parentClusterNumber) (hsize : request.bufferSize ≠ 0)
    (hr : write request mem s = .ok r) (hret : r.ret = 0) :
    ∃ i l, Allocated request mem s r.fs i l := by
  obtain ⟨-, i, l, hf⟩ := write_committed h hsize hr hret
  exact ⟨i, l, hf.allocated h hp hsize⟩

/-- **Allocation.**  On a well-formed volume, a file request below a directory
succeeds exactly if its key is new, a slot is free and so are enough clusters;
and then the file lies on the lowest of them and nothing else has changed. -/
theorem write_allocates (mem : Memory) (h : s.volume.WellFormed)
    (hp : s.volume.Directory request.parentClusterNumber) (hsize : request.bufferSize ≠ 0) :
    ∃ r, write request mem s = .ok r ∧
      (r.ret = 0 ↔
        (∀ j, (s.volume.table request.parentClusterNumber j).Occupied →
          (s.volume.table request.parentClusterNumber j).name = request.name →
          (s.volume.table request.parentClusterNumber j).ext ≠ request.ext) ∧
        (∃ j, ¬ (s.volume.table request.parentClusterNumber j).Occupied) ∧
        clusterCount request.bufferSize ≤ (freeClusters s.clusterMap).length) ∧
      (r.ret = 0 → ∃ i l, Allocated request mem s r.fs i l) := by
  obtain ⟨r, hr⟩ := write_total mem (h.directory_lt hp)
  have hiff := write_succeeds_iff h.toIntact hp hr
  refine ⟨r, hr, ?_, fun hret => write_allocated h.toIntact hp hsize hr hret⟩
  rw [hiff, availableSize_eq, neededSize_eq hsize]
  refine and_congr (forall_congr' fun j => imp_congr_right fun _ => ?_) Iff.rfl
  rw [sameEntry_file_iff hsize, not_and]

/-- A file of one byte beside the folder `a`. -/
theorem write_allocates_oneFolder :
    ∃ r i l, write (makeFile rootClusterNumber 'b').request (fun _ => 7) oneFolder = .ok r ∧
      Allocated (makeFile rootClusterNumber 'b').request (fun _ => 7) oneFolder r.fs i l := by
  obtain ⟨r, hr, -, hall⟩ := @write_allocates (makeFile rootClusterNumber 'b').request
    oneFolder (fun _ => 7) oneFolder_wellFormed .root (by decide)
  obtain ⟨r', hr', hret⟩ := ret_eq_some.mp oneFolder_write_ret
  rw [exec_write, hr] at hr'
  cases hr'
  obtain ⟨i, l, hl⟩ := hall hret
  exact ⟨r, i, l, hr, hl⟩

end Binbows
