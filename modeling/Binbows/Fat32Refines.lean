/-
Binbows/Fat32Refines.lean

The driver refines the abstract file system.

`create_fat32` makes a well-formed volume whose only directory is the root
(`createFat32_wellFormed`).  On an intact volume and below one of its
directories every request returns; it leaves the volume as it is, or it is a
`write` or `delete` that returns 0 and makes one of the edits of `VolumeStep`
(`write_refines`, `delete_refines`).

One deletion escapes: `delete` takes a folder for empty when only its slots
from 3 on are free.  `StrandsOnlyChild` is that layout, and
`delete_refines` is about the other ones.
-/
import Binbows.VolumeSteps
import Binbows.Fat32Spec

namespace Binbows

open Chain SlotTree Volume FAT32FileAllocationTable

variable {request : FAT32DriverRequest} {mem : Memory} {s : FsState} {r : Reply} {p c : BitVec 32}
  {i j : Fin directoryEntryCount} {name parentName : EntryName} {self : Fin clusterMapSize}

/-! ### New directories -/

/-- The table of a new directory: its own entry, its parent's, and free slots. -/
def freshTable (name parentName : EntryName) (parent self : BitVec 32) : FAT32DirectoryTable :=
  fun i =>
    if i = 0 then FAT32DirectoryEntry.zero.fill name 0 attrSubdirectory self 0
    else if i = 1 then FAT32DirectoryEntry.zero.fill parentName 0 attrSubdirectory parent 0
    else .zero

theorem freshTable_self : IsDirEntry (freshTable name parentName p c 0) name c :=
  ⟨rfl, rfl, rfl, rfl, FAT32DirectoryEntry.fill_cluster ..⟩

theorem freshTable_parent : IsDirEntry (freshTable name parentName p c 1) parentName p :=
  ⟨rfl, rfl, rfl, rfl, FAT32DirectoryEntry.fill_cluster ..⟩

theorem freshTable_empty (h : 2 ≤ j.val) : ¬ (freshTable name parentName p c j).Occupied := by
  have h0 : j ≠ 0 := by
    rintro rfl
    exact absurd h (by decide)
  have h1 : j ≠ 1 := by
    rintro rfl
    exact absurd h (by decide)
  unfold freshTable
  rw [if_neg h0, if_neg h1]
  exact FAT32DirectoryEntry.not_clear_occupied .zero

/-- The table that `create_directory_table` puts together. -/
theorem createDirectoryTable_table (name : EntryName) (t : FAT32DirectoryTable) (p c : BitVec 32) :
    (fun i : Fin directoryEntryCount =>
      if 2 ≤ i.val then
        (Function.update (Function.update (fun _ => FAT32DirectoryEntry.zero) 0
          (FAT32DirectoryEntry.zero.fill name 0 attrSubdirectory c 0)) 1
          (FAT32DirectoryEntry.zero.fill (t 0).name 0 attrSubdirectory p 0) i).clear
      else
        Function.update (Function.update (fun _ => FAT32DirectoryEntry.zero) 0
          (FAT32DirectoryEntry.zero.fill name 0 attrSubdirectory c 0)) 1
          (FAT32DirectoryEntry.zero.fill (t 0).name 0 attrSubdirectory p 0) i) =
      freshTable name (t 0).name p c := by
  funext i
  unfold freshTable
  by_cases h0 : i = 0
  · subst h0
    rfl
  · by_cases h1 : i = 1
    · subst h1
      rfl
    · have hi : 2 ≤ i.val := by
        have : i.val ≠ 0 := fun h => h0 (Fin.ext h)
        have : i.val ≠ 1 := fun h => h1 (Fin.ext h)
        omega
      rw [if_pos hi, if_neg h0, if_neg h1, Function.update_of_ne h1, Function.update_of_ne h0]
      rfl

/-- `create_directory_table` below another directory. -/
theorem createDirectoryTable_eq (name : EntryName) (hne : p ≠ clusterOf self)
    (hi : (s.volume.table p).firstEmpty = some i) :
    createDirectoryTable s (fun _ => .zero) name p self =
      { s with
        clusterMap := Function.update s.clusterMap self fat32FatEndOfFile
        dirTableBuf := Function.update (s.volume.table p) i
          ((s.volume.table p i).fill name 0 attrSubdirectory (clusterOf self) 0)
        disk := writeClusters
          (writeClusters s.disk (FAT32DirectoryTable.toCluster
            (freshTable name (s.volume.table p 0).name p (clusterOf self))) (clusterOf self))
          (FAT32DirectoryTable.toCluster (Function.update (s.volume.table p) i
            ((s.volume.table p i).fill name 0 attrSubdirectory (clusterOf self) 0))) p } := by
  unfold createDirectoryTable
  dsimp only
  rw [if_neg fun h => hne h.1]
  have hi' : (s.readDirTable p).dirTableBuf.firstEmpty = some i := hi
  rw [hi']
  have ht := createDirectoryTable_table name (s.volume.table p) p (clusterOf self)
  rw [← ht]
  rfl

/-- `create_directory_table` of the root. -/
theorem createDirectoryTable_root :
    createDirectoryTable s (fun _ => .zero) name rootClusterNumber 2 =
      { s.readDirTable rootClusterNumber with
        clusterMap := Function.update s.clusterMap 2 fat32FatEndOfFile
        disk := writeClusters s.disk (FAT32DirectoryTable.toCluster (freshTable name
          (s.volume.table rootClusterNumber 0).name rootClusterNumber rootClusterNumber))
          rootClusterNumber } := by
  unfold createDirectoryTable
  dsimp only
  rw [if_pos ⟨rfl, rfl⟩]
  have ht := createDirectoryTable_table name (s.volume.table rootClusterNumber)
    rootClusterNumber (clusterOf 2)
  rw [← show clusterOf 2 = rootClusterNumber from rfl] at ht ⊢
  rw [← ht]
  rfl

/-! ### A formatted disk -/

theorem createFat32_clusterMap : (createFat32 s).clusterMap = freshClusterMap := by
  unfold createFat32
  dsimp only
  rw [createDirectoryTable_root]
  exact Function.update_eq_self (2 : Fin clusterMapSize) freshClusterMap

theorem createFat32_table_root : (createFat32 s).volume.table rootClusterNumber =
    freshTable rootName rootName rootClusterNumber rootClusterNumber := by
  unfold createFat32
  dsimp only
  rw [createDirectoryTable_root]
  unfold Volume.table FsState.volume
  dsimp only
  rw [readClusters_writeClusters_self, FAT32DirectoryTable.ofCluster_toCluster,
    readClusters_writeClusters_self, FAT32DirectoryTable.ofCluster_toCluster]
  rfl

/-- The root of a formatted disk has no subdirectories and no files. -/
theorem createFat32_not_occupied (h : 2 ≤ i.val) :
    ¬ ((createFat32 s).volume.table rootClusterNumber i).Occupied := by
  rw [createFat32_table_root]
  exact freshTable_empty h

theorem createFat32_directory_iff :
    (createFat32 s).volume.Directory p ↔ p = rootClusterNumber := by
  constructor
  · intro hp
    induction hp with
    | root => rfl
    | @child a j b _ he ih =>
        subst ih
        obtain ⟨hs, -⟩ := child_eq_some_iff.mp he
        exact absurd hs.2.1 (createFat32_not_occupied hs.1)
  · rintro rfl
    exact .root

/-- **Formatting makes a well-formed volume.** -/
theorem createFat32_wellFormed (s : FsState) : (createFat32 s).volume.WellFormed where
  fat_zero := by
    show (createFat32 s).clusterMap.view (clusterOf 0) = _
    rw [view_clusterOf, createFat32_clusterMap]
    rfl
  fat_one := by
    show (createFat32 s).clusterMap.view (clusterOf 1) = _
    rw [view_clusterOf, createFat32_clusterMap]
    rfl
  -- the root is the only directory
  fat_directory := by
    intro d hd
    obtain rfl := createFat32_directory_iff.mp hd
    show (createFat32 s).clusterMap.view (clusterOf 2) = _
    rw [view_clusterOf, createFat32_clusterMap]
    rfl
  self_entry := by
    intro d hd
    obtain rfl := createFat32_directory_iff.mp hd
    rw [createFat32_table_root]
    exact freshTable_self
  root_parent := by
    rw [createFat32_table_root]
    exact freshTable_parent
  child_linked := by
    intro d i hd hs
    -- nothing in it is in use
    obtain rfl := createFat32_directory_iff.mp hd
    exact absurd hs.2.1 (createFat32_not_occupied hs.1)
  file_linked := by
    intro d i hd hf
    obtain rfl := createFat32_directory_iff.mp hd
    exact absurd hf.2.1 (createFat32_not_occupied hf.1)
  owner_unique := by
    rintro d i d' i' c ⟨hd, l, hl, -⟩ -
    obtain rfl := createFat32_directory_iff.mp hd
    exact absurd hl.occupied.2 (createFat32_not_occupied hl.occupied.1)
  free := by
    intro c hc _
    obtain ⟨h3, hlt⟩ := hc
    show (createFat32 s).clusterMap.view c = _
    rw [createFat32_clusterMap, ← clusterOf_mk hlt, view_clusterOf]
    -- the clusters that are reserved come first
    have hne : ∀ k : Fin clusterMapSize, k.val < 3 → (⟨c.toNat, hlt⟩ : Fin clusterMapSize) ≠ k := by
      rintro k hk rfl
      exact absurd hk (not_lt.mpr h3)
    unfold freshClusterMap
    rw [if_neg (hne 0 (by decide)), if_neg (hne 1 (by decide)), if_neg (hne 2 (by decide))]

/-! ### Write -/

/-- A directory passes the parent check. -/
theorem parentCheck_directory (h : s.volume.Intact) (hp : s.volume.Directory p)
    {a b : Except Fault Reply} : parentCheck s p a b = b := by
  have hv : s.clusterMap.view p = fat32FatEndOfFile := h.fat_directory hp
  rw [parentCheck_of_lt (h.directory_lt hp), if_pos hv]

/-- Writing the allocation table out changes cluster 1 only. -/
theorem content_writeClusterMap (hc : c.toNat < clusterMapSize) (hne : c ≠ fatClusterNumber) :
    s.writeClusterMap.volume.content c = s.volume.content c := by
  show readClusters (writeClusters s.disk s.clusterMap.toCluster fatClusterNumber) c = _
  rw [readClusters_writeClusters (by decide) hc, if_neg hne.symm]
  rfl

/-- A cluster that is marked free is no directory and not reserved. -/
theorem Volume.Intact.range_of_free (h : s.volume.Intact) {i : Fin clusterMapSize}
    (hi : s.clusterMap i = fat32FatEmptyEntry) : DataCluster (clusterOf i) := by
  have hfat : ∀ b : BitVec 32, s.volume.fat b ≠ fat32FatEmptyEntry → clusterOf i ≠ b := by
    rintro b hb rfl
    exact hb ((view_clusterOf _ _).trans hi)
  have h0 := hfat 0#32 (by rw [h.fat_zero]; decide)
  have h1 := hfat fatClusterNumber (by rw [h.fat_one]; decide)
  have h2 := hfat rootClusterNumber (h.fat_directory_ne_empty .root)
  refine ⟨?_, clusterOf_lt i⟩
  by_contra hlt
  have : (clusterOf i).toNat = 0 ∨ (clusterOf i).toNat = 1 ∨ (clusterOf i).toNat = 2 := by omega
  rcases this with hv | hv | hv
  · exact h0 (BitVec.eq_of_toNat_eq hv)
  · exact h1 (BitVec.eq_of_toNat_eq hv)
  · exact h2 (BitVec.eq_of_toNat_eq hv)

theorem Volume.Intact.clusterMap_zero_ne (h : s.volume.Intact) :
    s.clusterMap 0 ≠ fat32FatEmptyEntry := by
  have h0 : s.clusterMap 0 = cluster0Value :=
    (view_clusterOf s.clusterMap 0).symm.trans h.fat_zero
  rw [h0]
  decide

/-- **A new folder**: `write` with an empty buffer, once its checks have passed. -/
theorem writeCommit_directory (h : s.volume.Intact)
    (hp : s.volume.Directory request.parentClusterNumber) (hsize : request.bufferSize = 0)
    (hscan : writeScan request (s.volume.table request.parentClusterNumber)
      (List.finRange directoryEntryCount) false = some true)
    (hav : neededSize request.bufferSize ≤ availableSize s.clusterMap) :
    ∃ i e c, AddDirectory s.volume
        (writeCommit request mem (s.readDirTable request.parentClusterNumber)).volume
        request.parentClusterNumber i e request.name c ∧
      (writeCommit request mem (s.readDirTable request.parentClusterNumber)).volume.table c =
        freshTable request.name (s.volume.table request.parentClusterNumber 0).name
          request.parentClusterNumber c := by
  obtain ⟨first, rest, htaken, hview, hdisk, -, hlast⟩ := allocate_spec mem
    (s := s.readDirTable request.parentClusterNumber) h.clusterMap_zero_ne hav
  obtain ⟨hfresh, hempty⟩ := writeScan_finRange_eq_some_true.mp hscan
  obtain ⟨i, hi⟩ := FAT32DirectoryTable.exists_firstEmpty hempty
  -- one cluster is taken
  have hone : neededSize request.bufferSize = 1 := by
    rw [hsize]
    rfl
  obtain rfl : rest = [] := by
    have hlen := congrArg List.length htaken
    rw [takenClusters, hone, List.length_take, List.length_cons] at hlen
    exact List.length_eq_zero_iff.mp (by omega)
  have hfree : s.clusterMap first = fat32FatEmptyEntry := by
    have hmem : first ∈ takenClusters s.clusterMap (neededSize request.bufferSize) := by
      rw [show takenClusters s.clusterMap _ = [first] from htaken]
      exact List.mem_singleton.mpr rfl
    exact mem_freeClusters.mp (List.mem_of_mem_take hmem)
  have hrange := h.range_of_free hfree
  have hfree' : s.volume.fat (clusterOf first) = fat32FatEmptyEntry :=
    (view_clusterOf _ _).trans hfree
  have hplt := h.directory_lt hp
  have hpf := h.directory_ne_fat hp
  -- what the allocation takes was free, so it is not the parent
  have hpc : request.parentClusterNumber ≠ clusterOf first := by
    intro he
    exact h.fat_directory_ne_empty hp (he ▸ hfree')
  rw [if_neg (not_not.mpr hsize)] at hdisk
  rcases request with ⟨buf, name, ext, p, size⟩
  dsimp only at hsize hlast hpc hplt hpf hp hi hfresh hview hdisk ⊢
  subst hsize
  generalize ha : allocate ⟨buf, name, ext, p, 0⟩ mem (s.readDirTable p) = a at hview hdisk hlast
  have hlast' : a.lastClusterWritten = first := hlast
  -- the state after the allocation: the disk is as it was
  obtain ⟨s₁, hs₁⟩ : ∃ s₁ : FsState, s₁ = { s.readDirTable p with
    clusterMap := a.clusterMap, disk := a.disk } := ⟨_, rfl⟩
  have hdisk₁ : s₁.disk = s.disk := by
    rw [hs₁]
    exact hdisk
  have htab : ∀ c, s₁.volume.table c = s.volume.table c := by
    intro c
    show FAT32DirectoryTable.ofCluster (readClusters s₁.disk c) = _
    rw [hdisk₁]
    rfl
  have hcommit : writeCommit ⟨buf, name, ext, p, 0⟩ mem (s.readDirTable p) =
      (createDirectoryTable s₁ (fun _ => .zero) name p first).writeClusterMap := by
    unfold writeCommit
    dsimp only
    rw [if_pos rfl, ha, hlast', hs₁]
  have hcreate := createDirectoryTable_eq name hpc
    ((congrArg FAT32DirectoryTable.firstEmpty (htab p)).trans hi)
  rw [htab, hdisk₁] at hcreate
  generalize he : (s.volume.table p i).fill name 0 attrSubdirectory (clusterOf first) 0 = e
    at hcreate
  -- the parent with its new entry, the new table, and all else as before
  have hcontent : ∀ d : BitVec 32, d.toNat < clusterMapSize → d ≠ fatClusterNumber →
      (writeCommit ⟨buf, name, ext, p, 0⟩ mem (s.readDirTable p)).volume.content d =
        if p = d then FAT32DirectoryTable.toCluster (Function.update (s.volume.table p) i e)
        else if clusterOf first = d then FAT32DirectoryTable.toCluster
          (freshTable name (s.volume.table p 0).name p (clusterOf first))
        else s.volume.content d := by
    intro d hd hdf
    rw [hcommit, content_writeClusterMap hd hdf, hcreate]
    show readClusters (writeClusters (writeClusters s.disk _ _) _ p) d = _
    rw [readClusters_writeClusters hplt hd, readClusters_writeClusters (clusterOf_lt first) hd]
    rfl
  have htabc : (writeCommit ⟨buf, name, ext, p, 0⟩ mem (s.readDirTable p)).volume.table
      (clusterOf first) = freshTable name (s.volume.table p 0).name p (clusterOf first) := by
    show FAT32DirectoryTable.ofCluster (Volume.content _ _) = _
    rw [hcontent _ hrange.2 hrange.ne_fat, if_neg hpc, if_pos rfl,
      FAT32DirectoryTable.ofCluster_toCluster]
  refine ⟨i, e, clusterOf first, ?_, htabc⟩
  exact {
    parent := hp
    slot := FAT32DirectoryTable.firstEmpty_eq_some hi
    entry := by
      subst he
      exact ⟨rfl, rfl, rfl, rfl, FAT32DirectoryEntry.fill_cluster ..⟩
    range := hrange
    wasFree := hfree'
    fresh := fun j ho hs hn => hfresh j ho (sameEntry_iff.mpr ⟨hn, .inl ⟨hs, rfl⟩⟩)
    -- the mark of the new cluster is set twice, by the allocation and by the table
    fat := by
      rw [hcommit]
      show view (createDirectoryTable s₁ _ _ _ _).clusterMap = _
      rw [hcreate, view_update]
      rw [hs₁]
      show Function.update (view a.clusterMap) _ _ = _
      rw [hview]
      exact Function.update_idem _ _ _
    table := by
      show FAT32DirectoryTable.ofCluster (Volume.content _ _) = _
      rw [hcontent p hplt hpf, if_pos rfl, FAT32DirectoryTable.ofCluster_toCluster]
    self := by
      rw [htabc]
      exact freshTable_self
    parentEntry := by
      rw [htabc]
      exact freshTable_parent
    empty := by
      intro j hj
      rw [htabc]
      exact freshTable_empty hj
    frame := by
      intro d hd hdc hdp hdf
      rw [hcontent d hd hdf, if_neg (Ne.symm hdp), if_neg (Ne.symm hdc)] }

/-- The file branch of `write` enters the file in the first free slot. -/
theorem enterFile_eq (first : Fin clusterMapSize) (needed : Nat)
    (hi : (s.volume.table request.parentClusterNumber).firstEmpty = some i) :
    enterFile s request first needed =
      { s with
        dirTableBuf := Function.update (s.volume.table request.parentClusterNumber) i
          ((s.volume.table request.parentClusterNumber i).fill request.name request.ext 0
            (clusterOf first) (BitVec.ofNat 32 (needed * clusterSize)))
        disk := writeClusters s.disk (FAT32DirectoryTable.toCluster
          (Function.update (s.volume.table request.parentClusterNumber) i
            ((s.volume.table request.parentClusterNumber i).fill request.name request.ext 0
              (clusterOf first) (BitVec.ofNat 32 (needed * clusterSize)))))
          request.parentClusterNumber } := by
  unfold enterFile
  dsimp only
  have hi' : (s.readDirTable request.parentClusterNumber).dirTableBuf.firstEmpty = some i := hi
  rw [hi']
  rfl

theorem availableSize_le (t : FAT32FileAllocationTable) : availableSize t ≤ clusterMapSize := by
  have h := List.countP_le_length (l := List.finRange clusterMapSize)
    (p := fun i => t i = fat32FatEmptyEntry)
  rwa [List.length_finRange] at h

/-- What a successful write leaves in the slot and on the clusters of the new
file. -/
structure Written (request : FAT32DriverRequest) (mem : Memory) (v' : Volume)
    (e : FAT32DirectoryEntry) (l : List (BitVec 32)) : Prop where
  name_eq : e.name = request.name
  ext_eq : e.ext = request.ext
  length_eq : l.length = neededSize request.bufferSize
  content : l.map v'.content = loads mem request.buf (neededSize request.bufferSize)

/-- The entry of a new file. -/
def fileEntryOf (request : FAT32DriverRequest) (e : FAT32DirectoryEntry)
    (first : Fin clusterMapSize) : FAT32DirectoryEntry :=
  e.fill request.name request.ext 0 (clusterOf first)
    (BitVec.ofNat 32 (neededSize request.bufferSize * clusterSize))

/-- `write` has entered a file in slot `i`, on the clusters `l`. -/
structure FileCommitted (request : FAT32DriverRequest) (mem : Memory) (s s' : FsState)
    (i : Fin directoryEntryCount) (l : List (Fin clusterMapSize)) : Prop where
  slot : (s.volume.table request.parentClusterNumber).firstEmpty = some i
  taken : takenClusters s.clusterMap (neededSize request.bufferSize) = l
  enough : neededSize request.bufferSize ≤ availableSize s.clusterMap
  fat : s'.clusterMap.view = link s.clusterMap.view fat32FatEndOfFile (l.map clusterOf)
  disk : s'.disk = writeClusters
    (writeClusters (writeData mem s.disk request.buf l)
      (FAT32DirectoryTable.toCluster (Function.update
        (s.volume.table request.parentClusterNumber) i
        (fileEntryOf request (s.volume.table request.parentClusterNumber i) (l.headD 0))))
      request.parentClusterNumber)
    s'.clusterMap.toCluster fatClusterNumber

/-- The file branch of `write`, below any cluster that is not free. -/
theorem writeCommit_committed (mem : Memory) (h : s.volume.Intact)
    (hlt : request.parentClusterNumber.toNat < clusterMapSize)
    (hused : s.volume.fat request.parentClusterNumber ≠ fat32FatEmptyEntry)
    (hsize : request.bufferSize ≠ 0)
    (hempty : ∃ i, ¬ (s.volume.table request.parentClusterNumber i).Occupied)
    (hav : neededSize request.bufferSize ≤ availableSize s.clusterMap) :
    ∃ i l, FileCommitted request mem s
      (writeCommit request mem (s.readDirTable request.parentClusterNumber)) i l := by
  obtain ⟨first, rest, htaken, hview, hdisk, hfirst, -⟩ := allocate_spec mem
    (s := s.readDirTable request.parentClusterNumber) h.clusterMap_zero_ne hav
  obtain ⟨i, hi⟩ := FAT32DirectoryTable.exists_firstEmpty hempty
  rw [if_pos hsize] at hdisk
  generalize ha : allocate request mem (s.readDirTable request.parentClusterNumber) = a
    at hview hdisk hfirst
  -- the state after the allocation: the table of the parent is as it was
  obtain ⟨s₁, hs₁⟩ : ∃ s₁ : FsState, s₁ = { s.readDirTable request.parentClusterNumber with
    clusterMap := a.clusterMap, disk := a.disk } := ⟨_, rfl⟩
  have hdisk₁ : s₁.disk = writeData mem s.disk request.buf (first :: rest) := by
    rw [hs₁]
    exact hdisk
  have htab : s₁.volume.table request.parentClusterNumber =
      s.volume.table request.parentClusterNumber := by
    show FAT32DirectoryTable.ofCluster (readClusters s₁.disk _) = _
    rw [hdisk₁, readClusters_writeData_of_notMem hlt]
    · rfl
    -- the data lie in clusters that were free, and the parent was not
    · intro hmem
      obtain ⟨k, hk, hkp⟩ := List.mem_map.mp hmem
      rw [← htaken] at hk
      have hfree : s.clusterMap k = fat32FatEmptyEntry :=
        mem_freeClusters.mp (List.mem_of_mem_take hk)
      refine hused ?_
      rw [← hkp]
      exact (view_clusterOf _ _).trans hfree
  have henter := enterFile_eq first (neededSize request.bufferSize)
    ((congrArg FAT32DirectoryTable.firstEmpty htab).trans hi)
  rw [htab, hdisk₁] at henter
  have hcommit : writeCommit request mem (s.readDirTable request.parentClusterNumber) =
      (enterFile s₁ request first (neededSize request.bufferSize)).writeClusterMap := by
    unfold writeCommit
    dsimp only
    rw [if_neg hsize, ha, hfirst, hs₁]
  refine ⟨i, first :: rest, hi, htaken, hav, ?_, ?_⟩
  · rw [hcommit]
    show view (enterFile s₁ _ _ _).clusterMap = _
    rw [henter, hs₁]
    exact hview
  · rw [hcommit]
    show writeClusters (enterFile s₁ _ _ _).disk (enterFile s₁ _ _ _).clusterMap.toCluster _ = _
    rw [henter]
    rfl

namespace FileCommitted

variable {s' : FsState} {l : List (Fin clusterMapSize)} {k : Fin clusterMapSize}

theorem length_eq (hf : FileCommitted request mem s s' i l) :
    l.length = neededSize request.bufferSize := by
  rw [← hf.taken, takenClusters, List.length_take, ← availableSize_eq]
  exact min_eq_left hf.enough

theorem nodup (hf : FileCommitted request mem s s' i l) : l.Nodup := by
  rw [← hf.taken]
  exact (nodup_freeClusters _).sublist (List.take_sublist _ _)

theorem wasFree (hf : FileCommitted request mem s s' i l) (hk : k ∈ l) :
    s.clusterMap k = fat32FatEmptyEntry := by
  rw [← hf.taken] at hk
  exact mem_freeClusters.mp (List.mem_of_mem_take hk)

theorem fat_clusterOf (hf : FileCommitted request mem s s' i l) (hc : c ∈ l.map clusterOf) :
    s.volume.fat c = fat32FatEmptyEntry := by
  obtain ⟨k, hk, rfl⟩ := List.mem_map.mp hc
  exact (view_clusterOf _ _).trans (hf.wasFree hk)

theorem range (hf : FileCommitted request mem s s' i l) (h : s.volume.Intact)
    (hc : c ∈ l.map clusterOf) : DataCluster c := by
  obtain ⟨k, hk, rfl⟩ := List.mem_map.mp hc
  exact h.range_of_free (hf.wasFree hk)

/-- A cluster that was in use is not among the clusters of the new file. -/
theorem used_notMem (hf : FileCommitted request mem s s' i l)
    (hused : s.volume.fat c ≠ fat32FatEmptyEntry) : c ∉ l.map clusterOf := fun hmem =>
  hused (hf.fat_clusterOf hmem)

theorem content (hf : FileCommitted request mem s s' i l) (hc : c.toNat < clusterMapSize)
    (hplt : request.parentClusterNumber.toNat < clusterMapSize)
    (hcp : c ≠ request.parentClusterNumber) (hcf : c ≠ fatClusterNumber) :
    s'.volume.content c = readClusters (writeData mem s.disk request.buf l) c := by
  show readClusters s'.disk c = _
  rw [hf.disk, readClusters_writeClusters (by decide) hc, if_neg hcf.symm,
    readClusters_writeClusters hplt hc, if_neg hcp.symm]

theorem content_new (hf : FileCommitted request mem s s' i l) (h : s.volume.Intact)
    (hlt : request.parentClusterNumber.toNat < clusterMapSize)
    (hused : s.volume.fat request.parentClusterNumber ≠ fat32FatEmptyEntry) :
    (l.map clusterOf).map s'.volume.content =
      loads mem request.buf (neededSize request.bufferSize) := by
  rw [← hf.length_eq, ← map_readClusters_writeData s.disk hf.nodup]
  refine List.map_congr_left fun c hc => ?_
  refine hf.content (hf.range h hc).2 hlt ?_ (hf.range h hc).ne_fat
  rintro rfl
  exact hf.used_notMem hused hc

theorem table_eq (hf : FileCommitted request mem s s' i l)
    (hlt : request.parentClusterNumber.toNat < clusterMapSize)
    (hne : request.parentClusterNumber ≠ fatClusterNumber) :
    s'.volume.table request.parentClusterNumber =
      Function.update (s.volume.table request.parentClusterNumber) i
        (fileEntryOf request (s.volume.table request.parentClusterNumber i) (l.headD 0)) := by
  show FAT32DirectoryTable.ofCluster (readClusters s'.disk _) = _
  rw [hf.disk, readClusters_writeClusters (by decide) hlt, if_neg hne.symm,
    readClusters_writeClusters_self,
    FAT32DirectoryTable.ofCluster_toCluster]

theorem size_eq (hf : FileCommitted request mem s s' i l) :
    (BitVec.ofNat 32 (neededSize request.bufferSize * clusterSize)).toNat =
      l.length * clusterSize := by
  have hle := availableSize_le s.clusterMap
  have hav := hf.enough
  rw [hf.length_eq, BitVec.toNat_ofNat]
  refine Nat.mod_eq_of_lt ?_
  unfold clusterMapSize clusterSize at *
  omega

theorem ne_nil (hf : FileCommitted request mem s s' i l) : l ≠ [] := by
  intro hnil
  have hlen := hf.length_eq
  rw [hnil, List.length_nil] at hlen
  exact absurd hlen (neededSize_pos _).ne

theorem head_eq (hf : FileCommitted request mem s s' i l) :
    clusterOf (l.headD 0) = (l.map clusterOf).headD fat32FatEndOfFile := by
  cases l with
  | nil => exact absurd rfl hf.ne_nil
  | cons k l => rfl

theorem addFile (hf : FileCommitted request mem s s' i l) (h : s.volume.Intact)
    (hp : s.volume.Directory request.parentClusterNumber) (hsize : request.bufferSize ≠ 0)
    (hfresh : ∀ j, (s.volume.table request.parentClusterNumber j).Occupied →
      ¬ sameEntry request (s.volume.table request.parentClusterNumber j)) :
    AddFile s.volume s'.volume request.parentClusterNumber i
      (fileEntryOf request (s.volume.table request.parentClusterNumber i) (l.headD 0))
      (l.map clusterOf) where
  parent := hp
  slot := FAT32DirectoryTable.firstEmpty_eq_some hf.slot
  occupied := FAT32DirectoryEntry.fill_occupied ..
  file := by
    rw [fileEntryOf, FAT32DirectoryEntry.fill_isSubdirectory]
    decide
  head := (FAT32DirectoryEntry.fill_cluster ..).trans hf.head_eq
  size := by
    rw [fileEntryOf, FAT32DirectoryEntry.fill_filesize, hf.size_eq, List.length_map]
  nonempty := fun hnil => hf.ne_nil (List.map_eq_nil_iff.mp hnil)
  nodup := hf.nodup.map clusterOf_injective
  range := fun c hc => hf.range h hc
  wasFree := fun c hc => hf.fat_clusterOf hc
  fresh := fun j ho hn hx => hfresh j ho (sameEntry_iff.mpr ⟨hn, .inr ⟨hsize, hx⟩⟩)
  fat := hf.fat
  table := hf.table_eq (h.directory_lt hp) (h.directory_ne_fat hp)
  frame := by
    intro d hd hdl hdp hdf
    rw [hf.content hd (h.directory_lt hp) hdp hdf, readClusters_writeData_of_notMem hd hdl]
    rfl

end FileCommitted

/-- **A new file**: `write` with a buffer, once its checks have passed. -/
theorem writeCommit_file (h : s.volume.Intact)
    (hp : s.volume.Directory request.parentClusterNumber) (hsize : request.bufferSize ≠ 0)
    (hscan : writeScan request (s.volume.table request.parentClusterNumber)
      (List.finRange directoryEntryCount) false = some true)
    (hav : neededSize request.bufferSize ≤ availableSize s.clusterMap) :
    ∃ i e l, AddFile s.volume
        (writeCommit request mem (s.readDirTable request.parentClusterNumber)).volume
        request.parentClusterNumber i e l ∧
      Written request mem
        (writeCommit request mem (s.readDirTable request.parentClusterNumber)).volume e l := by
  obtain ⟨hfresh, hempty⟩ := writeScan_finRange_eq_some_true.mp hscan
  obtain ⟨i, l, hf⟩ := writeCommit_committed mem h (h.directory_lt hp)
    (h.fat_directory_ne_empty hp) hsize hempty hav
  refine ⟨i, _, l.map clusterOf, hf.addFile h hp hsize hfresh, ?_⟩
  exact {
    name_eq := rfl
    ext_eq := rfl
    length_eq := by rw [List.length_map, hf.length_eq]
    content := hf.content_new h (h.directory_lt hp) (h.fat_directory_ne_empty hp) }

/-- A write of a file that returns 0 has committed it. -/
theorem write_committed (h : s.volume.Intact) (hsize : request.bufferSize ≠ 0)
    (hr : write request mem s = .ok r) (hret : r.ret = 0) :
    WriteDone request mem s r ∧ ∃ i l, FileCommitted request mem s r.fs i l := by
  rcases write_cases hr with ⟨hne, -⟩ | hdone
  · exact absurd hret hne
  · have hused : s.volume.fat request.parentClusterNumber ≠ fat32FatEmptyEntry := by
      have heof : s.volume.fat request.parentClusterNumber = fat32FatEndOfFile := hdone.parent_eof
      rw [heof]
      decide
    obtain ⟨-, hempty⟩ := writeScan_finRange_eq_some_true.mp hdone.scan
    rw [hdone.fs_eq]
    exact ⟨hdone, writeCommit_committed mem h hdone.parent_lt hused hsize hempty hdone.available⟩

/-- **`write` refines the abstract file system.** -/
theorem write_refines (mem : Memory) (h : s.volume.Intact)
    (hp : s.volume.Directory request.parentClusterNumber) :
    ∃ r, write request mem s = .ok r ∧
      ((r.ret ≠ 0 ∧ Quiet s mem r) ∨
        (r.ret = 0 ∧ r.mem = mem ∧ request.bufferSize = 0 ∧ ∃ i e c,
          AddDirectory s.volume r.fs.volume request.parentClusterNumber i e request.name c ∧
          r.fs.volume.table c = freshTable request.name
            (s.volume.table request.parentClusterNumber 0).name request.parentClusterNumber c) ∨
        (r.ret = 0 ∧ r.mem = mem ∧ request.bufferSize ≠ 0 ∧ ∃ i e l,
          AddFile s.volume r.fs.volume request.parentClusterNumber i e l ∧
          Written request mem r.fs.volume e l)) := by
  have hok : ∃ r, write request mem s = .ok r := by
    rw [write_eq, parentCheck_directory h hp]
    split
    · exact ⟨_, rfl⟩
    · exact ⟨_, rfl⟩
    · split_ifs
      · exact ⟨_, rfl⟩
      · exact ⟨_, rfl⟩
  obtain ⟨r, hr⟩ := hok
  refine ⟨r, hr, ?_⟩
  rcases write_cases hr with hq | hw
  · exact .inl hq
  · rw [hw.fs_eq]
    by_cases hsize : request.bufferSize = 0
    · exact .inr (.inl ⟨hw.ret_eq, hw.mem_eq, hsize,
        writeCommit_directory h hp hsize hw.scan hw.available⟩)
    · exact .inr (.inr ⟨hw.ret_eq, hw.mem_eq, hsize,
        writeCommit_file h hp hsize hw.scan hw.available⟩)

/-! ### Delete -/

/-- A directory is not part of a file. -/
theorem Volume.Intact.directory_notMem {v : Volume} (h : v.Intact) (hp : v.Directory p)
    (hf : v.FileEntry p i) {l : List (BitVec 32)}
    (hw : Walk v.fat fat32FatEndOfFile (v.table p i).cluster l) {d : BitVec 32}
    (hd : v.Directory d) : d ∉ l := by
  intro hmem
  have ho : v.Owns p i d := ⟨hp, l, .file hf hw, hmem⟩
  obtain ⟨a, j, ha, hsub, hc⟩ := exists_parent hd (h.owned_range ho).ne_root
  obtain ⟨rfl, rfl⟩ := h.owner_unique ho ⟨ha, _, .subdir hsub, List.mem_singleton.mpr hc.symm⟩
  exact hf.2.2 hsub.2.2

/-- Slot 1 of a directory stands for the parent: the root for the root, and
otherwise the directory it hangs in. -/
theorem Volume.Intact.parent_entry {v : Volume} (h : v.Intact) (hp : v.Directory p) :
    ∃ a, v.Directory a ∧ IsDirEntry (v.table p 1) (v.table a 0).name a ∧
      ((p = rootClusterNumber ∧ a = rootClusterNumber) ∨
        ∃ j, v.SubdirEntry a j ∧ (v.table a j).cluster = p) := by
  by_cases hroot : p = rootClusterNumber
  · subst hroot
    exact ⟨_, .root, h.root_parent, .inl ⟨rfl, rfl⟩⟩
  · obtain ⟨a, j, ha, hs, rfl⟩ := exists_parent hp hroot
    exact ⟨a, ha, (h.child_linked ha hs).parent, .inr ⟨j, hs, rfl⟩⟩

/-- An occupied slot of a directory is a file in a slot from 2 on, or a folder
whose cluster is a directory. -/
theorem Volume.Intact.occupied_cases {v : Volume} (h : v.Intact) (hp : v.Directory p)
    (ho : (v.table p i).Occupied) :
    v.FileEntry p i ∨
      ((v.table p i).IsSubdirectory ∧ v.Directory (v.table p i).cluster) := by
  by_cases h0 : i = 0
  · subst h0
    have he := h.self_entry hp
    exact .inr ⟨he.isSubdirectory, he.cluster_eq.symm ▸ hp⟩
  by_cases h1 : i = 1
  · subst h1
    obtain ⟨a, ha, he, -⟩ := h.parent_entry hp
    exact .inr ⟨he.isSubdirectory, he.cluster_eq.symm ▸ ha⟩
  have hi : 2 ≤ i.val := by
    have : i.val ≠ 0 := fun h => h0 (Fin.ext h)
    have : i.val ≠ 1 := fun h => h1 (Fin.ext h)
    omega
  by_cases hs : (v.table p i).IsSubdirectory
  · exact .inr ⟨hs, .child hp (child_eq_some_iff.mpr ⟨⟨hi, ho, hs⟩, rfl⟩)⟩
  · exact .inl ⟨hi, ho, hs⟩

/-- The layout that `delete` gets wrong: the folder that the request names has
an entry in slot 2 and none behind it. -/
def Volume.StrandsOnlyChild (v : Volume) (request : FAT32DriverRequest) : Prop :=
  ∃ i, deleteMatch request (v.table request.parentClusterNumber) = some i ∧ i ≠ 0 ∧
    (v.table request.parentClusterNumber i).IsSubdirectory ∧
    (v.table (v.table request.parentClusterNumber i).cluster 2).Occupied ∧
    ∀ j : Fin directoryEntryCount, 3 ≤ j.val →
      ¬ (v.table (v.table request.parentClusterNumber i).cluster j).Occupied

/-- A folder that `delete` takes for empty is a child, and it is empty. -/
theorem Volume.Intact.empty_child {v : Volume} (h : v.Intact)
    (hp : v.Directory request.parentClusterNumber) (hns : ¬ v.StrandsOnlyChild request)
    (hm : deleteMatch request (v.table request.parentClusterNumber) = some i) (h0 : i ≠ 0)
    (hs : (v.table request.parentClusterNumber i).IsSubdirectory)
    (hne : ∀ j : Fin directoryEntryCount, 3 ≤ j.val →
      ¬ (v.table (v.table request.parentClusterNumber i).cluster j).Occupied) :
    2 ≤ i.val ∧ ∀ j : Fin directoryEntryCount, 2 ≤ j.val →
      ¬ (v.table (v.table request.parentClusterNumber i).cluster j).Occupied := by
  have h2 : ¬ (v.table (v.table request.parentClusterNumber i).cluster 2).Occupied := fun ho =>
    hns ⟨i, hm, h0, hs, ho, hne⟩
  have hall : ∀ j : Fin directoryEntryCount, 2 ≤ j.val →
      ¬ (v.table (v.table request.parentClusterNumber i).cluster j).Occupied := by
    intro j hj
    by_cases hj2 : j = 2
    · exact hj2 ▸ h2
    · exact hne j (by have : j.val ≠ 2 := fun h => hj2 (Fin.ext h); omega)
  refine ⟨?_, hall⟩
  by_contra hlt
  have hi1 : i = 1 := by
    have : i.val ≠ 0 := fun h => h0 (Fin.ext h)
    exact Fin.ext (show i.val = 1 by omega)
  subst hi1
  -- slot 1 stands for the parent, and the parent holds this very directory
  obtain ⟨a, ha, he, ⟨hroot, rfl⟩ | ⟨j, hj, -⟩⟩ := h.parent_entry hp
  · obtain ⟨-, hn, hx⟩ := deleteMatch_eq_some hm
    have hself := h.self_entry hp
    refine deleteMatch_first hm (j := 0) (by decide) hself.occupied ?_ ?_
    · rw [← hn, he.name_eq, hroot]
    · rw [hself.ext_eq, ← hx, he.ext_eq]
  · rw [he.cluster_eq] at hall
    exact hall j hj.1 hj.2.1

theorem content_releaseSlot (hp : p.toNat < clusterMapSize) (hc : c.toNat < clusterMapSize) :
    readClusters (releaseSlot (s.readDirTable p) p i).disk c =
      if p = c then FAT32DirectoryTable.toCluster
        (Function.update (s.volume.table p) i (s.volume.table p i).clear)
      else s.volume.content c := by
  show readClusters (writeClusters s.disk _ p) c = _
  rw [readClusters_writeClusters hp hc]
  rfl

/-- `delete` has released the file in slot `i`, on the clusters `l`. -/
structure FileReleased (request : FAT32DriverRequest) (s s' : FsState)
    (i : Fin directoryEntryCount) (l : List (BitVec 32)) : Prop where
  linked : s.volume.FileLinked request.parentClusterNumber i l
  fat : ∀ c, s'.clusterMap.view c = if c ∈ l then fat32FatEmptyEntry else s.clusterMap.view c
  disk : s'.disk = writeClusters
    (zeroClusters (writeClusters s.disk (FAT32DirectoryTable.toCluster (Function.update
        (s.volume.table request.parentClusterNumber) i
        (s.volume.table request.parentClusterNumber i).clear)) request.parentClusterNumber) l)
    s'.clusterMap.toCluster fatClusterNumber

/-- **The deletion of a file.**  The freeing loop ends, and it has walked the
file's chain. -/
theorem delete_released (mem : Memory) (h : s.volume.Intact)
    (hp : s.volume.Directory request.parentClusterNumber)
    (hm : deleteMatch request (s.volume.table request.parentClusterNumber) = some i)
    (hf : s.volume.FileEntry request.parentClusterNumber i) :
    ∃ r, delete request mem s = .ok r ∧ r.ret = 0 ∧ r.mem = mem ∧ ∃ l,
      FileReleased request s r.fs i l := by
  obtain ⟨l, hl⟩ := h.file_linked hp hf
  have hr : ∀ c ∈ l, c.toNat < clusterMapSize := fun c hc => (hl.range c hc).2
  have hfuel : l.length < freeFuel := by
    have hle := walk_length_le hl.walk hr
    unfold freeFuel
    omega
  obtain ⟨s₁, hs₁, hfat, hdisk⟩ := freeChain_of_walk
    (s := releaseSlot (s.readDirTable request.parentClusterNumber) request.parentClusterNumber i)
    hl.walk hr hfuel
  refine ⟨⟨0, mem, s₁.writeClusterMap⟩, ?_, rfl, rfl, l, hl, hfat, ?_⟩
  · rw [delete_eq, parentCheck_directory h hp, hm]
    dsimp only
    rw [if_neg hf.2.2, hs₁]
  · show writeClusters s₁.disk _ _ = _
    rw [hdisk]
    rfl

theorem FileReleased.removeFile {s' : FsState} {l : List (BitVec 32)}
    (hr : FileReleased request s s' i l) (h : s.volume.Intact)
    (hp : s.volume.Directory request.parentClusterNumber)
    (hf : s.volume.FileEntry request.parentClusterNumber i) :
    RemoveFile s.volume s'.volume request.parentClusterNumber i
      (s.volume.table request.parentClusterNumber i).clear l := by
  have hplt := h.directory_lt hp
  have hpl := h.directory_notMem hp hf hr.linked.walk hp
  have hlt : ∀ c ∈ l, c.toNat < clusterMapSize := fun c hc => (hr.linked.range c hc).2
  -- the order of the stores: the parent, the zeros, and the table last
  have hcontent : ∀ d : BitVec 32, d.toNat < clusterMapSize → d ≠ fatClusterNumber →
      s'.volume.content d = if d ∈ l then 0
        else if request.parentClusterNumber = d then FAT32DirectoryTable.toCluster
          (Function.update (s.volume.table request.parentClusterNumber) i
            (s.volume.table request.parentClusterNumber i).clear)
        else s.volume.content d := by
    intro d hd hdf
    show readClusters s'.disk d = _
    rw [hr.disk, readClusters_writeClusters (by decide) hd, if_neg hdf.symm,
      readClusters_zeroClusters hlt hd, readClusters_writeClusters hplt hd]
    rfl
  exact {
    parent := hp
    entry := hf
    walk := hr.linked.walk
    released := FAT32DirectoryEntry.not_clear_occupied _
    fat := hr.fat
    table := by
      show FAT32DirectoryTable.ofCluster (Volume.content _ _) = _
      rw [hcontent _ hplt (h.directory_ne_fat hp), if_neg hpl, if_pos rfl,
        FAT32DirectoryTable.ofCluster_toCluster]
    zeroed := by
      intro c hc
      rw [hcontent c (hlt c hc) (hr.linked.range c hc).ne_fat, if_pos hc]
    frame := by
      intro d hd hdl hdp hdf
      rw [hcontent d hd hdf, if_neg hdl, if_neg (Ne.symm hdp)] }

/-- The deletion of a file, as an edit of the volume: its slot is cleared. -/
theorem delete_file (mem : Memory) (h : s.volume.Intact)
    (hp : s.volume.Directory request.parentClusterNumber)
    (hm : deleteMatch request (s.volume.table request.parentClusterNumber) = some i)
    (hf : s.volume.FileEntry request.parentClusterNumber i) :
    ∃ r, delete request mem s = .ok r ∧ r.ret = 0 ∧ r.mem = mem ∧ ∃ l,
      RemoveFile s.volume r.fs.volume request.parentClusterNumber i
        (s.volume.table request.parentClusterNumber i).clear l := by
  obtain ⟨r, hr, hret, hmem, l, hrel⟩ := delete_released mem h hp hm hf
  exact ⟨r, hr, hret, hmem, l, hrel.removeFile h hp hf⟩

/-- **The deletion of a folder** that `delete` takes for empty: it succeeds,
and where the folder is a child, it disappears. -/
theorem delete_folder (mem : Memory) (h : s.volume.Intact)
    (hp : s.volume.Directory request.parentClusterNumber)
    (hm : deleteMatch request (s.volume.table request.parentClusterNumber) = some i) (h0 : i ≠ 0)
    (hs : (s.volume.table request.parentClusterNumber i).IsSubdirectory)
    (hne : ∀ j : Fin directoryEntryCount, 3 ≤ j.val →
      ¬ (s.volume.table (s.volume.table request.parentClusterNumber i).cluster j).Occupied) :
    ∃ r, delete request mem s = .ok r ∧ r.ret = 0 ∧ r.mem = mem ∧
      (2 ≤ i.val → ∃ e, UnlinkDirectory s.volume r.fs.volume request.parentClusterNumber i e
        (s.volume.table request.parentClusterNumber i).cluster) := by
  obtain ⟨ho, -, -⟩ := deleteMatch_eq_some hm
  have hplt := h.directory_lt hp
  have hpf := h.directory_ne_fat hp
  obtain hf | ⟨-, hdir⟩ := h.occupied_cases hp ho
  · exact absurd hs hf.2.2
  have hclt := h.directory_lt hdir
  have hcf := h.directory_ne_fat hdir
  obtain ⟨s₁, hs₁, hdisk, hmap⟩ := exists_freeEntry
    (s := releaseSlot (s.readDirTable request.parentClusterNumber) request.parentClusterNumber i)
    hclt
  have hne' := notEmpty_eq_false_iff.mpr hne
  generalize hc : (s.volume.table request.parentClusterNumber i).cluster = c at *
  -- the parent is written first, and then the cluster of the folder is zeroed
  have hcontent : ∀ d : BitVec 32, d.toNat < clusterMapSize → d ≠ fatClusterNumber →
      (zeroCluster s₁ c).writeClusterMap.volume.content d = if c = d then 0
        else if request.parentClusterNumber = d then FAT32DirectoryTable.toCluster
          (Function.update (s.volume.table request.parentClusterNumber) i
            (s.volume.table request.parentClusterNumber i).clear)
        else s.volume.content d := by
    intro d hd hdf
    rw [content_writeClusterMap hd hdf]
    show readClusters (writeClusters s₁.disk 0 c) d = _
    rw [readClusters_writeClusters hclt hd, hdisk, content_releaseSlot hplt hd]
  refine ⟨⟨0, mem, (zeroCluster s₁ c).writeClusterMap⟩, ?_, rfl, rfl, ?_⟩
  · rw [delete_eq, parentCheck_directory h hp, hm]
    dsimp only
    rw [if_pos hs, if_neg h0, hc, hne', if_neg (by decide), hs₁]
  -- the slots from the third on are no way up, so the folder is a child
  · intro hi
    have hcp : c ≠ request.parentClusterNumber := by
      rintro rfl
      exact h.child_ne_self hp (child_eq_some_iff.mpr ⟨⟨hi, ho, hs⟩, hc⟩)
    refine ⟨(s.volume.table request.parentClusterNumber i).clear, ?_⟩
    exact {
      parent := hp
      entry := ⟨hi, ho, hs⟩
      cluster := hc
      released := FAT32DirectoryEntry.not_clear_occupied _
      fat := hmap
      table := by
        show FAT32DirectoryTable.ofCluster (Volume.content _ _) = _
        rw [hcontent _ hplt hpf, if_neg hcp, if_pos rfl, FAT32DirectoryTable.ofCluster_toCluster]
      frame := by
        intro d hd hdc hdp hdf
        rw [hcontent d hd hdf, if_neg (Ne.symm hdc), if_neg (Ne.symm hdp)] }

/-- **What a `delete` comes to**: nothing, the removal of a file, or that of a
folder with no entry from slot 3 on. -/
theorem delete_outcome (mem : Memory) (h : s.volume.Intact)
    (hp : s.volume.Directory request.parentClusterNumber) :
    ∃ r, delete request mem s = .ok r ∧
      ((r.ret ≠ 0 ∧ Quiet s mem r) ∨
        (r.ret = 0 ∧ r.mem = mem ∧ ∃ i,
          deleteMatch request (s.volume.table request.parentClusterNumber) = some i ∧
          ((∃ e l, RemoveFile s.volume r.fs.volume request.parentClusterNumber i e l) ∨
            (i ≠ 0 ∧ (s.volume.table request.parentClusterNumber i).IsSubdirectory ∧
              (∀ j : Fin directoryEntryCount, 3 ≤ j.val → ¬ (s.volume.table
                (s.volume.table request.parentClusterNumber i).cluster j).Occupied) ∧
              (2 ≤ i.val → ∃ e, UnlinkDirectory s.volume r.fs.volume request.parentClusterNumber
                i e (s.volume.table request.parentClusterNumber i).cluster))))) := by
  -- by the entry that the scan finds, and its kind
  cases hm : deleteMatch request (s.volume.table request.parentClusterNumber) with
  | none =>
      refine ⟨⟨1, mem, s.readDirTable request.parentClusterNumber⟩, ?_, .inl ⟨by simp, rfl, rfl, rfl⟩⟩
      rw [delete_eq, parentCheck_directory h hp, hm]
  | some i =>
      obtain hf | ⟨hs, -⟩ := h.occupied_cases hp (deleteMatch_eq_some hm).1
      · obtain ⟨r, hr, hret, hmem, l, hrem⟩ := delete_file mem h hp hm hf
        exact ⟨r, hr, .inr ⟨hret, hmem, i, rfl, .inl ⟨_, l, hrem⟩⟩⟩
      -- a directory does not delete itself by its own name
      · by_cases h0 : i = 0
        · refine ⟨⟨-1, mem, s.readDirTable request.parentClusterNumber⟩, ?_,
            .inl ⟨by simp, rfl, rfl, rfl⟩⟩
          rw [delete_eq, parentCheck_directory h hp, hm]
          dsimp only
          rw [if_pos hs, if_pos h0]
        -- the scan for something in it starts behind its first file
        · cases hne : notEmpty
              (s.volume.table (s.volume.table request.parentClusterNumber i).cluster) with
          | true =>
              refine ⟨⟨2, mem, s.readDirTable request.parentClusterNumber⟩, ?_,
                .inl ⟨by simp, rfl, rfl, rfl⟩⟩
              rw [delete_eq, parentCheck_directory h hp, hm]
              dsimp only
              rw [if_pos hs, if_neg h0, hne, if_pos rfl]
          | false =>
              have hne' := notEmpty_eq_false_iff.mp hne
              obtain ⟨r, hr, hret, hmem, hrem⟩ := delete_folder mem h hp hm h0 hs hne'
              exact ⟨r, hr, .inr ⟨hret, hmem, i, rfl, .inr ⟨h0, hs, hne', hrem⟩⟩⟩

/-- **`delete` refines the abstract file system**, unless the layout is the one
it gets wrong. -/
theorem delete_refines (mem : Memory) (h : s.volume.Intact)
    (hp : s.volume.Directory request.parentClusterNumber) :
    ∃ r, delete request mem s = .ok r ∧
      ((r.ret ≠ 0 ∧ Quiet s mem r) ∨
        (r.ret = 0 ∧ r.mem = mem ∧ ∃ i,
          deleteMatch request (s.volume.table request.parentClusterNumber) = some i ∧
          ((∃ e l, RemoveFile s.volume r.fs.volume request.parentClusterNumber i e l) ∨
            s.volume.StrandsOnlyChild request ∨
            ∃ e, RemoveDirectory s.volume r.fs.volume request.parentClusterNumber i e
              (s.volume.table request.parentClusterNumber i).cluster))) := by
  obtain ⟨r, hr, hq | ⟨hret, hmem, i, hm, hrem | ⟨h0, hs, hne, hunlink⟩⟩⟩ :=
    delete_outcome mem h hp
  · exact ⟨r, hr, .inl hq⟩
  · exact ⟨r, hr, .inr ⟨hret, hmem, i, hm, .inl hrem⟩⟩
  · refine ⟨r, hr, .inr ⟨hret, hmem, i, hm, .inr ?_⟩⟩
    by_cases hst : s.volume.StrandsOnlyChild request
    · exact .inl hst
    · obtain ⟨hi, hall⟩ := h.empty_child hp hst hm h0 hs hne
      obtain ⟨e, he⟩ := hunlink hi
      exact .inr ⟨e, ⟨he, hall⟩⟩

end Binbows
