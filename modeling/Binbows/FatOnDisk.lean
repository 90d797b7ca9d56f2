/-
Binbows/FatOnDisk.lean

The allocation table on the disk, and what is left of the file system after a
restart.

`initialize_filesystem_fat32` formats a disk without the signature and loads
the table of any other disk from cluster 1.  A request that changes anything
ends by writing the table out, so table and disk stay `Synced` once they are
(`exec_synced`).  Formatting is the exception: `create_fat32` leaves cluster 1
as it finds it.

The buffers of the driver carry nothing from one request to the next
(`exec_visible`), so a restart from a synced disk that still has its signature
is not noticed by any later request (`restart_unnoticed`).

Main result: `fat_on_disk`, when the table on disk is the table in memory.
-/
import Binbows.FileSystemRuns

namespace Binbows

open Bytes Volume Run FAT32FileAllocationTable

variable {request : FAT32DriverRequest} {mem : Memory} {s s' s₀ : FsState} {r : Reply} {c : FsCall}
  {p : BitVec 32} {ok : FsState → FsCall → Prop}

/-! ### The table on the disk -/

/-- Cluster 1 of the disk holds the allocation table. -/
def Synced (s : FsState) : Prop :=
  readClusters s.disk fatClusterNumber = s.clusterMap.toCluster

theorem writeClusterMap_synced (s : FsState) : Synced s.writeClusterMap :=
  readClusters_writeClusters_self _ _ _

theorem SameDisk.synced_iff (h : SameDisk s s') : Synced s' ↔ Synced s := by
  unfold Synced
  rw [h.clusterMap, h.disk]

/-- Whatever the request, table and disk stay together. -/
theorem exec_synced (hs : Synced s) (h : c.exec s = .ok r) : Synced r.fs := by
  rcases exec_cases h with hsame | ⟨-, s₁, hr⟩
  · exact hsame.synced_iff.mpr hs
  · rw [hr]
    exact writeClusterMap_synced s₁

/-- A `write` that returns 0 brings table and disk together. -/
theorem write_synced (h : write request mem s = .ok r) (hret : r.ret = 0) : Synced r.fs := by
  rcases write_cases h with ⟨hne, -⟩ | hw
  · exact absurd hret hne
  · rw [hw.fs_eq]
    unfold writeCommit
    dsimp only
    split_ifs
    · exact writeClusterMap_synced _
    · exact writeClusterMap_synced _

theorem reaches_synced (h : Reaches FsState.step ok s s') (hs : Synced s) : Synced s' := by
  refine h.invariant (I := Synced) hs ?_
  intro s c s' hs _ hstep
  obtain ⟨r, hr, rfl⟩ := step_eq_some.mp hstep
  exact exec_synced hs hr

/-! ### The boot sector -/

/-- The boot sector is the first block of cluster 0. -/
theorem isEmptyStorage_congr {disk disk' : Disk}
    (h : readClusters disk' 0#32 = readClusters disk 0#32) :
    isEmptyStorage disk' = isEmptyStorage disk := by
  have hblock : ∀ d : Disk, readBlocks d 0#32 1 0 =
      group (n := clusterBlockCount) (readClusters d 0#32) 0 := by
    intro d
    have hg := congrFun (group_flatten (readBlocks d (clusterToLba 0#32) clusterBlockCount)) 0
    exact hg.symm
  unfold isEmptyStorage
  rw [hblock, hblock, h]

/-- Formatting touches clusters 0 and 2 only. -/
theorem createFat32_content {c : BitVec 32} (hc : c.toNat < clusterMapSize) (h0 : c ≠ 0#32)
    (h2 : c ≠ rootClusterNumber) :
    readClusters (createFat32 s).disk c = readClusters s.disk c := by
  have hboot : readClusters (writeBlocks s.disk (fun _ : Fin 1 => fsSignature) 0#32) c =
      readClusters s.disk c := by
    unfold readClusters
    congr 1
    funext i
    refine writeBlocks_of_ne fun j => ?_
    have hi : i.val < 4 := i.isLt
    have hj : j.val < 1 := j.isLt
    have hne : c.toNat ≠ 0 := fun h => h0 (BitVec.eq_of_toNat_eq h)
    rw [sector_clusterToLba c hi]
    unfold sector clusterMapSize at *
    simp only [BitVec.toNat_ofNat]
    omega
  unfold createFat32
  dsimp only
  rw [createDirectoryTable_root]
  dsimp only
  rw [readClusters_writeClusters (by decide) hc, if_neg (Ne.symm h2),
    readClusters_writeClusters (by decide) hc, if_neg (Ne.symm h2), hboot]

/-- A formatted disk carries the signature. -/
theorem createFat32_signed : isEmptyStorage (createFat32 s).disk = false := by
  have hzero : readClusters (createFat32 s).disk 0#32 =
      readClusters (writeBlocks s.disk (fun _ : Fin 1 => fsSignature) 0#32) 0#32 := by
    unfold createFat32
    dsimp only
    rw [createDirectoryTable_root]
    dsimp only
    rw [readClusters_writeClusters (by decide) (by decide), if_neg (by decide),
      readClusters_writeClusters (by decide) (by decide), if_neg (by decide)]
  rw [isEmptyStorage_congr hzero]
  have hsig := writeBlocks_sector (by decide) s.disk (fun _ : Fin 1 => fsSignature) 0#32 0
  unfold isEmptyStorage
  simp only [ne_eq, memcmp_eq_zero_iff, decide_eq_false_iff_not, not_not]
  exact hsig

/-- A step of the abstract file system leaves cluster 0 alone. -/
theorem VolumeStep.content_zero {v v' : Volume} (hs : VolumeStep v v') (h : v.Intact) :
    v'.content 0#32 = v.content 0#32 := by
  have hdir : ∀ {d : BitVec 32}, v.Directory d → (0#32) ≠ d := by
    rintro d hd rfl
    have hfat := h.fat_directory hd
    rw [h.fat_zero] at hfat
    exact absurd hfat (by decide)
  cases hs with
  | addFile hs =>
      exact hs.frame _ (by decide) (fun hm => (hs.range _ hm).ne_zero rfl) (hdir hs.parent)
        (by decide)
  | addDirectory hs =>
      exact hs.frame _ (by decide) hs.range.ne_zero.symm (hdir hs.parent) (by decide)
  | removeFile hs =>
      refine hs.frame _ (by decide) (fun hm => ?_) (hdir hs.parent) (by decide)
      exact (h.owned_range (hs.owns_iff.mpr hm)).ne_zero rfl
  | removeDirectory hs =>
      exact hs.frame _ (by decide) (hs.range h).ne_zero.symm (hdir hs.parent) (by decide)

/-- A well-formed volume on a disk with the signature. -/
structure Mounted (s : FsState) : Prop where
  wellFormed : s.volume.WellFormed
  signed : isEmptyStorage s.disk = false

theorem SameDisk.mounted (h : SameDisk s s') (hs : Mounted s) : Mounted s' where
  wellFormed := by
    rw [h.volume_eq]
    exact hs.wellFormed
  signed := by
    rw [h.disk]
    exact hs.signed

theorem createFat32_mounted (s : FsState) : Mounted (createFat32 s) :=
  ⟨createFat32_wellFormed s, createFat32_signed⟩

/-- A careful request keeps the volume well formed and the signature in place. -/
theorem exec_mounted (hs : Mounted s) (hc : Careful s c) (h : c.exec s = .ok r) :
    Mounted r.fs := by
  obtain ⟨r', hr', hcase⟩ := exec_refines hs.wellFormed.toIntact hc.1 hc.2
  obtain rfl : r = r' := Except.ok.inj (h.symm.trans hr')
  rcases hcase with hsame | hvol
  · exact hsame.mounted hs
  · refine ⟨hvol.wellFormed hs.wellFormed, ?_⟩
    rw [isEmptyStorage_congr (hvol.content_zero hs.wellFormed.toIntact)]
    exact hs.signed

theorem careful_mounted (h : Reaches FsState.step Careful s s') (hs : Mounted s) :
    Mounted s' := by
  refine h.invariant (I := Mounted) hs ?_
  intro s c s' hs hc hstep
  obtain ⟨r, hr, rfl⟩ := step_eq_some.mp hstep
  exact exec_mounted hs hc hr

/-! ### What a later request can see -/

/-- What the caller gets and what the next request starts from. -/
def Reply.visible (r : Reply) : Int × Memory × FAT32FileAllocationTable × Disk :=
  (r.ret, r.mem, r.fs.clusterMap, r.fs.disk)

/-- The state with another content of `cluster_buf`, which the driver only
writes. -/
def FsState.setBuf (s : FsState) (b : ClusterBuffer) : FsState := { s with clusterBuf := b }

variable {b : ClusterBuffer} {i : Fin directoryEntryCount} {is : List (Fin directoryEntryCount)}
  {f g : Bool}

theorem readDirTable_congr (h : SameDisk s s') :
    s'.readDirTable p = (s.readDirTable p).setBuf s'.clusterBuf := by
  unfold FsState.readDirTable FsState.setBuf
  rw [h.disk]
  rcases s' with ⟨m, t, cb, d⟩
  obtain rfl : m = s.clusterMap := h.clusterMap
  obtain rfl : d = s.disk := h.disk
  rfl

theorem parentCheck_visible {a a' x x' : Except Fault Reply} (h : s'.clusterMap = s.clusterMap)
    (ha : a'.map Reply.visible = a.map Reply.visible)
    (hx : x'.map Reply.visible = x.map Reply.visible) :
    (parentCheck s' p a' x').map Reply.visible = (parentCheck s p a x).map Reply.visible := by
  unfold parentCheck
  rw [h]
  cases s.clusterMap.clusterMapAt p with
  | error e => rfl
  | ok v =>
      dsimp only
      split_ifs
      · exact ha
      · exact hx

theorem readFolder_setBuf : (readFolder request mem (s.setBuf b)).visible =
    (readFolder request mem s).visible := by
  have ht : (s.setBuf b).dirTableBuf = s.dirTableBuf := rfl
  unfold readFolder
  rw [ht]
  split <;> rfl

theorem readFound_setBuf {i : Fin directoryEntryCount} :
    (readFound request mem (s.setBuf b) i).map Reply.visible =
      (readFound request mem s i).map Reply.visible := by
  have ht : (s.setBuf b).dirTableBuf = s.dirTableBuf := rfl
  have hc : readChain (s.setBuf b).clusterMap (s.setBuf b).disk = readChain s.clusterMap s.disk :=
    rfl
  unfold readFound
  rw [ht, hc]
  split_ifs
  · rfl
  · cases readChain s.clusterMap s.disk chainFuel (s.dirTableBuf i).cluster request.buf mem with
    | error e => rfl
    | ok mem' => rfl

theorem createDirectoryTable_setBuf {t : FAT32DirectoryTable} {name : EntryName}
    {self : Fin clusterMapSize} :
    createDirectoryTable (s.setBuf b) t name p self =
      (createDirectoryTable s t name p self).setBuf b := by
  have hr : (s.setBuf b).readDirTable p = (s.readDirTable p).setBuf b := rfl
  have ht : ((s.readDirTable p).setBuf b).dirTableBuf = (s.readDirTable p).dirTableBuf := rfl
  unfold createDirectoryTable
  dsimp only
  rw [hr, ht]
  split_ifs
  · rfl
  · cases (s.readDirTable p).dirTableBuf.firstEmpty with
    | none => rfl
    | some i => rfl

theorem enterFile_setBuf {first : Fin clusterMapSize} {n : Nat} :
    enterFile (s.setBuf b) request first n = (enterFile s request first n).setBuf b := by
  have hr : (s.setBuf b).readDirTable request.parentClusterNumber =
      (s.readDirTable request.parentClusterNumber).setBuf b := rfl
  have ht : ((s.readDirTable request.parentClusterNumber).setBuf b).dirTableBuf =
      (s.readDirTable request.parentClusterNumber).dirTableBuf := rfl
  unfold enterFile
  dsimp only
  rw [hr, ht]
  cases (s.readDirTable request.parentClusterNumber).dirTableBuf.firstEmpty with
  | none => rfl
  | some i => rfl

theorem writeCommit_setBuf :
    writeCommit request mem (s.setBuf b) = (writeCommit request mem s).setBuf b := by
  have ha : allocate request mem (s.setBuf b) = allocate request mem s := rfl
  unfold writeCommit
  dsimp only
  rw [ha]
  generalize allocate request mem s = a
  have hs : ({ s.setBuf b with clusterMap := a.clusterMap, disk := a.disk } : FsState) =
      FsState.setBuf { s with clusterMap := a.clusterMap, disk := a.disk } b := rfl
  split_ifs
  · exact congrArg FsState.writeClusterMap (hs ▸ createDirectoryTable_setBuf)
  · exact congrArg FsState.writeClusterMap (hs ▸ enterFile_setBuf)

theorem freeEntry_setBuf : freeEntry (s.setBuf b) p = (freeEntry s p).map (FsState.setBuf · b) := by
  unfold freeEntry
  split_ifs <;> rfl

/-- The freeing loop forgets the buffer at its first step. -/
theorem freeChain_setBuf (fuel : Nat) :
    freeChain fuel (s.setBuf b) p = freeChain fuel s p ∨
      (freeChain fuel (s.setBuf b) p = .ok (s.setBuf b) ∧ freeChain fuel s p = .ok s) := by
  cases fuel with
  | zero => exact .inl rfl
  | succ fuel =>
      have hm : (s.setBuf b).clusterMap = s.clusterMap := rfl
      have hz : zeroCluster (s.setBuf b) p = zeroCluster s p := rfl
      rw [freeChain, freeChain, hm, hz]
      split_ifs
      · exact .inr ⟨rfl, rfl⟩
      · exact .inl rfl

/-- **What a request answers and leaves behind depends on the allocation table
and the disk only.** -/
theorem exec_visible (h : SameDisk s s') :
    (c.exec s').map Reply.visible = (c.exec s).map Reply.visible := by
  -- what an operation answers does not show the cluster buffer
  have hrej : ∀ (n : Int) (mem : Memory), Reply.visible ⟨n, mem, s'⟩ = Reply.visible ⟨n, mem, s⟩ := by
    intro n mem
    unfold Reply.visible
    rw [h.clusterMap, h.disk]
  have hbuf : ∀ p, s'.readDirTable p = (s.readDirTable p).setBuf s'.clusterBuf := fun p =>
    readDirTable_congr h
  have herr : ∀ (n : Int) (mem : Memory), Except.map (ε := Fault) Reply.visible (.ok ⟨n, mem, s'⟩) =
      Except.map Reply.visible (.ok ⟨n, mem, s⟩) := fun n mem => congrArg Except.ok (hrej n mem)
  -- the operations overwrite the buffer before they look at it, or pass it on
  rcases c with ⟨op, request, mem⟩
  cases op with
  | read =>
      show (read _ _ _).map _ = (read _ _ _).map _
      rw [read_eq, read_eq, h.volume_eq]
      refine parentCheck_visible h.clusterMap (herr _ _) ?_
      rw [hbuf]
      split
      · exact readFound_setBuf
      · rfl
  | readDirectory =>
      show (readDirectory _ _ _).map _ = (readDirectory _ _ _).map _
      rw [readDirectory_eq, readDirectory_eq]
      split_ifs
      · exact herr _ _
      · refine parentCheck_visible h.clusterMap (herr _ _) ?_
        rw [hbuf]
        exact congrArg Except.ok readFolder_setBuf
  | write =>
      refine parentCheck_visible h.clusterMap (herr _ _) ?_
      dsimp only
      rw [hbuf, writeCommit_setBuf]
      -- the scan and the count of free clusters do not look at the buffer
      have ht : ((s.readDirTable request.parentClusterNumber).setBuf s'.clusterBuf).dirTableBuf =
        (s.readDirTable request.parentClusterNumber).dirTableBuf := rfl
      have hm : ((s.readDirTable request.parentClusterNumber).setBuf s'.clusterBuf).clusterMap =
        (s.readDirTable request.parentClusterNumber).clusterMap := rfl
      rw [ht, hm]
      split
      · rfl
      · rfl
      · split_ifs
        · rfl
        · rfl
  | delete =>
      refine parentCheck_visible h.clusterMap (herr _ _) ?_
      dsimp only
      rw [hbuf]
      generalize s.readDirTable request.parentClusterNumber = s₁
      generalize s'.clusterBuf = b
      have ht : (s₁.setBuf b).dirTableBuf = s₁.dirTableBuf := rfl
      have hd : (s₁.setBuf b).disk = s₁.disk := rfl
      rw [ht, hd]
      split
      · rfl
      · rename_i i _
        have hrel : releaseSlot (s₁.setBuf b) request.parentClusterNumber i =
          (releaseSlot s₁ request.parentClusterNumber i).setBuf b := rfl
        rw [hrel, freeEntry_setBuf]
        -- the chain that is freed is the same from either state
        generalize releaseSlot s₁ request.parentClusterNumber i = s₂
        split_ifs
        · rfl
        · rfl
        · cases freeEntry s₂ (s₁.dirTableBuf i).cluster with
          | error e => rfl
          | ok s₃ => rfl
        · rcases freeChain_setBuf freeFuel (s := s₂) (b := b)
            (p := (s₁.dirTableBuf i).cluster) with he | ⟨he, he'⟩
          · rw [he]
          · rw [he, he']
            rfl

/-! ### Restarts -/

/-- The answers to requests that are made one after the other. -/
def responses : List FsCall → FsState → List (Except Fault (Int × Memory))
  | [], _ => []
  | c :: cs, s =>
      match c.exec s with
      | .error e => [.error e]
      | .ok r => .ok (r.ret, r.mem) :: responses cs r.fs

/-- The same table and disk answer alike, for ever. -/
theorem responses_congr (cs : List FsCall) (h : SameDisk s s') :
    responses cs s' = responses cs s := by
  induction cs generalizing s s' with
  | nil => rfl
  | cons c cs ih =>
      have hv := exec_visible (c := c) h
      rw [responses, responses]
      cases he : c.exec s with
      | error e =>
          cases he' : c.exec s' with
          | error e' =>
              rw [he, he'] at hv
              cases hv
              rfl
          | ok r' =>
              rw [he, he'] at hv
              cases hv
      | ok r =>
          cases he' : c.exec s' with
          | error e' =>
              rw [he, he'] at hv
              cases hv
          | ok r' =>
              rw [he, he'] at hv
              have hvis : r'.visible = r.visible := Except.ok.inj hv
              simp only [Reply.visible, Prod.mk.injEq] at hvis
              obtain ⟨hret, hmem, hfat, hdisk⟩ := hvis
              dsimp only
              rw [hret, hmem, ih ⟨hfat, hdisk⟩]

/-- After a restart from this disk, whatever the driver's memory holds then,
every later request is answered as it would have been without the restart. -/
def RestartUnnoticed (s : FsState) : Prop :=
  ∀ s' : FsState, s'.disk = s.disk → ∀ cs,
    responses cs (initializeFilesystemFat32 s') = responses cs s

theorem initialize_of_signed (h : isEmptyStorage s.disk = false) :
    initializeFilesystemFat32 s =
      { s with clusterMap := .ofCluster (readClusters s.disk fatClusterNumber) } := by
  unfold initializeFilesystemFat32
  rw [h]
  exact if_neg (by simp)

theorem initialize_of_empty (h : isEmptyStorage s.disk = true) :
    initializeFilesystemFat32 s = createFat32 s := by
  unfold initializeFilesystemFat32
  rw [h]
  exact if_pos rfl

/-- Loading the table from a synced disk gives the table back. -/
theorem initialize_sameDisk (s' : FsState) (hs : Synced s)
    (hsig : isEmptyStorage s.disk = false) (h : s'.disk = s.disk) :
      SameDisk s (initializeFilesystemFat32 s') := by
  rw [initialize_of_signed (by rw [h]; exact hsig)]
  refine ⟨?_, h⟩
  show FAT32FileAllocationTable.ofCluster (readClusters s'.disk fatClusterNumber) = _
  rw [h, hs, FAT32FileAllocationTable.ofCluster_toCluster]

/-- A restart from a synced disk with its signature is not noticed. -/
theorem restart_unnoticed (hs : Synced s) (hsig : isEmptyStorage s.disk = false) :
    RestartUnnoticed s := fun s' h cs =>
  responses_congr cs (initialize_sameDisk s' hs hsig h)

/-! ### When the table is on the disk -/

theorem createFat32_synced_iff : Synced (createFat32 s) ↔
    readClusters s.disk fatClusterNumber = FAT32FileAllocationTable.toCluster freshClusterMap := by
  unfold Synced
  rw [createFat32_clusterMap, createFat32_content (by decide) (by decide) (by decide)]

/-- Formatting leaves cluster 1 as it is; loading makes the table what cluster
1 holds. -/
theorem initialize_synced_iff : Synced (initializeFilesystemFat32 s) ↔
    isEmptyStorage s.disk = false ∨
      readClusters s.disk fatClusterNumber =
        FAT32FileAllocationTable.toCluster freshClusterMap := by
  cases hsig : isEmptyStorage s.disk with
  | true =>
      rw [initialize_of_empty hsig, createFat32_synced_iff]
      simp
  | false =>
      rw [initialize_of_signed hsig]
      unfold Synced
      rw [FAT32FileAllocationTable.toCluster_ofCluster]
      simp

theorem initialize_mounted (hwf : (initializeFilesystemFat32 s).volume.WellFormed) :
    Mounted (initializeFilesystemFat32 s) := by
  refine ⟨hwf, ?_⟩
  cases hsig : isEmptyStorage s.disk with
  | true =>
      rw [initialize_of_empty hsig]
      exact createFat32_signed
  | false =>
      rw [initialize_of_signed hsig]
      exact hsig

/-- **When the table on the disk is the table in memory.**  After every request
of every run it is, exactly when the disk has the signature already or its
cluster 1 happens to hold the table of an empty file system.  Then a restart at
any point goes unnoticed, as long as the boot sector keeps its signature; in a
careful run from a well-formed volume it does. -/
theorem fat_on_disk (s₀ : FsState) (ok : FsState → FsCall → Prop) :
    ((∀ s, Reaches FsState.step ok (initializeFilesystemFat32 s₀) s → Synced s) ↔
      (isEmptyStorage s₀.disk = false ∨ readClusters s₀.disk fatClusterNumber =
        FAT32FileAllocationTable.toCluster freshClusterMap)) ∧
    ((isEmptyStorage s₀.disk = false ∨ readClusters s₀.disk fatClusterNumber =
        FAT32FileAllocationTable.toCluster freshClusterMap) →
      ∀ s, Reaches FsState.step ok (initializeFilesystemFat32 s₀) s →
        isEmptyStorage s.disk = false → RestartUnnoticed s) ∧
    ((initializeFilesystemFat32 s₀).volume.WellFormed →
      ((∀ s, Reaches FsState.step Careful (initializeFilesystemFat32 s₀) s →
        Synced s ∧ RestartUnnoticed s) ↔
      (isEmptyStorage s₀.disk = false ∨ readClusters s₀.disk fatClusterNumber =
        FAT32FileAllocationTable.toCluster freshClusterMap))) := by
  have hsync : ∀ {ok s}, (isEmptyStorage s₀.disk = false ∨ readClusters s₀.disk fatClusterNumber =
      FAT32FileAllocationTable.toCluster freshClusterMap) →
      Reaches FsState.step ok (initializeFilesystemFat32 s₀) s → Synced s := fun h hs =>
    reaches_synced hs (initialize_synced_iff.mpr h)
  refine ⟨⟨fun h => ?_, fun h s hs => hsync h hs⟩, fun h s hs hsig => ?_, fun hwf =>
    ⟨fun h => ?_, fun h s hs => ⟨hsync h hs, ?_⟩⟩⟩
  · exact initialize_synced_iff.mp (h _ .refl)
  · exact restart_unnoticed (hsync h hs) hsig
  · exact initialize_synced_iff.mp (h _ .refl).1
  · exact restart_unnoticed (hsync h hs) (careful_mounted hs (initialize_mounted hwf)).signed

/-- After formatting a blank disk, its cluster 1 does not hold the table. -/
theorem fat_not_on_disk :
    ¬ ∀ s₀ s : FsState, Reaches FsState.step OnDirectory (initializeFilesystemFat32 s₀) s →
      Synced s := by
  intro h
  have hs := initialize_synced_iff.mp (h .blank _ .refl)
  rcases hs with hsig | hfat
  · exact absurd hsig (by decide +kernel)
  · exact absurd (congrFun hfat 0) (by decide +kernel)

end Binbows
