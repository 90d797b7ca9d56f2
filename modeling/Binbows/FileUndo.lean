/-
Binbows/FileUndo.lean

The deletion of a file undoes the write that made it.

The two scans agree on the slot: the duplicate check of `write` lets no second entry
with the name and extension in, so the first slot that `delete` takes for the file is
the one `write` filled in (`FileCommitted.deleteMatch_eq`).  The freeing loop walks the
chain that the allocation loop linked.  And a slot given up is as it was before it was
taken, byte for byte, because every free slot of a directory is already in the form
that `delete` leaves behind (`CleanSlots`).

Main result: `delete_undoes_write`.
-/
import Binbows.FileContents

namespace Binbows

open Chain SlotTree Volume Run FAT32FileAllocationTable

variable {v v' : Volume} {d p c : BitVec 32} {i j : Fin directoryEntryCount}
  {l : List (BitVec 32)} {e : FAT32DirectoryEntry} {name parentName : EntryName}

/-! ### Slots that are not in use -/

/-- Every free slot of a directory is as `delete` leaves it. -/
def Volume.CleanSlots (v : Volume) : Prop :=
  ∀ ⦃d⦄, v.Directory d → ∀ ⦃i⦄, ¬ (v.table d i).Occupied → (v.table d i).clear = v.table d i

/-- An edit keeps the free slots of the directories there were, if it leaves its own
slot in use or clean. -/
theorem SlotEdit.clean (hu : SlotEdit v v' p i) (hq : v.CleanSlots) (hd : v.Directory d)
    (hd' : v'.Directory d)
    (hnew : ¬ (v'.table p i).Occupied → (v'.table p i).clear = v'.table p i)
    (ho : ¬ (v'.table d j).Occupied) : (v'.table d j).clear = v'.table d j := by
  rcases slot_cases d p j i with hne | ⟨rfl, rfl⟩
  · rw [hu.slot hd hd' hne] at ho ⊢
    exact hq hd ho
  · exact hnew ho

theorem AddFile.cleanSlots (hs : AddFile v v' p i e l) (h : v.Intact) (hq : v.CleanSlots) :
    v'.CleanSlots := by
  intro d hd' j ho
  refine (hs.slotEdit h).clean hq ((hs.directory_iff h).mp hd') hd' ?_ ho
  rw [hs.slot_new]
  exact fun hfree => absurd hs.occupied hfree

theorem freshTable_clean (ho : ¬ (freshTable name parentName p c j).Occupied) :
    (freshTable name parentName p c j).clear = freshTable name parentName p c j := by
  unfold freshTable at ho ⊢
  split_ifs at ho ⊢ with h0 h1
  · exact absurd (FAT32DirectoryEntry.fill_occupied ..) ho
  · exact absurd (FAT32DirectoryEntry.fill_occupied ..) ho
  · rfl

theorem AddDirectory.cleanSlots (hs : AddDirectory v v' p i e name c) (h : v.Intact)
    (hfresh : v'.table c = freshTable name parentName p c) (hq : v.CleanSlots) :
    v'.CleanSlots := by
  intro d hd' j ho
  rcases (hs.directory_iff h).mp hd' with hd | rfl
  · refine (hs.slotEdit h).clean hq hd hd' ?_ ho
    rw [hs.slot_new]
    exact fun hfree => absurd hs.entry.occupied hfree
  · rw [hfresh] at ho ⊢
    exact freshTable_clean ho

theorem RemoveFile.cleanSlots (hs : RemoveFile v v' p i (v.table p i).clear l) (h : v.Intact)
    (hq : v.CleanSlots) : v'.CleanSlots := by
  intro d hd' j ho
  refine (hs.slotEdit h).clean hq ((hs.directory_iff h).mp hd') hd' (fun _ => ?_) ho
  rw [hs.table, Function.update_self]
  exact FAT32DirectoryEntry.clear_clear _

variable {request del : FAT32DriverRequest} {mem : Memory} {s s' s'' s₀ : FsState} {r : Reply}
  {ks : List (Fin clusterMapSize)}

theorem createFat32_cleanSlots (s : FsState) : (createFat32 s).volume.CleanSlots := by
  intro d hd i ho
  obtain rfl := createFat32_directory_iff.mp hd
  rw [createFat32_table_root] at ho ⊢
  exact freshTable_clean ho

/-- A request that deletes no folder keeps the free slots clean. -/
theorem exec_cleanSlots {c : FsCall} (h : s.volume.Intact) (hc : KeepsFolders s c)
    (hq : s.volume.CleanSlots) (hr : c.exec s = .ok r) : r.fs.volume.CleanSlots := by
  have hsame : SameDisk s r.fs → r.fs.volume.CleanSlots := by
    intro hsame
    rw [hsame.volume_eq]
    exact hq
  obtain ⟨hp, hdel⟩ := hc
  rcases c with ⟨op, request, mem⟩
  cases op with
  | read => exact hsame (read_fs hr).1
  | readDirectory => exact hsame (readDirectory_fs hr).1
  | write =>
      obtain ⟨r', hr', hcase⟩ := write_refines mem h hp
      obtain rfl : r = r' := Except.ok.inj (hr.symm.trans hr')
      rcases hcase with ⟨-, hquiet⟩ | ⟨-, -, -, i, e, c, hadd, hfresh⟩ | ⟨-, -, -, i, e, l, hadd, -⟩
      · exact hsame ⟨hquiet.clusterMap, hquiet.disk⟩
      · exact hadd.cleanSlots h hfresh hq
      · exact hadd.cleanSlots h hq
  | delete =>
      rcases delete_cases hr with ⟨-, hquiet⟩ | ⟨hret, -⟩
      · exact hsame ⟨hquiet.clusterMap, hquiet.disk⟩
      · obtain ⟨i, hm, hfile⟩ := (hdel rfl).resolve_left fun hfail => hfail r hr hret
        have hi := (h.occupied_cases hp (deleteMatch_eq_some hm).1).resolve_right
          fun hsub => hfile hsub.1
        obtain ⟨r', hr', -, -, l, hrem⟩ := delete_file mem h hp hm hi
        obtain rfl : r = r' := Except.ok.inj (hr.symm.trans hr')
        exact hrem.cleanSlots h hq

theorem keepsFolders_cleanSlots (h : Reaches FsState.step KeepsFolders (createFat32 s₀) s) :
    s.volume.CleanSlots := by
  have hinv := h.invariant (I := fun s => s.volume.WellFormed ∧ s.volume.CleanSlots)
    ⟨createFat32_wellFormed s₀, createFat32_cleanSlots s₀⟩ ?_
  · exact hinv.2
  · rintro s c s' ⟨hwf, hq⟩ hc hstep
    obtain ⟨r, hr, rfl⟩ := step_eq_some.mp hstep
    exact ⟨exec_wellFormed hwf hc.1 (hc.careful hwf).2 hr, exec_cleanSlots hwf.toIntact hc hq hr⟩

/-! ### The slot that both requests mean -/

/-- `delete` finds the file in the slot that `write` filled in. -/
theorem FileCommitted.deleteMatch_eq (hf : FileCommitted request mem s s' i ks)
    (h : s.volume.Intact) (hp : s.volume.Directory request.parentClusterNumber)
    (hfresh : ∀ j, (s.volume.table request.parentClusterNumber j).Occupied →
      (s.volume.table request.parentClusterNumber j).name = request.name →
      (s.volume.table request.parentClusterNumber j).ext ≠ request.ext)
    (hname : del.name = request.name) (hext : del.ext = request.ext) :
    deleteMatch del (s'.volume.table request.parentClusterNumber) = some i := by
  have htable := hf.table_eq (h.directory_lt hp) (h.directory_ne_fat hp)
  have hslot : s'.volume.table request.parentClusterNumber i =
      fileEntryOf request (s.volume.table request.parentClusterNumber i) (ks.headD 0) := by
    rw [htable, Function.update_self]
  cases hm : deleteMatch del (s'.volume.table request.parentClusterNumber) with
  | none =>
      -- the new entry carries the key
      refine absurd ?_ (deleteMatch_eq_none_iff.mp hm i (hslot ▸ FAT32DirectoryEntry.fill_occupied ..)
        ?_)
      · rw [hslot, hext]
        rfl
      · rw [hslot, hname]
        rfl
  | some j =>
      obtain ⟨ho, hn, hx⟩ := deleteMatch_eq_some hm
      by_cases hji : j = i
      · rw [hji]
      · -- an old entry with the key would have stopped the write
        rw [htable, Function.update_of_ne hji] at ho hn hx
        exact absurd (hx.trans hext) (hfresh j ho (hn.trans hname))

/-! ### Write and delete -/

/-- The file system is as it was, but for the clusters `l`, which are zero, and for
the cluster that the allocation table is written out to. -/
structure Undone (s s'' : FsState) (l : List (BitVec 32)) : Prop where
  clusterMap : s''.clusterMap = s.clusterMap
  free : freeClusters s''.clusterMap = freeClusters s.clusterMap
  directory : ∀ d, s''.volume.Directory d ↔ s.volume.Directory d
  table : ∀ d, s.volume.Directory d → s''.volume.content d = s.volume.content d ∧
    s''.volume.table d = s.volume.table d
  /-- the sectors of all clusters but those of the allocation table and of the file -/
  sectors : ∀ b : Nat, (∀ c ∈ fatClusterNumber :: l, b / clusterBlockCount ≠ c.toNat) →
    s''.disk b = s.disk b
  zeroed : ∀ c ∈ l, readClusters s''.disk c = 0

/-- The release of a file that was just committed. -/
theorem FileCommitted.undone (hf : FileCommitted request mem s s' i ks)
    (hadd : AddFile s.volume s'.volume request.parentClusterNumber i
      (fileEntryOf request (s.volume.table request.parentClusterNumber i) (ks.headD 0))
      (ks.map clusterOf))
    (hdel : del.parentClusterNumber = request.parentClusterNumber)
    (hrel : FileReleased del s' s'' i l) (h : s.volume.Intact) (hq : s.volume.CleanSlots) :
    Undone s s'' l := by
  have h' := hadd.intact h
  have hp := hadd.parent
  have hplt := h.directory_lt hp
  have hlinked := hrel.linked
  rw [hdel] at hlinked
  -- the loop that frees walks what the loop that allocates linked
  obtain rfl : ks.map clusterOf = l := by
    have hwalk := hlinked.walk
    rw [hadd.slot_new] at hwalk
    exact hadd.walk_new.unique hwalk
  -- the entries of the new chain were zero before, and are again
  have hmap : s''.clusterMap = s.clusterMap := by
    apply clusterMap_ext
    intro c
    rw [hrel.fat]
    split_ifs with hc
    · exact (hadd.wasFree c hc).symm
    · exact hadd.fat_eq hc
  -- the slot is released to what it was
  have hslot : Function.update (s'.volume.table request.parentClusterNumber) i
      (s'.volume.table request.parentClusterNumber i).clear =
      s.volume.table request.parentClusterNumber := by
    have hclear : (fileEntryOf request (s.volume.table request.parentClusterNumber i)
        (ks.headD 0)).clear = s.volume.table request.parentClusterNumber i :=
      (FAT32DirectoryEntry.clear_fill ..).trans (hq hp hadd.slot)
    rw [hadd.slot_new, hclear, hadd.table, Function.update_idem, Function.update_eq_self]
  have hdisk := hrel.disk
  rw [hdel, hslot] at hdisk
  -- the disk is as before but for the table of clusters and the clusters of the file
  have hlt : ∀ c ∈ ks.map clusterOf, c.toNat < clusterMapSize := fun c hc => (hadd.range c hc).2
  have hsectors : ∀ b : Nat, (∀ c ∈ fatClusterNumber :: ks.map clusterOf,
      b / clusterBlockCount ≠ c.toNat) → s''.disk b = s.disk b := by
    intro b hb
    obtain ⟨hfat, hfile⟩ := List.forall_mem_cons.mp hb
    rw [hdisk, writeClusters_of_ne (by decide) hfat, zeroClusters_of_ne hlt hfile]
    by_cases hbp : b / clusterBlockCount = request.parentClusterNumber.toNat
    · -- the table of the parent, written back as it was read before the write
      show writeClusters s'.disk (FAT32DirectoryTable.toCluster (.ofCluster _)) _ b = _
      rw [FAT32DirectoryTable.toCluster_ofCluster]
      exact writeClusters_readClusters hplt hbp
    · rw [writeClusters_of_ne hplt hbp, hf.disk, writeClusters_of_ne (by decide) hfat,
        writeClusters_of_ne hplt hbp, writeData_of_ne hfile]
  -- no directory lies in either of them
  have hcontent : ∀ d, s.volume.Directory d → s''.volume.content d = s.volume.content d := by
    intro d hd
    show readClusters s''.disk d = readClusters s.disk d
    have hblocks : readBlocks s''.disk (clusterToLba d) clusterBlockCount =
        readBlocks s.disk (clusterToLba d) clusterBlockCount := by
      funext k
      apply hsectors
      intro c hc
      have hdc : d ≠ c := by
        rintro rfl
        rcases List.mem_cons.mp hc with hdf | hdl
        · exact h.directory_ne_fat hd hdf
        · exact hf.used_notMem (h.fat_directory_ne_empty hd) hdl
      have hclt : c.toNat < clusterMapSize := by
        rcases List.mem_cons.mp hc with rfl | hcl
        · decide
        · exact hlt c hcl
      have hdlt := h.directory_lt hd
      have hne : d.toNat ≠ c.toNat := fun he => hdc (BitVec.eq_of_toNat_eq he)
      have hk : k.val < 4 := k.isLt
      rw [sector_clusterToLba d hk]
      unfold clusterBlockCount clusterMapSize at *
      omega
    rw [readClusters, hblocks, readClusters]
  have hfile' : s'.volume.FileEntry del.parentClusterNumber i := by
    rw [hdel]
    exact hadd.fileEntry_new h
  have hdir' : s'.volume.Directory del.parentClusterNumber := by
    rw [hdel]
    exact (hadd.directory_iff h).mpr hp
  have hrem := hrel.removeFile h' hdir' hfile'
  exact {
    clusterMap := hmap
    free := by rw [hmap]
    directory := fun d => (hrem.directory_iff h').trans (hadd.directory_iff h)
    table := fun d hd => ⟨hcontent d hd, congrArg FAT32DirectoryTable.ofCluster (hcontent d hd)⟩
    sectors := hsectors
    zeroed := hrem.zeroed }

/-- **Delete undoes a file write.**  After any run that deletes no folder: the deletion
that follows a successful write of a file, with the same parent, name and extension,
succeeds, and everything is as before the write, with the clusters of the file zeroed. -/
theorem delete_undoes_write (del : FAT32DriverRequest) (dmem : Memory)
    (hrun : Reaches FsState.step KeepsFolders (createFat32 s₀) s)
    (hp : s.volume.Directory request.parentClusterNumber) (hsize : request.bufferSize ≠ 0)
    (hwrite : write request mem s = .ok r) (hret : r.ret = 0)
    (hparent : del.parentClusterNumber = request.parentClusterNumber)
    (hname : del.name = request.name) (hext : del.ext = request.ext) :
    ∃ i l r', r.fs.volume.FileEntry request.parentClusterNumber i ∧
      (r.fs.volume.table request.parentClusterNumber i).name = request.name ∧
      (r.fs.volume.table request.parentClusterNumber i).ext = request.ext ∧
      r.fs.volume.FileLinked request.parentClusterNumber i l ∧
      delete del dmem r.fs = .ok r' ∧ r'.ret = 0 ∧ Undone s r'.fs l := by
  have h := (keepsFolders_tidy hrun).wellFormed.toIntact
  obtain ⟨hdone, i, ks, hf⟩ := write_committed h hsize hwrite hret
  obtain ⟨hfresh, -⟩ := writeScan_finRange_eq_some_true.mp hdone.scan
  have hadd := hf.addFile h hp hsize hfresh
  have hm : deleteMatch del (r.fs.volume.table del.parentClusterNumber) = some i := by
    rw [hparent]
    exact hf.deleteMatch_eq h hp hadd.fresh hname hext
  have hfile := hadd.fileEntry_new h
  have hdir := (hadd.directory_iff h).mpr hp
  rw [← hparent] at hfile hdir
  obtain ⟨r', hr', hret', -, l, hrel⟩ := delete_released dmem (hadd.intact h) hdir hm hfile
  refine ⟨i, l, r', hadd.fileEntry_new h, ?_, ?_, ?_, hr', hret',
    hf.undone hadd hparent hrel h (keepsFolders_cleanSlots hrun)⟩
  · rw [hadd.slot_new]
    rfl
  · rw [hadd.slot_new]
    rfl
  · rw [← hparent]
    exact hrel.linked

/-- A file of one byte beside the folder `a`. -/
theorem delete_undoes_write_oneFolder :
    ∃ r r' l, write (makeFile rootClusterNumber 'b').request (fun _ => 7) oneFolder = .ok r ∧
      delete (remove rootClusterNumber 'b').request (fun _ => 0) r.fs = .ok r' ∧ r'.ret = 0 ∧
      Undone oneFolder r'.fs l := by
  obtain ⟨r, hr, hret⟩ := ret_eq_some.mp oneFolder_write_ret
  rw [exec_write] at hr
  obtain ⟨-, l, r', -, -, -, -, hr', hrest⟩ := delete_undoes_write
    (remove rootClusterNumber 'b').request (fun _ => 0)
    (oneFolder_reaches ⟨.root, fun h => by cases h⟩) .root (by decide) hr hret rfl rfl rfl
  exact ⟨r, r', l, hr, hr', hrest⟩

end Binbows
