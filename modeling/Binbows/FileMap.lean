/-
Binbows/FileMap.lean

The files of a volume as a map from keys to contents, and what the requests do to it.

A key is a directory, a name and an extension (`FileKey`).  In a tidy file system
`read`, `write` and `delete` of a file are the lookup, the insertion and the removal
at a key (`read_files`, `write_files`, `delete_files`).  None of them touches the
folders (`SameFolders`), so that paths lead where they led before.

A write may also be refused for want of room.  A removal never makes less of that
(`HasRoom.delete`).
-/
import Binbows.FileContents

namespace Binbows

open Chain SlotTree Bytes Volume Run FAT32FileAllocationTable

variable {v v' v'' : Volume} {d p c : BitVec 32} {i j : Fin directoryEntryCount}
  {l : List (BitVec 32)} {e : FAT32DirectoryEntry} {name : EntryName} {ext : EntryExt}
  {data data' : List ClusterBuffer} {t t' t'' : FAT32DirectoryTable}

/-! ### Folders -/

/-- Two tables have the same folders in the same slots. -/
def SameFolderTable (t t' : FAT32DirectoryTable) : Prop :=
  ∀ i, (t i).Folder ∨ (t' i).Folder → t' i = t i

theorem SameFolderTable.folder_iff (h : SameFolderTable t t') : (t' i).Folder ↔ (t i).Folder := by
  constructor
  · intro hf
    rwa [← h i (.inr hf)]
  · intro hf
    rwa [h i (.inl hf)]

/-- Two volumes have the same directories, with the same folders in them. -/
structure SameFolders (v v' : Volume) : Prop where
  directory : ∀ {d}, v'.Directory d ↔ v.Directory d
  table : ∀ {d}, v.Directory d → SameFolderTable (v.table d) (v'.table d)

theorem SameFolders.refl (v : Volume) : SameFolders v v where
  directory := Iff.rfl
  table _ _ _ := rfl

theorem SameFolders.trans (h : SameFolders v v') (h' : SameFolders v' v'') :
    SameFolders v v'' where
  directory := h'.directory.trans h.directory
  table hd i hi := by
    have ht := h.table hd
    have ht' := h'.table (h.directory.mpr hd)
    rcases hi with hi | hi
    · rw [ht' i (.inl (ht.folder_iff.mpr hi)), ht i (.inl hi)]
    · have hi' := ht'.folder_iff.mp hi
      rw [ht' i (.inr hi), ht i (.inr hi')]

/-- A slot that holds no folder before and after may change. -/
theorem SlotEdit.sameFolders (hu : SlotEdit v v' p i) (hdir : ∀ {d}, v'.Directory d ↔ v.Directory d)
    (hold : ¬ (v.table p i).Folder) (hnew : ¬ (v'.table p i).Folder) : SameFolders v v' where
  directory := hdir
  table {d} hd j hj := by
    rcases slot_cases d p j i with hne | ⟨rfl, rfl⟩
    · exact hu.slot hd (hdir.mpr hd) hne
    · exact absurd hj (not_or.mpr ⟨hold, hnew⟩)

theorem AddFile.sameFolders (hs : AddFile v v' p i e l) (h : v.Intact) : SameFolders v v' := by
  refine (hs.slotEdit h).sameFolders (hs.directory_iff h) (fun hf => hs.slot hf.1) ?_
  rw [hs.slot_new]
  exact fun hf => hs.file hf.2

theorem RemoveFile.sameFolders (hs : RemoveFile v v' p i e l) (h : v.Intact) :
    SameFolders v v' := by
  refine (hs.slotEdit h).sameFolders (hs.directory_iff h) (fun hf => hs.entry.2.2 hf.2) ?_
  exact fun hf => hs.not_occupied_new hf.1

/-- No two folders of a directory have the same name. -/
def Volume.UniqueFolders (v : Volume) : Prop :=
  ∀ ⦃d i j⦄, v.Directory d → v.SubdirEntry d i → v.SubdirEntry d j →
    (v.table d i).name = (v.table d j).name → i = j

theorem Volume.Intact.uniqueFolders_iff (h : v.Intact) :
    v.UniqueFolders ↔ v.UniqueSlots FAT32DirectoryEntry.Folder := by
  constructor
  · intro hq d i j hd hi hj hqi hqj hn _
    exact hq hd ⟨hi, hqi.1, hqi.2⟩ ⟨hj, hqj.1, hqj.2⟩ hn
  · intro hq d i j hd hi hj hn
    apply hq hd hi.1 hj.1 ⟨hi.2.1, hi.2.2⟩ ⟨hj.2.1, hj.2.2⟩ hn
    rw [(h.child_linked hd hi).ext_eq, (h.child_linked hd hj).ext_eq]

/-- Every step keeps the names of folders apart. -/
theorem VolumeStep.uniqueFolders (hs : VolumeStep v v') (hv : v.WellFormed)
    (hq : v.UniqueFolders) : v'.UniqueFolders := by
  have h := hv.toIntact
  rw [h.uniqueFolders_iff] at hq
  rw [(hs.wellFormed hv).toIntact.uniqueFolders_iff]
  have hocc : ∀ e : FAT32DirectoryEntry, e.Folder → e.Occupied := fun _ he => he.1
  cases hs with
  | addFile hs => exact hs.uniqueSlots hocc h hq
  | addDirectory hs =>
      refine hs.uniqueSlots hocc h hq fun _ j _ hj hn => ?_
      exact absurd (hn.trans hs.entry.name_eq) (hs.fresh j hj.1 hj.2)
  | removeFile hs => exact hs.uniqueSlots hocc h hq
  | removeDirectory hs => exact hs.toUnlinkDirectory.uniqueSlots hocc h hq

theorem keepsFolders_uniqueFolders {s₀ s : FsState}
    (h : Reaches FsState.step KeepsFolders (createFat32 s₀) s) : s.volume.UniqueFolders := by
  have hinv : Tidy s ∧ s.volume.UniqueFolders := by
    refine h.invariant (I := fun s => Tidy s ∧ s.volume.UniqueFolders) ⟨keepsFolders_tidy .refl, ?_⟩ ?_
    · intro d i j hd hi
      obtain rfl := createFat32_directory_iff.mp hd
      exact absurd hi.2.1 (createFat32_not_occupied hi.1)
    · rintro s c s' ⟨hs, hq⟩ hc hstep
      obtain ⟨r, hr, rfl⟩ := step_eq_some.mp hstep
      have hcareful := hc.careful hs.wellFormed
      refine ⟨exec_tidy hs hcareful hr, ?_⟩
      obtain ⟨r', hr', hcase⟩ := exec_refines hs.wellFormed.toIntact hcareful.1 hcareful.2
      obtain rfl : r = r' := Except.ok.inj (hr.symm.trans hr')
      rcases hcase with hsame | hvol
      · rw [hsame.volume_eq]
        exact hq
      · exact hvol.uniqueFolders hs.wellFormed hq
  exact hinv.2

/-! ### The map -/

/-- Where a file is, and what it is called. -/
structure FileKey where
  dir : BitVec 32
  name : EntryName
  ext : EntryExt
  deriving DecidableEq

/-- The files with their contents. -/
noncomputable def Volume.files (v : Volume) (k : FileKey) : Option (List ClusterBuffer) :=
  open Classical in
  if h : ∃ data, v.HasFile k.dir k.name k.ext data then some h.choose else none

/-- A file has one content. -/
theorem Volume.HasFile.unique (hq : v.UniqueFiles) (h : v.HasFile d name ext data)
    (h' : v.HasFile d name ext data') : data = data' := by
  obtain ⟨i, l, hd, hi, rfl, rfl, hl, rfl⟩ := h
  obtain ⟨j, m, -, hj, hn, hx, hm, rfl⟩ := h'
  obtain rfl := hq hd hi hj hn.symm hx.symm
  obtain rfl := hl.walk.unique hm.walk
  rfl

variable {k k' : FileKey}

theorem Volume.files_eq_some_iff (hq : v.UniqueFiles) :
    v.files k = some data ↔ v.HasFile k.dir k.name k.ext data := by
  unfold Volume.files
  constructor
  · intro h
    split_ifs at h with hex
    cases h
    exact hex.choose_spec
  · intro h
    have hex : ∃ data, v.HasFile k.dir k.name k.ext data := ⟨data, h⟩
    rw [dif_pos hex]
    exact congrArg some (hex.choose_spec.unique hq h)

theorem Volume.files_eq_none_iff :
    v.files k = none ↔ ∀ data, ¬ v.HasFile k.dir k.name k.ext data := by
  unfold Volume.files
  split_ifs with hex
  · simpa using hex
  · simpa using hex

/-- Volumes with the same files under all keys but one. -/
theorem files_eq_update (hq : v.UniqueFiles) (hq' : v'.UniqueFiles) {x : Option (List ClusterBuffer)}
    (hk : v'.files k = x) (hne : ∀ k' data, k' ≠ k →
      (v'.HasFile k'.dir k'.name k'.ext data ↔ v.HasFile k'.dir k'.name k'.ext data)) :
    v'.files = Function.update v.files k x := by
  funext k'
  by_cases hkk : k' = k
  · subst hkk
    rw [hk, Function.update_self]
  · rw [Function.update_of_ne hkk]
    apply Option.ext
    intro data
    rw [files_eq_some_iff hq', files_eq_some_iff hq, hne k' data hkk]

/-- A file that is there after an edit was there before, if it is not in the edited
slot and the edit kept it. -/
theorem SlotEdit.hasFile_of (hu : SlotEdit v v' p i) (h : v.Intact) (hq' : v'.UniqueFiles)
    (hdir : ∀ {d}, v'.Directory d ↔ v.Directory d)
    (hkeep : ∀ data, v.HasFile d name ext data → v'.HasFile d name ext data)
    (hkey : d = p → v'.FileEntry p i → (v'.table p i).name = name → (v'.table p i).ext ≠ ext)
    (hf : v'.HasFile d name ext data) : v.HasFile d name ext data := by
  obtain ⟨j, m, hd', hj, rfl, rfl, hm, rfl⟩ := hf
  have hd := hdir.mp hd'
  have hne : d ≠ p ∨ j ≠ i := by
    rcases slot_cases d p j i with hne | ⟨rfl, rfl⟩
    · exact hne
    · exact absurd rfl (hkey rfl hj rfl)
  have hj₀ := (hu.fileEntry_iff hd hd' hne).mp hj
  obtain ⟨m₀, hm₀⟩ := h.file_linked hd hj₀
  have hslot := hu.slot hd hd' hne
  have hold : v.HasFile d (v'.table d j).name (v'.table d j).ext (m₀.map v.content) :=
    ⟨j, m₀, hd, hj₀, by rw [hslot], by rw [hslot], hm₀, rfl⟩
  have hnow : v'.HasFile d (v'.table d j).name (v'.table d j).ext (m.map v'.content) :=
    ⟨j, m, hd', hj, rfl, rfl, hm, rfl⟩
  rwa [← (hkeep _ hold).unique hq' hnow]

theorem AddFile.files (hs : AddFile v v' p i e l) (h : v.Intact) (hq : v.UniqueFiles) :
    v'.files = Function.update v.files ⟨p, e.name, e.ext⟩ (some (l.map v'.content)) := by
  have hq' : v'.UniqueFiles := (VolumeStep.addFile hs).uniqueFiles h hq
  refine files_eq_update hq hq' ((files_eq_some_iff hq').mpr (hs.hasFile h)) ?_
  intro k data hk
  refine ⟨?_, hs.keeps h⟩
  refine (hs.slotEdit h).hasFile_of h hq' (hs.directory_iff h) (fun _ => hs.keeps h) ?_
  rintro rfl - hn hx
  rw [hs.slot_new] at hn hx
  exact hk (by rw [hn, hx])

theorem RemoveFile.files (hs : RemoveFile v v' p i e l) (h : v.Intact) (hq : v.UniqueFiles) :
    v'.files = Function.update v.files ⟨p, (v.table p i).name, (v.table p i).ext⟩ none := by
  have hq' : v'.UniqueFiles := (VolumeStep.removeFile hs).uniqueFiles h hq
  have hgone : ¬ v'.FileEntry p i := fun hf => hs.not_occupied_new hf.2.1
  refine files_eq_update hq hq' ?_ ?_
  · rw [files_eq_none_iff]
    rintro data ⟨j, m, hd', hj, hn, hx, -⟩
    have hd := (hs.directory_iff h).mp hd'
    have hji : j ≠ i := by
      rintro rfl
      exact hgone hj
    have hslot := (hs.slotEdit h).slot hd hd' (.inr hji)
    have hj₀ := ((hs.slotEdit h).fileEntry_iff hd hd' (.inr hji)).mp hj
    rw [hslot] at hn hx
    exact hji (hq hd hj₀ hs.entry hn hx)
  · intro k data hk
    have hkeep : ∀ data, v.HasFile k.dir k.name k.ext data → v'.HasFile k.dir k.name k.ext data := by
      intro data
      refine hs.keeps h ?_
      rintro hd hn hx
      exact hk (by rw [hn, hx, ← hd])
    refine ⟨?_, hkeep data⟩
    refine (hs.slotEdit h).hasFile_of h hq' (hs.directory_iff h) hkeep ?_
    exact fun _ hf => absurd hf hgone

/-! ### Reading -/

variable {request : FAT32DriverRequest} {mem : Memory} {s s' : FsState} {r : Reply}

/-- The key that a request names. -/
def FAT32DriverRequest.key (request : FAT32DriverRequest) : FileKey :=
  ⟨request.parentClusterNumber, request.name, request.ext⟩

/-- **`read` looks a file up**, where the buffer is large enough. -/
theorem read_files (mem : Memory) (h : s.volume.Intact) (hq : s.volume.UniqueFiles)
    (hp : s.volume.Directory request.parentClusterNumber) :
    ∃ r, read request mem s = .ok r ∧ SameDisk s r.fs ∧
      ((r.ret = 0 ∧ ∃ data, s.volume.files request.key = some data ∧
          data.length * clusterSize ≤ request.bufferSize.toNat ∧
          r.mem = mem.storeAll request.buf data) ∨
        (r.ret ≠ 0 ∧ ∀ data, s.volume.files request.key = some data →
          request.bufferSize.toNat < data.length * clusterSize)) := by
  by_cases hfits : ∃ data, s.volume.files request.key = some data ∧
      data.length * clusterSize ≤ request.bufferSize.toNat
  · obtain ⟨data, hdata, hsize⟩ := hfits
    have hf := (files_eq_some_iff hq).mp hdata
    obtain ⟨r, hr, hret, hmem⟩ := read_hasFile mem h hq hf hsize
    exact ⟨r, hr, (read_fs hr).1, .inl ⟨hret, data, hdata, hsize, hmem⟩⟩
  · obtain ⟨r, hr⟩ := read_total mem (h.directory_lt hp) (chainsEnd_of_intact h hp)
    refine ⟨r, hr, (read_fs hr).1, .inr ⟨fun hret => hfits ?_, ?_⟩⟩
    · obtain ⟨i, hm, hsize, -⟩ := read_found hr hret
      obtain ⟨hocc, hfile, hname, hext⟩ := readMatch_eq_some hm
      have hi : s.volume.FileEntry request.parentClusterNumber i :=
        (h.occupied_cases hp hocc).resolve_right fun hsub => hfile hsub.1
      obtain ⟨l, hl⟩ := h.file_linked hp hi
      refine ⟨l.map s.volume.content,
        (files_eq_some_iff hq).mpr ⟨i, l, hp, hi, hname, hext, hl, rfl⟩, ?_⟩
      rw [List.length_map, ← hl.size]
      exact hsize
    · intro data hdata
      by_contra hsize
      exact hfits ⟨data, hdata, not_lt.mp hsize⟩

/-! ### Writing -/

/-- There is room for a new file: a free slot, and enough free clusters. -/
def HasRoom (s : FsState) (p bufferSize : BitVec 32) : Prop :=
  (∃ i, ¬ (s.volume.table p i).Occupied) ∧ neededSize bufferSize ≤ availableSize s.clusterMap

instance {s : FsState} {p bufferSize : BitVec 32} : Decidable (HasRoom s p bufferSize) :=
  inferInstanceAs (Decidable (_ ∧ _))

theorem SameDisk.hasRoom {bufferSize : BitVec 32} (h : SameDisk s s')
    (hs : HasRoom s p bufferSize) : HasRoom s' p bufferSize := by
  unfold HasRoom
  rw [h.volume_eq, h.clusterMap]
  exact hs

/-- An entry with an extension is no folder. -/
theorem Volume.Intact.fileEntry_of_ext (h : v.Intact) (hd : v.Directory d)
    (ho : (v.table d i).Occupied) (hx : (v.table d i).ext ≠ 0) : v.FileEntry d i := by
  by_cases h0 : i = 0
  · subst h0
    exact absurd (h.self_entry hd).ext_eq hx
  by_cases h1 : i = 1
  · subst h1
    obtain ⟨a, -, he, -⟩ := h.parent_entry hd
    exact absurd he.ext_eq hx
  have hi : 2 ≤ i.val := by
    have : i.val ≠ 0 := fun h => h0 (Fin.ext h)
    have : i.val ≠ 1 := fun h => h1 (Fin.ext h)
    omega
  refine ⟨hi, ho, fun hs => ?_⟩
  exact hx (h.child_linked hd ⟨hi, ho, hs⟩).ext_eq

theorem Volume.FileEntry.files_ne_none (hi : v.FileEntry d i) (h : v.Intact) (hd : v.Directory d) :
    v.files ⟨d, (v.table d i).name, (v.table d i).ext⟩ ≠ none := by
  obtain ⟨l, hl⟩ := h.file_linked hd hi
  intro hnone
  exact files_eq_none_iff.mp hnone _ ⟨i, l, hd, hi, rfl, rfl, hl, rfl⟩

/-- What a file request does to the map, with the folders as they were. -/
structure SetsFile (s s' : FsState) (k : FileKey) (x : Option (List ClusterBuffer)) : Prop where
  files : s'.volume.files = Function.update s.volume.files k x
  folders : SameFolders s.volume s'.volume

/-- The duplicate check of a write fails at a slot with the same entry. -/
theorem writeScan_eq_none (h : writeScan request t (List.finRange directoryEntryCount) false = none) :
    ∃ i, (t i).Occupied ∧ sameEntry request (t i) := by
  by_contra hno
  push Not at hno
  have hsome : writeScan request t (List.finRange directoryEntryCount) false =
      some (decide (∃ i, ¬ (t i).Occupied)) := by
    rw [writeScan_eq_some_iff]
    exact ⟨fun i _ ho => hno i ho, by simp⟩
  rw [h] at hsome
  cases hsome

theorem writeScan_eq_some_false
    (h : writeScan request t (List.finRange directoryEntryCount) false = some false) (i) :
    (t i).Occupied := by
  by_contra ho
  have hempty := (writeScan_eq_some_iff.mp h).2.mpr (.inr ⟨i, List.mem_finRange i, ho⟩)
  cases hempty

/-- **`write` inserts a file** where its key is not in use and there is room. -/
theorem write_files (mem : Memory) (h : s.volume.Intact) (hq : s.volume.UniqueFiles)
    (hp : s.volume.Directory request.parentClusterNumber) (hsize : request.bufferSize ≠ 0)
    (hext : request.ext ≠ 0) :
    ∃ r, write request mem s = .ok r ∧
      ((r.ret = 0 ∧ s.volume.files request.key = none ∧
          HasRoom s request.parentClusterNumber request.bufferSize ∧
          SetsFile s r.fs request.key
            (some (loads mem request.buf (neededSize request.bufferSize)))) ∨
        (r.ret = 1 ∧ SameDisk s r.fs ∧ s.volume.files request.key ≠ none) ∨
        (r.ret = -1 ∧ SameDisk s r.fs ∧
          ¬ HasRoom s request.parentClusterNumber request.bufferSize)) := by
  obtain ⟨r, hr, hcase⟩ := write_refines mem h hp
  refine ⟨r, hr, ?_⟩
  -- by the outcome of the write: refused, a folder made, a file made
  rcases hcase with ⟨hret, hquiet⟩ | ⟨-, -, h0, -⟩ | ⟨hret, -, -, i, e, l, hadd, hw⟩
  · have hsame : SameDisk s r.fs := ⟨hquiet.clusterMap, hquiet.disk⟩
    rw [write_eq, parentCheck_directory h hp] at hr
    cases hscan : writeScan request (s.volume.table request.parentClusterNumber)
        (List.finRange directoryEntryCount) false with
    | none =>
        rw [hscan] at hr
        cases hr
        obtain ⟨i, ho, hsameEntry⟩ := writeScan_eq_none hscan
        -- the slot that has the key is a folder, which a file does not collide with, or a file
        obtain ⟨hn, hfolder | ⟨-, hx⟩⟩ := sameEntry_iff.mp hsameEntry
        · exact absurd hfolder.2 hsize
        · have hi := h.fileEntry_of_ext hp ho (hx ▸ hext)
          have htaken := hi.files_ne_none h hp
          rw [hn, hx] at htaken
          exact .inr (.inl ⟨rfl, hsame, htaken⟩)
    | some empty =>
        rw [hscan] at hr
        cases empty with
        -- all slots are in use
        | false =>
            cases hr
            refine .inr (.inr ⟨rfl, hsame, ?_⟩)
            rintro ⟨⟨i, hi⟩, -⟩
            exact hi (writeScan_eq_some_false hscan i)
        | true =>
            dsimp only at hr
            split_ifs at hr with hav
            -- the clusters do not suffice
            · cases hr
              exact .inr (.inr ⟨rfl, hsame, fun hroom => not_lt.mpr hroom.2 hav⟩)
            · cases hr
              exact absurd rfl hret
  · exact absurd h0 hsize
  · rcases write_cases hr with ⟨hne, -⟩ | hdone
    · exact absurd hret hne
    have hroom : HasRoom s request.parentClusterNumber request.bufferSize :=
      ⟨(writeScan_finRange_eq_some_true.mp hdone.scan).2, hdone.available⟩
    have hfiles := hadd.files h hq
    rw [hw.name_eq, hw.ext_eq, hw.content] at hfiles
    refine .inl ⟨hret, ?_, hroom, hfiles, hadd.sameFolders h⟩
    -- no slot had the key before, as the new entry is fresh
    rw [files_eq_none_iff]
    rintro data ⟨j, m, -, hj, hn, hx, -⟩
    refine hadd.fresh j hj.2.1 ?_ ?_
    · rw [hw.name_eq]
      exact hn
    · rw [hw.ext_eq]
      exact hx

/-! ### Removing -/

/-- The removal of a file keeps the room that there is. -/
theorem RemoveFile.hasRoom {bufferSize : BitVec 32} {q : BitVec 32}
    (hs : RemoveFile s.volume s'.volume p i e l) (h : s.volume.Intact) (hd : s.volume.Directory q)
    (hroom : HasRoom s q bufferSize) : HasRoom s' q bufferSize := by
  obtain ⟨⟨j, hj⟩, hav⟩ := hroom
  refine ⟨⟨j, ?_⟩, le_trans hav ?_⟩
  · have hne : q ≠ p ∨ j ≠ i := by
      rcases slot_cases q p j i with hne | ⟨rfl, rfl⟩
      · exact hne
      · exact absurd hs.entry.2.1 hj
    rwa [(hs.slotEdit h).slot hd ((hs.directory_iff h).mpr hd) hne]
  · apply List.countP_mono_left
    intro n _ hn
    rw [decide_eq_true_eq] at hn ⊢
    have hold : s.volume.fat (clusterOf n) = fat32FatEmptyEntry := (view_clusterOf _ _).trans hn
    have hnew := hs.fat (clusterOf n)
    rw [hold, ite_self] at hnew
    exact (view_clusterOf _ _).symm.trans hnew

/-- A deletion with an extension deletes no folder. -/
theorem keepsFolders_delete (mem : Memory) (h : s.volume.Intact)
    (hp : s.volume.Directory request.parentClusterNumber) (hext : request.ext ≠ 0) :
    KeepsFolders s ⟨.delete, request, mem⟩ := by
  refine ⟨hp, fun _ => ?_⟩
  cases hm : deleteMatch request (s.volume.table request.parentClusterNumber) with
  | none =>
      left
      intro r hr
      rcases delete_cases hr with ⟨hret, -⟩ | ⟨-, -, i, hi, -⟩
      · exact hret
      · cases hm.symm.trans hi
  | some i =>
      right
      obtain ⟨ho, -, hx⟩ := deleteMatch_eq_some hm
      exact ⟨i, rfl, (h.fileEntry_of_ext hp ho (hx ▸ hext)).2.2⟩

/-- **`delete` removes a file**, whether there is one or not. -/
theorem delete_files (mem : Memory) (h : s.volume.Intact) (hq : s.volume.UniqueFiles)
    (hp : s.volume.Directory request.parentClusterNumber) (hext : request.ext ≠ 0) :
    ∃ r, delete request mem s = .ok r ∧ SetsFile s r.fs request.key none ∧
      ∀ q bufferSize, s.volume.Directory q → HasRoom s q bufferSize → HasRoom r.fs q bufferSize := by
  cases hm : deleteMatch request (s.volume.table request.parentClusterNumber) with
  | none =>
      have hnone : s.volume.files request.key = none := by
        rw [files_eq_none_iff]
        rintro data ⟨i, l, -, hi, hn, hx, -⟩
        exact deleteMatch_eq_none_iff.mp hm i hi.2.1 hn hx
      refine ⟨⟨1, mem, s.readDirTable request.parentClusterNumber⟩, ?_, ⟨?_, .refl _⟩,
        fun _ _ _ hroom => hroom⟩
      · rw [delete_eq, parentCheck_directory h hp, hm]
      · rw [← hnone, Function.update_eq_self]
        rfl
  | some i =>
      obtain ⟨ho, hn, hx⟩ := deleteMatch_eq_some hm
      have hi := h.fileEntry_of_ext hp ho (hx ▸ hext)
      obtain ⟨r, hr, -, -, l, hrem⟩ := delete_file mem h hp hm hi
      refine ⟨r, hr, ⟨?_, hrem.sameFolders h⟩, fun q _ hd hroom => hrem.hasRoom h hd hroom⟩
      rw [hrem.files h hq, hn, hx]
      rfl

end Binbows
