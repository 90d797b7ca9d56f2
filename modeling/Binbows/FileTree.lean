/-
Binbows/FileTree.lean

The volume as a tree of folders with files.

A cluster that is a directory is a folder: slot 0 of its table has its name, and slot 1
has its parent.  The files are those of the map (`Volume.files`).  What the slots of a
directory say is what the tree says: a name finds a folder in the tree iff some slot in
use has it (`tree_finds_iff`).

Each step of the abstract file system has its edit of the tree (`AddFile.tree`,
`RemoveFile.tree`, `AddDirectory.tree`, `RemoveDirectory.tree`).
-/
import Binbows.Library.FolderTree
import Binbows.FileMap

namespace Binbows

open Chain SlotTree Volume Run FolderTree

variable {v v' : Volume} {d p c b : BitVec 32} {i j : Fin directoryEntryCount}
  {l : List (BitVec 32)} {e : FAT32DirectoryEntry} {name n : EntryName} {ext : EntryExt}
  {data : List ClusterBuffer} {s s' s₀ : FsState}

/-! ### The tree of a volume -/

abbrev FileTree := Tree (BitVec 32) EntryName FileKey (List ClusterBuffer)

/-- The directories with what their first two slots say, and the files. -/
noncomputable def Volume.tree (v : Volume) : FileTree where
  root := rootClusterNumber
  folder d := open Classical in
    if v.Directory d then some ((v.table d 0).name, (v.table d 1).cluster) else none
  files := v.files

theorem tree_folder_eq_some : v.tree.folder d = some (n, p) ↔
    v.Directory d ∧ (v.table d 0).name = n ∧ (v.table d 1).cluster = p := by
  show (open Classical in if v.Directory d then some ((v.table d 0).name, (v.table d 1).cluster)
    else none) = some (n, p) ↔ _
  split_ifs with hd
  · simp [hd]
  · simp [hd]

theorem tree_isFolder_iff : v.tree.IsFolder d ↔ v.Directory d := by
  constructor
  · rintro ⟨n, p, h⟩
    exact (tree_folder_eq_some.mp h).1
  · intro hd
    exact ⟨_, _, tree_folder_eq_some.mpr ⟨hd, rfl, rfl⟩⟩

theorem tree_named_iff : v.tree.Named d n ↔ v.Directory d ∧ (v.table d 0).name = n := by
  constructor
  · rintro ⟨p, h⟩
    obtain ⟨hd, hn, -⟩ := tree_folder_eq_some.mp h
    exact ⟨hd, hn⟩
  · rintro ⟨hd, hn⟩
    exact ⟨_, tree_folder_eq_some.mpr ⟨hd, hn, rfl⟩⟩

/-- The folders in a directory hang in its slots. -/
theorem tree_child_iff (h : v.Intact) (hd : v.Directory d) :
    v.tree.Child d c ↔ ∃ i, v.SubdirEntry d i ∧ (v.table d i).cluster = c := by
  constructor
  · rintro ⟨hne, n, hc⟩
    obtain ⟨hc, -, hparent⟩ := tree_folder_eq_some.mp hc
    obtain ⟨a, j, ha, hj, rfl⟩ := exists_parent hc hne
    -- slot 1 names the directory that the folder hangs in
    obtain rfl : a = d := (h.child_linked ha hj).parent.cluster_eq.symm.trans hparent
    exact ⟨j, hj, rfl⟩
  · rintro ⟨i, hi, rfl⟩
    have hlinked := h.child_linked hd hi
    have hchild : v.Directory (v.table d i).cluster := .child hd (child_eq_some_iff.mpr ⟨hi, rfl⟩)
    refine ⟨hlinked.range.ne_root, _, tree_folder_eq_some.mpr ⟨hchild, rfl, ?_⟩⟩
    exact hlinked.parent.cluster_eq

/-- The name of a child is the name in its slot. -/
theorem tree_child_named (h : v.Intact) (hd : v.Directory d) (hi : v.SubdirEntry d i) :
    v.tree.Named (v.table d i).cluster (v.table d i).name :=
  tree_named_iff.mpr ⟨.child hd (child_eq_some_iff.mpr ⟨hi, rfl⟩), (h.child_linked hd hi).name_eq⟩

/-- **A name finds a folder in the tree iff a slot has it**: the folder itself in slot 0,
the parent in slot 1, and the folders in it behind these. -/
theorem tree_finds_iff (h : v.Intact) (hd : v.Directory d) :
    v.tree.Finds d n c ↔ ∃ i, (v.table d i).Folder ∧ (v.table d i).name = n ∧
      (v.table d i).cluster = c := by
  have hself := h.self_entry hd
  obtain ⟨a, ha, hparent, -⟩ := h.parent_entry hd
  constructor
  · rintro ⟨rfl | ⟨m, hm⟩ | hchild, hname⟩
    · obtain ⟨-, hn⟩ := tree_named_iff.mp hname
      exact ⟨0, ⟨hself.occupied, hself.isSubdirectory⟩, hn, hself.cluster_eq⟩
    · obtain ⟨-, -, hc⟩ := tree_folder_eq_some.mp hm
      obtain ⟨-, hn⟩ := tree_named_iff.mp hname
      obtain rfl : a = c := hparent.cluster_eq.symm.trans hc
      exact ⟨1, ⟨hparent.occupied, hparent.isSubdirectory⟩, hparent.name_eq.trans hn, hc⟩
    · obtain ⟨i, hi, rfl⟩ := (tree_child_iff h hd).mp hchild
      obtain ⟨-, hn⟩ := tree_named_iff.mp hname
      exact ⟨i, hi.2, (h.child_linked hd hi).name_eq.symm.trans hn, rfl⟩
  · rintro ⟨i, hi, rfl, rfl⟩
    by_cases h0 : i = 0
    · subst h0
      rw [hself.cluster_eq]
      exact ⟨.inl rfl, tree_named_iff.mpr ⟨hd, rfl⟩⟩
    by_cases h1 : i = 1
    · subst h1
      refine ⟨.inr (.inl ⟨_, tree_folder_eq_some.mpr ⟨hd, rfl, rfl⟩⟩), ?_⟩
      rw [hparent.cluster_eq, hparent.name_eq]
      exact tree_named_iff.mpr ⟨ha, rfl⟩
    have hlow : 2 ≤ i.val := by
      have : i.val ≠ 0 := fun h => h0 (Fin.ext h)
      have : i.val ≠ 1 := fun h => h1 (Fin.ext h)
      omega
    have hsub : v.SubdirEntry d i := ⟨hlow, hi⟩
    exact ⟨.inr (.inr ((tree_child_iff h hd).mpr ⟨i, hsub, rfl⟩)), tree_child_named h hd hsub⟩

/-- A name that finds nothing is in no slot. -/
theorem tree_finds_none_iff (h : v.Intact) (hd : v.Directory d) :
    (∀ c, ¬ v.tree.Finds d n c) ↔ ∀ i, (v.table d i).Folder → (v.table d i).name ≠ n := by
  constructor
  · intro hno i hi hn
    exact hno _ ((tree_finds_iff h hd).mpr ⟨i, hi, hn, rfl⟩)
  · intro hno c hc
    obtain ⟨i, hi, hn, -⟩ := (tree_finds_iff h hd).mp hc
    exact hno i hi hn

/-- A directory without entries is an empty folder. -/
theorem tree_empty_iff (h : v.Intact) (hd : v.Directory d) :
    v.tree.Empty FileKey.dir d ↔
      ∀ j : Fin directoryEntryCount, 2 ≤ j.val → ¬ (v.table d j).Occupied := by
  constructor
  · rintro ⟨hfolders, hfiles⟩ j hj ho
    by_cases hsub : (v.table d j).IsSubdirectory
    · exact hfolders _ ((tree_child_iff h hd).mpr ⟨j, ⟨hj, ho, hsub⟩, rfl⟩)
    · have hfile : v.FileEntry d j := ⟨hj, ho, hsub⟩
      exact hfile.files_ne_none h hd (hfiles ⟨d, _, _⟩ rfl)
  · intro hno
    constructor
    · intro c hc
      obtain ⟨i, hi, -⟩ := (tree_child_iff h hd).mp hc
      exact hno i hi.1 hi.2.1
    · rintro k rfl
      show v.files k = none
      rw [files_eq_none_iff]
      rintro data ⟨i, l, -, hi, -⟩
      exact hno i hi.1 hi.2.1

/-! ### The edits on the tree -/

/-- Volumes with the same files. -/
theorem files_eq_of_hasFile (hq : v.UniqueFiles) (hq' : v'.UniqueFiles)
    (hkeep : ∀ (k : FileKey) data, v'.HasFile k.dir k.name k.ext data ↔
      v.HasFile k.dir k.name k.ext data) : v'.files = v.files := by
  funext k
  apply Option.ext
  intro data
  rw [files_eq_some_iff hq', files_eq_some_iff hq]
  exact hkeep k data

/-- A file that is there after an edit that adds no file was there before. -/
theorem SlotEdit.hasFile_before (hu : SlotEdit v v' p i) (h : v.Intact) (hq' : v'.UniqueFiles)
    (hd : v.Directory d) (hgone : ¬ v'.FileEntry p i)
    (hkeep : ∀ data, v.HasFile d name ext data → v'.HasFile d name ext data)
    (hf : v'.HasFile d name ext data) : v.HasFile d name ext data := by
  obtain ⟨j, m, hd', hj, rfl, rfl, hm, rfl⟩ := hf
  have hne : d ≠ p ∨ j ≠ i := by
    rcases slot_cases d p j i with hne | ⟨rfl, rfl⟩
    · exact hne
    · exact absurd hj hgone
  have hj₀ := (hu.fileEntry_iff hd hd' hne).mp hj
  obtain ⟨m₀, hm₀⟩ := h.file_linked hd hj₀
  have hslot := hu.slot hd hd' hne
  have hold : v.HasFile d (v'.table d j).name (v'.table d j).ext (m₀.map v.content) :=
    ⟨j, m₀, hd, hj₀, by rw [hslot], by rw [hslot], hm₀, rfl⟩
  have hnow : v'.HasFile d (v'.table d j).name (v'.table d j).ext (m.map v'.content) :=
    ⟨j, m, hd', hj, rfl, rfl, hm, rfl⟩
  rwa [← (hkeep _ hold).unique hq' hnow]

theorem AddDirectory.files (hs : AddDirectory v v' p i e name c) (h : v.Intact)
    (hq : v.UniqueFiles) : v'.files = v.files := by
  have hq' : v'.UniqueFiles := (VolumeStep.addDirectory hs).uniqueFiles h hq
  refine files_eq_of_hasFile hq hq' ?_
  rintro ⟨d, m, x⟩ data
  refine ⟨fun hf => ?_, hs.keeps h⟩
  obtain ⟨j, -, hd', hj, -⟩ := id hf
  rcases (hs.directory_iff h).mp hd' with hd | rfl
  · refine (hs.slotEdit h).hasFile_before h hq' hd ?_ (fun _ => hs.keeps h) hf
    exact fun hi => hi.2.2 (hs.subdirEntry_new h).2.2
  · exact absurd hj.2.1 (hs.empty j hj.1)

theorem RemoveDirectory.files (hs : RemoveDirectory v v' p i e c) (h : v.Intact)
    (hq : v.UniqueFiles) : v'.files = v.files := by
  have hq' : v'.UniqueFiles := (VolumeStep.removeDirectory hs).uniqueFiles h hq
  refine files_eq_of_hasFile hq hq' ?_
  rintro ⟨d, m, x⟩ data
  refine ⟨fun hf => ?_, hs.keeps h⟩
  obtain ⟨j, -, hd', -⟩ := id hf
  refine (hs.slotEdit h).hasFile_before h hq' ((hs.directory_iff h).mp hd').1 ?_
    (fun _ => hs.keeps h) hf
  exact fun hi => hs.not_occupied_new hi.2.1

/-- An edit leaves the name and the parent of a folder. -/
theorem SlotEdit.tree_folder (hu : SlotEdit v v' p i) (hd : v.Directory d) (hd' : v'.Directory d) :
    v'.tree.folder d = v.tree.folder d := by
  have h0 := hu.low_slot hd hd' (j := 0) (by decide)
  have h1 := hu.low_slot hd hd' (j := 1) (by decide)
  rw [tree_folder_eq_some.mpr ⟨hd', rfl, rfl⟩, h0, h1]
  exact (tree_folder_eq_some.mpr ⟨hd, rfl, rfl⟩).symm

theorem tree_folder_eq_none (hd : ¬ v.Directory d) : v.tree.folder d = none := by
  cases hf : v.tree.folder d with
  | none => rfl
  | some y =>
      obtain ⟨n, p⟩ := y
      exact absurd (tree_folder_eq_some.mp hf).1 hd

/-- An edit that keeps the directories keeps the folders of the tree. -/
theorem SlotEdit.tree_folders (hu : SlotEdit v v' p i)
    (hdir : ∀ {d}, v'.Directory d ↔ v.Directory d) : v'.tree.folder = v.tree.folder := by
  funext d
  by_cases hd : v.Directory d
  · exact hu.tree_folder hd (hdir.mpr hd)
  · rw [tree_folder_eq_none hd, tree_folder_eq_none (mt hdir.mp hd)]

theorem tree_ext (hfolder : v'.tree.folder = v.tree.folder) {t : FileTree}
    (ht : t.root = rootClusterNumber) (hf : t.folder = v.tree.folder) (hx : t.files = v'.files) :
    v'.tree = t := by
  obtain ⟨root, folder, files⟩ := t
  obtain rfl : root = rootClusterNumber := ht
  obtain rfl : folder = v.tree.folder := hf
  obtain rfl : files = v'.files := hx
  rw [← hfolder]
  rfl

/-- Volumes with the same folders have trees with the same folders. -/
theorem SameFolders.tree_eq (h : SameFolders v v') (hv : v.Intact) :
    v'.tree = { v.tree with files := v'.files } := by
  refine tree_ext ?_ rfl rfl rfl
  funext d
  by_cases hd : v.Directory d
  · have hself : (v.table d 0).Folder :=
      ⟨(hv.self_entry hd).occupied, (hv.self_entry hd).isSubdirectory⟩
    obtain ⟨a, -, hparent, -⟩ := hv.parent_entry hd
    have h0 : v'.table d 0 = v.table d 0 := h.table hd 0 (.inl hself)
    have h1 : v'.table d 1 = v.table d 1 :=
      h.table hd 1 (.inl ⟨hparent.occupied, hparent.isSubdirectory⟩)
    rw [tree_folder_eq_some.mpr ⟨h.directory.mpr hd, rfl, rfl⟩, h0, h1]
    exact (tree_folder_eq_some.mpr ⟨hd, rfl, rfl⟩).symm
  · rw [tree_folder_eq_none hd, tree_folder_eq_none (mt h.directory.mp hd)]

theorem AddFile.tree (hs : AddFile v v' p i e l) (h : v.Intact) (hq : v.UniqueFiles) :
    v'.tree = v.tree.setFile ⟨p, e.name, e.ext⟩ (some (l.map v'.content)) := by
  have hfolder := (hs.slotEdit h).tree_folders (hs.directory_iff h)
  exact tree_ext hfolder rfl rfl (hs.files h hq).symm

theorem RemoveFile.tree (hs : RemoveFile v v' p i e l) (h : v.Intact) (hq : v.UniqueFiles) :
    v'.tree = v.tree.setFile ⟨p, (v.table p i).name, (v.table p i).ext⟩ none := by
  have hfolder := (hs.slotEdit h).tree_folders (hs.directory_iff h)
  exact tree_ext hfolder rfl rfl (hs.files h hq).symm

theorem AddDirectory.tree (hs : AddDirectory v v' p i e name c) (h : v.Intact)
    (hq : v.UniqueFiles) : v'.tree = v.tree.addFolder p name c := by
  have hfolder : v'.tree.folder = (v.tree.addFolder p name c).folder := by
    funext d
    by_cases hdc : d = c
    · subst hdc
      rw [addFolder_folder_self]
      apply tree_folder_eq_some.mpr
      exact ⟨(hs.directory_iff h).mpr (.inr rfl), hs.self.name_eq, hs.parentEntry.cluster_eq⟩
    · rw [addFolder_folder_of_ne hdc]
      by_cases hd : v.Directory d
      · exact (hs.slotEdit h).tree_folder hd ((hs.directory_iff h).mpr (.inl hd))
      · rw [tree_folder_eq_none hd, tree_folder_eq_none]
        exact fun hd' => ((hs.directory_iff h).mp hd').elim hd hdc
  show (⟨rootClusterNumber, v'.tree.folder, v'.files⟩ : FileTree) = _
  rw [hfolder, hs.files h hq]
  rfl

theorem RemoveDirectory.tree (hs : RemoveDirectory v v' p i e c) (h : v.Intact)
    (hq : v.UniqueFiles) : v'.tree = v.tree.removeFolder c := by
  have hfolder : v'.tree.folder = (v.tree.removeFolder c).folder := by
    funext d
    rw [removeFolder_folder]
    split_ifs with hdc
    · refine tree_folder_eq_none fun hd' => ?_
      exact ((hs.directory_iff h).mp hd').2 hdc
    · by_cases hd : v.Directory d
      · exact (hs.slotEdit h).tree_folder hd ((hs.directory_iff h).mpr ⟨hd, hdc⟩)
      · rw [tree_folder_eq_none hd, tree_folder_eq_none]
        exact fun hd' => hd ((hs.directory_iff h).mp hd').1
  show (⟨rootClusterNumber, v'.tree.folder, v'.files⟩ : FileTree) = _
  rw [hfolder, hs.files h hq]
  rfl

/-- The folder that is removed is an empty child. -/
theorem RemoveDirectory.tree_child (hs : RemoveDirectory v v' p i e c) (h : v.Intact) :
    v.tree.Child p c ∧ v.tree.Empty FileKey.dir c :=
  ⟨(tree_child_iff h hs.parent).mpr ⟨i, hs.entry, hs.cluster⟩,
    (tree_empty_iff h hs.directory_victim).mpr hs.empty⟩

theorem SameDisk.tree_eq (h : SameDisk s s') : s'.volume.tree = s.volume.tree := by
  rw [h.volume_eq]

/-! ### Runs -/

theorem careful_tidy (h : Reaches FsState.step Careful (createFat32 s₀) s) : Tidy s := by
  refine h.invariant (I := Tidy) ⟨createFat32_mounted s₀, createFat32_uniqueFiles s₀⟩ ?_
  intro s c s' hs hc hstep
  obtain ⟨r, hr, rfl⟩ := step_eq_some.mp hstep
  exact exec_tidy hs hc hr

end Binbows
