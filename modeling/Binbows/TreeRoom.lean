/-
Binbows/TreeRoom.lean

How much room there is, told by the tree.

The driver looks for a free slot and counts free clusters.  Both follow from the tree: the
slots in use of a directory are the folders and files in it (`ncard_entries`), and the
clusters in use are one for every folder but the root and those of the files
(`availableSize_add_used`).  No cluster is lost and none is counted twice.

Main result: `room_refined`.  In every run, whether there is room depends on the tree
alone, and not on how it came about.
-/
import Binbows.FileTree
import Mathlib.Data.FinEnum
import Mathlib.Data.Set.Card.Arithmetic
import Mathlib.Order.CompletePartialOrder

namespace Binbows

open Chain SlotTree Volume Run FolderTree FAT32FileAllocationTable

variable {v v' : Volume} {d p c b : BitVec 32} {i j : Fin directoryEntryCount} {k k' : FileKey}
  {data : List ClusterBuffer} {s s' s₀ : FsState}

/-! ### Slots -/

/-- The slots in use behind the first two. -/
def Volume.entrySlots (v : Volume) (d : BitVec 32) : Finset (Fin directoryEntryCount) :=
  Finset.univ.filter fun i => 2 ≤ i.val ∧ (v.table d i).Occupied

/-- What an entry stands for. -/
def Volume.entryAt (v : Volume) (d : BitVec 32) (i : Fin directoryEntryCount) :
    BitVec 32 ⊕ FileKey :=
  if (v.table d i).IsSubdirectory then .inl (v.table d i).cluster
  else .inr ⟨d, (v.table d i).name, (v.table d i).ext⟩

theorem mem_entrySlots : i ∈ v.entrySlots d ↔ v.SubdirEntry d i ∨ v.FileEntry d i := by
  unfold Volume.entrySlots SubdirEntry FileEntry
  rw [Finset.mem_filter]
  simp only [Finset.mem_univ, true_and]
  tauto

theorem entryAt_subdir (hi : v.SubdirEntry d i) : v.entryAt d i = .inl (v.table d i).cluster :=
  if_pos hi.2.2

theorem entryAt_file (hi : v.FileEntry d i) :
    v.entryAt d i = .inr ⟨d, (v.table d i).name, (v.table d i).ext⟩ :=
  if_neg hi.2.2

/-- Two slots stand for different things. -/
theorem entryAt_injOn (h : v.Intact) (hq : v.UniqueFiles) (hd : v.Directory d) :
    Set.InjOn (v.entryAt d) (v.entrySlots d) := by
  intro i hi j hj hij
  rcases mem_entrySlots.mp hi with hi | hi
  · rcases mem_entrySlots.mp hj with hj | hj
    · rw [entryAt_subdir hi, entryAt_subdir hj] at hij
      exact (h.child_unique hd hd (child_eq_some_iff.mpr ⟨hi, rfl⟩)
        (child_eq_some_iff.mpr ⟨hj, (Sum.inl.inj hij).symm⟩)).2
    · rw [entryAt_subdir hi, entryAt_file hj] at hij
      cases hij
  · rcases mem_entrySlots.mp hj with hj | hj
    · rw [entryAt_file hi, entryAt_subdir hj] at hij
      cases hij
    · rw [entryAt_file hi, entryAt_file hj] at hij
      have hkey := Sum.inr.inj hij
      exact hq hd hi hj (congrArg FileKey.name hkey) (congrArg FileKey.ext hkey)

/-- The slots in use stand for what is in the directory. -/
theorem image_entryAt (h : v.Intact) (hq : v.UniqueFiles) (hd : v.Directory d) :
    v.entryAt d '' v.entrySlots d = v.tree.entries FileKey.dir d := by
  ext x
  constructor
  · rintro ⟨i, hi, rfl⟩
    rcases mem_entrySlots.mp hi with hi | hi
    · rw [entryAt_subdir hi, inl_mem_entries, tree_child_iff h hd]
      exact ⟨i, hi, rfl⟩
    · rw [entryAt_file hi, inr_mem_entries]
      exact ⟨rfl, hi.files_ne_none h hd⟩
  · intro hx
    cases x with
    | inl c =>
        obtain ⟨i, hi, rfl⟩ := (tree_child_iff h hd).mp (inl_mem_entries.mp hx)
        exact ⟨i, mem_entrySlots.mpr (.inl hi), entryAt_subdir hi⟩
    | inr k =>
        obtain ⟨rfl, hk⟩ := inr_mem_entries.mp hx
        obtain ⟨data, hdata⟩ := Option.ne_none_iff_exists'.mp hk
        obtain ⟨i, l, -, hi, hn, hx, -⟩ := (files_eq_some_iff hq).mp hdata
        refine ⟨i, mem_entrySlots.mpr (.inr hi), ?_⟩
        rw [entryAt_file hi, hn, hx]

/-- A directory has as many entries as slots in use. -/
theorem ncard_entries (h : v.Intact) (hq : v.UniqueFiles) (hd : v.Directory d) :
    (v.tree.entries FileKey.dir d).ncard = (v.entrySlots d).card := by
  rw [← image_entryAt h hq hd, Set.InjOn.ncard_image (entryAt_injOn h hq hd), Set.ncard_coe_finset]

/-- How many entries a directory holds, besides itself and its parent. -/
def entryLimit : Nat := directoryEntryCount - 2

theorem card_high_slots :
    (Finset.univ.filter fun i : Fin directoryEntryCount => 2 ≤ i.val).card = entryLimit := by
  decide

/-- A slot is free iff there are fewer entries than fit. -/
theorem free_slot_iff (h : v.Intact) (hq : v.UniqueFiles) (hd : v.Directory d) :
    (∃ i, ¬ (v.table d i).Occupied) ↔ (v.tree.entries FileKey.dir d).ncard < entryLimit := by
  rw [ncard_entries h hq hd, ← card_high_slots]
  have hsub : v.entrySlots d ⊆ Finset.univ.filter fun i => 2 ≤ i.val := by
    intro i hi
    rw [Finset.mem_filter]
    exact ⟨Finset.mem_univ i, (Finset.mem_filter.mp hi).2.1⟩
  constructor
  · rintro ⟨i, hi⟩
    apply Finset.card_lt_card
    refine ⟨hsub, fun hall => hi ?_⟩
    have hmem := hall (Finset.mem_filter.mpr ⟨Finset.mem_univ i, h.slot_ge_two hd hi⟩)
    exact (Finset.mem_filter.mp hmem).2.2
  · intro hlt
    by_contra hno
    push Not at hno
    refine absurd hlt (not_lt.mpr (Finset.card_le_card fun i hi => ?_))
    exact Finset.mem_filter.mpr ⟨Finset.mem_univ i, (Finset.mem_filter.mp hi).2, hno i⟩

/-! ### Clusters -/

instance : Finite FileKey := by
  apply Finite.of_injective fun k : FileKey => (k.dir, k.name, k.ext)
  rintro ⟨dir, name, ext⟩ ⟨dir', name', ext'⟩ heq
  cases heq
  rfl

/-- The clusters of the file under a key. -/
def Volume.chainOf (v : Volume) (k : FileKey) : Set (BitVec 32) :=
  {c | ∃ i, v.FileEntry k.dir i ∧ (v.table k.dir i).name = k.name ∧
    (v.table k.dir i).ext = k.ext ∧ v.Owns k.dir i c}

/-- A file has as many clusters as its content. -/
theorem ncard_chainOf (h : v.Intact) (hq : v.UniqueFiles) (k : FileKey) :
    (v.chainOf k).ncard = v.tree.fileSize List.length k := by
  have hfiles : v.tree.files k = v.files k := rfl
  unfold Tree.fileSize
  rw [hfiles]
  cases hk : v.files k with
  | none =>
      have hempty : v.chainOf k = ∅ := by
        rw [Set.eq_empty_iff_forall_notMem]
        rintro c ⟨i, hi, hn, hx, hd, -⟩
        have hsome := hi.files_ne_none h hd
        rw [hn, hx] at hsome
        exact hsome hk
      rw [hempty, Set.ncard_empty]
      rfl
  | some data =>
      obtain ⟨i, l, hd, hi, hn, hx, hl, rfl⟩ := (files_eq_some_iff hq).mp hk
      have hset : v.chainOf k = l.toFinset := by
        ext c
        rw [List.coe_toFinset]
        constructor
        · rintro ⟨j, hj, hn', hx', -, m, hm, hc⟩
          obtain rfl := hq hd hi hj (hn.trans hn'.symm) (hx.trans hx'.symm)
          obtain rfl := hm.unique (.file hi hl.walk)
          exact hc
        · intro hc
          exact ⟨i, hi, hn, hx, hd, l, .file hi hl.walk, hc⟩
      rw [hset, Set.ncard_coe_finset, List.toFinset_card_of_nodup hl.walk.nodup]
      simp

/-- Two files share no cluster. -/
theorem chainOf_disjoint (h : v.Intact) :
    Pairwise (Function.onFun Disjoint v.chainOf) := by
  intro k k' hne
  apply Set.disjoint_left.mpr
  rintro c ⟨i, -, hn, hx, hc⟩ ⟨j, -, hn', hx', hc'⟩
  obtain ⟨hdir, rfl⟩ := h.owner_unique hc hc'
  apply hne
  obtain ⟨dir, name, ext⟩ := k
  obtain ⟨dir', name', ext'⟩ := k'
  obtain rfl : dir = dir' := hdir
  obtain rfl : name = name' := hn.symm.trans hn'
  obtain rfl : ext = ext' := hx.symm.trans hx'
  rfl

/-- No file has the cluster of a folder. -/
theorem branches_disjoint (h : v.Intact) : Disjoint v.tree.branches (⋃ k, v.chainOf k) := by
  apply Set.disjoint_left.mpr
  rintro c ⟨hc, hne⟩ hmem
  obtain ⟨k, i, hi, -, -, hd, l, hl, hcl⟩ := Set.mem_iUnion.mp hmem
  cases hl with
  | subdir hs => exact hi.2.2 hs.2.2
  | file hf hw => exact h.directory_notMem hd hf hw (tree_isFolder_iff.mp hc) hcl

/-- The data clusters in use are those of the folders and those of the files. -/
theorem used_clusters (h : v.WellFormed) :
    {c | DataCluster c ∧ v.fat c ≠ fat32FatEmptyEntry} =
      v.tree.branches ∪ ⋃ k, v.chainOf k := by
  ext c
  constructor
  · rintro ⟨hc, hused⟩
    have howned : ∃ d i, v.Owns d i c := by
      by_contra hno
      exact hused (h.free hc fun d i ho => hno ⟨d, i, ho⟩)
    obtain ⟨d, i, hd, l, hl, hcl⟩ := howned
    cases hl with
    | subdir hs =>
        obtain rfl := List.mem_singleton.mp hcl
        have hchild := (tree_child_iff h.toIntact hd).mpr ⟨i, hs, rfl⟩
        exact .inl hchild.mem_branches
    | file hf hw =>
        refine .inr (Set.mem_iUnion.mpr ⟨⟨d, (v.table d i).name, (v.table d i).ext⟩, ?_⟩)
        exact ⟨i, hf, rfl, rfl, hd, l, .file hf hw, hcl⟩
  · rintro (⟨hc, hne⟩ | hmem)
    · have hd := tree_isFolder_iff.mp hc
      refine ⟨(h.toIntact.directory_cases hd).resolve_left hne, ?_⟩
      exact h.toIntact.fat_directory_ne_empty hd
    · obtain ⟨k, i, -, -, -, ho⟩ := Set.mem_iUnion.mp hmem
      exact ⟨h.toIntact.owned_range ho, h.toIntact.fat_ne_empty_of_owns ho⟩

/-- The places in use in the tree are the data clusters in use. -/
theorem ncard_used_clusters (h : v.WellFormed) (hq : v.UniqueFiles) :
    {c | DataCluster c ∧ v.fat c ≠ fat32FatEmptyEntry}.ncard = v.tree.used List.length := by
  rw [used_clusters h, Set.ncard_union_eq (branches_disjoint h.toIntact) (Set.toFinite _)
    (Set.toFinite _), Set.ncard_iUnion_of_finite (fun _ => Set.toFinite _)
    (chainOf_disjoint h.toIntact)]
  unfold Tree.used
  congr 1
  apply finsum_congr
  exact fun k => ncard_chainOf h.toIntact hq k

/-- The clusters that are never free. -/
def reservedClusters : Finset (BitVec 32) := {0#32, fatClusterNumber, rootClusterNumber}

theorem toNat_reserved (hc : c ∈ reservedClusters) : c.toNat < 3 := by
  fin_cases hc
  all_goals decide

/-- How many clusters there are for folders and files. -/
def clusterLimit : Nat := clusterMapSize - 3

/-- The clusters in use are the reserved ones and the data clusters in use. -/
theorem image_used_clusters (hs : s.volume.WellFormed) :
    clusterOf '' {n | s.clusterMap n ≠ fat32FatEmptyEntry} =
      (reservedClusters : Set (BitVec 32)) ∪
        {c | DataCluster c ∧ s.volume.fat c ≠ fat32FatEmptyEntry} := by
  have hreserved : ∀ c ∈ reservedClusters, s.volume.fat c ≠ fat32FatEmptyEntry := by
    intro c hc
    fin_cases hc
    · rw [hs.fat_zero]
      decide
    · rw [hs.fat_one]
      decide
    · exact hs.toIntact.fat_directory_ne_empty .root
  -- cluster numbers below 3 are the reserved ones
  ext c
  constructor
  · rintro ⟨n, hn, rfl⟩
    have hn' : s.volume.fat (clusterOf n) ≠ fat32FatEmptyEntry := by
      show s.clusterMap.view (clusterOf n) ≠ _
      rw [view_clusterOf]
      exact hn
    by_cases hlow : 3 ≤ n.val
    · have hdata : DataCluster (clusterOf n) := by
        unfold DataCluster
        rw [toNat_clusterOf]
        exact ⟨hlow, n.isLt⟩
      exact .inr ⟨hdata, hn'⟩
    · left
      have hsmall : clusterOf n = 0#32 ∨ clusterOf n = 1#32 ∨ clusterOf n = 2#32 := by
        have hcases : n.val = 0 ∨ n.val = 1 ∨ n.val = 2 := by omega
        unfold clusterOf
        rcases hcases with h | h | h
        · exact .inl (by rw [h])
        · exact .inr (.inl (by rw [h]))
        · exact .inr (.inr (by rw [h]))
      rcases hsmall with h | h | h
      all_goals
        rw [h]
        decide
  -- a number below the size of the table is the number of an entry
  · intro hc
    have hused : c.toNat < clusterMapSize ∧ s.volume.fat c ≠ fat32FatEmptyEntry := by
      rcases hc with hc | ⟨hdata, hc⟩
      · exact ⟨(toNat_reserved hc).trans (by decide), hreserved c hc⟩
      · exact ⟨hdata.2, hc⟩
    refine ⟨⟨c.toNat, hused.1⟩, ?_, clusterOf_mk hused.1⟩
    show s.clusterMap _ ≠ _
    rw [← view_clusterOf s.clusterMap, clusterOf_mk hused.1]
    exact hused.2

/-- **No cluster is lost**: those that are free and those that the tree uses are all that
there are. -/
theorem availableSize_add_used (hs : s.volume.WellFormed) (hq : s.volume.UniqueFiles) :
    availableSize s.clusterMap + s.volume.tree.used List.length = clusterLimit := by
  have hfree : availableSize s.clusterMap =
      {n | s.clusterMap n = fat32FatEmptyEntry}.ncard := by
    rw [availableSize_eq, ← List.toFinset_card_of_nodup (nodup_freeClusters _),
      ← Set.ncard_coe_finset]
    congr 1
    ext n
    simp [mem_freeClusters]
  have hdisjoint : Disjoint (reservedClusters : Set (BitVec 32))
      {c | DataCluster c ∧ s.volume.fat c ≠ fat32FatEmptyEntry} := by
    apply Set.disjoint_left.mpr
    rintro c hc ⟨⟨hlow, -⟩, -⟩
    exact absurd hlow (not_le.mpr (toNat_reserved hc))
  have hused : {n | s.clusterMap n ≠ fat32FatEmptyEntry}.ncard =
      3 + s.volume.tree.used List.length := by
    rw [← Set.ncard_image_of_injective _ clusterOf_injective, image_used_clusters hs,
      Set.ncard_union_eq hdisjoint (Set.toFinite _) (Set.toFinite _), Set.ncard_coe_finset,
      ncard_used_clusters hs hq]
    rfl
  have htotal := Set.ncard_add_ncard_compl {n | s.clusterMap n = fat32FatEmptyEntry}
  have hcompl : {n | s.clusterMap n = fat32FatEmptyEntry}ᶜ =
      {n | s.clusterMap n ≠ fat32FatEmptyEntry} := rfl
  rw [hcompl, hused, ← hfree, Nat.card_fin] at htotal
  unfold clusterLimit
  omega

/-! ### Room -/

/-- There is room in `d` for `n` clusters. -/
abbrev FileTree.HasRoom (t : FileTree) (d : BitVec 32) (n : Nat) : Prop :=
  Tree.HasRoom FileKey.dir List.length entryLimit clusterLimit t d n

/-- **Whether there is room is a matter of the tree**: how many folders there are, how long
the files are, and how much is in the directory. -/
theorem hasRoom_iff {bufferSize : BitVec 32} (hs : Tidy s) (hd : s.volume.Directory d) :
    HasRoom s d bufferSize ↔ FileTree.HasRoom s.volume.tree d (neededSize bufferSize) := by
  have hslots := free_slot_iff hs.wellFormed.toIntact hs.uniqueFiles hd
  have hcount := availableSize_add_used hs.wellFormed hs.uniqueFiles
  constructor
  · rintro ⟨hslot, havailable⟩
    refine ⟨hslots.mp hslot, ?_⟩
    omega
  · rintro ⟨hslot, hplace⟩
    refine ⟨hslots.mpr hslot, ?_⟩
    omega

/-- **No run loses a cluster or a slot.**  From a formatted disk on, while parents are
directories and no deletion strands an only child: the clusters that are free and those
that the tree uses are all that there are, and a write finds room in a directory iff the
tree has it. -/
theorem room_refined (h : Reaches FsState.step Careful (createFat32 s₀) s) :
    availableSize s.clusterMap + s.volume.tree.used List.length = clusterLimit ∧
      ∀ d bufferSize, s.volume.Directory d →
        (HasRoom s d bufferSize ↔ FileTree.HasRoom s.volume.tree d (neededSize bufferSize)) := by
  have hs := careful_tidy h
  exact ⟨availableSize_add_used hs.wellFormed hs.uniqueFiles, fun d bufferSize hd => hasRoom_iff hs hd⟩

/-- A folder below the root takes one place. -/
theorem room_refined_oneFolder :
    availableSize oneFolder.clusterMap + oneFolder.volume.tree.used List.length = clusterLimit ∧
      ∀ d bufferSize, oneFolder.volume.Directory d →
        (HasRoom oneFolder d bufferSize ↔
          FileTree.HasRoom oneFolder.volume.tree d (neededSize bufferSize)) :=
  room_refined (oneFolder_reaches ⟨.root, fun h => by cases h⟩)

end Binbows
