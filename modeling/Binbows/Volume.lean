/-
Binbows/Volume.lean

The file system as the driver means it: an abstract volume and its
well-formedness.

A volume forgets buffers, blocks and bytes.  It is the allocation table as a
map on cluster numbers together with the content of every cluster; a cluster
can be looked at as a directory table.  The directories are the clusters
reached from the root through the occupied subdirectory slots 2..63, and every
slot of a directory owns the clusters it names: the one cluster of a
subdirectory, or the whole chain of a file.

`Intact` is the invariant that ties the allocation table, the directory
tables and the chains together.  It is stated through ownership: two slots
share no cluster.  That directories form a tree is a consequence
(`Intact.exists_depth`).  In a `WellFormed` volume also no cluster is lost:
what no slot owns is free.
-/
import Binbows.Library.Chain
import Binbows.Library.SlotTree
import Binbows.Fat32

namespace Binbows

open Chain SlotTree

/-- Allocation table and cluster contents. -/
structure Volume where
  fat : BitVec 32 → BitVec 32
  content : BitVec 32 → ClusterBuffer

/-- The allocation table as a map on cluster numbers. -/
def FAT32FileAllocationTable.view (t : FAT32FileAllocationTable) (c : BitVec 32) : BitVec 32 :=
  if h : c.toNat < clusterMapSize then t ⟨c.toNat, h⟩ else fat32FatEmptyEntry

/-- The volume that the driver state carries. -/
def FsState.volume (s : FsState) : Volume where
  fat := s.clusterMap.view
  content := readClusters s.disk

namespace Volume

variable (v : Volume)

/-- A cluster looked at as a directory table. -/
def table (c : BitVec 32) : FAT32DirectoryTable := .ofCluster (v.content c)

/-- An occupied slot, other than the self and the parent entry, that stands for
a folder. -/
def SubdirEntry (d : BitVec 32) (i : Fin directoryEntryCount) : Prop :=
  2 ≤ i.val ∧ (v.table d i).Occupied ∧ (v.table d i).IsSubdirectory

/-- An occupied slot that stands for a file. -/
def FileEntry (d : BitVec 32) (i : Fin directoryEntryCount) : Prop :=
  2 ≤ i.val ∧ (v.table d i).Occupied ∧ ¬ (v.table d i).IsSubdirectory

instance (d : BitVec 32) (i : Fin directoryEntryCount) : Decidable (v.SubdirEntry d i) := by
  unfold SubdirEntry
  infer_instance

instance (d : BitVec 32) (i : Fin directoryEntryCount) : Decidable (v.FileEntry d i) := by
  unfold FileEntry
  infer_instance

/-- The subdirectory that hangs in a slot. -/
def child (d : BitVec 32) (i : Fin directoryEntryCount) : Option (BitVec 32) :=
  if v.SubdirEntry d i then some (v.table d i).cluster else none

/-- The directories: the clusters reached from the root. -/
abbrev Directory : BitVec 32 → Prop := Reach v.child rootClusterNumber

/-- The clusters that files and directories other than the root live in. -/
def DataCluster (c : BitVec 32) : Prop := 3 ≤ c.toNat ∧ c.toNat < clusterMapSize

/-- The clusters that a slot names. -/
inductive Extent (d : BitVec 32) (i : Fin directoryEntryCount) : List (BitVec 32) → Prop
  | subdir : v.SubdirEntry d i → Extent d i [(v.table d i).cluster]
  | file {l} : v.FileEntry d i → Walk v.fat fat32FatEndOfFile (v.table d i).cluster l →
      Extent d i l

/-- A slot of a directory owns a cluster. -/
def Owns (d : BitVec 32) (i : Fin directoryEntryCount) (c : BitVec 32) : Prop :=
  v.Directory d ∧ ∃ l, v.Extent d i l ∧ c ∈ l

/-- An entry that stands for the directory `name` in cluster `c`. -/
structure IsDirEntry (e : FAT32DirectoryEntry) (name : EntryName) (c : BitVec 32) : Prop where
  occupied : e.Occupied
  isSubdirectory : e.IsSubdirectory
  name_eq : e.name = name
  ext_eq : e.ext = 0
  cluster_eq : e.cluster = c

/-- What a subdirectory slot of `d` promises about the directory it names. -/
structure ChildLinked (d : BitVec 32) (i : Fin directoryEntryCount) (c : BitVec 32) : Prop where
  range : DataCluster c
  ext_eq : (v.table d i).ext = 0
  name_eq : (v.table c 0).name = (v.table d i).name
  parent : IsDirEntry (v.table c 1) (v.table d 0).name d

/-- What a file slot promises about its chain. -/
structure FileLinked (d : BitVec 32) (i : Fin directoryEntryCount) (l : List (BitVec 32)) :
    Prop where
  walk : Walk v.fat fat32FatEndOfFile (v.table d i).cluster l
  range : ∀ c ∈ l, DataCluster c
  nonempty : l ≠ []
  size : (v.table d i).filesize.toNat = l.length * clusterSize

/-- The invariant of the file system, but for lost clusters. -/
structure Intact : Prop where
  fat_zero : v.fat 0#32 = cluster0Value
  fat_one : v.fat fatClusterNumber = cluster1Value
  /-- a directory is a single cluster -/
  fat_directory : ∀ {d}, v.Directory d → v.fat d = fat32FatEndOfFile
  /-- slot 0 is the directory itself -/
  self_entry : ∀ {d}, v.Directory d → IsDirEntry (v.table d 0) (v.table d 0).name d
  /-- the root is its own parent -/
  root_parent : IsDirEntry (v.table rootClusterNumber 1) (v.table rootClusterNumber 0).name
    rootClusterNumber
  /-- slot 1 of a subdirectory is its parent -/
  child_linked : ∀ {d i}, v.Directory d → v.SubdirEntry d i →
    v.ChildLinked d i (v.table d i).cluster
  file_linked : ∀ {d i}, v.Directory d → v.FileEntry d i → ∃ l, v.FileLinked d i l
  /-- no two slots share a cluster -/
  owner_unique : ∀ {d i d' i' c}, v.Owns d i c → v.Owns d' i' c → d = d' ∧ i = i'

/-- The invariant of the file system. -/
structure WellFormed : Prop extends v.Intact where
  /-- what no slot owns is free -/
  free : ∀ {c}, DataCluster c → (∀ d i, ¬ v.Owns d i c) → v.fat c = fat32FatEmptyEntry

end Volume

open Volume

variable {v v' : Volume} {d p c : BitVec 32} {i j : Fin directoryEntryCount}
  {l : List (BitVec 32)} {e : FAT32DirectoryEntry} {name : EntryName}

/-! ### Children -/

namespace Volume

theorem child_eq_some_iff :
    v.child d i = some c ↔ v.SubdirEntry d i ∧ (v.table d i).cluster = c := by
  unfold child
  split_ifs with h <;> simp [h]

theorem child_eq_none_iff : v.child d i = none ↔ ¬ v.SubdirEntry d i := by
  unfold child
  split_ifs with h <;> simp [h]

/-- A slot that is not in use hangs no directory up. -/
theorem child_eq_none_of_not_occupied (h : ¬ (v.table d i).Occupied) : v.child d i = none :=
  child_eq_none_iff.mpr fun hs => h hs.2.1

theorem child_congr (h : v'.table d i = v.table d i) : v'.child d i = v.child d i := by
  simp only [child, SubdirEntry, h]

/-- The clusters of a slot are determined. -/
theorem Extent.unique {m : List (BitVec 32)} (h : v.Extent d i l) (h' : v.Extent d i m) :
    l = m := by
  cases h with
  | subdir hs =>
      cases h' with
      | subdir _ => rfl
      | file hf _ => exact absurd hs.2.2 hf.2.2
  | file hf hw =>
      cases h' with
      | subdir hs => exact absurd hs.2.2 hf.2.2
      | file _ hw' => exact hw.unique hw'

theorem Extent.occupied (h : v.Extent d i l) : 2 ≤ i.val ∧ (v.table d i).Occupied := by
  cases h with
  | subdir hs => exact ⟨hs.1, hs.2.1⟩
  | file hf _ => exact ⟨hf.1, hf.2.1⟩

/-- Every directory but the root hangs in a slot. -/
theorem exists_parent (hd : v.Directory d) (hne : d ≠ rootClusterNumber) :
    ∃ a j, v.Directory a ∧ v.SubdirEntry a j ∧ (v.table a j).cluster = d := by
  cases hd with
  | root => exact absurd rfl hne
  | @child a j _ ha he => exact ⟨a, j, ha, child_eq_some_iff.mp he⟩

theorem DataCluster.ne_root (h : DataCluster c) : c ≠ rootClusterNumber := by
  rintro rfl
  exact absurd h.1 (by decide)

theorem DataCluster.ne_fat (h : DataCluster c) : c ≠ fatClusterNumber := by
  rintro rfl
  exact absurd h.1 (by decide)

theorem DataCluster.ne_zero (h : DataCluster c) : c ≠ 0#32 := by
  rintro rfl
  exact absurd h.1 (by decide)

theorem DataCluster.ne_endOfFile (h : DataCluster c) : c ≠ fat32FatEndOfFile := by
  rintro rfl
  exact absurd h.2 (by decide)

end Volume

/-! ### Consequences of the invariant -/

namespace Volume.Intact

theorem directory_cases (h : v.Intact) (hd : v.Directory d) :
    d = rootClusterNumber ∨ DataCluster d := by
  cases hd with
  | root => exact .inl rfl
  | child ha he =>
      obtain ⟨hs, rfl⟩ := child_eq_some_iff.mp he
      exact .inr (h.child_linked ha hs).range

theorem directory_lt (h : v.Intact) (hd : v.Directory d) : d.toNat < clusterMapSize := by
  rcases h.directory_cases hd with rfl | hr
  · decide
  · exact hr.2

theorem directory_ne_fat (h : v.Intact) (hd : v.Directory d) : d ≠ fatClusterNumber := by
  rcases h.directory_cases hd with rfl | hr
  · decide
  · exact hr.ne_fat

theorem owned_range (h : v.Intact) (ho : v.Owns d i c) : DataCluster c := by
  obtain ⟨hd, l, hl, hc⟩ := ho
  cases hl with
  | subdir hs =>
      obtain rfl := List.mem_singleton.mp hc
      exact (h.child_linked hd hs).range
  | file hf hw =>
      obtain ⟨m, hm⟩ := h.file_linked hd hf
      obtain rfl := hw.unique hm.walk
      exact hm.range c hc

/-- Owned clusters are marked used. -/
theorem fat_ne_empty_of_owns (h : v.Intact) (ho : v.Owns d i c) :
    v.fat c ≠ fat32FatEmptyEntry := by
  obtain ⟨hd, l, hl, hc⟩ := ho
  cases hl with
  | subdir hs =>
      obtain rfl := List.mem_singleton.mp hc
      rw [h.fat_directory (.child hd (child_eq_some_iff.mpr ⟨hs, rfl⟩))]
      decide
  | file hf hw =>
      obtain ⟨m, hm⟩ := h.file_linked hd hf
      obtain rfl := hw.unique hm.walk
      rcases hw.next_mem hc with hn | hn
      · rw [hn]
        decide
      · intro h0
        rw [h0] at hn
        exact (hm.range _ hn).ne_zero rfl

theorem fat_directory_ne_empty (h : v.Intact) (hd : v.Directory d) :
    v.fat d ≠ fat32FatEmptyEntry := by
  rw [h.fat_directory hd]
  decide

/-- The slots of the self and the parent entry are in use. -/
theorem slot_ge_two (h : v.Intact) (hd : v.Directory d) (hi : ¬ (v.table d i).Occupied) :
    2 ≤ i.val := by
  by_contra hlt
  have h0 : i ≠ 0 := by
    rintro rfl
    exact hi (h.self_entry hd).occupied
  have h1 : i ≠ 1 := by
    rintro rfl
    cases hd with
    | root => exact hi h.root_parent.occupied
    | child ha he =>
        obtain ⟨hs, rfl⟩ := child_eq_some_iff.mp he
        exact hi (h.child_linked ha hs).parent.occupied
  have : i.val ≠ 0 := fun h => h0 (Fin.ext h)
  have : i.val ≠ 1 := fun h => h1 (Fin.ext h)
  omega

/-- The root hangs in no slot. -/
theorem child_ne_root (h : v.Intact) (hd : v.Directory d) :
    v.child d i ≠ some rootClusterNumber := by
  intro he
  obtain ⟨hs, hc⟩ := child_eq_some_iff.mp he
  exact (hc ▸ (h.child_linked hd hs).range).ne_root rfl

/-- A directory hangs in one slot only. -/
theorem child_unique (h : v.Intact) (hd : v.Directory d) (hp : v.Directory p)
    (he : v.child d i = some c) (he' : v.child p j = some c) : d = p ∧ i = j := by
  obtain ⟨hs, rfl⟩ := child_eq_some_iff.mp he
  obtain ⟨hs', hc⟩ := child_eq_some_iff.mp he'
  exact h.owner_unique ⟨hd, _, .subdir hs, List.mem_singleton.mpr rfl⟩
    ⟨hp, _, .subdir hs', List.mem_singleton.mpr hc.symm⟩

/-- The directories form a tree. -/
theorem exists_depth (h : v.Intact) :
    ∃ depth : BitVec 32 → Nat, depth rootClusterNumber = 0 ∧
      ∀ a i b, v.Directory a → v.child a i = some b → depth b = depth a + 1 :=
  Reach.exists_depth (fun _ _ ha => h.child_ne_root ha)
    fun _ _ _ _ _ ha hb he he' => (h.child_unique ha hb he he').1

/-- A directory is not its own parent. -/
theorem child_ne_self (h : v.Intact) (hd : v.Directory d) : v.child d i ≠ some d := by
  intro he
  obtain ⟨depth, -, hdepth⟩ := h.exists_depth
  have := hdepth d i d hd he
  omega

end Volume.Intact

/-- Which clusters hold the end-of-file marker: the reserved entry 1, the
directories, and the last cluster of every file. -/
theorem Volume.WellFormed.fat_eq_endOfFile_cases (h : v.WellFormed) (hc : c.toNat < clusterMapSize)
    (he : v.fat c = fat32FatEndOfFile) :
    c = fatClusterNumber ∨ v.Directory c ∨
      ∃ d i l, v.Directory d ∧ v.FileEntry d i ∧ v.FileLinked d i l ∧ l.getLast? = some c := by
  by_cases h3 : 3 ≤ c.toNat
  · by_cases ho : ∃ d i, v.Owns d i c
    · obtain ⟨d, i, hd, l, hl, hcl⟩ := ho
      cases hl with
      | subdir hs =>
          obtain rfl := List.mem_singleton.mp hcl
          exact .inr (.inl (.child hd (child_eq_some_iff.mpr ⟨hs, rfl⟩)))
      | file hf hw =>
          obtain ⟨m, hm⟩ := h.file_linked hd hf
          obtain rfl := hw.unique hm.walk
          exact .inr (.inr ⟨d, i, _, hd, hf, hm, (hw.next_eq_stop_iff hcl).mp he⟩)
    · have hfree := h.free ⟨h3, hc⟩ fun d i hdi => ho ⟨d, i, hdi⟩
      rw [hfree] at he
      exact absurd he (by decide)
  · have hsmall : c = 0#32 ∨ c = fatClusterNumber ∨ c = rootClusterNumber := by
      have : c.toNat = 0 ∨ c.toNat = 1 ∨ c.toNat = 2 := by omega
      rcases this with h0 | h0 | h0
      · exact .inl (BitVec.eq_of_toNat_eq h0)
      · exact .inr (.inl (BitVec.eq_of_toNat_eq h0))
      · exact .inr (.inr (BitVec.eq_of_toNat_eq h0))
    rcases hsmall with rfl | rfl | rfl
    · rw [h.fat_zero] at he
      exact absurd he (by decide)
    · exact .inl rfl
    · exact .inr (.inl .root)

end Binbows
