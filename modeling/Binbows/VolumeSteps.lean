/-
Binbows/VolumeSteps.lean

What a successful request does to a volume: a file or a directory is added in
a free slot, or the entry in a slot is removed.  Each of the four edits is a
record that says what changes and what stays; `VolumeStep` is their union, the
transition relation of the abstract file system.

Every edit keeps the invariant (`VolumeStep.wellFormed`), and says which
directories there are afterwards.  The argument is the same twice.  An edit
that adds names clusters that were free, so the new slot shares no cluster
with an old one; an edit that removes frees exactly what the old slot owned.
The two halves are `OwnerAdd` and `OwnerRemove`.
-/
import Binbows.Volume

namespace Binbows

open Chain SlotTree Volume

/-! ### The four edits -/

/-- A file with the clusters `l` appears in slot `i` of `p`. -/
structure AddFile (v v' : Volume) (p : BitVec 32) (i : Fin directoryEntryCount)
    (e : FAT32DirectoryEntry) (l : List (BitVec 32)) : Prop where
  parent : v.Directory p
  slot : ¬ (v.table p i).Occupied
  occupied : e.Occupied
  file : ¬ e.IsSubdirectory
  head : e.cluster = l.headD fat32FatEndOfFile
  size : e.filesize.toNat = l.length * clusterSize
  nonempty : l ≠ []
  nodup : l.Nodup
  range : ∀ c ∈ l, DataCluster c
  wasFree : ∀ c ∈ l, v.fat c = fat32FatEmptyEntry
  /-- no slot in use has this name and extension -/
  fresh : ∀ j, (v.table p j).Occupied → (v.table p j).name = e.name → (v.table p j).ext ≠ e.ext
  fat : v'.fat = link v.fat fat32FatEndOfFile l
  table : v'.table p = Function.update (v.table p) i e
  frame : ∀ c : BitVec 32, c.toNat < clusterMapSize → c ∉ l → c ≠ p → c ≠ fatClusterNumber →
    v'.content c = v.content c

/-- A directory in cluster `c` appears in slot `i` of `p`. -/
structure AddDirectory (v v' : Volume) (p : BitVec 32) (i : Fin directoryEntryCount)
    (e : FAT32DirectoryEntry) (name : EntryName) (c : BitVec 32) : Prop where
  parent : v.Directory p
  slot : ¬ (v.table p i).Occupied
  entry : IsDirEntry e name c
  range : DataCluster c
  wasFree : v.fat c = fat32FatEmptyEntry
  /-- no subdirectory in use has this name -/
  fresh : ∀ j, (v.table p j).Occupied → (v.table p j).IsSubdirectory → (v.table p j).name ≠ name
  fat : v'.fat = Function.update v.fat c fat32FatEndOfFile
  table : v'.table p = Function.update (v.table p) i e
  self : IsDirEntry (v'.table c 0) name c
  parentEntry : IsDirEntry (v'.table c 1) (v.table p 0).name p
  empty : ∀ j : Fin directoryEntryCount, 2 ≤ j.val → ¬ (v'.table c j).Occupied
  frame : ∀ d : BitVec 32, d.toNat < clusterMapSize → d ≠ c → d ≠ p → d ≠ fatClusterNumber →
    v'.content d = v.content d

/-- The file in slot `i` of `p`, with the clusters `l`, disappears. -/
structure RemoveFile (v v' : Volume) (p : BitVec 32) (i : Fin directoryEntryCount)
    (e : FAT32DirectoryEntry) (l : List (BitVec 32)) : Prop where
  parent : v.Directory p
  entry : v.FileEntry p i
  walk : Walk v.fat fat32FatEndOfFile (v.table p i).cluster l
  released : ¬ e.Occupied
  fat : ∀ c, v'.fat c = if c ∈ l then fat32FatEmptyEntry else v.fat c
  table : v'.table p = Function.update (v.table p) i e
  zeroed : ∀ c ∈ l, v'.content c = 0
  frame : ∀ c : BitVec 32, c.toNat < clusterMapSize → c ∉ l → c ≠ p → c ≠ fatClusterNumber →
    v'.content c = v.content c

/-- The directory in slot `i` of `p` disappears, with whatever hangs below it. -/
structure UnlinkDirectory (v v' : Volume) (p : BitVec 32) (i : Fin directoryEntryCount)
    (e : FAT32DirectoryEntry) (c : BitVec 32) : Prop where
  parent : v.Directory p
  entry : v.SubdirEntry p i
  cluster : (v.table p i).cluster = c
  released : ¬ e.Occupied
  fat : v'.fat = Function.update v.fat c fat32FatEmptyEntry
  table : v'.table p = Function.update (v.table p) i e
  frame : ∀ d : BitVec 32, d.toNat < clusterMapSize → d ≠ c → d ≠ p → d ≠ fatClusterNumber →
    v'.content d = v.content d

/-- The empty directory in slot `i` of `p` disappears. -/
structure RemoveDirectory (v v' : Volume) (p : BitVec 32) (i : Fin directoryEntryCount)
    (e : FAT32DirectoryEntry) (c : BitVec 32) : Prop extends UnlinkDirectory v v' p i e c where
  empty : ∀ j : Fin directoryEntryCount, 2 ≤ j.val → ¬ (v.table c j).Occupied

/-- One step of the abstract file system. -/
inductive VolumeStep (v v' : Volume) : Prop
  | addFile {p i e l} : AddFile v v' p i e l → VolumeStep v v'
  | addDirectory {p i e name c} : AddDirectory v v' p i e name c → VolumeStep v v'
  | removeFile {p i e l} : RemoveFile v v' p i e l → VolumeStep v v'
  | removeDirectory {p i e c} : RemoveDirectory v v' p i e c → VolumeStep v v'

variable {v v' : Volume} {d p b c : BitVec 32} {i j : Fin directoryEntryCount}
  {l m : List (BitVec 32)} {e : FAT32DirectoryEntry} {name : EntryName}

/-! ### What an edit leaves alone -/

/-- An edit of slot `i` of `p`: every other slot of a directory that stays
keeps its entry and its clusters. -/
structure SlotEdit (v v' : Volume) (p : BitVec 32) (i : Fin directoryEntryCount) : Prop where
  low : 2 ≤ i.val
  slot : ∀ {d j}, v.Directory d → v'.Directory d → d ≠ p ∨ j ≠ i → v'.table d j = v.table d j
  fat : ∀ {d j c}, d ≠ p ∨ j ≠ i → v.Owns d j c → v'.fat c = v.fat c

namespace SlotEdit

variable (hu : SlotEdit v v' p i) (h : v.Intact) (hd : v.Directory d) (hd' : v'.Directory d)

include hu hd hd'

/-- The self and the parent entry are not edited. -/
theorem low_slot (hj : j.val < 2) : v'.table d j = v.table d j := by
  refine hu.slot hd hd' (.inr ?_)
  rintro rfl
  have := hu.low
  omega

theorem subdirEntry_iff (hne : d ≠ p ∨ j ≠ i) : v'.SubdirEntry d j ↔ v.SubdirEntry d j := by
  unfold SubdirEntry
  rw [hu.slot hd hd' hne]

theorem fileEntry_iff (hne : d ≠ p ∨ j ≠ i) : v'.FileEntry d j ↔ v.FileEntry d j := by
  unfold FileEntry
  rw [hu.slot hd hd' hne]

include h

theorem self_entry : IsDirEntry (v'.table d 0) (v'.table d 0).name d := by
  rw [hu.low_slot hd hd' (by decide)]
  exact h.self_entry hd

theorem child_linked (hne : d ≠ p ∨ j ≠ i) (hsub : v'.SubdirEntry d j) :
    v'.ChildLinked d j (v'.table d j).cluster := by
  have ht := hu.slot hd hd' hne
  have hsub' := (hu.subdirEntry_iff hd hd' hne).mp hsub
  have hc' : v'.Directory (v'.table d j).cluster := .child hd' (child_eq_some_iff.mpr ⟨hsub, rfl⟩)
  have hc : v.Directory (v'.table d j).cluster :=
    .child hd (child_eq_some_iff.mpr ⟨hsub', by rw [ht]⟩)
  have hl := h.child_linked hd hsub'
  rw [← ht] at hl
  have hd0 := hu.low_slot hd hd' (j := 0) (by decide)
  have hc0 := hu.low_slot hc hc' (j := 0) (by decide)
  have hc1 := hu.low_slot hc hc' (j := 1) (by decide)
  generalize (v'.table d j).cluster = c at hl hc0 hc1
  exact ⟨hl.range, by rw [ht]; exact hl.ext_eq, by rw [hc0, hl.name_eq, ht],
    by rw [hc1, hd0]; exact hl.parent⟩

omit h in
/-- A file in a slot that is not edited keeps its chain. -/
theorem fileLinked (hne : d ≠ p ∨ j ≠ i) (hf : v.FileEntry d j) (hl : v.FileLinked d j l) :
    v'.FileLinked d j l := by
  have ht := hu.slot hd hd' hne
  refine ⟨?_, hl.range, hl.nonempty, ?_⟩
  · rw [ht]
    exact hl.walk.congr fun c hc => hu.fat hne ⟨hd, l, .file hf hl.walk, hc⟩
  · rw [ht]
    exact hl.size

theorem file_linked (hne : d ≠ p ∨ j ≠ i) (hfile : v'.FileEntry d j) :
    ∃ l, v'.FileLinked d j l := by
  have hf := (hu.fileEntry_iff hd hd' hne).mp hfile
  obtain ⟨l, hl⟩ := h.file_linked hd hf
  exact ⟨l, hu.fileLinked hd hd' hne hf hl⟩

/-- A slot that is not edited names the same clusters. -/
theorem extent_iff (hne : d ≠ p ∨ j ≠ i) : v'.Extent d j m ↔ v.Extent d j m := by
  have ht := hu.slot hd hd' hne
  constructor
  · intro hm
    cases hm with
    | subdir hs =>
        rw [ht]
        exact .subdir ((hu.subdirEntry_iff hd hd' hne).mp hs)
    | file hf hw =>
        have hf' := (hu.fileEntry_iff hd hd' hne).mp hf
        obtain ⟨l, hl⟩ := h.file_linked hd hf'
        have hl' : Walk v'.fat fat32FatEndOfFile (v.table d j).cluster l :=
          hl.walk.congr fun c hc => hu.fat hne ⟨hd, l, .file hf' hl.walk, hc⟩
        rw [ht] at hw
        obtain rfl := hw.unique hl'
        exact .file hf' hl.walk
  · intro hm
    cases hm with
    | subdir hs =>
        rw [← ht]
        exact .subdir ((hu.subdirEntry_iff hd hd' hne).mpr hs)
    | file hf hw =>
        refine .file ((hu.fileEntry_iff hd hd' hne).mpr hf) ?_
        rw [ht]
        exact hw.congr fun c hc => hu.fat hne ⟨hd, _, .file hf hw, hc⟩

end SlotEdit

theorem SlotEdit.root_parent (hu : SlotEdit v v' p i) (h : v.Intact) :
    IsDirEntry (v'.table rootClusterNumber 1) (v'.table rootClusterNumber 0).name
      rootClusterNumber := by
  rw [hu.low_slot .root .root (by decide), hu.low_slot .root .root (by decide)]
  exact h.root_parent

/-- A slot is the edited one or it is not. -/
theorem slot_cases (d p : BitVec 32) (j i : Fin directoryEntryCount) :
    (d ≠ p ∨ j ≠ i) ∨ (d = p ∧ j = i) := by tauto

/-- What an edit that adds does to ownership: slot `i` of `p` takes the free
clusters `l`. -/
structure OwnerAdd (v v' : Volume) (p : BitVec 32) (i : Fin directoryEntryCount)
    (l : List (BitVec 32)) : Prop where
  owns : ∀ {d j c}, v'.Owns d j c ↔ v.Owns d j c ∨ (d = p ∧ j = i ∧ c ∈ l)
  wasFree : ∀ c ∈ l, v.fat c = fat32FatEmptyEntry
  fat : ∀ c, c ∉ l → v'.fat c = v.fat c

theorem OwnerAdd.owner_unique (h : v.Intact) (ho : OwnerAdd v v' p i l)
    {d d' : BitVec 32} {j j' : Fin directoryEntryCount}
    (h₁ : v'.Owns d j c) (h₂ : v'.Owns d' j' c) : d = d' ∧ j = j' := by
  rcases ho.owns.mp h₁ with h₁ | ⟨rfl, rfl, h₁⟩
  · rcases ho.owns.mp h₂ with h₂ | ⟨rfl, rfl, h₂⟩
    · exact h.owner_unique h₁ h₂
    · exact absurd (ho.wasFree c h₂) (h.fat_ne_empty_of_owns h₁)
  · rcases ho.owns.mp h₂ with h₂ | ⟨rfl, rfl, h₂⟩
    · exact absurd (ho.wasFree c h₁) (h.fat_ne_empty_of_owns h₂)
    · exact ⟨rfl, rfl⟩

theorem OwnerAdd.free (h : v.WellFormed) (ho : OwnerAdd v v' p i l) (hc : DataCluster c)
    (hno : ∀ d j, ¬ v'.Owns d j c) : v'.fat c = fat32FatEmptyEntry := by
  have hcl : c ∉ l := fun hcl => hno p i (ho.owns.mpr (.inr ⟨rfl, rfl, hcl⟩))
  rw [ho.fat c hcl]
  exact h.free hc fun d j hd => hno d j (ho.owns.mpr (.inl hd))

/-- What an edit that removes does to ownership: slot `i` of `p` gives up all
its clusters. -/
structure OwnerRemove (v v' : Volume) (p : BitVec 32) (i : Fin directoryEntryCount) : Prop where
  owns : ∀ {d j c}, v'.Owns d j c ↔ v.Owns d j c ∧ ¬ (d = p ∧ j = i)
  freed : ∀ c, v.Owns p i c → v'.fat c = fat32FatEmptyEntry
  fat : ∀ c, ¬ v.Owns p i c → v'.fat c = v.fat c

theorem OwnerRemove.owner_unique (h : v.Intact) (ho : OwnerRemove v v' p i)
    {d d' : BitVec 32} {j j' : Fin directoryEntryCount}
    (h₁ : v'.Owns d j c) (h₂ : v'.Owns d' j' c) : d = d' ∧ j = j' :=
  h.owner_unique (ho.owns.mp h₁).1 (ho.owns.mp h₂).1

theorem OwnerRemove.free (h : v.WellFormed) (ho : OwnerRemove v v' p i) (hc : DataCluster c)
    (hno : ∀ d j, ¬ v'.Owns d j c) : v'.fat c = fat32FatEmptyEntry := by
  by_cases hp : v.Owns p i c
  · exact ho.freed c hp
  · rw [ho.fat c hp]
    refine h.free hc fun d j hd => hno d j (ho.owns.mpr ⟨hd, ?_⟩)
    rintro ⟨rfl, rfl⟩
    exact hp hd

/-! ### Adding a file -/

namespace AddFile

theorem table_of_ne (hs : AddFile v v' p i e l) (h : v.Intact) (hd : v.Directory d)
    (hne : d ≠ p) : v'.table d = v.table d := by
  have hdl : d ∉ l := fun hdl => h.fat_directory_ne_empty hd (hs.wasFree d hdl)
  unfold Volume.table
  rw [hs.frame d (h.directory_lt hd) hdl hne (h.directory_ne_fat hd)]

theorem fat_eq (hs : AddFile v v' p i e l) (hc : c ∉ l) : v'.fat c = v.fat c := by
  rw [hs.fat, link_of_notMem hc]

theorem slotEdit (hs : AddFile v v' p i e l) (h : v.Intact) : SlotEdit v v' p i where
  low := h.slot_ge_two hs.parent hs.slot
  slot := by
    intro d j hd _ hne
    by_cases hdp : d = p
    · subst hdp
      rw [hs.table, Function.update_of_ne (by tauto)]
    · rw [hs.table_of_ne h hd hdp]
  fat := fun _ ho => hs.fat_eq fun hc => h.fat_ne_empty_of_owns ho (hs.wasFree _ hc)

theorem slot_new (hs : AddFile v v' p i e l) : v'.table p i = e := by
  rw [hs.table, Function.update_self]

theorem fileEntry_new (hs : AddFile v v' p i e l) (h : v.Intact) : v'.FileEntry p i := by
  unfold FileEntry
  rw [hs.slot_new]
  exact ⟨(hs.slotEdit h).low, hs.occupied, hs.file⟩

theorem child_eq (hs : AddFile v v' p i e l) (h : v.Intact) (hd : v.Directory d) :
    v'.child d = v.child d := by
  funext j
  by_cases hdp : d = p
  · subst hdp
    by_cases hji : j = i
    · rw [hji, child_eq_none_of_not_occupied hs.slot, child_eq_none_iff]
      exact fun hsub => (hs.fileEntry_new h).2.2 hsub.2.2
    · refine child_congr ?_
      rw [hs.table, Function.update_of_ne hji]
  · exact child_congr (congrFun (hs.table_of_ne h hd hdp) j)

theorem directory_iff (hs : AddFile v v' p i e l) (h : v.Intact) :
    v'.Directory d ↔ v.Directory d :=
  reach_congr fun _ hd => hs.child_eq h hd

theorem walk_new (hs : AddFile v v' p i e l) : Walk v'.fat fat32FatEndOfFile e.cluster l := by
  rw [hs.head, hs.fat]
  exact walk_link hs.nodup fun hmem => (hs.range _ hmem).ne_endOfFile rfl

theorem extent_new (hs : AddFile v v' p i e l) (h : v.Intact) : v'.Extent p i l := by
  refine .file (hs.fileEntry_new h) ?_
  rw [hs.slot_new]
  exact hs.walk_new

theorem ownerAdd (hs : AddFile v v' p i e l) (h : v.Intact) : OwnerAdd v v' p i l where
  owns := by
    intro d j c
    rcases slot_cases d p j i with hne | ⟨rfl, rfl⟩
    · constructor
      · rintro ⟨hd', m, hm, hc⟩
        have hd := (hs.directory_iff h).mp hd'
        exact .inl ⟨hd, m, ((hs.slotEdit h).extent_iff h hd hd' hne).mp hm, hc⟩
      · rintro (⟨hd, m, hm, hc⟩ | ⟨rfl, rfl, -⟩)
        · have hd' := (hs.directory_iff h).mpr hd
          exact ⟨hd', m, ((hs.slotEdit h).extent_iff h hd hd' hne).mpr hm, hc⟩
        · tauto
    · constructor
      · rintro ⟨-, m, hm, hc⟩
        obtain rfl := hm.unique (hs.extent_new h)
        exact .inr ⟨rfl, rfl, hc⟩
      · rintro (⟨-, m, hm, -⟩ | ⟨-, -, hc⟩)
        · exact absurd hm.occupied.2 hs.slot
        · exact ⟨(hs.directory_iff h).mpr hs.parent, l, hs.extent_new h, hc⟩
  wasFree := hs.wasFree
  fat := fun c hc => hs.fat_eq hc

theorem intact (hs : AddFile v v' p i e l) (h : v.Intact) : v'.Intact where
  fat_zero := by
    rw [hs.fat_eq fun hc => (hs.range _ hc).ne_zero rfl]
    exact h.fat_zero
  fat_one := by
    rw [hs.fat_eq fun hc => (hs.range _ hc).ne_fat rfl]
    exact h.fat_one
  fat_directory := by
    intro d hd'
    have hd := (hs.directory_iff h).mp hd'
    rw [hs.fat_eq fun hc => h.fat_directory_ne_empty hd (hs.wasFree d hc)]
    exact h.fat_directory hd
  self_entry := fun hd' => (hs.slotEdit h).self_entry h ((hs.directory_iff h).mp hd') hd'
  root_parent := (hs.slotEdit h).root_parent h
  child_linked := by
    intro d j hd' hsub
    rcases slot_cases d p j i with hne | ⟨rfl, rfl⟩
    · exact (hs.slotEdit h).child_linked h ((hs.directory_iff h).mp hd') hd' hne hsub
    · exact absurd hsub.2.2 (hs.fileEntry_new h).2.2
  file_linked := by
    intro d j hd' hfile
    rcases slot_cases d p j i with hne | ⟨rfl, rfl⟩
    · exact (hs.slotEdit h).file_linked h ((hs.directory_iff h).mp hd') hd' hne hfile
    · refine ⟨l, ?_, hs.range, hs.nonempty, ?_⟩
      · rw [hs.slot_new]
        exact hs.walk_new
      · rw [hs.slot_new]
        exact hs.size
  owner_unique := (hs.ownerAdd h).owner_unique h

theorem wellFormed (hs : AddFile v v' p i e l) (h : v.WellFormed) :
    v'.WellFormed where
  toIntact := hs.intact h.toIntact
  free := (hs.ownerAdd h.toIntact).free h

end AddFile

/-! ### Adding a directory -/

namespace AddDirectory

theorem not_directory (hs : AddDirectory v v' p i e name c) (h : v.Intact) :
    ¬ v.Directory c :=
  fun hc => h.fat_directory_ne_empty hc hs.wasFree

theorem table_of_ne (hs : AddDirectory v v' p i e name c) (h : v.Intact)
    (hd : v.Directory d) (hne : d ≠ p) : v'.table d = v.table d := by
  have hdc : d ≠ c := by
    rintro rfl
    exact hs.not_directory h hd
  unfold Volume.table
  rw [hs.frame d (h.directory_lt hd) hdc hne (h.directory_ne_fat hd)]

theorem slotEdit (hs : AddDirectory v v' p i e name c) (h : v.Intact) :
    SlotEdit v v' p i where
  low := h.slot_ge_two hs.parent hs.slot
  slot := by
    intro d j hd _ hne
    by_cases hdp : d = p
    · subst hdp
      rw [hs.table, Function.update_of_ne (by tauto)]
    · rw [hs.table_of_ne h hd hdp]
  fat := by
    intro d j x _ ho
    have hxc : x ≠ c := by
      rintro rfl
      exact h.fat_ne_empty_of_owns ho hs.wasFree
    rw [hs.fat, Function.update_of_ne hxc]

theorem slot_new (hs : AddDirectory v v' p i e name c) : v'.table p i = e := by
  rw [hs.table, Function.update_self]

theorem subdirEntry_new (hs : AddDirectory v v' p i e name c) (h : v.Intact) :
    v'.SubdirEntry p i := by
  unfold SubdirEntry
  rw [hs.slot_new]
  exact ⟨(hs.slotEdit h).low, hs.entry.occupied, hs.entry.isSubdirectory⟩

/-- The new directory has no entries. -/
theorem not_occupied_new (hs : AddDirectory v v' p i e name c) (hl : v'.Extent c j l) : False :=
  hs.empty j hl.occupied.1 hl.occupied.2

theorem directory_iff (hs : AddDirectory v v' p i e name c) (h : v.Intact) :
    v'.Directory d ↔ v.Directory d ∨ d = c := by
  refine reach_attach hs.parent (child_eq_none_of_not_occupied hs.slot) ?_ ?_ ?_
  · rw [child_eq_some_iff]
    refine ⟨hs.subdirEntry_new h, ?_⟩
    rw [hs.slot_new]
    exact hs.entry.cluster_eq
  · intro j
    exact child_eq_none_iff.mpr fun hsub => hs.empty j hsub.1 hsub.2.1
  · intro a j ha hne
    by_cases hap : a = p
    · subst hap
      refine child_congr ?_
      rw [hs.table, Function.update_of_ne (by tauto)]
    · exact child_congr (congrFun (hs.table_of_ne h ha hap) j)

theorem directory_parent (hs : AddDirectory v v' p i e name c) (h : v.Intact) :
    v'.Directory p :=
  (hs.directory_iff h).mpr (.inl hs.parent)

theorem extent_new (hs : AddDirectory v v' p i e name c) (h : v.Intact) :
    v'.Extent p i [c] := by
  have hx := Extent.subdir (hs.subdirEntry_new h)
  rwa [hs.slot_new, hs.entry.cluster_eq] at hx

theorem ownerAdd (hs : AddDirectory v v' p i e name c) (h : v.Intact) :
    OwnerAdd v v' p i [c] where
  owns := by
    intro d j x
    rcases slot_cases d p j i with hne | ⟨rfl, rfl⟩
    · constructor
      · rintro ⟨hd', m, hm, hx⟩
        rcases (hs.directory_iff h).mp hd' with hd | rfl
        · exact .inl ⟨hd, m, ((hs.slotEdit h).extent_iff h hd hd' hne).mp hm, hx⟩
        · exact (hs.not_occupied_new hm).elim
      · rintro (⟨hd, m, hm, hx⟩ | ⟨rfl, rfl, -⟩)
        · have hd' := (hs.directory_iff h).mpr (.inl hd)
          exact ⟨hd', m, ((hs.slotEdit h).extent_iff h hd hd' hne).mpr hm, hx⟩
        · tauto
    · constructor
      · rintro ⟨-, m, hm, hx⟩
        obtain rfl := hm.unique (hs.extent_new h)
        exact .inr ⟨rfl, rfl, hx⟩
      · rintro (⟨-, m, hm, -⟩ | ⟨-, -, hx⟩)
        · exact absurd hm.occupied.2 hs.slot
        · exact ⟨hs.directory_parent h, [c], hs.extent_new h, hx⟩
  wasFree := by
    intro x hx
    obtain rfl := List.mem_singleton.mp hx
    exact hs.wasFree
  fat := by
    intro x hx
    rw [hs.fat, Function.update_of_ne (by simpa using hx)]

theorem intact (hs : AddDirectory v v' p i e name c) (h : v.Intact) : v'.Intact where
  fat_zero := by
    rw [hs.fat, Function.update_of_ne hs.range.ne_zero.symm]
    exact h.fat_zero
  fat_one := by
    rw [hs.fat, Function.update_of_ne hs.range.ne_fat.symm]
    exact h.fat_one
  -- the parent is marked as before, and the new directory as a directory is
  fat_directory := by
    intro d hd'
    rcases (hs.directory_iff h).mp hd' with hd | rfl
    · have hdc : d ≠ c := by
        rintro rfl
        exact hs.not_directory h hd
      rw [hs.fat, Function.update_of_ne hdc]
      exact h.fat_directory hd
    · rw [hs.fat, Function.update_self]
  -- the tables of the others are as before
  self_entry := by
    intro d hd'
    rcases (hs.directory_iff h).mp hd' with hd | rfl
    · exact (hs.slotEdit h).self_entry h hd hd'
    · rw [hs.self.name_eq]
      exact hs.self
  root_parent := (hs.slotEdit h).root_parent h
  child_linked := by
    intro d j hd' hsub
    rcases slot_cases d p j i with hne | ⟨rfl, rfl⟩
    -- the new table is empty behind its first two slots
    · rcases (hs.directory_iff h).mp hd' with hd | rfl
      · exact (hs.slotEdit h).child_linked h hd hd' hne hsub
      · exact absurd hsub.2.1 (hs.empty j hsub.1)
    -- the new entry leads to the new table, which names it and its parent
    · have hlow := (hs.slotEdit h).low_slot hs.parent hd' (j := 0) (by decide)
      rw [hs.slot_new, hs.entry.cluster_eq]
      refine ⟨hs.range, ?_, ?_, ?_⟩
      · rw [hs.slot_new]
        exact hs.entry.ext_eq
      · rw [hs.slot_new, hs.self.name_eq, hs.entry.name_eq]
      · rw [hlow]
        exact hs.parentEntry
  file_linked := by
    intro d j hd' hfile
    rcases slot_cases d p j i with hne | ⟨rfl, rfl⟩
    · rcases (hs.directory_iff h).mp hd' with hd | rfl
      · exact (hs.slotEdit h).file_linked h hd hd' hne hfile
      · exact absurd hfile.2.1 (hs.empty j hfile.1)
    · exact absurd (hs.subdirEntry_new h).2.2 hfile.2.2
  owner_unique := (hs.ownerAdd h).owner_unique h

theorem wellFormed (hs : AddDirectory v v' p i e name c) (h : v.WellFormed) :
    v'.WellFormed where
  toIntact := hs.intact h.toIntact
  free := (hs.ownerAdd h.toIntact).free h

end AddDirectory

/-! ### Removing a file -/

namespace RemoveFile

theorem owns_iff (hs : RemoveFile v v' p i e l) : v.Owns p i c ↔ c ∈ l := by
  have hl : v.Extent p i l := .file hs.entry hs.walk
  constructor
  · rintro ⟨-, m, hm, hc⟩
    obtain rfl := hm.unique hl
    exact hc
  · intro hc
    exact ⟨hs.parent, l, hl, hc⟩

theorem fat_of_not_owns (hs : RemoveFile v v' p i e l) (ho : ¬ v.Owns p i c) :
    v'.fat c = v.fat c := by
  rw [hs.fat, if_neg fun hc => ho (hs.owns_iff.mpr hc)]

/-- The chain of a file contains no directory. -/
theorem directory_not_owned (hs : RemoveFile v v' p i e l) (h : v.Intact)
    (hd : v.Directory d) : ¬ v.Owns p i d := by
  intro ho
  obtain ⟨a, j, ha, hsub, hc⟩ := exists_parent hd (h.owned_range ho).ne_root
  obtain ⟨rfl, rfl⟩ := h.owner_unique ho
    ⟨ha, _, .subdir hsub, List.mem_singleton.mpr hc.symm⟩
  exact hs.entry.2.2 hsub.2.2

theorem table_of_ne (hs : RemoveFile v v' p i e l) (h : v.Intact) (hd : v.Directory d)
    (hne : d ≠ p) : v'.table d = v.table d := by
  have hdl : d ∉ l := fun hdl => hs.directory_not_owned h hd (hs.owns_iff.mpr hdl)
  unfold Volume.table
  rw [hs.frame d (h.directory_lt hd) hdl hne (h.directory_ne_fat hd)]

theorem slotEdit (hs : RemoveFile v v' p i e l) (h : v.Intact) : SlotEdit v v' p i where
  low := hs.entry.1
  slot := by
    intro d j hd _ hne
    by_cases hdp : d = p
    · subst hdp
      rw [hs.table, Function.update_of_ne (by tauto)]
    · rw [hs.table_of_ne h hd hdp]
  fat := by
    intro d j c hne ho
    refine hs.fat_of_not_owns fun ho' => ?_
    obtain ⟨rfl, rfl⟩ := h.owner_unique ho ho'
    tauto

theorem not_occupied_new (hs : RemoveFile v v' p i e l) : ¬ (v'.table p i).Occupied := by
  rw [hs.table, Function.update_self]
  exact hs.released

theorem child_eq (hs : RemoveFile v v' p i e l) (h : v.Intact) (hd : v.Directory d) :
    v'.child d = v.child d := by
  funext j
  by_cases hdp : d = p
  · subst hdp
    by_cases hji : j = i
    · subst hji
      rw [child_eq_none_of_not_occupied hs.not_occupied_new, eq_comm, child_eq_none_iff]
      exact fun hsub => hs.entry.2.2 hsub.2.2
    · refine child_congr ?_
      rw [hs.table, Function.update_of_ne hji]
  · exact child_congr (congrFun (hs.table_of_ne h hd hdp) j)

theorem directory_iff (hs : RemoveFile v v' p i e l) (h : v.Intact) :
    v'.Directory d ↔ v.Directory d :=
  reach_congr fun _ hd => hs.child_eq h hd

theorem ownerRemove (hs : RemoveFile v v' p i e l) (h : v.Intact) :
    OwnerRemove v v' p i where
  owns := by
    intro d j c
    rcases slot_cases d p j i with hne | ⟨rfl, rfl⟩
    · constructor
      · rintro ⟨hd', m, hm, hc⟩
        have hd := (hs.directory_iff h).mp hd'
        exact ⟨⟨hd, m, ((hs.slotEdit h).extent_iff h hd hd' hne).mp hm, hc⟩, by tauto⟩
      · rintro ⟨⟨hd, m, hm, hc⟩, -⟩
        have hd' := (hs.directory_iff h).mpr hd
        exact ⟨hd', m, ((hs.slotEdit h).extent_iff h hd hd' hne).mpr hm, hc⟩
    · constructor
      · rintro ⟨-, m, hm, -⟩
        exact absurd hm.occupied.2 hs.not_occupied_new
      · rintro ⟨-, hcon⟩
        exact absurd ⟨rfl, rfl⟩ hcon
  freed := by
    intro c ho
    rw [hs.fat, if_pos (hs.owns_iff.mp ho)]
  fat := fun c ho => hs.fat_of_not_owns ho

theorem intact (hs : RemoveFile v v' p i e l) (h : v.Intact) : v'.Intact where
  fat_zero := by
    rw [hs.fat_of_not_owns fun ho => (h.owned_range ho).ne_zero rfl]
    exact h.fat_zero
  fat_one := by
    rw [hs.fat_of_not_owns fun ho => (h.owned_range ho).ne_fat rfl]
    exact h.fat_one
  fat_directory := by
    intro d hd'
    have hd := (hs.directory_iff h).mp hd'
    rw [hs.fat_of_not_owns (hs.directory_not_owned h hd)]
    exact h.fat_directory hd
  self_entry := fun hd' => (hs.slotEdit h).self_entry h ((hs.directory_iff h).mp hd') hd'
  root_parent := (hs.slotEdit h).root_parent h
  child_linked := by
    intro d j hd' hsub
    rcases slot_cases d p j i with hne | ⟨rfl, rfl⟩
    · exact (hs.slotEdit h).child_linked h ((hs.directory_iff h).mp hd') hd' hne hsub
    · exact absurd hsub.2.1 hs.not_occupied_new
  file_linked := by
    intro d j hd' hfile
    rcases slot_cases d p j i with hne | ⟨rfl, rfl⟩
    · exact (hs.slotEdit h).file_linked h ((hs.directory_iff h).mp hd') hd' hne hfile
    · exact absurd hfile.2.1 hs.not_occupied_new
  owner_unique := (hs.ownerRemove h).owner_unique h

theorem wellFormed (hs : RemoveFile v v' p i e l) (h : v.WellFormed) :
    v'.WellFormed where
  toIntact := hs.intact h.toIntact
  free := (hs.ownerRemove h.toIntact).free h

end RemoveFile

/-! ### Removing a directory -/

namespace UnlinkDirectory

theorem child_edge (hs : UnlinkDirectory v v' p i e c) : v.child p i = some c :=
  child_eq_some_iff.mpr ⟨hs.entry, hs.cluster⟩

theorem directory_victim (hs : UnlinkDirectory v v' p i e c) : v.Directory c :=
  .child hs.parent hs.child_edge

theorem range (hs : UnlinkDirectory v v' p i e c) (h : v.Intact) : DataCluster c := by
  have hl := (h.child_linked hs.parent hs.entry).range
  rwa [hs.cluster] at hl

theorem owns_iff (hs : UnlinkDirectory v v' p i e c) : v.Owns p i d ↔ d = c := by
  have hl : v.Extent p i [c] := hs.cluster ▸ .subdir hs.entry
  constructor
  · rintro ⟨-, m, hm, hd⟩
    obtain rfl := hm.unique hl
    exact List.mem_singleton.mp hd
  · rintro rfl
    exact ⟨hs.parent, _, hl, List.mem_singleton.mpr rfl⟩

theorem fat_of_ne (hs : UnlinkDirectory v v' p i e c) (hd : d ≠ c) : v'.fat d = v.fat d := by
  rw [hs.fat, Function.update_of_ne hd]

/-- A directory is not its own parent. -/
theorem parent_ne (hs : UnlinkDirectory v v' p i e c) (h : v.Intact) : p ≠ c := by
  rintro rfl
  exact h.child_ne_self hs.parent hs.child_edge

theorem table_of_ne (hs : UnlinkDirectory v v' p i e c) (h : v.Intact)
    (hd : v.Directory d) (hdc : d ≠ c) (hne : d ≠ p) : v'.table d = v.table d := by
  unfold Volume.table
  rw [hs.frame d (h.directory_lt hd) hdc hne (h.directory_ne_fat hd)]

theorem not_occupied_new (hs : UnlinkDirectory v v' p i e c) : ¬ (v'.table p i).Occupied := by
  rw [hs.table, Function.update_self]
  exact hs.released

theorem child_eq (hs : UnlinkDirectory v v' p i e c) (h : v.Intact) (hd : v.Directory d)
    (hdc : d ≠ c) (hne : d ≠ p ∨ j ≠ i) : v'.child d j = v.child d j := by
  by_cases hdp : d = p
  · subst hdp
    refine child_congr ?_
    rw [hs.table, Function.update_of_ne (by tauto)]
  · exact child_congr (congrFun (hs.table_of_ne h hd hdc hdp) j)

theorem directory_of (hs : UnlinkDirectory v v' p i e c) (h : v.Intact) (hd : v'.Directory d) :
    v.Directory d ∧ d ≠ c := by
  refine reach_unlink (hs.range h).ne_root
    (child_eq_none_of_not_occupied hs.not_occupied_new) ?_ ?_ hd
  · intro a j ha he
    exact h.child_unique ha hs.parent he hs.child_edge
  · exact fun a j ha hac hne => hs.child_eq h ha hac hne

theorem slotEdit (hs : UnlinkDirectory v v' p i e c) (h : v.Intact) :
    SlotEdit v v' p i where
  low := hs.entry.1
  slot := by
    intro d j hd hd' hne
    by_cases hdp : d = p
    · subst hdp
      rw [hs.table, Function.update_of_ne (by tauto)]
    · rw [hs.table_of_ne h hd (hs.directory_of h hd').2 hdp]
  fat := by
    intro d j x hne ho
    refine hs.fat_of_ne ?_
    rintro rfl
    obtain ⟨rfl, rfl⟩ := h.owner_unique ho (hs.owns_iff.mpr rfl)
    tauto

/-- No slot gets clusters. -/
theorem owns_of (hs : UnlinkDirectory v v' p i e c) (h : v.Intact) (ho : v'.Owns d j b) :
    v.Owns d j b := by
  obtain ⟨hd', m, hm, hb⟩ := ho
  rcases slot_cases d p j i with hne | ⟨rfl, rfl⟩
  · have hd := (hs.directory_of h hd').1
    exact ⟨hd, m, ((hs.slotEdit h).extent_iff h hd hd' hne).mp hm, hb⟩
  · exact absurd hm.occupied.2 hs.not_occupied_new

theorem intact (hs : UnlinkDirectory v v' p i e c) (h : v.Intact) : v'.Intact where
  fat_zero := by
    rw [hs.fat_of_ne (hs.range h).ne_zero.symm]
    exact h.fat_zero
  fat_one := by
    rw [hs.fat_of_ne (hs.range h).ne_fat.symm]
    exact h.fat_one
  fat_directory := by
    intro d hd'
    obtain ⟨hd, hdc⟩ := hs.directory_of h hd'
    rw [hs.fat_of_ne hdc]
    exact h.fat_directory hd
  self_entry := fun hd' => (hs.slotEdit h).self_entry h (hs.directory_of h hd').1 hd'
  root_parent := (hs.slotEdit h).root_parent h
  child_linked := by
    intro d j hd' hsub
    rcases slot_cases d p j i with hne | ⟨rfl, rfl⟩
    · exact (hs.slotEdit h).child_linked h (hs.directory_of h hd').1 hd' hne hsub
    · exact absurd hsub.2.1 hs.not_occupied_new
  file_linked := by
    intro d j hd' hfile
    rcases slot_cases d p j i with hne | ⟨rfl, rfl⟩
    · exact (hs.slotEdit h).file_linked h (hs.directory_of h hd').1 hd' hne hfile
    · exact absurd hfile.2.1 hs.not_occupied_new
  owner_unique := by
    intro d j d' j' x h₁ h₂
    exact h.owner_unique (hs.owns_of h h₁) (hs.owns_of h h₂)

end UnlinkDirectory

namespace RemoveDirectory

theorem directory_iff (hs : RemoveDirectory v v' p i e c) (h : v.Intact) :
    v'.Directory d ↔ v.Directory d ∧ d ≠ c := by
  refine reach_detach (hs.range h).ne_root ?_ hs.child_edge
    (child_eq_none_of_not_occupied hs.not_occupied_new) ?_ ?_
  · intro j
    exact child_eq_none_iff.mpr fun hsub => hs.empty j hsub.1 hsub.2.1
  · intro a j ha he
    exact h.child_unique ha hs.parent he hs.child_edge
  · exact fun a j ha hac hne => hs.child_eq h ha hac hne

theorem ownerRemove (hs : RemoveDirectory v v' p i e c) (h : v.Intact) :
    OwnerRemove v v' p i where
  owns := by
    intro d j x
    rcases slot_cases d p j i with hne | ⟨rfl, rfl⟩
    · constructor
      · intro ho
        exact ⟨hs.owns_of h ho, by tauto⟩
      · rintro ⟨⟨hd, m, hm, hx⟩, -⟩
        have hdc : d ≠ c := by
          rintro rfl
          exact hs.empty j hm.occupied.1 hm.occupied.2
        have hd' := (hs.directory_iff h).mpr ⟨hd, hdc⟩
        exact ⟨hd', m, ((hs.slotEdit h).extent_iff h hd hd' hne).mpr hm, hx⟩
    · constructor
      · rintro ⟨-, m, hm, -⟩
        exact absurd hm.occupied.2 hs.not_occupied_new
      · rintro ⟨-, hcon⟩
        exact absurd ⟨rfl, rfl⟩ hcon
  freed := by
    intro x ho
    rw [hs.owns_iff.mp ho, hs.fat, Function.update_self]
  fat := fun x ho => hs.fat_of_ne fun hx => ho (hs.owns_iff.mpr hx)

theorem wellFormed (hs : RemoveDirectory v v' p i e c) (h : v.WellFormed) :
    v'.WellFormed where
  toIntact := hs.intact h.toIntact
  free := (hs.ownerRemove h.toIntact).free h

end RemoveDirectory

/-! ### Every step -/

/-- **Every step of the abstract file system keeps the invariant.** -/
theorem VolumeStep.wellFormed (hs : VolumeStep v v') (h : v.WellFormed) : v'.WellFormed := by
  cases hs with
  | addFile hs => exact hs.wellFormed h
  | addDirectory hs => exact hs.wellFormed h
  | removeFile hs => exact hs.wellFormed h
  | removeDirectory hs => exact hs.wellFormed h

end Binbows
