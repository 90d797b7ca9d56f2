/-
Binbows/EntryKeys.lean

The keys of directory entries: name and extension.

`write` compares a new file with every entry in use, but a new directory with
the directories only, and it stores a directory with extension zero.  So a
directory may come to stand beside a file with its name and extension zero; the
other way round the file is rejected.

A deletion by way of slot 1, the parent entry, is the other way to lose the law.
It frees the parent while the parent still hangs in the tree, so that the data
of a later file becomes its table.  Every other deletion, also one that strands
a child, keeps the volume intact.

Main result: `entry_keys_unique`.
-/
import Binbows.FileSystemRuns

namespace Binbows

open Chain SlotTree Volume Run

variable {v v' : Volume} {d p c : BitVec 32} {i j : Fin directoryEntryCount}
  {l : List (BitVec 32)} {e : FAT32DirectoryEntry} {name : EntryName}
  {Q : FAT32DirectoryEntry → Prop}

/-! ### Keys among the slots of one kind -/

/-- No two slots of a directory whose entries satisfy `Q` carry the same key. -/
def Volume.UniqueSlots (v : Volume) (Q : FAT32DirectoryEntry → Prop) : Prop :=
  ∀ ⦃d⦄ ⦃i j : Fin directoryEntryCount⦄, v.Directory d → 2 ≤ i.val → 2 ≤ j.val →
    Q (v.table d i) → Q (v.table d j) → (v.table d i).name = (v.table d j).name →
    (v.table d i).ext = (v.table d j).ext → i = j

/-- The edited slot is compared with the old ones of its directory. -/
theorem SlotEdit.uniqueSlots (hu : SlotEdit v v' p i) (hq : v.UniqueSlots Q)
    (hdir : ∀ {d}, v'.Directory d →
      v.Directory d ∨ ∀ j : Fin directoryEntryCount, 2 ≤ j.val → ¬ Q (v'.table d j))
    (hnew : Q (v'.table p i) → ∀ j : Fin directoryEntryCount, 2 ≤ j.val → Q (v.table p j) →
      (v.table p j).name = (v'.table p i).name → (v.table p j).ext ≠ (v'.table p i).ext) :
    v'.UniqueSlots Q := by
  intro d j k hd' hj hk hqj hqk hn hx
  rcases hdir hd' with hd | hno
  · rcases slot_cases d p j i with hjne | ⟨rfl, rfl⟩
    · rw [hu.slot hd hd' hjne] at hqj hn hx
      rcases slot_cases d p k i with hkne | ⟨rfl, rfl⟩
      · rw [hu.slot hd hd' hkne] at hqk hn hx
        exact hq hd hj hk hqj hqk hn hx
      · exact absurd hx (hnew hqk j hj hqj hn)
    · rcases slot_cases d d k j with hkne | ⟨-, rfl⟩
      · rw [hu.slot hd hd' hkne] at hqk hn hx
        exact absurd hx.symm (hnew hqj k hk hqk hn.symm)
      · rfl
  · exact absurd hqj (hno j hj)

section

variable (hocc : ∀ e, Q e → e.Occupied) (h : v.Intact) (hq : v.UniqueSlots Q)

include hocc h hq

/-- A file has passed the check against all slots in use. -/
theorem AddFile.uniqueSlots (hs : AddFile v v' p i e l) : v'.UniqueSlots Q := by
  refine (hs.slotEdit h).uniqueSlots hq (fun hd => .inl ((hs.directory_iff h).mp hd)) ?_
  intro _ j _ hqj hn
  rw [hs.slot_new] at hn ⊢
  exact hs.fresh j (hocc _ hqj) hn

theorem AddDirectory.uniqueSlots (hs : AddDirectory v v' p i e name c)
    (hfresh : Q e → ∀ j : Fin directoryEntryCount, 2 ≤ j.val → Q (v.table p j) →
      (v.table p j).name = e.name → (v.table p j).ext ≠ e.ext) : v'.UniqueSlots Q := by
  refine (hs.slotEdit h).uniqueSlots hq (fun hd => ?_) ?_
  · refine ((hs.directory_iff h).mp hd).imp id ?_
    rintro rfl j hj hqj
    exact hs.empty j hj (hocc _ hqj)
  · rw [hs.slot_new]
    exact hfresh

theorem RemoveFile.uniqueSlots (hs : RemoveFile v v' p i e l) : v'.UniqueSlots Q := by
  refine (hs.slotEdit h).uniqueSlots hq (fun hd => .inl ((hs.directory_iff h).mp hd)) ?_
  exact fun hqi => absurd (hocc _ hqi) hs.not_occupied_new

theorem UnlinkDirectory.uniqueSlots (hs : UnlinkDirectory v v' p i e c) :
    v'.UniqueSlots Q := by
  refine (hs.slotEdit h).uniqueSlots hq (fun hd => .inl (hs.directory_of h hd).1) ?_
  exact fun hqi => absurd (hocc _ hqi) hs.not_occupied_new

end

/-! ### Keys of all entries -/

/-- No two entries of a directory carry the same key. -/
def Volume.UniqueKeys (v : Volume) : Prop :=
  ∀ ⦃d⦄ ⦃i j : Fin directoryEntryCount⦄, v.Directory d → 2 ≤ i.val → 2 ≤ j.val →
    (v.table d i).Occupied → (v.table d j).Occupied →
    (v.table d i).name = (v.table d j).name → (v.table d i).ext = (v.table d j).ext → i = j

/-- A file with the name of the new directory and extension zero. -/
def Volume.Shadowed (v : Volume) (p : BitVec 32) (name : EntryName) : Prop :=
  ∃ j, v.FileEntry p j ∧ (v.table p j).name = name ∧ (v.table p j).ext = 0

/-- A new directory keeps the keys unique exactly if no file has its key. -/
theorem AddDirectory.uniqueKeys_iff (hs : AddDirectory v v' p i e name c) (h : v.Intact)
    (hq : v.UniqueKeys) : v'.UniqueKeys ↔ ¬ v.Shadowed p name := by
  constructor
  · rintro hq' ⟨j, hj, hn, hx⟩
    have hji : j ≠ i := by
      rintro rfl
      exact hs.slot hj.2.1
    have hp' := hs.directory_parent h
    have hold := (hs.slotEdit h).slot hs.parent hp' (.inr hji)
    refine hji (hq' hp' hj.1 (hs.slotEdit h).low ?_ ?_ ?_ ?_)
    · rw [hold]
      exact hj.2.1
    · exact (hs.subdirEntry_new h).2.1
    · rw [hold, hs.slot_new, hn, hs.entry.name_eq]
    · rw [hold, hs.slot_new, hx, hs.entry.ext_eq]
  · intro hno
    refine hs.uniqueSlots (fun _ ho => ho) h hq fun _ j hj ho hn hx => hno ⟨j, ⟨hj, ho, ?_⟩, ?_, ?_⟩
    · intro hsub
      exact hs.fresh j ho hsub (hn.trans hs.entry.name_eq)
    · exact hn.trans hs.entry.name_eq
    · exact hx.trans hs.entry.ext_eq

/-! ### One request -/

variable {s s' s₀ : FsState} {r : Reply} {request : FAT32DriverRequest} {mem : Memory}

/-- A new directory that passes the checks of `write` although a file has its
key. -/
def ShadowsFile (s : FsState) (request : FAT32DriverRequest) : Prop :=
  request.bufferSize = 0 ∧
    s.volume.Shadowed request.parentClusterNumber request.name ∧
    writeScan request (s.volume.table request.parentClusterNumber)
      (List.finRange directoryEntryCount) false = some true ∧
    neededSize request.bufferSize ≤ availableSize s.clusterMap

/-- A deletion that finds the parent entry, and the parent without an entry
from slot 3 on. -/
def RemovesParent (s : FsState) (request : FAT32DriverRequest) : Prop :=
  deleteMatch request (s.volume.table request.parentClusterNumber) = some 1 ∧
    notEmpty (s.volume.table (s.volume.table request.parentClusterNumber 1).cluster) = false

/-- Requests below directories, but for the two that break the law. -/
def KeepsKeys (s : FsState) (c : FsCall) : Prop :=
  OnDirectory s c ∧ (c.op = .write → ¬ ShadowsFile s c.request) ∧
    (c.op = .delete → ¬ RemovesParent s c.request)

theorem write_keys (h : s.volume.Intact) (hq : s.volume.UniqueKeys)
    (hp : s.volume.Directory request.parentClusterNumber) (hr : write request mem s = .ok r) :
    (r.fs.volume.UniqueKeys ↔ ¬ ShadowsFile s request) ∧ r.fs.volume.Intact := by
  obtain ⟨r', hr', hcases⟩ := write_refines mem h hp
  obtain rfl : r = r' := Except.ok.inj (hr.symm.trans hr')
  rcases hcases with hquiet | ⟨hret, -, hsize, i, e, c, hs, -⟩ | ⟨-, -, hsize, i, e, l, hs, -⟩
  · have hsame : SameDisk s r.fs := ⟨hquiet.2.clusterMap, hquiet.2.disk⟩
    rw [hsame.volume_eq]
    refine ⟨iff_of_true hq ?_, h⟩
    -- the checks do not pass
    rintro ⟨-, -, hscan, hav⟩
    rw [write_eq, parentCheck_directory h hp, hscan] at hr
    dsimp only at hr
    rw [if_neg (not_lt.mpr hav)] at hr
    cases hr
    exact hquiet.1 rfl
  · refine ⟨(hs.uniqueKeys_iff h hq).trans (not_congr ?_), hs.intact h⟩
    constructor
    · intro hshadow
      rcases write_cases hr with ⟨hne, -⟩ | hw
      · exact absurd hret hne
      · exact ⟨hsize, hshadow, hw.scan, hw.available⟩
    · exact fun hshadow => hshadow.2.1
  · refine ⟨iff_of_true (hs.uniqueSlots (fun _ ho => ho) h hq) ?_, hs.intact h⟩
    exact fun hshadow => hsize hshadow.1

theorem delete_keys (h : s.volume.Intact) (hq : s.volume.UniqueKeys)
    (hp : s.volume.Directory request.parentClusterNumber) (hno : ¬ RemovesParent s request)
    (hr : delete request mem s = .ok r) : r.fs.volume.UniqueKeys ∧ r.fs.volume.Intact := by
  obtain ⟨r', hr', hcases⟩ := delete_outcome mem h hp
  obtain rfl : r = r' := Except.ok.inj (hr.symm.trans hr')
  rcases hcases with hquiet | ⟨-, -, i, hm, ⟨e, l, hs⟩ | ⟨h0, -, hne, hunlink⟩⟩
  · have hsame : SameDisk s r.fs := ⟨hquiet.2.clusterMap, hquiet.2.disk⟩
    rw [hsame.volume_eq]
    exact ⟨hq, h⟩
  · exact ⟨hs.uniqueSlots (fun _ ho => ho) h hq, hs.intact h⟩
  · have hi : 2 ≤ i.val := by
      by_contra hlt
      have hzero : i.val ≠ 0 := fun hi => h0 (Fin.ext hi)
      obtain rfl : i = 1 := Fin.ext (show i.val = 1 by omega)
      exact hno ⟨hm, notEmpty_eq_false_iff.mpr hne⟩
    obtain ⟨e, hs⟩ := hunlink hi
    exact ⟨hs.uniqueSlots (fun _ ho => ho) h hq, hs.intact h⟩

theorem exec_keys {c : FsCall} (h : s.volume.Intact) (hq : s.volume.UniqueKeys)
    (hc : KeepsKeys s c) (hr : c.exec s = .ok r) :
    r.fs.volume.UniqueKeys ∧ r.fs.volume.Intact := by
  rcases c with ⟨op, request, mem⟩
  obtain ⟨hp, hwrite, hdelete⟩ := hc
  cases op with
  | read =>
      rw [(read_fs hr).1.volume_eq]
      exact ⟨hq, h⟩
  | readDirectory =>
      rw [(readDirectory_fs hr).1.volume_eq]
      exact ⟨hq, h⟩
  | write =>
      obtain ⟨hiff, hintact⟩ := write_keys h hq hp hr
      exact ⟨hiff.mpr (hwrite rfl), hintact⟩
  | delete => exact delete_keys h hq hp (hdelete rfl) hr

/-! ### Runs -/

theorem createFat32_uniqueKeys (s : FsState) : (createFat32 s).volume.UniqueKeys := by
  intro d i j hd hi _ ho
  obtain rfl := createFat32_directory_iff.mp hd
  exact absurd ho (createFat32_not_occupied hi)

/-- **Entry keys.**  In every run of requests below directories that makes no
directory beside a file of its key and deletes no parent entry, the keys of
every directory are unique; and the next `write` keeps them so exactly if it is
not such a directory. -/
theorem entry_keys_unique (h : Reaches FsState.step KeepsKeys (createFat32 s₀) s) :
    s.volume.UniqueKeys ∧ ∀ request mem r, s.volume.Directory request.parentClusterNumber →
      write request mem s = .ok r → (r.fs.volume.UniqueKeys ↔ ¬ ShadowsFile s request) := by
  obtain ⟨hq, hintact⟩ : s.volume.UniqueKeys ∧ s.volume.Intact := by
    refine h.invariant (I := fun s => s.volume.UniqueKeys ∧ s.volume.Intact)
      ⟨createFat32_uniqueKeys s₀, (createFat32_wellFormed s₀).toIntact⟩ ?_
    intro s c s' ⟨hq, hintact⟩ hc hstep
    obtain ⟨r, hr, rfl⟩ := step_eq_some.mp hstep
    exact exec_keys hintact hq hc hr
  exact ⟨hq, fun request mem r hp hr => (write_keys hintact hq hp hr).1⟩

/-- The folder `a` with the files `b` and `c`, and then a folder in the place of `b`. -/
def twoFiles : FsState := oneFile.after (makeFile 3 'c')

def oneDeleted : FsState := twoFiles.after (remove 3 'b')

def folderInstead : FsState := oneDeleted.after (makeFolder 3 'b')

theorem keepsKeys_makeFile {ch : Char} (h : s.volume.Directory 3) :
    KeepsKeys s (makeFile 3 ch) := by
  have hsize : (makeFile 3 ch).request.bufferSize = 1 := rfl
  refine ⟨h, fun _ hshadows => ?_, fun hop => by cases hop⟩
  exact absurd (hsize.symm.trans hshadows.1) (by decide)

/-- The run writes two files, deletes one and makes a folder of its name. -/
theorem folderInstead_reaches :
    Reaches FsState.step KeepsKeys (createFat32 .blank) folderInstead := by
  have hroot : KeepsKeys (createFat32 .blank) (makeFolder rootClusterNumber 'a') := by
    refine ⟨.root, fun _ => ?_, fun h => by cases h⟩
    rintro ⟨-, ⟨j, hj, -⟩, -⟩
    exact createFat32_not_occupied hj.1 hj.2.1
  have hdelete : KeepsKeys twoFiles (remove 3 'b') := by
    refine ⟨.child .root (i := 2) (by decide +kernel), fun h => absurd h (by decide),
      fun _ h => ?_⟩
    exact absurd h.1 (by decide +kernel)
  have hfolder : KeepsKeys oneDeleted (makeFolder 3 'b') := by
    refine ⟨.child .root (i := 2) (by decide +kernel), fun _ h => ?_, fun h => by cases h⟩
    have hgone : ∀ j, oneDeleted.volume.FileEntry 3 j →
        (oneDeleted.volume.table 3 j).name ≠ letterName 'b' := by decide +kernel
    obtain ⟨j, hj, hname, -⟩ := h.2.1
    exact hgone j hj hname
  have h₁ := Reaches.snoc (i := makeFile 3 'b') (oneFolder_reaches hroot)
    (keepsKeys_makeFile oneFolder_directory) oneFile_step
  have h₂ := Reaches.snoc (i := makeFile 3 'c') h₁
    (keepsKeys_makeFile (.child .root (i := 2) (by decide +kernel)))
    (step_after (n := 0) (by decide +kernel))
  have h₃ := Reaches.snoc (i := remove 3 'b') h₂ hdelete (step_after (n := 0) (by decide +kernel))
  exact Reaches.snoc (i := makeFolder 3 'b') h₃ hfolder (step_after (n := 0) (by decide +kernel))

/-- In the end the folder `b` and the file `c` are there. -/
theorem entry_keys_unique_folderInstead :
    folderInstead.volume.SubdirEntry 3 2 ∧ folderInstead.volume.FileEntry 3 3 ∧
      folderInstead.volume.UniqueKeys :=
  ⟨by decide +kernel, by decide +kernel, (entry_keys_unique folderInstead_reaches).1⟩

/-- A file `a` with extension zero, and then a folder `a` beside it. -/
theorem entry_keys_not_unique :
    ¬ ∀ s₀ s : FsState, Reaches FsState.step OnDirectory (createFat32 s₀) s →
      s.volume.UniqueKeys := by
  intro h
  obtain ⟨s₁, hs₁⟩ : ∃ s₁, s₁ = (createFat32 .blank).after (makeFile rootClusterNumber 'a') :=
    ⟨_, rfl⟩
  obtain ⟨s₂, hs₂⟩ : ∃ s₂, s₂ = s₁.after (makeFolder rootClusterNumber 'a') := ⟨_, rfl⟩
  have hstep₁ : (createFat32 .blank).step (makeFile rootClusterNumber 'a') = some s₁ := by
    rw [hs₁]
    exact step_after (n := 0) (by decide +kernel)
  have hstep₂ : s₁.step (makeFolder rootClusterNumber 'a') = some s₂ := by
    rw [hs₂]
    refine step_after (n := 0) ?_
    rw [hs₁]
    decide +kernel
  have hrun : Reaches FsState.step OnDirectory (createFat32 .blank) s₂ :=
    Reaches.snoc (i := makeFolder rootClusterNumber 'a')
      (Reaches.snoc (i := makeFile rootClusterNumber 'a') .refl .root hstep₁) .root hstep₂
  have hslots : (s₂.volume.table 2 2).Occupied ∧ (s₂.volume.table 2 3).Occupied ∧
      (s₂.volume.table 2 2).name = (s₂.volume.table 2 3).name ∧
      (s₂.volume.table 2 2).ext = (s₂.volume.table 2 3).ext := by
    rw [hs₂, hs₁]
    decide +kernel
  obtain ⟨ho, ho', hn, hx⟩ := hslots
  have hij := h .blank s₂ hrun .root (by decide) (by decide) ho ho' hn hx
  exact absurd hij (by decide)

/-- A file of one byte whose cluster, taken for a table, has two entries with
the key zero. -/
def forgedTable : FsCall :=
  ⟨.write, ⟨0, letterName 'f', 0, rootClusterNumber, 1⟩,
    fun a => if a = 76 ∨ a = 108 then uattrNotEmpty else 0⟩

/-- Folder `b` in folder `a`, in cluster 3; then `a` is deleted by way of its
entry in `b`, and the next file gets its cluster. -/
theorem parent_removal_not_unique :
    ∃ s₁ s₂ s₃ : FsState, oneFolder.step (makeFolder 3 'b') = some s₁ ∧
      s₁.step (remove 4 'a') = some s₂ ∧ s₂.step forgedTable = some s₃ ∧
      ¬ s₃.volume.UniqueKeys := by
  obtain ⟨s₁, hs₁⟩ : ∃ s₁, s₁ = oneFolder.after (makeFolder 3 'b') := ⟨_, rfl⟩
  obtain ⟨s₂, hs₂⟩ : ∃ s₂, s₂ = s₁.after (remove 4 'a') := ⟨_, rfl⟩
  obtain ⟨s₃, hs₃⟩ : ∃ s₃, s₃ = s₂.after forgedTable := ⟨_, rfl⟩
  have hfacts : s₃.volume.SubdirEntry 2 2 ∧ (s₃.volume.table 2 2).cluster = 3 ∧
      (s₃.volume.table 3 2).Occupied ∧ (s₃.volume.table 3 3).Occupied ∧
      (s₃.volume.table 3 2).name = (s₃.volume.table 3 3).name ∧
      (s₃.volume.table 3 2).ext = (s₃.volume.table 3 3).ext := by
    rw [hs₃, hs₂, hs₁]
    decide +kernel
  refine ⟨s₁, s₂, s₃, ?_, ?_, ?_, fun hq => ?_⟩
  · rw [hs₁]
    exact step_after (n := 0) (by decide +kernel)
  · rw [hs₂]
    refine step_after (n := 0) ?_
    rw [hs₁]
    decide +kernel
  · rw [hs₃]
    refine step_after (n := 0) ?_
    rw [hs₂, hs₁]
    decide +kernel
  · obtain ⟨hsub, hc, ho, ho', hn, hx⟩ := hfacts
    have hdir : s₃.volume.Directory 3 := .child .root (child_eq_some_iff.mpr ⟨hsub, hc⟩)
    exact absurd (hq hdir (by decide) (by decide) ho ho' hn hx) (by decide)

end Binbows
