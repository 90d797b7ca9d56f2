/-
Binbows/FileSystemRuns.lean

Whole runs of the file system.

A run starts with a formatted disk and makes one request after the other; its
guard says which requests are allowed in which state.  As long as the parents
are directories and no deletion hits the layout of `StrandsOnlyChild`, the
volume stays well formed (`Reaches.wellFormed`) and every request returns
(`exec_refines`).

Main results:

* `exec_traceless`: on any state whatever, a request that fails leaves no trace;
* `volume_wellFormed`: files come and go, folders only come, and the volume
  stays a tree of directories with disjoint chains;
* `delete_safe_iff`: the deletion of a folder is safe exactly outside the
  layout of `StrandsOnlyChild`;
* `parent_rejected_iff`: which of the numbers that are no directory are
  rejected as parents.
-/
import Binbows.Library.Run
import Binbows.Fat32Refines
import Mathlib.Data.Set.Finite.Basic
import Mathlib.Data.Set.Finite.Range

namespace Binbows

open Chain SlotTree Volume Run

variable {request : FAT32DriverRequest} {mem : Memory} {s s' s₀ : FsState} {r : Reply} {c : FsCall}
  {p : BitVec 32} {i : Fin directoryEntryCount}

/-! ### One request -/

/-- The state after a request that returns. -/
def FsState.step (s : FsState) (c : FsCall) : Option FsState :=
  match c.exec s with
  | .ok r => some r.fs
  | .error _ => none

theorem step_eq_some : s.step c = some s' ↔ ∃ r, c.exec s = .ok r ∧ r.fs = s' := by
  unfold FsState.step
  cases c.exec s with
  | error e => simp
  | ok r => simp

/-- The parent of the request is a directory of the tree. -/
def OnDirectory (s : FsState) (c : FsCall) : Prop :=
  s.volume.Directory c.request.parentClusterNumber

/-- The request is no deletion that strands an only child. -/
def SafeDelete (s : FsState) (c : FsCall) : Prop :=
  c.op = .delete → ¬ s.volume.StrandsOnlyChild c.request

theorem readDirectory_total (mem : Memory) (hp : request.parentClusterNumber.toNat < clusterMapSize) :
    ∃ r, readDirectory request mem s = .ok r := by
  unfold readDirectory
  rw [parentCheck_of_lt hp]
  split_ifs <;> exact ⟨_, rfl⟩

/-- The chains of the files in the directory that the request names end. -/
def ChainsEnd (s : FsState) (request : FAT32DriverRequest) : Prop :=
  ∀ i, (s.volume.table request.parentClusterNumber i).Occupied →
    ¬ (s.volume.table request.parentClusterNumber i).IsSubdirectory →
    ∃ l, Walk s.clusterMap.view fat32FatEndOfFile
        (s.volume.table request.parentClusterNumber i).cluster l ∧
      ∀ b ∈ l, b.toNat < clusterMapSize

theorem read_total (mem : Memory)
    (hp : request.parentClusterNumber.toNat < clusterMapSize)
    (hchains : ChainsEnd s request) : ∃ r, read request mem s = .ok r := by
  rw [read_eq, parentCheck_of_lt hp]
  split_ifs
  · cases hm : readMatch request (s.volume.table request.parentClusterNumber) with
    | none => exact ⟨_, rfl⟩
    | some i =>
        obtain ⟨ho, hs, -⟩ := readMatch_eq_some hm
        obtain ⟨l, hw, hr⟩ := hchains i ho hs
        exact ⟨_, readFound_of_walk hw hr⟩
  · exact ⟨_, rfl⟩

theorem write_total (mem : Memory) (hp : request.parentClusterNumber.toNat < clusterMapSize) :
    ∃ r, write request mem s = .ok r := by
  rw [write_eq, parentCheck_of_lt hp]
  cases writeScan request (s.volume.table request.parentClusterNumber)
      (List.finRange directoryEntryCount) false with
  | none =>
      dsimp only
      split_ifs <;> exact ⟨_, rfl⟩
  | some b =>
      cases b
      all_goals
        dsimp only
        split_ifs <;> exact ⟨_, rfl⟩

theorem chainsEnd_of_intact (h : s.volume.Intact)
    (hp : s.volume.Directory request.parentClusterNumber) : ChainsEnd s request := by
  intro i ho hs
  obtain hf | ⟨hsub, -⟩ := h.occupied_cases (i := i) hp ho
  · obtain ⟨l, hl⟩ := h.file_linked hp hf
    exact ⟨l, hl.walk, fun b hb => (hl.range b hb).2⟩
  · exact absurd hsub hs

/-- **Below a directory every request returns, and it leaves the volume alone
or makes one step of the abstract file system.** -/
theorem exec_refines (h : s.volume.Intact) (hp : OnDirectory s c) (hsafe : SafeDelete s c) :
    ∃ r, c.exec s = .ok r ∧ (SameDisk s r.fs ∨ VolumeStep s.volume r.fs.volume) := by
  rcases c with ⟨op, request, mem⟩
  cases op with
  | read =>
      obtain ⟨r, hr⟩ := read_total mem (h.directory_lt hp) (chainsEnd_of_intact h hp)
      exact ⟨r, hr, .inl (read_fs hr).1⟩
  | readDirectory =>
      obtain ⟨r, hr⟩ := readDirectory_total mem (h.directory_lt hp)
      exact ⟨r, hr, .inl (readDirectory_fs hr).1⟩
  | write =>
      obtain ⟨r, hr, hq | ⟨-, -, -, i, e, c, hs, -⟩ | ⟨-, -, -, i, e, l, hs, -⟩⟩ :=
        write_refines mem h hp
      · exact ⟨r, hr, .inl ⟨hq.2.clusterMap, hq.2.disk⟩⟩
      · exact ⟨r, hr, .inr (.addDirectory hs)⟩
      · exact ⟨r, hr, .inr (.addFile hs)⟩
  | delete =>
      obtain ⟨r, hr, hq | ⟨-, -, i, -, ⟨e, l, hs⟩ | hst | ⟨e, hs⟩⟩⟩ :=
        delete_refines mem h hp
      · exact ⟨r, hr, .inl ⟨hq.2.clusterMap, hq.2.disk⟩⟩
      · exact ⟨r, hr, .inr (.removeFile hs)⟩
      · exact absurd hst (hsafe rfl)
      · exact ⟨r, hr, .inr (.removeDirectory hs)⟩

/-- A request keeps the volume well formed. -/
theorem exec_wellFormed (h : s.volume.WellFormed) (hp : OnDirectory s c) (hsafe : SafeDelete s c)
    (hr : c.exec s = .ok r) : r.fs.volume.WellFormed := by
  obtain ⟨r', hr', hcase⟩ := exec_refines h.toIntact hp hsafe
  rw [hr] at hr'
  cases hr'
  rcases hcase with hs | hs
  · rw [hs.volume_eq]
    exact h
  · exact hs.wellFormed h

/-! ### Runs -/

/-- The guard of the runs that stay well formed. -/
def Careful (s : FsState) (c : FsCall) : Prop := OnDirectory s c ∧ SafeDelete s c

theorem step_wellFormed (h : s.volume.WellFormed) (hc : Careful s c)
    (hs : s.step c = some s') : s'.volume.WellFormed := by
  obtain ⟨r, hr, rfl⟩ := step_eq_some.mp hs
  exact exec_wellFormed h hc.1 hc.2 hr

theorem careful_wellFormed (h : Reaches FsState.step Careful (createFat32 s₀) s) :
    s.volume.WellFormed :=
  h.invariant (I := fun s => s.volume.WellFormed) (createFat32_wellFormed s₀) step_wellFormed

/-- A machine whose memory and disk are blank. -/
def FsState.blank : FsState where
  clusterMap := fun _ => 0
  dirTableBuf := fun _ => .zero
  clusterBuf := 0
  disk := fun _ => 0

/-- The state after a request; a request that does not return leaves none. -/
def FsState.after (s : FsState) (c : FsCall) : FsState := (s.step c).getD s

/-- The reply code of a request. -/
def FsCall.ret (c : FsCall) (s : FsState) : Option Int :=
  match c.exec s with
  | .ok r => some r.ret
  | .error _ => none

theorem exec_write : (FsCall.mk .write request mem).exec s = write request mem s := rfl

theorem ret_eq_some {n : Int} : c.ret s = some n ↔ ∃ r, c.exec s = .ok r ∧ r.ret = n := by
  unfold FsCall.ret
  cases c.exec s with
  | error e => simp
  | ok r => simp

theorem step_after {n : Int} (h : c.ret s = some n) : s.step c = some (s.after c) := by
  obtain ⟨r, hr, -⟩ := ret_eq_some.mp h
  unfold FsState.after FsState.step
  rw [hr]
  rfl

/-! ### A few requests to try things on -/

/-- The name that consists of one letter. -/
def letterName (ch : Char) : EntryName := fun i => if i = 0 then BitVec.ofNat 8 ch.toNat else 0

/-- Make the folder `ch` below `p`. -/
def makeFolder (p : BitVec 32) (ch : Char) : FsCall :=
  ⟨.write, ⟨0, letterName ch, 0, p, 0⟩, fun _ => 0⟩

/-- Write a file `ch` of one byte below `p`. -/
def makeFile (p : BitVec 32) (ch : Char) : FsCall :=
  ⟨.write, ⟨0, letterName ch, 0, p, 1⟩, fun _ => 0⟩

/-- Delete `ch` below `p`. -/
def remove (p : BitVec 32) (ch : Char) : FsCall :=
  ⟨.delete, ⟨0, letterName ch, 0, p, 0⟩, fun _ => 0⟩

/-- A formatted disk with the folder `a`, in cluster 3, below the root. -/
def oneFolder : FsState := (createFat32 .blank).after (makeFolder rootClusterNumber 'a')

/-- The same with the file `b`, in cluster 4, in that folder. -/
def oneFile : FsState := oneFolder.after (makeFile 3 'b')

theorem oneFolder_step : (createFat32 .blank).step (makeFolder rootClusterNumber 'a') =
    some oneFolder :=
  step_after (n := 0) (by decide +kernel)

theorem oneFolder_reaches {ok : FsState → FsCall → Prop}
    (h : ok (createFat32 .blank) (makeFolder rootClusterNumber 'a')) :
    Reaches FsState.step ok (createFat32 .blank) oneFolder :=
  Reaches.snoc .refl h oneFolder_step

theorem oneFolder_wellFormed : oneFolder.volume.WellFormed :=
  careful_wellFormed (oneFolder_reaches ⟨.root, fun h => by cases h⟩)

theorem oneFolder_directory : oneFolder.volume.Directory 3#32 :=
  .child .root (i := 2) (by decide +kernel)

theorem oneFile_step : oneFolder.step (makeFile 3 'b') = some oneFile :=
  step_after (n := 0) (by decide +kernel)

/-- A file of one byte fits beside the folder. -/
theorem oneFolder_write_ret :
    (FsCall.mk .write (makeFile rootClusterNumber 'b').request fun _ => 7).ret oneFolder = some 0 := by
  decide +kernel

/-! ### Requests that fail -/

/-- **Errors leave no trace.**  On any table and any disk: a request that returns
a code other than 0 has changed neither of them nor the caller's memory, and
reading changes neither of them at all. -/
theorem exec_traceless (c : FsCall) (s : FsState)
    (hp : c.request.parentClusterNumber.toNat < clusterMapSize)
    (hchains : c.op = .read → ChainsEnd s c.request) :
    (c.op ≠ .delete → ∃ r, c.exec s = .ok r) ∧
    ∀ r, c.exec s = .ok r → (r.ret ≠ 0 → Quiet s c.mem r) ∧
      (c.op = .read ∨ c.op = .readDirectory → SameDisk s r.fs) := by
  refine ⟨fun hop => ?_, fun r hr => ⟨exec_quiet hr, fun hop => ?_⟩⟩
  · rcases c with ⟨op, request, mem⟩
    cases op with
    | read => exact read_total mem hp (hchains rfl)
    | readDirectory => exact readDirectory_total mem hp
    | write => exact write_total mem hp
    | delete => exact absurd rfl hop
  · rcases c with ⟨op, request, mem⟩
    rcases hop with rfl | rfl
    · exact (read_fs hr).1
    · exact (readDirectory_fs hr).1

/-- A second folder of one name. -/
theorem exec_traceless_oneFolder :
    ∃ r, (makeFolder rootClusterNumber 'a').exec oneFolder = .ok r ∧ r.ret = 1 ∧
      Quiet oneFolder (makeFolder rootClusterNumber 'a').mem r := by
  have hret : (makeFolder rootClusterNumber 'a').ret oneFolder = some 1 := by decide +kernel
  obtain ⟨r, hr, hret⟩ := ret_eq_some.mp hret
  have hquiet := ((exec_traceless _ oneFolder (by decide) fun h => by cases h).2 r hr).1
  exact ⟨r, hr, hret, hquiet (by simp [hret])⟩

/-! ### Files come and go, folders only come -/

/-- A deletion that fails or is about a file. -/
def DeletesFile (s : FsState) (c : FsCall) : Prop :=
  c.op = .delete → (∀ r, c.exec s = .ok r → r.ret ≠ 0) ∨
    ∃ i, deleteMatch c.request (s.volume.table c.request.parentClusterNumber) = some i ∧
      ¬ (s.volume.table c.request.parentClusterNumber i).IsSubdirectory

theorem DeletesFile.safeDelete (h : s.volume.WellFormed) (hp : OnDirectory s c)
    (hd : DeletesFile s c) : SafeDelete s c := by
  rintro hop ⟨i, hm, h0, hs, -, hne⟩
  rcases c with ⟨op, request, mem⟩
  cases hop
  rcases hd rfl with hfail | ⟨j, hj, hfile⟩
  · obtain ⟨r, hr, hret, -⟩ := delete_folder mem h.toIntact hp hm h0 hs hne
    exact hfail r hr hret
  · rw [hm] at hj
    cases hj
    exact hfile hs

/-- The directories form a finite tree below the root. -/
structure Volume.IsTree (v : Volume) : Prop where
  finite : {d | v.Directory d}.Finite
  exists_depth : ∃ depth : BitVec 32 → Nat, depth rootClusterNumber = 0 ∧
    ∀ a i b, v.Directory a → v.child a i = some b → depth b = depth a + 1
  child_unique : ∀ {a b d : BitVec 32} {i j : Fin directoryEntryCount}, v.Directory a →
    v.Directory b → v.child a i = some d → v.child b j = some d → a = b ∧ i = j
  child_ne_root : ∀ {a : BitVec 32} {i : Fin directoryEntryCount}, v.Directory a →
    v.child a i ≠ some rootClusterNumber

theorem Volume.WellFormed.isTree {v : Volume} (h : v.WellFormed) : v.IsTree where
  finite := by
    refine (Set.finite_range clusterOf).subset fun d hd => ?_
    exact ⟨⟨d.toNat, h.directory_lt hd⟩, clusterOf_mk _⟩
  exists_depth := h.exists_depth
  child_unique := h.child_unique
  child_ne_root := h.child_ne_root

/-- The root keeps its own entry. -/
theorem VolumeStep.root_entry {v v' : Volume} (hs : VolumeStep v v') (h : v.Intact) :
    v'.table rootClusterNumber 0 = v.table rootClusterNumber 0 := by
  cases hs with
  | addFile hs => exact (hs.slotEdit h).low_slot .root .root (by decide)
  | addDirectory hs => exact (hs.slotEdit h).low_slot .root .root (by decide)
  | removeFile hs => exact (hs.slotEdit h).low_slot .root .root (by decide)
  | removeDirectory hs => exact (hs.slotEdit h).low_slot .root .root (by decide)

/-- **The file system stays well formed.**  Whatever is read, written and
deleted below the directories of a formatted disk: as long as no folder is
deleted, the volume is well formed, its directories are a finite tree below
the root directory, and the next request returns. -/
theorem volume_wellFormed
    (h : Reaches FsState.step (fun s c => OnDirectory s c ∧ DeletesFile s c) (createFat32 s₀) s) :
    s.volume.WellFormed ∧ s.volume.IsTree ∧
      (s.volume.table rootClusterNumber 0).name = rootName ∧
      ∀ c, OnDirectory s c → DeletesFile s c → ∃ r, c.exec s = .ok r := by
  have hinv : s.volume.WellFormed ∧ (s.volume.table rootClusterNumber 0).name = rootName := by
    refine h.invariant (I := fun s => s.volume.WellFormed ∧
      (s.volume.table rootClusterNumber 0).name = rootName) ⟨createFat32_wellFormed s₀, ?_⟩ ?_
    · rw [createFat32_table_root]
      exact freshTable_self.name_eq
    · rintro s c s' ⟨hwf, hroot⟩ ⟨hp, hd⟩ hs
      obtain ⟨r, hr, hcase⟩ := exec_refines hwf.toIntact hp (hd.safeDelete hwf hp)
      have hr' : r.fs = s' := by
        obtain ⟨r', hr', rfl⟩ := step_eq_some.mp hs
        rw [hr] at hr'
        cases hr'
        rfl
      subst hr'
      rcases hcase with hsame | hstep
      · rw [hsame.volume_eq]
        exact ⟨hwf, hroot⟩
      · rw [hstep.root_entry hwf.toIntact]
        exact ⟨hstep.wellFormed hwf, hroot⟩
  refine ⟨hinv.1, hinv.1.isTree, hinv.2, fun c hp hd => ?_⟩
  obtain ⟨r, hr, -⟩ := exec_refines hinv.1.toIntact hp (hd.safeDelete hinv.1 hp)
  exact ⟨r, hr⟩

theorem volume_wellFormed_oneFolder :
    oneFolder.volume.WellFormed ∧ oneFolder.volume.IsTree ∧
      (oneFolder.volume.table rootClusterNumber 0).name = rootName ∧
      ∀ c, OnDirectory oneFolder c → DeletesFile oneFolder c → ∃ r, c.exec oneFolder = .ok r :=
  volume_wellFormed (oneFolder_reaches ⟨.root, fun h => by cases h⟩)

/-! ### Deleting folders -/

/-- The deletion of the folder in slot `i` of `p` is as it should be: the
folder is a child and empty, the directories above stay, and nothing is left
allocated that no slot owns. -/
structure SafeDeletion (v v' : Volume) (p : BitVec 32) (i : Fin directoryEntryCount) : Prop where
  isChild : 2 ≤ i.val
  empty : ∀ j : Fin directoryEntryCount, 2 ≤ j.val →
    ¬ (v.table (v.table p i).cluster j).Occupied
  ancestors : ∀ a, v.Directory a → Reach v.child a p →
    v'.Directory a ∧ v'.fat a = fat32FatEndOfFile
  root : v'.fat rootClusterNumber = fat32FatEndOfFile
  owned : ∀ c, DataCluster c → v'.fat c ≠ fat32FatEmptyEntry → ∃ d j, v'.Owns d j c

/-- Removing an empty folder is safe. -/
theorem RemoveDirectory.safeDeletion {v v' : Volume} {e : FAT32DirectoryEntry}
    (hs : RemoveDirectory v v' p i e (v.table p i).cluster) (h : v.WellFormed) :
    SafeDeletion v v' p i where
  isChild := hs.entry.1
  empty := hs.empty
  ancestors := by
    intro a ha hap
    have hne : a ≠ (v.table p i).cluster := by
      -- the removed folder has no children, and it is not its own parent
      rintro rfl
      have hleaf : ∀ d, Reach v.child (v.table p i).cluster d → d = (v.table p i).cluster := by
        intro d hd
        induction hd with
        | root => rfl
        | @child b j _ _ he ih =>
            subst ih
            obtain ⟨hsub, -⟩ := child_eq_some_iff.mp he
            exact absurd hsub.2.1 (hs.empty j hsub.1)
      exact hs.parent_ne h.toIntact (hleaf p hap)
    have ha' : v'.Directory a := (hs.directory_iff h.toIntact).mpr ⟨ha, hne⟩
    exact ⟨ha', (hs.wellFormed h).fat_directory ha'⟩
  root := (hs.wellFormed h).fat_directory .root
  owned := by
    intro c hc hne
    by_contra hno
    exact hne ((hs.wellFormed h).free hc fun d j ho => hno ⟨d, j, ho⟩)

/-- **The deletion of a folder is safe exactly outside the layout of
`StrandsOnlyChild`.**  The run up to here may have written and deleted files
and folders, as long as none of its deletions met that layout either. -/
theorem delete_safe_iff (h : Reaches FsState.step Careful (createFat32 s₀) s)
    (hp : s.volume.Directory request.parentClusterNumber) :
    (∀ i r, deleteMatch request (s.volume.table request.parentClusterNumber) = some i →
        (s.volume.table request.parentClusterNumber i).IsSubdirectory →
        delete request mem s = .ok r → r.ret = 0 →
        SafeDeletion s.volume r.fs.volume request.parentClusterNumber i) ↔
      ¬ s.volume.StrandsOnlyChild request := by
  have hwf := careful_wellFormed h
  constructor
  · rintro hsafe ⟨i, hm, h0, hs, ho, hne⟩
    obtain ⟨r, hr, hret, -⟩ := delete_folder mem hwf.toIntact hp hm h0 hs hne
    exact (hsafe i r hm hs hr hret).empty 2 (by decide) ho
  · intro hns i r hm hs hr hret
    obtain ⟨r', hr', hq | ⟨-, -, j, hj, ⟨e, l, hrem⟩ | hst | ⟨e, hrem⟩⟩⟩ :=
      delete_refines mem hwf.toIntact hp
    · rw [hr] at hr'
      cases hr'
      exact absurd hret hq.1
    · rw [hm] at hj
      cases hj
      exact absurd hs hrem.entry.2.2
    · exact absurd hst hns
    · rw [hr] at hr'
      cases hr'
      rw [hm] at hj
      cases hj
      exact hrem.safeDeletion hwf

theorem delete_safe_iff_oneFolder :
    (∀ i r, deleteMatch (remove 2 'a').request (oneFolder.volume.table 2#32) = some i →
        (oneFolder.volume.table 2#32 i).IsSubdirectory →
        delete (remove 2 'a').request (fun _ => 0) oneFolder = .ok r → r.ret = 0 →
        SafeDeletion oneFolder.volume r.fs.volume 2#32 i) ↔
      ¬ oneFolder.volume.StrandsOnlyChild (remove 2 'a').request :=
  delete_safe_iff (oneFolder_reaches ⟨.root, fun h => by cases h⟩) .root

/-- A folder whose only entry is in slot 2 is deleted with the entry in it. -/
theorem delete_folder_unsafe :
    ¬ ∀ (s₀ s : FsState) (request : FAT32DriverRequest) (mem : Memory),
      Reaches FsState.step OnDirectory (createFat32 s₀) s →
      s.volume.Directory request.parentClusterNumber →
      ∀ i r, deleteMatch request (s.volume.table request.parentClusterNumber) = some i →
        (s.volume.table request.parentClusterNumber i).IsSubdirectory →
        delete request mem s = .ok r → r.ret = 0 →
        SafeDeletion s.volume r.fs.volume request.parentClusterNumber i := by
  intro h
  have hrun : Reaches FsState.step OnDirectory (createFat32 .blank) oneFile :=
    Reaches.snoc (i := makeFile 3 'b') (oneFolder_reaches .root) oneFolder_directory oneFile_step
  have hdel : (remove 2 'a').ret oneFile = some 0 := by decide +kernel
  obtain ⟨r, hr, hret⟩ := ret_eq_some.mp hdel
  have hsafe := h .blank oneFile (remove 2 'a').request (fun _ => 0) hrun .root 2 r
    (by decide +kernel) (by decide +kernel) hr hret
  exact hsafe.empty 2 (by decide) (by decide +kernel)

/-! ### Parents that are no directory -/

/-- The last cluster of a file. -/
def Volume.EndsFile (v : Volume) (c : BitVec 32) : Prop :=
  ∃ d i l, v.Directory d ∧ v.FileEntry d i ∧ v.FileLinked d i l ∧ l.getLast? = some c

/-- All four requests turn the parent down and leave no trace. -/
structure Rejected (request : FAT32DriverRequest) (mem : Memory) (s : FsState) : Prop where
  read : ∃ r, read request mem s = .ok r ∧ r.ret = -1 ∧ Quiet s mem r
  readDirectory : ∃ r, readDirectory request mem s = .ok r ∧ r.ret = -1 ∧ Quiet s mem r
  write : ∃ r, write request mem s = .ok r ∧ r.ret = 2 ∧ Quiet s mem r
  delete : ∃ r, delete request mem s = .ok r ∧ r.ret = -1 ∧ Quiet s mem r

/-- The number is an index of the allocation table whose entry is not the
end-of-file marker, as far as one can tell without the table. -/
structure PlainNumber (v : Volume) (p : BitVec 32) : Prop where
  lt : p.toNat < clusterMapSize
  ne_fat : p ≠ fatClusterNumber
  not_endsFile : ¬ v.EndsFile p

theorem Volume.WellFormed.plainNumber_iff {v : Volume} (h : v.WellFormed)
    (hp : ¬ v.Directory p) :
    PlainNumber v p ↔ p.toNat < clusterMapSize ∧ v.fat p ≠ fat32FatEndOfFile := by
  constructor
  · rintro ⟨hlt, hne, hend⟩
    refine ⟨hlt, fun he => ?_⟩
    rcases h.fat_eq_endOfFile_cases hlt he with rfl | hd | hf
    · exact hne rfl
    · exact hp hd
    · exact hend hf
  · rintro ⟨hlt, hv⟩
    refine ⟨hlt, ?_, ?_⟩
    · rintro rfl
      exact hv h.fat_one
    · rintro ⟨d, i, l, -, -, hl, hlast⟩
      exact hv ((hl.walk.next_eq_stop_iff (List.mem_of_getLast? hlast)).mpr hlast)

/-- The parent check turns a number down exactly where its entry of the
allocation table is not the end-of-file marker. -/
theorem rejected_iff : Rejected request mem s ↔
    request.parentClusterNumber.toNat < clusterMapSize ∧
      s.volume.fat request.parentClusterNumber ≠ fat32FatEndOfFile := by
  constructor
  · intro hrej
    obtain ⟨r, hr, hret, -⟩ := hrej.write
    rcases write_cases hr with ⟨-, hq⟩ | hw
    · rw [write_eq] at hr
      by_cases hlt : request.parentClusterNumber.toNat < clusterMapSize
      · refine ⟨hlt, fun hv => ?_⟩
        have hv' : s.clusterMap.view request.parentClusterNumber = fat32FatEndOfFile := hv
        rw [parentCheck_of_lt hlt, if_pos hv'] at hr
        split at hr
        · cases hr
          exact absurd hret (by simp)
        · cases hr
          exact absurd hret (by simp)
        · split_ifs at hr
          · cases hr
            exact absurd hret (by simp)
          · cases hr
            exact absurd hret (by simp)
      · rw [parentCheck_of_ge (not_lt.mp hlt)] at hr
        cases hr
    · rw [hw.ret_eq] at hret
      exact absurd hret (by decide)
  · rintro ⟨hlt, hv⟩
    have hcheck : ∀ a b : Except Fault Reply,
        parentCheck s request.parentClusterNumber a b = a := by
      intro a b
      rw [parentCheck_of_lt hlt]
      exact if_neg hv
    refine ⟨⟨_, hcheck _ _, rfl, rfl, rfl, rfl⟩, ?_, ⟨_, hcheck _ _, rfl, rfl, rfl, rfl⟩,
      ⟨_, hcheck _ _, rfl, rfl, rfl, rfl⟩⟩
    unfold Binbows.readDirectory
    split_ifs
    · exact ⟨_, rfl, rfl, rfl, rfl, rfl⟩
    · exact ⟨_, hcheck _ _, rfl, rfl, rfl, rfl⟩

/-- The guard of the runs in which only plain numbers and directories are
given as parents. -/
def PlainParents (s : FsState) (c : FsCall) : Prop :=
  Careful s c ∨ (¬ OnDirectory s c ∧ PlainNumber s.volume c.request.parentClusterNumber)

/-- A rejected request leaves the volume alone. -/
theorem Rejected.exec (h : Rejected c.request c.mem s) (hr : c.exec s = .ok r) :
    SameDisk s r.fs := by
  have hq : Quiet s c.mem r := by
    refine exec_quiet hr ?_
    rcases c with ⟨op, request, mem⟩
    cases op with
    | read =>
        obtain ⟨r', hr', hret, -⟩ := h.read
        obtain rfl : r' = r := Except.ok.inj (hr'.symm.trans hr)
        rw [hret]
        decide
    | readDirectory =>
        obtain ⟨r', hr', hret, -⟩ := h.readDirectory
        obtain rfl : r' = r := Except.ok.inj (hr'.symm.trans hr)
        rw [hret]
        decide
    | write =>
        obtain ⟨r', hr', hret, -⟩ := h.write
        obtain rfl : r' = r := Except.ok.inj (hr'.symm.trans hr)
        rw [hret]
        decide
    | delete =>
        obtain ⟨r', hr', hret, -⟩ := h.delete
        obtain rfl : r' = r := Except.ok.inj (hr'.symm.trans hr)
        rw [hret]
        decide
  exact ⟨hq.clusterMap, hq.disk⟩

theorem plainParents_wellFormed (h : Reaches FsState.step PlainParents (createFat32 s₀) s) :
    s.volume.WellFormed := by
  refine h.invariant (I := fun s => s.volume.WellFormed) (createFat32_wellFormed s₀) ?_
  rintro s c s' hwf (hc | ⟨hp, hplain⟩) hs
  · exact step_wellFormed hwf hc hs
  · obtain ⟨r, hr, rfl⟩ := step_eq_some.mp hs
    have hrej : Rejected c.request c.mem s :=
      rejected_iff.mpr ((hwf.plainNumber_iff hp).mp hplain)
    rw [(hrej.exec hr).volume_eq]
    exact hwf

/-- **Which of the numbers that are no directory are rejected as parents**: all
but those beyond the allocation table, that of the allocation table itself and
those of the last clusters of files. -/
theorem parent_rejected_iff (h : Reaches FsState.step PlainParents (createFat32 s₀) s)
    (hp : ¬ s.volume.Directory request.parentClusterNumber) :
    Rejected request mem s ↔ PlainNumber s.volume request.parentClusterNumber := by
  rw [rejected_iff, (plainParents_wellFormed h).plainNumber_iff hp]

theorem parent_rejected_iff_formatted :
    Rejected ⟨0, 0, 0, 5, 0⟩ (fun _ => 0) (createFat32 .blank) ↔
      PlainNumber (createFat32 .blank).volume 5#32 :=
  parent_rejected_iff .refl
    (fun h => absurd (createFat32_directory_iff.mp h) (by decide))

/-- The cluster of the allocation table is taken for a directory. -/
theorem parent_not_rejected :
    ¬ ∀ (s₀ s : FsState) (request : FAT32DriverRequest) (mem : Memory),
      Reaches FsState.step Careful (createFat32 s₀) s →
      ¬ s.volume.Directory request.parentClusterNumber → Rejected request mem s := by
  intro h
  have hrej := h .blank _ ⟨0, 0, 0, fatClusterNumber, 0⟩ (fun _ => 0) .refl
    (fun h => absurd (createFat32_directory_iff.mp h) (by decide))
  exact (rejected_iff.mp hrej).2 (createFat32_wellFormed .blank).fat_one

end Binbows
