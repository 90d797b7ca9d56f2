/-
Binbows/TreeRequests.lean

The driver as a bounded store of folders and files.

`Answers` says what a request may answer on a tree and which tree it leads to: it is what
the file system is for, without tables, clusters and buffers.  The driver answers in this
way (`exec_answers`), and only two things are left open: which number a new folder
gets, and, where a folder and a file without extension share a name, which of them a
deletion takes.

Main result: `tree_refined`.  Every history of the driver, with its restarts, is a run of the
store, and the next request is answered as the store says.
-/
import Binbows.TreeRoom

namespace Binbows

open Chain SlotTree Bytes Volume Run FolderTree FAT32FileAllocationTable

/-! ### The store -/

/-- The name of the request finds `e` from its directory. -/
def FileTree.Sees (t : FileTree) (request : FAT32DriverRequest) (e : BitVec 32) : Prop :=
  t.Finds request.parentClusterNumber request.name e

/-- Something stands in the way of a write: for a folder a folder in sight with its name,
for a file a file with its key, or a folder in sight where it has no extension. -/
def FileTree.Taken (t : FileTree) (request : FAT32DriverRequest) : Prop :=
  if request.bufferSize = 0 then ∃ e, t.Sees request e
  else t.files request.key ≠ none ∨ (request.ext = 0 ∧ ∃ e, t.Sees request e)

/-- There is room for what the request writes. -/
def FileTree.RoomFor (t : FileTree) (request : FAT32DriverRequest) : Prop :=
  FileTree.HasRoom t request.parentClusterNumber (neededSize request.bufferSize)

/-- A table shows the folder `e`: whatever a name finds there, and every file with its
size. -/
structure FileTree.Shows (t : FileTree) (e : BitVec 32) (table : FAT32DirectoryTable) : Prop where
  folders : ∀ n c, t.Finds e n c ↔ ∃ i, (table i).Folder ∧ (table i).name = n ∧
    (table i).cluster = c
  files : ∀ name ext size, (∃ data, t.files ⟨e, name, ext⟩ = some data ∧
      size = data.length * clusterSize) ↔
    ∃ i, (table i).Occupied ∧ ¬ (table i).IsSubdirectory ∧ (table i).name = name ∧
      (table i).ext = ext ∧ (table i).filesize.toNat = size

/-- What a request may answer, with the memory that it leaves, and the tree that it leads
to. -/
inductive Answers (t : FileTree) : FsCall → Int → Memory → FileTree → Prop
  | listed {request mem e content} : request.bufferSize = BitVec.ofNat 32 clusterSize →
      t.Sees request e → t.Shows e (.ofCluster content) →
      Answers t ⟨.readDirectory, request, mem⟩ 0 (mem.store request.buf content) t
  | notListed {request mem ret} : ret ≠ 0 →
      (request.bufferSize = BitVec.ofNat 32 clusterSize → ∀ e, ¬ t.Sees request e) →
      Answers t ⟨.readDirectory, request, mem⟩ ret mem t
  | read {request mem data} : t.files request.key = some data →
      data.length * clusterSize ≤ request.bufferSize.toNat →
      Answers t ⟨.read, request, mem⟩ 0 (mem.storeAll request.buf data) t
  | notRead {request mem ret} : ret ≠ 0 →
      (∀ data, t.files request.key = some data →
        request.bufferSize.toNat < data.length * clusterSize) →
      Answers t ⟨.read, request, mem⟩ ret mem t
  | folderMade {request mem e} : request.bufferSize = 0 → ¬ t.Taken request →
      t.RoomFor request → ¬ t.IsFolder e →
      Answers t ⟨.write, request, mem⟩ 0 mem
        (t.addFolder request.parentClusterNumber request.name e)
  | fileWritten {request mem} : request.bufferSize ≠ 0 → ¬ t.Taken request →
      t.RoomFor request →
      Answers t ⟨.write, request, mem⟩ 0 mem
        (t.setFile request.key (some (loads mem request.buf (neededSize request.bufferSize))))
  | taken {request mem} : t.Taken request → Answers t ⟨.write, request, mem⟩ 1 mem t
  | noRoom {request mem} : ¬ t.Taken request → ¬ t.RoomFor request →
      Answers t ⟨.write, request, mem⟩ (-1) mem t
  | fileDeleted {request mem} : t.files request.key ≠ none →
      Answers t ⟨.delete, request, mem⟩ 0 mem (t.setFile request.key none)
  | folderDeleted {request mem e} : request.ext = 0 →
      t.Child request.parentClusterNumber e → t.Named e request.name →
      t.Empty FileKey.dir e →
      Answers t ⟨.delete, request, mem⟩ 0 mem (t.removeFolder e)
  | notThere {request mem} : t.files request.key = none →
      (request.ext = 0 → ∀ e, ¬ t.Sees request e) →
      Answers t ⟨.delete, request, mem⟩ 1 mem t
  | folderKept {request mem ret e} : ret ≠ 0 → ret ≠ 1 → request.ext = 0 → t.Sees request e →
      Answers t ⟨.delete, request, mem⟩ ret mem t

variable {v v' : Volume} {d c : BitVec 32} {i : Fin directoryEntryCount}
  {request : FAT32DriverRequest} {mem' : Memory} {s s' s₀ : FsState} {ret : Int}
  {call : FsCall} {t t' : FileTree}

/-- The store answers a request on one of its folders. -/
def Serves (t t' : FileTree) : Prop :=
  ∃ call ret mem', t.IsFolder call.request.parentClusterNumber ∧ Answers t call ret mem' t'

/-- What a request does to the tree is a step of the tree. -/
theorem Answers.step (h : Answers t call ret mem' t')
    (hp : t.IsFolder call.request.parentClusterNumber) :
    t' = t ∨ Step FileKey.dir t t' := by
  cases h with
  | listed _ _ _ => exact .inl rfl
  | notListed _ _ => exact .inl rfl
  | read _ _ => exact .inl rfl
  | notRead _ _ => exact .inl rfl
  | folderMade hsize hfree _ hnew =>
      unfold FileTree.Taken at hfree
      rw [if_pos hsize] at hfree
      exact .inr (.addFolder _ _ _ hp hnew (not_exists.mp hfree))
  | fileWritten _ _ _ => exact .inr (.setFile _ _ hp)
  | taken _ => exact .inl rfl
  | noRoom _ _ => exact .inl rfl
  | fileDeleted _ => exact .inr (.setFile _ _ hp)
  | folderDeleted _ hchild _ hempty => exact .inr (.removeFolder _ _ hchild hempty)
  | notThere _ _ => exact .inl rfl
  | folderKept _ _ _ _ => exact .inl rfl

/-- The store keeps its tree sound. -/
theorem Serves.sound (h : Serves t t') (hs : Sound FileKey.dir t) : Sound FileKey.dir t' := by
  obtain ⟨call, ret, mem', hp, hanswer⟩ := h
  rcases hanswer.step hp with rfl | hstep
  · exact hs
  · exact hstep.sound hs

/-- The table of a directory shows it. -/
theorem shows_table (h : v.Intact) (hq : v.UniqueFiles) (hd : v.Directory d) :
    FileTree.Shows v.tree d (v.table d) where
  folders n c := tree_finds_iff h hd
  files name ext size := by
    constructor
    · rintro ⟨data, hdata, rfl⟩
      obtain ⟨i, l, -, hi, hn, hx, hl, rfl⟩ := (files_eq_some_iff hq).mp hdata
      refine ⟨i, hi.2.1, hi.2.2, hn, hx, ?_⟩
      rw [hl.size, List.length_map]
    · rintro ⟨i, ho, hs, rfl, rfl, rfl⟩
      have hi : v.FileEntry d i :=
        (h.occupied_cases hd ho).resolve_right fun hsub => hs hsub.1
      obtain ⟨l, hl⟩ := h.file_linked hd hi
      refine ⟨l.map v.content, (files_eq_some_iff hq).mpr ⟨i, l, hd, hi, rfl, rfl, hl, rfl⟩, ?_⟩
      rw [hl.size, List.length_map]

theorem readDirectory_answers (mem : Memory) (hs : Tidy s)
    (hp : s.volume.Directory request.parentClusterNumber) :
    ∃ r, readDirectory request mem s = .ok r ∧ SameDisk s r.fs ∧
      Answers s.volume.tree ⟨.readDirectory, request, mem⟩ r.ret r.mem s.volume.tree := by
  have h := hs.wellFormed.toIntact
  rw [readDirectory_eq]
  -- a request for less than a cluster is refused at once
  by_cases hsize : request.bufferSize = BitVec.ofNat 32 clusterSize
  · rw [if_neg (not_not.mpr hsize), parentCheck_directory h hp]
    have hfs := (readFolder_fs request mem (s.readDirTable request.parentClusterNumber)).1
    refine ⟨_, rfl, ?_, ?_⟩
    · rw [hfs]
      exact ⟨rfl, rfl⟩
    cases hslot : (s.volume.table request.parentClusterNumber).namedSlot request.name with
    | some i =>
        obtain ⟨hi, hn⟩ := namedSlot_eq_some hslot
        have hfolder : readFolder request mem (s.readDirTable request.parentClusterNumber) = _ :=
          readFolder_some hslot
        rw [hfolder]
        -- what the table lists under the name are the folders that the tree shows under it
        have hsees : s.volume.tree.Finds request.parentClusterNumber request.name
            (s.volume.table request.parentClusterNumber i).cluster :=
          (tree_finds_iff h hp).mpr ⟨i, hi, hn, rfl⟩
        have hdir : s.volume.Directory (s.volume.table request.parentClusterNumber i).cluster :=
          ((h.occupied_cases hp hi.1).resolve_left fun hf => hf.2.2 hi.2).2
        exact .listed hsize hsees (shows_table h hs.uniqueFiles hdir)
    | none =>
        have hno := namedSlot_eq_none_iff.mp hslot
        have hret := readFolder_ret request mem (s.readDirTable request.parentClusterNumber)
        have hslot' : (s.readDirTable request.parentClusterNumber).dirTableBuf.namedSlot
            request.name = none := hslot
        rw [hslot', if_neg (by simp)] at hret
        -- a refusal has another code than 0
        have hne : (readFolder request mem (s.readDirTable request.parentClusterNumber)).ret ≠ 0 := by
          rw [hret]
          split_ifs
          all_goals decide
        rw [(readFolder_fs request mem _).2 hne]
        exact .notListed hne fun _ => (tree_finds_none_iff h hp).mpr hno
  · rw [if_pos hsize]
    exact ⟨_, rfl, .rfl, .notListed (by simp) fun hsize' => absurd hsize' hsize⟩

theorem read_answers (mem : Memory) (hs : Tidy s)
    (hp : s.volume.Directory request.parentClusterNumber) :
    ∃ r, Binbows.read request mem s = .ok r ∧ SameDisk s r.fs ∧
      Answers s.volume.tree ⟨.read, request, mem⟩ r.ret r.mem s.volume.tree := by
  obtain ⟨r, hr, hsame, ⟨hret, data, hdata, hsize, hmem⟩ | ⟨hret, hno⟩⟩ :=
    read_files mem hs.wellFormed.toIntact hs.uniqueFiles hp
  · refine ⟨r, hr, hsame, ?_⟩
    rw [hret, hmem]
    exact .read hdata hsize
  · refine ⟨r, hr, hsame, ?_⟩
    rw [(read_fs hr).2 hret]
    exact .notRead hret hno

/-! ### Writing -/

/-- A folder has no extension. -/
theorem Volume.Intact.folder_ext (h : v.Intact) (hd : v.Directory d) (hi : (v.table d i).Folder) :
    (v.table d i).ext = 0 := by
  by_contra hx
  exact (h.fileEntry_of_ext hd hi.1 hx).2.2 hi.2

/-- **The duplicate check finds what stands in the way in the tree.** -/
theorem taken_iff (h : v.Intact) (hq : v.UniqueFiles)
    (hp : v.Directory request.parentClusterNumber) :
    FileTree.Taken v.tree request ↔ ∃ i, (v.table request.parentClusterNumber i).Occupied ∧
      sameEntry request (v.table request.parentClusterNumber i) := by
  -- the folders next to it that have the name
  have hsees : (∃ e, FileTree.Sees v.tree request e) ↔
      ∃ i, (v.table request.parentClusterNumber i).Folder ∧
        (v.table request.parentClusterNumber i).name = request.name := by
    constructor
    · rintro ⟨e, he⟩
      obtain ⟨i, hi, hn, -⟩ := (tree_finds_iff h hp).mp he
      exact ⟨i, hi, hn⟩
    · rintro ⟨i, hi, hn⟩
      exact ⟨_, (tree_finds_iff h hp).mpr ⟨i, hi, hn, rfl⟩⟩
  unfold FileTree.Taken
  simp only [sameEntry_iff]
  split_ifs with hsize
  -- a new folder collides with a folder
  · rw [hsees]
    constructor
    · rintro ⟨i, hi, hn⟩
      exact ⟨i, hi.1, hn, .inl ⟨hi.2, hsize⟩⟩
    · rintro ⟨i, ho, hn, ⟨hsub, -⟩ | ⟨hsize', -⟩⟩
      · exact ⟨i, ⟨ho, hsub⟩, hn⟩
      · exact absurd hsize hsize'
  -- a new file collides with a file of its key, and without an extension with a folder
  · rw [hsees]
    constructor
    · rintro (hfile | ⟨hx, i, hi, hn⟩)
      · obtain ⟨data, hdata⟩ := Option.ne_none_iff_exists'.mp hfile
        obtain ⟨i, l, -, hi, hn, hx, -⟩ := (files_eq_some_iff hq).mp hdata
        exact ⟨i, hi.2.1, hn, .inr ⟨hsize, hx⟩⟩
      · exact ⟨i, hi.1, hn, .inr ⟨hsize, (h.folder_ext hp hi).trans hx.symm⟩⟩
    · rintro ⟨i, ho, hn, ⟨-, hsize'⟩ | ⟨-, hx⟩⟩
      · exact absurd hsize' hsize
      · rcases h.occupied_cases hp ho with hfile | ⟨hsub, -⟩
        · left
          have hsome := hfile.files_ne_none h hp
          rwa [hn, hx] at hsome
        · exact .inr ⟨hx.symm.trans (h.folder_ext hp ⟨ho, hsub⟩), i, ⟨ho, hsub⟩, hn⟩

/-- A directory that is added has a number that is no folder. -/
theorem AddDirectory.not_isFolder {p : BitVec 32} {e : FAT32DirectoryEntry} {name : EntryName}
    (hs : AddDirectory v v' p i e name c) (h : v.Intact) : ¬ v.tree.IsFolder c :=
  fun hc => hs.not_directory h (tree_isFolder_iff.mp hc)

theorem write_answers (mem : Memory) (hs : Tidy s)
    (hp : s.volume.Directory request.parentClusterNumber) :
    ∃ r, write request mem s = .ok r ∧
      Answers s.volume.tree ⟨.write, request, mem⟩ r.ret r.mem r.fs.volume.tree := by
  have h := hs.wellFormed.toIntact
  have hq : s.volume.UniqueFiles := hs.uniqueFiles
  have htaken := taken_iff h hq hp
  have hroom : HasRoom s request.parentClusterNumber request.bufferSize ↔
      FileTree.RoomFor s.volume.tree request := hasRoom_iff hs hp
  obtain ⟨r, hr, hcase⟩ := write_refines mem h hp
  refine ⟨r, hr, ?_⟩
  -- a write that returns 0 has found its way free, and room
  have hdone : r.ret = 0 → ¬ FileTree.Taken s.volume.tree request ∧
      FileTree.RoomFor s.volume.tree request := by
    intro hret
    rcases write_cases hr with ⟨hne, -⟩ | hdone
    · exact absurd hret hne
    · obtain ⟨hno, hslot⟩ := writeScan_finRange_eq_some_true.mp hdone.scan
      refine ⟨?_, hroom.mp ⟨hslot, hdone.available⟩⟩
      rw [htaken]
      rintro ⟨i, ho, hsame⟩
      exact hno i ho hsame
  rcases hcase with ⟨hret, hquiet⟩ | ⟨hret, hmem, hsize, i, e, c, hadd, -⟩ |
    ⟨hret, hmem, hsize, i, e, l, hadd, hw⟩
  -- the write was refused: the name is taken, or there is no room for it
  · have hsame : SameDisk s r.fs := ⟨hquiet.clusterMap, hquiet.disk⟩
    rw [hsame.tree_eq, hquiet.mem]
    rw [write_eq, parentCheck_directory h hp] at hr
    cases hscan : writeScan request (s.volume.table request.parentClusterNumber)
        (List.finRange directoryEntryCount) false with
    | none =>
        rw [hscan] at hr
        cases hr
        exact .taken (htaken.mpr (writeScan_eq_none hscan))
    | some empty =>
        have hfree : ¬ FileTree.Taken s.volume.tree request := by
          rw [htaken]
          rintro ⟨i, ho, hsame⟩
          exact (writeScan_eq_some_iff.mp hscan).1 i (List.mem_finRange i) ho hsame
        rw [hscan] at hr
        cases empty with
        | false =>
            cases hr
            refine .noRoom hfree (mt hroom.mpr ?_)
            rintro ⟨⟨i, hi⟩, -⟩
            exact hi (writeScan_eq_some_false hscan i)
        | true =>
            dsimp only at hr
            split_ifs at hr with hav
            · cases hr
              exact .noRoom hfree (mt hroom.mpr fun hroom => not_lt.mpr hroom.2 hav)
            · cases hr
              exact absurd rfl hret
  -- the new folder is where the tree had none
  · obtain ⟨hfree, hfits⟩ := hdone hret
    rw [hret, hmem, hadd.tree h hq]
    exact .folderMade hsize hfree hfits (hadd.not_isFolder h)
  · obtain ⟨hfree, hfits⟩ := hdone hret
    rw [hret, hmem, hadd.tree h hq, hw.name_eq, hw.ext_eq, hw.content]
    exact .fileWritten hsize hfree hfits

/-! ### Deleting -/

/-- The entry that a deletion finds. -/
theorem deleteMatch_sees (h : v.Intact) (hp : v.Directory request.parentClusterNumber)
    (hm : deleteMatch request (v.table request.parentClusterNumber) = some i)
    (hs : (v.table request.parentClusterNumber i).IsSubdirectory) :
    request.ext = 0 ∧
      FileTree.Sees v.tree request (v.table request.parentClusterNumber i).cluster := by
  obtain ⟨ho, hn, hx⟩ := deleteMatch_eq_some hm
  exact ⟨hx.symm.trans (h.folder_ext hp ⟨ho, hs⟩), (tree_finds_iff h hp).mpr ⟨i, ⟨ho, hs⟩, hn, rfl⟩⟩

/-- The entry of a file that a deletion finds has the key of the request. -/
theorem deleteMatch_files (h : v.Intact) (hp : v.Directory request.parentClusterNumber)
    (hm : deleteMatch request (v.table request.parentClusterNumber) = some i)
    (hi : v.FileEntry request.parentClusterNumber i) :
    v.tree.files request.key ≠ none ∧
      (⟨request.parentClusterNumber, (v.table request.parentClusterNumber i).name,
        (v.table request.parentClusterNumber i).ext⟩ : FileKey) = request.key := by
  obtain ⟨-, hn, hx⟩ := deleteMatch_eq_some hm
  have hsome := hi.files_ne_none h hp
  rw [hn, hx] at hsome ⊢
  exact ⟨hsome, rfl⟩

/-- A deletion that finds no entry finds neither file nor folder. -/
theorem deleteMatch_none (h : v.Intact) (hp : v.Directory request.parentClusterNumber)
    (hm : deleteMatch request (v.table request.parentClusterNumber) = none) :
    v.tree.files request.key = none ∧
      (request.ext = 0 → ∀ e, ¬ FileTree.Sees v.tree request e) := by
  have hno := deleteMatch_eq_none_iff.mp hm
  constructor
  · show v.files request.key = none
    rw [files_eq_none_iff]
    rintro data ⟨i, l, -, hi, hn, hx, -⟩
    exact hno i hi.2.1 hn hx
  · intro hx
    apply (tree_finds_none_iff h hp).mpr
    intro i hi hn
    exact hno i hi.1 hn ((h.folder_ext hp hi).trans hx.symm)

/-- The code of a deletion that fails. -/
theorem delete_ret_some {mem : Memory} {r : Reply} (h : s.volume.Intact)
    (hp : s.volume.Directory request.parentClusterNumber)
    (hr : delete request mem s = .ok r) (hret : r.ret ≠ 0)
    (hm : deleteMatch request (s.volume.table request.parentClusterNumber) = some i) :
    r.ret ≠ 1 ∧ (s.volume.table request.parentClusterNumber i).IsSubdirectory := by
  rw [delete_eq, parentCheck_directory h hp, hm] at hr
  dsimp only at hr
  split_ifs at hr with hsub h0 hne
  · cases hr
    exact ⟨by simp, hsub⟩
  · cases hr
    exact ⟨by simp, hsub⟩
  · split at hr
    · cases hr
    · cases hr
      exact absurd rfl hret
  · split at hr
    · cases hr
    · cases hr
      exact absurd rfl hret

theorem delete_answers (mem : Memory) (hs : Tidy s)
    (hp : s.volume.Directory request.parentClusterNumber)
    (hsafe : ¬ s.volume.StrandsOnlyChild request) :
    ∃ r, delete request mem s = .ok r ∧
      Answers s.volume.tree ⟨.delete, request, mem⟩ r.ret r.mem r.fs.volume.tree := by
  have h := hs.wellFormed.toIntact
  have hq : s.volume.UniqueFiles := hs.uniqueFiles
  obtain ⟨r, hr, ⟨hret, hquiet⟩ | ⟨hret, hmem, i, hm, ⟨e, l, hrem⟩ | hst | ⟨e, hrem⟩⟩⟩ :=
    delete_refines mem h hp
  · refine ⟨r, hr, ?_⟩
    have hsame : SameDisk s r.fs := ⟨hquiet.clusterMap, hquiet.disk⟩
    rw [hsame.tree_eq, hquiet.mem]
    cases hm : deleteMatch request (s.volume.table request.parentClusterNumber) with
    | none =>
        obtain ⟨hfile, hfolder⟩ := deleteMatch_none h hp hm
        rw [delete_eq, parentCheck_directory h hp, hm] at hr
        cases hr
        exact .notThere hfile hfolder
    | some i =>
        obtain ⟨hone, hsub⟩ := delete_ret_some h hp hr hret hm
        obtain ⟨hx, hsees⟩ := deleteMatch_sees h hp hm hsub
        exact .folderKept hret hone hx hsees
  · refine ⟨r, hr, ?_⟩
    obtain ⟨hfile, hkey⟩ := deleteMatch_files h hp hm hrem.entry
    rw [hret, hmem, hrem.tree h hq, hkey]
    exact .fileDeleted hfile
  · exact absurd hst hsafe
  · refine ⟨r, hr, ?_⟩
    obtain ⟨hchild, hempty⟩ := hrem.tree_child h
    obtain ⟨hx, hsees⟩ := deleteMatch_sees h hp hm hrem.entry.2.2
    rw [hret, hmem, hrem.tree h hq]
    exact .folderDeleted hx hchild hsees.2 hempty

/-! ### Every request -/

/-- **The driver answers as the store does.** -/
theorem exec_answers (hs : Tidy s) (hc : Careful s call) :
    ∃ r, call.exec s = .ok r ∧
      Answers s.volume.tree call r.ret r.mem r.fs.volume.tree := by
  obtain ⟨hp, hsafe⟩ := hc
  rcases call with ⟨op, request, mem⟩
  cases op with
  | readDirectory =>
      obtain ⟨r, hr, hsame, hanswer⟩ := readDirectory_answers mem hs hp
      refine ⟨r, hr, ?_⟩
      rwa [hsame.tree_eq]
  | read =>
      obtain ⟨r, hr, hsame, hanswer⟩ := read_answers mem hs hp
      refine ⟨r, hr, ?_⟩
      rwa [hsame.tree_eq]
  | write => exact write_answers mem hs hp
  | delete => exact delete_answers mem hs hp (hsafe rfl)

end Binbows
