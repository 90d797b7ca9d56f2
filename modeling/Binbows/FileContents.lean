/-
Binbows/FileContents.lean

What a file holds, from the `write` that made it to a later `read`.

`HasFile v d name ext data` says that directory `d` has the file `name.ext`
whose clusters hold `data`, in order.  A successful write brings such a file
about (`AddFile.hasFile`); every step of the abstract file system keeps it,
except the deletion of that very file (`RemoveFile.keeps` and its siblings);
and a read of it stores its data in the caller's memory (`read_hasFile`).  No two files of a
directory carry the same key (`UniqueFiles`), so it is this file that a read
finds.

Main result: `read_after_write`.
-/
import Binbows.FatOnDisk
import Binbows.EntryKeys

namespace Binbows

open Chain SlotTree Bytes Volume Run

variable {v v' : Volume} {d p c : BitVec 32} {i j : Fin directoryEntryCount}
  {l : List (BitVec 32)} {e : FAT32DirectoryEntry} {name : EntryName} {ext : EntryExt}
  {data : List ClusterBuffer}

/-! ### The caller's memory -/

variable {mem mem' : Memory} {addr : BitVec 32}

/-- A store changes the cluster at its address only. -/
theorem Memory.store_outside {block : ClusterBuffer} {a : BitVec 32}
    (h : clusterSize ≤ (a - addr).toNat) : mem.store addr block a = mem a :=
  dif_neg (not_lt.mpr h)

theorem Memory.store_inside {block : ClusterBuffer} {k : Nat} (h : k < clusterSize) :
    mem.store addr block (addr + BitVec.ofNat 32 k) = block ⟨k, h⟩ := by
  have hk : (addr + BitVec.ofNat 32 k - addr).toNat = k := by
    unfold clusterSize at h
    bv_omega
  unfold Memory.store
  rw [dif_pos (by rw [hk]; exact h)]
  exact congrArg block (Fin.ext hk)

/-- A cluster that is stored can be loaded again. -/
theorem Memory.load_store (mem : Memory) (addr : BitVec 32) (block : ClusterBuffer) :
    (mem.store addr block).load addr = block := by
  funext k
  exact Memory.store_inside k.isLt

/-- Stores from an address on change nothing behind their last cluster. -/
theorem Memory.storeAll_outside {a : BitVec 32} (hlen : data.length * clusterSize ≤ 2 ^ 32)
    (h : data.length * clusterSize ≤ (a - addr).toNat) : mem.storeAll addr data a = mem a := by
  induction data generalizing mem addr with
  | nil => rfl
  | cons block data ih =>
      rw [List.length_cons, Nat.succ_mul] at h hlen
      have hsub : (a - (addr + BitVec.ofNat 32 clusterSize)).toNat =
          (a - addr).toNat - clusterSize := by
        unfold clusterSize at *
        bv_omega
      have hrest : data.length * clusterSize ≤
          (a - (addr + BitVec.ofNat 32 clusterSize)).toNat := by
        rw [hsub]
        exact Nat.le_sub_of_add_le h
      rw [Memory.storeAll, ih (le_trans (Nat.le_add_right _ _) hlen) hrest]
      exact Memory.store_outside (le_trans (Nat.le_add_left _ _) h)

/-- Pieces of a buffer that are stored one after the other give the buffer
again. -/
theorem Memory.storeAll_loads {buf : BitVec 32} {n k : Nat} (hn : n * clusterSize ≤ 2 ^ 32)
    (hk : k < n * clusterSize) :
    mem'.storeAll addr (loads mem buf n) (addr + BitVec.ofNat 32 k) =
      mem (buf + BitVec.ofNat 32 k) := by
  induction n generalizing mem' addr buf k with
  | zero => omega
  | succ n ih =>
      rw [Nat.succ_mul n clusterSize] at hn hk
      have hn' : n * clusterSize ≤ 2 ^ 32 := le_trans (Nat.le_add_right _ _) hn
      rw [loads, Memory.storeAll]
      by_cases hfirst : k < clusterSize
      · -- byte `k` lies in the first piece, and the later ones do not reach it
        have hout : n * clusterSize ≤
            (addr + BitVec.ofNat 32 k - (addr + BitVec.ofNat 32 clusterSize)).toNat := by
          generalize n * clusterSize = m at hn
          unfold clusterSize at hn hfirst ⊢
          bv_omega
        rw [← length_loads mem (buf + BitVec.ofNat 32 clusterSize) n] at hn' hout
        rw [Memory.storeAll_outside hn' hout, Memory.store_inside hfirst]
        rfl
      · have hshift : ∀ b : BitVec 32, b + BitVec.ofNat 32 k =
            b + BitVec.ofNat 32 clusterSize + BitVec.ofNat 32 (k - clusterSize) := by
          intro b
          unfold clusterSize at *
          bv_omega
        have hk' : k - clusterSize < n * clusterSize := by
          unfold clusterSize at *
          omega
        rw [hshift addr, ih hn' hk', ← hshift]

/-- What is stored in a buffer is what its clusters begin with. -/
theorem prefix_loads {buf : BitVec 32} {n : Nat} (hlen : data.length ≤ n)
    (hn : n * clusterSize ≤ 2 ^ 32) : data <+: loads (mem.storeAll buf data) buf n := by
  induction data generalizing mem buf n with
  | nil => exact List.nil_prefix
  | cons block data ih =>
      obtain ⟨n, rfl⟩ : ∃ m, n = m + 1 := Nat.exists_eq_add_one.mpr (by
        rw [List.length_cons] at hlen
        omega)
      rw [List.length_cons] at hlen
      have hle : data.length ≤ n := Nat.le_of_succ_le_succ hlen
      have hmul : data.length * clusterSize ≤ n * clusterSize := Nat.mul_le_mul_right _ hle
      rw [Nat.succ_mul] at hn
      rw [loads, Memory.storeAll, List.cons_prefix_cons]
      refine ⟨(Memory.load_store mem buf block).symm.trans ?_,
        ih hle (le_trans (Nat.le_add_right _ _) hn)⟩
      -- the later clusters do not reach the first
      funext k
      unfold Memory.load
      symm
      apply Memory.storeAll_outside (le_trans hmul (le_trans (Nat.le_add_right _ _) hn))
      have hk := k.isLt
      obtain ⟨m, hm⟩ : ∃ m, m = n * clusterSize := ⟨_, rfl⟩
      rw [← hm] at hmul hn
      refine le_trans hmul ?_
      unfold clusterSize at hn hk ⊢
      bv_omega

/-! ### Files of a volume -/

/-- Directory `d` has the file `name.ext`, whose clusters hold `data`. -/
def Volume.HasFile (v : Volume) (d : BitVec 32) (name : EntryName) (ext : EntryExt)
    (data : List ClusterBuffer) : Prop :=
  ∃ i l, v.Directory d ∧ v.FileEntry d i ∧ (v.table d i).name = name ∧ (v.table d i).ext = ext ∧
    v.FileLinked d i l ∧ l.map v.content = data

/-- No two files of a directory carry the same name and extension. -/
def Volume.UniqueFiles (v : Volume) : Prop :=
  ∀ {d i j}, v.Directory d → v.FileEntry d i → v.FileEntry d j →
    (v.table d i).name = (v.table d j).name → (v.table d i).ext = (v.table d j).ext → i = j

/-- A file in a slot that is not edited, on clusters that keep their content,
stays. -/
theorem SlotEdit.hasFile (hu : SlotEdit v v' p i) (hd : v.Directory d) (hd' : v'.Directory d)
    (hne : d ≠ p ∨ j ≠ i) (hf : v.FileEntry d j) (hl : v.FileLinked d j l)
    (hc : ∀ c ∈ l, v'.content c = v.content c) :
    v'.HasFile d (v.table d j).name (v.table d j).ext (l.map v.content) := by
  have ht := hu.slot hd hd' hne
  refine ⟨j, l, hd', (hu.fileEntry_iff hd hd' hne).mpr hf, ?_, ?_, hu.fileLinked hd hd' hne hf hl,
    List.map_congr_left hc⟩
  · rw [ht]
  · rw [ht]

/-- A cluster of a file is no directory and not reserved. -/
theorem Volume.FileLinked.ne_directory (h : v.Intact) (hd : v.Directory d)
    (hf : v.FileEntry d j) (hl : v.FileLinked d j l) (hc : c ∈ l) (hp : v.Directory p) :
    c ≠ p ∧ c ≠ fatClusterNumber := by
  refine ⟨?_, (hl.range c hc).ne_fat⟩
  rintro rfl
  exact h.directory_notMem hd hf hl.walk hp hc

/-- A cluster of a file is not free. -/
theorem Volume.FileLinked.fat_ne_empty (h : v.Intact) (hd : v.Directory d)
    (hf : v.FileEntry d j) (hl : v.FileLinked d j l) (hc : c ∈ l) :
    v.fat c ≠ fat32FatEmptyEntry :=
  h.fat_ne_empty_of_owns ⟨hd, l, .file hf hl.walk, hc⟩

/-! ### Every edit keeps the other files -/

/-- Adding a file keeps the others. -/
theorem AddFile.keeps (hs : AddFile v v' p i e l) (h : v.Intact)
    (hf : v.HasFile d name ext data) : v'.HasFile d name ext data := by
  obtain ⟨j, m, hd, hj, rfl, rfl, hm, rfl⟩ := hf
  have hne : d ≠ p ∨ j ≠ i := by
    rcases slot_cases d p j i with hne | ⟨rfl, rfl⟩
    · exact hne
    · exact absurd hj.2.1 hs.slot
  refine (hs.slotEdit h).hasFile hd ((hs.directory_iff h).mpr hd) hne hj hm fun c hc => ?_
  obtain ⟨hcp, hcf⟩ := hm.ne_directory h hd hj hc hs.parent
  refine hs.frame c (hm.range c hc).2 (fun hcl => ?_) hcp hcf
  exact hm.fat_ne_empty h hd hj hc (hs.wasFree c hcl)

/-- Adding a directory keeps all files. -/
theorem AddDirectory.keeps {new : EntryName} {b : BitVec 32} (hs : AddDirectory v v' p i e new b)
    (h : v.Intact) (hf : v.HasFile d name ext data) : v'.HasFile d name ext data := by
  obtain ⟨j, m, hd, hj, rfl, rfl, hm, rfl⟩ := hf
  have hne : d ≠ p ∨ j ≠ i := by
    rcases slot_cases d p j i with hne | ⟨rfl, rfl⟩
    · exact hne
    · exact absurd hj.2.1 hs.slot
  refine (hs.slotEdit h).hasFile hd ((hs.directory_iff h).mpr (.inl hd)) hne hj hm fun c hc => ?_
  obtain ⟨hcp, hcf⟩ := hm.ne_directory h hd hj hc hs.parent
  refine hs.frame c (hm.range c hc).2 ?_ hcp hcf
  rintro rfl
  exact hm.fat_ne_empty h hd hj hc hs.wasFree

/-- Removing a file keeps the files with another key. -/
theorem RemoveFile.keeps (hs : RemoveFile v v' p i e l) (h : v.Intact)
    (hkey : d = p → (v.table p i).name = name → (v.table p i).ext ≠ ext)
    (hf : v.HasFile d name ext data) : v'.HasFile d name ext data := by
  obtain ⟨j, m, hd, hj, rfl, rfl, hm, rfl⟩ := hf
  have hne : d ≠ p ∨ j ≠ i := by
    rcases slot_cases d p j i with hne | ⟨rfl, rfl⟩
    · exact hne
    · exact absurd rfl (hkey rfl rfl)
  refine (hs.slotEdit h).hasFile hd ((hs.directory_iff h).mpr hd) hne hj hm fun c hc => ?_
  obtain ⟨hcp, hcf⟩ := hm.ne_directory h hd hj hc hs.parent
  refine hs.frame c (hm.range c hc).2 (fun hcl => ?_) hcp hcf
  -- a cluster in both chains would make the two slots one
  obtain ⟨rfl, rfl⟩ := h.owner_unique ⟨hd, m, .file hj hm.walk, hc⟩ (hs.owns_iff.mpr hcl)
  tauto

/-- Removing an empty directory keeps all files. -/
theorem RemoveDirectory.keeps {b : BitVec 32} (hs : RemoveDirectory v v' p i e b)
    (h : v.Intact) (hf : v.HasFile d name ext data) : v'.HasFile d name ext data := by
  obtain ⟨j, m, hd, hj, rfl, rfl, hm, rfl⟩ := hf
  have hne : d ≠ p ∨ j ≠ i := by
    rcases slot_cases d p j i with hne | ⟨rfl, rfl⟩
    · exact hne
    · exact absurd hs.entry.2.2 hj.2.2
  have hdb : d ≠ b := by
    rintro rfl
    exact hs.empty j hj.1 hj.2.1
  refine (hs.slotEdit h).hasFile hd ((hs.directory_iff h).mpr ⟨hd, hdb⟩) hne hj hm fun c hc => ?_
  obtain ⟨hcp, hcf⟩ := hm.ne_directory h hd hj hc hs.parent
  exact hs.frame c (hm.range c hc).2 (hm.ne_directory h hd hj hc hs.directory_victim).1 hcp hcf

/-- A new file is there. -/
theorem AddFile.hasFile (hs : AddFile v v' p i e l) (h : v.Intact) :
    v'.HasFile p e.name e.ext (l.map v'.content) := by
  refine ⟨i, l, (hs.directory_iff h).mpr hs.parent, hs.fileEntry_new h, ?_, ?_, ?_, rfl⟩
  · rw [hs.slot_new]
  · rw [hs.slot_new]
  · refine ⟨?_, hs.range, hs.nonempty, ?_⟩
    · rw [hs.slot_new]
      exact hs.walk_new
    · rw [hs.slot_new]
      exact hs.size

/-! ### One file for a key -/

theorem Volume.uniqueFiles_iff :
    v.UniqueFiles ↔ v.UniqueSlots fun e => e.Occupied ∧ ¬ e.IsSubdirectory := by
  constructor
  · intro h d i j hd hi hj hqi hqj
    exact h hd ⟨hi, hqi⟩ ⟨hj, hqj⟩
  · intro h d i j hd hi hj
    exact h hd hi.1 hj.1 hi.2 hj.2

/-- **Every step keeps the keys of files apart.** -/
theorem VolumeStep.uniqueFiles (hs : VolumeStep v v') (h : v.Intact) (hq : v.UniqueFiles) :
    v'.UniqueFiles := by
  rw [Volume.uniqueFiles_iff] at hq ⊢
  have hocc : ∀ e : FAT32DirectoryEntry, e.Occupied ∧ ¬ e.IsSubdirectory → e.Occupied :=
    fun _ he => he.1
  cases hs with
  | addFile hs => exact hs.uniqueSlots hocc h hq
  | addDirectory hs =>
      refine hs.uniqueSlots hocc h hq fun he => ?_
      exact absurd hs.entry.isSubdirectory he.2
  | removeFile hs => exact hs.uniqueSlots hocc h hq
  | removeDirectory hs => exact hs.toUnlinkDirectory.uniqueSlots hocc h hq

theorem createFat32_uniqueFiles (s : FsState) : (createFat32 s).volume.UniqueFiles := by
  intro d i j hd hi
  obtain rfl := createFat32_directory_iff.mp hd
  exact absurd hi.2.1 (createFat32_not_occupied hi.1)

/-! ### Reading a file -/

variable {request : FAT32DriverRequest} {s s' s₀ : FsState} {r : Reply}

/-- The request names the file in slot `i` of its parent, and no other. -/
structure NamesSlot (s : FsState) (request : FAT32DriverRequest) (i : Fin directoryEntryCount) :
    Prop where
  occupied : (s.volume.table request.parentClusterNumber i).Occupied
  file : ¬ (s.volume.table request.parentClusterNumber i).IsSubdirectory
  name_eq : (s.volume.table request.parentClusterNumber i).name = request.name
  ext_eq : (s.volume.table request.parentClusterNumber i).ext = request.ext
  unique : ∀ j, (s.volume.table request.parentClusterNumber j).Occupied →
    ¬ (s.volume.table request.parentClusterNumber j).IsSubdirectory →
    (s.volume.table request.parentClusterNumber j).name = request.name →
    (s.volume.table request.parentClusterNumber j).ext = request.ext → j = i

theorem NamesSlot.readMatch_eq (hi : NamesSlot s request i) :
    readMatch request (s.volume.table request.parentClusterNumber) = some i := by
  cases hm : readMatch request (s.volume.table request.parentClusterNumber) with
  | none => exact absurd hi.ext_eq (readMatch_eq_none_iff.mp hm i hi.occupied hi.file hi.name_eq)
  | some j =>
      obtain ⟨ho, hs, hn, hx⟩ := readMatch_eq_some hm
      rw [hi.unique j ho hs hn hx]

/-- A read of a file copies its chain out, where the buffer is large enough. -/
theorem read_slot (mem : Memory) (hlt : request.parentClusterNumber.toNat < clusterMapSize)
    (heof : s.volume.fat request.parentClusterNumber = fat32FatEndOfFile)
    (hi : NamesSlot s request i)
    (hw : Walk s.volume.fat fat32FatEndOfFile
      (s.volume.table request.parentClusterNumber i).cluster l)
    (hr : ∀ c ∈ l, c.toNat < clusterMapSize)
    (hsize : (s.volume.table request.parentClusterNumber i).filesize ≤ request.bufferSize) :
    ∃ r, read request mem s = .ok r ∧ r.ret = 0 ∧
      r.mem = mem.storeAll request.buf (l.map s.volume.content) := by
  refine ⟨⟨0, mem.storeAll request.buf (l.map s.volume.content),
    s.readDirTable request.parentClusterNumber⟩, ?_, rfl, rfl⟩
  have heof' : s.clusterMap.view request.parentClusterNumber = fat32FatEndOfFile := heof
  rw [read_eq, parentCheck_of_lt hlt, if_pos heof', hi.readMatch_eq]
  have hfound : readFound request mem (s.readDirTable request.parentClusterNumber) i = _ :=
    readFound_of_walk hw hr
  rwa [if_neg (BitVec.not_lt.mpr hsize)] at hfound

/-- **A read of a file stores its data**, where the buffer is large enough. -/
theorem read_hasFile (mem : Memory) (h : s.volume.Intact) (hq : s.volume.UniqueFiles)
    (hf : s.volume.HasFile request.parentClusterNumber request.name request.ext data)
    (hsize : data.length * clusterSize ≤ request.bufferSize.toNat) :
    ∃ r, read request mem s = .ok r ∧ r.ret = 0 ∧ r.mem = mem.storeAll request.buf data := by
  obtain ⟨i, l, hd, hi, hn, hx, hl, rfl⟩ := hf
  have hun : NamesSlot s request i := by
    refine ⟨hi.2.1, hi.2.2, hn, hx, fun j ho hs hnj hxj => ?_⟩
    obtain hfj | ⟨hsub, -⟩ := h.occupied_cases hd ho
    · exact hq hd hfj hi (hnj.trans hn.symm) (hxj.trans hx.symm)
    · exact absurd hsub hs
  refine read_slot mem (h.directory_lt hd) (h.fat_directory hd) hun hl.walk
    (fun c hc => (hl.range c hc).2) ?_
  rw [List.length_map, ← hl.size] at hsize
  exact hsize

/-! ### Histories -/

/-- What happens to the file system: a request, or a run of
`initialize_filesystem_fat32` on the disk as it is, with the driver's memory in
any state. -/
inductive FsEvent
  | call (c : FsCall)
  | restart (driver : FsState)

def FsState.event (s : FsState) : FsEvent → Option FsState
  | .call c => s.step c
  | .restart driver => some (initializeFilesystemFat32 { driver with disk := s.disk })

/-- Requests below directories that delete no folder. -/
def KeepsFolders (s : FsState) (c : FsCall) : Prop := OnDirectory s c ∧ DeletesFile s c

/-- A deletion of `name.ext` below `d` fails. -/
def KeepsFile (d : BitVec 32) (name : EntryName) (ext : EntryExt) (s : FsState) (c : FsCall) :
    Prop :=
  c.op = .delete → c.request.parentClusterNumber = d → c.request.name = name →
    c.request.ext = ext → ∀ r, c.exec s = .ok r → r.ret ≠ 0

/-- The guard of the histories after a file was written. -/
def Later (d : BitVec 32) (name : EntryName) (ext : EntryExt) (s : FsState) : FsEvent → Prop
  | .call c => KeepsFolders s c ∧ KeepsFile d name ext s c
  | .restart _ => True

/-- A mounted file system whose files have different keys. -/
structure Tidy (s : FsState) : Prop extends Mounted s where
  uniqueFiles : s.volume.UniqueFiles

theorem SameDisk.tidy (h : SameDisk s s') (hs : Tidy s) : Tidy s' where
  toMounted := h.mounted hs.toMounted
  uniqueFiles := by
    rw [h.volume_eq]
    exact hs.uniqueFiles

theorem exec_tidy {c : FsCall} (hs : Tidy s) (hc : Careful s c) (h : c.exec s = .ok r) :
    Tidy r.fs := by
  refine ⟨exec_mounted hs.toMounted hc h, ?_⟩
  obtain ⟨r', hr', hcase⟩ := exec_refines hs.wellFormed.toIntact hc.1 hc.2
  obtain rfl : r = r' := Except.ok.inj (h.symm.trans hr')
  rcases hcase with hsame | hvol
  · rw [hsame.volume_eq]
    exact hs.uniqueFiles
  · exact hvol.uniqueFiles hs.wellFormed.toIntact hs.uniqueFiles

theorem KeepsFolders.careful {c : FsCall} (h : s.volume.WellFormed) (hc : KeepsFolders s c) :
    Careful s c :=
  ⟨hc.1, hc.2.safeDelete h hc.1⟩

theorem keepsFolders_tidy (h : Reaches FsState.step KeepsFolders (createFat32 s₀) s) : Tidy s := by
  refine h.invariant (I := Tidy) ⟨createFat32_mounted s₀, createFat32_uniqueFiles s₀⟩ ?_
  intro s c s' hs hc hstep
  obtain ⟨r, hr, rfl⟩ := step_eq_some.mp hstep
  exact exec_tidy hs (hc.careful hs.wellFormed) hr

/-- **A request that does not delete a file keeps it, with its content.** -/
theorem exec_hasFile {c : FsCall} (hs : Tidy s) (hc : KeepsFolders s c)
    (hk : KeepsFile d name ext s c) (hf : s.volume.HasFile d name ext data)
    (h : c.exec s = .ok r) : r.fs.volume.HasFile d name ext data := by
  have hwf := hs.wellFormed
  have hp : s.volume.Directory c.request.parentClusterNumber := hc.1
  have hsame : SameDisk s r.fs → r.fs.volume.HasFile d name ext data := by
    intro hsame
    rw [hsame.volume_eq]
    exact hf
  rcases c with ⟨op, request, mem⟩
  cases op with
  | read => exact hsame (read_fs h).1
  | readDirectory => exact hsame (readDirectory_fs h).1
  | write =>
      obtain ⟨r', hr', hcase⟩ := write_refines mem hwf.toIntact hp
      obtain rfl : r = r' := Except.ok.inj (h.symm.trans hr')
      rcases hcase with ⟨-, hq⟩ | ⟨-, -, -, i, e, b, hadd, -⟩ | ⟨-, -, -, i, e, l, hadd, -⟩
      · exact hsame ⟨hq.clusterMap, hq.disk⟩
      · exact hadd.keeps hwf.toIntact hf
      · exact hadd.keeps hwf.toIntact hf
  | delete =>
      obtain ⟨r', hr', hcase⟩ := delete_refines mem hwf.toIntact hp
      obtain rfl : r = r' := Except.ok.inj (h.symm.trans hr')
      rcases hcase with ⟨-, hq⟩ | ⟨hret, -, i, hm, ⟨e, l, hrem⟩ | hst | ⟨e, hrem⟩⟩
      · exact hsame ⟨hq.clusterMap, hq.disk⟩
      · obtain ⟨-, hn, hx⟩ := deleteMatch_eq_some hm
        refine hrem.keeps hwf.toIntact ?_ hf
        intro hd hn' hx'
        exact hk rfl hd.symm (hn.symm.trans hn') (hx.symm.trans hx') r h hret
      · exact absurd hst (hc.2.safeDelete hwf hc.1 rfl)
      · exact hrem.keeps hwf.toIntact hf

/-- What a file's history keeps: the file is there, on a disk that a restart
does not notice. -/
structure Durable (d : BitVec 32) (name : EntryName) (ext : EntryExt) (data : List ClusterBuffer)
    (s : FsState) : Prop where
  tidy : Tidy s
  synced : Synced s
  hasFile : s.volume.HasFile d name ext data

/-- A restart keeps the file. -/
theorem Durable.restart (h : Durable d name ext data s) (driver : FsState) :
    Durable d name ext data (initializeFilesystemFat32 { driver with disk := s.disk }) := by
  have hsame := initialize_sameDisk { driver with disk := s.disk } h.synced
    h.tidy.signed rfl
  refine ⟨hsame.tidy h.tidy, hsame.synced_iff.mpr h.synced, ?_⟩
  rw [hsame.volume_eq]
  exact h.hasFile

theorem later_durable (h : Reaches FsState.event (Later d name ext) s s')
    (hs : Durable d name ext data s) : Durable d name ext data s' := by
  refine h.invariant (I := Durable d name ext data) hs ?_
  intro s e s' hs hok hstep
  cases e with
  | call c =>
      obtain ⟨r, hr, rfl⟩ := step_eq_some.mp hstep
      exact ⟨exec_tidy hs.tidy (hok.1.careful hs.tidy.wellFormed) hr, exec_synced hs.synced hr,
        exec_hasFile hs.tidy hok.1 hok.2 hs.hasFile hr⟩
  | restart driver =>
      have hs' : initializeFilesystemFat32 { driver with disk := s.disk } = s' :=
        Option.some.inj hstep
      rw [← hs']
      exact hs.restart driver

/-- A write that returns 0 makes a durable file. -/
theorem write_durable (hs : Tidy s) (hp : s.volume.Directory request.parentClusterNumber)
    (hsize : request.bufferSize ≠ 0) (h : write request mem s = .ok r) (hret : r.ret = 0) :
    Durable request.parentClusterNumber request.name request.ext
      (loads mem request.buf (neededSize request.bufferSize)) r.fs := by
  refine ⟨?_, write_synced h hret, ?_⟩
  · exact exec_tidy (c := ⟨.write, request, mem⟩) hs ⟨hp, fun h => by cases h⟩ h
  · obtain ⟨r', hr', hcase⟩ := write_refines mem hs.wellFormed.toIntact hp
    obtain rfl : r = r' := Except.ok.inj (h.symm.trans hr')
    rcases hcase with ⟨hne, -⟩ | ⟨-, -, h0, -⟩ | ⟨-, -, -, i, e, l, hadd, hw⟩
    · exact absurd hret hne
    · exact absurd h0 hsize
    · have hf := hadd.hasFile hs.wellFormed.toIntact
      rwa [hw.name_eq, hw.ext_eq, hw.content] at hf

/-- **Durable read-after-write.**  What a write of a file put on the disk is
what a later read of that file stores, whatever was written, read, deleted and
restarted in between, as long as the file itself and folders are not deleted. -/
theorem read_after_write (w rd : FAT32DriverRequest) {wmem : Memory} (rmem : Memory)
    (hbefore : Reaches FsState.step KeepsFolders (createFat32 s₀) s)
    (hparent : s.volume.Directory w.parentClusterNumber) (hsize : w.bufferSize ≠ 0)
    (hwrite : write w wmem s = .ok r) (hret : r.ret = 0)
    (hafter : Reaches FsState.event (Later w.parentClusterNumber w.name w.ext) r.fs s')
    (hd : rd.parentClusterNumber = w.parentClusterNumber) (hname : rd.name = w.name)
    (hext : rd.ext = w.ext)
    (hbuf : (w.bufferSize.toNat + (clusterSize - 1)) / clusterSize * clusterSize ≤
      rd.bufferSize.toNat) :
    ∃ r', read rd rmem s' = .ok r' ∧ r'.ret = 0 ∧
      ∀ k < w.bufferSize.toNat,
        r'.mem (rd.buf + BitVec.ofNat 32 k) = wmem (w.buf + BitVec.ofNat 32 k) := by
  have hs := later_durable hafter
    (write_durable (keepsFolders_tidy hbefore) hparent hsize hwrite hret)
  rw [← neededSize_eq hsize] at hbuf
  have hf := hs.hasFile
  rw [← hd, ← hname, ← hext] at hf
  obtain ⟨r', hr', hret', hmem⟩ := read_hasFile rmem hs.tidy.wellFormed.toIntact
    hs.tidy.uniqueFiles hf (by rw [length_loads]; exact hbuf)
  refine ⟨r', hr', hret', fun k hk => ?_⟩
  rw [hmem]
  refine Memory.storeAll_loads (hbuf.trans (le_of_lt rd.bufferSize.isLt)) ?_
  rw [neededSize_eq hsize]
  unfold clusterSize
  omega

theorem read_after_write_oneFolder :
    ∃ r r', write (makeFile rootClusterNumber 'b').request (fun _ => 7) oneFolder = .ok r ∧
      read ⟨0, letterName 'b', 0, rootClusterNumber, 2048⟩ (fun _ => 0)
        (initializeFilesystemFat32 r.fs) = .ok r' ∧ r'.ret = 0 ∧
      ∀ k < 1, r'.mem (0 + BitVec.ofNat 32 k) = 7 := by
  obtain ⟨r, hr, hret⟩ := ret_eq_some.mp oneFolder_write_ret
  rw [exec_write] at hr
  have hrestart : Reaches FsState.event (Later rootClusterNumber (letterName 'b') 0) r.fs
      (initializeFilesystemFat32 r.fs) :=
    Relation.ReflTransGen.single ⟨.restart r.fs, trivial, rfl⟩
  obtain ⟨r', hr', hrest⟩ := read_after_write (makeFile rootClusterNumber 'b').request
    ⟨0, letterName 'b', 0, rootClusterNumber, 2048⟩ (fun _ => 0)
    (oneFolder_reaches ⟨.root, fun h => by cases h⟩) .root (by decide) hr hret
    hrestart rfl rfl rfl (by decide)
  exact ⟨r, r', hr, hr', hrest⟩

end Binbows
