/-
Binbows/ProgramLoad.lean

What a new process runs.

`process_create_user_process` maps the pages of the process, reads the file into them, and
fills in the control block.  Where a directory is free and the file ends with the pages, all
of this goes through (`create_loads`), and the process has the bytes of the file from `buf`
on (`Started.userByte_loads`).
-/
import Binbows.LoadStores
import Binbows.FileContents

namespace Binbows

open Bytes Chain Run KernelState

variable {k k' : KernelState} {p : PagingState} {request : FAT32DriverRequest} {s : FsState}
  {n a c : BitVec 32} {i : Fin processCountMax} {d d' : Fin pagingDirectoryTableMaxCount}
  {data : List ClusterBuffer} {js : List (Fin processPageFrameCountMax)} {dir : PageDirectory}

/-! ### Up to the call of `read` -/

/-- The mapping loop fills in one directory. -/
theorem mapFrames_otherDirectories (h : k.mapFrames i (some (.list d)) js = .ok k')
    (hne : d' ≠ d) : k'.paging.pageDirectoryList d' = k.paging.pageDirectoryList d' := by
  induction js generalizing k with
  | nil =>
      cases h
      rfl
  | cons j js ih =>
      rw [KernelState.mapFrames] at h
      obtain ⟨⟨b, p₁⟩, halloc, h⟩ := bind_eq_ok.mp h
      refine (ih h).trans ?_
      show p₁.pageDirectoryList d' = _
      unfold PagingState.allocateUserPageFrame at halloc
      split_ifs at halloc
      · split at halloc
        · cases halloc
          rfl
        · cases halloc
          exact Function.update_of_ne hne _ _
      · cases halloc
        rfl

/-- The mapping loop leaves the driver and RAM alone. -/
theorem mapFrames_store (h : k.mapFrames i (some (.list d)) js = .ok k') :
    k'.fs = k.fs ∧ k'.ram = k.ram := by
  obtain ⟨p, addrs, -, rfl⟩ := mapFrames_eq_ok h
  exact ⟨rfl, rfl⟩

/-- Where a directory and enough frames are free, the file is read into the new address
space. -/
theorem loadProcess_readFile (request : FAT32DriverRequest) (i : Fin processCountMax)
    (h : k.Consistent) (hfind : k.paging.findDirectory = some d)
    (hn : n.toNat ≤ processPageFrameCountMax)
    (hfree : n.toNat ≤ k.paging.freePageFrameCount.toNat) :
    ∃ k₁ : KernelState, k₁.fs = k.fs ∧ k₁.ram = k.ram ∧
      k₁.paging.pageDirectoryList d = newDirectory k.paging n ∧
      (∀ d' ≠ d, k₁.paging.pageDirectoryList d' = k.paging.pageDirectoryList d') ∧
      k.loadProcess request n i =
        (k₁.setPaging (k₁.paging.setCr3 (.list d))).readFile request >>= fun r =>
          finishLoad (r.2.setPaging (r.2.paging.setCr3 k₁.paging.cr3)) request n i d r.1 := by
  obtain ⟨p₀, hnew, hd, hbal₀, -, -, -, hcount₀⟩ := createNewPageDirectory_balanced h hfind
  let k₀ := (k.setPaging p₀).modifyPcb i fun pcb =>
    { pcb with context := { pcb.context with pageDirectoryVirtualAddr := some (.list d) } }
  obtain ⟨p₁, hmap, -⟩ := mapFrames_balanced (k := k₀) (i := i) hbal₀ nodup_frameSlots
    (fun j _ => h.notMem_keys hd _) (by
      rw [length_frameSlots hn]
      exact hcount₀ ▸ hfree)
  obtain ⟨hfs, hram⟩ := mapFrames_store hmap
  -- the directory is fresh when the loop starts
  have hp₀ : p₀ = { k.paging with
      pageDirectoryUsed := Function.update k.paging.pageDirectoryUsed d true
      pageDirectoryList := Function.update k.paging.pageDirectoryList d freshDirectory } := by
    rw [PagingState.createNewPageDirectory, hfind] at hnew
    exact (Prod.mk.inj hnew).2.symm
  have hpages := mapFrames_pages (by
    rw [length_frameSlots hn]
    exact hcount₀ ▸ hfree) hmap
  refine ⟨_, hfs, hram, ?_, fun d' hne => ?_, ?_⟩
  · rw [hpages]
    show mapPages (frameSlots n) p₀.freeFrames (p₀.pageDirectoryList d) = _
    rw [hp₀]
    show mapPages (frameSlots n) k.paging.freeFrames
      (Function.update k.paging.pageDirectoryList d freshDirectory d) = _
    rw [Function.update_self]
    rfl
  · rw [mapFrames_otherDirectories hmap hne]
    show p₀.pageDirectoryList d' = _
    rw [hp₀]
    exact Function.update_of_ne hne _ _
  · rw [loadProcess, hnew]
    dsimp only
    rw [hmap]
    rfl

/-! ### The file -/

/-- The slot that `read` finds for a file. -/
theorem Tidy.namesSlot (hs : Tidy s) {j : Fin directoryEntryCount}
    (hd : s.volume.Directory request.parentClusterNumber)
    (hj : s.volume.FileEntry request.parentClusterNumber j)
    (hname : (s.volume.table request.parentClusterNumber j).name = request.name)
    (hext : (s.volume.table request.parentClusterNumber j).ext = request.ext) :
    NamesSlot s request j := by
  refine ⟨hj.2.1, hj.2.2, hname, hext, fun j' ho hfile hname' hext' => ?_⟩
  obtain hj' | ⟨hsub, -⟩ := hs.wellFormed.occupied_cases hd ho
  · exact hs.uniqueFiles hd hj' hj (hname'.trans hname.symm) (hext'.trans hext.symm)
  · exact absurd hsub hfile

/-- A file is stored cluster by cluster. -/
theorem readStores_hasFile (hs : Tidy s)
    (hf : s.volume.HasFile request.parentClusterNumber request.name request.ext data) :
    readStores request s = (List.range data.length).map
      fun m => request.buf + BitVec.ofNat 32 (m * clusterSize) := by
  obtain ⟨j, l, hd, hj, hname, hext, hl, rfl⟩ := hf
  have hr : ∀ b ∈ l, b.toNat < clusterMapSize := fun b hb => (hl.range b hb).2
  have hfuel : l.length < chainFuel := Nat.lt_succ_of_le (walk_length_le hl.walk hr)
  have hchain : chainIndices s.clusterMap chainFuel
      (s.volume.table request.parentClusterNumber j).cluster = l :=
    chainIndices_of_walk hl.walk hr hfuel
  rw [readStores_eq (hs.namesSlot hd hj hname hext).readMatch_eq, chainStores_eq, hchain,
    List.length_map]

/-- The file ends, in whole clusters, with the pages that are mapped for the request or
before. -/
def EndsInPages (request : FAT32DriverRequest) (data : List ClusterBuffer) : Prop :=
  request.buf.toNat + data.length * clusterSize ≤
    pagesFor request.bufferSize.toNat * pageFrameSize.toNat

/-- Where the file ends in the pages, each of its clusters lies in them. -/
theorem EndsInPages.holdsCluster (hroom : EndsInPages request data) (h : k.Consistent)
    (hp : k.PassesChecks request) {m : Nat} (hm : m < data.length) :
    (newDirectory k.paging (pageFrameCountNeeded request)).HoldsCluster
      (request.buf + BitVec.ofNat 32 (m * clusterSize)) := by
  have hpages := pagesFor_le hp
  have hmul : (m + 1) * clusterSize ≤ data.length * clusterSize := Nat.mul_le_mul_right _ hm
  have hend : request.buf.toNat + (m + 1) * clusterSize ≤
      pagesFor request.bufferSize.toNat * pageFrameSize.toNat :=
    le_trans (Nat.add_le_add_left hmul _) hroom
  rw [Nat.succ_mul] at hend
  have hinside : ∀ x < 2048, (request.buf + BitVec.ofNat 32 (m * clusterSize) +
      BitVec.ofNat 32 x).toNat < pagesFor request.bufferSize.toNat * pageFrameSize.toNat := by
    intro x hx
    generalize pagesFor request.bufferSize.toNat * pageFrameSize.toNat = bound at hpages hend ⊢
    generalize m * clusterSize = y at hend ⊢
    unfold clusterSize at hend
    bv_omega
  constructor
  · rw [newDirectory_isUser_pageIndex h hp]
    simpa using hinside 0 (by decide)
  · rw [newDirectory_isUser_pageIndex h hp]
    exact hinside (clusterSize - 1) (by decide)

/-- The call of `read` goes through, in an address space that holds the file. -/
theorem readFile_hasFile (hdir : k.paging.directory k.paging.cr3 = dir) (hs : Tidy k.fs)
    (hf : k.fs.volume.HasFile request.parentClusterNumber request.name request.ext data)
    (hsize : data.length * clusterSize ≤ request.bufferSize.toNat)
    (hholds : ∀ m < data.length,
      dir.HoldsCluster (request.buf + BitVec.ofNat 32 (m * clusterSize))) :
    ∃ r, read request (dir.addressSpace k.ram) k.fs = .ok r ∧ r.ret = 0 ∧
      r.mem = (dir.addressSpace k.ram).storeAll request.buf data ∧
      k.readFile request = .ok (0, k.setStore r.fs (dir.writeBack r.mem k.ram)) := by
  obtain ⟨r, hread, hret, hmem⟩ := read_hasFile (dir.addressSpace k.ram)
    hs.wellFormed.toIntact hs.uniqueFiles hf hsize
  have hall : (readStores request k.fs).all fun a => dir.HoldsCluster a := by
    rw [readStores_hasFile hs hf, List.all_eq_true]
    rintro a ha
    obtain ⟨m, hm, rfl⟩ := List.mem_map.mp ha
    exact decide_eq_true (hholds m (List.mem_range.mp hm))
  refine ⟨r, hread, hret, hmem, ?_⟩
  unfold KernelState.readFile
  dsimp only
  rw [hdir, hread]
  dsimp only
  rw [if_neg (fun hstray => hstray.2 hall), hret]

/-! ### A creation that goes through -/

/-- A creation that returns 0, seen from the tables and from the new process. -/
theorem create_created (h : k.Consistent) (hr : k.processCreateUserProcess request = .ok (0, k')) :
    ∃ i d r, k.processListGetInactiveIndex = some i ∧ k.PassesChecks request ∧
      Started k k' request i d r ∧ k.Created k' i d (pageFrameCountNeeded request) := by
  obtain ⟨i, d, r, hi, hstarted⟩ := create_started hr
  obtain ⟨hne, -⟩ | ⟨hp, i', d', -, -, -, ⟨hfour, -⟩ | ⟨-, -, hc⟩⟩ :=
    processCreateUserProcess_cases h hr
  · exact absurd rfl hne
  · exact absurd hfour (by decide)
  have hload := hr
  rw [processCreateUserProcess_of_passes hp hi] at hload
  obtain ⟨d₀, heffect⟩ := loadProcess_effect hi hp.count hload
  -- one slot changes
  obtain rfl : i' = i := by
    by_contra hne
    have hsame := congrArg ProcessControlBlock.state (heffect.others i' hne)
    rw [hc.state, hc.inactive] at hsame
    cases hsame
  obtain rfl : d' = d := by
    have hdir := hc.runsOn.directory
    rw [ProcessControlBlock.directory, hstarted.context] at hdir
    cases hdir
    rfl
  exact ⟨i', d', r, hi, hp, hstarted, hc⟩

/-- **A file that fits is loaded.** -/
theorem create_loads (h : k.Consistent) (hdirectory : k.paging.findDirectory ≠ none)
    (hp : k.PassesChecks request) (hs : Tidy k.fs)
    (hf : k.fs.volume.HasFile request.parentClusterNumber request.name request.ext data)
    (hsize : data.length * clusterSize ≤ request.bufferSize.toNat)
    (hroom : EndsInPages request data) :
    ∃ i d r k' mem₀, k.processCreateUserProcess request = .ok (0, k') ∧
      k.processListGetInactiveIndex = some i ∧ Started k k' request i d r ∧
      k.Created k' i d (pageFrameCountNeeded request) ∧
      r.mem = Memory.storeAll mem₀ request.buf data := by
  obtain ⟨i, hi⟩ := exists_inactiveIndex h hp.active
  obtain ⟨d, hfind⟩ := Option.ne_none_iff_exists'.mp hdirectory
  obtain ⟨k₁, hfs, hram, hpages, -, hload⟩ :=
    loadProcess_readFile request i h hfind hp.count hp.free
  have hdir : (k₁.setPaging (k₁.paging.setCr3 (.list d))).paging.directory
      (k₁.setPaging (k₁.paging.setCr3 (.list d))).paging.cr3 =
      newDirectory k.paging (pageFrameCountNeeded request) := hpages
  have hfs₁ : (k₁.setPaging (k₁.paging.setCr3 (.list d))).fs = k.fs := hfs
  have hram₁ : (k₁.setPaging (k₁.paging.setCr3 (.list d))).ram = k.ram := hram
  obtain ⟨r, hread, hret, hmem, hcall⟩ := readFile_hasFile hdir (hfs₁ ▸ hs) (hfs₁ ▸ hf) hsize
    fun m hm => hroom.holdsCluster h hp hm
  obtain ⟨k', hcreate⟩ : ∃ k', k.processCreateUserProcess request = .ok (0, k') := by
    rw [processCreateUserProcess_of_passes hp hi, hload, hcall]
    exact ⟨_, rfl⟩
  obtain ⟨i', d', r', hi', -, hstarted, hcreated⟩ := create_created h hcreate
  rw [hram₁] at hread hmem
  rw [hfs₁] at hread
  obtain rfl : r = r' := Except.ok.inj (hread.symm.trans hstarted.read)
  exact ⟨i', d', r, k', _, hcreate, hi', hstarted, hcreated, hmem⟩

/-- The bytes of the file, in the memory of the process. -/
theorem Started.userByte_loads {r : Reply} {mem₀ mem : Memory} {buf : BitVec 32} {m j : Nat}
    (hst : Started k k' request i d r) (h : k.Consistent) (hp : k.PassesChecks request)
    (hmem : r.mem = mem₀.storeAll request.buf (loads mem buf m))
    (hroom : EndsInPages request (loads mem buf m)) (hj : j < m * clusterSize) :
    k'.userByte i (request.buf + BitVec.ofNat 32 j) = some (mem (buf + BitVec.ofNat 32 j)) := by
  have hpages := pagesFor_le hp
  unfold EndsInPages at hroom
  rw [length_loads] at hroom
  have hlt : (request.buf + BitVec.ofNat 32 j).toNat <
      pagesFor request.bufferSize.toNat * pageFrameSize.toNat := by
    generalize m * clusterSize = y at *
    generalize pagesFor request.bufferSize.toNat * pageFrameSize.toNat = bound at *
    bv_omega
  rw [hst.userByte, if_pos ((newDirectory_isUser_pageIndex h hp).mpr hlt), hmem]
  congr 1
  exact Memory.storeAll_loads (by omega) hj

end Binbows
