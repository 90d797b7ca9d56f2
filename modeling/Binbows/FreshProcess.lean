/-
Binbows/FreshProcess.lean

What a new process can see of the processes before it.

A creation takes the first slot and the first frames that are free, so two
kernels with the same slots and frames in use give a new process the same page
directory (`newDirectory`).  Its registers are set, but the two flags are put
into the `eflags` that the slot was left with, and of its frames only the clusters
of the file are written (`Covers`).

Main results: `fresh_start_sameLoad`, what is the same on two kernels, and
`fresh_start_iff`, when everything is.
-/
import Binbows.KernelRuns
import Binbows.FatOnDisk

namespace Binbows

open Bytes Run
open KernelState (pageFrameCountNeeded)

variable {k k' k₁ k₂ k₁' k₂' : KernelState} {p p' : PagingState} {request : FAT32DriverRequest}
  {i : Fin processCountMax} {d : Fin pagingDirectoryTableMaxCount} {n a : BitVec 32}
  {mem mem' mem₁ mem₂ mem₁' mem₂' : Memory} {ram : Ram}

/-! ### What `read` stores -/

/-- One of the clusters stored at these addresses lies over `a`. -/
def Covers (stores : List (BitVec 32)) (a : BitVec 32) : Prop :=
  ∃ b ∈ stores, (a - b).toNat < clusterSize

variable {t : FAT32FileAllocationTable} {disk : Disk} {fuel : Nat} {c buf : BitVec 32}

theorem covers_cons {b : BitVec 32} {stores : List (BitVec 32)} :
    Covers (b :: stores) a ↔ (a - b).toNat < clusterSize ∨ Covers stores a := by
  simp [Covers]

/-- The loop of `read` stores nothing anywhere else. -/
theorem readChain_outside (h : readChain t disk fuel c buf mem = .ok mem')
    (ha : ¬ Covers (chainStores t fuel c buf) a) : mem' a = mem a := by
  induction fuel generalizing c buf mem with
  | zero => cases h
  | succ fuel ih =>
      rw [readChain] at h
      rw [chainStores] at ha
      split_ifs at h ha
      · cases h
        rfl
      · dsimp only at h
        cases hnext : t.clusterMapAt c with
        | error e =>
            rw [hnext] at h
            cases h
        | ok next =>
            rw [hnext] at h ha
            obtain ⟨hfirst, hrest⟩ := not_or.mp (mt covers_cons.mpr ha)
            rw [ih h hrest]
            exact dif_neg hfirst

/-- What the loop of `read` stores depends on the table and the disk only. -/
theorem readChain_inside (h₁ : readChain t disk fuel c buf mem₁ = .ok mem₁')
    (h₂ : readChain t disk fuel c buf mem₂ = .ok mem₂')
    (ha : Covers (chainStores t fuel c buf) a) : mem₁' a = mem₂' a := by
  induction fuel generalizing c buf mem₁ mem₂ with
  | zero => cases h₁
  | succ fuel ih =>
      rw [readChain] at h₁ h₂
      rw [chainStores] at ha
      split_ifs at h₁ h₂ ha
      · obtain ⟨b, hb, -⟩ := ha
        cases hb
      · dsimp only at h₁ h₂
        cases hnext : t.clusterMapAt c with
        | error e =>
            rw [hnext] at h₁
            cases h₁
        | ok next =>
            rw [hnext] at h₁ h₂ ha
            by_cases hrest :
                Covers (chainStores t fuel next (buf + BitVec.ofNat 32 clusterSize)) a
            · exact ih h₁ h₂ hrest
            · -- only the first cluster lies over `a`
              have hfirst := (covers_cons.mp ha).resolve_right hrest
              rw [readChain_outside h₁ hrest, readChain_outside h₂ hrest]
              rw [Memory.store, Memory.store, dif_pos hfirst, dif_pos hfirst]

theorem readStores_eq {s : FsState} {x : Fin directoryEntryCount}
    (h : readMatch request (s.volume.table request.parentClusterNumber) = some x) :
    readStores request s = chainStores s.clusterMap chainFuel
      (s.volume.table request.parentClusterNumber x).cluster request.buf := by
  have h' : readMatch request (s.readDirTable request.parentClusterNumber).dirTableBuf = some x := h
  dsimp only [readStores]
  rw [h']
  rfl

theorem read_outside {s : FsState} {r : Reply} (h : read request mem s = .ok r) (hret : r.ret = 0)
    (ha : ¬ Covers (readStores request s) a) : r.mem a = mem a := by
  obtain ⟨x, hmatch, -, hchain⟩ := read_found h hret
  apply readChain_outside hchain
  rwa [readStores_eq hmatch] at ha

theorem readStores_congr {s s' : FsState} (h : SameDisk s s') :
    readStores request s' = readStores request s := by
  rw [readStores, readStores, readDirTable_congr h, h.clusterMap]
  rfl

/-- Two reads of one file from one disk store the same. -/
theorem read_inside {s₁ s₂ : FsState} {r₁ r₂ : Reply} (h : SameDisk s₁ s₂)
    (h₁ : read request mem₁ s₁ = .ok r₁) (hret₁ : r₁.ret = 0)
    (h₂ : read request mem₂ s₂ = .ok r₂) (hret₂ : r₂.ret = 0)
    (ha : Covers (readStores request s₁) a) : r₁.mem a = r₂.mem a := by
  obtain ⟨x, hmatch₁, -, hchain₁⟩ := read_found h₁ hret₁
  obtain ⟨y, hmatch₂, -, hchain₂⟩ := read_found h₂ hret₂
  rw [h.volume_eq] at hmatch₂ hchain₂
  rw [h.clusterMap, h.disk] at hchain₂
  obtain rfl : x = y := Option.some.inj (hmatch₁.symm.trans hmatch₂)
  apply readChain_inside hchain₁ hchain₂
  rwa [readStores_eq hmatch₁] at ha

/-! ### The pages of a new process -/

/-- The frames that are free, lowest first. -/
def PagingState.freeFrames (p : PagingState) : List (Fin pageFrameMaxCount) :=
  (List.finRange pageFrameMaxCount).filter fun f => !p.pageFrameMap f

/-- A directory after pages were mapped to frames, one after the other. -/
def mapPages : List (Fin processPageFrameCountMax) → List (Fin pageFrameMaxCount) →
    PageDirectory → PageDirectory
  | j :: js, f :: fs, dir =>
      mapPages js fs (Function.update dir (pageIndex (frameAddr j))
        (PagingState.makeEntry (pageFrameSize * BitVec.ofNat 32 f) PagingState.userFlag))
  | _, _, dir => dir

/-- The directory of a new process of `n` pages: page `j` on free frame `j`. -/
def newDirectory (p : PagingState) (n : BitVec 32) : PageDirectory :=
  mapPages (frameSlots n) p.freeFrames freshDirectory

variable {js : List (Fin processPageFrameCountMax)} {f : Fin pageFrameMaxCount}
  {fs : List (Fin pageFrameMaxCount)} {dir : PageDirectory} {page page' : Fin pageEntryCount}

theorem freeFrames_nodup : p.freeFrames.Nodup := by
  unfold PagingState.freeFrames
  exact (List.nodup_finRange _).sublist List.filter_sublist

theorem findFrame_eq : p.findFrame = p.freeFrames.head? :=
  List.head?_filter.symm

theorem freeFrames_markFrame (h : p.freeFrames = f :: fs) :
    (p.markFrame f true).freeFrames = fs := by
  have hnodup := freeFrames_nodup (p := p)
  rw [h, List.nodup_cons] at hnodup
  have hfilter : (p.markFrame f true).freeFrames = p.freeFrames.filter (· ≠ f) := by
    rw [PagingState.freeFrames, PagingState.freeFrames, List.filter_filter]
    congr 1
    funext g
    by_cases hg : g = f
    · simp [PagingState.markFrame, hg]
    · simp [PagingState.markFrame, hg]
  rw [hfilter, h, List.filter_cons_of_neg (by simp), List.filter_eq_self]
  intro g hg
  rw [decide_eq_true_eq]
  rintro rfl
  exact hnodup.1 hg

/-- While the counter allows it, a page is mapped to the first free frame. -/
theorem allocateUserPageFrame_eq {va : BitVec 32} (h : 1 ≤ p.freePageFrameCount) :
    p.allocateUserPageFrame (some (.list d)) va =
      match p.freeFrames with
      | [] => .ok (false, p)
      | f :: _ => .ok (true, (p.markFrame f true).updatePageDirectoryEntry (.list d)
          (pageFrameSize * BitVec.ofNat 32 f) va PagingState.userFlag) := by
  have hcheck : p.allocateCheck 1 = true := by simpa [PagingState.allocateCheck] using h
  rw [PagingState.allocateUserPageFrame, if_neg (not_not.mpr hcheck), findFrame_eq]
  cases p.freeFrames with
  | nil => rfl
  | cons f fs => rfl

/-- The mapping loop fills in the directory. -/
theorem mapFrames_pages (hcount : js.length ≤ k.paging.freePageFrameCount.toNat)
    (h : k.mapFrames i (some (.list d)) js = .ok k') :
    k'.paging.pageDirectoryList d =
      mapPages js k.paging.freeFrames (k.paging.pageDirectoryList d) := by
  induction js generalizing k with
  | nil =>
      cases h
      rfl
  | cons j js ih =>
      rw [List.length_cons] at hcount
      rw [KernelState.mapFrames, allocateUserPageFrame_eq (by bv_omega)] at h
      cases hfree : k.paging.freeFrames with
      | nil =>
          rw [hfree] at h
          rw [ih (by exact le_trans (Nat.le_succ _) hcount) h]
          show mapPages js k.paging.freeFrames _ = _
          rw [hfree]
          cases js <;> rfl
      | cons f fs =>
          rw [hfree] at h
          have hcount' : js.length ≤ (k.paging.freePageFrameCount - 1).toNat := by bv_omega
          rw [ih hcount' h]
          show mapPages js (k.paging.markFrame f true).freeFrames (Function.update
            k.paging.pageDirectoryList d (Function.update (k.paging.pageDirectoryList d) _ _) d) = _
          rw [freeFrames_markFrame hfree, Function.update_self]
          rfl

/-- An entry of the directory is one of the new pages, or what it was. -/
theorem mapPages_cases (js : List (Fin processPageFrameCountMax))
    (fs : List (Fin pageFrameMaxCount)) (dir : PageDirectory) (page : Fin pageEntryCount) :
    mapPages js fs dir page = dir page ∨
    ∃ (m : Nat) (j : Fin processPageFrameCountMax) (f : Fin pageFrameMaxCount),
      js[m]? = some j ∧ fs[m]? = some f ∧ page = pageIndex (frameAddr j) ∧
      mapPages js fs dir page =
        PagingState.makeEntry (pageFrameSize * BitVec.ofNat 32 f) PagingState.userFlag := by
  induction js generalizing fs dir with
  | nil => exact .inl rfl
  | cons j js ih =>
      cases fs with
      | nil => exact .inl rfl
      | cons f fs =>
          rw [mapPages]
          rcases ih fs (Function.update dir (pageIndex (frameAddr j)) _) with
            heq | ⟨m, j', f', hj, hf, hpage, heq⟩
          · by_cases hpage : page = pageIndex (frameAddr j)
            · refine .inr ⟨0, j, f, rfl, rfl, hpage, heq.trans ?_⟩
              rw [hpage, Function.update_self]
            · exact .inl (heq.trans (Function.update_of_ne hpage _ _))
          · exact .inr ⟨m + 1, j', f', hj, hf, hpage, heq⟩

/-- The user pages of a new process. -/
theorem newDirectory_user (h : (newDirectory p n page).IsUser) :
    ∃ (m : Nat) (j : Fin processPageFrameCountMax) (f : Fin pageFrameMaxCount),
      (frameSlots n)[m]? = some j ∧ p.freeFrames[m]? = some f ∧ page = pageIndex (frameAddr j) ∧
      (newDirectory p n page).frame = some f := by
  rcases mapPages_cases (frameSlots n) p.freeFrames freshDirectory page with
    heq | ⟨m, j, f, hj, hf, hpage, heq⟩
  · rw [newDirectory, heq, freshDirectory] at h
    split_ifs at h
    · exact absurd h.2 (by decide)
    · exact absurd h.1 (by decide)
  · refine ⟨m, j, f, hj, hf, hpage, ?_⟩
    rw [newDirectory, heq]
    exact PagingState.frame_userEntry f

/-- No two pages of a new process share a frame. -/
theorem newDirectory_frame_injective (h : (newDirectory p n page).IsUser)
    (h' : (newDirectory p n page').IsUser)
    (heq : (newDirectory p n page).frame = (newDirectory p n page').frame) : page = page' := by
  obtain ⟨m, j, f, hj, hf, rfl, hframe⟩ := newDirectory_user h
  obtain ⟨m', j', f', hj', hf', rfl, hframe'⟩ := newDirectory_user h'
  obtain rfl : f = f' := Option.some.inj (hframe.symm.trans (heq.trans hframe'))
  obtain rfl : m = m' := by
    apply (List.getElem?_inj (List.getElem?_eq_some_iff.mp hf).1 freeFrames_nodup).mp
    rw [hf, hf']
  rw [Option.some.inj (hj.symm.trans hj')]

theorem pageIndex_val (a : BitVec 32) : (pageIndex a).val = a.toNat / 2 ^ 22 := by
  have ha := a.isLt
  show ((a >>> 22) &&& 0x3FF#32).toNat = _
  rw [BitVec.toNat_and, BitVec.toNat_ushiftRight, Nat.shiftRight_eq_div_pow]
  show a.toNat / 2 ^ 22 &&& (2 ^ 10 - 1) = _
  rw [Nat.and_two_pow_sub_one_eq_mod]
  omega

theorem pageIndex_append (a : BitVec 32) :
    BitVec.ofNat 10 (pageIndex a) ++ a.setWidth 22 = a := by
  apply BitVec.eq_of_toNat_eq
  rw [BitVec.toNat_append, BitVec.toNat_ofNat, BitVec.toNat_setWidth]
  have hlt : a.toNat % 2 ^ 22 < 2 ^ 22 := Nat.mod_lt _ (by decide)
  rw [← Nat.shiftLeft_add_eq_or_of_lt hlt, Nat.shiftLeft_eq, pageIndex_val]
  have ha := a.isLt
  omega

theorem find?_finRange_unique {m : Nat} {q : Fin m → Bool} {x : Fin m} (hx : q x = true)
    (huniq : ∀ y, q y = true → y = x) : (List.finRange m).find? q = some x := by
  have hsome : ((List.finRange m).find? q).isSome := by
    rw [List.find?_isSome]
    exact ⟨x, List.mem_finRange x, hx⟩
  obtain ⟨y, hy⟩ := Option.isSome_iff_exists.mp hsome
  rw [hy, huniq y (List.find?_some hy)]

/-- What is written back to the frames of a process is what it sees then. -/
theorem addressSpace_writeBack (h : (newDirectory p n (pageIndex a)).IsUser) :
    (newDirectory p n).addressSpace ((newDirectory p n).writeBack mem ram) a = mem a := by
  obtain ⟨m, j, f, -, -, -, hframe⟩ := newDirectory_user h
  have hwrite : (newDirectory p n).writeBack mem ram f (a.setWidth 22) =
      mem (BitVec.ofNat 10 (pageIndex a) ++ a.setWidth 22) := by
    unfold PageDirectory.writeBack
    rw [find?_finRange_unique (x := pageIndex a)]
    · simpa using ⟨h, hframe⟩
    · intro page hpage
      rw [decide_eq_true_eq] at hpage
      exact newDirectory_frame_injective hpage.1 h (hpage.2.trans hframe.symm)
  unfold PageDirectory.addressSpace
  rw [hframe]
  exact hwrite.trans (congrArg mem (pageIndex_append a))

/-! ### A creation that succeeds -/

/-- What a new process in slot `i` starts with, on directory `d`. -/
structure Started (k k' : KernelState) (request : FAT32DriverRequest)
    (i : Fin processCountMax) (d : Fin pagingDirectoryTableMaxCount) (r : Reply) : Prop where
  read : read request ((newDirectory k.paging (pageFrameCountNeeded request)).addressSpace k.ram)
    k.fs = .ok r
  ret : r.ret = 0
  context : (k'.processList i).context = KernelState.initialContext
    { (k.processList i).context with pageDirectoryVirtualAddr := some (.list d) }
  directory : k'.paging.pageDirectoryList d = newDirectory k.paging (pageFrameCountNeeded request)
  ram : k'.ram = (newDirectory k.paging (pageFrameCountNeeded request)).writeBack r.mem k.ram

theorem startProcess_context (k : KernelState) (request : FAT32DriverRequest) (n : BitVec 32)
    (hi : k.processListGetInactiveIndex = some i) :
    ((k.startProcess i request n).processList i).context =
      KernelState.initialContext (k.processList i).context := by
  rw [KernelState.startProcess_processList request n hi]

theorem setStore_processList (k : KernelState) (fs : FsState) (ram : Ram) :
    (k.setStore fs ram).processList = k.processList := rfl

theorem setStore_paging (k : KernelState) (fs : FsState) (ram : Ram) :
    (k.setStore fs ram).paging = k.paging := rfl

theorem setStore_ram (k : KernelState) (fs : FsState) (ram : Ram) :
    (k.setStore fs ram).ram = ram := rfl

theorem startProcess_ram (k : KernelState) (i : Fin processCountMax)
    (request : FAT32DriverRequest) (n : BitVec 32) :
    (k.startProcess i request n).ram = k.ram := rfl

theorem startProcess_paging (k : KernelState) (i : Fin processCountMax)
    (request : FAT32DriverRequest) (n : BitVec 32) :
    (k.startProcess i request n).paging = k.paging := rfl

theorem directory_setCr3 (k : KernelState) (d : Fin pagingDirectoryTableMaxCount) :
    (k.setPaging (k.paging.setCr3 (.list d))).paging.directory
      (k.setPaging (k.paging.setCr3 (.list d))).paging.cr3 = k.paging.pageDirectoryList d := rfl

/-- The call of `read` in the address space of directory `d`. -/
theorem readFile_newSpace {ret : Int}
    (h : (k.setPaging (k.paging.setCr3 (.list d))).readFile request = .ok (ret, k')) :
    ∃ r, read request (PageDirectory.addressSpace (k.paging.pageDirectoryList d) k.ram) k.fs =
        .ok r ∧ r.ret = ret ∧
      k' = (k.setPaging (k.paging.setCr3 (.list d))).setStore r.fs
        (PageDirectory.writeBack (k.paging.pageDirectoryList d) r.mem k.ram) := by
  obtain ⟨r, hread, hret, hk'⟩ := KernelState.readFile_eq_ok h
  rw [directory_setCr3] at hread hk'
  exact ⟨r, hread, hret, hk'⟩

/-- The rest of a creation, with the directory of the new process filled in. -/
theorem finishLoad_started {r : Reply}
    (h : KernelState.finishLoad k request n i d r.ret = .ok (0, k')) :
    r.ret = 0 ∧ k' = k.startProcess i request n := by
  unfold KernelState.finishLoad at h
  split_ifs at h with hret
  · obtain ⟨p, -, h⟩ := bind_eq_ok.mp h
    cases h
  · cases h
    exact ⟨not_not.mp hret, rfl⟩

theorem loadProcess_started (hi : k.processListGetInactiveIndex = some i)
    (hcount : (pageFrameCountNeeded request).toNat ≤ processPageFrameCountMax)
    (hfree : (pageFrameCountNeeded request).toNat ≤ k.paging.freePageFrameCount.toNat)
    (h : k.loadProcess request (pageFrameCountNeeded request) i = .ok (0, k')) :
    ∃ d r, Started k k' request i d r := by
  rcases hfind : k.paging.findDirectory with - | d
  · exact absurd h (KernelState.loadProcess_ne_ok hfind)
  rw [KernelState.loadProcess, PagingState.createNewPageDirectory, hfind] at h
  obtain ⟨k₁, hmap, h⟩ := bind_eq_ok.mp h
  -- the directory is fresh when the loop starts
  have hpages := mapFrames_pages (by rw [length_frameSlots hcount]; exact hfree) hmap
  change k₁.paging.pageDirectoryList d = mapPages _ k.paging.freeFrames
    (Function.update k.paging.pageDirectoryList d freshDirectory d) at hpages
  rw [Function.update_self, ← newDirectory] at hpages
  obtain ⟨p₁, addrs, hcr, hk₁⟩ := mapFrames_eq_ok hmap
  rw [KernelState.setPaging_modifyPcb, KernelState.setPaging_setPaging,
    KernelState.modifyPcb_modifyPcb] at hk₁
  obtain ⟨p₂, huse, h⟩ := bind_eq_ok.mp h
  obtain ⟨_, hnext, rfl⟩ := KernelState.usePageDirectory_eq_ok.mp huse
  cases hnext
  obtain ⟨⟨ret, k₃⟩, hcall, h⟩ := bind_eq_ok.mp h
  obtain ⟨r, hread, rfl, rfl⟩ := readFile_newSpace hcall
  rw [hpages] at hread h
  -- the slot is as it was but for its frames and its directory
  have hpcb : k₁.processList i = { k.processList i with
      virtualAddrUsed := addrs
      context := { (k.processList i).context with
        pageDirectoryVirtualAddr := some (.list d) } } := by
    rw [hk₁, KernelState.modifyPcb_same]
    rfl
  have hindex : k₁.processListGetInactiveIndex = some i := by
    rw [← hi]
    refine KernelState.processListGetInactiveIndex_congr fun i' => ?_
    rcases eq_or_ne i' i with rfl | hne
    · rw [hpcb]
    · rw [hk₁, KernelState.modifyPcb_of_ne _ hne]
      rfl
  have hfs : k₁.fs = k.fs := by
    rw [hk₁]
    rfl
  have hram : k₁.ram = k.ram := by
    rw [hk₁]
    rfl
  -- the read stores into the pages of the new process alone
  rw [hfs, hram] at hread
  rw [hram] at h
  -- CR3 is back, and the control block is filled in
  change KernelState.finishLoad _ request _ i d r.ret = .ok (0, k') at h
  rw [KernelState.setCr3_back] at h
  obtain ⟨hret, rfl⟩ := finishLoad_started h
  have hcontext := startProcess_context (k₁.setStore r.fs ((newDirectory k.paging
    (pageFrameCountNeeded request)).writeBack r.mem k.ram)) request
    (pageFrameCountNeeded request) hindex
  rw [setStore_processList, hpcb] at hcontext
  refine ⟨d, r, hread, hret, hcontext, ?_, ?_⟩
  · rw [startProcess_paging, setStore_paging, hpages]
  · rw [startProcess_ram, setStore_ram]

/-- A creation that returns 0 has started a process in the first free slot. -/
theorem create_started (h : k.processCreateUserProcess request = .ok (0, k')) :
    ∃ i d r, k.processListGetInactiveIndex = some i ∧ Started k k' request i d r := by
  by_cases hp : k.PassesChecks request
  · obtain ⟨i, hi⟩ : ∃ i, k.processListGetInactiveIndex = some i := by
      by_contra hnone
      have hnone : k.processListGetInactiveIndex = none :=
        Option.eq_none_iff_forall_ne_some.mpr (not_exists.mp hnone)
      unfold KernelState.processCreateUserProcess at h
      dsimp only at h
      split_ifs at h
      · cases h
      · cases h
      · cases h
      · rw [hnone] at h
        cases h
    rw [KernelState.processCreateUserProcess_of_passes hp hi] at h
    obtain ⟨d, r, hstarted⟩ := loadProcess_started hi hp.count hp.free h
    exact ⟨i, d, r, hi, hstarted⟩
  · obtain ⟨ret, hne, heq⟩ := KernelState.processCreateUserProcess_of_not_passes hp
    rw [heq] at h
    cases h
    exact absurd rfl hne

/-! ### Two kernels -/

/-- The same file system, and the same slots and frames in use. -/
structure SameOccupancy (k₁ k₂ : KernelState) : Prop where
  fs : SameDisk k₁.fs k₂.fs
  slots : ∀ i, (k₂.processList i).state = .inactive ↔ (k₁.processList i).state = .inactive
  frames : k₂.paging.pageFrameMap = k₁.paging.pageFrameMap

/-- What the process in slot `i` reads at an address, in its own pages. -/
def KernelState.userByte (k : KernelState) (i : Fin processCountMax) (a : BitVec 32) :
    Option Byte :=
  match (k.processList i).directory with
  | none => none
  | some ref =>
      if (k.paging.directory ref (pageIndex a)).IsUser then
        some ((k.paging.directory ref).addressSpace k.ram a)
      else none

/-- The process in slot `i` starts in the same way: with the same registers,
the same flags and the same bytes in the same pages. -/
structure SameStart (k₁ k₂ : KernelState) (i : Fin processCountMax) : Prop where
  cpu : (k₁.processList i).context.cpu = (k₂.processList i).context.cpu
  eip : (k₁.processList i).context.eip = (k₂.processList i).context.eip
  eflags : (k₁.processList i).context.eflags = (k₂.processList i).context.eflags
  memory : ∀ a, k₁.userByte i a = k₂.userByte i a

theorem newDirectory_congr (h : p'.pageFrameMap = p.pageFrameMap) :
    newDirectory p' n = newDirectory p n := by
  rw [newDirectory, newDirectory, PagingState.freeFrames, PagingState.freeFrames, h]

theorem Started.userByte {r : Reply} (h : Started k k' request i d r) (a : BitVec 32) :
    k'.userByte i a =
      if (newDirectory k.paging (pageFrameCountNeeded request) (pageIndex a)).IsUser then
        some (r.mem a)
      else none := by
  have hdir : (k'.processList i).directory = some (.list d) := by
    rw [ProcessControlBlock.directory, h.context]
    rfl
  rw [KernelState.userByte, hdir]
  show (if PageDirectoryEntry.IsUser (k'.paging.pageDirectoryList d (pageIndex a)) then
    some (PageDirectory.addressSpace (k'.paging.pageDirectoryList d) k'.ram a) else none) = _
  rw [h.directory, h.ram]
  split_ifs with huser
  · rw [addressSpace_writeBack huser]
  · rfl

/-- What the frames of a new process hold at an address before the creation. -/
def KernelState.leftByte (k : KernelState) (request : FAT32DriverRequest) (a : BitVec 32) :
    Option Byte :=
  if (newDirectory k.paging (pageFrameCountNeeded request) (pageIndex a)).IsUser then
    some ((newDirectory k.paging (pageFrameCountNeeded request)).addressSpace k.ram a)
  else none

theorem leftByte_isSome : (k.leftByte request a).isSome ↔
    (newDirectory k.paging (pageFrameCountNeeded request) (pageIndex a)).IsUser := by
  rw [KernelState.leftByte]
  split_ifs with huser
  · simp [huser]
  · simp [huser]

theorem Started.userByte_isSome {r : Reply} (h : Started k k' request i d r) :
    (k'.userByte i a).isSome = (k.leftByte request a).isSome := by
  rw [h.userByte, KernelState.leftByte]
  split_ifs
  · rw [Option.isSome_some, Option.isSome_some]
  · rfl

/-- Outside of the file a new process sees what its frames held. -/
theorem Started.userByte_outside {r : Reply} (h : Started k k' request i d r)
    (ha : ¬ Covers (readStores request k.fs) a) : k'.userByte i a = k.leftByte request a := by
  rw [h.userByte, KernelState.leftByte, read_outside h.read h.ret ha]

/-- In the file it sees the file. -/
theorem Started.userByte_inside {d₁ d₂ : Fin pagingDirectoryTableMaxCount} {r₁ r₂ : Reply}
    (h : SameOccupancy k₁ k₂) (h₁ : Started k₁ k₁' request i d₁ r₁)
    (h₂ : Started k₂ k₂' request i d₂ r₂) (ha : Covers (readStores request k₁.fs) a) :
    k₁'.userByte i a = k₂'.userByte i a := by
  rw [h₁.userByte, h₂.userByte, newDirectory_congr h.frames,
    read_inside h.fs h₁.read h₁.ret h₂.read h₂.ret ha]

/-- Two kernels that create a process create it in the same slot. -/
theorem create_started_both (h : SameOccupancy k₁ k₂)
    (h₁ : k₁.processCreateUserProcess request = .ok (0, k₁'))
    (h₂ : k₂.processCreateUserProcess request = .ok (0, k₂')) :
    ∃ i d₁ d₂ r₁ r₂, k₁.processListGetInactiveIndex = some i ∧
      Started k₁ k₁' request i d₁ r₁ ∧ Started k₂ k₂' request i d₂ r₂ := by
  obtain ⟨i, d₁, r₁, hi₁, hs₁⟩ := create_started h₁
  obtain ⟨i₂, d₂, r₂, hi₂, hs₂⟩ := create_started h₂
  rw [KernelState.processListGetInactiveIndex_congr h.slots, hi₁] at hi₂
  obtain rfl : i = i₂ := Option.some.inj hi₂
  exact ⟨i, d₁, d₂, r₁, r₂, hi₁, hs₁, hs₂⟩

/-- What a creation sets: the registers, the pages, and the bytes of the file.
The rest of the pages is left as it was. -/
structure SameLoad (k₁ k₂ k₁' k₂' : KernelState) (request : FAT32DriverRequest)
    (i : Fin processCountMax) : Prop where
  cpu : (k₁'.processList i).context.cpu = (k₂'.processList i).context.cpu
  eip : (k₁'.processList i).context.eip = (k₂'.processList i).context.eip
  pages : ∀ a, (k₁'.userByte i a).isSome = (k₂'.userByte i a).isSome
  file : ∀ a, Covers (readStores request k₁.fs) a → k₁'.userByte i a = k₂'.userByte i a
  rest₁ : ∀ a, ¬ Covers (readStores request k₁.fs) a →
    k₁'.userByte i a = k₁.leftByte request a
  rest₂ : ∀ a, ¬ Covers (readStores request k₁.fs) a →
    k₂'.userByte i a = k₂.leftByte request a

/-- **A new process starts with the same registers and the same file.**  On two
kernels with the same file system and the same slots and frames in use, whatever
the processes before it did: a request that creates a process in both gives the
same registers, the same pages and the bytes of the file, and leaves the rest of
the pages as it was. -/
theorem fresh_start_sameLoad (h : SameOccupancy k₁ k₂)
    (h₁ : k₁.processCreateUserProcess request = .ok (0, k₁'))
    (h₂ : k₂.processCreateUserProcess request = .ok (0, k₂')) :
    ∃ i, k₁.processListGetInactiveIndex = some i ∧ k₂.processListGetInactiveIndex = some i ∧
      SameLoad k₁ k₂ k₁' k₂' request i := by
  obtain ⟨i, d₁, d₂, r₁, r₂, hi, hs₁, hs₂⟩ := create_started_both h h₁ h₂
  have hi₂ : k₂.processListGetInactiveIndex = some i := by
    rw [KernelState.processListGetInactiveIndex_congr h.slots, hi]
  have hstore : readStores request k₂.fs = readStores request k₁.fs := readStores_congr h.fs
  refine ⟨i, hi, hi₂, ?_⟩
  constructor
  · rw [hs₁.context, hs₂.context]
    rfl
  · rw [hs₁.context, hs₂.context]
    rfl
  · intro a
    rw [hs₁.userByte_isSome, hs₂.userByte_isSome]
    apply Bool.eq_iff_iff.mpr
    rw [leftByte_isSome, leftByte_isSome, newDirectory_congr h.frames]
  · exact fun a ha => Started.userByte_inside h hs₁ hs₂ ha
  · exact fun a ha => hs₁.userByte_outside ha
  · exact fun a ha => hs₂.userByte_outside (hstore ▸ ha)

/-- What was left behind in slot `i` and in the free frames is the same, as far
as a new process does not overwrite it: the flags but bits 1 and 9, and the bytes
of its pages that no cluster of the file covers. -/
structure SameResidue (k₁ k₂ : KernelState) (request : FAT32DriverRequest)
    (i : Fin processCountMax) : Prop where
  eflags : (k₁.processList i).context.eflags ||| 0x202#32 =
    (k₂.processList i).context.eflags ||| 0x202#32
  memory : ∀ a, ¬ Covers (readStores request k₁.fs) a →
    k₁.leftByte request a = k₂.leftByte request a

/-- **A new process starts in the same way on two kernels exactly if what was
left behind is the same.** -/
theorem fresh_start_iff (h : SameOccupancy k₁ k₂)
    (h₁ : k₁.processCreateUserProcess request = .ok (0, k₁'))
    (h₂ : k₂.processCreateUserProcess request = .ok (0, k₂')) :
    ∃ i, k₁.processListGetInactiveIndex = some i ∧
      (SameStart k₁' k₂' i ↔ SameResidue k₁ k₂ request i) := by
  obtain ⟨i, d₁, d₂, r₁, r₂, hi, hs₁, hs₂⟩ := create_started_both h h₁ h₂
  have hstore : readStores request k₂.fs = readStores request k₁.fs := readStores_congr h.fs
  have heflags : (k₁'.processList i).context.eflags = (k₂'.processList i).context.eflags ↔
      (k₁.processList i).context.eflags ||| 0x202#32 =
        (k₂.processList i).context.eflags ||| 0x202#32 := by
    rw [hs₁.context, hs₂.context]
    exact Iff.rfl
  refine ⟨i, hi, ?_⟩
  constructor
  · intro hsame
    refine ⟨heflags.mp hsame.eflags, fun a ha => ?_⟩
    rw [← hs₁.userByte_outside ha, ← hs₂.userByte_outside (hstore ▸ ha)]
    exact hsame.memory a
  · intro hres
    constructor
    · rw [hs₁.context, hs₂.context]
      rfl
    · rw [hs₁.context, hs₂.context]
      rfl
    · exact heflags.mpr hres.eflags
    · intro a
      by_cases ha : Covers (readStores request k₁.fs) a
      · exact Started.userByte_inside h hs₁ hs₂ ha
      · rw [hs₁.userByte_outside ha, hs₂.userByte_outside (hstore ▸ ha)]
        exact hres.memory a ha

/-! ### The runs of the examples -/

/-- A shell in slot 1 that is created, writes to its frames, is interrupted with
the given flags, and is killed. -/
def pastEvents (eflags : BitVec 32) (ram : Ram) : List KernelEvent :=
  [.create shellRequest, .timer { intNumber := 0x20#32 }, .user shellDisk ram,
    .timer { intNumber := 0x20#32, eflags := eflags }, .kill ![49#8, 0#8]]

/-- The kernel after that; the shell of process 0 runs. -/
def usedSlot (eflags : BitVec 32) (ram : Ram) : KernelState :=
  ((shellKernel.run (pastEvents eflags ram)).getD shellKernel).setStore shellDisk ram

def dirtyRam : Ram := fun _ _ => 1

/-- The slots and the frames in use. -/
def KernelState.occupancy (k : KernelState) : List Bool × List Bool :=
  ((List.finRange processCountMax).map fun i => decide ((k.processList i).state ≠ .inactive),
    (List.finRange pageFrameMaxCount).map fun f => k.paging.pageFrameMap f)

theorem sameOccupancy_of_eq (hfs : k₂.fs = k₁.fs) (h : k₂.occupancy = k₁.occupancy) :
    SameOccupancy k₁ k₂ := by
  obtain ⟨hslots, hframes⟩ := Prod.mk.inj h
  constructor
  · exact ⟨by rw [hfs], by rw [hfs]⟩
  · intro i
    exact not_iff_not.mp (decide_eq_decide.mp (List.map_inj_left.mp hslots i (List.mem_finRange i)))
  · exact funext fun f => List.map_inj_left.mp hframes f (List.mem_finRange f)

theorem usedSlot_fs {eflags : BitVec 32} {ram : Ram} : (usedSlot eflags ram).fs = shellDisk := by
  rw [usedSlot, KernelState.setStore_fs]

/-- Process 0 and its two frames. -/
def shellOnly : List Bool × List Bool :=
  (true :: List.replicate 15 false, List.replicate 3 true ++ List.replicate 29 false)

/-- A creation: its return code, and the flags and a byte of the stack that the
process in slot 1 starts with. -/
def KernelState.secondShell (k : KernelState) : Option (Int × BitVec 32 × Option Byte) :=
  (k.processCreateUserProcess shellRequest).toOption.map fun r =>
    (r.1, (r.2.processList 1).context.eflags, r.2.userByte 1 0x400000#32)

theorem secondShell_eq_some {flags : BitVec 32} {b : Option Byte}
    (h : k.secondShell = some (0, flags, b)) :
    ∃ k', k.processCreateUserProcess shellRequest = .ok (0, k') ∧
      (k'.processList 1).context.eflags = flags ∧ k'.userByte 1 0x400000#32 = b := by
  obtain ⟨⟨ret, k'⟩, hr, h⟩ := Option.map_eq_some_iff.mp h
  cases h
  exact ⟨k', toOption_eq_some.mp hr, rfl, rfl⟩

theorem usedSlot_eq : (shellKernel.run (pastEvents 0x202#32 noRam)).isSome ∧
    (usedSlot 0x202#32 noRam).occupancy = shellOnly ∧
    (usedSlot 0x202#32 noRam).processListGetInactiveIndex = some 1 ∧
    (usedSlot 0x202#32 noRam).secondShell = some (0, 0x202#32, some 0) := by
  decide +kernel

theorem dirtySlot_eq : (shellKernel.run (pastEvents 0x203#32 dirtyRam)).isSome ∧
    (usedSlot 0x203#32 dirtyRam).occupancy = shellOnly ∧
    (usedSlot 0x203#32 dirtyRam).secondShell = some (0, 0x203#32, some 1) := by
  decide +kernel

/-- Another shell in slot 1, after two pasts of the slot. -/
theorem fresh_start_secondShell :
    ∃ k₁' k₂', (usedSlot 0x202#32 noRam).processCreateUserProcess shellRequest = .ok (0, k₁') ∧
      (usedSlot 0x203#32 dirtyRam).processCreateUserProcess shellRequest = .ok (0, k₂') ∧
      SameLoad (usedSlot 0x202#32 noRam) (usedSlot 0x203#32 dirtyRam) k₁' k₂' shellRequest 1 := by
  obtain ⟨-, hocc₁, hindex, hshell₁⟩ := usedSlot_eq
  obtain ⟨-, hocc₂, hshell₂⟩ := dirtySlot_eq
  obtain ⟨k₁', h₁, -, -⟩ := secondShell_eq_some hshell₁
  obtain ⟨k₂', h₂, -, -⟩ := secondShell_eq_some hshell₂
  have hocc : SameOccupancy (usedSlot 0x202#32 noRam) (usedSlot 0x203#32 dirtyRam) :=
    sameOccupancy_of_eq (usedSlot_fs.trans usedSlot_fs.symm) (hocc₂.trans hocc₁.symm)
  obtain ⟨i, hi, -, hload⟩ := fresh_start_sameLoad hocc h₁ h₂
  obtain rfl : i = 1 := Option.some.inj (hi.symm.trans hindex)
  exact ⟨k₁', k₂', h₁, h₂, hload⟩

theorem usedSlot_reaches {eflags : BitVec 32} {ram : Ram}
    (h : (shellKernel.run (pastEvents eflags ram)).isSome) :
    Reaches KernelState.step (fun _ _ => True) shellKernel (usedSlot eflags ram) := by
  obtain ⟨k, hk⟩ := Option.isSome_iff_exists.mp h
  have hused : usedSlot eflags ram = k.setStore shellDisk ram := by
    rw [usedSlot, hk]
    rfl
  rw [hused]
  exact (KernelState.run_reaches hk).snoc (i := .user shellDisk ram) trivial rfl

/-- The same shell after a process that left the carry flag set and its frames
full of ones: it starts with both. -/
theorem start_not_fresh :
    ∃ k₁' k₂', kernelSetup shellDisk noRam = .ok shellKernel ∧
      Reaches KernelState.step (fun _ _ => True) shellKernel (usedSlot 0x202#32 noRam) ∧
      Reaches KernelState.step (fun _ _ => True) shellKernel (usedSlot 0x203#32 dirtyRam) ∧
      SameOccupancy (usedSlot 0x202#32 noRam) (usedSlot 0x203#32 dirtyRam) ∧
      (usedSlot 0x202#32 noRam).processCreateUserProcess shellRequest = .ok (0, k₁') ∧
      (usedSlot 0x203#32 dirtyRam).processCreateUserProcess shellRequest = .ok (0, k₂') ∧
      (k₁'.processList 1).context.eflags ≠ (k₂'.processList 1).context.eflags ∧
      k₁'.userByte 1 0x400000#32 ≠ k₂'.userByte 1 0x400000#32 ∧
      ¬ SameStart k₁' k₂' 1 := by
  obtain ⟨hrun₁, hocc₁, -, hshell₁⟩ := usedSlot_eq
  obtain ⟨hrun₂, hocc₂, hshell₂⟩ := dirtySlot_eq
  obtain ⟨k₁', h₁, hflags₁, hbyte₁⟩ := secondShell_eq_some hshell₁
  obtain ⟨k₂', h₂, hflags₂, hbyte₂⟩ := secondShell_eq_some hshell₂
  have hne : (k₁'.processList 1).context.eflags ≠ (k₂'.processList 1).context.eflags := by
    rw [hflags₁, hflags₂]
    decide
  have hne' : k₁'.userByte 1 0x400000#32 ≠ k₂'.userByte 1 0x400000#32 := by
    rw [hbyte₁, hbyte₂]
    decide
  exact ⟨k₁', k₂', shellKernel_setup, usedSlot_reaches hrun₁, usedSlot_reaches hrun₂,
    sameOccupancy_of_eq (usedSlot_fs.trans usedSlot_fs.symm) (hocc₂.trans hocc₁.symm), h₁, h₂,
    hne, hne', fun h => hne h.eflags⟩

end Binbows
