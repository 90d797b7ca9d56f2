/-
Binbows/ProcessSpec.lean

What the creation and the destruction of a process do to the tables.

`KernelState.Consistent` ties the tables together: every process in use has a
directory of its own, its recorded addresses are the first pages of that
directory, and the frame tables are the books of the pages so recorded
(`KernelState.keys`).  From a consistent state

* `processCreateUserProcess_cases` lists the outcomes of a creation: refused
  by a check, nothing changed; failed in `read`, the directory stays taken
  (`ReadFailed`); done (`Created`);
* `processDestroy_cases` lists those of a destruction (`Destroyed`).

`create_consistent` and `destroy_consistent` conclude that both keep the
tables consistent.
-/
import Binbows.Library.Run
import Binbows.Scheduler

namespace Binbows

open Bytes Run

variable {k k' : KernelState} {p p' : PagingState} {request : FAT32DriverRequest} {ret : Int}
  {i i' : Fin processCountMax} {d : Fin pagingDirectoryTableMaxCount} {n pid : BitVec 32}
  {js : List (Fin processPageFrameCountMax)}
  {S : Set (Fin pagingDirectoryTableMaxCount × Fin pageEntryCount)}

/-! ### The pages of a process -/

theorem mem_frameSlots {j : Fin processPageFrameCountMax} :
    j ∈ frameSlots n ↔ j.val < n.toNat := by
  simp [frameSlots]

theorem nodup_frameSlots : (frameSlots n).Nodup := (List.nodup_finRange _).filter _

theorem length_frameSlots (hn : n.toNat ≤ processPageFrameCountMax) :
    (frameSlots n).length = n.toNat := by
  have h : ∀ m ≤ processPageFrameCountMax,
      ((List.finRange processPageFrameCountMax).filter fun j => j.val < m).length = m := by
    decide
  exact h n.toNat hn

/-- Page `j` of a process is entry `j` of its directory. -/
theorem pageIndex_frameAddr (j : Fin processPageFrameCountMax) :
    (pageIndex (frameAddr j)).val = j := by
  revert j
  decide

theorem pageIndex_frameAddr_injective :
    Function.Injective fun j => pageIndex (frameAddr j) := by
  intro j j' h
  have hval := congrArg Fin.val h
  simp only [pageIndex_frameAddr] at hval
  exact Fin.ext hval

/-- The entries of directory `d` for the pages `js`. -/
def pageKeys (d : Fin pagingDirectoryTableMaxCount) (js : List (Fin processPageFrameCountMax)) :
    Set (Fin pagingDirectoryTableMaxCount × Fin pageEntryCount) :=
  {q | q.1 = d ∧ ∃ j ∈ js, q.2 = pageIndex (frameAddr j)}

@[simp] theorem pageKeys_nil : pageKeys d [] = ∅ := by
  ext q
  simp [pageKeys]

theorem pageKeys_cons {j : Fin processPageFrameCountMax} :
    pageKeys d (j :: js) = insert (d, pageIndex (frameAddr j)) (pageKeys d js) := by
  ext ⟨q, page⟩
  simp only [pageKeys, List.mem_cons, Set.mem_ofPred_eq, Set.mem_insert_iff, Prod.mk.injEq]
  constructor
  · rintro ⟨rfl, j', rfl | hj', rfl⟩
    · exact .inl ⟨rfl, rfl⟩
    · exact .inr ⟨rfl, j', hj', rfl⟩
  · rintro (⟨rfl, rfl⟩ | ⟨rfl, j', hj', rfl⟩)
    · exact ⟨rfl, j, .inl rfl, rfl⟩
    · exact ⟨rfl, j', .inr hj', rfl⟩

theorem notMem_pageKeys {j : Fin processPageFrameCountMax} (hj : j ∉ js) :
    (d, pageIndex (frameAddr j)) ∉ pageKeys d js := by
  rintro ⟨-, j', hj', h⟩
  exact hj (pageIndex_frameAddr_injective h ▸ hj')

/-! ### The loops over the pages -/

/-- Record the addresses of the pages `js`. -/
def ProcessControlBlock.record (pcb : ProcessControlBlock)
    (js : List (Fin processPageFrameCountMax)) : ProcessControlBlock :=
  { pcb with
    virtualAddrUsed := fun j => if j ∈ js then frameAddr j else pcb.virtualAddrUsed j }

theorem ProcessControlBlock.record_cons (pcb : ProcessControlBlock)
    {j : Fin processPageFrameCountMax} :
    ProcessControlBlock.record
      { pcb with virtualAddrUsed := Function.update pcb.virtualAddrUsed j (frameAddr j) } js =
      pcb.record (j :: js) := by
  simp only [record, List.mem_cons]
  congr
  funext j'
  by_cases hj : j' = j
  · subst hj
    simp
  · simp [hj]

@[simp] theorem KernelState.modifyPcb_same (f : ProcessControlBlock → ProcessControlBlock) :
    (k.modifyPcb i f).processList i = f (k.processList i) := by
  simp [modifyPcb]

theorem KernelState.modifyPcb_of_ne (f : ProcessControlBlock → ProcessControlBlock) (h : i' ≠ i) :
    (k.modifyPcb i f).processList i' = k.processList i' := by
  simp [modifyPcb, h]

@[simp] theorem KernelState.modifyPcb_modifyPcb (f g : ProcessControlBlock → ProcessControlBlock) :
    (k.modifyPcb i f).modifyPcb i g = k.modifyPcb i fun pcb => g (f pcb) := by
  simp [modifyPcb]

@[simp] theorem KernelState.setPaging_modifyPcb
    (f : ProcessControlBlock → ProcessControlBlock) :
    (k.modifyPcb i f).setPaging p = (k.setPaging p).modifyPcb i f := rfl

@[simp] theorem KernelState.setPaging_setPaging : (k.setPaging p).setPaging p' = k.setPaging p' :=
  rfl

/-- While frames are left, the mapping loop takes one for each page. -/
theorem mapFrames_balanced (hbal : k.paging.Balanced S) (hjs : js.Nodup)
    (hS : ∀ j ∈ js, (d, pageIndex (frameAddr j)) ∉ S)
    (hfree : js.length ≤ k.paging.freePageFrameCount.toNat) :
    ∃ p, k.mapFrames i (some (.list d)) js = .ok ((k.setPaging p).modifyPcb i (·.record js)) ∧
      p.Balanced (S ∪ pageKeys d js) ∧ (∀ q ∈ S, p.frameAt q = k.paging.frameAt q) ∧
      PagingState.SameDirectories k.paging p := by
  induction js generalizing k S with
  | nil =>
      refine ⟨k.paging, ?_, by simpa using hbal, fun _ _ => rfl, rfl, rfl⟩
      simp [KernelState.mapFrames, KernelState.setPaging, KernelState.modifyPcb,
        ProcessControlBlock.record]
  | cons j js ih =>
      obtain ⟨hj, hnodup⟩ := List.nodup_cons.mp hjs
      rw [List.length_cons] at hfree
      obtain ⟨f, p₁, halloc, hbal₁, hat₁, hcount₁, hsame₁⟩ :=
        PagingState.allocateUserPageFrame_balanced hbal (hS j List.mem_cons_self) (by omega)
      -- the state in which the loop goes on
      let k₁ := (k.setPaging p₁).modifyPcb i fun pcb =>
        { pcb with virtualAddrUsed := Function.update pcb.virtualAddrUsed j (frameAddr j) }
      -- the pages are different, so the later ones are still free
      have hS₁ : ∀ j' ∈ js, (d, pageIndex (frameAddr j')) ∉
          insert (d, pageIndex (frameAddr j)) S := by
        rintro j' hj' (he | hm)
        · have := pageIndex_frameAddr_injective (Prod.ext_iff.mp he).2
          exact hj (this ▸ hj')
        · exact hS j' (List.mem_cons_of_mem j hj') hm
      have hfree₁ : js.length ≤ k₁.paging.freePageFrameCount.toNat := by
        show js.length ≤ p₁.freePageFrameCount.toNat
        omega
      obtain ⟨p, hloop, hbal', hat, hsame⟩ := ih (k := k₁) hbal₁ hnodup hS₁ hfree₁
      refine ⟨p, ?_, ?_, ?_, hsame₁.trans hsame⟩
      · rw [KernelState.mapFrames, bind_eq_ok]
        refine ⟨_, halloc, hloop.trans ?_⟩
        simp only [k₁, KernelState.setPaging_modifyPcb, KernelState.setPaging_setPaging,
          KernelState.modifyPcb_modifyPcb, ProcessControlBlock.record_cons]
      · rw [pageKeys_cons, Set.union_insert, ← Set.insert_union]
        exact hbal'
      · intro q hq
        rw [hat q (Set.mem_insert_of_mem _ hq)]
        show p₁.frameAt q = _
        rw [hat₁, Function.update_of_ne]
        rintro rfl
        exact hS j List.mem_cons_self hq

/-- The unmapping loop gives the frames of its pages back. -/
theorem unmapFrames_balanced (hbal : p.Balanced (S ∪ pageKeys d js)) (hjs : js.Nodup)
    (hS : ∀ j ∈ js, (d, pageIndex (frameAddr j)) ∉ S) :
    ∃ p', KernelState.unmapFrames (some (.list d)) (js.map frameAddr) p = .ok p' ∧
      p'.Balanced S ∧ (∀ q ∈ S, p'.frameAt q = p.frameAt q) ∧
      PagingState.SameDirectories p p' := by
  induction js generalizing p with
  | nil => exact ⟨p, rfl, by simpa using hbal, fun _ _ => rfl, rfl, rfl⟩
  | cons j js ih =>
      obtain ⟨hj, hnodup⟩ := List.nodup_cons.mp hjs
      rw [pageKeys_cons, Set.union_insert] at hbal
      obtain ⟨p₁, hfree, hbal₁, hat₁, hsame₁⟩ :=
        PagingState.freeUserPageFrame_balanced hbal (Set.mem_insert _ _)
      have hset : insert (d, pageIndex (frameAddr j)) (S ∪ pageKeys d js) \
          {(d, pageIndex (frameAddr j))} = S ∪ pageKeys d js := by
        refine Set.insert_sdiff_self_of_notMem ?_
        rintro (hm | hm)
        · exact hS j List.mem_cons_self hm
        · exact notMem_pageKeys hj hm
      rw [hset] at hbal₁
      obtain ⟨p', hloop, hbal', hat, hsame⟩ :=
        ih hbal₁ hnodup fun j' hj' => hS j' (List.mem_cons_of_mem j hj')
      refine ⟨p', ?_, hbal', ?_, hsame₁.trans hsame⟩
      · rw [List.map_cons, KernelState.unmapFrames, bind_eq_ok]
        exact ⟨_, hfree, hloop⟩
      · intro q hq
        rw [hat q hq, hat₁, Function.update_of_ne]
        rintro rfl
        exact hS j List.mem_cons_self hq

/-! ### Consistent tables -/

/-- Slot `i` holds a process. -/
def KernelState.Active (k : KernelState) (i : Fin processCountMax) : Prop :=
  (k.processList i).state ≠ .inactive

instance : Decidable (k.Active i) := inferInstanceAs (Decidable (_ ≠ _))

/-- The directory entries that the processes have recorded. -/
def KernelState.keys (k : KernelState) :
    Set (Fin pagingDirectoryTableMaxCount × Fin pageEntryCount) :=
  {q | ∃ i, k.Active i ∧ (k.processList i).directory = some (.list q.1) ∧
    q ∈ pageKeys q.1 (frameSlots (k.processList i).pageFrameUsedCount)}

/-- The control block of a process in slot `i` that runs on directory `d`. -/
structure ProcessControlBlock.RunsOn (pcb : ProcessControlBlock) (i : Fin processCountMax)
    (d : Fin pagingDirectoryTableMaxCount) : Prop where
  pid : pcb.pid = BitVec.ofNat 32 i
  directory : pcb.directory = some (.list d)
  count_le : pcb.pageFrameUsedCount.toNat ≤ processPageFrameCountMax
  addrs : ∀ j ∈ frameSlots pcb.pageFrameUsedCount, pcb.virtualAddrUsed j = frameAddr j

structure KernelState.Consistent (k : KernelState) : Prop where
  balanced : k.paging.Balanced k.keys
  runsOn : ∀ i, k.Active i → ∃ d, (k.processList i).RunsOn i d ∧ k.paging.pageDirectoryUsed d
  directory_inj : ∀ i i', k.Active i → k.Active i' →
    (k.processList i).directory = (k.processList i').directory → i = i'
  active_eq : k.activeProcessCount = (Finset.univ.filter k.Active).card

namespace KernelState

/-- A slot becomes active: there is one active slot more. -/
theorem card_active_insert (hi : ¬ k.Active i) (hi' : k'.Active i)
    (h : ∀ i' ≠ i, (k'.Active i' ↔ k.Active i')) :
    (Finset.univ.filter k'.Active).card = (Finset.univ.filter k.Active).card + 1 := by
  have hset : Finset.univ.filter k'.Active = insert i (Finset.univ.filter k.Active) := by
    ext i'
    rcases eq_or_ne i' i with rfl | hne
    · simp [hi']
    · simp [h i' hne, hne]
  rw [hset, Finset.card_insert_of_notMem (by simp [hi])]

namespace Consistent

/-- An unused directory has no recorded entries. -/
theorem notMem_keys (h : k.Consistent) (hd : k.paging.pageDirectoryUsed d = false)
    (page : Fin pageEntryCount) : (d, page) ∉ k.keys := by
  rintro ⟨i, hi, hdir, -⟩
  obtain ⟨d', hruns, hused⟩ := h.runsOn i hi
  obtain rfl : d' = d := by
    have hd' := hruns.directory.symm.trans hdir
    simpa using hd'
  rw [hd] at hused
  exact absurd hused (by simp)

/-- Only the books and what active slots record matter. -/
theorem congr (h : k.Consistent) (hbal : k'.paging.Balanced k.keys)
    (hused : ∀ d, k.paging.pageDirectoryUsed d → k'.paging.pageDirectoryUsed d)
    (hactive : ∀ i, (k'.Active i ↔ k.Active i))
    (hpid : ∀ i, k.Active i → (k'.processList i).pid = (k.processList i).pid)
    (hdir : ∀ i, k.Active i → (k'.processList i).directory = (k.processList i).directory)
    (hcount : ∀ i, k.Active i →
      (k'.processList i).pageFrameUsedCount = (k.processList i).pageFrameUsedCount)
    (haddrs : ∀ i, k.Active i →
      (k'.processList i).virtualAddrUsed = (k.processList i).virtualAddrUsed)
    (hn : k'.activeProcessCount = k.activeProcessCount) : k'.Consistent where
  balanced := by
    -- the keys depend on the active slots and on what they hold
    have hkeys : k'.keys = k.keys := by
      ext q
      refine exists_congr fun i => ?_
      rw [hactive i]
      refine and_congr_right fun hi => ?_
      rw [hdir i hi, hcount i hi]
    rw [hkeys]
    exact hbal
  runsOn i hi := by
    have hi' := (hactive i).mp hi
    obtain ⟨d, hruns, hd⟩ := h.runsOn i hi'
    refine ⟨d, ⟨?_, ?_, ?_, ?_⟩, hused d hd⟩
    · rw [hpid i hi']
      exact hruns.pid
    · rw [hdir i hi']
      exact hruns.directory
    · rw [hcount i hi']
      exact hruns.count_le
    · rw [hcount i hi', haddrs i hi']
      exact hruns.addrs
  directory_inj i i' hi hi' heq := by
    have hi := (hactive i).mp hi
    have hi' := (hactive i').mp hi'
    rw [hdir i hi, hdir i' hi'] at heq
    exact h.directory_inj i i' hi hi' heq
  active_eq := by
    rw [hn, h.active_eq, Finset.filter_congr fun i _ => (hactive i).symm]

end Consistent

/-! ### Creating a process -/

theorem processListGetInactiveIndex_congr
    (h : ∀ i, (k'.processList i).state = .inactive ↔ (k.processList i).state = .inactive) :
    k'.processListGetInactiveIndex = k.processListGetInactiveIndex := by
  unfold processListGetInactiveIndex
  congr
  funext i
  rw [decide_eq_decide]
  exact h i

theorem processListGetInactiveIndex_inactive (h : k.processListGetInactiveIndex = some i) :
    (k.processList i).state = .inactive := by
  simpa using List.find?_some h

/-- The kernel's call of `read` changes the driver and RAM. -/
theorem readFile_eq_ok (h : k.readFile request = .ok (ret, k')) :
    ∃ r, read request ((k.paging.directory k.paging.cr3).addressSpace k.ram) k.fs = .ok r ∧
      r.ret = ret ∧ k' = k.setStore r.fs
        ((k.paging.directory k.paging.cr3).writeBack r.mem k.ram) := by
  unfold readFile at h
  dsimp only at h
  split at h
  · cases h
  · next r hr =>
    split_ifs at h
    cases h
    exact ⟨r, hr, rfl, rfl⟩

/-- The three checks of `process_create_user_process` let the request pass. -/
structure PassesChecks (k : KernelState) (request : FAT32DriverRequest) : Prop where
  active : k.activeProcessCount < processCountMax
  entry : request.buf < kernelVirtualAddressBase
  free : (pageFrameCountNeeded request).toNat ≤ k.paging.freePageFrameCount.toNat
  count : (pageFrameCountNeeded request).toNat ≤ processPageFrameCountMax

/-- What `process_create_user_process` comes down to after its checks. -/
theorem processCreateUserProcess_of_passes (hp : PassesChecks k request)
    (hi : k.processListGetInactiveIndex = some i) :
    k.processCreateUserProcess request =
      k.loadProcess request (pageFrameCountNeeded request) i := by
  have hcheck : k.paging.allocateCheck (pageFrameCountNeeded request) := by
    simpa [PagingState.allocateCheck] using BitVec.le_def.mpr hp.free
  have hcount : ¬ BitVec.ofNat 32 processPageFrameCountMax < pageFrameCountNeeded request :=
    BitVec.not_lt.mpr (BitVec.le_def.mpr hp.count)
  unfold processCreateUserProcess
  dsimp only
  rw [if_neg (not_le.mpr hp.active), if_neg (BitVec.not_le.mpr hp.entry),
    if_neg (not_or.mpr ⟨not_not.mpr hcheck, hcount⟩), hi]

theorem processCreateUserProcess_of_not_passes (hp : ¬ PassesChecks k request) :
    ∃ ret, ret ≠ 0 ∧ k.processCreateUserProcess request = .ok (ret, k) := by
  unfold processCreateUserProcess
  dsimp only
  split_ifs with hactive hentry hmem
  · exact ⟨1, by decide, rfl⟩
  · exact ⟨2, by decide, rfl⟩
  · exact ⟨3, by decide, rfl⟩
  · obtain ⟨hfree, hcount⟩ := not_or.mp hmem
    refine absurd ⟨not_le.mp hactive, BitVec.not_le.mp hentry, ?_, ?_⟩ hp
    · exact BitVec.le_def.mp (by simpa [PagingState.allocateCheck] using hfree)
    · exact BitVec.le_def.mp (BitVec.not_lt.mp hcount)

/-- A slot is left where not all processes are active. -/
theorem exists_inactiveIndex (h : k.Consistent) (hlt : k.activeProcessCount < processCountMax) :
    ∃ i, k.processListGetInactiveIndex = some i := by
  refine Option.isSome_iff_exists.mp ?_
  rw [processListGetInactiveIndex, List.find?_isSome]
  by_contra hall
  have hactive : ∀ i, k.Active i := by
    intro i hi
    exact hall ⟨i, List.mem_finRange i, by simpa using hi⟩
  rw [h.active_eq, Finset.filter_true_of_mem fun i _ => hactive i, Finset.card_univ,
    Fintype.card_fin] at hlt
  exact lt_irrefl _ hlt

/-- A creation that `read` refused. -/
structure ReadFailed (k k' : KernelState) (i : Fin processCountMax)
    (d : Fin pagingDirectoryTableMaxCount) : Prop where
  inactive : (k.processList i).state = .inactive
  unused : k.paging.pageDirectoryUsed d = false
  balanced : k'.paging.Balanced k.keys
  frameAt : ∀ q ∈ k.keys, k'.paging.frameAt q = k.paging.frameAt q
  used : k'.paging.pageDirectoryUsed = Function.update k.paging.pageDirectoryUsed d true
  cr3 : k'.paging.cr3 = k.paging.cr3
  others : ∀ i' ≠ i, k'.processList i' = k.processList i'
  state : (k'.processList i).state = .inactive
  pid : (k'.processList i).pid = (k.processList i).pid
  active : k'.activeProcessCount = k.activeProcessCount
  current : k'.currentPid = k.currentPid

/-- A process was created in slot `i`, on directory `d`. -/
structure Created (k k' : KernelState) (i : Fin processCountMax)
    (d : Fin pagingDirectoryTableMaxCount) (n : BitVec 32) : Prop where
  inactive : (k.processList i).state = .inactive
  unused : k.paging.pageDirectoryUsed d = false
  balanced : k'.paging.Balanced (k.keys ∪ pageKeys d (frameSlots n))
  used : k'.paging.pageDirectoryUsed = Function.update k.paging.pageDirectoryUsed d true
  cr3 : k'.paging.cr3 = k.paging.cr3
  others : ∀ i' ≠ i, k'.processList i' = k.processList i'
  state : (k'.processList i).state = .ready
  runsOn : (k'.processList i).RunsOn i d
  count : (k'.processList i).pageFrameUsedCount = n
  active : k'.activeProcessCount = k.activeProcessCount + 1
  current : k'.currentPid = k.currentPid

/-- A new directory has no entries that any process has recorded. -/
theorem createNewPageDirectory_balanced (h : k.Consistent)
    (hfind : k.paging.findDirectory = some d) :
    ∃ p, k.paging.createNewPageDirectory = (some (.list d), p) ∧
      k.paging.pageDirectoryUsed d = false ∧ p.Balanced k.keys ∧
      (∀ q ∈ k.keys, p.frameAt q = k.paging.frameAt q) ∧
      p.pageDirectoryUsed = Function.update k.paging.pageDirectoryUsed d true ∧
      p.cr3 = k.paging.cr3 ∧ p.freePageFrameCount = k.paging.freePageFrameCount := by
  have hd : k.paging.pageDirectoryUsed d = false := by
    simpa using List.find?_some hfind
  let p : PagingState := { k.paging with
    pageDirectoryUsed := Function.update k.paging.pageDirectoryUsed d true
    pageDirectoryList := Function.update k.paging.pageDirectoryList d freshDirectory }
  have hat : ∀ q ∈ k.keys, p.frameAt q = k.paging.frameAt q := by
    rintro ⟨d', page⟩ hq
    have hne : d' ≠ d := by
      rintro rfl
      exact h.notMem_keys hd page hq
    simp [p, PagingState.frameAt, hne]
  refine ⟨p, ?_, hd, h.balanced.congr hat, hat, rfl, rfl, rfl⟩
  rw [PagingState.createNewPageDirectory, hfind]

theorem usePageDirectory_eq_ok {ptr : Option DirectoryRef} :
    p.usePageDirectory ptr = .ok p' ↔ ∃ d, ptr = some d ∧ p' = p.setCr3 d := by
  cases ptr with
  | none => simp [PagingState.usePageDirectory]
  | some d => simp [PagingState.usePageDirectory, eq_comm]

/-- Without a free directory the creation follows a null pointer. -/
theorem loadProcess_ne_ok (hfind : k.paging.findDirectory = none) :
    k.loadProcess request n i ≠ .ok (ret, k') := by
  intro hr
  rw [loadProcess, PagingState.createNewPageDirectory, hfind] at hr
  obtain ⟨k₁, -, hr⟩ := bind_eq_ok.mp hr
  obtain ⟨p, huse, -⟩ := bind_eq_ok.mp hr
  obtain ⟨d, hd, -⟩ := usePageDirectory_eq_ok.mp huse
  cases hd

/-- The tables around the call of `read`: directory `d` and the frames are
taken, the control block is still inactive. -/
structure Loading (k k' : KernelState) (i : Fin processCountMax)
    (d : Fin pagingDirectoryTableMaxCount) (n : BitVec 32) : Prop where
  unused : k.paging.pageDirectoryUsed d = false
  balanced : k'.paging.Balanced (k.keys ∪ pageKeys d (frameSlots n))
  frameAt : ∀ q ∈ k.keys, k'.paging.frameAt q = k.paging.frameAt q
  used : k'.paging.pageDirectoryUsed = Function.update k.paging.pageDirectoryUsed d true
  cr3 : k'.paging.cr3 = k.paging.cr3
  processList : k'.processList = Function.update k.processList i
    (ProcessControlBlock.record { k.processList i with
      context := { (k.processList i).context with
        pageDirectoryVirtualAddr := some (.list d) } } (frameSlots n))
  active : k'.activeProcessCount = k.activeProcessCount
  current : k'.currentPid = k.currentPid

theorem Loading.setStore {k₁ : KernelState} (hl : Loading k k₁ i d n) (fs : FsState) (ram : Ram) :
    Loading k (k₁.setStore fs ram) i d n where
  unused := hl.unused
  balanced := hl.balanced
  frameAt := hl.frameAt
  used := hl.used
  cr3 := hl.cr3
  processList := hl.processList
  active := hl.active
  current := hl.current

/-- The rest of `loadProcess` after the call of `read`. -/
def finishLoad (k : KernelState) (request : FAT32DriverRequest) (n : BitVec 32)
    (i : Fin processCountMax) (d : Fin pagingDirectoryTableMaxCount) (ret : Int) :
    Except KernelFault (Int × KernelState) :=
  if ret ≠ 0 then do
    let paging ← unmapFrames (some (.list d))
      (recordedAddrs (k.processList i) (frameSlots n)) k.paging
    .ok (4, k.setPaging paging)
  else .ok (0, k.startProcess i request n)

/-- CR3 is what it was before `read`. -/
theorem setCr3_back (k : KernelState) (ref : DirectoryRef) (fs : FsState) (ram : Ram) :
    ((k.setPaging (k.paging.setCr3 ref)).setStore fs ram).setPaging
      (((k.setPaging (k.paging.setCr3 ref)).setStore fs ram).paging.setCr3 k.paging.cr3) =
      k.setStore fs ram := rfl

/-- With a free directory and enough frames everything goes through up to the
call of `read`, which runs in the new address space; CR3 is put back after it. -/
theorem loadProcess_eq (request : FAT32DriverRequest) (h : k.Consistent)
    (hfind : k.paging.findDirectory = some d)
    (hn : n.toNat ≤ processPageFrameCountMax)
    (hfree : n.toNat ≤ k.paging.freePageFrameCount.toNat) :
    ∃ k₁, k₁.fs = k.fs ∧ Loading k k₁ i d n ∧
      k.loadProcess request n i =
        (k₁.setPaging (k₁.paging.setCr3 (.list d))).readFile request >>= fun r =>
          finishLoad (r.2.setPaging (r.2.paging.setCr3 k₁.paging.cr3)) request n i d r.1 := by
  obtain ⟨p₀, hnew, hd, hbal₀, hat₀, hused₀, hcr₀, hcount₀⟩ :=
    createNewPageDirectory_balanced h hfind
  have hS : ∀ j ∈ frameSlots n, (d, pageIndex (frameAddr j)) ∉ k.keys :=
    fun j _ => h.notMem_keys hd _
  have hlen : (frameSlots n).length ≤ p₀.freePageFrameCount.toNat := by
    rw [length_frameSlots hn, hcount₀]
    exact hfree
  let k₀ := (k.setPaging p₀).modifyPcb i fun pcb =>
    { pcb with context := { pcb.context with pageDirectoryVirtualAddr := some (.list d) } }
  obtain ⟨p₁, hmap, hbal₁, hat₁, hsame₁⟩ :=
    mapFrames_balanced (k := k₀) (i := i) hbal₀ nodup_frameSlots hS hlen
  refine ⟨(k₀.setPaging p₁).modifyPcb i (·.record (frameSlots n)), rfl, ?_, ?_⟩
  · constructor
    · exact hd
    · exact hbal₁
    · exact fun q hq => (hat₁ q hq).trans (hat₀ q hq)
    · exact hsame₁.used.trans hused₀
    · exact hsame₁.cr3.trans hcr₀
    · simp [k₀, modifyPcb, setPaging]
    · rfl
    · rfl
  · rw [loadProcess, hnew]
    dsimp only
    rw [hmap]
    rfl

/-- What a creation that comes back went through. -/
theorem loadProcess_eq_ok (h : k.Consistent) (hn : n.toNat ≤ processPageFrameCountMax)
    (hfree : n.toNat ≤ k.paging.freePageFrameCount.toNat)
    (hr : k.loadProcess request n i = .ok (ret, k')) :
    ∃ d k₂ r mem, read request mem k.fs = .ok r ∧ Loading k k₂ i d n ∧
      finishLoad k₂ request n i d r.ret = .ok (ret, k') := by
  rcases hfind : k.paging.findDirectory with - | d
  · exact absurd hr (loadProcess_ne_ok hfind)
  obtain ⟨k₁, hfs, hl, heq⟩ := loadProcess_eq request h hfind hn hfree
  rw [heq] at hr
  obtain ⟨⟨ret', k₂⟩, hcall, hr⟩ := bind_eq_ok.mp hr
  obtain ⟨r, hread, rfl, rfl⟩ := readFile_eq_ok hcall
  dsimp only at hr
  rw [setCr3_back] at hr
  rw [← hfs]
  exact ⟨d, _, r, _, hread, hl.setStore r.fs _, hr⟩

/-- The pid of a new process is the number of its slot. -/
theorem startProcess_processList (request : FAT32DriverRequest) (n : BitVec 32)
    (hi : k.processListGetInactiveIndex = some i) :
    (k.startProcess i request n).processList i = { k.processList i with
      pageFrameUsedCount := n
      context := initialContext (k.processList i).context
      pid := BitVec.ofNat 32 i
      state := .ready
      nama := request.name } := by
  have hindex : (k.modifyPcb i fun pcb =>
      { pcb with
        pageFrameUsedCount := n
        context := initialContext pcb.context }).processListGetInactiveIndex = some i := by
    rw [← hi]
    refine processListGetInactiveIndex_congr fun i' => ?_
    rcases eq_or_ne i' i with rfl | hne
    · rw [modifyPcb_same]
    · rw [modifyPcb_of_ne _ hne]
  rw [startProcess, processGenerateNewPid, hindex]
  simp [modifyPcb]

theorem startProcess_of_ne (request : FAT32DriverRequest) (n : BitVec 32) (hne : i' ≠ i) :
    (k.startProcess i request n).processList i' = k.processList i' := by
  simp [startProcess, processGenerateNewPid, modifyPcb, hne]

namespace Loading

variable {k₂ : KernelState}

theorem others (hl : Loading k k₂ i d n) (hne : i' ≠ i) :
    k₂.processList i' = k.processList i' := by
  rw [hl.processList, Function.update_of_ne hne]

theorem state (hl : Loading k k₂ i d n) (i' : Fin processCountMax) :
    (k₂.processList i').state = (k.processList i').state := by
  rcases eq_or_ne i' i with rfl | hne
  · rw [hl.processList, Function.update_self]
    rfl
  · rw [hl.others hne]

theorem recordedAddrs_eq (hl : Loading k k₂ i d n) :
    recordedAddrs (k₂.processList i) (frameSlots n) = (frameSlots n).map frameAddr := by
  rw [recordedAddrs, hl.processList, Function.update_self]
  refine List.map_congr_left fun j hj => ?_
  exact if_pos hj

/-- When `read` fails, the frames go back, and the directory does not. -/
theorem readFailed (request : FAT32DriverRequest) (hl : Loading k k₂ i d n) (h : k.Consistent)
    (hi : (k.processList i).state = .inactive) (hret : ret ≠ 0) :
    ∃ k', finishLoad k₂ request n i d ret = .ok (4, k') ∧ ReadFailed k k' i d := by
  obtain ⟨p, hu, hbal, hat, hsame⟩ := unmapFrames_balanced hl.balanced nodup_frameSlots
    fun j _ => h.notMem_keys hl.unused _
  refine ⟨k₂.setPaging p, ?_, ?_⟩
  · rw [finishLoad, if_pos hret, hl.recordedAddrs_eq, hu]
    rfl
  constructor
  · exact hi
  · exact hl.unused
  · exact hbal
  · exact fun q hq => (hat q hq).trans (hl.frameAt q hq)
  · exact hsame.used.trans hl.used
  · exact hsame.cr3.trans hl.cr3
  · exact fun i' hne => hl.others hne
  · exact (hl.state i).trans hi
  · show (k₂.processList i).pid = _
    rw [hl.processList, Function.update_self]
    rfl
  · exact hl.active
  · exact hl.current

/-- The control block of the new process is filled in. -/
theorem created (hl : Loading k k₂ i d n) (hi : k.processListGetInactiveIndex = some i)
    (hn : n.toNat ≤ processPageFrameCountMax) :
    Created k (k₂.startProcess i request n) i d n := by
  have hpcb := startProcess_processList request n
    ((processListGetInactiveIndex_congr fun i => by rw [hl.state i]).trans hi)
  constructor
  · exact processListGetInactiveIndex_inactive hi
  · exact hl.unused
  · exact hl.balanced
  · exact hl.used
  · exact hl.cr3
  · intro i' hne
    rw [← hl.others hne]
    exact startProcess_of_ne request n hne
  · rw [hpcb]
  · rw [hpcb, hl.processList, Function.update_self]
    exact ⟨rfl, rfl, hn, fun j hj => if_pos hj⟩
  · rw [hpcb]
  · show k₂.activeProcessCount + 1 = _
    rw [hl.active]
  · exact hl.current

end Loading

/-- What `process_create_user_process` does to consistent tables. -/
theorem processCreateUserProcess_cases (h : k.Consistent)
    (hr : k.processCreateUserProcess request = .ok (ret, k')) :
    (ret ≠ 0 ∧ ¬ PassesChecks k request ∧ k' = k) ∨
    (PassesChecks k request ∧ ∃ i d, ∃ r mem, read request mem k.fs = .ok r ∧
      ((ret = 4 ∧ r.ret ≠ 0 ∧ ReadFailed k k' i d) ∨
      (ret = 0 ∧ r.ret = 0 ∧ Created k k' i d (pageFrameCountNeeded request)))) := by
  by_cases hp : PassesChecks k request
  · obtain ⟨i, hi⟩ := exists_inactiveIndex h hp.active
    rw [processCreateUserProcess_of_passes hp hi] at hr
    obtain ⟨d, k₂, r, mem, hread, hl, hfinish⟩ := loadProcess_eq_ok h hp.count hp.free hr
    refine .inr ⟨hp, i, d, r, mem, hread, ?_⟩
    by_cases hret : r.ret = 0
    · rw [finishLoad, if_neg (not_not.mpr hret)] at hfinish
      cases hfinish
      exact .inr ⟨rfl, hret, hl.created hi hp.count⟩
    · obtain ⟨k₃, hfinish', hf⟩ := hl.readFailed request h
        (processListGetInactiveIndex_inactive hi) hret
      rw [hfinish'] at hfinish
      cases hfinish
      exact .inl ⟨rfl, hret, hf⟩
  · obtain ⟨ret', hne, hr'⟩ := processCreateUserProcess_of_not_passes hp
    rw [hr'] at hr
    cases hr
    exact .inl ⟨hne, hp, rfl⟩

/-- A failed `read` leaves consistent tables. -/
theorem ReadFailed.consistent (hf : ReadFailed k k' i d) (h : k.Consistent) : k'.Consistent := by
  have hne : ∀ {i'}, k.Active i' → i' ≠ i := by
    rintro i' hi' rfl
    exact hi' hf.inactive
  refine h.congr hf.balanced ?_ ?_ ?_ ?_ ?_ ?_ hf.active
  · intro d' hd'
    rw [hf.used, Function.update_apply]
    split_ifs
    · rfl
    · exact hd'
  · intro i'
    rcases eq_or_ne i' i with rfl | hi'
    · simp [Active, hf.state, hf.inactive]
    · simp [Active, hf.others i' hi']
  all_goals
    intro i' hi'
    rw [hf.others i' (hne hi')]

/-- A new process has a directory and frames of its own. -/
theorem Created.consistent (hc : Created k k' i d n) (h : k.Consistent) : k'.Consistent := by
  have hactive : k'.Active i := by simp [Active, hc.state]
  have hinactive : ¬ k.Active i := not_not.mpr hc.inactive
  have hothers : ∀ i' ≠ i, (k'.Active i' ↔ k.Active i') := by
    intro i' hne
    simp [Active, hc.others i' hne]
  -- nobody else runs on the new directory
  have hown : ∀ i' ≠ i, k'.Active i' → (k'.processList i').directory ≠ some (.list d) := by
    intro i' hne hi' hdir
    rw [hothers i' hne] at hi'
    -- its directory was free when this one was taken
    rw [hc.others i' hne] at hdir
    obtain ⟨d', hruns, hused⟩ := h.runsOn i' hi'
    obtain rfl : d' = d := by simpa using hruns.directory.symm.trans hdir
    rw [hc.unused] at hused
    exact absurd hused (by simp)
  constructor
  · have hkeys : k'.keys = k.keys ∪ pageKeys d (frameSlots n) := by
      ext ⟨d', page⟩
      constructor
      -- a page belongs to the new process or to an old one
      · rintro ⟨i', hi', hdir, hq⟩
        rcases eq_or_ne i' i with rfl | hne
        · obtain rfl : d = d' := by simpa using hc.runsOn.directory.symm.trans hdir
          rw [hc.count] at hq
          exact .inr hq
        · rw [hothers i' hne] at hi'
          rw [hc.others i' hne] at hdir hq
          exact .inl ⟨i', hi', hdir, hq⟩
      · rintro (⟨i', hi', hdir, hq⟩ | hq)
        · have hne : i' ≠ i := by
            rintro rfl
            exact hinactive hi'
          refine ⟨i', (hothers i' hne).mpr hi', ?_⟩
          rw [hc.others i' hne]
          exact ⟨hdir, hq⟩
        · obtain rfl : d' = d := hq.1
          refine ⟨i, hactive, hc.runsOn.directory, ?_⟩
          rw [hc.count]
          exact hq
    rw [hkeys]
    exact hc.balanced
  · intro i' hi'
    rcases eq_or_ne i' i with rfl | hne
    · refine ⟨d, hc.runsOn, ?_⟩
      rw [hc.used, Function.update_self]
    · obtain ⟨d', hruns, hused⟩ := h.runsOn i' ((hothers i' hne).mp hi')
      rw [hc.others i' hne]
      refine ⟨d', hruns, ?_⟩
      rw [hc.used, Function.update_apply]
      split_ifs
      · rfl
      · exact hused
  -- two slots share a directory only if the new one is none of them
  · intro i₁ i₂ h₁ h₂ heq
    rcases eq_or_ne i₁ i with rfl | hne₁
    · by_contra hne
      exact hown i₂ (Ne.symm hne) h₂ (heq.symm.trans hc.runsOn.directory)
    · rcases eq_or_ne i₂ i with rfl | hne₂
      · exact absurd (heq.trans hc.runsOn.directory) (hown i₁ hne₁ h₁)
      · rw [hc.others i₁ hne₁, hc.others i₂ hne₂] at heq
        exact h.directory_inj i₁ i₂ ((hothers i₁ hne₁).mp h₁) ((hothers i₂ hne₂).mp h₂) heq
  · rw [hc.active, h.active_eq, card_active_insert hinactive hactive hothers]
    rfl

theorem create_consistent (h : k.Consistent)
    (hr : k.processCreateUserProcess request = .ok (ret, k')) : k'.Consistent := by
  rcases processCreateUserProcess_cases h hr with
    ⟨-, -, rfl⟩ | ⟨-, i, d, -, -, -, ⟨-, -, hf⟩ | ⟨-, -, hc⟩⟩
  · exact h
  · exact hf.consistent h
  · exact hc.consistent h

/-! ### Destroying a process -/

/-- The process in slot `i` is gone, with its frames and its directory. -/
structure Destroyed (k k' : KernelState) (i : Fin processCountMax)
    (d : Fin pagingDirectoryTableMaxCount) : Prop where
  active : k.Active i
  directory : (k.processList i).directory = some (.list d)
  balanced : k'.paging.Balanced
    (k.keys \ pageKeys d (frameSlots (k.processList i).pageFrameUsedCount))
  used : k'.paging.pageDirectoryUsed = Function.update k.paging.pageDirectoryUsed d false
  cr3 : k'.paging.cr3 = k.paging.cr3
  processList : k'.processList =
    Function.update k.processList i { k.processList i with state := .inactive }
  count : k'.activeProcessCount = k.activeProcessCount - 1
  current : k'.currentPid = k.currentPid

/-- Two processes have recorded no entry of one directory. -/
theorem Consistent.keys_diff (h : k.Consistent) (hi : k.Active i)
    (hruns : (k.processList i).RunsOn i d) {q : Fin pagingDirectoryTableMaxCount × Fin pageEntryCount} :
    q ∈ k.keys \ pageKeys d (frameSlots (k.processList i).pageFrameUsedCount) ↔
      ∃ i' ≠ i, k.Active i' ∧ (k.processList i').directory = some (.list q.1) ∧
        q ∈ pageKeys q.1 (frameSlots (k.processList i').pageFrameUsedCount) := by
  constructor
  · rintro ⟨⟨i', hi', hdir, hq⟩, hnot⟩
    refine ⟨i', ?_, hi', hdir, hq⟩
    rintro rfl
    obtain rfl : d = q.1 := by simpa using hruns.directory.symm.trans hdir
    exact hnot hq
  · rintro ⟨i', hne, hi', hdir, hq⟩
    refine ⟨⟨i', hi', hdir, hq⟩, fun hq' => ?_⟩
    obtain rfl : q.1 = d := hq'.1
    exact hne (h.directory_inj i' i hi' hi (hdir.trans hruns.directory.symm))

theorem processDestroy_cases {b : Bool} (h : k.Consistent)
    (hr : k.processDestroy pid = .ok (b, k')) :
    ∃ i : Fin processCountMax, pid.toNat = i ∧
      ((b = false ∧ ¬ k.Active i ∧ k' = k) ∨ (b = true ∧ ∃ d, Destroyed k k' i d)) := by
  unfold processDestroy at hr
  dsimp only at hr
  split_ifs at hr with hpid hinactive hcount
  · cases hr
    exact ⟨⟨pid.toNat, hpid⟩, rfl, .inl ⟨rfl, not_not.mpr hinactive, rfl⟩⟩
  -- the slot is in use: its pages are taken back and its directory is given up
  · generalize hi : (⟨pid.toNat, hpid⟩ : Fin processCountMax) = i at hr hinactive hcount
    refine ⟨i, congrArg Fin.val hi, .inr ?_⟩
    obtain ⟨d, hruns, hused⟩ := h.runsOn i hinactive
    -- what the slot has recorded are the addresses of its frames
    have haddrs : recordedAddrs (k.processList i)
        (frameSlots (k.processList i).pageFrameUsedCount) =
        (frameSlots (k.processList i).pageFrameUsedCount).map frameAddr :=
      List.map_congr_left hruns.addrs
    have hsub : pageKeys d (frameSlots (k.processList i).pageFrameUsedCount) ⊆ k.keys := by
      rintro q hq
      obtain rfl : q.1 = d := hq.1
      exact ⟨i, hinactive, hruns.directory, hq⟩
    have hbal : k.paging.Balanced
        (k.keys \ pageKeys d (frameSlots (k.processList i).pageFrameUsedCount) ∪
          pageKeys d (frameSlots (k.processList i).pageFrameUsedCount)) := by
      rw [Set.sdiff_union_of_subset hsub]
      exact h.balanced
    obtain ⟨p₁, hunmap, hbal₁, hat₁, hsame₁⟩ := unmapFrames_balanced hbal nodup_frameSlots
      fun j hj hm => hm.2 ⟨rfl, j, hj, rfl⟩
    rw [hruns.directory, haddrs] at hr
    obtain ⟨p, hp, hr⟩ := bind_eq_ok.mp hr
    rw [hunmap] at hp
    cases hp
    cases hr
    refine ⟨rfl, d, hinactive, hruns.directory, ?_, ?_, hsame₁.cr3, rfl, rfl, rfl⟩
    -- the pages of the others are in other directories
    · refine hbal₁.congr fun q hq => ?_
      have hne : q.1 ≠ d := by
        rintro rfl
        obtain ⟨i', hne, hi', hdir, -⟩ := (h.keys_diff hinactive hruns).mp hq
        exact hne (h.directory_inj i' i hi' hinactive (hdir.trans hruns.directory.symm))
      simp [PagingState.frameAt, setPaging, modifyPcb, hne]
    · show Function.update p₁.pageDirectoryUsed d false = _
      rw [hsame₁.used]

theorem Destroyed.consistent (hd : Destroyed k k' i d) (h : k.Consistent) : k'.Consistent := by
  obtain ⟨d', hruns, hused⟩ := h.runsOn i hd.active
  obtain rfl : d = d' := by simpa using hd.directory.symm.trans hruns.directory
  have hinactive : ¬ k'.Active i := by simp [Active, hd.processList]
  have hothers : ∀ i' ≠ i, k'.processList i' = k.processList i' := by
    intro i' hne
    rw [hd.processList, Function.update_of_ne hne]
  have hactive : ∀ i' ≠ i, (k'.Active i' ↔ k.Active i') := by
    intro i' hne
    simp [Active, hothers i' hne]
  have hne : ∀ {i'}, k'.Active i' → i' ≠ i := by
    rintro i' hi' rfl
    exact hinactive hi'
  constructor
  -- what is left are the pages of the others
  · have hkeys : k'.keys = k.keys \ pageKeys d (frameSlots (k.processList i).pageFrameUsedCount) := by
      ext q
      rw [h.keys_diff hd.active hruns]
      constructor
      · rintro ⟨i', hi', hdir, hq⟩
        rw [hothers i' (hne hi')] at hdir hq
        exact ⟨i', hne hi', (hactive i' (hne hi')).mp hi', hdir, hq⟩
      · rintro ⟨i', hi, hi', hdir, hq⟩
        refine ⟨i', (hactive i' hi).mpr hi', ?_⟩
        rw [hothers i' hi]
        exact ⟨hdir, hq⟩
    rw [hkeys]
    exact hd.balanced
  · intro i' hi'
    obtain ⟨d', hruns', hused'⟩ := h.runsOn i' ((hactive i' (hne hi')).mp hi')
    rw [hothers i' (hne hi')]
    refine ⟨d', hruns', ?_⟩
    -- the directory that is given up is not the one of another slot
    rw [hd.used, Function.update_of_ne]
    · exact hused'
    · rintro rfl
      exact hne hi' (h.directory_inj i' i ((hactive i' (hne hi')).mp hi') hd.active
        (hruns'.directory.trans hruns.directory.symm))
  · intro i₁ i₂ h₁ h₂ heq
    rw [hothers i₁ (hne h₁), hothers i₂ (hne h₂)] at heq
    exact h.directory_inj i₁ i₂ ((hactive i₁ (hne h₁)).mp h₁) ((hactive i₂ (hne h₂)).mp h₂) heq
  · rw [hd.count, h.active_eq,
      card_active_insert hinactive hd.active fun i' hi' => (hactive i' hi').symm]
    simp

theorem destroy_consistent {b : Bool} (h : k.Consistent)
    (hr : k.processDestroy pid = .ok (b, k')) : k'.Consistent := by
  obtain ⟨i, -, ⟨-, -, rfl⟩ | ⟨-, d, hd⟩⟩ := processDestroy_cases h hr
  · exact h
  · exact hd.consistent h

end KernelState

end Binbows
