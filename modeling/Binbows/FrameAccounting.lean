/-
Binbows/FrameAccounting.lean

Page frames, page directories and processes over runs of creations and
destructions.

The runs start from the boot state, and what the driver and RAM hold at a
creation is arbitrary, so `read` may have any outcome in each of them.

Main results:

* `frames_accounted`: the frame map, its counter, the directories and the
  process list agree in every state of every run, and processes share neither
  frames nor directories;
* `create_atomic_iff`: when a failed creation changes nothing.  It is atomic
  unless it fails in `read`, which leaves its directory marked as used.
-/
import Binbows.ProcessSpec
import Binbows.FileSystemRuns

namespace Binbows

open Bytes Run

variable {k k' : KernelState} {request : FAT32DriverRequest} {ret : Int}
  {i i' : Fin processCountMax} {d : Fin pagingDirectoryTableMaxCount} {n : BitVec 32}
  {f : Fin pageFrameMaxCount} {j j' : Fin processPageFrameCountMax}

/-! ### Runs -/

inductive ProcessCall
  /-- `process_create_user_process`, with what the driver and RAM hold by then -/
  | create (request : FAT32DriverRequest) (fs : FsState) (ram : Ram)
  /-- `process_destroy` -/
  | destroy (pid : BitVec 32)

/-- The state after a call that returns. -/
def KernelState.call (k : KernelState) : ProcessCall → Option KernelState
  | .create request fs ram =>
      ((k.setStore fs ram).processCreateUserProcess request).toOption.map Prod.snd
  | .destroy pid => (k.processDestroy pid).toOption.map Prod.snd

theorem toOption_eq_some {ε α : Type} {x : Except ε α} {a : α} :
    x.toOption = some a ↔ x = .ok a := by
  cases x with
  | error e => simp [Except.toOption]
  | ok a => simp [Except.toOption]

theorem call_create {fs : FsState} {ram : Ram} :
    k.call (.create request fs ram) = some k' ↔
      ∃ ret, (k.setStore fs ram).processCreateUserProcess request = .ok (ret, k') := by
  simp [KernelState.call, toOption_eq_some]

theorem call_destroy {pid : BitVec 32} :
    k.call (.destroy pid) = some k' ↔ ∃ b, k.processDestroy pid = .ok (b, k') := by
  simp [KernelState.call, toOption_eq_some]

namespace KernelState

@[simp] theorem setStore_fs (k : KernelState) (fs : FsState) (ram : Ram) :
    (k.setStore fs ram).fs = fs := rfl

theorem Consistent.setStore (h : k.Consistent) (fs : FsState) (ram : Ram) :
    (k.setStore fs ram).Consistent :=
  ⟨h.balanced, h.runsOn, h.directory_inj, h.active_eq⟩

theorem boot_consistent (fs : FsState) (ram : Ram) : (boot fs ram).Consistent := by
  have hidle : ∀ i, ¬ (boot fs ram).Active i := fun i h => h rfl
  constructor
  · have hkeys : (boot fs ram).keys = ∅ := by
      ext q
      simp only [keys, Set.mem_ofPred_eq, Set.mem_empty_iff_false, iff_false]
      rintro ⟨i, hi, -⟩
      exact hidle i hi
    rw [hkeys]
    refine Pool.Balanced.empty _ fun f => ?_
    simp [boot, PagingState.boot]
  · exact fun i hi => absurd hi (hidle i)
  · exact fun i _ hi => absurd hi (hidle i)
  · rw [Finset.filter_false_of_mem fun i _ => hidle i]
    rfl

theorem call_consistent {c : ProcessCall} (h : k.Consistent) (hc : k.call c = some k') :
    k'.Consistent := by
  cases c with
  | create request fs ram =>
      obtain ⟨ret, hr⟩ := call_create.mp hc
      exact create_consistent (h.setStore fs ram) hr
  | destroy pid =>
      obtain ⟨b, hr⟩ := call_destroy.mp hc
      exact destroy_consistent h hr

theorem calls_consistent {ok : KernelState → ProcessCall → Prop}
    (h : Reaches call ok k k') (hk : k.Consistent) : k'.Consistent :=
  h.invariant (I := Consistent) hk fun hs _ hstep => call_consistent hs hstep

end KernelState

/-! ### The runs of the examples -/

/-- The state after a call, and the same state where the call does not return. -/
def KernelState.after (k : KernelState) (c : ProcessCall) : KernelState := (k.call c).getD k

def noRam : Ram := fun _ _ => 0

/-- A formatted disk with the shell on it, a file of one cluster. -/
def shellDisk : FsState :=
  (createFat32 .blank).after ⟨.write, { shellRequest with bufferSize := 1 }, fun _ => 0⟩

/-- Boot, then the creation of the shell. -/
def oneProcess : KernelState :=
  (KernelState.boot shellDisk noRam).after (.create shellRequest shellDisk noRam)

theorem oneProcess_call :
    (KernelState.boot shellDisk noRam).call (.create shellRequest shellDisk noRam) =
      some oneProcess := by
  have h : ((KernelState.boot shellDisk noRam).call
      (.create shellRequest shellDisk noRam)).isSome := by decide +kernel
  obtain ⟨k, hk⟩ := Option.isSome_iff_exists.mp h
  rw [oneProcess, KernelState.after, hk]
  rfl

theorem oneProcess_reaches {ok : KernelState → ProcessCall → Prop}
    (hok : ok (.boot shellDisk noRam) (.create shellRequest shellDisk noRam)) :
    Reaches KernelState.call ok (.boot shellDisk noRam) oneProcess :=
  .single ⟨_, hok, oneProcess_call⟩

/-! ### Frame accounting -/

/-- The `j`-th recorded address of process `i` is mapped to frame `f`. -/
def KernelState.MapsFrame (k : KernelState) (i : Fin processCountMax)
    (j : Fin processPageFrameCountMax) (f : Fin pageFrameMaxCount) : Prop :=
  j.val < (k.processList i).pageFrameUsedCount.toNat ∧
    ∃ ref, (k.processList i).directory = some ref ∧
      (k.paging.directory ref (pageIndex ((k.processList i).virtualAddrUsed j))).frame = some f

/-- The four tables agree, and processes are isolated from each other. -/
structure FrameAccounting (k : KernelState) : Prop where
  free_count : k.paging.freePageFrameCount.toNat =
    (Finset.univ.filter fun f => k.paging.pageFrameMap f = false).card
  frame_zero : k.paging.pageFrameMap 0 = true
  pid : ∀ i, k.Active i → (k.processList i).pid = BitVec.ofNat 32 i
  directory : ∀ i, k.Active i →
    ∃ d, (k.processList i).directory = some (.list d) ∧ k.paging.pageDirectoryUsed d
  directory_ne : ∀ i i', k.Active i → k.Active i' → i ≠ i' →
    (k.processList i).directory ≠ (k.processList i').directory
  count_le : ∀ i, k.Active i →
    (k.processList i).pageFrameUsedCount.toNat ≤ processPageFrameCountMax
  present : ∀ i (j : Fin processPageFrameCountMax), k.Active i →
    j.val < (k.processList i).pageFrameUsedCount.toNat → ∃ f, k.MapsFrame i j f
  disjoint : ∀ i i' j j' f, k.Active i → k.Active i' → k.MapsFrame i j f → k.MapsFrame i' j' f →
    i = i' ∧ j = j'
  used_iff : ∀ f, k.paging.pageFrameMap f = true ↔
    f = 0 ∨ ∃ i j, k.Active i ∧ k.MapsFrame i j f
  active_count : k.activeProcessCount = (Finset.univ.filter k.Active).card

namespace KernelState.Consistent

theorem mapsFrame_iff (hruns : (k.processList i).RunsOn i d) :
    k.MapsFrame i j f ↔ j ∈ frameSlots (k.processList i).pageFrameUsedCount ∧
      k.paging.frameAt (d, pageIndex (frameAddr j)) = some f := by
  rw [mem_frameSlots]
  refine and_congr_right fun hj => ?_
  rw [hruns.addrs j (mem_frameSlots.mpr hj)]
  constructor
  · rintro ⟨ref, href, hf⟩
    obtain rfl : ref = .list d := by simpa using href.symm.trans hruns.directory
    exact hf
  · exact fun hf => ⟨.list d, hruns.directory, hf⟩

theorem key_mem (hi : k.Active i) (hruns : (k.processList i).RunsOn i d)
    (hj : j ∈ frameSlots (k.processList i).pageFrameUsedCount) :
    (d, pageIndex (frameAddr j)) ∈ k.keys :=
  ⟨i, hi, hruns.directory, rfl, j, hj, rfl⟩

theorem frameAccounting (h : k.Consistent) : FrameAccounting k where
  free_count := h.balanced.free_eq
  frame_zero := (h.balanced.used_iff 0).mpr (.inl rfl)
  pid i hi := by
    obtain ⟨d, hruns, -⟩ := h.runsOn i hi
    exact hruns.pid
  directory i hi := by
    obtain ⟨d, hruns, hd⟩ := h.runsOn i hi
    exact ⟨d, hruns.directory, hd⟩
  directory_ne i i' hi hi' hne heq := hne (h.directory_inj i i' hi hi' heq)
  count_le i hi := by
    obtain ⟨d, hruns, -⟩ := h.runsOn i hi
    exact hruns.count_le
  -- the frame that is held under the key of the page
  present i j hi hj := by
    obtain ⟨d, hruns, -⟩ := h.runsOn i hi
    have hj := mem_frameSlots.mpr hj
    obtain ⟨f, hf, -⟩ := h.balanced.holds _ (key_mem hi hruns hj)
    exact ⟨f, (mapsFrame_iff hruns).mpr ⟨hj, hf⟩⟩
  disjoint i i' j j' f hi hi' hf hf' := by
    obtain ⟨d, hruns, -⟩ := h.runsOn i hi
    obtain ⟨d', hruns', -⟩ := h.runsOn i' hi'
    obtain ⟨hj, hf⟩ := (mapsFrame_iff hruns).mp hf
    obtain ⟨hj', hf'⟩ := (mapsFrame_iff hruns').mp hf'
    -- one frame is held under one key only
    have hkey := h.balanced.injOn (key_mem hi hruns hj) (key_mem hi' hruns' hj')
      (hf.trans hf'.symm)
    obtain ⟨rfl, hpage⟩ := Prod.ext_iff.mp hkey
    exact ⟨h.directory_inj i i' hi hi' (hruns.directory.trans hruns'.directory.symm),
      pageIndex_frameAddr_injective hpage⟩
  used_iff f := by
    rw [h.balanced.used_iff]
    refine or_congr Iff.rfl ?_
    constructor
    · rintro ⟨⟨d, page⟩, ⟨i, hi, hdir, -, j, hj, rfl⟩, hf⟩
      obtain ⟨d', hruns, -⟩ := h.runsOn i hi
      obtain rfl : d' = d := by simpa using hruns.directory.symm.trans hdir
      exact ⟨i, j, hi, (mapsFrame_iff hruns).mpr ⟨hj, hf⟩⟩
    · rintro ⟨i, j, hi, hf⟩
      obtain ⟨d, hruns, -⟩ := h.runsOn i hi
      obtain ⟨hj, hf⟩ := (mapsFrame_iff hruns).mp hf
      exact ⟨_, key_mem hi hruns hj, hf⟩
  active_count := h.active_eq

end KernelState.Consistent

/-- **Frame accounting.**  After any sequence of creations and destructions
the tables agree and no two processes share a frame or a directory. -/
theorem frames_accounted (fs : FsState) (ram : Ram)
    (h : Reaches KernelState.call (fun _ _ => True) (.boot fs ram) k) : FrameAccounting k :=
  (KernelState.calls_consistent h (KernelState.boot_consistent fs ram)).frameAccounting

theorem frames_accounted_oneProcess : oneProcess.Active 0 ∧ FrameAccounting oneProcess := by
  refine ⟨?_, frames_accounted shellDisk noRam (oneProcess_reaches trivial)⟩
  have hstate : (oneProcess.processList 0).state = .ready := by decide +kernel
  rw [KernelState.Active, hstate]
  decide

/-! ### Creations that fail in `read` -/

/-- A read ends, or does not, whatever the memory holds. -/
theorem read_any_mem {s : FsState} {r : Reply} {mem : Memory} (mem' : Memory)
    (h : read request mem s = .ok r) :
    ∃ r', read request mem' s = .ok r' ∧ r'.ret = r.ret := by
  rw [read_eq] at h ⊢
  unfold parentCheck at h ⊢
  split at h
  · cases h
  · split_ifs at h ⊢
    · cases h
      exact ⟨_, rfl, rfl⟩
    · split at h
      · unfold readFound at h ⊢
        split_ifs at h ⊢
        · cases h
          exact ⟨_, rfl, rfl⟩
        · split at h
          · cases h
          · next mem₁ hchain =>
            cases h
            obtain ⟨l, hw, hr, hlen, -⟩ := readChain_eq_ok_iff.mp hchain
            rw [readChain_eq_ok_iff.mpr ⟨l, hw, hr, hlen, rfl⟩]
            exact ⟨_, rfl, rfl⟩
      · cases h
        exact ⟨_, rfl, rfl⟩

/-- The request passes the checks, and then the read of the file fails. -/
structure FailsInRead (k : KernelState) (request : FAT32DriverRequest) : Prop where
  passes : k.PassesChecks request
  fails : ∃ mem r, read request mem k.fs = .ok r ∧ r.ret ≠ 0

/-- With a free directory such a creation returns 4. -/
theorem FailsInRead.returns (hf : FailsInRead k request) (h : k.Consistent)
    (hfind : k.paging.findDirectory = some d) :
    ∃ i k', k.processCreateUserProcess request = .ok (4, k') ∧ k.ReadFailed k' i d := by
  obtain ⟨i, hi⟩ := KernelState.exists_inactiveIndex h hf.passes.active
  obtain ⟨k₁, hfs, hl, heq⟩ :=
    KernelState.loadProcess_eq request h hfind hf.passes.count hf.passes.free
  obtain ⟨mem, r, hr, hret⟩ := hf.fails
  let k₂ := k₁.setPaging (k₁.paging.setCr3 (.list d))
  let dir := k₂.paging.directory k₂.paging.cr3
  obtain ⟨r', hr', hsame⟩ := read_any_mem (dir.addressSpace k₂.ram) hr
  have hret' : r'.ret ≠ 0 := hsame ▸ hret
  have hcall : k₂.readFile request =
      .ok (r'.ret, k₂.setStore r'.fs (dir.writeBack r'.mem k₂.ram)) := by
    have hr'' : read request (dir.addressSpace k₂.ram) k₂.fs = .ok r' := by
      show read request (dir.addressSpace k₂.ram) k₁.fs = .ok r'
      rw [hfs]
      exact hr'
    unfold KernelState.readFile
    dsimp only
    rw [hr'']
    dsimp only
    rw [if_neg fun hstray => hret' hstray.1]
  have hinactive := KernelState.processListGetInactiveIndex_inactive hi
  obtain ⟨k', hfinish, hfailed⟩ := (hl.setStore r'.fs (dir.writeBack r'.mem k₂.ram)).readFailed
    request h hinactive hret'
  refine ⟨i, k', ?_, hfailed⟩
  rw [KernelState.processCreateUserProcess_of_passes hf.passes hi, heq]
  refine bind_eq_ok.mpr ⟨_, hcall, ?_⟩
  dsimp only
  rw [KernelState.setCr3_back]
  exact hfinish

/-! ### Atomic creations -/

/-- The frame tables, the directories in use and the slots are as before. -/
structure SameTables (k k' : KernelState) : Prop where
  frameMap : k'.paging.pageFrameMap = k.paging.pageFrameMap
  freeCount : k'.paging.freePageFrameCount = k.paging.freePageFrameCount
  directories : k'.paging.pageDirectoryUsed = k.paging.pageDirectoryUsed
  state : ∀ i, (k'.processList i).state = (k.processList i).state
  pid : ∀ i, (k'.processList i).pid = (k.processList i).pid
  active : k'.activeProcessCount = k.activeProcessCount

/-- What a creation should do: if it fails, it changes nothing, and the
failures so far do not make it fail. -/
structure CreationAtomic (k : KernelState) (request : FAT32DriverRequest) : Prop where
  same : ∀ ret k', k.processCreateUserProcess request = .ok (ret, k') → ret ≠ 0 → SameTables k k'
  directory : k.paging.createNewPageDirectory.1 ≠ none
  returns : ∀ e, k.processCreateUserProcess request = .error e →
    (∃ e', e = .fat32 e') ∨ e = .strayStore
  valid : k.PassesChecks request → (∀ mem r, read request mem k.fs = .ok r → r.ret = 0) →
    ∀ ret k', k.processCreateUserProcess request = .ok (ret, k') → ret = 0

/-- Every directory in use is that of a process. -/
def NoLeak (k : KernelState) : Prop :=
  ∀ d, k.paging.pageDirectoryUsed d = true →
    ∃ i, k.Active i ∧ (k.processList i).directory = some (.list d)

/-- There are more directories than processes. -/
theorem NoLeak.exists_findDirectory (h : NoLeak k) : ∃ d, k.paging.findDirectory = some d := by
  refine Option.isSome_iff_exists.mp ?_
  rw [PagingState.findDirectory, List.find?_isSome]
  by_contra hall
  have hused : ∀ d, k.paging.pageDirectoryUsed d = true := by
    intro d
    by_contra hd
    exact hall ⟨d, List.mem_finRange d, by simpa using hd⟩
  choose owner howner using fun d => h d (hused d)
  have hinj : Function.Injective owner := by
    intro d d' heq
    have hd := (howner d).2
    rw [heq, (howner d').2] at hd
    simpa using hd.symm
  have hcard := Fintype.card_le_of_injective owner hinj
  rw [Fintype.card_fin, Fintype.card_fin] at hcard
  exact absurd hcard (by decide)

/-- No creation fails in `read`. -/
def AvoidsReadFailure (k : KernelState) : ProcessCall → Prop
  | .create request fs ram => ¬ FailsInRead (k.setStore fs ram) request
  | .destroy _ => True

theorem NoLeak.destroyed (h : NoLeak k) (hd : k.Destroyed k' i d) : NoLeak k' := by
  intro d' hd'
  rw [hd.used, Function.update_apply] at hd'
  split_ifs at hd' with hne
  obtain ⟨i', hi', hdir⟩ := h d' hd'
  have hii : i' ≠ i := by
    rintro rfl
    exact hne (by simpa using hdir.symm.trans hd.directory)
  refine ⟨i', ?_, ?_⟩
  · rw [KernelState.Active, hd.processList, Function.update_of_ne hii]
    exact hi'
  · rw [hd.processList, Function.update_of_ne hii]
    exact hdir

theorem NoLeak.created (h : NoLeak k) (hc : k.Created k' i d n) : NoLeak k' := by
  intro d' hd'
  rw [hc.used, Function.update_apply] at hd'
  split_ifs at hd' with heq
  · subst heq
    exact ⟨i, by simp [KernelState.Active, hc.state], hc.runsOn.directory⟩
  · obtain ⟨i', hi', hdir⟩ := h d' hd'
    have hii : i' ≠ i := by
      rintro rfl
      exact hi' hc.inactive
    refine ⟨i', ?_, ?_⟩
    · rw [KernelState.Active, hc.others i' hii]
      exact hi'
    · rw [hc.others i' hii]
      exact hdir

/-- Without failures in `read` no directory is lost. -/
theorem call_noLeak {c : ProcessCall} (hk : k.Consistent) (h : NoLeak k)
    (hok : AvoidsReadFailure k c) (hc : k.call c = some k') : NoLeak k' := by
  cases c with
  | create request fs ram =>
      obtain ⟨ret, hr⟩ := call_create.mp hc
      obtain ⟨-, -, rfl⟩ | ⟨hp, i, d, r, mem, hread, ⟨-, hret, -⟩ | ⟨-, -, hc⟩⟩ :=
        KernelState.processCreateUserProcess_cases (hk.setStore fs ram) hr
      · exact h
      · exact absurd ⟨hp, mem, r, hread, hret⟩ hok
      · exact NoLeak.created (k := k.setStore fs ram) h hc
  | destroy pid =>
      obtain ⟨b, hr⟩ := call_destroy.mp hc
      obtain ⟨i, -, ⟨-, -, rfl⟩ | ⟨-, d, hd⟩⟩ := KernelState.processDestroy_cases hk hr
      · exact h
      · exact h.destroyed hd

theorem calls_noLeak (fs : FsState) (ram : Ram)
    (h : Reaches KernelState.call AvoidsReadFailure (.boot fs ram) k) :
    k.Consistent ∧ NoLeak k := by
  refine h.invariant (I := fun k => k.Consistent ∧ NoLeak k)
    ⟨KernelState.boot_consistent fs ram, fun d hd => ?_⟩ ?_
  · simp [KernelState.boot, PagingState.boot] at hd
  · intro s c s' hs hok hc
    exact ⟨KernelState.call_consistent hs.1 hc, call_noLeak hs.1 hs.2 hok hc⟩

theorem readFile_eq_error {e : KernelFault} (h : k.readFile request = .error e) :
    (∃ e', e = .fat32 e') ∨ e = .strayStore := by
  unfold KernelState.readFile at h
  dsimp only at h
  split at h
  · cases h
    exact .inl ⟨_, rfl⟩
  · split_ifs at h
    cases h
    exact .inr rfl

/-- With a free directory, a creation that does not come back is stuck in
`read`. -/
theorem create_error {e : KernelFault} (h : k.Consistent) (hfind : k.paging.findDirectory = some d)
    (hr : k.processCreateUserProcess request = .error e) :
    (∃ e', e = .fat32 e') ∨ e = .strayStore := by
  by_cases hp : k.PassesChecks request
  · obtain ⟨i, hi⟩ := KernelState.exists_inactiveIndex h hp.active
    obtain ⟨k₁, -, hl, heq⟩ := KernelState.loadProcess_eq request h hfind hp.count hp.free
    rw [KernelState.processCreateUserProcess_of_passes hp hi, heq] at hr
    rcases hread : (k₁.setPaging (k₁.paging.setCr3 (.list d))).readFile request with
      e' | ⟨r, k₂⟩
    · rw [hread] at hr
      cases hr
      exact readFile_eq_error hread
    · -- after `read` everything comes back
      rw [hread] at hr
      obtain ⟨r', -, rfl, rfl⟩ := KernelState.readFile_eq_ok hread
      change KernelState.finishLoad _ request _ i d r'.ret = .error e at hr
      rw [KernelState.setCr3_back] at hr
      by_cases hret : r'.ret = 0
      · rw [KernelState.finishLoad, if_neg (not_not.mpr hret)] at hr
        cases hr
      · obtain ⟨k', hfinish, -⟩ := (hl.setStore r'.fs _).readFailed request h
          (KernelState.processListGetInactiveIndex_inactive hi) hret
        rw [hfinish] at hr
        cases hr
  · obtain ⟨ret, -, hr'⟩ := KernelState.processCreateUserProcess_of_not_passes hp
    rw [hr'] at hr
    cases hr

/-- A creation that does not fail in `read` is atomic. -/
theorem creationAtomic (h : k.Consistent) (hleak : NoLeak k) (hf : ¬ FailsInRead k request) :
    CreationAtomic k request := by
  obtain ⟨d, hfind⟩ := hleak.exists_findDirectory
  constructor
  · intro ret k' hr hret
    obtain ⟨-, -, rfl⟩ | ⟨hp, i, d, r, mem, hread, ⟨-, hne, -⟩ | ⟨rfl, -, -⟩⟩ :=
      KernelState.processCreateUserProcess_cases h hr
    · exact ⟨rfl, rfl, rfl, fun _ => rfl, fun _ => rfl, rfl⟩
    · exact absurd ⟨hp, mem, r, hread, hne⟩ hf
    · exact absurd rfl hret
  · rw [PagingState.createNewPageDirectory, hfind]
    exact Option.some_ne_none _
  · exact fun e hr => create_error h hfind hr
  · intro hp hvalid ret k' hr
    obtain ⟨-, hnot, -⟩ | ⟨-, i, d, r, mem, hread, ⟨-, hne, -⟩ | ⟨rfl, -, -⟩⟩ :=
      KernelState.processCreateUserProcess_cases h hr
    · exact absurd hp hnot
    · exact absurd (hvalid mem r hread) hne
    · rfl

/-- A creation that fails in `read` is not: it keeps a directory. -/
theorem FailsInRead.not_creationAtomic (hf : FailsInRead k request) (h : k.Consistent)
    (hleak : NoLeak k) : ¬ CreationAtomic k request := by
  intro hatomic
  obtain ⟨d, hfind⟩ := hleak.exists_findDirectory
  obtain ⟨i, k', hr, hfailed⟩ := hf.returns h hfind
  have hsame := congrFun (hatomic.same 4 k' hr (by decide)).directories d
  rw [hfailed.used, Function.update_self, hfailed.unused] at hsame
  exact absurd hsame (by decide)

/-- **Failed creations.**  Below runs without a failure in `read`, a creation
is atomic exactly unless it passes the checks and `read` fails. -/
theorem create_atomic_iff (fs : FsState) (ram : Ram)
    (h : Reaches KernelState.call AvoidsReadFailure (.boot fs ram) k)
    (fs' : FsState) (ram' : Ram) (request : FAT32DriverRequest) :
    CreationAtomic (k.setStore fs' ram') request ↔
      ¬ FailsInRead (k.setStore fs' ram') request := by
  obtain ⟨hk, hleak⟩ := calls_noLeak fs ram h
  have hk' := hk.setStore fs' ram'
  have hleak' : NoLeak (k.setStore fs' ram') := hleak
  exact ⟨fun ha hf => hf.not_creationAtomic hk' hleak' ha, creationAtomic hk' hleak'⟩

theorem shellDisk_read {mem : Memory} {r : Reply} (h : read shellRequest mem shellDisk = .ok r) :
    r.ret = 0 := by
  have h0 : (read shellRequest (fun _ => 0) shellDisk).toOption.map Reply.ret = some 0 := by
    decide +kernel
  obtain ⟨r', hr', hret⟩ := read_any_mem (fun _ => 0) h
  rw [hr'] at h0
  exact hret.symm.trans (Option.some.inj h0)

theorem shell_succeeds (k : KernelState) :
    ¬ FailsInRead (k.setStore shellDisk noRam) shellRequest := by
  rintro ⟨-, mem, r, hr, hne⟩
  rw [KernelState.setStore_fs] at hr
  exact hne (shellDisk_read hr)

theorem create_atomic_iff_oneProcess :
    CreationAtomic (oneProcess.setStore shellDisk noRam) shellRequest :=
  (create_atomic_iff shellDisk noRam (oneProcess_reaches (shell_succeeds _)) shellDisk noRam
    shellRequest).mpr (shell_succeeds oneProcess)

/-- The creation of a process from a file that does not exist returns 4 and
keeps a page directory. -/
theorem create_not_atomic :
    ∃ k', (KernelState.boot (createFat32 .blank) noRam).processCreateUserProcess shellRequest =
        .ok (4, k') ∧
      ¬ SameTables (.boot (createFat32 .blank) noRam) k' := by
  have h : ((KernelState.boot (createFat32 .blank) noRam).processCreateUserProcess
      shellRequest).toOption.map (fun r => (r.1, r.2.paging.pageDirectoryUsed 0)) =
        some (4, true) := by decide +kernel
  obtain ⟨⟨ret, k'⟩, hr, heq⟩ := Option.map_eq_some_iff.mp h
  obtain ⟨rfl, hused⟩ := Prod.ext_iff.mp heq
  refine ⟨k', toOption_eq_some.mp hr, fun hsame => ?_⟩
  have hbefore : k'.paging.pageDirectoryUsed 0 = false := congrFun hsame.directories 0
  exact absurd (hused.symm.trans hbefore) (by decide)

end Binbows
