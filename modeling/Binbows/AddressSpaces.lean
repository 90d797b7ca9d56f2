/-
Binbows/AddressSpaces.lean

The address spaces of the processes.

Every process has a directory of its own.  Its first pages are mapped for the process, each
to a frame of its own, the kernel is mapped at the top, and nothing else is mapped
(`KernelState.Mapped`).  A creation fills in one directory and writes to frames that were
free, a destruction clears one directory, and user code writes through the directory in CR3.

Main results:

* `address_spaces_separate`: what is mapped, in every state after boot;
* `waiting_process_kept`: while other processes run, are created and are destroyed, the
  memory of a process and its saved registers stay as they are.
-/
import Binbows.ProgramLoad
import Binbows.RunningProcess
import Binbows.SwitchCalls

namespace Binbows

open Bytes Run KernelState

variable {k k' : KernelState} {p p' : PagingState} {request : FAT32DriverRequest} {ret : Int}
  {i j c x : Fin processCountMax} {d d' : Fin pagingDirectoryTableMaxCount}
  {page page' : Fin pageEntryCount} {f : Fin pageFrameMaxCount} {n a pid : BitVec 32}
  {mem : Memory} {ctx : Context} {e : KernelEvent} {dir : PageDirectory} {ram ram' : Ram}

/-! ### One directory changes -/

theorem freeUserPageFrame_otherDirectories {va : BitVec 32} {b : Bool}
    (h : p.freeUserPageFrame (some (.list d)) va = .ok (b, p')) (hne : d' ≠ d) :
    p'.pageDirectoryList d' = p.pageDirectoryList d' := by
  unfold PagingState.freeUserPageFrame at h
  dsimp only at h
  split_ifs at h
  · cases h
    exact Function.update_of_ne hne _ _
  · cases h
    rfl

theorem unmapFrames_otherDirectories {addrs : List (BitVec 32)}
    (h : unmapFrames (some (.list d)) addrs p = .ok p') (hne : d' ≠ d) :
    p'.pageDirectoryList d' = p.pageDirectoryList d' := by
  induction addrs generalizing p with
  | nil =>
      cases h
      rfl
  | cons va rest ih =>
      rw [unmapFrames] at h
      obtain ⟨⟨b, p₁⟩, hfree, h⟩ := bind_eq_ok.mp h
      exact (ih h).trans (freeUserPageFrame_otherDirectories hfree hne)

/-- What a creation or a destruction leaves alone: the directories but `d`, and the frames
in use. -/
structure Touches (k k' : KernelState) (d : Fin pagingDirectoryTableMaxCount) : Prop where
  directories : ∀ d' ≠ d, k'.paging.pageDirectoryList d' = k.paging.pageDirectoryList d'
  ram : ∀ f, k.paging.pageFrameMap f = true → k'.ram f = k.ram f

/-- Nothing is written to a frame in use through the pages of a new process. -/
theorem newDirectory_writeBack (hf : p.pageFrameMap f = true) :
    (newDirectory p n).writeBack mem ram f = ram f := by
  funext o
  unfold PageDirectory.writeBack
  split
  · rfl
  · next page hpage =>
    have hpage := List.find?_some hpage
    rw [decide_eq_true_eq] at hpage
    obtain ⟨m, j, f', -, hfree, -, hframe⟩ := newDirectory_user hpage.1
    obtain rfl : f' = f := Option.some.inj (hframe.symm.trans hpage.2)
    have hfree := List.mem_filter.mp (List.mem_of_getElem? hfree)
    simp [hf] at hfree

theorem finishLoad_touches {ret' : Int} (h : finishLoad k request n i d ret = .ok (ret', k')) :
    k'.ram = k.ram ∧
      ∀ d' ≠ d, k'.paging.pageDirectoryList d' = k.paging.pageDirectoryList d' := by
  unfold finishLoad at h
  split_ifs at h
  · obtain ⟨p, hunmap, h⟩ := bind_eq_ok.mp h
    cases h
    exact ⟨rfl, fun d' hne => unmapFrames_otherDirectories hunmap hne⟩
  · cases h
    exact ⟨rfl, fun _ _ => rfl⟩

/-- **A creation fills in a directory that was not in use.** -/
theorem create_touches (h : k.Consistent)
    (hr : k.processCreateUserProcess request = .ok (ret, k')) :
    k' = k ∨ ∃ d, k.paging.pageDirectoryUsed d = false ∧ Touches k k' d := by
  by_cases hp : k.PassesChecks request
  · right
    obtain ⟨i, hi⟩ := exists_inactiveIndex h hp.active
    rw [processCreateUserProcess_of_passes hp hi] at hr
    rcases hfind : k.paging.findDirectory with - | d
    · exact absurd hr (loadProcess_ne_ok hfind)
    obtain ⟨k₁, hfs, hram, hpages, hothers, hload⟩ :=
      loadProcess_readFile request i h hfind hp.count hp.free
    rw [hload] at hr
    obtain ⟨⟨ret', k₂⟩, hcall, hr⟩ := bind_eq_ok.mp hr
    obtain ⟨r, -, rfl, rfl⟩ := readFile_newSpace hcall
    change finishLoad _ request _ i d r.ret = .ok (ret, k') at hr
    rw [setCr3_back] at hr
    obtain ⟨hram', hothers'⟩ := finishLoad_touches hr
    refine ⟨d, by simpa using List.find?_some hfind, ?_, ?_⟩
    · exact fun d' hne => (hothers' d' hne).trans (hothers d' hne)
    · intro f hf
      rw [hram', setStore_ram, hpages]
      refine (newDirectory_writeBack hf).trans ?_
      exact congrFun hram f
  · left
    obtain ⟨ret', -, heq⟩ := processCreateUserProcess_of_not_passes hp
    rw [heq] at hr
    cases hr
    rfl

/-- **A destruction clears one directory.** -/
theorem destroy_touches {b : Bool} (h : k.Consistent)
    (hr : k.processDestroy pid = .ok (b, k')) :
    k' = k ∨ ∃ (i : Fin processCountMax) (d : Fin pagingDirectoryTableMaxCount),
      pid.toNat = i ∧ k.Active i ∧ (k.processList i).directory = some (.list d) ∧
      Touches k k' d := by
  unfold processDestroy at hr
  dsimp only at hr
  split_ifs at hr with hpid hinactive hcount
  · cases hr
    exact .inl rfl
  · generalize hi : (⟨pid.toNat, hpid⟩ : Fin processCountMax) = i at hr hinactive hcount
    obtain ⟨d, hruns, -⟩ := h.runsOn i hinactive
    rw [hruns.directory] at hr
    obtain ⟨p₁, hunmap, hr⟩ := bind_eq_ok.mp hr
    cases hr
    refine .inr ⟨i, d, congrArg Fin.val hi, hinactive, hruns.directory, ?_, fun _ _ => rfl⟩
    intro d' hne
    exact (Function.update_of_ne hne _ _).trans (unmapFrames_otherDirectories hunmap hne)

/-! ### What is mapped -/

/-- The directory of a process maps its pages for it, and the rest as a fresh directory
does. -/
def KernelState.Mapped (k : KernelState) : Prop :=
  ∀ i d, k.Active i → (k.processList i).directory = some (.list d) → ∀ page,
    ((k.paging.pageDirectoryList d page).IsUser ↔
      page.val < (k.processList i).pageFrameUsedCount.toNat) ∧
    (¬ (k.paging.pageDirectoryList d page).IsUser →
      k.paging.pageDirectoryList d page = freshDirectory page)

/-- The pages of a process are as before. -/
structure SamePages (k k' : KernelState) (i : Fin processCountMax) : Prop where
  directory : (k'.processList i).directory = (k.processList i).directory
  count : (k'.processList i).pageFrameUsedCount = (k.processList i).pageFrameUsedCount
  list : ∀ d, (k.processList i).directory = some (.list d) →
    k'.paging.pageDirectoryList d = k.paging.pageDirectoryList d

theorem SamePages.of_processList (hlist : k'.processList i = k.processList i)
    (hpages : ∀ d, (k.processList i).directory = some (.list d) →
      k'.paging.pageDirectoryList d = k.paging.pageDirectoryList d) : SamePages k k' i := by
  constructor
  · rw [hlist]
  · rw [hlist]
  · exact hpages

/-- Where every process had its pages before, or is a new one. -/
theorem KernelState.Mapped.step (h : k.Mapped)
    (hpages : ∀ i, k'.Active i → (k.Active i ∧ SamePages k k' i) ∨
      ∀ d, (k'.processList i).directory = some (.list d) → ∀ page,
        ((k'.paging.pageDirectoryList d page).IsUser ↔
          page.val < (k'.processList i).pageFrameUsedCount.toNat) ∧
        (¬ (k'.paging.pageDirectoryList d page).IsUser →
          k'.paging.pageDirectoryList d page = freshDirectory page)) : k'.Mapped := by
  intro i d hi hd page
  rcases hpages i hi with ⟨hi', hsame⟩ | hnew
  · rw [hsame.directory] at hd
    rw [hsame.list d hd, hsame.count]
    exact h i d hi' hd page
  · exact hnew d hd page

/-- The pages of a new process that are not its own. -/
theorem newDirectory_of_not_user (h : ¬ (newDirectory p n page).IsUser) :
    newDirectory p n page = freshDirectory page := by
  rcases mapPages_cases (frameSlots n) p.freeFrames freshDirectory page with
    heq | ⟨m, j, f, -, -, -, heq⟩
  · exact heq
  · exact absurd (show (newDirectory p n page).IsUser by
      rw [newDirectory, heq]
      exact ⟨rfl, rfl⟩) h

/-- An unused directory is that of no process. -/
theorem KernelState.Consistent.directory_ne (h : k.Consistent) (hx : k.Active x)
    (hdir : (k.processList x).directory = some (.list d'))
    (hd : k.paging.pageDirectoryUsed d = false) : d' ≠ d := by
  intro heq
  obtain ⟨d₀, hruns, hused⟩ := h.runsOn x hx
  obtain rfl : d₀ = d' := by simpa using hruns.directory.symm.trans hdir
  rw [heq, hd] at hused
  cases hused

/-- A creation changes nothing about the active processes. -/
theorem create_others (h : k.Consistent)
    (hr : k.processCreateUserProcess request = .ok (ret, k')) (hx : k.Active x) :
    k'.processList x = k.processList x ∧ SamePages k k' x := by
  have hlist : k'.processList x = k.processList x := by
    obtain rfl | ⟨i, d, heffect⟩ := processCreateUserProcess_effect hr
    · rfl
    · apply heffect.others
      rintro rfl
      exact hx heffect.inactive
  refine ⟨hlist, .of_processList hlist fun d' hd' => ?_⟩
  obtain rfl | ⟨d, hd, htouches⟩ := create_touches h hr
  · rfl
  · exact htouches.directories d' (h.directory_ne hx hd' hd)

/-- **A creation maps the pages of the new process.** -/
theorem create_mapped (h : k.Consistent) (hm : k.Mapped)
    (hr : k.processCreateUserProcess request = .ok (ret, k')) : k'.Mapped := by
  apply hm.step
  intro i hi'
  by_cases hi : k.Active i
  · exact .inl ⟨hi, (create_others h hr hi).2⟩
  right
  obtain ⟨-, -, rfl⟩ | ⟨-, i₀, d₀, -, -, -, ⟨-, -, hfailed⟩ | ⟨rfl, -, -⟩⟩ :=
    processCreateUserProcess_cases h hr
  · exact absurd hi' hi
  · -- no slot became active
    by_cases hne : i = i₀
    · subst hne
      exact absurd hfailed.state hi'
    · rw [KernelState.Active, hfailed.others i hne] at hi'
      exact absurd hi' hi
  · obtain ⟨i₁, d₁, r, -, hp, hstarted, hcreated⟩ := create_created h hr
    have hi₁ : i = i₁ := by
      by_contra hne
      rw [KernelState.Active, hcreated.others i hne] at hi'
      exact hi hi'
    subst hi₁
    intro d hd page
    obtain rfl : d₁ = d := by simpa using hcreated.runsOn.directory.symm.trans hd
    rw [hstarted.directory, hcreated.count]
    exact ⟨newDirectory_isUser_iff h hp.count hp.free, newDirectory_of_not_user⟩

/-- A destruction changes nothing about the other processes. -/
theorem destroy_others {b : Bool} (h : k.Consistent)
    (hr : k.processDestroy pid = .ok (b, k')) (hx : k.Active x) (hne : pid.toNat ≠ x) :
    k'.processList x = k.processList x ∧ SamePages k k' x := by
  have hlist : k'.processList x = k.processList x := by
    obtain ⟨i, hi, heffect⟩ := processDestroy_effect hr
    apply heffect.others
    rintro rfl
    exact hne hi
  refine ⟨hlist, .of_processList hlist fun d' hd' => ?_⟩
  obtain rfl | ⟨i, d, hi, hactive, hd, htouches⟩ := destroy_touches h hr
  · rfl
  · apply htouches.directories d'
    rintro rfl
    obtain rfl : x = i := h.directory_inj x i hx hactive (hd'.trans hd.symm)
    exact hne hi

theorem destroy_mapped {b : Bool} (h : k.Consistent) (hm : k.Mapped)
    (hr : k.processDestroy pid = .ok (b, k')) : k'.Mapped := by
  apply hm.step
  intro x hx'
  left
  obtain ⟨i, hi, ⟨-, -, rfl⟩ | ⟨-, d, hd⟩⟩ := processDestroy_cases h hr
  · exact ⟨hx', .of_processList rfl fun _ _ => rfl⟩
  · have hxi : x ≠ i := by
      rintro rfl
      rw [KernelState.Active, hd.processList, Function.update_self] at hx'
      exact hx' rfl
    have hx : k.Active x := by
      rwa [KernelState.Active, hd.processList, Function.update_of_ne hxi] at hx'
    refine ⟨hx, (destroy_others h hr hx ?_).2⟩
    rw [hi]
    exact fun heq => hxi (Fin.ext heq).symm

/-! ### Events -/

theorem SamePages.trans {k'' : KernelState} (h : SamePages k k' i) (h' : SamePages k' k'' i) :
    SamePages k k'' i where
  directory := h'.directory.trans h.directory
  count := h'.count.trans h.count
  list d hd := (h'.list d (h.directory.trans hd)).trans (h.list d hd)

theorem Saved.samePages (hs : Saved k k' ctx c)
    (hctx : ctx.pageDirectoryVirtualAddr = (k.processList c).directory) :
    SamePages k k' x := by
  rcases eq_or_ne x c with rfl | hne
  · refine ⟨?_, ?_, fun d _ => ?_⟩
    · rw [hs.pcb]
      exact hctx
    · rw [hs.pcb]
    · rw [hs.paging]
  · refine .of_processList (hs.others x hne) fun d _ => ?_
    rw [hs.paging]

theorem Switched.samePages (hs : Switched k k' ctx i) : SamePages k k' x := by
  have hlist : ∀ d, k'.paging.pageDirectoryList d = k.paging.pageDirectoryList d := by
    intro d
    rw [hs.paging]
    rfl
  rcases eq_or_ne x i with rfl | hne
  · refine ⟨?_, ?_, fun d _ => hlist d⟩
    · rw [hs.processList_self]
    · rw [hs.processList_self]
  · exact .of_processList (hs.others x hne) fun d _ => hlist d

/-- A switch to an active slot. -/
theorem Switched.mapped (hs : Switched k k' ctx i) (hi : k.Active i) (hm : k.Mapped) :
    k'.Mapped := by
  apply hm.step
  intro x hx'
  refine .inl ⟨?_, hs.samePages⟩
  rcases eq_or_ne x i with rfl | hne
  · exact hi
  · rwa [KernelState.Active, hs.others x hne] at hx'

theorem Saved.mapped (hs : Saved k k' ctx c)
    (hctx : ctx.pageDirectoryVirtualAddr = (k.processList c).directory) (hc : k.Active c)
    (hm : k.Mapped) : k'.Mapped := by
  apply hm.step
  intro x hx'
  refine .inl ⟨?_, hs.samePages hctx⟩
  rcases eq_or_ne x c with rfl | hne
  · exact hc
  · rwa [KernelState.Active, hs.others x hne] at hx'

theorem schedulerSwitch_ram (h : k.schedulerSwitch = .ok (ctx, k')) : k'.ram = k.ram := by
  unfold KernelState.schedulerSwitch at h
  obtain ⟨i, -, h⟩ := bind_eq_ok.mp h
  obtain ⟨p, -, h⟩ := bind_eq_ok.mp h
  cases h
  rfl

theorem timerInterrupt_ram {frame : InterruptFrame}
    (h : k.timerInterrupt frame = .ok (ctx, k')) : k'.ram = k.ram := by
  obtain ⟨k₁, hsave, hswitch⟩ := bind_eq_ok.mp h
  refine (schedulerSwitch_ram hswitch).trans ?_
  unfold KernelState.schedulerSave at hsave
  split at hsave
  · cases hsave
  · cases hsave
    rfl

/-- An exit is a destruction of the running process, and a switch. -/
theorem Runs.exit_destroy (h : Runs k c) (he : k.handle .exit = .ok k') :
    ∃ ref b k₂ ctx i, (k.processList c).pid.toNat = c ∧
      (k.setPaging (k.paging.setCr3 ref)).processDestroy (k.processList c).pid = .ok (b, k₂) ∧
      (∀ x ≠ c, k₂.processList x = k.processList x) ∧ Switched k₂ k' ctx i ∧
      k'.ram = k₂.ram := by
  obtain ⟨⟨ctx, k₃⟩, hexit, he⟩ := bind_eq_ok.mp he
  cases he
  obtain ⟨p, huse, hrest⟩ := bind_eq_ok.mp hexit
  obtain ⟨ref, -, rfl⟩ := KernelState.usePageDirectory_eq_ok.mp huse
  have hcur : k.processGetCurrentRunningPcbPointer = some c := h.current
  rw [hcur] at hrest
  obtain ⟨⟨b, k₂⟩, hdestroy, hswitch⟩ := bind_eq_ok.mp hrest
  obtain ⟨i, hi⟩ := schedulerSwitch_eq_ok hswitch
  obtain ⟨x, hx, heffect⟩ := processDestroy_effect hdestroy
  obtain rfl := h.settled.slot_eq (.inr h.current) hx
  exact ⟨ref, b, k₂, ctx, i, hx, hdestroy, heffect.others, hi, schedulerSwitch_ram hswitch⟩

/-- **Every event keeps the address spaces as they should be.** -/
theorem Runs.mapped (h : Runs k c) (hk : KeepsRunning k e) (he : k.handle e = .ok k')
    (hm : k.Mapped) : k'.Mapped := by
  cases e with
  | user fs ram =>
      cases he
      exact hm
  | timer frame =>
      obtain ⟨c', k₁, ctx, i, hs, hi, -⟩ := handle_timer he
      obtain rfl : c = c' := Option.some.inj (h.current.symm.trans hs.current)
      have hready : (k₁.processList c).state = .ready := by rw [hs.pcb]
      have hfirst := hi.firstReady ⟨c, hready⟩
      refine hi.mapped ?_ (hs.mapped h.directory.symm h.active hm)
      simp [KernelState.Active, hfirst.ready]
  | create request =>
      obtain ⟨ret, hr⟩ := handle_create he
      exact create_mapped h.consistent hm hr
  | exit =>
      obtain ⟨ref, b, k₂, ctx, i, -, hdestroy, hothers, hi, -⟩ := h.exit_destroy he
      have hm₁ : (k.setPaging (k.paging.setCr3 ref)).Mapped := hm
      obtain ⟨x, hx, hready⟩ := hk
      have hne : x ≠ c := by
        rintro rfl
        exact hx h.current
      rw [← hothers x hne] at hready
      have hfirst := hi.firstReady ⟨x, hready⟩
      refine hi.mapped ?_ (destroy_mapped (h.consistent.setCr3 ref) hm₁ hdestroy)
      simp [KernelState.Active, hfirst.ready]
  | kill buf =>
      obtain ⟨b, hdestroy⟩ := handle_kill he
      exact destroy_mapped h.consistent hm hdestroy

/-! ### Frames of processes -/

/-- Frame `f` lies under a page of process `i`. -/
def KernelState.OwnsFrame (k : KernelState) (i : Fin processCountMax)
    (f : Fin pageFrameMaxCount) : Prop :=
  ∃ d page, (k.processList i).directory = some (.list d) ∧
    (k.paging.pageDirectoryList d page).IsUser ∧
    (k.paging.pageDirectoryList d page).frame = some f

/-- The pages of a process are recorded. -/
theorem KernelState.Mapped.mem_keys (hm : k.Mapped) (h : k.Consistent) (hi : k.Active i)
    (hd : (k.processList i).directory = some (.list d))
    (huser : (k.paging.pageDirectoryList d page).IsUser) : (d, page) ∈ k.keys := by
  have hpage := (hm i d hi hd page).1.mp huser
  obtain ⟨d', hruns, -⟩ := h.runsOn i hi
  have hlt : page.val < processPageFrameCountMax := hpage.trans_le hruns.count_le
  refine ⟨i, hi, hd, rfl, ⟨page, hlt⟩, mem_frameSlots.mpr hpage, ?_⟩
  exact Fin.ext (pageIndex_frameAddr ⟨page, hlt⟩).symm

/-- A frame of a process is in use, and is not that of the kernel. -/
theorem KernelState.Mapped.ownsFrame_used (hm : k.Mapped) (h : k.Consistent) (hi : k.Active i)
    (hf : k.OwnsFrame i f) : k.paging.pageFrameMap f = true ∧ f ≠ 0 := by
  obtain ⟨d, page, hd, huser, hframe⟩ := hf
  have hkey := hm.mem_keys h hi hd huser
  obtain ⟨f', hf', hne⟩ := h.balanced.holds _ hkey
  obtain rfl : f = f' := Option.some.inj (hframe.symm.trans hf')
  exact ⟨h.balanced.used_of_frameAt hkey hframe, hne⟩

/-- **No frame lies under two pages.** -/
theorem KernelState.Mapped.frame_inj (hm : k.Mapped) (h : k.Consistent) (hi : k.Active i)
    (hj : k.Active j) (hd : (k.processList i).directory = some (.list d))
    (hd' : (k.processList j).directory = some (.list d'))
    (huser : (k.paging.pageDirectoryList d page).IsUser)
    (huser' : (k.paging.pageDirectoryList d' page').IsUser)
    (hf : (k.paging.pageDirectoryList d page).frame = some f)
    (hf' : (k.paging.pageDirectoryList d' page').frame = some f) : i = j ∧ page = page' := by
  have hkeys := h.balanced.injOn (hm.mem_keys h hi hd huser) (hm.mem_keys h hj hd' huser')
    (hf.trans hf'.symm)
  obtain ⟨rfl, rfl⟩ := Prod.mk.inj hkeys
  exact ⟨h.directory_inj i j hi hj (hd.trans hd'.symm), rfl⟩

theorem KernelState.Mapped.ownsFrame_inj (hm : k.Mapped) (h : k.Consistent) (hi : k.Active i)
    (hj : k.Active j) (hf : k.OwnsFrame i f) (hf' : k.OwnsFrame j f) : i = j := by
  obtain ⟨d, page, hd, huser, hframe⟩ := hf
  obtain ⟨d', page', hd', huser', hframe'⟩ := hf'
  exact (hm.frame_inj h hi hj hd hd' huser huser' hframe hframe').1

/-- The memory of a process is that of its pages and frames. -/
theorem userByte_same (h : k.Consistent) (hi : k.Active i) (hpages : SamePages k k' i)
    (hram : ∀ f, k.OwnsFrame i f → k'.ram f = k.ram f) (a : BitVec 32) :
    k'.userByte i a = k.userByte i a := by
  obtain ⟨d, hruns, -⟩ := h.runsOn i hi
  have hd := hruns.directory
  have hlist : k'.paging.directory (.list d) = k.paging.directory (.list d) := hpages.list d hd
  unfold KernelState.userByte
  rw [hpages.directory, hd]
  dsimp only
  rw [hlist]
  split_ifs with huser
  · congr 1
    unfold PageDirectory.addressSpace
    split
    · rfl
    · next f hf =>
      exact congrFun (hram f ⟨d, pageIndex a, hd, huser, hf⟩) _
  · rfl

/-! ### A process that waits -/

/-- User code writes to its own pages: through the directory in CR3. -/
def OwnStores (k : KernelState) : KernelEvent → Prop
  | .user _ ram => ∃ mem, ram = (k.paging.directory k.paging.cr3).writeBack mem k.ram
  | _ => True

/-- Another process runs, and does not kill process `i`. -/
def Waits (i : Fin processCountMax) (k : KernelState) (e : KernelEvent) : Prop :=
  k.currentPid ≠ some i ∧ ∀ buf, e = .kill buf → killPid buf ≠ i

/-- Process `i` is as it was left. -/
structure AsLeft (k k' : KernelState) (i : Fin processCountMax) : Prop where
  active : k'.Active i
  context : (k'.processList i).context = (k.processList i).context
  memory : ∀ a, k'.userByte i a = k.userByte i a

/-- What user code writes lands in the frames of the running process. -/
theorem Runs.writeBack_other (h : Runs k c) (hm : k.Mapped) (hi : k.Active i) (hne : i ≠ c)
    (hf : k.OwnsFrame i f) :
    (k.paging.directory k.paging.cr3).writeBack mem k.ram f = k.ram f := by
  obtain ⟨d, hruns, -⟩ := h.consistent.runsOn c h.active
  have hcr : k.paging.cr3 = .list d :=
    Option.some.inj (h.directory.symm.trans hruns.directory)
  funext o
  unfold PageDirectory.writeBack
  split
  · rfl
  · next page hpage =>
    have hpage := List.find?_some hpage
    rw [decide_eq_true_eq, hcr] at hpage
    exact absurd (hm.ownsFrame_inj h.consistent hi h.active hf
      ⟨d, page, hruns.directory, hpage.1, hpage.2⟩) hne

/-- The slot that is switched to keeps its registers. -/
theorem Switched.context_eq (hs : Switched k k' ctx j) :
    (k'.processList i).context = (k.processList i).context := by
  rcases eq_or_ne i j with rfl | hne
  · rw [hs.processList_self]
  · rw [hs.others i hne]

theorem Switched.active_of (hs : Switched k k' ctx j) (hi : k.Active i) : k'.Active i := by
  rcases eq_or_ne i j with rfl | hne
  · rw [KernelState.Active, hs.processList_self]
    exact ProcessState.noConfusion
  · rwa [KernelState.Active, hs.others i hne]

/-- **An event while another process runs leaves a process as it is.** -/
theorem Runs.asLeft (h : Runs k c) (hm : k.Mapped) (hi : k.Active i) (hown : OwnStores k e)
    (hw : Waits i k e) (he : k.handle e = .ok k') : AsLeft k k' i := by
  have hne : i ≠ c := by
    rintro rfl
    exact hw.1 h.current
  -- by what happens: only the process that runs stores, and its frames are its own
  cases e with
  | user fs ram =>
      cases he
      obtain ⟨mem, rfl⟩ := hown
      refine ⟨hi, rfl, userByte_same h.consistent hi (.of_processList rfl fun _ _ => rfl) ?_⟩
      intro f hf
      rw [setStore_ram]
      exact h.writeBack_other hm hi hne hf
  -- the switch changes the contexts of the two slots that it is about
  | timer frame =>
      obtain ⟨c', k₁, ctx, j, hs, hj, htimer⟩ := handle_timer he
      obtain rfl : c = c' := Option.some.inj (h.current.symm.trans hs.current)
      have hlist := hs.others i hne
      have hpages : SamePages k k' i := (hs.samePages h.directory.symm).trans hj.samePages
      refine ⟨hj.active_of ?_, ?_, userByte_same h.consistent hi hpages fun f _ => ?_⟩
      · rwa [KernelState.Active, hlist]
      · rw [hj.context_eq, hlist]
      · rw [timerInterrupt_ram htimer]
  -- a new process takes frames that were free
  | create request =>
      obtain ⟨ret, hr⟩ := handle_create he
      obtain ⟨hlist, hpages⟩ := create_others h.consistent hr hi
      refine ⟨?_, ?_, userByte_same h.consistent hi hpages fun f hf => ?_⟩
      · rwa [KernelState.Active, hlist]
      · rw [hlist]
      · obtain rfl | ⟨d, -, htouches⟩ := create_touches h.consistent hr
        · rfl
        · exact htouches.ram f (hm.ownsFrame_used h.consistent hi hf).1
  -- the process that runs gives its frames back, and the next one is taken up
  | exit =>
      obtain ⟨ref, b, k₂, ctx, j, hpid, hdestroy, hothers, hj, hram⟩ := h.exit_destroy he
      have h₁ := h.consistent.setCr3 ref
      have hpid' : (k.processList c).pid.toNat ≠ i := by
        rw [hpid]
        exact fun heq => hne (Fin.ext heq).symm
      have hdestroyed := (destroy_others (x := i) h₁ hdestroy hi hpid').2
      have hpages : SamePages k k' i :=
        SamePages.trans ⟨hdestroyed.directory, hdestroyed.count, hdestroyed.list⟩ hj.samePages
      refine ⟨hj.active_of ?_, ?_, userByte_same h.consistent hi hpages fun f hf => ?_⟩
      · rwa [KernelState.Active, hothers i hne]
      · rw [hj.context_eq, hothers i hne]
      · rw [hram]
        obtain rfl | ⟨x, d, -, -, -, htouches⟩ := destroy_touches h₁ hdestroy
        · rfl
        · exact htouches.ram f (hm.ownsFrame_used h.consistent hi hf).1
  -- the process that is killed is another one
  | kill buf =>
      obtain ⟨b, hdestroy⟩ := handle_kill he
      have hpid : (BitVec.ofInt 32 (killPid buf)).toNat ≠ i := fun heq =>
        hw.2 buf rfl (killPid_eq heq)
      obtain ⟨hlist, hpages⟩ := destroy_others h.consistent hdestroy hi hpid
      refine ⟨?_, ?_, userByte_same h.consistent hi hpages fun f hf => ?_⟩
      · rwa [KernelState.Active, hlist]
      · rw [hlist]
      · obtain rfl | ⟨x, d, -, -, -, htouches⟩ := destroy_touches h.consistent hdestroy
        · rfl
        · exact htouches.ram f (hm.ownsFrame_used h.consistent hi hf).1

/-! ### Runs after boot -/

theorem step_user (k : KernelState) (fs : FsState) (ram : Ram) :
    k.step (.user fs ram) = some (k.setStore fs ram) := rfl

theorem setStore_currentPid (k : KernelState) (fs : FsState) (ram : Ram) :
    (k.setStore fs ram).currentPid = k.currentPid := rfl

/-- Both invariants, along a run. -/
theorem Runs.run_mapped {ok : KernelState → KernelEvent → Prop}
    (hok : ∀ k e, ok k e → KeepsRunning k e) (h : Reaches KernelState.step ok k k')
    (hk : ∃ c, Runs k c) (hm : k.Mapped) : (∃ c, Runs k' c) ∧ k'.Mapped := by
  refine h.invariant (I := fun k => (∃ c, Runs k c) ∧ k.Mapped) ⟨hk, hm⟩ ?_
  rintro k e k' ⟨⟨c, hc⟩, hm⟩ he hstep
  have he' := KernelState.step_eq_some.mp hstep
  exact ⟨hc.handle (hok k e he) he', hc.mapped (hok k e he) he' hm⟩

/-- `kernel_setup` is a creation and a switch to a slot that is Ready. -/
theorem kernelSetup_switched {fs : FsState} (h : kernelSetup fs ram = .ok k) :
    ∃ ret k₁ ctx i, setupCreate fs ram = .ok (ret, k₁) ∧ k₁.schedulerSwitch = .ok (ctx, k) ∧
      Switched k₁ k ctx i ∧ (k₁.processList i).state = .ready := by
  obtain ⟨⟨ret, k₁⟩, hcreate, h⟩ := bind_eq_ok.mp h
  obtain ⟨⟨ctx, k₂⟩, hswitch, h⟩ := bind_eq_ok.mp h
  cases h
  obtain ⟨i, hi⟩ := schedulerSwitch_eq_ok hswitch
  have hcur : k₁.currentPid = none := by
    obtain rfl | ⟨i, d, hc⟩ := processCreateUserProcess_effect hcreate
    · rfl
    · exact hc.current
  refine ⟨ret, k₁, ctx, i, hcreate, hswitch, hi, ?_⟩
  refine (searchLoop_ok hi.search).resolve_right fun hc => ?_
  rw [hcur] at hc
  cases hc

theorem kernelSetup_mapped {fs : FsState} (h : kernelSetup fs ram = .ok k) : k.Mapped := by
  obtain ⟨ret, k₁, ctx, i, hcreate, -, hi, hready⟩ := kernelSetup_switched h
  have hboot := KernelState.boot_consistent (initializeFilesystemFat32 fs) ram
  have hmapped : (KernelState.boot (initializeFilesystemFat32 fs) ram).Mapped :=
    fun i d hi => absurd rfl hi
  refine hi.mapped ?_ (create_mapped hboot hmapped hcreate)
  rw [KernelState.Active, hready]
  exact ProcessState.noConfusion

/-- The states of the runs after boot. -/
theorem boot_run_mapped {fs : FsState} {k₀ : KernelState} (h₀ : kernelSetup fs ram = .ok k₀)
    (h : Reaches KernelState.step KeepsRunning k₀ k) : (∃ c, Runs k c) ∧ k.Mapped :=
  Runs.run_mapped (fun _ _ he => he) h (kernelSetup_runs h₀) (kernelSetup_mapped h₀)

/-- Process `i` may use the address, and frame `f` lies under it. -/
structure SeesFrame (k : KernelState) (i : Fin processCountMax) (a : BitVec 32)
    (f : Fin pageFrameMaxCount) : Prop where
  user : (k.userByte i a).isSome
  frame : ∀ d, (k.processList i).directory = some (.list d) →
    (k.paging.pageDirectoryList d (pageIndex a)).frame = some f

/-- **The address spaces of the processes.**  While no process kills itself or exits as the
last one that could run, in every state of a run after boot: a process may use exactly the
addresses of the pages that were counted for it, and each lies in a frame; addresses lie in one
frame only if they are in one page of one process; no such frame is that of the kernel; and
every process has the kernel mapped, and nothing else. -/
theorem address_spaces_separate {fs : FsState} {k₀ : KernelState}
    (h₀ : kernelSetup fs ram = .ok k₀) (h : Reaches KernelState.step KeepsRunning k₀ k) :
    (∀ i, k.Active i → ∀ a, ((k.userByte i a).isSome ↔
        a.toNat < (k.processList i).pageFrameUsedCount.toNat * pageFrameSize.toNat) ∧
      ((k.userByte i a).isSome ↔ ∃ f, SeesFrame k i a f)) ∧
    (∀ i j a b f, k.Active i → k.Active j → SeesFrame k i a f → SeesFrame k j b f →
      i = j ∧ pageIndex a = pageIndex b ∧ f ≠ 0) ∧
    ∀ i d, k.Active i → (k.processList i).directory = some (.list d) →
      k.paging.pageDirectoryList d 0x300 = kernelEntry ∧
      ∀ a, ¬ (k.userByte i a).isSome → pageIndex a ≠ 0x300 →
        k.paging.pageDirectoryList d (pageIndex a) = {} := by
  obtain ⟨⟨c, hc⟩, hm⟩ := boot_run_mapped h₀ h
  have hk := hc.consistent
  -- an address of a user page is one that its directory maps
  have huser : ∀ i d a, (k.processList i).directory = some (.list d) →
      ((k.userByte i a).isSome ↔ (k.paging.pageDirectoryList d (pageIndex a)).IsUser) := by
    intro i d a hd
    unfold KernelState.userByte
    rw [hd]
    show (if (k.paging.pageDirectoryList d (pageIndex a)).IsUser then some _ else none).isSome ↔ _
    split_ifs with h
    · exact iff_of_true rfl h
    · exact iff_of_false (by simp) h
  refine ⟨fun i hi a => ?_, fun i j a b f hi hj ha hb => ?_, fun i d hi hd => ⟨?_, ?_⟩⟩
  -- the pages below its count, and each of them has its frame
  · obtain ⟨d, hruns, -⟩ := hk.runsOn i hi
    constructor
    · rw [huser i d a hruns.directory, (hm i d hi hruns.directory _).1, pageIndex_val]
      exact Nat.div_lt_iff_lt_mul (by decide)
    · refine ⟨fun ha => ?_, fun ⟨f, hf⟩ => hf.user⟩
      have hkey := hm.mem_keys hk hi hruns.directory ((huser i d a hruns.directory).mp ha)
      obtain ⟨f, hf, -⟩ := hk.balanced.holds _ hkey
      refine ⟨f, ha, fun d' hd' => ?_⟩
      obtain rfl : d = d' := by simpa using hruns.directory.symm.trans hd'
      exact hf
  -- two processes that see one frame are one
  · obtain ⟨d, hruns, -⟩ := hk.runsOn i hi
    obtain ⟨d', hruns', -⟩ := hk.runsOn j hj
    have hua := (huser i d a hruns.directory).mp ha.user
    have hub := (huser j d' b hruns'.directory).mp hb.user
    have hfa := ha.frame d hruns.directory
    obtain ⟨hij, hpage⟩ := hm.frame_inj hk hi hj hruns.directory hruns'.directory hua hub hfa
      (hb.frame d' hruns'.directory)
    exact ⟨hij, hpage, (hm.ownsFrame_used hk hi ⟨d, _, hruns.directory, hua, hfa⟩).2⟩
  -- the kernel is seen at the same place in every directory, and nothing else is
  · obtain ⟨d', hruns, -⟩ := hk.runsOn i hi
    have hcount := hruns.count_le
    have hnot : ¬ (k.paging.pageDirectoryList d 0x300).IsUser := by
      rw [(hm i d hi hd _).1]
      exact not_lt.mpr (hcount.trans (by decide))
    exact (hm i d hi hd _).2 hnot
  · intro a ha hpage
    rw [huser i d a hd] at ha
    rw [(hm i d hi hd _).2 ha]
    exact if_neg hpage

theorem address_spaces_separate_twoShells : ∃ k, k.Active 0 ∧ k.Active 1 ∧
    (∀ i, k.Active i → ∀ a, ((k.userByte i a).isSome ↔
        a.toNat < (k.processList i).pageFrameUsedCount.toNat * pageFrameSize.toNat) ∧
      ((k.userByte i a).isSome ↔ ∃ f, SeesFrame k i a f)) ∧
    (∀ i j a b f, k.Active i → k.Active j → SeesFrame k i a f → SeesFrame k j b f →
      i = j ∧ pageIndex a = pageIndex b ∧ f ≠ 0) ∧
    ∀ i d, k.Active i → (k.processList i).directory = some (.list d) →
      k.paging.pageDirectoryList d 0x300 = kernelEntry ∧
      ∀ a, ¬ (k.userByte i a).isSome → pageIndex a ≠ 0x300 →
        k.paging.pageDirectoryList d (pageIndex a) = {} := by
  have hrun : (shellKernel.step (.create shellRequest)).map (fun k =>
      ((k.processList 0).state, (k.processList 1).state)) = some (.running, .ready) := by
    decide +kernel
  obtain ⟨k, hk, hstate⟩ := Option.map_eq_some_iff.mp hrun
  obtain ⟨h0, h1⟩ := Prod.mk.inj hstate
  refine ⟨k, by simp [KernelState.Active, h0], by simp [KernelState.Active, h1], ?_⟩
  exact address_spaces_separate shellKernel_setup (.single ⟨.create shellRequest, trivial, hk⟩)

/-- What every event leaves of the process that waits, a run leaves. -/
theorem run_asLeft (hruns : ∃ c, Runs k c) (hm : k.Mapped) (hi : k.Active i)
    (hwait : Reaches KernelState.step (fun k e => KeepsRunning k e ∧ OwnStores k e ∧ Waits i k e)
      k k') : AsLeft k k' i := by
  have hinv : ((∃ c, Runs k' c) ∧ k'.Mapped) ∧ AsLeft k k' i := by
    refine hwait.invariant (I := fun k' => ((∃ c, Runs k' c) ∧ k'.Mapped) ∧ AsLeft k k' i)
      ⟨⟨hruns, hm⟩, hi, rfl, fun _ => rfl⟩ ?_
    rintro k₁ e k₂ ⟨⟨⟨c, hc⟩, hm⟩, hleft⟩ ⟨hkeeps, hown, hwaits⟩ hstep
    have he := KernelState.step_eq_some.mp hstep
    have hleft' := hc.asLeft hm hleft.active hown hwaits he
    refine ⟨⟨hc.handle hkeeps he, hc.mapped hkeeps he hm⟩, hleft'.active, ?_, fun a => ?_⟩
    · exact hleft'.context.trans hleft.context
    · exact (hleft'.memory a).trans (hleft.memory a)
  exact hinv.2

/-- **A process that waits is left alone.**  After any run after boot, while other processes
run, whatever they do, and none of them kills process `i`: it stays active, its saved
registers stay the same, and it has the same bytes at the same addresses. -/
theorem waiting_process_kept {fs : FsState} {k₀ : KernelState}
    (h₀ : kernelSetup fs ram = .ok k₀) (h : Reaches KernelState.step KeepsRunning k₀ k)
    (hi : k.Active i)
    (hwait : Reaches KernelState.step (fun k e => KeepsRunning k e ∧ OwnStores k e ∧ Waits i k e)
      k k') : AsLeft k k' i := by
  obtain ⟨hruns, hm⟩ := boot_run_mapped h₀ h
  exact run_asLeft hruns hm hi hwait

/-- The shell creates another one, which runs, fills its memory and exits. -/
theorem waiting_process_kept_shell : ∃ k k', k.currentPid = some 1 ∧ k'.currentPid = some 0 ∧
    AsLeft k k' 0 := by
  have hrun : ((shellKernel.step (.create shellRequest)).bind fun k₁ =>
      (k₁.step (.timer { intNumber := 0x20#32 })).bind fun k =>
        (KernelState.step (k.setStore shellDisk
          ((k.paging.directory k.paging.cr3).writeBack (fun _ => 7) k.ram)) .exit).map fun k' =>
            (k.currentPid, (k.processList 0).state, k'.currentPid)) =
      some (some 1, .ready, some 0) := by decide +kernel
  -- the second process runs, stores into its memory and exits
  obtain ⟨k₁, hcreate, hrun⟩ := Option.bind_eq_some_iff.mp hrun
  obtain ⟨k, htimer, hrun⟩ := Option.bind_eq_some_iff.mp hrun
  obtain ⟨k', hexit, hrun⟩ := Option.map_eq_some_iff.mp hrun
  obtain ⟨hcur, hstate, hcur'⟩ : k.currentPid = some 1 ∧ (k.processList 0).state = .ready ∧
      k'.currentPid = some 0 := by
    simpa using hrun
  have hother : k.currentPid ≠ some 0 := by
    rw [hcur]
    decide
  obtain ⟨ram', hram'⟩ : ∃ ram', ram' =
      (k.paging.directory k.paging.cr3).writeBack (fun _ => 7) k.ram := ⟨_, rfl⟩
  rw [← hram'] at hexit
  obtain ⟨k₂, hk₂⟩ : ∃ k₂, k₂ = k.setStore shellDisk ram' := ⟨_, rfl⟩
  -- nothing of the first process is changed by that
  have huser : k.step (.user shellDisk ram') = some k₂ := by
    rw [step_user, hk₂]
  have hown : OwnStores k (.user shellDisk ram') := ⟨fun _ => 7, hram'⟩
  have hcur₂ : k₂.currentPid = k.currentPid := by
    rw [hk₂, setStore_currentPid]
  have hlist₂ : k₂.processList = k.processList := by
    rw [hk₂, setStore_processList]
  have hactive : k.Active 0 := by
    rw [KernelState.Active, hstate]
    exact ProcessState.noConfusion
  rw [← hk₂] at hexit
  have hother₂ : k₂.currentPid ≠ some 0 := by
    rw [hcur₂]
    exact hother
  have hkeeps₂ : KeepsRunning k₂ .exit := by
    refine ⟨0, hother₂, ?_⟩
    rw [hlist₂]
    exact hstate
  refine ⟨k, k', hcur, hcur', ?_⟩
  apply waiting_process_kept shellKernel_setup ?_ hactive
  · exact .tail (.single ⟨.user shellDisk ram', ⟨trivial, hown, hother, by simp⟩, huser⟩)
      ⟨.exit, ⟨hkeeps₂, trivial, hother₂, by simp⟩, hexit⟩
  · exact .tail (.single ⟨.create shellRequest, trivial, hcreate⟩) ⟨.timer _, trivial, htimer⟩

end Binbows
