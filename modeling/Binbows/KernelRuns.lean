/-
Binbows/KernelRuns.lean

The kernel over runs of any events.

First the search of the scheduler: from any process table with a Ready slot it
ends, at the first such slot in the cyclic order after `current_pid`
(`searchNext_eq`).

Then `Settled`, which every run keeps whatever the processes call: a slot that
is not the current one is Inactive or Ready, and a slot that is current or in
use has its own number as pid and a directory of the list.  None of this needs
the tables to be consistent, so it also holds after the calls that make them
inconsistent (`handle_settled`).
-/
import Binbows.FrameAccounting
import Binbows.Library.Cyclic
import Mathlib.Data.Finset.Max

namespace Binbows

open Bytes Run

variable {k k' : KernelState} {request : FAT32DriverRequest} {ret : Int}
  {i i' c x : Fin processCountMax} {p p' p'' : PagingState} {ptr : Option DirectoryRef}
  {pid : BitVec 32} {ctx : Context} {js : List (Fin processPageFrameCountMax)}
  {list : Fin processCountMax → ProcessControlBlock} {cur : Option (Fin processCountMax)}

/-! ### The search of the scheduler -/

/-- The position of `contextId` in the order `current_pid + 1, …, 15, 0, …`;
16 stands for 0, which the loop turns it into. -/
def position (cur : Option (Fin processCountMax)) (contextId : Nat) : Nat :=
  match cur with
  | none => contextId
  | some c =>
      if c.val < contextId then contextId - c - 1 else contextId + processCountMax - c - 1

theorem position_injective {y : Fin processCountMax} (h : position cur x = position cur y) :
    x = y := by
  have hx := x.isLt
  have hy := y.isLt
  unfold processCountMax at hx hy
  cases cur with
  | none => exact Fin.ext h
  | some c =>
      have hc := c.isLt
      unfold position processCountMax at *
      dsimp only at h
      split_ifs at h <;> omega

theorem position_lt (cur : Option (Fin processCountMax)) (x : Fin processCountMax) :
    position cur x < processCountMax := by
  have hx := x.isLt
  cases cur with
  | none => exact hx
  | some c =>
      have hc := c.isLt
      unfold position processCountMax at *
      dsimp only
      split_ifs <;> omega

/-- The slot the loop looks at when it gets to `contextId`. -/
theorem position_wrap {contextId : Nat} (hpos : position cur contextId < processCountMax)
    (hid : contextId ≤ processCountMax) :
    position cur (if h : contextId < processCountMax then
      (⟨contextId, h⟩ : Fin processCountMax) else 0).val = position cur contextId := by
  split_ifs with h
  · rfl
  · obtain rfl : contextId = processCountMax := by omega
    cases cur with
    | none => exact absurd hpos (lt_irrefl _)
    | some c =>
        have hc := c.isLt
        unfold position processCountMax at *
        simp

/-- The current slot comes last. -/
theorem position_self (c : Fin processCountMax) :
    position (some c) c = processCountMax - 1 := by
  unfold position
  dsimp only
  rw [if_neg (lt_irrefl _)]
  omega

theorem position_succ (i : Fin processCountMax) (h : position cur i + 1 < processCountMax) :
    position cur (i + 1) = position cur i + 1 := by
  have hi := i.isLt
  cases cur with
  | none => rfl
  | some c =>
      have hc := c.isLt
      unfold position processCountMax at *
      dsimp only at h ⊢
      split_ifs at h ⊢ <;> omega

/-- The loop stops at Ready slots and, unless that is slot 0, at the current one. -/
def StopsAt (list : Fin processCountMax → ProcessControlBlock)
    (cur : Option (Fin processCountMax)) (x : Fin processCountMax) : Prop :=
  (list x).state = .ready ∨ (cur = some x ∧ 0 < x.val)

/-- On its way to the slot `x` that it stops at, the loop meets no Ready slot
that comes after `x`. -/
theorem searchLoop_eq (hx : StopsAt list cur x)
    (hfirst : ∀ y, (list y).state = .ready → position cur x ≤ position cur y)
    {fuel contextId : Nat} (hid : contextId ≤ processCountMax)
    (hpos : position cur contextId ≤ position cur x)
    (hfuel : position cur x - position cur contextId < fuel) :
    KernelState.searchLoop list cur fuel contextId = .ok x := by
  have hlt := position_lt cur x
  -- by the slots that are left, which come in the order of their positions
  induction fuel generalizing contextId with
  | zero => exact absurd hfuel (Nat.not_lt_zero _)
  | succ fuel ih =>
      unfold KernelState.searchLoop
      split
      · -- back at the current slot, the last of the order
        next c hc =>
        obtain ⟨rfl, hval⟩ := Option.filter_eq_some_iff.mp hc
        have hval : c.val = contextId := by simpa using hval
        rw [← hval, position_self] at hpos
        have hlast : position (some c) c = position (some c) x := by
          rw [position_self]
          omega
        exact congrArg _ (position_injective hlast)
      · next hcur =>
        dsimp only
        generalize hi : (if h : contextId < processCountMax then
          (⟨contextId, h⟩ : Fin processCountMax) else 0) = i
        -- past the last slot the search goes on at the first
        have hwrap : position cur i = position cur contextId := by
          rw [← hi]
          exact position_wrap (by omega) hid
        split_ifs with hready
        · have hle := hfirst i hready
          have hfirst : position cur i = position cur x := by omega
          exact congrArg _ (position_injective hfirst)
        · -- `x` is further on
          have hix : i ≠ x := by
            rintro rfl
            rcases hx with hx | ⟨rfl, hx⟩
            · exact hready hx
            · split_ifs at hi
              · simp [← hi] at hcur
              · rw [← hi] at hx
                exact lt_irrefl _ hx
          -- `x` is where the search stops, and this slot is not ready
          have hne : position cur i ≠ position cur x := fun heq => hix (position_injective heq)
          have hsucc : position cur (i + 1) = position cur i + 1 := position_succ i (by omega)
          exact ih (by have := i.isLt; omega) (by omega) (by omega)

theorem firstContextId_le (cur : Option (Fin processCountMax)) :
    KernelState.firstContextId cur ≤ processCountMax := by
  cases cur with
  | none => exact Nat.zero_le _
  | some c => exact c.isLt

theorem position_first (cur : Option (Fin processCountMax)) :
    position cur (KernelState.firstContextId cur) = 0 := by
  cases cur with
  | none => rfl
  | some c =>
      show position (some c) (c + 1) = 0
      unfold position
      dsimp only
      rw [if_pos (Nat.lt_succ_self _)]
      omega

/-- `x` is the first Ready slot in the order `current_pid + 1, …, 15, 0, …,
current_pid`. -/
structure KernelState.FirstReady (k : KernelState) (x : Fin processCountMax) : Prop where
  ready : (k.processList x).state = .ready
  first : ∀ y, (k.processList y).state = .ready → position k.currentPid x ≤ position k.currentPid y

theorem KernelState.FirstReady.searchNext_eq (h : k.FirstReady x) : k.searchNext = .ok x := by
  have hlt := position_lt k.currentPid x
  refine searchLoop_eq (.inl h.ready) h.first (firstContextId_le _) ?_ ?_
  · rw [position_first]
    exact Nat.zero_le _
  · rw [position_first]
    unfold searchFuel
    omega

theorem KernelState.exists_firstReady (h : ∃ x, (k.processList x).state = .ready) :
    ∃ x, k.FirstReady x := by
  obtain ⟨y, hy⟩ := h
  obtain ⟨x, hx, hmin⟩ := Finset.exists_min_image
    (Finset.univ.filter fun x => (k.processList x).state = .ready)
    (fun x => position k.currentPid x) ⟨y, by simp [hy]⟩
  refine ⟨x, (Finset.mem_filter.mp hx).2, fun z hz => ?_⟩
  exact hmin z (by simp [hz])

/-- The loop ends at a Ready slot or at the current one. -/
theorem searchLoop_ok {fuel contextId : Nat}
    (h : KernelState.searchLoop list cur fuel contextId = .ok x) :
    (list x).state = .ready ∨ cur = some x := by
  induction fuel generalizing contextId with
  | zero => cases h
  | succ fuel ih =>
      unfold KernelState.searchLoop at h
      split at h
      · next c hc =>
        cases h
        exact .inr (Option.filter_eq_some_iff.mp hc).1
      · dsimp only at h
        generalize (if h : contextId < processCountMax then
          (⟨contextId, h⟩ : Fin processCountMax) else 0) = i at h
        split_ifs at h with hready
        · cases h
          exact .inl hready
        · exact ih h

/-! ### What switching does -/

/-- The next process runs: the state after a switch to slot `i`. -/
structure Switched (k k' : KernelState) (ctx : Context) (i : Fin processCountMax) : Prop where
  search : k.searchNext = .ok i
  context : ctx = (k.processList i).context
  current : k'.currentPid = some i
  processList : k'.processList =
    Function.update k.processList i { k.processList i with state := .running }
  active : k'.activeProcessCount = k.activeProcessCount
  cr3 : (k.processList i).directory = some k'.paging.cr3
  paging : k'.paging = k.paging.setCr3 k'.paging.cr3

theorem schedulerSwitch_eq_ok (h : k.schedulerSwitch = .ok (ctx, k')) :
    ∃ i, Switched k k' ctx i := by
  unfold KernelState.schedulerSwitch at h
  obtain ⟨i, hsearch, h⟩ := bind_eq_ok.mp h
  obtain ⟨p, huse, h⟩ := bind_eq_ok.mp h
  obtain ⟨ref, href, rfl⟩ := KernelState.usePageDirectory_eq_ok.mp huse
  cases h
  exact ⟨i, hsearch, rfl, rfl, rfl, rfl, href, rfl⟩

/-! ### What the other calls can do, in any state -/

/-- Every entry of a listed directory that is present maps a frame of RAM. -/
def PagingState.Sound (p : PagingState) : Prop :=
  ∀ d page, (p.pageDirectoryList d page).flag.presentBit →
    (p.pageDirectoryList d page).lowerAddress.toNat < pageFrameMaxCount

/-- What every operation on page tables keeps. -/
structure PagingState.Kept (p p' : PagingState) : Prop where
  cr3 : p'.cr3 = p.cr3
  sound : p.Sound → p'.Sound

theorem PagingState.Kept.refl (p : PagingState) : Kept p p := ⟨rfl, id⟩

theorem PagingState.Kept.trans (h : Kept p p') (h' : Kept p' p'') : Kept p p'' :=
  ⟨h'.cr3.trans h.cr3, fun hs => h'.sound (h.sound hs)⟩

theorem markFrame_kept (f : Fin pageFrameMaxCount) (used : Bool) : p.Kept (p.markFrame f used) :=
  ⟨rfl, id⟩

theorem updatePageDirectoryEntry_kept {ref : DirectoryRef} {pa va : BitVec 32}
    {flag : PageDirectoryEntryFlag}
    (he : flag.presentBit → (PagingState.makeEntry pa flag).lowerAddress.toNat < pageFrameMaxCount) :
    p.Kept (p.updatePageDirectoryEntry ref pa va flag) := by
  cases ref with
  | kernel => exact ⟨rfl, id⟩
  | list d =>
      refine ⟨rfl, fun hs d' page => ?_⟩
      show (Function.update p.pageDirectoryList d (Function.update _ _ _) d' page).flag.presentBit →
        (Function.update p.pageDirectoryList d (Function.update _ _ _) d' page).lowerAddress.toNat < _
      rcases eq_or_ne d' d with rfl | hd
      · rw [Function.update_self]
        rcases eq_or_ne page (pageIndex va) with rfl | hpage
        · rw [Function.update_self]
          exact he
        · rw [Function.update_of_ne hpage]
          exact hs d' page
      · rw [Function.update_of_ne hd]
        exact hs d' page

theorem userEntry_sound (f : Fin pageFrameMaxCount) : (PagingState.makeEntry
    (pageFrameSize * BitVec.ofNat 32 f) PagingState.userFlag).lowerAddress.toNat <
      pageFrameMaxCount := by
  revert f
  decide

theorem allocateUserPageFrame_kept {va : BitVec 32} {b : Bool}
    (h : p.allocateUserPageFrame ptr va = .ok (b, p')) : p.Kept p' := by
  unfold PagingState.allocateUserPageFrame at h
  split_ifs at h
  · split at h
    · cases h
      exact .refl p
    · split at h
      · cases h
      · cases h
        exact (markFrame_kept _ _).trans (updatePageDirectoryEntry_kept fun _ => userEntry_sound _)
  · cases h
    exact .refl p

theorem freeUserPageFrame_kept {va : BitVec 32} {b : Bool}
    (h : p.freeUserPageFrame ptr va = .ok (b, p')) : p.Kept p' := by
  unfold PagingState.freeUserPageFrame at h
  split at h
  · cases h
  · dsimp only at h
    split_ifs at h with hpresent hlt
    · cases h
      exact (markFrame_kept _ _).trans
        (updatePageDirectoryEntry_kept fun hp => absurd hp Bool.false_ne_true)
    · cases h
      exact .refl p

theorem unmapFrames_kept {addrs : List (BitVec 32)}
    (h : KernelState.unmapFrames ptr addrs p = .ok p') : p.Kept p' := by
  induction addrs generalizing p with
  | nil =>
      cases h
      exact .refl _
  | cons va rest ih =>
      rw [KernelState.unmapFrames] at h
      obtain ⟨⟨b, p₁⟩, hfree, h⟩ := bind_eq_ok.mp h
      exact (freeUserPageFrame_kept hfree).trans (ih h)

/-- The mapping loop changes the page tables and the recorded addresses. -/
theorem mapFrames_eq_ok (h : k.mapFrames i ptr js = .ok k') :
    ∃ p addrs, k.paging.Kept p ∧ k' = (k.setPaging p).modifyPcb i fun pcb =>
      { pcb with virtualAddrUsed := addrs } := by
  induction js generalizing k with
  | nil =>
      obtain rfl := Except.ok.inj h
      refine ⟨k.paging, (k.processList i).virtualAddrUsed, .refl _, ?_⟩
      simp [KernelState.setPaging, KernelState.modifyPcb]
  | cons j js ih =>
      rw [KernelState.mapFrames] at h
      obtain ⟨⟨b, p₁⟩, halloc, h⟩ := bind_eq_ok.mp h
      obtain ⟨p, addrs, hkept, rfl⟩ := ih h
      refine ⟨p, addrs, (allocateUserPageFrame_kept halloc).trans hkept, ?_⟩
      simp only [KernelState.setPaging_modifyPcb, KernelState.setPaging_setPaging,
        KernelState.modifyPcb_modifyPcb]

/-- What a creation can do to the process list: one inactive slot changes. -/
structure CreateEffect (k k' : KernelState) (i : Fin processCountMax)
    (d : Fin pagingDirectoryTableMaxCount) : Prop where
  inactive : (k.processList i).state = .inactive
  current : k'.currentPid = k.currentPid
  paging : k.paging.Kept k'.paging
  others : ∀ i' ≠ i, k'.processList i' = k.processList i'
  count : (k'.processList i).pageFrameUsedCount = (k.processList i).pageFrameUsedCount ∨
    (k'.processList i).pageFrameUsedCount.toNat ≤ processPageFrameCountMax
  directory : (k'.processList i).directory = some (.list d)
  state : ((k'.processList i).state = .inactive ∧ (k'.processList i).pid = (k.processList i).pid) ∨
    ((k'.processList i).state = .ready ∧ (k'.processList i).pid = BitVec.ofNat 32 i)

/-- What a destruction can do to the process list. -/
structure DestroyEffect (k k' : KernelState) (i : Fin processCountMax) : Prop where
  current : k'.currentPid = k.currentPid
  paging : k.paging.Kept k'.paging
  others : ∀ i' ≠ i, k'.processList i' = k.processList i'
  count : (k'.processList i).pageFrameUsedCount = (k.processList i).pageFrameUsedCount
  pid : (k'.processList i).pid = (k.processList i).pid
  directory : (k'.processList i).directory = (k.processList i).directory
  state : (k'.processList i).state = .inactive ∨
    ((k'.processList i).state = (k.processList i).state ∧
      ∀ d, (k.processList i).directory ≠ some (.list d))

/-- Only what is in the list can be freed. -/
theorem freePageDirectory_eq {freed : Bool} (h : p.freePageDirectory ptr = (freed, p')) :
    p.Kept p' ∧ (freed = false → ∀ d, ptr ≠ some (.list d)) := by
  unfold PagingState.freePageDirectory at h
  split at h
  · next d =>
    cases h
    refine ⟨⟨rfl, fun hs d' page => ?_⟩, fun hf => absurd hf (by decide)⟩
    dsimp only
    rcases eq_or_ne d' d with rfl | hd
    · rw [Function.update_self]
      exact fun hp => absurd hp (by decide)
    · rw [Function.update_of_ne hd]
      exact hs d' page
  · next hne =>
    cases h
    exact ⟨.refl p, fun _ d => hne d⟩

theorem createNewPageDirectory_kept : p.Kept p.createNewPageDirectory.2 := by
  unfold PagingState.createNewPageDirectory
  split
  · exact .refl p
  · next d _ =>
    refine ⟨rfl, fun hs d' page => ?_⟩
    dsimp only
    rcases eq_or_ne d' d with rfl | hd
    · rw [Function.update_self, freshDirectory]
      split_ifs
      · exact fun _ => by decide
      · exact fun hp => absurd hp (by decide)
    · rw [Function.update_of_ne hd]
      exact hs d' page

theorem processDestroy_effect {b : Bool} (h : k.processDestroy pid = .ok (b, k')) :
    ∃ i : Fin processCountMax, pid.toNat = i ∧ DestroyEffect k k' i := by
  unfold KernelState.processDestroy at h
  dsimp only at h
  split_ifs at h with hpid hinactive hcount
  · cases h
    exact ⟨⟨pid.toNat, hpid⟩, rfl, rfl, .refl _, fun _ _ => rfl, rfl, rfl, rfl, .inl hinactive⟩
  · generalize hi : (⟨pid.toNat, hpid⟩ : Fin processCountMax) = i at h hinactive hcount
    refine ⟨i, congrArg Fin.val hi, ?_⟩
    obtain ⟨p₁, hunmap, h⟩ := bind_eq_ok.mp h
    have hkept := unmapFrames_kept hunmap
    rcases hfree : p₁.freePageDirectory (k.processList i).directory with ⟨freed, p₂⟩
    obtain ⟨hkept₂, hlisted⟩ := freePageDirectory_eq hfree
    rw [hfree] at h
    cases freed with
    | false =>
        obtain ⟨k₁, hmap, h⟩ := bind_eq_ok.mp h
        obtain ⟨p, addrs, hp, rfl⟩ := mapFrames_eq_ok hmap
        cases h
        refine ⟨rfl, (hkept.trans hkept₂).trans hp,
          fun i' hne => KernelState.modifyPcb_of_ne _ hne, ?_, ?_, ?_, .inr ⟨?_, hlisted rfl⟩⟩
        all_goals
          rw [KernelState.modifyPcb_same]
          rfl
    | true =>
        cases h
        refine ⟨rfl, hkept.trans hkept₂, fun i' hne => ?_, ?_, ?_, ?_, .inl ?_⟩
        · exact Function.update_of_ne hne _ _
        all_goals
          simp [KernelState.modifyPcb, KernelState.setPaging]

theorem loadProcess_effect {n : BitVec 32} (hi : k.processListGetInactiveIndex = some i)
    (hn : n.toNat ≤ processPageFrameCountMax)
    (h : k.loadProcess request n i = .ok (ret, k')) : ∃ d, CreateEffect k k' i d := by
  rcases hfind : k.paging.findDirectory with - | d
  · exact absurd h (KernelState.loadProcess_ne_ok hfind)
  have hinactive := KernelState.processListGetInactiveIndex_inactive hi
  have hnew := createNewPageDirectory_kept (p := k.paging)
  rw [PagingState.createNewPageDirectory, hfind] at hnew
  rw [KernelState.loadProcess, PagingState.createNewPageDirectory, hfind] at h
  obtain ⟨k₁, hmap, h⟩ := bind_eq_ok.mp h
  obtain ⟨p₁, addrs, hkept, rfl⟩ := mapFrames_eq_ok hmap
  dsimp only at h
  obtain ⟨p₂, huse, h⟩ := bind_eq_ok.mp h
  obtain ⟨_, hnext, rfl⟩ := KernelState.usePageDirectory_eq_ok.mp huse
  cases hnext
  obtain ⟨⟨r, k₃⟩, hread, h⟩ := bind_eq_ok.mp h
  obtain ⟨r, -, rfl, rfl⟩ := KernelState.readFile_eq_ok hread
  change KernelState.finishLoad _ request n i d r.ret = .ok (ret, k') at h
  rw [KernelState.setCr3_back, KernelState.setPaging_modifyPcb, KernelState.setPaging_setPaging,
    KernelState.modifyPcb_modifyPcb] at h
  -- the state before the return code of `read` is looked at
  generalize hk₂ : KernelState.setStore _ r.fs _ = k₂ at h
  have hothers : ∀ i' ≠ i, k₂.processList i' = k.processList i' := by
    intro i' hne
    rw [← hk₂]
    exact Function.update_of_ne hne _ _
  have hpcb : k₂.processList i = { k.processList i with
      virtualAddrUsed := addrs
      context := { (k.processList i).context with
        pageDirectoryVirtualAddr := some (.list d) } } := by
    rw [← hk₂]
    exact Function.update_self _ _ _
  have hkept₂ : k.paging.Kept k₂.paging := by
    rw [← hk₂]
    exact hnew.trans hkept
  have hcur₂ : k₂.currentPid = k.currentPid := by
    rw [← hk₂]
    rfl
  refine ⟨d, ?_⟩
  unfold KernelState.finishLoad at h
  split_ifs at h with hret
  · obtain ⟨p₅, hunmap, h⟩ := bind_eq_ok.mp h
    cases h
    refine ⟨hinactive, hcur₂, hkept₂.trans (unmapFrames_kept hunmap), hothers, .inl ?_, ?_,
      .inl ⟨?_, ?_⟩⟩
    · show (k₂.processList i).pageFrameUsedCount = _
      rw [hpcb]
    · show (k₂.processList i).directory = _
      rw [hpcb]
    · show (k₂.processList i).state = _
      rw [hpcb]
      exact hinactive
    · show (k₂.processList i).pid = _
      rw [hpcb]
  · cases h
    have hindex : k₂.processListGetInactiveIndex = some i := by
      rw [← hi]
      refine KernelState.processListGetInactiveIndex_congr fun i' => ?_
      rcases eq_or_ne i' i with rfl | hne
      · rw [hpcb]
      · rw [hothers i' hne]
    have hstart := KernelState.startProcess_processList request n hindex
    refine ⟨hinactive, hcur₂, hkept₂, fun i' hne => ?_, .inr ?_, ?_, .inr ⟨?_, ?_⟩⟩
    · rw [KernelState.startProcess_of_ne request n hne, hothers i' hne]
    · rw [hstart]
      exact hn
    · rw [hstart, hpcb]
      rfl
    · rw [hstart]
    · rw [hstart]

theorem processCreateUserProcess_effect (h : k.processCreateUserProcess request = .ok (ret, k')) :
    k' = k ∨ ∃ i d, CreateEffect k k' i d := by
  unfold KernelState.processCreateUserProcess at h
  dsimp only at h
  split_ifs at h with hactive hentry hmem
  · cases h
    exact .inl rfl
  · cases h
    exact .inl rfl
  · cases h
    exact .inl rfl
  · have hcount := BitVec.le_def.mp (BitVec.not_lt.mp (not_or.mp hmem).2)
    split at h
    · cases h
    · next i hi => exact .inr ⟨i, loadProcess_effect hi hcount h⟩

/-! ### Settled process lists -/

/-- Slot `x` holds a process or is the current one. -/
def KernelState.InUse (k : KernelState) (x : Fin processCountMax) : Prop :=
  k.Active x ∨ k.currentPid = some x

structure SettledSlots (k : KernelState) : Prop where
  idle : ∀ x, k.currentPid ≠ some x →
    (k.processList x).state = .inactive ∨ (k.processList x).state = .ready
  pid : ∀ x, k.InUse x → (k.processList x).pid = BitVec.ofNat 32 x
  directory : ∀ x, k.InUse x → ∃ d, (k.processList x).directory = some (.list d)

/-- While a process is current, CR3 points into the list of directories. -/
structure Settled (k : KernelState) : Prop extends SettledSlots k where
  cr3 : ∀ x, k.currentPid = some x → ∃ d, k.paging.cr3 = .list d

/-- The slot that the pid of a slot in use stands for. -/
theorem SettledSlots.slot_eq (h : SettledSlots k) (hc : k.InUse c)
    (hx : (k.processList c).pid.toNat = x) : x = c := by
  rw [h.pid c hc, BitVec.toNat_ofNat] at hx
  have hlt := c.isLt
  unfold processCountMax at hlt
  omega

/-- A change of slot `i`, and perhaps of `current_pid` to `i`, keeps the list
settled if `i` itself is. -/
theorem SettledSlots.edit (h : SettledSlots k)
    (hothers : ∀ x ≠ i, k'.processList x = k.processList x)
    (hcur : ∀ x ≠ i, k'.currentPid = some x → k.currentPid = some x)
    (hidle : ∀ x ≠ i, k'.currentPid ≠ some x →
      (k.processList x).state = .inactive ∨ (k.processList x).state = .ready)
    (hslot : k'.currentPid ≠ some i →
      (k'.processList i).state = .inactive ∨ (k'.processList i).state = .ready)
    (hpid : k'.InUse i → (k'.processList i).pid = BitVec.ofNat 32 i)
    (hdir : k'.InUse i → ∃ d, (k'.processList i).directory = some (.list d)) :
    SettledSlots k' := by
  have huse : ∀ x ≠ i, k'.InUse x → k.InUse x := by
    rintro x hne (hx | hx)
    · rw [KernelState.Active, hothers x hne] at hx
      exact .inl hx
    · exact .inr (hcur x hne hx)
  refine ⟨fun x hx => ?_, fun x hx => ?_, fun x hx => ?_⟩
  · rcases eq_or_ne x i with rfl | hne
    · exact hslot hx
    · rw [hothers x hne]
      exact hidle x hne hx
  · rcases eq_or_ne x i with rfl | hne
    · exact hpid hx
    · rw [hothers x hne]
      exact h.pid x (huse x hne hx)
  · rcases eq_or_ne x i with rfl | hne
    · exact hdir hx
    · rw [hothers x hne]
      exact h.directory x (huse x hne hx)

theorem CreateEffect.settled {d : Fin pagingDirectoryTableMaxCount} (he : CreateEffect k k' i d)
    (h : Settled k) : Settled k' := by
  refine ⟨h.edit he.others ?_ ?_ ?_ ?_ fun _ => ⟨d, he.directory⟩, ?_⟩
  · exact fun x _ hx => he.current ▸ hx
  · exact fun x _ hx => h.idle x (he.current ▸ hx)
  · exact fun _ => he.state.imp And.left And.left
  · intro hi
    rcases he.state with ⟨hstate, hpid⟩ | ⟨-, hpid⟩
    · -- an inactive slot is in use as the current one only
      rw [hpid]
      exact h.pid i (.inr (he.current ▸ hi.resolve_left (not_not.mpr hstate)))
    · exact hpid
  · intro x hx
    rw [he.paging.cr3]
    exact h.cr3 x (he.current ▸ hx)

theorem create_settled (h : Settled k) (hr : k.processCreateUserProcess request = .ok (ret, k')) :
    Settled k' := by
  obtain rfl | ⟨i, d, hc⟩ := processCreateUserProcess_effect hr
  · exact h
  · exact hc.settled h

theorem DestroyEffect.inUse (he : DestroyEffect k k' i) (hi : k'.InUse i) : k.InUse i := by
  rcases hi with hi | hi
  · rcases he.state with hstate | ⟨hstate, -⟩
    · exact absurd hstate hi
    · rw [KernelState.Active, hstate] at hi
      exact .inl hi
  · exact .inr (he.current ▸ hi)

theorem DestroyEffect.settledSlots (he : DestroyEffect k k' i) (h : SettledSlots k) :
    SettledSlots k' := by
  refine h.edit he.others ?_ ?_ ?_ ?_ ?_
  · exact fun x _ hx => he.current ▸ hx
  · exact fun x _ hx => h.idle x (he.current ▸ hx)
  · intro hi
    rcases he.state with hstate | ⟨hstate, -⟩
    · exact .inl hstate
    · rw [hstate]
      exact h.idle i (he.current ▸ hi)
  · intro hi
    rw [he.pid]
    exact h.pid i (he.inUse hi)
  · intro hi
    rw [he.directory]
    exact h.directory i (he.inUse hi)

/-- A slot in use is inactive after its destruction. -/
theorem DestroyEffect.inactive (he : DestroyEffect k k' i) (h : SettledSlots k)
    (hi : k.InUse i) : (k'.processList i).state = .inactive := by
  rcases he.state with hstate | ⟨-, hdir⟩
  · exact hstate
  · obtain ⟨d, hd⟩ := h.directory i hi
    exact absurd hd (hdir d)

/-- Switching away from a slot that is not running any more. -/
theorem Switched.settled (hs : Switched k k' ctx i) (h : SettledSlots k)
    (hcur : ∀ c, k.currentPid = some c →
      (k.processList c).state = .inactive ∨ (k.processList c).state = .ready) : Settled k' := by
  have huse : k.InUse i := by
    rcases searchLoop_ok hs.search with hready | hc
    · exact .inl (by simp [KernelState.Active, hready])
    · exact .inr hc
  have hpcb : k'.processList i = { k.processList i with state := .running } := by
    rw [hs.processList, Function.update_self]
  obtain ⟨d, hd⟩ := h.directory i huse
  refine ⟨h.edit (i := i) ?_ ?_ ?_ ?_ ?_ ?_, ?_⟩
  · intro x hne
    rw [hs.processList, Function.update_of_ne hne]
  · intro x hne hx
    rw [hs.current] at hx
    exact absurd (Option.some.inj hx).symm hne
  · intro x _ _
    by_cases hx : k.currentPid = some x
    · exact hcur x hx
    · exact h.idle x hx
  · exact fun hi => absurd hs.current hi
  · intro _
    rw [hpcb]
    exact h.pid i huse
  · intro _
    rw [hpcb]
    exact ⟨d, hd⟩
  · exact fun x _ => ⟨d, Option.some.inj (hs.cr3.symm.trans hd)⟩

/-- The state when the context of the interrupted process is saved. -/
structure Saved (k k' : KernelState) (ctx : Context) (c : Fin processCountMax) : Prop where
  current : k.currentPid = some c
  current' : k'.currentPid = some c
  pcb : k'.processList c = { k.processList c with context := ctx, state := .ready }
  others : ∀ x ≠ c, k'.processList x = k.processList x
  active : k'.activeProcessCount = k.activeProcessCount
  paging : k'.paging = k.paging

theorem schedulerSave_eq_ok (h : k.schedulerSave ctx = .ok k') : ∃ c, Saved k k' ctx c := by
  unfold KernelState.schedulerSave KernelState.processGetCurrentRunningPcbPointer at h
  split at h
  · cases h
  · next c hc =>
    cases h
    exact ⟨c, hc, hc, KernelState.modifyPcb_same _, fun x hne => KernelState.modifyPcb_of_ne _ hne,
      rfl, rfl⟩

theorem Saved.settledSlots {frame : InterruptFrame} (hs : Saved k k' (k.frameContext frame) c)
    (h : Settled k) : SettledSlots k' := by
  have hcur : k'.currentPid = k.currentPid := hs.current'.trans hs.current.symm
  refine h.edit hs.others ?_ ?_ ?_ ?_ ?_
  · exact fun x _ hx => hcur ▸ hx
  · exact fun x _ hx => h.idle x (hcur ▸ hx)
  · exact fun hc => absurd hs.current' hc
  · intro _
    rw [hs.pcb]
    exact h.pid c (.inr hs.current)
  · intro _
    rw [hs.pcb]
    obtain ⟨d, hd⟩ := h.cr3 c hs.current
    exact ⟨d, congrArg some hd⟩

/-! ### Runs of events -/

theorem KernelState.step_eq_some {e : KernelEvent} : k.step e = some k' ↔ k.handle e = .ok k' :=
  toOption_eq_some

theorem handle_timer {frame : InterruptFrame} (h : k.handle (.timer frame) = .ok k') :
    ∃ c k₁ ctx i, Saved k k₁ (k.frameContext frame) c ∧ Switched k₁ k' ctx i ∧
      k.timerInterrupt frame = .ok (ctx, k') := by
  obtain ⟨⟨ctx, k₂⟩, htimer, h⟩ := bind_eq_ok.mp h
  cases h
  obtain ⟨k₁, hsave, hswitch⟩ := bind_eq_ok.mp htimer
  obtain ⟨c, hs⟩ := schedulerSave_eq_ok hsave
  obtain ⟨i, hi⟩ := schedulerSwitch_eq_ok hswitch
  exact ⟨c, k₁, ctx, i, hs, hi, htimer⟩

theorem handle_exit (h : k.handle .exit = .ok k') :
    ∃ c ref b k₂ ctx i, k.currentPid = some c ∧
      (k.setPaging (k.paging.setCr3 ref)).processDestroy (k.processList c).pid = .ok (b, k₂) ∧
      Switched k₂ k' ctx i ∧ k.syscallExit = .ok (ctx, k') := by
  obtain ⟨⟨ctx, k₃⟩, hexit, h⟩ := bind_eq_ok.mp h
  cases h
  obtain ⟨p, huse, hrest⟩ := bind_eq_ok.mp hexit
  obtain ⟨ref, -, rfl⟩ := KernelState.usePageDirectory_eq_ok.mp huse
  unfold KernelState.processGetCurrentRunningPcbPointer at hrest
  split at hrest
  · cases hrest
  · next c hc =>
    obtain ⟨⟨b, k₂⟩, hdestroy, hswitch⟩ := bind_eq_ok.mp hrest
    obtain ⟨i, hi⟩ := schedulerSwitch_eq_ok hswitch
    exact ⟨c, ref, b, k₂, ctx, i, hc, hdestroy, hi, hexit⟩

/-- Two characters give a small number. -/
theorem killPid_range (buf : Fin 2 → Byte) : -2000 ≤ killPid buf ∧ killPid buf < 2000 := by
  have hdigit : ∀ c : Byte, -176 ≤ c.toInt - '0'.toNat ∧ c.toInt - '0'.toNat < 80 := by
    intro c
    have hlt := BitVec.toInt_lt (x := c)
    have hle := BitVec.le_toInt c
    have hzero : ('0'.toNat : Int) = 48 := rfl
    omega
  have h₀ := hdigit (buf ⟨0, Nat.two_pos⟩)
  have h₁ := hdigit (buf ⟨1, Nat.one_lt_two⟩)
  unfold killPid
  dsimp only
  split_ifs <;> omega

theorem killPid_eq {buf : Fin 2 → Byte} (h : (BitVec.ofInt 32 (killPid buf)).toNat = i) :
    killPid buf = i := by
  have hrange := killPid_range buf
  have hi := i.isLt
  unfold processCountMax at hi
  rw [BitVec.toNat_ofInt] at h
  omega

theorem handle_kill {buf : Fin 2 → Byte} (h : k.handle (.kill buf) = .ok k') :
    ∃ b, k.processDestroy (BitVec.ofInt 32 (killPid buf)) = .ok (b, k') := by
  obtain ⟨⟨ret, k₁⟩, hkill, h⟩ := bind_eq_ok.mp h
  cases h
  obtain ⟨⟨b, k₂⟩, hdestroy, hkill⟩ := bind_eq_ok.mp hkill
  cases hkill
  exact ⟨b, hdestroy⟩

theorem handle_create (h : k.handle (.create request) = .ok k') :
    ∃ ret, k.processCreateUserProcess request = .ok (ret, k') := by
  obtain ⟨⟨ret, k₁⟩, hcreate, h⟩ := bind_eq_ok.mp h
  cases h
  exact ⟨ret, hcreate⟩

/-- **Every event keeps the process list settled.** -/
theorem handle_settled {e : KernelEvent} (h : Settled k) (he : k.handle e = .ok k') :
    Settled k' := by
  cases e with
  | user fs ram =>
      cases he
      exact ⟨⟨h.idle, h.pid, h.directory⟩, h.cr3⟩
  | timer frame =>
      obtain ⟨c, k₁, ctx, i, hs, hi, -⟩ := handle_timer he
      refine hi.settled (hs.settledSlots h) fun c' hc' => ?_
      obtain rfl := Option.some.inj (hs.current'.symm.trans hc')
      rw [hs.pcb]
      exact .inr rfl
  | create request =>
      obtain ⟨ret, hr⟩ := handle_create he
      exact create_settled h hr
  | exit =>
      obtain ⟨c, ref, b, k₂, ctx, i, hc, hdestroy, hi, -⟩ := handle_exit he
      have h₁ : SettledSlots (k.setPaging (k.paging.setCr3 ref)) := ⟨h.idle, h.pid, h.directory⟩
      obtain ⟨x, hpid, hd⟩ := processDestroy_effect hdestroy
      obtain rfl := h.slot_eq (.inr hc) hpid
      refine hi.settled (hd.settledSlots h₁) fun c' hc' => ?_
      rw [hd.current] at hc'
      obtain rfl : x = c' := Option.some.inj (hc.symm.trans hc')
      exact .inl (hd.inactive h₁ (.inr hc))
  | kill buf =>
      obtain ⟨b, hdestroy⟩ := handle_kill he
      obtain ⟨i, -, hd⟩ := processDestroy_effect hdestroy
      refine ⟨hd.settledSlots h.toSettledSlots, fun x hx => ?_⟩
      rw [hd.paging.cr3]
      exact h.cr3 x (hd.current ▸ hx)

theorem boot_settled (fs : FsState) (ram : Ram) : Settled (.boot fs ram) := by
  refine ⟨⟨fun x _ => .inl rfl, fun x hx => ?_, fun x hx => ?_⟩, fun x hx => ?_⟩
  · rcases hx with hx | hx
    · exact absurd rfl hx
    · cases hx
  · rcases hx with hx | hx
    · exact absurd rfl hx
    · cases hx
  · cases hx

/-- `kernel_setup` leaves a settled list, with a process running. -/
theorem kernelSetup_settled {fs : FsState} {ram : Ram} (h : kernelSetup fs ram = .ok k) :
    Settled k := by
  obtain ⟨⟨ret, k₁⟩, hcreate, h⟩ := bind_eq_ok.mp h
  obtain ⟨⟨ctx, k₂⟩, hswitch, h⟩ := bind_eq_ok.mp h
  cases h
  obtain ⟨i, hi⟩ := schedulerSwitch_eq_ok hswitch
  have h₁ := create_settled (boot_settled _ _) hcreate
  have hcur : k₁.currentPid = none := by
    obtain rfl | ⟨i, d, hc⟩ := processCreateUserProcess_effect hcreate
    · rfl
    · exact hc.current
  refine hi.settled h₁.toSettledSlots fun c hc => ?_
  rw [hcur] at hc
  cases hc

/-- The states of the kernel after boot, whatever the processes call. -/
theorem reaches_settled {fs : FsState} {ram : Ram} {k₀ : KernelState}
    {ok : KernelState → KernelEvent → Prop} (h₀ : kernelSetup fs ram = .ok k₀)
    (h : Reaches KernelState.step ok k₀ k) : Settled k :=
  h.invariant (I := Settled) (kernelSetup_settled h₀) fun hs _ hstep =>
    handle_settled hs (KernelState.step_eq_some.mp hstep)

/-- After boot some process is current. -/
theorem handle_current {e : KernelEvent} (h : ∃ c, k.currentPid = some c)
    (he : k.handle e = .ok k') : ∃ c, k'.currentPid = some c := by
  cases e with
  | user fs ram =>
      cases he
      exact h
  | timer frame =>
      obtain ⟨c, k₁, ctx, i, -, hi, -⟩ := handle_timer he
      exact ⟨i, hi.current⟩
  | create request =>
      obtain ⟨ret, hr⟩ := handle_create he
      obtain rfl | ⟨i, d, hc⟩ := processCreateUserProcess_effect hr
      · exact h
      · exact hc.current ▸ h
  | exit =>
      obtain ⟨c, ref, b, k₂, ctx, i, -, -, hi, -⟩ := handle_exit he
      exact ⟨i, hi.current⟩
  | kill buf =>
      obtain ⟨b, hdestroy⟩ := handle_kill he
      obtain ⟨i, -, hd⟩ := processDestroy_effect hdestroy
      exact hd.current ▸ h

theorem reaches_current {fs : FsState} {ram : Ram} {k₀ : KernelState}
    {ok : KernelState → KernelEvent → Prop} (h₀ : kernelSetup fs ram = .ok k₀)
    (h : Reaches KernelState.step ok k₀ k) : ∃ c, k.currentPid = some c := by
  refine h.invariant (I := fun k => ∃ c, k.currentPid = some c) ?_ fun hs _ hstep =>
    handle_current hs (KernelState.step_eq_some.mp hstep)
  obtain ⟨⟨ret, k₁⟩, -, h₀⟩ := bind_eq_ok.mp h₀
  obtain ⟨⟨ctx, k₂⟩, hswitch, h₀⟩ := bind_eq_ok.mp h₀
  cases h₀
  obtain ⟨i, hi⟩ := schedulerSwitch_eq_ok hswitch
  exact ⟨i, hi.current⟩

/-! ### The runs of the examples -/

/-- The events of a run, one after the other. -/
def KernelState.run (k : KernelState) : List KernelEvent → Option KernelState
  | [] => some k
  | e :: es => (k.step e).bind fun k' => k'.run es

theorem KernelState.run_reaches {es : List KernelEvent} (h : k.run es = some k') :
    Reaches KernelState.step (fun _ _ => True) k k' := by
  induction es generalizing k with
  | nil =>
      obtain rfl := Option.some.inj h
      exact .refl
  | cons e es ih =>
      obtain ⟨k₁, hstep, h⟩ := Option.bind_eq_some_iff.mp h
      exact .head ⟨e, trivial, hstep⟩ (ih h)

/-- The kernel that boots from `shellDisk`. -/
def shellKernel : KernelState :=
  (kernelSetup shellDisk noRam).toOption.getD (.boot shellDisk noRam)

theorem shellKernel_setup : kernelSetup shellDisk noRam = .ok shellKernel := by
  have h : (kernelSetup shellDisk noRam).toOption.isSome := by decide +kernel
  obtain ⟨k, hk⟩ := Option.isSome_iff_exists.mp h
  rw [shellKernel, hk]
  exact toOption_eq_some.mp hk

end Binbows
