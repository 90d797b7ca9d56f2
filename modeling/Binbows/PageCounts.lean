/-
Binbows/PageCounts.lean

The number of page frames that a new process is given.

`process_create_user_process` asks for ceil((buffer_size + PAGE_FRAME_SIZE) /
PAGE_FRAME_SIZE) frames.  The addition, and the two in `ceil_div`, wrap around
at 2^32, and the limits are checked behind them.

Main results:

* `pageFrameCountNeeded_eq`: up to 2^32 - 2 * PAGE_FRAME_SIZE bytes nothing
  wraps and the count is the rounded-up quotient; `pageFrameCountNeeded_wrap`
  is what is left of it above that;
* `page_count_exact_iff`: for which requests the count is exact and what does
  not fit is refused for want of memory.
-/
import Mathlib.Algebra.Order.Floor.Div
import Mathlib.Data.Set.Card
import Binbows.FrameAccounting

namespace Binbows

open Bytes Run KernelState

variable {k k' : KernelState} {request : FAT32DriverRequest} {ret : Int}
  {i : Fin processCountMax} {d : Fin pagingDirectoryTableMaxCount} {n : BitVec 32}

/-! ### The arithmetic -/

/-- The frames that `size` bytes and the stack take. -/
def framesFor (size : Nat) : Nat := (size + pageFrameSize.toNat) ⌈/⌉ pageFrameSize.toNat

theorem framesFor_eq (size : Nat) : framesFor size = (size + 8388607) / 4194304 := by
  show (size + 4194304 + 4194304 - 1) / 4194304 = _
  omega

/-- At least one, for the stack; at most eight up to seven frames of program. -/
theorem framesFor_pos (size : Nat) : 1 ≤ framesFor size := by
  rw [framesFor_eq]
  omega

theorem framesFor_le_iff {size : Nat} :
    framesFor size ≤ processPageFrameCountMax ↔ size ≤ 7 * pageFrameSize.toNat := by
  rw [framesFor_eq]
  show (size + 8388607) / 4194304 ≤ 8 ↔ size ≤ 7 * 4194304
  omega

theorem pageFrameCountNeeded_toNat :
    (pageFrameCountNeeded request).toNat =
      (request.bufferSize.toNat + 8388607) % 2 ^ 32 / 4194304 := by
  have hsum : (request.bufferSize + pageFrameSize + pageFrameSize - 1).toNat =
      (request.bufferSize.toNat + 8388607) % 2 ^ 32 := by
    bv_omega
  have hsize : pageFrameSize.toNat = 4194304 := by decide
  rw [← hsum, ← hsize]
  exact BitVec.toNat_udiv

/-- Without a wrap the count is exact. -/
theorem pageFrameCountNeeded_eq
    (h : request.bufferSize.toNat ≤ 2 ^ 32 - 2 * pageFrameSize.toNat) :
    (pageFrameCountNeeded request).toNat = framesFor request.bufferSize.toNat := by
  have hlt : request.bufferSize.toNat + 8388607 < 2 ^ 32 := by
    change _ ≤ 2 ^ 32 - 2 * 4194304 at h
    omega
  rw [pageFrameCountNeeded_toNat, framesFor_eq, Nat.mod_eq_of_lt hlt]

/-- With one, the count is 0, or 1 for the last frame's worth of sizes. -/
theorem pageFrameCountNeeded_wrap
    (h : 2 ^ 32 - 2 * pageFrameSize.toNat < request.bufferSize.toNat) :
    (pageFrameCountNeeded request).toNat =
      if 2 ^ 32 - pageFrameSize.toNat < request.bufferSize.toNat then 1 else 0 := by
  have hlt := request.bufferSize.isLt
  rw [pageFrameCountNeeded_toNat]
  change 2 ^ 32 - 2 * 4194304 < _ at h
  show _ = if 2 ^ 32 - 4194304 < _ then 1 else 0
  split_ifs with hlast
  · omega
  · omega

/-! ### Exact page counts -/

/-- The frames that the recorded addresses of process `i` are mapped to. -/
def KernelState.framesMapped (k : KernelState) (i : Fin processCountMax) :
    Set (Fin pageFrameMaxCount) :=
  {f | ∃ j, k.MapsFrame i j f}

/-- What the arithmetic should give: a process that is created has just the
frames that its program and its stack take, and no more than a control block
can record; what would need more is refused for want of memory. -/
structure PageCountExact (k : KernelState) (request : FAT32DriverRequest) : Prop where
  created : ∀ k', k.processCreateUserProcess request = .ok (0, k') →
    ∃ i, ¬ k.Active i ∧ k'.Active i ∧
      (k'.framesMapped i).ncard = framesFor request.bufferSize.toNat ∧
      1 ≤ (k'.framesMapped i).ncard ∧ (k'.framesMapped i).ncard ≤ processPageFrameCountMax ∧
      request.bufferSize.toNat ≤ 7 * pageFrameSize.toNat
  refused : 7 * pageFrameSize.toNat < request.bufferSize.toNat →
    k.processCreateUserProcess request = .ok (3, k)

/-- The checks that come before the one of the memory let the request pass. -/
structure ReachesMemoryCheck (k : KernelState) (request : FAT32DriverRequest) : Prop where
  active : k.activeProcessCount < processCountMax
  entry : request.buf < kernelVirtualAddressBase

/-- Either the program fits, or the memory check sees that it does not: the
count has not wrapped, or has wrapped to one frame where none is left. -/
def CountsPages (k : KernelState) (request : FAT32DriverRequest) : Prop :=
  request.bufferSize.toNat ≤ 7 * pageFrameSize.toNat ∨
    (ReachesMemoryCheck k request ∧
      (request.bufferSize.toNat ≤ 2 ^ 32 - 2 * pageFrameSize.toNat ∨
        (2 ^ 32 - pageFrameSize.toNat < request.bufferSize.toNat ∧
          k.paging.freePageFrameCount = 0)))

/-- A new process holds as many frames as were counted. -/
theorem KernelState.Created.ncard_framesMapped (h : k.Consistent) (hc : k.Created k' i d n)
    (hn : n.toNat ≤ processPageFrameCountMax) : (k'.framesMapped i).ncard = n.toNat := by
  have hk' := hc.consistent h
  have hactive : k'.Active i := by simp [KernelState.Active, hc.state]
  have hacc := hk'.frameAccounting
  have hslot : ∀ j : Fin processPageFrameCountMax, j ∈ frameSlots n → ∃ f, k'.MapsFrame i j f := by
    intro j hj
    apply hacc.present i j hactive
    rw [hc.count]
    exact mem_frameSlots.mp hj
  choose frame hframe using hslot
  -- slot by slot, one frame each
  have hcard := Set.ncard_congr (s := {j | j ∈ frameSlots n}) (t := k'.framesMapped i) frame
    (fun j hj => ⟨j, hframe j hj⟩)
    (fun j j' hj hj' heq => (hacc.disjoint i i j j' _ hactive hactive (hframe j hj)
      (heq ▸ hframe j' hj')).2)
    (by
      rintro f ⟨j, hf⟩
      have hj : j ∈ frameSlots n := by
        rw [mem_frameSlots, ← hc.count]
        exact hf.1
      refine ⟨j, hj, ?_⟩
      exact Option.some.inj (((KernelState.Consistent.mapsFrame_iff hc.runsOn).mp
        (hframe j hj)).2.symm.trans ((KernelState.Consistent.mapsFrame_iff hc.runsOn).mp hf).2))
  rw [← hcard, Set.ncard_eq_toFinset_card']
  have hlist : {j | j ∈ frameSlots n}.toFinset = (frameSlots n).toFinset := by
    ext j
    simp
  rw [hlist, List.toFinset_card_of_nodup nodup_frameSlots, length_frameSlots hn]

/-- When the memory check refuses. -/
theorem createUserProcess_refused_iff (h : k.Consistent) :
    k.processCreateUserProcess request = .ok (3, k) ↔
      ReachesMemoryCheck k request ∧
        (k.paging.freePageFrameCount.toNat < (pageFrameCountNeeded request).toNat ∨
          processPageFrameCountMax < (pageFrameCountNeeded request).toNat) := by
  constructor
  · intro hr
    obtain ⟨hret, hp, -⟩ | ⟨-, i, d, r, mem, -, ⟨h3, -, -⟩ | ⟨h3, -, -⟩⟩ :=
      KernelState.processCreateUserProcess_cases h hr
    · unfold KernelState.processCreateUserProcess at hr
      split_ifs at hr with hactive hentry
      · cases hr
      · cases hr
      · have hreach : ReachesMemoryCheck k request :=
          ⟨not_le.mp hactive, BitVec.not_le.mp hentry⟩
        refine ⟨hreach, ?_⟩
        by_contra hlimits
        obtain ⟨hfree, hcount⟩ := not_or.mp hlimits
        exact hp ⟨hreach.active, hreach.entry, not_lt.mp hfree, not_lt.mp hcount⟩
    · exact absurd h3 (by decide)
    · exact absurd h3 (by decide)
  · rintro ⟨hreach, hlimits⟩
    have hmem : ¬ k.paging.allocateCheck (pageFrameCountNeeded request) ∨
        BitVec.ofNat 32 processPageFrameCountMax < pageFrameCountNeeded request := by
      refine hlimits.imp (fun hfree => ?_) fun hcount => BitVec.lt_def.mpr hcount
      simpa [PagingState.allocateCheck] using BitVec.lt_def.mpr hfree
    unfold KernelState.processCreateUserProcess
    dsimp only
    rw [if_neg (not_le.mpr hreach.active), if_neg (BitVec.not_le.mpr hreach.entry), if_pos hmem]

/-- A process that is created has as many frames as were counted. -/
theorem createUserProcess_frames (h : k.Consistent)
    (hr : k.processCreateUserProcess request = .ok (0, k')) :
    ∃ i, ¬ k.Active i ∧ k'.Active i ∧
      (k'.framesMapped i).ncard = (pageFrameCountNeeded request).toNat := by
  obtain ⟨hret, -, -⟩ | ⟨hp, i, d, r, mem, -, ⟨h4, -, -⟩ | ⟨-, -, hc⟩⟩ :=
    KernelState.processCreateUserProcess_cases h hr
  · exact absurd rfl hret
  · exact absurd h4 (by decide)
  · refine ⟨i, not_not.mpr hc.inactive, ?_, hc.ncard_framesMapped h hp.count⟩
    rw [KernelState.Active, hc.state]
    exact ProcessState.noConfusion

/-- What does not fit is refused where the count shows it. -/
theorem CountsPages.refused (h : k.Consistent) (hc : CountsPages k request)
    (hlarge : 7 * pageFrameSize.toNat < request.bufferSize.toNat) :
    k.processCreateUserProcess request = .ok (3, k) := by
  obtain ⟨hreach, hcount⟩ := hc.resolve_left (not_le.mpr hlarge)
  refine (createUserProcess_refused_iff h).mpr ⟨hreach, ?_⟩
  rcases hcount with hnowrap | ⟨hlast, hfree⟩
  · right
    rw [pageFrameCountNeeded_eq hnowrap]
    exact not_le.mp fun hle => absurd (framesFor_le_iff.mp hle) (not_le.mpr hlarge)
  · left
    have hwrap : 2 ^ 32 - 2 * pageFrameSize.toNat < request.bufferSize.toNat :=
      lt_of_le_of_lt (by decide) hlast
    rw [pageFrameCountNeeded_wrap hwrap, if_pos hlast, hfree]
    exact Nat.one_pos

theorem pageCountExact_iff (h : k.Consistent) :
    PageCountExact k request ↔ CountsPages k request := by
  constructor
  · intro hexact
    refine or_iff_not_imp_left.mpr fun hlarge => ?_
    obtain ⟨hreach, hlimits⟩ :=
      (createUserProcess_refused_iff h).mp (hexact.refused (not_le.mp hlarge))
    refine ⟨hreach, or_iff_not_imp_left.mpr fun hwrap => ?_⟩
    rw [pageFrameCountNeeded_wrap (not_le.mp hwrap)] at hlimits
    -- a count that has wrapped is below both limits, but for one frame where none is left
    split_ifs at hlimits with hlast
    · have hfree : k.paging.freePageFrameCount.toNat = 0 := by
        rcases hlimits with hfree | hcount
        · omega
        · exact absurd hcount (by decide)
      exact ⟨hlast, BitVec.eq_of_toNat_eq hfree⟩
    · simp at hlimits
  · intro hc
    refine ⟨fun k' hr => ?_, hc.refused h⟩
    have hfits : request.bufferSize.toNat ≤ 7 * pageFrameSize.toNat := by
      refine not_lt.mp fun hlarge => ?_
      rw [hc.refused h hlarge] at hr
      cases hr
    obtain ⟨i, hi, hi', hcard⟩ := createUserProcess_frames h hr
    rw [pageFrameCountNeeded_eq (hfits.trans (by decide))] at hcard
    refine ⟨i, hi, hi', hcard, ?_, ?_, hfits⟩
    · rw [hcard]
      exact framesFor_pos _
    · rw [hcard]
      exact framesFor_le_iff.mpr hfits

/-- **Page counts.**  In every state that creations and destructions lead to,
the number of frames is exact and what is too large is refused for want of
memory if and only if the program fits in seven frames, or the request reaches
the memory check and its count has not wrapped below the limits. -/
theorem page_count_exact_iff (fs : FsState) (ram : Ram)
    (h : Reaches KernelState.call (fun _ _ => True) (.boot fs ram) k)
    (fs' : FsState) (ram' : Ram) (request : FAT32DriverRequest) :
    PageCountExact (k.setStore fs' ram') request ↔ CountsPages (k.setStore fs' ram') request :=
  pageCountExact_iff ((KernelState.calls_consistent h
    (KernelState.boot_consistent fs ram)).setStore fs' ram')

theorem page_count_exact_iff_oneProcess :
    PageCountExact (oneProcess.setStore shellDisk noRam) shellRequest :=
  (page_count_exact_iff shellDisk noRam (oneProcess_reaches trivial) shellDisk noRam
    shellRequest).mpr (.inl (by decide))

/-- Almost 4 GiB are taken for one frame, and the process is created. -/
theorem page_count_not_exact :
    ¬ PageCountExact (.boot shellDisk noRam) { shellRequest with bufferSize := 0xFFFFFFFF#32 } := by
  intro hexact
  have hrefused := hexact.refused (by decide)
  have hcreated : ((KernelState.boot shellDisk noRam).processCreateUserProcess
      { shellRequest with bufferSize := 0xFFFFFFFF#32 }).toOption.map Prod.fst = some 0 := by
    decide +kernel
  rw [hrefused] at hcreated
  exact absurd hcreated (by decide)

end Binbows
