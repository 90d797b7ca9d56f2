/-
Binbows/LoadStores.lean

Where the program of a new process is read to.

`process_create_user_process` maps pages from virtual address 0 on, as many as
`buffer_size` asks for, and checks of `buf` only that it is below the kernel.
What `read` then stores depends on neither: it is the chain of the file, laid
from `buf` on.

The stores are those of the loop of `read` with any number of steps, so a chain
that does not end is not cut off.

Main result: `load_inside_iff`, when they stay in the new pages.  On an intact
volume they are the `filesize` bytes from `buf` on (`Loaded.stores_iff`).
-/
import Binbows.FreshProcess
import Binbows.PageCounts
import Binbows.ReadBounds

namespace Binbows

open Bytes Chain Run KernelState FAT32FileAllocationTable

variable {k : KernelState} {p : PagingState} {request : FAT32DriverRequest} {s : FsState}
  {n a b c buf : BitVec 32} {t : FAT32FileAllocationTable} {i : Fin directoryEntryCount}
  {page : Fin pageEntryCount} {js : List (Fin processPageFrameCountMax)}
  {fs : List (Fin pageFrameMaxCount)} {dir : PageDirectory} {l : List (BitVec 32)}

/-! ### The stores of the loop -/

/-- Cluster by cluster from `buf` on. -/
theorem chainStores_eq (t : FAT32FileAllocationTable) (fuel : Nat) (c buf : BitVec 32) :
    chainStores t fuel c buf = (List.range (chainIndices t fuel c).length).map
      fun m => buf + BitVec.ofNat 32 (m * clusterSize) := by
  induction fuel generalizing c buf with
  | zero => rfl
  | succ fuel ih =>
      rw [chainStores, chainIndices]
      split_ifs
      · rfl
      · cases t.clusterMapAt c with
        | error e => simp
        | ok next =>
            dsimp only
            rw [ih, List.length_cons, List.range_succ_eq_map, List.map_cons, List.map_map,
              Nat.zero_mul]
            refine List.cons_eq_cons.mpr ⟨(BitVec.add_zero buf).symm, ?_⟩
            apply List.map_congr_left
            intro m _
            show _ = buf + BitVec.ofNat 32 ((m + 1) * clusterSize)
            rw [Nat.succ_mul, Nat.add_comm, BitVec.ofNat_add, BitVec.add_assoc]

theorem toNat_sub_add {m : Nat} (hm : m ≤ (a - b).toNat) :
    (a - (b + BitVec.ofNat 32 m)).toNat = (a - b).toNat - m := by
  have hx : (BitVec.ofNat 32 m).toNat = m := by
    rw [BitVec.toNat_ofNat, Nat.mod_eq_of_lt (hm.trans_lt (a - b).isLt)]
  have hle : BitVec.ofNat 32 m ≤ a - b := by
    rw [BitVec.le_def, hx]
    exact hm
  rw [sub_add_eq_sub_sub, BitVec.toNat_sub_of_le hle, hx]

/-- The bytes that they lie over. -/
theorem covers_chainStores {fuel : Nat}
    (hlen : (chainIndices t fuel c).length * clusterSize ≤ 2 ^ 32) :
    Covers (chainStores t fuel c buf) a ↔
      (a - buf).toNat < (chainIndices t fuel c).length * clusterSize := by
  rw [chainStores_eq]
  generalize (chainIndices t fuel c).length = len at hlen ⊢
  rw [Covers]
  constructor
  · rintro ⟨b, hb, hcover⟩
    obtain ⟨m, hm, rfl⟩ := List.mem_map.mp hb
    rw [List.mem_range] at hm
    have hle : (m + 1) * clusterSize ≤ len * clusterSize := Nat.mul_le_mul_right _ hm
    unfold clusterSize at *
    bv_omega
  · intro ha
    refine ⟨_, List.mem_map.mpr ⟨(a - buf).toNat / clusterSize, ?_, rfl⟩, ?_⟩
    · rw [List.mem_range]
      exact Nat.div_lt_of_lt_mul (by rwa [Nat.mul_comm])
    · have hfloor := Nat.div_mul_le_self (a - buf).toNat clusterSize
      have hnext := Nat.lt_div_mul_add (a := (a - buf).toNat) (b := clusterSize) (by decide)
      rw [toNat_sub_add hfloor]
      exact Nat.sub_lt_left_of_lt_add hfloor hnext

/-- The loop follows the chain from `c` for at most `m` clusters. -/
def chainWithin (t : FAT32FileAllocationTable) : (m : Nat) → (c : BitVec 32) → Bool
  | 0, c => c = fat32FatEndOfFile
  | m + 1, c =>
      c = fat32FatEndOfFile ||
        match t.clusterMapAt c with
        | .error _ => true
        | .ok next => chainWithin t m next

theorem chainWithin_iff {m : Nat} :
    chainWithin t m c = true ↔ ∀ fuel, (chainIndices t fuel c).length ≤ m := by
  -- by the bound on the length
  induction m generalizing c with
  | zero =>
      rw [chainWithin, decide_eq_true_eq]
      constructor
      · rintro rfl fuel
        cases fuel with
        | zero => exact le_rfl
        | succ fuel => rw [chainIndices, if_pos rfl, List.length_nil]
      · intro h
        -- with one step the chain has a cluster, or the step is an error
        by_contra hne
        have hone := h 1
        rw [chainIndices, if_neg hne] at hone
        cases hat : t.clusterMapAt c with
        | error e => simp [hat] at hone
        | ok next => simp [hat] at hone
  | succ m ih =>
      rw [chainWithin, Bool.or_eq_true, decide_eq_true_eq]
      by_cases heof : c = fat32FatEndOfFile
      · refine iff_of_true (.inl heof) fun fuel => ?_
        cases fuel with
        | zero => exact Nat.zero_le _
        | succ fuel =>
            rw [chainIndices, if_pos heof]
            exact Nat.zero_le _
      · rw [or_iff_right heof]
        cases hat : t.clusterMapAt c with
        -- a link out of the table ends the chain with an error
        | error e =>
            refine iff_of_true rfl fun fuel => ?_
            cases fuel with
            | zero => exact Nat.zero_le _
            | succ fuel =>
                rw [chainIndices, if_neg heof, hat]
                exact Nat.le_add_left 1 m
        | ok next =>
            rw [ih]
            -- from here the chain is one cluster longer
            have hstep (fuel : Nat) :
                (chainIndices t (fuel + 1) c).length = (chainIndices t fuel next).length + 1 := by
              rw [chainIndices, if_neg heof, hat]
              rfl
            constructor
            · intro h fuel
              cases fuel with
              | zero => exact Nat.zero_le _
              | succ fuel =>
                  rw [hstep]
                  exact Nat.succ_le_succ (h fuel)
            · intro h fuel
              have hsucc := h (fuel + 1)
              rw [hstep] at hsucc
              exact Nat.le_of_succ_le_succ hsucc

/-! ### The file that is loaded -/

/-- The request makes `read` copy the file in slot `i`. -/
structure Loaded (request : FAT32DriverRequest) (s : FsState) (i : Fin directoryEntryCount) :
    Prop where
  parent : s.clusterMap.clusterMapAt request.parentClusterNumber = .ok fat32FatEndOfFile
  found : readMatch request (s.volume.table request.parentClusterNumber) = some i
  size : (s.volume.table request.parentClusterNumber i).filesize ≤ request.bufferSize

/-- `read` stores a byte at address `a`. -/
def LoadStores (request : FAT32DriverRequest) (s : FsState) (a : BitVec 32) : Prop :=
  ∃ i, Loaded request s i ∧ ∃ fuel, Covers (chainStores s.clusterMap fuel
    (s.volume.table request.parentClusterNumber i).cluster request.buf) a

/-- No more steps than it takes to follow the chain to its end. -/
theorem length_chainIndices_le {fuel : Nat} (hw : Walk t.view fat32FatEndOfFile c l)
    (hr : ∀ b ∈ l, b.toNat < clusterMapSize) : (chainIndices t fuel c).length ≤ l.length := by
  induction fuel generalizing c l with
  | zero => exact Nat.zero_le _
  | succ fuel ih =>
      cases hw with
      | done => rw [chainIndices, if_pos rfl, List.length_nil]
      | step hne hw =>
          obtain ⟨hlt, hr⟩ := List.forall_mem_cons.mp hr
          rw [chainIndices, if_neg hne, clusterMapAt_of_lt t hlt]
          exact Nat.succ_le_succ (ih hw hr)

/-- The chain of the file that is loaded, on an intact volume. -/
theorem Loaded.linked (hl : Loaded request s i) (h : s.volume.Intact)
    (hp : s.volume.Directory request.parentClusterNumber) :
    ∃ l, s.volume.FileLinked request.parentClusterNumber i l := by
  obtain ⟨ho, hs, -, -⟩ := readMatch_eq_some hl.found
  exact h.file_linked hp ((h.occupied_cases hp ho).resolve_right fun hsub => hs hsub.1)

theorem Loaded.chainWithin_iff (hl : Loaded request s i) (h : s.volume.Intact)
    (hp : s.volume.Directory request.parentClusterNumber) {m : Nat} :
    chainWithin s.clusterMap m (s.volume.table request.parentClusterNumber i).cluster = true ↔
      (s.volume.table request.parentClusterNumber i).filesize.toNat ≤ m * clusterSize := by
  obtain ⟨l, hfile⟩ := hl.linked h hp
  have hr : ∀ b ∈ l, b.toNat < clusterMapSize := fun b hb => (hfile.range b hb).2
  rw [Binbows.chainWithin_iff, hfile.size, Nat.mul_le_mul_right_iff (by decide)]
  constructor
  · intro hlen
    rw [← chainIndices_of_walk hfile.walk hr (Nat.lt_succ_self _)]
    exact hlen _
  · exact fun hlen fuel => (length_chainIndices_le hfile.walk hr).trans hlen

/-- On an intact volume the stores are the file, from `buf` on. -/
theorem Loaded.stores_iff (hl : Loaded request s i) (h : s.volume.Intact)
    (hp : s.volume.Directory request.parentClusterNumber) :
    LoadStores request s a ↔
      (a - request.buf).toNat <
        (s.volume.table request.parentClusterNumber i).filesize.toNat := by
  obtain ⟨l, hfile⟩ := hl.linked h hp
  have hr : ∀ b ∈ l, b.toNat < clusterMapSize := fun b hb => (hfile.range b hb).2
  have hbound : ∀ fuel, (chainIndices s.clusterMap fuel _).length ≤ l.length :=
    fun _ => length_chainIndices_le hfile.walk hr
  have hlen : l.length * clusterSize ≤ 2 ^ 32 := by
    have hmax := walk_length_le hfile.walk hr
    calc l.length * clusterSize ≤ clusterMapSize * clusterSize := Nat.mul_le_mul_right _ hmax
      _ ≤ 2 ^ 32 := by decide
  rw [hfile.size]
  constructor
  · rintro ⟨i', hl', fuel, hcover⟩
    obtain rfl : i' = i := Option.some.inj (hl'.found.symm.trans hl.found)
    have hle := Nat.mul_le_mul_right clusterSize (hbound fuel)
    exact ((covers_chainStores (hle.trans hlen)).mp hcover).trans_le hle
  · intro ha
    refine ⟨i, hl, l.length + 1, ?_⟩
    have hwhole := chainIndices_of_walk hfile.walk hr (Nat.lt_succ_self _)
    refine (covers_chainStores ?_).mpr ?_
    · rw [hwhole]
      exact hlen
    · rw [hwhole]
      exact ha

/-! ### The pages of the process -/

/-- The whole pages that are mapped for a buffer of this size. -/
def pagesFor (size : Nat) : Nat :=
  if size ≤ 2 ^ 32 - 2 * pageFrameSize.toNat then framesFor size
  else if 2 ^ 32 - pageFrameSize.toNat < size then 1 else 0

theorem pageFrameCountNeeded_pages :
    (pageFrameCountNeeded request).toNat = pagesFor request.bufferSize.toNat := by
  unfold pagesFor
  split_ifs with hsize hlast
  · exact pageFrameCountNeeded_eq hsize
  · rw [pageFrameCountNeeded_wrap (not_le.mp hsize), if_pos hlast]
  · rw [pageFrameCountNeeded_wrap (not_le.mp hsize), if_neg hlast]

/-- A page that is mapped is a user page. -/
theorem mapPages_isUser (hlen : js.length ≤ fs.length)
    (h : (∃ j ∈ js, page = pageIndex (frameAddr j)) ∨ (dir page).IsUser) :
    (mapPages js fs dir page).IsUser := by
  induction js generalizing fs dir with
  | nil =>
      show (dir page).IsUser
      simpa using h
  | cons j js ih =>
      cases fs with
      | nil => simp at hlen
      | cons f fs =>
          rw [mapPages]
          apply ih (Nat.le_of_succ_le_succ hlen)
          by_cases hpage : page = pageIndex (frameAddr j)
          · right
            rw [hpage, Function.update_self]
            exact ⟨rfl, rfl⟩
          · rw [Function.update_of_ne hpage]
            refine h.imp_left ?_
            rintro ⟨j', hj', hpage'⟩
            exact ⟨j', (List.mem_cons.mp hj').resolve_left (fun heq => hpage (heq ▸ hpage')),
              hpage'⟩

theorem length_freeFrames (h : k.Consistent) :
    k.paging.freeFrames.length = k.paging.freePageFrameCount.toNat := by
  rw [h.balanced.free_eq, Pool.freeCount, ← List.toFinset_card_of_nodup freeFrames_nodup,
    PagingState.freeFrames]
  congr 1
  ext f
  simp

/-- The user pages of a new process are the first ones. -/
theorem newDirectory_isUser_iff (h : k.Consistent) (hn : n.toNat ≤ processPageFrameCountMax)
    (hfree : n.toNat ≤ k.paging.freePageFrameCount.toNat) :
    (newDirectory k.paging n page).IsUser ↔ page.val < n.toNat := by
  constructor
  · intro huser
    obtain ⟨m, j, f, hj, -, rfl, -⟩ := newDirectory_user huser
    rw [pageIndex_frameAddr]
    exact mem_frameSlots.mp (List.mem_of_getElem? hj)
  · intro hpage
    apply mapPages_isUser
    · rw [length_frameSlots hn, length_freeFrames h]
      exact hfree
    · refine .inl ⟨⟨page, hpage.trans_le hn⟩, mem_frameSlots.mpr hpage, ?_⟩
      exact Fin.ext (pageIndex_frameAddr ⟨page, hpage.trans_le hn⟩).symm

/-- The addresses that a new process may use. -/
theorem newDirectory_isUser_pageIndex (h : k.Consistent) (hp : k.PassesChecks request) :
    (newDirectory k.paging (pageFrameCountNeeded request) (pageIndex a)).IsUser ↔
      a.toNat < pagesFor request.bufferSize.toNat * pageFrameSize.toNat := by
  rw [newDirectory_isUser_iff h hp.count hp.free, pageIndex_val, pageFrameCountNeeded_pages]
  exact Nat.div_lt_iff_lt_mul (by decide)

/-! ### Loads that stay inside -/

/-- `process_create_user_process` gets as far as to call `read`. -/
structure CallsRead (k : KernelState) (request : FAT32DriverRequest) : Prop where
  passes : k.PassesChecks request
  directory : ∃ d, k.paging.findDirectory = some d

/-- Everything that `read` stores lies in the pages just mapped, below the kernel. -/
def LoadInside (k : KernelState) (request : FAT32DriverRequest) : Prop :=
  CallsRead k request → ∀ a, LoadStores request k.fs a →
    (newDirectory k.paging (pageFrameCountNeeded request) (pageIndex a)).IsUser ∧
      a < kernelVirtualAddressBase

/-- The whole clusters between `buf` and the end of the pages. -/
def clustersLeft (request : FAT32DriverRequest) : Nat :=
  (pagesFor request.bufferSize.toNat * pageFrameSize.toNat - request.buf.toNat) / clusterSize

/-- The chain of the file that is loaded has no more clusters than that. -/
def LoadFits (k : KernelState) (request : FAT32DriverRequest) : Prop :=
  CallsRead k request → ∀ i, Loaded request k.fs i →
    chainWithin k.fs.clusterMap (clustersLeft request)
      (k.fs.volume.table request.parentClusterNumber i).cluster = true

/-- Stores from `buf` on stay below a bound that is not too high if there are
few enough of them. -/
theorem stores_below_iff {bound : Nat} (hbound : bound ≤ 2 ^ 25) :
    (∀ fuel a, Covers (chainStores t fuel c buf) a → a.toNat < bound) ↔
      chainWithin t ((bound - buf.toNat) / clusterSize) c = true := by
  have hbuf := buf.isLt
  have hfit := Nat.div_mul_le_self (bound - buf.toNat) clusterSize
  rw [chainWithin_iff]
  constructor
  · intro hinside fuel
    by_contra hlen
    -- the first cluster too many lies over the bound, or over `buf` behind it
    let m := (bound - buf.toNat) / clusterSize
    have hmem : buf + BitVec.ofNat 32 (m * clusterSize) ∈ chainStores t fuel c buf := by
      rw [chainStores_eq]
      exact List.mem_map.mpr ⟨m, List.mem_range.mpr (not_le.mp hlen), rfl⟩
    have hnext := Nat.lt_div_mul_add (a := bound - buf.toNat) (b := clusterSize) (by decide)
    let a : BitVec 32 := BitVec.ofNat 32 (max bound buf.toNat)
    have ha : a.toNat = max bound buf.toNat := by
      rw [BitVec.toNat_ofNat, Nat.mod_eq_of_lt (by omega)]
    have hsub : (a - buf).toNat = bound - buf.toNat := by
      have hle : buf ≤ a := by
        rw [BitVec.le_def, ha]
        exact le_max_right _ _
      rw [BitVec.toNat_sub_of_le hle, ha]
      omega
    have hcover : (a - (buf + BitVec.ofNat 32 (m * clusterSize))).toNat < clusterSize := by
      rw [toNat_sub_add (by rw [hsub]; exact hfit), hsub]
      exact Nat.sub_lt_left_of_lt_add hfit hnext
    have hlt := hinside fuel a ⟨_, hmem, hcover⟩
    rw [ha] at hlt
    exact absurd (le_max_left bound buf.toNat) (not_le.mpr hlt)
  -- all clusters are within the buffer, and what they cover is below the bound
  · intro hlen fuel a hcover
    have hle := (Nat.mul_le_mul_right clusterSize (hlen fuel)).trans hfit
    have hspan := (covers_chainStores (hle.trans (by omega))).mp hcover
    have hlt : (a - buf).toNat < bound - buf.toNat := hspan.trans_le hle
    bv_omega

theorem pagesFor_le (hp : k.PassesChecks request) :
    pagesFor request.bufferSize.toNat * pageFrameSize.toNat ≤ 2 ^ 25 := by
  have hcount := hp.count
  rw [pageFrameCountNeeded_pages] at hcount
  calc pagesFor request.bufferSize.toNat * pageFrameSize.toNat
      ≤ processPageFrameCountMax * pageFrameSize.toNat := Nat.mul_le_mul_right _ hcount
    _ ≤ 2 ^ 25 := by decide

theorem loadInside_iff (h : k.Consistent) : LoadInside k request ↔ LoadFits k request := by
  refine forall_congr' fun hcalls => ?_
  have hinside (a : BitVec 32) :
      ((newDirectory k.paging (pageFrameCountNeeded request) (pageIndex a)).IsUser ∧
        a < kernelVirtualAddressBase) ↔
      a.toNat < pagesFor request.bufferSize.toNat * pageFrameSize.toNat := by
    rw [newDirectory_isUser_pageIndex h hcalls.passes, and_iff_left_iff_imp]
    intro ha
    exact BitVec.lt_def.mpr ((ha.trans_le (pagesFor_le hcalls.passes)).trans (by decide))
  constructor
  · intro hall i hl
    refine (stores_below_iff (pagesFor_le hcalls.passes)).mp fun fuel a hcover => ?_
    exact (hinside a).mp (hall a ⟨i, hl, fuel, hcover⟩)
  · rintro hfits a ⟨i, hl, fuel, hcover⟩
    apply (hinside a).mpr
    exact (stores_below_iff (pagesFor_le hcalls.passes)).mpr (hfits i hl) fuel a hcover

/-- On an intact volume: the file, from `buf` on, ends with the pages or before. -/
theorem Loaded.fits_iff (hl : Loaded request s i) (h : s.volume.Intact)
    (hp : s.volume.Directory request.parentClusterNumber) :
    chainWithin s.clusterMap (clustersLeft request)
        (s.volume.table request.parentClusterNumber i).cluster = true ↔
      request.buf.toNat + (s.volume.table request.parentClusterNumber i).filesize.toNat ≤
        pagesFor request.bufferSize.toNat * pageFrameSize.toNat := by
  obtain ⟨l, hfile⟩ := hl.linked h hp
  have hpos := List.length_pos_of_ne_nil hfile.nonempty
  rw [hl.chainWithin_iff h hp, hfile.size, clustersLeft,
    Nat.mul_le_mul_right_iff (by decide), Nat.le_div_iff_mul_le (by decide)]
  generalize pagesFor request.bufferSize.toNat * pageFrameSize.toNat = bound
  unfold clusterSize
  omega

/-- **Loading a program.**  In every state that creations and destructions lead
to, what `read` stores stays in the new pages if and only if the chain of the
file ends before the pages do.  On an intact volume the stores are the bytes
`[buf, buf + filesize)`, and the condition is that this ends within the pages. -/
theorem load_inside_iff (fs : FsState) (ram : Ram)
    (h : Reaches KernelState.call (fun _ _ => True) (.boot fs ram) k)
    (fs' : FsState) (ram' : Ram) (request : FAT32DriverRequest) :
    (LoadInside (k.setStore fs' ram') request ↔ LoadFits (k.setStore fs' ram') request) ∧
    (fs'.volume.Intact → fs'.volume.Directory request.parentClusterNumber →
      ∀ i, Loaded request fs' i →
        (∀ a, LoadStores request fs' a ↔ (a - request.buf).toNat <
          (fs'.volume.table request.parentClusterNumber i).filesize.toNat) ∧
        (chainWithin fs'.clusterMap (clustersLeft request)
            (fs'.volume.table request.parentClusterNumber i).cluster = true ↔
          request.buf.toNat +
              (fs'.volume.table request.parentClusterNumber i).filesize.toNat ≤
            pagesFor request.bufferSize.toNat * pageFrameSize.toNat)) := by
  refine ⟨loadInside_iff ?_, fun hv hp i hl => ⟨fun a => hl.stores_iff hv hp, hl.fits_iff hv hp⟩⟩
  exact (KernelState.calls_consistent h (KernelState.boot_consistent fs ram)).setStore fs' ram'

/-- The shell, at address 0, is loaded into its pages. -/
theorem load_inside_oneProcess :
    LoadInside (oneProcess.setStore shellDisk noRam) shellRequest := by
  refine (load_inside_iff shellDisk noRam (oneProcess_reaches trivial) shellDisk noRam
    shellRequest).1.mpr fun _ i hl => ?_
  have hfits : (readMatch shellRequest
      (shellDisk.volume.table shellRequest.parentClusterNumber)).all (fun i =>
        chainWithin shellDisk.clusterMap (clustersLeft shellRequest)
          (shellDisk.volume.table shellRequest.parentClusterNumber i).cluster) = true := by
    decide +kernel
  rw [setStore_fs] at hl ⊢
  rw [hl.found] at hfits
  exact hfits

/-- The shell, to be loaded at 0x08048000. -/
def highRequest : FAT32DriverRequest := { shellRequest with buf := 0x08048000#32 }

/-- That address is not in the pages of the new process. -/
theorem load_not_inside : ¬ LoadInside (.boot shellDisk noRam) highRequest := by
  intro hinside
  have hcalls : CallsRead (.boot shellDisk noRam) highRequest :=
    ⟨⟨by decide, by decide, by decide, by decide⟩, 0, by decide⟩
  have hparent : shellDisk.clusterMap.clusterMapAt highRequest.parentClusterNumber =
      .ok fat32FatEndOfFile := by
    rw [clusterMapAt_of_lt _ (by decide)]
    exact congrArg Except.ok (by decide +kernel)
  obtain ⟨i, hi⟩ := Option.isSome_iff_exists.mp (show (readMatch highRequest
    (shellDisk.volume.table highRequest.parentClusterNumber)).isSome = true by decide +kernel)
  have hfile : (readMatch highRequest
      (shellDisk.volume.table highRequest.parentClusterNumber)).all (fun i =>
        (shellDisk.volume.table highRequest.parentClusterNumber i).filesize ≤
            highRequest.bufferSize ∧
          (shellDisk.volume.table highRequest.parentClusterNumber i).cluster ≠
            fat32FatEndOfFile) = true := by
    decide +kernel
  rw [hi, Option.all_some, decide_eq_true_eq] at hfile
  obtain ⟨hsize, hne⟩ := hfile
  -- the first cluster is stored at the buffer, which lies above the pages of the process
  have hstore : LoadStores highRequest shellDisk highRequest.buf := by
    refine ⟨i, ⟨hparent, hi, hsize⟩, 1, highRequest.buf, ?_, ?_⟩
    · rw [chainStores, if_neg hne]
      cases shellDisk.clusterMap.clusterMapAt
          (shellDisk.volume.table highRequest.parentClusterNumber i).cluster with
      | error e => exact List.mem_singleton_self _
      | ok next => exact List.mem_cons_self
    · rw [sub_self]
      decide
  have hfs : (boot shellDisk noRam).fs = shellDisk := by rw [boot]
  rw [← hfs] at hstore
  have huser := (hinside hcalls highRequest.buf hstore).1
  have hnot : ¬ (newDirectory (boot shellDisk noRam).paging (pageFrameCountNeeded highRequest)
      (pageIndex highRequest.buf)).IsUser := by
    decide +kernel
  exact hnot huser

end Binbows
