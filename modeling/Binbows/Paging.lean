/-
Binbows/Paging.lean

Page frames and page directories (`Paging/paging.c`).

The page manager's static tables, the directories and register CR3 are one
record, `PagingState`.  A pointer to a page directory is NULL or points to the
kernel's own directory or to an entry of `page_directory_list`; it is an
`Option DirectoryRef`.  Of a directory entry the model keeps the flags and
`lower_address`; nothing in the kernel sets the other bits.

At the end the tables are read as the books of a pool: frames are handed out
under the entries of the listed directories (`PagingState.frameAt`), and the
two frame operations are `grant` and `revoke` of that pool
(`allocateUserPageFrame_balanced`, `freeUserPageFrame_balanced`).
-/
import Binbows.Library.Pool
import Binbows.Fat32Requests

namespace Binbows

/-! ### Constants -/

/-- `PAGE_FRAME_MAX_COUNT`: 128 MiB in frames of 4 MiB. -/
abbrev pageFrameMaxCount : Nat := 32

instance : NeZero pageFrameMaxCount := ⟨by decide⟩

abbrev pageEntryCount : Nat := 1024

instance : NeZero pageEntryCount := ⟨by decide⟩

abbrev pagingDirectoryTableMaxCount : Nat := 32

instance : NeZero pagingDirectoryTableMaxCount := ⟨by decide⟩

abbrev pageFrameSize : BitVec 32 := 0x400000#32

abbrev kernelVirtualAddressBase : BitVec 32 := 0xC0000000#32

/-- The ways in which the kernel does not come back. -/
inductive KernelFault
  /-- a file request does not return -/
  | fat32 (fault : Fault)
  /-- a null pointer is followed -/
  | nullPointer
  /-- an array is indexed outside its bounds -/
  | outOfBounds
  /-- a file is read to where the new address space has no user page -/
  | strayStore
  /-- a loop never ends -/
  | noReturn
  deriving DecidableEq, Repr

/-! ### Page directories -/

structure PageDirectoryEntryFlag where
  presentBit : Bool := false
  readWrite : Bool := false
  userSupervisor : Bool := false
  pwt : Bool := false
  pcd : Bool := false
  access : Bool := false
  dirty : Bool := false
  pageSize : Bool := false

structure PageDirectoryEntry where
  flag : PageDirectoryEntryFlag := {}
  lowerAddress : BitVec 10 := 0

abbrev PageDirectory := Fin pageEntryCount → PageDirectoryEntry

/-- The frame that an entry maps. -/
def PageDirectoryEntry.frame (e : PageDirectoryEntry) : Option (Fin pageFrameMaxCount) :=
  if h : e.flag.presentBit ∧ e.lowerAddress.toNat < pageFrameMaxCount then
    some ⟨e.lowerAddress.toNat, h.2⟩
  else none

theorem PageDirectoryEntry.frame_eq_some {e : PageDirectoryEntry} {f : Fin pageFrameMaxCount} :
    e.frame = some f ↔ e.flag.presentBit ∧ e.lowerAddress.toNat = f := by
  unfold frame
  split_ifs with h
  · rw [Option.some.injEq, Fin.ext_iff]
    exact (and_iff_right h.1).symm
  · simp only [false_iff, not_and]
    intro hp hf
    exact h ⟨hp, hf ▸ f.isLt⟩

/-- The entry that maps the kernel's 4 MiB. -/
def kernelEntry : PageDirectoryEntry where
  flag := { presentBit := true, readWrite := true, pageSize := true }
  lowerAddress := 0

/-- A directory with the kernel's higher half and nothing else: the `insert` of
`paging_create_new_page_directory`. -/
def freshDirectory : PageDirectory := fun page => if page = 0x300 then kernelEntry else {}

/-- What a non-null pointer to a page directory points to. -/
inductive DirectoryRef
  | kernel
  | list (i : Fin pagingDirectoryTableMaxCount)
  deriving DecidableEq, Repr

structure PagingState where
  kernelPageDirectory : PageDirectory
  pageDirectoryList : Fin pagingDirectoryTableMaxCount → PageDirectory
  pageDirectoryUsed : Fin pagingDirectoryTableMaxCount → Bool
  pageFrameMap : Fin pageFrameMaxCount → Bool
  freePageFrameCount : BitVec 32
  cr3 : DirectoryRef

namespace PagingState

/-- The tables as the loader leaves them: the kernel runs on its own
directory, and entry 0 of it is cleared. -/
def boot : PagingState where
  kernelPageDirectory := freshDirectory
  pageDirectoryList i page :=
    if i = 0 ∧ (page = 0 ∨ page = 0x300) then kernelEntry else {}
  pageDirectoryUsed _ := false
  pageFrameMap i := i = 0
  freePageFrameCount := BitVec.ofNat 32 (pageFrameMaxCount - 1)
  cr3 := .kernel

def directory (p : PagingState) : DirectoryRef → PageDirectory
  | .kernel => p.kernelPageDirectory
  | .list i => p.pageDirectoryList i

def setDirectory (p : PagingState) (pageDir : DirectoryRef) (table : PageDirectory) :
    PagingState :=
  match pageDir with
  | .kernel => { p with kernelPageDirectory := table }
  | .list i => { p with pageDirectoryList := Function.update p.pageDirectoryList i table }

end PagingState

/-- The entry for a virtual address: `(virtual_addr >> 22) & 0x3FF`. -/
def pageIndex (virtualAddr : BitVec 32) : Fin pageEntryCount :=
  ⟨((virtualAddr >>> 22) &&& 0x3FF#32).toNat, by
    rw [BitVec.toNat_and]
    exact Nat.lt_of_le_of_lt Nat.and_le_right (by decide)⟩

namespace PagingState

/-- The entry that `update_page_directory_entry` makes. -/
def makeEntry (physicalAddr : BitVec 32) (flag : PageDirectoryEntryFlag) : PageDirectoryEntry where
  flag := flag
  lowerAddress := ((physicalAddr >>> 22) &&& 0x3FF#32).setWidth 10

/-- `update_page_directory_entry`. -/
def updatePageDirectoryEntry (p : PagingState) (pageDir : DirectoryRef)
    (physicalAddr virtualAddr : BitVec 32) (flag : PageDirectoryEntryFlag) : PagingState :=
  p.setDirectory pageDir (Function.update (p.directory pageDir) (pageIndex virtualAddr)
    (makeEntry physicalAddr flag))

/-! ### Page frames -/

/-- `paging_allocate_check`. -/
def allocateCheck (p : PagingState) (amount : BitVec 32) : Bool :=
  amount ≤ p.freePageFrameCount

/-- The search for a page frame that is not in use. -/
def findFrame (p : PagingState) : Option (Fin pageFrameMaxCount) :=
  (List.finRange pageFrameMaxCount).find? fun i => !p.pageFrameMap i

/-- Mark a frame as used, or as free. -/
def markFrame (p : PagingState) (i : Fin pageFrameMaxCount) (used : Bool) : PagingState :=
  { p with
    pageFrameMap := Function.update p.pageFrameMap i used
    freePageFrameCount :=
      if used then p.freePageFrameCount - 1 else p.freePageFrameCount + 1 }

/-- The flags of a user page. -/
def userFlag : PageDirectoryEntryFlag where
  presentBit := true
  readWrite := true
  userSupervisor := true
  pageSize := true

/-- `paging_allocate_user_page_frame`. -/
def allocateUserPageFrame (p : PagingState) (pageDir : Option DirectoryRef)
    (virtualAddr : BitVec 32) : Except KernelFault (Bool × PagingState) :=
  if ¬ p.allocateCheck 1 then .ok (false, p)
  else
    match p.findFrame with
    | none => .ok (false, p)  -- full memory
    | some i =>
        match pageDir with
        | none => .error .nullPointer
        | some d =>
            let physicalAddress := pageFrameSize * BitVec.ofNat 32 i
            .ok (true,
              (p.markFrame i true).updatePageDirectoryEntry d physicalAddress virtualAddr userFlag)

/-- `paging_free_user_page_frame`. -/
def freeUserPageFrame (p : PagingState) (pageDir : Option DirectoryRef)
    (virtualAddr : BitVec 32) : Except KernelFault (Bool × PagingState) :=
  match pageDir with
  | none => .error .nullPointer
  | some d =>
      let entry := p.directory d (pageIndex virtualAddr)
      if ¬ entry.flag.presentBit then .ok (false, p)  -- deallocating empty virtual addr
      else
        let physicalAddr := entry.lowerAddress.setWidth 32 <<< 22
        if h : (physicalAddr / pageFrameSize).toNat < pageFrameMaxCount then
          .ok (true, (p.markFrame ⟨_, h⟩ false).updatePageDirectoryEntry d 0 virtualAddr {})
        else .error .outOfBounds

/-! ### Page directories of processes -/

/-- The search for an unused entry of `page_directory_list`. -/
def findDirectory (p : PagingState) : Option (Fin pagingDirectoryTableMaxCount) :=
  (List.finRange pagingDirectoryTableMaxCount).find? fun i => !p.pageDirectoryUsed i

/-- `paging_create_new_page_directory`. -/
def createNewPageDirectory (p : PagingState) : Option DirectoryRef × PagingState :=
  match p.findDirectory with
  | none => (none, p)
  | some i =>
      (some (.list i), { p with
        pageDirectoryUsed := Function.update p.pageDirectoryUsed i true
        pageDirectoryList := Function.update p.pageDirectoryList i freshDirectory })

/-- `paging_free_page_directory`: only entries of the list can be freed. -/
def freePageDirectory (p : PagingState) (pageDir : Option DirectoryRef) : Bool × PagingState :=
  match pageDir with
  | some (.list i) =>
      (true, { p with
        pageDirectoryList := Function.update p.pageDirectoryList i fun _ => {}
        pageDirectoryUsed := Function.update p.pageDirectoryUsed i false })
  | _ => (false, p)

def setCr3 (p : PagingState) (d : DirectoryRef) : PagingState := { p with cr3 := d }

/-- `paging_use_page_directory`.  With a null directory in CR3 the processor
finds no page tables.  A directory that was freed is cleared, and is loaded like any other:
the processor takes the next instruction from a kernel that is not mapped there, which
is no longer the kernel's doing, and the tables are as this says until then. -/
def usePageDirectory (p : PagingState) (pageDir : Option DirectoryRef) :
    Except KernelFault PagingState :=
  match pageDir with
  | none => .error .nullPointer
  | some d => .ok (p.setCr3 d)

/-! ### The tables as a pool -/

/-- The frame that entry `q.2` of the listed directory `q.1` maps. -/
def frameAt (p : PagingState) (q : Fin pagingDirectoryTableMaxCount × Fin pageEntryCount) :
    Option (Fin pageFrameMaxCount) :=
  (p.pageDirectoryList q.1 q.2).frame

/-- The frame tables balance, when exactly the entries of `S` are handed out. -/
def Balanced (p : PagingState)
    (S : Set (Fin pagingDirectoryTableMaxCount × Fin pageEntryCount)) : Prop :=
  Pool.Balanced p.pageFrameMap p.freePageFrameCount.toNat p.frameAt 0 S

/-- What the frame operations leave alone: which directories are used, and
which one is active. -/
structure SameDirectories (p p' : PagingState) : Prop where
  used : p'.pageDirectoryUsed = p.pageDirectoryUsed
  cr3 : p'.cr3 = p.cr3

variable {p p' p'' : PagingState} {d : Fin pagingDirectoryTableMaxCount} {va : BitVec 32}
  {f : Fin pageFrameMaxCount} {S : Set (Fin pagingDirectoryTableMaxCount × Fin pageEntryCount)}

theorem SameDirectories.trans (h : SameDirectories p p') (h' : SameDirectories p' p'') :
    SameDirectories p p'' :=
  ⟨h'.used.trans h.used, h'.cr3.trans h.cr3⟩

/-- A user entry maps the frame it was made for. -/
theorem frame_userEntry (f : Fin pageFrameMaxCount) :
    (makeEntry (pageFrameSize * BitVec.ofNat 32 f) userFlag).frame = some f := by
  revert f
  decide

/-- The frame number that `paging_free_user_page_frame` computes. -/
theorem frame_lowerAddress (x : BitVec 10) :
    ((x.setWidth 32 <<< 22) / pageFrameSize).toNat = x.toNat := by
  have hx := x.isLt
  rw [BitVec.toNat_udiv, BitVec.toNat_shiftLeft, BitVec.toNat_setWidth, Nat.shiftLeft_eq]
  show x.toNat % 2 ^ 32 * 2 ^ 22 % 2 ^ 32 / 4194304 = x.toNat
  omega

/-- An entry is all that an update of a listed directory changes. -/
theorem frameAt_update (p : PagingState) (d : Fin pagingDirectoryTableMaxCount)
    (pa va : BitVec 32) (flag : PageDirectoryEntryFlag) :
    (p.updatePageDirectoryEntry (.list d) pa va flag).frameAt =
      Function.update p.frameAt (d, pageIndex va) (makeEntry pa flag).frame := by
  funext ⟨d', page⟩
  by_cases hd : d' = d
  · subst hd
    by_cases hpage : page = pageIndex va
    · subst hpage
      simp [frameAt, updatePageDirectoryEntry, setDirectory, directory]
    · have hne : (d', page) ≠ (d', pageIndex va) := fun e => hpage (congrArg Prod.snd e)
      rw [Function.update_of_ne hne]
      simp [frameAt, updatePageDirectoryEntry, setDirectory, directory, hpage]
  · have hne : (d', page) ≠ (d, pageIndex va) := fun e => hd (congrArg Prod.fst e)
    rw [Function.update_of_ne hne]
    simp [frameAt, updatePageDirectoryEntry, setDirectory, hd]

theorem exists_findFrame (h : p.Balanced S) (hfree : 0 < p.freePageFrameCount.toNat) :
    ∃ f, p.findFrame = some f ∧ p.pageFrameMap f = false := by
  obtain ⟨g, hg⟩ : ∃ g, p.pageFrameMap g = false := by
    refine Pool.exists_free ?_
    rw [← h.free_eq]
    omega
  have hsome : p.findFrame.isSome := by
    rw [findFrame, List.find?_isSome]
    exact ⟨g, List.mem_finRange g, by simp [hg]⟩
  obtain ⟨f, hf⟩ := Option.isSome_iff_exists.mp hsome
  exact ⟨f, hf, by simpa using List.find?_some hf⟩

@[simp] theorem frameAt_markFrame (i : Fin pageFrameMaxCount) (b : Bool) :
    (p.markFrame i b).frameAt = p.frameAt := rfl

/-- Where frames are left, an allocation hands one of them out. -/
theorem allocateUserPageFrame_balanced (h : p.Balanced S) (hk : (d, pageIndex va) ∉ S)
    (hfree : 0 < p.freePageFrameCount.toNat) :
    ∃ f p', p.allocateUserPageFrame (some (.list d)) va = .ok (true, p') ∧
      p'.Balanced (insert (d, pageIndex va) S) ∧
      p'.frameAt = Function.update p.frameAt (d, pageIndex va) (some f) ∧
      p'.freePageFrameCount.toNat = p.freePageFrameCount.toNat - 1 ∧ SameDirectories p p' := by
  obtain ⟨f, hfind, hf⟩ := exists_findFrame h hfree
  have hcheck : p.allocateCheck 1 := by
    simp only [allocateCheck, decide_eq_true_eq]
    bv_omega
  have hcount : (p.freePageFrameCount - 1).toNat = p.freePageFrameCount.toNat - 1 := by
    bv_omega
  have hat := frameAt_update (p.markFrame f true) d (pageFrameSize * BitVec.ofNat 32 f) va userFlag
  rw [frame_userEntry, frameAt_markFrame] at hat
  refine ⟨f, (p.markFrame f true).updatePageDirectoryEntry (.list d)
    (pageFrameSize * BitVec.ofNat 32 f) va userFlag, ?_, ?_, hat, hcount, rfl, rfl⟩
  · rw [allocateUserPageFrame, if_neg (not_not.mpr hcheck), hfind]
  · unfold Balanced
    rw [hat]
    show Pool.Balanced (Function.update p.pageFrameMap f true) (p.freePageFrameCount - 1).toNat _ _ _
    rw [hcount]
    exact Pool.Balanced.grant h hk hf

/-- What was handed out can be taken back. -/
theorem freeUserPageFrame_balanced (h : p.Balanced S) (hk : (d, pageIndex va) ∈ S) :
    ∃ p', p.freeUserPageFrame (some (.list d)) va = .ok (true, p') ∧
      p'.Balanced (S \ {(d, pageIndex va)}) ∧
      p'.frameAt = Function.update p.frameAt (d, pageIndex va) none ∧ SameDirectories p p' := by
  obtain ⟨f, hf, -⟩ := h.holds _ hk
  obtain ⟨hpresent, hlower⟩ := PageDirectoryEntry.frame_eq_some.mp hf
  have hframe := (frame_lowerAddress _).trans hlower
  have hlt := hframe.trans_lt f.isLt
  have hcount : (p.freePageFrameCount + 1).toNat = p.freePageFrameCount.toNat + 1 := by
    have hle : p.freePageFrameCount.toNat ≤ pageFrameMaxCount := by
      rw [h.free_eq]
      exact (Finset.card_le_univ _).trans (by simp)
    unfold pageFrameMaxCount at hle
    bv_omega
  have hat := frameAt_update (p.markFrame f false) d 0 va {}
  refine ⟨(p.markFrame f false).updatePageDirectoryEntry (.list d) 0 va {}, ?_, ?_, hat, rfl, rfl⟩
  · unfold freeUserPageFrame
    dsimp only [directory]
    rw [if_neg (not_not.mpr hpresent), dif_pos hlt]
    congr
  · unfold Balanced
    rw [hat]
    show Pool.Balanced (Function.update p.pageFrameMap f false) (p.freePageFrameCount + 1).toNat _ _ _
    rw [hcount]
    exact Pool.Balanced.revoke h hk hf

end PagingState

end Binbows
