/-
Binbows/LookupCodes.lean

What `read` and `read_directory` answer, against what their headers say.

`read_directory` keeps to its header for every table.  `read` does, but for one kind of
request: its flag `found` is set for any entry of the name, so that a name which is only
there with other extensions is answered with -1 instead of 3.

Main result: `lookup_codes_iff`.
-/
import Binbows.FileSystemRuns

namespace Binbows

open Chain Volume Run

/-- The table has a file with that name and extension. -/
def FAT32DirectoryTable.HasFile (t : FAT32DirectoryTable) (name : EntryName) (ext : EntryExt) :
    Prop :=
  ∃ i, (t i).Occupied ∧ ¬ (t i).IsSubdirectory ∧ (t i).name = name ∧ (t i).ext = ext

/-- The table has a folder of that name. -/
def FAT32DirectoryTable.HasFolder (t : FAT32DirectoryTable) (name : EntryName) : Prop :=
  ∃ i, (t i).Folder ∧ (t i).name = name

/-- The codes of `read`: 0 success, 1 not a file, 3 not found. -/
def ReadCodes (request : FAT32DriverRequest) (mem : Memory) (s : FsState) : Prop :=
  ∃ r, read request mem s = .ok r ∧
    (r.ret = 0 ↔
      (s.volume.table request.parentClusterNumber).HasFile request.name request.ext) ∧
    (r.ret = 1 ↔
      ¬ (s.volume.table request.parentClusterNumber).HasFile request.name request.ext ∧
        (s.volume.table request.parentClusterNumber).HasFolder request.name) ∧
    (r.ret = 3 ↔
      ¬ (s.volume.table request.parentClusterNumber).HasFile request.name request.ext ∧
        ¬ (s.volume.table request.parentClusterNumber).HasFolder request.name) ∧
    r.ret ≠ -1

/-- The codes of `read_directory`: 0 success, 1 not a folder, 2 not found. -/
def FolderCodes (request : FAT32DriverRequest) (mem : Memory) (s : FsState) : Prop :=
  ∃ r, readDirectory request mem s = .ok r ∧
    (r.ret = 0 ↔ (s.volume.table request.parentClusterNumber).HasFolder request.name) ∧
    (r.ret = 1 ↔ ¬ (s.volume.table request.parentClusterNumber).HasFolder request.name ∧
      ∃ ext, (s.volume.table request.parentClusterNumber).HasFile request.name ext) ∧
    (r.ret = 2 ↔ ¬ (s.volume.table request.parentClusterNumber).HasName request.name) ∧
    r.ret ≠ -1

variable {request dirRequest : FAT32DriverRequest} {mem : Memory} {s s₀ : FsState} {r : Reply}
  {t : FAT32DirectoryTable} {name : EntryName} {ext : EntryExt}

/-! ### What a table has -/

theorem namedSlot_isSome_iff : (t.namedSlot name).isSome ↔ t.HasFolder name := by
  unfold FAT32DirectoryTable.namedSlot FAT32DirectoryTable.HasFolder
  rw [List.find?_isSome]
  simp

theorem readMatch_isSome_iff :
    (readMatch request t).isSome ↔ t.HasFile request.name request.ext := by
  constructor
  · intro h
    obtain ⟨i, hi⟩ := Option.isSome_iff_exists.mp h
    exact ⟨i, readMatch_eq_some hi⟩
  · rintro ⟨i, ho, hs, hn, hx⟩
    rw [Option.isSome_iff_ne_none]
    exact fun hnone => readMatch_eq_none_iff.mp hnone i ho hs hn hx

/-- An entry of the name is a folder or a file. -/
theorem FAT32DirectoryTable.hasName_iff :
    t.HasName name ↔ t.HasFolder name ∨ ∃ ext, t.HasFile name ext := by
  constructor
  · rintro ⟨i, ho, hn⟩
    by_cases hs : (t i).IsSubdirectory
    · exact .inl ⟨i, ⟨ho, hs⟩, hn⟩
    · exact .inr ⟨(t i).ext, i, ho, hs, hn, rfl⟩
  · rintro (⟨i, ⟨ho, -⟩, hn⟩ | ⟨ext, i, ho, -, hn, -⟩)
    · exact ⟨i, ho, hn⟩
    · exact ⟨i, ho, hn⟩

/-! ### read_directory -/

/-- **`read_directory` answers as its header says**, for every table. -/
theorem folderCodes (mem : Memory) (hlt : request.parentClusterNumber.toNat < clusterMapSize)
    (heof : s.volume.fat request.parentClusterNumber = fat32FatEndOfFile)
    (hsize : request.bufferSize = BitVec.ofNat 32 clusterSize) : FolderCodes request mem s := by
  have heof' : s.clusterMap.view request.parentClusterNumber = fat32FatEndOfFile := heof
  refine ⟨readFolder request mem (s.readDirTable request.parentClusterNumber), ?_, ?_⟩
  · rw [readDirectory_eq, if_neg (not_not.mpr hsize), parentCheck_of_lt hlt, if_pos heof']
  have hcode : (readFolder request mem (s.readDirTable request.parentClusterNumber)).ret =
      if ((s.volume.table request.parentClusterNumber).namedSlot request.name).isSome then 0
      else if (s.volume.table request.parentClusterNumber).HasName request.name then 1 else 2 :=
    readFolder_ret request mem (s.readDirTable request.parentClusterNumber)
  rw [hcode]
  generalize s.volume.table request.parentClusterNumber = t
  have hfolder : (t.namedSlot request.name).isSome ↔ t.HasFolder request.name :=
    namedSlot_isSome_iff
  have hname : t.HasName request.name ↔
      t.HasFolder request.name ∨ ∃ ext, t.HasFile request.name ext :=
    FAT32DirectoryTable.hasName_iff
  split_ifs with h₁ h₂
  · have hf := hfolder.mp h₁
    simp [hf, hname]
  · have hf : ¬ _ := mt hfolder.mpr h₁
    simpa [hf, h₂] using hname.mp h₂
  · have hf : ¬ _ := mt hfolder.mpr h₁
    have hno := mt hname.mpr h₂
    rw [not_or] at hno
    simp [hf, h₂, hno.2]

/-! ### read -/

/-- The chain of the file that `read` finds ends inside the table. -/
def FoundChainEnds (request : FAT32DriverRequest) (s : FsState) : Prop :=
  ∀ i, readMatch request (s.volume.table request.parentClusterNumber) = some i →
    ∃ l, Walk s.volume.fat fat32FatEndOfFile
        (s.volume.table request.parentClusterNumber i).cluster l ∧
      ∀ b ∈ l, b.toNat < clusterMapSize

/-- If the table has the name, then also as a folder or with the extension. -/
def NotOnlyOtherExtension (request : FAT32DriverRequest) (t : FAT32DirectoryTable) : Prop :=
  t.HasName request.name → t.HasFile request.name request.ext ∨ t.HasFolder request.name

theorem readMissing_eq (request : FAT32DriverRequest) (t : FAT32DirectoryTable) :
    (readMissing request t = 1 ↔ t.HasFolder request.name) ∧
      (readMissing request t = -1 ↔ ¬ t.HasFolder request.name ∧ t.HasName request.name) ∧
      (readMissing request t = 3 ↔ ¬ t.HasFolder request.name ∧ ¬ t.HasName request.name) := by
  unfold readMissing
  rw [← namedSlot_isSome_iff]
  split_ifs with h₁ h₂
  · simp [h₁]
  · simp [h₁, h₂]
  · simp [h₁, h₂]

/-- **`read` answers as its header says** exactly where the chain of the file ends and
the name is not there with other extensions only. -/
theorem readCodes_iff (mem : Memory) (hlt : request.parentClusterNumber.toNat < clusterMapSize)
    (heof : s.volume.fat request.parentClusterNumber = fat32FatEndOfFile)
    (hbuf : ∀ i, readMatch request (s.volume.table request.parentClusterNumber) = some i →
      (s.volume.table request.parentClusterNumber i).filesize ≤ request.bufferSize) :
    ReadCodes request mem s ↔ FoundChainEnds request s ∧
      NotOnlyOtherExtension request (s.volume.table request.parentClusterNumber) := by
  have heof' : s.clusterMap.view request.parentClusterNumber = fat32FatEndOfFile := heof
  have hfile : (readMatch request (s.volume.table request.parentClusterNumber)).isSome ↔
      (s.volume.table request.parentClusterNumber).HasFile request.name request.ext :=
    readMatch_isSome_iff
  unfold ReadCodes FoundChainEnds
  rw [read_eq, parentCheck_of_lt hlt, if_pos heof']
  cases hm : readMatch request (s.volume.table request.parentClusterNumber) with
  -- a file is found: the code is zero if its chain is read to the end
  | some i =>
      rw [hm] at hfile
      have hhas := hfile.mp rfl
      constructor
      · rintro ⟨r, hr, hzero, -⟩
        refine ⟨?_, fun _ => .inl hhas⟩
        rintro j hj
        cases hj
        -- the read goes through the check of the parent
        have hread : read request mem s = .ok r := by
          rw [read_eq, parentCheck_of_lt hlt, if_pos heof', hm]
          exact hr
        obtain ⟨j, hj, -, hchain⟩ := read_found hread (hzero.mpr hhas)
        obtain rfl : i = j := Option.some.inj (hm.symm.trans hj)
        obtain ⟨l, hw, hrange, -⟩ := readChain_eq_ok_iff.mp hchain
        exact ⟨l, hw, hrange⟩
      · rintro ⟨hends, -⟩
        obtain ⟨l, hw, hrange⟩ := hends i rfl
        refine ⟨_, readFound_of_walk hw hrange, ?_⟩
        rw [if_neg (BitVec.not_lt.mpr (hbuf i hm))]
        simp [hhas]
  -- no file is found: the code is -1 or 3, by what else has the name
  | none =>
      rw [hm] at hfile
      have hno : ¬ (s.volume.table request.parentClusterNumber).HasFile request.name request.ext :=
        fun h => by simpa using hfile.mpr h
      obtain ⟨hone, hminus, hthree⟩ := readMissing_eq request
        (s.volume.table request.parentClusterNumber)
      constructor
      · rintro ⟨r, hr, -, -, -, hne⟩
        cases hr
        refine ⟨fun i hi => ?_, fun hname => .inr ?_⟩
        · cases hi
        -- the code -1 says that an entry has the name and no folder does
        by_contra hfolder
        exact hne (hminus.mpr ⟨hfolder, hname⟩)
      · rintro ⟨-, hsole⟩
        refine ⟨_, rfl, ?_, ?_, ?_, ?_⟩
        · exact iff_of_false readMissing_ne_zero hno
        · rw [hone]
          exact ⟨fun h => ⟨hno, h⟩, fun h => h.2⟩
        · rw [hthree]
          constructor
          · exact fun h => ⟨hno, h.1⟩
          · exact fun h => ⟨h.2, fun hname => (hsole hname).elim hno h.2⟩
        · intro hm1
          obtain ⟨hfolder, hname⟩ := hminus.mp hm1
          exact (hsole hname).elim hno hfolder

/-! ### Both -/

/-- The two lookups answer as documented. -/
structure LookupCodes (request dirRequest : FAT32DriverRequest) (mem : Memory) (s : FsState) :
    Prop where
  read : ReadCodes request mem s
  readDirectory : FolderCodes dirRequest mem s

/-- **Where the codes of the lookups are the documented ones.**  For any driver state and
any parent that passes the check, with buffers that are large enough: exactly where the
file's chain ends and the name is not only there with other extensions. -/
theorem lookup_codes_iff (mem : Memory)
    (hlt : request.parentClusterNumber.toNat < clusterMapSize)
    (heof : s.volume.fat request.parentClusterNumber = fat32FatEndOfFile)
    (hbuf : ∀ i, readMatch request (s.volume.table request.parentClusterNumber) = some i →
      (s.volume.table request.parentClusterNumber i).filesize ≤ request.bufferSize)
    (hdir : dirRequest.parentClusterNumber = request.parentClusterNumber)
    (hsize : dirRequest.bufferSize = BitVec.ofNat 32 clusterSize) :
    LookupCodes request dirRequest mem s ↔ FoundChainEnds request s ∧
      NotOnlyOtherExtension request (s.volume.table request.parentClusterNumber) := by
  rw [← readCodes_iff mem hlt heof hbuf]
  rw [← hdir] at hlt heof
  exact ⟨fun h => h.read, fun h => ⟨h, folderCodes mem hlt heof hsize⟩⟩

/-- On an intact volume the chains end. -/
theorem foundChainEnds_of_intact (h : s.volume.Intact)
    (hp : s.volume.Directory request.parentClusterNumber) : FoundChainEnds request s := by
  intro i hi
  obtain ⟨ho, hs, -⟩ := readMatch_eq_some hi
  exact chainsEnd_of_intact h hp i ho hs

/-- The root with the file `b` beside the folder `a`. -/
def fileBeside : FsState := oneFolder.after (makeFile rootClusterNumber 'b')

theorem fileBeside_step : oneFolder.step (makeFile rootClusterNumber 'b') = some fileBeside :=
  step_after (n := 0) (by decide +kernel)

/-- The request for `b` with an extension that is not there. -/
def otherExtension : FAT32DriverRequest := ⟨0, letterName 'b', 1, rootClusterNumber, 2048⟩

theorem lookup_codes_iff_fileBeside :
    LookupCodes otherExtension otherExtension (fun _ => 0) fileBeside ↔
      FoundChainEnds otherExtension fileBeside ∧
        NotOnlyOtherExtension otherExtension (fileBeside.volume.table rootClusterNumber) := by
  have hnone : readMatch otherExtension (fileBeside.volume.table rootClusterNumber) = none := by
    decide +kernel
  refine lookup_codes_iff (fun _ => 0) (by decide) (by decide +kernel) ?_ rfl rfl
  intro i hi
  have hi' : readMatch otherExtension (fileBeside.volume.table rootClusterNumber) = some i := hi
  rw [hnone] at hi'
  cases hi'

/-- A file of the name with another extension is answered with -1. -/
theorem lookup_codes_not_documented :
    ¬ ∀ (s₀ s : FsState) (request : FAT32DriverRequest) (mem : Memory),
      Reaches FsState.step Careful (createFat32 s₀) s →
      s.volume.Directory request.parentClusterNumber →
      (∀ i, readMatch request (s.volume.table request.parentClusterNumber) = some i →
        (s.volume.table request.parentClusterNumber i).filesize ≤ request.bufferSize) →
      ReadCodes request mem s := by
  intro h
  have hsafe : ∀ (s : FsState) (ch : Char), SafeDelete s (makeFile rootClusterNumber ch) :=
    fun _ _ hop => by cases hop
  have hrun : Reaches FsState.step Careful (createFat32 .blank) fileBeside :=
    Reaches.snoc (i := makeFile rootClusterNumber 'b')
      (oneFolder_reaches ⟨.root, fun h => by cases h⟩) ⟨.root, hsafe _ _⟩ fileBeside_step
  have hnone : readMatch otherExtension (fileBeside.volume.table rootClusterNumber) = none := by
    decide +kernel
  obtain ⟨r, hr, -, -, -, hne⟩ := h .blank fileBeside otherExtension (fun _ => 0) hrun .root
    fun i hi => by
      have hi' : readMatch otherExtension (fileBeside.volume.table rootClusterNumber) = some i := hi
      rw [hnone] at hi'
      cases hi'
  have hret : (FsCall.mk .read otherExtension fun _ => 0).ret fileBeside = some (-1) := by
    decide +kernel
  obtain ⟨r', hr', hret'⟩ := ret_eq_some.mp hret
  obtain rfl : r = r' := Except.ok.inj (hr.symm.trans hr')
  exact hne hret'

end Binbows
