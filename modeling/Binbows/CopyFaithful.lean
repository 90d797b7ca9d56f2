/-
Binbows/CopyFaithful.lean

What a copy has in common with its source.

`cp` reads its source into a buffer of three clusters, and what it writes is that buffer:
the size in the request is the same for both calls.  So every copy has three clusters,
whatever the source has.

Main result: `cp_faithful_iff`.  A copy that was made is a faithful one exactly where its
source occupies three clusters.
-/
import Binbows.FileAllocation
import Binbows.CatOutput

namespace Binbows

open Chain SlotTree Bytes Volume Run Calls Moves FAT32FileAllocationTable

variable {others : ShellCall → ShellWorld → Except ShellFault (ShellReply × ShellWorld)}
  {w w' w₀ w₁ : ShellWorld} {v : Volume} {k : FileKey} {m : Move FileKey} {mem : Memory}
  {data data' : List ClusterBuffer} {stack : CopyStack} {line : CommandLine}
  {place place' : Place} {size : Nat}
  {s s' : FsState} {g : MovePhase} {call : ShellCall} {reply : ShellReply} {behind : List Byte}

/-! ### Sizes -/

/-- The entry of a file, and the size that it records. -/
def Volume.RecordsSize (v : Volume) (k : FileKey) (size : Nat) : Prop :=
  ∃ i, v.FileEntry k.dir i ∧ (v.table k.dir i).name = k.name ∧ (v.table k.dir i).ext = k.ext ∧
    (v.table k.dir i).filesize.toNat = size

/-- The size of a file is that of its clusters. -/
theorem recordsSize_iff (hq : v.UniqueFiles) (hdata : v.files k = some data) :
    v.RecordsSize k size ↔ size = data.length * clusterSize := by
  obtain ⟨i, l, hd, hi, hn, hx, hl, rfl⟩ := (files_eq_some_iff hq).mp hdata
  rw [List.length_map, ← hl.size]
  constructor
  · rintro ⟨j, hj, hnj, hxj, rfl⟩
    obtain rfl := hq hd hi hj (hn.trans hnj.symm) (hx.trans hxj.symm)
    rfl
  · rintro rfl
    exact ⟨i, hi, hn, hx, rfl⟩

theorem clusterSize_pos : 0 < clusterSize := by decide

/-- A request that reads the file `k`. -/
def readOf (k : FileKey) (buf bufferSize : BitVec 32) : FAT32DriverRequest :=
  ⟨buf, k.name, k.ext, k.dir, bufferSize⟩

theorem read_file (mem : Memory) (buf bufferSize : BitVec 32) (hs : Tidy s)
    (hdata : s.volume.files k = some data) (hsize : data.length * clusterSize ≤ bufferSize.toNat) :
    ∃ r, read (readOf k buf bufferSize) mem s = .ok r ∧ r.ret = 0 ∧
      r.mem = mem.storeAll buf data := by
  have hf : s.volume.HasFile (readOf k buf bufferSize).parentClusterNumber
      (readOf k buf bufferSize).name (readOf k buf bufferSize).ext data :=
    (files_eq_some_iff hs.uniqueFiles).mp hdata
  exact read_hasFile mem hs.wellFormed.toIntact hs.uniqueFiles hf hsize

/-! ### Faithful copies -/

/-- Between `s` and `s'` the file `m.src` was copied to `m.dst`: the sizes are the same, a
buffer that has room for both reads the same, the copy took as many free clusters as the
source occupies, and the source is there as before. -/
structure CopiesFaithfully (s s' : FsState) (m : Move FileKey) : Prop where
  filesize : ∃ size, s.volume.RecordsSize m.src size ∧ s'.volume.RecordsSize m.dst size
  reads : ∀ buf bufferSize mem,
    (∀ size, s'.volume.RecordsSize m.src size ∨ s'.volume.RecordsSize m.dst size →
      size ≤ bufferSize.toNat) →
    ∃ r r', read (readOf m.src buf bufferSize) mem s' = .ok r ∧
      read (readOf m.dst buf bufferSize) mem s' = .ok r' ∧ r.ret = r'.ret ∧ r.mem = r'.mem
  clusters : ∀ data, s.volume.files m.src = some data →
    availableSize s.clusterMap = availableSize s'.clusterMap + data.length
  source : s'.volume.files m.src = s.volume.files m.src

theorem length_copyOf (data : List ClusterBuffer) : (copyOf data).length = 3 := by
  rw [copyOf, length_loads]
  decide

/-- A file of three clusters fills the buffer, and the copy is the file. -/
theorem copyOf_eq (hfits : Fits data) (hlen : data.length = 3) : copyOf data = data := by
  apply ((prefix_copyOf hfits).eq_of_length _).symm
  rw [length_copyOf, hlen]

/-- The copy of a file is faithful where the file has three clusters. -/
theorem Staged.faithful_iff (h : Staged w₀ m data false w) (hs : Tidy w₀.fs)
    (hcount : availableSize w₀.fs.clusterMap = availableSize w.fs.clusterMap + 3) :
    CopiesFaithfully w₀.fs w.fs m ↔ data.length = 3 := by
  have hsource : w₀.fs.volume.files m.src = some data := h.copies.source
  have hkept : w.fs.volume.files m.src = some data := by
    rw [h.files]
    exact h.copies.copied_src
  have hcopy : w.fs.volume.files m.dst = some (copyOf data) := by
    rw [h.files]
    exact Move.copied_dst
  have hq : w.fs.volume.UniqueFiles := h.tidy.uniqueFiles
  constructor
  · intro hfaithful
    obtain ⟨size, hsrc, hdst⟩ := hfaithful.filesize
    rw [recordsSize_iff hs.uniqueFiles hsource] at hsrc
    rw [recordsSize_iff hq hcopy, hsrc, length_copyOf] at hdst
    exact Nat.eq_of_mul_eq_mul_right clusterSize_pos hdst
  · intro hlen
    rw [copyOf_eq h.copies.fits hlen] at hcopy
    refine ⟨⟨_, (recordsSize_iff hs.uniqueFiles hsource).mpr rfl, (recordsSize_iff hq hcopy).mpr rfl⟩,
      fun buf bufferSize mem hroom => ?_, fun data' hdata' => ?_, hkept.trans hsource.symm⟩
    · have hsize := hroom _ (.inl ((recordsSize_iff hq hkept).mpr rfl))
      obtain ⟨r, hr, hret, hmem⟩ := read_file mem buf bufferSize h.tidy hkept hsize
      obtain ⟨r', hr', hret', hmem'⟩ := read_file mem buf bufferSize h.tidy hcopy hsize
      exact ⟨r, r', hr, hr', hret.trans hret'.symm, hmem.trans hmem'.symm⟩
    · obtain rfl : data = data' := Option.some.inj (hsource.symm.trans hdata')
      rw [hcount, hlen]

/-! ### The clusters of the copy -/

/-- When `cp` is done with its write, three clusters are gone. -/
def CopyUses (w₀ : ShellWorld) : MovePhase → ShellWorld → Prop
  | .copied _, w => availableSize w₀.fs.clusterMap = availableSize w.fs.clusterMap + 3
  | _, _ => True

theorem CopyUses.of_clusterMap (h : CopyUses w₀ g w) (hsame : w'.fs.clusterMap = w.fs.clusterMap) :
    CopyUses w₀ g w' := by
  cases g with
  | copied mem =>
      show _ = availableSize w'.fs.clusterMap + 3
      rw [hsame]
      exact h
  | start => trivial
  | unreadable => trivial
  | loaded mem => trivial
  | refused => trivial
  | moved => trivial

/-- The write takes them. -/
theorem copyUses_write (hs : Tidy w.fs) (hk : k.Below w.fs.volume)
    (hserve : serve others (.fs (writeRequest k mem)) w = .ok (reply, w'))
    (hret : reply.retcode = 0) :
    availableSize w.fs.clusterMap = availableSize w'.fs.clusterMap + 3 := by
  have hdir : w.fs.volume.Directory (writeRequest k mem).request.parentClusterNumber := hk.directory
  obtain ⟨r, hr, hcode⟩ := write_files mem hs.wellFormed.toIntact hs.uniqueFiles hdir
    fileBufferSize_ne_zero hk.ext
  obtain ⟨reply', w₁, hserve', -, -, hcase⟩ := serve_write others mem hs hk
  have hexec : (writeRequest k mem).exec w.fs = .ok r := hr
  rw [serve_fs hexec] at hserve hserve'
  cases hserve
  cases hserve'
  have hzero : r.ret = 0 := by
    have hbyte : BitVec.ofInt 8 r.ret = 0 := hret
    rcases hcode with ⟨hret', -⟩ | ⟨hret', -⟩ | ⟨hret', -⟩
    · exact hret'
    · rw [hret'] at hbyte
      exact absurd hbyte (by decide)
    · rw [hret'] at hbyte
      exact absurd hbyte (by decide)
  obtain ⟨i, l, halloc⟩ := write_allocated hs.wellFormed.toIntact hdir fileBufferSize_ne_zero hr hzero
  have h0 : w.fs.clusterMap 0 ≠ fat32FatEmptyEntry := by
    have hfat : w.fs.volume.fat 0#32 = cluster0Value := hs.wellFormed.toIntact.fat_zero
    have hview : w.fs.volume.fat 0#32 = w.fs.clusterMap 0 := view_clusterOf w.fs.clusterMap 0
    rw [← hview, hfat]
    decide
  have hthree : clusterCount (writeRequest k mem).request.bufferSize = 3 := by
    show clusterCount fileBufferSize = 3
    decide
  rw [halloc.availableSize_eq h0, halloc.count, hthree]

theorem copyUses_kept (hs : Tidy w₀.fs) (hplace : w₀.fs.volume.Directory place.workingDirectory)
    (hstate : MoveState w₀ stack line place g w) (huses : CopyUses w₀ g w)
    (hcall : MoveCall w₀.fs.volume stack behind line place g call)
    (hserve : serve others call w = .ok (reply, w')) : CopyUses w₀ (g.next call reply) w' := by
  cases hcall with
  | look hd name =>
      obtain ⟨htidy, hfolders⟩ := hstate.tidy hs
      obtain ⟨reply', w₁, hserve', -, hsame, -⟩ := serve_look others htidy hfolders hd name
      cases hserve.symm.trans hserve'
      rw [next_look]
      exact huses.of_clusterMap hsame.clusterMap
  | read =>
      rw [next_read]
      split_ifs
      · trivial
      · trivial
  | write hk =>
      obtain ⟨htidy, hfolders⟩ := hstate.tidy hs
      have hbelow := moveTarget_below hs.wellFormed.toIntact hplace hk
      rw [next_write]
      split_ifs with hret
      · show availableSize w₀.fs.clusterMap = _
        rw [← hstate.1.clusterMap]
        exact copyUses_write htidy (hbelow.of_folders hfolders) hserve hret
      · trivial
  | delete => trivial
  | say =>
      cases hserve
      rw [next_text]
      exact huses.of_clusterMap rfl
  | success => trivial
  | kept =>
      cases hserve
      exact huses.of_clusterMap rfl

/-- Where `cp` returns 0 it made a copy, with three clusters. -/
theorem cp_copies
    (others : ShellCall → ShellWorld → Except ShellFault (ShellReply × ShellWorld))
    (hs : Tidy w.fs) (hu : w.fs.volume.UniqueFolderTexts)
    (hplace : w.fs.volume.Directory place.workingDirectory) (hno : ¬ line.NoArguments 2)
    (hrun : (cp stack line place).run (serve others) w = .ok ((0, place'), w')) :
    ∃ m data, w.fs.volume.Plans stack line place m ∧ Staged w m data false w' ∧
      availableSize w.fs.clusterMap = availableSize w'.fs.clusterMap + 3 := by
  -- `cp` makes the calls of a move up to the deletion, whatever that finds
  have hsys : Upholds (serve others) (moveProtocol w.fs.volume stack [] line place) fun g w' =>
      MoveState w stack line place g w' ∧ CopyUses w g w' :=
    (moveState_upholds others [] hs hplace).and fun hstate huses hcall hserve =>
      copyUses_kept hs hplace hstate huses hcall hserve
  have hstart : MoveState w stack line place .start w ∧ CopyUses w .start w :=
    ⟨SameDisk.rfl, trivial⟩
  obtain ⟨g, ⟨-, hends⟩, hstate, huses⟩ :=
    (cp_follows hs.wellFormed.toIntact hu hplace hno).of_run hsys hstart hrun
  rcases hends with ⟨-, ⟨mem, rfl⟩, -⟩ | ⟨hne, -⟩
  · obtain ⟨m, data, hplan, hstaged⟩ := hstate
    exact ⟨m, data, hplan, hstaged, huses⟩
  · exact absurd rfl hne

/-- **When a copy is faithful.**  For every line and every working directory: where `cp`
returns 0 it made a copy, and that is faithful exactly if the source occupies three
clusters. -/
theorem cp_faithful_iff
    (others : ShellCall → ShellWorld → Except ShellFault (ShellReply × ShellWorld))
    (hs : Tidy w.fs) (hu : w.fs.volume.UniqueFolderTexts)
    (hplace : w.fs.volume.Directory place.workingDirectory) (hno : ¬ line.NoArguments 2)
    (hrun : (cp stack line place).run (serve others) w = .ok ((0, place'), w')) :
    ∃ m data, w.fs.volume.Plans stack line place m ∧ w.fs.volume.files m.src = some data ∧
      (CopiesFaithfully w.fs w'.fs m ↔ data.length = 3) := by
  obtain ⟨m, data, hplan, hstaged, hcount⟩ := cp_copies others hs hu hplace hno hrun
  exact ⟨m, data, hplan, hstaged.copies.source, hstaged.faithful_iff hs hcount⟩

/-! ### A copy in the folder -/

def cpLine : CommandLine := lineOf ['c', 'p', ' ', 'b', '.', 't', ' ', 'c', '.', 't']

theorem cpLine_source (v : Volume) : v.moveSource cleanStack.copy cpLine folderPlace =
    .ok (some textKey) := by
  have hargs : cpLine.moveArgs = .ok (some ⟨[], buffer 8 [ascii 'b'], buffer 3 [ascii 't'], [],
      buffer 8 [ascii 'c'], [ascii 't']⟩) := by rfl
  rw [Volume.moveSource, hargs]
  rfl

/-- `cp b.t c.t` returns 0 where `b.t` is a cluster of letters. -/
theorem cpLine_returns : ∃ place' w', (cp cleanStack.copy cpLine folderPlace).run (serve noProcesses)
    (textWorld fun _ => ascii 'a') = .ok ((0, place'), w') := by
  have hcode : ((cp cleanStack.copy cpLine folderPlace).run (serve noProcesses)
      (textWorld fun _ => ascii 'a')).toOption.map (fun r => r.1.1) = some 0 := by decide +kernel
  obtain ⟨⟨⟨code, place'⟩, w'⟩, hrun, rfl⟩ := exists_ok_of_toOption hcode
  exact ⟨place', w', hrun⟩

theorem textWorld_uniqueFolderTexts (hf : SameFolders oneFolder.volume (textWorld mem).fs.volume) :
    (textWorld mem).fs.volume.UniqueFolderTexts :=
  hf.uniqueFolderTexts (oneFolder_shortNames.uniqueFolderTexts oneFolder_uniqueFolders)

/-- A copy of one cluster. -/
theorem cp_faithful_letters : ∃ place' w',
    (cp cleanStack.copy cpLine folderPlace).run (serve noProcesses) (textWorld fun _ => ascii 'a') =
        .ok ((0, place'), w') ∧
      ∃ m data, (textWorld fun _ => ascii 'a').fs.volume.Plans cleanStack.copy cpLine folderPlace m ∧
        (textWorld fun _ => ascii 'a').fs.volume.files m.src = some data ∧
        (CopiesFaithfully (textWorld fun _ => ascii 'a').fs w'.fs m ↔ data.length = 3) := by
  obtain ⟨htidy, hfolders, -⟩ := textWorld_file (fun _ => ascii 'a') (by decide +kernel)
  obtain ⟨place', w', hrun⟩ := cpLine_returns
  exact ⟨place', w', hrun, cp_faithful_iff noProcesses htidy (textWorld_uniqueFolderTexts hfolders)
    (hfolders.directory.mpr oneFolder_directory) (by decide) hrun⟩

/-- The copy of one cluster is not faithful. -/
theorem cp_not_faithful : Tidy (textWorld fun _ => ascii 'a').fs ∧ ∃ place' w' m,
    (cp cleanStack.copy cpLine folderPlace).run (serve noProcesses) (textWorld fun _ => ascii 'a') =
        .ok ((0, place'), w') ∧
      (textWorld fun _ => ascii 'a').fs.volume.Plans cleanStack.copy cpLine folderPlace m ∧
      ¬ CopiesFaithfully (textWorld fun _ => ascii 'a').fs w'.fs m := by
  obtain ⟨htidy, hfolders, hfile⟩ := textWorld_file (fun _ => ascii 'a') (by decide +kernel)
  obtain ⟨place', w', hrun⟩ := cpLine_returns
  obtain ⟨m, data, hplan, hstaged, hcount⟩ := cp_copies noProcesses htidy
    (textWorld_uniqueFolderTexts hfolders) (hfolders.directory.mpr oneFolder_directory)
    (by decide) hrun
  refine ⟨htidy, place', w', m, hrun, hplan, fun hfaithful => ?_⟩
  have hlen := (hstaged.faithful_iff htidy hcount).mp hfaithful
  have hsrc : m.src = textKey :=
    Option.some.inj (Except.ok.inj (hplan.source.symm.trans (cpLine_source _)))
  have hdata := hstaged.copies.source
  rw [hsrc, hfile] at hdata
  rw [← Option.some.inj hdata, length_loads] at hlen
  exact absurd hlen (by decide)

end Binbows
