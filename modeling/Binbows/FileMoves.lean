/-
Binbows/FileMoves.lean

What `mv` does to the files.

The file system answers the calls of a move as the map of its files says: `read` looks
the source up, `write` puts a copy under the target where that is free, `delete` takes
the source out (`serve_read`, `serve_write`, `serve_delete`).  A buffer of three clusters
goes with them; the copy begins with the source and has what stood behind it in the
buffer (`copyOf`).

`MoveState` says where the files are in each phase of a move that has the file system
for itself.  Every call leads from the state of its phase to that of the next
(`moveState_upholds`), so that the phase in which a move ends tells what it did.

Main result: `mv_moves_or_keeps`.  A move moves one file, or it does nothing.
-/
import Binbows.Library.Moves
import Binbows.MovePlan
import Binbows.UsualPaths

namespace Binbows

open Chain SlotTree Bytes Volume Run Calls Moves

variable {others : ShellCall → ShellWorld → Except ShellFault (ShellReply × ShellWorld)}
  {w w' w₀ : ShellWorld} {v : Volume} {d c : BitVec 32} {name : EntryName} {k : FileKey}
  {mem : Memory} {data : List ClusterBuffer}

/-! ### Return codes -/

/-- The codes of the driver fit into a byte. -/
theorem ofInt_eq_zero_iff {x : Int} (hlow : -1 ≤ x) (hhigh : x ≤ 3) :
    BitVec.ofInt 8 x = 0 ↔ x = 0 := by
  obtain rfl | rfl | rfl | rfl | rfl : x = -1 ∨ x = 0 ∨ x = 1 ∨ x = 2 ∨ x = 3 := by omega
  all_goals decide

variable {request : FAT32DriverRequest} {s : FsState} {r : Reply}

theorem read_ret_range (h : read request mem s = .ok r) : -1 ≤ r.ret ∧ r.ret ≤ 3 := by
  rw [read_eq] at h
  rcases parentCheck_eq_ok h with h | ⟨-, -, h⟩
  · cases h
    simp
  · cases hm : readMatch request (s.volume.table request.parentClusterNumber) with
    | none =>
        rw [hm] at h
        cases h
        dsimp only [readMissing]
        split_ifs
        all_goals decide
    | some i =>
        rw [hm] at h
        dsimp only [readFound] at h
        split_ifs at h with hsize
        · cases h
          simp
        · split at h
          · cases h
          · cases h
            simp

/-! ### The calls on the map of the files -/

theorem fileBufferSize_ne_zero : fileBufferSize ≠ 0 := by decide

/-- `cp` has room for the file. -/
def Fits (data : List ClusterBuffer) : Prop :=
  data.length * clusterSize ≤ fileBufferSize.toNat

/-- The buffer of `cp` with a file in it. -/
def bufferOf (data : List ClusterBuffer) : Memory := zeroMemory.storeAll stackBuffer data

/-- What `cp` writes: the whole buffer. -/
def copyOf (data : List ClusterBuffer) : List ClusterBuffer :=
  loads (bufferOf data) stackBuffer (neededSize fileBufferSize)

/-- The copy begins with the file. -/
theorem prefix_copyOf (h : Fits data) : data <+: copyOf data := by
  apply prefix_loads
  · unfold Fits fileBufferSize clusterSize at h
    have hthree : neededSize fileBufferSize = 3 := by decide
    rw [hthree]
    have hsize : (6144 : BitVec 32).toNat = 6144 := rfl
    omega
  · decide

/-- A request prints nothing. -/
theorem serve_output {call : FsCall} {reply : ShellReply}
    (h : serve others (.fs call) w = .ok (reply, w')) : w'.output = w.output := by
  rw [serve] at h
  split at h
  · cases h
  · cases h
    rfl

/-- The answer to a request for a table, by the directory that is found. -/
def ShowsTable (v : Volume) (reply : ShellReply) : Option (BitVec 32) → Prop
  | none => reply.retcode ≠ 0
  | some c => reply.retcode = 0 ∧
      FAT32DirectoryTable.ofCluster (reply.mem.load stackBuffer) = v.table c

/-- A table is shown as it is. -/
theorem serve_table
    (others : ShellCall → ShellWorld → Except ShellFault (ShellReply × ShellWorld))
    (hv : w.fs.volume.Intact) (hd : w.fs.volume.Directory d) (name : EntryName) :
    ∃ reply w', serve others (.fs (tableRequest name d)) w = .ok (reply, w') ∧
      ShowsTable w.fs.volume reply (w.fs.volume.folderNamed d name) ∧ SameDisk w.fs w'.fs ∧
      w'.output = w.output := by
  have hexec : (tableRequest name d).exec w.fs =
      .ok (readFolder (tableRequest name d).request zeroMemory (w.fs.readDirTable d)) := by
    show readDirectory ⟨stackBuffer, name, 0, d, BitVec.ofNat 32 clusterSize⟩ _ _ = _
    rw [readDirectory_eq, if_neg (not_not.mpr rfl)]
    exact parentCheck_directory hv hd
  rw [Volume.folderNamed]
  -- the table of the folder is copied, and without the folder a code that is not zero
  cases hslot : (w.fs.volume.table d).namedSlot name with
  | some i =>
      have hfolder : readFolder (tableRequest name d).request zeroMemory (w.fs.readDirTable d) = _ :=
        readFolder_some hslot
      rw [hfolder] at hexec
      exact ⟨_, _, serve_fs hexec, ⟨rfl, congrArg FAT32DirectoryTable.ofCluster
        (Memory.load_store zeroMemory stackBuffer
          (w.fs.volume.content (w.fs.volume.table d i).cluster))⟩, ⟨rfl, rfl⟩, rfl⟩
  | none =>
      obtain ⟨hfs, -⟩ := readFolder_fs (tableRequest name d).request zeroMemory (w.fs.readDirTable d)
      refine ⟨_, _, serve_fs hexec, ?_, ?_, rfl⟩
      · have hret := readFolder_ret (tableRequest name d).request zeroMemory (w.fs.readDirTable d)
        have hno : (w.fs.readDirTable d).dirTableBuf.namedSlot (tableRequest name d).request.name =
            none := hslot
        -- the code is not zero
        rw [hno, if_neg (by simp)] at hret
        show BitVec.ofInt 8 _ ≠ 0
        rw [hret]
        split_ifs
        all_goals decide
      · show SameDisk w.fs (readFolder _ _ _).fs
        rw [hfs]
        exact ⟨rfl, rfl⟩

/-- A table is shown with its folders. -/
theorem serve_look
    (others : ShellCall → ShellWorld → Except ShellFault (ShellReply × ShellWorld))
    (hs : Tidy w.fs) (hf : SameFolders v w.fs.volume) (hd : v.Directory d) (name : EntryName) :
    ∃ reply w', serve others (.fs (tableRequest name d)) w = .ok (reply, w') ∧
      ShowsFolder v d name reply ∧ SameDisk w.fs w'.fs ∧ w'.output = w.output := by
  have hv := hs.wellFormed.toIntact
  have hd' := hf.directory.mpr hd
  have hnamed : w.fs.volume.folderNamed d name = v.folderNamed d name := folderNamed_congr hf hd
  obtain ⟨reply, w', hserve, hshows, hsame, hout⟩ := serve_table others hv hd' name
  refine ⟨reply, w', hserve, ?_, hsame, hout⟩
  cases hc : w.fs.volume.folderNamed d name with
  | none =>
      rw [hc] at hshows
      exact .inl ⟨hshows, hnamed.symm.trans hc⟩
  | some c =>
      rw [hc] at hshows
      obtain ⟨hret, htable⟩ := hshows
      have hchild := hf.directory.mp (folderNamed_directory hv hd' hc)
      exact .inr ⟨hret, c, hnamed.symm.trans hc, htable ▸ hf.table hchild⟩

/-- `read` looks the file up. -/
theorem serve_read
    (others : ShellCall → ShellWorld → Except ShellFault (ShellReply × ShellWorld))
    (hs : Tidy w.fs) (hk : w.fs.volume.Directory k.dir) :
    ∃ reply w', serve others (.fs (readRequest k)) w = .ok (reply, w') ∧
      SameDisk w.fs w'.fs ∧ w'.output = w.output ∧
      ((reply.retcode = 0 ∧ ∃ data, w.fs.volume.files k = some data ∧ Fits data ∧
          reply.mem = bufferOf data) ∨
        (reply.retcode ≠ 0 ∧ Unreadable Fits w.fs.volume.files k)) := by
  have hdir : w.fs.volume.Directory (readRequest k).request.parentClusterNumber := hk
  obtain ⟨r, hr, hsame, hcase⟩ := read_files zeroMemory hs.wellFormed.toIntact hs.uniqueFiles hdir
  obtain ⟨hlow, hhigh⟩ := read_ret_range hr
  refine ⟨_, _, serve_fs hr, hsame, rfl, ?_⟩
  rcases hcase with ⟨hret, data, hdata, hsize, hmem⟩ | ⟨hret, hno⟩
  · exact .inl ⟨(ofInt_eq_zero_iff hlow hhigh).mpr hret, data, hdata, hsize, hmem⟩
  · refine .inr ⟨fun hzero => hret ((ofInt_eq_zero_iff hlow hhigh).mp hzero), ?_⟩
    exact fun data hdata hfits => not_lt.mpr hfits (hno data hdata)

/-- `write` puts a file where there is none. -/
theorem serve_write
    (others : ShellCall → ShellWorld → Except ShellFault (ShellReply × ShellWorld)) (mem : Memory)
    (hs : Tidy w.fs) (hk : k.Below w.fs.volume) :
    ∃ reply w', serve others (.fs (writeRequest k mem)) w = .ok (reply, w') ∧
      Tidy w'.fs ∧ w'.output = w.output ∧
      ((reply.retcode = 0 ∧ w.fs.volume.files k = none ∧ HasRoom w.fs k.dir fileBufferSize ∧
          SetsFile w.fs w'.fs k (some (loads mem stackBuffer (neededSize fileBufferSize)))) ∨
        (reply.retcode ≠ 0 ∧ SameDisk w.fs w'.fs ∧
          (w.fs.volume.files k ≠ none ∨ ¬ HasRoom w.fs k.dir fileBufferSize))) := by
  have hdir : w.fs.volume.Directory (writeRequest k mem).request.parentClusterNumber := hk.directory
  obtain ⟨r, hr, hcase⟩ := write_files mem hs.wellFormed.toIntact hs.uniqueFiles hdir
    fileBufferSize_ne_zero hk.ext
  have htidy : Tidy r.fs :=
    exec_tidy (c := writeRequest k mem) hs ⟨hk.directory, fun h => by cases h⟩ hr
  refine ⟨_, _, serve_fs hr, htidy, rfl, ?_⟩
  rcases hcase with ⟨hret, hnone, hroom, hsets⟩ | ⟨hret, hsame, htaken⟩ | ⟨hret, hsame, hfull⟩
  · refine .inl ⟨?_, hnone, hroom, hsets⟩
    rw [hret]
    rfl
  · refine .inr ⟨?_, hsame, .inl htaken⟩
    rw [hret]
    show BitVec.ofInt 8 1 ≠ 0
    decide
  · refine .inr ⟨?_, hsame, .inr hfull⟩
    rw [hret]
    show BitVec.ofInt 8 (-1) ≠ 0
    decide

/-- `delete` takes the file out, if there is one. -/
theorem serve_delete
    (others : ShellCall → ShellWorld → Except ShellFault (ShellReply × ShellWorld))
    (hs : Tidy w.fs) (hk : k.Below w.fs.volume) :
    ∃ reply w', serve others (.fs (deleteRequest k)) w = .ok (reply, w') ∧
      Tidy w'.fs ∧ w'.output = w.output ∧ SetsFile w.fs w'.fs k none ∧
      ∀ q bufferSize, w.fs.volume.Directory q → HasRoom w.fs q bufferSize →
        HasRoom w'.fs q bufferSize := by
  have hdir : w.fs.volume.Directory (deleteRequest k).request.parentClusterNumber := hk.directory
  obtain ⟨r, hr, hsets, hroom⟩ := delete_files zeroMemory hs.wellFormed.toIntact hs.uniqueFiles hdir
    hk.ext
  have hkeeps : KeepsFolders w.fs (deleteRequest k) :=
    keepsFolders_delete zeroMemory hs.wellFormed.toIntact hk.directory hk.ext
  exact ⟨_, _, serve_fs hr, exec_tidy hs (hkeeps.careful hs.wellFormed) hr, rfl, hsets, hroom⟩

/-! ### The state of a move -/

variable {stack : CopyStack} {behind : List Byte} {line : CommandLine} {place : Place}
  {m : Move FileKey} {g : MovePhase} {gone : Bool}

/-- The line moves the file `m.src` to `m.dst`. -/
structure Volume.Plans (v : Volume) (stack : CopyStack) (line : CommandLine) (place : Place)
    (m : Move FileKey) : Prop where
  source : v.moveSource stack line place = .ok (some m.src)
  target : v.moveTarget stack line place = .ok (some m.dst)

/-- The copy was made, and the source may be gone. -/
structure Staged (w₀ : ShellWorld) (m : Move FileKey) (data : List ClusterBuffer) (gone : Bool)
    (w : ShellWorld) : Prop where
  copies : m.Copies Fits w₀.fs.volume.files data
  room : HasRoom w₀.fs m.dst.dir fileBufferSize
  files : w.fs.volume.files = m.stage w₀.fs.volume.files (copyOf data) gone
  folders : SameFolders w₀.fs.volume w.fs.volume
  tidy : Tidy w.fs

/-- Where the files are in a phase of a move that began at `w₀`. -/
def MoveState (w₀ : ShellWorld) (stack : CopyStack) (line : CommandLine) (place : Place) :
    MovePhase → ShellWorld → Prop
  | .start, w => SameDisk w₀.fs w.fs
  | .unreadable, w => SameDisk w₀.fs w.fs ∧ ∃ k,
      w₀.fs.volume.moveSource stack line place = .ok (some k) ∧ Unreadable Fits w₀.fs.volume.files k
  | .loaded mem, w => SameDisk w₀.fs w.fs ∧ ∃ k data,
      w₀.fs.volume.moveSource stack line place = .ok (some k) ∧
        w₀.fs.volume.files k = some data ∧ Fits data ∧ mem = bufferOf data
  | .refused, w => SameDisk w₀.fs w.fs ∧ ∃ m, w₀.fs.volume.Plans stack line place m ∧
      (w₀.fs.volume.files m.dst ≠ none ∨ ¬ HasRoom w₀.fs m.dst.dir fileBufferSize)
  | .copied _, w => ∃ m data, w₀.fs.volume.Plans stack line place m ∧ Staged w₀ m data false w
  | .moved, w => ∃ m data, w₀.fs.volume.Plans stack line place m ∧ Staged w₀ m data true w

theorem SameDisk.trans {s₁ s₂ s₃ : FsState} (h : SameDisk s₁ s₂) (h' : SameDisk s₂ s₃) :
    SameDisk s₁ s₃ where
  clusterMap := h'.clusterMap.trans h.clusterMap
  disk := h'.disk.trans h.disk

theorem SameDisk.sameFolders {s₁ s₂ : FsState} (h : SameDisk s₁ s₂) :
    SameFolders s₁.volume s₂.volume := by
  rw [h.volume_eq]
  exact .refl _

theorem Staged.of_sameDisk (h : Staged w₀ m data gone w) (hsame : SameDisk w.fs w'.fs) :
    Staged w₀ m data gone w' where
  copies := h.copies
  room := h.room
  files := by rw [hsame.volume_eq, h.files]
  folders := h.folders.trans hsame.sameFolders
  tidy := hsame.tidy h.tidy

/-- A call that changes nothing leaves the state of the phase. -/
theorem MoveState.of_sameDisk (h : MoveState w₀ stack line place g w) (hsame : SameDisk w.fs w'.fs) :
    MoveState w₀ stack line place g w' := by
  cases g with
  | start => exact SameDisk.trans h hsame
  | unreadable => exact ⟨h.1.trans hsame, h.2⟩
  | loaded mem => exact ⟨h.1.trans hsame, h.2⟩
  | refused => exact ⟨h.1.trans hsame, h.2⟩
  | copied mem =>
      obtain ⟨m, data, hplan, hstaged⟩ := h
      exact ⟨m, data, hplan, hstaged.of_sameDisk hsame⟩
  | moved =>
      obtain ⟨m, data, hplan, hstaged⟩ := h
      exact ⟨m, data, hplan, hstaged.of_sameDisk hsame⟩

/-- In every phase the file system is tidy, with the folders that it had. -/
theorem MoveState.tidy (h : MoveState w₀ stack line place g w) (hs : Tidy w₀.fs) :
    Tidy w.fs ∧ SameFolders w₀.fs.volume w.fs.volume := by
  have hsame : SameDisk w₀.fs w.fs → Tidy w.fs ∧ SameFolders w₀.fs.volume w.fs.volume :=
    fun h => ⟨h.tidy hs, h.sameFolders⟩
  cases g with
  | start => exact hsame h
  | unreadable => exact hsame h.1
  | loaded mem => exact hsame h.1
  | refused => exact hsame h.1
  | copied mem =>
      obtain ⟨m, data, -, hstaged⟩ := h
      exact ⟨hstaged.tidy, hstaged.folders⟩
  | moved =>
      obtain ⟨m, data, -, hstaged⟩ := h
      exact ⟨hstaged.tidy, hstaged.folders⟩

theorem FileKey.Below.of_folders {v' : Volume} (hk : k.Below v) (hf : SameFolders v v') :
    k.Below v' :=
  ⟨hf.directory.mpr hk.directory, hk.ext⟩

/-- The messages so far: a move says that it is done when it is. -/
def SaysMoved (w₀ : ShellWorld) (g : MovePhase) (w : ShellWorld) : Prop :=
  ∃ printed, w.output = w₀.output ++ printed ∧ (moveSuccess ∈ printed → g = .moved)

/-! ### One call -/

theorem moveState_read (hs : Tidy w₀.fs) (hplace : w₀.fs.volume.Directory place.workingDirectory)
    (h : MoveState w₀ stack line place .start w)
    (hk : w₀.fs.volume.moveSource stack line place = .ok (some k)) :
    ∃ reply w', serve others (.fs (readRequest k)) w = .ok (reply, w') ∧
      MoveState w₀ stack line place (MovePhase.start.next (.fs (readRequest k)) reply) w' := by
  have hbelow := moveSource_below hs.wellFormed.toIntact hplace hk
  obtain ⟨htidy, hfolders⟩ := h.tidy hs
  obtain ⟨reply, w', hserve, hsame, -, hcase⟩ :=
    serve_read others htidy (hbelow.of_folders hfolders).directory
  have hdisk : SameDisk w₀.fs w'.fs := SameDisk.trans h hsame
  refine ⟨reply, w', hserve, ?_⟩
  rw [SameDisk.volume_eq h] at hcase
  rw [next_read]
  rcases hcase with ⟨hret, data, hdata, hfits, hmem⟩ | ⟨hret, hno⟩
  · rw [if_pos hret]
    exact ⟨hdisk, k, data, hk, hdata, hfits, hmem⟩
  · rw [if_neg hret]
    exact ⟨hdisk, k, hk, hno⟩

theorem moveState_write (hs : Tidy w₀.fs) (hplace : w₀.fs.volume.Directory place.workingDirectory)
    (h : MoveState w₀ stack line place (.loaded mem) w)
    (hk : w₀.fs.volume.moveTarget stack line place = .ok (some k)) :
    ∃ reply w', serve others (.fs (writeRequest k mem)) w = .ok (reply, w') ∧
      MoveState w₀ stack line place
        ((MovePhase.loaded mem).next (.fs (writeRequest k mem)) reply) w' := by
  have hbelow := moveTarget_below hs.wellFormed.toIntact hplace hk
  obtain ⟨htidy, hfolders⟩ := h.tidy hs
  obtain ⟨hdisk, src, data, hsrc, hdata, hfits, rfl⟩ := h
  obtain ⟨reply, w', hserve, htidy', -, hcase⟩ :=
    serve_write others _ htidy (hbelow.of_folders hfolders)
  have hplan : w₀.fs.volume.Plans stack line place ⟨src, k⟩ := ⟨hsrc, hk⟩
  refine ⟨reply, w', hserve, ?_⟩
  rw [next_write]
  -- the copy is made, or the destination is taken or has no room
  rcases hcase with ⟨hret, hnone, hroom, hsets⟩ | ⟨hret, hsame, hfail⟩
  · rw [if_pos hret]
    -- the disk is still the one of the start, so the destination was free then
    have hfresh : w₀.fs.volume.files k = none := by rwa [← hdisk.volume_eq]
    refine ⟨⟨src, k⟩, data, hplan, ⟨hdata, hfits, hfresh⟩, ?_, ?_, ?_, htidy'⟩
    · unfold HasRoom at hroom ⊢
      rwa [hdisk.volume_eq, hdisk.clusterMap] at hroom
    · rw [hsets.files, hdisk.volume_eq]
      rfl
    · exact hdisk.sameFolders.trans hsets.folders
  · rw [if_neg hret]
    refine ⟨hdisk.trans hsame, ⟨src, k⟩, hplan, ?_⟩
    refine hfail.imp (fun htaken => ?_) fun hfull hroom => hfull (hdisk.hasRoom hroom)
    rwa [hdisk.volume_eq] at htaken

theorem moveState_delete (hs : Tidy w₀.fs)
    (hplace : w₀.fs.volume.Directory place.workingDirectory)
    (h : MoveState w₀ stack line place (.copied mem) w)
    (hk : w₀.fs.volume.moveSource stack line place = .ok (some k)) :
    ∃ reply w', serve others (.fs (deleteRequest k)) w = .ok (reply, w') ∧
      MoveState w₀ stack line place .moved w' := by
  have hbelow := moveSource_below hs.wellFormed.toIntact hplace hk
  obtain ⟨m, data, hplan, hstaged⟩ := h
  obtain rfl : k = m.src := Option.some.inj (Except.ok.inj (hk.symm.trans hplan.source))
  obtain ⟨reply, w', hserve, htidy', -, hsets, -⟩ :=
    serve_delete others hstaged.tidy (hbelow.of_folders hstaged.folders)
  refine ⟨reply, w', hserve, m, data, hplan, hstaged.copies, hstaged.room, ?_, ?_, htidy'⟩
  · rw [hsets.files, hstaged.files]
    rfl
  · exact hstaged.folders.trans hsets.folders

/-- What a move has to itself keeps its side of the protocol. -/
theorem moveState_upholds
    (others : ShellCall → ShellWorld → Except ShellFault (ShellReply × ShellWorld))
    (behind : List Byte) (hs : Tidy w₀.fs)
    (hplace : w₀.fs.volume.Directory place.workingDirectory) :
    Upholds (serve others) (moveProtocol w₀.fs.volume stack behind line place)
      (MoveState w₀ stack line place) := by
  rintro g call w hstate hcall
  -- by the call: the phase says what has become of the file
  cases hcall with
  | look hd name =>
      obtain ⟨htidy, hfolders⟩ := hstate.tidy hs
      obtain ⟨reply, w', hserve, hshows, hsame, -⟩ := serve_look others htidy hfolders hd name
      refine ⟨reply, w', hserve, valid_look hshows, ?_⟩
      show MoveState w₀ stack line place (g.next _ reply) w'
      rw [next_look]
      exact hstate.of_sameDisk hsame
  | read hk =>
      obtain ⟨reply, w', hserve, hstate'⟩ := moveState_read hs hplace hstate hk
      exact ⟨reply, w', hserve, valid_of_op nofun, hstate'⟩
  | write hk =>
      obtain ⟨reply, w', hserve, hstate'⟩ := moveState_write hs hplace hstate hk
      exact ⟨reply, w', hserve, valid_of_op nofun, hstate'⟩
  | delete hk =>
      obtain ⟨reply, w', hserve, hstate'⟩ := moveState_delete hs hplace hstate hk
      exact ⟨reply, w', hserve, valid_of_op nofun, hstate'⟩
  | say =>
      refine ⟨_, _, rfl, valid_text, ?_⟩
      show MoveState w₀ stack line place (g.next _ _) _
      rw [next_text]
      exact hstate.of_sameDisk .rfl
  | success => exact ⟨_, _, rfl, valid_text, hstate.of_sameDisk .rfl⟩
  | kept => exact ⟨_, _, rfl, valid_text, hstate.of_sameDisk .rfl⟩

/-- Where `rm` finds what `cp` has read, the message of success is said when the file has
moved. -/
theorem saysMoved_call {call : ShellCall} {reply : ShellReply}
    (hfinds : ∀ k, w₀.fs.volume.moveSource stack line place = .ok (some k) →
      w₀.fs.volume.removeTarget behind line place = .ok (some k))
    (hstate : MoveState w₀ stack line place g w) (hmessages : SaysMoved w₀ g w)
    (hcall : MoveCall w₀.fs.volume stack behind line place g call)
    (hserve : serve others call w = .ok (reply, w')) : SaysMoved w₀ (g.next call reply) w' := by
  obtain ⟨printed, hprinted, htold⟩ := hmessages
  -- a request prints nothing
  have hquiet : w'.output = w.output → SaysMoved w₀ (g.next call reply) w' := by
    intro hout
    refine ⟨printed, hout.trans hprinted, fun hmem => ?_⟩
    rw [htold hmem]
    rfl
  cases hcall with
  | look => exact hquiet (serve_output hserve)
  | read => exact hquiet (serve_output hserve)
  | write => exact hquiet (serve_output hserve)
  | delete => exact hquiet (serve_output hserve)
  | @say _ call hne =>
      cases hserve
      refine ⟨printed ++ [call], ?_, fun hmem => ?_⟩
      · rw [hprinted, List.append_assoc]
      · rw [next_text]
        rcases List.mem_append.mp hmem with hmem | hmem
        · exact htold hmem
        · exact absurd (List.mem_singleton.mp hmem).symm hne
  -- only this call is the message of success
  | success =>
      cases hserve
      refine ⟨printed ++ [moveSuccess], ?_, fun _ => rfl⟩
      rw [hprinted, List.append_assoc]
  | kept hnone =>
      obtain ⟨m, data, hplan, -⟩ := hstate
      cases hnone.symm.trans (hfinds _ hplan.source)

/-! ### A whole move -/

/-- The names of folders are texts of at most seven bytes. -/
def Volume.ShortNames (v : Volume) : Prop :=
  ∀ ⦃d i⦄, v.Directory d → v.SubdirEntry d i →
    strlen (v.table d i).name ≤ 7 ∧ (v.table d i).name = buffer 8 (string (v.table d i).name)

theorem Volume.ShortNames.uniqueFolderTexts (hn : v.ShortNames) (hu : v.UniqueFolders) :
    v.UniqueFolderTexts := by
  intro d i j hd hi hj htext
  apply hu hd hi hj
  rw [(hn hd hi).2, (hn hd hj).2, htext]

theorem Volume.ShortNames.namesEnd (hn : v.ShortNames) : v.NamesEnd :=
  fun _ _ hd hi => Nat.lt_succ_of_le (hn hd hi).1

/-- A folder of one volume is one of the other. -/
theorem SameFolders.subdirEntry {v' : Volume} {i : Fin directoryEntryCount} (hf : SameFolders v v')
    (hd : v'.Directory d) (hi : v'.SubdirEntry d i) :
    v.Directory d ∧ v.SubdirEntry d i ∧ v'.table d i = v.table d i := by
  have hd' := hf.directory.mp hd
  have hentry := hf.table hd' i (.inr ⟨hi.2.1, hi.2.2⟩)
  rw [Volume.SubdirEntry, hentry] at hi
  exact ⟨hd', hi, hentry⟩

theorem SameFolders.uniqueFolderTexts {v' : Volume} (hf : SameFolders v v')
    (hu : v.UniqueFolderTexts) : v'.UniqueFolderTexts := by
  intro d i j hd hi hj htext
  obtain ⟨hd', hi', hti⟩ := hf.subdirEntry hd hi
  obtain ⟨-, hj', htj⟩ := hf.subdirEntry hd hj
  rw [hti, htj] at htext
  exact hu hd' hi' hj' htext

theorem SameFolders.uniqueFolders {v' : Volume} (hf : SameFolders v v') (hu : v.UniqueFolders) :
    v'.UniqueFolders := by
  intro d i j hd hi hj hname
  obtain ⟨hd', hi', hti⟩ := hf.subdirEntry hd hi
  obtain ⟨-, hj', htj⟩ := hf.subdirEntry hd hj
  rw [hti, htj] at hname
  exact hu hd' hi' hj' hname

theorem SameFolders.shortNames {v' : Volume} (hf : SameFolders v v') (hn : v.ShortNames) :
    v'.ShortNames := by
  intro d i hd hi
  obtain ⟨hd', hi', hti⟩ := hf.subdirEntry hd hi
  rw [hti]
  exact hn hd' hi'

/-- The file `m.src` with its content `data` is gone, and the file `m.dst` is new and
begins with `data`; all other files are as they were, and all directories. -/
structure MovesFile (v v' : Volume) (m : Move FileKey) (data copy : List ClusterBuffer) : Prop where
  source : v.files m.src = some data
  fresh : v.files m.dst = none
  begins : data <+: copy
  files : v'.files = m.moved v.files copy
  folders : SameFolders v v'

theorem Staged.movesFile (h : Staged w m data true w') :
    MovesFile w.fs.volume w'.fs.volume m data (copyOf data) where
  source := h.copies.source
  fresh := h.copies.fresh
  begins := prefix_copyOf h.copies.fits
  files := h.files
  folders := h.folders

/-- A move that ends before it wrote has done nothing. -/
theorem MoveState.sameDisk (h : MoveState w₀ stack line place g w) (hcopied : ∀ mem, g ≠ .copied mem)
    (hmoved : g ≠ .moved) : SameDisk w₀.fs w.fs := by
  cases g with
  | start => exact h
  | unreadable => exact h.1
  | loaded mem => exact h.1
  | refused => exact h.1
  | copied mem => exact absurd rfl (hcopied mem)
  | moved => exact absurd rfl hmoved

/-- **A move moves one file, or it does nothing.**  For every line and every working
directory: the shell makes some calls up to where it returns, or writes outside of an
array.  Then either the disk is as it was and no success was printed, or the file that
`cp` read went to where the line says. -/
theorem mv_moves_or_keeps
    (others : ShellCall → ShellWorld → Except ShellFault (ShellReply × ShellWorld))
    (stack : CopyStack) (behind : List Byte) (line : CommandLine) (hs : Tidy w.fs)
    (hu : w.fs.volume.UniqueFolders)
    (hn : w.fs.volume.ShortNames) (hplace : w.fs.volume.Directory place.workingDirectory) :
    ∃ l w', Exec (serve others) w l w' ∧
      ((mv stack behind line place).Trace l place ∨
        ∃ e, (mv stack behind line place).Stops l e) ∧
      ∃ printed, w'.output = w.output ++ printed ∧
        ((SameDisk w.fs w'.fs ∧ moveSuccess ∉ printed) ∨
          ∃ m data copy, w.fs.volume.Plans stack line place m ∧
            MovesFile w.fs.volume w'.fs.volume m data copy) := by
  have hv := hs.wellFormed.toIntact
  have hfollows := mv_follows stack behind line hv (hn.uniqueFolderTexts hu) hplace
  have hfinds : ∀ k, w.fs.volume.moveSource stack line place = .ok (some k) →
      w.fs.volume.removeTarget behind line place = .ok (some k) :=
    fun k hk => removeTarget_of_namesEnd behind hv hn.namesEnd hplace hk
  have hsys : Upholds (serve others) (moveProtocol w.fs.volume stack behind line place) fun g w' =>
      MoveState w stack line place g w' ∧ SaysMoved w g w' :=
    (moveState_upholds others behind hs hplace).and fun hstate hmessages hcall hserve =>
      saysMoved_call hfinds hstate hmessages hcall hserve
  have hstart : MoveState w stack line place .start w ∧ SaysMoved w .start w :=
    ⟨SameDisk.rfl, [], (List.append_nil _).symm, nofun⟩
  obtain ⟨l, g, w', hexec, ⟨hstate, printed, hprinted, htold⟩, hend⟩ :=
    hfollows.run hsys hstart
  -- the phases in which nothing has been written
  have hkeeps : (∀ mem, g ≠ .copied mem) → g ≠ .moved →
      SameDisk w.fs w'.fs ∧ moveSuccess ∉ printed :=
    fun hcopied hmoved => ⟨hstate.sameDisk hcopied hmoved, fun hmem => hmoved (htold hmem)⟩
  refine ⟨l, w', hexec, ?_, printed, hprinted, ?_⟩
  · rcases hend with ⟨a, htrace, rfl, -⟩ | ⟨e, hstop, -⟩
    · exact .inl htrace
    · exact .inr ⟨e, hstop⟩
  · rcases hend with ⟨a, -, -, hends⟩ | ⟨e, -, hfault⟩
    · cases g with
      | start => exact .inl (hkeeps nofun nofun)
      | unreadable => exact .inl (hkeeps nofun nofun)
      | loaded mem => exact .inl (hkeeps nofun nofun)
      | refused => exact .inl (hkeeps nofun nofun)
      | copied mem =>
          -- `rm` finds its source, so that this phase is not the last
          obtain ⟨m, data, hplan, -⟩ := hstate
          cases hends.symm.trans (hfinds _ hplan.source)
      | moved =>
          obtain ⟨m, data, hplan, hstaged⟩ := hstate
          exact .inr ⟨m, data, copyOf data, hplan, hstaged.movesFile⟩
    · -- a fault comes before the write
      refine .inl (hkeeps ?_ ?_)
      · rintro mem rfl
        exact hfault
      · rintro rfl
        exact hfault

theorem oneFolder_tidy : Tidy oneFolder :=
  keepsFolders_tidy (oneFolder_reaches ⟨.root, fun h => by cases h⟩)

theorem oneFolder_uniqueFolders : oneFolder.volume.UniqueFolders :=
  keepsFolders_uniqueFolders (oneFolder_reaches ⟨.root, fun h => by cases h⟩)

theorem oneFolder_shortNames : oneFolder.volume.ShortNames := by
  intro d i hd hi
  rw [oneFolder_subdir hd hi]
  exact ⟨by decide, by decide⟩

/-! ### A file to move -/

/-- Write the file `b.t`, of one cluster, into the folder. -/
def makeText (mem : Memory) : FsCall :=
  ⟨.write, ⟨0, buffer 8 [ascii 'b'], buffer 3 [ascii 't'], 3, 1⟩, mem⟩

/-- The folder with that file in it. -/
def textWorld (mem : Memory) : ShellWorld := ⟨oneFolder.after (makeText mem), []⟩

def textKey : FileKey := ⟨3, buffer 8 [ascii 'b'], buffer 3 [ascii 't']⟩

theorem textWorld_fs : (textWorld mem).fs = oneFolder.after (makeText mem) := by rw [textWorld]

/-- The file is there. -/
theorem textWorld_file (mem : Memory) (hret : (makeText mem).ret oneFolder = some 0) :
    Tidy (textWorld mem).fs ∧
      SameFolders oneFolder.volume (textWorld mem).fs.volume ∧
      (textWorld mem).fs.volume.files textKey = some (loads mem 0 1) := by
  obtain ⟨r, hr, hzero⟩ := ret_eq_some.mp hret
  have hafter : oneFolder.step (makeText mem) = some (oneFolder.after (makeText mem)) :=
    step_after hret
  have hstep : oneFolder.step (makeText mem) = some r.fs := step_eq_some.mpr ⟨r, hr, rfl⟩
  have hfs : oneFolder.after (makeText mem) = r.fs := Option.some.inj (hafter.symm.trans hstep)
  have hv := oneFolder_tidy.wellFormed.toIntact
  have hdir : oneFolder.volume.Directory (makeText mem).request.parentClusterNumber :=
    oneFolder_directory
  have hext : (makeText mem).request.ext ≠ 0 := by
    show buffer 3 [ascii 't'] ≠ 0
    decide
  have hsize : (makeText mem).request.bufferSize ≠ 0 := by
    show (1 : BitVec 32) ≠ 0
    decide
  obtain ⟨r', hr', hcase⟩ := write_files mem hv oneFolder_tidy.uniqueFiles hdir hsize hext
  obtain rfl : r = r' := Except.ok.inj (hr.symm.trans hr')
  rw [textWorld_fs, hfs]
  -- a write that returns 0 has set the file
  rcases hcase with ⟨-, -, -, hsets⟩ | ⟨hone, -⟩ | ⟨hfull, -⟩
  · refine ⟨?_, hsets.folders, ?_⟩
    · exact exec_tidy oneFolder_tidy ⟨hdir, fun h => by cases h⟩ hr
    · have hkey : (makeText mem).request.key = textKey := rfl
      have hcount : neededSize (makeText mem).request.bufferSize = 1 := by
        show neededSize 1 = 1
        decide
      rw [hsets.files, hkey, hcount, Function.update_self]
      rfl
  · rw [hzero] at hone
    cases hone
  · rw [hzero] at hfull
    cases hfull

/-- In the folder: `mv b.t c.t`. -/
def mvLine : CommandLine := lineOf ['m', 'v', ' ', 'b', '.', 't', ' ', 'c', '.', 't']

/-- The file is there, full of letters, and it moves: its successor is in the next slot. -/
theorem mv_moves_or_keeps_letters : ∃ w' m data copy,
    (mv cleanStack.copy [] mvLine folderPlace).run (serve noProcesses)
        (textWorld fun _ => ascii 'a') = .ok (folderPlace, w') ∧
      (textWorld fun _ => ascii 'a').fs.volume.Plans cleanStack.copy mvLine folderPlace m ∧
      MovesFile (textWorld fun _ => ascii 'a').fs.volume w'.fs.volume m data copy := by
  obtain ⟨htidy, hfolders, -⟩ := textWorld_file (fun _ => ascii 'a') (by decide +kernel)
  have hplace : (textWorld fun _ => ascii 'a').fs.volume.Directory folderPlace.workingDirectory :=
    hfolders.directory.mpr oneFolder_directory
  have hbefore : ¬ ((textWorld fun _ => ascii 'a').fs.volume.table 3 3).Occupied := by
    decide +kernel
  obtain ⟨⟨place', w₁⟩, hrun, hafter⟩ := exists_ok_of_toOption (b := true)
    (f := fun r : Place × ShellWorld => decide (r.2.fs.volume.table 3 3).Occupied)
    (x := (mv cleanStack.copy [] mvLine folderPlace).run (serve noProcesses)
      (textWorld fun _ => ascii 'a')) (by decide +kernel)
  obtain ⟨l, w', hexec, hends, printed, -, hcase⟩ := mv_moves_or_keeps noProcesses cleanStack.copy
    [] mvLine htidy (hfolders.uniqueFolders oneFolder_uniqueFolders)
    (hfolders.shortNames oneFolder_shortNames) hplace
  -- the run that was evaluated is the one that the theorem speaks of
  have hsame : (mv cleanStack.copy [] mvLine folderPlace).run (serve noProcesses)
      (textWorld fun _ => ascii 'a') = .ok (folderPlace, w') := by
    rcases hends with htrace | ⟨e, hstops⟩
    · exact Program.run_eq_ok_iff.mpr ⟨l, htrace, hexec⟩
    · cases hrun.symm.trans (Program.run_eq_error hstops hexec)
  obtain ⟨rfl, rfl⟩ := Prod.mk.inj (Except.ok.inj (hrun.symm.trans hsame))
  rcases hcase with ⟨hkept, -⟩ | ⟨m, data, copy, hplan, hmoves⟩
  · rw [hkept.volume_eq] at hafter
    exact absurd (of_decide_eq_true hafter) hbefore
  · exact ⟨w₁, m, data, copy, hrun, hplan, hmoves⟩

end Binbows
