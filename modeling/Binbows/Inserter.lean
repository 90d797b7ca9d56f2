/-
Binbows/Inserter.lean

The image of the disk, from the tool that builds it to the shell that boots from it
(`external/external-inserter.c`, `kernel.c`).

The inserter runs the driver on an image in memory, once for every file: it mounts the image,
writes the file and saves the image.  The name of the file is the word that `sscanf` takes
from the first argument, and a file that cannot be opened becomes a folder.

Main result: `boot_runs_inserted`.  A kernel that is started on an image with the shell in its
root runs what was inserted.
-/
import Binbows.WrittenPrograms
import Binbows.ShellPaths
import Mathlib.Data.List.GetD

namespace Binbows

open Bytes Chain Run KernelState

/-! ### main -/

/-- `isspace`. -/
def isSpace (c : Byte) : Bool := c = 32 ∨ (9 ≤ c ∧ c ≤ 13)

/-- What `sscanf` takes for `%8s`. -/
def scanWord (input : List Byte) : List Byte :=
  ((input.dropWhile isSpace).takeWhile fun c => !isSpace c).take 8

/-- The arguments of the inserter, but for the image: the text of the first, the number that
`sscanf` takes from the second, and what the file of that name holds; `none` is a file that
cannot be opened. -/
structure InserterArgs where
  path : List Byte
  parentClusterNumber : BitVec 32
  file : Option (List Byte)

/-- `filesize`. -/
def InserterArgs.filesize (args : InserterArgs) : Nat :=
  match args.file with
  | none => 0
  | some bytes => bytes.length

/-- `file_buffer`: the first 4 MiB of the file, and behind it what was in memory before.
Addresses count from its begin. -/
def InserterArgs.fileBuffer (args : InserterArgs) (heap : Memory) : Memory := fun a =>
  match args.file with
  | none => heap a
  | some bytes => (bytes.take (4 * 1024 * 1024)).getD a.toNat (heap a)

def InserterArgs.request (args : InserterArgs) : FAT32DriverRequest where
  buf := 0
  name := buffer 8 (scanWord args.path)
  ext := 0
  parentClusterNumber := args.parentClusterNumber
  bufferSize := BitVec.ofNat 32 args.filesize

/-- `initialize_filesystem_fat32` in a program that has just started. -/
def mount (image : Disk) : FsState :=
  initializeFilesystemFat32 { FsState.blank with disk := image }

/-- `main`: the return code of `write`, and the image that is saved. -/
def inserterMain (args : InserterArgs) (heap : Memory) (image : Disk) :
    Except Fault (Int × Disk) := do
  let r ← write args.request (args.fileBuffer heap) (mount image)
  .ok (r.ret, r.fs.disk)

/-- The image after a run of the inserter. -/
def Disk.inserted (image : Disk) (run : InserterArgs × Memory) : Option Disk :=
  (inserterMain run.1 run.2 image).toOption.map Prod.snd

variable {image image' image₀ image₁ image₂ : Disk} {args : InserterArgs} {heap : Memory}
  {run : InserterArgs × Memory} {bytes : List Byte} {fs : FsState} {ram : Ram} {k : KernelState}
  {ret : Int} {s : FsState} {d : BitVec 32} {name : EntryName} {ext : EntryExt}
  {data : List ClusterBuffer}

theorem inserterMain_eq_ok : inserterMain args heap image = .ok (ret, image') ↔
    ∃ r, write args.request (args.fileBuffer heap) (mount image) = .ok r ∧ r.ret = ret ∧
      r.fs.disk = image' := by
  unfold inserterMain
  cases write args.request (args.fileBuffer heap) (mount image) with
  | error e => simp [Bind.bind, Except.bind]
  | ok r => simp [Bind.bind, Except.bind]

theorem inserted_eq_some : image.inserted run = some image' ↔
    ∃ r, write run.1.request (run.1.fileBuffer run.2) (mount image) = .ok r ∧
      r.fs.disk = image' := by
  unfold Disk.inserted
  rw [Option.map_eq_some_iff]
  constructor
  · rintro ⟨⟨ret, image'⟩, h, rfl⟩
    obtain ⟨r, hr, -, himage⟩ := inserterMain_eq_ok.mp (toOption_eq_some.mp h)
    exact ⟨r, hr, himage⟩
  · rintro ⟨r, hr, rfl⟩
    exact ⟨(r.ret, r.fs.disk), toOption_eq_some.mpr (inserterMain_eq_ok.mpr ⟨r, hr, rfl, rfl⟩), rfl⟩

/-! ### Images -/

/-- The runs of the inserter: below directories, and the first that formats the image writes
its file. -/
def Inserts (image : Disk) (run : InserterArgs × Memory) : Prop :=
  (mount image).volume.Directory run.1.parentClusterNumber ∧
    (isEmptyStorage image = true →
      ∀ ret image', inserterMain run.1 run.2 image = .ok (ret, image') → ret = 0)

/-- A driver could have left the image. -/
def Disk.Formatted (image : Disk) : Prop := ∃ s : FsState, s.disk = image ∧ Tidy s ∧ Synced s

theorem mount_empty (h : isEmptyStorage image = true) : Tidy (mount image) := by
  have hmount : mount image = createFat32 { FsState.blank with disk := image } :=
    initialize_of_empty h
  rw [hmount]
  exact keepsFolders_tidy .refl

theorem Disk.Formatted.mount (h : image.Formatted) :
    Tidy (mount image) ∧ Synced (Binbows.mount image) := by
  obtain ⟨s, rfl, hs, hsync⟩ := h
  have hsame : SameDisk s (Binbows.mount s.disk) :=
    initialize_sameDisk { FsState.blank with disk := s.disk } hsync hs.signed rfl
  exact ⟨hsame.tidy hs, hsame.synced_iff.mpr hsync⟩

/-- **An image stays one that can be mounted.** -/
theorem inserted_formatted (h : isEmptyStorage image = true ∨ image.Formatted)
    (hok : Inserts image run) (hstep : image.inserted run = some image') : image'.Formatted := by
  obtain ⟨r, hr, rfl⟩ := inserted_eq_some.mp hstep
  have hcareful : Careful (mount image) ⟨.write, run.1.request, run.1.fileBuffer run.2⟩ :=
    ⟨hok.1, fun hdelete => by cases hdelete⟩
  rcases h with hempty | hformatted
  · have hret : r.ret = 0 :=
      hok.2 hempty r.ret r.fs.disk (inserterMain_eq_ok.mpr ⟨r, hr, rfl, rfl⟩)
    exact ⟨r.fs, rfl, exec_tidy (mount_empty hempty) hcareful hr, write_synced hr hret⟩
  · obtain ⟨hs, hsync⟩ := hformatted.mount
    have hsync' : Synced r.fs :=
      exec_synced (c := ⟨.write, run.1.request, run.1.fileBuffer run.2⟩) hsync hr
    exact ⟨r.fs, rfl, exec_tidy hs hcareful hr, hsync'⟩

theorem inserts_formatted (h₀ : isEmptyStorage image₀ = true)
    (h : Reaches Disk.inserted Inserts image₀ image) :
    isEmptyStorage image = true ∨ image.Formatted := by
  refine h.invariant (I := fun image => isEmptyStorage image = true ∨ image.Formatted)
    (.inl h₀) ?_
  exact fun himage hok hstep => .inr (inserted_formatted himage hok hstep)

/-- The file is on the image. -/
def Disk.Holds (image : Disk) (d : BitVec 32) (name : EntryName) (ext : EntryExt)
    (data : List ClusterBuffer) : Prop :=
  ∃ s : FsState, s.disk = image ∧ Durable d name ext data s

/-- A file that is inserted is on the image. -/
theorem inserterMain_holds (h : isEmptyStorage image = true ∨ image.Formatted)
    (hd : (mount image).volume.Directory args.parentClusterNumber)
    (hne : args.request.bufferSize ≠ 0) (hmain : inserterMain args heap image = .ok (0, image')) :
    image'.Holds args.parentClusterNumber args.request.name 0
      (loads (args.fileBuffer heap) 0 (neededSize args.request.bufferSize)) := by
  obtain ⟨r, hr, hret, rfl⟩ := inserterMain_eq_ok.mp hmain
  have hs : Tidy (mount image) := by
    rcases h with hempty | hformatted
    · exact mount_empty hempty
    · exact hformatted.mount.1
  exact ⟨r.fs, rfl, write_durable hs hd hne hr hret⟩

/-- A mounted image has its files. -/
theorem Disk.Holds.mounted (h : image.Holds d name ext data) (hfs : fs.disk = image) :
    Durable d name ext data (initializeFilesystemFat32 fs) := by
  obtain ⟨s, rfl, hs⟩ := h
  have hrestart := hs.restart fs
  rwa [← hfs] at hrestart

/-- Another run of the inserter keeps the file. -/
theorem Disk.Holds.inserted (h : image.Holds d name ext data) (hok : Inserts image run)
    (hstep : image.inserted run = some image') : image'.Holds d name ext data := by
  obtain ⟨r, hr, rfl⟩ := inserted_eq_some.mp hstep
  have hdisk : FsState.disk { FsState.blank with disk := image } = image := rfl
  have hmount : Durable d name ext data (mount image) := h.mounted hdisk
  have hcall : (mount image).event (.call ⟨.write, run.1.request, run.1.fileBuffer run.2⟩) =
      some r.fs :=
    step_eq_some.mpr ⟨r, hr, rfl⟩
  have hlater : Later d name ext (mount image)
      (.call ⟨.write, run.1.request, run.1.fileBuffer run.2⟩) :=
    ⟨⟨hok.1, fun hdelete => by cases hdelete⟩, fun hdelete => by cases hdelete⟩
  exact ⟨r.fs, rfl, later_durable (.single ⟨_, hlater, hcall⟩) hmount⟩

theorem InserterArgs.request_size (args : InserterArgs) (hfile : args.file = some bytes)
    (hlen : bytes.length ≤ 4 * 1024 * 1024) :
    args.request.bufferSize.toNat = bytes.length := by
  show (BitVec.ofNat 32 args.filesize).toNat = _
  have hsize : args.filesize = bytes.length := by
    unfold InserterArgs.filesize
    rw [hfile]
  rw [BitVec.toNat_ofNat, hsize]
  exact Nat.mod_eq_of_lt (by omega)

/-- What the inserter writes is the file. -/
theorem InserterArgs.request_bytes (args : InserterArgs) (hfile : args.file = some bytes)
    (hlen : bytes.length ≤ 4 * 1024 * 1024) :
    args.request.bytes (args.fileBuffer heap) = bytes := by
  have hsize : args.request.bufferSize.toNat = bytes.length := args.request_size hfile hlen
  unfold FAT32DriverRequest.bytes
  rw [hsize]
  apply List.ext_getElem
  · rw [List.length_map, List.length_range]
  · intro j hj hj'
    rw [List.getElem_map, List.getElem_range]
    have haddr : (args.request.buf + BitVec.ofNat 32 j).toNat = j := by
      show (0#32 + BitVec.ofNat 32 j).toNat = j
      rw [BitVec.zero_add, BitVec.toNat_ofNat]
      exact Nat.mod_eq_of_lt (by omega)
    unfold InserterArgs.fileBuffer
    rw [hfile]
    dsimp only
    rw [haddr, List.take_of_length_le hlen, List.getD_eq_getElem _ _ hj']

/-! ### Boot -/

/-- The checks let the request of `kernel_setup` pass. -/
theorem boot_passes (fs : FsState) (ram : Ram) : (boot fs ram).PassesChecks shellRequest where
  active := show (0 : Int) < 16 by decide
  entry := by decide
  free := show (pageFrameCountNeeded shellRequest).toNat ≤
    (BitVec.ofNat 32 (pageFrameMaxCount - 1)).toNat by decide
  count := by decide

/-- With the shell on the disk, `kernel_setup` creates process 0 from it. -/
theorem boot_creates {w : FAT32DriverRequest} {mem : Memory} (ram : Ram)
    (hs : Durable rootClusterNumber shellName 0 (loads mem w.buf (neededSize w.bufferSize)) fs)
    (hne : w.bufferSize ≠ 0) (hsize : w.bufferSize.toNat ≤ shellRequest.bufferSize.toNat) :
    ∃ d k₁, (boot fs ram).processCreateUserProcess shellRequest = .ok (0, k₁) ∧
      (boot fs ram).Created k₁ 0 d (pageFrameCountNeeded shellRequest) ∧
      StartsProgram k₁ 0 0 (w.bytes mem) := by
  have hround : (w.bufferSize.toNat + (clusterSize - 1)) / clusterSize * clusterSize ≤
      512 * clusterSize := by
    have hbound : w.bufferSize.toNat ≤ 512 * clusterSize := hsize
    apply Nat.mul_le_mul_right
    unfold clusterSize at *
    omega
  have hroom : 0 + (w.bufferSize.toNat + (clusterSize - 1)) / clusterSize * clusterSize ≤
      pagesFor shellRequest.bufferSize.toNat * pageFrameSize.toNat := by
    rw [Nat.zero_add]
    exact hround.trans (by decide)
  have hdirectory : PagingState.boot.findDirectory ≠ none := by decide
  have hs' : Durable shellRequest.parentClusterNumber shellRequest.name shellRequest.ext
      (loads mem w.buf (neededSize w.bufferSize)) (boot fs ram).fs := hs
  obtain ⟨i, d, k₁, hcreate, hi, hcreated, hready⟩ := hs'.starts (boot_consistent fs ram)
    hdirectory (boot_passes fs ram) hne hround hroom
  obtain rfl : (0 : Fin processCountMax) = i := by
    have hfirst : (boot fs ram).processListGetInactiveIndex = some 0 := by
      show (List.finRange processCountMax).find? (fun _ => decide (ProcessState.inactive = .inactive)) =
        some 0
      decide
    exact Option.some.inj (hfirst.symm.trans hi)
  exact ⟨d, k₁, hcreate, hcreated, hready⟩

/-- A switch loads what the process was left with. -/
theorem Switched.startsProgram {k₁ : KernelState} {ctx : Context} {i : Fin processCountMax}
    {buf : BitVec 32} (hs : Switched k₁ k ctx i) (hram : k.ram = k₁.ram) (h : k₁.Consistent)
    (hi : k₁.Active i) (hk : StartsProgram k₁ i buf bytes) : StartsProgram k i buf bytes := by
  refine ⟨?_, ?_, fun j hj => ?_⟩
  · rw [hs.context_eq, hk.eip]
  · rw [hs.context_eq, hk.esp]
  · rw [userByte_same h hi hs.samePages fun f _ => by rw [hram]]
    exact hk.memory j hj

/-- **The first process.**  With the shell on the disk, `kernel_setup` creates process 0 from
it and switches to it. -/
theorem kernelSetup_starts {w : FAT32DriverRequest} {mem : Memory}
    (hs : Durable rootClusterNumber shellName 0 (loads mem w.buf (neededSize w.bufferSize))
      (initializeFilesystemFat32 fs)) (hne : w.bufferSize ≠ 0)
    (hsize : w.bufferSize.toNat ≤ shellRequest.bufferSize.toNat) (ram : Ram) :
    ∃ k, kernelSetup fs ram = .ok k ∧ k.currentPid = some 0 ∧ (k.processList 0).state = .running ∧
      StartsProgram k 0 0 (w.bytes mem) := by
  obtain ⟨d, k₁, hcreate, hcreated, hstarts⟩ := boot_creates ram hs hne hsize
  have hready : (k₁.processList 0).state = .ready := hcreated.state
  have hset : Settled k₁ := create_settled (boot_settled _ _) hcreate
  obtain ⟨x, ctx, k, -, hx, hswitch, -, hcur, hrunning⟩ :=
    hset.toSettledSlots.switchesToReady ⟨0, hready⟩
  -- no other slot is in use
  obtain rfl : x = 0 := by
    by_contra hne
    rw [hcreated.others x hne] at hx
    cases hx
  obtain ⟨y, hy⟩ := schedulerSwitch_eq_ok hswitch
  obtain rfl : 0 = y := Option.some.inj (hcur.symm.trans hy.current)
  refine ⟨k, ?_, hcur, hrunning, ?_⟩
  · have hsetup : setupCreate fs ram = .ok (0, k₁) := hcreate
    rw [kernelSetup_eq, hsetup]
    show (k₁.schedulerSwitch.bind fun r => .ok r.2) = .ok k
    rw [hswitch]
    rfl
  · have hconsistent := create_consistent (boot_consistent _ _) hcreate
    have hactive : k₁.Active 0 := by
      rw [KernelState.Active, hready]
      exact ProcessState.noConfusion
    exact hy.startsProgram (schedulerSwitch_ram hswitch) hconsistent hactive hstarts

/-- **The kernel runs what was inserted.**  From a disk without a file system on, files are
inserted below directories, the first with success.  One of them goes into the root, with
success, under a path whose word is `shell`; it is not empty and not longer than what
`kernel_setup` makes room for.  Then a kernel that is started on the image, in whatever state
the memory is, comes to run process 0 from address 0, with the bytes of that file from 0 on. -/
theorem boot_runs_inserted (hempty : isEmptyStorage image₀ = true)
    (hbefore : Reaches Disk.inserted Inserts image₀ image₁)
    (hmain : inserterMain args heap image₁ = .ok (0, image₂))
    (hparent : args.parentClusterNumber = rootClusterNumber)
    (hpath : buffer 8 (scanWord args.path) = shellName) (hfile : args.file = some bytes)
    (hne : bytes ≠ []) (hsize : bytes.length ≤ shellRequest.bufferSize.toNat)
    (hafter : Reaches Disk.inserted Inserts image₂ image) (hfs : fs.disk = image) (ram : Ram) :
    ∃ k, kernelSetup fs ram = .ok k ∧ k.currentPid = some 0 ∧ (k.processList 0).state = .running ∧
      StartsProgram k 0 0 bytes := by
  have hmax : shellRequest.bufferSize.toNat = 0x100000 := rfl
  have hlen : args.request.bufferSize.toNat = bytes.length :=
    args.request_size hfile (by omega)
  have hroot : (mount image₁).volume.Directory args.parentClusterNumber := by
    rw [hparent]
    exact .root
  have hpos : args.request.bufferSize ≠ 0 := by
    intro h0
    rw [h0] at hlen
    exact hne (List.length_eq_zero_iff.mp hlen.symm)
  have hholds := inserterMain_holds (inserts_formatted hempty hbefore) hroot hpos hmain
  have hname : args.request.name = shellName := hpath
  rw [hparent, hname] at hholds
  have hlater : image.Holds rootClusterNumber shellName 0
      (loads (args.fileBuffer heap) 0 (neededSize args.request.bufferSize)) := by
    refine hafter.invariant (I := fun image => image.Holds rootClusterNumber shellName 0
      (loads (args.fileBuffer heap) 0 (neededSize args.request.bufferSize))) hholds ?_
    exact fun h hok hstep => Disk.Holds.inserted h hok hstep
  have hstarts := kernelSetup_starts (w := args.request) (hlater.mounted hfs) hpos
    (by omega) ram
  rwa [args.request_bytes hfile (by omega)] at hstarts

/-- A shell of one byte, and a program that goes below the root behind it. -/
def shellArgs : InserterArgs where
  path := ['s', 'h', 'e', 'l', 'l'].map ascii
  parentClusterNumber := rootClusterNumber
  file := some [7]

def clockArgs : InserterArgs where
  path := [' ', 'c', 'l', 'o', 'c', 'k'].map ascii
  parentClusterNumber := rootClusterNumber
  file := some [8, 9]

theorem boot_runs_inserted_clock : ∃ (image : Disk) (k : KernelState),
    kernelSetup { FsState.blank with disk := image } noRam = .ok k ∧ k.currentPid = some 0 ∧
      (k.processList 0).state = .running ∧ StartsProgram k 0 0 [7] := by
  have hrun : ((inserterMain shellArgs (fun _ => 0) (fun _ => 0)).toOption.bind fun r =>
      (r.2.inserted (clockArgs, fun _ => 0)).map fun _ => (r.1, isEmptyStorage r.2)) =
      some (0, false) := by decide +kernel
  obtain ⟨⟨ret, image₂⟩, hmain, hrun⟩ := Option.bind_eq_some_iff.mp hrun
  obtain ⟨image, hclock, hrun⟩ := Option.map_eq_some_iff.mp hrun
  obtain ⟨rfl, hsigned⟩ : ret = 0 ∧ isEmptyStorage image₂ = false := Prod.mk.inj hrun
  have hinserts : Inserts image₂ (clockArgs, fun _ => 0) := by
    refine ⟨.root, fun hempty => ?_⟩
    rw [hsigned] at hempty
    cases hempty
  obtain ⟨k, hk⟩ := boot_runs_inserted (by decide +kernel) .refl (toOption_eq_some.mp hmain) rfl
    (by decide) rfl (by decide) (by decide) (.single ⟨_, hinserts, hclock⟩)
    (show FsState.disk { FsState.blank with disk := image } = image from rfl) noRam
  exact ⟨image, k, hk⟩

end Binbows
