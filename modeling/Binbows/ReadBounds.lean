/-
Binbows/ReadBounds.lean

How far a `read` reaches.

The loop of `read` is driven by the allocation table, and the check before it compares
the size of the buffer with the `filesize` of the entry.  What ties the two together is
the invariant of the volume: a file is recorded with the size of its chain.

Main result: `read_bounded`.
-/
import Binbows.FileContents

namespace Binbows

open Chain Volume Run FAT32FileAllocationTable

/-- The indices at which the loop of `read` looks `cluster_map` up. -/
def chainIndices (t : FAT32FileAllocationTable) :
    (fuel : Nat) → (clusterNum : BitVec 32) → List (BitVec 32)
  | 0, _ => []
  | fuel + 1, clusterNum =>
      if clusterNum = fat32FatEndOfFile then []
      else
        match t.clusterMapAt clusterNum with
        | .error _ => [clusterNum]
        | .ok next => clusterNum :: chainIndices t fuel next

/-- The indices that a `read` follows: the loop runs for a file that is not too large. -/
def readIndices (request : FAT32DriverRequest) (s : FsState) : List (BitVec 32) :=
  let t := (s.readDirTable request.parentClusterNumber).dirTableBuf
  match readMatch request t with
  | none => []
  | some i =>
      if request.bufferSize < (t i).filesize then []
      else chainIndices s.clusterMap chainFuel (t i).cluster

/-- A read that returns within its bounds. -/
structure BoundedRead (request : FAT32DriverRequest) (mem : Memory) (s : FsState) (r : Reply) :
    Prop where
  indices : ∀ c ∈ readIndices request s, DataCluster c
  /-- nothing is stored outside `[buf, buf + buffer_size)` -/
  inside : ∀ a, request.bufferSize.toNat ≤ (a - request.buf).toNat → r.mem a = mem a
  failed : r.ret ≠ 0 → r.mem = mem
  /-- on success the bytes stored, from `buf` on, are as many as `filesize` says -/
  stored : r.ret = 0 → ∃ i data,
    s.volume.FileEntry request.parentClusterNumber i ∧
      (s.volume.table request.parentClusterNumber i).name = request.name ∧
      (s.volume.table request.parentClusterNumber i).ext = request.ext ∧
      r.mem = mem.storeAll request.buf data ∧
      data.length * clusterSize =
        (s.volume.table request.parentClusterNumber i).filesize.toNat

variable {request : FAT32DriverRequest} {mem : Memory} {s s₀ : FsState} {c : BitVec 32}
  {l : List (BitVec 32)} {t : FAT32FileAllocationTable} {i : Fin directoryEntryCount}

/-- The loop follows the chain. -/
theorem chainIndices_of_walk {fuel : Nat} (hw : Walk t.view fat32FatEndOfFile c l)
    (hr : ∀ b ∈ l, b.toNat < clusterMapSize) (hfuel : l.length < fuel) :
    chainIndices t fuel c = l := by
  induction hw generalizing fuel with
  | done =>
      obtain ⟨fuel, rfl⟩ := Nat.exists_eq_succ_of_ne_zero (Nat.ne_of_gt hfuel)
      exact if_pos rfl
  | @step a l hne _ ih =>
      obtain ⟨fuel, rfl⟩ := Nat.exists_eq_succ_of_ne_zero
        (Nat.ne_of_gt (Nat.zero_lt_of_lt hfuel))
      obtain ⟨hlt, hr⟩ := List.forall_mem_cons.mp hr
      rw [chainIndices, if_neg hne, clusterMapAt_of_lt t hlt]
      dsimp only
      rw [ih hr (Nat.lt_of_succ_lt_succ hfuel)]

theorem readIndices_of_none
    (hm : readMatch request (s.volume.table request.parentClusterNumber) = none) :
    readIndices request s = [] := by
  have hm' : readMatch request (s.readDirTable request.parentClusterNumber).dirTableBuf = none :=
    hm
  dsimp only [readIndices]
  rw [hm']

theorem readIndices_of_some
    (hm : readMatch request (s.volume.table request.parentClusterNumber) = some i) :
    readIndices request s =
      if request.bufferSize < (s.volume.table request.parentClusterNumber i).filesize then []
      else chainIndices s.clusterMap chainFuel
        (s.volume.table request.parentClusterNumber i).cluster := by
  have hm' : readMatch request (s.readDirTable request.parentClusterNumber).dirTableBuf = some i :=
    hm
  dsimp only [readIndices]
  rw [hm']
  rfl

/-- On an intact volume every read below a directory returns, within its bounds. -/
theorem read_bounded_of_intact (mem : Memory) (h : s.volume.Intact)
    (hp : s.volume.Directory request.parentClusterNumber) :
    ∃ r, read request mem s = .ok r ∧ BoundedRead request mem s r := by
  rw [read_eq, parentCheck_directory h hp]
  cases hm : readMatch request (s.volume.table request.parentClusterNumber) with
  | none =>
      refine ⟨_, rfl, ?_, fun _ _ => rfl, fun _ => rfl, fun h0 => absurd h0 readMissing_ne_zero⟩
      rw [readIndices_of_none hm]
      simp
  | some i =>
      obtain ⟨ho, hs, hn, hx⟩ := readMatch_eq_some hm
      have hi := (h.occupied_cases hp ho).resolve_right fun hsub => hs hsub.1
      obtain ⟨l, hl⟩ := h.file_linked hp hi
      have hr : ∀ b ∈ l, b.toNat < clusterMapSize := fun b hb => (hl.range b hb).2
      refine ⟨_, readFound_of_walk hl.walk hr, ?_⟩
      by_cases hsize :
          request.bufferSize < (s.volume.table request.parentClusterNumber i).filesize
      · rw [if_pos hsize]
        refine ⟨?_, fun _ _ => rfl, fun _ => rfl, fun h0 => by cases h0⟩
        rw [readIndices_of_some hm, if_pos hsize]
        simp
      · rw [if_neg hsize]
        -- the clusters of the chain make up the size that was compared
        have hlen : (l.map s.volume.content).length * clusterSize =
            (s.volume.table request.parentClusterNumber i).filesize.toNat := by
          rw [List.length_map, hl.size]
        have hle : (s.volume.table request.parentClusterNumber i).filesize.toNat ≤
            request.bufferSize.toNat := BitVec.not_lt.mp hsize
        refine ⟨?_, ?_, fun h0 => absurd rfl h0, fun _ => ⟨i, _, hi, hn, hx, rfl, hlen⟩⟩
        · rw [readIndices_of_some hm, if_neg hsize,
            chainIndices_of_walk hl.walk hr (Nat.lt_succ_of_le (walk_length_le hl.walk hr))]
          exact hl.range
        · intro a ha
          apply Memory.storeAll_outside
          · rw [hlen]
            exact hle.trans request.bufferSize.isLt.le
          · rw [hlen]
            exact hle.trans ha

/-- **`read` is bounded and returns.**  After any run of requests on directories that
deletes no folder: every read below a directory returns, follows data clusters only,
stores inside the buffer only, and on success stores as many bytes as the entry says. -/
theorem read_bounded (mem : Memory)
    (hrun : Reaches FsState.step KeepsFolders (createFat32 s₀) s)
    (hp : s.volume.Directory request.parentClusterNumber) :
    ∃ r, read request mem s = .ok r ∧ BoundedRead request mem s r :=
  read_bounded_of_intact mem (keepsFolders_tidy hrun).wellFormed.toIntact hp

/-- The file `b` in the folder, and a buffer of two clusters. -/
def longFileRequest : FAT32DriverRequest := ⟨0, letterName 'b', 0, 3, 4096⟩

/-- Write it. -/
def makeLongFile : FsCall := ⟨.write, longFileRequest, fun _ => 7⟩

/-- The disk with that folder and that file. -/
def oneLongFile : FsState := oneFolder.after makeLongFile

theorem oneLongFile_step : oneFolder.step makeLongFile = some oneLongFile :=
  step_after (n := 0) (by decide +kernel)

/-- Both clusters of the file are read. -/
theorem read_bounded_oneLongFile :
    ∃ r, read longFileRequest (fun _ => 0) oneLongFile = .ok r ∧ r.ret = 0 ∧
      readIndices longFileRequest oneLongFile = [4, 5] ∧
      BoundedRead longFileRequest (fun _ => 0) oneLongFile r := by
  have hguard : KeepsFolders oneFolder makeLongFile := ⟨oneFolder_directory, fun h => by cases h⟩
  have hrun : Reaches FsState.step KeepsFolders (createFat32 .blank) oneLongFile :=
    Reaches.snoc (i := makeLongFile) (oneFolder_reaches ⟨.root, fun h => by cases h⟩) hguard
      oneLongFile_step
  have hp : oneLongFile.volume.Directory longFileRequest.parentClusterNumber :=
    .child .root (i := 2) (by decide +kernel)
  obtain ⟨r, hr, hbounded⟩ := read_bounded (fun _ => 0) hrun hp
  have hret : (FsCall.mk .read longFileRequest (fun _ => 0)).ret oneLongFile = some 0 := by
    decide +kernel
  obtain ⟨r', hr', hret'⟩ := ret_eq_some.mp hret
  obtain rfl : r = r' := Except.ok.inj (hr.symm.trans hr')
  exact ⟨r, hr, hret', by decide +kernel, hbounded⟩

end Binbows
