/-
Binbows/Fat32Spec.lean

What the four requests do, from any driver state whatever.

A request either changes neither the allocation table nor the disk, or it is a
`write` or `delete` that returns 0 and whose last action is to write the
allocation table out (`exec_cases`).  A request that returns a code other than
0 leaves no trace at all (`exec_quiet`).

The buffers of the driver carry nothing from one request to the next: two
states with the same table and the same disk answer alike, for ever
(`responses_congr`).
-/
import Binbows.Fat32Alloc
import Binbows.Fat32Lookup

namespace Binbows

open Chain FAT32FileAllocationTable

variable {request : FAT32DriverRequest} {mem : Memory} {s s' : FsState} {r : Reply} {c : FsCall}
  {p : BitVec 32} {t : FAT32DirectoryTable} {e : FAT32DirectoryEntry}

/-! ### The parent check -/

theorem parentCheck_of_lt {a b : Except Fault Reply} (h : p.toNat < clusterMapSize) :
    parentCheck s p a b = if s.clusterMap.view p = fat32FatEndOfFile then b else a := by
  unfold parentCheck
  rw [clusterMapAt_of_lt _ h]
  dsimp only
  by_cases hv : s.clusterMap.view p = fat32FatEndOfFile
  · rw [if_pos hv, if_neg (not_not.mpr hv)]
  · rw [if_neg hv, if_pos hv]

theorem parentCheck_of_ge {a b : Except Fault Reply} (h : clusterMapSize ≤ p.toNat) :
    parentCheck s p a b = .error .outOfBounds := by
  unfold parentCheck
  rw [clusterMapAt_of_ge _ h]

theorem parentCheck_eq_ok {a b : Except Fault Reply} (h : parentCheck s p a b = .ok r) :
    a = .ok r ∨ (p.toNat < clusterMapSize ∧ s.clusterMap.view p = fat32FatEndOfFile ∧
      b = .ok r) := by
  by_cases hp : p.toNat < clusterMapSize
  · rw [parentCheck_of_lt hp] at h
    split_ifs at h with hv
    · exact .inr ⟨hp, hv, h⟩
    · exact .inl h
  · rw [parentCheck_of_ge (not_lt.mp hp)] at h
    cases h

/-! ### The scans -/

theorem sameEntry_iff : sameEntry request e ↔ e.name = request.name ∧
    ((e.IsSubdirectory ∧ request.bufferSize = 0) ∨
      (request.bufferSize ≠ 0 ∧ e.ext = request.ext)) := by
  simp [sameEntry]

/-- The duplicate check passes where no slot in use is the same entry. -/
theorem writeScan_eq_some_iff {is : List (Fin directoryEntryCount)} {b b' : Bool} :
    writeScan request t is b = some b' ↔
      (∀ i ∈ is, (t i).Occupied → ¬ sameEntry request (t i)) ∧
        (b' = true ↔ b = true ∨ ∃ i ∈ is, ¬ (t i).Occupied) := by
  induction is generalizing b with
  | nil =>
      cases b <;> cases b' <;> simp [writeScan]
  | cons i is ih =>
      rw [writeScan]
      split_ifs with hocc hsame
      · constructor
        · intro h
          cases h
        · rintro ⟨h, -⟩
          exact absurd hsame (h i List.mem_cons_self hocc)
      · rw [ih]
        simp [hocc, hsame]
      · rw [ih]
        simp [hocc]

theorem writeScan_finRange_eq_some_true :
    writeScan request t (List.finRange directoryEntryCount) false = some true ↔
      (∀ i, (t i).Occupied → ¬ sameEntry request (t i)) ∧ ∃ i, ¬ (t i).Occupied := by
  rw [writeScan_eq_some_iff]
  simp

/-- What a search over the slots finds, it finds first. -/
theorem find?_finRange_first {n : Nat} {P : Fin n → Bool} {i j : Fin n}
    (h : (List.finRange n).find? P = some i) (hj : j < i) : P j = false := by
  obtain ⟨-, as, bs, hsplit, has⟩ := List.find?_eq_some_iff_append.mp h
  have hmem : j ∈ as := by
    have hsorted : (as ++ i :: bs).Pairwise (· < ·) := hsplit ▸ List.pairwise_lt_finRange _
    have hall : j ∈ as ++ i :: bs := hsplit ▸ List.mem_finRange j
    rcases List.mem_append.mp hall with hin | hin
    · exact hin
    · rcases List.mem_cons.mp hin with rfl | hin
      · exact absurd hj (lt_irrefl _)
      · have hlt := (List.pairwise_cons.mp (List.pairwise_append.mp hsorted).2.1).1 j hin
        exact absurd hj (not_lt.mpr hlt.le)
  simpa using has j hmem

theorem FAT32DirectoryTable.firstEmpty_eq_some {i : Fin directoryEntryCount}
    (h : t.firstEmpty = some i) : ¬ (t i).Occupied := by
  simpa using List.find?_some h

theorem FAT32DirectoryTable.firstEmpty_first {i j : Fin directoryEntryCount}
    (h : t.firstEmpty = some i) (hj : j < i) : (t j).Occupied := by
  simpa using find?_finRange_first h hj

theorem FAT32DirectoryTable.exists_firstEmpty (h : ∃ i, ¬ (t i).Occupied) :
    ∃ i, t.firstEmpty = some i := by
  obtain ⟨i, hi⟩ := h
  have hsome : t.firstEmpty.isSome := by
    unfold FAT32DirectoryTable.firstEmpty
    rw [List.find?_isSome]
    exact ⟨i, List.mem_finRange i, by simpa using hi⟩
  exact Option.isSome_iff_exists.mp hsome

/-- The slot that `delete` acts on carries the requested key. -/
theorem deleteMatch_eq_some {i : Fin directoryEntryCount} (h : deleteMatch request t = some i) :
    (t i).Occupied ∧ (t i).name = request.name ∧ (t i).ext = request.ext := by
  have hi := List.find?_some h
  simp only [memcmp_eq_zero_iff, decide_eq_true_eq] at hi
  exact ⟨hi.1, hi.2.1.symm, hi.2.2.symm⟩

/-- No slot before the one that `delete` acts on carries the requested key. -/
theorem deleteMatch_first {i j : Fin directoryEntryCount} (h : deleteMatch request t = some i)
    (hj : j < i) (ho : (t j).Occupied) (hn : (t j).name = request.name) :
    (t j).ext ≠ request.ext := by
  intro he
  have hno := find?_finRange_first h hj
  simp [ho, hn, he] at hno

theorem deleteMatch_eq_none_iff :
    deleteMatch request t = none ↔
      ∀ i, (t i).Occupied → (t i).name = request.name → (t i).ext ≠ request.ext := by
  unfold deleteMatch
  rw [List.find?_eq_none]
  simp only [List.mem_finRange, true_imp_iff, memcmp_eq_zero_iff, decide_eq_true_eq, not_and]
  constructor
  · intro h i ho hn he
    exact h i ho hn.symm he.symm
  · intro h i ho hn he
    exact h i ho hn.symm he.symm

/-- The scan for emptiness sees the slots from 3 on. -/
theorem notEmpty_eq_false_iff :
    notEmpty t = false ↔ ∀ j : Fin directoryEntryCount, 3 ≤ j.val → ¬ (t j).Occupied := by
  simp [notEmpty]

/-! ### Requests that change nothing -/

/-- Nothing that the caller or a later request can see has changed. -/
structure Quiet (s : FsState) (mem : Memory) (r : Reply) : Prop where
  clusterMap : r.fs.clusterMap = s.clusterMap
  disk : r.fs.disk = s.disk
  mem : r.mem = mem

/-- The allocation table and the disk have not changed. -/
structure SameDisk (s s' : FsState) : Prop where
  clusterMap : s'.clusterMap = s.clusterMap
  disk : s'.disk = s.disk

theorem SameDisk.rfl : SameDisk s s := ⟨Eq.refl _, Eq.refl _⟩

theorem SameDisk.volume_eq (h : SameDisk s s') : s'.volume = s.volume := by
  unfold FsState.volume
  rw [h.clusterMap, h.disk]

/-! ### Reading -/

/-- `read_directory` without its loop. -/
theorem readDirectory_eq : readDirectory request mem s =
    if request.bufferSize ≠ BitVec.ofNat 32 clusterSize then .ok ⟨-1, mem, s⟩
    else parentCheck s request.parentClusterNumber (.ok ⟨-1, mem, s⟩)
      (.ok (readFolder request mem (s.readDirTable request.parentClusterNumber))) := by
  unfold readDirectory
  rw [readDirectoryLoop_finRange]

/-- `read` in terms of the volume. -/
theorem read_eq : read request mem s =
    parentCheck s request.parentClusterNumber (.ok ⟨-1, mem, s⟩)
      (match readMatch request (s.volume.table request.parentClusterNumber) with
        | some i => readFound request mem (s.readDirTable request.parentClusterNumber) i
        | none => .ok ⟨readMissing request (s.volume.table request.parentClusterNumber), mem,
            s.readDirTable request.parentClusterNumber⟩) := by
  unfold read
  rw [readLoop_finRange]
  rfl

theorem readFolder_fs (request : FAT32DriverRequest) (mem : Memory) (s : FsState) :
    (readFolder request mem s).fs = s ∧
    ((readFolder request mem s).ret ≠ 0 → (readFolder request mem s).mem = mem) := by
  unfold readFolder
  split
  · exact ⟨rfl, fun h0 => absurd rfl h0⟩
  · exact ⟨rfl, fun _ => rfl⟩

/-- A file whose chain ends is copied out, if the buffer is large enough. -/
theorem readFound_of_walk {i : Fin directoryEntryCount} {l : List (BitVec 32)}
    (hw : Walk s.volume.fat fat32FatEndOfFile (s.volume.table p i).cluster l)
    (hr : ∀ b ∈ l, b.toNat < clusterMapSize) : readFound request mem (s.readDirTable p) i =
      .ok (if request.bufferSize < (s.volume.table p i).filesize then ⟨2, mem, s.readDirTable p⟩
        else ⟨0, mem.storeAll request.buf (l.map s.volume.content), s.readDirTable p⟩) := by
  have hchain : readChain s.clusterMap s.disk chainFuel (s.volume.table p i).cluster request.buf
      mem = .ok (mem.storeAll request.buf (l.map s.volume.content)) :=
    readChain_eq_ok_iff.mpr ⟨l, hw, hr, Nat.lt_succ_of_le (walk_length_le hw hr), rfl⟩
  rw [readFound]
  show (if request.bufferSize < (s.volume.table p i).filesize then _ else _) = _
  split_ifs
  · rfl
  · change readChain s.clusterMap s.disk chainFuel (s.readDirTable p |>.dirTableBuf i).cluster
      request.buf mem = _ at hchain
    simp only [FsState.readDirTable] at hchain ⊢
    rw [hchain]

theorem readFound_fs {i : Fin directoryEntryCount} (h : readFound request mem s i = .ok r) :
    r.fs = s ∧ (r.ret ≠ 0 → r.mem = mem) := by
  unfold readFound at h
  split_ifs at h with hsize
  · cases h
    exact ⟨rfl, fun _ => rfl⟩
  · -- only here the memory is written
    split at h
    · cases h
    · cases h
      exact ⟨rfl, fun h0 => absurd rfl h0⟩

theorem readDirectory_fs (h : readDirectory request mem s = .ok r) :
    SameDisk s r.fs ∧ (r.ret ≠ 0 → r.mem = mem) := by
  rw [readDirectory_eq] at h
  split_ifs at h with hsize
  · cases h
    exact ⟨.rfl, fun _ => rfl⟩
  · rcases parentCheck_eq_ok h with h | ⟨-, -, h⟩
    · cases h
      exact ⟨.rfl, fun _ => rfl⟩
    · cases h
      obtain ⟨hfs, hmem⟩ := readFolder_fs request mem
        (s.readDirTable request.parentClusterNumber)
      refine ⟨?_, hmem⟩
      rw [hfs]
      exact ⟨rfl, rfl⟩

theorem read_fs (h : read request mem s = .ok r) :
    SameDisk s r.fs ∧ (r.ret ≠ 0 → r.mem = mem) := by
  rw [read_eq] at h
  rcases parentCheck_eq_ok h with h | ⟨-, -, h⟩
  · cases h
    exact ⟨.rfl, fun _ => rfl⟩
  · split at h
    · obtain ⟨hfs, hmem⟩ := readFound_fs h
      refine ⟨?_, hmem⟩
      rw [hfs]
      exact ⟨rfl, rfl⟩
    · cases h
      exact ⟨⟨rfl, rfl⟩, fun _ => rfl⟩

/-- A read that returns 0 has found a file that is not too large, and has come to the
end of its chain. -/
theorem read_found (h : read request mem s = .ok r) (hret : r.ret = 0) :
    ∃ i, readMatch request (s.volume.table request.parentClusterNumber) = some i ∧
      (s.volume.table request.parentClusterNumber i).filesize ≤ request.bufferSize ∧
      readChain s.clusterMap s.disk chainFuel
        (s.volume.table request.parentClusterNumber i).cluster request.buf mem = .ok r.mem := by
  rw [read_eq] at h
  rcases parentCheck_eq_ok h with h | ⟨-, -, h⟩
  · cases h
    cases hret
  · split at h
    · next i hm =>
      refine ⟨i, hm, ?_⟩
      unfold readFound at h
      split_ifs at h with hsize
      · cases h
        cases hret
      · split at h
        · cases h
        · next mem' hchain =>
          cases h
          exact ⟨BitVec.not_lt.mp hsize, hchain⟩
    · cases h
      exact absurd hret readMissing_ne_zero

/-! ### Write and delete -/

/-- What a `write` that returns 0 has found, and what it has done. -/
structure WriteDone (request : FAT32DriverRequest) (mem : Memory) (s : FsState) (r : Reply) :
    Prop where
  ret_eq : r.ret = 0
  mem_eq : r.mem = mem
  parent_lt : request.parentClusterNumber.toNat < clusterMapSize
  parent_eof : s.clusterMap.view request.parentClusterNumber = fat32FatEndOfFile
  scan : writeScan request (s.volume.table request.parentClusterNumber)
    (List.finRange directoryEntryCount) false = some true
  available : neededSize request.bufferSize ≤ availableSize s.clusterMap
  fs_eq : r.fs = writeCommit request mem (s.readDirTable request.parentClusterNumber)

/-- `write` in terms of the volume. -/
theorem write_eq : write request mem s =
    parentCheck s request.parentClusterNumber (.ok ⟨2, mem, s⟩)
      (match writeScan request (s.volume.table request.parentClusterNumber)
          (List.finRange directoryEntryCount) false with
        | none => .ok ⟨1, mem, s.readDirTable request.parentClusterNumber⟩
        | some false => .ok ⟨-1, mem, s.readDirTable request.parentClusterNumber⟩
        | some true =>
            if availableSize s.clusterMap < neededSize request.bufferSize then
              .ok ⟨-1, mem, s.readDirTable request.parentClusterNumber⟩
            else
              .ok ⟨0, mem,
                writeCommit request mem (s.readDirTable request.parentClusterNumber)⟩) :=
  rfl

theorem write_cases (h : write request mem s = .ok r) :
    (r.ret ≠ 0 ∧ Quiet s mem r) ∨ WriteDone request mem s r := by
  rw [write_eq] at h
  rcases parentCheck_eq_ok h with h | ⟨hlt, hv, h⟩
  · cases h
    exact .inl ⟨by simp, rfl, rfl, rfl⟩
  · cases hscan : writeScan request (s.volume.table request.parentClusterNumber)
        (List.finRange directoryEntryCount) false with
    | none =>
        rw [hscan] at h
        cases h
        exact .inl ⟨by simp, rfl, rfl, rfl⟩
    | some b =>
        rw [hscan] at h
        cases b with
        | false =>
            cases h
            exact .inl ⟨by simp, rfl, rfl, rfl⟩
        | true =>
            dsimp only at h
            split_ifs at h with hav
            · cases h
              exact .inl ⟨by simp, rfl, rfl, rfl⟩
            · cases h
              exact .inr ⟨rfl, rfl, hlt, hv, hscan, not_lt.mp hav, rfl⟩

/-- What a `delete` that returns 0 has found, and what it has done: the entry
in slot `i` was released, and then its clusters. -/
inductive DeleteDone (request : FAT32DriverRequest) (s : FsState) (i : Fin directoryEntryCount)
    (fs : FsState) : Prop
  | subdir (s₁ : FsState) :
      (s.volume.table request.parentClusterNumber i).IsSubdirectory → i ≠ 0 →
      notEmpty (s.volume.table (s.volume.table request.parentClusterNumber i).cluster) = false →
      freeEntry (releaseSlot (s.readDirTable request.parentClusterNumber)
          request.parentClusterNumber i)
        (s.volume.table request.parentClusterNumber i).cluster = .ok s₁ →
      fs = (zeroCluster s₁
        (s.volume.table request.parentClusterNumber i).cluster).writeClusterMap →
      DeleteDone request s i fs
  | file (s₁ : FsState) :
      ¬ (s.volume.table request.parentClusterNumber i).IsSubdirectory →
      freeChain freeFuel (releaseSlot (s.readDirTable request.parentClusterNumber)
          request.parentClusterNumber i)
        (s.volume.table request.parentClusterNumber i).cluster = .ok s₁ →
      fs = s₁.writeClusterMap → DeleteDone request s i fs

/-- `delete` in terms of the volume. -/
theorem delete_eq : delete request mem s =
    parentCheck s request.parentClusterNumber (.ok ⟨-1, mem, s⟩)
      (match deleteMatch request (s.volume.table request.parentClusterNumber) with
        | none => .ok ⟨1, mem, s.readDirTable request.parentClusterNumber⟩
        | some i =>
            if (s.volume.table request.parentClusterNumber i).IsSubdirectory then
              if i = 0 then .ok ⟨-1, mem, s.readDirTable request.parentClusterNumber⟩
              else if notEmpty
                  (s.volume.table (s.volume.table request.parentClusterNumber i).cluster) then
                .ok ⟨2, mem, s.readDirTable request.parentClusterNumber⟩
              else
                match freeEntry (releaseSlot (s.readDirTable request.parentClusterNumber)
                    request.parentClusterNumber i)
                    (s.volume.table request.parentClusterNumber i).cluster with
                | .error e => .error e
                | .ok s₁ => .ok ⟨0, mem, (zeroCluster s₁
                    (s.volume.table request.parentClusterNumber i).cluster).writeClusterMap⟩
            else
              match freeChain freeFuel (releaseSlot (s.readDirTable request.parentClusterNumber)
                  request.parentClusterNumber i)
                  (s.volume.table request.parentClusterNumber i).cluster with
              | .error e => .error e
              | .ok s₁ => .ok ⟨0, mem, s₁.writeClusterMap⟩) :=
  rfl

theorem delete_cases (h : delete request mem s = .ok r) :
    (r.ret ≠ 0 ∧ Quiet s mem r) ∨
      (r.ret = 0 ∧ r.mem = mem ∧ ∃ i,
        deleteMatch request (s.volume.table request.parentClusterNumber) = some i ∧
        DeleteDone request s i r.fs) := by
  rw [delete_eq] at h
  rcases parentCheck_eq_ok h with h | ⟨-, -, h⟩
  · cases h
    exact .inl ⟨by simp, rfl, rfl, rfl⟩
  · cases hm : deleteMatch request (s.volume.table request.parentClusterNumber) with
    | none =>
        rw [hm] at h
        cases h
        exact .inl ⟨by simp, rfl, rfl, rfl⟩
    | some i =>
        rw [hm] at h
        dsimp only at h
        -- a folder is freed alone, and a file with its chain
        split_ifs at h with hsub h0 hne
        · cases h
          exact .inl ⟨by simp, rfl, rfl, rfl⟩
        · cases h
          exact .inl ⟨by simp, rfl, rfl, rfl⟩
        · cases hf : freeEntry (releaseSlot (s.readDirTable request.parentClusterNumber)
              request.parentClusterNumber i)
              (s.volume.table request.parentClusterNumber i).cluster with
          | error e =>
              rw [hf] at h
              cases h
          | ok s₁ =>
              rw [hf] at h
              cases h
              exact .inr ⟨rfl, rfl, i, rfl, .subdir s₁ hsub h0 (by simpa using hne) hf rfl⟩
        · cases hf : freeChain freeFuel (releaseSlot (s.readDirTable request.parentClusterNumber)
              request.parentClusterNumber i)
              (s.volume.table request.parentClusterNumber i).cluster with
          | error e =>
              rw [hf] at h
              cases h
          | ok s₁ =>
              rw [hf] at h
              cases h
              exact .inr ⟨rfl, rfl, i, rfl, .file s₁ hsub hf rfl⟩

/-! ### Every request -/

/-- **A request changes neither the allocation table nor the disk, or it ends
by writing the allocation table out.** -/
theorem exec_cases (h : c.exec s = .ok r) :
    SameDisk s r.fs ∨ (r.ret = 0 ∧ ∃ s₁ : FsState, r.fs = s₁.writeClusterMap) := by
  rcases c with ⟨op, request, mem⟩
  cases op with
  | read => exact .inl (read_fs h).1
  | readDirectory => exact .inl (readDirectory_fs h).1
  | write =>
      rcases write_cases h with ⟨-, hq⟩ | hw
      · exact .inl ⟨hq.clusterMap, hq.disk⟩
      · refine .inr ⟨hw.ret_eq, ?_⟩
        rw [hw.fs_eq]
        unfold writeCommit
        dsimp only
        split_ifs
        · exact ⟨_, rfl⟩
        · exact ⟨_, rfl⟩
  | delete =>
      rcases delete_cases h with ⟨-, hq⟩ | ⟨hret, -, i, -, hd⟩
      · exact .inl ⟨hq.clusterMap, hq.disk⟩
      · cases hd with
        | subdir s₁ _ _ _ _ hfs => exact .inr ⟨hret, _, hfs⟩
        | file s₁ _ _ hfs => exact .inr ⟨hret, _, hfs⟩

/-- **A request that fails leaves no trace.** -/
theorem exec_quiet (h : c.exec s = .ok r) (hret : r.ret ≠ 0) : Quiet s c.mem r := by
  rcases c with ⟨op, request, mem⟩
  cases op with
  | read =>
      obtain ⟨hs, hmem⟩ := read_fs h
      exact ⟨hs.clusterMap, hs.disk, hmem hret⟩
  | readDirectory =>
      obtain ⟨hs, hmem⟩ := readDirectory_fs h
      exact ⟨hs.clusterMap, hs.disk, hmem hret⟩
  | write =>
      rcases write_cases h with ⟨-, hq⟩ | hw
      · exact hq
      · exact absurd hw.ret_eq hret
  | delete =>
      rcases delete_cases h with ⟨-, hq⟩ | ⟨h0, -⟩
      · exact hq
      · exact absurd h0 hret

end Binbows
