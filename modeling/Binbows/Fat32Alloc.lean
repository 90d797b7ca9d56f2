/-
Binbows/Fat32Alloc.lean

The three loops over the allocation table: the allocation loop of `write`, the
reading loop of `read` and the freeing loop of `delete`.

`allocLoop` scans the very table it modifies and uses cluster 0 for "none
yet".  As long as cluster 0 is not free, it takes the lowest-numbered free
clusters, writes the pieces of the buffer to them in order and links them up
(`allocate_spec`).  `readChain` returns exactly on the chains inside the table
that end (`readChain_eq_ok_iff`).  `freeChain` walks a chain and clears it
behind itself; on a chain that ends it zeroes and frees exactly the clusters
of the chain (`freeChain_of_walk`).

The fuel of the two `while` loops is no restriction (`readChain_chainFuel`,
`freeChain_freeFuel`): what they return with any fuel, they return with that.
-/
import Binbows.Volume
import Binbows.Fat32Requests
import Mathlib.Data.Fintype.Card

namespace Binbows

open Chain Volume

variable {t : FAT32FileAllocationTable} {c : BitVec 32} {i j : Fin clusterMapSize}

/-! ### The table as a map on cluster numbers -/

@[simp] theorem toNat_clusterOf (i : Fin clusterMapSize) : (clusterOf i).toNat = i.val := by
  have := i.isLt
  unfold clusterOf
  simp only [BitVec.toNat_ofNat]
  unfold clusterMapSize at *
  omega

theorem clusterOf_injective : Function.Injective clusterOf := by
  intro i j h
  have := congrArg BitVec.toNat h
  simpa [Fin.ext_iff] using this

@[simp] theorem clusterOf_inj : clusterOf i = clusterOf j ↔ i = j := clusterOf_injective.eq_iff

theorem clusterOf_mk (h : c.toNat < clusterMapSize) : clusterOf ⟨c.toNat, h⟩ = c :=
  BitVec.eq_of_toNat_eq (toNat_clusterOf _)

namespace FAT32FileAllocationTable

@[simp] theorem view_clusterOf (t : FAT32FileAllocationTable) (i : Fin clusterMapSize) :
    t.view (clusterOf i) = t i := by
  unfold view
  rw [dif_pos (by rw [toNat_clusterOf]; exact i.isLt)]
  exact congrArg t (Fin.ext (toNat_clusterOf i))

theorem clusterMapAt_of_lt (t : FAT32FileAllocationTable) (h : c.toNat < clusterMapSize) :
    t.clusterMapAt c = .ok (t.view c) := by
  unfold clusterMapAt view
  rw [dif_pos h, dif_pos h]

theorem clusterMapAt_of_ge (t : FAT32FileAllocationTable) (h : clusterMapSize ≤ c.toNat) :
    t.clusterMapAt c = .error .outOfBounds := by
  unfold clusterMapAt
  rw [dif_neg (by omega)]

/-- Writing an entry is writing the map. -/
theorem view_update (t : FAT32FileAllocationTable) (i : Fin clusterMapSize) (x : BitVec 32) :
    view (Function.update t i x) = Function.update t.view (clusterOf i) x := by
  funext c
  by_cases hc : c.toNat < clusterMapSize
  · by_cases hci : c = clusterOf i
    · subst hci
      rw [view_clusterOf, Function.update_self, Function.update_self]
    · have hne : (⟨c.toNat, hc⟩ : Fin clusterMapSize) ≠ i := by
        rintro rfl
        exact hci (clusterOf_mk hc).symm
      rw [Function.update_of_ne hci]
      unfold view
      rw [dif_pos hc, dif_pos hc, Function.update_of_ne hne]
  · have hci : c ≠ clusterOf i := by
      rintro rfl
      rw [toNat_clusterOf] at hc
      exact hc i.isLt
    rw [Function.update_of_ne hci]
    unfold view
    rw [dif_neg hc, dif_neg hc]

/-- Equal maps on cluster numbers are equal tables. -/
theorem clusterMap_ext {t' : FAT32FileAllocationTable} (h : ∀ c, t'.view c = t.view c) :
    t' = t := by
  funext k
  rw [← view_clusterOf t', ← view_clusterOf t, h]

end FAT32FileAllocationTable

open FAT32FileAllocationTable

/-! ### Allocation -/

/-- The free clusters among `is`. -/
def freeIn (t : FAT32FileAllocationTable) (is : List (Fin clusterMapSize)) :
    List (Fin clusterMapSize) :=
  is.filter fun i => t i = fat32FatEmptyEntry

/-- The free clusters, lowest number first. -/
def freeClusters (t : FAT32FileAllocationTable) : List (Fin clusterMapSize) :=
  freeIn t (List.finRange clusterMapSize)

theorem availableSize_eq (t : FAT32FileAllocationTable) :
    availableSize t = (freeClusters t).length :=
  List.countP_eq_length_filter

theorem nodup_freeClusters (t : FAT32FileAllocationTable) : (freeClusters t).Nodup :=
  (List.nodup_finRange _).filter _

theorem mem_freeClusters : i ∈ freeClusters t ↔ t i = fat32FatEmptyEntry := by
  simp [freeClusters, freeIn]

theorem freeIn_update {is : List (Fin clusterMapSize)} (x : BitVec 32) (h : j ∉ is) :
    freeIn (Function.update t j x) is = freeIn t is := by
  refine List.filter_congr fun i hi => ?_
  have hne : i ≠ j := by
    rintro rfl
    exact h hi
  rw [Function.update_of_ne hne]

/-- The pieces of the buffer written to the clusters `l`, in order. -/
def writeData (mem : Memory) : (disk : Disk) → (buf : BitVec 32) → List (Fin clusterMapSize) → Disk
  | disk, _, [] => disk
  | disk, buf, i :: l =>
      writeData mem (writeClusters disk (mem.load buf) (clusterOf i))
        (buf + BitVec.ofNat 32 clusterSize) l

variable {request : FAT32DriverRequest} {mem : Memory} {needed : Nat}
  {is l : List (Fin clusterMapSize)} {a : AllocState}

/-- The loop takes the first free clusters, up to the number needed, one after
the other. -/
theorem allocLoop_eq_foldl (request : FAT32DriverRequest) (mem : Memory) (needed : Nat)
    (hnodup : is.Nodup)
    (hlast : a.lastClusterWritten ∈ is → a.lastClusterWritten = 0)
    (hzero : ∀ j ∈ is, a.clusterMap j = fat32FatEmptyEntry → j ≠ 0) :
    allocLoop request mem needed is a =
      ((freeIn a.clusterMap is).take (needed - a.sizeWritten)).foldl
        (AllocState.take request mem) a := by
  -- by the clusters that are left: the scan takes those that are free, while it needs more
  induction is generalizing a with
  | nil => simp [allocLoop, freeIn]
  | cons i is ih =>
      obtain ⟨hi, hnodup⟩ := List.nodup_cons.mp hnodup
      rw [allocLoop]
      by_cases hsize : a.sizeWritten < needed
      · rw [if_pos hsize]
        by_cases hfree : a.clusterMap i = fat32FatEmptyEntry
        · -- cluster `i` is taken: the entry that is linked to it lies behind the scan
          have hsame : freeIn (a.take request mem i).clusterMap is = freeIn a.clusterMap is := by
            unfold AllocState.take
            dsimp only
            split_ifs with h0
            · exact freeIn_update _ fun hmem => h0 (hlast (List.mem_cons_of_mem _ hmem))
            · rfl
          have hcons : freeIn a.clusterMap (i :: is) = i :: freeIn a.clusterMap is := by
            simp [freeIn, hfree]
          have hsub : needed - a.sizeWritten = (needed - (a.sizeWritten + 1)) + 1 := by omega
          rw [if_pos hfree, hcons, hsub, List.take_succ_cons, List.foldl_cons, ih hnodup, hsame]
          · rfl
          -- the scan does not come back to the cluster that was taken last
          · intro hmem
            exact absurd hmem hi
          · intro j hj hje
            have hje' : j ∈ freeIn (a.take request mem i).clusterMap is := by
              simp [freeIn, hj, hje]
            rw [hsame] at hje'
            exact hzero j (List.mem_cons_of_mem _ hj) (by simpa [freeIn, hj] using hje')
        · have hcons : freeIn a.clusterMap (i :: is) = freeIn a.clusterMap is := by
            simp [freeIn, hfree]
          rw [if_neg hfree, hcons]
          exact ih hnodup (fun hmem => hlast (List.mem_cons_of_mem _ hmem))
            fun j hj => hzero j (List.mem_cons_of_mem _ hj)
      -- enough is taken, and the rest of the scan does nothing
      · have hsub : needed - a.sizeWritten = 0 := by omega
        rw [if_neg hsize, hsub, List.take_zero, List.foldl_nil]

theorem foldl_take_disk :
    (l.foldl (AllocState.take request mem) a).disk =
      if request.bufferSize ≠ 0 then writeData mem a.disk a.buf l else a.disk := by
  induction l generalizing a with
  | nil => simp [writeData]
  | cons i l ih =>
      have htake : (a.take request mem i).disk = if request.bufferSize ≠ 0 then
          writeClusters a.disk (mem.load a.buf) (clusterOf i) else a.disk := rfl
      rw [List.foldl_cons, ih, htake]
      split_ifs with h
      · rfl
      · rfl

theorem foldl_take_last :
    (l.foldl (AllocState.take request mem) a).lastClusterWritten =
      l.getLastD a.lastClusterWritten := by
  induction l generalizing a with
  | nil => rfl
  | cons i l ih =>
      rw [List.foldl_cons, ih, List.getLastD_cons]
      rfl

/-- Once a cluster is taken, the first one stays. -/
theorem foldl_take_first (h0 : a.lastClusterWritten ≠ 0) (hl : ∀ i ∈ l, i ≠ 0) :
    (l.foldl (AllocState.take request mem) a).firstClusterWritten = a.firstClusterWritten := by
  induction l generalizing a with
  | nil => rfl
  | cons i l ih =>
      have htake : (a.take request mem i).firstClusterWritten = a.firstClusterWritten := if_pos h0
      rw [List.foldl_cons, ih (hl i List.mem_cons_self) fun j hj => hl j (List.mem_cons_of_mem _ hj),
        htake]

/-- Once a cluster is taken, the loop and the final marker chain that cluster
and the ones taken after it up. -/
theorem foldl_take_fat (h0 : a.lastClusterWritten ≠ 0)
    (hnodup : (a.lastClusterWritten :: l).Nodup) (hl : ∀ i ∈ l, i ≠ 0) :
    view (Function.update (l.foldl (AllocState.take request mem) a).clusterMap
        (l.foldl (AllocState.take request mem) a).lastClusterWritten fat32FatEndOfFile) =
      link a.clusterMap.view fat32FatEndOfFile ((a.lastClusterWritten :: l).map clusterOf) := by
  induction l generalizing a with
  | nil =>
      rw [List.foldl_nil, view_update]
      rfl
  | cons i l ih =>
      obtain ⟨hlast, hnodup⟩ := List.nodup_cons.mp hnodup
      have htake : (a.take request mem i).clusterMap =
          Function.update a.clusterMap a.lastClusterWritten (clusterOf i) := if_pos h0
      have hmem : clusterOf a.lastClusterWritten ∉ (i :: l).map clusterOf := by
        rw [List.mem_map_of_injective clusterOf_injective]
        exact hlast
      rw [List.foldl_cons, ih (a := a.take request mem i) (hl i List.mem_cons_self) hnodup
        fun j hj => hl j (List.mem_cons_of_mem _ hj)]
      rw [htake, view_update, List.map_cons, List.map_cons]
      rw [show (a.take request mem i).lastClusterWritten = i from rfl]
      rw [List.map_cons] at hmem
      rw [link_update hmem]
      rfl

/-- The clusters that a request for `n` clusters gets. -/
def takenClusters (t : FAT32FileAllocationTable) (n : Nat) : List (Fin clusterMapSize) :=
  (freeClusters t).take n

theorem neededSize_pos (n : BitVec 32) : 0 < neededSize n := by
  unfold neededSize clusterSize
  dsimp only
  split_ifs <;> omega

/-- `needed_size` is the size of the buffer in clusters, rounded up. -/
theorem neededSize_eq {n : BitVec 32} (h : n ≠ 0) :
    neededSize n = (n.toNat + (clusterSize - 1)) / clusterSize := by
  have hpos : n.toNat ≠ 0 := fun h0 => h (BitVec.eq_of_toNat_eq h0)
  unfold neededSize clusterSize
  dsimp only
  split_ifs with hrem h0 h0
  · exact h0.elim
  · omega
  · omega
  · omega

/-- **What the allocation of `write` does**, as long as cluster 0 is not free
and enough clusters are. -/
theorem allocate_spec (mem : Memory) {s : FsState} (h0 : s.clusterMap 0 ≠ fat32FatEmptyEntry)
    (hav : neededSize request.bufferSize ≤ availableSize s.clusterMap) :
    ∃ first rest, takenClusters s.clusterMap (neededSize request.bufferSize) = first :: rest ∧
      (allocate request mem s).clusterMap.view =
        link s.clusterMap.view fat32FatEndOfFile ((first :: rest).map clusterOf) ∧
      (allocate request mem s).disk =
        (if request.bufferSize ≠ 0 then writeData mem s.disk request.buf (first :: rest)
          else s.disk) ∧
      (allocate request mem s).firstClusterWritten = first ∧
      (allocate request mem s).lastClusterWritten = rest.getLastD first := by
  have hpos : 0 < neededSize request.bufferSize := neededSize_pos _
  have hnodup : (takenClusters s.clusterMap (neededSize request.bufferSize)).Nodup :=
    (nodup_freeClusters _).sublist (List.take_sublist _ _)
  have hzero : ∀ i ∈ takenClusters s.clusterMap (neededSize request.bufferSize), i ≠ 0 := by
    rintro i hi rfl
    exact h0 (mem_freeClusters.mp (List.mem_of_mem_take hi))
  -- cluster 0 is in use, so "no cluster yet" is a mark that no cluster has
  have hloop := allocLoop_eq_foldl request mem (neededSize request.bufferSize)
    (a := ⟨s.clusterMap, s.disk, request.buf, 0, 0, 0⟩)
    (List.nodup_finRange clusterMapSize) (fun _ => rfl) fun j _ hj => by
      rintro rfl
      exact h0 hj
  rw [availableSize_eq] at hav
  have hlen : (takenClusters s.clusterMap (neededSize request.bufferSize)).length
      = neededSize request.bufferSize := by
    rw [takenClusters, List.length_take]
    omega
  change _ = (takenClusters s.clusterMap (neededSize request.bufferSize)).foldl _ _ at hloop
  cases hl : takenClusters s.clusterMap (neededSize request.bufferSize) with
  -- at least one cluster is taken
  | nil =>
      rw [hl, List.length_nil] at hlen
      omega
  | cons first rest =>
      rw [hl] at hloop hnodup hzero
      have hrest : ∀ i ∈ rest, i ≠ 0 := fun i hi => hzero i (List.mem_cons_of_mem _ hi)
      have hfirst : first ≠ 0 := hzero first List.mem_cons_self
      refine ⟨first, rest, rfl, ?_, ?_, ?_, ?_⟩
      · unfold allocate
        rw [hloop, List.foldl_cons]
        exact foldl_take_fat (a := AllocState.take request mem _ first) hfirst hnodup hrest
      · unfold allocate
        rw [hloop, foldl_take_disk]
      · unfold allocate
        rw [hloop, List.foldl_cons]
        exact foldl_take_first (a := AllocState.take request mem _ first) hfirst hrest
      · unfold allocate
        rw [hloop, foldl_take_last, List.getLastD_cons]

/-! ### What the written clusters hold -/

/-- The pieces of the buffer, in order. -/
def loads (mem : Memory) : (buf : BitVec 32) → (n : Nat) → List ClusterBuffer
  | _, 0 => []
  | buf, n + 1 => mem.load buf :: loads mem (buf + BitVec.ofNat 32 clusterSize) n

theorem length_loads (mem : Memory) (buf : BitVec 32) (n : Nat) :
    (loads mem buf n).length = n := by
  induction n generalizing buf with
  | zero => rfl
  | succ n ih => rw [loads, List.length_cons, ih]

/-- Piece `k` of the buffer. -/
theorem getElem_loads {mem : Memory} {buf : BitVec 32} {n k : Nat}
    (hk : k < (loads mem buf n).length) :
    (loads mem buf n)[k] = mem.load (buf + BitVec.ofNat 32 (k * clusterSize)) := by
  induction n generalizing buf k with
  | zero => exact absurd hk (Nat.not_lt_zero k)
  | succ n ih =>
      cases k with
      | zero => simp [loads]
      | succ k =>
          simp only [loads, List.getElem_cons_succ]
          rw [ih, Nat.succ_mul, BitVec.ofNat_add, BitVec.add_assoc,
            BitVec.add_comm (BitVec.ofNat 32 clusterSize)]

theorem clusterOf_lt (i : Fin clusterMapSize) : (clusterOf i).toNat < clusterMapSize := by
  rw [toNat_clusterOf]
  exact i.isLt

/-- Clusters that are not written keep their content. -/
theorem readClusters_writeData_of_notMem {disk : Disk} {buf : BitVec 32}
    (hc : c.toNat < clusterMapSize) (h : c ∉ l.map clusterOf) :
    readClusters (writeData mem disk buf l) c = readClusters disk c := by
  induction l generalizing disk buf with
  | nil => rfl
  | cons i l ih =>
      rw [List.map_cons, List.mem_cons, not_or] at h
      rw [writeData, ih h.2, readClusters_writeClusters (clusterOf_lt i) hc,
        if_neg (Ne.symm h.1)]

/-- The sectors of other clusters keep their content. -/
theorem writeData_of_ne {disk : Disk} {buf : BitVec 32} {b : Nat}
    (h : ∀ c ∈ l.map clusterOf, b / clusterBlockCount ≠ c.toNat) :
    writeData mem disk buf l b = disk b := by
  induction l generalizing disk buf with
  | nil => rfl
  | cons i l ih =>
      rw [List.map_cons, List.forall_mem_cons] at h
      rw [writeData, ih h.2, writeClusters_of_ne (clusterOf_lt i) h.1]

/-- The written clusters hold the pieces of the buffer, in order. -/
theorem map_readClusters_writeData (disk : Disk) {buf : BitVec 32} (h : l.Nodup) :
    (l.map clusterOf).map (readClusters (writeData mem disk buf l)) = loads mem buf l.length := by
  induction l generalizing disk buf with
  | nil => rfl
  | cons i l ih =>
      obtain ⟨hi, hl⟩ := List.nodup_cons.mp h
      have hnot : clusterOf i ∉ l.map clusterOf := by
        rw [List.mem_map_of_injective clusterOf_injective]
        exact hi
      have hhead : readClusters (writeData mem disk buf (i :: l)) (clusterOf i) = mem.load buf := by
        rw [writeData, readClusters_writeData_of_notMem (clusterOf_lt i) hnot,
          readClusters_writeClusters_self]
      rw [List.map_cons, List.map_cons, hhead, List.length_cons, loads, writeData, ih _ hl]

/-! ### Reading a chain -/

/-- **What the loop of `read` does**: with `fuel` it returns exactly on the
chains inside the table that are shorter than the fuel, and copies their
clusters out one after the other. -/
theorem readChain_eq_ok_iff {disk : Disk} {fuel : Nat} {buf : BitVec 32} {mem' : Memory} :
    readChain t disk fuel c buf mem = .ok mem' ↔
      ∃ l, Walk t.view fat32FatEndOfFile c l ∧ (∀ b ∈ l, b.toNat < clusterMapSize) ∧
        l.length < fuel ∧ mem' = mem.storeAll buf (l.map (readClusters disk)) := by
  -- by the fuel: one more link, or the end
  induction fuel generalizing c buf mem with
  | zero => simp [readChain]
  | succ fuel ih =>
      rw [readChain]
      split_ifs with hc
      · -- the chain is at its end
        subst hc
        constructor
        · intro h
          cases h
          exact ⟨[], .done, by simp, Nat.succ_pos _, rfl⟩
        · rintro ⟨l, hw, -, -, rfl⟩
          obtain rfl := hw.unique .done
          rfl
      · by_cases hlt : c.toNat < clusterMapSize
        · rw [clusterMapAt_of_lt t hlt]
          dsimp only
          rw [ih]
          constructor
          · rintro ⟨l, hw, hr, hlen, rfl⟩
            refine ⟨c :: l, .step hc hw, ?_, by simpa using hlen, rfl⟩
            exact List.forall_mem_cons.mpr ⟨hlt, hr⟩
          · rintro ⟨l, hw, hr, hlen, rfl⟩
            cases hw with
            | done => exact absurd rfl hc
            | step _ hw =>
                refine ⟨_, hw, fun b hb => hr b (List.mem_cons_of_mem _ hb), ?_, rfl⟩
                simpa using hlen
        -- a link out of the table is an error, and a walk would go through it
        · rw [clusterMapAt_of_ge t (not_lt.mp hlt)]
          constructor
          · intro h
            cases h
          · rintro ⟨l, hw, hr, -, -⟩
            exact absurd (hr c (hw.head_mem hc)) hlt

/-- A chain inside the table is not longer than the table. -/
theorem walk_length_le {next : BitVec 32 → BitVec 32} {cs : List (BitVec 32)}
    (hw : Walk next fat32FatEndOfFile c cs) (hr : ∀ b ∈ cs, b.toNat < clusterMapSize) :
    cs.length ≤ clusterMapSize := by
  have hle := hw.length_le (s := (Finset.univ : Finset (Fin clusterMapSize)).image clusterOf)
    fun b hb => Finset.mem_image.mpr ⟨⟨b.toNat, hr b hb⟩, Finset.mem_univ _, clusterOf_mk _⟩
  have hcard := Finset.card_image_le (s := (Finset.univ : Finset (Fin clusterMapSize)))
    (f := clusterOf)
  rw [Finset.card_univ, Fintype.card_fin] at hcard
  exact hle.trans hcard

/-- `chainFuel` is enough: what the loop returns with any fuel, it returns
with that. -/
theorem readChain_chainFuel {disk : Disk} {fuel : Nat} {buf : BitVec 32} {mem' : Memory}
    (h : readChain t disk fuel c buf mem = .ok mem') :
    readChain t disk chainFuel c buf mem = .ok mem' := by
  obtain ⟨cs, hw, hr, -, rfl⟩ := readChain_eq_ok_iff.mp h
  exact readChain_eq_ok_iff.mpr ⟨cs, hw, hr, Nat.lt_succ_of_le (walk_length_le hw hr), rfl⟩

/-! ### Freeing a chain -/

/-- Zero clusters on disk, one after the other. -/
def zeroClusters (disk : Disk) (cs : List (BitVec 32)) : Disk :=
  cs.foldl (fun d c => writeClusters d 0 c) disk

theorem readClusters_zeroClusters {disk : Disk} {cs : List (BitVec 32)}
    (hr : ∀ b ∈ cs, b.toNat < clusterMapSize) (hc : c.toNat < clusterMapSize) :
    readClusters (zeroClusters disk cs) c = if c ∈ cs then 0 else readClusters disk c := by
  unfold zeroClusters
  induction cs generalizing disk with
  | nil => rfl
  | cons b cs ih =>
      rw [List.forall_mem_cons] at hr
      rw [List.foldl_cons, ih hr.2, readClusters_writeClusters hr.1 hc]
      by_cases hcs : c ∈ cs
      · rw [if_pos hcs, if_pos (List.mem_cons_of_mem _ hcs)]
      · by_cases hcb : c = b
        · rw [if_neg hcs, if_pos hcb.symm, if_pos (hcb ▸ List.mem_cons_self)]
        · rw [if_neg hcs, if_neg (Ne.symm hcb), if_neg (by simp [hcs, hcb])]

/-- The sectors of other clusters keep their content. -/
theorem zeroClusters_of_ne {disk : Disk} {cs : List (BitVec 32)} {b : Nat}
    (hr : ∀ c ∈ cs, c.toNat < clusterMapSize) (h : ∀ c ∈ cs, b / clusterBlockCount ≠ c.toNat) :
    zeroClusters disk cs b = disk b := by
  unfold zeroClusters
  induction cs generalizing disk with
  | nil => rfl
  | cons c cs ih =>
      rw [List.forall_mem_cons] at hr h
      rw [List.foldl_cons, ih hr.2 h.2, writeClusters_of_ne hr.1 h.1]

theorem freeEntry_of_lt {s : FsState} (h : c.toNat < clusterMapSize) :
    freeEntry s c = .ok { s with
      clusterMap := Function.update s.clusterMap ⟨c.toNat, h⟩ fat32FatEmptyEntry } :=
  dif_pos h

theorem exists_freeEntry {s : FsState} (h : c.toNat < clusterMapSize) :
    ∃ s', freeEntry s c = .ok s' ∧ s'.disk = s.disk ∧
      s'.clusterMap.view = Function.update s.clusterMap.view c fat32FatEmptyEntry := by
  refine ⟨_, freeEntry_of_lt h, rfl, ?_⟩
  show view (Function.update s.clusterMap _ _) = _
  rw [view_update, clusterOf_mk]

/-- One step of the loop inside the table. -/
theorem freeChain_step {s : FsState} {fuel : Nat} (hne : c ≠ fat32FatEndOfFile)
    (hlt : c.toNat < clusterMapSize) :
    freeChain (fuel + 1) s c = freeChain fuel { zeroCluster s c with
      clusterMap := Function.update s.clusterMap ⟨c.toNat, hlt⟩ fat32FatEmptyEntry }
      (s.clusterMap ⟨c.toNat, hlt⟩) := by
  rw [freeChain, if_neg hne, clusterMapAt_of_lt _ hlt]
  dsimp only
  rw [freeEntry_of_lt hlt]
  dsimp only
  unfold view
  rw [dif_pos hlt]
  rfl

/-- **What the freeing loop of `delete` does** on a chain inside the table. -/
theorem freeChain_of_walk {s : FsState} {cs : List (BitVec 32)} {fuel : Nat}
    (hw : Walk s.clusterMap.view fat32FatEndOfFile c cs)
    (hr : ∀ b ∈ cs, b.toNat < clusterMapSize) (hfuel : cs.length < fuel) :
    ∃ s', freeChain fuel s c = .ok s' ∧
      (∀ b, s'.clusterMap.view b = if b ∈ cs then fat32FatEmptyEntry else s.clusterMap.view b) ∧
      s'.disk = zeroClusters s.disk cs := by
  -- by the chain, as long as there is fuel for it
  induction cs generalizing s c fuel with
  | nil =>
      obtain rfl := walk_nil_iff.mp hw
      obtain ⟨fuel, rfl⟩ := Nat.exists_eq_succ_of_ne_zero (Nat.ne_of_gt hfuel)
      exact ⟨s, if_pos rfl, by simp, rfl⟩
  | cons b cs ih =>
      obtain ⟨rfl, hne, hnext⟩ := walk_cons_iff.mp hw
      obtain ⟨hb, -⟩ := List.nodup_cons.mp hw.nodup
      obtain ⟨hlt, hr⟩ := List.forall_mem_cons.mp hr
      obtain ⟨fuel, rfl⟩ := Nat.exists_eq_succ_of_ne_zero (Nat.ne_of_gt (Nat.zero_lt_of_lt hfuel))
      -- the successor was read before the entry is cleared, and the rest of the
      -- chain does not come back to it
      let s₁ : FsState := { zeroCluster s b with
        clusterMap := Function.update s.clusterMap ⟨b.toNat, hlt⟩ fat32FatEmptyEntry }
      have hview : s₁.clusterMap.view = Function.update s.clusterMap.view b fat32FatEmptyEntry := by
        show view (Function.update s.clusterMap _ _) = _
        rw [view_update, clusterOf_mk]
      have hrest : Walk s₁.clusterMap.view fat32FatEndOfFile (s.clusterMap.view b) cs := by
        rw [hview]
        refine hnext.congr fun x hx => Function.update_of_ne ?_ _ _
        rintro rfl
        exact hb hx
      obtain ⟨s', hs', hfat, hdisk⟩ := ih hrest hr (Nat.lt_of_succ_lt_succ hfuel)
      refine ⟨s', ?_, ?_, ?_⟩
      · have hnext' : s.clusterMap.view b = s.clusterMap ⟨b.toNat, hlt⟩ := dif_pos hlt
        rw [freeChain_step hne hlt, ← hnext']
        exact hs'
      -- what is freed is the chain, one cluster after the other
      · intro x
        rw [hfat, hview]
        by_cases hx : x ∈ cs
        · rw [if_pos hx, if_pos (List.mem_cons_of_mem _ hx)]
        · by_cases hxb : x = b
          · rw [if_neg hx, hxb, Function.update_self, if_pos List.mem_cons_self]
          · rw [if_neg hx, Function.update_of_ne hxb, if_neg (by simp [hx, hxb])]
      · rw [hdisk]
        rfl

/-! ### The fuel of the freeing loop -/

/-- The entries that are not free. -/
def usedEntries (t : FAT32FileAllocationTable) : Nat :=
  (Finset.univ.filter fun i => t i ≠ fat32FatEmptyEntry).card

theorem usedEntries_le (t : FAT32FileAllocationTable) : usedEntries t ≤ clusterMapSize := by
  have h := Finset.card_filter_le (Finset.univ : Finset (Fin clusterMapSize))
    fun i => t i ≠ fat32FatEmptyEntry
  rwa [Finset.card_univ, Fintype.card_fin] at h

theorem usedEntries_update (h : t i ≠ fat32FatEmptyEntry) :
    usedEntries (Function.update t i fat32FatEmptyEntry) + 1 = usedEntries t := by
  have hi : i ∈ Finset.univ.filter fun j => t j ≠ fat32FatEmptyEntry := by simpa using h
  have he : (Finset.univ.filter fun j => Function.update t i fat32FatEmptyEntry j ≠
      fat32FatEmptyEntry) = (Finset.univ.filter fun j => t j ≠ fat32FatEmptyEntry).erase i := by
    ext j
    by_cases hj : j = i
    · subst hj
      simp
    · simp [hj]
  unfold usedEntries
  rw [he, Finset.card_erase_add_one hi]

theorem freeChain_of_ge {s : FsState} {fuel : Nat} (hne : c ≠ fat32FatEndOfFile)
    (hge : clusterMapSize ≤ c.toNat) : freeChain (fuel + 1) s c = .error .outOfBounds := by
  rw [freeChain, if_neg hne, clusterMapAt_of_ge _ hge]

/-- Once cluster 0 is free, the loop goes round there for ever. -/
theorem freeChain_zero_ne_ok {s s' : FsState} {fuel : Nat}
    (h : s.clusterMap 0 = fat32FatEmptyEntry) : freeChain fuel s 0#32 ≠ .ok s' := by
  induction fuel generalizing s with
  | zero =>
      intro hok
      cases hok
  | succ fuel ih =>
      rw [freeChain_step (by decide) (by decide)]
      have hnext : s.clusterMap ⟨(0#32).toNat, by decide⟩ = 0#32 := h
      rw [hnext]
      refine ih ?_
      exact Function.update_self (0 : Fin clusterMapSize) fat32FatEmptyEntry s.clusterMap

/-- `freeFuel` is enough: every step frees an entry, or stands on a free one
and goes to cluster 0. -/
theorem freeChain_enough {s s' : FsState} {fuel m : Nat} (h : freeChain fuel s c = .ok s')
    (hm : 2 * usedEntries s.clusterMap + 2 ≤ m) : freeChain m s c = .ok s' := by
  -- two steps at a time: a step on a free entry goes to cluster 0, which is in use
  induction fuel using Nat.strong_induction_on generalizing s c m with
  | _ fuel ih =>
  cases fuel with
  | zero => cases h
  | succ fuel =>
  obtain ⟨m, rfl⟩ := Nat.exists_eq_add_of_le' (Nat.le_of_add_left_le hm)
  by_cases hc : c = fat32FatEndOfFile
  · rw [freeChain, if_pos hc] at h ⊢
    exact h
  by_cases hlt : c.toNat < clusterMapSize
  · rw [show m + 2 = (m + 1) + 1 from rfl]
    rw [freeChain_step hc hlt] at h ⊢
    by_cases hfree : s.clusterMap ⟨c.toNat, hlt⟩ = fat32FatEmptyEntry
    · rw [hfree] at h ⊢
      have hsame : Function.update s.clusterMap ⟨c.toNat, hlt⟩ fat32FatEmptyEntry
          = s.clusterMap := by
        rw [← hfree]
        exact Function.update_eq_self _ _
      rw [hsame] at h ⊢
      -- at a free cluster 0 the loop would stay for ever, one in use it frees
      by_cases h0 : s.clusterMap 0 = fat32FatEmptyEntry
      · exact absurd h (freeChain_zero_ne_ok h0)
      · cases fuel with
        | zero => cases h
        | succ fuel =>
            rw [freeChain_step (by decide) (by decide)] at h ⊢
            refine ih fuel (by omega) h ?_
            have hu := usedEntries_update (t := s.clusterMap) (i := 0) h0
            change 2 * usedEntries (Function.update s.clusterMap 0 fat32FatEmptyEntry) + 2 ≤ m
            omega
    -- a step on an entry in use frees it
    · refine ih fuel (by omega) h ?_
      have hu := usedEntries_update (t := s.clusterMap) hfree
      dsimp only
      omega
  · rw [freeChain_of_ge hc (not_lt.mp hlt)] at h
    cases h

theorem freeChain_freeFuel {s s' : FsState} {fuel : Nat} (h : freeChain fuel s c = .ok s') :
    freeChain freeFuel s c = .ok s' := by
  refine freeChain_enough h ?_
  have hle := usedEntries_le s.clusterMap
  unfold freeFuel
  omega

end Binbows
