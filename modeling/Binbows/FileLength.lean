/-
Binbows/FileLength.lean

What becomes of the length of a file.

`write` puts whole clusters on the disk and records their size; `read` compares that
size with the size of the buffer and copies whole clusters out.  The length that was
asked for is kept where it is a whole number of clusters, and nowhere else
(`file_length_kept_iff`).

One parent is out of line for another reason.  A file written below the cluster of the
allocation table is gone as soon as the table is written out, and nothing that the
table happens to look like there can be read as a file (`not_read_below_fat`).
-/
import Binbows.FileContents

namespace Binbows

open Chain Bytes Volume Run FAT32FileAllocationTable

variable {request rd : FAT32DriverRequest} {mem mem' rmem : Memory} {s s' : FsState} {r r' : Reply}
  {i j : Fin directoryEntryCount} {l : List (Fin clusterMapSize)} {c : BitVec 32}

/-! ### The allocation table read as a directory -/

/-- What an entry of the allocation table can be. -/
def FatValue (x : BitVec 32) : Prop :=
  x = fat32FatEmptyEntry ∨ x = fat32FatEndOfFile ∨ x = cluster0Value ∨ x.toNat < clusterMapSize

theorem Volume.WellFormed.fatValue (h : s.volume.WellFormed) (c : BitVec 32) :
    FatValue (s.volume.fat c) := by
  by_cases hlt : c.toNat < clusterMapSize
  swap
  · exact .inl (dif_neg hlt)
  by_cases h3 : 3 ≤ c.toNat
  · by_cases ho : ∃ d i, s.volume.Owns d i c
    · obtain ⟨d, i, hd, l, hl, hc⟩ := ho
      cases hl with
      | subdir hs =>
          obtain rfl := List.mem_singleton.mp hc
          exact .inr (.inl (h.fat_directory (.child hd (child_eq_some_iff.mpr ⟨hs, rfl⟩))))
      | file hf hw =>
          obtain ⟨m, hm⟩ := h.file_linked hd hf
          obtain rfl := hw.unique hm.walk
          rcases hm.walk.next_mem hc with hn | hn
          · exact .inr (.inl hn)
          · exact .inr (.inr (.inr (hm.range _ hn).2))
    · exact .inl (h.free ⟨h3, hlt⟩ fun d i hdi => ho ⟨d, i, hdi⟩)
  · have hsmall : c.toNat = 0 ∨ c.toNat = 1 ∨ c.toNat = 2 := by omega
    rcases hsmall with h0 | h0 | h0
    · obtain rfl : c = 0#32 := BitVec.eq_of_toNat_eq h0
      exact .inr (.inr (.inl h.fat_zero))
    · obtain rfl : c = fatClusterNumber := BitVec.eq_of_toNat_eq h0
      exact .inr (.inl h.fat_one)
    · obtain rfl : c = rootClusterNumber := BitVec.eq_of_toNat_eq h0
      exact .inr (.inl (h.fat_directory .root))

/-- Linking a new file keeps the entries what they can be. -/
theorem FileCommitted.fatValue (hf : FileCommitted request mem s s' i l) (h : s.volume.WellFormed)
    (c : BitVec 32) : FatValue (s'.volume.fat c) := by
  have hfat : s'.volume.fat c = link s.volume.fat fat32FatEndOfFile (l.map clusterOf) c :=
    congrFun hf.fat c
  rw [hfat]
  by_cases hc : c ∈ l.map clusterOf
  · rcases link_mem (hf.nodup.map clusterOf_injective) hc with hn | hn
    · exact .inr (.inl hn)
    · exact .inr (.inr (.inr (hf.range h.toIntact hn).2))
  · rw [link_of_notMem hc]
    exact h.fatValue c

/-- Entry `k` of the eight that lie where slot `i` of a directory would. -/
def fatEntry (i : Fin directoryEntryCount) (k : Fin 8) : Fin clusterMapSize :=
  ⟨8 * i + k, by
    have hi : i.val < 64 := i.isLt
    have hk := k.isLt
    show 8 * i.val + k.val < 512
    omega⟩

/-- The cluster number in a slot of the allocation table read as a directory: the lower
half of one entry, and the upper half of the next. -/
theorem cluster_of_fat (t : FAT32FileAllocationTable) (i : Fin directoryEntryCount) :
    (FAT32DirectoryTable.ofCluster t.toCluster i).cluster =
      join16 ((t (fatEntry i 5)).setWidth 16) ((t (fatEntry i 6) >>> 16).setWidth 16) := by
  have hbyte : ∀ k : Fin 32, group (n := directoryEntryCount) t.toCluster i k =
      bytes32 (t (fatEntry i ⟨k / 4, by omega⟩)) ⟨k % 4, by omega⟩ := by
    intro k
    show bytes32 (t _) _ = _
    have hval : (finProdFinEquiv (i, k)).val = k.val + 32 * i.val := rfl
    congr 2
    · apply Fin.ext
      show (finProdFinEquiv (i, k)).val / 4 = 8 * i.val + k.val / 4
      omega
    · apply Fin.ext
      show (finProdFinEquiv (i, k)).val % 4 = k.val % 4
      omega
  have hcluster : ∀ b : Fin 32 → Byte, (FAT32DirectoryEntry.ofBytes b).cluster =
      join16 (word16 fun n => b ⟨20 + n, by omega⟩) (word16 fun n => b ⟨26 + n, by omega⟩) :=
    fun _ => rfl
  rw [FAT32DirectoryTable.ofCluster, hcluster]
  simp only [hbyte]
  rw [← word16_lower (t (fatEntry i 5)), ← word16_upper (t (fatEntry i 6))]
  rfl

/-- Such a number is no end of a chain, and inside the table it is only 0. -/
theorem cluster_of_fat_cases {t : FAT32FileAllocationTable} (ht : ∀ k, FatValue (t k))
    (i : Fin directoryEntryCount) :
    (FAT32DirectoryTable.ofCluster t.toCluster i).cluster ≠ fat32FatEndOfFile ∧
      ((FAT32DirectoryTable.ofCluster t.toCluster i).cluster.toNat < clusterMapSize →
        (FAT32DirectoryTable.ofCluster t.toCluster i).cluster = 0#32) := by
  have hvalue : ∀ k, (t k).toNat < 512 ∨ (t k).toNat = 0x0FFFFFFF ∨ (t k).toNat = 0x0FFFFFF0 := by
    intro k
    rcases ht k with h | h | h | h
    · exact .inl (by rw [h]; decide)
    · exact .inr (.inl (by rw [h]; decide))
    · exact .inr (.inr (by rw [h]; decide))
    · exact .inl h
  have hfive := hvalue (fatEntry i 5)
  have hsix := hvalue (fatEntry i 6)
  have hnat := congrArg BitVec.toNat (cluster_of_fat t i)
  rw [toNat_join16, BitVec.toNat_setWidth, BitVec.toNat_setWidth, BitVec.toNat_ushiftRight,
    Nat.shiftRight_eq_div_pow] at hnat
  constructor
  · intro he
    rw [he, show fat32FatEndOfFile.toNat = 0x0FFFFFFF from rfl] at hnat
    omega
  · intro hlt
    have hlt' : (FAT32DirectoryTable.ofCluster t.toCluster i).cluster.toNat < 512 := hlt
    apply BitVec.eq_of_toNat_eq
    rw [show (0#32).toNat = 0 from rfl]
    omega

/-- Below the cluster of the allocation table no read finds a file. -/
theorem not_read_below_fat (hf : FileCommitted request mem s s' i l) (h : s.volume.WellFormed)
    (hparent : rd.parentClusterNumber = fatClusterNumber) (hr : read rd rmem s' = .ok r) :
    r.ret ≠ 0 := by
  intro hret
  have htable : s'.volume.table rd.parentClusterNumber =
      FAT32DirectoryTable.ofCluster s'.clusterMap.toCluster := by
    show FAT32DirectoryTable.ofCluster (readClusters s'.disk _) = _
    rw [hparent, hf.disk, readClusters_writeClusters_self]
  have hvalues : ∀ k, FatValue (s'.clusterMap k) := by
    intro k
    rw [← view_clusterOf s'.clusterMap]
    exact hf.fatValue h _
  obtain ⟨j, -, -, hchain⟩ := read_found hr hret
  rw [htable] at hchain
  obtain ⟨hend, hzero⟩ := cluster_of_fat_cases hvalues j
  obtain ⟨cs, hw, hrange, -⟩ := readChain_eq_ok_iff.mp hchain
  -- the chain could only start at cluster 0, whose entry is no cluster
  have hstart := hw.head_mem hend
  rw [hzero (hrange _ hstart)] at hw hstart
  have hnext : s'.clusterMap.view 0#32 = cluster0Value := by
    have h0 : (0#32 : BitVec 32) ∉ l.map clusterOf := fun hmem =>
      (hf.range h.toIntact hmem).ne_zero rfl
    rw [hf.fat, link_of_notMem h0]
    exact h.fat_zero
  rcases hw.next_mem hstart with hn | hn
  · rw [hnext] at hn
    exact absurd hn (by decide)
  · rw [hnext] at hn
    exact absurd (hrange _ hn) (by decide)

/-! ### The file that was just written -/

/-- The request that wrote a file names it. -/
theorem FileCommitted.namesSlot (hf : FileCommitted request mem s s' i l)
    (hdone : WriteDone request mem s r) (hsize : request.bufferSize ≠ 0)
    (hne : request.parentClusterNumber ≠ fatClusterNumber)
    (hparent : rd.parentClusterNumber = request.parentClusterNumber)
    (hname : rd.name = request.name) (hext : rd.ext = request.ext) : NamesSlot s' rd i := by
  have htable := hf.table_eq hdone.parent_lt hne
  have hslot : s'.volume.table request.parentClusterNumber i =
      fileEntryOf request (s.volume.table request.parentClusterNumber i) (l.headD 0) := by
    rw [htable, Function.update_self]
  obtain ⟨hfresh, -⟩ := writeScan_finRange_eq_some_true.mp hdone.scan
  rw [← hparent] at htable hslot
  constructor
  · rw [hslot]
    exact FAT32DirectoryEntry.fill_occupied ..
  · rw [hslot, fileEntryOf, FAT32DirectoryEntry.fill_isSubdirectory]
    decide
  · rw [hslot, hname]
    rfl
  · rw [hslot, hext]
    rfl
  · intro j ho _ hn hx
    by_contra hji
    rw [htable, Function.update_of_ne hji, hparent] at ho hn hx
    exact hfresh j ho (sameEntry_iff.mpr ⟨hn.trans hname, .inr ⟨hsize, hx.trans hext⟩⟩)

theorem FileCommitted.filesize_eq (hf : FileCommitted request mem s s' i l)
    (hdone : WriteDone request mem s r) (hne : request.parentClusterNumber ≠ fatClusterNumber) :
    (s'.volume.table request.parentClusterNumber i).filesize.toNat =
      neededSize request.bufferSize * clusterSize := by
  rw [hf.table_eq hdone.parent_lt hne, Function.update_self, fileEntryOf,
    FAT32DirectoryEntry.fill_filesize, hf.size_eq, hf.length_eq]

/-- Whatever is there is read back, where the buffer is large enough. -/
theorem FileCommitted.read (hf : FileCommitted request mem s s' i l) (h : s.volume.Intact)
    (hdone : WriteDone request mem s r) (hsize : request.bufferSize ≠ 0)
    (hne : request.parentClusterNumber ≠ fatClusterNumber)
    (hparent : rd.parentClusterNumber = request.parentClusterNumber)
    (hname : rd.name = request.name) (hext : rd.ext = request.ext)
    (hbuf : neededSize request.bufferSize * clusterSize ≤ rd.bufferSize.toNat) (rmem : Memory) :
    ∃ r', Binbows.read rd rmem s' = .ok r' ∧ r'.ret = 0 ∧ r'.mem =
      rmem.storeAll rd.buf (loads mem request.buf (neededSize request.bufferSize)) := by
  have heof : s.volume.fat request.parentClusterNumber = fat32FatEndOfFile := hdone.parent_eof
  have hused : s.volume.fat request.parentClusterNumber ≠ fat32FatEmptyEntry := by
    rw [heof]
    decide
  have hslot : s'.volume.table rd.parentClusterNumber i =
      fileEntryOf request (s.volume.table request.parentClusterNumber i) (l.headD 0) := by
    rw [hparent, hf.table_eq hdone.parent_lt hne, Function.update_self]
  rw [← hf.content_new h hdone.parent_lt hused]
  apply read_slot
  · rw [hparent]
    exact hdone.parent_lt
  · rw [hparent]
    show s'.clusterMap.view _ = _
    rw [hf.fat, link_of_notMem (hf.used_notMem hused)]
    exact heof
  · exact hf.namesSlot hdone hsize hne hparent hname hext
  · rw [hslot, fileEntryOf, FAT32DirectoryEntry.fill_cluster, hf.head_eq]
    show Walk s'.clusterMap.view _ _ _
    rw [hf.fat]
    exact walk_link (hf.nodup.map clusterOf_injective) fun hmem => (hf.range h hmem).ne_endOfFile rfl
  · exact fun c hc => (hf.range h hc).2
  · rw [BitVec.le_def, hparent, hf.filesize_eq hdone hne]
    exact hbuf

/-! ### The bytes behind the end of the buffer -/

theorem loads_congr {buf : BitVec 32} {n : Nat}
    (h : ∀ k < n * clusterSize, mem' (buf + BitVec.ofNat 32 k) = mem (buf + BitVec.ofNat 32 k)) :
    loads mem' buf n = loads mem buf n := by
  induction n generalizing buf with
  | zero => rfl
  | succ n ih =>
      rw [Nat.succ_mul] at h
      have hhead : mem'.load buf = mem.load buf := by
        funext k
        exact h k (Nat.lt_of_lt_of_le k.isLt (Nat.le_add_left _ _))
      rw [loads, loads, hhead, ih]
      intro k hk
      have hk' := h (clusterSize + k) (by omega)
      rwa [BitVec.ofNat_add, ← BitVec.add_assoc] at hk'

/-- The pieces of the buffer decide what is written. -/
theorem writeData_congr {disk : Disk} {buf : BitVec 32}
    (h : loads mem' buf l.length = loads mem buf l.length) :
    writeData mem' disk buf l = writeData mem disk buf l := by
  induction l generalizing disk buf with
  | nil => rfl
  | cons k l ih =>
      obtain ⟨hhead, htail⟩ := List.cons.inj h
      rw [writeData, writeData, hhead, ih htail]

/-- Where the whole clusters of the buffer are the same, the disk is the same. -/
theorem FileCommitted.disk_congr (hf : FileCommitted request mem s s' i l)
    {s'' : FsState} {m : List (Fin clusterMapSize)} (hf' : FileCommitted request mem' s s'' j m)
    (hmem : loads mem' request.buf (neededSize request.bufferSize) =
      loads mem request.buf (neededSize request.bufferSize)) : s''.disk = s'.disk := by
  obtain rfl : m = l := hf'.taken.symm.trans hf.taken
  obtain rfl : j = i := Option.some.inj (hf'.slot.symm.trans hf.slot)
  have hmap : s''.clusterMap = s'.clusterMap := by
    apply clusterMap_ext
    intro c
    rw [hf'.fat, hf.fat]
  rw [← hf.length_eq] at hmem
  rw [hf'.disk, hf.disk, hmap, writeData_congr hmem]

/-! ### The length of a file -/

/-- The length of the buffer is the length of the file that `write` made of it. -/
structure LengthKept (request : FAT32DriverRequest) (mem : Memory) (s : FsState) (r : Reply) :
    Prop where
  /-- what is on the disk depends on the buffer alone -/
  onDisk : ∀ mem' r', (∀ k < request.bufferSize.toNat, mem' (request.buf + BitVec.ofNat 32 k) =
    mem (request.buf + BitVec.ofNat 32 k)) → write request mem' s = .ok r' → r'.fs.disk = r.fs.disk
  recorded : ∃ i, (r.fs.volume.table request.parentClusterNumber i).Occupied ∧
    ¬ (r.fs.volume.table request.parentClusterNumber i).IsSubdirectory ∧
    (r.fs.volume.table request.parentClusterNumber i).name = request.name ∧
    (r.fs.volume.table request.parentClusterNumber i).ext = request.ext ∧
    (r.fs.volume.table request.parentClusterNumber i).filesize = request.bufferSize
  /-- a read with a buffer of the same length stores those bytes and no others -/
  readBack : ∀ (rd : FAT32DriverRequest) (rmem : Memory),
    rd.parentClusterNumber = request.parentClusterNumber → rd.name = request.name →
    rd.ext = request.ext → rd.bufferSize = request.bufferSize →
    ∃ r', read rd rmem r.fs = .ok r' ∧ r'.ret = 0 ∧
      (∀ k < request.bufferSize.toNat, r'.mem (rd.buf + BitVec.ofNat 32 k) =
        mem (request.buf + BitVec.ofNat 32 k)) ∧
      ∀ a, request.bufferSize.toNat ≤ (a - rd.buf).toNat → r'.mem a = rmem a

/-- Whole clusters are neither more nor less than the buffer. -/
theorem neededSize_mul_of_dvd {n : BitVec 32} (hn : n ≠ 0) (h : clusterSize ∣ n.toNat) :
    neededSize n * clusterSize = n.toNat := by
  rw [neededSize_eq hn]
  unfold clusterSize at *
  omega

theorem dvd_of_neededSize_mul_le {n : BitVec 32} (hn : n ≠ 0)
    (h : neededSize n * clusterSize ≤ n.toNat) : clusterSize ∣ n.toNat := by
  rw [neededSize_eq hn] at h
  unfold clusterSize at *
  omega

/-- **The length of a file is kept exactly for whole clusters.**  A successful write of
a file keeps the length of its buffer if and only if that is a multiple of
`CLUSTER_SIZE` and the parent is not the cluster of the allocation table. -/
theorem file_length_kept_iff (h : s.volume.WellFormed) (hsize : request.bufferSize ≠ 0)
    (hwrite : write request mem s = .ok r) (hret : r.ret = 0) :
    LengthKept request mem s r ↔ clusterSize ∣ request.bufferSize.toNat ∧
      request.parentClusterNumber ≠ fatClusterNumber := by
  obtain ⟨hdone, i, l, hf⟩ := write_committed h.toIntact hsize hwrite hret
  constructor
  · intro hkept
    obtain ⟨r', hr', hret', -⟩ := hkept.readBack request mem rfl rfl rfl rfl
    -- below cluster 1 the file cannot be read back
    have hne : request.parentClusterNumber ≠ fatClusterNumber := fun hfat =>
      not_read_below_fat hf h hfat hr' hret'
    refine ⟨?_, hne⟩
    obtain ⟨j, hm, hle, -⟩ := read_found hr' hret'
    obtain rfl : j = i := Option.some.inj
      (hm.symm.trans (hf.namesSlot hdone hsize hne rfl rfl rfl).readMatch_eq)
    apply dvd_of_neededSize_mul_le hsize
    rw [← hf.filesize_eq hdone hne]
    exact hle
  · rintro ⟨hdvd, hne⟩
    have hneeded := neededSize_mul_of_dvd hsize hdvd
    constructor
    -- a second write of the same bytes makes the same sectors
    · intro mem' r' hmem hr'
      have hret' : r'.ret = 0 := by
        rw [write_eq, parentCheck_of_lt hdone.parent_lt, if_pos hdone.parent_eof,
          hdone.scan] at hr'
        dsimp only at hr'
        rw [if_neg (not_lt.mpr hdone.available)] at hr'
        cases hr'
        rfl
      obtain ⟨-, j, m, hf'⟩ := write_committed h.toIntact hsize hr' hret'
      refine hf.disk_congr hf' (loads_congr ?_)
      rwa [hneeded]
    · have hi := hf.namesSlot hdone hsize hne rfl rfl rfl
      refine ⟨i, hi.occupied, hi.file, hi.name_eq, hi.ext_eq, BitVec.eq_of_toNat_eq ?_⟩
      rw [hf.filesize_eq hdone hne, hneeded]
    -- the read needs a buffer of as many bytes as were written
    · intro rd rmem hparent hname hext hbuf
      obtain ⟨r', hr', hret', hmem'⟩ := hf.read h.toIntact hdone hsize hne hparent hname hext
        (by rw [hneeded, hbuf]) rmem
      have hle : neededSize request.bufferSize * clusterSize ≤ 2 ^ 32 := by
        rw [hneeded]
        exact request.bufferSize.isLt.le
      refine ⟨r', hr', hret', fun k hk => ?_, fun a ha => ?_⟩
      · rw [hmem']
        exact Memory.storeAll_loads hle (hneeded.symm ▸ hk)
      · rw [hmem']
        apply Memory.storeAll_outside
        · rw [length_loads]
          exact hle
        · rw [length_loads, hneeded]
          exact ha

/-- A file of one byte beside the folder `a`. -/
theorem file_length_kept_iff_oneFolder :
    ∃ r, write (makeFile rootClusterNumber 'b').request (fun _ => 7) oneFolder = .ok r ∧
      (LengthKept (makeFile rootClusterNumber 'b').request (fun _ => 7) oneFolder r ↔
        clusterSize ∣ 1 ∧ rootClusterNumber ≠ fatClusterNumber) := by
  obtain ⟨r, hr, hret⟩ := ret_eq_some.mp oneFolder_write_ret
  exact ⟨r, hr, file_length_kept_iff oneFolder_wellFormed (by decide) hr hret⟩

/-- A file of one byte is recorded, and must be read, as one of 2048. -/
theorem file_length_not_kept :
    ¬ ∀ (s : FsState) (request : FAT32DriverRequest) (mem : Memory) (r : Reply),
      s.volume.WellFormed → request.bufferSize ≠ 0 → write request mem s = .ok r → r.ret = 0 →
      LengthKept request mem s r := by
  intro h
  obtain ⟨r, hr, hret⟩ := ret_eq_some.mp oneFolder_write_ret
  rw [exec_write] at hr
  have hkept := h oneFolder (makeFile rootClusterNumber 'b').request (fun _ => 7) r oneFolder_wellFormed
    (by decide) hr hret
  obtain ⟨hdone, i, l, hf⟩ := write_committed oneFolder_wellFormed.toIntact (by decide) hr hret
  obtain ⟨j, ho, hs, hn, hx, hrecorded⟩ := hkept.recorded
  obtain rfl : j = i := (hf.namesSlot hdone (by decide) (by decide) rfl rfl rfl).unique j ho hs hn hx
  have hlength := hf.filesize_eq hdone (by decide)
  rw [hrecorded] at hlength
  exact absurd hlength (by decide)

end Binbows
