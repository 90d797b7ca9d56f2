/-
Binbows/Fat32Lookup.lean

The two searches through a directory table, without their loops.

`read` acts on the first file with the requested name and extension and
`read_directory` on the first folder with the requested name.  Each loop keeps
flags about the slots it has passed, which only matter where nothing is found:
they choose the code (`readLoop_eq`, `readDirectoryLoop_eq`).
-/
import Binbows.Fat32Requests

namespace Binbows

/-- The entry of a folder in use. -/
def FAT32DirectoryEntry.Folder (e : FAT32DirectoryEntry) : Prop := e.Occupied ∧ e.IsSubdirectory

instance {e : FAT32DirectoryEntry} : Decidable e.Folder := inferInstanceAs (Decidable (_ ∧ _))

/-- The slot of the file that `read` copies out. -/
def readMatch (request : FAT32DriverRequest) (t : FAT32DirectoryTable) :
    Option (Fin directoryEntryCount) :=
  (List.finRange directoryEntryCount).find? fun i =>
    (t i).Occupied ∧ memcmp (t i).name request.name = 0 ∧
      ¬ (t i).IsSubdirectory ∧ memcmp (t i).ext request.ext = 0

/-- The slot that `read_directory` finds: the first folder of that name, where the
directory itself and its parent are among the folders. -/
def FAT32DirectoryTable.namedSlot (t : FAT32DirectoryTable) (name : EntryName) :
    Option (Fin directoryEntryCount) :=
  (List.finRange directoryEntryCount).find? fun i => (t i).Folder ∧ memcmp (t i).name name = 0

/-- There is an entry of that name, whatever it is. -/
def FAT32DirectoryTable.HasName (t : FAT32DirectoryTable) (name : EntryName) : Prop :=
  ∃ i, (t i).Occupied ∧ (t i).name = name

instance {t : FAT32DirectoryTable} {name : EntryName} : Decidable (t.HasName name) :=
  inferInstanceAs (Decidable (∃ _, _))

variable {request : FAT32DriverRequest} {mem : Memory} {s : FsState}
  {t : FAT32DirectoryTable} {is : List (Fin directoryEntryCount)} {i : Fin directoryEntryCount}
  {name : EntryName}

/-! ### What is found -/

theorem readMatch_eq_some (h : readMatch request t = some i) :
    (t i).Occupied ∧ ¬ (t i).IsSubdirectory ∧ (t i).name = request.name ∧
      (t i).ext = request.ext := by
  have hi := List.find?_some h
  simp only [memcmp_eq_zero_iff, decide_eq_true_eq] at hi
  exact ⟨hi.1, hi.2.2.1, hi.2.1, hi.2.2.2⟩

theorem readMatch_eq_none_iff : readMatch request t = none ↔
    ∀ i, (t i).Occupied → ¬ (t i).IsSubdirectory → (t i).name = request.name →
      (t i).ext ≠ request.ext := by
  unfold readMatch
  rw [List.find?_eq_none]
  simp only [List.mem_finRange, true_imp_iff, memcmp_eq_zero_iff, decide_eq_true_eq, not_and]
  exact forall_congr' fun i => ⟨fun h ho hs hn => h ho hn hs, fun h ho hn hs => h ho hs hn⟩

theorem namedSlot_eq_some (h : t.namedSlot name = some i) :
    (t i).Folder ∧ (t i).name = name := by
  have hi := List.find?_some h
  rwa [decide_eq_true_eq, memcmp_eq_zero_iff] at hi

theorem namedSlot_eq_none_iff :
    t.namedSlot name = none ↔ ∀ i, (t i).Folder → (t i).name ≠ name := by
  unfold FAT32DirectoryTable.namedSlot
  rw [List.find?_eq_none]
  simp

/-! ### read_directory -/

/-- The loop of `read_directory`.  Its two flags are always the same. -/
theorem readDirectoryLoop_eq {found : Bool} : readDirectoryLoop request mem s is found found =
    match is.find? fun i => (s.dirTableBuf i).Folder ∧
        memcmp (s.dirTableBuf i).name request.name = 0 with
    | some i => ⟨0, mem.store request.buf (readClusters s.disk (s.dirTableBuf i).cluster), s⟩
    | none =>
        ⟨if found = true ∨ ∃ i ∈ is, (s.dirTableBuf i).Occupied ∧
          (s.dirTableBuf i).name = request.name then 1 else 2, mem, s⟩ := by
  -- by the slots that are left, from any value of the flag
  induction is generalizing found with
  | nil =>
      cases found
      · simp [readDirectoryLoop]
      · simp [readDirectoryLoop]
  | cons i is ih =>
      rw [readDirectoryLoop]
      by_cases hocc : (s.dirTableBuf i).Occupied
      swap
      -- an empty slot is passed over
      · rw [if_pos hocc, List.find?_cons_of_neg (by simp [FAT32DirectoryEntry.Folder, hocc]), ih]
        cases List.find? _ is with
        | some j => rfl
        | none => simp [hocc]
      rw [if_neg (not_not.mpr hocc)]
      by_cases hname : memcmp (s.dirTableBuf i).name request.name = 0
      swap
      -- so is an entry of another name
      · rw [if_neg hname, List.find?_cons_of_neg (by simp [hname]), ih]
        rw [memcmp_eq_zero_iff] at hname
        cases List.find? _ is with
        | some j => rfl
        | none => simp [hname]
      rw [if_pos hname]
      by_cases hsub : (s.dirTableBuf i).IsSubdirectory
      · rw [if_pos hsub, List.find?_cons_of_pos (by exact decide_eq_true ⟨⟨hocc, hsub⟩, hname⟩)]
      · -- a file of the name: from here on the answer is not "not found"
        rw [if_neg hsub, List.find?_cons_of_neg (by simp [FAT32DirectoryEntry.Folder, hsub]), ih]
        cases List.find? _ is with
        | some j => rfl
        | none => simp [hocc, (memcmp_eq_zero_iff _ _).mp hname]

/-- `read_directory` once the table of the parent is in the buffer. -/
def readFolder (request : FAT32DriverRequest) (mem : Memory) (s : FsState) : Reply :=
  match s.dirTableBuf.namedSlot request.name with
  | some i => ⟨0, mem.store request.buf (readClusters s.disk (s.dirTableBuf i).cluster), s⟩
  | none => ⟨if s.dirTableBuf.HasName request.name then 1 else 2, mem, s⟩

theorem readFolder_some (h : s.dirTableBuf.namedSlot request.name = some i) :
    readFolder request mem s =
      ⟨0, mem.store request.buf (readClusters s.disk (s.dirTableBuf i).cluster), s⟩ := by
  rw [readFolder, h]

theorem readFolder_ret (request : FAT32DriverRequest) (mem : Memory) (s : FsState) :
    (readFolder request mem s).ret =
      if (s.dirTableBuf.namedSlot request.name).isSome then 0
      else if s.dirTableBuf.HasName request.name then 1 else 2 := by
  unfold readFolder
  cases s.dirTableBuf.namedSlot request.name with
  | some i => simp
  | none => simp

theorem readDirectoryLoop_finRange :
    readDirectoryLoop request mem s (List.finRange directoryEntryCount) false false =
      readFolder request mem s := by
  rw [readDirectoryLoop_eq]
  show (match s.dirTableBuf.namedSlot request.name with | some i => _ | none => _) = _
  unfold readFolder
  cases s.dirTableBuf.namedSlot request.name with
  | some i => rfl
  | none =>
      have hname : (false = true ∨ ∃ i ∈ List.finRange directoryEntryCount,
          (s.dirTableBuf i).Occupied ∧ (s.dirTableBuf i).name = request.name) ↔
          s.dirTableBuf.HasName request.name := by simp [FAT32DirectoryTable.HasName]
      exact congrArg (fun n => Reply.mk n mem s) (if_congr hname rfl rfl)

/-! ### read -/

/-- `read` at the file that it has found. -/
def readFound (request : FAT32DriverRequest) (mem : Memory) (s : FsState)
    (i : Fin directoryEntryCount) : Except Fault Reply :=
  if request.bufferSize < (s.dirTableBuf i).filesize then .ok ⟨2, mem, s⟩
  else
    match readChain s.clusterMap s.disk chainFuel (s.dirTableBuf i).cluster request.buf mem with
    | .error e => .error e
    | .ok mem => .ok ⟨0, mem, s⟩

theorem readLoop_eq {folder found : Bool} : readLoop request mem s is folder found =
    match is.find? fun i => (s.dirTableBuf i).Occupied ∧
        memcmp (s.dirTableBuf i).name request.name = 0 ∧
        ¬ (s.dirTableBuf i).IsSubdirectory ∧ memcmp (s.dirTableBuf i).ext request.ext = 0 with
    | some i => readFound request mem s i
    | none =>
        .ok ⟨if folder = true ∨ ∃ i ∈ is, (s.dirTableBuf i).Folder ∧
          (s.dirTableBuf i).name = request.name then 1
        else if found = true ∨ ∃ i ∈ is, (s.dirTableBuf i).Occupied ∧
          (s.dirTableBuf i).name = request.name then -1
        else 3, mem, s⟩ := by
  -- by the slots that are left, from any values of the two flags
  induction is generalizing folder found with
  | nil =>
      cases folder <;> cases found <;> simp [readLoop]
  | cons i is ih =>
      rw [readLoop]
      by_cases hocc : (s.dirTableBuf i).Occupied
      swap
      · have hfolder : ¬ (s.dirTableBuf i).Folder := fun h => hocc h.1
        rw [if_pos hocc, List.find?_cons_of_neg (by simp [hocc]), ih]
        cases List.find? _ is with
        | some j => rfl
        | none => simp [hfolder, hocc]
      rw [if_neg (not_not.mpr hocc)]
      by_cases hname : memcmp (s.dirTableBuf i).name request.name = 0
      swap
      · rw [if_neg hname, List.find?_cons_of_neg (by simp [hname]), ih]
        rw [memcmp_eq_zero_iff] at hname
        cases List.find? _ is with
        | some j => rfl
        | none => simp [hname]
      rw [if_pos hname]
      have hname' := (memcmp_eq_zero_iff _ _).mp hname
      by_cases hsub : (s.dirTableBuf i).IsSubdirectory
      · -- a folder of the name
        have hfolder : (s.dirTableBuf i).Folder := ⟨hocc, hsub⟩
        rw [if_neg fun h => h.1 hsub, if_pos hsub, List.find?_cons_of_neg (by simp [hsub]), ih]
        cases List.find? _ is with
        | some j => rfl
        | none => simp [hfolder, hname']
      · have hfolder : ¬ (s.dirTableBuf i).Folder := fun h => hsub h.2
        by_cases hext : memcmp (s.dirTableBuf i).ext request.ext = 0
        · -- the file itself
          rw [if_pos ⟨hsub, hext⟩,
            List.find?_cons_of_pos (by exact decide_eq_true ⟨hocc, hname, hsub, hext⟩)]
          rfl
        · -- a file of the name with another extension
          rw [if_neg fun h => hext h.2, if_neg hsub, List.find?_cons_of_neg (by simp [hext]), ih]
          cases List.find? _ is with
          | some j => rfl
          | none => simp [hfolder, hocc, hname']

/-- The code of a `read` that finds no file with the name and the extension. -/
def readMissing (request : FAT32DriverRequest) (t : FAT32DirectoryTable) : Int :=
  if (t.namedSlot request.name).isSome then 1
  else if t.HasName request.name then -1
  else 3

theorem readMissing_ne_zero : readMissing request t ≠ 0 := by
  unfold readMissing
  split_ifs <;> decide

theorem readLoop_finRange :
    readLoop request mem s (List.finRange directoryEntryCount) false false =
      match readMatch request s.dirTableBuf with
      | some i => readFound request mem s i
      | none => .ok ⟨readMissing request s.dirTableBuf, mem, s⟩ := by
  rw [readLoop_eq]
  show (match readMatch request s.dirTableBuf with | some i => _ | none => _) = _
  cases readMatch request s.dirTableBuf with
  | some i => rfl
  | none =>
      have hfolder : (false = true ∨ ∃ i ∈ List.finRange directoryEntryCount,
          (s.dirTableBuf i).Folder ∧ (s.dirTableBuf i).name = request.name) ↔
          (s.dirTableBuf.namedSlot request.name).isSome = true := by
        simp [FAT32DirectoryTable.namedSlot]
      have hname : (false = true ∨ ∃ i ∈ List.finRange directoryEntryCount,
          (s.dirTableBuf i).Occupied ∧ (s.dirTableBuf i).name = request.name) ↔
          s.dirTableBuf.HasName request.name := by simp [FAT32DirectoryTable.HasName]
      exact congrArg (fun n => Except.ok (Reply.mk n mem s))
        (if_congr hfolder rfl (if_congr hname rfl rfl))

end Binbows
