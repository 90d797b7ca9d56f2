/-
Binbows/FolderNames.lean

The names of the folders that shells make.

The driver compares all eight bytes of a name, and the shell compares strings.  Two names
that differ behind a NUL are one to the shell and two to the driver.  A shell makes its
names from a typed line, which has no NUL, and fills them with zeros, so that no such two
come about (`PaddedNames`, kept by every modest request: `Answers.paddedNames`).

Main result: `shells_keep_names`.  In every interleaving of shells, a string stands for at
most one folder of a directory, and the search of `change_dir` for the name of a folder
comes to that folder.
-/
import Binbows.SessionRuns

namespace Binbows

open Chain SlotTree Bytes Volume Run Calls FolderTree

variable {v : Volume} {s s₀ : FsState} {t t' : FileTree} {call : FsCall} {ret : Int}
  {mem' : Memory} {d : BitVec 32} {n : EntryName} {i : Fin directoryEntryCount}
  {others : ShellCall → ShellWorld → Except ShellFault (ShellReply × ShellWorld)}
  {w w' : ShellWorld}

/-! ### Padded names -/

/-- Every folder has a padded name. -/
def PaddedNames (t : FileTree) : Prop :=
  ∀ d n, t.Named d n → PaddedName n

theorem PaddedNames.slot (ht : PaddedNames v.tree) (h : v.Intact) (hd : v.Directory d)
    (hi : v.SubdirEntry d i) : PaddedName (v.table d i).name :=
  ht _ _ (tree_child_named h hd hi)

/-- Where names are padded, the string determines the folder. -/
theorem PaddedNames.uniqueFolderTexts (ht : PaddedNames v.tree) (h : v.Intact)
    (hu : v.UniqueFolders) : v.UniqueFolderTexts := by
  intro d i j hd hi hj htext
  apply hu hd hi hj
  have hni : buffer 8 (string (v.table d i).name) = (v.table d i).name := ht.slot h hd hi
  have hnj : buffer 8 (string (v.table d j).name) = (v.table d j).name := ht.slot h hd hj
  rw [← hni, ← hnj, htext]

/-- The search of `change_dir` for the name of a folder finds that folder. -/
theorem Volume.UniqueFolderTexts.folderSlot (hu : v.UniqueFolderTexts) (hd : v.Directory d)
    (hi : v.SubdirEntry d i) : (v.table d).folderSlot (string (v.table d i).name) = some i := by
  have hfound : ∃ j, (v.table d).folderSlot (string (v.table d i).name) = some j := by
    rw [← Option.isSome_iff_exists]
    unfold FAT32DirectoryTable.folderSlot
    rw [List.find?_isSome]
    refine ⟨i, List.mem_finRange i, ?_⟩
    rw [decide_eq_true_eq]
    exact ⟨hi.1, hi.2.1, hi.2.2, strcmp_eq_one_iff.mpr rfl⟩
  obtain ⟨j, hj⟩ := hfound
  obtain ⟨hlow, hfolder, hsame⟩ := folderSlot_eq_some hj
  rw [hj, hu hd hi ⟨hlow, hfolder⟩ hsame]

end Binbows
