/-
Binbows/FindNames.lean

Which names `find` goes astray by.

Where the names are plain (`PlainNames`), every folder is found under its name
(`PlainSearch.findsFolders`), and what a file leads to depends on its name alone: it leads to
a folder next to it that goes by the same name, and without one to the directory that it is
in, or the parent of that, if they go by it (`quiet_iff`).

Main results: `find_once_iff`, and for plain names `find_once_plain_iff`, whose search is that of
a shell by `plainSearch_standing`.
-/
import Binbows.FindOnce

namespace Binbows

open Bytes Calls Volume SlotTree
open Terminal (chars)

variable {others : ShellCall → ShellWorld → Except ShellFault (ShellReply × ShellWorld)}
  {w : ShellWorld} {v : Volume} {d e c : BitVec 32} {m n : Nat}
  {behind : List (Fin directoryEntryCount) → List Byte} {trail : List (Fin directoryEntryCount)}
  {path p : List Byte} {origin : BitVec 32} {t : FAT32DirectoryTable} {node a b : SearchNode}
  {i j : Fin directoryEntryCount} {entry : FAT32DirectoryEntry} {name : EntryName}

/-! ### The string at a name -/

theorem chars_toBytes {k : Nat} (hk : k < 8) : chars entry.toBytes k = chars entry.name k := by
  rw [chars_of_lt (lt_trans hk (by decide)), chars_of_lt hk, FAT32DirectoryEntry.toBytes, dif_pos hk]

/-- The string at a name that has a zero behind it. -/
theorem nameString_eq (h : strlen entry.name ≤ 7 ∨ entry.ext = 0) :
    entry.nameString = string entry.name := by
  have hlen : strlen entry.name ≤ 8 := strlen_le
  rw [FAT32DirectoryEntry.nameString, string_eq_iff (by rw [length_string]; omega)]
  refine ⟨zero_notMem_string, fun k hk => ?_, ?_⟩
  · have hk' := hk
    rw [length_string] at hk'
    rw [chars_toBytes (by omega), ← chars_of_string rfl hk]
  · rw [length_string]
    rcases Nat.lt_or_eq_of_le hlen with hlt | heq
    · rw [chars_toBytes hlt, chars_strlen]
    · have hext := h.resolve_left (by omega)
      rw [heq]
      show entry.ext 0 = 0
      rw [hext]
      rfl

/-- However far the string runs on, it begins with the name. -/
theorem buffer_nameString : buffer 8 entry.nameString = buffer 8 (string entry.name) := by
  have hlen : strlen entry.name ≤ 8 := strlen_le
  rcases Nat.lt_or_eq_of_le hlen with hlt | heq
  · rw [nameString_eq (.inl (by omega))]
  · have hlong : 8 ≤ strlen entry.toBytes := by
      by_contra hlt
      have hzero : chars entry.toBytes (strlen entry.toBytes) = 0 := chars_strlen
      rw [chars_toBytes (by omega)] at hzero
      exact chars_ne_zero (by omega) hzero
    funext k
    have hk := k.isLt
    show (string entry.toBytes).getD k 0 = (string entry.name).getD k 0
    rw [← chars_of_string rfl (by rw [length_string]; omega),
      ← chars_of_string rfl (by rw [length_string]; omega), chars_toBytes hk]

/-! ### The names that are asked for -/

/-- A path up to the last slash but one, and a name. -/
theorem askedName_eq {s : List Byte} (hp : p.getLast? = some slash) (h0 : (0 : Byte) ∉ p ++ s)
    (hs : slash ∉ s) (hfits : (p ++ s ++ [slash]).length < maxCmdLength) :
    askedName (p ++ s ++ [slash]) = buffer 8 s := by
  have hzero : (0 : Byte) ∉ p ++ s ++ [slash] := by
    rw [List.mem_append, not_or]
    exact ⟨h0, by decide⟩
  exact lastFolderName_string ⟨string_buffer hfits.le hzero, .inr hp, hs⟩

/-- The paths of the directories below end in a slash, as the one of the first does, and have
no zeros in them. -/
theorem below_path (hpath : path.getLast? = some slash) (h0 : (0 : Byte) ∉ path)
    (h : v.Below path d p e) : p.getLast? = some slash ∧ (0 : Byte) ∉ p := by
  induction h with
  | self => exact ⟨hpath, h0⟩
  | child _ _ ih =>
      refine ⟨by simp, ?_⟩
      rw [List.mem_append, List.mem_append, not_or, not_or]
      exact ⟨⟨ih.2, zero_notMem_string⟩, by decide⟩

/-- The names below the directory are plain: no slash in them, and what lies behind
`real_name` is not read.  The folders have names of their own, with zeros behind them. -/
structure Volume.PlainNames (v : Volume) (behind : List (Fin directoryEntryCount) → List Byte)
    (path : List Byte) (d : BitVec 32) : Prop where
  slash : ∀ {p e i}, v.Below path d p e → v.Entry e i → Binbows.slash ∉ (v.table e i).nameString
  short : ∀ {p e i}, v.Below path d p e → v.Entry e i →
    strlen (v.table e i).name ≤ 7 ∨ ∀ trail, behind trail = []
  padded : ∀ {p e i}, v.Below path d p e → v.SubdirEntry e i →
    (v.table e i).name = buffer 8 (string (v.table e i).name)
  unique : ∀ {p e i j}, v.Below path d p e → v.SubdirEntry e i → v.SubdirEntry e j →
    string (v.table e i).name = string (v.table e j).name → i = j

/-- The name of an entry is asked for. -/
theorem askedName_pathTo (hn : v.PlainNames behind path d) (hfits : v.PathsFit path d)
    (hpath : path.getLast? = some slash) (h0 : (0 : Byte) ∉ path)
    (hb : v.Below path d b.path b.dir) (hi : v.Entry b.dir i) :
    askedName (b.pathTo v i) = buffer 8 (string (v.table b.dir i).name) := by
  obtain ⟨hlast, hzero⟩ := below_path hpath h0 hb
  have h0' : (0 : Byte) ∉ b.path ++ (v.table b.dir i).nameString := by
    rw [List.mem_append, not_or]
    exact ⟨hzero, zero_notMem_string⟩
  rw [SearchNode.pathTo, askedName_eq hlast h0' (hn.slash hb hi) (hfits _ _ i hb hi),
    buffer_nameString]

theorem pathString_plain (h : strlen name ≤ 7 ∨ ∀ trail, behind trail = []) :
    pathString (behind trail) (buffer 8 (string name)) = string name := by
  have hlen : (string name).length ≤ 8 := by
    rw [length_string]
    exact strlen_le
  have hstring : string (buffer 8 (string name)) = string name :=
    string_buffer hlen zero_notMem_string
  have hstrlen : strlen (buffer 8 (string name)) = strlen name := by
    rw [← length_string, hstring, length_string]
  rw [pathString, hstrlen, hstring]
  split_ifs with hfull
  · rw [h.resolve_left (by omega), List.append_nil]
  · rfl

/-! ### Folders -/

theorem nameString_folder (hv : v.Intact) (hd : v.Directory d) (hi : v.SubdirEntry d i) :
    (v.table d i).nameString = string (v.table d i).name :=
  nameString_eq (.inr (hv.child_linked hd hi).ext_eq)

/-- The folder of that name is found, and no other. -/
theorem subfolder_eq_some (hv : v.Intact) (hd : v.Directory d) (hj : v.SubdirEntry d j)
    (hu : ∀ k, v.SubdirEntry d k → string (v.table d k).name = string (v.table d j).name → k = j) :
    (v.table d).subfolder (string (v.table d j).name) = some j := by
  cases hslot : (v.table d).subfolder (string (v.table d j).name) with
  | none =>
      unfold FAT32DirectoryTable.subfolder at hslot
      rw [List.find?_eq_none] at hslot
      refine absurd ?_ (hslot j (List.mem_finRange j))
      rw [decide_eq_true_eq]
      exact ⟨hj.1, hj.2.1, hj.2.2, nameString_folder hv hd hj⟩
  | some k =>
      have hk := List.find?_some hslot
      rw [decide_eq_true_eq] at hk
      have hsub : v.SubdirEntry d k := ⟨hk.1, hk.2.1, hk.2.2.1⟩
      have htext := (nameString_folder hv hd hsub).symm.trans hk.2.2.2
      rw [hu k hsub htext]

theorem subfolder_eq_none {s : List Byte} (hv : v.Intact) (hd : v.Directory d)
    (hno : ∀ j, v.SubdirEntry d j → string (v.table d j).name ≠ s) :
    (v.table d).subfolder s = none := by
  unfold FAT32DirectoryTable.subfolder
  rw [List.find?_eq_none]
  rintro j - hj
  rw [decide_eq_true_eq] at hj
  have hsub : v.SubdirEntry d j := ⟨hj.1, hj.2.1, hj.2.2.1⟩
  exact hno j hsub ((nameString_folder hv hd hsub).symm.trans hj.2.2.2)

/-- Under its own name a directory finds itself. -/
theorem folderNamed_self (hv : v.Intact) (hd : v.Directory d) :
    v.folderNamed d (v.table d 0).name = some d := by
  rw [Volume.folderNamed, namedSlot_self hv hd]
  exact congrArg some (hv.self_entry hd).cluster_eq

/-- A search among plain names, from a directory that its path names. -/
structure PlainSearch (v : Volume) (behind : List (Fin directoryEntryCount) → List Byte)
    (path : List Byte) (d : BitVec 32) : Prop where
  intact : v.Intact
  directory : v.Directory d
  names : v.PlainNames behind path d
  fits : v.PathsFit path d
  last : path.getLast? = some slash
  zero : (0 : Byte) ∉ path
  self : v.folderNamed d (askedName path) = some d

namespace PlainSearch

/-- What holds of a node of the tree. -/
theorem of_reach (h : PlainSearch v behind path d)
    (hb : ReachAt (SearchNode.under v behind) (searchStart path d) m b) :
    v.Below path d b.path b.dir ∧ v.Directory b.dir :=
  ⟨reachAt_below hb, reachAt_directory h.directory hb⟩

theorem asked (h : PlainSearch v behind path d) (hb : v.Below path d b.path b.dir)
    (hi : v.Entry b.dir i) :
    askedName (b.pathTo v i) = buffer 8 (string (v.table b.dir i).name) :=
  askedName_pathTo h.names h.fits h.last h.zero hb hi

theorem searchOrigin_eq (h : PlainSearch v behind path d) (hb : v.Below path d b.path b.dir)
    (hi : v.Entry b.dir i) : searchOrigin behind trail (b.pathTo v i) origin (v.table b.dir) =
      (((v.table b.dir).subfolder (string (v.table b.dir i).name)).map fun j =>
        (v.table b.dir j).cluster).getD origin := by
  rw [searchOrigin, h.asked hb hi, pathString_plain (h.names.short hb hi)]
  cases (v.table b.dir).subfolder (string (v.table b.dir i).name) with
  | none => rfl
  | some j => rfl

variable (trail origin) in
/-- A folder of the name is found in the table, and the name in that folder. -/
theorem search_folder (h : PlainSearch v behind path d) (hb : v.Below path d b.path b.dir)
    (hdir : v.Directory b.dir) (hi : v.Entry b.dir i) (hj : v.SubdirEntry b.dir j)
    (htext : string (v.table b.dir j).name = string (v.table b.dir i).name) :
    searchOrigin behind trail (b.pathTo v i) origin (v.table b.dir) = (v.table b.dir j).cluster ∧
      v.folderNamed (v.table b.dir j).cluster (askedName (b.pathTo v i)) =
        some (v.table b.dir j).cluster := by
  have hchild : v.Directory (v.table b.dir j).cluster := .child hdir (child_eq_some_iff.mpr ⟨hj, rfl⟩)
  refine ⟨?_, ?_⟩
  · rw [h.searchOrigin_eq hb hi, ← htext,
      subfolder_eq_some h.intact hdir hj fun k hk => h.names.unique hb hk hj]
    rfl
  · rw [h.asked hb hi, ← htext, ← h.names.padded hb hj, ← (h.intact.child_linked hdir hj).name_eq]
    exact folderNamed_self h.intact hchild

theorem child_folder (h : PlainSearch v behind path d) (hb : v.Below path d b.path b.dir)
    (hdir : v.Directory b.dir) (hi : v.SubdirEntry b.dir i) :
    b.child v behind i = b.under v behind i := by
  obtain ⟨horigin, hnamed⟩ := h.search_folder (i :: b.trail) b.origin hb hdir hi.entry hi rfl
  rw [SearchNode.child, if_pos (mem_slots.mpr hi.entry), Volume.enterSearch, horigin, hnamed,
    SearchNode.under, if_pos hi, horigin]
  rfl

/-- **With plain names every folder is found.** -/
theorem findsFolders (h : PlainSearch v behind path d) : v.FindsFolders behind path d where
  self := h.self
  folders _ _ hreach _ hi := .inl (h.child_folder (h.of_reach hreach).1 (h.of_reach hreach).2 hi)

/-- The search comes from the directory that it is in. -/
theorem origin_eq (h : PlainSearch v behind path d)
    (hb : ReachAt (SearchNode.under v behind) (searchStart path d) m b) : b.origin = b.dir := by
  cases hb with
  | root => rfl
  | child ha he =>
      obtain ⟨hsub, rfl⟩ := under_eq_some.mp he
      exact (h.search_folder _ _ (h.of_reach ha).1 (h.of_reach ha).2 hsub.entry hsub rfl).1

end PlainSearch

/-! ### The place of a shell -/

/-- The working directory is found by the path that the shell shows. -/
theorem folderNamed_standing {up : Trail} {place : Place} (hv : v.Intact) (hn : v.ProperNames)
    (htrail : v.HasTrail up) (hshows : place.Shows up) :
    v.folderNamed place.workingDirectory (askedName (string place.currentPath)) =
      some place.workingDirectory := by
  have hlen : (string place.currentPath).length ≤ maxCmdLength := by
    rw [length_string]
    exact strlen_le
  rw [← lastFolderName_eq rfl hlen, hshows.lastFolderName htrail, ← htrail.self_name hv hn,
    hshows.directory]
  exact folderNamed_self hv htrail.directory

/-- **A search from the place of a shell.**  The path that the shell shows leads to its
directory, so that only what lies below it matters. -/
theorem plainSearch_standing {up : Trail} {place : Place} (hv : v.Intact) (hn : v.ProperNames)
    (htrail : v.HasTrail up) (hshows : place.Shows up)
    (hnames : v.PlainNames behind (string place.currentPath) place.workingDirectory)
    (hfits : v.PathsFit (string place.currentPath) place.workingDirectory) :
    PlainSearch v behind (string place.currentPath) place.workingDirectory where
  intact := hv
  directory := hshows.directory ▸ htrail.directory
  names := hnames
  fits := hfits
  last := by
    rw [hshows.path]
    exact up.getLast?_text
  zero := zero_notMem_string
  self := folderNamed_standing hv hn htrail hshows

/-! ### Files -/

/-- The file has the name of a folder next to it with something in it, or, without a folder of
its name next to it, the name of its directory or of the parent of that. -/
def Volume.Misleads (v : Volume) (e : BitVec 32) (i : Fin directoryEntryCount) : Prop :=
  (∃ j k, v.SubdirEntry e j ∧ string (v.table e j).name = string (v.table e i).name ∧
    v.Entry (v.table e j).cluster k) ∨
  (∀ j, v.SubdirEntry e j → string (v.table e j).name ≠ string (v.table e i).name) ∧
    ((v.table e 0).name = buffer 8 (string (v.table e i).name) ∨
      (v.table e 1).name = buffer 8 (string (v.table e i).name))

theorem slots_eq_nil_iff : node.slots v = [] ↔ ∀ i, ¬ v.Entry node.dir i := by
  rw [List.eq_nil_iff_forall_not_mem]
  exact forall_congr' fun i => not_congr mem_slots

/-- There is something in a directory that leads to one with something in it. -/
theorem parent_entry_exists (hv : v.Intact) (hd : v.Directory d) (hi : v.Entry d i) :
    ∃ k, v.Entry (v.table d 1).cluster k := by
  obtain ⟨a, -, he, ⟨rfl, rfl⟩ | ⟨j, hj, -⟩⟩ := hv.parent_entry hd
  · exact ⟨i, he.cluster_eq.symm ▸ hi⟩
  · exact ⟨j, he.cluster_eq.symm ▸ hj.entry⟩

/-- What a file with plain names around it leads to. -/
theorem quiet_iff (h : PlainSearch v behind path d)
    (hb : ReachAt (SearchNode.under v behind) (searchStart path d) m b) (hi : v.Entry b.dir i) :
    (∀ c, b.child v behind i = some c → c.slots v = []) ↔ ¬ v.Misleads b.dir i := by
  obtain ⟨hbelow, hdir⟩ := h.of_reach hb
  have hslot := mem_slots.mpr hi
  by_cases hfolder : ∃ j, v.SubdirEntry b.dir j ∧
      string (v.table b.dir j).name = string (v.table b.dir i).name
  · obtain ⟨j, hj, htext⟩ := hfolder
    obtain ⟨horigin, hnamed⟩ := h.search_folder (i :: b.trail) b.origin hbelow hdir hi hj htext
    have hchild : b.child v behind i = some ⟨i :: b.trail, b.pathTo v i,
        (v.table b.dir j).cluster, (v.table b.dir j).cluster⟩ := by
      rw [SearchNode.child, if_pos hslot, Volume.enterSearch, horigin, hnamed]
      rfl
    rw [hchild]
    constructor
    · rintro hquiet (⟨j', k, hj', htext', hk⟩ | ⟨hnone, -⟩)
      · obtain rfl := h.names.unique hbelow hj hj' (htext.trans htext'.symm)
        exact slots_eq_nil_iff.mp (hquiet _ rfl) k hk
      · exact hnone j hj htext
    · rintro hno c ⟨⟩
      exact slots_eq_nil_iff.mpr fun k hk => hno (.inl ⟨j, k, hj, htext, hk⟩)
  · have hnone : ∀ j, v.SubdirEntry b.dir j →
        string (v.table b.dir j).name ≠ string (v.table b.dir i).name := fun j hj htext =>
      hfolder ⟨j, hj, htext⟩
    have horigin : searchOrigin behind (i :: b.trail) (b.pathTo v i) b.origin (v.table b.dir) =
        b.dir := by
      rw [h.searchOrigin_eq hbelow hi, subfolder_eq_none h.intact hdir hnone]
      exact h.origin_eq hb
    have hchild : b.child v behind i = ((v.table b.dir).namedSlot
        (buffer 8 (string (v.table b.dir i).name))).map fun k =>
          ⟨i :: b.trail, b.pathTo v i, b.dir, (v.table b.dir k).cluster⟩ := by
      rw [SearchNode.child, if_pos hslot, Volume.enterSearch, horigin, h.asked hbelow hi,
        Volume.folderNamed, Option.map_map]
      rfl
    have h0 : (v.table b.dir 0).Folder :=
      ⟨(h.intact.self_entry hdir).occupied, (h.intact.self_entry hdir).isSubdirectory⟩
    have h1 : (v.table b.dir 1).Folder := by
      obtain ⟨a, -, he, -⟩ := h.intact.parent_entry hdir
      exact ⟨he.occupied, he.isSubdirectory⟩
    rw [hchild]
    cases hfound : (v.table b.dir).namedSlot (buffer 8 (string (v.table b.dir i).name)) with
    | none =>
        rw [namedSlot_eq_none_iff] at hfound
        refine iff_of_true (by simp) ?_
        rintro (⟨j, -, hj, htext, -⟩ | ⟨-, hself | hparent⟩)
        · exact hnone j hj htext
        · exact hfound 0 h0 hself
        · exact hfound 1 h1 hparent
    | some k =>
        obtain ⟨hk, hname⟩ := namedSlot_eq_some hfound
        -- it is the directory or its parent, since no folder has the name
        have hlow : k = 0 ∨ k = 1 := by
          by_contra hhigh
          rw [not_or] at hhigh
          have htwo : 2 ≤ k.val := by
            have hk0 := Fin.val_ne_of_ne hhigh.1
            have hk1 := Fin.val_ne_of_ne hhigh.2
            have : (0 : Fin directoryEntryCount).val = 0 := rfl
            have : (1 : Fin directoryEntryCount).val = 1 := rfl
            omega
          refine hnone k ⟨htwo, hk.1, hk.2⟩ ?_
          rw [hname, string_buffer _ zero_notMem_string]
          rw [length_string]
          exact strlen_le
        have hmore : ∃ l, v.Entry (v.table b.dir k).cluster l := by
          rcases hlow with rfl | rfl
          · exact ⟨i, (h.intact.self_entry hdir).cluster_eq.symm ▸ hi⟩
          · exact parent_entry_exists h.intact hdir hi
        obtain ⟨l, hl⟩ := hmore
        refine iff_of_false (fun hquiet => slots_eq_nil_iff.mp (hquiet _ rfl) l hl) ?_
        rw [not_not]
        refine .inr ⟨hnone, ?_⟩
        rcases hlow with rfl | rfl
        · exact .inl hname
        · exact .inr hname

/-- With plain names the search is quiet where no file misleads it. -/
theorem quietFiles_iff (h : PlainSearch v behind path d) : v.QuietFiles behind path d ↔
    ∀ p e i, v.Below path d p e → v.Entry e i → ¬ (v.table e i).IsSubdirectory →
      ¬ v.Misleads e i := by
  constructor
  · intro hquiet p e i hbelow hi hfile
    obtain ⟨m, b, hreach, rfl, rfl⟩ := below_reachAt behind hbelow
    exact (quiet_iff h hreach hi).mp (hquiet m b hreach i hi hfile)
  · intro hno m b hreach i hi hfile
    exact (quiet_iff h hreach hi).mpr (hno _ _ i (reachAt_below hreach) hi hfile)

/-! ### When find prints everything once -/

variable {stale : List (Fin directoryEntryCount) → PathBuffer} {line : CommandLine} {place : Place}

/-- **When `find` prints everything once.**  Where the folders are found, it does exactly if
no file leads to a folder with something in it. -/
theorem find_once_iff
    (others : ShellCall → ShellWorld → Except ShellFault (ShellReply × ShellWorld))
    (hv : w.fs.volume.Intact) (hplace : w.fs.volume.Directory place.workingDirectory)
    (hline : strlen line.cmdBuffer ≤ 5) (hstale : ∀ trail, string (stale trail) = [])
    (hfits : w.fs.volume.PathsFit (string place.currentPath) place.workingDirectory)
    (hfolders : w.fs.volume.FindsFolders behind (string place.currentPath) place.workingDirectory) :
    FindsOnce others stale behind line place w ↔
      w.fs.volume.QuietFiles behind (string place.currentPath) place.workingDirectory :=
  ⟨quiet_of_findsOnce hv hplace hline hstale hfits hfolders,
    findsOnce_of_quiet hv hplace hline hstale hfits hfolders⟩

/-- **With plain names it does exactly if no file misleads it.** -/
theorem find_once_plain_iff
    (others : ShellCall → ShellWorld → Except ShellFault (ShellReply × ShellWorld))
    (hline : strlen line.cmdBuffer ≤ 5) (hstale : ∀ trail, string (stale trail) = [])
    (h : PlainSearch w.fs.volume behind (string place.currentPath) place.workingDirectory) :
    FindsOnce others stale behind line place w ↔
      ∀ p e i, w.fs.volume.Below (string place.currentPath) place.workingDirectory p e →
        w.fs.volume.Entry e i → ¬ (w.fs.volume.table e i).IsSubdirectory →
          ¬ w.fs.volume.Misleads e i := by
  rw [← quietFiles_iff h]
  exact ⟨quiet_of_findsOnce h.intact h.directory hline hstale h.fits h.findsFolders,
    findsOnce_of_quiet h.intact h.directory hline hstale h.fits h.findsFolders⟩

/-! ### A folder and its namesake -/

/-- Write the file `a.t` into the folder `a`. -/
def makeNamesake : FsCall :=
  ⟨.write, ⟨0, letterName 'a', buffer 3 [ascii 't'], 3, 1⟩, fun _ => 0⟩

/-- The folder `a` with the file `a.t` in it. -/
def namesake : FsState := oneFolder.after makeNamesake

theorem namesake_step : oneFolder.step makeNamesake = some namesake :=
  step_after (n := 0) (by decide +kernel)

def findLine : CommandLine := lineOf ['f', 'i', 'n', 'd']

/-- Directories with their paths, among which the search stays if it stays there in each
step. -/
theorem below_within {dirs : List (List Byte × BitVec 32)} (hstart : (path, d) ∈ dirs)
    (hstep : ∀ x ∈ dirs, ∀ i, v.SubdirEntry x.2 i →
      (x.1 ++ (v.table x.2 i).nameString ++ [slash], (v.table x.2 i).cluster) ∈ dirs)
    (h : v.Below path d p e) : (p, e) ∈ dirs := by
  induction h with
  | self => exact hstart
  | child _ hi ih => exact hstep _ ih _ hi

/-- A search in these directories, with plain names in them and nothing behind
`real_name`. -/
theorem plainSearch_within {dirs : List (List Byte × BitVec 32)} (hv : v.Intact)
    (hd : v.Directory d) (hin : ∀ {p e}, v.Below path d p e → (p, e) ∈ dirs)
    (hslash : ∀ x ∈ dirs, ∀ i, v.Entry x.2 i → slash ∉ (v.table x.2 i).nameString)
    (hpadded : ∀ x ∈ dirs, ∀ i, v.SubdirEntry x.2 i →
      (v.table x.2 i).name = buffer 8 (string (v.table x.2 i).name))
    (hunique : ∀ x ∈ dirs, ∀ i, v.SubdirEntry x.2 i → ∀ j, v.SubdirEntry x.2 j →
      string (v.table x.2 i).name = string (v.table x.2 j).name → i = j)
    (hlen : ∀ x ∈ dirs, x.1.length + 33 < maxCmdLength) (hlast : path.getLast? = some slash)
    (h0 : (0 : Byte) ∉ path) (hself : v.folderNamed d (askedName path) = some d) :
    PlainSearch v (fun _ => []) path d where
  intact := hv
  directory := hd
  names := {
    slash := fun hb hi => hslash _ (hin hb) _ hi
    short := fun _ _ => .inr fun _ => rfl
    padded := fun hb hi => hpadded _ (hin hb) _ hi
    unique := fun hb hi hj => hunique _ (hin hb) _ hi _ hj }
  fits p e i hb _ := by
    have hpath := hlen _ (hin hb)
    have hname : (v.table e i).nameString.length ≤ 32 := by
      rw [FAT32DirectoryEntry.nameString, length_string]
      exact strlen_le
    rw [List.length_append, List.length_append, List.length_singleton]
    dsimp only at hpath
    omega
  last := hlast
  zero := h0
  self := hself

/-- The text of the path to the folder. -/
theorem string_folderPlace : string folderPlace.currentPath = folderTrail.text := shows_folder.path

/-- The root and the folder, with their paths. -/
def rootAndFolder : List (List Byte × BitVec 32) :=
  [(Trail.root.text, rootClusterNumber), (folderTrail.text, 3)]

theorem below_oneFile (h : oneFile.volume.Below Trail.root.text rootClusterNumber p e) :
    (p, e) ∈ rootAndFolder :=
  below_within (by decide) (by decide +kernel) h

theorem string_rootPlace : string rootPlace.currentPath = Trail.root.text := shows_rootPath.path

theorem plainSearch_oneFile :
    PlainSearch oneFile.volume (fun _ => []) (string rootPlace.currentPath)
      rootPlace.workingDirectory := by
  have hcareful : Careful oneFolder (makeFile 3 'b') := ⟨oneFolder_directory, fun h => by cases h⟩
  have hwf := step_wellFormed oneFolder_wellFormed hcareful oneFile_step
  rw [string_rootPlace]
  exact plainSearch_within hwf.toIntact .root below_oneFile (by decide +kernel)
    (by decide +kernel) (by decide +kernel) (by decide) (by decide) (by decide)
    (by decide +kernel)

theorem quiet_oneFile : oneFile.volume.QuietFiles (fun _ => []) (string rootPlace.currentPath)
    rootPlace.workingDirectory := by
  have hfiles : ∀ x ∈ rootAndFolder, ∀ i, oneFile.volume.Entry x.2 i →
      ¬ (oneFile.volume.table x.2 i).IsSubdirectory →
      (∀ j, ¬ oneFile.volume.SubdirEntry x.2 j) ∧
      (oneFile.volume.table x.2 0).name ≠ buffer 8 (string (oneFile.volume.table x.2 i).name) ∧
      (oneFile.volume.table x.2 1).name ≠ buffer 8 (string (oneFile.volume.table x.2 i).name) := by
    decide +kernel
  rw [quietFiles_iff plainSearch_oneFile, string_rootPlace]
  intro p e i hbelow hi hfile hmisleads
  obtain ⟨hleaf, hself, hparent⟩ := hfiles _ (below_oneFile hbelow) i hi hfile
  rcases hmisleads with ⟨j, -, hj, -⟩ | ⟨-, hname | hname⟩
  · exact hleaf j hj
  · exact hself hname
  · exact hparent hname

theorem plainSearch_namesake :
    PlainSearch namesake.volume (fun _ => []) (string folderPlace.currentPath)
      folderPlace.workingDirectory := by
  have hcareful : Careful oneFolder makeNamesake := ⟨oneFolder_directory, fun h => by cases h⟩
  have hwf := step_wellFormed oneFolder_wellFormed hcareful namesake_step
  have hin : ∀ {p e}, namesake.volume.Below folderTrail.text 3 p e →
      (p, e) ∈ [(folderTrail.text, 3#32)] := fun h => below_within (by decide) (by decide +kernel) h
  rw [string_folderPlace]
  exact plainSearch_within hwf.toIntact (.child (i := 2) .root (by decide +kernel)) hin
    (by decide +kernel) (by decide +kernel) (by decide +kernel) (by decide) (by decide)
    (by decide) (by decide +kernel)

/-- The shell on the disk with the folder `a`, and in that the file `b`. -/
def fileWorld : ShellWorld := ⟨oneFile, []⟩

theorem fileWorld_fs : fileWorld.fs = oneFile := by rw [fileWorld]

/-- At the root, `find` prints the folder once and the file in it once. -/
theorem find_once_subfolder :
    FindsOnce noProcesses (fun _ _ => 0) (fun _ => []) findLine rootPlace fileWorld := by
  have h := plainSearch_oneFile
  have hquiet := quiet_oneFile
  rw [← fileWorld_fs] at h hquiet
  exact (find_once_iff noProcesses h.intact h.directory (by decide) (fun _ => string_zero) h.fits
    h.findsFolders).mpr hquiet

/-- The shell on the disk with the file `a.t`. -/
def namesakeWorld : ShellWorld := ⟨namesake, []⟩

theorem namesakeWorld_fs : namesakeWorld.fs = namesake := by rw [namesakeWorld]

theorem misleads_namesake : namesake.volume.Misleads 3 2 := by
  have hleaf : ∀ i, ¬ namesake.volume.SubdirEntry 3 i := by decide +kernel
  exact .inr ⟨fun j hj => absurd hj (hleaf j), .inl (by decide +kernel)⟩

/-- In the folder `a` with the file `a.t`, it does not. -/
theorem find_not_once : namesakeWorld.fs.volume.WellFormed ∧
    namesakeWorld.fs.volume.PathsFit (string folderPlace.currentPath) folderPlace.workingDirectory ∧
    strlen findLine.cmdBuffer = 4 ∧
    ¬ FindsOnce noProcesses (fun _ _ => 0) (fun _ => []) findLine folderPlace namesakeWorld := by
  have hcareful : Careful oneFolder makeNamesake := ⟨oneFolder_directory, fun h => by cases h⟩
  have hwf := step_wellFormed oneFolder_wellFormed hcareful namesake_step
  have hentry : namesake.volume.Entry 3 2 := by decide +kernel
  have hfile : ¬ (namesake.volume.table 3 2).IsSubdirectory := by decide +kernel
  have hmisleads := misleads_namesake
  have h := plainSearch_namesake
  rw [← namesakeWorld_fs] at hwf hentry hfile hmisleads h
  refine ⟨hwf, h.fits, by decide, fun honce => ?_⟩
  exact (quietFiles_iff h).mp (quiet_of_findsOnce h.intact h.directory (by decide)
    (fun _ => string_zero) h.fits h.findsFolders honce) _ _ 2 .self hentry hfile hmisleads

end Binbows
