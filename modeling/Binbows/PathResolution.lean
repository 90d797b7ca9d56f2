/-
Binbows/PathResolution.lean

Where a path of the shell leads.

`multiple_cd` asks for the table of one directory after the other.  What it finds
depends on the folders of the volume only: `Volume.resolve` is the same walk on the
volume, without system calls, and a `multiple_cd` that is served by the file system
comes to the place that `resolve` says (`multipleCd_follows`), as long as nobody
changes the folders.

A path that leads somewhere leads there without its last slash as well
(`resolve_slash`): `cp` keeps that slash and `rm` drops it.
-/
import Binbows.FileMap
import Binbows.PathTexts
import Binbows.Shell

namespace Binbows

open Chain SlotTree Bytes Volume Run Calls

variable {v v' : Volume} {d c : BitVec 32} {name last : EntryName} {place start moved : Place}
  {t t' : FAT32DirectoryTable} {behind : List Byte}

/-! ### The walk on a volume -/

/-- The folder that `read_directory` finds below `d`. -/
def Volume.folderNamed (v : Volume) (d : BitVec 32) (name : EntryName) : Option (BitVec 32) :=
  ((v.table d).namedSlot name).map fun i => (v.table d i).cluster

/-- One component of a path. -/
def Volume.enter (v : Volume) (behind : List Byte) (last path : EntryName) (place : Place) :
    Except ShellFault (Option (EntryName × Place)) :=
  match v.folderNamed place.workingDirectory last with
  | none => .ok none
  | some c => changeDir behind path (v.table c) place

/-- `multiple_cd` on a volume. -/
def Volume.resolve (v : Volume) (behind path : List Byte) (place : Place) :
    Except ShellFault (Nat × Place) :=
  match startOfPath path place with
  | none => .ok (1, place)
  | some (rest, name, start) => do
      let reached ← walkPath (v.enter behind) rest [] name start
      match reached with
      | none => return (1, place)
      | some place => return (0, place)

/-! ### Only the folders matter -/

/-- A search for a folder sees the folders only. -/
theorem find?_folder_congr {P : Fin directoryEntryCount → FAT32DirectoryEntry → Prop}
    [∀ i e, Decidable (P i e)] (ht : SameFolderTable t t') (hP : ∀ i e, P i e → e.Folder) :
    ((List.finRange directoryEntryCount).find? fun i => P i (t' i)) =
      (List.finRange directoryEntryCount).find? fun i => P i (t i) := by
  congr 1
  funext i
  rw [decide_eq_decide]
  constructor
  · intro h
    rwa [← ht i (.inr (hP i _ h))]
  · intro h
    rwa [ht i (.inl (hP i _ h))]

theorem namedSlot_congr (ht : SameFolderTable t t') (name : EntryName) :
    t'.namedSlot name = t.namedSlot name :=
  find?_folder_congr (P := fun _ e => e.Folder ∧ memcmp e.name name = 0) ht fun _ _ h => h.1

theorem folderSlot_congr (ht : SameFolderTable t t') (path : List Byte) :
    t'.folderSlot path = t.folderSlot path :=
  find?_folder_congr (P := fun i e => 2 ≤ i.val ∧ e.Occupied ∧ e.IsSubdirectory ∧
    strcmp path (string e.name) = 1) ht fun _ _ h => ⟨h.2.1, h.2.2.1⟩

theorem folderSlot_eq_some {path : List Byte} {i : Fin directoryEntryCount}
    (h : t.folderSlot path = some i) :
    2 ≤ i.val ∧ (t i).Folder ∧ path = string (t i).name := by
  have hi := List.find?_some h
  rw [decide_eq_true_eq] at hi
  exact ⟨hi.1, ⟨hi.2.1, hi.2.2.1⟩, strcmp_eq_one_iff.mp hi.2.2.2⟩

/-- `change_dir` reads the folders of a table only. -/
theorem changeDir_congr (ht : SameFolderTable t t') (h0 : (t 0).Folder) (h1 : (t 1).Folder)
    (path : EntryName) : changeDir behind path t' place = changeDir behind path t place := by
  unfold changeDir
  dsimp only
  rw [ht 0 (.inl h0), ht 1 (.inl h1), folderSlot_congr ht]
  cases hslot : t.folderSlot (pathString behind path) with
  | none => rfl
  | some i =>
      dsimp only
      rw [ht i (.inl (folderSlot_eq_some hslot).2.1)]

/-- The first two slots of a directory hold folders. -/
theorem Volume.Intact.low_folder (h : v.Intact) (hd : v.Directory d) :
    (v.table d 0).Folder ∧ (v.table d 1).Folder := by
  have h0 := h.self_entry hd
  obtain ⟨a, -, h1, -⟩ := h.parent_entry hd
  exact ⟨⟨h0.occupied, h0.isSubdirectory⟩, h1.occupied, h1.isSubdirectory⟩

theorem folderNamed_congr (hs : SameFolders v v') (hd : v.Directory d) :
    v'.folderNamed d name = v.folderNamed d name := by
  have ht := hs.table hd
  unfold Volume.folderNamed
  rw [namedSlot_congr ht]
  refine Option.map_congr fun i hi => ?_
  rw [ht i (.inl (namedSlot_eq_some hi).1)]

/-! ### The walk stays among the directories -/

/-- A folder that is found is a directory. -/
theorem folderNamed_directory (h : v.Intact) (hd : v.Directory d)
    (hc : v.folderNamed d name = some c) : v.Directory c := by
  obtain ⟨i, hi, rfl⟩ := Option.map_eq_some_iff.mp hc
  obtain ⟨hfolder, -⟩ := namedSlot_eq_some hi
  obtain hfile | ⟨-, hdir⟩ := h.occupied_cases hd hfolder.1
  · exact absurd hfolder.2 hfile.2.2
  · exact hdir

theorem changeDir_directory {path next : EntryName} (h : v.Intact) (hd : v.Directory d)
    (hplace : v.Directory place.workingDirectory)
    (hc : changeDir behind path (v.table d) place = .ok (some (next, moved))) :
    v.Directory moved.workingDirectory := by
  unfold changeDir at hc
  dsimp only at hc
  split_ifs at hc with hdot hdots hroot
  · cases hc
    exact hplace
  · cases hc
    obtain ⟨a, ha, he, -⟩ := h.parent_entry hd
    exact he.cluster_eq.symm ▸ ha
  · cases hc
  · cases hslot : (v.table d).folderSlot (pathString behind path) with
    | none =>
        rw [hslot] at hc
        cases hc
    | some i =>
        rw [hslot] at hc
        obtain ⟨hi, hfolder, -⟩ := folderSlot_eq_some hslot
        have hchild : v.Directory (v.table d i).cluster :=
          .child hd (child_eq_some_iff.mpr ⟨⟨hi, hfolder.1, hfolder.2⟩, rfl⟩)
        obtain ⟨b, -, hc⟩ := bind_eq_ok.mp hc
        obtain ⟨b', -, hc⟩ := bind_eq_ok.mp hc
        cases hc
        exact hchild

/-! ### The walk of the shell -/

/-- The request for the table of the directory `name` below `d`. -/
def tableRequest (name : EntryName) (d : BitVec 32) : FsCall :=
  ⟨.readDirectory, ⟨stackBuffer, name, 0, d, BitVec.ofNat 32 clusterSize⟩, zeroMemory⟩

/-- The answer to it, while the folders are those of `v`. -/
def ShowsFolder (v : Volume) (d : BitVec 32) (name : EntryName) (reply : ShellReply) : Prop :=
  (reply.retcode ≠ 0 ∧ v.folderNamed d name = none) ∨
    (reply.retcode = 0 ∧ ∃ c, v.folderNamed d name = some c ∧
      SameFolderTable (v.table c) (.ofCluster (reply.mem.load stackBuffer)))

variable {Phase : Type} {k : Protocol ShellCall ShellReply Phase} {g : Phase}
  {E : Phase → ShellFault → Prop} {path pathBuffer : List Byte}

/-- In this phase a program may read tables, and it stays in the phase. -/
structure Looks (k : Protocol ShellCall ShellReply Phase) (v : Volume) (g : Phase) : Prop where
  good : ∀ {d}, v.Directory d → ∀ name, k.good g (.fs (tableRequest name d))
  valid : ∀ {d name reply}, v.Directory d → k.valid (.fs (tableRequest name d)) reply →
    ShowsFolder v d name reply
  next : ∀ {d name reply}, k.next g (.fs (tableRequest name d)) reply = g

theorem Looks.ask_follows (hl : Looks k v g) (hd : v.Directory d) :
    (Program.ask (.fs (tableRequest name d)) : ShellProgram ShellReply).Follows k E g
      fun g' reply => g' = g ∧ ShowsFolder v d name reply := by
  apply Program.follows_ask (hl.good hd name)
  intro reply hvalid
  exact ⟨hl.next, hl.valid hd hvalid⟩

theorem enterFolder_follows {path : EntryName} (h : v.Intact) (hl : Looks k v g)
    (hplace : v.Directory place.workingDirectory)
    (herr : ∀ e, v.enter behind name path place = .error e → E g e) :
    (enterFolder behind name path place).Follows k E g fun g' r =>
      g' = g ∧ v.enter behind name path place = .ok r := by
  unfold enterFolder
  refine Program.Follows.bind (hl.ask_follows hplace) ?_
  rintro _ reply ⟨rfl, ⟨hret, hnone⟩ | ⟨hret, c, hc, htable⟩⟩
  · rw [if_neg hret]
    apply Program.follows_pure
    refine ⟨rfl, ?_⟩
    rw [Volume.enter, hnone]
  · obtain ⟨h0, h1⟩ := h.low_folder (folderNamed_directory h hplace hc)
    have henter : v.enter behind name path place =
        changeDir behind path (.ofCluster (reply.mem.load stackBuffer)) place := by
      rw [Volume.enter, hc, changeDir_congr htable h0 h1]
    rw [if_pos hret, ← henter]
    apply Program.follows_ofExcept herr
    exact fun r hr => ⟨rfl, hr⟩

/-- The place that a component leads to is a directory. -/
theorem enter_directory {path next : EntryName} (h : v.Intact)
    (hplace : v.Directory place.workingDirectory)
    (henter : v.enter behind name path place = .ok (some (next, moved))) :
    v.Directory moved.workingDirectory := by
  rw [Volume.enter] at henter
  cases hc : v.folderNamed place.workingDirectory name with
  | none =>
      rw [hc] at henter
      cases henter
  | some c =>
      rw [hc] at henter
      exact changeDir_directory h (folderNamed_directory h hplace hc) hplace henter

/-- The walk with system calls does what the walk on the volume says. -/
theorem walkPath_follows (h : v.Intact) (hl : Looks k v g)
    (hplace : v.Directory place.workingDirectory)
    (herr : ∀ e, walkPath (v.enter behind) path pathBuffer name place = .error e → E g e) :
    (walkPath (enterFolder behind) path pathBuffer name place).Follows k E g fun g' r =>
      g' = g ∧ walkPath (v.enter behind) path pathBuffer name place = .ok r := by
  -- by the characters, along the walk of the volume
  induction path generalizing pathBuffer name place with
  | nil =>
      rw [walkPath] at herr
      rw [walkPath, walkPath]
      split_ifs at herr ⊢ with hempty
      · exact Program.follows_pure ⟨rfl, rfl⟩
      -- the last component is entered at the end of the path
      · refine Program.Follows.bind (enterFolder_follows h hl hplace fun e he => ?_) ?_
        · apply herr
          rw [he]
          rfl
        · rintro _ r ⟨rfl, hr⟩
          apply Program.follows_pure
          refine ⟨rfl, ?_⟩
          rw [hr]
          rfl
  | cons c path ih =>
      rw [walkPath] at herr
      rw [walkPath, walkPath]
      split_ifs at herr ⊢ with hslash hempty hfull
      · exact Program.follows_pure ⟨rfl, rfl⟩
      -- a slash enters the component, and the rest is walked from there
      · refine Program.Follows.bind (enterFolder_follows h hl hplace fun e he => ?_) ?_
        · apply herr
          rw [he]
          rfl
        · rintro _ r ⟨rfl, hr⟩
          rw [hr] at herr ⊢
          rcases r with - | ⟨next, moved⟩
          · exact Program.follows_pure ⟨rfl, rfl⟩
          · exact ih (enter_directory h hplace hr) herr
      · exact Program.follows_pure ⟨rfl, rfl⟩
      · exact ih hplace herr

/-! ### A path -/

theorem startOfPath_directory {rest : List Byte} (hplace : v.Directory place.workingDirectory)
    (hs : startOfPath path place = some (rest, name, start)) :
    v.Directory start.workingDirectory := by
  unfold startOfPath at hs
  dsimp only at hs
  split_ifs at hs with hlong hroot
  · cases hs
    exact .root
  · cases hs
    exact hplace

theorem walkPath_directory (h : v.Intact) (hplace : v.Directory place.workingDirectory)
    (hwalk : walkPath (v.enter behind) path pathBuffer name place = .ok (some moved)) :
    v.Directory moved.workingDirectory := by
  induction path generalizing pathBuffer name place with
  | nil =>
      rw [walkPath] at hwalk
      split_ifs at hwalk with hempty
      · cases hwalk
        exact hplace
      · obtain ⟨entered, henter, hmap⟩ := bind_eq_ok.mp hwalk
        obtain ⟨⟨next, place'⟩, rfl, rfl⟩ := Option.map_eq_some_iff.mp (Except.ok.inj hmap)
        exact enter_directory h hplace henter
  | cons c path ih =>
      rw [walkPath] at hwalk
      split_ifs at hwalk with hslash hempty hfull
      · cases hwalk
      · obtain ⟨entered, henter, hrest⟩ := bind_eq_ok.mp hwalk
        rcases entered with - | ⟨next, place'⟩
        · cases hrest
        · exact ih (enter_directory h hplace henter) hrest
      · cases hwalk
      · exact ih hplace hwalk

/-- A path leads to a directory. -/
theorem resolve_directory (h : v.Intact) (hplace : v.Directory place.workingDirectory)
    (hr : v.resolve behind path place = .ok (0, moved)) : v.Directory moved.workingDirectory := by
  rw [Volume.resolve] at hr
  cases hs : startOfPath path place with
  | none =>
      rw [hs] at hr
      cases hr
  | some walked =>
      obtain ⟨rest, name, start⟩ := walked
      rw [hs] at hr
      obtain ⟨reached, hwalk, hend⟩ := bind_eq_ok.mp hr
      cases reached with
      | none => cases hend
      | some place' =>
          cases hend
          exact walkPath_directory h (startOfPath_directory hplace hs) hwalk

/-- **`multiple_cd` follows the volume**: it comes to the place that `resolve` says. -/
theorem multipleCd_follows (h : v.Intact) (hl : Looks k v g)
    (hplace : v.Directory place.workingDirectory)
    (herr : ∀ e, v.resolve behind path place = .error e → E g e) :
    (multipleCd behind path place).Follows k E g fun g' r =>
      g' = g ∧ v.resolve behind path place = .ok r := by
  rw [multipleCd]
  rw [Volume.resolve] at herr ⊢
  cases hs : startOfPath path place with
  | none => exact Program.follows_pure ⟨rfl, rfl⟩
  | some walked =>
      obtain ⟨rest, name, start⟩ := walked
      rw [hs] at herr
      refine Program.Follows.bind
        (walkPath_follows h hl (startOfPath_directory hplace hs) fun e he => ?_) ?_
      · apply herr
        dsimp only
        rw [he]
        rfl
      · rintro _ r ⟨rfl, hr⟩
        dsimp only
        rw [hr]
        cases r with
        | none => exact Program.follows_pure ⟨rfl, rfl⟩
        | some place' => exact Program.follows_pure ⟨rfl, rfl⟩

/-! ### The last slash -/

theorem takeWhile_slash (path : List Byte) :
    (path ++ [slash]).takeWhile (· ≠ slash) = path.takeWhile (· ≠ slash) := by
  induction path with
  | nil => simp
  | cons c path ih =>
      rw [List.cons_append, List.takeWhile_cons, List.takeWhile_cons, ih]

theorem walkPath_slash
    (hwalk : walkPath (v.enter behind) (path ++ [slash]) pathBuffer name place = .ok (some moved)) :
    walkPath (v.enter behind) path pathBuffer name place = .ok (some moved) := by
  induction path generalizing pathBuffer name place with
  | nil =>
      rw [List.nil_append, walkPath, if_pos rfl] at hwalk
      rw [walkPath]
      split_ifs at hwalk ⊢ with hempty
      · cases hwalk
      · obtain ⟨entered, henter, hrest⟩ := bind_eq_ok.mp hwalk
        rw [henter]
        rcases entered with - | ⟨next, place'⟩
        · cases hrest
        · cases hrest
          rfl
  | cons c path ih =>
      rw [List.cons_append, walkPath] at hwalk
      rw [walkPath]
      split_ifs at hwalk ⊢ with hslash hempty hfull
      · cases hwalk
      · obtain ⟨entered, henter, hrest⟩ := bind_eq_ok.mp hwalk
        rw [henter]
        rcases entered with - | ⟨next, place'⟩
        · cases hrest
        · exact ih hrest
      · cases hwalk
      · exact ih hwalk

/-- **The last slash of a path does not matter**, where the path leads somewhere. -/
theorem resolve_slash (hr : v.resolve behind (path ++ [slash]) place = .ok (0, moved)) :
    v.resolve behind path place = .ok (0, moved) := by
  rw [Volume.resolve, startOfPath, takeWhile_slash] at hr
  rw [Volume.resolve, startOfPath]
  split_ifs at hr ⊢ with hlong hroot
  · cases hr
  · dsimp only at hr ⊢
    obtain ⟨reached, hwalk, hend⟩ := bind_eq_ok.mp hr
    cases reached with
    | none => cases hend
    | some place' =>
        have hfour : 4 ≤ path.length := by
          have hle := (List.takeWhile_prefix (p := fun c => c ≠ slash) (l := path)).length_le
          rw [hroot] at hle
          exact hle
        by_cases hfive : 5 ≤ path.length
        · rw [List.drop_append_of_le_length hfive] at hwalk
          rw [walkPath_slash hwalk]
          exact hend
        · -- the path is `root`, and nothing is left behind it
          have hnil : (path ++ [slash]).drop 5 = path.drop 5 := by
            rw [List.drop_of_length_le (by simp; omega), List.drop_of_length_le (by omega)]
          rw [hnil] at hwalk
          rw [hwalk]
          exact hend
  · dsimp only at hr ⊢
    obtain ⟨reached, hwalk, hend⟩ := bind_eq_ok.mp hr
    cases reached with
    | none => cases hend
    | some place' =>
        rw [walkPath_slash hwalk]
        exact hend

/-! ### Slashes and walks -/

section

variable {enter : EntryName → EntryName → Place → Except ShellFault (Option (EntryName × Place))}
  {front tail : List Byte} {r : Option Place}

/-- A slash behind a component changes nothing. -/
theorem walkPath_concat_slash (hsome : path ≠ [] ∨ pathBuffer ≠ [])
    (hlast : path.getLast? ≠ some slash) :
    walkPath enter (path ++ [slash]) pathBuffer name place =
      walkPath enter path pathBuffer name place := by
  -- by the characters: the slash at the end enters the component that the end would enter
  induction path generalizing pathBuffer name place with
  | nil =>
      have hbuffer : pathBuffer ≠ [] := hsome.resolve_left fun h => h rfl
      rw [List.nil_append, walkPath, walkPath, if_pos rfl, if_neg hbuffer, if_neg hbuffer]
      congr 1
      funext entered
      cases entered with
      | none => rfl
      | some moved => rfl
  | cons c path ih =>
      rw [List.cons_append, walkPath, walkPath]
      -- a slash within the path is followed by something
      by_cases hslash : c = slash
      · have hpath : path ≠ [] := by
          rintro rfl
          exact hlast (hslash ▸ rfl)
        rw [List.getLast?_cons_of_ne_nil hpath] at hlast
        rw [if_pos hslash, if_pos hslash]
        congr 1
        congr 1
        funext entered
        cases entered with
        | none => rfl
        | some moved => exact ih (.inl hpath) hlast
      · rw [if_neg hslash, if_neg hslash]
        congr 1
        apply ih (.inr (by simp))
        intro hpath
        apply hlast
        rw [List.getLast?_cons, hpath]
        rfl

/-- A slash behind a slash leads nowhere. -/
theorem walkPath_two_slashes :
    walkPath enter (path ++ [slash, slash]) pathBuffer name place ≠ .ok (some moved) := by
  induction path generalizing pathBuffer name place with
  | nil =>
      intro hwalk
      rw [List.nil_append, walkPath, if_pos rfl] at hwalk
      split_ifs at hwalk with hempty
      · cases hwalk
      · obtain ⟨entered, -, hrest⟩ := bind_eq_ok.mp hwalk
        cases entered with
        | none => cases hrest
        | some next =>
            change walkPath enter [slash] [] _ _ = _ at hrest
            rw [walkPath, if_pos rfl, if_pos rfl] at hrest
            cases hrest
  | cons c path ih =>
      intro hwalk
      rw [List.cons_append, walkPath] at hwalk
      split_ifs at hwalk with hslash hempty hfull
      · cases hwalk
      · obtain ⟨entered, -, hrest⟩ := bind_eq_ok.mp hwalk
        cases entered with
        | none => cases hrest
        | some next => exact ih hrest
      · cases hwalk
      · exact ih hwalk

/-- A walk that does not stop with a fault does not do so in a directory on the way. -/
theorem walkPath_front
    (hwalk : walkPath enter (front ++ slash :: tail) pathBuffer name place = .ok r) :
    ∃ r', walkPath enter front pathBuffer name place = .ok r' := by
  induction front generalizing pathBuffer name place with
  | nil =>
      rw [List.nil_append, walkPath, if_pos rfl] at hwalk
      rw [walkPath]
      split_ifs at hwalk ⊢ with hempty
      · exact ⟨_, rfl⟩
      · obtain ⟨entered, henter, -⟩ := bind_eq_ok.mp hwalk
        rw [henter]
        exact ⟨_, rfl⟩
  | cons c front ih =>
      rw [List.cons_append, walkPath] at hwalk
      rw [walkPath]
      split_ifs at hwalk ⊢ with hslash hempty hfull
      · exact ⟨_, rfl⟩
      · obtain ⟨entered, henter, hrest⟩ := bind_eq_ok.mp hwalk
        rw [henter]
        cases entered with
        | none => exact ⟨_, rfl⟩
        | some next => exact ih hrest
      · exact ⟨_, rfl⟩
      · exact ih hwalk

/-- Nor does it with a slash behind it. -/
theorem walkPath_concat_ok (hwalk : walkPath enter path pathBuffer name place = .ok r) :
    ∃ r', walkPath enter (path ++ [slash]) pathBuffer name place = .ok r' := by
  induction path generalizing pathBuffer name place with
  | nil =>
      rw [walkPath] at hwalk
      rw [List.nil_append, walkPath, if_pos rfl]
      split_ifs at hwalk ⊢ with hempty
      · exact ⟨_, rfl⟩
      · obtain ⟨entered, henter, -⟩ := bind_eq_ok.mp hwalk
        rw [henter]
        cases entered with
        | none => exact ⟨_, rfl⟩
        | some next => exact ⟨_, rfl⟩
  | cons c path ih =>
      rw [walkPath] at hwalk
      rw [List.cons_append, walkPath]
      split_ifs at hwalk ⊢ with hslash hempty hfull
      · exact ⟨_, rfl⟩
      · obtain ⟨entered, henter, hrest⟩ := bind_eq_ok.mp hwalk
        rw [henter]
        cases entered with
        | none => exact ⟨_, rfl⟩
        | some next => exact ih hrest
      · exact ⟨_, rfl⟩
      · exact ih hwalk

end

/-! ### Where a path leads -/

/-- The directory that a path leads to. -/
def Volume.leads (v : Volume) (behind path : List Byte) (place : Place) :
    Except ShellFault (Option (BitVec 32)) := do
  let (ret, moved) ← v.resolve behind path place
  return if ret = 0 then some moved.workingDirectory else none

/-- `root`. -/
def rootWord : List Byte := ['r', 'o', 'o', 't'].map ascii

section

variable {front tail rest : List Byte} {r : Option (BitVec 32)}

theorem leads_of_none (hs : startOfPath path place = none) : v.leads behind path place = .ok none := by
  rw [Volume.leads, Volume.resolve, hs]
  rfl

theorem leads_of_some (hs : startOfPath path place = some (rest, name, start)) :
    v.leads behind path place =
      walkPath (v.enter behind) rest [] name start >>= fun reached =>
        .ok (reached.map Place.workingDirectory) := by
  rw [Volume.leads, Volume.resolve, hs]
  dsimp only
  cases walkPath (v.enter behind) rest [] name start with
  | error e => rfl
  | ok reached =>
      cases reached with
      | none => rfl
      | some moved => rfl

/-- No path is where one stands. -/
@[simp] theorem leads_nil : v.leads behind [] place = .ok (some place.workingDirectory) := rfl

/-- A slash ends the first component. -/
theorem startOfPath_slash (front tail : List Byte) (place : Place) :
    startOfPath (front ++ slash :: tail) place = (startOfPath front place).map fun s =>
      (if front = rootWord then tail else s.1 ++ slash :: tail, s.2) := by
  have hfirst : (front ++ slash :: tail).takeWhile (· ≠ slash) = front.takeWhile (· ≠ slash) := by
    induction front with
    | nil => simp
    | cons c front ih => rw [List.cons_append, List.takeWhile_cons, List.takeWhile_cons, ih]
  rw [startOfPath, startOfPath, hfirst]
  by_cases hlong : 8 < (front.takeWhile (· ≠ slash)).length
  · rw [if_pos hlong, if_pos hlong]
    rfl
  rw [if_neg hlong, if_neg hlong]
  by_cases hroot : front.takeWhile (· ≠ slash) = ['r', 'o', 'o', 't'].map ascii
  · rw [if_pos hroot, if_pos hroot, Option.map_some]
    have hsplit := List.takeWhile_append_dropWhile (p := (· ≠ slash)) (l := front)
    rw [hroot] at hsplit
    cases hdrop : front.dropWhile (· ≠ slash) with
    | nil =>
        rw [hdrop, List.append_nil] at hsplit
        rw [← hsplit]
        rfl
    | cons c cs =>
        rw [hdrop] at hsplit
        rw [← hsplit]
        rfl
  · have hne : front ≠ rootWord := by
      rintro rfl
      exact hroot (by decide)
    rw [if_neg hroot, if_neg hroot, Option.map_some, if_neg hne]

/-- A path that starts at the root, or where one stands. -/
theorem startOfPath_cases (hs : startOfPath path place = some (rest, name, start)) :
    (rest = path ∧ path ≠ rootWord) ∨ (path = rootWord ∧ rest = []) ∨
      path = rootWord ++ slash :: rest := by
  unfold startOfPath at hs
  dsimp only at hs
  split_ifs at hs with hlong hroot
  · cases hs
    right
    have hsplit := List.takeWhile_append_dropWhile (p := (· ≠ slash)) (l := path)
    rw [hroot] at hsplit
    cases hdrop : path.dropWhile (· ≠ slash) with
    | nil =>
        rw [hdrop, List.append_nil] at hsplit
        rw [← hsplit]
        exact .inl ⟨rfl, rfl⟩
    | cons c cs =>
        have hc : c = slash := by
          have hhead := List.head?_dropWhile_not (· ≠ slash) path
          rw [hdrop] at hhead
          simpa using hhead
        rw [hdrop, hc] at hsplit
        rw [← hsplit]
        exact .inr rfl
  · cases hs
    refine .inl ⟨rfl, ?_⟩
    rintro rfl
    exact hroot (by decide)

/-- **A slash behind the last component changes nothing.** -/
theorem leads_concat_slash (hsome : path ≠ []) (hlast : path.getLast? ≠ some slash) :
    v.leads behind (path ++ [slash]) place = v.leads behind path place := by
  have hstart := startOfPath_slash path [] place
  cases hs : startOfPath path place with
  | none =>
      rw [hs] at hstart
      rw [leads_of_none hs, leads_of_none hstart]
  | some s =>
      obtain ⟨rest, name, start⟩ := s
      rw [hs] at hstart
      rw [leads_of_some hs, leads_of_some hstart]
      dsimp only
      rcases startOfPath_cases hs with ⟨rfl, hne⟩ | ⟨rfl, rfl⟩ | rfl
      · rw [if_neg hne, walkPath_concat_slash (.inl hsome) hlast]
      · rw [if_pos rfl]
      · have hrest : rest ≠ [] := by
          rintro rfl
          exact hlast rfl
        have hne : rootWord ++ slash :: rest ≠ rootWord := by simp
        rw [if_neg hne, walkPath_concat_slash (.inl hrest)]
        intro hrest'
        apply hlast
        rw [List.getLast?_append, List.getLast?_cons, hrest']
        rfl

/-- Two slashes at the end lead nowhere. -/
theorem leads_two_slashes : v.leads behind (path ++ [slash, slash]) place ≠ .ok (some c) := by
  intro hleads
  have hstart := startOfPath_slash path [slash] place
  cases hs : startOfPath path place with
  | none =>
      rw [hs] at hstart
      rw [leads_of_none hstart] at hleads
      cases hleads
  | some s =>
      obtain ⟨rest, name, start⟩ := s
      rw [hs] at hstart
      rw [leads_of_some hstart] at hleads
      obtain ⟨reached, hwalk, hend⟩ := bind_eq_ok.mp hleads
      obtain ⟨moved, rfl, -⟩ := Option.map_eq_some_iff.mp (Except.ok.inj hend)
      dsimp only at hwalk
      split_ifs at hwalk with hword
      · rw [walkPath, if_pos rfl, if_pos rfl] at hwalk
        cases hwalk
      · exact walkPath_two_slashes hwalk

/-- A directory on the way is found without a fault. -/
theorem leads_front (h : v.leads behind (front ++ slash :: tail) place = .ok r) :
    ∃ r', v.leads behind front place = .ok r' := by
  have hstart := startOfPath_slash front tail place
  cases hs : startOfPath front place with
  | none => exact ⟨_, leads_of_none hs⟩
  | some s =>
      obtain ⟨rest, name, start⟩ := s
      rw [hs] at hstart
      rw [leads_of_some hstart] at h
      obtain ⟨reached, hwalk, -⟩ := bind_eq_ok.mp h
      rw [leads_of_some hs]
      rcases startOfPath_cases hs with ⟨rfl, hne⟩ | ⟨rfl, rfl⟩ | rfl
      · dsimp only at hwalk
        rw [if_neg hne] at hwalk
        obtain ⟨r', hr'⟩ := walkPath_front hwalk
        rw [hr']
        exact ⟨_, rfl⟩
      · exact ⟨_, rfl⟩
      · have hne : rootWord ++ slash :: rest ≠ rootWord := by simp
        dsimp only at hwalk
        rw [if_neg hne] at hwalk
        obtain ⟨r', hr'⟩ := walkPath_front hwalk
        rw [hr']
        exact ⟨_, rfl⟩

/-- A slash behind a path adds no fault. -/
theorem leads_concat_ok (h : v.leads behind path place = .ok r) :
    ∃ r', v.leads behind (path ++ [slash]) place = .ok r' := by
  have hstart := startOfPath_slash path [] place
  cases hs : startOfPath path place with
  | none =>
      rw [hs] at hstart
      exact ⟨_, leads_of_none hstart⟩
  | some s =>
      obtain ⟨rest, name, start⟩ := s
      rw [hs] at hstart
      rw [leads_of_some hs] at h
      obtain ⟨reached, hwalk, -⟩ := bind_eq_ok.mp h
      rw [leads_of_some hstart]
      dsimp only
      split_ifs with hword
      · exact ⟨_, rfl⟩
      · obtain ⟨r', hr'⟩ := walkPath_concat_ok hwalk
        rw [hr']
        exact ⟨_, rfl⟩

end

/-! ### Other bytes behind `path_buffer` -/

section

variable {path pathBuffer behind' : List Byte}

/-- With other bytes behind the array, a component leads to the same folder or to none. -/
theorem changeDir_other {path next : EntryName}
    (h : changeDir behind path t place = .ok (some (next, moved))) :
    changeDir behind' path t place = .ok (some (next, moved)) ∨
      changeDir behind' path t place = .ok none := by
  by_cases hfull : strlen path = 8
  · have hlen : (pathString behind path).length = 8 + behind.length := by
      rw [pathString, if_pos hfull, List.length_append, length_string, hfull]
    have hlen' : (pathString behind' path).length = 8 + behind'.length := by
      rw [pathString, if_pos hfull, List.length_append, length_string, hfull]
    unfold changeDir at h ⊢
    dsimp only at h ⊢
    rw [if_neg (by omega)] at h
    rw [if_neg (by omega)]
    by_cases hdots : StartsWith path ['.', '.']
    -- both strings are long enough for two dots
    · rw [if_pos ⟨by omega, hdots⟩] at h
      rw [if_pos ⟨by omega, hdots⟩]
      exact .inl h
    · rw [if_neg fun hd => hdots hd.2] at h
      rw [if_neg fun hd => hdots hd.2]
      by_cases hnil : behind' = []
      · cases hslot : t.folderSlot (pathString behind path) with
        | none =>
            rw [hslot] at h
            cases h
        | some i =>
            -- a folder was found, so that nothing stood behind the array either
            obtain ⟨-, -, hname⟩ := folderSlot_eq_some hslot
            have hle : (pathString behind path).length ≤ 8 := by
              rw [hname, length_string]
              exact strlen_le
            have hbehind : behind = [] := List.length_eq_zero_iff.mp (by omega)
            rw [hbehind] at h
            rw [hnil]
            exact .inl h
      · have hnone : t.folderSlot (pathString behind' path) = none := by
          by_contra hsome
          obtain ⟨i, hi⟩ := Option.ne_none_iff_exists'.mp hsome
          obtain ⟨-, -, hname⟩ := folderSlot_eq_some hi
          have hle : (pathString behind' path).length ≤ 8 := by
            rw [hname, length_string]
            exact strlen_le
          exact hnil (List.length_eq_zero_iff.mp (by omega))
        rw [hnone]
        exact .inr rfl
  · have hlt : strlen path < 8 := lt_of_le_of_ne strlen_le hfull
    left
    unfold changeDir at h ⊢
    rwa [pathString_short hlt] at h ⊢

theorem enter_other {path next : EntryName} (behind' : List Byte)
    (h : v.enter behind name path place = .ok (some (next, moved))) :
    v.enter behind' name path place = .ok (some (next, moved)) ∨
      v.enter behind' name path place = .ok none := by
  unfold Volume.enter at h ⊢
  cases hc : v.folderNamed place.workingDirectory name with
  | none =>
      rw [hc] at h
      cases h
  | some c =>
      rw [hc] at h
      exact changeDir_other h

theorem walkPath_other (behind' : List Byte)
    (h : walkPath (v.enter behind) path pathBuffer name place = .ok (some moved)) :
    walkPath (v.enter behind') path pathBuffer name place = .ok (some moved) ∨
      walkPath (v.enter behind') path pathBuffer name place = .ok none := by
  -- by what is left of the path, as the walk goes
  induction path generalizing pathBuffer name place with
  | nil =>
      rw [walkPath] at h ⊢
      split_ifs at h ⊢ with hempty
      · exact .inl h
      · obtain ⟨entered, henter, hend⟩ := bind_eq_ok.mp h
        cases entered with
        | none => cases hend
        | some r =>
            obtain ⟨next, reached⟩ := r
            cases hend
            rcases enter_other behind' henter with hsame | hnone
            · rw [hsame]
              exact .inl rfl
            · rw [hnone]
              exact .inr rfl
  | cons c path ih =>
      rw [walkPath] at h ⊢
      split_ifs at h ⊢ with hslash hempty hfull
      · exact .inl h
      · obtain ⟨entered, henter, hrest⟩ := bind_eq_ok.mp h
        cases entered with
        | none => cases hrest
        | some r =>
            obtain ⟨next, reached⟩ := r
            rcases enter_other behind' henter with hsame | hnone
            · rw [hsame]
              exact ih hrest
            · rw [hnone]
              exact .inr rfl
      · exact .inl h
      · exact ih h

/-- **With other bytes behind `path_buffer`, a path leads to the same place or it fails.** -/
theorem resolve_other (behind' : List Byte) (h : v.resolve behind path place = .ok (0, moved)) :
    v.resolve behind' path place = .ok (0, moved) ∨
      v.resolve behind' path place = .ok (1, place) := by
  unfold Volume.resolve at h ⊢
  cases hs : startOfPath path place with
  | none =>
      rw [hs] at h
      cases h
  | some walked =>
      obtain ⟨rest, name, start⟩ := walked
      rw [hs] at h
      dsimp only at h ⊢
      obtain ⟨reached, hwalk, hend⟩ := bind_eq_ok.mp h
      cases reached with
      | none => cases hend
      | some place' =>
          cases hend
          rcases walkPath_other behind' hwalk with hsame | hnone
          · rw [hsame]
            exact .inl rfl
          · rw [hnone]
            exact .inr rfl

end

/-! ### Names that end -/

/-- The name of every folder has a NUL in its array. -/
def Volume.NamesEnd (v : Volume) : Prop :=
  ∀ ⦃d i⦄, v.Directory d → v.SubdirEntry d i → strlen (v.table d i).name < 8

section

variable {path pathBuffer : List Byte}

/-- A text that fills `path_buffer` is the name of no folder then. -/
theorem folderSlot_full {text : List Byte} (hn : v.NamesEnd) (hd : v.Directory d)
    (hlen : 8 ≤ text.length) : (v.table d).folderSlot text = none := by
  by_contra hsome
  obtain ⟨i, hi⟩ := Option.ne_none_iff_exists'.mp hsome
  obtain ⟨htwo, hfolder, rfl⟩ := folderSlot_eq_some hi
  rw [length_string] at hlen
  exact absurd (hn hd ⟨htwo, hfolder.1, hfolder.2⟩) (not_lt.mpr hlen)

theorem changeDir_behind {path : EntryName} (hn : v.NamesEnd) (hd : v.Directory d) :
    changeDir behind path (v.table d) place = changeDir [] path (v.table d) place := by
  by_cases hfull : strlen path = 8
  · have hlen : 8 ≤ (pathString behind path).length := hfull.ge.trans length_pathString
    have hnil : 8 ≤ (pathString [] path).length := hfull.ge.trans length_pathString
    -- both strings are too long for a single dot, and long enough for two
    have hdot : ¬ ((pathString behind path).length = 1 ∧ StartsWith path ['.']) := by omega
    have hdot' : ¬ ((pathString [] path).length = 1 ∧ StartsWith path ['.']) := by omega
    unfold changeDir
    dsimp only
    rw [folderSlot_full hn hd hlen, folderSlot_full hn hd hnil, if_neg hdot, if_neg hdot']
    exact if_congr (and_congr_left fun _ => iff_of_true (by omega) (by omega)) rfl rfl
  · have hlt : strlen path < 8 := lt_of_le_of_ne strlen_le hfull
    unfold changeDir
    rw [pathString_short hlt, pathString_short hlt]

theorem enter_behind {path : EntryName} (h : v.Intact) (hn : v.NamesEnd)
    (hplace : v.Directory place.workingDirectory) :
    v.enter behind name path place = v.enter [] name path place := by
  rw [Volume.enter, Volume.enter]
  cases hc : v.folderNamed place.workingDirectory name with
  | none => rfl
  | some c => exact changeDir_behind hn (folderNamed_directory h hplace hc)

theorem walkPath_behind (h : v.Intact) (hn : v.NamesEnd)
    (hplace : v.Directory place.workingDirectory) :
    walkPath (v.enter behind) path pathBuffer name place =
      walkPath (v.enter []) path pathBuffer name place := by
  induction path generalizing pathBuffer name place with
  | nil =>
      rw [walkPath, walkPath, enter_behind h hn hplace]
  | cons c path ih =>
      rw [walkPath, walkPath, enter_behind h hn hplace, ih hplace]
      split_ifs
      · rfl
      · cases henter : v.enter [] name (buffer 8 pathBuffer) place with
        | error e => rfl
        | ok entered =>
            cases entered with
            | none => rfl
            | some moved => exact ih (enter_directory h hplace henter)
      · rfl
      · rfl

/-- **Where the names of folders end, nothing behind `path_buffer` matters.** -/
theorem resolve_behind (behind : List Byte) (h : v.Intact) (hn : v.NamesEnd)
    (hplace : v.Directory place.workingDirectory) :
    v.resolve behind path place = v.resolve [] path place := by
  rw [Volume.resolve, Volume.resolve]
  cases hs : startOfPath path place with
  | none => rfl
  | some walked =>
      obtain ⟨rest, name, start⟩ := walked
      dsimp only
      rw [walkPath_behind h hn (startOfPath_directory hplace hs)]

end

end Binbows
