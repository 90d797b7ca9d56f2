/-
Binbows/UsualPaths.lean

Where `multiple_cd` leads.

The shell stands on a trail: `current_path` is the text of the trail, and
`working_directory` the directory that it ends in (`Place.Shows`).  A walk of
`multiple_cd` keeps a trail, together with the name that the next request asks for
(`Standing`), and what it makes of a path is what `Volume.takenPath` says
(`multipleCdGlobals_run`).

Main result: `cd_resolves_iff`.
-/
import Binbows.ChangeDirectory
import Binbows.FileContents
import Binbows.PathTrails

namespace Binbows

open Bytes Calls Volume

variable {others : ShellCall → ShellWorld → Except ShellFault (ShellReply × ShellWorld)}
  {w w' : ShellWorld} {v : Volume} {d c : BitVec 32} {trail trail' : Trail} {place saved : Place}
  {name : EntryName} {component behind : List Byte} {components : List (List Byte)}

/-! ### Where the shell stands -/

/-- The globals show a trail. -/
structure Place.Shows (place : Place) (trail : Trail) : Prop where
  path : string place.currentPath = trail.text
  fits : trail.text.length < maxCmdLength
  directory : place.workingDirectory = trail.cluster

/-- Between two components: a trail of the volume, the globals that show it, and the name
of its directory. -/
structure Standing (v : Volume) (trail : Trail) (name : EntryName) (place : Place) : Prop where
  hasTrail : v.HasTrail trail
  shows : place.Shows trail
  name_eq : name = trail.name

/-- The path of a trail ends in the name of its directory. -/
theorem Place.Shows.endsIn {up : Trail} {text : List Byte} (h : place.Shows (up.child c text))
    (ht : v.HasTrail (up.child c text)) :
    EndsIn place.currentPath up.text text ∧ text ≠ [] := by
  cases ht with
  | child _ _ hname => exact ⟨⟨h.path, .inr up.getLast?_text, hname.slash⟩, hname.nonempty⟩

theorem Place.Shows.endsIn_root (h : place.Shows .root) :
    EndsIn place.currentPath [] (['r', 'o', 'o', 't'].map ascii) where
  string_eq := h.path
  front_slash := .inl rfl
  name_slash := by decide

/-- The first loop of `multiple_cd` finds the name of the directory. -/
theorem Place.Shows.lastFolderName (h : place.Shows trail) (ht : v.HasTrail trail) :
    lastFolderName place.currentPath = trail.name := by
  cases trail with
  | root =>
      rw [lastFolderName_string h.endsIn_root]
      decide
  | child up c text => exact lastFolderName_string (h.endsIn ht).1

/-! ### One component -/

/-- The first folder of a directory that goes by the name of the directory is the
directory itself. -/
theorem namedSlot_self (hv : v.Intact) (hd : v.Directory d) :
    (v.table d).namedSlot (v.table d 0).name = some 0 := by
  have hself := hv.self_entry hd
  have hfirst : List.finRange directoryEntryCount = 0 :: (List.finRange directoryEntryCount).tail := by
    decide
  unfold FAT32DirectoryTable.namedSlot
  rw [hfirst, List.find?_cons_of_pos]
  simp [FAT32DirectoryEntry.Folder, hself.occupied, hself.isSubdirectory]

/-- A directory that is asked for under its own name is answered with its table. -/
theorem readDirectory_self
    (others : ShellCall → ShellWorld → Except ShellFault (ShellReply × ShellWorld))
    (hv : w.fs.volume.Intact) (hd : w.fs.volume.Directory d)
    (hname : name = (w.fs.volume.table d 0).name) :
    ∃ reply w', serve others (.fs ⟨.readDirectory, ⟨stackBuffer, name, 0, d,
        BitVec.ofNat 32 clusterSize⟩, zeroMemory⟩) w = .ok (reply, w') ∧ reply.retcode = 0 ∧
      FAT32DirectoryTable.ofCluster (reply.mem.load stackBuffer) = w.fs.volume.table d ∧
      SameDisk w.fs w'.fs := by
  have hslot := namedSlot_self hv hd
  rw [← hname] at hslot
  have hexec : FsCall.exec ⟨.readDirectory, ⟨stackBuffer, name, 0, d, BitVec.ofNat 32 clusterSize⟩,
      zeroMemory⟩ w.fs = .ok ⟨0, zeroMemory.store stackBuffer
        (w.fs.volume.content (w.fs.volume.table d 0).cluster), w.fs.readDirTable d⟩ := by
    show readDirectory _ _ _ = _
    rw [readDirectory_eq, if_neg (not_not.mpr rfl), parentCheck_directory hv hd]
    exact congrArg Except.ok (readFolder_some hslot)
  rw [(hv.self_entry hd).cluster_eq] at hexec
  exact ⟨_, _, serve_fs hexec, rfl, congrArg FAT32DirectoryTable.ofCluster (Memory.load_store _ _ _),
    rfl, rfl⟩

theorem pathString_buffer (behind : List Byte) (hc : IsComponent component)
    (hlen : component.length ≤ 8) :
    pathString behind (buffer 8 component) =
      if component.length = 8 then component ++ behind else component := by
  have hstring : string (buffer 8 component) = component := string_buffer hlen hc.zero
  rw [pathString, ← length_string, hstring]

theorem startsWith_dots (hlen : component.length ≤ 8) :
    StartsWith (buffer 8 component) ['.', '.'] ↔ [dot, dot] <+: component := by
  have hspan : span (buffer 8 component) 0 2 = [component.getD 0 0, component.getD 1 0] := by
    simp [span, List.range_succ, chars_buffer hlen]
  unfold StartsWith
  rw [List.length_cons, List.length_singleton, hspan]
  rcases component with - | ⟨a, - | ⟨b, rest⟩⟩
  · decide
  · have hnul : (0#8 : Byte) ≠ ascii '.' := by decide
    simp [hnul]
  · simp [dot, eq_comm]

theorem startsWith_dot (hlen : component.length ≤ 8) :
    component.length = 1 ∧ StartsWith (buffer 8 component) ['.'] ↔ component = [dot] := by
  have hspan : span (buffer 8 component) 0 1 = [component.getD 0 0] := by
    simp [span, List.range_succ, chars_buffer hlen]
  unfold StartsWith
  rw [List.length_singleton, hspan]
  rcases component with - | ⟨a, - | ⟨b, rest⟩⟩
  · simp
  · simp [dot]
  · simp

theorem childNamed_eq : v.childNamed d component =
    ((v.table d).folderSlot component).map fun i => (v.table d i).cluster := by
  unfold Volume.childNamed FAT32DirectoryTable.folderSlot
  congr 2
  funext i
  rw [decide_eq_decide, strcmp_eq_one_iff]
  constructor
  · rintro ⟨⟨hi, ho, hs⟩, rfl⟩
    exact ⟨hi, ho, hs, rfl⟩
  · rintro ⟨hi, ho, hs, rfl⟩
    exact ⟨⟨hi, ho, hs⟩, rfl⟩

/-- A name that is read on behind `path_buffer` is none. -/
theorem folderSlot_long {t : FAT32DirectoryTable} (h : 8 < component.length) :
    t.folderSlot component = none := by
  unfold FAT32DirectoryTable.folderSlot
  rw [List.find?_eq_none]
  simp only [List.mem_finRange, true_imp_iff, decide_eq_true_eq, strcmp_eq_one_iff]
  rintro i ⟨-, -, -, rfl⟩
  rw [length_string] at h
  exact not_le.mpr h strlen_le

/-- The results of `change_dir`, by what the component was taken for. -/
inductive Changes (v : Volume) : Except ShellFault DirChange → Except ShellFault (Option Trail) → Prop
  | fault {e : ShellFault} : Changes v (.error e) (.error e)
  | fails {change : DirChange} : change.ret = 1 → Changes v (.ok change) (.ok none)
  | moves {change : DirChange} {trail : Trail} : change.ret = 0 →
      Standing v trail change.path change.globals → Changes v (.ok change) (.ok (some trail))

/-- The name that `..` leaves in `path_buffer`. -/
theorem Volume.HasTrail.name_padded (h : v.HasTrail trail) :
    buffer 8 (string trail.name) = trail.name := by
  cases h with
  | root => decide
  | child hup hi _ =>
      rw [Trail.name, string_buffer _ zero_notMem_string]
      rw [length_string]
      exact strlen_le

/-- `..` below the root. -/
theorem changes_parent (hv : v.Intact) (hn : v.ProperNames) (h : Standing v trail name place)
    (hc : IsComponent component) (hlen : component.length ≤ 8) (hdots : [dot, dot] <+: component) :
    Changes v (changeDirGlobals behind (buffer 8 component) (v.table trail.cluster) place)
      (.ok trail.parent) := by
  have hle : 2 ≤ component.length := hdots.length_le
  have hname : 2 ≤ (pathString behind (buffer 8 component)).length := by
    rw [pathString_buffer behind hc hlen]
    split_ifs
    · rw [List.length_append]
      omega
    · exact hle
  unfold changeDirGlobals
  dsimp only
  rw [if_neg (by omega), if_pos ⟨hname, (startsWith_dots hlen).mpr hdots⟩, h.shows.directory]
  cases trail with
  | root =>
      rw [Trail.cluster_root, if_neg (not_not.mpr rfl)]
      exact .fails rfl
  | child up c text =>
      obtain ⟨hends, hne⟩ := h.shows.endsIn h.hasTrail
      have hfits := h.shows.fits
      rw [Trail.length_text_child] at hfits
      cases h.hasTrail with
      | child hup hi _ =>
          have hlinked := hv.child_linked hup.directory hi
          have hparent := hlinked.parent
          rw [Trail.cluster_child, if_pos hlinked.range.ne_root]
          refine .moves rfl ⟨hup, ⟨?_, by omega, hparent.cluster_eq⟩, ?_⟩
          · exact trimPath_string hends hne up.five_le_length
          · show buffer 8 (string (v.table _ 1).name) = _
            rw [hparent.name_eq, hup.self_name hv hn, hup.name_padded]

theorem strlen_currentPath (h : place.Shows trail) :
    strlen place.currentPath = trail.text.length := by
  rw [← length_string, h.path]

/-- The component is no dots, and `change_dir` sees that. -/
theorem not_dots (behind : List Byte) (hc : IsComponent component) (hlen : component.length ≤ 8)
    (hdot : component ≠ [dot]) (hdots : ¬ [dot, dot] <+: component) :
    ¬ ((pathString behind (buffer 8 component)).length = 1 ∧
        StartsWith (buffer 8 component) ['.']) ∧
      ¬ (2 ≤ (pathString behind (buffer 8 component)).length ∧
        StartsWith (buffer 8 component) ['.', '.']) := by
  rw [startsWith_dots hlen, pathString_buffer behind hc hlen]
  refine ⟨?_, fun h => hdots h.2⟩
  split_ifs with hfull
  · rw [List.length_append]
    omega
  · rw [startsWith_dot hlen]
    exact hdot

theorem changeDirGlobals_none {t : FAT32DirectoryTable} (hc : IsComponent component)
    (hlen : component.length ≤ 8) (hdot : component ≠ [dot]) (hdots : ¬ [dot, dot] <+: component)
    (hslot : t.folderSlot (pathString behind (buffer 8 component)) = none) :
    changeDirGlobals behind (buffer 8 component) t place = .ok ⟨1, buffer 8 component, place⟩ := by
  obtain ⟨hno, hno'⟩ := not_dots behind hc hlen hdot hdots
  unfold changeDirGlobals
  dsimp only
  rw [if_neg hno, if_neg hno', hslot]

theorem changeDirGlobals_some {t : FAT32DirectoryTable} {i : Fin directoryEntryCount}
    (hc : IsComponent component) (hlen : component.length ≤ 8) (hdot : component ≠ [dot])
    (hdots : ¬ [dot, dot] <+: component)
    (hslot : t.folderSlot (pathString behind (buffer 8 component)) = some i) :
    changeDirGlobals behind (buffer 8 component) t place =
      (strcat place.currentPath (pathString behind (buffer 8 component)) >>= fun path =>
        strcat path [slash] >>= fun path =>
          pure ⟨0, buffer 8 component, path, (t i).cluster⟩) := by
  obtain ⟨hno, hno'⟩ := not_dots behind hc hlen hdot hdots
  unfold changeDirGlobals
  dsimp only
  rw [if_neg hno, if_neg hno', hslot]

/-- The name of a child. -/
theorem changes_child (h : Standing v trail name place) (hc : IsComponent component)
    (hlen : component.length ≤ 8) (hdot : component ≠ [dot]) (hdots : ¬ [dot, dot] <+: component) :
    Changes v (changeDirGlobals behind (buffer 8 component) (v.table trail.cluster) place)
      (v.taken behind trail component) := by
  have hpath := pathString_buffer behind hc hlen
  rw [Volume.taken, if_neg (not_lt.mpr hlen), if_neg hdot, if_neg hdots]
  by_cases hfull : component.length = 8 ∧ behind ≠ []
  · -- the string goes on behind `path_buffer`
    rw [if_pos hfull, changeDirGlobals_none hc hlen hdot hdots]
    · exact .fails rfl
    · rw [hpath, if_pos hfull.1, folderSlot_long]
      have := List.length_pos_of_ne_nil hfull.2
      rw [List.length_append]
      omega
  have hname : pathString behind (buffer 8 component) = component := by
    rw [hpath]
    split_ifs with height
    · rw [not_not.mp fun hne => hfull ⟨height, hne⟩, List.append_nil]
    · rfl
  rw [if_neg hfull, childNamed_eq]
  cases hslot : (v.table trail.cluster).folderSlot component with
  -- no folder of the name
  | none =>
      rw [changeDirGlobals_none hc hlen hdot hdots (by rw [hname, hslot])]
      exact .fails rfl
  | some i =>
      have hchild : v.childNamed trail.cluster component = some (v.table trail.cluster i).cluster := by
        rw [childNamed_eq, hslot]
        rfl
      have hstrlen := strlen_currentPath h.shows
      rw [changeDirGlobals_some hc hlen hdot hdots (by rw [hname, hslot]), hname]
      dsimp only [Option.map_some]
      rw [Trail.length_text_child]
      -- the name and the slash are appended one after the other, and either may not fit
      by_cases hfirst : trail.text.length + component.length < maxCmdLength
      · obtain ⟨path, hcat, hstring⟩ :=
          strcat_string (b := place.currentPath) (by rwa [hstrlen]) hc.zero
        have hlength : strlen path = trail.text.length + component.length := by
          rw [← length_string, hstring, List.length_append, length_string, hstrlen]
        rw [hcat]
        show Changes v (strcat path [slash] >>= fun _ => _) _
        by_cases hfit : trail.text.length + component.length + 1 < maxCmdLength
        · obtain ⟨path', hcat', hstring'⟩ :=
            (strcat_string (by rwa [hlength]) (by decide) :
              ∃ path', strcat path [slash] = .ok path' ∧ string path' = string path ++ [slash])
          rw [if_pos hfit, hcat']
          refine .moves rfl ⟨h.hasTrail.childNamed hc hchild, ⟨?_, by simpa using hfit, rfl⟩, rfl⟩
          show string path' = _
          rw [hstring', hstring, h.shows.path]
          rfl
        · rw [if_neg hfit, strcat_error (by rw [hlength, List.length_singleton]; omega)]
          exact .fault
      · rw [if_neg (by omega), strcat_error (by rw [hstrlen]; omega)]
        exact .fault

/-- **What `change_dir` does with a component.** -/
theorem changes_taken (behind : List Byte) (hv : v.Intact) (hn : v.ProperNames)
    (h : Standing v trail name place)
    (hc : IsComponent component) (hlen : component.length ≤ 8) :
    Changes v (changeDirGlobals behind (buffer 8 component) (v.table trail.cluster) place)
      (v.taken behind trail component) := by
  by_cases hdot : component = [dot]
  · subst hdot
    show Changes v (.ok ⟨0, (v.table trail.cluster 0).name, place⟩) (.ok (some trail))
    exact .moves rfl ⟨h.hasTrail, h.shows, h.hasTrail.self_name hv hn⟩
  · by_cases hdots : [dot, dot] <+: component
    · have htaken : v.taken behind trail component = .ok trail.parent := by
        rw [Volume.taken, if_neg (not_lt.mpr hlen), if_neg hdot, if_pos hdots]
      rw [htaken]
      exact changes_parent hv hn h hc hlen hdots
    · exact changes_child h hc hlen hdot hdots

/-- The ways on behind a component, by what it was taken for. -/
inductive Enters (v : Volume) (saved : Place) (w : ShellWorld) :
    Except ShellFault (ComponentEnd × ShellWorld) → Except ShellFault (Option Trail) → Prop
  | fault {e : ShellFault} : Enters v saved w (.error e) (.error e)
  | fails {w' : ShellWorld} : SameDisk w.fs w'.fs →
      Enters v saved w (.ok (.exit 1 saved, w')) (.ok none)
  | moves {w' : ShellWorld} {trail : Trail} {name : EntryName} {place : Place} :
      SameDisk w.fs w'.fs → Standing v trail name place →
      Enters v saved w (.ok (.next name place, w')) (.ok (some trail))

theorem enterComponent_enters
    (others : ShellCall → ShellWorld → Except ShellFault (ShellReply × ShellWorld))
    (behind : List Byte) (saved : Place) (hv : w.fs.volume.Intact) (hn : w.fs.volume.ProperNames)
    (h : Standing w.fs.volume trail name place) (hc : IsComponent component)
    (hlen : component.length ≤ 8) :
    Enters w.fs.volume saved w
      ((enterComponent behind saved component name place).run (serve others) w)
      (w.fs.volume.taken behind trail component) := by
  -- the directory is asked for its own table, and tells it
  obtain ⟨reply, w', hserve, hret, htable, hdisk⟩ := readDirectory_self others hv
    h.hasTrail.directory (h.name_eq.trans (h.hasTrail.self_name hv hn).symm)
  rw [← h.shows.directory] at hserve
  have hchanges := changes_taken behind hv hn h hc hlen
  rw [enterComponent, if_neg (not_lt.mpr hlen), Program.run_bind]
  have hask : (Program.ask (.fs ⟨.readDirectory, ⟨stackBuffer, name, 0, place.workingDirectory,
      BitVec.ofNat 32 clusterSize⟩, zeroMemory⟩) : ShellProgram ShellReply).run (serve others) w =
      .ok (reply, w') := by
    rw [Program.ask, Program.run, hserve]
    rfl
  rw [hask]
  show Enters _ _ _ (Program.run _ (if reply.retcode = 0 then _ else _) w') _
  rw [if_pos hret, htable, Program.run_bind]
  generalize changeDirGlobals behind (buffer 8 component)
    (w.fs.volume.table trail.cluster) place = change at hchanges ⊢
  generalize w.fs.volume.taken behind trail component = taken at hchanges ⊢
  -- what `change_dir` does with the table decides how the component ends
  cases hchanges with
  | fault => exact .fault
  | @fails change hret =>
      show Enters _ _ _ (Program.run _ (if change.ret ≠ 0 then _ else _) w') _
      rw [if_pos (by rw [hret]; exact Nat.one_ne_zero)]
      exact .fails hdisk
  | @moves change trail' hret hstanding =>
      show Enters _ _ _ (Program.run _ (if change.ret ≠ 0 then _ else _) w') _
      rw [if_neg (not_not.mpr hret)]
      exact .moves hdisk hstanding

/-! ### A path -/

/-- Components with slashes between them. -/
def joinPath : List (List Byte) → List Byte
  | [] => []
  | [component] => component
  | component :: components => component ++ slash :: joinPath components

/-- The text of a path, with or without a slash at its end. -/
def pathText (components : List (List Byte)) (trailing : Bool) : List Byte :=
  joinPath components ++ if trailing then [slash] else []

/-- The characters of a component are collected in `path_buffer`. -/
theorem walkComponents_letters {letters rest buf : List Byte} {bufExist : Bool} {globals : Place}
    (hne : letters ≠ []) (hslash : slash ∉ letters) (hlen : (buf ++ letters).length ≤ 8) :
    walkComponents behind saved (letters ++ rest) bufExist buf name globals =
      walkComponents behind saved rest true (buf ++ letters) name globals := by
  induction letters generalizing buf bufExist with
  | nil => exact absurd rfl hne
  | cons c letters ih =>
      rw [List.mem_cons, not_or] at hslash
      rw [List.length_append, List.length_cons] at hlen
      rw [List.cons_append, walkComponents, if_neg (Ne.symm hslash.1), if_neg (by omega)]
      by_cases hlast : letters = []
      · rw [hlast, List.nil_append]
      · rw [ih hlast hslash.2 (by simp; omega), List.append_assoc, List.singleton_append]

/-- A component that does not fit into `path_buffer`. -/
theorem walkComponents_long {letters rest buf : List Byte} {bufExist : Bool} {globals : Place}
    (hslash : slash ∉ letters) (hbuf : buf.length ≤ 8) (hlen : 8 < (buf ++ letters).length) :
    walkComponents behind saved (letters ++ rest) bufExist buf name globals = pure (1, saved) := by
  induction letters generalizing buf bufExist with
  | nil =>
      rw [List.append_nil] at hlen
      omega
  | cons c letters ih =>
      rw [List.mem_cons, not_or] at hslash
      rw [List.length_append, List.length_cons] at hlen
      rw [List.cons_append, walkComponents, if_neg (Ne.symm hslash.1)]
      split_ifs with hfull
      · rfl
      · apply ih hslash.2
        · simp
          omega
        · simp
          omega

theorem walkComponents_refused {letters rest : List Byte} {globals : Place}
    (hslash : slash ∉ letters) (hlen : 8 < letters.length) :
    walkComponents behind saved (letters ++ rest) false [] name globals = pure (1, saved) :=
  walkComponents_long hslash (Nat.zero_le 8) hlen

/-- The ends of `multiple_cd`, by what it made of the path. -/
inductive Concludes (v : Volume) (saved : Place) (w : ShellWorld) :
    Except ShellFault ((Nat × Place) × ShellWorld) → Except ShellFault (Option Trail) → Prop
  | fault {e : ShellFault} : Concludes v saved w (.error e) (.error e)
  | fails {w' : ShellWorld} : SameDisk w.fs w'.fs →
      Concludes v saved w (.ok ((1, saved), w')) (.ok none)
  | arrives {w' : ShellWorld} {trail : Trail} {place : Place} : SameDisk w.fs w'.fs →
      v.HasTrail trail → place.Shows trail →
      Concludes v saved w (.ok ((0, place), w')) (.ok (some trail))

/-- What comes behind a component does not matter where it is refused. -/
theorem Concludes.of_disk {x : Except ShellFault ((Nat × Place) × ShellWorld)}
    {y : Except ShellFault (Option Trail)} (hdisk : SameDisk w.fs w'.fs)
    (h : Concludes v saved w' x y) : Concludes v saved w x y := by
  have htrans : ∀ {s : FsState}, SameDisk w'.fs s → SameDisk w.fs s := fun h =>
    ⟨h.clusterMap.trans hdisk.clusterMap, h.disk.trans hdisk.disk⟩
  cases h with
  | fault => exact .fault
  | fails h => exact .fails (htrans h)
  | arrives h ht hp => exact .arrives (htrans h) ht hp

/-- One component, and what comes behind it: `next` is the rest of the walk. -/
theorem concludes_component {next : EntryName → Place → ShellProgram (Nat × Place)}
    (hv : w.fs.volume.Intact) (hn : w.fs.volume.ProperNames)
    (h : Standing w.fs.volume trail name place) (hc : IsComponent component)
    (hlen : component.length ≤ 8)
    (hnext : ∀ {trail' name' place' w'}, SameDisk w.fs w'.fs →
      Standing w.fs.volume trail' name' place' →
      Concludes w.fs.volume saved w' ((next name' place').run (serve others) w')
        (w.fs.volume.takenPath behind trail' components)) :
    Concludes w.fs.volume saved w
      ((enterComponent behind saved component name place >>= ComponentEnd.goOn next).run
        (serve others) w)
      (w.fs.volume.takenPath behind trail (component :: components)) := by
  have henters := enterComponent_enters others behind saved hv hn h hc hlen
  rw [Program.run_bind, Volume.takenPath]
  generalize (enterComponent behind saved component name place).run (serve others) w = walked
    at henters ⊢
  generalize w.fs.volume.taken behind trail component = taken at henters ⊢
  cases henters with
  | fault => exact .fault
  | fails hdisk => exact .fails hdisk
  | moves hdisk hstanding => exact (hnext hdisk hstanding).of_disk hdisk

theorem takenPath_long (hlen : 8 < component.length) :
    v.takenPath behind trail (component :: components) = .ok none := by
  rw [Volume.takenPath, Volume.taken, if_pos hlen]

/-- Behind the first component of a path there is a path, unless the path ends there. -/
theorem pathText_cons (component : List Byte) {trailing : Bool}
    (h : components ≠ [] ∨ trailing = true) :
    ∃ trailing', pathText (component :: components) trailing =
        component ++ slash :: pathText components trailing' ∧
      (components ≠ [] ∨ trailing' = false) := by
  cases components with
  | nil =>
      obtain rfl := h.resolve_left (not_not.mpr rfl)
      exact ⟨false, rfl, .inr rfl⟩
  | cons next components =>
      refine ⟨trailing, ?_, .inl (List.cons_ne_nil _ _)⟩
      simp [pathText, joinPath]

theorem pathText_singleton : pathText [component] false = component := List.append_nil _

/-- **What the walk makes of a path.** -/
theorem walkComponents_concludes {trailing : Bool} (hv : w.fs.volume.Intact)
    (hn : w.fs.volume.ProperNames) (h : Standing w.fs.volume trail name place)
    (hcomponents : ∀ component ∈ components, IsComponent component)
    (hend : components ≠ [] ∨ trailing = false) :
    Concludes w.fs.volume saved w
      ((walkComponents behind saved (pathText components trailing) false [] name place).run
        (serve others) w)
      (w.fs.volume.takenPath behind trail components) := by
  -- by the components, from wherever the walk stands
  induction components generalizing w trail name place trailing with
  | nil =>
      obtain rfl := hend.resolve_left (not_not.mpr rfl)
      exact .arrives .rfl h.hasTrail h.shows
  | cons component components ih =>
      rw [List.forall_mem_cons] at hcomponents
      obtain ⟨hc, hcomponents⟩ := hcomponents
      -- the last component without a slash behind it is entered after the loop
      by_cases hlast : components ≠ [] ∨ trailing = true
      · obtain ⟨trailing', htext, hend'⟩ := pathText_cons component hlast
        rw [htext]
        by_cases hlen : component.length ≤ 8
        · rw [walkComponents_letters hc.nonempty hc.slash (by simpa using hlen), List.nil_append,
            walkComponents, if_pos rfl, if_neg (by simp)]
          refine concludes_component hv hn h hc hlen fun {trail' name' place' w'} hdisk hstanding => ?_
          -- the volume is the same, and the rest of the walk starts from here
          have hvolume := hdisk.volume_eq
          have := ih (w := w') (by rwa [hvolume]) (by rwa [hvolume]) (by rwa [hvolume])
            hcomponents hend'
          rwa [hvolume] at this
        · rw [walkComponents_refused hc.slash (not_le.mp hlen),
            takenPath_long (not_le.mp hlen)]
          exact .fails .rfl
      · rw [not_or, not_not, Bool.not_eq_true] at hlast
        obtain ⟨rfl, rfl⟩ := hlast
        rw [pathText_singleton, ← List.append_nil component]
        by_cases hlen : component.length ≤ 8
        · rw [walkComponents_letters hc.nonempty hc.slash (by simpa using hlen), List.nil_append,
            walkComponents, if_pos rfl, List.append_nil]
          refine concludes_component hv hn h hc hlen fun _ hstanding => ?_
          exact .arrives .rfl hstanding.hasTrail hstanding.shows
        · rw [walkComponents_refused hc.slash (not_le.mp hlen), List.append_nil,
            takenPath_long (not_le.mp hlen)]
          exact .fails .rfl

theorem takeWhile_pathText {trailing : Bool} (hc : IsComponent component) :
    (pathText (component :: components) trailing).takeWhile (· ≠ slash) = component := by
  have hall : ∀ c ∈ component, decide (c ≠ slash) = true := by
    intro c hmem
    rw [decide_eq_true_eq]
    rintro rfl
    exact hc.slash hmem
  by_cases hlast : components ≠ [] ∨ trailing = true
  · obtain ⟨trailing', htext, -⟩ := pathText_cons component hlast
    rw [htext, List.takeWhile_append_of_pos hall]
    simp
  · rw [not_or, not_not, Bool.not_eq_true] at hlast
    obtain ⟨rfl, rfl⟩ := hlast
    rw [pathText_singleton, List.takeWhile_eq_self_iff]
    exact hall

theorem shows_rootPath : (Place.mk rootPath rootClusterNumber).Shows .root where
  path := by decide
  fits := by decide
  directory := rfl

/-- **What `multiple_cd` makes of a path.** -/
theorem multipleCdGlobals_concludes
    (others : ShellCall → ShellWorld → Except ShellFault (ShellReply × ShellWorld))
    (behind : List Byte) (trailing : Bool) (hv : w.fs.volume.Intact)
    (hn : w.fs.volume.ProperNames) (ht : w.fs.volume.HasTrail trail) (hp : place.Shows trail)
    (hcomponents : ∀ component ∈ components, IsComponent component) (hne : components ≠ []) :
    Concludes w.fs.volume place w
      ((multipleCdGlobals behind (pathText components trailing) place).run (serve others) w)
      (w.fs.volume.takenPath behind (pathStart trail components).1
        (pathStart trail components).2) := by
  cases components with
  | nil => exact absurd rfl hne
  | cons component components =>
      have hc := hcomponents component List.mem_cons_self
      rw [multipleCdGlobals, firstComponent_nil, takeWhile_pathText hc, pathStart]
      -- a first component of more than eight characters is refused before it is looked at
      by_cases hlen : 8 < component.length
      · have hroot : component ≠ ['r', 'o', 'o', 't'].map ascii := by
          rintro rfl
          simp at hlen
        rw [if_pos hlen, if_neg hroot, takenPath_long hlen]
        exact .fails .rfl
      rw [if_neg hlen]
      dsimp only
      -- the root is a start of its own, and the rest is walked from there
      split_ifs with hroot
      · have hdrop : ∃ trailing', (pathText (component :: components) trailing).drop 5 =
            pathText components trailing' ∧ (components ≠ [] ∨ trailing' = false) := by
          by_cases hlast : components ≠ [] ∨ trailing = true
          · obtain ⟨trailing', htext, hend⟩ := pathText_cons component hlast
            refine ⟨trailing', ?_, hend⟩
            rw [htext, hroot]
            rfl
          · rw [not_or, not_not, Bool.not_eq_true] at hlast
            obtain ⟨rfl, rfl⟩ := hlast
            refine ⟨false, ?_, .inr rfl⟩
            rw [pathText_singleton, hroot]
            rfl
        obtain ⟨trailing', htext, hend⟩ := hdrop
        rw [htext]
        exact walkComponents_concludes hv hn ⟨.root, shows_rootPath, rfl⟩
          (fun c hmem => hcomponents c (List.mem_cons_of_mem _ hmem)) hend
      · rw [hp.lastFolderName ht]
        exact walkComponents_concludes hv hn ⟨ht, hp, rfl⟩ hcomponents (.inl hne)

/-! ### The usual rules -/

/-- `multiple_cd` returns 0 if and only if the path leads to a trail, and the globals
show that trail then. -/
def CdResolves (others : ShellCall → ShellWorld → Except ShellFault (ShellReply × ShellWorld))
    (behind : List Byte) (w : ShellWorld) (place : Place) (path : List Byte)
    (goal : Option Trail) : Prop :=
  ∃ ret place' w', (multipleCdGlobals behind path place).run (serve others) w =
      .ok ((ret, place'), w') ∧
    (ret = 0 ↔ goal.isSome) ∧ ∀ trail, goal = some trail → place'.Shows trail

/-- It does so where it makes of the path what it should. -/
theorem cdResolves_iff_taken {trailing : Bool} (hv : w.fs.volume.Intact)
    (hn : w.fs.volume.ProperNames) (ht : w.fs.volume.HasTrail trail) (hp : place.Shows trail)
    (hcomponents : ∀ component ∈ components, IsComponent component) (hne : components ≠ []) :
    CdResolves others behind w place (pathText components trailing)
        (w.fs.volume.resolvesTo trail components) ↔
      w.fs.volume.takenPath behind (pathStart trail components).1 (pathStart trail components).2 =
        .ok (w.fs.volume.resolvesTo trail components) := by
  have hconcludes := multipleCdGlobals_concludes others behind trailing hv hn ht hp hcomponents hne
  have hgoal : ∀ {t}, w.fs.volume.resolvesTo trail components = some t → w.fs.volume.HasTrail t :=
    fun h => usualPath_hasTrail (pathStart_hasTrail ht)
      (fun c hmem => hcomponents c (pathStart_subset hmem)) h
  unfold CdResolves
  generalize w.fs.volume.resolvesTo trail components = goal at hgoal ⊢
  generalize w.fs.volume.takenPath behind _ _ = taken at hconcludes ⊢
  generalize (multipleCdGlobals behind _ place).run (serve others) w = ended at hconcludes ⊢
  -- by how the walk ends: with a fault, refused, or at a trail
  cases hconcludes with
  | fault =>
      refine iff_of_false ?_ nofun
      rintro ⟨ret, place', w', hrun, -⟩
      cases hrun
  | fails hdisk =>
      constructor
      · rintro ⟨ret, place', w', hrun, hret, -⟩
        cases hrun
        cases goal with
        | none => rfl
        | some t => exact absurd (hret.mpr rfl) Nat.one_ne_zero
      · intro h
        cases h
        exact ⟨1, place, _, rfl, by simp, nofun⟩
  | arrives hdisk ht' hp' =>
      constructor
      · rintro ⟨ret, place', w', hrun, hret, hshows⟩
        cases hrun
        cases goal with
        | none => simp at hret
        | some t =>
            -- both trails end in the working directory
            have hsame := hp'.directory.symm.trans (hshows t rfl).directory
            rw [ht'.unique (hgoal rfl) hv hsame]
      · intro h
        cases h
        refine ⟨0, _, _, rfl, by simp, fun t heq => ?_⟩
        cases heq
        exact hp'

/-- **`multiple_cd` follows the usual rules, if and only if no component is misread.**
From every working directory of every well formed tree: a path and the paths on the way
to it, with or without a slash at the end, lead where the usual rules say, exactly
where each component that the walk comes to is taken for what it is. -/
theorem cd_resolves_iff (hv : w.fs.volume.Intact) (hn : w.fs.volume.ProperNames)
    (ht : w.fs.volume.HasTrail trail) (hp : place.Shows trail)
    (hcomponents : ∀ component ∈ components, IsComponent component) :
    (∀ front trailing, front <+: components → front ≠ [] →
        CdResolves others behind w place (pathText front trailing)
          (w.fs.volume.resolvesTo trail front)) ↔
      w.fs.volume.ReadAsMeant behind (pathStart trail components).1
        (pathStart trail components).2 := by
  have htaken : ∀ front trailing, front <+: components → front ≠ [] →
      (CdResolves others behind w place (pathText front trailing)
          (w.fs.volume.resolvesTo trail front) ↔
        w.fs.volume.takenPath behind (pathStart trail front).1 (pathStart trail front).2 =
          .ok (w.fs.volume.resolvesTo trail front)) := by
    intro front trailing hfront hne
    exact cdResolves_iff_taken hv hn ht hp (fun c hc => hcomponents c (hfront.subset hc)) hne
  rw [← takenPath_start_iff]
  constructor
  · intro h front hfront hne
    exact (htaken front false hfront hne).mp (h front false hfront hne)
  · intro h front trailing hfront hne
    exact (htaken front trailing hfront hne).mpr (h front hfront hne)

/-! ### One folder -/

theorem oneFolder_directories (hd : oneFolder.volume.Directory d) :
    d = rootClusterNumber ∨ d = 3 := by
  have hroot : ∀ i, oneFolder.volume.child rootClusterNumber i = none ∨
      oneFolder.volume.child rootClusterNumber i = some 3 := by decide +kernel
  have hleaf : ∀ i, oneFolder.volume.child 3 i = none := by decide +kernel
  induction hd with
  | root => exact .inl rfl
  | @child a i b _ hchild ih =>
      rcases ih with rfl | rfl
      · rcases hroot i with h | h
        · rw [h] at hchild
          cases hchild
        · rw [h] at hchild
          exact .inr (Option.some.inj hchild).symm
      · rw [hleaf] at hchild
        cases hchild

theorem oneFolder_subdir {i : Fin directoryEntryCount} (hd : oneFolder.volume.Directory d)
    (hi : oneFolder.volume.SubdirEntry d i) :
    (oneFolder.volume.table d i).name = letterName 'a' := by
  have hroot : ∀ i, oneFolder.volume.SubdirEntry rootClusterNumber i →
      (oneFolder.volume.table rootClusterNumber i).name = letterName 'a' := by decide +kernel
  have hleaf : ∀ i, ¬ oneFolder.volume.SubdirEntry 3 i := by decide +kernel
  rcases oneFolder_directories hd with rfl | rfl
  · exact hroot i hi
  · exact absurd hi (hleaf i)

theorem oneFolder_properNames : oneFolder.volume.ProperNames where
  root := by decide +kernel
  padded hd hi _ := by
    rw [oneFolder_subdir hd hi]
    decide

/-- The trail to the folder `a`, and the shell in it. -/
def folderTrail : Trail := .child .root 3 [ascii 'a']

def folderPlace : Place where
  currentPath := buffer maxCmdLength folderTrail.text
  workingDirectory := 3

/-- The shell on the disk with that folder. -/
def folderWorld : ShellWorld := ⟨oneFolder, []⟩

theorem folderWorld_fs : folderWorld.fs = oneFolder := by rw [folderWorld]

theorem hasTrail_folder : oneFolder.volume.HasTrail folderTrail := by
  apply Volume.HasTrail.root.childNamed
  · exact ⟨by decide, by decide, by decide⟩
  · decide +kernel

theorem shows_folder : folderPlace.Shows folderTrail where
  path := string_buffer (by decide) (by decide)
  fits := by decide
  directory := rfl

/-- In the folder: `cd ./../`. -/
theorem cd_resolves_oneFolder : CdResolves noProcesses [] folderWorld folderPlace
    (pathText [[dot], [dot, dot]] true)
    (oneFolder.volume.resolvesTo folderTrail [[dot], [dot, dot]]) := by
  have hdot : IsComponent [dot] := ⟨by decide, by decide, by decide⟩
  have hdots : IsComponent [dot, dot] := ⟨by decide, by decide, by decide⟩
  have hstart : pathStart folderTrail [[dot], [dot, dot]] = (folderTrail, [[dot], [dot, dot]]) := by
    rw [pathStart, if_neg (by decide)]
  have hresolves := @cd_resolves_iff noProcesses folderWorld folderTrail folderPlace []
    [[dot], [dot, dot]]
  rw [folderWorld_fs] at hresolves
  apply (hresolves oneFolder_wellFormed.toIntact oneFolder_properNames hasTrail_folder
    shows_folder ?_).mpr ?_ _ true List.prefix_rfl (List.cons_ne_nil _ _)
  · rintro component (- | ⟨-, - | ⟨-, hnil⟩⟩)
    · exact hdot
    · exact hdots
    · cases hnil
  · rw [hstart]
    exact ⟨not_misread_dot, fun _ _ => ⟨not_misread_parent, fun _ _ => trivial⟩⟩

/-- In the folder: `cd ..x` goes to the root, although there is no folder `..x`. -/
theorem cd_not_resolves : oneFolder.volume.WellFormed ∧ oneFolder.volume.ProperNames ∧
    oneFolder.volume.HasTrail folderTrail ∧ folderPlace.Shows folderTrail ∧
    IsComponent [dot, dot, ascii 'x'] ∧
    oneFolder.volume.resolvesTo folderTrail [[dot, dot, ascii 'x']] = none ∧
    (∃ place' w', (multipleCdGlobals [] (pathText [[dot, dot, ascii 'x']] false) folderPlace).run
      (serve noProcesses) folderWorld = .ok ((0, place'), w') ∧
      place'.workingDirectory = rootClusterNumber) ∧
    ¬ CdResolves noProcesses [] folderWorld folderPlace
      (pathText [[dot, dot, ascii 'x']] false)
      (oneFolder.volume.resolvesTo folderTrail [[dot, dot, ascii 'x']]) := by
  have hnone : oneFolder.volume.resolvesTo folderTrail [[dot, dot, ascii 'x']] = none := by
    decide +kernel
  have hmoves : ((multipleCdGlobals [] (pathText [[dot, dot, ascii 'x']] false) folderPlace).run
      (serve noProcesses) folderWorld).toOption.map
        (fun r => (r.1.1, r.1.2.workingDirectory)) = some (0, rootClusterNumber) := by
    decide +kernel
  obtain ⟨⟨⟨ret, place'⟩, w'⟩, hrun, hresult⟩ := exists_ok_of_toOption hmoves
  obtain ⟨rfl, hdir⟩ := Prod.mk.inj hresult
  refine ⟨oneFolder_wellFormed, oneFolder_properNames, hasTrail_folder, shows_folder,
    ⟨by decide, by decide, by decide⟩, hnone, ⟨place', w', hrun, hdir⟩, ?_⟩
  rintro ⟨ret, moved, w'', hrun', hret, -⟩
  cases hrun.symm.trans hrun'
  rw [hnone] at hret
  simp at hret

end Binbows
