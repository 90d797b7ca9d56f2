/-
Binbows/PathGrowth.lean

How long `current_path` gets.

Every folder that `cd` enters makes the path longer, and `change_dir` checks no bound:
`current_path` has room for 127 characters.  How far the shell gets on its way down
depends on the names that `cd` can find (`Volume.CdTrail`), and a sequence of commands
keeps it on such a trail (`cdAll_rests`).

Main result: `path_within_iff`.  Whatever is typed, the path stays inside its array, if
and only if no directory that `cd` can enter has a path of 128 characters or more.
-/
import Binbows.UsualPaths

namespace Binbows

open Bytes Calls Volume

/-! ### Sequences of commands -/

/-- `cd` commands, each with the path that it hands to `multiple_cd`. -/
def cdAll (behind : List Byte) : List (List Byte) → Place → ShellProgram Place
  | [], place => pure place
  | path :: paths, place => do
      let (_, place) ← multipleCdGlobals behind path place
      cdAll behind paths place

/-- The trails that `cd` can walk down. -/
inductive Volume.CdTrail (v : Volume) (behind : List Byte) : Trail → Prop
  | root : CdTrail v behind .root
  | child {trail : Trail} {component : List Byte} {c : BitVec 32} : CdTrail v behind trail →
      IsComponent component → component ≠ [dot] → ¬ [dot, dot] <+: component →
      ¬ (component.length = 8 ∧ behind ≠ []) →
      v.childNamed trail.cluster component = some c → CdTrail v behind (trail.child c component)

/-- No directory that `cd` can enter has too long a path. -/
def Volume.ShortPaths (v : Volume) (behind : List Byte) : Prop :=
  ∀ trail, v.CdTrail behind trail → trail.text.length < maxCmdLength

/-- The shell stands on a trail that `cd` can walk down. -/
def Rests (v : Volume) (behind : List Byte) (place : Place) : Prop :=
  ∃ trail, v.CdTrail behind trail ∧ place.Shows trail

variable {others : ShellCall → ShellWorld → Except ShellFault (ShellReply × ShellWorld)}
  {w w' : ShellWorld} {v : Volume} {c : BitVec 32} {trail trail' : Trail} {place saved : Place}
  {name : EntryName} {component behind path pathBuffer : List Byte} {bufExist : Bool}
  {components paths : List (List Byte)}

theorem Volume.CdTrail.hasTrail (h : v.CdTrail behind trail) : v.HasTrail trail := by
  induction h with
  | root => exact .root
  | child _ hname _ _ _ hc ih => exact ih.childNamed hname hc

theorem Volume.CdTrail.parent (h : v.CdTrail behind trail) (hp : trail.parent = some trail') :
    v.CdTrail behind trail' := by
  cases h with
  | root => cases hp
  | child h _ _ _ _ _ =>
      cases hp
      exact h

/-! ### Where all paths are short -/

/-- A component is taken for a trail that `cd` can walk down, or refused. -/
theorem Volume.CdTrail.taken (h : v.CdTrail behind trail) (hshort : v.ShortPaths behind)
    (hname : IsComponent component) : ∃ next, v.taken behind trail component = .ok next ∧
      ∀ trail', next = some trail' → v.CdTrail behind trail' := by
  unfold Volume.taken
  split_ifs with hlong hdot hdots hfull
  · exact ⟨none, rfl, nofun⟩
  · exact ⟨some trail, rfl, fun _ heq => Option.some.inj heq ▸ h⟩
  · exact ⟨trail.parent, rfl, fun _ hp => h.parent hp⟩
  · exact ⟨none, rfl, nofun⟩
  · cases hc : v.childNamed trail.cluster component with
    | none => exact ⟨none, rfl, nofun⟩
    | some c =>
        have hchild := h.child hname hdot hdots hfull hc
        refine ⟨_, if_pos (hshort _ hchild), fun _ heq => ?_⟩
        exact Option.some.inj heq ▸ hchild

/-- A run returns, with the disk as it was and the shell on such a trail. -/
def Keeps (behind : List Byte) (w : ShellWorld)
    (x : Except ShellFault ((Nat × Place) × ShellWorld)) : Prop :=
  ∃ ret place' w', x = .ok ((ret, place'), w') ∧ SameDisk w.fs w'.fs ∧
    Rests w.fs.volume behind place'

/-- One component, and what comes behind it. -/
theorem keeps_component {next : EntryName → Place → ShellProgram (Nat × Place)}
    (hv : w.fs.volume.Intact) (hn : w.fs.volume.ProperNames)
    (hshort : w.fs.volume.ShortPaths behind) (h : Standing w.fs.volume trail name place)
    (hcd : w.fs.volume.CdTrail behind trail) (hname : IsComponent component)
    (hlen : component.length ≤ 8) (hsaved : Rests w.fs.volume behind saved)
    (hnext : ∀ {trail' name' place' w'}, SameDisk w.fs w'.fs →
      Standing w.fs.volume trail' name' place' → w.fs.volume.CdTrail behind trail' →
      Keeps behind w' ((next name' place').run (serve others) w')) :
    Keeps behind w ((enterComponent behind saved component name place >>=
      ComponentEnd.goOn next).run (serve others) w) := by
  have henters := enterComponent_enters others behind saved hv hn h hname hlen
  obtain ⟨taken, htaken, htrail⟩ := hcd.taken hshort hname
  rw [htaken] at henters
  rw [Program.run_bind]
  generalize (enterComponent behind saved component name place).run (serve others) w = walked
    at henters ⊢
  cases henters with
  | fails hdisk => exact ⟨1, saved, _, rfl, hdisk, hsaved⟩
  | moves hdisk hstanding =>
      obtain ⟨ret, place', w'', hrun, hdisk', hrests⟩ := hnext hdisk hstanding (htrail _ rfl)
      refine ⟨ret, place', w'', hrun,
        ⟨hdisk'.clusterMap.trans hdisk.clusterMap, hdisk'.disk.trans hdisk.disk⟩, ?_⟩
      rwa [← hdisk.volume_eq]

/-- **The walk returns, whatever the path.** -/
theorem walkComponents_keeps (hv : w.fs.volume.Intact) (hn : w.fs.volume.ProperNames)
    (hshort : w.fs.volume.ShortPaths behind) (h : Standing w.fs.volume trail name place)
    (hcd : w.fs.volume.CdTrail behind trail) (hsaved : Rests w.fs.volume behind saved)
    (hbuf : bufExist = true ↔ pathBuffer ≠ []) (hlen : pathBuffer.length ≤ 8)
    (hslash : slash ∉ pathBuffer) (hzero : (0 : Byte) ∉ pathBuffer) (hpath : (0 : Byte) ∉ path) :
    Keeps behind w ((walkComponents behind saved path bufExist pathBuffer name place).run
      (serve others) w) := by
  -- by the characters, with the component that has been collected so far
  induction path generalizing w trail name place bufExist pathBuffer with
  | nil =>
      rw [walkComponents]
      split_ifs with hexist
      · refine keeps_component hv hn hshort h hcd ⟨hbuf.mp hexist, hslash, hzero⟩ hlen hsaved ?_
        intro trail' name' place' w' hdisk hstanding hcd'
        rw [← hdisk.volume_eq] at hstanding hcd'
        exact ⟨0, place', w', rfl, .rfl, trail', hcd', hstanding.shows⟩
      · exact ⟨0, place, w, rfl, .rfl, trail, hcd, h.shows⟩
  | cons c path ih =>
      rw [List.mem_cons, not_or] at hpath
      rw [walkComponents]
      split_ifs with hc hexist hfull
      -- a slash ends the component, which is then entered
      · refine keeps_component hv hn hshort h hcd ⟨hbuf.mp hexist, hslash, hzero⟩ hlen hsaved ?_
        intro trail' name' place' w' hdisk hstanding hcd'
        -- the rest of the walk finds the same volume
        have hvolume := hdisk.volume_eq
        rw [← hvolume] at hv hn hshort hstanding hcd' hsaved
        exact ih hv hn hshort hstanding hcd' hsaved (by simp) (Nat.zero_le 8) (by simp) (by simp)
          hpath.2
      · exact ⟨1, saved, w, rfl, .rfl, hsaved⟩
      · exact ⟨1, saved, w, rfl, .rfl, hsaved⟩
      -- any other character is added to it
      · apply ih hv hn hshort h hcd hsaved
        · simp
        · rw [List.length_append]
          exact not_le.mp hfull
        · rw [List.mem_append, not_or]
          exact ⟨hslash, fun h => hc (List.mem_singleton.mp h).symm⟩
        · rw [List.mem_append, not_or]
          exact ⟨hzero, fun h => hpath.1 (List.mem_singleton.mp h)⟩
        · exact hpath.2

theorem cdTrail_of_root : Rests v behind rootPlace := ⟨.root, .root, shows_rootPath⟩

theorem multipleCdGlobals_keeps
    (others : ShellCall → ShellWorld → Except ShellFault (ShellReply × ShellWorld))
    (hv : w.fs.volume.Intact) (hn : w.fs.volume.ProperNames)
    (hshort : w.fs.volume.ShortPaths behind) (hrests : Rests w.fs.volume behind place)
    (hpath : (0 : Byte) ∉ path) :
    Keeps behind w ((multipleCdGlobals behind path place).run (serve others) w) := by
  unfold multipleCdGlobals
  dsimp only
  cases firstComponent path [] with
  | none => exact ⟨1, place, w, rfl, .rfl, hrests⟩
  | some first =>
      dsimp only
      split_ifs
      · apply walkComponents_keeps hv hn hshort ⟨.root, shows_rootPath, rfl⟩ .root hrests
        · simp
        · exact Nat.zero_le 8
        · simp
        · simp
        · exact fun h => hpath (List.mem_of_mem_drop h)
      · obtain ⟨trail, hcd, hshows⟩ := hrests
        have hname := hshows.lastFolderName hcd.hasTrail
        apply walkComponents_keeps hv hn hshort ⟨hcd.hasTrail, hshows, hname⟩ hcd
          ⟨trail, hcd, hshows⟩
        · simp
        · exact Nat.zero_le 8
        · simp
        · simp
        · exact hpath

/-- **A sequence of commands keeps the shell on the trails that `cd` can walk down.** -/
theorem cdAll_rests
    (others : ShellCall → ShellWorld → Except ShellFault (ShellReply × ShellWorld))
    (hv : w.fs.volume.Intact) (hn : w.fs.volume.ProperNames)
    (hshort : w.fs.volume.ShortPaths behind) (hrests : Rests w.fs.volume behind place)
    (hpaths : ∀ path ∈ paths, (0 : Byte) ∉ path) :
    ∃ place' w', (cdAll behind paths place).run (serve others) w = .ok (place', w') ∧
      Rests w.fs.volume behind place' := by
  induction paths generalizing w place with
  | nil => exact ⟨place, w, rfl, hrests⟩
  | cons path paths ih =>
      obtain ⟨ret, place', w', hrun, hdisk, hrests'⟩ := multipleCdGlobals_keeps others hv hn
        hshort hrests (hpaths path List.mem_cons_self)
      have hvolume := hdisk.volume_eq
      rw [← hvolume] at hv hn hshort hrests'
      obtain ⟨last, w'', hlast, hrests''⟩ := ih hv hn hshort hrests'
        fun p hmem => hpaths p (List.mem_cons_of_mem _ hmem)
      rw [hvolume] at hrests''
      refine ⟨last, w'', ?_, hrests''⟩
      rw [cdAll, Program.run_bind, hrun]
      exact hlast

/-! ### Where a path is too long -/

/-- The names on a trail, the outermost first. -/
def Trail.names : Trail → List (List Byte)
  | .root => []
  | .child trail _ name => names trail ++ [name]

theorem takenPath_append {more : List (List Byte)}
    (h : v.takenPath behind trail components = .ok (some trail')) :
    v.takenPath behind trail (components ++ more) = v.takenPath behind trail' more := by
  induction components generalizing trail with
  | nil =>
      cases h
      rfl
  | cons component components ih =>
      rw [Volume.takenPath] at h
      rw [List.cons_append, Volume.takenPath]
      cases ht : v.taken behind trail component with
      | error e =>
          rw [ht] at h
          cases h
      | ok next =>
          rw [ht] at h
          cases next with
          | none => cases h
          | some next => exact ih h

/-- A folder that `cd` can enter is taken for itself, or it does not fit. -/
theorem taken_child (hdot : component ≠ [dot]) (hdots : ¬ [dot, dot] <+: component)
    (hfull : ¬ (component.length = 8 ∧ behind ≠ []))
    (hc : v.childNamed trail.cluster component = some c) : v.taken behind trail component =
      if (trail.child c component).text.length < maxCmdLength then
        .ok (some (trail.child c component))
      else .error .outOfBounds := by
  rw [Volume.taken, if_neg (not_lt.mpr (childNamed_length hc)), if_neg hdot, if_neg hdots,
    if_neg hfull, hc]

/-- The names on a trail lead down it, as long as its path fits. -/
theorem Volume.CdTrail.takenPath_names (h : v.CdTrail behind trail)
    (hfit : trail.text.length < maxCmdLength) :
    v.takenPath behind .root trail.names = .ok (some trail) := by
  induction h with
  | root => rfl
  | child _ _ hdot hdots hfull hc ih =>
      have hup := hfit
      rw [Trail.length_text_child] at hup
      rw [Trail.names, takenPath_append (ih (by omega)), takenPath_singleton,
        taken_child hdot hdots hfull hc, if_pos hfit]

theorem Volume.CdTrail.isComponent (h : v.CdTrail behind trail) :
    ∀ component ∈ trail.names, IsComponent component := by
  induction h with
  | root => nofun
  | child _ hname _ _ _ _ ih =>
      rintro component hmem
      rcases List.mem_append.mp hmem with hmem | hmem
      · exact ih component hmem
      · rwa [List.mem_singleton.mp hmem]

/-- Where a trail is too long, some names on it overrun the array. -/
theorem Volume.CdTrail.overruns (h : v.CdTrail behind trail)
    (hlong : maxCmdLength ≤ trail.text.length) : ∃ components,
      (∀ component ∈ components, IsComponent component) ∧
        v.takenPath behind .root components = .error .outOfBounds := by
  induction h with
  | root => exact absurd hlong (by decide)
  | @child trail component c hup hname hdot hdots hfull hc ih =>
      by_cases hfit : trail.text.length < maxCmdLength
      · refine ⟨(trail.child c component).names, (hup.child hname hdot hdots hfull hc).isComponent, ?_⟩
        rw [Trail.names, takenPath_append (hup.takenPath_names hfit), takenPath_singleton,
          taken_child hdot hdots hfull hc, if_neg (not_lt.mpr hlong)]
      · exact ih (not_lt.mp hfit)

theorem zero_notMem_joinPath (h : ∀ component ∈ components, IsComponent component) :
    (0 : Byte) ∉ joinPath components := by
  induction components with
  | nil => nofun
  | cons component components ih =>
      rw [List.forall_mem_cons] at h
      cases components with
      | nil => exact h.1.zero
      | cons next components =>
          rw [joinPath, List.mem_append, List.mem_cons, not_or, not_or]
          · exact ⟨h.1.zero, by decide, ih h.2⟩
          · exact List.cons_ne_nil _ _

/-! ### A path that is cut -/

variable {σ : Type} {handler : ShellCall → σ → Except ShellFault (ShellReply × σ)} {s s' : σ}
  {globals place' : Place} {front rest : List Byte}

/-- A component behind which the walk goes on, or has ended well, was entered. -/
theorem enterComponent_next {next : EntryName → Place → ShellProgram (Nat × Place)}
    (h : (enterComponent behind saved pathBuffer name globals >>= ComponentEnd.goOn next).run handler s
      = .ok ((0, place'), s')) :
    ∃ name₁ globals₁ s₁, (enterComponent behind saved pathBuffer name globals).run handler s =
        .ok (.next name₁ globals₁, s₁) ∧
      (next name₁ globals₁).run handler s₁ = .ok ((0, place'), s') := by
  obtain ⟨walked, s₁, hrun, hnext⟩ := Program.run_bind_eq_ok.mp h
  cases walked with
  | exit ret left =>
      obtain ⟨rfl, -⟩ := enterComponent_ensures.of_run hrun ret left rfl
      cases hnext
  | next name₁ globals₁ => exact ⟨name₁, globals₁, s₁, hrun, hnext⟩

/-- A walk that succeeds, and the walk of a path that goes on behind a slash. -/
theorem walkComponents_cut (hlast : ¬ [slash] <:+ front) (hne : front ≠ [] ∨ bufExist = true)
    (h : (walkComponents behind saved front bufExist pathBuffer name globals).run handler s =
      .ok ((0, place'), s')) :
    ∃ name', (walkComponents behind saved (front ++ slash :: rest) bufExist pathBuffer name
        globals).run handler s =
      (walkComponents behind saved rest false [] name' place').run handler s' := by
  induction front generalizing bufExist pathBuffer name globals s with
  | nil =>
      obtain rfl := hne.resolve_left (not_not.mpr rfl)
      rw [walkComponents, if_pos rfl] at h
      obtain ⟨name₁, globals₁, s₁, hrun, hnext⟩ := enterComponent_next h
      cases hnext
      refine ⟨name₁, ?_⟩
      rw [List.nil_append, walkComponents, if_pos rfl, if_neg (not_not.mpr rfl), Program.run_bind,
        hrun]
      rfl
  | cons c front ih =>
      have hrest : ¬ [slash] <:+ front := fun hsuf => hlast (hsuf.trans (List.suffix_cons c front))
      rw [walkComponents] at h
      rw [List.cons_append, walkComponents]
      split_ifs at h ⊢ with hc hexist hfull
      · obtain ⟨name₁, globals₁, s₁, hrun, hnext⟩ := enterComponent_next h
        have hfront : front ≠ [] := by
          rintro rfl
          exact hlast (hc ▸ List.suffix_rfl)
        obtain ⟨name', hwalk⟩ := ih hrest (.inl hfront) hnext
        refine ⟨name', ?_⟩
        rw [Program.run_bind, hrun]
        exact hwalk
      · cases h
      · cases h
      · exact ih hrest (.inr rfl) h

theorem takeWhile_cut : (front ++ slash :: rest).takeWhile (· ≠ slash) =
    front.takeWhile (· ≠ slash) := by
  rw [List.takeWhile_append]
  split_ifs with hall
  · rw [List.takeWhile_cons_of_neg (by simp), List.append_nil]
    exact ((List.takeWhile_prefix _).eq_of_length hall).symm
  · rfl

/-- **Where a command succeeds, a longer path goes on from the globals that it leaves.**
So the globals behind each step of `change_dir` are those behind a command. -/
theorem multipleCdGlobals_cut (hlast : ¬ [slash] <:+ front) (hne : front ≠ [])
    (h : (multipleCdGlobals behind front place).run handler s = .ok ((0, place'), s')) :
    ∃ name', (multipleCdGlobals behind (front ++ slash :: rest) place).run handler s =
      (walkComponents behind place rest false [] name' place').run handler s' := by
  unfold multipleCdGlobals at h ⊢
  rw [firstComponent_nil] at h ⊢
  rw [takeWhile_cut]
  dsimp only at h ⊢
  split_ifs at h ⊢ with hlong
  · cases h
  · dsimp only at h ⊢
    split_ifs at h ⊢ with hroot
    · have hsplit : front = ['r', 'o', 'o', 't'].map ascii ++ front.dropWhile (· ≠ slash) := by
        rw [← hroot, List.takeWhile_append_dropWhile]
      cases htail : front.dropWhile (· ≠ slash) with
      | nil =>
          rw [htail, List.append_nil] at hsplit
          subst hsplit
          cases h
          exact ⟨rootName, rfl⟩
      | cons c tail =>
          have hc := List.head_dropWhile_not (· ≠ slash) (by rw [htail]; exact List.cons_ne_nil _ _)
          simp only [htail, List.head_cons, decide_eq_false_iff_not, not_not] at hc
          subst hc
          rw [htail] at hsplit
          subst hsplit
          have htail : ¬ [slash] <:+ tail := fun hsuf =>
            hlast (hsuf.trans ((List.suffix_cons slash tail).trans (List.suffix_append _ _)))
          have hne : tail ≠ [] := by
            rintro rfl
            exact hlast (List.suffix_append _ _)
          exact walkComponents_cut htail (.inl hne) h
    · exact walkComponents_cut hlast (.inl hne) h

/-! ### All commands -/

/-- After these commands the path is inside its array, and the length of the prompt
fits into a byte. -/
def CdWithin (others : ShellCall → ShellWorld → Except ShellFault (ShellReply × ShellWorld))
    (behind : List Byte) (w : ShellWorld) (paths : List (List Byte)) : Prop :=
  ∃ place' w', (cdAll behind paths rootPlace).run (serve others) w = .ok (place', w') ∧
    strlen place'.currentPath < maxCmdLength ∧ strlen place'.currentPath + 18 < 2 ^ 8

/-- **`current_path` never outgrows its array, if and only if no directory that `cd`
can enter has a path of 128 characters or more.**  For every well formed tree, and all
sequences of `cd` commands from the prompt on.  A path may be cut behind any of its
components (`multipleCdGlobals_cut`), so this is about every step of `change_dir`. -/
theorem path_within_iff (hv : w.fs.volume.Intact) (hn : w.fs.volume.ProperNames) :
    (∀ paths, (∀ path ∈ paths, (0 : Byte) ∉ path) → CdWithin others behind w paths) ↔
      w.fs.volume.ShortPaths behind := by
  constructor
  · intro h trail hcd
    -- a trail that is too long is walked from the root, where it breaks the bound
    by_contra hlong
    obtain ⟨components, hcomponents, hover⟩ := hcd.overruns (not_lt.mp hlong)
    have hroot : IsComponent (['r', 'o', 'o', 't'].map ascii) :=
      ⟨by decide, by decide, by decide⟩
    have hall : ∀ component ∈ ['r', 'o', 'o', 't'].map ascii :: components,
        IsComponent component := List.forall_mem_cons.mpr ⟨hroot, hcomponents⟩
    have hconcludes := multipleCdGlobals_concludes others behind false hv hn .root shows_rootPath
      hall (List.cons_ne_nil _ _)
    have hstart : pathStart .root (['r', 'o', 'o', 't'].map ascii :: components) =
        (.root, components) := by rw [pathStart, if_pos rfl]
    rw [hstart, hover] at hconcludes
    obtain ⟨place', w', hrun, -⟩ := h
      [pathText (['r', 'o', 'o', 't'].map ascii :: components) false] (by
        rw [List.forall_mem_singleton, pathText, if_neg Bool.false_ne_true, List.append_nil]
        exact zero_notMem_joinPath hall)
    -- the walk is a fault, so `cd` of it does not return
    rw [cdAll, Program.run_bind] at hrun
    change (Program.run (serve others) (multipleCdGlobals behind _
      ⟨rootPath, rootClusterNumber⟩) w >>= fun _ => _) = _ at hrun
    generalize (multipleCdGlobals behind _ _).run (serve others) w = ended at hconcludes hrun
    cases hconcludes
    cases hrun
  · intro hshort paths hpaths
    obtain ⟨place', w', hrun, trail, hcd, hshows⟩ := cdAll_rests others hv hn hshort
      cdTrail_of_root hpaths
    have hfits := hshows.fits
    have hstrlen := strlen_currentPath hshows
    refine ⟨place', w', hrun, by omega, ?_⟩
    have : maxCmdLength + 18 < 2 ^ 8 := by decide
    omega

/-! ### Sixteen folders -/

/-- In a tree with one folder all paths are short. -/
theorem shortPaths_oneFolder : oneFolder.volume.ShortPaths behind := by
  intro trail hcd
  have hlen : trail.text.length ≤ 7 := by
    cases hcd.hasTrail with
    | root => decide
    | @child up i hup hi _ =>
        have hleaf : ∀ i, ¬ oneFolder.volume.SubdirEntry 3 i := by decide +kernel
        have hroot : up.cluster = rootClusterNumber :=
          (oneFolder_directories hup.directory).resolve_right fun h3 => hleaf i (h3 ▸ hi)
        have hup : up = .root := hup.unique .root oneFolder_wellFormed.toIntact hroot
        subst hup
        rw [Trail.length_text_child, oneFolder_subdir hup.directory hi]
        decide
  exact lt_of_le_of_lt hlen (by decide)

/-- `cd a` and `cd ../a/.` in such a tree. -/
theorem path_within_oneFolder : CdWithin noProcesses [ascii 'x'] folderWorld
    [[ascii 'a'], [dot, dot, slash, ascii 'a', slash, dot]] := by
  have hwithin := @path_within_iff noProcesses folderWorld [ascii 'x']
  rw [folderWorld_fs] at hwithin
  apply (hwithin oneFolder_wellFormed.toIntact oneFolder_properNames).mpr
    shortPaths_oneFolder
  rintro path (- | ⟨-, - | ⟨-, hnil⟩⟩)
  · decide
  · decide
  · cases hnil

/-- A name of seven characters. -/
def folderName (k : Nat) : List Byte :=
  ['f', 'o', 'l', 'd', 'e', 'r'].map ascii ++ [ascii 'a' + BitVec.ofNat 8 k]

/-- Make the next folder in the one that was made last. -/
def makeDeeper (k : Nat) : FsCall :=
  ⟨.write, ⟨0, buffer 8 (folderName k), 0, BitVec.ofNat 32 (k + 2), 0⟩, fun _ => 0⟩

/-- A formatted disk with so many folders, each in the one before. -/
def deepFolders : Nat → FsState
  | 0 => createFat32 .blank
  | k + 1 => (deepFolders k).after (makeDeeper k)

/-- `cd` into the first eight of them, and into the other eight. -/
def deepPaths : List (List Byte) :=
  [pathText ((List.range 8).map folderName) false,
    pathText ((List.range 8).map fun k => folderName (k + 8)) false]

/-- The run stops at a store outside of an array. -/
def StoresOutside {α : Type} : Except ShellFault α → Bool
  | .error .outOfBounds => true
  | _ => false

/-- `cd` into the innermost of sixteen folders writes behind `current_path`. -/
theorem path_not_within : (∀ path ∈ deepPaths, (0 : Byte) ∉ path ∧ path.length + 3 < maxCmdLength) ∧
    StoresOutside ((cdAll [ascii 'x'] deepPaths rootPlace).run (serve noProcesses)
      ⟨deepFolders 16, []⟩) ∧
    ¬ CdWithin noProcesses [ascii 'x'] ⟨deepFolders 16, []⟩ deepPaths := by
  have hover : StoresOutside ((cdAll [ascii 'x'] deepPaths rootPlace).run (serve noProcesses)
      ⟨deepFolders 16, []⟩) = true := by decide +kernel
  refine ⟨by decide +kernel, hover, ?_⟩
  rintro ⟨place', w', hrun, -⟩
  rw [hrun] at hover
  cases hover

end Binbows
