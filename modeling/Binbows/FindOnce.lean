/-
Binbows/FindOnce.lean

When `find` prints every entry once.

The directories below the working directory form a tree (`SearchNode.under`), and the search
goes into what it finds under the names that it asks for (`SearchNode.child`).  A folder is
found where its name leads to it; a file ought to lead nowhere, but it leads to a folder of
its name next to it, and without one to the directory that it is in, or the parent of that,
if they go by its name.

Where the folders are found, `find` prints everything below the working directory once
exactly if no file leads to a folder with something in it (`findsOnce_of_quiet`,
`quiet_of_findsOnce`).
-/
import Binbows.FindSearch

namespace Binbows

open Bytes Calls Volume SlotTree Run

variable {others : ShellCall → ShellWorld → Except ShellFault (ShellReply × ShellWorld)}
  {w w' : ShellWorld} {v : Volume} {d e c : BitVec 32} {fuel m n : Nat}
  {behind : List (Fin directoryEntryCount) → List Byte} {trail : List (Fin directoryEntryCount)}
  {path p : List Byte} {origin : BitVec 32} {t : FAT32DirectoryTable} {node a b : SearchNode}
  {i : Fin directoryEntryCount} {es : List (SearchNode × Fin directoryEntryCount)}
  {descend : Fin directoryEntryCount → Except ShellFault (List (SearchNode × Fin directoryEntryCount))}

/-! ### The search is a walk -/

/-- An entry of a directory: a slot in use behind the first two. -/
def Volume.Entry (v : Volume) (d : BitVec 32) (i : Fin directoryEntryCount) : Prop :=
  2 ≤ i.val ∧ (v.table d i).Occupied

instance : Decidable (v.Entry d i) := inferInstanceAs (Decidable (_ ∧ _))

@[simp] theorem mem_slots : i ∈ node.slots v ↔ v.Entry node.dir i := by
  simp [SearchNode.slots, Volume.Entry, childSlots, and_comm]

theorem nodup_slots : (node.slots v).Nodup := by
  unfold SearchNode.slots childSlots
  exact ((List.nodup_finRange _).filter _).filter _

theorem searchEntries_ok {f : Fin directoryEntryCount → List (SearchNode × Fin directoryEntryCount)}
    {is : List (Fin directoryEntryCount)} (hf : ∀ i x, descend i = .ok x → x = f i)
    (h : v.searchEntries node descend is = .ok es) :
    es = (is.filter fun i => (v.table node.dir i).Occupied).flatMap fun i => (node, i) :: f i := by
  induction is generalizing es with
  | nil =>
      cases h
      rfl
  | cons i is ih =>
      rw [Volume.searchEntries] at h
      by_cases hocc : (v.table node.dir i).Occupied
      · rw [if_pos hocc] at h
        rw [List.filter_cons, if_pos (decide_eq_true hocc), List.flatMap_cons]
        split_ifs at h
        obtain ⟨below, hbelow, h⟩ := bind_eq_ok.mp h
        obtain ⟨rest, hrest, h⟩ := bind_eq_ok.mp h
        cases h
        rw [hf i below hbelow, ih hrest, List.cons_append]
      · rw [if_neg hocc] at h
        rw [List.filter_cons, if_neg (by simpa using hocc)]
        exact ih h

theorem enterSearch_fields (h : v.enterSearch behind trail path origin t = some node) :
    node.trail = trail ∧ node.path = path := by
  obtain ⟨dir, -, rfl⟩ := Option.map_eq_some_iff.mp h
  exact ⟨rfl, rfl⟩

/-- What the search lists, it lists in a walk. -/
theorem search_ok (h : v.search behind fuel trail path origin t = .ok es) :
    es = (v.enterSearch behind trail path origin t).elim []
      (walk (SearchNode.child v behind) (SearchNode.slots v) fuel) := by
  induction fuel generalizing trail path origin t es with
  | zero => cases h
  | succ fuel ih =>
      rw [Volume.search] at h
      cases hnode : v.enterSearch behind trail path origin t with
      | none =>
          rw [hnode] at h
          cases h
          rfl
      | some node =>
          obtain ⟨rfl, -⟩ := enterSearch_fields hnode
          rw [hnode] at h
          rw [searchEntries_ok (fun i x hx => ih hx) h]
          show _ = walk _ _ (fuel + 1) node
          rw [walk]
          refine List.flatMap_congr fun i hi => ?_
          have hslot : i ∈ node.slots v := hi
          rw [SearchNode.child, if_pos hslot]

theorem searchEntries_total {is : List (Fin directoryEntryCount)}
    (h : ∀ i ∈ is, (v.table node.dir i).Occupied →
      (node.pathTo v i).length < maxCmdLength ∧ ∃ x, descend i = .ok x) :
    ∃ es, v.searchEntries node descend is = .ok es := by
  induction is with
  | nil => exact ⟨[], rfl⟩
  | cons i is ih =>
      obtain ⟨rest, hrest⟩ := ih fun j hj => h j (List.mem_cons_of_mem i hj)
      rw [Volume.searchEntries]
      by_cases hocc : (v.table node.dir i).Occupied
      · obtain ⟨hfits, below, hbelow⟩ := h i List.mem_cons_self hocc
        rw [if_pos hocc, if_neg (not_le.mpr hfits), hbelow, hrest]
        exact ⟨_, rfl⟩
      · rw [if_neg hocc]
        exact ⟨rest, hrest⟩

theorem length_pathTo (v : Volume) (node : SearchNode) (i : Fin directoryEntryCount) :
    (node.pathTo v i).length = node.path.length + (v.table node.dir i).nameString.length + 1 := by
  rw [SearchNode.pathTo, List.length_append, List.length_append, List.length_singleton]

/-- The search ends where the paths fit: each is longer than the one before. -/
theorem search_total (hpath : path.length ≤ maxCmdLength) (hfuel : maxCmdLength < fuel + path.length)
    (hfits : ∀ node, v.enterSearch behind trail path origin t = some node → ∀ m b,
      ReachAt (SearchNode.child v behind) node m b → ∀ i ∈ b.slots v,
        (b.pathTo v i).length < maxCmdLength) :
    ∃ es, v.search behind fuel trail path origin t = .ok es := by
  -- by the fuel, which the path uses up as it grows
  induction fuel generalizing trail path origin t with
  | zero => omega
  | succ fuel ih =>
      rw [Volume.search]
      cases hnode : v.enterSearch behind trail path origin t with
      | none => exact ⟨[], rfl⟩
      | some node =>
          obtain ⟨rfl, hsame⟩ := enterSearch_fields hnode
          refine searchEntries_total fun i hi hocc => ?_
          have hslot : i ∈ node.slots v := List.mem_filter.mpr ⟨hi, decide_eq_true hocc⟩
          -- the path of every entry fits, so the folder below has a longer one
          have hshort := hfits node hnode 0 node .root i hslot
          refine ⟨hshort, ih hshort.le ?_ fun child hchild m b hreach => ?_⟩
          · have hlen := length_pathTo v node i
            rw [hsame] at hlen
            omega
          · have hedge : node.child v behind i = some child := by
              rw [SearchNode.child, if_pos hslot]
              exact hchild
            exact hfits node hnode (m + 1) b (hreach.cons hedge)

/-! ### The tree -/

/-- The directories below `d`, with the paths that lead to them from `path`. -/
inductive Volume.Below (v : Volume) (path : List Byte) (d : BitVec 32) :
    List Byte → BitVec 32 → Prop
  | self : Below v path d path d
  | child {p : List Byte} {e : BitVec 32} {i : Fin directoryEntryCount} :
      Below v path d p e → v.SubdirEntry e i →
      Below v path d (p ++ (v.table e i).nameString ++ [slash]) (v.table e i).cluster

/-- Where the search begins. -/
def searchStart (path : List Byte) (d : BitVec 32) : SearchNode := ⟨[], path, d, d⟩

namespace SearchNode

/-- What the search ought to go into behind a slot: the folder, and nothing behind a file. -/
def under (v : Volume) (behind : List (Fin directoryEntryCount) → List Byte) (node : SearchNode)
    (i : Fin directoryEntryCount) : Option SearchNode :=
  if v.SubdirEntry node.dir i then
    some ⟨i :: node.trail, node.pathTo v i, searchOrigin behind (i :: node.trail) (node.pathTo v i)
      node.origin (v.table node.dir), (v.table node.dir i).cluster⟩
  else none

/-- The search goes into what it ought to, or there is nothing in either. -/
def Straight (v : Volume) (behind : List (Fin directoryEntryCount) → List Byte) (node : SearchNode)
    (i : Fin directoryEntryCount) : Prop :=
  node.child v behind i = node.under v behind i ∨
    (∀ b, node.child v behind i = some b → b.slots v = []) ∧
      ∀ b, node.under v behind i = some b → b.slots v = []

end SearchNode

/-- Every folder below the directory is found. -/
structure Volume.FindsFolders (v : Volume) (behind : List (Fin directoryEntryCount) → List Byte)
    (path : List Byte) (d : BitVec 32) : Prop where
  self : v.folderNamed d (askedName path) = some d
  folders : ∀ m b, ReachAt (SearchNode.under v behind) (searchStart path d) m b →
    ∀ i, v.SubdirEntry b.dir i → b.Straight v behind i

/-- No file below the directory leads to a folder with something in it. -/
def Volume.QuietFiles (v : Volume) (behind : List (Fin directoryEntryCount) → List Byte)
    (path : List Byte) (d : BitVec 32) : Prop :=
  ∀ m b, ReachAt (SearchNode.under v behind) (searchStart path d) m b → ∀ i, v.Entry b.dir i →
    ¬ (v.table b.dir i).IsSubdirectory → ∀ c, b.child v behind i = some c → c.slots v = []

theorem under_eq_some : a.under v behind i = some b ↔ v.SubdirEntry a.dir i ∧
    b = ⟨i :: a.trail, a.pathTo v i, searchOrigin behind (i :: a.trail) (a.pathTo v i) a.origin
      (v.table a.dir), (v.table a.dir i).cluster⟩ := by
  rw [SearchNode.under]
  split_ifs with hsub
  · rw [Option.some.injEq, eq_comm]
    exact (and_iff_right hsub).symm
  · exact iff_of_false (by simp) fun h => hsub h.1

theorem Volume.SubdirEntry.entry (h : v.SubdirEntry d i) : v.Entry d i := ⟨h.1, h.2.1⟩

theorem under_slots (h : a.under v behind i = some b) : i ∈ a.slots v :=
  mem_slots.mpr (under_eq_some.mp h).1.entry

theorem child_slots (h : a.child v behind i = some b) : i ∈ a.slots v := by
  rw [SearchNode.child] at h
  by_contra hno
  rw [if_neg hno] at h
  cases h

theorem under_trail (h : a.under v behind i = some b) : b.trail = i :: a.trail := by
  rw [(under_eq_some.mp h).2]

/-- The nodes of the tree are the directories below. -/
theorem reachAt_below (h : ReachAt (SearchNode.under v behind) (searchStart path d) m b) :
    v.Below path d b.path b.dir := by
  induction h with
  | root => exact .self
  | child _ he ih =>
      obtain ⟨hsub, rfl⟩ := under_eq_some.mp he
      exact .child ih hsub

theorem below_reachAt (behind : List (Fin directoryEntryCount) → List Byte)
    (h : v.Below path d p e) : ∃ m b,
    ReachAt (SearchNode.under v behind) (searchStart path d) m b ∧ b.path = p ∧ b.dir = e := by
  induction h with
  | self => exact ⟨0, _, .root, rfl, rfl⟩
  | @child p e i _ hsub ih =>
      obtain ⟨m, b, hreach, rfl, rfl⟩ := ih
      exact ⟨m + 1, _, hreach.child (under_eq_some.mpr ⟨hsub, rfl⟩), rfl, rfl⟩

/-- The paths grow with the depth. -/
theorem reachAt_length (h : ReachAt (SearchNode.under v behind) a m b) :
    a.path.length + m ≤ b.path.length := by
  induction h with
  | root => exact le_rfl
  | @child m b i c _ he ih =>
      obtain ⟨-, rfl⟩ := under_eq_some.mp he
      have hlen := length_pathTo v b i
      show _ ≤ (b.pathTo v i).length
      omega

theorem reachAt_directory (hd : v.Directory d)
    (h : ReachAt (SearchNode.under v behind) (searchStart path d) m b) : v.Directory b.dir := by
  induction h with
  | root => exact hd
  | child _ he ih =>
      obtain ⟨hsub, rfl⟩ := under_eq_some.mp he
      exact .child ih (child_eq_some_iff.mpr ⟨hsub, rfl⟩)

/-- The nodes of the tree are told apart by their directories. -/
theorem reachAt_dir_unique (hv : v.Intact) (hd : v.Directory d)
    (h : ReachAt (SearchNode.under v behind) (searchStart path d) m a)
    (h' : ReachAt (SearchNode.under v behind) (searchStart path d) n b) (heq : a.dir = b.dir) :
    a = b := by
  obtain ⟨depth, -, hdepth⟩ := hv.exists_depth
  refine ReachAt.eq_of_image v.child depth (f := SearchNode.dir) (S := v.Directory)
    (fun m a i b hreach he => ?_) (fun x i y => hdepth x i y)
    (fun x i y j z hx hy hi hj => hv.child_unique hx hy hi hj) h h' heq
  obtain ⟨hsub, rfl⟩ := under_eq_some.mp he
  exact ⟨reachAt_directory hd hreach, child_eq_some_iff.mpr ⟨hsub, rfl⟩⟩

/-- They are told apart by their trails as well. -/
theorem reachAt_trail_unique (h : ReachAt (SearchNode.under v behind) node m a)
    (h' : ReachAt (SearchNode.under v behind) node n b) (heq : a.trail = b.trail) : a = b := by
  refine ReachAt.eq_of_image (fun l i => some (i :: l)) List.length (f := SearchNode.trail)
    (S := fun _ => True) (fun m a i b _ he => ?_) (fun x i y _ he => ?_)
    (fun x i y j z _ _ hi hj => ?_) h h' heq
  · exact ⟨trivial, congrArg some (under_trail he).symm⟩
  · rw [← Option.some.inj he, List.length_cons]
  · have hcons := (Option.some.inj hi).trans (Option.some.inj hj).symm
    exact ⟨(List.cons.inj hcons).2, (List.cons.inj hcons).1⟩

/-! ### What is listed -/

/-- The list has every entry below the directory with its path, and none twice. -/
structure Volume.ListsOnce (v : Volume) (path : List Byte) (d : BitVec 32)
    (es : List (List Byte × BitVec 32 × Fin directoryEntryCount)) : Prop where
  nodup : (es.map Prod.snd).Nodup
  mem_iff : ∀ p e i, (p, e, i) ∈ es ↔ v.Below path d p e ∧ v.Entry e i

/-- The path that `find` puts together for an entry fits into its buffer. -/
def Volume.PathsFit (v : Volume) (path : List Byte) (d : BitVec 32) : Prop :=
  ∀ p e i, v.Below path d p e → v.Entry e i →
    (p ++ (v.table e i).nameString ++ [slash]).length < maxCmdLength

/-- An entry of the walk, without what the search keeps for itself. -/
def SearchNode.entry (x : SearchNode × Fin directoryEntryCount) :
    List Byte × BitVec 32 × Fin directoryEntryCount := (x.1.path, x.1.dir, x.2)

/-- The walk over the tree. -/
def Volume.treeWalk (v : Volume) (behind : List (Fin directoryEntryCount) → List Byte)
    (path : List Byte) (d : BitVec 32) : List (SearchNode × Fin directoryEntryCount) :=
  walk (SearchNode.under v behind) (SearchNode.slots v) (maxCmdLength + 1) (searchStart path d)

theorem nodup_treeWalk : (v.treeWalk behind path d).Nodup :=
  nodup_walk SearchNode.trail (fun _ _ _ => under_trail) (fun _ _ _ => under_slots)
    fun _ => nodup_slots

theorem mem_treeWalk (hfits : v.PathsFit path d) : (b, i) ∈ v.treeWalk behind path d ↔
    i ∈ b.slots v ∧ ∃ m, ReachAt (SearchNode.under v behind) (searchStart path d) m b := by
  have hin : ∀ a j c, SearchNode.under v behind a j = some c → j ∈ a.slots v := fun _ _ _ =>
    under_slots
  rw [Volume.treeWalk, mem_walk hin]
  refine and_congr_right fun hi => ⟨fun ⟨m, _, h⟩ => ⟨m, h⟩, fun ⟨m, h⟩ => ⟨m, ?_, h⟩⟩
  have hshort := hfits _ _ i (reachAt_below h) (mem_slots.mp hi)
  have hlen := reachAt_length h
  rw [List.length_append, List.length_append, List.length_singleton] at hshort
  omega

/-- The walk over the tree lists everything once. -/
theorem listsOnce_treeWalk (behind : List (Fin directoryEntryCount) → List Byte) (hv : v.Intact)
    (hd : v.Directory d) (hfits : v.PathsFit path d) :
    v.ListsOnce path d ((v.treeWalk behind path d).map SearchNode.entry) where
  nodup := by
    rw [List.map_map]
    refine List.Nodup.map_on (fun x hx y hy heq => ?_) nodup_treeWalk
    obtain ⟨-, m, hreach⟩ := (mem_treeWalk hfits).mp hx
    obtain ⟨-, n, hreach'⟩ := (mem_treeWalk hfits).mp hy
    obtain ⟨hdir, hslot⟩ := Prod.mk.inj heq
    exact Prod.ext (reachAt_dir_unique hv hd hreach hreach' hdir) hslot
  mem_iff p e i := by
    rw [List.mem_map]
    constructor
    · rintro ⟨⟨b, j⟩, hmem, heq⟩
      cases heq
      obtain ⟨hj, m, hreach⟩ := (mem_treeWalk hfits).mp hmem
      exact ⟨reachAt_below hreach, mem_slots.mp hj⟩
    · rintro ⟨hbelow, hentry⟩
      obtain ⟨m, b, hreach, rfl, rfl⟩ := below_reachAt behind hbelow
      exact ⟨(b, i), (mem_treeWalk hfits).mpr ⟨mem_slots.mpr hentry, m, hreach⟩, rfl⟩

theorem Volume.ListsOnce.perm {es es' : List (List Byte × BitVec 32 × Fin directoryEntryCount)}
    (h : v.ListsOnce path d es) (h' : v.ListsOnce path d es') : es.Perm es' :=
  (List.perm_ext_iff_of_nodup h.nodup.of_map h'.nodup.of_map).mpr fun ⟨p, e, i⟩ =>
    (h.mem_iff p e i).trans (h'.mem_iff p e i).symm

/-- A part of a list that has as much to print is the whole list. -/
theorem eq_of_flatMap_length {α β : Type} {f : α → List β} {l l' : List α} (hsub : l.Sublist l')
    (hf : ∀ x, f x ≠ []) (hlen : (l'.flatMap f).length ≤ (l.flatMap f).length) : l = l' := by
  obtain ⟨rest, hperm⟩ := hsub.exists_perm_append
  have hmore := (hperm.flatMap_right f).length_eq
  rw [List.flatMap_append, List.length_append] at hmore
  have hnone : rest.flatMap f = [] := List.eq_nil_of_length_eq_zero (by omega)
  have hrest : rest = [] := by
    cases rest with
    | nil => rfl
    | cons x rest =>
        rw [List.flatMap_cons, List.append_eq_nil_iff] at hnone
        exact absurd hnone.1 (hf x)
  rw [hrest, List.append_nil] at hperm
  exact hsub.eq_of_length hperm.length_eq.symm

/-! ### Where the search is straight -/

theorem enterSearch_start (h : v.folderNamed d (askedName path) = some d) :
    v.enterSearch behind [] path d (fun _ => .zero) = some (searchStart path d) := by
  have horigin : searchOrigin behind [] path d (fun _ => .zero) = d := by
    rw [searchOrigin, subfolder_zero]
  rw [Volume.enterSearch, horigin, h]
  rfl

/-- What the search goes into is of the tree, or has nothing in it. -/
theorem reachAt_child_cases (hstraight : ∀ m b,
      ReachAt (SearchNode.under v behind) node m b → ∀ i ∈ b.slots v, b.Straight v behind i)
    (h : ReachAt (SearchNode.child v behind) node m b) :
    ReachAt (SearchNode.under v behind) node m b ∨ b.slots v = [] := by
  induction h with
  | root => exact .inl .root
  | @child m a i b _ he ih =>
      have hslot := child_slots he
      rcases ih with ih | hempty
      · rcases hstraight m a ih i hslot with hsame | ⟨hnone, -⟩
        · exact .inl (.child ih (hsame ▸ he))
        · exact .inr (hnone b he)
      · rw [hempty] at hslot
        exact absurd hslot List.not_mem_nil

/-- Where the folders are found, the search comes to the nodes of the tree that have
something in them. -/
theorem reachAt_child_of_under (hfolders : v.FindsFolders behind path d)
    (h : ReachAt (SearchNode.under v behind) (searchStart path d) m b) (hb : b.slots v ≠ []) :
    ReachAt (SearchNode.child v behind) (searchStart path d) m b := by
  induction h with
  | root => exact .root
  | @child m a i b hreach he ih =>
      have hslots : a.slots v ≠ [] := List.ne_nil_of_mem (under_slots he)
      rcases hfolders.folders m a hreach i (under_eq_some.mp he).1 with hsame | ⟨-, hempty⟩
      · exact .child (ih hslots) (hsame.trans he)
      · exact absurd (hempty b he) hb

theorem straight_of_quiet (hfolders : v.FindsFolders behind path d)
    (hquiet : v.QuietFiles behind path d) (m : Nat) (b : SearchNode)
    (h : ReachAt (SearchNode.under v behind) (searchStart path d) m b) (i : Fin directoryEntryCount)
    (hi : i ∈ b.slots v) : b.Straight v behind i := by
  have hentry := mem_slots.mp hi
  by_cases hsub : (v.table b.dir i).IsSubdirectory
  · exact hfolders.folders m b h i ⟨hentry.1, hentry.2, hsub⟩
  · refine .inr ⟨hquiet m b h i hentry hsub, fun c hc => ?_⟩
    exact absurd (under_eq_some.mp hc).1.2.2 hsub

/-! ### find -/

/-- The line of an entry. -/
def entryLine (v : Volume) (prev : Nat) (x : List Byte × BitVec 32 × Fin directoryEntryCount) :
    List TextStep :=
  foundLine prev x.1 (v.table x.2.1 x.2.2)

theorem entryLine_ne_nil (v : Volume) (prev : Nat)
    (x : List Byte × BitVec 32 × Fin directoryEntryCount) : entryLine v prev x ≠ [] := by
  rw [entryLine, foundLine]
  exact List.append_ne_nil_of_right_ne_nil _ (List.cons_ne_nil _ _)

/-- `find` returns, and it has printed every entry below the working directory once. -/
def FindsOnce (others : ShellCall → ShellWorld → Except ShellFault (ShellReply × ShellWorld))
    (stale : List (Fin directoryEntryCount) → PathBuffer)
    (behind : List (Fin directoryEntryCount) → List Byte) (line : CommandLine) (place : Place)
    (w : ShellWorld) : Prop :=
  ∃ w' calls es, (find stale behind line place).run (serve others) w = .ok (place, w') ∧
    w'.output = w.output ++ calls ∧
    putchars calls = es.flatMap (entryLine w.fs.volume (strlen place.currentPath)) ∧
    w.fs.volume.ListsOnce (string place.currentPath) place.workingDirectory es

theorem flatMap_line (prev : Nat) (es : List (SearchNode × Fin directoryEntryCount)) :
    es.flatMap (SearchNode.line v prev) = (es.map SearchNode.entry).flatMap (entryLine v prev) := by
  rw [List.flatMap_map]
  rfl

variable {stale : List (Fin directoryEntryCount) → PathBuffer} {line : CommandLine} {place : Place}

/-- A search that is straight prints everything once. -/
theorem findsOnce_of_quiet (hv : w.fs.volume.Intact)
    (hplace : w.fs.volume.Directory place.workingDirectory)
    (hline : strlen line.cmdBuffer ≤ 5) (hstale : ∀ trail, string (stale trail) = [])
    (hfits : w.fs.volume.PathsFit (string place.currentPath) place.workingDirectory)
    (hfolders : w.fs.volume.FindsFolders behind (string place.currentPath) place.workingDirectory)
    (hquiet : w.fs.volume.QuietFiles behind (string place.currentPath) place.workingDirectory) :
    FindsOnce others stale behind line place w := by
  have hstraight := straight_of_quiet hfolders hquiet
  have hstart : w.fs.volume.enterSearch behind [] (string place.currentPath)
      place.workingDirectory (fun _ => .zero) =
        some (searchStart (string place.currentPath) place.workingDirectory) :=
    enterSearch_start hfolders.self
  have hlen : (string place.currentPath).length ≤ maxCmdLength := by
    rw [length_string]
    exact strlen_le
  obtain ⟨es, hes⟩ : ∃ es, w.fs.volume.search behind (maxCmdLength + 1) []
      (string place.currentPath) place.workingDirectory (fun _ => .zero) = .ok es := by
    refine search_total hlen (by omega) fun node hnode m b hreach i hi => ?_
    obtain rfl := Option.some.inj (hstart.symm.trans hnode)
    rcases reachAt_child_cases hstraight hreach with hreach | hempty
    · exact hfits _ _ i (reachAt_below hreach) (mem_slots.mp hi)
    · rw [hempty] at hi
      exact absurd hi List.not_mem_nil
  have hwalk : es = w.fs.volume.treeWalk behind (string place.currentPath) place.workingDirectory := by
    rw [search_ok hes, hstart]
    exact walk_congr fun m b hreach i hi => hstraight m b hreach i hi
  obtain ⟨y, hprints, hrun⟩ := find_prints others behind hv hplace hline hstale
  rw [hes] at hprints
  cases hprints with
  | @lines _ calls w' _ hout hcalls =>
      refine ⟨w', calls, _, hrun, hout, ?_, hwalk ▸ listsOnce_treeWalk behind hv hplace hfits⟩
      rw [hcalls, flatMap_line]

/-- A `find` that prints everything once lists the tree and no more. -/
theorem walk_eq_treeWalk (hv : w.fs.volume.Intact)
    (hplace : w.fs.volume.Directory place.workingDirectory)
    (hline : strlen line.cmdBuffer ≤ 5) (hstale : ∀ trail, string (stale trail) = [])
    (hfits : w.fs.volume.PathsFit (string place.currentPath) place.workingDirectory)
    (hfolders : w.fs.volume.FindsFolders behind (string place.currentPath) place.workingDirectory)
    (honce : FindsOnce others stale behind line place w) :
    w.fs.volume.treeWalk behind (string place.currentPath) place.workingDirectory =
      walk (SearchNode.child w.fs.volume behind) (SearchNode.slots w.fs.volume) (maxCmdLength + 1)
        (searchStart (string place.currentPath) place.workingDirectory) := by
  obtain ⟨w', calls, es, hrun, hout, hcalls, hlists⟩ := honce
  obtain ⟨y, hprints, hrun'⟩ := find_prints others behind hv hplace hline hstale
  -- the search returned, as `find` did
  cases hsearch : w.fs.volume.search behind (maxCmdLength + 1) [] (string place.currentPath)
      place.workingDirectory fun _ => .zero with
  | error e =>
      rw [hsearch] at hprints
      cases hprints
      exact absurd (hrun.symm.trans hrun') (by rintro ⟨⟩)
  | ok es' =>
      rw [hsearch] at hprints
      cases hprints with
      | @lines _ calls' w'' _ hout' hcalls' =>
          have hsame := Except.ok.inj (hrun.symm.trans hrun')
          obtain rfl : w' = w'' := congrArg Prod.snd hsame
          obtain rfl : calls = calls' := List.append_cancel_left (hout.symm.trans hout')
          have hlist := search_ok hsearch
          -- the tree is part of what the search goes through
          rw [enterSearch_start hfolders.self] at hlist
          have hsub : (w.fs.volume.treeWalk behind (string place.currentPath)
              place.workingDirectory).Sublist es' := by
            rw [hlist]
            refine walk_sublist fun m b hreach i hi c hc => ?_
            rcases hfolders.folders m b hreach i (under_eq_some.mp hc).1 with heq | ⟨-, hempty⟩
            · exact .inl (heq.trans hc)
            · exact .inr (hempty c hc)
          refine (eq_of_flatMap_length (f := SearchNode.line w.fs.volume (strlen place.currentPath))
            hsub (fun x => entryLine_ne_nil _ _ (SearchNode.entry x)) ?_).trans hlist
          -- the lists of everything are as long as each other
          have hperm := hlists.perm (listsOnce_treeWalk behind hv hplace hfits)
          have hlen := (hperm.flatMap_right
            (entryLine w.fs.volume (strlen place.currentPath))).length_eq
          rw [← hcalls', hcalls, flatMap_line]
          exact hlen.le

/-- A file that leads somewhere is printed with what is there. -/
theorem quiet_of_findsOnce (hv : w.fs.volume.Intact)
    (hplace : w.fs.volume.Directory place.workingDirectory)
    (hline : strlen line.cmdBuffer ≤ 5) (hstale : ∀ trail, string (stale trail) = [])
    (hfits : w.fs.volume.PathsFit (string place.currentPath) place.workingDirectory)
    (hfolders : w.fs.volume.FindsFolders behind (string place.currentPath) place.workingDirectory)
    (honce : FindsOnce others stale behind line place w) :
    w.fs.volume.QuietFiles behind (string place.currentPath) place.workingDirectory := by
  have heq := walk_eq_treeWalk hv hplace hline hstale hfits hfolders honce
  -- a file that leads to a folder with an entry `j` in it
  intro m b hreach i hentry hfile c hc
  by_contra hne
  obtain ⟨j, hj⟩ := List.exists_mem_of_ne_nil _ hne
  -- the search comes to what the file leads to
  have hchild := reachAt_child_of_under hfolders hreach (List.ne_nil_of_mem (mem_slots.mpr hentry))
  have hin : ∀ a j c, SearchNode.child w.fs.volume behind a j = some c → j ∈ a.slots w.fs.volume :=
    fun _ _ _ => child_slots
  have hdeep : m + 1 < maxCmdLength + 1 := by
    have hshort := hfits _ _ i (reachAt_below hreach) hentry
    have hlen := reachAt_length hreach
    rw [List.length_append, List.length_append, List.length_singleton] at hshort
    omega
  have hmem := (mem_walk hin).mpr ⟨hj, m + 1, hdeep, hchild.child hc⟩
  rw [← heq] at hmem
  -- but it is no part of the tree
  obtain ⟨-, n, hreach'⟩ := (mem_treeWalk hfits).mp hmem
  have htrail : c.trail = i :: b.trail := by
    rw [SearchNode.child, if_pos (mem_slots.mpr hentry)] at hc
    exact (enterSearch_fields hc).1
  cases hreach' with
  | root => exact absurd htrail (List.cons_ne_nil _ _).symm
  | @child n a k _ ha he =>
      have hcons := (under_trail he).symm.trans htrail
      obtain ⟨rfl, htrails⟩ := List.cons.inj hcons
      obtain rfl := reachAt_trail_unique ha hreach htrails
      exact hfile (under_eq_some.mp he).1.2.2

end Binbows
