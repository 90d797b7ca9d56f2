/-
Binbows/PathTrails.lean

Paths by the usual rules, and by those of `multiple_cd`.

A trail is a way down from the root: the directories that it comes by, each with the
name that it goes under.  By the usual rules a component of a path keeps the trail
(`.`), shortens it (`..`) or adds a child (`Volume.usualStep`); `Volume.usualPath`
follows a path.

`Volume.taken` says what `multiple_cd` takes a component for, and `Volume.takenPath`
what it makes of a path.  It departs from the usual rules in three ways (`Misread`):

* whatever starts with `..` is taken for `..`;
* a name of eight characters is read on behind `path_buffer`, and is not found;
* a path of 128 characters and more does not fit into `current_path`.

Main result: `takenPath_eq_iff`.  `multiple_cd` makes of a path and of every path on the
way to it what the usual rules make of them, if and only if no component is misread.
-/
import Binbows.PathTexts
import Binbows.FileSystemRuns

namespace Binbows

open SlotTree Bytes Volume

/-! ### Trails -/

/-- A way down from the root. -/
inductive Trail
  | root
  | child (trail : Trail) (cluster : BitVec 32) (name : List Byte)

namespace Trail

/-- The directory that a trail ends in. -/
def cluster : Trail → BitVec 32
  | root => rootClusterNumber
  | child _ c _ => c

/-- The name of that directory. -/
def name : Trail → EntryName
  | root => rootName
  | child _ _ name => buffer 8 name

/-- `root/` and the names on the way, each with a slash behind it. -/
def text : Trail → List Byte
  | root => ['r', 'o', 'o', 't', '/'].map ascii
  | child trail _ name => text trail ++ name ++ [slash]

/-- One directory up. -/
def parent : Trail → Option Trail
  | root => none
  | child trail _ _ => some trail

@[simp] theorem cluster_root : root.cluster = rootClusterNumber := rfl

@[simp] theorem cluster_child {trail : Trail} {c : BitVec 32} {name : List Byte} :
    (child trail c name).cluster = c := rfl

@[simp] theorem length_text_child {trail : Trail} {c : BitVec 32} {name : List Byte} :
    (child trail c name).text.length = trail.text.length + name.length + 1 := by
  simp [text, Nat.add_assoc]

theorem five_le_length (trail : Trail) : 5 ≤ trail.text.length := by
  induction trail with
  | root => rfl
  | child trail c name ih =>
      rw [length_text_child]
      omega

theorem getLast?_text (trail : Trail) : trail.text.getLast? = some slash := by
  cases trail with
  | root => rfl
  | child trail c name => simp [text]

end Trail

/-- What stands between two slashes of a path. -/
structure IsComponent (component : List Byte) : Prop where
  nonempty : component ≠ []
  slash : slash ∉ component
  zero : (0 : Byte) ∉ component

/-- The trails of a volume, by folders whose names a path can spell. -/
inductive Volume.HasTrail (v : Volume) : Trail → Prop
  | root : HasTrail v .root
  | child {trail i} : HasTrail v trail → v.SubdirEntry trail.cluster i →
      IsComponent (string (v.table trail.cluster i).name) →
      HasTrail v (.child trail (v.table trail.cluster i).cluster
        (string (v.table trail.cluster i).name))

/-- The root is called `root`, and the name of a folder has zeros behind it. -/
structure Volume.ProperNames (v : Volume) : Prop where
  root : (v.table rootClusterNumber 0).name = rootName
  padded : ∀ {d i}, v.Directory d → v.SubdirEntry d i →
    IsComponent (string (v.table d i).name) →
    (v.table d i).name = buffer 8 (string (v.table d i).name)

variable {v : Volume} {trail trail' : Trail} {component : List Byte} {c d : BitVec 32}
  {components : List (List Byte)} {behind : List Byte}

theorem Volume.HasTrail.directory (h : v.HasTrail trail) : v.Directory trail.cluster := by
  induction h with
  | root => exact .root
  | child _ hi _ ih => exact .child ih (child_eq_some_iff.mpr ⟨hi, rfl⟩)

/-- A directory has one trail. -/
theorem Volume.HasTrail.unique (h : v.HasTrail trail) (h' : v.HasTrail trail') (hv : v.Intact)
    (heq : trail.cluster = trail'.cluster) : trail = trail' := by
  induction h generalizing trail' with
  | root =>
      cases h' with
      | root => rfl
      | child ht' hi' _ => exact absurd heq.symm (hv.child_linked ht'.directory hi').range.ne_root
  | child ht hi _ ih =>
      cases h' with
      | root => exact absurd heq (hv.child_linked ht.directory hi).range.ne_root
      | child ht' hi' _ =>
          obtain ⟨hdir, rfl⟩ := hv.child_unique ht.directory ht'.directory
            (child_eq_some_iff.mpr ⟨hi, rfl⟩) (child_eq_some_iff.mpr ⟨hi', heq.symm⟩)
          obtain rfl := ih ht' hdir
          rfl

/-- The first slot of a directory holds its name. -/
theorem Volume.HasTrail.self_name (h : v.HasTrail trail) (hv : v.Intact) (hn : v.ProperNames) :
    (v.table trail.cluster 0).name = trail.name := by
  cases h with
  | root => exact hn.root
  | child ht hi hname =>
      exact (hv.child_linked ht.directory hi).name_eq.trans (hn.padded ht.directory hi hname)

/-! ### The usual rules -/

/-- The first folder of that name in a directory. -/
def Volume.childNamed (v : Volume) (d : BitVec 32) (name : List Byte) : Option (BitVec 32) :=
  ((List.finRange directoryEntryCount).find? fun i =>
    v.SubdirEntry d i ∧ string (v.table d i).name = name).map fun i => (v.table d i).cluster

/-- One component: `.` stays, `..` goes to the parent, and any other is the name of a
child. -/
def Volume.usualStep (v : Volume) (trail : Trail) (component : List Byte) : Option Trail :=
  if component = [dot] then some trail
  else if component = [dot, dot] then trail.parent
  else (v.childNamed trail.cluster component).map fun c => trail.child c component

/-- The components of a path, one after the other. -/
def Volume.usualPath (v : Volume) : Trail → List (List Byte) → Option Trail
  | trail, [] => some trail
  | trail, component :: components =>
      match v.usualStep trail component with
      | none => none
      | some trail => v.usualPath trail components

/-- Where a path starts, and what it has left then: a path that begins with `root`
starts at the root. -/
def pathStart (trail : Trail) : List (List Byte) → Trail × List (List Byte)
  | [] => (trail, [])
  | component :: components =>
      if component = ['r', 'o', 'o', 't'].map ascii then (.root, components)
      else (trail, component :: components)

/-- Where a path leads by the usual rules. -/
def Volume.resolvesTo (v : Volume) (trail : Trail) (components : List (List Byte)) : Option Trail :=
  v.usualPath (pathStart trail components).1 (pathStart trail components).2

theorem childNamed_eq_some (h : v.childNamed d component = some c) :
    ∃ i, v.SubdirEntry d i ∧ string (v.table d i).name = component ∧ (v.table d i).cluster = c := by
  obtain ⟨i, hi, rfl⟩ := Option.map_eq_some_iff.mp h
  have hfound := List.find?_some hi
  rw [decide_eq_true_eq] at hfound
  exact ⟨i, hfound.1, hfound.2, rfl⟩

theorem Volume.HasTrail.childNamed (h : v.HasTrail trail) (hname : IsComponent component)
    (hc : v.childNamed trail.cluster component = some c) : v.HasTrail (trail.child c component) := by
  obtain ⟨i, hi, rfl, rfl⟩ := childNamed_eq_some hc
  exact .child h hi hname

/-- No name is longer than eight characters. -/
theorem childNamed_length (h : v.childNamed d component = some c) : component.length ≤ 8 := by
  obtain ⟨i, -, rfl, -⟩ := childNamed_eq_some h
  rw [length_string]
  exact strlen_le

theorem Volume.HasTrail.parent (h : v.HasTrail trail) (hp : trail.parent = some trail') :
    v.HasTrail trail' := by
  cases h with
  | root => cases hp
  | child ht _ _ =>
      cases hp
      exact ht

theorem usualStep_hasTrail (h : v.HasTrail trail) (hname : IsComponent component)
    (hs : v.usualStep trail component = some trail') : v.HasTrail trail' := by
  unfold Volume.usualStep at hs
  split_ifs at hs with hdot hparent
  · cases hs
    exact h
  · exact h.parent hs
  · obtain ⟨c, hc, rfl⟩ := Option.map_eq_some_iff.mp hs
    exact h.childNamed hname hc

theorem usualPath_hasTrail (h : v.HasTrail trail)
    (hcomponents : ∀ component ∈ components, IsComponent component)
    (hs : v.usualPath trail components = some trail') : v.HasTrail trail' := by
  induction components generalizing trail with
  | nil =>
      cases hs
      exact h
  | cons component components ih =>
      rw [Volume.usualPath] at hs
      cases hstep : v.usualStep trail component with
      | none =>
          rw [hstep] at hs
          cases hs
      | some next =>
          rw [hstep] at hs
          exact ih (usualStep_hasTrail h (hcomponents _ List.mem_cons_self) hstep)
            (fun c hmem => hcomponents c (List.mem_cons_of_mem _ hmem)) hs

theorem pathStart_subset : (pathStart trail components).2 ⊆ components := by
  cases components with
  | nil => exact fun _ => id
  | cons component components =>
      rw [pathStart]
      split_ifs
      · exact List.subset_cons_self _ _
      · exact fun _ => id

theorem pathStart_hasTrail (h : v.HasTrail trail) : v.HasTrail (pathStart trail components).1 := by
  unfold pathStart
  split
  · exact h
  · split_ifs
    · exact .root
    · exact h

/-! ### What a component is taken for -/

/-- What `multiple_cd` takes a component for; `none` where it returns 1. -/
def Volume.taken (v : Volume) (behind : List Byte) (trail : Trail) (component : List Byte) :
    Except ShellFault (Option Trail) :=
  if 8 < component.length then .ok none
  else if component = [dot] then .ok (some trail)
  else if [dot, dot] <+: component then .ok trail.parent
  else if component.length = 8 ∧ behind ≠ [] then .ok none
  else
    match v.childNamed trail.cluster component with
    | none => .ok none
    | some c =>
        if (trail.child c component).text.length < maxCmdLength then
          .ok (some (trail.child c component))
        else .error .outOfBounds

/-- What `multiple_cd` makes of a path. -/
def Volume.takenPath (v : Volume) (behind : List Byte) :
    Trail → List (List Byte) → Except ShellFault (Option Trail)
  | trail, [] => .ok (some trail)
  | trail, component :: components =>
      match v.taken behind trail component with
      | .error e => .error e
      | .ok none => .ok none
      | .ok (some trail) => v.takenPath behind trail components

/-- The components that `multiple_cd` takes for something else. -/
inductive Volume.Misread (v : Volume) (behind : List Byte) (trail : Trail) :
    (component : List Byte) → Prop
  /-- it starts with the two dots, and either they lead up or there is such a child -/
  | dots {component : List Byte} : component.length ≤ 8 → [dot, dot] <+: component →
    component ≠ [dot, dot] →
      trail ≠ .root ∨ (v.childNamed trail.cluster component).isSome → Misread v behind trail component
  /-- it fills `path_buffer`, and it is a child -/
  | full {component : List Byte} : component.length = 8 → ¬ [dot, dot] <+: component → behind ≠ [] →
      (v.childNamed trail.cluster component).isSome → Misread v behind trail component
  /-- it is a child whose path is too long -/
  | long {component : List Byte} : component ≠ [dot] → ¬ [dot, dot] <+: component →
      (v.childNamed trail.cluster component).isSome →
      maxCmdLength ≤ trail.text.length + component.length + 1 → Misread v behind trail component

/-- Along the way of the usual rules no component is misread. -/
def Volume.ReadAsMeant (v : Volume) (behind : List Byte) : Trail → List (List Byte) → Prop
  | _, [] => True
  | trail, component :: components =>
      ¬ v.Misread behind trail component ∧
        ∀ trail', v.usualStep trail component = some trail' →
          v.ReadAsMeant behind trail' components

/-- A child is not the parent. -/
theorem parent_ne_child {name : List Byte} (h : trail.parent = some trail') :
    trail' ≠ trail.child c name := by
  cases trail with
  | root => cases h
  | child up c' name' =>
      cases h
      intro heq
      have hlen := congrArg (fun t => t.text.length) heq
      simp only [Trail.length_text_child] at hlen
      omega

/-! ### Where the two agree -/

theorem not_misread_dot : ¬ v.Misread behind trail [dot] := by
  rintro (⟨-, hpre, -, -⟩ | ⟨heq, -, -, -⟩ | ⟨hne, -, -, -⟩)
  · simpa using hpre.length_le
  · simp at heq
  · exact hne rfl

theorem not_misread_parent : ¬ v.Misread behind trail [dot, dot] := by
  rintro (⟨-, -, hne, -⟩ | ⟨-, hpre, -, -⟩ | ⟨-, hpre, -, -⟩)
  · exact hne rfl
  · exact hpre List.prefix_rfl
  · exact hpre List.prefix_rfl

/-- A name of eight characters at most that starts with two dots. -/
theorem taken_dots_iff (hlen : component.length ≤ 8) (hdots : [dot, dot] <+: component) :
    v.taken behind trail component = .ok (v.usualStep trail component) ↔
      ¬ v.Misread behind trail component := by
  have hdot : component ≠ [dot] := by
    rintro rfl
    simpa using hdots.length_le
  have htaken : v.taken behind trail component = .ok trail.parent := by
    rw [Volume.taken, if_neg (not_lt.mpr hlen), if_neg hdot, if_pos hdots]
  rw [htaken, Volume.usualStep, if_neg hdot]
  by_cases hparent : component = [dot, dot]
  · subst hparent
    exact iff_of_true rfl not_misread_parent
  · rw [if_neg hparent]
    have hmisread : v.Misread behind trail component ↔
        trail ≠ .root ∨ (v.childNamed trail.cluster component).isSome := by
      constructor
      · rintro (⟨-, -, -, h⟩ | ⟨-, hpre, -, -⟩ | ⟨-, hpre, -, -⟩)
        · exact h
        · exact absurd hdots hpre
        · exact absurd hdots hpre
      · exact .dots hlen hdots hparent
    rw [hmisread]
    cases hc : v.childNamed trail.cluster component with
    | none =>
        cases trail with
        | root => simp [Trail.parent]
        | child up c name => simp [Trail.parent]
    | some c =>
        refine iff_of_false (fun heq => ?_) (by simp)
        exact parent_ne_child (Except.ok.inj heq) rfl

/-- A name of eight characters at most that does not. -/
theorem taken_child_iff (hlen : component.length ≤ 8) (hdot : component ≠ [dot])
    (hdots : ¬ [dot, dot] <+: component) :
    v.taken behind trail component = .ok (v.usualStep trail component) ↔
      ¬ v.Misread behind trail component := by
  have hparent : component ≠ [dot, dot] := by
    rintro rfl
    exact hdots List.prefix_rfl
  rw [Volume.taken, if_neg (not_lt.mpr hlen), if_neg hdot, if_neg hdots, Volume.usualStep,
    if_neg hdot, if_neg hparent]
  cases hc : v.childNamed trail.cluster component with
  -- a folder that is not there is not found
  | none =>
      refine iff_of_true (by simp) ?_
      rintro (⟨-, hpre, -, -⟩ | ⟨-, -, -, hsome⟩ | ⟨-, -, hsome, -⟩)
      · exact hdots hpre
      · simp [hc] at hsome
      · simp [hc] at hsome
  | some c =>
      have hsome : (v.childNamed trail.cluster component).isSome := by simp [hc]
      by_cases hfull : component.length = 8 ∧ behind ≠ []
      · rw [if_pos hfull]
        refine iff_of_false (fun heq => ?_) (not_not.mpr (.full hfull.1 hdots hfull.2 hsome))
        cases heq
      rw [if_neg hfull]
      dsimp only
      rw [Trail.length_text_child]
      by_cases hfit : trail.text.length + component.length + 1 < maxCmdLength
      · rw [if_pos hfit]
        -- nothing of what makes it go astray holds here
        refine iff_of_true rfl ?_
        rintro (⟨-, hpre, -, -⟩ | ⟨heq, -, hne, -⟩ | ⟨-, -, -, hlong⟩)
        · exact hdots hpre
        · exact hfull ⟨heq, hne⟩
        · exact not_le.mpr hfit hlong
      · rw [if_neg hfit]
        refine iff_of_false (fun heq => ?_) (not_not.mpr (.long hdot hdots hsome (not_lt.mp hfit)))
        cases heq

/-- **A component is taken for what it is, unless it is misread.** -/
theorem taken_eq_usualStep_iff :
    v.taken behind trail component = .ok (v.usualStep trail component) ↔
      ¬ v.Misread behind trail component := by
  by_cases hlen : component.length ≤ 8
  · by_cases hdot : component = [dot]
    · subst hdot
      exact iff_of_true rfl not_misread_dot
    · by_cases hdots : [dot, dot] <+: component
      · exact taken_dots_iff hlen hdots
      · exact taken_child_iff hlen hdot hdots
  · -- too long for a name
    have hnone : v.childNamed trail.cluster component = none :=
      Option.eq_none_iff_forall_ne_some.mpr fun c hc => hlen (childNamed_length hc)
    have hdot : component ≠ [dot] := by
      rintro rfl
      simp at hlen
    have hparent : component ≠ [dot, dot] := by
      rintro rfl
      simp at hlen
    rw [Volume.taken, if_pos (not_le.mp hlen), Volume.usualStep, if_neg hdot, if_neg hparent, hnone]
    refine iff_of_true rfl ?_
    rintro (⟨hle, -, -, -⟩ | ⟨-, -, -, hsome⟩ | ⟨-, -, hsome, -⟩)
    · exact hlen hle
    · simp [hnone] at hsome
    · simp [hnone] at hsome

theorem takenPath_singleton : v.takenPath behind trail [component] =
    v.taken behind trail component := by
  rw [Volume.takenPath]
  rcases v.taken behind trail component with e | - | trail'
  · rfl
  · rfl
  · rfl

theorem usualPath_singleton : v.usualPath trail [component] = v.usualStep trail component := by
  rw [Volume.usualPath]
  cases v.usualStep trail component with
  | none => rfl
  | some trail' => rfl

/-- **A path and all paths on the way to it come out as they should, if and only if
no component is misread.** -/
theorem takenPath_eq_iff :
    (∀ front, front <+: components →
      v.takenPath behind trail front = .ok (v.usualPath trail front)) ↔
      v.ReadAsMeant behind trail components := by
  -- by the components: each must be taken as it is meant, and then the rest
  induction components generalizing trail with
  | nil =>
      refine iff_of_true (fun front hfront => ?_) trivial
      rw [List.prefix_nil.mp hfront]
      rfl
  | cons component components ih =>
      -- once the first is taken as it is meant, the fronts go on from there
      have hcons : ∀ front, v.taken behind trail component = .ok (v.usualStep trail component) →
          (v.takenPath behind trail (component :: front) =
              .ok (v.usualPath trail (component :: front)) ↔
            ∀ trail', v.usualStep trail component = some trail' →
              v.takenPath behind trail' front = .ok (v.usualPath trail' front)) := by
        intro front ht
        rw [Volume.takenPath, Volume.usualPath, ht]
        cases v.usualStep trail component with
        | none => simp
        | some trail' => simp
      -- the front of one component tells about the first, the longer ones about the rest
      constructor
      · intro h
        have hone := h [component] (List.prefix_append [component] components)
        have ht : v.taken behind trail component = .ok (v.usualStep trail component) := by
          rwa [takenPath_singleton, usualPath_singleton] at hone
        refine ⟨taken_eq_usualStep_iff.mp ht, fun trail' hstep => ih.mp fun front hfront => ?_⟩
        exact (hcons front ht).mp (h (component :: front) (by simpa using hfront)) trail' hstep
      · rintro ⟨hmeant, hrest⟩ front hfront
        have ht := taken_eq_usualStep_iff.mpr hmeant
        rcases List.prefix_cons_iff.mp hfront with rfl | ⟨rest, rfl, hprefix⟩
        · rfl
        · rw [hcons rest ht]
          intro trail' hstep
          exact ih.mpr (hrest trail' hstep) rest hprefix

/-- The same for a path with its start. -/
theorem takenPath_start_iff :
    (∀ front, front <+: components → front ≠ [] →
      v.takenPath behind (pathStart trail front).1 (pathStart trail front).2 =
        .ok (v.resolvesTo trail front)) ↔
      v.ReadAsMeant behind (pathStart trail components).1 (pathStart trail components).2 := by
  rw [← takenPath_eq_iff]
  unfold Volume.resolvesTo
  cases components with
  | nil =>
      refine iff_of_true (fun front hfront hne => absurd (List.prefix_nil.mp hfront) hne) ?_
      intro front hfront
      rw [List.prefix_nil.mp hfront]
      rfl
  | cons component components =>
      -- a path from the root starts there with the rest
      by_cases hroot : component = ['r', 'o', 'o', 't'].map ascii
      · have hstart : ∀ rest, pathStart trail (component :: rest) = (.root, rest) := fun rest =>
          if_pos hroot
        rw [hstart]
        constructor
        · intro h front hfront
          have := h (component :: front) (List.cons_prefix_cons.mpr ⟨rfl, hfront⟩) (by simp)
          rwa [hstart] at this
        · intro h front hfront hne
          obtain rfl | ⟨rest, rfl, hrest⟩ := List.prefix_cons_iff.mp hfront
          · exact absurd rfl hne
          · rw [hstart]
            exact h rest hrest
      -- any other starts where the shell stands
      · have hstart : ∀ rest, pathStart trail (component :: rest) = (trail, component :: rest) :=
          fun rest => if_neg hroot
        rw [hstart]
        constructor
        · intro h front hfront
          obtain rfl | ⟨rest, rfl, hrest⟩ := List.prefix_cons_iff.mp hfront
          · rfl
          · have := h (component :: rest) hfront (by simp)
            rwa [hstart] at this
        · intro h front hfront hne
          obtain rfl | ⟨rest, rfl, hrest⟩ := List.prefix_cons_iff.mp hfront
          · exact absurd rfl hne
          · rw [hstart]
            exact h (component :: rest) hfront

end Binbows
