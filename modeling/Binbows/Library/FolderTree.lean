/-
Binbows/Library/FolderTree.lean

A tree of folders, with files in them.

A folder has a name and a parent; the root is its own parent.  Files are a map from keys
to contents, and a key says which folder its file is in.  From a folder one looks at the
folder itself, at its parent and at the folders in it, each under its own name (`Finds`).

`Step` says how such a tree changes: a folder is made where its name finds nothing, an
empty folder is taken away, a file is set or taken away.  Every step keeps the tree
`Sound` (`Step.sound`): every folder hangs below the root, every file lies in a folder,
and what a name finds is unique.

A store of bounded size has room for a file or a folder where the folder that it goes to
does not hold too much, and all folders and files together do not (`Tree.HasRoom`).
-/
import Mathlib.Data.Finite.Sum
import Mathlib.Data.Set.Card.Arithmetic
import Mathlib.Logic.Function.Basic
import Mathlib.Logic.Relation
import Mathlib.Tactic.SplitIfs
import Mathlib.Tactic.Tauto

namespace FolderTree

/-- Folders by their identity, with name and parent, and the files. -/
structure Tree (D N K V : Type) where
  root : D
  folder : D → Option (N × D)
  files : K → Option V

variable {D N K V : Type} {t t' : Tree D N K V} {d e e' p : D} {n n' : N} {k : K} {x : Option V}

namespace Tree

def IsFolder (t : Tree D N K V) (d : D) : Prop := ∃ n p, t.folder d = some (n, p)

def Named (t : Tree D N K V) (d : D) (n : N) : Prop := ∃ p, t.folder d = some (n, p)

/-- `e` is a folder in `d`. -/
def Child (t : Tree D N K V) (d e : D) : Prop := e ≠ t.root ∧ ∃ n, t.folder e = some (n, d)

/-- From `d` one sees `e`. -/
def Near (t : Tree D N K V) (d e : D) : Prop :=
  e = d ∨ (∃ n, t.folder d = some (n, e)) ∨ t.Child d e

/-- The name `n` finds `e` from `d`. -/
def Finds (t : Tree D N K V) (d : D) (n : N) (e : D) : Prop := t.Near d e ∧ t.Named e n

/-- Nothing is in `d`. -/
def Empty (dir : K → D) (t : Tree D N K V) (d : D) : Prop :=
  (∀ e, ¬ t.Child d e) ∧ ∀ k, dir k = d → t.files k = none

variable [DecidableEq D] [DecidableEq K]

def addFolder (t : Tree D N K V) (d : D) (n : N) (e : D) : Tree D N K V :=
  { t with folder := Function.update t.folder e (some (n, d)) }

def removeFolder (t : Tree D N K V) (e : D) : Tree D N K V :=
  { t with folder := Function.update t.folder e none }

def setFile (t : Tree D N K V) (k : K) (x : Option V) : Tree D N K V :=
  { t with files := Function.update t.files k x }

end Tree

open FolderTree.Tree

variable [DecidableEq D] [DecidableEq K] {dir : K → D}

/-! ### Sound trees -/

/-- Every folder hangs below the root, files lie in folders, and a name finds at most
one folder. -/
structure Sound (dir : K → D) (t : Tree D N K V) : Prop where
  root : ∃ n, t.folder t.root = some (n, t.root)
  parent : ∀ {d n p}, t.folder d = some (n, p) → t.IsFolder p
  reached : ∀ {d}, t.IsFolder d → Relation.ReflTransGen t.Child t.root d
  file : ∀ {k v}, t.files k = some v → t.IsFolder (dir k)
  unique : ∀ {d n e e'}, t.IsFolder d → t.Finds d n e → t.Finds d n e' → e = e'

/-- How a tree changes. -/
inductive Step (dir : K → D) (t : Tree D N K V) : Tree D N K V → Prop
  | addFolder (d : D) (n : N) (e : D) : t.IsFolder d → ¬ t.IsFolder e → (∀ e', ¬ t.Finds d n e') →
      Step dir t (t.addFolder d n e)
  | removeFolder (d e : D) : t.Child d e → t.Empty dir e → Step dir t (t.removeFolder e)
  | setFile (k : K) (x : Option V) : t.IsFolder (dir k) → Step dir t (t.setFile k x)

omit [DecidableEq D] [DecidableEq K] in
theorem Tree.Child.isFolder (h : t.Child d e) : t.IsFolder e := by
  obtain ⟨-, n, hn⟩ := h
  exact ⟨n, d, hn⟩

omit [DecidableEq D] [DecidableEq K] in
theorem Sound.root_isFolder (h : Sound dir t) : t.IsFolder t.root := by
  obtain ⟨n, hn⟩ := h.root
  exact ⟨n, t.root, hn⟩

omit [DecidableEq D] [DecidableEq K] in
/-- What one sees from a folder are folders. -/
theorem Sound.near_isFolder (h : Sound dir t) (hd : t.IsFolder d) (hnear : t.Near d e) :
    t.IsFolder e := by
  rcases hnear with rfl | ⟨n, hn⟩ | hchild
  · exact hd
  · exact h.parent hn
  · exact hchild.isFolder

/-! ### A new folder -/

section AddFolder

omit [DecidableEq K]

theorem addFolder_folder_of_ne (h : d ≠ e) : (t.addFolder p n e).folder d = t.folder d :=
  Function.update_of_ne h _ _

theorem addFolder_folder_self : (t.addFolder d n e).folder e = some (n, d) :=
  Function.update_self _ _ _

theorem addFolder_isFolder : (t.addFolder p n e).IsFolder d ↔ t.IsFolder d ∨ d = e := by
  unfold IsFolder
  by_cases hde : d = e
  · subst hde
    rw [addFolder_folder_self]
    simp
  · rw [addFolder_folder_of_ne hde]
    simp [hde]

/-- The children are the old ones and the new folder. -/
theorem addFolder_child (he : ¬ t.IsFolder e) (hroot : t.IsFolder t.root) :
    (t.addFolder p n e).Child d e' ↔ t.Child d e' ∨ (d = p ∧ e' = e) := by
  by_cases hee : e' = e
  · subst hee
    have hne : e' ≠ t.root := by
      rintro rfl
      exact he hroot
    have hold : ¬ t.Child d e' := fun hc => he hc.isFolder
    unfold Child
    rw [addFolder_folder_self]
    constructor
    · rintro ⟨-, n', hn'⟩
      cases hn'
      exact .inr ⟨rfl, rfl⟩
    · rintro (hc | ⟨rfl, -⟩)
      · exact absurd hc hold
      · exact ⟨hne, n, rfl⟩
  · unfold Child
    rw [addFolder_folder_of_ne hee]
    simp only [hee, and_false, or_false]
    exact Iff.rfl

theorem addFolder_named (hne : d ≠ e) : (t.addFolder p n e).Named d n' ↔ t.Named d n' := by
  unfold Named
  rw [addFolder_folder_of_ne hne]

/-- From an old folder a name finds what it found, or the new folder. -/
theorem addFolder_finds (h : Sound dir t) (he : ¬ t.IsFolder e) (hd : t.IsFolder d) :
    (t.addFolder p n e).Finds d n' e' ↔ t.Finds d n' e' ∨ (d = p ∧ e' = e ∧ n' = n) := by
  have hde : d ≠ e := by
    rintro rfl
    exact he hd
  have hnear : (t.addFolder p n e).Near d e' ↔ t.Near d e' ∨ (d = p ∧ e' = e) := by
    unfold Near
    rw [addFolder_folder_of_ne hde, addFolder_child he h.root_isFolder]
    tauto
  unfold Finds
  rw [hnear]
  by_cases hee : e' = e
  · subst hee
    have hold : ¬ t.Near d e' := fun hn => he (h.near_isFolder hd hn)
    have hname : (t.addFolder p n e').Named e' n' ↔ n' = n := by
      unfold Named
      rw [addFolder_folder_self]
      simp [eq_comm]
    rw [hname]
    tauto
  · rw [addFolder_named hee]
    tauto

/-- From the new folder one sees itself and its parent. -/
theorem addFolder_near_self (h : Sound dir t) (he : ¬ t.IsFolder e) (hp : t.IsFolder p) :
    (t.addFolder p n e).Near e e' ↔ e' = e ∨ e' = p := by
  have hchild : ¬ (t.addFolder p n e).Child e e' := by
    rw [addFolder_child he h.root_isFolder]
    rintro (hc | ⟨rfl, -⟩)
    · obtain ⟨-, n', hn'⟩ := hc
      exact he (h.parent hn')
    · exact he hp
  unfold Near
  rw [addFolder_folder_self]
  simp [hchild, eq_comm]

theorem Sound.addFolder (h : Sound dir t) (hd : t.IsFolder d) (he : ¬ t.IsFolder e)
    (hfresh : ∀ e', ¬ t.Finds d n e') : Sound dir (t.addFolder d n e) where
  root := by
    have hne : t.root ≠ e := by
      intro hre
      exact he (hre ▸ h.root_isFolder)
    obtain ⟨m, hm⟩ := h.root
    exact ⟨m, (addFolder_folder_of_ne hne).trans hm⟩
  parent := by
    intro a m p hp
    -- the new folder has its parent, the others theirs
    rw [addFolder_isFolder]
    by_cases hae : a = e
    · subst hae
      rw [addFolder_folder_self] at hp
      cases hp
      exact .inl hd
    · rw [addFolder_folder_of_ne hae] at hp
      exact .inl (h.parent hp)
  reached := by
    intro a ha
    -- old children stay, and the new folder is behind the old one
    have hold : ∀ {b}, t.IsFolder b →
        Relation.ReflTransGen (t.addFolder d n e).Child t.root b := by
      intro b hb
      refine Relation.ReflTransGen.mono (fun x y hxy => ?_) _ _ (h.reached hb)
      exact (addFolder_child he h.root_isFolder).mpr (.inl hxy)
    rcases addFolder_isFolder.mp ha with ha | rfl
    · exact hold ha
    · exact (hold hd).tail ((addFolder_child he h.root_isFolder).mpr (.inr ⟨rfl, rfl⟩))
  file := by
    intro k v hk
    exact addFolder_isFolder.mpr (.inl (h.file hk))
  unique := by
    intro a m b b' ha hb hb'
    rcases addFolder_isFolder.mp ha with hold | rfl
    -- below an old folder only the new one is new, and its name is
    · rcases (addFolder_finds h he hold).mp hb with hfind | ⟨had, hbe, hmn⟩
      · rcases (addFolder_finds h he hold).mp hb' with hfind' | ⟨rfl, -, rfl⟩
        · exact h.unique hold hfind hfind'
        · exact absurd hfind (hfresh b)
      · rcases (addFolder_finds h he hold).mp hb' with hfind' | ⟨-, hbe', -⟩
        · rw [had, hmn] at hfind'
          exact absurd hfind' (hfresh b')
        · exact hbe.trans hbe'.symm
    · -- the two folders that the new one sees have different names
      have hdb : d ≠ a := by
        rintro rfl
        exact he hd
      have hno : ¬ ((t.addFolder d n a).Named a m ∧ (t.addFolder d n a).Named d m) := by
        rintro ⟨⟨p, hp⟩, hm⟩
        rw [addFolder_folder_self] at hp
        cases hp
        exact hfresh d ⟨.inl rfl, (addFolder_named hdb).mp hm⟩
      rcases (addFolder_near_self h he hd).mp hb.1 with rfl | rfl
      · rcases (addFolder_near_self h he hd).mp hb'.1 with rfl | rfl
        · rfl
        · exact absurd ⟨hb.2, hb'.2⟩ hno
      · rcases (addFolder_near_self h he hd).mp hb'.1 with rfl | rfl
        · exact absurd ⟨hb'.2, hb.2⟩ hno
        · rfl

end AddFolder

/-! ### A folder less -/

section RemoveFolder

omit [DecidableEq K]

theorem removeFolder_folder : (t.removeFolder e).folder d = if d = e then none else t.folder d := by
  show Function.update t.folder e none d = _
  rw [Function.update_apply]

theorem removeFolder_eq_some {y : N × D} :
    (t.removeFolder e).folder d = some y ↔ d ≠ e ∧ t.folder d = some y := by
  rw [removeFolder_folder]
  split_ifs with hde
  · simp [hde]
  · simp [hde]

theorem removeFolder_isFolder : (t.removeFolder e).IsFolder d ↔ d ≠ e ∧ t.IsFolder d := by
  unfold IsFolder
  simp only [removeFolder_eq_some]
  tauto

theorem removeFolder_child : (t.removeFolder e).Child d e' ↔ e' ≠ e ∧ t.Child d e' := by
  unfold Child
  simp only [removeFolder_eq_some]
  show (e' ≠ t.root ∧ _) ↔ _
  tauto

theorem removeFolder_finds (h : (t.removeFolder e).Finds d n e') : t.Finds d n e' := by
  obtain ⟨hnear, p, hp⟩ := h
  refine ⟨?_, p, (removeFolder_eq_some.mp hp).2⟩
  rcases hnear with rfl | ⟨m, hm⟩ | hc
  · exact .inl rfl
  · exact .inr (.inl ⟨m, (removeFolder_eq_some.mp hm).2⟩)
  · exact .inr (.inr (removeFolder_child.mp hc).2)

theorem Sound.removeFolder (h : Sound dir t) (hchild : t.Child d e) (hempty : t.Empty dir e) :
    Sound dir (t.removeFolder e) where
  root := by
    obtain ⟨m, hm⟩ := h.root
    exact ⟨m, removeFolder_eq_some.mpr ⟨hchild.1.symm, hm⟩⟩
  parent := by
    -- a folder whose parent goes would be in it
    intro a m p hp
    obtain ⟨-, hold⟩ := removeFolder_eq_some.mp hp
    refine removeFolder_isFolder.mpr ⟨?_, h.parent hold⟩
    rintro rfl
    by_cases hroot : a = t.root
    · obtain ⟨m', hm'⟩ := h.root
      rw [hroot, hm'] at hold
      cases hold
      exact hchild.1 rfl
    · exact hempty.1 a ⟨hroot, m, hold⟩
  reached := by
    intro a ha
    obtain ⟨hne, ha⟩ := removeFolder_isFolder.mp ha
    -- the way to a folder does not go through an empty one
    have hway := h.reached ha
    induction hway with
    | refl => exact .refl
    | @tail b c _ hbc ih =>
        have hb : b ≠ e := by
          rintro rfl
          exact hempty.1 c hbc
        have hfolder : t.IsFolder b := by
          obtain ⟨-, m, hm⟩ := hbc
          exact h.parent hm
        refine (ih ⟨_, _, removeFolder_eq_some.mpr ⟨hb, hfolder.choose_spec.choose_spec⟩⟩
          hb hfolder).tail ?_
        exact removeFolder_child.mpr ⟨hne, hbc⟩
  file := by
    intro k v hk
    refine removeFolder_isFolder.mpr ⟨?_, h.file hk⟩
    intro hke
    have hnone := hempty.2 k hke
    cases hnone.symm.trans hk
  unique := by
    intro a m b b' ha hb hb'
    exact h.unique (removeFolder_isFolder.mp ha).2 (removeFolder_finds hb) (removeFolder_finds hb')

end RemoveFolder

/-! ### Files -/

section SetFile

omit [DecidableEq D]

theorem Sound.setFile (h : Sound dir t) (hk : t.IsFolder (dir k)) : Sound dir (t.setFile k x) where
  root := h.root
  parent := h.parent
  reached := h.reached
  file := by
    intro k' v hk'
    by_cases hkk : k' = k
    · subst hkk
      exact hk
    · exact h.file ((Function.update_of_ne hkk _ _).symm.trans hk')
  unique := h.unique

end SetFile

/-! ### Steps and runs -/

/-- **Every step keeps a tree sound.** -/
theorem Step.sound (hs : Step dir t t') (h : Sound dir t) : Sound dir t' := by
  cases hs with
  | addFolder d n e hd he hfresh => exact h.addFolder hd he hfresh
  | removeFolder d e hchild hempty => exact h.removeFolder hchild hempty
  | setFile k x hk => exact h.setFile hk

/-! ### The root alone -/

/-- The tree that consists of its root. -/
def Tree.single (root : D) (n : N) : Tree D N K V where
  root := root
  folder d := if d = root then some (n, root) else none
  files _ := none

namespace Tree

/-- What is in a folder. -/
def entries (dir : K → D) (t : Tree D N K V) (d : D) : Set (D ⊕ K) :=
  Sum.inl '' {e | t.Child d e} ∪ Sum.inr '' {k | dir k = d ∧ t.files k ≠ none}

/-- The folders other than the root, each of which takes a place. -/
def branches (t : Tree D N K V) : Set D := {e | t.IsFolder e ∧ e ≠ t.root}

/-- The size of the file under a key. -/
def fileSize (size : V → Nat) (t : Tree D N K V) (k : K) : Nat := ((t.files k).map size).getD 0

/-- How many places all folders and files take. -/
noncomputable def used (size : V → Nat) (t : Tree D N K V) : Nat :=
  t.branches.ncard + ∑ᶠ k, t.fileSize size k

/-- There is room in `d` for something that takes `n` places, where a folder holds `slots`
entries and there are `places` in all. -/
structure HasRoom (dir : K → D) (size : V → Nat) (slots places : Nat) (t : Tree D N K V) (d : D)
    (n : Nat) : Prop where
  slot : (t.entries dir d).ncard < slots
  place : t.used size + n ≤ places

end Tree

section Room

variable {size : V → Nat} {slots places n' : Nat}

omit [DecidableEq D] [DecidableEq K] in
theorem Tree.Child.mem_branches (h : t.Child d e) : e ∈ t.branches := ⟨h.isFolder, h.1⟩

omit [DecidableEq D] [DecidableEq K] in
@[simp] theorem inl_mem_entries : Sum.inl e ∈ t.entries dir d ↔ t.Child d e := by
  simp [entries]

omit [DecidableEq D] [DecidableEq K] in
@[simp] theorem inr_mem_entries : Sum.inr k ∈ t.entries dir d ↔ dir k = d ∧ t.files k ≠ none := by
  simp [entries]

omit [DecidableEq D] in
/-- A file less leaves no more entries. -/
theorem entries_erase_subset : (t.setFile k none).entries dir d ⊆ t.entries dir d := by
  intro x hx
  cases x with
  | inl e =>
      have hchild : (t.setFile k none).Child d e := inl_mem_entries.mp hx
      exact inl_mem_entries.mpr hchild
  | inr k' =>
      obtain ⟨hdir, hne⟩ := inr_mem_entries.mp hx
      refine inr_mem_entries.mpr ⟨hdir, fun hnone => hne ?_⟩
      show Function.update t.files k none k' = none
      by_cases hk : k' = k
      · rw [hk, Function.update_self]
      · rw [Function.update_of_ne hk, hnone]

omit [DecidableEq D] in
theorem fileSize_erase_le (k' : K) :
    (t.setFile k none).fileSize size k' ≤ t.fileSize size k' := by
  show ((Function.update t.files k none k').map size).getD 0 ≤ ((t.files k').map size).getD 0
  by_cases hk : k' = k
  · rw [hk, Function.update_self]
    exact Nat.zero_le _
  · rw [Function.update_of_ne hk]

omit [DecidableEq D] in
/-- A file less takes no more places. -/
theorem used_erase_le [Finite K] : (t.setFile k none).used size ≤ t.used size := by
  apply Nat.add_le_add_left
  exact finsum_le_finsum' (Set.toFinite _) (Set.toFinite _) fileSize_erase_le

omit [DecidableEq D] in
/-- **Taking a file out makes no room smaller.** -/
theorem Tree.HasRoom.erase [Finite D] [Finite K] (h : HasRoom dir size slots places t d n') :
    HasRoom dir size slots places (t.setFile k none) d n' where
  slot := lt_of_le_of_lt (Set.ncard_le_ncard entries_erase_subset (Set.toFinite _)) h.slot
  place := le_trans (Nat.add_le_add_right used_erase_le _) h.place

end Room

end FolderTree
