/-
Binbows/ChangeDirectory.lean

`multiple_cd`, exit by exit (`user-shell.c`).

`ShellPaths` describes `multiple_cd` by where it leads.  Here it works on the two
globals as the source does: it saves both, changes them component by component, and
puts them back at each of its failing exits.

`path_buffer` has eight characters.  A component that fills it leaves no room for a
NUL, and the string that `strlen`, `strcmp` and `strcat` see goes on with what lies
behind the array on the stack: that is the parameter `behind`, up to the next NUL.

Main results:

* `multipleCdGlobals_eq`: this is `multipleCd`;
* `cd_failure_restores`: wherever it fails, the globals are what they were.
-/
import Binbows.PathTexts
import Binbows.ShellPlace

namespace Binbows

open Bytes Calls
open Terminal (chars text)

/-! ### change_dir -/

/-- What `change_dir` leaves: its return code, `path_buffer` and the globals. -/
structure DirChange where
  ret : Nat
  path : EntryName
  globals : Place

/-- `change_dir`. -/
def changeDirGlobals (behind : List Byte) (path : EntryName) (t : FAT32DirectoryTable)
    (globals : Place) : Except ShellFault DirChange :=
  let name := pathString behind path
  if name.length = 1 ∧ StartsWith path ['.'] then .ok ⟨0, (t 0).name, globals⟩
  else if 2 ≤ name.length ∧ StartsWith path ['.', '.'] then
    if globals.workingDirectory ≠ rootClusterNumber then
      let length := strlen globals.currentPath
      .ok ⟨0, buffer 8 (string (t 1).name),
        { currentPath := trimPath length globals.currentPath (length - 1)
          workingDirectory := (t 1).cluster }⟩
    else .ok ⟨1, path, globals⟩
  else
    match t.folderSlot name with
    | none => .ok ⟨1, path, globals⟩
    | some i => do
        let currentPath ← strcat globals.currentPath name
        let currentPath ← strcat currentPath [slash]
        return ⟨0, path, { currentPath, workingDirectory := (t i).cluster }⟩

/-! ### multiple_cd -/

/-- What stands at every failing exit, in front of `return 1`. -/
def restoreGlobals (saved globals : Place) : Place :=
  { globals with
    workingDirectory := saved.workingDirectory
    currentPath := saved.currentPath }

/-- A component was walked: `multiple_cd` returns, or it goes on. -/
inductive ComponentEnd
  | exit (ret : Nat) (globals : Place)
  | next (lastFolderName : EntryName) (globals : Place)

/-- Return, or go on as `next` says. -/
def ComponentEnd.goOn (next : EntryName → Place → ShellProgram (Nat × Place)) :
    ComponentEnd → ShellProgram (Nat × Place)
  | .exit ret globals => pure (ret, globals)
  | .next lastFolderName globals => next lastFolderName globals

/-- What `multiple_cd` does with a component, behind a slash and at the end. -/
def enterComponent (behind : List Byte) (saved : Place) (pathBuffer : List Byte)
    (lastFolderName : EntryName) (globals : Place) : ShellProgram ComponentEnd :=
  if 8 < pathBuffer.length then pure (.exit 1 (restoreGlobals saved globals))
  else do
    let reply ← Program.ask (.fs ⟨.readDirectory, ⟨stackBuffer, lastFolderName, 0,
      globals.workingDirectory, BitVec.ofNat 32 clusterSize⟩, zeroMemory⟩)
    if reply.retcode = 0 then
      let change ← Program.ofExcept (changeDirGlobals behind (buffer 8 pathBuffer)
        (.ofCluster (reply.mem.load stackBuffer)) globals)
      if change.ret ≠ 0 then pure (.exit 1 (restoreGlobals saved change.globals))
      else pure (.next change.path change.globals)
    else pure (.exit 1 (restoreGlobals saved globals))

/-- The second loop of `multiple_cd`, over the characters that are left, and what
comes behind it. -/
def walkComponents (behind : List Byte) (saved : Place) :
    (path : List Byte) → (bufExist : Bool) → (pathBuffer : List Byte) →
    (lastFolderName : EntryName) → (globals : Place) → ShellProgram (Nat × Place)
  | [], bufExist, pathBuffer, lastFolderName, globals =>
      if bufExist then do
        let walked ← enterComponent behind saved pathBuffer lastFolderName globals
        walked.goOn fun _ globals => pure (0, globals)
      else pure (0, globals)
  | c :: path, bufExist, pathBuffer, lastFolderName, globals =>
      if c = slash then
        if ¬ bufExist then pure (1, restoreGlobals saved globals)
        else do
          let walked ← enterComponent behind saved pathBuffer lastFolderName globals
          walked.goOn fun name globals => walkComponents behind saved path false [] name globals
      else if 8 ≤ pathBuffer.length then pure (1, restoreGlobals saved globals)
      else walkComponents behind saved path true (pathBuffer ++ [c]) lastFolderName globals

/-- The first loop of `multiple_cd`: the component up to the first slash; `none`
where it returns. -/
def firstComponent : (path pathBuffer : List Byte) → Option (List Byte)
  | [], pathBuffer => some pathBuffer
  | c :: path, pathBuffer =>
      if c = slash then some pathBuffer
      else if 8 ≤ pathBuffer.length then none
      else firstComponent path (pathBuffer ++ [c])

/-- `multiple_cd`: its return code and the globals that it leaves. -/
def multipleCdGlobals (behind : List Byte) (path : List Byte) (globals : Place) :
    ShellProgram (Nat × Place) :=
  let lastName := lastFolderName globals.currentPath
  let saved := globals
  match firstComponent path [] with
  | none => pure (1, restoreGlobals saved globals)
  | some pathBuffer =>
      if pathBuffer = ['r', 'o', 'o', 't'].map ascii then
        walkComponents behind saved (path.drop 5) false [] rootName ⟨rootPath, rootClusterNumber⟩
      else walkComponents behind saved path false [] lastName globals

variable {σ : Type} {handler : ShellCall → σ → Except ShellFault (ShellReply × σ)} {s s' : σ}
  {behind path pathBuffer : List Byte} {saved globals place place' : Place} {name : EntryName}
  {bufExist : Bool} {ret : Nat}

/-! ### Every failing exit restores the globals -/

/-- A component that is the last one has put the globals back. -/
theorem enterComponent_ensures :
    (enterComponent behind saved pathBuffer name globals).Ensures fun walked =>
      ∀ ret left, walked = .exit ret left → ret = 1 ∧ left = saved := by
  rw [enterComponent]
  split_ifs
  · apply Program.ensures_pure
    rintro ret left ⟨⟩
    exact ⟨rfl, rfl⟩
  · apply Program.ensures_seq
    intro reply
    split_ifs
    · apply Program.ensures_seq
      intro change
      split_ifs
      · apply Program.ensures_pure
        rintro ret left ⟨⟩
        exact ⟨rfl, rfl⟩
      · apply Program.ensures_pure
        rintro ret left ⟨⟩
    · apply Program.ensures_pure
      rintro ret left ⟨⟩
      exact ⟨rfl, rfl⟩

/-- The loop fails with the saved globals only, however many components it has
walked by then. -/
theorem walkComponents_ensures :
    (walkComponents behind saved path bufExist pathBuffer name globals).Ensures fun r =>
      r.1 ≠ 0 → r.2 = saved := by
  induction path generalizing bufExist pathBuffer name globals with
  | nil =>
      rw [walkComponents]
      split_ifs
      · refine enterComponent_ensures.bind ?_
        rintro (⟨ret, left⟩ | ⟨name, left⟩) hexit
        · apply Program.ensures_pure
          exact fun _ => (hexit ret left rfl).2
        · apply Program.ensures_pure
          exact fun h0 => absurd rfl h0
      · apply Program.ensures_pure
        exact fun h0 => absurd rfl h0
  | cons c path ih =>
      rw [walkComponents]
      split_ifs
      · refine enterComponent_ensures.bind ?_
        rintro (⟨ret, left⟩ | ⟨name, left⟩) hexit
        · apply Program.ensures_pure
          exact fun _ => (hexit ret left rfl).2
        · -- the next component starts from what this one has left
          exact ih
      · exact Program.ensures_pure fun _ => rfl
      · exact Program.ensures_pure fun _ => rfl
      · exact ih

/-- **A failed `cd` changes nothing.**  Whatever the path, the globals and the stack
are and the system calls answer: where `multiple_cd` returns another code than 0, both
globals are what they were. -/
theorem cd_failure_restores
    (h : (multipleCdGlobals behind path place).run handler s = .ok ((ret, place'), s'))
    (hret : ret ≠ 0) : place' = place := by
  have hensures : (multipleCdGlobals behind path place).Ensures fun r =>
      r.1 ≠ 0 → r.2 = place := by
    rw [multipleCdGlobals]
    split
    · exact Program.ensures_pure fun _ => rfl
    · split_ifs
      · exact walkComponents_ensures
      · exact walkComponents_ensures
  exact hensures.of_run h hret

/-- `cd a/b` at the root, where `a` is a folder and has no `b`: the first component
succeeds, the second does not. -/
theorem cd_failure_restores_oneFolder : ∃ place' w',
    (multipleCdGlobals [ascii 'x'] (['a', '/', 'b'].map ascii) rootPlace).run (serve noProcesses)
      ⟨oneFolder, []⟩ = .ok ((1, place'), w') ∧ place' = rootPlace := by
  have hfails : ((multipleCdGlobals [ascii 'x'] (['a', '/', 'b'].map ascii) rootPlace).run
      (serve noProcesses) ⟨oneFolder, []⟩).toOption.map (fun r => r.1.1) = some 1 := by
    decide +kernel
  obtain ⟨⟨⟨ret, place'⟩, w'⟩, hrun, rfl⟩ := exists_ok_of_toOption hfails
  exact ⟨place', w', hrun, cd_failure_restores hrun Nat.one_ne_zero⟩

/-! ### The two readings of the source -/

/-- The two readings of `change_dir` agree. -/
theorem changeDirGlobals_eq {t : FAT32DirectoryTable} {name : EntryName} :
    changeDirGlobals behind name t globals = (changeDir behind name t globals).map fun changed =>
      match changed with
      | none => ⟨1, name, globals⟩
      | some (path, place) => ⟨0, path, place⟩ := by
  unfold changeDirGlobals changeDir
  dsimp only
  split_ifs
  · rfl
  · rfl
  · rfl
  · cases t.folderSlot (pathString behind name) with
    | none => rfl
    | some i =>
        cases hcat : strcat globals.currentPath (pathString behind name) with
        | error e => simp [bind, Except.bind, Except.map]
        | ok path =>
            cases hcat' : strcat path [slash] with
            | error e => simp [hcat', bind, Except.bind, Except.map]
            | ok path' => simp [hcat', bind, Except.bind, Except.map, pure, Except.pure]

/-- How `multiple_cd` goes on behind a component. -/
def componentEnd (saved : Place) : Option (EntryName × Place) → ComponentEnd
  | none => .exit 1 saved
  | some (path, place) => .next path place

theorem enterComponent_eq (hlen : pathBuffer.length ≤ 8) :
    enterComponent behind saved pathBuffer name globals =
      componentEnd saved <$> enterFolder behind name (buffer 8 pathBuffer) globals := by
  rw [enterComponent, if_neg (not_lt.mpr hlen), enterFolder, map_bind]
  congr 1
  funext reply
  split_ifs
  · rw [changeDirGlobals_eq]
    cases changeDir behind (buffer 8 pathBuffer) (.ofCluster (reply.mem.load stackBuffer)) globals with
    | error e => rfl
    | ok changed =>
        rcases changed with - | ⟨path, place⟩
        · rfl
        · rfl
  · rfl

/-- What `multiple_cd` returns where its walk has ended. -/
def concludeCd (saved : Place) : Option Place → Nat × Place
  | none => (1, saved)
  | some place => (0, place)

theorem walkComponents_eq (hbuf : bufExist = true ↔ pathBuffer ≠ [])
    (hlen : pathBuffer.length ≤ 8) :
    walkComponents behind saved path bufExist pathBuffer name globals =
      concludeCd saved <$> walkPath (enterFolder behind) path pathBuffer name globals := by
  -- by the characters: the flag says whether something has been collected
  induction path generalizing bufExist pathBuffer name globals with
  | nil =>
      rw [walkComponents, walkPath, enterComponent_eq hlen]
      by_cases hempty : pathBuffer = []
      · rw [if_neg (by simp [hbuf, hempty]), if_pos hempty]
        rfl
      · rw [if_pos (by simp [hbuf, hempty]), if_neg hempty, map_bind, bind_map_left]
        congr 1
        funext entered
        rcases entered with - | ⟨path, place⟩
        · rfl
        · rfl
  | cons c path ih =>
      rw [walkComponents, walkPath, enterComponent_eq hlen]
      -- a second slash ends the walk, and the first one enters the component
      by_cases hslash : c = slash
      · rw [if_pos hslash, if_pos hslash]
        by_cases hempty : pathBuffer = []
        · rw [if_pos (by simp [hbuf, hempty]), if_pos hempty]
          rfl
        · rw [if_neg (by simp [hbuf, hempty]), if_neg hempty, map_bind, bind_map_left]
          congr 1
          funext entered
          rcases entered with - | ⟨path', place⟩
          · rfl
          · exact ih (by simp) (Nat.zero_le 8)
      -- the ninth character of a component ends the walk
      · rw [if_neg hslash, if_neg hslash]
        split_ifs with hlong
        · rfl
        · apply ih
          · simp
          · rw [List.length_append]
            exact not_le.mp hlong

/-- The first loop stops where the component ends, or where it does not fit. -/
theorem firstComponent_eq (hlen : pathBuffer.length ≤ 8) :
    firstComponent path pathBuffer =
      if 8 < (pathBuffer ++ path.takeWhile (· ≠ slash)).length then none
      else some (pathBuffer ++ path.takeWhile (· ≠ slash)) := by
  induction path generalizing pathBuffer with
  | nil => simp [firstComponent, hlen]
  | cons c path ih =>
      rw [firstComponent]
      by_cases hslash : c = slash
      · simp [hslash, hlen]
      · rw [if_neg hslash, List.takeWhile_cons_of_pos (by simpa using hslash)]
        split_ifs with hfull hlong hlong
        · rfl
        · rw [List.length_append, List.length_cons] at hlong
          omega
        · rw [ih (by rw [List.length_append]; exact not_le.mp hfull),
            if_pos (by simpa using hlong)]
        · rw [ih (by rw [List.length_append]; exact not_le.mp hfull),
            if_neg (by simpa using hlong)]
          simp

theorem firstComponent_nil : firstComponent path [] =
    if 8 < (path.takeWhile (· ≠ slash)).length then none
    else some (path.takeWhile (· ≠ slash)) :=
  firstComponent_eq (Nat.zero_le 8)

theorem walkComponents_nil : walkComponents behind saved path false [] name globals =
    concludeCd saved <$> walkPath (enterFolder behind) path [] name globals := by
  apply walkComponents_eq
  · simp
  · exact Nat.zero_le 8

theorem concludeCd_map {walk : ShellProgram (Option Place)}
    {f : Option Place → ShellProgram (Nat × Place)} (hnone : f none = pure (1, saved))
    (hsome : ∀ moved, f (some moved) = pure (0, moved)) : concludeCd saved <$> walk = walk >>= f := by
  rw [map_eq_pure_bind]
  congr 1
  funext reached
  cases reached with
  | none => exact hnone.symm
  | some moved => exact (hsome moved).symm

/-- **The two readings of `multiple_cd` agree.** -/
theorem multipleCdGlobals_eq :
    multipleCdGlobals behind path place = multipleCd behind path place := by
  unfold multipleCdGlobals multipleCd startOfPath
  rw [firstComponent_nil]
  dsimp only
  split_ifs with hlong hroot
  · rfl
  · dsimp only
    rw [if_pos hroot, walkComponents_nil]
    exact concludeCd_map rfl fun _ => rfl
  · dsimp only
    rw [if_neg hroot, walkComponents_nil]
    exact concludeCd_map rfl fun _ => rfl

end Binbows
