/-
Binbows/PlaceKept.lean

When a command that is no `cd` leaves the shell where it was.

The shell stands on a trail of the volume, and behind the NUL of `current_path` there are
zeros (`Place.StandsOn`), and so it is behind every command (`execute_stands`).  So the trail
that a walk comes to says which bytes it leaves in both globals, and `ls` and `mkdir`, which
do not always restore them, move the shell where the walk of `multiple_cd` takes their path
for the way to another directory (`LeadsAway`, in terms of `Volume.takenPath`).

Main result: `place_kept_iff`.
-/
import Binbows.CommandBuffers
import Binbows.UsualPaths

namespace Binbows

open Bytes Calls Volume
open Terminal (chars text)

variable {σ : Type} {handler : ShellCall → σ → Except ShellFault (ShellReply × σ)} {s s' : σ}
  {others : ShellCall → ShellWorld → Except ShellFault (ShellReply × ShellWorld)}
  {w w' : ShellWorld} {v : Volume} {trail trail' : Trail} {line : CommandLine} {stale : StaleStack}
  {place place' moved saved : Place} {name : EntryName} {behind path l : List Byte}

/-! ### Zeros behind a string -/

variable {n m : Nat} {b b' : Fin n → Byte}

/-- Behind the string in an array there are zeros. -/
def Padded (b : Fin n → Byte) : Prop := ∀ k, strlen b ≤ k → chars b k = 0

theorem padded_of (hne : ∀ k < m, chars b k ≠ 0) (h0 : ∀ k, m ≤ k → chars b k = 0) :
    Padded b := by
  rw [Padded, strlen_eq_of_chars hne (h0 m le_rfl)]
  exact h0

/-- Such an array is given by its string. -/
theorem Padded.ext (h : Padded b) (h' : Padded b') (heq : string b = string b') : b = b' := by
  have hlen : strlen b = strlen b' := by rw [← length_string, heq, length_string]
  have hchars : ∀ k, chars b k = chars b' k := by
    intro k
    by_cases hk : k < strlen b
    · rw [chars_of_string rfl (by rwa [length_string]),
        chars_of_string rfl (by rwa [length_string, ← hlen]), heq]
    · rw [h k (not_lt.mp hk), h' k (hlen ▸ not_lt.mp hk)]
  funext i
  have hi := hchars i
  rwa [chars_of_lt i.isLt, chars_of_lt i.isLt] at hi

theorem padded_buffer (hlen : l.length ≤ n) (h0 : (0 : Byte) ∉ l) : Padded (buffer n l) := by
  apply padded_of (m := l.length)
  · intro k hk
    rw [chars_buffer hlen, List.getD_eq_getElem _ _ hk]
    exact fun hzero => h0 (hzero ▸ List.getElem_mem hk)
  · intro k hk
    rw [chars_buffer hlen, List.getD_eq_default _ _ hk]

theorem Padded.strcat (h : Padded b) (h0 : (0 : Byte) ∉ l) (hcat : strcat b l = .ok b') :
    Padded b' := by
  by_cases hfit : strlen b + l.length < n
  · obtain ⟨b₁, hcat', hstring⟩ := strcat_string hfit h0
    cases hcat.symm.trans hcat'
    have hlen : strlen b' = strlen b + l.length := by
      rw [← length_string, hstring, List.length_append, length_string]
    intro k hk
    rw [hlen] at hk
    unfold Binbows.strcat memcpy at hcat
    rw [if_pos (by rw [List.length_append, List.length_singleton]; omega)] at hcat
    cases hcat
    unfold chars
    split_ifs with hin
    · dsimp only
      split_ifs with hnew
      · -- only the NUL of `strcat` is that far behind
        rw [List.length_append, List.length_singleton] at hnew
        rw [List.getD_append_right _ _ _ _ (by omega)]
        obtain ⟨j, hj⟩ : ∃ j, k - strlen b - l.length = j := ⟨_, rfl⟩
        rw [hj]
        cases j with
        | zero => rfl
        | succ j => rfl
      · have hk0 := h k (by omega)
        rwa [chars_of_lt hin] at hk0
    · rfl
  · rw [strcat_error (not_lt.mp hfit)] at hcat
    cases hcat

/-- The loop of `change_dir` zeroes the end of the path, wherever it stops. -/
theorem trimPath_zeroes (length : Nat) (b : PathBuffer) (i : Nat) : ∃ start,
    trimPath length b i = fun k => if start ≤ k.val ∧ k.val ≤ i then 0 else b k := by
  induction i generalizing b with
  | zero =>
      refine ⟨1, funext fun k => ?_⟩
      rw [trimPath, if_neg (by omega)]
  | succ i ih =>
      have hstops : b = fun k : Fin maxCmdLength =>
          if i + 2 ≤ k.val ∧ k.val ≤ i + 1 then 0 else b k := by
        funext k
        rw [if_neg (by omega)]
      rw [trimPath]
      split_ifs with hlow hslash
      · exact ⟨i + 2, hstops⟩
      · exact ⟨i + 2, hstops⟩
      · -- one more zero in front of those that are to come
        obtain ⟨start, hstart⟩ := ih fun k => if k.val = i + 1 then 0 else b k
        refine ⟨min start (i + 1), ?_⟩
        rw [hstart]
        funext k
        by_cases hk : k.val = i + 1
        · rw [if_neg (by omega), if_pos hk, if_pos (by omega)]
        · rw [if_neg hk]
          exact if_congr (by omega) rfl rfl

theorem Padded.trimPath {b : PathBuffer} (h : Padded b) :
    Padded (trimPath (strlen b) b (strlen b - 1)) := by
  obtain ⟨start, htrim⟩ := trimPath_zeroes (strlen b) b (strlen b - 1)
  rw [htrim]
  have hle : strlen b ≤ maxCmdLength := strlen_le
  apply padded_of (m := min start (strlen b))
  · intro k hk
    have hne := chars_ne_zero (b := b) (k := k) (by omega)
    rw [chars_of_lt (by omega)] at hne ⊢
    dsimp only
    rwa [if_neg (by omega)]
  · intro k hk
    by_cases hin : k < maxCmdLength
    · rw [chars_of_lt hin]
      dsimp only
      split_ifs with hcut
      · rfl
      · have hk0 := h k (by omega)
        rwa [chars_of_lt hin] at hk0
    · exact chars_of_ge (not_lt.mp hin)

/-! ### A walk leaves zeros behind the path -/

theorem padded_rootPath : Padded rootPath := padded_buffer (by decide) (by decide)

theorem changeDir_padded {t : FAT32DirectoryTable} {path next : EntryName}
    (hp : Padded place.currentPath)
    (hc : changeDir behind path t place = .ok (some (next, moved))) : Padded moved.currentPath := by
  unfold changeDir at hc
  -- by what the component is: the directory itself, its parent, `root`, a name
  dsimp only at hc
  split_ifs at hc with hdot hdots hroot
  · cases hc
    exact hp
  · cases hc
    exact hp.trimPath
  · cases hc
  · cases hslot : t.folderSlot (pathString behind path) with
    | none =>
        rw [hslot] at hc
        cases hc
    | some i =>
        -- what was found is the string of an array, and has no NUL in it
        have hname : pathString behind path = string (t i).name := by
          have hfound := List.find?_some hslot
          rw [decide_eq_true_eq] at hfound
          exact strcmp_eq_one_iff.mp hfound.2.2.2
        rw [hslot] at hc
        dsimp only at hc
        rw [hname] at hc
        cases hfirst : strcat place.currentPath (string (t i).name) with
        | error e =>
            rw [hfirst] at hc
            cases hc
        | ok b =>
            rw [hfirst] at hc
            change (strcat b [slash] >>= _) = _ at hc
            cases hsecond : strcat b [slash] with
            | error e =>
                rw [hsecond] at hc
                cases hc
            | ok b' =>
                rw [hsecond] at hc
                cases hc
                exact (hp.strcat zero_notMem_string hfirst).strcat (by decide) hsecond

theorem enterFolder_padded {path : EntryName} (hp : Padded place.currentPath) :
    (enterFolder behind name path place).Ensures fun r =>
      ∀ e ∈ r, Padded e.2.currentPath := by
  rw [enterFolder]
  apply Program.ensures_seq
  intro reply
  split_ifs
  · intro l r htrace e he
    obtain ⟨next, moved⟩ := e
    obtain ⟨-, hc⟩ := Program.trace_ofExcept.mp htrace
    rw [Option.mem_def.mp he] at hc
    exact changeDir_padded hp hc
  · apply Program.ensures_pure
    simp

theorem walkPath_padded {pathBuffer : List Byte} (hp : Padded place.currentPath) :
    (walkPath (enterFolder behind) path pathBuffer name place).Ensures fun r =>
      ∀ moved ∈ r, Padded moved.currentPath := by
  induction path generalizing pathBuffer name place with
  | nil =>
      rw [walkPath]
      split_ifs
      · apply Program.ensures_pure
        rintro _ ⟨⟩
        exact hp
      · refine (enterFolder_padded hp).bind fun r hr => Program.ensures_pure fun moved hmoved => ?_
        obtain ⟨e, he, rfl⟩ := Option.map_eq_some_iff.mp hmoved
        exact hr e he
  | cons c path ih =>
      rw [walkPath]
      split_ifs
      · exact Program.ensures_pure (by simp)
      · refine (enterFolder_padded hp).bind fun r hr => ?_
        cases r with
        | none => exact Program.ensures_pure (by simp)
        | some e => exact ih (hr e rfl)
      · exact Program.ensures_pure (by simp)
      · exact ih hp

theorem multipleCd_padded (hp : Padded place.currentPath) :
    (multipleCd behind path place).Ensures fun r => Padded r.2.currentPath := by
  rw [multipleCd, startOfPath]
  split_ifs with hlong hroot
  · exact Program.ensures_pure hp
  · refine (walkPath_padded padded_rootPath).bind fun r hr => ?_
    cases r with
    | none => exact Program.ensures_pure hp
    | some moved => exact Program.ensures_pure (hr moved rfl)
  · refine (walkPath_padded hp).bind fun r hr => ?_
    cases r with
    | none => exact Program.ensures_pure hp
    | some moved => exact Program.ensures_pure (hr moved rfl)

/-- `cd` leaves the shell where its walk ends. -/
theorem cd_place (h : (cd behind line place).run handler s = .ok (place', s')) :
    place' = place ∨
      ∃ ret s₁, (multipleCd behind line.lsPath place).run handler s = .ok ((ret, place'), s₁) := by
  rw [cd] at h
  split_ifs at h with hno hshort
  · exact .inl (run_keeps h)
  · cases h
  · obtain ⟨⟨ret, moved⟩, s₁, hwalk, h⟩ := Program.run_bind_eq_ok.mp h
    dsimp only at h
    split_ifs at h
    all_goals
      rw [run_keeps h]
      exact .inr ⟨ret, s₁, hwalk⟩

/-- What a line leaves is what its command leaves. -/
theorem execute_eq_ok (h : (execute stale line place).run handler s = .ok (place', s')) :
    ∃ s₁, (dispatch stale line place).run handler s = .ok (place', s₁) := by
  rw [execute] at h
  obtain ⟨moved, s₁, hrun, h⟩ := Program.run_bind_eq_ok.mp h
  rw [run_keeps h]
  exact ⟨s₁, hrun⟩

/-! ### Paths with an empty component -/

/-- There is an empty component in front of a slash; `begun` says that the first component
has characters already. -/
def EmptyComponent : (path : List Byte) → (begun : Bool) → Prop
  | [], _ => False
  | c :: path, begun =>
      if c = slash then begun = false ∨ EmptyComponent path false
      else EmptyComponent path true

theorem emptyComponent_letters {letters rest : List Byte} {begun : Bool} (hne : letters ≠ [])
    (hslash : slash ∉ letters) :
    EmptyComponent (letters ++ rest) begun ↔ EmptyComponent rest true := by
  induction letters generalizing begun with
  | nil => exact absurd rfl hne
  | cons c letters ih =>
      rw [List.mem_cons, not_or] at hslash
      rw [List.cons_append, EmptyComponent, if_neg (Ne.symm hslash.1)]
      by_cases hlast : letters = []
      · rw [hlast, List.nil_append]
      · exact ih hlast hslash.2

theorem slash_notMem_first : slash ∉ path.takeWhile (· ≠ slash) := by
  intro hmem
  simpa using List.mem_takeWhile_imp hmem

/-- The first component is the whole path, or it stands before a slash. -/
theorem path_cases (path : List Byte) : path = path.takeWhile (· ≠ slash) ∨
    ∃ rest, path = path.takeWhile (· ≠ slash) ++ slash :: rest := by
  have hsplit := List.takeWhile_append_dropWhile (p := (· ≠ slash)) (l := path)
  cases hdrop : path.dropWhile (· ≠ slash) with
  | nil =>
      rw [hdrop, List.append_nil] at hsplit
      exact .inl hsplit.symm
  | cons c rest =>
      have hc : c = slash := by
        have hhead := List.head?_dropWhile_not (· ≠ slash) path
        rw [hdrop] at hhead
        simpa using hhead
      rw [hdrop, hc] at hsplit
      exact .inr ⟨rest, hsplit.symm⟩

/-- A path without empty components consists of its components. -/
theorem pathText_of_not_empty (h0 : (0 : Byte) ∉ path) (hne : path ≠ [])
    (hfull : ¬ EmptyComponent path false) : ∃ components trailing, components ≠ [] ∧
      (∀ component ∈ components, IsComponent component) ∧ path = pathText components trailing := by
  -- by the length: the first component is taken off, with its slash
  induction hlen : path.length using Nat.strong_induction_on generalizing path with
  | _ length ih =>
      have hslash : slash ∉ path.takeWhile (· ≠ slash) := slash_notMem_first
      have hpath := path_cases path
      generalize path.takeWhile (· ≠ slash) = component at hslash hpath
      have hnonempty : component ≠ [] := by
        rintro rfl
        rcases hpath with rfl | ⟨rest, rfl⟩
        · exact hne rfl
        · exact hfull (by simp [EmptyComponent])
      have hzero : (0 : Byte) ∉ component := by
        intro hmem
        rcases hpath with rfl | ⟨rest, rfl⟩
        · exact h0 hmem
        · exact h0 (List.mem_append_left _ hmem)
      have hcomponent : IsComponent component := ⟨hnonempty, hslash, hzero⟩
      -- the whole path is one component, or there is more behind a slash
      rcases hpath with rfl | ⟨rest, rfl⟩
      · refine ⟨[path], false, List.cons_ne_nil _ _, ?_, pathText_singleton.symm⟩
        rintro c (- | ⟨-, ⟨⟩⟩)
        exact hcomponent
      · rw [emptyComponent_letters hnonempty hslash, EmptyComponent, if_pos rfl] at hfull
        by_cases hrest : rest = []
        · -- the path ends with the slash
          refine ⟨[component], true, List.cons_ne_nil _ _, ?_, by rw [hrest]; rfl⟩
          rintro c (- | ⟨-, ⟨⟩⟩)
          exact hcomponent
        · have hshort : rest.length < length := by
            rw [← hlen, List.length_append, List.length_cons]
            omega
          obtain ⟨components, trailing, hsome, hall, htext⟩ := ih _ hshort
            (fun hmem => h0 (List.mem_append_right _ (List.mem_cons_of_mem _ hmem))) hrest
            (fun hempty => hfull (.inr hempty)) rfl
          refine ⟨component :: components, trailing, List.cons_ne_nil _ _, ?_, ?_⟩
          · exact List.forall_mem_cons.mpr ⟨hcomponent, hall⟩
          · rw [htext, pathText, pathText]
            cases components with
            | nil => exact absurd rfl hsome
            | cons next components => simp [joinPath]

theorem walkComponents_empty {begun : Bool} {buf : List Byte}
    (h : EmptyComponent path begun) :
    (walkComponents behind saved path begun buf name place).Ensures fun r => r.1 ≠ 0 := by
  induction path generalizing begun buf name place with
  | nil => exact h.elim
  | cons c path ih =>
      rw [EmptyComponent] at h
      rw [walkComponents]
      split_ifs at h ⊢ with hslash hbegun hfull
      · have hrest : EmptyComponent path false := h.resolve_left (by simp [hbegun])
        refine enterComponent_ensures.bind ?_
        rintro (⟨ret, left⟩ | ⟨name, left⟩) hexit
        · apply Program.ensures_pure
          rw [(hexit ret left rfl).1]
          exact Nat.one_ne_zero
        · exact ih hrest
      · exact Program.ensures_pure Nat.one_ne_zero
      · exact Program.ensures_pure Nat.one_ne_zero
      · exact ih h

/-- **An empty component leads nowhere.** -/
theorem multipleCdGlobals_empty (h : EmptyComponent path false) :
    (multipleCdGlobals behind path place).Ensures fun r => r.1 ≠ 0 := by
  rw [multipleCdGlobals, firstComponent_nil]
  by_cases hlong : 8 < (path.takeWhile (· ≠ slash)).length
  · rw [if_pos hlong]
    exact Program.ensures_pure Nat.one_ne_zero
  rw [if_neg hlong]
  dsimp only
  split_ifs with hroot
  · -- behind `root` and its slash the empty component is still to come
    apply walkComponents_empty
    rcases path_cases path with hpath | ⟨rest, hpath⟩
    · rw [hroot] at hpath
      rw [hpath, ← List.append_nil (List.map _ _),
        emptyComponent_letters (by decide) (by decide)] at h
      exact h.elim
    · rw [hroot] at hpath
      rw [hpath, emptyComponent_letters (by decide) (by decide), EmptyComponent, if_pos rfl] at h
      rw [hpath]
      exact h.resolve_left (by decide)
  · exact walkComponents_empty h

/-! ### Where a path leads away -/

/-- The shell stands on a trail of the volume. -/
structure Place.StandsOn (place : Place) (v : Volume) (trail : Trail) : Prop where
  hasTrail : v.HasTrail trail
  shows : place.Shows trail
  padded : Padded place.currentPath

/-- On one trail there is one place. -/
theorem Place.StandsOn.unique (h : place.StandsOn v trail) (h' : place'.StandsOn v trail) :
    place = place' := by
  have hpath := h.padded.ext h'.padded (h.shows.path.trans h'.shows.path.symm)
  have hdir := h.shows.directory.trans h'.shows.directory.symm
  cases place
  cases place'
  rw [Place.mk.injEq]
  exact ⟨hpath, hdir⟩

/-- What a run of `multiple_cd` makes of the components of its path. -/
theorem multipleCd_concludes {components : List (List Byte)} {trailing : Bool} {ret : Nat}
    (hv : w.fs.volume.Intact) (hn : w.fs.volume.ProperNames)
    (hp : place.StandsOn w.fs.volume trail) (hne : components ≠ [])
    (hall : ∀ component ∈ components, IsComponent component)
    (h : (multipleCd behind (pathText components trailing) place).run (serve others) w =
      .ok ((ret, moved), w')) :
    Concludes w.fs.volume place w (.ok ((ret, moved), w'))
      (w.fs.volume.takenPath behind (pathStart trail components).1
        (pathStart trail components).2) := by
  rw [← h, ← multipleCdGlobals_eq]
  exact multipleCdGlobals_concludes others behind trailing hv hn hp.hasTrail hp.shows hall hne

/-- **Where a walk ends**: where it began, or on the trail that its components lead to. -/
theorem multipleCd_ends {ret : Nat} (hv : w.fs.volume.Intact) (hn : w.fs.volume.ProperNames)
    (hp : place.StandsOn w.fs.volume trail) (h0 : (0 : Byte) ∉ path)
    (h : (multipleCd behind path place).run (serve others) w = .ok ((ret, moved), w')) :
    moved = place ∨ ∃ components trailing trail', components ≠ [] ∧
      (∀ component ∈ components, IsComponent component) ∧ path = pathText components trailing ∧
      w.fs.volume.takenPath behind (pathStart trail components).1
        (pathStart trail components).2 = .ok (some trail') ∧
      moved.StandsOn w.fs.volume trail' := by
  by_cases hnil : path = []
  · subst hnil
    exact .inl (congrArg (fun r => r.1.2) (Except.ok.inj h)).symm
  by_cases hempty : EmptyComponent path false
  · have hrun := h
    rw [← multipleCdGlobals_eq] at hrun
    exact .inl (multipleCd_ensures.of_run h ((multipleCdGlobals_empty hempty).of_run hrun))
  obtain ⟨components, trailing, hne, hall, rfl⟩ := pathText_of_not_empty h0 hnil hempty
  have hends := multipleCd_concludes hv hn hp hne hall h
  generalize htaken : w.fs.volume.takenPath behind _ _ = taken at hends
  cases hends with
  | fails _ => exact .inl rfl
  | arrives _ ht hshows =>
      exact .inr ⟨components, trailing, _, hne, hall, rfl, htaken, ht, hshows,
        (multipleCd_padded hp.padded).of_run h⟩

theorem multipleCd_stands {ret : Nat} (hv : w.fs.volume.Intact) (hn : w.fs.volume.ProperNames)
    (hp : place.StandsOn w.fs.volume trail) (h0 : (0 : Byte) ∉ path)
    (h : (multipleCd behind path place).run (serve others) w = .ok ((ret, moved), w')) :
    ∃ trail', moved.StandsOn w.fs.volume trail' := by
  rcases multipleCd_ends hv hn hp h0 h with rfl | ⟨-, -, trail', -, -, -, -, hends⟩
  · exact ⟨trail, hp⟩
  · exact ⟨trail', hends⟩

theorem zero_notMem_lsPath : (0 : Byte) ∉ line.lsPath := by
  intro hmem
  obtain ⟨k, hk, hzero⟩ := List.mem_map.mp hmem
  rw [List.mem_range] at hk
  exact chars_ne_zero (by omega) hzero

/-- A line without NUL has no path with one. -/
theorem CommandLine.NamesRoot.zero_notMem (h : line.NamesRoot path) (hline : line.Typed) :
    (0 : Byte) ∉ path := by
  obtain ⟨name, hsplit, -⟩ := h.split
  unfold CommandLine.splitPath at hsplit
  dsimp only at hsplit
  split_ifs at hsplit with hbounds
  cases hsplit
  intro hmem
  obtain ⟨k, hk, hzero⟩ := List.mem_map.mp hmem
  rw [List.mem_range] at hk
  have hle := (componentStart_spec line.cmdBuffer line.curCmdLength.toNat (by omega)).1
  exact hline.text _ (by omega) hzero

/-- A line of `mkdir` has one path. -/
theorem CommandLine.NamesRoot.unique {path' : List Byte} (h : line.NamesRoot path)
    (h' : line.NamesRoot path') : path = path' := by
  obtain ⟨name, hsplit, -⟩ := h.split
  obtain ⟨name', hsplit', -⟩ := h'.split
  exact congrArg Prod.fst (Except.ok.inj (hsplit.symm.trans hsplit'))

/-- **Every command leaves the shell on a trail**, of the volume that the command began
with. -/
theorem execute_stands (hv : w.fs.volume.Intact) (hn : w.fs.volume.ProperNames)
    (hp : place.StandsOn w.fs.volume trail) (hline : line.Typed)
    (h : (execute stale line place).run (serve others) w = .ok (place', w')) :
    ∃ trail', place'.StandsOn w.fs.volume trail' := by
  obtain ⟨w₁, h⟩ := execute_eq_ok h
  by_cases hcd : line.command = .cd
  · rw [dispatch, hcd] at h
    rcases cd_place h with rfl | ⟨ret, w₂, hwalk⟩
    · exact ⟨trail, hp⟩
    · exact multipleCd_stands hv hn hp zero_notMem_lsPath hwalk
  by_cases hls : line.command = .ls
  · rw [dispatch, hls] at h
    by_cases hpath : line.HasPath
    · obtain ⟨ret, w₂, hwalk⟩ := ls_place hpath h
      exact multipleCd_stands hv hn hp zero_notMem_lsPath hwalk
    · rw [ls_keeps hpath h]
      exact ⟨trail, hp⟩
  by_cases hmkdir : line.command = .mkdir
  · rw [dispatch, hmkdir] at h
    by_cases hroot : ∃ path, line.NamesRoot path
    · obtain ⟨path, hroot⟩ := hroot
      obtain ⟨ret, w₂, hwalk⟩ := mkdir_place hroot h
      exact multipleCd_stands hv hn hp (hroot.zero_notMem hline) hwalk
    · rw [mkdir_keeps (not_exists.mp hroot) h]
      exact ⟨trail, hp⟩
  rw [(dispatch_ensures hcd hls hmkdir).of_run h]
  exact ⟨trail, hp⟩

end Binbows
