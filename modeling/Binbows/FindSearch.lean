/-
Binbows/FindSearch.lean

What `find` goes through.

`find` goes into every entry, files included: it takes the last component of the path that
it has put together, looks for a folder of that name in the table that it is in, and asks
`read_directory` for the name there.  `Volume.search` is this search on a volume: the
entries that are printed, in order, or the fault of a path that does not fit.

Main result: `find_prints`.  Without an argument, and with `path` empty where it is not set,
`find` prints the entries of the search.
-/
import Binbows.CatOutput

namespace Binbows

open Bytes Calls Volume SlotTree
open Terminal (chars text)

variable {others : ShellCall → ShellWorld → Except ShellFault (ShellReply × ShellWorld)}
  {w w' : ShellWorld} {v : Volume} {d c : BitVec 32} {n m : Nat}
  {behind : List (Fin directoryEntryCount) → List Byte} {trail : List (Fin directoryEntryCount)}
  {path : List Byte} {origin : BitVec 32} {t : FAT32DirectoryTable}
  {localPath : PathBuffer} {args : FindArgs} {i : Fin directoryEntryCount}

/-! ### The search on a volume -/

/-- A directory that the search is in: `trail` tells the activations of `findHelper` apart,
`path` is the string in `local_current_path`, `origin` is `local_working_directory`, and
`dir` is the directory whose table was read. -/
structure SearchNode where
  trail : List (Fin directoryEntryCount)
  path : List Byte
  origin : BitVec 32
  dir : BitVec 32

/-- The name that is asked for at a path. -/
def askedName (path : List Byte) : EntryName := lastFolderName (buffer maxCmdLength path)

/-- Where the name is asked for: in the folder of that name in the table, or where the search
came from. -/
def searchOrigin (behind : List (Fin directoryEntryCount) → List Byte)
    (trail : List (Fin directoryEntryCount)) (path : List Byte) (origin : BitVec 32)
    (t : FAT32DirectoryTable) : BitVec 32 :=
  match t.subfolder (pathString (behind trail) (askedName path)) with
  | none => origin
  | some i => (t i).cluster

/-- What the search goes into at a path. -/
def Volume.enterSearch (v : Volume) (behind : List (Fin directoryEntryCount) → List Byte)
    (trail : List (Fin directoryEntryCount)) (path : List Byte) (origin : BitVec 32)
    (t : FAT32DirectoryTable) : Option SearchNode :=
  (v.folderNamed (searchOrigin behind trail path origin t) (askedName path)).map fun dir =>
    ⟨trail, path, searchOrigin behind trail path origin t, dir⟩

namespace SearchNode

/-- The path that is put together for an entry. -/
def pathTo (v : Volume) (node : SearchNode) (i : Fin directoryEntryCount) : List Byte :=
  node.path ++ (v.table node.dir i).nameString ++ [slash]

/-- The slots that are printed. -/
def slots (v : Volume) (node : SearchNode) : List (Fin directoryEntryCount) :=
  childSlots.filter fun i => (v.table node.dir i).Occupied

/-- What the search goes into behind a slot. -/
def child (v : Volume) (behind : List (Fin directoryEntryCount) → List Byte) (node : SearchNode)
    (i : Fin directoryEntryCount) : Option SearchNode :=
  if i ∈ node.slots v then
    v.enterSearch behind (i :: node.trail) (node.pathTo v i) node.origin (v.table node.dir)
  else none

end SearchNode

/-- The search in the slots that are left, with what is found behind a slot as a parameter. -/
def Volume.searchEntries (v : Volume) (node : SearchNode)
    (descend : Fin directoryEntryCount →
      Except ShellFault (List (SearchNode × Fin directoryEntryCount))) :
    List (Fin directoryEntryCount) →
    Except ShellFault (List (SearchNode × Fin directoryEntryCount))
  | [] => .ok []
  | i :: is =>
      if (v.table node.dir i).Occupied then
        if maxCmdLength ≤ (node.pathTo v i).length then .error .outOfBounds
        else do
          let below ← descend i
          let rest ← searchEntries v node descend is
          return (node, i) :: (below ++ rest)
      else searchEntries v node descend is

/-- The entries that the search prints. -/
def Volume.search (v : Volume) (behind : List (Fin directoryEntryCount) → List Byte) :
    (fuel : Nat) → (trail : List (Fin directoryEntryCount)) → (path : List Byte) →
    (origin : BitVec 32) → FAT32DirectoryTable →
    Except ShellFault (List (SearchNode × Fin directoryEntryCount))
  | 0, _, _, _, _ => .error .noReturn
  | fuel + 1, trail, path, origin, t =>
      match v.enterSearch behind trail path origin t with
      | none => .ok []
      | some node => v.searchEntries node
          (fun i => search v behind fuel (i :: trail) (node.pathTo v i) node.origin
            (v.table node.dir)) childSlots

/-! ### What is printed -/

/-- The line of an entry: `./`, cut to the length of the name, the path behind where the
search began, and the name with its extension. -/
def foundLine (prev : Nat) (path : List Byte) (e : FAT32DirectoryEntry) : List TextStep :=
  (((['.', '/'].map ascii).take (strlen e.name) ++ path.drop prev ++ string e.name ++
    (if e.IsSubdirectory then []
      else (if 0 < strlen e.ext then [dot] else []) ++ string e.ext)).map (.putchar · 0x9)) ++
    [.putchar newline 0x9]

/-- The line of a slot. -/
def SearchNode.line (v : Volume) (prev : Nat) (x : SearchNode × Fin directoryEntryCount) :
    List TextStep :=
  foundLine prev x.1.path (v.table x.1.dir x.2)

theorem putsChars_string {b : Fin n → Byte} :
    putsChars (fun k => chars b (m + k)) (List.range (strlen b - m)) = (string b).drop m := by
  have hall : ∀ c ∈ (List.range (strlen b - m)).map (fun k => chars b (m + k)), (c ≠ 0) := by
    intro c hc
    obtain ⟨k, hk, rfl⟩ := List.mem_map.mp hc
    rw [List.mem_range] at hk
    exact chars_ne_zero (by omega)
  rw [putsChars, List.takeWhile_eq_self_iff.mpr fun c hc => decide_eq_true (hall c hc)]
  apply List.ext_getElem
  · rw [List.length_map, List.length_range, List.length_drop, length_string]
  · intro k hk hk'
    rw [List.getElem_map, List.getElem_range, List.getElem_drop, string_getElem]

/-- The program puts these characters, and does nothing else. -/
def Puts (others : ShellCall → ShellWorld → Except ShellFault (ShellReply × ShellWorld))
    (p : ShellProgram Unit) (steps : List TextStep) : Prop :=
  ∀ w, ∃ calls, p.run (serve others) w = .ok ((), ⟨w.fs, w.output ++ calls⟩) ∧
    putchars calls = steps

theorem puts_tell (others : ShellCall → ShellWorld → Except ShellFault (ShellReply × ShellWorld))
    {call : TextCall} {steps : List TextStep} (h : call.steps = steps) :
    Puts others (tell (.text call)) steps := fun _ => ⟨[call], rfl, by
  rw [putchars, List.flatMap_singleton, h]⟩

theorem Puts.seq {p q : ShellProgram Unit} {steps steps' : List TextStep}
    (hp : Puts others p steps) (hq : Puts others q steps') :
    Puts others (p >>= fun _ => q) (steps ++ steps') := by
  intro w
  obtain ⟨calls, hrun, rfl⟩ := hp w
  obtain ⟨calls', hrun', rfl⟩ := hq ⟨w.fs, w.output ++ calls⟩
  refine ⟨calls ++ calls', ?_, List.flatMap_append⟩
  rw [Program.run_bind, hrun, ← List.append_assoc]
  exact hrun'

/-- The characters of an array that are put with its length as the count. -/
theorem puts_string_steps {b : Fin n → Byte} (hn : n < 256) (color : Byte) :
    (TextCall.puts (fun k => chars b (m + k)) (BitVec.ofNat 8 (strlen b - m)) color).steps =
      ((string b).drop m).map (.putchar · color) := by
  have hlen : strlen b ≤ n := strlen_le
  rw [TextCall.steps, BitVec.toNat_ofNat, Nat.mod_eq_of_lt (by omega), putsChars_string]

theorem puts_whole_steps {b : Fin n → Byte} (hn : n < 256) (color : Byte) :
    (TextCall.puts (chars b) (BitVec.ofNat 8 (strlen b)) color).steps =
      (string b).map (.putchar · color) := by
  have hsteps := puts_string_steps (b := b) (m := 0) hn color
  rw [List.drop_zero, Nat.sub_zero] at hsteps
  rw [← hsteps]
  congr 2
  funext k
  rw [Nat.zero_add]

theorem puts_dot_steps {count : Nat} (h : count ≤ 8) :
    (TextCall.puts (text ['.', '/']) (BitVec.ofNat 8 count) 0x9).steps =
      ((['.', '/'].map ascii).take count).map (.putchar · 0x9) := by
  have hput : ∀ k ≤ 8, putsChars (text ['.', '/']) (List.range k) =
      (['.', '/'].map ascii).take k := by decide
  rw [TextCall.steps, BitVec.toNat_ofNat, Nat.mod_eq_of_lt (by omega), hput count h]

/-- `printFound` prints the line. -/
theorem printFound_puts (args : FindArgs) (localPath : PathBuffer) (e : FAT32DirectoryEntry) :
    Puts others (printFound args localPath e) (foundLine args.prev (string localPath) e) := by
  have hputchar : ∀ c, Puts others (tell (.text (.putchar c 0x9))) [.putchar c 0x9] := fun _ =>
    puts_tell others rfl
  have hdots := puts_tell others (puts_dot_steps (strlen_le (b := e.name)))
  have hpath := puts_tell others
    (puts_string_steps (b := localPath) (m := args.prev) (by decide) 0x9)
  have hname := puts_tell others (puts_whole_steps (b := e.name) (by decide) 0x9)
  have hext := puts_tell others (puts_whole_steps (b := e.ext) (by decide) 0x9)
  have hdot := hputchar dot
  have hend := hputchar newline
  unfold printFound foundLine
  by_cases hsub : e.IsSubdirectory
  · rw [if_neg (not_not.mpr hsub), if_pos hsub]
    have hall := hdots.seq (hpath.seq (hname.seq hend))
    simp only [List.map_append, List.append_nil, List.append_assoc]
    exact hall
  · rw [if_pos hsub, if_neg hsub]
    by_cases hpos : 0 < strlen e.ext
    · rw [if_pos hpos, if_pos hpos]
      have hall := hdots.seq (hpath.seq (hname.seq (hdot.seq (hext.seq hend))))
      simp only [List.map_append, List.append_assoc]
      exact hall
    · rw [if_neg hpos, if_neg hpos]
      have hall := hdots.seq (hpath.seq (hname.seq (hext.seq hend)))
      simp only [List.map_append, List.append_assoc]
      exact hall

/-! ### The names that are asked for -/

theorem componentStart_congr {b b' : Fin n → Byte} (h : ∀ k < m, chars b k = chars b' k) :
    componentStart b m = componentStart b' m := by
  induction m with
  | zero => rfl
  | succ m ih =>
      rw [componentStart, componentStart, h m (Nat.lt_succ_self m),
        ih fun k hk => h k (Nat.lt_succ_of_lt hk)]

/-- The name that is asked for depends on the string only. -/
theorem lastFolderName_eq (h : string localPath = path) (hlen : path.length ≤ maxCmdLength) :
    lastFolderName localPath = askedName path := by
  have hstring : string (buffer maxCmdLength path) = path :=
    string_buffer hlen (h ▸ zero_notMem_string)
  have hstrlen : strlen localPath = strlen (buffer maxCmdLength path) := by
    rw [← length_string, ← length_string, h, hstring]
  have hchars : ∀ k < path.length, chars localPath k = chars (buffer maxCmdLength path) k := by
    intro k hk
    rw [chars_of_string h hk, chars_of_string hstring hk]
  have hle : strlen localPath ≤ path.length := by
    rw [← length_string, h]
  have hstart := componentStart_congr (m := strlen localPath - 1) fun k hk => hchars k (by omega)
  unfold askedName lastFolderName
  dsimp only
  rw [← hstrlen, ← hstart]
  congr 1
  unfold span
  refine List.map_congr_left fun k hk => hchars _ ?_
  have hk := List.mem_range.mp hk
  omega

/-! ### The program -/

theorem strcat_cases {b : Fin n → Byte} {src : List Byte} (h0 : (0 : Byte) ∉ src) :
    (n ≤ strlen b + src.length ∧ strcat b src = .error .outOfBounds) ∨
      ∃ b', strcat b src = .ok b' ∧ string b' = string b ++ src ∧ strlen b' < n := by
  by_cases hfit : strlen b + src.length < n
  · obtain ⟨b', hb', hs⟩ := strcat_string hfit h0
    refine .inr ⟨b', hb', hs, ?_⟩
    rwa [← length_string, hs, List.length_append, length_string]
  · exact .inl ⟨not_lt.mp hfit, strcat_error (not_lt.mp hfit)⟩

/-- A path is put together for an entry: the two ways on. -/
theorem run_strcat {β : Type} {f : PathBuffer → ShellProgram β} {dest : PathBuffer}
    {name : List Byte} {P : Except ShellFault (β × ShellWorld) → Prop}
    (hdest : string dest = []) (hpath : string localPath = path) (h0 : (0 : Byte) ∉ name)
    (hlong : maxCmdLength ≤ (path ++ name ++ [slash]).length → P (.error .outOfBounds))
    (hfits : ∀ p, (path ++ name ++ [slash]).length < maxCmdLength →
      string p = path ++ name ++ [slash] → P ((f p).run (serve others) w)) :
    P ((do
      let path ← Program.ofExcept (strcat dest (string localPath))
      let path ← Program.ofExcept (strcat path name)
      let path ← Program.ofExcept (strcat path [slash])
      f path).run (serve others) w) := by
  rw [List.length_append, List.length_append, List.length_singleton] at hlong hfits
  rw [hpath]
  -- three pieces are appended, and the first that does not fit is the fault
  rcases strcat_cases (b := dest) (hpath ▸ zero_notMem_string) with ⟨hfull, he⟩ | ⟨p, he, hs, -⟩
  · rw [he]
    rw [← length_string, hdest] at hfull
    exact hlong (by
      rw [List.length_nil] at hfull
      omega)
  rw [he]
  rw [hdest, List.nil_append] at hs
  show P ((Program.ofExcept (strcat p name) >>= _).run (serve others) w)
  rcases strcat_cases (b := p) h0 with ⟨hfull, he⟩ | ⟨p', he, hs', -⟩
  · rw [he]
    rw [← length_string, hs] at hfull
    exact hlong (by omega)
  rw [he]
  rw [hs] at hs'
  show P ((Program.ofExcept (strcat p' [slash]) >>= _).run (serve others) w)
  have hslash : (0 : Byte) ∉ [slash] := by decide
  rcases strcat_cases (b := p') hslash with ⟨hfull, he⟩ | ⟨p'', he, hs'', hlt⟩
  · rw [he]
    rw [← length_string, hs', List.length_append, List.length_singleton] at hfull
    exact hlong hfull
  · rw [he]
    rw [hs'] at hs''
    refine hfits p'' ?_ hs''
    rwa [← length_string, hs'', List.length_append, List.length_append, List.length_singleton] at hlt

/-- How the program ends, by what the search is on the volume. -/
inductive Prints (v : Volume) (prev : Nat) (w : ShellWorld) :
    Except ShellFault (List (SearchNode × Fin directoryEntryCount)) →
    Except ShellFault (Unit × ShellWorld) → Prop
  | fault {e : ShellFault} : Prints v prev w (.error e) (.error e)
  | lines {es : List (SearchNode × Fin directoryEntryCount)} {calls : List TextCall}
      {w' : ShellWorld} : w'.fs.volume = v → w'.output = w.output ++ calls →
      putchars calls = es.flatMap (SearchNode.line v prev) →
      Prints v prev w (.ok es) (.ok ((), w'))

theorem Prints.of_output {prev : Nat} (hout : w'.output = w.output)
    {x : Except ShellFault (List (SearchNode × Fin directoryEntryCount))}
    {y : Except ShellFault (Unit × ShellWorld)} (h : Prints v prev w' x y) : Prints v prev w x y := by
  cases h with
  | fault => exact .fault
  | lines hw hout' hes => exact .lines hw (hout ▸ hout') hes

theorem string_zero : string (fun _ => 0 : PathBuffer) = [] := by decide

theorem findEntries_prints {node : SearchNode}
    {descend : Fin directoryEntryCount → PathBuffer → ShellProgram Unit}
    {descend' : Fin directoryEntryCount →
      Except ShellFault (List (SearchNode × Fin directoryEntryCount))}
    (hargs : strlen args.target = 0) (hpath : string localPath = node.path)
    (hdescend : ∀ i w p, w.fs.volume = v → string p = node.pathTo v i →
      Prints v args.prev w (descend' i) ((descend i p).run (serve others) w))
    (is : List (Fin directoryEntryCount)) {dest : PathBuffer} (hdest : string dest = [])
    (hw : w.fs.volume = v) :
    Prints v args.prev w (v.searchEntries node descend' is)
      ((findEntries args localPath (v.table node.dir) descend is dest).run (serve others) w) := by
  -- by the slots that are left, which the program goes through as the search does
  induction is generalizing dest w with
  | nil =>
      show Prints v args.prev w (.ok []) (.ok ((), w))
      have hsteps : putchars [] = [].flatMap (SearchNode.line v args.prev) := rfl
      exact .lines hw (List.append_nil _).symm hsteps
  | cons i is ih =>
      rw [findEntries, Volume.searchEntries]
      by_cases hocc : (v.table node.dir i).Occupied
      -- without arguments everything matches
      · have hmatch : args.Matches localPath (v.table node.dir i) := .inr (.inr hargs)
        obtain ⟨calls, hrun, hcalls⟩ : ∃ calls, (printFound args localPath (v.table node.dir i)).run
            (serve others) w = .ok ((), ⟨w.fs, w.output ++ calls⟩) ∧
            putchars calls = foundLine args.prev (string localPath) (v.table node.dir i) :=
          printFound_puts args localPath (v.table node.dir i) w
        rw [if_pos hocc, if_pos hocc]
        dsimp only
        rw [if_pos hmatch, Program.run_bind, hrun]
        -- the name of the path is built by three `strcat`s, and behind it the folder is searched
        refine run_strcat (w := ⟨w.fs, w.output ++ calls⟩) hdest hpath zero_notMem_string
          (fun (hlong : maxCmdLength ≤ (node.pathTo v i).length) => ?_)
          fun p (hfits : (node.pathTo v i).length < maxCmdLength) hp => ?_
        · rw [if_pos hlong]
          exact .fault
        · rw [if_neg (not_le.mpr hfits), Program.run_bind]
          have hbelow := hdescend i ⟨w.fs, w.output ++ calls⟩ p hw hp
          generalize (descend i p).run (serve others) ⟨w.fs, w.output ++ calls⟩ = ran at hbelow ⊢
          generalize descend' i = found at hbelow ⊢
          cases hbelow with
          | fault => exact .fault
          | @lines es calls' w' hw' hout hes =>
              -- the loop goes on with an empty name, as the call clears it
              have hrest := ih string_zero hw'
              change Prints v args.prev w (v.searchEntries node descend' is >>= _)
                ((findEntries args localPath (v.table node.dir) descend is fun _ => 0).run
                  (serve others) w')
              generalize (findEntries args localPath (v.table node.dir) descend is fun _ => 0).run
                (serve others) w' = ran at hrest ⊢
              generalize v.searchEntries node descend' is = rest at hrest ⊢
              cases hrest with
              | fault => exact .fault
              | @lines es' calls'' w'' hw'' hout' hes' =>
                  -- the lines of the entry, of what is below it, and of the rest
                  have hall : w''.output = w.output ++ (calls ++ (calls' ++ calls'')) := by
                    rw [hout', hout, List.append_assoc, List.append_assoc]
                  refine .lines hw'' hall ?_
                  · rw [putchars, List.flatMap_append, List.flatMap_append, ← putchars, ← putchars,
                      ← putchars, hcalls, hes, hes', List.flatMap_cons, List.flatMap_append,
                      SearchNode.line, hpath]
      · rw [if_neg hocc, if_neg hocc]
        exact ih hdest hw

/-- What a request for a table gets the search to. -/
theorem searchOrigin_directory (horigin : v.Directory origin)
    (hsub : ∀ i name, t.subfolder name = some i → v.Directory (t i).cluster) :
    v.Directory (searchOrigin behind trail path origin t) := by
  unfold searchOrigin
  split
  · exact horigin
  · next i hi => exact hsub i _ hi

theorem subfolder_directory (hd : v.Directory d) {name : List Byte}
    (h : (v.table d).subfolder name = some i) : v.Directory ((v.table d) i).cluster := by
  have hi := List.find?_some h
  rw [decide_eq_true_eq] at hi
  exact .child hd (child_eq_some_iff.mpr ⟨⟨hi.1, hi.2.1, hi.2.2.1⟩, rfl⟩)

/-- `findHelper` prints the entries of the search. -/
theorem findHelper_prints {stale : List (Fin directoryEntryCount) → PathBuffer} (hv : v.Intact)
    (hargs : strlen args.target = 0) (hstale : ∀ trail, string (stale trail) = [])
    (hw : w.fs.volume = v) (horigin : v.Directory origin)
    (hsub : ∀ i name, t.subfolder name = some i → v.Directory (t i).cluster) (fuel : Nat) :
    Prints v args.prev w (v.search behind fuel trail (string localPath) origin t)
      ((findHelper stale behind args fuel trail localPath origin t).run (serve others) w) := by
  -- by the fuel: the calls that are one within the other
  induction fuel generalizing trail localPath origin t w with
  | zero => exact .fault
  | succ fuel ih =>
      have hname : lastFolderName localPath = askedName (string localPath) :=
        lastFolderName_eq rfl (by
          rw [length_string]
          exact strlen_le)
      -- the program looks where the search does, as the name it asks for is the same
      have hat : v.Directory (searchOrigin behind trail (string localPath) origin t) :=
        searchOrigin_directory horigin hsub
      subst hw
      obtain ⟨reply, w', hserve, hshows, hsame, hout⟩ := serve_table others hv hat
        (askedName (string localPath))
      have hask : (Program.ask (.fs (tableRequest (askedName (string localPath))
          (searchOrigin behind trail (string localPath) origin t))) :
          ShellProgram ShellReply).run (serve others) w = .ok (reply, w') := by
        rw [Program.ask, Program.run, hserve]
        rfl
      rw [findHelper, Volume.search, Volume.enterSearch]
      dsimp only
      rw [hname, Program.run_bind]
      change Prints _ _ _ _ (Program.run (serve others) (Program.ask (.fs (tableRequest
        (askedName (string localPath)) (searchOrigin behind trail (string localPath) origin t)))) w
          >>= _)
      rw [hask]
      change Prints _ _ _ _ (Program.run (serve others) (if reply.retcode = 0 then _ else _) w')
      cases hdir : w.fs.volume.folderNamed (searchOrigin behind trail (string localPath) origin t)
          (askedName (string localPath)) with
      -- not found: nothing is printed and nothing is searched
      | none =>
          rw [hdir] at hshows
          rw [if_neg hshows]
          have hsteps : putchars [] = [].flatMap (SearchNode.line w.fs.volume args.prev) := rfl
          exact .lines hsame.volume_eq (by rw [hout, List.append_nil]) hsteps
      | some dir =>
          rw [hdir] at hshows
          obtain ⟨hret, htable⟩ := hshows
          have hd := folderNamed_directory hv hat hdir
          rw [if_pos hret, htable]
          let node : SearchNode :=
            ⟨trail, string localPath, searchOrigin behind trail (string localPath) origin t, dir⟩
          -- what is below each entry, by the hypothesis of the induction
          have hbelow : ∀ i (w'' : ShellWorld) (p : PathBuffer), w''.fs.volume = w.fs.volume →
              string p = node.pathTo w.fs.volume i →
              Prints w.fs.volume args.prev w''
                (w.fs.volume.search behind fuel (i :: trail) (node.pathTo w.fs.volume i) node.origin
                  (w.fs.volume.table node.dir))
                ((findHelper stale behind args fuel (i :: trail) p node.origin
                  (w.fs.volume.table node.dir)).run (serve others) w'') :=
            fun i w'' p hw'' hp => hp ▸ ih hw'' hat fun i name => subfolder_directory hd
          have hentries := findEntries_prints hargs rfl hbelow childSlots (hstale trail)
            hsame.volume_eq
          exact hentries.of_output hout

/-- Nothing is found in the table that `find` begins with. -/
theorem subfolder_zero (name : List Byte) :
    FAT32DirectoryTable.subfolder (fun _ => .zero) name = none := by
  have hfree : ¬ FAT32DirectoryEntry.zero.Occupied := by decide
  unfold FAT32DirectoryTable.subfolder
  rw [List.find?_eq_none]
  rintro i - hi
  rw [decide_eq_true_eq] at hi
  exact hfree hi.2.1

variable (others behind) in
/-- **`find` without an argument prints the entries of the search.** -/
theorem find_prints {stale : List (Fin directoryEntryCount) → PathBuffer} {line : CommandLine}
    {place : Place} (hv : w.fs.volume.Intact)
    (hplace : w.fs.volume.Directory place.workingDirectory)
    (hline : strlen line.cmdBuffer ≤ 5) (hstale : ∀ trail, string (stale trail) = []) :
    ∃ y, Prints w.fs.volume (strlen place.currentPath) w
        (w.fs.volume.search behind (maxCmdLength + 1) [] (string place.currentPath)
          place.workingDirectory fun _ => .zero) y ∧
      (find stale behind line place).run (serve others) w = y.map fun r => (place, r.2) := by
  obtain ⟨args, hargs, hempty, hprev⟩ : ∃ args : FindArgs, line.findArgs place = .ok args ∧
      strlen args.target = 0 ∧ args.prev = strlen place.currentPath := by
    have hzero : strlen (fun _ => 0 : PathBuffer) = 0 := by decide
    refine ⟨⟨fun _ => 0, fun _ => 0, strlen place.currentPath⟩, ?_, hzero, rfl⟩
    rw [CommandLine.findArgs, if_neg (not_lt.mpr hline)]
    rfl
  have hnowhere : ∀ i name, FAT32DirectoryTable.subfolder (fun _ => .zero) name = some i →
      w.fs.volume.Directory (FAT32DirectoryEntry.zero).cluster := fun i name hi =>
    absurd ((subfolder_zero name).symm.trans hi) (by rintro ⟨⟩)
  rw [← hprev]
  refine ⟨(findHelper stale behind args (maxCmdLength + 1) [] place.currentPath
    place.workingDirectory fun _ => .zero).run (serve others) w,
    findHelper_prints hv hempty hstale rfl hplace hnowhere (maxCmdLength + 1), ?_⟩
  rw [find, hargs]
  change (findHelper stale behind args (maxCmdLength + 1) [] place.currentPath
    place.workingDirectory (fun _ => .zero) >>= fun _ => pure place).run (serve others) w = _
  rw [Program.run_bind]
  cases (findHelper stale behind args (maxCmdLength + 1) [] place.currentPath
      place.workingDirectory fun _ => .zero).run (serve others) w with
  | error e => rfl
  | ok r => rfl

end Binbows
