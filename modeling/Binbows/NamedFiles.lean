/-
Binbows/NamedFiles.lean

Whether `cat`, `rm` and `cp` act on the file that their argument names.

For `cat` this depends on lengths alone (`respected_fileAt_iff`): its name and extension
share eleven characters, and their arrays have eight and three.  `rm` and `cp` take a
directory for a name where it has a space or a single dot, take a slash in front for part of
the name, cut names and extensions that are too long, and look for an extension behind the
argument where it has none (`respected_fileIn_iff` and the cases behind it).

Main result: `file_command_respects_iff`.
-/
import Binbows.FileArguments

namespace Binbows

open Chain SlotTree Bytes Volume Run Calls Moves
open Terminal (chars text)

variable {w : ShellWorld} {v : Volume} {line : CommandLine} {place : Place} {c : BitVec 32}
  {k : FileKey} {command : FileCommand} {arg : FileArgument} {keys : List FileKey}
  {found : Except ShellFault (Option (BitVec 32))} {returns : Prop}
  {behind path name ext dir tail front rest : List Byte}

/-! ### Respected arguments -/

/-- What a run reads or deletes respects the argument, whose directory is `found`.  For a
proper argument it is the file that the argument names, if there is such a directory.  For
an odd one it is no file of another name or extension, and the command comes to its end. -/
structure FileArgument.Respected (arg : FileArgument)
    (found : Except ShellFault (Option (BitVec 32))) (keys : List FileKey) (returns : Prop) :
    Prop where
  proper : arg.Proper → ∀ c, found = .ok (some c) → keys = [arg.key c]
  nowhere : arg.Proper → found = .ok none → keys = []
  odd : arg.Odd → ∀ k ∈ keys, arg.Names k
  returns : arg.Odd → ∀ c, found = .ok (some c) → returns

/-- Without a directory there is nothing to read or delete. -/
theorem respected_nil (hfound : ∀ c, found ≠ .ok (some c)) :
    arg.Respected found [] returns where
  proper _ c hc := absurd hc (hfound c)
  nowhere _ _ := rfl
  odd _ := nofun
  returns _ c hc := absurd hc (hfound c)

theorem buffer_inj {n : Nat} {l l' : List Byte} (hlen : l.length ≤ n) (h0 : 0 ∉ l)
    (hlen' : l'.length ≤ n) (h0' : 0 ∉ l') (heq : buffer n l = buffer n l') : l = l' := by
  rw [← string_buffer hlen h0, heq, string_buffer hlen' h0']

theorem PlainChars.zero_notMem (h : PlainChars name) : 0 ∉ name := fun hmem => (h 0 hmem).1 rfl

/-! ### cat -/

/-- The file that `cat` reads when the extension is cut. -/
theorem respected_cut_iff (hreturns : returns) (hname : arg.name.length ≤ 8) :
    arg.Respected (.ok (some c))
        [⟨c, buffer 8 arg.name, buffer 3 (arg.extension.take (10 - arg.name.length))⟩] returns ↔
      arg.extension.length ≤ 3 ∧ ¬ (arg.name.length = 8 ∧ arg.extension.length = 3) := by
  constructor
  -- a longer extension would have to be left alone
  · intro h
    have hshort : arg.extension.length ≤ 3 := by
      by_contra hlong
      exact hlong (h.odd (.inr (.inl (not_le.mp hlong))) _ List.mem_cons_self).2.1
    -- eight and three characters are one more than the ten that are looked at
    refine ⟨hshort, fun ⟨height, hthree⟩ => ?_⟩
    have hproper : arg.Proper := by
      refine ⟨?_, hname, ?_, hshort⟩
      · intro hnil
        rw [hnil] at height
        cases height
      · intro hnil
        rw [hnil] at hthree
        cases hthree
    have hkey := h.proper hproper c rfl
    have hext : buffer 3 (arg.extension.take (10 - arg.name.length)) = buffer 3 arg.extension :=
      congrArg FileKey.ext (List.cons.inj hkey).1
    have hplain := arg.extension_plain
    have hcut := buffer_inj (List.length_take_le' _ _ |>.trans hshort)
      (hplain.take _).zero_notMem hshort hplain.zero_notMem hext
    have hlen := congrArg List.length hcut
    rw [List.length_take] at hlen
    omega
  · rintro ⟨hshort, hroom⟩
    -- otherwise the extension is read as it is
    have hwhole : arg.extension.take (10 - arg.name.length) = arg.extension :=
      List.take_of_length_le (by omega)
    rw [hwhole]
    refine ⟨fun _ c' hc => ?_, fun _ hnone => ?_, fun _ k hk => ?_, fun _ _ _ => hreturns⟩
    · cases hc
      rfl
    · cases hnone
    · rw [List.mem_singleton.mp hk]
      exact ⟨hname, hshort, rfl, rfl⟩

/-- `cat` respects its argument where name and extension fit, in their arrays and in eleven
characters with the dot. -/
theorem respected_fileAt_iff (h : Asks (v.fileAt behind arg.folder arg.file place) keys returns)
    (hreturns : ∀ k, v.fileAt behind arg.folder arg.file place = .ok (some k) → returns) :
    arg.Respected (v.leads behind arg.folder place) keys returns ↔
      (∀ c, v.leads behind arg.folder place ≠ .ok (some c)) ∨
        (arg.name.length ≤ 8 ∧ arg.extension.length ≤ 3 ∧
          ¬ (arg.name.length = 8 ∧ arg.extension.length = 3)) := by
  rw [Volume.fileAt] at h hreturns
  -- the path of the directory may fail, lead nowhere, or lead to `c`
  cases hleads : v.leads behind arg.folder place with
  | error e =>
      rw [hleads] at h
      rw [(h.fault e rfl).1]
      exact ⟨fun _ => .inl (by simp), fun _ => respected_nil (by simp)⟩
  | ok found =>
      rw [hleads] at h hreturns
      cases found with
      | none =>
          rw [(h.nothing rfl).1]
          exact ⟨fun _ => .inl (by simp), fun _ => respected_nil (by simp)⟩
      | some c =>
          have hfound : ¬ ∀ c', (Except.ok (some c) : Except ShellFault _) ≠ .ok (some c') :=
            fun hno => hno c rfl
          change Asks (splitDot arg.file >>= fun s => .ok (some (FileKey.mk c s.1 s.2))) _ _ at h
          change ∀ k, (splitDot arg.file >>= fun s => .ok (some (FileKey.mk c s.1 s.2))) = _ → _
            at hreturns
          rw [or_iff_right hfound]
          -- more than eight characters in the name, or three in the extension, are a fault
          by_cases hname : arg.name.length ≤ 8
          · rw [splitDot_file hname] at h hreturns
            by_cases hcut : (arg.extension.take (10 - arg.name.length)).length ≤ 3
            · rw [if_pos hcut] at h hreturns
              rw [h.file _ rfl, respected_cut_iff (hreturns _ rfl) hname, and_iff_right hname]
            · rw [if_neg hcut] at h
              rw [List.length_take] at hcut
              constructor
              · intro hr
                exact absurd (hr.returns (.inr (.inl (by omega))) c rfl) (h.fault _ rfl).2
              · rintro ⟨-, hshort, -⟩
                omega
          · rw [splitDot_long (not_le.mp hname)] at h
            constructor
            · intro hr
              exact absurd (hr.returns (.inl (not_le.mp hname)) c rfl) (h.fault _ rfl).2
            · rintro ⟨hle, -⟩
              exact absurd hle hname

/-! ### rm and cp -/

/-- An odd argument names no file that has an extension. -/
theorem FileArgument.Odd.not_names (hodd : arg.Odd) (hlen : ext.length ≤ 3) (h0 : 0 ∉ ext)
    (hsome : ext ≠ []) : ¬ arg.Names ⟨c, buffer 8 name, buffer 3 ext⟩ := by
  rintro ⟨hname, hshort, -, heq⟩
  have hext : ext = arg.extension :=
    buffer_inj hlen h0 hshort arg.extension_plain.zero_notMem heq
  rcases hodd with hlong | hlong | hnone
  · exact absurd hname (not_le.mpr hlong)
  · exact absurd hshort (not_le.mpr hlong)
  · rw [FileArgument.extension, hnone] at hext
    exact hsome hext

/-- For a proper argument the file is the one that it names where all three parts agree. -/
theorem FileArgument.Proper.key_eq_iff {c' : BitVec 32} (hproper : arg.Proper)
    (hname : name.length ≤ 8 ∧ 0 ∉ name) (hext : ext.length ≤ 3 ∧ 0 ∉ ext) :
    [FileKey.mk c (buffer 8 name) (buffer 3 ext)] = [arg.key c'] ↔
      c = c' ∧ name = arg.name ∧ ext = arg.extension := by
  constructor
  · intro h
    have hkey := (List.cons.inj h).1
    refine ⟨congrArg FileKey.dir hkey, ?_, ?_⟩
    · exact buffer_inj hname.1 hname.2 hproper.2.1 arg.name_text.zero_notMem
        (congrArg FileKey.name hkey)
    · exact buffer_inj hext.1 hext.2 hproper.2.2.2 arg.extension_plain.zero_notMem
        (congrArg FileKey.ext hkey)
  · rintro ⟨rfl, rfl, rfl⟩
    rfl

/-- Where nothing is found, nothing is read or deleted. -/
theorem asks_fileIn_none (h : Asks (v.fileIn behind path name ext place) keys returns)
    (hno : ext = [] ∨ ∀ c, v.leads behind path place ≠ .ok (some c)) :
    keys = [] ∧ ((∃ r, v.leads behind path place = .ok r) → returns) := by
  rw [Volume.fileIn] at h
  by_cases hext : ext = []
  · rw [if_pos hext] at h
    obtain ⟨hkeys, hreturns⟩ := h.nothing rfl
    exact ⟨hkeys, fun _ => hreturns⟩
  · have hpath := hno.resolve_left hext
    rw [if_neg hext] at h
    cases hleads : v.leads behind path place with
    | error e =>
        rw [hleads] at h
        exact ⟨(h.fault _ rfl).1, by simp⟩
    | ok r =>
        cases r with
        | none =>
            rw [hleads] at h
            obtain ⟨hkeys, hreturns⟩ := h.nothing rfl
            exact ⟨hkeys, fun _ => hreturns⟩
        | some c => exact absurd hleads (hpath c)

/-- What `rm` and `cp` find respects the argument, in terms of the path, the name and the
extension that they take from the line. -/
theorem respected_fileIn_iff (h : Asks (v.fileIn behind path name ext place) keys returns)
    (hname : name.length ≤ 8 ∧ 0 ∉ name) (hext : ext.length ≤ 3 ∧ 0 ∉ ext)
    (hok : ∀ c, v.leads behind arg.folder place = .ok (some c) →
      ∃ r, v.leads behind path place = .ok r) :
    arg.Respected (v.leads behind arg.folder place) keys returns ↔
      (arg.Proper →
        (∀ c, v.leads behind arg.folder place = .ok (some c) →
          v.leads behind path place = .ok (some c) ∧ name = arg.name ∧ ext = arg.extension) ∧
        (v.leads behind arg.folder place = .ok none →
          ext = [] ∨ ∀ c, v.leads behind path place ≠ .ok (some c))) ∧
      (arg.Odd → ext = [] ∨ ∀ c, v.leads behind path place ≠ .ok (some c)) := by
  -- either nothing is named, or there is one key to compare
  by_cases hno : ext = [] ∨ ∀ c, v.leads behind path place ≠ .ok (some c)
  · obtain ⟨rfl, hreturns⟩ := asks_fileIn_none h hno
    constructor
    · intro hr
      refine ⟨fun hproper => ⟨fun c hc => ?_, fun _ => hno⟩, fun _ => hno⟩
      exact absurd (hr.proper hproper c hc).symm (List.cons_ne_nil _ _)
    · rintro ⟨hproper, -⟩
      refine ⟨fun hp c hc => ?_, fun _ _ => rfl, fun _ _ hk => absurd hk List.not_mem_nil,
        fun _ c hc => hreturns (hok c hc)⟩
      obtain ⟨hpath, -, heq⟩ := (hproper hp).1 c hc
      rcases hno with hno | hno
      · exact absurd (heq.symm.trans hno) hp.2.2.1
      · exact absurd hpath (hno c)
  -- the key that is sent
  · obtain ⟨hsome, hpath⟩ := not_or.mp hno
    obtain ⟨d, hd⟩ : ∃ d, v.leads behind path place = .ok (some d) := by
      by_contra hnone
      exact hpath fun c hc => hnone ⟨c, hc⟩
    have hkeys : keys = [⟨d, buffer 8 name, buffer 3 ext⟩] := by
      apply h.file
      rw [Volume.fileIn, if_neg hsome, hd]
      rfl
    rw [hkeys, or_iff_right hsome, hd]
    have hnever : ¬ ∀ c, (Except.ok (some d) : Except ShellFault _) ≠ .ok (some c) :=
      fun hno => hno d rfl
    -- it must be the file that is meant, and no file may be meant where none is
    constructor
    · intro hr
      refine ⟨fun hproper => ⟨fun c hc => ?_, fun hnone => ?_⟩, fun hodd => ?_⟩
      · obtain ⟨rfl, hn, he⟩ := (hproper.key_eq_iff hname hext).mp (hr.proper hproper c hc)
        exact ⟨rfl, hn, he⟩
      · exact absurd (hr.nowhere hproper hnone) (List.cons_ne_nil _ _)
      · exact absurd (hr.odd hodd _ List.mem_cons_self) (hodd.not_names hext.1 hext.2 hsome)
    · rintro ⟨hproper, hodd⟩
      refine ⟨fun hp c hc => ?_, fun hp hnone => ?_, fun ho => ?_, fun ho => ?_⟩
      · obtain ⟨hdc, hn, he⟩ := (hproper hp).1 c hc
        cases hdc
        exact (hp.key_eq_iff hname hext).mpr ⟨rfl, hn, he⟩
      · exact absurd ((hproper hp).2 hnone) hnever
      · exact absurd (hodd ho) hnever
      · exact absurd (hodd ho) hnever

/-! #### The ways in which a line is scanned -/

theorem copyExt_text (l : List Byte) : (copyExt l).length ≤ 3 ∧ 0 ∉ copyExt l := by
  refine ⟨?_, fun h => copyExt_ne_zero h rfl⟩
  exact le_trans (List.takeWhile_prefix _).length_le (List.length_take_le _ _)

theorem fileName_text {src : List Byte} (h0 : 0 ∉ src) :
    (fileName src).length ≤ 8 ∧ 0 ∉ fileName src :=
  ⟨List.length_take_le _ _, fun h => h0 (List.mem_of_mem_drop (List.mem_of_mem_take h))⟩

theorem FileArgument.extRead_text (arg : FileArgument) (tail : List Byte) :
    (arg.extRead tail).length ≤ 3 ∧ 0 ∉ arg.extRead tail := by
  unfold FileArgument.extRead
  cases hext : arg.ext with
  | none => exact copyExt_text _
  | some e => exact ⟨List.length_take_le _ _, ((arg.ext_text e hext).take 3).zero_notMem⟩

theorem FileArgument.take_name (arg : FileArgument) :
    (arg.name.take 8).length ≤ 8 ∧ 0 ∉ arg.name.take 8 :=
  ⟨List.length_take_le _ _, (arg.name_text.take 8).zero_notMem⟩

/-- A proper argument is read as it stands. -/
theorem FileArgument.Proper.read (h : arg.Proper) (tail : List Byte) :
    arg.name.take 8 = arg.name ∧ arg.extRead tail = arg.extension := by
  refine ⟨List.take_of_length_le h.2.1, ?_⟩
  obtain ⟨-, -, hsome, hshort⟩ := h
  unfold FileArgument.extRead FileArgument.extension at *
  cases hext : arg.ext with
  | none =>
      rw [hext] at hsome
      exact absurd rfl hsome
  | some e =>
      rw [hext] at hshort
      exact List.take_of_length_le hshort

theorem scan_here (hdir : arg.dir = none) (htail : tail = [] ∨ tail.head? = some space) :
    command.scan v behind (arg.text ++ tail) place =
      v.fileIn behind [] (arg.name.take 8) (arg.extRead tail) place := by
  have htext : arg.text ++ tail = arg.file ++ tail := by
    rw [FileArgument.text, FileArgument.dirPart, hdir]
    rfl
  have hname : slash ∉ arg.name := fun h => (arg.name_text _ h).2.2.1 rfl
  obtain ⟨hword, hext⟩ := copyWord_file arg htail
  rw [htext, FileCommand.scan, hword, hext, fileName, FileCommand.pathOf, directoryOf,
    nameStart_name hname]
  split_ifs
  · rfl
  · rfl

theorem scan_dir (hdir : arg.dir = some dir) (hstop : firstStop dir = none)
    (htail : tail = [] ∨ tail.head? = some space) :
    command.scan v behind (arg.text ++ tail) place =
      v.fileIn behind (command.pathOf (dir ++ slash :: arg.name)) (fileName (dir ++ slash :: arg.name))
        (arg.extRead tail) place := by
  have htext : arg.text ++ tail = dir ++ slash :: (arg.file ++ tail) := by
    rw [FileArgument.text, FileArgument.dirPart, hdir]
    simp
  obtain ⟨hword, hext⟩ := copyWord_file arg htail
  rw [htext, FileCommand.scan, copyWord_dir (arg.dir_text dir hdir) hstop]
  dsimp only
  rw [hword, hext]

theorem scan_stop (hdir : arg.dir = some dir) (hstop : firstStop dir = some (front, rest)) :
    command.scan v behind (arg.text ++ tail) place =
      v.fileIn behind (command.pathOf front) (fileName front)
        (copyExt (rest ++ slash :: (arg.file ++ tail))) place := by
  have htext : arg.text ++ tail = dir ++ slash :: (arg.file ++ tail) := by
    rw [FileArgument.text, FileArgument.dirPart, hdir]
    simp
  obtain ⟨stop, -, hword⟩ := copyWord_stop (arg.file ++ tail) (arg.dir_text dir hdir) hstop
  rw [htext, FileCommand.scan, hword]
  rfl

/-- The path that `rm` and `cp` walk for a directory. -/
theorem pathOf_dir (hdir : dir ≠ []) (hname : slash ∉ name) :
    command.pathOf (dir ++ slash :: name) = if command = .rm then dir else dir ++ [slash] := by
  rw [FileCommand.pathOf, directoryOf, nameStart_dir hdir hname, Nat.add_sub_cancel,
    List.take_left]
  congr 1
  exact List.take_length_add_append 1

theorem fileName_dir (hdir : dir ≠ []) (hname : slash ∉ name) :
    fileName (dir ++ slash :: name) = name.take 8 := by
  have hlen : dir.length + 1 = (dir ++ [slash]).length := by simp
  have hsplit : dir ++ slash :: name = dir ++ [slash] ++ name := by simp
  rw [fileName, nameStart_dir hdir hname, hlen, hsplit, List.drop_left]

/-- The path in a word is empty, or a slash follows it. -/
theorem pathTo_cases (src : List Byte) : src.take (nameStart src src.length - 1) = [] ∨
    ∃ more, src = src.take (nameStart src src.length - 1) ++ slash :: more := by
  obtain ⟨start, hstart⟩ : ∃ start, start = nameStart src src.length := ⟨_, rfl⟩
  rw [← hstart]
  by_cases hzero : start = 0
  · rw [hzero]
    exact .inl rfl
  · obtain ⟨-, hchar⟩ := nameStart_spec src src.length (by omega)
    rw [← hstart] at hchar
    have hlt : start - 1 < src.length := by
      by_contra hge
      rw [List.getD_eq_default _ _ (not_lt.mp hge)] at hchar
      exact absurd hchar (by decide)
    rw [List.getD_eq_getElem _ _ hlt] at hchar
    refine .inr ⟨src.drop (start - 1 + 1), ?_⟩
    rw [← hchar, List.getElem_cons_drop, List.take_append_drop]

/-- The walk to a directory in front of a stop is part of the walk to the directory. -/
theorem pathOf_ok {stop : Byte} {r : Option (BitVec 32)}
    (h : v.leads behind (front ++ stop :: rest) place = .ok r) :
    ∃ r', v.leads behind (command.pathOf front) place = .ok r' := by
  obtain ⟨path, hpath⟩ : ∃ path, path = front.take (nameStart front front.length - 1) := ⟨_, rfl⟩
  have hok : ∃ r', v.leads behind path place = .ok r' := by
    rcases pathTo_cases front with hnil | ⟨more, hsplit⟩
    · rw [hpath, hnil]
      exact ⟨_, leads_nil⟩
    · rw [← hpath] at hsplit
      rw [hsplit, List.append_assoc, List.cons_append] at h
      exact leads_front h
  rw [FileCommand.pathOf]
  split_ifs with hrm
  · rwa [← hpath]
  · rcases directoryOf_cases front with hdir | hdir
    · rwa [hdir, ← hpath]
    · rw [hdir, ← hpath]
      obtain ⟨r', hr'⟩ := hok
      exact leads_concat_ok hr'

/-! ### When the argument is respected -/

/-- `rm` and `cp` come to the directory `c` of an argument whose directory has no stops.
`cp` puts a slash behind it, and where there is one already it comes nowhere. -/
def FileCommand.Reaches (command : FileCommand) (v : Volume) (behind dir : List Byte)
    (place : Place) (c : BitVec 32) : Prop :=
  v.leads behind dir place = .ok (some c) ∧ (command = .cp → dir.getLast? ≠ some slash)

/-- What is read as an extension behind a stop in the directory: three characters, up to a
space. -/
def FileArgument.extBehind (arg : FileArgument) (rest tail : List Byte) : List Byte :=
  copyExt (rest ++ slash :: (arg.file ++ tail))

/-- When `rm` and `cp` respect an argument.

Without a directory they do, unless they take the extension of an odd argument from what
follows it.  With a directory without stops they do for a proper argument, if the directory
is not empty and they come to it; an odd argument must have no such extension either, or no
directory.  Where the directory has a stop, what is in front of it must be the file itself
by another path, and what is behind it the extension. -/
def FileCommand.Finds (command : FileCommand) (v : Volume) (behind : List Byte) (place : Place)
    (arg : FileArgument) (tail : List Byte) : Prop :=
  match arg.dir with
  | none => arg.Odd → arg.extRead tail = []
  | some dir =>
      match firstStop dir with
      | none =>
          (arg.Proper → dir ≠ [] ∧
            ∀ c, v.leads behind dir place = .ok (some c) → command.Reaches v behind dir place c) ∧
          (arg.Odd → arg.extRead tail = [] ∨
            dir ≠ [] ∧ ∀ c, ¬ command.Reaches v behind dir place c)
      | some (front, rest) =>
          (arg.Proper →
            (∀ c, v.leads behind dir place = .ok (some c) →
              v.leads behind (command.pathOf front) place = .ok (some c) ∧ fileName front = arg.name ∧
                arg.extBehind rest tail = arg.extension) ∧
            (v.leads behind dir place = .ok none → arg.extBehind rest tail = [] ∨
              ∀ c, v.leads behind (command.pathOf front) place ≠ .ok (some c))) ∧
          (arg.Odd → arg.extBehind rest tail = [] ∨
            ∀ c, v.leads behind (command.pathOf front) place ≠ .ok (some c))

/-- When a command respects an argument: `cat` where name and extension fit, in eleven
characters with the dot, or where there is no directory to look in. -/
def FileCommand.Meets (command : FileCommand) (v : Volume) (behind : List Byte) (place : Place)
    (arg : FileArgument) (tail : List Byte) : Prop :=
  match command with
  | .cat => (∀ c, v.leads behind arg.folder place ≠ .ok (some c)) ∨
      (arg.name.length ≤ 8 ∧ arg.extension.length ≤ 3 ∧
        ¬ (arg.name.length = 8 ∧ arg.extension.length = 3))
  | .rm => FileCommand.rm.Finds v behind place arg tail
  | .cp => FileCommand.cp.Finds v behind place arg tail

theorem reaches_iff (hcat : command ≠ .cat) (hdir : dir ≠ []) (hname : slash ∉ name) :
    v.leads behind (command.pathOf (dir ++ slash :: name)) place = .ok (some c) ↔
      command.Reaches v behind dir place c := by
  rw [pathOf_dir hdir hname, FileCommand.Reaches]
  cases command with
  | cat => exact absurd rfl hcat
  | rm => simp
  | cp =>
      rw [if_neg (by decide)]
      by_cases hlast : dir.getLast? = some slash
      · obtain ⟨path, rfl⟩ : ∃ path, dir = path ++ [slash] :=
          List.getLast?_eq_some_iff.mp hlast
        constructor
        · intro h
          rw [List.append_assoc] at h
          exact absurd h leads_two_slashes
        · rintro ⟨-, hno⟩
          exact absurd hlast (hno rfl)
      · rw [leads_concat_slash hdir hlast]
        simp [hlast]

theorem FileArgument.slash_notMem (arg : FileArgument) : slash ∉ arg.name :=
  fun h => (arg.name_text _ h).2.2.1 rfl

theorem respected_here_iff (hdir : arg.dir = none) (htail : tail = [] ∨ tail.head? = some space)
    (h : Asks (command.scan v behind (arg.text ++ tail) place) keys returns) :
    arg.Respected (v.leads behind arg.folder place) keys returns ↔
      (arg.Odd → arg.extRead tail = []) := by
  have hfolder : arg.folder = [] := by rw [FileArgument.folder, hdir]; rfl
  rw [scan_here hdir htail] at h
  rw [respected_fileIn_iff h arg.take_name (arg.extRead_text tail) fun _ _ => ⟨_, leads_nil⟩,
    hfolder]
  constructor
  · rintro ⟨-, hodd⟩ ho
    exact (hodd ho).resolve_right fun hno => hno _ leads_nil
  · intro hodd
    refine ⟨fun hproper => ⟨fun c hc => ⟨hc, hproper.read tail⟩, fun hnone => ?_⟩,
      fun ho => .inl (hodd ho)⟩
    exact absurd (hnone.symm.trans leads_nil) (by simp)

theorem respected_dir_iff (hcat : command ≠ .cat) (hdir : arg.dir = some dir)
    (hstop : firstStop dir = none) (htail : tail = [] ∨ tail.head? = some space)
    (h : Asks (command.scan v behind (arg.text ++ tail) place) keys returns) :
    arg.Respected (v.leads behind arg.folder place) keys returns ↔
      (arg.Proper → dir ≠ [] ∧
        ∀ c, v.leads behind dir place = .ok (some c) → command.Reaches v behind dir place c) ∧
      (arg.Odd → arg.extRead tail = [] ∨ dir ≠ [] ∧ ∀ c, ¬ command.Reaches v behind dir place c) := by
  have hfolder : arg.folder = dir := by rw [FileArgument.folder, hdir]; rfl
  rw [scan_dir hdir hstop htail] at h
  by_cases hempty : dir = []
  · subst hempty
    -- the slash in front is part of the name
    have hpath : command.pathOf ([] ++ slash :: arg.name) = [] := by
      rw [FileCommand.pathOf, directoryOf, List.nil_append, nameStart_slash arg.slash_notMem]
      exact ite_self _
    have hname : fileName ([] ++ slash :: arg.name) = slash :: arg.name.take 7 := by
      rw [fileName, List.nil_append, nameStart_slash arg.slash_notMem]
      rfl
    have hzero : 0 ∉ [] ++ slash :: arg.name := by
      intro hmem
      rcases List.mem_cons.mp hmem with hmem | hmem
      · exact absurd hmem (by decide)
      · exact arg.name_text.zero_notMem hmem
    -- so the name begins with a slash, and no file has such a name
    rw [hpath] at h
    rw [respected_fileIn_iff h (fileName_text hzero) (arg.extRead_text tail)
      fun _ _ => ⟨_, leads_nil⟩, hfolder]
    constructor
    · rintro ⟨hproper, hodd⟩
      refine ⟨fun hp => ?_, fun ho => .inl ?_⟩
      · have hsame := ((hproper hp).1 _ leads_nil).2.1
        rw [hname] at hsame
        exact absurd (hsame ▸ List.mem_cons_self) arg.slash_notMem
      · exact (hodd ho).resolve_right fun hno => hno _ leads_nil
    · rintro ⟨hproper, hodd⟩
      refine ⟨fun hp => absurd rfl (hproper hp).1, fun ho => .inl ?_⟩
      exact (hodd ho).resolve_right fun hno => hno.1 rfl
  · rw [fileName_dir hempty arg.slash_notMem] at h
    -- where the folder leads, the path that the command walks has an answer
    have hok : ∀ c, v.leads behind arg.folder place = .ok (some c) →
        ∃ r, v.leads behind (command.pathOf (dir ++ slash :: arg.name)) place = .ok r := by
      intro c hc
      rw [hfolder] at hc
      rw [pathOf_dir hempty arg.slash_notMem]
      split_ifs
      · exact ⟨_, hc⟩
      · exact leads_concat_ok hc
    rw [respected_fileIn_iff h arg.take_name (arg.extRead_text tail) hok, hfolder]
    -- what is left is which directory the path reaches
    simp only [ne_eq, reaches_iff hcat hempty arg.slash_notMem]
    constructor
    · rintro ⟨hproper, hodd⟩
      exact ⟨fun hp => ⟨hempty, fun c hc => ((hproper hp).1 c hc).1⟩,
        fun ho => (hodd ho).imp_right fun hno => ⟨hempty, hno⟩⟩
    · rintro ⟨hproper, hodd⟩
      refine ⟨fun hp => ⟨fun c hc => ⟨(hproper hp).2 c hc, hp.read tail⟩, fun hnone => ?_⟩,
        fun ho => (hodd ho).imp_right fun hno => hno.2⟩
      right
      rintro c ⟨hc, -⟩
      exact absurd (hc.symm.trans hnone) (by simp)

theorem respected_stop_iff (hdir : arg.dir = some dir)
    (hstop : firstStop dir = some (front, rest))
    (h : Asks (command.scan v behind (arg.text ++ tail) place) keys returns) :
    arg.Respected (v.leads behind arg.folder place) keys returns ↔
      (arg.Proper →
        (∀ c, v.leads behind dir place = .ok (some c) →
          v.leads behind (command.pathOf front) place = .ok (some c) ∧ fileName front = arg.name ∧
            arg.extBehind rest tail = arg.extension) ∧
        (v.leads behind dir place = .ok none → arg.extBehind rest tail = [] ∨
          ∀ c, v.leads behind (command.pathOf front) place ≠ .ok (some c))) ∧
      (arg.Odd → arg.extBehind rest tail = [] ∨
        ∀ c, v.leads behind (command.pathOf front) place ≠ .ok (some c)) := by
  have hfolder : arg.folder = dir := by rw [FileArgument.folder, hdir]; rfl
  have h0 := arg.dir_text dir hdir
  obtain ⟨stop, hsplit, -⟩ := copyWord_stop [] h0 hstop
  have hfront : 0 ∉ front := fun hmem => h0 (hsplit ▸ List.mem_append_left _ hmem)
  rw [scan_stop hdir hstop] at h
  rw [respected_fileIn_iff h (fileName_text hfront) (copyExt_text _) fun c hc => ?_, hfolder]
  · rfl
  · rw [hfolder, hsplit] at hc
    exact pathOf_ok hc

theorem respected_scan_iff (hcat : command ≠ .cat) (htail : tail = [] ∨ tail.head? = some space)
    (h : Asks (command.scan v behind (arg.text ++ tail) place) keys returns) :
    arg.Respected (v.leads behind arg.folder place) keys returns ↔
      command.Finds v behind place arg tail := by
  rw [FileCommand.Finds]
  cases hdir : arg.dir with
  | none => exact respected_here_iff hdir htail h
  | some dir =>
      cases hstop : firstStop dir with
      | none => 
          dsimp only
          rw [hstop]
          exact respected_dir_iff hcat hdir hstop htail h
      | some stop =>
          obtain ⟨front, rest⟩ := stop
          dsimp only
          rw [hstop]
          exact respected_stop_iff hdir hstop h

/-- **When a command acts on the file that its argument names.** -/
theorem file_command_respects_iff (command : FileCommand) (stale : StaleStack)
    (others : ShellCall → ShellWorld → Except ShellFault (ShellReply × ShellWorld))
    (hs : Tidy w.fs) (hplace : w.fs.volume.Directory place.workingDirectory)
    (hline : command.Given line arg tail) :
    ∃ l w', Exec (serve others) w l w' ∧
      ((∃ a, (command.run stale line place).Trace l a) ∨
        ∃ e, (command.run stale line place).Stops l e) ∧
      (arg.Respected (w.fs.volume.leads (command.behindPath stale) arg.folder place) (acted l)
          (∃ a, (command.run stale line place).Trace l a) ↔
        command.Meets w.fs.volume (command.behindPath stale) place arg tail) := by
  cases command with
  | cat =>
      obtain ⟨l, w', hexec, hend, hasks, hreturns⟩ := cat_asks others stale.pathBuffer line hs hplace
      rw [catSource_eq hline] at hasks hreturns
      exact ⟨l, w', hexec, hend, respected_fileAt_iff hasks hreturns⟩
  | rm =>
      obtain ⟨l, w', hexec, hend, hasks⟩ := rm_asks others stale.pathBuffer line hs hplace
      rw [removeTarget_eq hline] at hasks
      have htail := hline.tail_space.imp_right And.right
      exact ⟨l, w', hexec, hend, respected_scan_iff (by decide) htail hasks⟩
  | cp =>
      obtain ⟨l, w', hexec, hend, hasks⟩ := cp_asks others stale.copy line hs hplace
      rw [moveSource_eq hline] at hasks
      have htail := hline.tail_space.imp_right And.right
      exact ⟨l, w', hexec, hend, respected_scan_iff (by decide) htail hasks⟩

/-! ### Names to try it on -/

instance : Decidable (PlainChars name) := inferInstanceAs (Decidable (∀ c ∈ name, _))

/-- A name and an extension without a directory. -/
def fileArgument (name ext : List Byte) (hname : PlainChars name) (hext : PlainChars ext) :
    FileArgument where
  dir := none
  name := name
  ext := some ext
  dir_text := nofun
  name_text := hname
  ext_text _ he := Option.some.inj he ▸ hext
  undotted := nofun

/-- `b.t`. -/
def shortArgument : FileArgument := fileArgument [ascii 'b'] [ascii 't'] (by decide) (by decide)

/-- `longname.txt`. -/
def longArgument : FileArgument :=
  fileArgument (['l', 'o', 'n', 'g', 'n', 'a', 'm', 'e'].map ascii) (['t', 'x', 't'].map ascii)
    (by decide) (by decide)

def longLine : CommandLine :=
  lineOf ['c', 'a', 't', ' ', 'l', 'o', 'n', 'g', 'n', 'a', 'm', 'e', '.', 't', 'x', 't']

theorem catLine_given : FileCommand.cat.Given catLine shortArgument [] where
  reads := lineOf_reads (by decide)
  file_ne_nil := by decide
  tail_space := .inl rfl
  tail_text := nofun

theorem longLine_given : FileCommand.cat.Given longLine longArgument [] where
  reads := lineOf_reads (by decide)
  file_ne_nil := by decide
  tail_space := .inl rfl
  tail_text := nofun

theorem file_command_respects_short : ∃ l w', Exec (serve noProcesses) folderWorld l w' ∧
    ((∃ a, (FileCommand.cat.run cleanStack catLine folderPlace).Trace l a) ∨
      ∃ e, (FileCommand.cat.run cleanStack catLine folderPlace).Stops l e) ∧
    (shortArgument.Respected (folderWorld.fs.volume.leads [] shortArgument.folder folderPlace)
        (acted l) (∃ a, (FileCommand.cat.run cleanStack catLine folderPlace).Trace l a) ↔
      FileCommand.cat.Meets folderWorld.fs.volume [] folderPlace shortArgument []) := by
  apply file_command_respects_iff .cat cleanStack noProcesses _ _ catLine_given
  · rw [folderWorld_fs]
    exact oneFolder_tidy
  · rw [folderWorld_fs]
    exact hasTrail_folder.directory

/-- `cat longname.txt` reads the file `longname.tx`. -/
theorem cat_reads_another : Tidy folderWorld.fs ∧ longArgument.Proper ∧
    FileCommand.cat.Given longLine longArgument [] ∧
    folderWorld.fs.volume.leads [] longArgument.folder folderPlace = .ok (some 3) ∧
    ∃ l w', Exec (serve noProcesses) folderWorld l w' ∧
      (∃ a, (FileCommand.cat.run cleanStack longLine folderPlace).Trace l a) ∧
      acted l = [⟨3, buffer 8 longArgument.name, buffer 3 (['t', 'x'].map ascii)⟩] ∧
      acted l ≠ [longArgument.key 3] := by
  have htidy : Tidy folderWorld.fs := by
    rw [folderWorld_fs]
    exact oneFolder_tidy
  have hplace : folderWorld.fs.volume.Directory folderPlace.workingDirectory := by
    rw [folderWorld_fs]
    exact hasTrail_folder.directory
  obtain ⟨l, w', hexec, -, hasks, hreturns⟩ := cat_asks noProcesses [] longLine htidy hplace
  have hsource : folderWorld.fs.volume.catSource [] longLine folderPlace =
      .ok (some ⟨3, buffer 8 longArgument.name, buffer 3 (['t', 'x'].map ascii)⟩) := by
    rw [catSource_eq longLine_given]
    rfl
  have hkeys := hasks.file _ hsource
  refine ⟨htidy, ⟨by decide, by decide, by decide, by decide⟩, longLine_given, rfl, l, w', hexec,
    hreturns _ hsource, hkeys, ?_⟩
  rw [hkeys]
  decide

end Binbows
