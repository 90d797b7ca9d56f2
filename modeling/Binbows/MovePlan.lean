/-
Binbows/MovePlan.lean

What `mv` is about to do.

`mv` runs `cp` and then `rm` on the same line.  Where the paths of the line lead is
settled by the folders of the volume: `Volume.moveSource` is the file that `cp` reads,
and `Volume.moveTarget` the one that it writes.  `rm` has a parser of its own; where
`cp` finds a file, it finds the same directory, name and extension
(`parseRemove_of_parseCopy`, `resolve_slash`), so that it deletes what `cp` has read, or
nothing where the bytes behind its `path_buffer` stop the walk (`removeTarget_of_source`).

A move goes through phases (`MovePhase`), and `MoveCall` says which calls it makes in
each: it reads its source, writes its target, deletes its source if `rm` finds it, and says
so at the end.  Main result: `mv_follows`, whatever the file system does in between that leaves
the folders as they are.
-/
import Binbows.PathResolution
import Binbows.PathTexts

namespace Binbows

open Chain SlotTree Bytes Volume Run Calls
open Terminal (chars text)

variable {v : Volume} {d c : BitVec 32} {name : EntryName} {line : CommandLine}
  {place moved : Place} {stack : CopyStack} {args : CopyArgs} {buf src behind text : List Byte}
  {i j : Fin directoryEntryCount}
  {t : FAT32DirectoryTable}

/-! ### The two parsers -/

/-- A name that does not start at the front stands behind a slash. -/
theorem nameStart_spec (src : List Byte) (j : Nat) (h : 0 < nameStart src j) :
    nameStart src j ≤ j + 1 ∧ src.getD (nameStart src j - 1) 0 = slash := by
  induction j with
  | zero => exact absurd h (lt_irrefl 0)
  | succ j ih =>
      rw [nameStart] at h ⊢
      split_ifs at h ⊢ with hslash
      · exact ⟨le_rfl, hslash⟩
      · obtain ⟨hle, hchar⟩ := ih h
        exact ⟨le_trans hle (Nat.le_succ _), hchar⟩

/-- The directory of a path that `cp` takes is the one that `rm` takes, with the slash
behind it if there is a directory. -/
theorem directoryOf_cases (src : List Byte) :
    directoryOf src = src.take (nameStart src src.length - 1) ∨
      directoryOf src = src.take (nameStart src src.length - 1) ++ [slash] := by
  unfold directoryOf
  by_cases hzero : nameStart src src.length = 0
  · rw [hzero]
    exact .inl rfl
  · obtain ⟨-, hchar⟩ := nameStart_spec src src.length (Nat.pos_of_ne_zero hzero)
    generalize hstart : nameStart src src.length = start at hzero hchar ⊢
    have hlt : start - 1 < src.length := by
      by_contra hge
      rw [List.getD_eq_default _ _ (not_lt.mp hge)] at hchar
      exact absurd hchar (by decide)
    rw [List.getD_eq_getElem _ _ hlt] at hchar
    right
    rw [← hchar, List.take_concat_get' _ _ hlt]
    congr 1
    omega

theorem copyExt_ne_zero {l : List Byte} {c : Byte} (h : c ∈ copyExt l) : c ≠ 0 := by
  have hc := List.mem_takeWhile_imp h
  rw [decide_eq_true_eq] at hc
  exact hc.2

/-- An extension that was given is not zero. -/
theorem buffer_copyExt_ne_zero {l : List Byte} (h : copyExt l ≠ []) : buffer 3 (copyExt l) ≠ 0 := by
  intro hzero
  obtain ⟨c, rest, hl⟩ := List.exists_cons_of_ne_nil h
  have hc : c ≠ 0 := copyExt_ne_zero (l := l) (by rw [hl]; exact List.mem_cons_self)
  have hfirst := congrFun hzero 0
  rw [hl] at hfirst
  exact hc hfirst

/-- What `cp` finds in a line. -/
theorem parseCopy_eq_some (h : parseCopy buf = .ok (some args)) :
    (copyWord buf).1.length + 1 < maxCmdLength ∧ copyExt ((copyWord buf).2.drop 1) ≠ [] ∧
      args.src = directoryOf (copyWord buf).1 ∧
      args.srcName = buffer 8 (fileName (copyWord buf).1) ∧
      args.srcExt = buffer 3 (copyExt ((copyWord buf).2.drop 1)) := by
  unfold parseCopy at h
  dsimp only at h
  split_ifs at h with hlong hext hlong'
  · cases h
  · cases h
    exact ⟨not_le.mp hlong, hext, rfl, rfl, rfl⟩

/-- **`rm` finds the source of `cp`**, with or without the slash behind its directory. -/
theorem parseRemove_of_parseCopy (h : parseCopy buf = .ok (some args)) :
    ∃ path, parseRemove buf = .ok (some (path, args.srcName, args.srcExt)) ∧
      (args.src = path ∨ args.src = path ++ [slash]) := by
  obtain ⟨hlong, hext, hsrc, hname, hx⟩ := parseCopy_eq_some h
  refine ⟨(copyWord buf).1.take (nameStart (copyWord buf).1 (copyWord buf).1.length - 1), ?_, ?_⟩
  · rw [parseRemove]
    dsimp only
    rw [if_neg (not_le.mpr hlong), if_neg hext, hname, hx]
  · rw [hsrc]
    exact directoryOf_cases _

theorem srcExt_ne_zero (h : parseCopy buf = .ok (some args)) : args.srcExt ≠ 0 := by
  obtain ⟨-, hext, -, -, hx⟩ := parseCopy_eq_some h
  rw [hx]
  exact buffer_copyExt_ne_zero hext

/-- What `rm` finds in a line. -/
theorem parseRemove_eq_some {path : List Byte} {ext : EntryExt}
    (h : parseRemove buf = .ok (some (path, name, ext))) : ext ≠ 0 := by
  unfold parseRemove at h
  dsimp only at h
  split_ifs at h with hlong hext
  · cases h
  · cases h
    exact buffer_copyExt_ne_zero hext

/-! ### The plan -/

/-- What `cp` finds in a line of `mv`; `none` where it returns 6, and where `mv` does
not call it. -/
def CommandLine.moveArgs (line : CommandLine) : Except ShellFault (Option CopyArgs) :=
  if line.NoArguments 2 then .ok none else line.arguments 3 >>= parseCopy

/-- The file that `cp` reads. -/
def Volume.copySource (v : Volume) (stack : CopyStack) (args : CopyArgs) (place : Place) :
    Except ShellFault (Option FileKey) := do
  let (ret, moved) ← v.resolve stack.src args.src place
  return if ret = 0 then some ⟨moved.workingDirectory, args.srcName, args.srcExt⟩ else none

/-- The file that `cp` writes, in the directory where the path of the destination leads.
A destination without an extension is a folder there, and the file keeps its name. -/
def Volume.copyTarget (v : Volume) (stack : CopyStack) (args : CopyArgs) (place : Place) :
    Except ShellFault (Option FileKey) := do
  let (ret, moved) ← v.resolve stack.dest args.dest place
  if ret ≠ 0 then return none
  else if args.destExt = [] then
    return (v.folderNamed moved.workingDirectory (copyFolderName moved.currentPath)).bind fun c =>
      ((v.table c).folderSlot (pathString stack.destName args.destName)).map fun i =>
        ⟨(v.table c i).cluster, args.srcName, args.srcExt⟩
  else return some ⟨moved.workingDirectory, args.destName, buffer 3 args.destExt⟩

def Volume.moveSource (v : Volume) (stack : CopyStack) (line : CommandLine) (place : Place) :
    Except ShellFault (Option FileKey) := do
  let args ← line.moveArgs
  match args with
  | none => return none
  | some args => v.copySource stack args place

def Volume.moveTarget (v : Volume) (stack : CopyStack) (line : CommandLine) (place : Place) :
    Except ShellFault (Option FileKey) := do
  let args ← line.moveArgs
  match args with
  | none => return none
  | some args => v.copyTarget stack args place

/-- What `rm` finds in its line; `none` where it returns 6 or is not called. -/
def CommandLine.removeArgs (line : CommandLine) :
    Except ShellFault (Option (List Byte × EntryName × EntryExt)) :=
  if line.NoArguments 2 then .ok none else line.arguments 3 >>= parseRemove

/-- The file that `rm` deletes. -/
def Volume.removeTarget (v : Volume) (behind : List Byte) (line : CommandLine) (place : Place) :
    Except ShellFault (Option FileKey) := do
  let args ← line.removeArgs
  match args with
  | none => return none
  | some (path, name, ext) => do
      let (ret, moved) ← v.resolve behind path place
      return if ret = 0 then some ⟨moved.workingDirectory, name, ext⟩ else none

/-- A key below a directory, with an extension. -/
structure FileKey.Below (k : FileKey) (v : Volume) : Prop where
  directory : v.Directory k.dir
  ext : k.ext ≠ 0

/-- The folders of a directory have different texts for names. -/
def Volume.UniqueFolderTexts (v : Volume) : Prop :=
  ∀ ⦃d i j⦄, v.Directory d → v.SubdirEntry d i → v.SubdirEntry d j →
    string (v.table d i).name = string (v.table d j).name → i = j

variable {k : FileKey}

theorem moveArgs_eq_some (h : line.moveArgs = .ok (some args)) :
    ¬ line.NoArguments 2 ∧ ∃ buf, line.arguments 3 = .ok buf ∧ parseCopy buf = .ok (some args) := by
  unfold CommandLine.moveArgs at h
  split_ifs at h with hno
  · cases h
  · exact ⟨hno, bind_eq_ok.mp h⟩

theorem copySource_below (h : v.Intact) (hplace : v.Directory place.workingDirectory)
    (hargs : parseCopy buf = .ok (some args)) (hk : v.copySource stack args place = .ok (some k)) :
    k.Below v := by
  obtain ⟨⟨ret, moved⟩, hresolve, hend⟩ := bind_eq_ok.mp hk
  dsimp only at hend
  split_ifs at hend with hret
  · cases hend
    rw [hret] at hresolve
    exact ⟨resolve_directory h hplace hresolve, srcExt_ne_zero hargs⟩
  · cases hend

theorem destExt_ne_zero (hargs : parseCopy buf = .ok (some args)) (hext : args.destExt ≠ []) :
    buffer 3 args.destExt ≠ 0 := by
  unfold parseCopy at hargs
  dsimp only at hargs
  split_ifs at hargs
  · cases hargs
  · cases hargs
    exact buffer_copyExt_ne_zero hext

theorem copyTarget_below (h : v.Intact) (hplace : v.Directory place.workingDirectory)
    (hargs : parseCopy buf = .ok (some args)) (hk : v.copyTarget stack args place = .ok (some k)) :
    k.Below v := by
  obtain ⟨⟨ret, moved⟩, hresolve, hend⟩ := bind_eq_ok.mp hk
  dsimp only at hend
  split_ifs at hend with hret hext
  · cases hend
  · obtain ⟨c, hc, hslot⟩ := Option.bind_eq_some_iff.mp (Except.ok.inj hend)
    obtain ⟨i, hi, rfl⟩ := Option.map_eq_some_iff.mp hslot
    obtain ⟨htwo, hfolder, -⟩ := folderSlot_eq_some hi
    rw [not_not.mp hret] at hresolve
    have hd := folderNamed_directory h (resolve_directory h hplace hresolve) hc
    refine ⟨?_, srcExt_ne_zero hargs⟩
    exact .child hd (child_eq_some_iff.mpr ⟨⟨htwo, hfolder.1, hfolder.2⟩, rfl⟩)
  · cases hend
    rw [not_not.mp hret] at hresolve
    exact ⟨resolve_directory h hplace hresolve, destExt_ne_zero hargs hext⟩

theorem moveSource_below (h : v.Intact) (hplace : v.Directory place.workingDirectory)
    (hk : v.moveSource stack line place = .ok (some k)) : k.Below v := by
  obtain ⟨args, hargs, hk⟩ := bind_eq_ok.mp hk
  cases args with
  | none => cases hk
  | some args =>
      obtain ⟨-, buf, -, hparse⟩ := moveArgs_eq_some hargs
      exact copySource_below h hplace hparse hk

theorem moveTarget_below (h : v.Intact) (hplace : v.Directory place.workingDirectory)
    (hk : v.moveTarget stack line place = .ok (some k)) : k.Below v := by
  obtain ⟨args, hargs, hk⟩ := bind_eq_ok.mp hk
  cases args with
  | none => cases hk
  | some args =>
      obtain ⟨-, buf, -, hparse⟩ := moveArgs_eq_some hargs
      exact copyTarget_below h hplace hparse hk

/-! ### The calls of a move -/

/-- How far a move is. -/
inductive MovePhase
  | start
  /-- `cp` could not read the source -/
  | unreadable
  /-- `cp` has the source in its buffer -/
  | loaded (mem : Memory)
  /-- the write failed -/
  | refused
  | copied (mem : Memory)
  | moved

def readRequest (k : FileKey) : FsCall :=
  ⟨.read, ⟨stackBuffer, k.name, k.ext, k.dir, fileBufferSize⟩, zeroMemory⟩

def writeRequest (k : FileKey) (mem : Memory) : FsCall :=
  ⟨.write, ⟨stackBuffer, k.name, k.ext, k.dir, fileBufferSize⟩, mem⟩

def deleteRequest (k : FileKey) : FsCall :=
  ⟨.delete, ⟨0, k.name, k.ext, k.dir, 0⟩, zeroMemory⟩

/-- The calls of a move in a phase. -/
inductive MoveCall (v : Volume) (stack : CopyStack) (behind : List Byte) (line : CommandLine)
    (place : Place) : MovePhase → ShellCall → Prop
  | look {g : MovePhase} {d : BitVec 32} : v.Directory d → (name : EntryName) →
      MoveCall v stack behind line place g (.fs (tableRequest name d))
  | read {k : FileKey} : v.moveSource stack line place = .ok (some k) →
      MoveCall v stack behind line place .start (.fs (readRequest k))
  | write {k : FileKey} {mem : Memory} : v.moveTarget stack line place = .ok (some k) →
      MoveCall v stack behind line place (.loaded mem) (.fs (writeRequest k mem))
  | delete {k : FileKey} {mem : Memory} : v.moveSource stack line place = .ok (some k) →
      v.removeTarget behind line place = .ok (some k) →
      MoveCall v stack behind line place (.copied mem) (.fs (deleteRequest k))
  | say {g : MovePhase} {call : TextCall} : call ≠ moveSuccess →
      MoveCall v stack behind line place g (.text call)
  | success : MoveCall v stack behind line place .moved (.text moveSuccess)
  /-- `mv` does not look at what `rm` returns -/
  | kept {mem : Memory} : v.removeTarget behind line place = .ok none →
      MoveCall v stack behind line place (.copied mem) (.text moveSuccess)

/-- The phase behind a call. -/
def MovePhase.next : MovePhase → ShellCall → ShellReply → MovePhase
  | .start, .fs ⟨.read, _, _⟩, reply =>
      if reply.retcode = 0 then .loaded reply.mem else .unreadable
  | .loaded mem, .fs ⟨.write, _, _⟩, reply => if reply.retcode = 0 then .copied mem else .refused
  | .copied _, .fs ⟨.delete, _, _⟩, _ => .moved
  | g, _, _ => g

/-- A move counts on the folders of the volume alone. -/
def moveProtocol (v : Volume) (stack : CopyStack) (behind : List Byte) (line : CommandLine)
    (place : Place) : Protocol ShellCall ShellReply MovePhase where
  good := MoveCall v stack behind line place
  valid call reply := ∀ name d, v.Directory d → call = .fs (tableRequest name d) →
    ShowsFolder v d name reply
  next := MovePhase.next

variable {g : MovePhase} {mem : Memory} {reply : ShellReply}

@[simp] theorem next_look : g.next (.fs (tableRequest name d)) reply = g := by
  cases g <;> rfl

@[simp] theorem next_text {call : TextCall} : g.next (.text call) reply = g := by
  cases g <;> rfl

@[simp] theorem next_read : MovePhase.start.next (.fs (readRequest k)) reply =
    if reply.retcode = 0 then .loaded reply.mem else .unreadable := rfl

@[simp] theorem next_write : (MovePhase.loaded mem).next (.fs (writeRequest k mem)) reply =
    if reply.retcode = 0 then .copied mem else .refused := rfl

theorem valid_look (h : ShowsFolder v d name reply) :
    (moveProtocol v stack behind line place).valid (.fs (tableRequest name d)) reply := by
  intro name' d' _ heq
  have hcall := ShellCall.fs.inj heq
  have hname : name = name' := congrArg (fun call => call.request.name) hcall
  have hdir : d = d' := congrArg (fun call => call.request.parentClusterNumber) hcall
  rwa [← hname, ← hdir]

/-- Only the answer to a look says anything about the folders. -/
theorem valid_of_op {call : FsCall} (hop : call.op ≠ .readDirectory) :
    (moveProtocol v stack behind line place).valid (.fs call) reply := by
  intro name d _ heq
  exact absurd (congrArg FsCall.op (ShellCall.fs.inj heq)) hop

theorem valid_text {call : TextCall} :
    (moveProtocol v stack behind line place).valid (.text call) reply :=
  nofun

theorem moveProtocol_looks : Looks (moveProtocol v stack behind line place) v g where
  good hd name := .look hd name
  valid hd hvalid := hvalid _ _ hd rfl
  next := next_look

/-! ### How a move ends -/

/-- The phases that a move ends in: where it does not know its source or its target, it
has done nothing, and where `rm` does not find the source, that stays. -/
def MoveEnds (v : Volume) (stack : CopyStack) (behind : List Byte) (line : CommandLine)
    (place : Place) : MovePhase → Prop
  | .start => v.moveSource stack line place = .ok none
  | .loaded _ => v.moveTarget stack line place = .ok none
  | .copied _ => v.removeTarget behind line place = .ok none
  | _ => True

/-- The faults of a move: it finds its source or its target by an array that is too
short. -/
def MoveFaults (v : Volume) (stack : CopyStack) (line : CommandLine) (place : Place) :
    MovePhase → ShellFault → Prop
  | .start, e => v.moveSource stack line place = .error e
  | .loaded _, e => v.moveTarget stack line place = .error e
  | _, _ => False

/-- What `cp` returns in a phase: 0 after it made the copy. -/
def CopyEnds (v : Volume) (stack : CopyStack) (behind : List Byte) (line : CommandLine)
    (place : Place) (g : MovePhase) (code : Nat) : Prop :=
  (code = 0 ∧ (∃ mem, g = .copied mem) ∧ ∃ k, v.moveSource stack line place = .ok (some k)) ∨
    (code ≠ 0 ∧ MoveEnds v stack behind line place g)

/-! ### The program follows the protocol -/

section

variable {E : MovePhase → ShellFault → Prop}

theorem tell_follows {call : TextCall} {Q : MovePhase → Unit → Prop}
    (hcall : MoveCall v stack behind line place g (.text call)) (hq : Q g ()) :
    (tell (.text call)).Follows (moveProtocol v stack behind line place) E g Q := by
  refine Program.Follows.bind (Q := fun g' _ => g' = g) ?_ ?_
  · apply Program.follows_ask hcall
    intro reply _
    exact next_text
  · rintro _ _ rfl
    exact Program.follows_pure hq

/-- A message that is not green is no success. -/
theorem say_follows {message : List Char} {count color : Byte} {Q : MovePhase → Unit → Prop}
    (hcolor : color ≠ 0xA) (hq : Q g ()) :
    (say message count color).Follows (moveProtocol v stack behind line place) E g Q := by
  refine tell_follows (.say ?_) hq
  intro heq
  injection heq with _ _ hgreen
  exact hcolor hgreen

theorem sayCopyFailed_follows {code : Nat} {Q : MovePhase → Unit → Prop} (hq : Q g ()) :
    (sayCopyFailed code).Follows (moveProtocol v stack behind line place) E g Q := by
  unfold sayCopyFailed
  split
  all_goals first | exact say_follows (by decide) hq | exact Program.follows_pure hq

/-! #### Into a folder -/

variable {call : FsCall} {ns rest : List (Fin directoryEntryCount)} {found : Bool}

/-- The loop runs over the slots that hold no folder of the name. -/
theorem copyInto_skip
    (hns : ∀ n ∈ ns, ¬ ((t n).Occupied ∧ strcmp text (string (t n).name) = 1 ∧ (t n).IsSubdirectory)) :
    copyInto call text t (ns ++ rest) found = copyInto call text t rest found := by
  induction ns with
  | nil => rfl
  | cons n ns ih =>
      rw [List.cons_append, copyInto, if_neg (hns n List.mem_cons_self)]
      exact ih fun m hm => hns m (List.mem_cons_of_mem _ hm)

theorem folderSlot_eq_find? : t.folderSlot text = childSlots.find? fun n =>
    (t n).Occupied ∧ strcmp text (string (t n).name) = 1 ∧ (t n).IsSubdirectory := by
  unfold FAT32DirectoryTable.folderSlot childSlots
  rw [List.find?_filter]
  congr 1
  funext i
  rw [decide_eq_decide, decide_eq_true_eq, decide_eq_true_eq]
  tauto

/-- A directory has at most one folder of a name, and the loop comes to it once. -/
theorem childSlots_split (hu : v.UniqueFolderTexts) (hd : v.Directory c)
    (hslot : (v.table c).folderSlot text = some i) :
    ∃ front back, childSlots = front ++ i :: back ∧ ∀ n, n ∈ front ∨ n ∈ back →
      ¬ ((v.table c n).Occupied ∧ strcmp text (string (v.table c n).name) = 1 ∧
        (v.table c n).IsSubdirectory) := by
  obtain ⟨hi, hfolder, hname⟩ := folderSlot_eq_some hslot
  rw [folderSlot_eq_find?] at hslot
  obtain ⟨-, front, back, hsplit, -⟩ := List.find?_eq_some_iff_append.mp hslot
  have hnodup : (front ++ i :: back).Nodup := by
    rw [← hsplit]
    exact List.Nodup.filter _ (List.nodup_finRange _)
  refine ⟨front, back, hsplit, fun n hn ⟨hocc, hsame, hsub⟩ => ?_⟩
  have hmem : n ∈ childSlots := by
    rw [hsplit, List.mem_append, List.mem_cons]
    tauto
  have htwo : 2 ≤ n.val := by simpa [childSlots] using hmem
  obtain rfl : n = i := by
    apply hu hd ⟨htwo, hocc, hsub⟩ ⟨hi, hfolder.1, hfolder.2⟩
    rw [← strcmp_eq_one_iff.mp hsame, hname]
  -- the slot would be in the list twice
  rw [List.nodup_append, List.nodup_cons] at hnodup
  rcases hn with hn | hn
  · exact hnodup.2.2 n hn n List.mem_cons_self rfl
  · exact hnodup.2.1.1 hn

theorem copyInto_follows (request : FAT32DriverRequest)
    (hread : v.moveSource stack line place = .ok (some k)) (hu : v.UniqueFolderTexts)
    (hd : v.Directory c) (ht : SameFolderTable (v.table c) t)
    (hrequest : request.buf = stackBuffer ∧ request.bufferSize = fileBufferSize)
    (htarget : v.moveTarget stack line place = .ok (((v.table c).folderSlot text).map fun i =>
      ⟨(v.table c i).cluster, request.name, request.ext⟩)) :
    (copyInto ⟨.write, request, mem⟩ text t childSlots false).Follows
      (moveProtocol v stack behind line place) E
      (.loaded mem) (CopyEnds v stack behind line place) := by
  -- the slots of the table in memory match as those of the volume do
  have hmatch : ∀ n, ((t n).Occupied ∧ strcmp text (string (t n).name) = 1 ∧ (t n).IsSubdirectory) →
      t n = v.table c n := fun n hn => ht n (.inr ⟨hn.1, hn.2.2⟩)
  cases hslot : (v.table c).folderSlot text with
  | none =>
      have hnone : ∀ n ∈ childSlots,
          ¬ ((t n).Occupied ∧ strcmp text (string (t n).name) = 1 ∧ (t n).IsSubdirectory) := by
        rw [← folderSlot_congr ht, folderSlot_eq_find?, List.find?_eq_none] at hslot
        intro n hn
        simpa using hslot n hn
      rw [← List.append_nil childSlots, copyInto_skip hnone]
      rw [hslot] at htarget
      exact Program.follows_pure (.inr ⟨by simp, htarget⟩)
  | some i =>
      obtain ⟨front, back, hsplit, hother⟩ := childSlots_split hu hd hslot
      -- the loop writes at the one slot that matches, and skips all others
      obtain ⟨-, hfolder, hname⟩ := folderSlot_eq_some hslot
      have hi : t i = v.table c i := ht i (.inl hfolder)
      have hskip : ∀ n, n ∈ front ∨ n ∈ back →
          ¬ ((t n).Occupied ∧ strcmp text (string (t n).name) = 1 ∧ (t n).IsSubdirectory) := by
        intro n hn hm
        have hno := hother n hn
        rw [← hmatch n hm] at hno
        exact hno hm
      rw [hsplit, copyInto_skip fun n hn => hskip n (.inl hn), copyInto, hi,
        if_pos ⟨hfolder.1, strcmp_eq_one_iff.mpr hname, hfolder.2⟩]
      rw [hslot] at htarget
      have hwrite : (⟨.write, { request with parentClusterNumber := (v.table c i).cluster }, mem⟩ :
          FsCall) = writeRequest ⟨(v.table c i).cluster, request.name, request.ext⟩ mem := by
        rw [writeRequest, ← hrequest.1, ← hrequest.2]
      rw [hwrite]
      -- one write is sent, and its code decides how the loop ends
      refine Program.Follows.bind (Program.follows_ask (.write htarget)
        (Q := fun g reply => g = if reply.retcode = 0 then .copied mem else .refused) ?_) ?_
      · exact fun reply _ => rfl
      · rintro _ reply rfl
        by_cases hret : reply.retcode = 0
        · rw [if_pos hret, if_neg (not_not.mpr hret), ← List.append_nil back,
            copyInto_skip fun n hn => hskip n (.inr hn)]
          exact Program.follows_pure (.inl ⟨rfl, ⟨mem, rfl⟩, k, hread⟩)
        · rw [if_neg hret, if_pos hret]
          exact Program.follows_pure (.inr ⟨by simp, trivial⟩)

/-! #### cp -/

theorem copyTarget_folder (hresolve : v.resolve stack.dest args.dest place = .ok (0, moved))
    (hext : args.destExt = []) : v.copyTarget stack args place =
      .ok ((v.folderNamed moved.workingDirectory (copyFolderName moved.currentPath)).bind fun c =>
        ((v.table c).folderSlot (pathString stack.destName args.destName)).map fun i =>
          ⟨(v.table c i).cluster, args.srcName, args.srcExt⟩) := by
  rw [Volume.copyTarget, hresolve]
  show (if args.destExt = [] then _ else _) = _
  rw [if_pos hext]
  rfl

theorem copyTarget_file (hresolve : v.resolve stack.dest args.dest place = .ok (0, moved))
    (hext : args.destExt ≠ []) : v.copyTarget stack args place =
      .ok (some ⟨moved.workingDirectory, args.destName, buffer 3 args.destExt⟩) := by
  rw [Volume.copyTarget, hresolve]
  show (if args.destExt = [] then _ else _) = _
  rw [if_neg hext]
  rfl

theorem copyWrite_follows {p : BitVec 32} (h : v.Intact) (hu : v.UniqueFolderTexts)
    (hread : v.moveSource stack line place = .ok (some k))
    (hmoved : v.Directory moved.workingDirectory)
    (hresolve : v.resolve stack.dest args.dest place = .ok (0, moved))
    (htarget : v.moveTarget stack line place = v.copyTarget stack args place) :
    (copyWrite stack args ⟨stackBuffer, args.srcName, args.srcExt, p, fileBufferSize⟩ mem moved).Follows
      (moveProtocol v stack behind line place) E (.loaded mem)
      (CopyEnds v stack behind line place) := by
  unfold copyWrite
  by_cases hext : args.destExt = []
  · rw [copyTarget_folder hresolve hext] at htarget
    rw [if_pos hext]
    refine Program.Follows.bind (moveProtocol_looks.ask_follows hmoved) ?_
    rintro _ reply ⟨rfl, ⟨hret, hnone⟩ | ⟨hret, c, hc, htable⟩⟩
    · rw [hnone] at htarget
      rw [if_pos hret]
      exact Program.follows_pure (.inr ⟨by simp, htarget⟩)
    · rw [hc] at htarget
      rw [if_neg (not_not.mpr hret)]
      exact copyInto_follows _ hread hu (folderNamed_directory h hmoved hc) htable ⟨rfl, rfl⟩ htarget
  · rw [copyTarget_file hresolve hext] at htarget
    rw [if_neg hext]
    refine Program.Follows.bind (Program.follows_ask (.write htarget)
      (Q := fun g reply => g = if reply.retcode = 0 then .copied mem else .refused)
        fun reply _ => rfl) ?_
    rintro _ reply rfl
    by_cases hret : reply.retcode = 0
    · rw [if_pos hret, if_neg (not_not.mpr hret)]
      exact Program.follows_pure (.inl ⟨rfl, ⟨mem, rfl⟩, k, hread⟩)
    · rw [if_neg hret, if_pos hret]
      exact Program.follows_pure (.inr ⟨by simp, trivial⟩)

/-- The read of the source, and what comes behind it. -/
theorem copySource_follows (h : v.Intact) (hu : v.UniqueFolderTexts)
    (hplace : v.Directory place.workingDirectory)
    (hresolve : v.resolve stack.src args.src place = .ok (0, moved))
    (hsource : v.moveSource stack line place = v.copySource stack args place)
    (htarget : v.moveTarget stack line place = v.copyTarget stack args place) :
    (do
      let reply ← Program.ask (.fs ⟨.read,
        ⟨stackBuffer, args.srcName, args.srcExt, moved.workingDirectory, fileBufferSize⟩, zeroMemory⟩)
      if reply.retcode ≠ 0 then pure (2, place)
      else
        let (ret, dest) ← multipleCd stack.dest args.dest place
        if ret ≠ 0 then pure (4, place)
        else
          let code ← copyWrite stack args
            ⟨stackBuffer, args.srcName, args.srcExt, moved.workingDirectory,
              fileBufferSize⟩ reply.mem dest
          pure (code, place) : ShellProgram (Nat × Place)).Follows
      (moveProtocol v stack behind line place) (MoveFaults v stack line place) .start
      fun g r => r.2 = place ∧ CopyEnds v stack behind line place g r.1 := by
  -- what is read is the source
  have hread : v.moveSource stack line place =
      .ok (some ⟨moved.workingDirectory, args.srcName, args.srcExt⟩) := by
    rw [hsource, Volume.copySource, hresolve]
    rfl
  refine Program.Follows.bind (Program.follows_ask (.read hread)
    (Q := fun g reply => g = if reply.retcode = 0 then .loaded reply.mem else .unreadable)
      fun reply _ => rfl) ?_
  rintro _ reply rfl
  -- it was read, so the destination is looked up
  by_cases hret : reply.retcode = 0
  · rw [if_pos hret, if_neg (not_not.mpr hret)]
    refine Program.Follows.bind (multipleCd_follows h moveProtocol_looks hplace fun e he => ?_) ?_
    · show v.moveTarget stack line place = .error e
      rw [htarget, Volume.copyTarget, he]
      rfl
    · rintro _ ⟨ret, dest⟩ ⟨rfl, hdest⟩
      dsimp only
      by_cases hret' : ret = 0
      · subst hret'
        rw [if_neg (not_not.mpr rfl)]
        refine Program.Follows.bind (copyWrite_follows h hu hread
          (resolve_directory h hplace hdest) hdest htarget) ?_
        exact fun g code hcode => Program.follows_pure ⟨rfl, hcode⟩
      · rw [if_pos hret']
        refine Program.follows_pure ⟨rfl, .inr ⟨by simp, ?_⟩⟩
        show v.moveTarget stack line place = .ok none
        rw [htarget, Volume.copyTarget, hdest]
        show (if ret ≠ 0 then _ else _) = _
        rw [if_pos hret']
        rfl
  · rw [if_neg hret, if_pos hret]
    exact Program.follows_pure ⟨rfl, .inr ⟨by simp, trivial⟩⟩

theorem cp_follows (h : v.Intact) (hu : v.UniqueFolderTexts)
    (hplace : v.Directory place.workingDirectory) (hno : ¬ line.NoArguments 2) :
    (cp stack line place).Follows (moveProtocol v stack behind line place)
      (MoveFaults v stack line place) .start
      fun g r => r.2 = place ∧ CopyEnds v stack behind line place g r.1 := by
  -- the program and the plan go through the same steps
  have hargs : line.moveArgs = line.arguments 3 >>= parseCopy := if_neg hno
  unfold cp
  refine Program.Follows.bind (Program.follows_ofExcept
    (Q := fun g buf => g = .start ∧ line.arguments 3 = .ok buf) ?_ ?_) ?_
  · intro e he
    show v.moveSource stack line place = .error e
    rw [Volume.moveSource, hargs, he]
    rfl
  · exact fun buf hbuf => ⟨rfl, hbuf⟩
  rintro _ buf ⟨rfl, hbuf⟩
  rw [hbuf] at hargs
  refine Program.Follows.bind (Program.follows_ofExcept
    (Q := fun g args => g = .start ∧ parseCopy buf = .ok args) ?_ ?_) ?_
  · intro e he
    show v.moveSource stack line place = .error e
    rw [Volume.moveSource, hargs]
    show (parseCopy buf >>= _) = _
    rw [he]
    rfl
  · exact fun args hparse => ⟨rfl, hparse⟩
  rintro _ (- | args) ⟨rfl, hparse⟩
  · refine Program.follows_pure ⟨rfl, .inr ⟨by simp, ?_⟩⟩
    show v.moveSource stack line place = .ok none
    rw [Volume.moveSource, hargs]
    show (parseCopy buf >>= _) = _
    rw [hparse]
    rfl
  · have hsome : line.moveArgs = .ok (some args) := hargs.trans hparse
    have hsource : v.moveSource stack line place = v.copySource stack args place := by
      rw [Volume.moveSource, hsome]
      rfl
    have htarget : v.moveTarget stack line place = v.copyTarget stack args place := by
      rw [Volume.moveTarget, hsome]
      rfl
    dsimp only
    refine Program.Follows.bind (multipleCd_follows h moveProtocol_looks hplace fun e he => ?_) ?_
    · show v.moveSource stack line place = .error e
      rw [hsource, Volume.copySource, he]
      rfl
    -- the path of the source has been walked
    · rintro _ ⟨ret, moved⟩ ⟨rfl, hresolve⟩
      dsimp only
      by_cases hret : ret = 0
      · subst hret
        rw [if_neg (not_not.mpr rfl)]
        exact copySource_follows h hu hplace hresolve hsource htarget
      · rw [if_pos hret]
        refine Program.follows_pure ⟨rfl, .inr ⟨by simp, ?_⟩⟩
        show v.moveSource stack line place = .ok none
        rw [hsource, Volume.copySource, hresolve]
        show Except.ok (if ret = 0 then _ else _) = _
        rw [if_neg hret]

/-! #### rm and mv -/

/-- What is known of a line that names a source. -/
theorem moveSource_eq_some (hk : v.moveSource stack line place = .ok (some k)) :
    ¬ line.NoArguments 2 ∧ ∃ buf args moved, line.arguments 3 = .ok buf ∧
      parseCopy buf = .ok (some args) ∧ v.resolve stack.src args.src place = .ok (0, moved) ∧
      k = ⟨moved.workingDirectory, args.srcName, args.srcExt⟩ := by
  obtain ⟨args, hargs, hk⟩ := bind_eq_ok.mp hk
  cases args with
  | none => cases hk
  | some args =>
      obtain ⟨hno, buf, hbuf, hparse⟩ := moveArgs_eq_some hargs
      obtain ⟨⟨ret, moved⟩, hresolve, hend⟩ := bind_eq_ok.mp hk
      dsimp only at hend
      split_ifs at hend with hret
      · cases hend
        rw [hret] at hresolve
        exact ⟨hno, buf, args, moved, hbuf, hparse, hresolve, rfl⟩
      · cases hend

/-- How `rm` goes about a line that names a source: it walks the same path. -/
structure RemovesSource (v : Volume) (stack : CopyStack) (behind : List Byte) (line : CommandLine)
    (place : Place) (buf path : List Byte) (moved : Place) (k : FileKey) : Prop where
  arguments : line.arguments 3 = .ok buf
  parsed : parseRemove buf = .ok (some (path, k.name, k.ext))
  walked : v.resolve stack.src path place = .ok (0, moved)
  dir : k.dir = moved.workingDirectory
  target : v.removeTarget behind line place = v.resolve behind path place >>= fun r =>
    pure (if r.1 = 0 then some ⟨r.2.workingDirectory, k.name, k.ext⟩ else none)

theorem removesSource (behind : List Byte) (hread : v.moveSource stack line place = .ok (some k)) :
    ∃ buf path moved, RemovesSource v stack behind line place buf path moved k := by
  obtain ⟨hno, buf, args, moved, hbuf, hparse, hresolve, rfl⟩ := moveSource_eq_some hread
  obtain ⟨path, hremove, hpath⟩ := parseRemove_of_parseCopy hparse
  refine ⟨buf, path, moved, hbuf, hremove, ?_, rfl, ?_⟩
  · rcases hpath with hpath | hpath
    · rwa [← hpath]
    · apply resolve_slash
      rwa [← hpath]
  · rw [Volume.removeTarget, CommandLine.removeArgs, if_neg hno, hbuf]
    show (parseRemove buf >>= _) = _
    rw [hremove]
    rfl

/-- It finds the source, where its walk comes to the same place. -/
theorem RemovesSource.finds (h : RemovesSource v stack behind line place buf path moved k)
    (hwalk : v.resolve behind path place = .ok (0, moved)) :
    v.removeTarget behind line place = .ok (some k) := by
  rw [h.target, hwalk]
  show Except.ok (some (⟨moved.workingDirectory, k.name, k.ext⟩ : FileKey)) = _
  rw [← h.dir]

/-- **`rm` finds what `cp` has read, or nothing**: the bytes behind the two `path_buffer`
need not be the same. -/
theorem removeTarget_of_source (behind : List Byte)
    (hread : v.moveSource stack line place = .ok (some k)) :
    v.removeTarget behind line place = .ok (some k) ∨
      v.removeTarget behind line place = .ok none := by
  obtain ⟨buf, path, moved, h⟩ := removesSource behind hread
  rcases resolve_other behind h.walked with hsame | hfails
  · exact .inl (h.finds hsame)
  · right
    rw [h.target, hfails]
    rfl

/-- Where the names of folders end, `rm` finds the source. -/
theorem removeTarget_of_namesEnd (behind : List Byte) (h : v.Intact) (hn : v.NamesEnd)
    (hplace : v.Directory place.workingDirectory)
    (hread : v.moveSource stack line place = .ok (some k)) :
    v.removeTarget behind line place = .ok (some k) := by
  obtain ⟨buf, path, moved, hremoves⟩ := removesSource behind hread
  apply hremoves.finds
  rw [resolve_behind behind h hn hplace, ← resolve_behind stack.src h hn hplace]
  exact hremoves.walked

/-- `rm` deletes its target, or it makes no request but looks. -/
theorem rm_follows (h : v.Intact) (hplace : v.Directory place.workingDirectory)
    (hread : v.moveSource stack line place = .ok (some k)) :
    (rm behind line place).Follows (moveProtocol v stack behind line place)
      (MoveFaults v stack line place) (.copied mem)
      fun g r => r.2 = place ∧
        (g = .moved ∨ (g = .copied mem ∧ v.removeTarget behind line place = .ok none)) := by
  obtain ⟨buf, path, moved, hremoves⟩ := removesSource behind hread
  unfold rm
  rw [hremoves.arguments]
  show (Program.ofExcept (parseRemove buf) >>= _ : ShellProgram (Byte × Place)).Follows _ _ _ _
  rw [hremoves.parsed]
  show (multipleCd behind path place >>= _ : ShellProgram (Byte × Place)).Follows _ _ _ _
  have hwalk := resolve_other behind hremoves.walked
  refine Program.Follows.bind (multipleCd_follows h moveProtocol_looks hplace fun e he => ?_) ?_
  · rcases hwalk with hsame | hfails
    · cases hsame.symm.trans he
    · cases hfails.symm.trans he
  · rintro _ ⟨ret, moved'⟩ ⟨rfl, hmoved⟩
    rcases hwalk with hsame | hfails
    · cases hsame.symm.trans hmoved
      dsimp only
      rw [if_neg (not_not.mpr rfl), ← hremoves.dir]
      refine Program.Follows.bind (Program.follows_ask (.delete hread (hremoves.finds hsame))
        (Q := fun g _ => g = .moved) fun reply _ => rfl) ?_
      rintro _ reply rfl
      exact Program.follows_pure ⟨rfl, .inl rfl⟩
    · -- the path led nowhere, and no request is made
      cases hfails.symm.trans hmoved
      have hnone : v.removeTarget behind line place = .ok none := by
        rw [hremoves.target, hfails]
        rfl
      exact Program.follows_pure ⟨rfl, .inr ⟨rfl, hnone⟩⟩

/-- **A move makes the calls of its phases**, and it ends where it may. -/
theorem mv_follows (stack : CopyStack) (behind : List Byte) (line : CommandLine) (h : v.Intact)
    (hu : v.UniqueFolderTexts) (hplace : v.Directory place.workingDirectory) :
    (mv stack behind line place).Follows (moveProtocol v stack behind line place)
      (MoveFaults v stack line place) .start
      fun g place' => place' = place ∧ MoveEnds v stack behind line place g := by
  unfold mv
  split_ifs with hno
  · have hidle : v.moveSource stack line place = .ok none := by
      rw [Volume.moveSource, CommandLine.moveArgs, if_pos hno]
      rfl
    exact Program.Follows.bind (say_follows (Q := fun g _ => MoveEnds v stack behind line place g)
      (by decide) hidle) fun g _ hends => Program.follows_pure ⟨rfl, hends⟩
  · refine Program.Follows.bind (cp_follows h hu hplace hno) ?_
    rintro g ⟨code, place'⟩ ⟨rfl, ⟨rfl, ⟨mem, rfl⟩, k, hread⟩ | ⟨hcode, hends⟩⟩
    · dsimp only
      rw [if_pos rfl]
      refine Program.Follows.bind (rm_follows h hplace hread) ?_
      -- whatever `rm` returned, the message is that of success
      rintro _ ⟨code', place''⟩ ⟨rfl, rfl | ⟨rfl, hkept⟩⟩
      · exact Program.Follows.bind (tell_follows (Q := fun g _ => g = .moved) .success rfl)
          fun g _ hmoved => Program.follows_pure ⟨rfl, hmoved ▸ trivial⟩
      · exact Program.Follows.bind
          (tell_follows (Q := fun g _ => g = .copied mem) (.kept hkept) rfl)
          fun g _ hcopied => Program.follows_pure ⟨rfl, hcopied ▸ hkept⟩
    · dsimp only
      rw [if_neg hcode]
      exact Program.Follows.bind (sayCopyFailed_follows
        (Q := fun g _ => MoveEnds v stack behind line place' g) hends)
        fun g _ hends => Program.follows_pure ⟨rfl, hends⟩

end

end Binbows
