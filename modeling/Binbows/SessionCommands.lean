/-
Binbows/SessionCommands.lean

Every command of the shell, by the changes that it asks for.

`cd`, `ls`, `cat`, `find`, `exec`, `ps`, `kill`, `clear`, `motivation` and an unknown
command ask for none.  `mkdir` asks for one folder, `rm` for one deletion of a file, `cp`
for copies of one file, and `mv` for such copies, and for a deletion only behind them and
only if each of them was made (`ShellCommand.Changes`).

Main result: `execute_logs`.
-/
import Binbows.CommandBuffers
import Binbows.MovePlan
import Binbows.Sessions

namespace Binbows

open Bytes Run Calls
open Terminal (chars text)

variable {g g' : Session} {l l' : List (FsCall × Byte)} {α : Type} {place moved : Place}
  {line : CommandLine} {t : FAT32DirectoryTable} {p : ShellProgram α} {P : Session → α → Prop}
  {stack : CopyStack} {behind : List Byte}

/-! ### What a command changes -/

/-- At most one folder is made, and its name is padded. -/
def MakesFolder (l : List (FsCall × Byte)) : Prop :=
  l = [] ∨ ∃ request mem code, l = [(⟨.write, request, mem⟩, code)] ∧ request.bufferSize = 0 ∧
    PaddedName request.name

/-- At most one deletion is asked for, and it is that of a file. -/
def DeletesOne (l : List (FsCall × Byte)) : Prop :=
  l = [] ∨ ∃ request mem code, l = [(⟨.delete, request, mem⟩, code)] ∧ request.ext ≠ 0

/-- One file is written to some directories. -/
def WritesCopies (l : List (FsCall × Byte)) : Prop :=
  ∃ name ext mem, ext ≠ 0 ∧
    ∀ e ∈ l, ∃ d, e.1 = ⟨.write, ⟨stackBuffer, name, ext, d, fileBufferSize⟩, mem⟩

/-- Something was written, and it was written each time. -/
def Made (l : List (FsCall × Byte)) : Prop := l ≠ [] ∧ ∀ e ∈ l, e.2 = 0

/-- Copies, and then a deletion, if the copies were made. -/
def MovesOne (l : List (FsCall × Byte)) : Prop :=
  ∃ copies deletion, l = copies ++ deletion ∧ WritesCopies copies ∧ DeletesOne deletion ∧
    (deletion ≠ [] → Made copies)

/-- The changes that a command asks for. -/
def ShellCommand.Changes : ShellCommand → List (FsCall × Byte) → Prop
  | .mkdir, l => MakesFolder l
  | .rm, l => DeletesOne l
  | .cp, l => WritesCopies l
  | .mv, l => MovesOne l
  | _, l => l = []

theorem makesFolder_nil : MakesFolder [] := .inl rfl

theorem deletesOne_nil : DeletesOne [] := .inl rfl

theorem writesCopies_nil : WritesCopies [] := by
  refine ⟨0, fun _ => 1, zeroMemory, fun h => ?_, by simp⟩
  exact absurd (congrFun h 0) (by decide)

/-! ### Commands that change nothing -/

/-- Something is read or printed, and the shell stays. -/
theorem Peeks.stay (h : Peeks p g P) (hplace : g.At place) :
    Peeks (p >>= fun _ => pure place) g fun g' reached => g'.At reached :=
  h.bind fun _ _ hle _ => peeks_pure (hplace.mono hle)

theorem cd_peeks (hplace : g.At place) :
    Peeks (cd behind line place) g fun g' reached => g'.At reached := by
  rw [cd]
  split_ifs with hno hshort
  · exact say_peeks.stay hplace
  · trivial
  · refine (multipleCd_peeks hplace).bind fun g' r _ hr => ?_
    dsimp only
    split_ifs
    · exact say_peeks.stay hr
    · exact say_peeks.stay hr

theorem listEntries_peeks {is : List (Fin directoryEntryCount)} :
    Peeks (listEntries t is) g fun g' _ => g' = g := by
  induction is generalizing g with
  | nil => exact peeks_pure rfl
  | cons i is ih =>
      rw [listEntries]
      split_ifs with ho hs hx
      · apply Logs.print
        apply Logs.print
        exact ih
      · apply Logs.print
        apply Logs.print
        apply Logs.print
        apply Logs.print
        exact ih
      · apply Logs.print
        apply Logs.print
        apply Logs.print
        exact ih
      · exact ih

theorem listDirectory_peeks (hplace : g.At place) :
    Peeks (listDirectory place) g fun _ _ => True := by
  refine (table_peeks hplace.here).bind fun g' reply _ _ => ?_
  split_ifs
  · exact listEntries_peeks.mono fun _ _ _ _ h => ⟨h.1, trivial⟩
  · exact sayCode_peeks.mono fun _ _ _ _ h => ⟨h.1, trivial⟩

theorem ls_peeks (hplace : g.At place) :
    Peeks (ls behind line place) g fun g' reached => g'.At reached := by
  rw [ls]
  split_ifs
  · refine (multipleCd_peeks hplace).bind fun g' r hle hr => ?_
    dsimp only
    split_ifs
    · exact sayCode_peeks.stay (hplace.mono hle)
    · exact (listDirectory_peeks hr).stay hr
  · exact (listDirectory_peeks hplace).stay hplace

theorem printFile_peeks {name : List Byte} (hplace : g.At place) :
    Peeks (printFile name place) g fun _ _ => True := by
  refine (peeks_ofExcept fun _ _ => trivial : Peeks _ g fun _ _ => True).bind ?_
  rintro g' ⟨name, ext⟩ hle -
  refine (read_peeks (hle hplace.here)).bind fun g'' reply _ _ => ?_
  split_ifs
  · exact sayCode_peeks.mono fun _ _ _ _ h => ⟨h.1, trivial⟩
  · exact tell_text_peeks.mono fun _ _ _ _ h => ⟨h.1, trivial⟩

/-- A pure part, whose result does not matter. -/
theorem ofExcept_peeks {x : Except ShellFault α} :
    Peeks (Program.ofExcept x) g fun _ _ => True :=
  peeks_ofExcept fun _ _ => trivial

theorem cat_peeks (hplace : g.At place) :
    Peeks (cat behind line place) g fun g' reached => g'.At reached := by
  rw [cat]
  split_ifs
  · exact say_peeks.stay hplace
  · refine ofExcept_peeks.bind fun g₁ args h₁ _ => ?_
    split_ifs
    · refine ofExcept_peeks.bind ?_
      rintro g₂ ⟨path, name⟩ h₂ -
      refine (multipleCd_peeks (hplace.mono (h₁.trans h₂))).bind ?_
      rintro g₃ ⟨ret, moved⟩ h₃ hmoved
      have hplace' : g₃.At place := hplace.mono ((h₁.trans h₂).trans h₃)
      dsimp only
      split_ifs
      · exact sayCode_peeks.stay hplace'
      · exact (printFile_peeks hmoved).stay hplace'
    · exact (printFile_peeks (hplace.mono h₁)).stay (hplace.mono h₁)

theorem exec_peeks (hplace : g.At place) :
    Peeks (exec behind line place) g fun g' reached => g'.At reached := by
  rw [exec]
  split_ifs
  · exact say_peeks.stay hplace
  · refine ofExcept_peeks.bind fun g₁ args h₁ _ => ?_
    refine (multipleCd_peeks (hplace.mono h₁)).bind ?_
    rintro g₂ ⟨ret, moved⟩ h₂ hmoved
    have hplace' : g₂.At place := hplace.mono (h₁.trans h₂)
    dsimp only
    split_ifs
    · exact say_peeks.stay hplace'
    · refine Peeks.bind (P := fun g' _ => g' = g₂) ⟨hmoved.here, fun _ _ => ⟨[], .refl g₂, rfl, rfl⟩⟩ ?_
      rintro g' reply - rfl
      have hsay : Peeks (sayExec reply.retcode) g' fun _ _ => True := by
        unfold sayExec
        split
        all_goals first
          | exact say_peeks.mono fun _ _ _ _ h => ⟨h.1, trivial⟩
          | exact peeks_pure trivial
      exact hsay.stay hplace'

theorem kill_peeks (hplace : g.At place) :
    Peeks (kill line place) g fun g' reached => g'.At reached := by
  rw [kill]
  refine ofExcept_peeks.bind fun g₁ args h₁ _ => ?_
  refine Peeks.bind (P := fun g' _ => g' = g₁) ⟨trivial, fun _ _ => ⟨[], .refl g₁, rfl, rfl⟩⟩ ?_
  rintro g' reply - rfl
  split_ifs
  · exact say_peeks.stay (hplace.mono h₁)
  · exact say_peeks.stay (hplace.mono h₁)

/-! ### find -/

theorem printFound_peeks {args : FindArgs} {path : PathBuffer} {e : FAT32DirectoryEntry} :
    Peeks (printFound args path e) g fun g' _ => g' = g := by
  rw [printFound]
  apply Logs.print
  apply Logs.print
  apply Logs.print
  split_ifs
  · exact tell_text_peeks
  · apply Logs.print
    apply Logs.print
    exact tell_text_peeks
  · apply Logs.print
    exact tell_text_peeks

/-- The loop of `find` over the slots, where the descent into a folder only reads. -/
theorem findEntries_peeks {args : FindArgs} {localPath path : PathBuffer}
    {descend : Fin directoryEntryCount → PathBuffer → ShellProgram Unit}
    {is : List (Fin directoryEntryCount)} {known : Set (BitVec 32)} (hknown : known ⊆ g.known)
    (hdescend : ∀ g i path, known ⊆ g.known → Peeks (descend i path) g fun _ _ => True) :
    Peeks (findEntries args localPath t descend is path) g fun _ _ => True := by
  induction is generalizing g path with
  | nil => exact peeks_pure trivial
  | cons i is ih =>
      rw [findEntries]
      have htail : ∀ {g₁ : Session}, known ⊆ g₁.known →
          Peeks (do
            let path ← Program.ofExcept (strcat path (string localPath))
            let path ← Program.ofExcept (strcat path (t i).nameString)
            let path ← Program.ofExcept (strcat path [slash])
            descend i path
            findEntries args localPath t descend is (fun _ => 0)) g₁ fun _ _ => True := by
        intro g₁ h₁
        refine ofExcept_peeks.bind fun g₂ _ h₂ _ => ?_
        refine ofExcept_peeks.bind fun g₃ _ h₃ _ => ?_
        refine ofExcept_peeks.bind fun g₄ path h₄ _ => ?_
        have h₅ := ((h₁.trans h₂).trans h₃).trans h₄
        refine (hdescend g₄ i path h₅).bind fun g₅ _ h₆ _ => ?_
        exact ih (h₅.trans h₆)
      split_ifs with ho hmatch
      · refine printFound_peeks.bind fun g₁ _ h₁ _ => ?_
        exact htail (hknown.trans h₁)
      · exact htail hknown
      · exact ih hknown

/-- `findHelper` knows its directory, and the folders of the table that it was given. -/
theorem findHelper_peeks {stale : List (Fin directoryEntryCount) → PathBuffer}
    {behind : List (Fin directoryEntryCount) → List Byte} {args : FindArgs} {fuel : Nat}
    {trail : List (Fin directoryEntryCount)} {localPath : PathBuffer} {d : BitVec 32}
    (hd : d ∈ g.known) (ht : ∀ i, (t i).Folder → (t i).cluster ∈ g.known) :
    Peeks (findHelper stale behind args fuel trail localPath d t) g fun _ _ => True := by
  induction fuel generalizing g trail localPath d t with
  | zero => trivial
  | succ fuel ih =>
      rw [findHelper]
      have hrest : ∀ {parent : BitVec 32} {name : EntryName}, parent ∈ g.known →
          Peeks (do
            let reply ← Program.ask (.fs ⟨.readDirectory,
              ⟨stackBuffer, name, 0, parent, BitVec.ofNat 32 clusterSize⟩, zeroMemory⟩)
            if reply.retcode = 0 then
              let t := FAT32DirectoryTable.ofCluster (reply.mem.load stackBuffer)
              findEntries args localPath t
                (fun i path => findHelper stale behind args fuel (i :: trail) path parent t)
                childSlots (stale trail)
            else pure ()) g fun _ _ => True := by
        intro parent name hparent
        refine (table_peeks hparent).bind fun g' reply hle hshown => ?_
        split_ifs with hret
        · refine findEntries_peeks subset_rfl fun g'' i path hle' => ?_
          refine ih (hle' (hle hparent)) fun j hj => ?_
          exact hle' (hshown hret (.inr ⟨j, hj, rfl⟩))
        · exact peeks_pure trivial
      -- the name is that of the directory itself, or of a folder in the table
      cases hslot : t.subfolder (pathString (behind trail) (lastFolderName localPath)) with
      | none => exact hrest hd
      | some i =>
          have hi := List.find?_some hslot
          rw [decide_eq_true_eq] at hi
          exact hrest (ht i ⟨hi.2.1, hi.2.2.1⟩)

theorem find_peeks {stale : List (Fin directoryEntryCount) → PathBuffer}
    {behind : List (Fin directoryEntryCount) → List Byte} (hplace : g.At place) :
    Peeks (find stale behind line place) g fun g' reached => g'.At reached := by
  rw [find]
  refine ofExcept_peeks.bind fun g₁ args h₁ _ => ?_
  have hhelper : Peeks (findHelper stale behind args (maxCmdLength + 1) [] place.currentPath
      place.workingDirectory fun _ => .zero) g₁ fun _ _ => True :=
    findHelper_peeks (h₁ hplace.here) fun i hi => absurd hi.1 (by decide)
  exact hhelper.stay (hplace.mono h₁)

/-! ### mkdir -/

/-- Something is done, and the shell goes to `place`. -/
theorem Logs.stay {C : List (FsCall × Byte) → Prop} (h : Logs p g fun l _ _ => C l)
    (hplace : g.At place) :
    Logs (p >>= fun _ => pure place) g fun l g' reached => C l ∧ g'.At reached := by
  refine Logs.bind h fun g' l _ hgoes hl => logs_pure ⟨?_, hplace.mono hgoes.known⟩
  rwa [List.append_nil]

/-- A part that asks for no change is a part that asks for few. -/
theorem Peeks.changes {C : List (FsCall × Byte) → Prop} (h : Peeks p g P) (hC : C []) :
    Logs p g fun l g' a => C l ∧ P g' a :=
  Logs.mono h fun _ _ _ _ hl => ⟨hl.1 ▸ hC, hl.2⟩

/-- Characters that are no NULs make a padded name. -/
theorem paddedName_buffer {name : List Byte} (h0 : (0 : Byte) ∉ name) :
    PaddedName (buffer 8 name) := by
  have htake : buffer 8 name = buffer 8 (name.take 8) := by
    funext i
    show name.getD i 0 = (name.take 8).getD i 0
    rw [List.getD_eq_getElem?_getD, List.getD_eq_getElem?_getD, List.getElem?_take, if_pos i.isLt]
  rw [PaddedName, htake, string_buffer (List.length_take_le _ _)]
  exact fun hmem => h0 (List.mem_of_mem_take hmem)

/-- What stands in a typed line has no NULs. -/
theorem CommandLine.Typed.span_noNul (h : line.Typed) {start : Nat} :
    (0 : Byte) ∉ span line.cmdBuffer start (line.curCmdLength.toNat - start) := by
  intro hmem
  obtain ⟨k, hk, hzero⟩ := List.mem_map.mp hmem
  have hk := List.mem_range.mp hk
  exact h.text (start + k) (by omega) hzero

theorem CommandLine.Typed.arguments_noNul (h : line.Typed) {skip : Nat} {given : List Byte}
    (ha : line.arguments skip = .ok given) : (0 : Byte) ∉ given := by
  unfold CommandLine.arguments at ha
  split_ifs at ha
  obtain rfl := Except.ok.inj ha
  exact h.span_noNul

theorem CommandLine.Typed.splitPath_noNul (h : line.Typed) {skip : Nat} {path name : List Byte}
    (hs : line.splitPath skip = .ok (path, name)) : (0 : Byte) ∉ name := by
  unfold CommandLine.splitPath at hs
  dsimp only at hs
  split_ifs at hs
  obtain ⟨-, rfl⟩ := Prod.mk.inj (Except.ok.inj hs)
  exact h.span_noNul

theorem makeDirectory_logs {name : EntryName} (hplace : g.At place) (hname : PaddedName name) :
    Logs (makeDirectory name place) g fun l _ _ => MakesFolder l := by
  refine Logs.bind (write_logs hplace.here fun _ => hname) ?_
  rintro g' l reply - ⟨rfl, -⟩
  have hmade : MakesFolder [(⟨.write, ⟨stackBuffer, name, 0, place.workingDirectory, 0⟩, zeroMemory⟩,
      reply.retcode)] := .inr ⟨_, _, _, rfl, rfl, hname⟩
  have hsay : ∀ {message count color}, Logs (say message count color) g' fun l' _ _ =>
      MakesFolder ([(⟨.write, ⟨stackBuffer, name, 0, place.workingDirectory, 0⟩, zeroMemory⟩,
        reply.retcode)] ++ l') := by
    intro message count color
    refine say_peeks.mono fun l' _ _ _ hl' => ?_
    rw [hl'.1, List.append_nil]
    exact hmade
  split_ifs
  · exact hsay
  · exact hsay

theorem mkdir_logs {stale : PathBuffer} (hplace : g.At place) (hline : line.Typed) :
    Logs (mkdir behind stale line place) g fun l g' reached => MakesFolder l ∧ g'.At reached := by
  rw [mkdir]
  split_ifs
  · exact (say_peeks.stay hplace).changes makesFolder_nil
  · refine (peeks_ofExcept fun given hgiven => hline.arguments_noNul hgiven :
      Peeks _ g fun _ given => (0 : Byte) ∉ given).bind fun g₁ given h₁ hgiven => ?_
    refine ofExcept_peeks.bind fun g₂ args h₂ _ => ?_
    have hplace₂ : g₂.At place := hplace.mono (h₁.trans h₂)
    split_ifs
    · refine (peeks_ofExcept fun split hsplit => hline.splitPath_noNul hsplit :
        Peeks _ g₂ fun _ split => (0 : Byte) ∉ split.2).bind ?_
      rintro g₃ ⟨path, name⟩ h₃ hname
      refine (multipleCd_peeks (hplace₂.mono h₃)).bind ?_
      rintro g₄ ⟨ret, moved⟩ h₄ hmoved
      have hplace₄ : g₄.At place := hplace₂.mono (h₃.trans h₄)
      dsimp only
      split_ifs
      · exact (sayCode_peeks.stay hplace₄).changes makesFolder_nil
      · exact (say_peeks.stay hmoved).changes makesFolder_nil
      · exact (makeDirectory_logs hmoved (paddedName_buffer hname)).stay hplace₄
    · exact (say_peeks.stay hplace₂).changes makesFolder_nil
    · exact (makeDirectory_logs hplace₂ (paddedName_buffer hgiven)).stay hplace₂

/-! ### cp -/

/-- The write of a copy in some directory. -/
def copyCall (name : EntryName) (ext : EntryExt) (mem : Memory) (d : BitVec 32) : FsCall :=
  ⟨.write, ⟨stackBuffer, name, ext, d, fileBufferSize⟩, mem⟩

/-- `cp` into a folder writes to folders that it was shown.  It returns 0 where it wrote
somewhere, each time with success. -/
theorem copyInto_logs {name : EntryName} {target : List Byte} {ext : EntryExt} {mem : Memory}
    {d : BitVec 32}
    {ns : List (Fin directoryEntryCount)} {found : Bool}
    (ht : ∀ i, (t i).Folder → (t i).cluster ∈ g.known) :
    Logs (copyInto (copyCall name ext mem d) target t ns found) g fun l _ code =>
      (∀ e ∈ l, ∃ d, e.1 = copyCall name ext mem d) ∧
        (code = 0 → (found = true ∨ l ≠ []) ∧ ∀ e ∈ l, e.2 = 0) := by
  -- by the slots that are still to be looked at
  induction ns generalizing g found with
  | nil =>
      rw [copyInto]
      -- the code is zero only if a folder was found before
      refine logs_pure ⟨by simp, fun hcode => ⟨?_, by simp⟩⟩
      cases found with
      | true => exact .inl rfl
      | false => cases hcode
  | cons n ns ih =>
      rw [copyInto]
      split_ifs with hn
      · have hfolder : (t n).Folder := ⟨hn.1, hn.2.2⟩
        refine Logs.bind (write_logs (ht n hfolder) fun h => absurd h fileBufferSize_ne_zero) ?_
        rintro g' l reply - ⟨rfl, hknown⟩
        have hfirst : ∀ e ∈ [(copyCall name ext mem (t n).cluster, reply.retcode)],
            ∃ d, e.1 = copyCall name ext mem d := by
          intro e he
          obtain rfl := List.mem_singleton.mp he
          exact ⟨_, rfl⟩
        -- a refused write ends the loop with its own code
        split_ifs with hret
        · refine logs_pure ⟨?_, fun hcode => by cases hcode⟩
          rw [List.append_nil]
          exact hfirst
        · refine (ih fun i hi => hknown ▸ ht i hi).mono ?_
          rintro l' _ code - ⟨hl', hmade⟩
          constructor
          · intro e he
            rcases List.mem_append.mp he with he | he
            · exact hfirst e he
            · exact hl' e he
          -- all the writes have been answered by zero
          · intro hcode
            refine ⟨.inr (by simp), fun e he => ?_⟩
            rcases List.mem_append.mp he with he | he
            · obtain rfl := List.mem_singleton.mp he
              exact not_not.mp hret
            · exact (hmade hcode).2 e he
      · exact ih ht

/-- `cp` has written somewhere, each time with success, where it returns 0. -/
def Copied (l : List (FsCall × Byte)) (code : Nat) : Prop :=
  WritesCopies l ∧ (code = 0 → Made l)

theorem copied_nil {code : Nat} (h : code ≠ 0) : Copied [] code :=
  ⟨writesCopies_nil, fun h0 => absurd h0 h⟩

theorem copyWrite_logs {buf : List Byte} {args : CopyArgs} {mem : Memory} {d : BitVec 32}
    (hargs : parseCopy buf = .ok (some args)) (hmoved : g.At moved) :
    Logs (copyWrite stack args ⟨stackBuffer, args.srcName, args.srcExt, d, fileBufferSize⟩ mem moved) g
      fun l _ code => Copied l code := by
  rw [copyWrite]
  split_ifs with hext
  · refine (table_peeks hmoved.here).bind fun g' reply hle hshown => ?_
    split_ifs with hret
    · exact logs_pure (copied_nil (by decide))
    · refine (copyInto_logs fun i hi => hshown (not_not.mp hret) (.inr ⟨i, hi, rfl⟩)).mono ?_
      rintro l g'' code - ⟨hl, hmade⟩
      refine ⟨⟨args.srcName, args.srcExt, mem, srcExt_ne_zero hargs, hl⟩, fun hcode => ?_⟩
      obtain ⟨hsome, hall⟩ := hmade hcode
      exact ⟨hsome.resolve_left (by decide), hall⟩
  · refine Logs.bind (write_logs hmoved.here fun h => absurd h fileBufferSize_ne_zero) ?_
    rintro g' l reply - ⟨rfl, -⟩
    have hcopies : WritesCopies [(copyCall args.destName (buffer 3 args.destExt) mem
        moved.workingDirectory, reply.retcode)] := by
      refine ⟨args.destName, buffer 3 args.destExt, mem, destExt_ne_zero hargs hext, fun e he => ?_⟩
      obtain rfl := List.mem_singleton.mp he
      exact ⟨_, rfl⟩
    split_ifs with hret
    · refine logs_pure ⟨?_, fun hcode => by cases hcode⟩
      rw [List.append_nil]
      exact hcopies
    · refine logs_pure ⟨?_, fun _ => ?_⟩
      · rw [List.append_nil]
        exact hcopies
      · rw [List.append_nil]
        refine ⟨by simp, fun e he => ?_⟩
        obtain rfl := List.mem_singleton.mp he
        exact not_not.mp hret

theorem cp_logs (hplace : g.At place) :
    Logs (cp stack line place) g fun l g' r => Copied l r.1 ∧ g'.At r.2 := by
  rw [cp]
  refine ofExcept_peeks.bind fun g₁ buf h₁ _ => ?_
  refine (peeks_ofExcept fun args hargs => hargs :
    Peeks _ g₁ fun _ args => parseCopy buf = .ok args).bind fun g₂ args h₂ hargs => ?_
  have hplace₂ : g₂.At place := hplace.mono (h₁.trans h₂)
  cases args with
  | none => exact logs_pure ⟨copied_nil (by simp), hplace₂⟩
  | some args =>
      refine (multipleCd_peeks hplace₂).bind ?_
      rintro g₃ ⟨ret, moved⟩ h₃ hmoved
      have hplace₃ : g₃.At place := hplace₂.mono h₃
      dsimp only
      split_ifs
      · exact logs_pure ⟨copied_nil (by simp), hplace₃⟩
      refine Peeks.bind (read_peeks hmoved.here) ?_
      rintro g₄ reply - rfl
      split_ifs
      · exact logs_pure ⟨copied_nil (by simp), hplace₃⟩
      refine (multipleCd_peeks hplace₃).bind ?_
      rintro g₅ ⟨ret', moved'⟩ h₅ hmoved'
      have hplace₅ : g₅.At place := hplace₃.mono h₅
      dsimp only
      split_ifs
      · exact logs_pure ⟨copied_nil (by simp), hplace₅⟩
      refine Logs.bind (copyWrite_logs hargs hmoved') fun g₆ l code hgoes hl => ?_
      refine logs_pure ⟨?_, hplace₅.mono hgoes.known⟩
      rwa [List.append_nil]

theorem sayCopyFailed_peeks {code : Nat} : Peeks (sayCopyFailed code) g fun _ _ => True := by
  unfold sayCopyFailed
  split
  all_goals first
    | exact say_peeks.mono fun _ _ _ _ h => ⟨h.1, trivial⟩
    | exact peeks_pure trivial

theorem cpCaller_logs (hplace : g.At place) :
    Logs (cpCaller stack line place) g fun l g' reached => WritesCopies l ∧ g'.At reached := by
  rw [cpCaller]
  split_ifs
  · exact (say_peeks.stay hplace).changes writesCopies_nil
  · refine Logs.bind (cp_logs hplace) ?_
    rintro g' l ⟨code, reached⟩ - ⟨⟨hl, -⟩, hreached⟩
    have hkeep : ∀ l', l' = [] → WritesCopies (l ++ l') := by
      rintro l' rfl
      rwa [List.append_nil]
    dsimp only
    split_ifs
    · exact (say_peeks.stay hreached).mono fun l' _ _ _ h => ⟨hkeep l' h.1, h.2⟩
    · exact (sayCopyFailed_peeks.stay hreached).mono fun l' _ _ _ h => ⟨hkeep l' h.1, h.2⟩

/-! ### rm and mv -/

theorem removeExt_ne_zero {buf path : List Byte} {name : EntryName} {ext : EntryExt}
    (h : parseRemove buf = .ok (some (path, name, ext))) : ext ≠ 0 := by
  unfold parseRemove at h
  dsimp only at h
  split_ifs at h with hlong hext
  · cases h
  · cases h
    exact buffer_copyExt_ne_zero hext

theorem rm_logs (hplace : g.At place) :
    Logs (rm behind line place) g fun l g' r => DeletesOne l ∧ g'.At r.2 := by
  rw [rm]
  refine ofExcept_peeks.bind fun g₁ buf h₁ _ => ?_
  refine (peeks_ofExcept fun args hargs => hargs :
    Peeks _ g₁ fun _ args => parseRemove buf = .ok args).bind fun g₂ args h₂ hargs => ?_
  have hplace₂ : g₂.At place := hplace.mono (h₁.trans h₂)
  rcases args with - | ⟨path, name, ext⟩
  · exact logs_pure ⟨deletesOne_nil, hplace₂⟩
  · refine (multipleCd_peeks hplace₂).bind ?_
    rintro g₃ ⟨ret, moved⟩ h₃ hmoved
    have hplace₃ : g₃.At place := hplace₂.mono h₃
    dsimp only
    split_ifs
    · exact logs_pure ⟨deletesOne_nil, hplace₃⟩
    refine Logs.bind (delete_logs hmoved.here (removeExt_ne_zero hargs)) ?_
    rintro g₄ l reply hgoes ⟨rfl, -⟩
    refine logs_pure ⟨?_, hplace₃.mono hgoes.known⟩
    rw [List.append_nil]
    exact .inr ⟨_, _, _, rfl, removeExt_ne_zero hargs⟩

theorem rmCaller_logs (hplace : g.At place) :
    Logs (rmCaller behind line place) g fun l g' reached => DeletesOne l ∧ g'.At reached := by
  rw [rmCaller]
  split_ifs
  · exact (say_peeks.stay hplace).changes deletesOne_nil
  · refine Logs.bind (rm_logs hplace) ?_
    rintro g' l ⟨code, reached⟩ - ⟨hl, hreached⟩
    have hsay : ∀ {message count color}, Logs (say message count color >>= fun _ => pure reached) g'
        fun l' g'' reached => DeletesOne (l ++ l') ∧ g''.At reached := by
      intro message count color
      refine (say_peeks.stay hreached).mono fun l' _ _ _ h => ⟨?_, h.2⟩
      rwa [h.1, List.append_nil]
    dsimp only
    split_ifs
    all_goals exact hsay

theorem mv_logs (hplace : g.At place) :
    Logs (mv stack behind line place) g fun l g' reached => MovesOne l ∧ g'.At reached := by
  have hnone : ∀ {l}, WritesCopies l → MovesOne l := fun {l} hl =>
    ⟨l, [], (List.append_nil l).symm, hl, deletesOne_nil, fun h => absurd rfl h⟩
  rw [mv]
  split_ifs
  · exact (say_peeks.stay hplace).changes (hnone writesCopies_nil)
  · refine Logs.bind (cp_logs hplace) ?_
    rintro g₁ l ⟨code, reached⟩ - ⟨⟨hl, hmade⟩, hreached⟩
    dsimp only
    split_ifs with hcode
    · refine Logs.bind (rm_logs hreached) ?_
      rintro g₂ l₂ ⟨code', reached'⟩ - ⟨hl₂, hreached'⟩
      apply Logs.print
      refine logs_pure ⟨⟨l, l₂, ?_, hl, hl₂, fun _ => hmade hcode⟩, hreached'⟩
      rw [List.append_nil]
    · refine (sayCopyFailed_peeks.stay hreached).mono fun l' _ _ _ h => ⟨?_, h.2⟩
      rw [h.1, List.append_nil]
      exact hnone hl

/-! ### execute and main -/

/-- **Every typed line asks for the changes of its command**, and the shell stands in a directory
that it knows. -/
theorem execute_logs {stale : StaleStack} (hplace : g.At place) (hline : line.Typed) :
    Logs (execute stale line place) g fun l g' reached =>
      line.command.Changes l ∧ g'.At reached := by
  have hdispatch : Logs (dispatch stale line place) g fun l g' reached =>
      line.command.Changes l ∧ g'.At reached := by
    rw [dispatch]
    cases line.command with
    | cd => exact cd_peeks hplace
    | ls => exact ls_peeks hplace
    | mkdir => exact mkdir_logs hplace hline
    | cat => exact cat_peeks hplace
    | cp => exact cpCaller_logs hplace
    | rm => exact rmCaller_logs hplace
    | mv => exact mv_logs hplace
    | find => exact find_peeks hplace
    | clear => exact tell_text_peeks.stay hplace
    | exec => exact exec_peeks hplace
    | ps => exact (tell_peeks (c := .listProcesses) trivial fun _ => rfl).stay hplace
    | kill => exact kill_peeks hplace
    | motivation => exact (tell_peeks (c := .runTesting) trivial fun _ => rfl).stay hplace
    | unknown => exact say_peeks.stay hplace
  rw [execute]
  refine Logs.bind hdispatch ?_
  rintro g' l reached - ⟨hl, hreached⟩
  apply Logs.print
  refine logs_pure ⟨?_, hreached⟩
  rwa [List.append_nil]

end Binbows
