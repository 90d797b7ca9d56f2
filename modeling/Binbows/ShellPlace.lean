/-
Binbows/ShellPlace.lean

Which commands move the shell.

A command that takes a path resolves it by moving: it calls `multiple_cd`, works
where that leads, and restores the two globals.  Two ways out of a command lack
this: `ls` with a path never restores them (`ls_place`), and `mkdir` returns before it
does when the name of the new folder is `root` (`mkdir_place`).  All other commands but
`cd` leave the shell where it is (`dispatch_ensures`).  What the system calls answer does
not matter here: the handler is arbitrary.
-/
import Binbows.Shell
import Binbows.FileSystemRuns

namespace Binbows

open Bytes Calls
open Terminal (chars text)

variable {σ : Type} {handler : ShellCall → σ → Except ShellFault (ShellReply × σ)} {s s' : σ}
  {line : CommandLine} {place place' moved : Place} {stale : StaleStack} {code : Nat}
  {stack : CopyStack} {behind : List Byte} {l : List (ShellCall × ShellReply)}

/-! ### Commands that restore the place -/

theorem cp_ensures : (cp stack line place).Ensures fun r => r.2 = place := by
  rw [cp]
  apply Program.ensures_seq
  intro buf
  apply Program.ensures_seq
  intro args
  cases args with
  | none => exact Program.ensures_pure rfl
  | some args =>
      apply Program.ensures_seq
      rintro ⟨ret, moved⟩
      dsimp only
      split_ifs
      · exact Program.ensures_pure rfl
      apply Program.ensures_seq
      intro reply
      split_ifs
      · exact Program.ensures_pure rfl
      apply Program.ensures_seq
      rintro ⟨ret', moved'⟩
      dsimp only
      split_ifs
      · exact Program.ensures_pure rfl
      apply Program.ensures_seq
      exact fun code => Program.ensures_pure rfl

theorem rm_ensures : (rm behind line place).Ensures fun r => r.2 = place := by
  rw [rm]
  apply Program.ensures_seq
  intro buf
  apply Program.ensures_seq
  intro args
  rcases args with - | ⟨path, name, ext⟩
  · exact Program.ensures_pure rfl
  · apply Program.ensures_seq
    rintro ⟨ret, moved⟩
    dsimp only
    split_ifs
    · exact Program.ensures_pure rfl
    apply Program.ensures_seq
    exact fun reply => Program.ensures_pure rfl

theorem cpCaller_ensures : (cpCaller stack line place).Ensures (· = place) := by
  rw [cpCaller]
  split_ifs
  · exact Program.ensures_seq fun _ => Program.ensures_pure rfl
  · refine cp_ensures.bind ?_
    rintro ⟨code, place⟩ rfl
    dsimp only
    split_ifs
    all_goals exact Program.ensures_seq fun _ => Program.ensures_pure rfl

theorem rmCaller_ensures : (rmCaller behind line place).Ensures (· = place) := by
  rw [rmCaller]
  split_ifs
  · exact Program.ensures_seq fun _ => Program.ensures_pure rfl
  · refine rm_ensures.bind ?_
    rintro ⟨code, place⟩ rfl
    dsimp only
    split_ifs
    all_goals exact Program.ensures_seq fun _ => Program.ensures_pure rfl

theorem mv_ensures : (mv stack behind line place).Ensures (· = place) := by
  rw [mv]
  split_ifs
  · exact Program.ensures_seq fun _ => Program.ensures_pure rfl
  · refine cp_ensures.bind ?_
    rintro ⟨code, place⟩ rfl
    dsimp only
    split_ifs
    · refine rm_ensures.bind ?_
      rintro ⟨code', place⟩ rfl
      exact Program.ensures_seq fun _ => Program.ensures_pure rfl
    · exact Program.ensures_seq fun _ => Program.ensures_pure rfl

theorem cat_ensures : (cat behind line place).Ensures (· = place) := by
  rw [cat]
  split_ifs
  · exact Program.ensures_seq fun _ => Program.ensures_pure rfl
  · apply Program.ensures_seq
    intro args
    split_ifs
    · apply Program.ensures_seq
      rintro ⟨path, name⟩
      apply Program.ensures_seq
      rintro ⟨ret, moved⟩
      dsimp only
      split_ifs
      all_goals exact Program.ensures_seq fun _ => Program.ensures_pure rfl
    · exact Program.ensures_seq fun _ => Program.ensures_pure rfl

theorem exec_ensures : (exec behind line place).Ensures (· = place) := by
  rw [exec]
  split_ifs
  · exact Program.ensures_seq fun _ => Program.ensures_pure rfl
  · apply Program.ensures_seq
    intro args
    apply Program.ensures_seq
    rintro ⟨ret, moved⟩
    dsimp only
    split_ifs
    · exact Program.ensures_seq fun _ => Program.ensures_pure rfl
    · apply Program.ensures_seq
      intro reply
      exact Program.ensures_seq fun _ => Program.ensures_pure rfl

theorem find_ensures {path : List (Fin directoryEntryCount) → PathBuffer}
    {trail : List (Fin directoryEntryCount) → List Byte} :
    (find path trail line place).Ensures (· = place) := by
  rw [find]
  apply Program.ensures_seq
  intro args
  exact Program.ensures_seq fun _ => Program.ensures_pure rfl

theorem kill_ensures : (kill line place).Ensures (· = place) := by
  rw [kill]
  apply Program.ensures_seq
  intro args
  apply Program.ensures_seq
  intro reply
  split_ifs
  all_goals exact Program.ensures_seq fun _ => Program.ensures_pure rfl

/-- Every command but `cd`, `ls` and `mkdir` leaves the shell where it is. -/
theorem dispatch_ensures (hcd : line.command ≠ .cd) (hls : line.command ≠ .ls)
    (hmkdir : line.command ≠ .mkdir) : (dispatch stale line place).Ensures (· = place) := by
  rw [dispatch]
  cases hcommand : line.command with
  | cd => exact absurd hcommand hcd
  | ls => exact absurd hcommand hls
  | mkdir => exact absurd hcommand hmkdir
  | cat => exact cat_ensures
  | cp => exact cpCaller_ensures
  | rm => exact rmCaller_ensures
  | mv => exact mv_ensures
  | find => exact find_ensures
  | exec => exact exec_ensures
  | kill => exact kill_ensures
  | clear => exact Program.ensures_seq fun _ => Program.ensures_pure rfl
  | ps => exact Program.ensures_seq fun _ => Program.ensures_pure rfl
  | motivation => exact Program.ensures_seq fun _ => Program.ensures_pure rfl
  | unknown => exact Program.ensures_seq fun _ => Program.ensures_pure rfl

/-! ### ls and mkdir -/

/-- Wherever it fails, `multiple_cd` restores the place. -/
theorem multipleCd_ensures {path : List Byte} :
    (multipleCd behind path place).Ensures fun r => r.1 ≠ 0 → r.2 = place := by
  rw [multipleCd]
  split
  · exact Program.ensures_pure fun _ => rfl
  · apply Program.ensures_seq
    intro reached
    cases reached with
    | none => exact Program.ensures_pure fun _ => rfl
    | some moved => exact Program.ensures_pure fun h0 => absurd rfl h0

/-- A part of a command that comes back to a place. -/
theorem run_keeps {α : Type} {p : ShellProgram α}
    (h : (p >>= fun _ => pure moved : ShellProgram Place).run handler s = .ok (place', s')) :
    place' = moved :=
  (Program.ensures_seq fun _ => Program.ensures_pure rfl :
    Program.Ensures _ (· = moved)).of_run h

/-- **`ls` leaves the shell where its path leads.** -/
theorem ls_place (hpath : line.HasPath)
    (h : (ls behind line place).run handler s = .ok (place', s')) :
    ∃ ret s₁, (multipleCd behind line.lsPath place).run handler s = .ok ((ret, place'), s₁) := by
  rw [ls, if_pos hpath] at h
  obtain ⟨⟨ret, moved⟩, s₁, hcd, h⟩ := Program.run_bind_eq_ok.mp h
  have hrestored : ret ≠ 0 → moved = place := multipleCd_ensures.of_run hcd
  dsimp only at h
  split_ifs at h with hret
  · obtain rfl : place' = moved := (run_keeps h).trans (hrestored hret).symm
    exact ⟨ret, s₁, hcd⟩
  · rw [run_keeps h]
    exact ⟨ret, s₁, hcd⟩

/-- A listing of the directory where the shell stands. -/
theorem ls_keeps (hpath : ¬ line.HasPath)
    (h : (ls behind line place).run handler s = .ok (place', s')) : place' = place := by
  rw [ls, if_neg hpath] at h
  exact run_keeps h

variable {n : Nat} {b : Fin n → Byte}

/-- A component that does not start at the front starts behind a slash. -/
theorem componentStart_spec (b : Fin n → Byte) (k : Nat) (h : 0 < componentStart b k) :
    componentStart b k ≤ k ∧ chars b (componentStart b k - 1) = slash := by
  induction k with
  | zero => exact absurd h (lt_irrefl 0)
  | succ k ih =>
      rw [componentStart] at h ⊢
      split_ifs at h ⊢ with hslash
      · exact ⟨le_rfl, hslash⟩
      · obtain ⟨hle, hchar⟩ := ih h
        exact ⟨le_trans hle (Nat.le_succ k), hchar⟩

theorem getD_span {start count k : Nat} (h : k < count) :
    (span b start count).getD k 0 = chars b (start + k) := by
  simp [span, List.getD_eq_getElem?_getD, h]

/-- The loop that looks for a slash finds the one in the argument. -/
theorem any_slash_args {given path name : List Byte} {args : PathBuffer}
    (hgiven : line.arguments 6 = .ok given) (hargs : memcpy stale.args 0 given = .ok args)
    (hsplit : line.splitPath 6 = .ok (path, name)) :
    (span args 0 (line.curCmdLength.toNat - 4)).any (· = slash) := by
  unfold CommandLine.arguments at hgiven
  unfold CommandLine.splitPath at hsplit
  unfold memcpy at hargs
  dsimp only at hsplit
  split_ifs at hgiven hsplit hargs with hlength hstart hfit
  cases hgiven
  cases hargs
  obtain ⟨hle, hchar⟩ := componentStart_spec line.cmdBuffer line.curCmdLength.toNat (by omega)
  -- the slash stands at offset `start - 7` of the argument
  generalize componentStart line.cmdBuffer line.curCmdLength.toNat = start at hstart hle hchar
  rw [List.any_eq_true]
  refine ⟨_, List.mem_map.mpr ⟨start - 7, List.mem_range.mpr (by omega), rfl⟩, ?_⟩
  rw [decide_eq_true_eq]
  have hlt : start - 7 < line.curCmdLength.toNat - 6 := by omega
  have hbound : 0 + (start - 7) < maxCmdLength := by
    unfold maxCmdLength at hlength ⊢
    omega
  have hin : 0 ≤ start - 7 ∧
      start - 7 < 0 + (span line.cmdBuffer 6 (line.curCmdLength.toNat - 6)).length := by
    simp [span, hlt]
  rw [chars, dif_pos hbound]
  simp only [Nat.zero_add]
  rw [if_pos (by simpa using hin), Nat.sub_zero, getD_span hlt, ← hchar]
  congr 1
  omega

/-- The line asks for a new folder `root` below `path`. -/
structure CommandLine.NamesRoot (line : CommandLine) (path : List Byte) : Prop where
  arguments : ¬ line.NoArguments 5
  split : ∃ name, line.splitPath 6 = .ok (path, name) ∧ IsRootName (buffer 8 name)

/-- **`mkdir` leaves the shell where the path leads below which it was to make `root`.** -/
theorem mkdir_place {path : List Byte} (hroot : line.NamesRoot path)
    (h : (mkdir behind stale.args line place).run handler s = .ok (place', s')) :
    ∃ ret s₁, (multipleCd behind path place).run handler s = .ok ((ret, place'), s₁) := by
  obtain ⟨name, hsplit, hname⟩ := hroot.split
  rw [mkdir, if_neg hroot.arguments] at h
  obtain ⟨given, s₁, hrun, h⟩ := Program.run_bind_eq_ok.mp h
  obtain ⟨hgiven, rfl⟩ := Program.run_ofExcept_eq_ok.mp hrun
  obtain ⟨args, s₂, hrun', h⟩ := Program.run_bind_eq_ok.mp h
  obtain ⟨hargs, rfl⟩ := Program.run_ofExcept_eq_ok.mp hrun'
  rw [if_pos (any_slash_args hgiven hargs hsplit)] at h
  obtain ⟨⟨path', name'⟩, s₃, hrun'', h⟩ := Program.run_bind_eq_ok.mp h
  obtain ⟨hsplit', rfl⟩ := Program.run_ofExcept_eq_ok.mp hrun''
  cases hsplit.symm.trans hsplit'
  obtain ⟨⟨ret, moved⟩, s₄, hcd, h⟩ := Program.run_bind_eq_ok.mp h
  have hrestored : ret ≠ 0 → moved = place := multipleCd_ensures.of_run hcd
  dsimp only at h
  split_ifs at h with hret
  · obtain rfl : place' = moved := (run_keeps h).trans (hrestored hret).symm
    exact ⟨ret, s₄, hcd⟩
  · rw [run_keeps h]
    exact ⟨ret, s₄, hcd⟩

/-- Any other folder is made without moving. -/
theorem mkdir_keeps (hroot : ∀ path, ¬ line.NamesRoot path)
    (h : (mkdir behind stale.args line place).run handler s = .ok (place', s')) :
    place' = place := by
  rw [mkdir] at h
  split_ifs at h with hno
  · exact run_keeps h
  · obtain ⟨given, s₁, -, h⟩ := Program.run_bind_eq_ok.mp h
    obtain ⟨args, s₂, -, h⟩ := Program.run_bind_eq_ok.mp h
    split_ifs at h with hslash hname
    · obtain ⟨⟨path, name⟩, s₃, hrun, h⟩ := Program.run_bind_eq_ok.mp h
      obtain ⟨hsplit, rfl⟩ := Program.run_ofExcept_eq_ok.mp hrun
      obtain ⟨⟨ret, moved⟩, s₄, -, h⟩ := Program.run_bind_eq_ok.mp h
      dsimp only at h
      split_ifs at h with hret hname
      · exact run_keeps h
      · exact absurd ⟨hno, name, hsplit, hname⟩ (hroot path)
      · exact run_keeps h
    · exact run_keeps h
    · exact run_keeps h

/-! ### A few lines to try things on -/

/-- The line that consists of these characters. -/
def lineOf (l : List Char) : CommandLine where
  cmdBuffer := buffer maxCmdLength (l.map ascii)
  curCmdLength := BitVec.ofNat 8 l.length

/-- The shell stands at the root. -/
def rootPlace : Place := ⟨rootPath, rootClusterNumber⟩

def cleanStack : StaleStack where
  args _ := 0
  path _ _ := 0
  behind _ := []
  pathBuffer := []
  copy := ⟨[], [], []⟩

/-- No call about a process is made. -/
def noProcesses (_ : ShellCall) (_ : ShellWorld) : Except ShellFault (ShellReply × ShellWorld) :=
  .error .noReturn

/-- What is known of the result of a run that was evaluated. -/
theorem exists_ok_of_toOption {ε α β : Type} {x : Except ε α} {f : α → β} {b : β}
    (h : x.toOption.map f = some b) : ∃ a, x = .ok a ∧ f a = b := by
  cases x with
  | error e => cases h
  | ok a => exact ⟨a, rfl, Option.some.inj h⟩

end Binbows
