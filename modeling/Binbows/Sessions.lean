/-
Binbows/Sessions.lean

What a shell asks the file system for.

A shell names a directory by its cluster, and it only uses clusters that it has learned:
the root, and those that a table has shown it.  It deletes only what has an extension, so
that it never deletes a folder, and a folder that it makes has a name with zeros behind it.
This is a protocol (`sessionProtocol`): its phases are what a shell knows and the changes
that it has asked for, and both only grow.

What a program asks for is told by the changes that it adds (`Logs`), and a program that
only looks around adds none (`Peeks`).

Main result: `multipleCd_peeks`.  A path leads to a directory that the shell knows,
whatever the replies are.
-/
import Binbows.Library.Processes
import Binbows.PathResolution

namespace Binbows

open Bytes Run Calls
open Terminal (chars text)

/-! ### The protocol -/

/-- What a shell knows, and the changes that it has asked for with their codes. -/
structure Session where
  known : Set (BitVec 32)
  log : List (FsCall × Byte)

/-- The directories that a table shows: the parent and the folders. -/
def FAT32DirectoryTable.shown (t : FAT32DirectoryTable) : Set (BitVec 32) :=
  {c | (t 1).cluster = c ∨ ∃ i, (t i).Folder ∧ (t i).cluster = c}

/-- A string, and zeros behind it. -/
def PaddedName (name : EntryName) : Prop := buffer 8 (string name) = name

/-- No folder is deleted, and a folder that is made has a padded name. -/
structure FsCall.Modest (call : FsCall) : Prop where
  keeps : call.op = .delete → call.request.ext ≠ 0
  names : call.op = .write → call.request.bufferSize = 0 → PaddedName call.request.name

/-- The directories are known, and the requests are modest. -/
def Session.Good (g : Session) : ShellCall → Prop
  | .fs call => call.request.parentClusterNumber ∈ g.known ∧ call.Modest
  | .createProcess request => request.parentClusterNumber ∈ g.known
  | _ => True

/-- A table that is read is learned; a change is noted. -/
def Session.next (g : Session) : ShellCall → ShellReply → Session
  | .fs ⟨.readDirectory, request, _⟩, reply =>
      if reply.retcode = 0 then
        { g with known := g.known ∪
            FAT32DirectoryTable.shown (.ofCluster (reply.mem.load request.buf)) }
      else g
  | .fs ⟨.read, _, _⟩, _ => g
  | .fs ⟨.write, request, mem⟩, reply =>
      { g with log := g.log ++ [(⟨.write, request, mem⟩, reply.retcode)] }
  | .fs ⟨.delete, request, mem⟩, reply =>
      { g with log := g.log ++ [(⟨.delete, request, mem⟩, reply.retcode)] }
  | _, _ => g

def sessionProtocol : Protocol ShellCall ShellReply Session where
  good := Session.Good
  valid _ _ := True
  next := Session.next

/-- More is known, and the changes are those of `l` more. -/
structure Session.Goes (l : List (FsCall × Byte)) (g g' : Session) : Prop where
  known : g.known ⊆ g'.known
  log : g'.log = g.log ++ l

variable {g g' g'' : Session} {l l' : List (FsCall × Byte)} {α β : Type} {place moved : Place}
  {line : CommandLine} {t : FAT32DirectoryTable} {behind : List Byte} {p : ShellProgram α}
  {f : α → ShellProgram β}

theorem Session.Goes.refl (g : Session) : g.Goes [] g := ⟨subset_rfl, (List.append_nil _).symm⟩

theorem Session.Goes.trans (h : g.Goes l g') (h' : g'.Goes l' g'') : g.Goes (l ++ l') g'' where
  known := h.known.trans h'.known
  log := by rw [h'.log, h.log, List.append_assoc]

/-- A program asks for changes, and returns; `Q` tells of both in the phase that it comes
to. -/
def Logs (p : ShellProgram α) (g : Session)
    (Q : List (FsCall × Byte) → Session → α → Prop) : Prop :=
  p.Follows sessionProtocol (fun _ _ => True) g fun g' a => ∃ l, g.Goes l g' ∧ Q l g' a

/-- A program asks for no change. -/
def Peeks (p : ShellProgram α) (g : Session) (Q : Session → α → Prop) : Prop :=
  Logs p g fun l g' a => l = [] ∧ Q g' a

variable {Q Q' : List (FsCall × Byte) → Session → α → Prop} {P P' : Session → α → Prop}
  {R : List (FsCall × Byte) → Session → β → Prop}

theorem logs_pure {a : α} (h : Q [] g a) : Logs (pure a) g Q := ⟨[], .refl g, h⟩

theorem peeks_pure {a : α} (h : P g a) : Peeks (pure a) g P := logs_pure ⟨rfl, h⟩

/-- One part after the other: the changes of the first come first. -/
theorem Logs.bind (h : Logs p g Q)
    (hf : ∀ g' l a, g.Goes l g' → Q l g' a → Logs (f a) g' fun l' => R (l ++ l')) :
    Logs (p >>= f) g R := by
  refine Program.Follows.bind h ?_
  rintro g' a ⟨l, hgoes, ha⟩
  refine (hf g' l a hgoes ha).mono ?_
  rintro g'' b ⟨l', hgoes', hb⟩
  exact ⟨l ++ l', hgoes.trans hgoes', hb⟩

/-- What comes behind a part that asks for no change. -/
theorem Peeks.bind (h : Peeks p g P)
    (hf : ∀ g' a, g.known ⊆ g'.known → P g' a → Logs (f a) g' R) : Logs (p >>= f) g R := by
  refine Logs.bind h ?_
  rintro g' l a hgoes ⟨rfl, ha⟩
  exact hf g' a hgoes.known ha

theorem Logs.mono (h : Logs p g Q)
    (hQ : ∀ l g' a, g.known ⊆ g'.known → Q l g' a → Q' l g' a) : Logs p g Q' := by
  refine Program.Follows.mono h ?_
  rintro g' a ⟨l, hgoes, ha⟩
  exact ⟨l, hgoes, hQ l g' a hgoes.known ha⟩

theorem peeks_ofExcept {x : Except ShellFault α} (h : ∀ a, x = .ok a → P g a) :
    Peeks (Program.ofExcept x) g P := by
  apply Program.follows_ofExcept
  · exact fun _ _ => trivial
  · exact fun a ha => ⟨[], .refl g, rfl, h a ha⟩

/-! ### Calls -/

theorem tell_peeks {c : ShellCall} (hgood : g.Good c) (hnext : ∀ reply, g.next c reply = g) :
    Peeks (tell c) g fun g' _ => g' = g := by
  refine ⟨hgood, fun reply _ => ⟨[], ?_, rfl, hnext reply⟩⟩
  show g.Goes [] (g.next c reply)
  rw [hnext]
  exact .refl g

theorem tell_text_peeks {call : TextCall} : Peeks (tell (.text call)) g fun g' _ => g' = g :=
  tell_peeks trivial fun _ => rfl

/-- Something is printed first. -/
theorem Logs.print {call : TextCall} {f : Unit → ShellProgram β} (h : Logs (f ()) g R) :
    Logs (tell (.text call) >>= f) g R := by
  refine Peeks.bind tell_text_peeks ?_
  rintro g' _ - rfl
  exact h

theorem say_peeks {message : List Char} {count color : Byte} :
    Peeks (say message count color) g fun g' _ => g' = g :=
  tell_text_peeks

theorem sayCode_peeks {message : List Char} {count code : Byte} :
    Peeks (sayCode message count code) g fun g' _ => g' = g := by
  apply Logs.print
  exact tell_text_peeks

/-- A table that is shown is learned. -/
theorem table_peeks {name : EntryName} {d : BitVec 32} (hd : d ∈ g.known) :
    Peeks (Program.ask (.fs ⟨.readDirectory,
      ⟨stackBuffer, name, 0, d, BitVec.ofNat 32 clusterSize⟩, zeroMemory⟩)) g
      fun g' reply => reply.retcode = 0 →
        FAT32DirectoryTable.shown (.ofCluster (reply.mem.load stackBuffer)) ⊆ g'.known := by
  refine ⟨⟨hd, ⟨by simp, by simp⟩⟩, fun reply _ => ⟨[], ?_⟩⟩
  show g.Goes [] (if reply.retcode = 0 then _ else g) ∧ [] = [] ∧ (_ →
    _ ⊆ (if reply.retcode = 0 then _ else g : Session).known)
  by_cases hret : reply.retcode = 0
  · rw [if_pos hret]
    exact ⟨⟨Set.subset_union_left, (List.append_nil _).symm⟩, rfl, fun _ => Set.subset_union_right⟩
  · rw [if_neg hret]
    exact ⟨.refl g, rfl, fun h => absurd h hret⟩

theorem read_peeks {request : FAT32DriverRequest} {mem : Memory}
    (hd : request.parentClusterNumber ∈ g.known) :
    Peeks (Program.ask (.fs ⟨.read, request, mem⟩)) g fun g' _ => g' = g :=
  ⟨⟨hd, ⟨by simp, by simp⟩⟩, fun _ _ => ⟨[], .refl g, rfl, rfl⟩⟩

theorem write_logs {request : FAT32DriverRequest} {mem : Memory}
    (hd : request.parentClusterNumber ∈ g.known)
    (hname : request.bufferSize = 0 → PaddedName request.name) :
    Logs (Program.ask (.fs ⟨.write, request, mem⟩)) g fun l g' reply =>
      l = [(⟨.write, request, mem⟩, reply.retcode)] ∧ g'.known = g.known :=
  ⟨⟨hd, ⟨by simp, fun _ => hname⟩⟩, fun _ _ => ⟨_, ⟨subset_rfl, rfl⟩, rfl, rfl⟩⟩

theorem delete_logs {request : FAT32DriverRequest} {mem : Memory}
    (hd : request.parentClusterNumber ∈ g.known) (hext : request.ext ≠ 0) :
    Logs (Program.ask (.fs ⟨.delete, request, mem⟩)) g fun l g' reply =>
      l = [(⟨.delete, request, mem⟩, reply.retcode)] ∧ g'.known = g.known :=
  ⟨⟨hd, ⟨fun _ => hext, by simp⟩⟩, fun _ _ => ⟨_, ⟨subset_rfl, rfl⟩, rfl, rfl⟩⟩

/-! ### Paths -/

/-- The shell knows the root and the directory where it stands. -/
structure Session.At (g : Session) (place : Place) : Prop where
  root : rootClusterNumber ∈ g.known
  here : place.workingDirectory ∈ g.known

theorem Session.At.mono (h : g.At place) (hle : g.known ⊆ g'.known) : g'.At place :=
  ⟨hle h.root, hle h.here⟩

/-- A change of directory leads to where one stands, or to what the table shows. -/
theorem changeDir_at {path next : EntryName} (hplace : g.At place) (ht : t.shown ⊆ g.known)
    (hc : changeDir behind path t place = .ok (some (next, moved))) : g.At moved := by
  unfold changeDir at hc
  dsimp only at hc
  split_ifs at hc with hdot hdots hroot
  · cases hc
    exact hplace
  · cases hc
    exact ⟨hplace.root, ht (.inl rfl)⟩
  · cases hc
  · cases hslot : t.folderSlot (pathString behind path) with
    | none =>
        rw [hslot] at hc
        cases hc
    | some i =>
        rw [hslot] at hc
        obtain ⟨b, -, hc⟩ := bind_eq_ok.mp hc
        obtain ⟨b', -, hc⟩ := bind_eq_ok.mp hc
        cases hc
        exact ⟨hplace.root, ht (.inr ⟨i, (folderSlot_eq_some hslot).2.1, rfl⟩)⟩

theorem enterFolder_peeks {name path : EntryName} (hplace : g.At place) :
    Peeks (enterFolder behind name path place) g fun g' r => ∀ e ∈ r, g'.At e.2 := by
  refine (table_peeks hplace.here).bind fun g' reply hle hshown => ?_
  split_ifs with hret
  · apply peeks_ofExcept
    rintro r hr ⟨next, moved⟩ he
    obtain rfl : r = some (next, moved) := he
    exact changeDir_at (hplace.mono hle) (hshown hret) hr
  · exact peeks_pure fun e he => by cases he

theorem walkPath_peeks {path pathBuffer : List Byte} {name : EntryName} (hplace : g.At place) :
    Peeks (walkPath (enterFolder behind) path pathBuffer name place) g
      fun g' r => ∀ moved ∈ r, g'.At moved := by
  induction path generalizing g pathBuffer name place with
  | nil =>
      rw [walkPath]
      split_ifs with hempty
      · refine peeks_pure fun moved hmoved => ?_
        obtain rfl := Option.some.inj hmoved
        exact hplace
      · refine (enterFolder_peeks hplace).bind fun g' r _ hr => peeks_pure ?_
        intro moved hmoved
        obtain ⟨⟨next, moved'⟩, he, rfl⟩ := Option.map_eq_some_iff.mp hmoved
        exact hr _ he
  | cons c path ih =>
      rw [walkPath]
      split_ifs with hslash hempty hfull
      · exact peeks_pure fun moved hmoved => by cases hmoved
      · refine (enterFolder_peeks hplace).bind fun g' r _ hr => ?_
        cases r with
        | none => exact peeks_pure fun moved hmoved => by cases hmoved
        | some e => exact ih (hr e rfl)
      · exact peeks_pure fun moved hmoved => by cases hmoved
      · exact ih hplace

/-- **A path leads to a directory that the shell knows.** -/
theorem multipleCd_peeks {path : List Byte} (hplace : g.At place) :
    Peeks (multipleCd behind path place) g fun g' r => g'.At r.2 := by
  rw [multipleCd]
  cases hs : startOfPath path place with
  | none => exact peeks_pure hplace
  | some walked =>
      obtain ⟨rest, name, start⟩ := walked
      have hstart : g.At start := by
        unfold startOfPath at hs
        dsimp only at hs
        split_ifs at hs with hlong hfirst
        · cases hs
          exact ⟨hplace.root, hplace.root⟩
        · cases hs
          exact hplace
      refine (walkPath_peeks hstart).bind fun g' r hle hr => ?_
      cases r with
      | none => exact peeks_pure (hplace.mono hle)
      | some moved => exact peeks_pure (hr moved rfl)

end Binbows
