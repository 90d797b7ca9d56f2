/-
Binbows/FileRequests.lean

Which file a command reads or deletes.

`cat` and `cp` make one read, `rm` makes one delete, and all other requests of theirs are
for tables and for the copy.  The file of that request is fixed by the line and the folders:
it is `Volume.catSource`, `Volume.moveSource` and `Volume.removeTarget`.  With the file
system to itself each command asks for that file and for no other (`cat_asks`, `rm_asks`,
`cp_asks`).
-/
import Binbows.CatOutput

namespace Binbows

open Chain SlotTree Bytes Volume Run Calls Moves
open Terminal (chars text)

variable {others : ShellCall → ShellWorld → Except ShellFault (ShellReply × ShellWorld)}
  {w w' : ShellWorld} {v : Volume} {d c : BitVec 32} {k : FileKey} {mem : Memory}
  {line : CommandLine} {place moved : Place} {source : Except ShellFault (Option FileKey)}
  {l : List (ShellCall × ShellReply)} {call : ShellCall} {reply : ShellReply} {stack : CopyStack}
  {behind : List Byte}

/-! ### The requests of a run -/

/-- The file that a call reads or deletes. -/
def ShellCall.actsOn : ShellCall → Option FileKey
  | .fs call => if call.op = .read ∨ call.op = .delete then some call.request.key else none
  | _ => none

/-- The files that are read or deleted by some calls. -/
def acted (l : List (ShellCall × ShellReply)) : List FileKey := l.filterMap fun e => e.1.actsOn

theorem acted_concat : acted (l ++ [(call, reply)]) = acted l ++ call.actsOn.toList := by
  rw [acted, List.filterMap_append, List.filterMap_cons]
  cases call.actsOn with
  | none => rfl
  | some k => rfl

/-- A call that reads and deletes nothing. -/
theorem acted_quiet (h : call.actsOn = none) : acted (l ++ [(call, reply)]) = acted l := by
  rw [acted_concat, h, Option.toList_none, List.append_nil]

/-- The first call that reads or deletes. -/
theorem acted_first (hnil : acted l = []) (h : call.actsOn = some k) :
    acted (l ++ [(call, reply)]) = [k] := by
  rw [acted_concat, h, hnil, List.nil_append, Option.toList_some]

/-- A run reads or deletes the file `source` and no other.  It returns where there is no
such file, and it stops where the search for the file does. -/
structure Asks (source : Except ShellFault (Option FileKey)) (keys : List FileKey)
    (returns : Prop) : Prop where
  file : ∀ k, source = .ok (some k) → keys = [k]
  nothing : source = .ok none → keys = [] ∧ returns
  fault : ∀ e, source = .error e → keys = [] ∧ ¬ returns

variable {returns : Prop} {keys : List FileKey}

theorem Asks.of_file (hk : source = .ok (some k)) (h : keys = [k]) : Asks source keys returns where
  file k' hk' := by
    cases hk.symm.trans hk'
    exact h
  nothing hnone := by cases hk.symm.trans hnone
  fault e he := by cases hk.symm.trans he

theorem Asks.of_nothing (hnone : source = .ok none) (h : keys = []) (hreturns : returns) :
    Asks source keys returns where
  file k hk := by cases hk.symm.trans hnone
  nothing _ := ⟨h, hreturns⟩
  fault e he := by cases he.symm.trans hnone

theorem Asks.of_fault {e : ShellFault} (he : source = .error e) (h : keys = [])
    (hstops : ¬ returns) : Asks source keys returns where
  file k hk := by cases hk.symm.trans he
  nothing hnone := by cases hnone.symm.trans he
  fault _ _ := ⟨h, hstops⟩

/-! ### cat -/

/-- What `cat` has read in a phase. -/
def CatActs (v : Volume) (behind : List Byte) (line : CommandLine) (place : Place) :
    CatPhase → List FileKey → Prop
  | .start, keys => keys = []
  | .missing, keys => keys = []
  | _, keys => ∃ k, v.catSource behind line place = .ok (some k) ∧ keys = [k]

theorem catActs_call {g : CatPhase} (h : CatActs v behind line place g (acted l))
    (hcall : (catProtocol v behind line place).good g call) :
    CatActs v behind line place ((catProtocol v behind line place).next g call reply)
      (acted (l ++ [(call, reply)])) := by
  cases hcall with
  | look hd name =>
      rw [acted_quiet rfl]
      exact h
  | @read k hk =>
      rw [acted_first h (k := k) rfl]
      show CatActs v behind line place
          (if reply.retcode = 0 then .loaded reply.mem else .unreadable) [k]
      split_ifs
      · exact ⟨k, hk, rfl⟩
      · exact ⟨k, hk, rfl⟩
  | explain =>
      rw [acted_quiet rfl]
      exact h
  | explainMore =>
      rw [acted_quiet rfl]
      exact h
  | sayFailed =>
      rw [acted_quiet rfl]
      exact h
  | print =>
      rw [acted_quiet rfl]
      exact h

/-- **`cat` reads its source and no other file**, and it returns when it has one. -/
theorem cat_asks
    (others : ShellCall → ShellWorld → Except ShellFault (ShellReply × ShellWorld))
    (behind : List Byte) (line : CommandLine) (hs : Tidy w.fs)
    (hplace : w.fs.volume.Directory place.workingDirectory) :
    ∃ l w', Exec (serve others) w l w' ∧
      ((∃ a, (cat behind line place).Trace l a) ∨ ∃ e, (cat behind line place).Stops l e) ∧
      Asks (w.fs.volume.catSource behind line place) (acted l)
        (∃ a, (cat behind line place).Trace l a) ∧
      ∀ k, w.fs.volume.catSource behind line place = .ok (some k) →
        ∃ a, (cat behind line place).Trace l a := by
  have hstart : CatState w behind line place .start w := ⟨.rfl, rfl⟩
  obtain ⟨l, g, w', hexec, -, hacts, hend⟩ :=
    (cat_follows behind line hs.wellFormed.toIntact hplace).run_history (h := [])
      (J := fun g l => CatActs w.fs.volume behind line place g (acted l))
      (catState_upholds others hs hplace) hstart rfl catActs_call
  rw [List.nil_append] at hacts
  refine ⟨l, w', hexec, ?_⟩
  -- at the end, or at a fault, the phase tells what was asked for
  rcases hend with ⟨a, htrace, -, hends⟩ | ⟨e, hstop, hfault⟩
  · refine ⟨.inl ⟨a, htrace⟩, ?_, fun k _ => ⟨a, htrace⟩⟩
    cases g with
    | start => exact absurd hends id
    | loaded mem => exact absurd hends id
    | missing => exact .of_nothing hends hacts ⟨a, htrace⟩
    | unreadable =>
        obtain ⟨k, hk, hkeys⟩ := hacts
        exact .of_file hk hkeys
    | printed =>
        obtain ⟨k, hk, hkeys⟩ := hacts
        exact .of_file hk hkeys
  · cases g with
    | start =>
        refine ⟨.inr ⟨e, hstop⟩, .of_fault hfault hacts fun ⟨_, htrace⟩ => hstop.not_trace htrace, ?_⟩
        intro k hk
        cases hk.symm.trans hfault
    | missing => exact absurd hfault id
    | unreadable => exact absurd hfault id
    | loaded mem => exact absurd hfault id
    | printed => exact absurd hfault id

/-! ### The calls of rm and cp -/

/-- Whether the file was asked for. -/
inductive AskPhase
  | looking
  | asked

/-- The calls of a command that asks for one file: it looks at tables first, and behind the
request it may write. -/
inductive AskCall (v : Volume) (source : Except ShellFault (Option FileKey)) :
    AskPhase → ShellCall → Prop
  | look {g : AskPhase} {d : BitVec 32} : v.Directory d → (name : EntryName) →
      AskCall v source g (.fs (tableRequest name d))
  | read {k : FileKey} : source = .ok (some k) → AskCall v source .looking (.fs (readRequest k))
  | delete {k : FileKey} : source = .ok (some k) → AskCall v source .looking (.fs (deleteRequest k))
  | write {k : FileKey} {mem : Memory} : k.Below v →
      AskCall v source .asked (.fs (writeRequest k mem))
  | tell {g : AskPhase} {call : TextCall} : AskCall v source g (.text call)

def AskPhase.next (g : AskPhase) (call : ShellCall) : AskPhase :=
  if call.actsOn = none then g else .asked

def askProtocol (v : Volume) (source : Except ShellFault (Option FileKey)) :
    Protocol ShellCall ShellReply AskPhase where
  good := AskCall v source
  valid call reply := ∀ name d, v.Directory d → call = .fs (tableRequest name d) →
    ShowsFolder v d name reply
  next g call _ := g.next call

variable {g : AskPhase}

theorem askProtocol_looks : Looks (askProtocol v source) v g where
  good hd name := .look hd name
  valid hd hvalid := hvalid _ _ hd rfl
  next := rfl

/-- A command stops before its request only where the search for the file stops. -/
def AskFaults (source : Except ShellFault (Option FileKey)) (g : AskPhase) (e : ShellFault) : Prop :=
  g = .looking → source = .error e

/-- It returns before its request only where there is no file to ask for. -/
def AskEnds (source : Except ShellFault (Option FileKey)) (g : AskPhase) : Prop :=
  g = .looking → source = .ok none

theorem askEnds_asked : AskEnds source .asked := nofun

theorem askFaults_asked {e : ShellFault} : AskFaults source .asked e := nofun

/-- What was asked for in a phase. -/
def AskActs (source : Except ShellFault (Option FileKey)) : AskPhase → List FileKey → Prop
  | .looking, keys => keys = []
  | .asked, keys => ∃ k, source = .ok (some k) ∧ keys = [k]

theorem askActs_call (h : AskActs source g (acted l)) (hcall : (askProtocol v source).good g call) :
    AskActs source ((askProtocol v source).next g call reply) (acted (l ++ [(call, reply)])) := by
  cases hcall with
  | look hd name =>
      rw [acted_quiet rfl]
      exact h
  | @read k hk => exact ⟨k, hk, acted_first h rfl⟩
  | @delete k hk => exact ⟨k, hk, acted_first h rfl⟩
  | write =>
      rw [acted_quiet rfl]
      exact h
  | tell =>
      rw [acted_quiet rfl]
      exact h

/-- The folders stay as they are while a command asks for its file. -/
def AskState (v : Volume) (w : ShellWorld) : Prop := Tidy w.fs ∧ SameFolders v w.fs.volume

theorem AskState.directory (h : AskState v w) (hd : v.Directory d) : w.fs.volume.Directory d :=
  h.2.directory.mpr hd

theorem AskState.of_sameDisk (h : AskState v w) (hsame : SameDisk w.fs w'.fs) : AskState v w' := by
  refine ⟨hsame.tidy h.1, ?_⟩
  rw [hsame.volume_eq]
  exact h.2

theorem askState_upholds
    (others : ShellCall → ShellWorld → Except ShellFault (ShellReply × ShellWorld))
    (hsource : ∀ k, source = .ok (some k) → k.Below v) :
    Upholds (serve others) (askProtocol v source) fun _ w => AskState v w := by
  rintro g call w hstate hcall
  -- by the call: only a delete and a write change the files, and none the folders
  cases hcall with
  | look hd name =>
      obtain ⟨reply, w', hserve, hshows, hsame, -⟩ := serve_look others hstate.1 hstate.2 hd name
      refine ⟨reply, w', hserve, ?_, hstate.of_sameDisk hsame⟩
      intro name' d' _ heq
      have hrequest := ShellCall.fs.inj heq
      have hname : name = name' := congrArg (fun call => call.request.name) hrequest
      have hdir : _ = d' := congrArg (fun call => call.request.parentClusterNumber) hrequest
      rwa [← hname, ← hdir]
  | read hk =>
      obtain ⟨reply, w', hserve, hsame, -⟩ :=
        serve_read others hstate.1 (hstate.directory (hsource _ hk).directory)
      refine ⟨reply, w', hserve, ?_, hstate.of_sameDisk hsame⟩
      intro name d _ heq
      exact absurd (congrArg FsCall.op (ShellCall.fs.inj heq)) nofun
  | delete hk =>
      obtain ⟨reply, w', hserve, htidy, -, hsets, -⟩ :=
        serve_delete others hstate.1 ((hsource _ hk).of_folders hstate.2)
      refine ⟨reply, w', hserve, ?_, htidy, hstate.2.trans hsets.folders⟩
      intro name d _ heq
      exact absurd (congrArg FsCall.op (ShellCall.fs.inj heq)) nofun
  | write hk =>
      obtain ⟨reply, w', hserve, htidy, -, hcase⟩ :=
        serve_write others _ hstate.1 (hk.of_folders hstate.2)
      refine ⟨reply, w', hserve, ?_, ?_⟩
      · intro name d _ heq
        exact absurd (congrArg FsCall.op (ShellCall.fs.inj heq)) nofun
      · rcases hcase with ⟨-, -, -, hsets⟩ | ⟨-, hsame, -⟩
        · exact ⟨htidy, hstate.2.trans hsets.folders⟩
        · exact hstate.of_sameDisk hsame
  | tell => exact ⟨_, _, rfl, nofun, hstate⟩

/-- A command that follows the protocol asks for its file and for no other. -/
theorem asks_of_follows {α : Type} {p : ShellProgram α}
    (others : ShellCall → ShellWorld → Except ShellFault (ShellReply × ShellWorld))
    (hs : Tidy w.fs) (hsource : ∀ k, source = .ok (some k) → k.Below w.fs.volume)
    (hp : p.Follows (askProtocol w.fs.volume source) (AskFaults source) .looking
      fun g _ => AskEnds source g) :
    ∃ l w', Exec (serve others) w l w' ∧ ((∃ a, p.Trace l a) ∨ ∃ e, p.Stops l e) ∧
      Asks source (acted l) (∃ a, p.Trace l a) := by
  have hstart : AskState w.fs.volume w := ⟨hs, .refl _⟩
  obtain ⟨l, g, w', hexec, -, hacts, hend⟩ := hp.run_history (h := [])
    (J := fun g l => AskActs source g (acted l)) (askState_upholds others hsource) hstart rfl
      askActs_call
  rw [List.nil_append] at hacts
  refine ⟨l, w', hexec, ?_⟩
  cases g with
  | looking =>
      rcases hend with ⟨a, htrace, hends⟩ | ⟨e, hstop, hfault⟩
      · exact ⟨.inl ⟨a, htrace⟩, .of_nothing (hends rfl) hacts ⟨a, htrace⟩⟩
      · exact ⟨.inr ⟨e, hstop⟩, .of_fault (hfault rfl) hacts fun ⟨_, htrace⟩ =>
          hstop.not_trace htrace⟩
  | asked =>
      obtain ⟨k, hk, hkeys⟩ := hacts
      refine ⟨?_, .of_file hk hkeys⟩
      rcases hend with ⟨a, htrace, -⟩ | ⟨e, hstop, -⟩
      · exact .inl ⟨a, htrace⟩
      · exact .inr ⟨e, hstop⟩

section

variable {E : AskPhase → ShellFault → Prop}

theorem askTell_follows {call : TextCall} (hends : AskEnds source g) :
    (tell (.text call)).Follows (askProtocol v source) E g fun g _ => AskEnds source g := by
  refine Program.Follows.bind (Program.follows_ask (Q := fun g' _ => g' = g) .tell
    fun _ _ => rfl) ?_
  rintro _ - rfl
  exact Program.follows_pure hends

end

/-! ### rm -/

theorem removeTarget_below (h : v.Intact) (hplace : v.Directory place.workingDirectory)
    (hk : v.removeTarget behind line place = .ok (some k)) : k.Below v := by
  obtain ⟨args, hargs, hk⟩ := bind_eq_ok.mp hk
  rcases args with - | ⟨path, name, ext⟩
  · cases hk
  · obtain ⟨⟨ret, moved⟩, hresolve, hend⟩ := bind_eq_ok.mp hk
    dsimp only at hend
    split_ifs at hend with hret
    · cases hend
      unfold CommandLine.removeArgs at hargs
      split_ifs at hargs with hno
      · cases hargs
      · obtain ⟨buf, -, hparse⟩ := bind_eq_ok.mp hargs
        rw [hret] at hresolve
        exact ⟨resolve_directory h hplace hresolve, parseRemove_eq_some hparse⟩
    · cases hend

/-- `rm` looks its file up and deletes it. -/
theorem rm_looks (h : v.Intact) (hplace : v.Directory place.workingDirectory)
    (hno : ¬ line.NoArguments 2) :
    (rm behind line place).Follows (askProtocol v (v.removeTarget behind line place))
      (AskFaults (v.removeTarget behind line place)) .looking
      fun g _ => AskEnds (v.removeTarget behind line place) g := by
  -- the program and `removeTarget` go through the same steps
  have hargs : line.removeArgs = line.arguments 3 >>= parseRemove := if_neg hno
  unfold rm
  refine Program.Follows.bind (Program.follows_ofExcept
    (Q := fun g buf => g = .looking ∧ line.arguments 3 = .ok buf) ?_ fun _ hb => ⟨rfl, hb⟩) ?_
  · intro e he _
    rw [Volume.removeTarget, hargs, he]
    rfl
  rintro _ buf ⟨rfl, hbuf⟩
  rw [hbuf] at hargs
  change _ = parseRemove buf at hargs
  refine Program.Follows.bind (Program.follows_ofExcept
    (Q := fun g args => g = .looking ∧ parseRemove buf = .ok args) ?_ fun _ hp => ⟨rfl, hp⟩) ?_
  · intro e he _
    rw [Volume.removeTarget, hargs, he]
    rfl
  rintro _ (- | ⟨path, name, ext⟩) ⟨rfl, hparse⟩
  · refine Program.follows_pure fun _ => ?_
    rw [Volume.removeTarget, hargs, hparse]
    rfl
  · have htarget : v.removeTarget behind line place = v.resolve behind path place >>= fun r =>
        pure (if r.1 = 0 then some ⟨r.2.workingDirectory, name, ext⟩ else none) := by
      rw [Volume.removeTarget, hargs, hparse]
      rfl
    dsimp only
    refine Program.Follows.bind (multipleCd_follows h askProtocol_looks hplace fun e he _ => ?_) ?_
    · rw [htarget, he]
      rfl
    -- the path has been walked, and the delete is sent where it led
    rintro _ ⟨ret, moved⟩ ⟨rfl, hresolve⟩
    rw [hresolve] at htarget
    change _ = Except.ok (ite _ _ _) at htarget
    dsimp only
    by_cases hret : ret = 0
    · rw [if_pos hret] at htarget
      rw [if_neg (not_not.mpr hret)]
      refine Program.Follows.bind (Program.follows_ask (Q := fun g _ => g = .asked)
        (.delete htarget) fun _ _ => rfl) ?_
      rintro _ reply rfl
      exact Program.follows_pure askEnds_asked
    · rw [if_neg hret] at htarget
      rw [if_pos hret]
      exact Program.follows_pure fun _ => htarget

/-- **`rm` deletes its target and no other file.** -/
theorem rm_asks
    (others : ShellCall → ShellWorld → Except ShellFault (ShellReply × ShellWorld))
    (behind : List Byte) (line : CommandLine) (hs : Tidy w.fs)
    (hplace : w.fs.volume.Directory place.workingDirectory) :
    ∃ l w', Exec (serve others) w l w' ∧
      ((∃ a, (rmCaller behind line place).Trace l a) ∨ ∃ e, (rmCaller behind line place).Stops l e) ∧
      Asks (w.fs.volume.removeTarget behind line place) (acted l)
        (∃ a, (rmCaller behind line place).Trace l a) := by
  have hv := hs.wellFormed.toIntact
  apply asks_of_follows others hs fun k hk => removeTarget_below hv hplace hk
  unfold rmCaller
  split_ifs with hno
  · have hnone : w.fs.volume.removeTarget behind line place = .ok none := by
      rw [Volume.removeTarget, CommandLine.removeArgs, if_pos hno]
      rfl
    exact Program.Follows.bind (askTell_follows fun _ => hnone) fun g _ hends =>
      Program.follows_pure hends
  · refine Program.Follows.bind (rm_looks hv hplace hno) ?_
    rintro g ⟨code, place'⟩ hends
    dsimp only
    split_ifs
    all_goals exact Program.Follows.bind (askTell_follows hends) fun g _ hends =>
      Program.follows_pure hends

/-! ### cp -/

variable {t : FAT32DirectoryTable} {text : List Byte} {args : CopyArgs}

theorem sayCopyFailed_asks (code : Nat) (hends : AskEnds source g) :
    (sayCopyFailed code).Follows (askProtocol v source) (AskFaults source) g
      fun g _ => AskEnds source g := by
  unfold sayCopyFailed
  split
  all_goals first | exact askTell_follows hends | exact Program.follows_pure hends

/-- The writes into folders, behind the request. -/
theorem copyInto_asks (request : FAT32DriverRequest) (ns : List (Fin directoryEntryCount))
    (found : Bool) (hd : v.Directory c) (ht : SameFolderTable (v.table c) t)
    (hrequest : request.buf = stackBuffer ∧ request.bufferSize = fileBufferSize)
    (hext : request.ext ≠ 0) (hns : ∀ n ∈ ns, 2 ≤ n.val) :
    (copyInto ⟨.write, request, mem⟩ text t ns found).Follows (askProtocol v source)
      (AskFaults source) .asked fun g _ => AskEnds source g := by
  induction ns generalizing found with
  | nil => exact Program.follows_pure askEnds_asked
  | cons n ns ih =>
      have hrest : ∀ m ∈ ns, 2 ≤ m.val := fun m hm => hns m (List.mem_cons_of_mem _ hm)
      rw [copyInto]
      split_ifs with hmatch
      · have hn : t n = v.table c n := ht n (.inr ⟨hmatch.1, hmatch.2.2⟩)
        have hchild : v.Directory (t n).cluster := by
          rw [hn] at hmatch ⊢
          exact .child hd (child_eq_some_iff.mpr
            ⟨⟨hns n List.mem_cons_self, hmatch.1, hmatch.2.2⟩, rfl⟩)
        have hwrite : (⟨.write, { request with parentClusterNumber := (t n).cluster }, mem⟩ :
            FsCall) = writeRequest ⟨(t n).cluster, request.name, request.ext⟩ mem := by
          rw [writeRequest, ← hrequest.1, ← hrequest.2]
        dsimp only
        rw [hwrite]
        refine Program.Follows.bind (Program.follows_ask (Q := fun g _ => g = .asked)
          (.write ⟨hchild, hext⟩) fun _ _ => rfl) ?_
        rintro _ reply rfl
        split_ifs
        · exact Program.follows_pure askEnds_asked
        · exact ih true hrest
      · exact ih found hrest

theorem two_le_of_mem_childSlots {n : Fin directoryEntryCount} (h : n ∈ childSlots) : 2 ≤ n.val := by
  simpa [childSlots] using h

/-- What `cp` does once it has its source. -/
theorem copyWrite_asks {p : BitVec 32} (h : v.Intact) (hmoved : v.Directory moved.workingDirectory)
    (hsrc : args.srcExt ≠ 0) (hdest : args.destExt ≠ [] → buffer 3 args.destExt ≠ 0) :
    (copyWrite stack args ⟨stackBuffer, args.srcName, args.srcExt, p, fileBufferSize⟩ mem moved).Follows
      (askProtocol v source) (AskFaults source) .asked fun g _ => AskEnds source g := by
  unfold copyWrite
  split_ifs with hfolder
  · refine Program.Follows.bind (askProtocol_looks.ask_follows hmoved) ?_
    rintro _ reply ⟨rfl, ⟨hret, -⟩ | ⟨hret, c, hc, htable⟩⟩
    · rw [if_pos hret]
      exact Program.follows_pure askEnds_asked
    · rw [if_neg (not_not.mpr hret)]
      exact copyInto_asks _ _ _ (folderNamed_directory h hmoved hc) htable ⟨rfl, rfl⟩ hsrc
        fun n => two_le_of_mem_childSlots
  · have hbelow : FileKey.Below ⟨moved.workingDirectory, args.destName, buffer 3 args.destExt⟩ v :=
      ⟨hmoved, hdest hfolder⟩
    refine Program.Follows.bind (Program.follows_ask (Q := fun g _ => g = .asked)
      (.write hbelow) fun _ _ => rfl) ?_
    rintro _ reply rfl
    split_ifs
    all_goals exact Program.follows_pure askEnds_asked

/-- `cp` looks its source up and reads it. -/
theorem cp_looks (h : v.Intact) (hplace : v.Directory place.workingDirectory)
    (hno : ¬ line.NoArguments 2) :
    (cp stack line place).Follows (askProtocol v (v.moveSource stack line place))
      (AskFaults (v.moveSource stack line place)) .looking
      fun g _ => AskEnds (v.moveSource stack line place) g := by
  -- the program and `moveSource` go through the same steps
  have hargs : line.moveArgs = line.arguments 3 >>= parseCopy := if_neg hno
  unfold cp
  refine Program.Follows.bind (Program.follows_ofExcept
    (Q := fun g buf => g = .looking ∧ line.arguments 3 = .ok buf) ?_ fun _ hb => ⟨rfl, hb⟩) ?_
  · intro e he _
    rw [Volume.moveSource, hargs, he]
    rfl
  rintro _ buf ⟨rfl, hbuf⟩
  rw [hbuf] at hargs
  change _ = parseCopy buf at hargs
  refine Program.Follows.bind (Program.follows_ofExcept
    (Q := fun g args => g = .looking ∧ parseCopy buf = .ok args) ?_ fun _ hp => ⟨rfl, hp⟩) ?_
  · intro e he _
    rw [Volume.moveSource, hargs, he]
    rfl
  rintro _ (- | args) ⟨rfl, hparse⟩
  · refine Program.follows_pure fun _ => ?_
    rw [Volume.moveSource, hargs, hparse]
    rfl
  · have hsource : v.moveSource stack line place = v.resolve stack.src args.src place >>= fun r =>
        pure (if r.1 = 0 then some ⟨r.2.workingDirectory, args.srcName, args.srcExt⟩ else none) := by
      rw [Volume.moveSource, hargs, hparse]
      rfl
    dsimp only
    refine Program.Follows.bind (multipleCd_follows h askProtocol_looks hplace fun e he _ => ?_) ?_
    · rw [hsource, he]
      rfl
    -- the path of the source has been walked, and the read is sent where it led
    rintro _ ⟨ret, moved⟩ ⟨rfl, hresolve⟩
    rw [hresolve] at hsource
    change _ = Except.ok (ite _ _ _) at hsource
    dsimp only
    by_cases hret : ret = 0
    · rw [if_pos hret] at hsource
      rw [if_neg (not_not.mpr hret)]
      refine Program.Follows.bind (Program.follows_ask (Q := fun g _ => g = .asked)
        (.read hsource) fun _ _ => rfl) ?_
      rintro _ reply rfl
      split_ifs
      -- behind the read nothing counts any more
      · exact Program.follows_pure askEnds_asked
      · refine Program.Follows.bind (multipleCd_follows h askProtocol_looks hplace
          fun _ _ => askFaults_asked) ?_
        rintro _ ⟨ret', dest⟩ ⟨rfl, hdest⟩
        dsimp only
        split_ifs with hret'
        · exact Program.follows_pure askEnds_asked
        · rw [not_not.mp hret'] at hdest
          refine Program.Follows.bind (copyWrite_asks h (resolve_directory h hplace hdest)
            (srcExt_ne_zero hparse) (destExt_ne_zero hparse)) ?_
          exact fun g code hends => Program.follows_pure hends
    · rw [if_neg hret] at hsource
      rw [if_pos hret]
      exact Program.follows_pure fun _ => hsource

/-- **`cp` reads its source and no other file**, and it deletes none. -/
theorem cp_asks
    (others : ShellCall → ShellWorld → Except ShellFault (ShellReply × ShellWorld))
    (stack : CopyStack) (line : CommandLine) (hs : Tidy w.fs)
    (hplace : w.fs.volume.Directory place.workingDirectory) :
    ∃ l w', Exec (serve others) w l w' ∧
      ((∃ a, (cpCaller stack line place).Trace l a) ∨ ∃ e, (cpCaller stack line place).Stops l e) ∧
      Asks (w.fs.volume.moveSource stack line place) (acted l)
        (∃ a, (cpCaller stack line place).Trace l a) := by
  have hv := hs.wellFormed.toIntact
  apply asks_of_follows others hs fun k hk => moveSource_below hv hplace hk
  unfold cpCaller
  split_ifs with hno
  · have hnone : w.fs.volume.moveSource stack line place = .ok none := by
      rw [Volume.moveSource, CommandLine.moveArgs, if_pos hno]
      rfl
    exact Program.Follows.bind (askTell_follows fun _ => hnone) fun g _ hends =>
      Program.follows_pure hends
  · refine Program.Follows.bind (cp_looks hv hplace hno) ?_
    rintro g ⟨code, place'⟩ hends
    dsimp only
    split_ifs
    · exact Program.Follows.bind (askTell_follows hends) fun g _ hends =>
        Program.follows_pure hends
    · refine Program.Follows.bind (sayCopyFailed_asks code hends) fun g _ hends =>
        Program.follows_pure hends

end Binbows
