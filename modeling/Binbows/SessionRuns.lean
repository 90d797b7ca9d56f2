/-
Binbows/SessionRuns.lean

Any number of shells on one file system.

`shellMain` is `main` of the shell: it writes a file below the root, and then it goes
through the characters that are typed.  Shells that run at the same time take turns at
their system calls, and one of them may change what another has seen.  No shell deletes a
folder, so that a directory that one of them knows stays one (`Remembers`).

Main result: `shells_keep_folders`.  The guard of the runs of the driver, which the
results about the file system count on, holds by itself: whatever is typed in whichever
shell, and in any interleaving, requests go to directories, and they are answered as the
store of folders and files says.
-/
import Binbows.ProcessSpec
import Binbows.SessionCommands
import Binbows.ShellPlace
import Binbows.TreeRequests
import Binbows.UsualPaths

namespace Binbows

open Bytes Run Calls FolderTree
open Terminal (chars text)

/-! ### main -/

/-- `template_print`, without the call that tells the driver how long the prompt is. -/
def templatePrint (currentPath : PathBuffer) : ShellProgram Unit := do
  say ['B', 'i', 'n', 'b', 'o', 'w', 's', '@', 'I', 'F', '-', '2', '2', '3', '0'] 15 0xB
  say [':'] 1 0x7
  tell (.text (.puts (chars currentPath) (BitVec.ofNat 8 (strlen currentPath)) 0xD))
  say ['$'] 1 0x7
  say [' '] 1 0xF

/-- `cmd_buffer[cur_cmd_length] = c`. -/
def CommandLine.put (line : CommandLine) (c : Byte) : Except ShellFault CommandLine :=
  match line.store line.curCmdLength.toNat c with
  | none => .error .outOfBounds
  | some line => .ok line

def usual (buf : Byte) (line : CommandLine) : ShellProgram CommandLine :=
  if maxCmdLength ≤ line.curCmdLength.toNat then pure line
  else do
    let line ← Program.ofExcept (line.put buf)
    tell (.text (.putchar buf 0xF))
    pure { line with curCmdLength := line.curCmdLength + 1 }

/-- The body of the loop of `main`, for the character that it got. -/
def handleChar (stale : StaleStack) (buf : Byte) (line : CommandLine) (place : Place) :
    ShellProgram (CommandLine × Place) :=
  if buf = 0 then pure (line, place)
  else if buf = newline then do
    tell (.text (.putchar buf 0))
    let place ← execute stale line place
    templatePrint place.currentPath
    pure (⟨fun _ => 0, 0⟩, place)
  else if buf = backspace then
    if 0 < line.curCmdLength then do
      tell (.text (.putchar buf 0))
      let line ← Program.ofExcept (line.put 0)
      pure ({ line with curCmdLength := line.curCmdLength - 1 }, place)
    else pure (line, place)
  else do
    let line ← usual buf line
    pure (line, place)

/-- The loop of `main`, for the characters that it gets. -/
def shellLoop : (typed : List (StaleStack × Byte)) → CommandLine → Place →
    ShellProgram (CommandLine × Place)
  | [], line, place => pure (line, place)
  | (stale, buf) :: typed, line, place => do
      let (line, place) ← handleChar stale buf line place
      shellLoop typed line place

/-- The text that `main` writes to a file. -/
def owo : List Byte :=
  ("Never gonna give you up\nNever gonna let you down\nNever gonna run around and desert you\n" ++
    "Never gonna make you cry\nNever gonna say goodbye\nNever gonna tell a lie and hurt you\n").toList.map
      ascii

/-- The buffer with the first 178 characters of the text.  That is more than there are:
`behind` is what lies behind its NUL. -/
def owoBuffer (behind : List Byte) : ClusterBuffer := fun i =>
  if i.val < 178 then (owo ++ [0] ++ behind).getD i 0 else 0

/-- The file that `main` writes. -/
def testcatRequest (behind : List Byte) : FsCall :=
  ⟨.write, ⟨stackBuffer, buffer 8 (['t', 'e', 's', 't', 'c', 'a', 't'].map ascii),
    buffer 3 (['t', 'x', 't'].map ascii), rootClusterNumber, BitVec.ofNat 32 clusterSize⟩,
    zeroMemory.store stackBuffer (owoBuffer behind)⟩

/-- `main`, for the characters that are typed: what call 4 stores each time.  Call 7, which
makes the driver take keys, is left out. -/
def shellMain (behind : List Byte) (typed : List (StaleStack × Byte)) :
    ShellProgram (CommandLine × Place) := do
  tell (.fs (testcatRequest behind))
  templatePrint rootPath
  shellLoop typed ⟨fun _ => 0, 0⟩ rootPlace

/-! ### A shell knows its directory -/

variable {g : Session} {place : Place} {line : CommandLine} {stale : StaleStack}
  {typed : List (StaleStack × Byte)}

theorem templatePrint_peeks {path : PathBuffer} :
    Peeks (templatePrint path) g fun g' _ => g' = g := by
  apply Logs.print
  apply Logs.print
  apply Logs.print
  apply Logs.print
  exact say_peeks

theorem put_eq_ok {buf : Byte} {line' : CommandLine} (hput : line.put buf = .ok line') :
    ∃ hi : line.curCmdLength.toNat < maxCmdLength,
      line' = { line with cmdBuffer := Function.update line.cmdBuffer ⟨_, hi⟩ buf } := by
  unfold CommandLine.put at hput
  cases hstore : line.store line.curCmdLength.toNat buf with
  | none =>
      rw [hstore] at hput
      cases hput
  | some line₁ =>
      rw [hstore] at hput
      cases hput
      exact store_eq_some hstore

theorem usual_peeks {buf : Byte} (hline : line.Typed) (hbuf : buf ≠ 0) :
    Peeks (usual buf line) g fun _ line' => line'.Typed := by
  rw [usual]
  split_ifs
  · exact peeks_pure hline
  · refine (peeks_ofExcept fun line' hput => put_eq_ok hput :
      Peeks _ g fun _ line' => ∃ hi : line.curCmdLength.toNat < maxCmdLength,
        line' = { line with cmdBuffer := Function.update line.cmdBuffer ⟨_, hi⟩ buf }).bind ?_
    rintro g' line' - ⟨hi, rfl⟩
    apply Logs.print
    exact peeks_pure (hline.extended hi hbuf)

/-- The line stays a typed one, and the shell in a directory that it knows. -/
theorem handleChar_logs {buf : Byte} (hplace : g.At place) (hline : line.Typed) :
    Logs (handleChar stale buf line place) g fun _ g' r => g'.At r.2 ∧ r.1.Typed := by
  rw [handleChar]
  split_ifs with hnone hnew hback hpos
  · exact logs_pure ⟨hplace, hline⟩
  · apply Logs.print
    refine Logs.bind (execute_logs hplace hline) ?_
    rintro g' l reached - ⟨-, hreached⟩
    refine templatePrint_peeks.bind ?_
    rintro g' _ - rfl
    exact logs_pure ⟨hreached, typed_empty⟩
  · apply Logs.print
    refine (peeks_ofExcept fun line' hput => put_eq_ok hput :
      Peeks _ g fun _ line' => ∃ hi : line.curCmdLength.toNat < maxCmdLength,
        line' = { line with cmdBuffer := Function.update line.cmdBuffer ⟨_, hi⟩ 0 }).bind ?_
    rintro g' line' hle ⟨hi, rfl⟩
    exact logs_pure ⟨hplace.mono hle, hline.erased hi hpos⟩
  · exact logs_pure ⟨hplace, hline⟩
  · exact (usual_peeks hline hnone).bind fun g' _ hle hline' =>
      logs_pure ⟨hplace.mono hle, hline'⟩

theorem shellLoop_logs (hplace : g.At place) (hline : line.Typed) :
    Logs (shellLoop typed line place) g fun _ g' r => g'.At r.2 := by
  induction typed generalizing g line place with
  | nil => exact logs_pure hplace
  | cons e typed ih =>
      obtain ⟨stale, buf⟩ := e
      rw [shellLoop]
      exact Logs.bind (handleChar_logs hplace hline) fun g' _ r _ hr => ih hr.1 hr.2

/-- **A shell only needs to know the root.** -/
theorem shellMain_logs (behind : List Byte) (typed : List (StaleStack × Byte))
    (hroot : rootClusterNumber ∈ g.known) :
    Logs (shellMain behind typed) g fun _ g' r => g'.At r.2 := by
  rw [shellMain]
  have hsize : (testcatRequest behind).request.bufferSize ≠ 0 := by
    show BitVec.ofNat 32 clusterSize ≠ 0
    decide
  have hwrite : Logs (tell (.fs (testcatRequest behind))) g fun _ _ _ => True :=
    Logs.bind (write_logs hroot fun h => absurd h hsize) fun g' _ _ _ _ => logs_pure trivial
  refine Logs.bind hwrite fun g' _ _ hgoes _ => ?_
  refine templatePrint_peeks.bind ?_
  rintro g' _ - rfl
  exact shellLoop_logs ⟨hgoes.known hroot, hgoes.known hroot⟩ typed_empty

/-! ### Many shells -/

variable {others : ShellCall → ShellWorld → Except ShellFault (ShellReply × ShellWorld)}
  {w w' : ShellWorld} {s s' s₀ : FsState} {call : FsCall} {t t' : FileTree} {ret : Int}
  {mem' : Memory} {d : BitVec 32} {request : FAT32DriverRequest} {mem : Memory} {r : Reply}
  {reply : ShellReply}

/-- The calls about processes leave the driver alone, but for the read of the file that a
process is made of. -/
def OnlyReads (others : ShellCall → ShellWorld → Except ShellFault (ShellReply × ShellWorld)) :
    Prop :=
  ∀ ⦃c w reply w'⦄, others c w = .ok (reply, w') → w'.fs = w.fs ∨
    ∃ request mem, c = .createProcess request ∧ w.fs.step ⟨.read, request, mem⟩ = some w'.fs

variable {k k' : KernelState}

theorem mapFrames_fs {i : Fin processCountMax} {dir : Option DirectoryRef}
    {js : List (Fin processPageFrameCountMax)} (h : k.mapFrames i dir js = .ok k') :
    k'.fs = k.fs := by
  induction js generalizing k with
  | nil =>
      cases h
      rfl
  | cons j js ih =>
      obtain ⟨⟨ret, paging⟩, -, h⟩ := bind_eq_ok.mp h
      have hrest := ih h
      exact hrest

/-- **The kernel reads at most the file of the request** for a new process. -/
theorem processCreateUserProcess_fs (h : k.processCreateUserProcess request = .ok (ret, k')) :
    k'.fs = k.fs ∨ ∃ mem, k.fs.step ⟨.read, request, mem⟩ = some k'.fs := by
  unfold KernelState.processCreateUserProcess at h
  dsimp only at h
  -- the requests that are refused before anything is read
  split_ifs at h
  · cases h
    exact .inl rfl
  · cases h
    exact .inl rfl
  · cases h
    exact .inl rfl
  · right
    cases hi : k.processListGetInactiveIndex with
    | none =>
        rw [hi] at h
        cases h
    | some i =>
        rw [hi] at h
        obtain ⟨k₁, hmap, h⟩ := bind_eq_ok.mp h
        obtain ⟨p₁, -, h⟩ := bind_eq_ok.mp h
        obtain ⟨⟨ret', k₂⟩, hread, h⟩ := bind_eq_ok.mp h
        obtain ⟨p₂, -, h⟩ := bind_eq_ok.mp h
        -- only the read of the program touches the file system
        obtain ⟨r, hr, -, rfl⟩ := KernelState.readFile_eq_ok hread
        have hmapped := mapFrames_fs hmap
        have hfs : k₁.fs = k.fs := hmapped
        have hr' : read request _ k.fs = .ok r := hfs ▸ hr
        -- a failed read takes the page frames back, and a good one starts the process
        have hend : k'.fs = r.fs := by
          dsimp only at h
          split_ifs at h
          · obtain ⟨p₃, -, h⟩ := bind_eq_ok.mp h
            cases h
            rfl
          · cases h
            rfl
        exact ⟨_, step_eq_some.mpr ⟨r, hr', hend.symm⟩⟩

/-- Nothing but the deletion of a folder takes a folder away. -/
theorem Answers.isFolder (h : Answers t call ret mem' t')
    (hext : call.op = .delete → call.request.ext ≠ 0) (hd : t.IsFolder d) : t'.IsFolder d := by
  cases h with
  | folderMade _ _ _ _ => exact addFolder_isFolder.mpr (.inl hd)
  | folderDeleted hx _ _ _ => exact absurd hx (hext rfl)
  | _ => exact hd

/-- The table that `readDirectory` gives is that of a directory. -/
theorem readDirectory_shown (hs : Tidy s) (hp : s.volume.Directory request.parentClusterNumber)
    (hr : readDirectory request mem s = .ok r) (hret : BitVec.ofInt 8 r.ret = 0) :
    ∀ d ∈ FAT32DirectoryTable.shown (.ofCluster (r.mem.load request.buf)), s.volume.Directory d := by
  have h := hs.wellFormed.toIntact
  rw [readDirectory_eq, parentCheck_directory h hp] at hr
  split_ifs at hr with hsize
  · cases hr
    -- a request that is too small is refused with another code
    have hcode : BitVec.ofInt 8 (-1) ≠ 0 := by decide
    exact absurd hret hcode
  · cases hr
    cases hslot : (s.volume.table request.parentClusterNumber).namedSlot request.name with
    | none =>
        have hcode := readFolder_ret request mem (s.readDirTable request.parentClusterNumber)
        have hslot' : (s.readDirTable request.parentClusterNumber).dirTableBuf.namedSlot
            request.name = none := hslot
        -- without the folder the code is not zero either
        rw [hslot', if_neg (by simp)] at hcode
        rw [hcode] at hret
        split_ifs at hret
        all_goals exact absurd hret (by decide)
    | some i =>
        obtain ⟨hi, -⟩ := namedSlot_eq_some hslot
        have hfolder : readFolder request mem (s.readDirTable request.parentClusterNumber) = _ :=
          readFolder_some hslot
        rw [hfolder]
        have hdir : s.volume.Directory (s.volume.table request.parentClusterNumber i).cluster :=
          ((h.occupied_cases hp hi.1).resolve_left fun hf => hf.2.2 hi.2).2
        show ∀ d ∈ FAT32DirectoryTable.shown (.ofCluster ((mem.store request.buf
          (s.volume.content (s.volume.table request.parentClusterNumber i).cluster)).load
            request.buf)), s.volume.Directory d
        -- what is shown is the table of the folder: its parent, and its own folders
        rw [Memory.load_store]
        intro d hd
        rcases hd with rfl | ⟨j, hj, rfl⟩
        · obtain ⟨a, ha, he, -⟩ := h.parent_entry hdir
          have hcluster := he.cluster_eq
          show s.volume.Directory (s.volume.table _ 1).cluster
          rw [hcluster]
          exact ha
        · exact ((h.occupied_cases hdir hj.1).resolve_left fun hf => hf.2.2 hj.2).2

/-- A guard of the runs that delete no folder, which the modest requests on directories
meet. -/
structure SessionGuard (G : FsState → FsCall → Prop) : Prop where
  keepsFolders : ∀ {s call}, G s call → KeepsFolders s call
  modest : ∀ {s call}, KeepsFolders s call → call.Modest → G s call

theorem sessionGuard_keepsFolders : SessionGuard KeepsFolders := ⟨id, fun h _ => h⟩

variable {G : FsState → FsCall → Prop}

theorem SessionGuard.tidy (hG : SessionGuard G)
    (h : Reaches FsState.step G (createFat32 s₀) s) : Tidy s := by
  obtain ⟨h', -⟩ := h.mono (I := fun _ => True) trivial (fun _ _ _ => trivial)
    fun _ hok => hG.keepsFolders hok
  exact keepsFolders_tidy h'

/-- What a shell knows are directories, in every run under the guard. -/
structure Remembers {ι : Type} (G : FsState → FsCall → Prop) (s₀ : FsState) (g : ι → Session)
    (w : ShellWorld) : Prop where
  reaches : Reaches FsState.step G (createFat32 s₀) w.fs
  known : ∀ i, ∀ d ∈ (g i).known, w.fs.volume.Directory d

/-- A request of a shell is one that the driver may get. -/
theorem FsCall.Modest.keepsFolders (hmodest : call.Modest) (hs : Tidy s)
    (hp : s.volume.Directory call.request.parentClusterNumber) : KeepsFolders s call := by
  rcases call with ⟨op, request, mem⟩
  cases op with
  | delete => exact keepsFolders_delete mem hs.wellFormed.toIntact hp (hmodest.keeps rfl)
  | _ => exact ⟨hp, fun h => by cases h⟩

theorem FsCall.Modest.directory (hmodest : call.Modest) (hs : Tidy s)
    (hp : s.volume.Directory call.request.parentClusterNumber) (hr : call.exec s = .ok r)
    (hd : s.volume.Directory d) : r.fs.volume.Directory d := by
  have hkeeps := hmodest.keepsFolders hs hp
  obtain ⟨r', hr', hanswer⟩ := exec_answers hs (hkeeps.careful hs.wellFormed)
  obtain rfl : r = r' := Except.ok.inj (hr.symm.trans hr')
  exact tree_isFolder_iff.mp (hanswer.isFolder hmodest.keeps (tree_isFolder_iff.mpr hd))

theorem modest_read {request : FAT32DriverRequest} {mem : Memory} :
    FsCall.Modest ⟨.read, request, mem⟩ := ⟨by simp, by simp⟩

theorem modest_readDirectory {request : FAT32DriverRequest} {mem : Memory} :
    FsCall.Modest ⟨.readDirectory, request, mem⟩ := ⟨by simp, by simp⟩

/-- A good call of one shell leaves all of them right about what they know. -/
theorem Remembers.serve {ι : Type} [DecidableEq ι] {g : ι → Session} {i : ι} {c : ShellCall}
    (hG : SessionGuard G) (hothers : OnlyReads others) (h : Remembers G s₀ g w)
    (hgood : (g i).Good c) (hserve : serve others c w = .ok (reply, w')) :
    Remembers G s₀ (Function.update g i ((g i).next c reply)) w' := by
  have hs : Tidy w.fs := hG.tidy h.reaches
  -- a request on a known directory is a step of a good run, and takes no directory away
  have hstep : ∀ {call : FsCall} {r : Reply}, call.request.parentClusterNumber ∈ (g i).known →
      call.Modest → call.exec w.fs = .ok r →
        Reaches FsState.step G (createFat32 s₀) r.fs ∧
          ∀ j, ∀ d ∈ (g j).known, r.fs.volume.Directory d := by
    intro call r hp hmodest hr
    have hdir := h.known i _ hp
    have hok : G w.fs call := hG.modest (hmodest.keepsFolders hs hdir) hmodest
    refine ⟨h.reaches.snoc hok (step_eq_some.mpr ⟨r, hr, rfl⟩), ?_⟩
    exact fun j d hd => hmodest.directory hs hdir hr (h.known j d hd)
  -- only the tables that are read add to what is known
  have hupdate : ∀ {w' : ShellWorld} {g' : Session},
      Reaches FsState.step G (createFat32 s₀) w'.fs →
      (∀ j, ∀ d ∈ (g j).known, w'.fs.volume.Directory d) →
      (∀ d ∈ g'.known, d ∈ (g i).known ∨ w'.fs.volume.Directory d) →
        Remembers G s₀ (Function.update g i g') w' := by
    intro w' g' hreaches hknown hnew
    refine ⟨hreaches, fun j d hd => ?_⟩
    by_cases hj : j = i
    · subst hj
      rw [Function.update_self] at hd
      exact (hnew d hd).elim (hknown j d) id
    · rw [Function.update_of_ne hj] at hd
      exact hknown j d hd
  -- calls that leave the file system as it is
  have hquiet : w'.fs = w.fs → (g i).next c reply = g i →
      Remembers G s₀ (Function.update g i ((g i).next c reply)) w' := by
    intro hfs hnext
    rw [hnext]
    apply hupdate
    · rw [hfs]
      exact h.reaches
    · rw [hfs]
      exact h.known
    · exact fun d hd => .inl hd
  have hother : (∀ request, c ≠ .createProcess request) → others c w = .ok (reply, w') →
      w'.fs = w.fs := by
    intro hne hserve
    refine (hothers hserve).resolve_right ?_
    rintro ⟨request, mem, hc, -⟩
    exact hne request hc
  -- by the call: the file system serves one kind, the others leave it alone
  cases c with
  | fs call =>
      rw [Binbows.serve] at hserve
      cases hr : call.exec w.fs with
      | error e =>
          rw [hr] at hserve
          cases hserve
      | ok r =>
          rw [hr] at hserve
          cases hserve
          obtain ⟨hreaches, hknown⟩ := hstep hgood.1 hgood.2 hr
          apply hupdate hreaches hknown
          -- only a read of a table tells of new directories
          intro d hd
          rcases call with ⟨op, request, mem⟩
          cases op with
          | readDirectory =>
              have hd : d ∈ (if BitVec.ofInt 8 r.ret = 0 then
                  { g i with known := (g i).known ∪
                    FAT32DirectoryTable.shown (.ofCluster (r.mem.load request.buf)) }
                  else g i : Session).known := hd
              split_ifs at hd with hret
              · refine hd.imp_right fun hshown => ?_
                have hdir := readDirectory_shown hs (h.known i _ hgood.1) hr hret d hshown
                exact modest_readDirectory.directory hs (h.known i _ hgood.1) hr hdir
              · exact .inl hd
          | _ => exact .inl hd
  -- what is printed changes nothing on the disk
  | text call =>
      cases hserve
      exact hquiet rfl rfl
  | createProcess request =>
      rcases hothers hserve with hfs | ⟨request', mem, hc, hread⟩
      · exact hquiet hfs rfl
      · cases hc
        obtain ⟨r, hr, hfs⟩ := step_eq_some.mp hread
        have hreadGood : (FsCall.mk .read request mem).request.parentClusterNumber ∈ (g i).known :=
          hgood
        obtain ⟨hreaches, hknown⟩ := hstep hreadGood modest_read hr
        apply hupdate
        · rw [← hfs]
          exact hreaches
        · rw [← hfs]
          exact hknown
        · exact fun d hd => .inl hd
  | listProcesses => exact hquiet (hother (fun _ => by simp) hserve) rfl
  | destroyProcess pid => exact hquiet (hother (fun _ => by simp) hserve) rfl
  | runTesting => exact hquiet (hother (fun _ => by simp) hserve) rfl

/-- A shell that has not started knows the root. -/
def freshSession : Session := ⟨{rootClusterNumber}, []⟩

/-- Shells that take turns, under a guard. -/
theorem shells_remember {ι : Type} [DecidableEq ι]
    {ps : ι → ShellProgram (CommandLine × Place)} (hG : SessionGuard G) (hothers : OnlyReads others)
    (hw : Reaches FsState.step G (createFat32 s₀) w.fs)
    (behind : ι → List Byte) (typed : ι → List (StaleStack × Byte))
    (h : Interleaves (serve others) (fun i => shellMain (behind i) (typed i)) w ps w') :
    ∃ g, Remembers G s₀ g w' ∧ ∀ i, (ps i).Follows sessionProtocol (fun _ _ => True) (g i)
      fun g' r => g'.At r.2 := by
  have hstart : Remembers G s₀ (fun _ : ι => freshSession) w := by
    refine ⟨hw, fun i d hd => ?_⟩
    rw [Set.mem_singleton_iff.mp hd]
    exact .root
  have hmain : ∀ i, (shellMain (behind i) (typed i)).Follows sessionProtocol (fun _ _ => True)
      freshSession fun g' r => g'.At r.2 := by
    intro i
    have hlogs := shellMain_logs (g := freshSession) (behind i) (typed i) (Set.mem_singleton _)
    refine Program.Follows.mono hlogs ?_
    rintro g' r ⟨l, -, hat⟩
    exact hat
  obtain ⟨g, hg, hps⟩ := follows_of_turns (k := fun _ => sessionProtocol) h hmain hstart
    fun g i c w reply w' hg hgood hserve => ⟨trivial, hg.serve hG hothers hgood hserve⟩
  exact ⟨g, hg, hps⟩

/-- The next request of a shell goes to a directory, and it is modest. -/
theorem Remembers.next {ι : Type} {g : ι → Session} {i : ι} {call : FsCall}
    {next : ShellReply → ShellProgram (CommandLine × Place)}
    {p : ShellProgram (CommandLine × Place)} (h : Remembers G s₀ g w)
    (hp : p.Follows sessionProtocol (fun _ _ => True) (g i) fun g' r => g'.At r.2)
    (hcall : p = .call (.fs call) next) :
    w.fs.volume.Directory call.request.parentClusterNumber ∧ call.Modest := by
  subst hcall
  obtain ⟨⟨hknown, hmodest⟩, -⟩ := hp
  exact ⟨h.known i _ hknown, hmodest⟩

/-- **Shells keep to the folders, in every interleaving.**  Any number of shells start on a
file system that was formatted and has lost no folder.  Whatever is typed in each, and
however they take turns: the requests that were made went to directories and deleted no
folder; the next request of each does so too, and it is answered as the store of folders
and files says; and a shell that has gone through its characters stands in a directory. -/
theorem shells_keep_folders {ι : Type} [DecidableEq ι]
    {ps : ι → ShellProgram (CommandLine × Place)} (hothers : OnlyReads others)
    (hw : Reaches FsState.step KeepsFolders (createFat32 s₀) w.fs)
    (behind : ι → List Byte) (typed : ι → List (StaleStack × Byte))
    (h : Interleaves (serve others) (fun i => shellMain (behind i) (typed i)) w ps w') :
    Reaches FsState.step KeepsFolders (createFat32 s₀) w'.fs ∧
      (∀ i call next, ps i = .call (.fs call) next → KeepsFolders w'.fs call ∧
        ∃ r, call.exec w'.fs = .ok r ∧
          Answers w'.fs.volume.tree call r.ret r.mem r.fs.volume.tree) ∧
      ∀ i line place, ps i = .ret (line, place) →
        w'.fs.volume.Directory place.workingDirectory := by
  obtain ⟨g, hg, hps⟩ := shells_remember sessionGuard_keepsFolders hothers hw behind typed h
  have hs : Tidy w'.fs := keepsFolders_tidy hg.reaches
  refine ⟨hg.reaches, ?_, ?_⟩
  · intro i call next hcall
    obtain ⟨hp, hmodest⟩ := hg.next (hps i) hcall
    have hkeeps : KeepsFolders w'.fs call := hmodest.keepsFolders hs hp
    exact ⟨hkeeps, exec_answers hs (hkeeps.careful hs.wellFormed)⟩
  · intro i line place hret
    have hi := hps i
    rw [hret] at hi
    have hat : (g i).At place := hi
    exact hg.known i _ hat.here

/-- One shell lists the root; the other has not started. -/
def lsTyped (i : Bool) : List (StaleStack × Byte) :=
  if i then ['l', 's', '\n'].map fun ch => (cleanStack, ascii ch) else []

theorem onlyReads_noProcesses : OnlyReads noProcesses := by
  intro c w reply w' h
  cases h

theorem shells_keep_folders_ls : ∃ (a : CommandLine × Place) (w' : ShellWorld),
    Reaches FsState.step KeepsFolders (createFat32 .blank) w'.fs ∧
      (∀ i call next,
        (Function.update (fun i : Bool => shellMain [] (lsTyped i)) true (.ret a) :
          Bool → ShellProgram (CommandLine × Place)) i = .call (.fs call) next →
          KeepsFolders w'.fs call ∧ ∃ r, call.exec w'.fs = .ok r ∧
            Answers w'.fs.volume.tree call r.ret r.mem r.fs.volume.tree) ∧
      ∀ i line place,
        (Function.update (fun i : Bool => shellMain [] (lsTyped i)) true (.ret a) :
          Bool → ShellProgram (CommandLine × Place)) i = .ret (line, place) →
          w'.fs.volume.Directory place.workingDirectory := by
  obtain ⟨⟨a, w'⟩, hrun, -⟩ := exists_ok_of_toOption (b := rootClusterNumber)
    (f := fun r : (CommandLine × Place) × ShellWorld => r.1.2.workingDirectory)
    (x := (shellMain [] (lsTyped true)).run (serve noProcesses) folderWorld)
    (by decide +kernel)
  refine ⟨a, w', shells_keep_folders onlyReads_noProcesses ?_ (fun _ => []) lsTyped
    (interleaves_of_run hrun)⟩
  rw [folderWorld_fs]
  exact oneFolder_reaches ⟨.root, fun h => by cases h⟩

end Binbows
