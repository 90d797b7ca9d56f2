/-
Binbows/ConcurrentMoves.lean

Two shells that move files at the same time.

A move is three requests, and those of another may come in between.  The folders of the
volume settle which files a line is about, whatever happens to the files, so that a move
is a plan for the map of the files (`Volume.movePlan`).  Whether a copy finds room is a
matter of the tree (`Volume.store`).  Each call of `mv` is a step of its plan, or none
(`moveCall_steps`), alone and next to the other.

Two moves come to what one after the other comes to, but for two ends: both copied one
file, or one found no room next to the other's copy (`moves_serial_iff`).

Main result: `moves_serializable_iff`.  Where the files that the two moves start on have no
such end for them, every order of their calls is serial; and where they have one, some order
of the calls comes to it, since a run of the plans is one of the programs
(`shared_of_runs_of_plans`).
-/
import Binbows.CopyFaithful
import Binbows.FileMoves
import Binbows.Library.MovePools
import Binbows.Library.Processes
import Binbows.SessionRuns

namespace Binbows

open Chain SlotTree Bytes Volume Run Calls Moves FolderTree

variable {others : ShellCall → ShellWorld → Except ShellFault (ShellReply × ShellWorld)}
  {v : Volume} {w w' : ShellWorld} {stack stack' : CopyStack} {behind behind' : List Byte}
  {line line' : CommandLine} {place place' : Place}
  {g g' : MovePhase} {c : ShellCall} {F G : FileKey → Option (List ClusterBuffer)}
  {p p' q : Progress (List ClusterBuffer)} {k : FileKey} {mem : Memory}
  {data : List ClusterBuffer}

/-! ### Plans -/

/-- What `cp` copies, and where there is room for it next to the folders of the volume. -/
noncomputable def Volume.store (v : Volume) : Store FileKey (List ClusterBuffer) where
  fits := Fits
  copy := copyOf
  room F k := FileTree.HasRoom { v.tree with files := F } k.dir (neededSize fileBufferSize)
  room_erase := by
    intro F k k' h
    exact Tree.HasRoom.erase h

/-- Which files a line of `mv` is about.  What `rm` deletes is what `cp` has read, or `rm`
finds nothing (`removeTarget_of_source`). -/
def Volume.movePlan (v : Volume) (stack : CopyStack) (behind : List Byte) (line : CommandLine)
    (place : Place) : Plan ShellFault FileKey where
  src := v.moveSource stack line place
  dst := v.moveTarget stack line place
  erases := (v.removeTarget behind line place).toOption.join.isSome

theorem movePlan_erases (h : v.removeTarget behind line place = .ok (some k)) :
    (v.movePlan stack behind line place).erases = true := by
  rw [Volume.movePlan, h]
  rfl

theorem movePlan_keeps (h : v.removeTarget behind line place = .ok none) :
    (v.movePlan stack behind line place).erases = false := by
  rw [Volume.movePlan, h]
  rfl

/-- The folders are those of `v`, and the files are those of `F`. -/
structure OnFiles (v : Volume) (F : FileKey → Option (List ClusterBuffer)) (w : ShellWorld) :
    Prop where
  tidy : Tidy w.fs
  folders : SameFolders v w.fs.volume
  files : w.fs.volume.files = F

theorem OnFiles.of_sameDisk (h : OnFiles v F w) (hsame : SameDisk w.fs w'.fs) :
    OnFiles v F w' where
  tidy := hsame.tidy h.tidy
  folders := h.folders.trans hsame.sameFolders
  files := by rw [hsame.volume_eq, h.files]

/-- The tree of such a volume. -/
theorem OnFiles.tree_eq (h : OnFiles v F w) (hv : v.Intact) :
    w.fs.volume.tree = { v.tree with files := F } := by
  rw [h.folders.tree_eq hv, h.files]

/-- The driver has room iff the store has. -/
theorem OnFiles.room_iff (h : OnFiles v F w) (hv : v.Intact) (hk : v.Directory k.dir) :
    HasRoom w.fs k.dir fileBufferSize ↔ v.store.room F k := by
  rw [hasRoom_iff h.tidy (h.folders.directory.mpr hk), h.tree_eq hv]
  exact Iff.rfl

/-- The progress of the plan in a phase of `mv`. -/
inductive MovePhase.Matches : MovePhase → Progress (List ClusterBuffer) → Prop
  | start : Matches .start .start
  | unreadable : Matches .unreadable .unreadable
  | loaded (data : List ClusterBuffer) : Matches (.loaded (bufferOf data)) (.loaded data)
  | refused : Matches .refused .refused
  | copied (mem : Memory) (data : List ClusterBuffer) : Matches (.copied mem) (.copied data)
  | moved (data : List ClusterBuffer) : Matches .moved (.moved data)

/-! ### One call -/

/-- **Each call of a move is a step of its plan, or none.** -/
theorem moveCall_steps
    (others : ShellCall → ShellWorld → Except ShellFault (ShellReply × ShellWorld))
    (hv : v.Intact) (hplace : v.Directory place.workingDirectory) (hw : OnFiles v F w)
    (hg : g.Matches p) (hc : MoveCall v stack behind line place g c) :
    ∃ reply w' p' F', serve others c w = .ok (reply, w') ∧
      (moveProtocol v stack behind line place).valid c reply ∧
      (g.next c reply).Matches p' ∧ OnFiles v F' w' ∧
      ((p' = p ∧ F' = F) ∨ v.store.Step (v.movePlan stack behind line place) p F p' F') := by
  -- by the call: a look changes nothing, and the others are one step of the abstract move
  cases hc with
  | look hd name =>
      obtain ⟨reply, w', hserve, hshows, hsame, -⟩ := serve_look others hw.tidy hw.folders hd name
      refine ⟨reply, w', p, F, hserve, valid_look hshows, ?_, hw.of_sameDisk hsame, .inl ⟨rfl, rfl⟩⟩
      rw [next_look]
      exact hg
  | @read k hk =>
      cases hg
      have hbelow := moveSource_below hv hplace hk
      obtain ⟨reply, w', hserve, hsame, -, hcase⟩ :=
        serve_read others hw.tidy (hbelow.of_folders hw.folders).directory
      rw [hw.files] at hcase
      have hvalid : (moveProtocol v stack behind line place).valid (.fs (readRequest k)) reply :=
        valid_of_op (by simp [readRequest])
      -- the value is read, or the file is unreadable
      rcases hcase with ⟨hret, data, hdata, hfits, hmem⟩ | ⟨hret, hno⟩
      · refine ⟨reply, w', .loaded data, F, hserve, hvalid, ?_, hw.of_sameDisk hsame, .inr ?_⟩
        · rw [next_read, if_pos hret, hmem]
          exact .loaded data
        · exact .load hk hdata hfits
      · refine ⟨reply, w', .unreadable, F, hserve, hvalid, ?_, hw.of_sameDisk hsame, .inr ?_⟩
        · rw [next_read, if_neg hret]
          exact .unreadable
        · exact .fail hk hno
  | @write k mem hk =>
      have hbelow := moveTarget_below hv hplace hk
      obtain ⟨reply, w', hserve, htidy, -, hcase⟩ :=
        serve_write others mem hw.tidy (hbelow.of_folders hw.folders)
      have hvalid :
          (moveProtocol v stack behind line place).valid (.fs (writeRequest k mem)) reply :=
        valid_of_op (by simp [writeRequest])
      rw [hw.room_iff hv hbelow.directory, hw.files] at hcase
      cases hg with
      | loaded data =>
          -- the copy is set, or nothing is changed
          rcases hcase with ⟨hret, hnone, hroom, hsets⟩ | ⟨hret, hsame, hfail⟩
          · refine ⟨reply, w', .copied data, Function.update F k (some (copyOf data)), hserve,
              hvalid, ?_, ⟨htidy, hw.folders.trans hsets.folders, ?_⟩, .inr ?_⟩
            · rw [next_write, if_pos hret]
              exact .copied _ data
            · rw [hsets.files, hw.files]
              rfl
            · exact .write hk hnone hroom
          · refine ⟨reply, w', .refused, F, hserve, hvalid, ?_, hw.of_sameDisk hsame, .inr ?_⟩
            · rw [next_write, if_neg hret]
              exact .refused
            · exact .refuse hk hfail
  | @delete k mem hk htarget =>
      have hbelow := moveSource_below hv hplace hk
      obtain ⟨reply, w', hserve, htidy, -, hsets, -⟩ :=
        serve_delete others hw.tidy (hbelow.of_folders hw.folders)
      have hvalid : (moveProtocol v stack behind line place).valid (.fs (deleteRequest k)) reply :=
        valid_of_op (by simp [deleteRequest])
      cases hg with
      | copied _ data =>
          refine ⟨reply, w', .moved data, Function.update F k none, hserve, hvalid, .moved data,
            ⟨htidy, hw.folders.trans hsets.folders, ?_⟩, .inr (.erase hk (movePlan_erases htarget))⟩
          rw [hsets.files, hw.files]
  | @say _ call hne =>
      refine ⟨_, _, p, F, rfl, valid_text, ?_, hw.of_sameDisk .rfl, .inl ⟨rfl, rfl⟩⟩
      rw [next_text]
      exact hg
  -- the message comes when the move is over
  | success =>
      refine ⟨_, _, p, F, rfl, valid_text, ?_, hw.of_sameDisk .rfl, .inl ⟨rfl, rfl⟩⟩
      rw [next_text]
      exact hg
  | kept _ =>
      refine ⟨_, _, p, F, rfl, valid_text, ?_, hw.of_sameDisk .rfl, .inl ⟨rfl, rfl⟩⟩
      rw [next_text]
      exact hg

/-! ### A move that has the system for itself -/

/-- A move that began on `F` is in phase `g`. -/
def Alone (v : Volume) (stack : CopyStack) (behind : List Byte) (line : CommandLine)
    (place : Place) (F : FileKey → Option (List ClusterBuffer)) (g : MovePhase)
    (w : ShellWorld) : Prop :=
  ∃ p G, g.Matches p ∧ OnFiles v G w ∧ v.store.Solo (v.movePlan stack behind line place) F p G

theorem alone_start (hw : OnFiles v F w) : Alone v stack behind line place F .start w :=
  ⟨_, _, .start, hw, .unwritten trivial⟩

theorem alone_upholds
    (others : ShellCall → ShellWorld → Except ShellFault (ShellReply × ShellWorld))
    (hv : v.Intact) (hplace : v.Directory place.workingDirectory) :
    Upholds (serve others) (moveProtocol v stack behind line place)
      (Alone v stack behind line place F) := by
  rintro g c w ⟨p, G, hg, hw, hsolo⟩ hc
  obtain ⟨reply, w', p', G', hserve, hvalid, hg', hw', hstep⟩ :=
    moveCall_steps others hv hplace hw hg hc
  refine ⟨reply, w', hserve, hvalid, p', G', hg', hw', ?_⟩
  rcases hstep with ⟨rfl, rfl⟩ | hstep
  · exact hsolo
  · exact hsolo.step hstep

/-- The plan is over where `mv` returns. -/
theorem MovePhase.Matches.ended (hg : g.Matches p) (hend : MoveEnds v stack behind line place g) :
    (v.movePlan stack behind line place).Ended p := by
  cases hg with
  | start => exact hend
  | unreadable => trivial
  | loaded data => exact hend
  | refused => trivial
  | copied mem data => exact movePlan_keeps hend
  | moved data => trivial

/-- The plan fails where `mv` stops. -/
theorem Alone.fault (h : Alone v stack behind line place F g w) {e : ShellFault}
    (he : MoveFaults v stack line place g e) :
    v.store.alone (v.movePlan stack behind line place) F = none := by
  obtain ⟨p, G, hg, -, hsolo⟩ := h
  cases hg with
  | start => exact alone_of_source_error he
  | loaded data =>
      obtain ⟨k, hk, hx, hfits⟩ := hsolo.loaded
      exact alone_of_target_error hk hx hfits he
  | unreadable => exact absurd he id
  | refused => exact absurd he id
  | copied mem data => exact absurd he id
  | moved data => exact absurd he id

/-- A move that returns has gone through its plan. -/
theorem mv_returns (hv : v.Intact) (hu : v.UniqueFolderTexts)
    (hplace : v.Directory place.workingDirectory) (hw : OnFiles v F w)
    (hrun : (mv stack behind line place).run (serve others) w = .ok (place', w')) :
    ∃ G, v.store.alone (v.movePlan stack behind line place) F = some G ∧ OnFiles v G w' := by
  obtain ⟨g, ⟨-, hend⟩, p, G, hg, hw', hsolo⟩ := (mv_follows stack behind line hv hu hplace).of_run
    (alone_upholds others hv hplace) (alone_start hw) hrun
  exact ⟨G, hsolo.alone (hg.ended hend), hw'⟩

/-- **Alone, `mv` does what its plan does.** -/
theorem mv_alone_iff
    (others : ShellCall → ShellWorld → Except ShellFault (ShellReply × ShellWorld))
    (stack : CopyStack) (behind : List Byte) (line : CommandLine) (hv : v.Intact)
    (hu : v.UniqueFolderTexts)
    (hplace : v.Directory place.workingDirectory) (hw : OnFiles v F w) :
    v.store.alone (v.movePlan stack behind line place) F = some G ↔
      ∃ w', (mv stack behind line place).run (serve others) w = .ok (place, w') ∧
        OnFiles v G w' := by
  constructor
  · intro halone
    obtain ⟨l, g, w', hexec, ⟨p, G', hg, hw', hsolo⟩, hend⟩ :=
      (mv_follows stack behind line hv hu hplace).run (alone_upholds others hv hplace)
        (alone_start hw)
    rcases hend with ⟨a, htrace, rfl, hend⟩ | ⟨e, -, hfault⟩
    · have halone' := hsolo.alone (hg.ended hend)
      obtain rfl : G = G' := Option.some.inj (halone.symm.trans halone')
      exact ⟨w', Program.run_eq_ok_iff.mpr ⟨l, htrace, hexec⟩, hw'⟩
    · have hstate : Alone v stack behind line place F g w' := ⟨p, G', hg, hw', hsolo⟩
      rw [hstate.fault hfault] at halone
      cases halone
  · rintro ⟨w', hrun, hw'⟩
    obtain ⟨G', halone, hw''⟩ := mv_returns hv hu hplace hw hrun
    obtain rfl : G = G' := hw'.files.symm.trans hw''.files
    exact halone

/-! ### Two moves -/

/-- One program and then the other, each with the system for itself, come to the tree of
`w'`. -/
def OneAfterTheOther
    (others : ShellCall → ShellWorld → Except ShellFault (ShellReply × ShellWorld))
    (p q : ShellProgram Place) (w w' : ShellWorld) : Prop :=
  ∃ a w₁ b w₂, p.run (serve others) w = .ok (a, w₁) ∧ q.run (serve others) w₁ = .ok (b, w₂) ∧
    w₂.fs.volume.tree = w'.fs.volume.tree

/-- The plans are serial iff the programs are. -/
theorem serial_iff_oneAfterTheOther
    (others : ShellCall → ShellWorld → Except ShellFault (ShellReply × ShellWorld))
    (stack stack' : CopyStack) (behind behind' : List Byte) (line line' : CommandLine)
    (hv : v.Intact) (hu : v.UniqueFolderTexts)
    (hplace : v.Directory place.workingDirectory) (hplace' : v.Directory place'.workingDirectory)
    (hw : OnFiles v F w) (hw' : OnFiles v G w') :
    v.store.Serial (v.movePlan stack behind line place)
        (v.movePlan stack' behind' line' place') F G ↔
      OneAfterTheOther others (mv stack behind line place) (mv stack' behind' line' place')
        w w' := by
  unfold Store.Serial
  rw [Option.bind_eq_some_iff]
  constructor
  · rintro ⟨F₁, hfirst, hsecond⟩
    obtain ⟨w₁, hrun, hw₁⟩ := (mv_alone_iff others stack behind line hv hu hplace hw).mp hfirst
    obtain ⟨w₂, hrun', hw₂⟩ :=
      (mv_alone_iff others stack' behind' line' hv hu hplace' hw₁).mp hsecond
    refine ⟨place, w₁, place', w₂, hrun, hrun', ?_⟩
    rw [hw₂.tree_eq hv, hw'.tree_eq hv]
  · rintro ⟨a, w₁, b, w₂, hrun, hrun', htree⟩
    obtain ⟨F₁, hfirst, hw₁⟩ := mv_returns hv hu hplace hw hrun
    obtain ⟨F₂, hsecond, hw₂⟩ := mv_returns hv hu hplace' hw₁ hrun'
    refine ⟨F₁, hfirst, ?_⟩
    have hfiles : F₂ = G := by
      have hsame := congrArg Tree.files htree
      show F₂ = G
      rw [← hw₂.files, ← hw'.files]
      exact hsame
    rw [hsecond, hfiles]

/-- Two moves that began on `F` are in phases `g` and `g'`. -/
def Together (v : Volume) (stack stack' : CopyStack) (behind behind' : List Byte)
    (line line' : CommandLine) (place place' : Place)
    (F : FileKey → Option (List ClusterBuffer)) (g g' : MovePhase) (w : ShellWorld) : Prop :=
  ∃ p q G, g.Matches p ∧ g'.Matches q ∧ OnFiles v G w ∧
    v.store.Runs (v.movePlan stack behind line place)
      (v.movePlan stack' behind' line' place') F p q G

/-- Two programs that are merged come to the ends of both plans. -/
theorem shared_together
    (others : ShellCall → ShellWorld → Except ShellFault (ShellReply × ShellWorld))
    (stack stack' : CopyStack) (behind behind' : List Byte) (line line' : CommandLine)
    {l : List (Bool × ShellCall × ShellReply)} {a b : Place}
    (hv : v.Intact) (hu : v.UniqueFolderTexts)
    (hplace : v.Directory place.workingDirectory)
    (hplace' : v.Directory place'.workingDirectory) (hw : OnFiles v F w)
    (h : Shared (serve others) (mv stack behind line place)
      (mv stack' behind' line' place') w l a b w') :
    ∃ g g', MoveEnds v stack behind line place g ∧ MoveEnds v stack' behind' line' place' g' ∧
      Together v stack stack' behind behind' line line' place place' F g g' w' := by
  have hstart : Together v stack stack' behind behind' line line' place place' F .start .start w :=
    ⟨_, _, _, .start, .start, hw, .refl⟩
  obtain ⟨g, g', ⟨-, hend⟩, ⟨-, hend'⟩, htogether⟩ :=
    h.follows (mv_follows stack behind line hv hu hplace)
      (mv_follows stack' behind' line' hv hu hplace') hstart
      (by
        -- a call of the first shell is a step of the first move, or none
        rintro g g' c s r s' ⟨p, q, G, hg, hg', hw, hruns⟩ hc - hcall
        obtain ⟨reply, w₁, p', G', hserve, hvalid, hg₁, hw₁, hstep⟩ :=
          moveCall_steps others hv hplace hw hg hc
        cases hcall.symm.trans hserve
        refine ⟨hvalid, p', q, G', hg₁, hg', hw₁, ?_⟩
        rcases hstep with ⟨rfl, rfl⟩ | hstep
        · exact hruns
        · exact hruns.tail (.left hstep))
      (by
        -- and one of the second
        rintro g g' c s r s' ⟨p, q, G, hg, hg', hw, hruns⟩ hc - hcall
        obtain ⟨reply, w₁, q', G', hserve, hvalid, hg₁, hw₁, hstep⟩ :=
          moveCall_steps others hv hplace' hw hg' hc
        cases hcall.symm.trans hserve
        refine ⟨hvalid, p, q', G', hg, hg₁, hw₁, ?_⟩
        rcases hstep with ⟨rfl, rfl⟩ | hstep
        · exact hruns
        · exact hruns.tail (.right hstep))
  exact ⟨g, g', hend, hend', htogether⟩

/-- What is true of the end of every interleaving: the plans have come to it. -/
theorem shared_ends
    (others : ShellCall → ShellWorld → Except ShellFault (ShellReply × ShellWorld))
    (stack stack' : CopyStack) (behind behind' : List Byte) (line line' : CommandLine)
    {l : List (Bool × ShellCall × ShellReply)} {a b : Place}
    (hv : v.Intact) (hu : v.UniqueFolderTexts) (hplace : v.Directory place.workingDirectory)
    (hplace' : v.Directory place'.workingDirectory) (hw : OnFiles v F w)
    (h : Shared (serve others) (mv stack behind line place)
      (mv stack' behind' line' place') w l a b w') :
    ∃ p q G, OnFiles v G w' ∧ (v.movePlan stack behind line place).Ended p ∧
      (v.movePlan stack' behind' line' place').Ended q ∧
      v.store.Runs (v.movePlan stack behind line place) (v.movePlan stack' behind' line' place')
        F p q G := by
  obtain ⟨g, g', hend, hend', p, q, G, hg, hg', hw', hruns⟩ :=
    shared_together others stack stack' behind behind' line line' hv hu hplace hplace' hw h
  exact ⟨p, q, G, hw', hg.ended hend, hg'.ended hend', hruns⟩

/-- **When two moves at the same time are serial.**  Two shells run one `mv` each, with any
lines and in any directories, and their calls come in any order.  The tree that this leads
to is that of one move after the other, in one of the two orders, iff neither both moves
copied one file, nor one of them found no room next to the other's copy where it has room
before and after. -/
theorem moves_serial_iff
    (others : ShellCall → ShellWorld → Except ShellFault (ShellReply × ShellWorld))
    (stack stack' : CopyStack) (behind behind' : List Byte) (line line' : CommandLine)
    {l : List (Bool × ShellCall × ShellReply)} {a b : Place}
    (hs : Tidy w.fs) (hu : w.fs.volume.UniqueFolderTexts)
    (hplace : w.fs.volume.Directory place.workingDirectory)
    (hplace' : w.fs.volume.Directory place'.workingDirectory)
    (h : Shared (serve others) (mv stack behind line place)
      (mv stack' behind' line' place') w l a b w') :
    (OneAfterTheOther others (mv stack behind line place) (mv stack' behind' line' place') w w' ∨
        OneAfterTheOther others (mv stack' behind' line' place') (mv stack behind line place)
          w w') ↔
      ¬ (w.fs.volume.store.Anomaly (w.fs.volume.movePlan stack behind line place)
            (w.fs.volume.movePlan stack' behind' line' place')
            w.fs.volume.files w'.fs.volume.files ∨
          w.fs.volume.store.Anomaly (w.fs.volume.movePlan stack' behind' line' place')
            (w.fs.volume.movePlan stack behind line place)
            w.fs.volume.files w'.fs.volume.files) := by
  have hv := hs.wellFormed.toIntact
  have hw : OnFiles w.fs.volume w.fs.volume.files w := ⟨hs, .refl _, rfl⟩
  obtain ⟨p, q, G, hw', hend, hend', hruns⟩ :=
    shared_ends others stack stack' behind behind' line line' hv hu hplace hplace' hw h
  rw [← serial_iff_oneAfterTheOther others stack stack' behind behind' line line' hv hu
      hplace hplace' hw hw',
    ← serial_iff_oneAfterTheOther others stack' stack behind' behind line' line hv hu
      hplace' hplace hw hw', hw'.files]
  exact serial_iff hruns hend hend'

/-! ### Every order of the steps -/

/-- What is left of the program of a move that has come to `p`. -/
def Going (v : Volume) (stack : CopyStack) (behind : List Byte) (line : CommandLine)
    (place : Place) (program : ShellProgram Place) (p : Progress (List ClusterBuffer)) : Prop :=
  ∃ g, MovePhase.Matches g p ∧
    program.Follows (moveProtocol v stack behind line place) (MoveFaults v stack line place) g
      fun g place' => place' = place ∧ MoveEnds v stack behind line place g

theorem mv_going (stack : CopyStack) (behind : List Byte) (line : CommandLine) (hv : v.Intact)
    (hu : v.UniqueFolderTexts) (hplace : v.Directory place.workingDirectory) :
    Going v stack behind line place (mv stack behind line place) .start :=
  ⟨.start, .start, mv_follows stack behind line hv hu hplace⟩

/-- A move that takes a step has no fault. -/
theorem MovePhase.Matches.not_fault {e : ShellFault} (hg : g.Matches p)
    (hstep : v.store.Step (v.movePlan stack behind line place) p F p' G) :
    ¬ MoveFaults v stack line place g e := by
  intro he
  cases hg with
  | start =>
      cases hstep with
      | fail hk _ => cases hk.symm.trans he
      | load hk _ _ => cases hk.symm.trans he
  | loaded data =>
      cases hstep with
      | refuse hk _ => cases hk.symm.trans he
      | write hk _ _ => cases hk.symm.trans he
  | unreadable => exact he
  | refused => exact he
  | copied mem data => exact he
  | moved data => exact he

/-- Nor has one that is over. -/
theorem MovePhase.Matches.not_fault_of_ended {e : ShellFault} (hg : g.Matches p)
    (hend : (v.movePlan stack behind line place).Ended p) :
    ¬ MoveFaults v stack line place g e := by
  intro he
  cases hg with
  | start => cases he.symm.trans hend
  | loaded data => cases he.symm.trans hend
  | unreadable => exact he
  | refused => exact he
  | copied mem data => exact he
  | moved data => exact he

/-- **A move may take its next step before the other makes another call.** -/
theorem Going.step {program other : ShellProgram Place}
    (others : ShellCall → ShellWorld → Except ShellFault (ShellReply × ShellWorld))
    (hv : v.Intact) (hplace : v.Directory place.workingDirectory)
    (h : Going v stack behind line place program p) (hw : OnFiles v F w)
    (hstep : v.store.Step (v.movePlan stack behind line place) p F p' G) :
    ∃ program' w₁, Going v stack behind line place program' p' ∧ OnFiles v G w₁ ∧
      ∀ {l a b w'}, Shared (serve others) program' other w₁ l a b w' →
        ∃ l, Shared (serve others) program other w l a b w' := by
  -- by the calls of the program: all before that of the step change nothing
  obtain ⟨g, hg, hfollows⟩ := h
  induction program generalizing g w with
  | ret a =>
      obtain ⟨-, hend⟩ := hfollows
      exact absurd (hg.ended hend) hstep.not_ended
  | fail e => exact absurd hfollows (hg.not_fault hstep)
  | call c next ih =>
      obtain ⟨reply, w₁, p₁, F₁, hserve, hvalid, hg₁, hw₁, hcase⟩ :=
        moveCall_steps others hv hplace hw hg hfollows.1
      have hrest := hfollows.2 reply hvalid
      rcases hcase with ⟨rfl, rfl⟩ | hstep'
      · obtain ⟨program', w₂, hgoing, hw₂, hshared⟩ := ih reply hw₁ _ hg₁ hrest
        refine ⟨program', w₂, hgoing, hw₂, fun hl => ?_⟩
        obtain ⟨l, hl⟩ := hshared hl
        exact ⟨_, hl.left hserve⟩
      · obtain ⟨rfl, rfl⟩ := hstep.unique hstep'
        exact ⟨next reply, w₁, ⟨_, hg₁, hrest⟩, hw₁, fun hl => ⟨_, hl.left hserve⟩⟩

/-- A move that is over returns and leaves the files alone. -/
theorem Going.finish {program : ShellProgram Place}
    (others : ShellCall → ShellWorld → Except ShellFault (ShellReply × ShellWorld))
    (hv : v.Intact) (hplace : v.Directory place.workingDirectory)
    (h : Going v stack behind line place program p)
    (hend : (v.movePlan stack behind line place).Ended p) (hw : OnFiles v F w) :
    ∃ a w', program.run (serve others) w = .ok (a, w') ∧ OnFiles v F w' := by
  obtain ⟨g, hg, hfollows⟩ := h
  have hsys : Upholds (serve others) (moveProtocol v stack behind line place)
      fun g w => g.Matches p ∧ OnFiles v F w := by
    rintro g c w ⟨hg, hw⟩ hc
    obtain ⟨reply, w₁, p₁, F₁, hserve, hvalid, hg₁, hw₁, ⟨rfl, rfl⟩ | hstep⟩ :=
      moveCall_steps others hv hplace hw hg hc
    · exact ⟨reply, w₁, hserve, hvalid, hg₁, hw₁⟩
    · exact absurd hend hstep.not_ended
  obtain ⟨l, g', w', hexec, ⟨hg', hw'⟩, ⟨a, htrace, -⟩ | ⟨e, -, hfault⟩⟩ :=
    hfollows.run hsys ⟨hg, hw⟩
  · exact ⟨a, w', Program.run_eq_ok_iff.mpr ⟨l, htrace, hexec⟩, hw'⟩
  · exact absurd hfault (hg'.not_fault_of_ended hend)

/-- **Every run of the plans is one of the programs.** -/
theorem shared_of_runs_of_plans {q q' : Progress (List ClusterBuffer)}
    {program program' : ShellProgram Place}
    (others : ShellCall → ShellWorld → Except ShellFault (ShellReply × ShellWorld))
    (hv : v.Intact) (hplace : v.Directory place.workingDirectory)
    (hplace' : v.Directory place'.workingDirectory)
    (h : Relation.ReflTransGen (v.store.PairStep (v.movePlan stack behind line place)
      (v.movePlan stack' behind' line' place')) (p, q, F) (p', q', G))
    (hend : (v.movePlan stack behind line place).Ended p')
    (hend' : (v.movePlan stack' behind' line' place').Ended q')
    (hp : Going v stack behind line place program p)
    (hq : Going v stack' behind' line' place' program' q) (hw : OnFiles v F w) :
    ∃ l a b w', Shared (serve others) program program' w l a b w' ∧ OnFiles v G w' := by
  generalize hx : (p, q, F) = x at h
  induction h using Relation.ReflTransGen.head_induction_on
    generalizing p q F program program' w with
  | refl =>
      cases hx
      -- both are over, and they return one after the other
      obtain ⟨a, w₁, hrun, hw₁⟩ := hp.finish others hv hplace hend hw
      obtain ⟨b, w', hrun', hw'⟩ := hq.finish others hv hplace' hend' hw₁
      obtain ⟨l, hl⟩ := shared_of_runs hrun hrun'
      exact ⟨l, a, b, w', hl, hw'⟩
  | head hstep _ ih =>
      subst hx
      cases hstep with
      | left hstep =>
          obtain ⟨next, w₁, hp', hw₁, hshared⟩ := hp.step others hv hplace hw hstep
          obtain ⟨l, a, b, w', hl, hw'⟩ := ih hp' hq hw₁ rfl
          obtain ⟨l, hl⟩ := hshared hl
          exact ⟨l, a, b, w', hl, hw'⟩
      | right hstep =>
          obtain ⟨next, w₁, hq', hw₁, hshared⟩ := hq.step others hv hplace' hw hstep
          obtain ⟨l, a, b, w', hl, hw'⟩ := ih hp hq' hw₁ rfl
          obtain ⟨l, hl⟩ := hshared hl.symm
          exact ⟨_, a, b, w', hl.symm, hw'⟩

/-- **When two moves are serial whatever the order.**  Two shells run one `mv` each, with any
lines and in any directories.  In every order of their calls the tree that this leads to is
that of one move after the other, in one of the two orders, iff the two moves do not clash:
neither may both copy one file so that both copies stay, nor is one of them without room
next to the other's copy where it has room before the other and after it. -/
theorem moves_serializable_iff
    (others : ShellCall → ShellWorld → Except ShellFault (ShellReply × ShellWorld))
    (stack stack' : CopyStack) (behind behind' : List Byte) (line line' : CommandLine)
    (hs : Tidy w.fs) (hu : w.fs.volume.UniqueFolderTexts)
    (hplace : w.fs.volume.Directory place.workingDirectory)
    (hplace' : w.fs.volume.Directory place'.workingDirectory) :
    (∀ l a b w', Shared (serve others) (mv stack behind line place)
        (mv stack' behind' line' place') w l a b w' →
      OneAfterTheOther others (mv stack behind line place) (mv stack' behind' line' place') w w' ∨
        OneAfterTheOther others (mv stack' behind' line' place') (mv stack behind line place)
          w w') ↔
      ¬ w.fs.volume.store.Clash (w.fs.volume.movePlan stack behind line place)
        (w.fs.volume.movePlan stack' behind' line' place') w.fs.volume.files := by
  have hv := hs.wellFormed.toIntact
  have hw : OnFiles w.fs.volume w.fs.volume.files w := ⟨hs, .refl _, rfl⟩
  have hplans := fun {w' : ShellWorld} {G} (hw' : OnFiles w.fs.volume G w') =>
    serial_iff_oneAfterTheOther others stack stack' behind behind' line line' hv hu hplace
      hplace' hw hw'
  have hplans' := fun {w' : ShellWorld} {G} (hw' : OnFiles w.fs.volume G w') =>
    serial_iff_oneAfterTheOther others stack' stack behind' behind line' line hv hu hplace'
      hplace hw hw'
  rw [← serializable_iff]
  constructor
  · -- a run of the plans is one of the programs
    intro hall p q G hruns hend hend'
    obtain ⟨l, a, b, w', hl, hw'⟩ := shared_of_runs_of_plans others hv hplace hplace' hruns hend
      hend' (mv_going stack behind line hv hu hplace)
      (mv_going stack' behind' line' hv hu hplace') hw
    rw [hplans hw', hplans' hw']
    exact hall l a b w' hl
  · -- and the other way round
    intro hall l a b w' hl
    obtain ⟨p, q, G, hw', hend, hend', hruns⟩ :=
      shared_ends others stack stack' behind behind' line line' hv hu hplace hplace' hw hl
    rw [← hplans hw', ← hplans' hw']
    exact hall p q G hruns hend hend'

/-! ### Two moves of one file -/

/-- A disk with a folder, a file `b.t` in it, and the file that the shell writes when it
starts. -/
def startedDisk : FsState := (textWorld fun _ => ascii 'a').fs.after (testcatRequest [])

theorem startedDisk_step :
    (textWorld fun _ => ascii 'a').fs.step (testcatRequest []) = some startedDisk :=
  step_after (n := 0) (by decide +kernel)

theorem startedDisk_written :
    Tidy startedDisk ∧ SameFolders oneFolder.volume startedDisk.volume := by
  obtain ⟨hs, hfolders, -⟩ := textWorld_file (fun _ => ascii 'a') (by decide +kernel)
  obtain ⟨r, hr, hfs⟩ := step_eq_some.mp startedDisk_step
  have hroot : (textWorld fun _ => ascii 'a').fs.volume.Directory
      (testcatRequest []).request.parentClusterNumber := .root
  obtain ⟨r', hr', hcase⟩ := write_files (testcatRequest []).mem hs.wellFormed.toIntact
    hs.uniqueFiles hroot (by decide) (by decide)
  obtain rfl : r = r' := Except.ok.inj (hr.symm.trans hr')
  rw [← hfs]
  refine ⟨exec_tidy hs ⟨hroot, fun h => by cases h⟩ hr, hfolders.trans ?_⟩
  rcases hcase with ⟨-, -, -, hsets⟩ | ⟨-, hsame, -⟩ | ⟨-, hsame, -⟩
  · exact hsets.folders
  · exact hsame.sameFolders
  · exact hsame.sameFolders

theorem startedDisk_uniqueFolderTexts : startedDisk.volume.UniqueFolderTexts :=
  startedDisk_written.2.uniqueFolderTexts
    (oneFolder_shortNames.uniqueFolderTexts oneFolder_uniqueFolders)

def startedWorld : ShellWorld := ⟨startedDisk, []⟩

theorem startedWorld_fs : startedWorld.fs = startedDisk := by rw [startedWorld]

theorem startedWorld_uniqueFolderTexts : startedWorld.fs.volume.UniqueFolderTexts := by
  rw [startedWorld_fs]
  exact startedDisk_uniqueFolderTexts

theorem startedWorld_onFiles :
    OnFiles startedWorld.fs.volume startedWorld.fs.volume.files startedWorld := by
  refine ⟨?_, .refl _, rfl⟩
  rw [startedWorld_fs]
  exact startedDisk_written.1

/-- `mv testcat.txt` to another name. -/
def moveTestcat (ch : Char) : CommandLine :=
  lineOf ['m', 'v', ' ', 't', 'e', 's', 't', 'c', 'a', 't', '.', 't', 'x', 't', ' ', ch, '.', 't']

/-- The command at the root. -/
abbrev mvTestcat (ch : Char) : ShellProgram Place :=
  mv cleanStack.copy [] (moveTestcat ch) rootPlace

/-- A slot has the file. -/
def Volume.HasEntry (v : Volume) (k : FileKey) : Prop :=
  ∃ i, v.FileEntry k.dir i ∧ (v.table k.dir i).name = k.name ∧ (v.table k.dir i).ext = k.ext

instance {v : Volume} {k : FileKey} : Decidable (v.HasEntry k) :=
  inferInstanceAs (Decidable (∃ _, _))

theorem hasEntry_iff (hs : Tidy w.fs) (hk : w.fs.volume.Directory k.dir) :
    w.fs.volume.HasEntry k ↔ w.fs.volume.tree.files k ≠ none := by
  constructor
  · rintro ⟨i, hi, hn, hx⟩
    have hsome := hi.files_ne_none hs.wellFormed.toIntact hk
    rwa [hn, hx] at hsome
  · intro hne
    obtain ⟨data, hdata⟩ := Option.ne_none_iff_exists'.mp hne
    obtain ⟨i, l, -, hi, hn, hx, -⟩ := (files_eq_some_iff hs.uniqueFiles).mp hdata
    exact ⟨i, hi, hn, hx⟩

/-- The file that `moveTestcat` moves to. -/
def movedKey (ch : Char) : FileKey := ⟨rootClusterNumber, buffer 8 [ascii ch], buffer 3 [ascii 't']⟩

/-- The calls of the two, in turn. -/
def inTurn : List Bool := [true, false, true, false, true, false, true, false]

theorem shared_testcat : ∃ l a b w',
    Shared (serve noProcesses) (mvTestcat 'x') (mvTestcat 'y') startedWorld l a b w' ∧
    w'.fs.volume.HasEntry (movedKey 'x') ∧ w'.fs.volume.HasEntry (movedKey 'y') := by
  have hrun : (shareTurns (serve noProcesses) inTurn (mvTestcat 'x') (mvTestcat 'y')
      startedWorld).map (fun r =>
        decide (r.2.fs.volume.HasEntry (movedKey 'x') ∧ r.2.fs.volume.HasEntry (movedKey 'y'))) =
      some true := by
    decide +kernel
  obtain ⟨⟨⟨a, b⟩, w'⟩, hturns, hentries⟩ := Option.map_eq_some_iff.mp hrun
  obtain ⟨l, hshared⟩ := shared_of_turns hturns
  exact ⟨l, a, b, w', hshared, of_decide_eq_true hentries⟩

/-- Two moves that make their calls in turn. -/
theorem moves_serial_iff_testcat : ∃ l a b w',
    Shared (serve noProcesses) (mvTestcat 'x') (mvTestcat 'y') startedWorld l a b w' ∧
    ((OneAfterTheOther noProcesses (mvTestcat 'x') (mvTestcat 'y') startedWorld w' ∨
        OneAfterTheOther noProcesses (mvTestcat 'y') (mvTestcat 'x') startedWorld w') ↔
      ¬ (startedWorld.fs.volume.store.Anomaly
            (startedWorld.fs.volume.movePlan cleanStack.copy [] (moveTestcat 'x') rootPlace)
            (startedWorld.fs.volume.movePlan cleanStack.copy [] (moveTestcat 'y') rootPlace)
            startedWorld.fs.volume.files w'.fs.volume.files ∨
          startedWorld.fs.volume.store.Anomaly
            (startedWorld.fs.volume.movePlan cleanStack.copy [] (moveTestcat 'y') rootPlace)
            (startedWorld.fs.volume.movePlan cleanStack.copy [] (moveTestcat 'x') rootPlace)
            startedWorld.fs.volume.files w'.fs.volume.files)) := by
  obtain ⟨l, a, b, w', hshared, -⟩ := shared_testcat
  refine ⟨l, a, b, w', hshared, ?_⟩
  exact moves_serial_iff noProcesses _ _ _ _ _ _ startedWorld_onFiles.tidy
    startedWorld_uniqueFolderTexts .root .root hshared

/-- One move and then the other, as far as they return, and what the second leaves. -/
def entryBehind (ch ch' : Char) : Option Bool :=
  ((mvTestcat ch).run (serve noProcesses) startedWorld).toOption.bind fun r =>
    ((mvTestcat ch').run (serve noProcesses) r.2).toOption.map fun r' =>
      decide (r'.2.fs.volume.HasEntry (movedKey ch'))

theorem entryBehind_of_runs {ch ch' : Char} {a b : Place} {w₁ w₂ : ShellWorld}
    (h : (mvTestcat ch).run (serve noProcesses) startedWorld = .ok (a, w₁))
    (h' : (mvTestcat ch').run (serve noProcesses) w₁ = .ok (b, w₂)) :
    entryBehind ch ch' = some (decide (w₂.fs.volume.HasEntry (movedKey ch'))) := by
  simp only [entryBehind, h, h', Except.toOption, Option.bind_some, Option.map_some]

/-- The second of two moves of the file does not find it. -/
theorem not_oneAfterTheOther {ch ch' : Char} {w' : ShellWorld}
    (hbehind : entryBehind ch ch' = some false) (hw' : Tidy w'.fs)
    (hroot : w'.fs.volume.Directory rootClusterNumber)
    (hentry : w'.fs.volume.HasEntry (movedKey ch')) :
    ¬ OneAfterTheOther noProcesses (mvTestcat ch) (mvTestcat ch') startedWorld w' := by
  rintro ⟨a, w₁, b, w₂, hrun, hrun', htree⟩
  have hv := startedWorld_onFiles.tidy.wellFormed.toIntact
  have hplace : startedWorld.fs.volume.Directory rootPlace.workingDirectory := .root
  obtain ⟨F₁, -, hw₁⟩ :=
    mv_returns hv startedWorld_uniqueFolderTexts hplace startedWorld_onFiles hrun
  obtain ⟨F₂, -, hw₂⟩ := mv_returns hv startedWorld_uniqueFolderTexts hplace hw₁ hrun'
  have hfiles : w₂.fs.volume.HasEntry (movedKey ch') := by
    rw [hasEntry_iff hw₂.tidy (hw₂.folders.directory.mpr .root), htree]
    exact (hasEntry_iff hw' hroot).mp hentry
  rw [entryBehind_of_runs hrun hrun', decide_eq_true hfiles] at hbehind
  cases hbehind

/-- **Two moves of one file may leave it twice**, as no order of them does. -/
theorem moves_not_serial : Tidy startedWorld.fs ∧ ∃ l a b w',
    Shared (serve noProcesses) (mvTestcat 'x') (mvTestcat 'y') startedWorld l a b w' ∧
    ¬ OneAfterTheOther noProcesses (mvTestcat 'x') (mvTestcat 'y') startedWorld w' ∧
    ¬ OneAfterTheOther noProcesses (mvTestcat 'y') (mvTestcat 'x') startedWorld w' := by
  obtain ⟨l, a, b, w', hshared, hx, hy⟩ := shared_testcat
  have hv := startedWorld_onFiles.tidy.wellFormed.toIntact
  have hplace : startedWorld.fs.volume.Directory rootPlace.workingDirectory := .root
  obtain ⟨g, g', -, -, p, q, G, -, -, hw', -⟩ :=
    shared_together noProcesses _ _ _ _ _ _ hv startedWorld_uniqueFolderTexts hplace hplace
      startedWorld_onFiles hshared
  have hroot : w'.fs.volume.Directory rootClusterNumber := .root
  exact ⟨startedWorld_onFiles.tidy, l, a, b, w', hshared,
    not_oneAfterTheOther (by decide +kernel) hw'.tidy hroot hy,
    not_oneAfterTheOther (by decide +kernel) hw'.tidy hroot hx⟩

/-! ### Two moves of different files -/

/-- Whether there is room for a file in a directory once a copy of another is made. -/
def roomBehindCopy (w : ShellWorld) (k k' : FileKey) (d : BitVec 32) : Bool :=
  match serve noProcesses (.fs (readRequest k)) w with
  | .ok (reply, w₁) =>
      match serve noProcesses (.fs (writeRequest k' reply.mem)) w₁ with
      | .ok (reply', w₂) => decide (reply'.retcode = 0 ∧ HasRoom w₂.fs d fileBufferSize)
      | .error _ => false
  | .error _ => false

/-- The requests that make a copy say where there is room next to it. -/
theorem room_next_to_copy {k' d : FileKey} (hv : v.Intact) (hw : OnFiles v F w)
    (hk : v.Directory k.dir) (hk' : k'.Below v) (hd : v.Directory d.dir)
    (hroom : roomBehindCopy w k k' d.dir = true) :
    ∀ x, F k = some x → Fits x → v.store.room (Function.update F k' (some (copyOf x))) d := by
  intro x hx hfits
  obtain ⟨reply, w₁, hread, hsame, -, hcase⟩ :=
    serve_read noProcesses hw.tidy (hw.folders.directory.mpr hk)
  have hw₁ := hw.of_sameDisk hsame
  obtain ⟨reply', w₂, hwrite, htidy, -, hcase'⟩ :=
    serve_write noProcesses reply.mem hw₁.tidy (hk'.of_folders hw₁.folders)
  unfold roomBehindCopy at hroom
  rw [hread] at hroom
  dsimp only at hroom
  rw [hwrite] at hroom
  obtain ⟨hzero, hroom⟩ := of_decide_eq_true hroom
  rw [hw.files, hx] at hcase
  -- the file is read, and its copy is written
  rcases hcase with ⟨-, data, hdata, -, hmem⟩ | ⟨-, hno⟩
  · cases hdata
    rcases hcase' with ⟨-, -, -, hsets⟩ | ⟨hne, -⟩
    · have hw₂ : OnFiles v (Function.update F k' (some (copyOf x))) w₂ := by
        refine ⟨htidy, hw₁.folders.trans hsets.folders, ?_⟩
        rw [hsets.files, hw₁.files, hmem]
        rfl
      exact (hw₂.room_iff hv hd).mp hroom
    · exact absurd hzero hne
  · exact absurd hfits (hno x hx)

/-- In the folder: `mv b.t c.t`. -/
abbrev mvText : ShellProgram Place := mv cleanStack.copy [] mvLine folderPlace

def testcatKey : FileKey := (testcatRequest []).request.key

def movedTextKey : FileKey := ⟨3, buffer 8 [ascii 'c'], buffer 3 [ascii 't']⟩

theorem mvTestcat_plan (v : Volume) :
    (v.movePlan cleanStack.copy [] (moveTestcat 'x') rootPlace).Is
      ⟨testcatKey, movedKey 'x'⟩ := by
  have hargs : (moveTestcat 'x').moveArgs = .ok (some ⟨[], testcatKey.name, testcatKey.ext, [],
      buffer 8 [ascii 'x'], [ascii 't']⟩) := by rfl
  constructor
  · show v.moveSource cleanStack.copy (moveTestcat 'x') rootPlace = _
    rw [Volume.moveSource, hargs]
    rfl
  · show v.moveTarget cleanStack.copy (moveTestcat 'x') rootPlace = _
    rw [Volume.moveTarget, hargs]
    rfl

theorem mvText_plan (v : Volume) :
    (v.movePlan cleanStack.copy [] mvLine folderPlace).Is ⟨textKey, movedTextKey⟩ := by
  have hargs : mvLine.moveArgs = .ok (some ⟨[], textKey.name, textKey.ext, [],
      buffer 8 [ascii 'c'], [ascii 't']⟩) := by rfl
  constructor
  · show v.moveSource cleanStack.copy mvLine folderPlace = _
    rw [Volume.moveSource, hargs]
    rfl
  · show v.moveTarget cleanStack.copy mvLine folderPlace = _
    rw [Volume.moveTarget, hargs]
    rfl

theorem startedWorld_folder : startedWorld.fs.volume.Directory 3#32 := by
  rw [startedWorld_fs]
  exact startedDisk_written.2.directory.mpr oneFolder_directory

theorem shared_apart : ∃ l a b w',
    Shared (serve noProcesses) (mvTestcat 'x') mvText startedWorld l a b w' ∧
    w'.fs.volume.HasEntry (movedKey 'x') ∧ w'.fs.volume.HasEntry movedTextKey := by
  have hrun : (shareTurns (serve noProcesses) inTurn (mvTestcat 'x') mvText startedWorld).map
      (fun r => decide (r.2.fs.volume.HasEntry (movedKey 'x') ∧
        r.2.fs.volume.HasEntry movedTextKey)) = some true := by
    decide +kernel
  obtain ⟨⟨⟨a, b⟩, w'⟩, hturns, hentries⟩ := Option.map_eq_some_iff.mp hrun
  obtain ⟨l, hshared⟩ := shared_of_turns hturns
  exact ⟨l, a, b, w', hshared, of_decide_eq_true hentries⟩

/-- Two files of different directories: both move, and every order of the calls is serial. -/
theorem moves_serializable_apart :
    (∃ l a b w', Shared (serve noProcesses) (mvTestcat 'x') mvText startedWorld l a b w' ∧
        w'.fs.volume.HasEntry (movedKey 'x') ∧ w'.fs.volume.HasEntry movedTextKey) ∧
      ∀ l a b w', Shared (serve noProcesses) (mvTestcat 'x') mvText startedWorld l a b w' →
        OneAfterTheOther noProcesses (mvTestcat 'x') mvText startedWorld w' ∨
          OneAfterTheOther noProcesses mvText (mvTestcat 'x') startedWorld w' := by
  have hv := startedWorld_onFiles.tidy.wellFormed.toIntact
  refine ⟨shared_apart, ?_⟩
  refine (moves_serializable_iff noProcesses cleanStack.copy cleanStack.copy [] []
    (moveTestcat 'x') mvLine startedWorld_onFiles.tidy startedWorld_uniqueFolderTexts .root
    startedWorld_folder).mpr ?_
  refine not_clash_of_apart (mvTestcat_plan _) (mvText_plan _) (by decide) ?_ ?_
  · exact room_next_to_copy hv startedWorld_onFiles .root ⟨.root, by decide⟩ startedWorld_folder
      (by decide +kernel)
  · exact room_next_to_copy hv startedWorld_onFiles startedWorld_folder
      ⟨startedWorld_folder, by decide⟩ .root (by decide +kernel)

/-! ### Any number of moves -/

/-- Moves that began on `F` are in phases `g`, and nothing is lost. -/
def AllTogether {ι : Type} (v : Volume) (stack : ι → CopyStack) (behind : ι → List Byte)
    (line : ι → CommandLine) (place : ι → Place) (F : FileKey → Option (List ClusterBuffer))
    (g : ι → MovePhase) (w : ShellWorld) : Prop :=
  ∃ p G, (∀ i, (g i).Matches (p i)) ∧ OnFiles v G w ∧
    v.store.Keeps List.IsPrefix (fun i => v.movePlan (stack i) (behind i) (line i) (place i)) F p G

/-- **Moves of different files lose nothing.**  Any number of shells run one `mv` each, of
which no two move the same file.  At any time, wherever each of them is, the folders are
what they were, and every file that was there at first is still there, or another file
begins with its content. -/
theorem moves_lose_nothing {ι : Type} [DecidableEq ι]
    (others : ShellCall → ShellWorld → Except ShellFault (ShellReply × ShellWorld))
    (stack : ι → CopyStack) (behind : ι → List Byte) (line : ι → CommandLine) (place : ι → Place)
    {ps : ι → ShellProgram Place} (hs : Tidy w.fs)
    (hu : w.fs.volume.UniqueFolderTexts)
    (hplace : ∀ i, w.fs.volume.Directory (place i).workingDirectory)
    (hsources : ∀ i j k, w.fs.volume.moveSource (stack i) (line i) (place i) = .ok (some k) →
      w.fs.volume.moveSource (stack j) (line j) (place j) = .ok (some k) → i = j)
    (h : Interleaves (serve others) (fun i => mv (stack i) (behind i) (line i) (place i)) w ps w') :
    SameFolders w.fs.volume w'.fs.volume ∧
      ∀ k data, w.fs.volume.files k = some data →
        ∃ k' data', w'.fs.volume.files k' = some data' ∧ data <+: data' := by
  have hv := hs.wellFormed.toIntact
  have hw : OnFiles w.fs.volume w.fs.volume.files w := ⟨hs, .refl _, rfl⟩
  have hstart : AllTogether w.fs.volume stack behind line place w.fs.volume.files
      (fun _ => .start) w :=
    ⟨_, _, fun _ => .start, hw, keeps_start⟩
  obtain ⟨g, ⟨p, G, -, hw', hkeeps⟩, -⟩ := follows_of_turns h
    (fun i => mv_follows (stack i) (behind i) (line i) hv hu (hplace i)) hstart
    (by
      rintro g i c s r s' ⟨p, G, hg, hw, hkeeps⟩ hc hcall
      obtain ⟨reply, w₁, q, G', hserve, hvalid, hg', hw₁, hstep⟩ :=
        moveCall_steps others hv (hplace i) hw (hg i) hc
      cases hcall.symm.trans hserve
      refine ⟨hvalid, Function.update p i q, G', fun j => ?_, hw₁, ?_⟩
      · by_cases hj : j = i
        · subst hj
          rw [Function.update_self, Function.update_self]
          exact hg'
        · rw [Function.update_of_ne hj, Function.update_of_ne hj]
          exact hg j
      · rcases hstep with ⟨rfl, rfl⟩ | hstep
        · rwa [Function.update_eq_self]
        · exact hkeeps.step (fun hfits => prefix_copyOf hfits)
            (fun hi hj => hsources _ _ _ hi hj) hstep)
  refine ⟨hw'.folders, fun k data hdata => ?_⟩
  obtain ⟨k', data', hdata', hle, -⟩ := hkeeps.stays hdata
  rw [← hw'.files] at hdata'
  exact ⟨k', data', hdata', hle⟩

/-- Two shells, one at the root and one in the folder. -/
def movesApart (i : Bool) : CommandLine := if i then moveTestcat 'x' else mvLine

def placesApart (i : Bool) : Place := if i then rootPlace else folderPlace

theorem placesApart_directory (i : Bool) :
    startedWorld.fs.volume.Directory (placesApart i).workingDirectory := by
  cases i with
  | true => exact .root
  | false => exact startedWorld_folder

theorem movesApart_sources : ∀ i j k,
    startedWorld.fs.volume.moveSource cleanStack.copy (movesApart i) (placesApart i) =
        .ok (some k) →
      startedWorld.fs.volume.moveSource cleanStack.copy (movesApart j) (placesApart j) =
        .ok (some k) → i = j := by
  -- the directories of the two files are those of the shells
  have hdir : ∀ {i k}, startedWorld.fs.volume.moveSource cleanStack.copy (movesApart i)
      (placesApart i) = .ok (some k) → k.dir = if i then rootClusterNumber else 3 := by
    intro i k hk
    cases i with
    | true =>
        cases hk.symm.trans (mvTestcat_plan _).src
        rfl
    | false =>
        cases hk.symm.trans (mvText_plan _).src
        rfl
  intro i j k hi hj
  have hij := (hdir hi).symm.trans (hdir hj)
  cases i with
  | true =>
      cases j with
      | true => rfl
      | false => exact absurd hij (by decide)
  | false =>
      cases j with
      | true => exact absurd hij (by decide)
      | false => rfl

/-- Both have made their copies, and none has deleted its file. -/
theorem moves_lose_nothing_testcat : ∃ ps w',
    Interleaves (serve noProcesses)
      (fun i => mv cleanStack.copy [] (movesApart i) (placesApart i)) startedWorld ps w' ∧
      SameFolders startedWorld.fs.volume w'.fs.volume ∧
      ∀ k data, startedWorld.fs.volume.files k = some data →
        ∃ k' data', w'.fs.volume.files k' = some data' ∧ data <+: data' := by
  have hrun : (runTurns (serve noProcesses) [true, false, true, false]
      (fun i => mv cleanStack.copy [] (movesApart i) (placesApart i)) startedWorld).isSome =
        true := by
    decide +kernel
  obtain ⟨⟨ps, w'⟩, hturns⟩ := Option.isSome_iff_exists.mp hrun
  have hinter := interleaves_of_turns hturns
  refine ⟨ps, w', hinter, ?_⟩
  exact moves_lose_nothing noProcesses (fun _ => cleanStack.copy) (fun _ => []) movesApart
    placesApart startedWorld_onFiles.tidy startedWorld_uniqueFolderTexts placesApart_directory
    movesApart_sources hinter

end Binbows
