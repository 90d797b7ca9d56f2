/-
Binbows/CatOutput.lean

What `cat` prints.

`cat` finds a directory and a name in its line, asks for the file, and prints its buffer up
to the first NUL with one `puts`.  `Volume.catSource` is the file that it asks for, and
`CatCall` says which calls it makes on the way (`cat_follows`).  With the file system to
itself it comes to the file that is there (`catState_upholds`).

The count of the `puts` is the length of the text in 32 bits; the kernel takes it as a byte.
So of a text of `n` characters the first `n % 256` are printed.

Main result: `cat_prints_iff`.
-/
import Binbows.FileMoves

namespace Binbows

open Chain SlotTree Bytes Volume Run Calls Moves
open Terminal (chars text)

variable {others : ShellCall → ShellWorld → Except ShellFault (ShellReply × ShellWorld)}
  {w w' w₀ : ShellWorld} {v : Volume} {d c : BitVec 32} {k : FileKey} {mem : Memory}
  {data : List ClusterBuffer} {line : CommandLine} {place moved : Place} {behind name : List Byte}

/-! ### The plan -/

/-- The file of that name where the shell stands. -/
def Place.fileKey (place : Place) (name : List Byte) : Except ShellFault FileKey := do
  let (name, ext) ← splitDot name
  return ⟨place.workingDirectory, name, ext⟩

/-- The file that `cat` asks for; `none` where it has no argument or no directory. -/
def Volume.catSource (v : Volume) (behind : List Byte) (line : CommandLine) (place : Place) :
    Except ShellFault (Option FileKey) :=
  if line.NoArguments 3 then .ok none
  else do
    let args ← line.arguments 4
    if args.any (· = slash) then
      let (path, name) ← line.splitPath 4
      let (ret, moved) ← v.resolve behind path place
      if ret ≠ 0 then return none
      else
        let k ← moved.fileKey name
        return some k
    else
      let k ← place.fileKey args
      return some k

/-- Without a slash it is where the shell stands. -/
theorem catSource_here {args : List Byte} (hno : ¬ line.NoArguments 3)
    (hargs : line.arguments 4 = .ok args) (hslash : ¬ (args.any (· = slash)) = true) :
    v.catSource behind line place = do
      let k ← place.fileKey args
      return some k := by
  rw [Volume.catSource, if_neg hno, hargs]
  exact if_neg hslash

theorem fileKey_eq_ok (h : place.fileKey name = .ok k) :
    splitDot name = .ok (k.name, k.ext) ∧ k.dir = place.workingDirectory := by
  obtain ⟨⟨n, e⟩, hsplit, hk⟩ := bind_eq_ok.mp h
  cases hk
  exact ⟨hsplit, rfl⟩

/-- It is below a directory. -/
theorem catSource_directory (h : v.Intact) (hplace : v.Directory place.workingDirectory)
    (hk : v.catSource behind line place = .ok (some k)) : v.Directory k.dir := by
  unfold Volume.catSource at hk
  split_ifs at hk with hno
  · cases hk
  · obtain ⟨args, -, hk⟩ := bind_eq_ok.mp hk
    split_ifs at hk with hslash
    · obtain ⟨⟨path, name⟩, -, hk⟩ := bind_eq_ok.mp hk
      obtain ⟨⟨ret, moved⟩, hresolve, hk⟩ := bind_eq_ok.mp hk
      dsimp only at hk
      split_ifs at hk with hret
      · cases hk
      · obtain ⟨k', hkey, hk⟩ := bind_eq_ok.mp hk
        cases hk
        rw [not_not.mp hret] at hresolve
        rw [(fileKey_eq_ok hkey).2]
        exact resolve_directory h hplace hresolve
    · obtain ⟨k', hkey, hk⟩ := bind_eq_ok.mp hk
      cases hk
      rw [(fileKey_eq_ok hkey).2]
      exact hplace

/-! ### The calls of cat -/

/-- How far `cat` is. -/
inductive CatPhase
  | start
  /-- there is no file to ask for -/
  | missing
  | unreadable
  | loaded (mem : Memory)
  | printed

/-- What `cat` prints of its buffer. -/
def printText (mem : Memory) : TextCall :=
  .puts (fun k => mem (stackBuffer + BitVec.ofNat 32 k)) (BitVec.ofNat 8 (textLength mem)) 0x6

/-- The calls of `cat` in a phase. -/
inductive CatCall (v : Volume) (behind : List Byte) (line : CommandLine) (place : Place) :
    CatPhase → ShellCall → Prop
  | look {d : BitVec 32} : v.Directory d → (name : EntryName) →
      CatCall v behind line place .start (.fs (tableRequest name d))
  | read {k : FileKey} : v.catSource behind line place = .ok (some k) →
      CatCall v behind line place .start (.fs (readRequest k))
  | explain {call : TextCall} : v.catSource behind line place = .ok none →
      CatCall v behind line place .start (.text call)
  | explainMore {call : TextCall} : CatCall v behind line place .missing (.text call)
  | sayFailed {call : TextCall} : CatCall v behind line place .unreadable (.text call)
  | print {mem : Memory} : CatCall v behind line place (.loaded mem) (.text (printText mem))

/-- The phase behind a call. -/
def CatPhase.next : CatPhase → ShellCall → ShellReply → CatPhase
  | .start, .fs ⟨.read, _, _⟩, reply =>
      if reply.retcode = 0 then .loaded reply.mem else .unreadable
  | .start, .text _, _ => .missing
  | .loaded _, .text _, _ => .printed
  | g, _, _ => g

def catProtocol (v : Volume) (behind : List Byte) (line : CommandLine) (place : Place) :
    Protocol ShellCall ShellReply CatPhase where
  good := CatCall v behind line place
  valid call reply := ∀ name d, v.Directory d → call = .fs (tableRequest name d) →
    ShowsFolder v d name reply
  next := CatPhase.next

theorem catProtocol_looks : Looks (catProtocol v behind line place) v .start where
  good hd name := .look hd name
  valid hd hvalid := hvalid _ _ hd rfl
  next := rfl

/-- `cat` stops with a fault where it finds its file by an array that is too short. -/
def CatFaults (v : Volume) (behind : List Byte) (line : CommandLine) (place : Place) :
    CatPhase → ShellFault → Prop
  | .start, e => v.catSource behind line place = .error e
  | _, _ => False

/-- The phases that `cat` ends in. -/
def CatEnds (v : Volume) (behind : List Byte) (line : CommandLine) (place : Place) : CatPhase → Prop
  | .start => False
  | .missing => v.catSource behind line place = .ok none
  | .unreadable => ∃ k, v.catSource behind line place = .ok (some k)
  | .loaded _ => False
  | .printed => ∃ k, v.catSource behind line place = .ok (some k)

section

variable {g : CatPhase} {E : CatPhase → ShellFault → Prop} {call : TextCall}

theorem catTell_follows {Q : CatPhase → Unit → Prop}
    (hcall : CatCall v behind line place g (.text call))
    (hq : ∀ reply, Q (g.next (.text call) reply) ()) :
    (tell (.text call)).Follows (catProtocol v behind line place) E g Q := by
  refine Program.Follows.bind (Program.follows_ask hcall
    (Q := fun g' _ => ∃ reply, g' = g.next (.text call) reply) fun reply _ => ⟨reply, rfl⟩) ?_
  rintro _ - ⟨reply, rfl⟩
  exact Program.follows_pure (hq reply)

/-- A message with a code, where the first call leads to a phase of messages. -/
theorem catSayCode_follows {m : CatPhase} {message : List Char} {count code : Byte}
    (hfirst : ∀ call, CatCall v behind line place g (.text call))
    (hnext : ∀ call reply, g.next (.text call) reply = m)
    (hmore : ∀ call, CatCall v behind line place m (.text call))
    (hstay : ∀ call reply, m.next (.text call) reply = m) :
    (sayCode message count code).Follows (catProtocol v behind line place) E g fun g₁ _ => g₁ = m := by
  refine Program.Follows.bind (catTell_follows (Q := fun g₁ _ => g₁ = m) (hfirst _)
    (hnext _)) ?_
  rintro _ - rfl
  exact catTell_follows (hmore _) (hstay _)

/-- From the name on. -/
theorem printFile_follows
    (hsource : v.catSource behind line place = do
      let k ← moved.fileKey name
      return some k) :
    (printFile name moved).Follows (catProtocol v behind line place)
      (CatFaults v behind line place) .start
      fun g _ => CatEnds v behind line place g := by
  unfold printFile
  refine Program.Follows.bind (Program.follows_ofExcept
    (Q := fun g r => g = .start ∧ splitDot name = .ok r) ?_ fun r hr => ⟨rfl, hr⟩) ?_
  · intro e he
    show v.catSource behind line place = .error e
    rw [hsource, Place.fileKey, he]
    rfl
  rintro _ ⟨n, x⟩ ⟨rfl, hsplit⟩
  have hk : v.catSource behind line place = .ok (some ⟨moved.workingDirectory, n, x⟩) := by
    rw [hsource, Place.fileKey, hsplit]
    rfl
  refine Program.Follows.bind (Program.follows_ask (.read hk)
    (Q := fun g reply => g = if reply.retcode = 0 then .loaded reply.mem else .unreadable)
      fun reply _ => rfl) ?_
  rintro _ reply rfl
  by_cases hret : reply.retcode = 0
  · rw [if_pos hret, if_neg (not_not.mpr hret)]
    exact catTell_follows .print fun _ => ⟨_, hk⟩
  · rw [if_neg hret, if_pos hret]
    refine (catSayCode_follows (m := .unreadable) (fun _ => .sayFailed) (fun _ _ => rfl)
      (fun _ => .sayFailed) fun _ _ => rfl).mono ?_
    rintro _ - rfl
    exact ⟨_, hk⟩

/-- **`cat` makes the calls of its phases.** -/
theorem cat_follows (behind : List Byte) (line : CommandLine) (h : v.Intact)
    (hplace : v.Directory place.workingDirectory) :
    (cat behind line place).Follows (catProtocol v behind line place)
      (CatFaults v behind line place) .start
      fun g place' => place' = place ∧ CatEnds v behind line place g := by
  -- line by line the program is compared with what it reads (`catSource`)
  by_cases hno : line.NoArguments 3
  · have hnone : v.catSource behind line place = .ok none := if_pos hno
    rw [cat, if_pos hno]
    refine Program.Follows.bind (catTell_follows (Q := fun g _ => CatEnds v behind line place g)
      (.explain hnone) fun _ => hnone) ?_
    exact fun g _ hends => Program.follows_pure ⟨rfl, hends⟩
  · have hsource : v.catSource behind line place = _ := if_neg hno
    rw [cat, if_neg hno]
    refine Program.Follows.bind (Program.follows_ofExcept
      (Q := fun g args => g = .start ∧ line.arguments 4 = .ok args) ?_ fun a ha => ⟨rfl, ha⟩) ?_
    · intro e he
      show v.catSource behind line place = .error e
      rw [hsource, he]
      rfl
    rintro _ args ⟨rfl, hargs⟩
    rw [hargs] at hsource
    change _ = ite _ _ _ at hsource
    -- with a slash the path in front of it is walked first
    by_cases hslash : (args.any (· = slash)) = true
    · rw [if_pos hslash] at hsource ⊢
      refine Program.Follows.bind (Program.follows_ofExcept
        (Q := fun g r => g = .start ∧ line.splitPath 4 = .ok r) ?_ fun a ha => ⟨rfl, ha⟩) ?_
      · intro e he
        show v.catSource behind line place = .error e
        rw [hsource, he]
        rfl
      rintro _ ⟨path, name⟩ ⟨rfl, hsplit⟩
      rw [hsplit] at hsource
      refine Program.Follows.bind (multipleCd_follows h catProtocol_looks hplace fun e he => ?_) ?_
      · show v.catSource behind line place = .error e
        rw [hsource]
        show (v.resolve behind path place >>= _) = _
        rw [he]
        rfl
      rintro _ ⟨ret, moved⟩ ⟨rfl, hresolve⟩
      change _ = (v.resolve behind path place >>= _) at hsource
      rw [hresolve] at hsource
      dsimp only
      -- the file is read in the directory that the path leads to
      by_cases hret : ret = 0
      · subst hret
        rw [if_neg (not_not.mpr rfl)]
        exact Program.Follows.bind (printFile_follows hsource) fun g _ hends =>
          Program.follows_pure ⟨rfl, hends⟩
      · have hnone : v.catSource behind line place = .ok none := hsource.trans (if_pos hret)
        rw [if_pos hret]
        refine Program.Follows.bind (catSayCode_follows (m := .missing) (fun _ => .explain hnone)
          (fun _ _ => rfl) (fun _ => .explainMore) fun _ _ => rfl) ?_
        rintro _ - rfl
        exact Program.follows_pure ⟨rfl, hnone⟩
    · rw [if_neg hslash] at hsource ⊢
      exact Program.Follows.bind (printFile_follows hsource) fun g _ hends =>
        Program.follows_pure ⟨rfl, hends⟩

end

/-! ### The text in the buffer -/

/-- The bytes of a file. -/
def fileBytes (data : List ClusterBuffer) : List Byte := data.flatMap fun block => List.ofFn block

/-- The text of a file: its bytes up to the first NUL, or to its end. -/
def fileText (data : List ClusterBuffer) : List Byte := (fileBytes data).takeWhile (· ≠ 0)

/-- The text in the buffer of `cat`. -/
def bufferText (mem : Memory) : List Byte :=
  ((List.range fileBufferSize.toNat).map fun k => mem (stackBuffer + BitVec.ofNat 32 k)).takeWhile
    (· ≠ 0)

theorem textLength_eq (mem : Memory) : textLength mem = (bufferText mem).length := by
  rw [textLength, bufferText, List.takeWhile_map, List.length_map]
  rfl

theorem length_fileBytes (data : List ClusterBuffer) :
    (fileBytes data).length = data.length * clusterSize := by
  induction data with
  | nil => rw [List.length_nil, Nat.zero_mul]; rfl
  | cons block data ih =>
      rw [fileBytes, List.flatMap_cons, List.length_append, List.length_ofFn]
      show _ + (fileBytes data).length = _
      rw [ih, List.length_cons, Nat.succ_mul, Nat.add_comm]

/-- A buffer is its clusters, one after the other. -/
theorem fileBytes_loads (mem : Memory) (buf : BitVec 32) (n : Nat) :
    fileBytes (loads mem buf n) =
      (List.range (n * clusterSize)).map fun k => mem (buf + BitVec.ofNat 32 k) := by
  induction n generalizing buf with
  | zero => rw [Nat.zero_mul]; rfl
  | succ n ih =>
      have hfirst : List.ofFn (mem.load buf) =
          (List.range clusterSize).map fun k => mem (buf + BitVec.ofNat 32 k) := by
        rw [List.ofFn_eq_map, ← List.map_coe_finRange_eq_range, List.map_map]
        rfl
      have hrest : fileBytes (loads mem (buf + BitVec.ofNat 32 clusterSize) n) =
          (List.range (n * clusterSize)).map fun k =>
            mem (buf + BitVec.ofNat 32 (clusterSize + k)) := by
        rw [ih]
        apply List.map_congr_left
        intro k _
        rw [BitVec.ofNat_add, BitVec.add_assoc]
      rw [loads, fileBytes, List.flatMap_cons, hfirst]
      show _ ++ fileBytes (loads mem (buf + BitVec.ofNat 32 clusterSize) n) = _
      rw [hrest, Nat.succ_mul, Nat.add_comm, List.range_add, List.map_append, List.map_map]
      rfl

/-- What stands behind the file in the buffer is zero. -/
theorem fileBytes_copyOf_zero {i : Nat} (h : Fits data) (hle : data.length * clusterSize ≤ i)
    (hi : i < (fileBytes (copyOf data)).length) : (fileBytes (copyOf data))[i] = 0 := by
  have hlen : (fileBytes (copyOf data)).length = 6144 := by
    rw [copyOf, fileBytes_loads, List.length_map, List.length_range]
    rfl
  rw [hlen] at hi
  simp only [copyOf, fileBytes_loads, List.getElem_map, List.getElem_range]
  unfold bufferOf
  apply Memory.storeAll_outside
  · unfold Fits at h
    have := fileBufferSize.isLt
    omega
  · obtain ⟨m, hm⟩ : ∃ m, m = data.length * clusterSize := ⟨_, rfl⟩
    rw [← hm] at hle ⊢
    bv_omega

/-- The buffer of `cat` with a file in it reads as the text of the file. -/
theorem bufferText_bufferOf (h : Fits data) : bufferText (bufferOf data) = fileText data := by
  have hsize : fileBufferSize.toNat = 3 * clusterSize := rfl
  have hbuffer : bufferText (bufferOf data) = (fileBytes (copyOf data)).takeWhile (· ≠ 0) := by
    rw [bufferText, hsize, copyOf, ← fileBytes_loads]
    rfl
  obtain ⟨rest, hrest⟩ := prefix_copyOf h
  have hbytes : fileBytes (copyOf data) = fileBytes data ++ fileBytes rest := by
    rw [← hrest, fileBytes, List.flatMap_append]
    rfl
  have hnone : (fileBytes rest).takeWhile (· ≠ 0) = [] := by
    cases hr : fileBytes rest with
    | nil => rfl
    | cons c cs =>
        have hin : (fileBytes data).length < (fileBytes (copyOf data)).length := by
          rw [hbytes, hr, List.length_append, List.length_cons]
          omega
        have hat : (fileBytes (copyOf data))[(fileBytes data).length] = c := by
          simp [hbytes, hr]
        have hzero := fileBytes_copyOf_zero h (length_fileBytes data).ge hin
        exact List.takeWhile_cons_of_neg (by simp [← hat, hzero])
  rw [hbuffer, hbytes, List.takeWhile_append, hnone, List.append_nil, fileText]
  split_ifs with hall
  · exact ((List.takeWhile_prefix _).eq_of_length hall).symm
  · rfl

/-- The `puts` of `cat` gets to as many characters as its count says modulo 256. -/
theorem printText_steps (mem : Memory) : (printText mem).steps =
    ((bufferText mem).take ((bufferText mem).length % 256)).map (.putchar · 0x6) := by
  have htake : ∀ n < 256, putsChars (fun k => mem (stackBuffer + BitVec.ofNat 32 k)) (List.range n) =
      (bufferText mem).take n := by
    intro n hn
    have hsize : fileBufferSize.toNat = 6144 := rfl
    rw [bufferText, List.take_takeWhile, ← List.map_take, List.take_range, hsize,
      Nat.min_eq_left (by omega)]
    rfl
  rw [printText, TextCall.steps, textLength_eq, BitVec.toNat_ofNat,
    htake _ (Nat.mod_lt _ (by decide))]

/-! ### A run of cat -/

/-- Where `cat` stands in a phase, if it began at `w₀`. -/
def CatState (w₀ : ShellWorld) (behind : List Byte) (line : CommandLine) (place : Place) :
    CatPhase → ShellWorld → Prop
  | .start, w => SameDisk w₀.fs w.fs ∧ w.output = w₀.output
  | .missing, w => SameDisk w₀.fs w.fs
  | .unreadable, w => SameDisk w₀.fs w.fs ∧ ∃ k,
      w₀.fs.volume.catSource behind line place = .ok (some k) ∧ Unreadable Fits w₀.fs.volume.files k
  | .loaded mem, w => SameDisk w₀.fs w.fs ∧ w.output = w₀.output ∧ ∃ k data,
      w₀.fs.volume.catSource behind line place = .ok (some k) ∧
        w₀.fs.volume.files k = some data ∧ Fits data ∧ mem = bufferOf data
  | .printed, w => SameDisk w₀.fs w.fs ∧ ∃ k data,
      w₀.fs.volume.catSource behind line place = .ok (some k) ∧
        w₀.fs.volume.files k = some data ∧ Fits data ∧
        w.output = w₀.output ++ [printText (bufferOf data)]

/-- The file system keeps its side of the protocol. -/
theorem catState_upholds
    (others : ShellCall → ShellWorld → Except ShellFault (ShellReply × ShellWorld))
    (hs : Tidy w₀.fs) (hplace : w₀.fs.volume.Directory place.workingDirectory) :
    Upholds (serve others) (catProtocol w₀.fs.volume behind line place)
      (CatState w₀ behind line place) := by
  rintro g call w hstate hcall
  -- by the call: the looks and the read find the files as they are
  cases hcall with
  | look hd name =>
      obtain ⟨hsame₀, hout₀⟩ := hstate
      obtain ⟨reply, w', hserve, hshows, hsame, hout⟩ :=
        serve_look others (hsame₀.tidy hs) hsame₀.sameFolders hd name
      refine ⟨reply, w', hserve, ?_, hsame₀.trans hsame, hout.trans hout₀⟩
      intro name' d' _ heq
      have hrequest := ShellCall.fs.inj heq
      have hname : name = name' := congrArg (fun call => call.request.name) hrequest
      have hdir : _ = d' := congrArg (fun call => call.request.parentClusterNumber) hrequest
      rwa [← hname, ← hdir]
  | @read k hk =>
      obtain ⟨hsame₀, hout₀⟩ := hstate
      have hdir : w.fs.volume.Directory k.dir := by
        rw [hsame₀.volume_eq]
        exact catSource_directory hs.wellFormed.toIntact hplace hk
      obtain ⟨reply, w', hserve, hsame, hout, hcase⟩ := serve_read others (hsame₀.tidy hs) hdir
      refine ⟨reply, w', hserve, ?_, ?_⟩
      -- a read is no look at a table
      · intro name d _ heq
        exact absurd (congrArg FsCall.op (ShellCall.fs.inj heq)) nofun
      · show CatState w₀ behind line place
          (if reply.retcode = 0 then .loaded reply.mem else .unreadable) w'
        rw [hsame₀.volume_eq] at hcase
        rcases hcase with ⟨hret, data, hdata, hfits, hmem⟩ | ⟨hret, hno⟩
        · rw [if_pos hret]
          exact ⟨hsame₀.trans hsame, hout.trans hout₀, k, data, hk, hdata, hfits, hmem⟩
        · rw [if_neg hret]
          exact ⟨hsame₀.trans hsame, k, hk, hno⟩
  | explain => exact ⟨_, _, rfl, nofun, hstate.1⟩
  | explainMore => exact ⟨_, _, rfl, nofun, hstate⟩
  | sayFailed => exact ⟨_, _, rfl, nofun, hstate⟩
  | print =>
      obtain ⟨hsame, hout, k, data, hk, hdata, hfits, rfl⟩ := hstate
      refine ⟨_, _, rfl, nofun, hsame, k, data, hk, hdata, hfits, ?_⟩
      show w.output ++ _ = _
      rw [hout]

/-- `cat` of a file that is there returns, and all that it prints is one `puts`. -/
theorem cat_runs
    (others : ShellCall → ShellWorld → Except ShellFault (ShellReply × ShellWorld))
    (hs : Tidy w.fs) (hplace : w.fs.volume.Directory place.workingDirectory)
    (hk : w.fs.volume.catSource behind line place = .ok (some k))
    (hdata : w.fs.volume.files k = some data) (hfits : Fits data) :
    ∃ l w', Exec (serve others) w l w' ∧ (cat behind line place).Trace l place ∧ SameDisk w.fs w'.fs ∧
      w'.output = w.output ++ [printText (bufferOf data)] := by
  have hstart : CatState w behind line place .start w := ⟨.rfl, rfl⟩
  obtain ⟨l, g, w', hexec, hstate, hend⟩ :=
    (cat_follows behind line hs.wellFormed.toIntact hplace).run
      (catState_upholds others hs hplace) hstart
  rcases hend with ⟨place', htrace, rfl, hends⟩ | ⟨e, -, hfault⟩
  · refine ⟨l, w', hexec, htrace, ?_⟩
    cases g with
    | start => exact absurd hends id
    | missing => cases hk.symm.trans hends
    | loaded mem => exact absurd hends id
    | unreadable =>
        obtain ⟨-, k', hk', hno⟩ := hstate
        obtain rfl : k = k' := Option.some.inj (Except.ok.inj (hk.symm.trans hk'))
        exact absurd hfits (hno data hdata)
    | printed =>
        obtain ⟨hsame, k', data', hk', hdata', -, hout⟩ := hstate
        obtain rfl : k = k' := Option.some.inj (Except.ok.inj (hk.symm.trans hk'))
        obtain rfl : data = data' := Option.some.inj (hdata.symm.trans hdata')
        exact ⟨hsame, hout⟩
  · cases g with
    | start => cases hk.symm.trans hfault
    | missing => exact absurd hfault id
    | unreadable => exact absurd hfault id
    | loaded mem => exact absurd hfault id
    | printed => exact absurd hfault id

/-- The characters that are put, for some text calls. -/
def putchars (calls : List TextCall) : List TextStep := calls.flatMap TextCall.steps

theorem take_mod_iff (l : List Byte) :
    (l.take (l.length % 256)).map (TextStep.putchar · 0x6) = l.map (.putchar · 0x6) ↔
      l.length < 256 := by
  constructor
  · intro h
    have hlen := congrArg List.length h
    rw [List.length_map, List.length_map, List.length_take] at hlen
    have := Nat.mod_lt l.length (show 0 < 256 by decide)
    omega
  · intro h
    rw [Nat.mod_eq_of_lt h, List.take_length]

/-- **`cat` prints the whole text of a file exactly if it has less than 256 characters.** -/
theorem cat_prints_iff
    (others : ShellCall → ShellWorld → Except ShellFault (ShellReply × ShellWorld))
    (hs : Tidy w.fs) (hplace : w.fs.volume.Directory place.workingDirectory)
    (hk : w.fs.volume.catSource behind line place = .ok (some k))
    (hdata : w.fs.volume.files k = some data) (hfits : Fits data) :
    ∃ w' calls, (cat behind line place).run (serve others) w = .ok (place, w') ∧
      w'.output = w.output ++ calls ∧
      (putchars calls = (fileText data).map (.putchar · 0x6) ↔ (fileText data).length < 256) := by
  obtain ⟨l, w', hexec, htrace, -, hout⟩ := cat_runs others hs hplace hk hdata hfits
  refine ⟨w', _, Program.run_eq_ok_iff.mpr ⟨l, htrace, hexec⟩, hout, ?_⟩
  rw [putchars, List.flatMap_singleton, printText_steps, bufferText_bufferOf hfits, take_mod_iff]

/-! ### Texts to try it on -/

def catLine : CommandLine := lineOf ['c', 'a', 't', ' ', 'b', '.', 't']

theorem catLine_source (v : Volume) (behind : List Byte) :
    v.catSource behind catLine folderPlace = .ok (some textKey) := by
  have hargs : catLine.arguments 4 = .ok [ascii 'b', dot, ascii 't'] := by rfl
  have hsplit : splitDot [ascii 'b', dot, ascii 't'] =
      .ok (buffer 8 [ascii 'b'], buffer 3 [ascii 't']) := by rfl
  have hslash : ¬ ([ascii 'b', dot, ascii 't'].any (· = slash)) = true := by decide
  rw [catSource_here (by decide) hargs hslash, Place.fileKey, hsplit]
  rfl

theorem fits_cluster (mem : Memory) : Fits (loads mem 0 1) := by
  unfold Fits
  rw [length_loads]
  decide

/-- `hi`, and zeros behind it. -/
def hiMemory : Memory := fun a => ([ascii 'h', ascii 'i'] : List Byte).getD a.toNat 0

/-- A file with a short text. -/
theorem cat_prints_hi : fileText (loads hiMemory 0 1) = [ascii 'h', ascii 'i'] ∧
    ∃ w' calls, (cat [] catLine folderPlace).run (serve noProcesses) (textWorld hiMemory) =
        .ok (folderPlace, w') ∧
      w'.output = (textWorld hiMemory).output ++ calls ∧
      (putchars calls = (fileText (loads hiMemory 0 1)).map (.putchar · 0x6) ↔
        (fileText (loads hiMemory 0 1)).length < 256) := by
  obtain ⟨htidy, hfolders, hfile⟩ := textWorld_file hiMemory (by decide +kernel)
  refine ⟨by decide +kernel, ?_⟩
  exact cat_prints_iff noProcesses htidy (hfolders.directory.mpr oneFolder_directory)
    (catLine_source _ []) hfile (fits_cluster _)

/-- The text of a full cluster. -/
theorem fileText_full : (fileText (loads (fun _ => ascii 'a') 0 1)).length = 2048 := by
  have hall : ∀ c ∈ fileBytes (loads (fun _ => ascii 'a') 0 1), decide (c ≠ 0) = true := by
    intro c hc
    rw [fileBytes_loads] at hc
    obtain ⟨i, -, rfl⟩ := List.mem_map.mp hc
    decide
  rw [fileText, List.takeWhile_eq_self_iff.mpr hall, length_fileBytes, length_loads]
  rfl

/-- Of a cluster full of letters, nothing is printed. -/
theorem cat_not_prints : Tidy (textWorld fun _ => ascii 'a').fs ∧
    (textWorld fun _ => ascii 'a').fs.volume.catSource [] catLine folderPlace =
      .ok (some textKey) ∧
    (textWorld fun _ => ascii 'a').fs.volume.files textKey =
      some (loads (fun _ => ascii 'a') 0 1) ∧
    (fileText (loads (fun _ => ascii 'a') 0 1)).length = 2048 ∧
    ∃ w', (cat [] catLine folderPlace).run (serve noProcesses) (textWorld fun _ => ascii 'a') =
        .ok (folderPlace, w') ∧
      putchars w'.output ≠ (fileText (loads (fun _ => ascii 'a') 0 1)).map (.putchar · 0x6) := by
  obtain ⟨htidy, hfolders, hfile⟩ := textWorld_file (fun _ => ascii 'a') (by decide +kernel)
  obtain ⟨l, w', hexec, htrace, -, hout⟩ := cat_runs noProcesses htidy
    (hfolders.directory.mpr oneFolder_directory) (catLine_source _ []) hfile (fits_cluster _)
  refine ⟨htidy, catLine_source _ [], hfile, fileText_full, w',
    Program.run_eq_ok_iff.mpr ⟨l, htrace, hexec⟩, ?_⟩
  rw [hout]
  show putchars [_] ≠ _
  rw [putchars, List.flatMap_singleton, printText_steps, bufferText_bufferOf (fits_cluster _),
    ne_eq, take_mod_iff, fileText_full]
  decide

end Binbows
