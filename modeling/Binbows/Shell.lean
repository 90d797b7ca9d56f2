/-
Binbows/Shell.lean

The commands of the shell (`user-shell.c`).

A command gets the line and the place of the shell and returns the place; the
functions that the source calls for their return code return it as well.  `mkdir`
and `find` read arrays that they never set: what those hold is a parameter, the
stale part of the stack.

A line is split by loops over `buf`, a copy of its characters that is zero behind
them.  A list of the characters that are left stands for the rest of `buf` here.
-/
import Binbows.ShellPaths

namespace Binbows

open Bytes Calls
open Terminal (chars text)

/-! ### Arguments -/

/-- The characters of the line from `skip` on: what the commands copy with
`memcpy(buf, cmd_buffer + skip, cur_cmd_length - skip)`. -/
def CommandLine.arguments (line : CommandLine) (skip : Nat) : Except ShellFault (List Byte) :=
  if skip ≤ line.curCmdLength.toNat ∧ line.curCmdLength.toNat ≤ maxCmdLength then
    .ok (span line.cmdBuffer skip (line.curCmdLength.toNat - skip))
  else .error .outOfBounds

/-- The commands that complain about a missing argument do so where the line is
the command, or the command and one more character. -/
def CommandLine.NoArguments (line : CommandLine) (command : Nat) : Prop :=
  strlen line.cmdBuffer = command ∨ strlen line.cmdBuffer = command + 1

instance {line : CommandLine} {command : Nat} : Decidable (line.NoArguments command) :=
  inferInstanceAs (Decidable (_ ∨ _))

def sayNoArguments : ShellProgram Unit :=
  say ['N', 'o', ' ', 'a', 'r', 'g', 'u', 'm', 'e', 'n', 't', 's', '!'] 12 0xC

/-- A message with a return code as its last character. -/
def sayCode (message : List Char) (count code : Byte) : ShellProgram Unit := do
  say message count 0xC
  tell (.text (.putchar (code + ascii '0') 0xC))

def sayReadFailed (code : Byte) : ShellProgram Unit :=
  sayCode ['R', 'e', 'a', 'd', ' ', 'f', 'a', 'i', 'l', 'e', 'd', ' ', 'w', 'i', 't', 'h', ' ',
    'c', 'o', 'd', 'e', ' '] 22 code

def sayCdFailed (code : Byte) : ShellProgram Unit :=
  sayCode ['F', 'a', 'i', 'l', 'e', 'd', ' ', 'c', 'h', 'a', 'n', 'g', 'i', 'n', 'g', ' ', 'd',
    'i', 'r', ' ', 'w', 'i', 't', 'h', ' ', 'c', 'o', 'd', 'e', ' '] 30 code

/-! ### cd and ls -/

def cd (behind : List Byte) (line : CommandLine) (place : Place) : ShellProgram Place :=
  if line.NoArguments 2 then do
    sayNoArguments
    pure place
  else if strlen line.cmdBuffer < 3 then .fail .outOfBounds
  else do
    let (ret, place) ←
      multipleCd behind (span line.cmdBuffer 3 (strlen line.cmdBuffer - 3)) place
    if ret ≠ 0 then
      say ['C', 'h', 'a', 'n', 'g', 'e', ' ', 'd', 'i', 'r', ' ', 'f', 'a', 'i', 'l', 'e', 'd']
        17 0xC
    else
      say ['C', 'h', 'a', 'n', 'g', 'e', ' ', 'd', 'i', 'r', ' ', 's', 'u', 'c', 'c', 'e', 's',
        's', '!'] 19 0xA
    pure place

/-- The listing of `ls`, over the slots that are left. -/
def listEntries (t : FAT32DirectoryTable) : List (Fin directoryEntryCount) → ShellProgram Unit
  | [] => pure ()
  | i :: is => do
      if (t i).Occupied then
        tell (.text (.puts (chars (t i).name) (BitVec.ofNat 8 (strlen (t i).name)) 0xF))
        if ¬ (t i).IsSubdirectory then
          if 0 < strlen (t i).ext then tell (.text (.putchar dot 0xF))
          tell (.text (.puts (chars (t i).ext) (BitVec.ofNat 8 (strlen (t i).ext)) 0xF))
        tell (.text (.putchar newline 0xF))
      listEntries t is

/-- The slots of a table behind the first two. -/
def childSlots : List (Fin directoryEntryCount) :=
  (List.finRange directoryEntryCount).filter fun i => 2 ≤ i.val

/-- `ls` from the request on. -/
def listDirectory (place : Place) : ShellProgram Unit := do
  let reply ← Program.ask (.fs ⟨.readDirectory, ⟨stackBuffer, lastFolderName place.currentPath, 0,
    place.workingDirectory, BitVec.ofNat 32 clusterSize⟩, zeroMemory⟩)
  if reply.retcode = 0 then
    -- the source clears the first two entries before it lists the others
    listEntries (.ofCluster (reply.mem.load stackBuffer)) childSlots
  else sayReadFailed reply.retcode

/-- The argument of `ls`. -/
def CommandLine.lsPath (line : CommandLine) : List Byte :=
  span line.cmdBuffer 3 (strlen line.cmdBuffer - 3)

/-- `ls` was given something other than spaces. -/
def CommandLine.HasPath (line : CommandLine) : Prop :=
  2 < strlen line.cmdBuffer ∧ ∃ c ∈ line.lsPath.takeWhile (· ≠ 0), c ≠ space

instance {line : CommandLine} : Decidable line.HasPath := inferInstanceAs (Decidable (_ ∧ _))

def ls (behind : List Byte) (line : CommandLine) (place : Place) : ShellProgram Place :=
  if line.HasPath then do
    let (ret, moved) ← multipleCd behind line.lsPath place
    if ret ≠ 0 then do
      sayReadFailed (BitVec.ofNat 8 ret)
      pure place
    else do
      listDirectory moved
      pure moved
  else do
    listDirectory place
    pure place

/-! ### mkdir and cat -/

/-- `mkdir` in the directory where the shell stands. -/
def makeDirectory (name : EntryName) (place : Place) : ShellProgram Unit := do
  let reply ← Program.ask (.fs ⟨.write, ⟨stackBuffer, name, 0, place.workingDirectory, 0⟩, zeroMemory⟩)
  if reply.retcode = 0 then
    say ['W', 'r', 'i', 't', 'e', ' ', 's', 'u', 'c', 'c', 'e', 's', 's', '!'] 13 0xA
  else
    say ['W', 'r', 'i', 't', 'e', ' ', 'f', 'a', 'i', 'l', 'e', 'd'] 12 0xC

/-- The name is `root`. -/
def IsRootName (name : EntryName) : Prop :=
  strlen name = 4 ∧ StartsWith name ['r', 'o', 'o', 't']

instance {name : EntryName} : Decidable (IsRootName name) := inferInstanceAs (Decidable (_ ∧ _))

/-- The message has `root` in quotes. -/
def sayCannotName : ShellProgram Unit :=
  say ['C', 'a', 'n', 'n', 'o', 't', ' ', 'n', 'a', 'm', 'e', ' ', 'f', 'o', 'l', 'd', 'e', 'r',
    ' ', Char.ofNat 39, 'r', 'o', 'o', 't', Char.ofNat 39] 25 0xC

/-- The directory and the name in an argument with a slash: what stands before the
last slash of the line and behind it.  The place of the name is an `int8_t`, which is
negative behind a slash at the end of a full line. -/
def CommandLine.splitPath (line : CommandLine) (skip : Nat) :
    Except ShellFault (List Byte × List Byte) :=
  let start := componentStart line.cmdBuffer line.curCmdLength.toNat
  if start < skip + 1 ∨ maxCmdLength ≤ start then .error .outOfBounds
  else .ok (span line.cmdBuffer skip (start - (skip + 1)),
    span line.cmdBuffer start (line.curCmdLength.toNat - start))

/-- `mkdir`.  The loop that looks for a slash goes on for two characters behind the
argument, which nothing has set. -/
def mkdir (behind : List Byte) (stale : PathBuffer) (line : CommandLine) (place : Place) :
    ShellProgram Place :=
  if line.NoArguments 5 then do
    sayNoArguments
    pure place
  else do
    let given ← Program.ofExcept (line.arguments 6)
    let args ← Program.ofExcept (memcpy stale 0 given)
    if (span args 0 (line.curCmdLength.toNat - 4)).any (· = slash) then
      let (path, name) ← Program.ofExcept (line.splitPath 6)
      let (ret, moved) ← multipleCd behind path place
      if ret ≠ 0 then
        sayCdFailed (BitVec.ofNat 8 ret)
        pure place
      else if IsRootName (buffer 8 name) then
        -- the source returns here and leaves the shell where it went
        sayCannotName
        pure moved
      else
        makeDirectory (buffer 8 name) moved
        pure place
    else if IsRootName (buffer 8 given) then
      sayCannotName
      pure place
    else
      makeDirectory (buffer 8 given) place
      pure place

/-- The name and the extension in the first eleven characters of a file name: what
stands before the last dot and behind it. -/
def splitDot (name : List Byte) : Except ShellFault (EntryName × EntryExt) :=
  let realName := name.take 11
  let ext := (realName.reverse.takeWhile (· ≠ dot)).reverse
  if realName.any (· = dot) then
    let pure := realName.take (realName.length - ext.length - 1)
    if pure.length ≤ 8 ∧ ext.length ≤ 3 then .ok (buffer 8 pure, buffer 3 ext)
    else .error .outOfBounds
  else if realName.length ≤ 8 then .ok (buffer 8 realName, 0)
  else .error .outOfBounds

/-- Three clusters. -/
def fileBufferSize : BitVec 32 := 6144

/-- The text in a buffer: up to its first NUL. -/
def textLength (mem : Memory) : Nat :=
  ((List.range fileBufferSize.toNat).takeWhile fun k =>
    mem (stackBuffer + BitVec.ofNat 32 k) ≠ 0).length

/-- `cat` of a file in the directory where the shell stands. -/
def printFile (name : List Byte) (place : Place) : ShellProgram Unit := do
  let (name, ext) ← Program.ofExcept (splitDot name)
  let reply ← Program.ask (.fs
    ⟨.read, ⟨stackBuffer, name, ext, place.workingDirectory, fileBufferSize⟩, zeroMemory⟩)
  if reply.retcode ≠ 0 then sayReadFailed reply.retcode
  else
    -- the count of `puts` is a byte
    tell (.text (.puts (fun k => reply.mem (stackBuffer + BitVec.ofNat 32 k))
      (BitVec.ofNat 8 (textLength reply.mem)) 0x6))

def cat (behind : List Byte) (line : CommandLine) (place : Place) : ShellProgram Place :=
  if line.NoArguments 3 then do
    sayNoArguments
    pure place
  else do
    let args ← Program.ofExcept (line.arguments 4)
    if args.any (· = slash) then
      let (path, name) ← Program.ofExcept (line.splitPath 4)
      let (ret, moved) ← multipleCd behind path place
      if ret ≠ 0 then
        sayCdFailed (BitVec.ofNat 8 ret)
        pure place
      else
        printFile name moved
        pure place
    else
      printFile args place
      pure place

/-! ### cp, rm and mv -/

/-- The loop that copies a path up to its extension: the characters that it copies,
and what is left of `buf`.  Two dots are copied as they are. -/
def copyWord : List Byte → List Byte × List Byte
  | [] => ([], [])
  | c :: cs =>
      if c = space ∨ c = 0 then ([], c :: cs)
      else if c = dot then
        match cs with
        | [] => ([], [c])
        | c' :: cs' =>
            if c' = dot then
              let (word, rest) := copyWord cs'
              (c :: c' :: word, rest)
            else ([], c :: c' :: cs')
      else
        let (word, rest) := copyWord cs
        (c :: word, rest)

/-- The loop that copies an extension. -/
def copyExt (l : List Byte) : List Byte := (l.take 3).takeWhile fun c => c ≠ space ∧ c ≠ 0

/-- Where the name starts, searched from offset `j` down: behind a slash that is not
the first character. -/
def nameStart (src : List Byte) : (j : Nat) → Nat
  | 0 => 0
  | j + 1 => if src.getD (j + 1) 0 = slash then j + 2 else nameStart src j

/-- The name in a path, cut at eight characters.  The loop zeroes the characters
that it copies. -/
def fileName (src : List Byte) : List Byte := (src.drop (nameStart src src.length)).take 8

/-- What is left of a path when its name is zeroed, with the slash. -/
def directoryOf (src : List Byte) : List Byte := src.take (nameStart src src.length)

/-- What `cp` finds in the line. -/
structure CopyArgs where
  src : List Byte
  srcName : EntryName
  srcExt : EntryExt
  dest : List Byte
  destName : EntryName
  destExt : List Byte

/-- The first half of `cp`; `none` where it returns 6.  The source ends the two
paths with a NUL one behind the place in `buf`. -/
def parseCopy (buf : List Byte) : Except ShellFault (Option CopyArgs) :=
  let (src, rest) := copyWord buf
  if maxCmdLength ≤ src.length + 1 then .error .outOfBounds
  else
    let srcExt := copyExt (rest.drop 1)
    if srcExt = [] then .ok none
    else
      let (dest, rest) := copyWord (rest.drop (1 + srcExt.length + 1))
      if maxCmdLength ≤ src.length + 1 + srcExt.length + 1 + dest.length + 1 then
        .error .outOfBounds
      else .ok (some {
        src := directoryOf src
        srcName := buffer 8 (fileName src)
        srcExt := buffer 3 srcExt
        dest := directoryOf dest
        destName := buffer 8 (fileName dest)
        destExt := copyExt (rest.drop 1) })

/-- The name of the current directory as `cp` takes it. -/
def copyFolderName (currentPath : PathBuffer) : EntryName :=
  let start := nameStart (string currentPath) (strlen currentPath - 2)
  buffer 8 ((span currentPath start 8).takeWhile (· ≠ slash))

/-- What lies behind the arrays of eight characters while `cp` runs: behind `path_buffer` in
its two calls of `multiple_cd`, and behind `dest_name`. -/
structure CopyStack where
  src : List Byte
  dest : List Byte
  destName : List Byte

/-- `cp` into a directory: the loop over the slots that are left.  It writes to
every directory of that name. -/
def copyInto (call : FsCall) (name : List Byte) (t : FAT32DirectoryTable) :
    List (Fin directoryEntryCount) → (found : Bool) → ShellProgram Nat
  | [], found => pure (if found then 0 else 4)
  | n :: ns, found =>
      if (t n).Occupied ∧ strcmp name (string (t n).name) = 1 ∧ (t n).IsSubdirectory then do
        let reply ← Program.ask
          (.fs { call with request := { call.request with parentClusterNumber := (t n).cluster } })
        if reply.retcode ≠ 0 then pure 3 else copyInto call name t ns true
      else copyInto call name t ns found

/-- The second half of `cp`: the file was read, and the path of the destination
leads to `moved`. -/
def copyWrite (stack : CopyStack) (args : CopyArgs) (request : FAT32DriverRequest) (mem : Memory)
    (moved : Place) :
    ShellProgram Nat :=
  if args.destExt = [] then do
    let reply ← Program.ask (.fs ⟨.readDirectory, ⟨stackBuffer, copyFolderName moved.currentPath, 0,
      moved.workingDirectory, BitVec.ofNat 32 clusterSize⟩, zeroMemory⟩)
    if reply.retcode ≠ 0 then pure 1
    else
      copyInto ⟨.write, request, mem⟩ (pathString stack.destName args.destName)
        (.ofCluster (reply.mem.load stackBuffer)) childSlots false
  else do
    let reply ← Program.ask (.fs ⟨.write, { request with
      parentClusterNumber := moved.workingDirectory
      name := args.destName
      ext := buffer 3 args.destExt }, mem⟩)
    if reply.retcode ≠ 0 then pure 5 else pure 0

/-- `cp` and its return code.  On every way out it restores both globals. -/
def cp (stack : CopyStack) (line : CommandLine) (place : Place) : ShellProgram (Nat × Place) := do
  let buf ← Program.ofExcept (line.arguments 3)
  let args ← Program.ofExcept (parseCopy buf)
  match args with
  | none => pure (6, place)
  | some args => do
      let (ret, moved) ← multipleCd stack.src args.src place
      if ret ≠ 0 then pure (2, place)
      else
        let request : FAT32DriverRequest :=
          ⟨stackBuffer, args.srcName, args.srcExt, moved.workingDirectory, fileBufferSize⟩
        let reply ← Program.ask (.fs ⟨.read, request, zeroMemory⟩)
        if reply.retcode ≠ 0 then pure (2, place)
        else
          let (ret, moved) ← multipleCd stack.dest args.dest place
          if ret ≠ 0 then pure (4, place)
          else
            let code ← copyWrite stack args request reply.mem moved
            pure (code, place)

/-- The messages of `cp` and `mv` for a failure. -/
def sayCopyFailed : (code : Nat) → ShellProgram Unit
  | 1 => say ['R', 'e', 'a', 'd', ' ', 'd', 'i', 'r', ' ', 'f', 'a', 'i', 'l', 'e', 'd'] 16 0xC
  | 2 => say ['S', 'r', 'c', ' ', 'n', 'o', 't', ' ', 'f', 'o', 'u', 'n', 'd'] 13 0xC
  | 3 => say ['W', 'r', 'i', 't', 'e', ' ', 'f', 'a', 'i', 'l', 'e', 'd'] 13 0xC
  | 4 => say ['D', 'e', 's', 't', ' ', 'n', 'o', 't', ' ', 'f', 'o', 'u', 'n', 'd'] 14 0xC
  | 5 => say ['W', 'r', 'i', 't', 'e', ' ', 'f', 'a', 'i', 'l', 'e', 'd'] 13 0xC
  | _ => pure ()

def cpCaller (stack : CopyStack) (line : CommandLine) (place : Place) : ShellProgram Place :=
  if line.NoArguments 2 then do
    sayNoArguments
    pure place
  else do
    let (code, place) ← cp stack line place
    if code = 0 then
      say ['C', 'o', 'p', 'y', ' ', 's', 'u', 'c', 'c', 'e', 's', 's', '!'] 13 0xA
    else sayCopyFailed code
    pure place

/-- What `rm` finds in the line: directory, name and extension; `none` where it
returns 6.  Here the slash behind the directory is zeroed too. -/
def parseRemove (buf : List Byte) :
    Except ShellFault (Option (List Byte × EntryName × EntryExt)) :=
  let (path, rest) := copyWord buf
  if maxCmdLength ≤ path.length + 1 then .error .outOfBounds
  else
    let ext := copyExt (rest.drop 1)
    if ext = [] then .ok none
    else .ok (some (path.take (nameStart path path.length - 1), buffer 8 (fileName path),
      buffer 3 ext))

/-- `rm` and its return code. -/
def rm (behind : List Byte) (line : CommandLine) (place : Place) : ShellProgram (Byte × Place) := do
  let buf ← Program.ofExcept (line.arguments 3)
  let args ← Program.ofExcept (parseRemove buf)
  match args with
  | none => pure (6, place)
  | some (path, name, ext) => do
      let (ret, moved) ← multipleCd behind path place
      if ret ≠ 0 then pure (1, place)
      else
        let reply ← Program.ask (.fs ⟨.delete, ⟨0, name, ext, moved.workingDirectory, 0⟩, zeroMemory⟩)
        pure (reply.retcode, place)

def rmCaller (behind : List Byte) (line : CommandLine) (place : Place) : ShellProgram Place :=
  if line.NoArguments 2 then do
    sayNoArguments
    pure place
  else do
    let (code, place) ← rm behind line place
    if code = 0 then
      say ['D', 'e', 'l', 'e', 't', 'e', ' ', 's', 'u', 'c', 'c', 'e', 's', 's', '!'] 15 0xA
    else if code = 1 then
      say ['F', 'i', 'l', 'e', '/', 'f', 'o', 'l', 'd', 'e', 'r', ' ', 'n', 'o', 't', ' ', 'f',
        'o', 'u', 'n', 'd', ' '] 22 0xC
    else if code = 2 then
      say ['F', 'o', 'l', 'd', 'e', 'r', ' ', 'i', 's', ' ', 'e', 'm', 'p', 't', 'y', ' '] 16 0xC
    else say ['A', 'd', 'a', ' ', 'a', 'p', 'a', ' ', 'i', 'n', 'i', ' '] 12 0xC
    pure place

/-- `"Move success!"`. -/
def moveSuccess : TextCall :=
  .puts (text ['M', 'o', 'v', 'e', ' ', 's', 'u', 'c', 'c', 'e', 's', 's', '!']) 14 0xA

/-- `mv`: `cp`, and then `rm`, whose return code is dropped. -/
def mv (stack : CopyStack) (behind : List Byte) (line : CommandLine) (place : Place) :
    ShellProgram Place :=
  if line.NoArguments 2 then do
    sayNoArguments
    pure place
  else do
    let (code, place) ← cp stack line place
    if code = 0 then
      let (_, place) ← rm behind line place
      tell (.text moveSuccess)
      pure place
    else
      sayCopyFailed code
      pure place

/-! ### find -/

/-- `strstr` on the strings in two arrays. -/
def strstrLoop (needle : List Byte) : List Byte → Bool
  | [] => false
  | h :: hs => needle.isPrefixOf (h :: hs) || strstrLoop needle hs

def strstr (haystack needle : List Byte) : Bool := needle = [] || strstrLoop needle haystack

/-- What `find` looks for. -/
structure FindArgs where
  target : PathBuffer
  extension : Fin 4 → Byte
  /-- the length of the path that the search started from -/
  prev : Nat

/-- The string at the name of an entry: behind eight characters it runs on into the
extension, and into what follows. -/
def FAT32DirectoryEntry.nameString (e : FAT32DirectoryEntry) : List Byte := string e.toBytes

/-- The string at the extension of an entry. -/
def FAT32DirectoryEntry.extString (e : FAT32DirectoryEntry) : List Byte :=
  string fun k : Fin 24 => e.toBytes ⟨8 + k, by omega⟩

/-- The folder that goes by that string in a table, with its loop over the slots. -/
def FAT32DirectoryTable.subfolder (t : FAT32DirectoryTable) (name : List Byte) :
    Option (Fin directoryEntryCount) :=
  (List.finRange directoryEntryCount).find? fun i =>
    2 ≤ i.val ∧ (t i).Occupied ∧ (t i).IsSubdirectory ∧ (t i).nameString = name

/-- `find` prints the entry. -/
def FindArgs.Matches (args : FindArgs) (path : PathBuffer) (e : FAT32DirectoryEntry) : Prop :=
  (e.nameString = string args.target ∧ e.extString = string args.extension) ∨
    strstr (string path) (slash :: string args.target ++ [slash]) ∨ strlen args.target = 0

instance {args : FindArgs} {path : PathBuffer} {e : FAT32DirectoryEntry} :
    Decidable (args.Matches path e) := inferInstanceAs (Decidable (_ ∨ _))

/-- What `find` prints for an entry: `./`, cut or run over to the length of the
name, the path from where the search started, and the name. -/
def printFound (args : FindArgs) (path : PathBuffer) (e : FAT32DirectoryEntry) :
    ShellProgram Unit := do
  let count := BitVec.ofNat 8 (strlen e.name)
  tell (.text (.puts (text ['.', '/']) count 0x9))
  tell (.text (.puts (fun k => chars path (args.prev + k))
    (BitVec.ofNat 8 (strlen path - args.prev)) 0x9))
  tell (.text (.puts (chars e.name) count 0x9))
  if ¬ e.IsSubdirectory then
    if 0 < strlen e.ext then tell (.text (.putchar dot 0x9))
    tell (.text (.puts (chars e.ext) (BitVec.ofNat 8 (strlen e.ext)) 0x9))
  tell (.text (.putchar newline 0x9))

/-- The loop of `findHelper` over the slots that are left, with its recursive call
as a parameter.  `path` is set only behind the first entry. -/
def findEntries (args : FindArgs) (localPath : PathBuffer) (t : FAT32DirectoryTable)
    (descend : Fin directoryEntryCount → PathBuffer → ShellProgram Unit) :
    List (Fin directoryEntryCount) → (path : PathBuffer) → ShellProgram Unit
  | [], _ => pure ()
  | i :: is, path =>
      if (t i).Occupied then do
        if args.Matches localPath (t i) then printFound args localPath (t i)
        let path ← Program.ofExcept (strcat path (string localPath))
        let path ← Program.ofExcept (strcat path (t i).nameString)
        let path ← Program.ofExcept (strcat path [slash])
        descend i path
        findEntries args localPath t descend is (fun _ => 0)
      else findEntries args localPath t descend is path

/-- `findHelper`.  `trail` tells the activations apart, `stale` is what `path` holds in each
of them before it is set, and `behind` what lies behind `real_name`. -/
def findHelper (stale : List (Fin directoryEntryCount) → PathBuffer)
    (behind : List (Fin directoryEntryCount) → List Byte) (args : FindArgs) :
    (fuel : Nat) → (trail : List (Fin directoryEntryCount)) → (localPath : PathBuffer) →
    (localWorkingDirectory : BitVec 32) → FAT32DirectoryTable → ShellProgram Unit
  | 0, _, _, _, _ => .fail .noReturn
  | fuel + 1, trail, localPath, localWorkingDirectory, cl => do
      let realName := lastFolderName localPath
      let parent := match cl.subfolder (pathString (behind trail) realName) with
        | none => localWorkingDirectory
        | some i => (cl i).cluster
      let reply ← Program.ask (.fs ⟨.readDirectory,
        ⟨stackBuffer, realName, 0, parent, BitVec.ofNat 32 clusterSize⟩, zeroMemory⟩)
      if reply.retcode = 0 then
        let cl := FAT32DirectoryTable.ofCluster (reply.mem.load stackBuffer)
        findEntries args localPath cl
          (fun i path => findHelper stale behind args fuel (i :: trail) path parent cl)
          childSlots (stale trail)
      else pure ()

/-- `namecpy(buf, src, n)`, the string that it makes. -/
def namecpy (src : List Byte) : List Byte := src.takeWhile (· ≠ dot)

/-- `extcpy(ext, src, n)`, the string that it makes. -/
def extcpy (src : List Byte) (n : Nat) : List Byte :=
  (((src.takeWhile (· ≠ 0)).dropWhile (· ≠ dot)).drop 1).take n

/-- The arguments of `find`. -/
def CommandLine.findArgs (line : CommandLine) (place : Place) : Except ShellFault FindArgs :=
  if 5 < strlen line.cmdBuffer then do
    let src ← line.arguments 5
    let target ← memcpy (buffer maxCmdLength []) 0 (namecpy src ++ [0])
    let extension ← memcpy (buffer 4 []) 0
      (extcpy (span line.cmdBuffer 5 (maxCmdLength - 5)) src.length ++ [0])
    return { target, extension, prev := strlen place.currentPath }
  else
    return { target := fun _ => 0, extension := fun _ => 0, prev := strlen place.currentPath }

/-- `find`.  A path that grows leaves its buffer before the fuel is used up. -/
def find (stale : List (Fin directoryEntryCount) → PathBuffer)
    (behind : List (Fin directoryEntryCount) → List Byte) (line : CommandLine) (place : Place) :
    ShellProgram Place := do
  let args ← Program.ofExcept (line.findArgs place)
  findHelper stale behind args (maxCmdLength + 1) [] place.currentPath place.workingDirectory
    fun _ => .zero
  pure place

/-! ### exec, ps, kill -/

def sayExec : (retcode : Byte) → ShellProgram Unit
  | 0 => say ['E', 'x', 'e', 'c', ' ', 's', 'u', 'c', 'c', 'e', 's', 's', '!'] 12 0xA
  | 1 => say ['M', 'a', 'x', ' ', 'p', 'r', 'o', 'c', 'e', 's', 's', ' ', 'e', 'x', 'c', 'e', 'e',
      'd', 'e', 'd'] 21 0xC
  | 2 => say ['I', 'n', 'v', 'a', 'l', 'i', 'd', ' ', 'e', 'n', 't', 'r', 'y', 'p', 'o', 'i', 'n',
      't'] 19 0xC
  | 3 => say ['N', 'o', 't', ' ', 'e', 'n', 'o', 'u', 'g', 'h', ' ', 'm', 'e', 'm', 'o', 'r',
      'y'] 18 0xC
  | 4 => say ['R', 'e', 'a', 'd', ' ', 'f', 'a', 'i', 'l', 'u', 'r', 'e'] 13 0xC
  | _ => pure ()

def exec (behind : List Byte) (line : CommandLine) (place : Place) : ShellProgram Place :=
  if line.NoArguments 4 then do
    sayNoArguments
    pure place
  else do
    let args ← Program.ofExcept (line.arguments 5)
    let buf := args.takeWhile (· ≠ 0)
    let (ret, moved) ← multipleCd behind (directoryOf buf) place
    if ret ≠ 0 then
      say ['F', 'i', 'l', 'e', ' ', 'n', 'o', 't', ' ', 'f', 'o', 'u', 'n', 'd'] 15 0xC
      pure place
    else
      let reply ← Program.ask (.createProcess
        ⟨0, buffer 8 (fileName buf), 0, moved.workingDirectory, 0x100000⟩)
      sayExec reply.retcode
      pure place

def kill (line : CommandLine) (place : Place) : ShellProgram Place := do
  let args ← Program.ofExcept (line.arguments 5)
  let reply ← Program.ask (.destroyProcess (buffer 2 args))
  if reply.retcode = 0 then
    say ['K', 'i', 'l', 'l', ' ', 's', 'u', 'c', 'c', 'e', 's', 's', '!'] 12 0xA
  else say ['K', 'i', 'l', 'l', ' ', 'f', 'a', 'i', 'l', 'e', 'd'] 12 0xC
  pure place

/-! ### execute -/

/-- The commands by name. -/
inductive ShellCommand
  | cd | ls | mkdir | cat | cp | rm | mv | find | clear | exec | ps | kill | motivation | unknown
  deriving DecidableEq, Repr

/-- The command of a line: its characters up to the first space. -/
def CommandLine.command (line : CommandLine) : ShellCommand :=
  let word := (span line.cmdBuffer 0 line.curCmdLength.toNat).takeWhile (· ≠ space)
  if word = ['c', 'd'].map ascii then .cd
  else if word = ['l', 's'].map ascii then .ls
  else if word = ['m', 'k', 'd', 'i', 'r'].map ascii then .mkdir
  else if word = ['c', 'a', 't'].map ascii then .cat
  else if word = ['c', 'p'].map ascii then .cp
  else if word = ['r', 'm'].map ascii then .rm
  else if word = ['m', 'v'].map ascii then .mv
  else if word = ['f', 'i', 'n', 'd'].map ascii then .find
  else if word = ['c', 'l', 'e', 'a', 'r'].map ascii then .clear
  else if word = ['e', 'x', 'e', 'c'].map ascii then .exec
  else if word = ['p', 's'].map ascii then .ps
  else if word = ['k', 'i', 'l', 'l'].map ascii then .kill
  else if word = ['m', 'o', 't', 'i', 'v', 'a', 't', 'i', 'o', 'n'].map ascii then .motivation
  else .unknown

/-- What the stack holds that the commands do not set: the arrays of `mkdir` and `find`, and
what lies behind `real_name`, behind `path_buffer` and behind the arrays of `cp`. -/
structure StaleStack where
  args : PathBuffer
  path : List (Fin directoryEntryCount) → PathBuffer
  behind : List (Fin directoryEntryCount) → List Byte
  pathBuffer : List Byte
  copy : CopyStack

/-- The dispatch of `execute`. -/
def dispatch (stale : StaleStack) (line : CommandLine) (place : Place) : ShellProgram Place :=
  match line.command with
  | .cd => Binbows.cd stale.pathBuffer line place
  | .ls => Binbows.ls stale.pathBuffer line place
  | .mkdir => Binbows.mkdir stale.pathBuffer stale.args line place
  | .cat => Binbows.cat stale.pathBuffer line place
  | .cp => cpCaller stale.copy line place
  | .rm => rmCaller stale.pathBuffer line place
  | .mv => Binbows.mv stale.copy stale.pathBuffer line place
  | .find => Binbows.find stale.path stale.behind line place
  | .clear => do
      tell (.text .clearScreen)
      pure place
  | .exec => Binbows.exec stale.pathBuffer line place
  | .ps => do
      tell .listProcesses
      pure place
  | .kill => Binbows.kill line place
  | .motivation => do
      tell .runTesting
      pure place
  | .unknown => do
      say ['C', 'o', 'm', 'm', 'a', 'n', 'd', ' ', 'n', 'o', 't', ' ', 'f', 'o', 'u', 'n', 'd']
        17 0xC
      pure place

/-- `execute`: the place of the shell after a line.  The line is cleared then. -/
def execute (stale : StaleStack) (line : CommandLine) (place : Place) : ShellProgram Place := do
  let place ← dispatch stale line place
  tell (.text (.putchar newline 0xF))
  pure place

/-! ### The kernel behind the calls -/

/-- The file system, and the text output so far. -/
structure ShellWorld where
  fs : FsState
  output : List TextCall

/-- How the kernel answers a call of the shell; `others` answers the calls that
are about processes. -/
def serve (others : ShellCall → ShellWorld → Except ShellFault (ShellReply × ShellWorld)) :
    ShellCall → ShellWorld → Except ShellFault (ShellReply × ShellWorld)
  | .fs call, w =>
      match call.exec w.fs with
      | .error e => .error (.kernel e)
      | .ok r => .ok (⟨BitVec.ofInt 8 r.ret, r.mem⟩, { w with fs := r.fs })
  | .text call, w => .ok (⟨0, zeroMemory⟩, { w with output := w.output ++ [call] })
  | c, w => others c w

variable {others : ShellCall → ShellWorld → Except ShellFault (ShellReply × ShellWorld)}
  {w : ShellWorld}

theorem serve_fs {call : FsCall} {r : Reply} (h : call.exec w.fs = .ok r) :
    serve others (.fs call) w = .ok (⟨BitVec.ofInt 8 r.ret, r.mem⟩, { w with fs := r.fs }) := by
  rw [serve, h]

end Binbows
