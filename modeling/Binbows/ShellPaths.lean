/-
Binbows/ShellPaths.lean

Where the shell stands, and how it gets to another directory (`user-shell.c`).

The shell is a program of system calls (`Program`), so that another process can
come in between two of them.  `working_directory` and `current_path` are the place
of the shell; the functions that change these globals take a place and return one.

A C array is a function from its offsets, as elsewhere; a store outside of one is
the fault `outOfBounds`.  A string that is taken out of an array is a list of
characters.  `strlen` of an array without NUL is the length of the array, where
the loop of the source runs on.  Where that matters, in `path_buffer` and `dest_name`
with their eight characters, what lies behind the array is a parameter (`pathString`).
-/
import Binbows.Library.Calls
import Binbows.Fat32Requests
import Binbows.LineEditing

namespace Binbows

open Bytes Calls
open Terminal (chars text)

/-! ### System calls -/

/-- The system calls of the shell, by what they are for.  The calls 0 to 3 come
with the memory that the request points to. -/
inductive ShellCall
  | fs (call : FsCall)
  /-- the calls 5, 6 and 69 -/
  | text (call : TextCall)
  /-- call 8 -/
  | createProcess (request : FAT32DriverRequest)
  /-- call 9 -/
  | listProcesses
  /-- call 11 -/
  | destroyProcess (pid : Fin 2 → Byte)
  /-- call 666 -/
  | runTesting

/-- What a system call stores: the return code behind `ecx`, and the buffer of the
request. -/
structure ShellReply where
  retcode : Byte
  mem : Memory

/-- The ways in which a command does not return. -/
inductive ShellFault
  /-- an array is written outside of its bounds -/
  | outOfBounds
  /-- the recursion of `find` does not end -/
  | noReturn
  /-- a system call does not return -/
  | kernel (fault : Fault)

abbrev ShellProgram : Type → Type := Program ShellCall ShellReply ShellFault

/-- A system call whose reply is not looked at. -/
def tell (c : ShellCall) : ShellProgram Unit := do
  let _ ← Program.ask c
  pure ()

/-- Print a string constant. -/
def say (message : List Char) (count color : Byte) : ShellProgram Unit :=
  tell (.text (.puts (text message) count color))

/-- Where the buffers of the requests lie, somewhere on the stack. -/
def stackBuffer : BitVec 32 := 0x300000

/-- `= {0}`. -/
def zeroMemory : Memory := fun _ => 0

/-! ### Strings -/

variable {n m : Nat}

def slash : Byte := ascii '/'

def space : Byte := ascii ' '

def dot : Byte := ascii '.'

/-- Some characters of an array. -/
def span (b : Fin n → Byte) (start count : Nat) : List Byte :=
  (List.range count).map fun k => chars b (start + k)

/-- The string in an array. -/
def string (b : Fin n → Byte) : List Byte := span b 0 (strlen b)

/-- `memcmp(b, message, strlen(message)) == 0`. -/
def StartsWith (b : Fin n → Byte) (message : List Char) : Prop :=
  span b 0 message.length = message.map ascii

instance {b : Fin n → Byte} {message : List Char} : Decidable (StartsWith b message) :=
  inferInstanceAs (Decidable (_ = _))

/-- The string at an array of eight characters.  Where none of them is a NUL, it runs on into
what lies behind the array. -/
def pathString (behind : List Byte) (path : Fin 8 → Byte) : List Byte :=
  if strlen path = 8 then string path ++ behind else string path

/-- `strcmp`, which returns 1 on equal strings. -/
def strcmp (str1 str2 : List Byte) : Int :=
  if str1.length ≠ str2.length then 0
  else if ∃ i ∈ List.range str1.length, str1.getD i 0 ≠ str2.getD i 0 then 0
  else 1

/-- `memcpy(dest + start, data, length of data)`. -/
def memcpy (dest : Fin n → Byte) (start : Nat) (data : List Byte) :
    Except ShellFault (Fin n → Byte) :=
  if start + data.length ≤ n then
    .ok fun k => if start ≤ k ∧ k < start + data.length then data.getD (k - start) 0 else dest k
  else .error .outOfBounds

/-- `strcat(dest, src)`. -/
def strcat (dest : Fin n → Byte) (src : List Byte) : Except ShellFault (Fin n → Byte) :=
  memcpy dest (strlen dest) (src ++ [0])

/-- An array of characters that starts with a string and is zero behind it. -/
def buffer (n : Nat) (l : List Byte) : Fin n → Byte := fun i => l.getD i 0

/-! ### change_dir -/

abbrev PathBuffer := Fin maxCmdLength → Byte

/-- The globals `current_path` and `working_directory`. -/
structure Place where
  currentPath : PathBuffer
  workingDirectory : BitVec 32

/-- `root/`. -/
def rootPath : PathBuffer := buffer maxCmdLength (['r', 'o', 'o', 't', '/'].map ascii)

/-- The loop that cuts the last component off, from offset `i` down: it leaves the
first five characters alone, and it stops at a slash that is not the last
character. -/
def trimPath (length : Nat) (path : PathBuffer) : (i : Nat) → PathBuffer
  | 0 => path
  | i + 1 =>
      if i + 1 ≤ 4 then path
      else if chars path (i + 1) = slash ∧ i + 1 < length - 2 then path
      else trimPath length (fun k => if k.val = i + 1 then 0 else path k) i

/-- The directory of that name in a table, with the loop over the slots.  The driver leaves
the extension of a directory empty, so that a name of eight characters ends with its array. -/
def FAT32DirectoryTable.folderSlot (t : FAT32DirectoryTable) (path : List Byte) :
    Option (Fin directoryEntryCount) :=
  (List.finRange directoryEntryCount).find? fun i =>
    2 ≤ i.val ∧ (t i).Occupied ∧ (t i).IsSubdirectory ∧ strcmp path (string (t i).name) = 1

/-- `change_dir`: the path that it leaves in its argument, and the new place;
`none` where it returns 1.  `behind` is what lies behind `path_buffer` on the stack, up to
the next NUL. -/
def changeDir (behind : List Byte) (path : EntryName) (t : FAT32DirectoryTable) (place : Place) :
    Except ShellFault (Option (EntryName × Place)) :=
  let name := pathString behind path
  if name.length = 1 ∧ StartsWith path ['.'] then .ok (some ((t 0).name, place))
  else if 2 ≤ name.length ∧ StartsWith path ['.', '.'] then
    if place.workingDirectory ≠ rootClusterNumber then
      let length := strlen place.currentPath
      .ok (some (buffer 8 (string (t 1).name),
        { currentPath := trimPath length place.currentPath (length - 1)
          workingDirectory := (t 1).cluster }))
    else .ok none
  else
    match t.folderSlot name with
    | none => .ok none
    | some i => do
        let currentPath ← strcat place.currentPath name
        let currentPath ← strcat currentPath [slash]
        return some (path, { currentPath, workingDirectory := (t i).cluster })

/-! ### multiple_cd -/

/-- Where the last component before offset `k` starts: behind the last slash. -/
def componentStart (b : Fin n → Byte) : (k : Nat) → Nat
  | 0 => 0
  | k + 1 => if chars b k = slash then k + 1 else componentStart b k

/-- The name of the current directory, as far as a request takes it: what stands
between the last two slashes of the path. -/
def lastFolderName (currentPath : PathBuffer) : EntryName :=
  let stop := strlen currentPath - 1
  let start := componentStart currentPath stop
  buffer 8 (span currentPath start (stop - start))

/-- Read the table of the current directory and change to a child or the parent,
or stay: what `multiple_cd` does for each component. -/
def enterFolder (behind : List Byte) (lastFolderName path : EntryName) (place : Place) :
    ShellProgram (Option (EntryName × Place)) := do
  let reply ← Program.ask (.fs ⟨.readDirectory,
    ⟨stackBuffer, lastFolderName, 0, place.workingDirectory, BitVec.ofNat 32 clusterSize⟩, zeroMemory⟩)
  if reply.retcode = 0 then
    Program.ofExcept (changeDir behind path (.ofCluster (reply.mem.load stackBuffer)) place)
  else pure none

/-- The loop of `multiple_cd` over the characters that are left, with the component
that was read so far in `pathBuffer`.  The tests `path_buffer_p > 8` of the source
cannot succeed. -/
def walkPath {M : Type → Type} [Monad M]
    (enter : EntryName → EntryName → Place → M (Option (EntryName × Place))) :
    (path pathBuffer : List Byte) → (lastFolderName : EntryName) → Place → M (Option Place)
  | [], pathBuffer, lastFolderName, place =>
      if pathBuffer = [] then pure (some place)
      else do
        let entered ← enter lastFolderName (buffer 8 pathBuffer) place
        pure (entered.map Prod.snd)
  | c :: path, pathBuffer, lastFolderName, place =>
      if c = slash then
        if pathBuffer = [] then pure none
        else do
          let entered ← enter lastFolderName (buffer 8 pathBuffer) place
          match entered with
          | none => pure none
          | some (name, place) => walkPath enter path [] name place
      else if 8 ≤ pathBuffer.length then pure none
      else walkPath enter path (pathBuffer ++ [c]) lastFolderName place

/-- What `multiple_cd` walks: the path, the name of the directory that it starts
from, and its place.  `none` where the first component is too long. -/
def startOfPath (path : List Byte) (place : Place) : Option (List Byte × EntryName × Place) :=
  let first := path.takeWhile (· ≠ slash)
  if 8 < first.length then none
  else if first = ['r', 'o', 'o', 't'].map ascii then
    some (path.drop 5, rootName, ⟨rootPath, rootClusterNumber⟩)
  else some (path, lastFolderName place.currentPath, place)

/-- `multiple_cd`: its return code and the place that it leaves.  Wherever it fails
it restores both globals and returns 1. -/
def multipleCd (behind path : List Byte) (place : Place) : ShellProgram (Nat × Place) :=
  match startOfPath path place with
  | none => pure (1, place)
  | some (rest, name, start) => do
      let reached ← walkPath (enterFolder behind) rest [] name start
      match reached with
      | none => pure (1, place)
      | some place => pure (0, place)

end Binbows
