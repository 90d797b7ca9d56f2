import Binbows.Library.Bytes
import Binbows.Library.Calls
import Binbows.Library.Chain
import Binbows.Library.Cyclic
import Binbows.Library.FolderTree
import Binbows.Library.MovePairs
import Binbows.Library.MovePools
import Binbows.Library.Moves
import Binbows.Library.Pool
import Binbows.Library.Processes
import Binbows.Library.Run
import Binbows.Library.Sampling
import Binbows.Library.SlotTree
import Binbows.Library.X86
import Binbows.Strings
import Binbows.Disk
import Binbows.Fat32
import Binbows.Fat32Requests
import Binbows.Fat32Lookup
import Binbows.Volume
import Binbows.VolumeSteps
import Binbows.Fat32Alloc
import Binbows.Fat32Spec
import Binbows.Fat32Refines
import Binbows.FileSystemRuns
import Binbows.LookupCodes
import Binbows.FileAllocation
import Binbows.EntryKeys
import Binbows.FatOnDisk
import Binbows.FileContents
import Binbows.FileMap
import Binbows.FileTree
import Binbows.TreeRoom
import Binbows.TreeRequests
import Binbows.ReadBounds
import Binbows.PageCounts
import Binbows.FileUndo
import Binbows.FileLength
import Binbows.Paging
import Binbows.Process
import Binbows.Scheduler
import Binbows.ProcessSpec
import Binbows.FrameAccounting
import Binbows.KernelRuns
import Binbows.KillNumbers
import Binbows.SwitchCalls
import Binbows.RoundRobin
import Binbows.RunningProcess
import Binbows.ContextSwitch
import Binbows.ContextRuns
import Binbows.FreshProcess
import Binbows.LoadStores
import Binbows.Keyboard
import Binbows.TextOutput
import Binbows.LineEditing
import Binbows.ShellPaths
import Binbows.PathTexts
import Binbows.Shell
import Binbows.ShellPlace
import Binbows.ChangeDirectory
import Binbows.PathTrails
import Binbows.UsualPaths
import Binbows.PathGrowth
import Binbows.PathResolution
import Binbows.MovePlan
import Binbows.FileMoves
import Binbows.Sessions
import Binbows.SessionCommands
import Binbows.SessionRuns
import Binbows.FolderNames
import Binbows.StringHelpers
import Binbows.BackspaceUndo
import Binbows.Clock
import Binbows.ProgramLoad
import Binbows.AddressSpaces
import Binbows.WrittenPrograms
import Binbows.Inserter
import Binbows.CatOutput
import Binbows.CopyFaithful
import Binbows.NamedFiles
import Binbows.CommandBuffers
import Binbows.PlaceKept
import Binbows.FindNames
import Binbows.ConcurrentMoves
