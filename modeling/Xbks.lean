import Xbks.Properties.UserPointers
import Xbks.Properties.Atomicity
import Xbks.Properties.Vfork
import Xbks.Properties.Reaping
import Xbks.Properties.FrameOwnership
import Xbks.Process.Boot
import Xbks.Process.Storing
import Xbks.Process.Statics
import Xbks.Process.Ownership
import Xbks.Properties.ProcessTable
import Xbks.Properties.Overwriting
import Xbks.Properties.ForgedRecords
import Xbks.Process.Start
import Xbks.Process.Table
import Xbks.Process.Step
import Xbks.Process.Effect
import Xbks.Process.Load
import Xbks.Process.Image
import Xbks.Mm.Init
import Xbks.Mm.Clone
import Xbks.Mm.Destroy
import Xbks.Process.Run
import Xbks.Properties.Loading
import Xbks.Properties.PageTables
import Xbks.Fs.Archive
import Xbks.Fs.Path
import Xbks.Fs.Bytes
import Xbks.Properties.Directory
import Xbks.Fs.BytesSound
import Xbks.Properties.Ramdisk
import Xbks.Fs.Ustar
import Xbks.Properties.RoundTrip
import Xbks.Properties.Break
import Xbks.Drivers.FontTtf
import Xbks.Drivers.FontSafe
import Xbks.Properties.Font
import Xbks.Lib.Memory
import Xbks.Process.View
import Xbks.Process.Descriptors
import Xbks.Properties.Files
import Xbks.Process.Dirent
import Xbks.Properties.Listing
import Xbks.Properties.UserFaults
import Xbks.Properties.Answers
import Xbks.Process.Contents
import Xbks.Properties.InitialStack
import Xbks.Properties.ProgramImage
import Xbks.Properties.ArgumentArrays
import Xbks.Properties.Records
import Xbks.Properties.Heap
import Xbks.Properties.UserReturn
import Xbks.Lib.Numeral
import Xbks.Text.Format
import Xbks.Text.Expansion
import Xbks.Properties.Formatter
import Xbks.Lib.Intervals
import Xbks.Drivers.FontBytes
import Xbks.Properties.CharacterMap
import Xbks.Lib.Int32
import Xbks.Drivers.Raster
import Xbks.Lib.EvenOdd
import Xbks.Properties.Filling
import Xbks.Lib.Contours
import Xbks.Drivers.FontOutline
import Xbks.Drivers.RasterOutline
import Xbks.Properties.Outlines
import Xbks.Drivers.RasterMetrics
import Xbks.Properties.Cropping
import Xbks.Drivers.SimpleGlyph
import Xbks.Properties.Decoding
import Xbks.Fs.Elf
import Xbks.Properties.ArenaLoading
import Xbks.Fs.LongPath
import Xbks.Properties.LongPaths
import Xbks.Lib.Collecting
import Xbks.Drivers.FontRange
import Xbks.Drivers.RasterScaling
import Xbks.Drivers.RasterDrawing
import Xbks.Properties.Overflow
import Xbks.Lib.Held
import Xbks.Drivers.Keyboard
import Xbks.Properties.Shift
import Xbks.Drivers.SystemFont
import Xbks.Properties.BootModules
import Xbks.Lib.Balance
import Xbks.Process.Outputs
import Xbks.Properties.ProgramMemory
import Xbks.Properties.Views
import Xbks.Properties.Tasks
import Xbks.Properties.Simulation
import Xbks.Properties.ExitStatus
import Xbks.Lib.Stack
import Xbks.Arch.Cpu
import Xbks.Arch.SyscallEntry
import Xbks.Properties.SyscallPath
import Xbks.Properties.Resumption
import Xbks.Text.Strings
import Xbks.Console.Log
import Xbks.Process.Devices
import Xbks.Properties.Terminal
import Xbks.Lib.Comparison
import Xbks.Properties.Strings
import Xbks.Lib.LineEditor
import Xbks.Console.Shell
import Xbks.Properties.ShellOutput
import Xbks.Properties.Shell
import Xbks.Properties.Typing
