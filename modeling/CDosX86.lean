import CDosX86.ReferenceCpu
import CDosX86.IrqTransparency
import CDosX86.C64Type
import CDosX86.Dequeue
import CDosX86.IdealDrive
import CDosX86.DiskImage
import CDosX86.KString
import CDosX86.FileNames
import CDosX86.DiskSafety
import CDosX86.ResumeLive
import CDosX86.KeyHistory
import CDosX86.DecimalMode
import CDosX86.StatusRegister
import CDosX86.TraceRing
import CDosX86.ScreenMirror
import CDosX86.Terminal
import CDosX86.LineEditor
import CDosX86.FsReadExact
import CDosX86.TypedFile
import CDosX86.DirNames
import CDosX86.HaltReport
import CDosX86.BuildOutput
import CDosX86.ChainShift
import CDosX86.Inspection
import CDosX86.ScreenPage
import CDosX86.KeyDecoding
import CDosX86.ScancodeHistory
import CDosX86.KeyInjection
import CDosX86.NumberText
import CDosX86.ShellDispatch
import CDosX86.WriteErrors
import CDosX86.SectorStore
import CDosX86.CycleTiming
import CDosX86.FirstDifference
import CDosX86.CaseOrder
import CDosX86.Recovery
import CDosX86.TypedLines
import CDosX86.GuestPacing
import CDosX86.Exceptions
import CDosX86.DescriptorTables
import CDosX86.CpuTestPasses
import CDosX86.PicPorts
import CDosX86.BoardRuns
import CDosX86.SectorProtocol
import CDosX86.DriverRuns
import CDosX86.HexDump
import CDosX86.DumpDisplay
import CDosX86.DirListing
import CDosX86.GuestActs
import CDosX86.TraceListing
import CDosX86.HardwareCursor
import CDosX86.DiskService
