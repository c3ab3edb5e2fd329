import MrBig.Library.Run
import MrBig.Library.KeyedList
import MrBig.Library.Delimited
import MrBig.Library.Acyclic
import MrBig.Library.Cursor
import MrBig.Library.Overwrite
import MrBig.Library.Memory
import MrBig.Library.Word
import MrBig.Library.SearchTree
import MrBig.Library.Segment
import MrBig.Library.Verdict
import MrBig.Library.Slots
import MrBig.Library.Completion
import MrBig.Library.Halving
import MrBig.Library.LongestRun
import MrBig.Library.Runs
import MrBig.Library.Merge
import MrBig.Library.Chain
import MrBig.Library.Channel
import MrBig.Library.Mailbox
import MrBig.Library.Latch
import MrBig.Source.CString
import MrBig.Source.Scanf
import MrBig.Source.Tables
import MrBig.Source.Status
import MrBig.Source.ConfigStore
import MrBig.Source.Files
import MrBig.Source.Winsock
import MrBig.Source.RecvCfg
import MrBig.Source.ReadCfg
import MrBig.Source.Settings
import MrBig.Source.SendUpdate
import MrBig.Source.Arena
import MrBig.Source.HandleStack
import MrBig.Source.ClientlogModules
import MrBig.Source.Clientlog
import MrBig.Source.Msgs
import MrBig.Source.FastMessages
import MrBig.Source.ReadLog
import MrBig.Source.Chunks
import MrBig.Source.Wmi
import MrBig.Source.Minicfg
import MrBig.Source.ConfigServer
import MrBig.Source.FileTable
import MrBig.Source.Disk
import MrBig.Source.RunCmd
import MrBig.Source.Svcs
import MrBig.Source.Procs
import MrBig.Source.OsVersion
import MrBig.Source.Certificates
import MrBig.Source.Winports
import MrBig.Source.Processes
import MrBig.Source.Applications
import MrBig.Source.ReadPerf
import MrBig.Source.Cpu
import MrBig.Source.Reboots
import MrBig.Source.TestHeap
import MrBig.Source.ExtTests
import MrBig.Source.MainLoop
import MrBig.Abstract.StatusBoard
import MrBig.Abstract.StatusLine
import MrBig.Abstract.Flattening
import MrBig.Abstract.MessageRules
import MrBig.Abstract.Ipv6Text
import MrBig.Guarantees.StatusBookkeeping
import MrBig.Guarantees.GracePeriods
import MrBig.Guarantees.TestIsolation
import MrBig.Guarantees.ConfigStore
import MrBig.Guarantees.Reload
import MrBig.Guarantees.ReadCfgFlattening
import MrBig.Guarantees.CacheAtomic
import MrBig.Guarantees.PartialSends
import MrBig.Guarantees.Delivery
import MrBig.Guarantees.ArenaDisjoint
import MrBig.Guarantees.AllocationSizes
import MrBig.Guarantees.AppendWhole
import MrBig.Guarantees.HandleDiscipline
import MrBig.Guarantees.ClientlogHandles
import MrBig.Guarantees.HandleStack
import MrBig.Guarantees.HandlesClosed
import MrBig.Guarantees.MessageColor
import MrBig.Guarantees.EventsOwned
import MrBig.Guarantees.EventSeverity
import MrBig.Guarantees.MessageAge
import MrBig.Guarantees.ChunkTracking
import MrBig.Guarantees.BufferBounds
import MrBig.Guarantees.ReadCfgLines
import MrBig.Guarantees.CommentLines
import MrBig.Guarantees.ReadCfgTerminates
import MrBig.Guarantees.ReplyPort
import MrBig.Guarantees.MinicfgName
import MrBig.Guarantees.FileTable
import MrBig.Guarantees.Drives
import MrBig.Guarantees.DiskPage
import MrBig.Guarantees.DisplayBoard
import MrBig.Guarantees.ClientSections
import MrBig.Guarantees.ClientReport
import MrBig.Guarantees.WholeOutput
import MrBig.Guarantees.ErrorReport
import MrBig.Guarantees.SvcsConfig
import MrBig.Guarantees.SvcsReports
import MrBig.Guarantees.WmiColor
import MrBig.Guarantees.WmiIndependence
import MrBig.Guarantees.WmiConditions
import MrBig.Guarantees.ProcsReports
import MrBig.Guarantees.ProcsTotals
import MrBig.Guarantees.WindowsRelease
import MrBig.Guarantees.PurposesBuffer
import MrBig.Guarantees.Ipv6Address
import MrBig.Guarantees.PortListing
import MrBig.Guarantees.ProcessTables
import MrBig.Guarantees.ProcessNames
import MrBig.Guarantees.ApplicationTree
import MrBig.Guarantees.PerfCounters
import MrBig.Guarantees.CpuLoad
import MrBig.Guarantees.CpuMemoryPages
import MrBig.Guarantees.RecentReboots
import MrBig.Guarantees.SocketsClosed
import MrBig.Guarantees.IdleTimes
import MrBig.Guarantees.UptimeReports
import MrBig.Guarantees.EventBuffer
import MrBig.Guarantees.KbNumbers
import MrBig.Guarantees.KbListing
import MrBig.Guarantees.TestBlocks
import MrBig.Guarantees.ConfigProtocol
import MrBig.Guarantees.Deployment
import MrBig.Guarantees.Pickup
import MrBig.Guarantees.InterruptedPasses
import MrBig.Guarantees.ReportsReadBack
import MrBig.Guarantees.PageRefresh
import MrBig.Guarantees.AgentPages
