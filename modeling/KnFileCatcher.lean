import KnFileCatcher.AddRequests
import KnFileCatcher.BackupChannel
import KnFileCatcher.BackupChannelRuns
import KnFileCatcher.BackupWire
import KnFileCatcher.ChainedTable
import KnFileCatcher.Cleanup
import KnFileCatcher.CommFetches
import KnFileCatcher.CommMessage
import KnFileCatcher.CommPort
import KnFileCatcher.Config
import KnFileCatcher.ConfigTable
import KnFileCatcher.ContextCallbacks
import KnFileCatcher.ContextReferences
import KnFileCatcher.CopyLoop
import KnFileCatcher.CreateResults
import KnFileCatcher.Custody
import KnFileCatcher.DeleteOnClose
import KnFileCatcher.Destinations
import KnFileCatcher.DispositionOrder
import KnFileCatcher.DriverLife
import KnFileCatcher.DriverLifeRules
import KnFileCatcher.DriverLifeRuns
import KnFileCatcher.EventOrder
import KnFileCatcher.Exclude
import KnFileCatcher.ExcludeReads
import KnFileCatcher.ExcludeTable
import KnFileCatcher.ExcludedPaths
import KnFileCatcher.ExitDefer
import KnFileCatcher.ExitDeferProgress
import KnFileCatcher.ExitDeferSafety
import KnFileCatcher.FilterUnload
import KnFileCatcher.FlagBits
import KnFileCatcher.FoldedText
import KnFileCatcher.Forests
import KnFileCatcher.HandleHistory
import KnFileCatcher.Json
import KnFileCatcher.JsonMarks
import KnFileCatcher.JsonReading
import KnFileCatcher.JsonWriting
import KnFileCatcher.Lineage
import KnFileCatcher.LinkedRings
import KnFileCatcher.LittleEndian
import KnFileCatcher.Manifest
import KnFileCatcher.ManifestFile
import KnFileCatcher.MessageMemory
import KnFileCatcher.Ownership
import KnFileCatcher.OwnershipBlocks
import KnFileCatcher.OwnershipReferences
import KnFileCatcher.OwnershipRuns
import KnFileCatcher.ProcessEventWire
import KnFileCatcher.ProcessEvents
import KnFileCatcher.Processes
import KnFileCatcher.PushLock
import KnFileCatcher.PushLockRuns
import KnFileCatcher.PushLockSections
import KnFileCatcher.Queue
import KnFileCatcher.QueueDepth
import KnFileCatcher.QueueFlow
import KnFileCatcher.QueueLedger
import KnFileCatcher.QueueRefusal
import KnFileCatcher.QueueStop
import KnFileCatcher.QueueTeardown
import KnFileCatcher.QueueWake
import KnFileCatcher.Recency
import KnFileCatcher.RememberedIds
import KnFileCatcher.RenameCapture
import KnFileCatcher.RootComponents
import KnFileCatcher.Runs
import KnFileCatcher.SeededView
import KnFileCatcher.SelfExcludes
import KnFileCatcher.Send
import KnFileCatcher.SendHonesty
import KnFileCatcher.Session
import KnFileCatcher.SessionGuards
import KnFileCatcher.SharedFile
import KnFileCatcher.SharedMemory
import KnFileCatcher.Snapshot
import KnFileCatcher.SnapshotComplete
import KnFileCatcher.SnapshotExit
import KnFileCatcher.SnapshotLineage
import KnFileCatcher.SnapshotMemory
import KnFileCatcher.SnapshotMemoryRules
import KnFileCatcher.SnapshotMemoryRuns
import KnFileCatcher.SnapshotPasses
import KnFileCatcher.SnapshotSteps
import KnFileCatcher.StreamHandle
import KnFileCatcher.StringTables
import KnFileCatcher.Sweeps
import KnFileCatcher.Tally
import KnFileCatcher.Track
import KnFileCatcher.TrackCalls
import KnFileCatcher.TrackMemory
import KnFileCatcher.TrackMemoryRows
import KnFileCatcher.TrackMemoryRules
import KnFileCatcher.TrackMemoryRuns
import KnFileCatcher.TrackRaces
import KnFileCatcher.TrackRefinement
import KnFileCatcher.TrackSystem
import KnFileCatcher.TreeDump
import KnFileCatcher.TreeFeed
import KnFileCatcher.TreeFeedRuns
import KnFileCatcher.TreeForest
import KnFileCatcher.TreeLoops
import KnFileCatcher.Utf16
import KnFileCatcher.Waits
import KnFileCatcher.WatchRoots
import KnFileCatcher.Windows
import KnFileCatcher.WorkerAnswers
import KnFileCatcher.WorkerLoop
import KnFileCatcher.WorkerReplies
