import PkgPlugins.Pkg
import PkgPlugins.Libc
import PkgPlugins.Retention
import PkgPlugins.RetentionStrings
import PkgPlugins.BubbleSort
import PkgPlugins.Dlist
import PkgPlugins.Attempts
import PkgPlugins.DlistReject
import PkgPlugins.Purge
import PkgPlugins.SnapshotOrder
import PkgPlugins.PurgeStatus
import PkgPlugins.Rollback
import PkgPlugins.AssocTable
import PkgPlugins.Prefixes
import PkgPlugins.Links
import PkgPlugins.Hashtable
import PkgPlugins.HashtableChains
import PkgPlugins.HashtableOps
import PkgPlugins.HashtableRuns
import PkgPlugins.Dfs
import PkgPlugins.DfsPaths
import PkgPlugins.Buffers
import PkgPlugins.ServicesDb
import PkgPlugins.Rcorder
import PkgPlugins.ServicesClosed
import PkgPlugins.RcorderComplete
import PkgPlugins.RcorderReverse
import PkgPlugins.RcorderOptions
import PkgPlugins.ServicesLinks
import PkgPlugins.MagicComments
import PkgPlugins.EventLoop
import PkgPlugins.ProcessMonitor
import PkgPlugins.MonitorRuns
import PkgPlugins.MonitorComplete
import PkgPlugins.ServicesSelection
import PkgPlugins.ServicesHandle
import PkgPlugins.ServicesHooks
import PkgPlugins.ServicesOrder
import PkgPlugins.ServicesPackages
import PkgPlugins.Zfs
import PkgPlugins.RawZfs
import PkgPlugins.ZfsProperties
import PkgPlugins.TakeSnapshot
import PkgPlugins.HookNames
import PkgPlugins.LegacyNames
import PkgPlugins.ListSnapshots
import PkgPlugins.PurgeTree
import PkgPlugins.ZintHooks
import PkgPlugins.Sqlite
import PkgPlugins.SqliteMigrate
import PkgPlugins.History
import PkgPlugins.Listing
import PkgPlugins.HistoryQueries
import PkgPlugins.HistoryAgree
import PkgPlugins.HistoryReport
import PkgPlugins.HistoryRuns
import PkgPlugins.HistoryRoundTrip
import PkgPlugins.HistoryCommand
import PkgPlugins.Calendar
import PkgPlugins.Lexer
import PkgPlugins.ParseNum
import PkgPlugins.DateLexer
import PkgPlugins.Date
import PkgPlugins.DateText
import PkgPlugins.DateWhole
import PkgPlugins.DateFields
import PkgPlugins.DateMonths
import PkgPlugins.DateActions
import PkgPlugins.DateTimes
import PkgPlugins.DateNumbers
import PkgPlugins.DateGuess
import PkgPlugins.SnapshotErrors
import PkgPlugins.ListErrors
import PkgPlugins.PurgeErrors
import PkgPlugins.ListHooks
import PkgPlugins.SqlitePrepare
import PkgPlugins.IteratorAt
import PkgPlugins.AsciiCase
import PkgPlugins.DlistSort
import PkgPlugins.DlistOps
import PkgPlugins.DlistRuns
import PkgPlugins.DlistPositions
import PkgPlugins.BufferJoin
import PkgPlugins.HashtableUnion
import PkgPlugins.Accumulate
import PkgPlugins.ParseNumSigned
import PkgPlugins.ParseNumLetters
import PkgPlugins.Fallible
import PkgPlugins.NearestPower
import PkgPlugins.HashtableRekey
import PkgPlugins.HashtableBuckets
import PkgPlugins.HashtableDtors
import PkgPlugins.HashtableEquals
import PkgPlugins.HashtableTables
import PkgPlugins.RcorderVisited
import PkgPlugins.HistoryRuns
import PkgPlugins.ServicesCommands
import PkgPlugins.ServicesSummary
import PkgPlugins.Handles
import PkgPlugins.ZintHandles
import PkgPlugins.ZintSessions
import PkgPlugins.ZintNames
