import QuantaStream.Shared.WalkReduce
import QuantaStream.Server.Persistence
import QuantaStream.Shared.BatchEquivalence
import QuantaStream.Core.SharedWAL
import QuantaStream.Core.WALReplay
import QuantaStream.Core.ColumnIDs
import QuantaStream.Core.SessionFlush
import QuantaStream.Server.SeedCache
import QuantaStream.Server.StringEnum
import QuantaStream.Server.Synchronize
import QuantaStream.Query.GroupFanout
import QuantaStream.Server.PartitionHistory
import QuantaStream.Server.CommitRestart
import QuantaStream.Server.NodeProgress
import QuantaStream.Core.TableInvalidation
import QuantaStream.MySQL.Framing
import QuantaStream.Core.RouterBarrier
import QuantaStream.Core.RouterProgress
import QuantaStream.Runtime.TimeComparison
import QuantaStream.Bridge.PlanCache
import QuantaStream.Runtime.LexicalStrings
import QuantaStream.Runtime.InLists
import QuantaStream.Core.ParentLookup
import QuantaStream.Core.ReplayResume
import QuantaStream.Runtime.FilterAnswer
import QuantaStream.Runtime.RowLists
import QuantaStream.Runtime.GroupCounts
import QuantaStream.Shared.FragmentRuns
import QuantaStream.Query.FoundSet
import QuantaStream.Shared.BSIBinary
import QuantaStream.Runtime.ResidualLike
import QuantaStream.Core.IngestDedup
import QuantaStream.Core.IntBSIMapper
import QuantaStream.Bridge.CatalogExpression
import QuantaStream.MySQL.Passwords
