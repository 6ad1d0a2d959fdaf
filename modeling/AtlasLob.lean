import AtlasLob.Library.Index
import AtlasLob.Library.Word
import AtlasLob.Library.SortedMap
import AtlasLob.Library.IntrusiveList
import AtlasLob.Domain
import AtlasLob.Core.PriceLevel
import AtlasLob.Core.InstrumentBook
import AtlasLob.Core.MatchPlan
import AtlasLob.Core.Executor
import AtlasLob.Core.Engine
import AtlasLob.Spec.Queue
import AtlasLob.Spec.Ladder
import AtlasLob.Spec.Matching
import AtlasLob.Spec.Market
import AtlasLob.Spec.Aggressor
import AtlasLob.Spec.Top
import AtlasLob.Verif.PriceLevel
import AtlasLob.Verif.InstrumentBook
import AtlasLob.Verif.BookOperations
import AtlasLob.Verif.BookPreparation
import AtlasLob.Verif.BookBatch
import AtlasLob.Verif.Planning
import AtlasLob.Verif.Projection
import AtlasLob.Verif.ProjectedTop
import AtlasLob.Spec.Invariant
import AtlasLob.Verif.Events
import AtlasLob.Verif.Executor
import AtlasLob.Verif.Engine
import AtlasLob.Verif.Preparation
import AtlasLob.Verif.Identities
import AtlasLob.Verif.Publication
import AtlasLob.Verif.Refinement
import AtlasLob.Verif.Soundness
import AtlasLob.Verif.Runs
import AtlasLob.Verif.PriceTime
import AtlasLob.Verif.Reports
import AtlasLob.Verif.Capacity
import AtlasLob.Verif.Atomicity
import AtlasLob.Verif.RoundTrip
import AtlasLob.Verif.SplitMix64
import AtlasLob.Core.LogScanner
import AtlasLob.Library.Decimal
import AtlasLob.Library.SecureHash
import AtlasLob.Library.Interruptible
import AtlasLob.Core.OracleDomain
import AtlasLob.Verif.ShrinkingRuns
import AtlasLob.Verif.ManifestCodec
import AtlasLob.Verif.Sha256
import AtlasLob.Verif.SnapshotNames
import AtlasLob.Library.LinkChase
import AtlasLob.Library.IntrusiveFrame
import AtlasLob.Core.PriceLevelCalls
import AtlasLob.Spec.LinkedQueue
import AtlasLob.Verif.PriceLevelAudit
import AtlasLob.Verif.PriceLevelCalls
import AtlasLob.Core.Charts
import AtlasLob.Library.History
import AtlasLob.Spec.Candles
import AtlasLob.Verif.Charts
import AtlasLob.Verif.Candles
import AtlasLob.Spec.Follower
import AtlasLob.Verif.EventSourcing
import AtlasLob.Spec.Splitting
import AtlasLob.Verif.Splitting
import AtlasLob.Library.Renaming
import AtlasLob.Spec.Relabeling
import AtlasLob.Spec.Equivariance
import AtlasLob.Verif.Equivariance
import AtlasLob.Spec.Scheduling
import AtlasLob.Spec.Isolation
import AtlasLob.Verif.Independence
import AtlasLob.Verif.Sequencing
import AtlasLob.Spec.CommandLog
import AtlasLob.Verif.LogScanner
import AtlasLob.Verif.LogGrammar
import AtlasLob.Core.CanonicalDigest
import AtlasLob.Core.Replay
import AtlasLob.Core.LoggedEngine
import AtlasLob.Spec.LoggedMarket
import AtlasLob.Verif.Replay
import AtlasLob.Verif.TradeBound
import AtlasLob.Verif.Replacing
import AtlasLob.Verif.LoggedEngine
import AtlasLob.Verif.LoggedHistory
import AtlasLob.Core.LogRepair
import AtlasLob.Verif.LogRepair
