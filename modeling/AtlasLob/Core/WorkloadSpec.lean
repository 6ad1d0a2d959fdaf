import AtlasLob.Core.OracleDomain

/-!
# Workload specifications

The resolved parameters of a generated workload, for one instrument and for several, with the
manifest that binds a workload to its specification. A value carries the fact that the checks of
its constructor passed.
-/

namespace AtlasLob.Oracle

/-- `WorkloadProfile`. -/
inductive WorkloadProfile
  | uniformSynthetic
  | clusteredMid
  | hotLevelContention
  | sparseWide
  | cancelHeavy
  | sweepHeavy
  | replaceHeavy
  | invalidMix
  | traceDrivenSynthetic
  | adversarialBoundary
  deriving DecidableEq, Repr

/-- The value of a profile. -/
def WorkloadProfile.value : WorkloadProfile → String
  | uniformSynthetic => "uniform_synthetic"
  | clusteredMid => "clustered_mid"
  | hotLevelContention => "hot_level_contention"
  | sparseWide => "sparse_wide"
  | cancelHeavy => "cancel_heavy"
  | sweepHeavy => "sweep_heavy"
  | replaceHeavy => "replace_heavy"
  | invalidMix => "invalid_mix"
  | traceDrivenSynthetic => "trace_driven_synthetic"
  | adversarialBoundary => "adversarial_boundary"

/-- The profiles in order. -/
def WorkloadProfile.all : List WorkloadProfile :=
  [uniformSynthetic, clusteredMid, hotLevelContention, sparseWide, cancelHeavy, sweepHeavy,
    replaceHeavy, invalidMix, traceDrivenSynthetic, adversarialBoundary]

/-- `PriceModel`. -/
inductive PriceModel
  | uniform
  | clustered
  | hotLevel
  | sparseWide
  | trendMeanRevert
  | adversarialLegal
  deriving DecidableEq, Repr

/-- The value of a price model. -/
def PriceModel.value : PriceModel → String
  | uniform => "uniform"
  | clustered => "clustered"
  | hotLevel => "hot_level"
  | sparseWide => "sparse_wide"
  | trendMeanRevert => "trend_mean_revert"
  | adversarialLegal => "adversarial_legal"

/-- The price models in order. -/
def PriceModel.all : List PriceModel :=
  [uniform, clustered, hotLevel, sparseWide, trendMeanRevert, adversarialLegal]

/-- `OperationWeights.__post_init__`. -/
def checkOperationWeights (new cancel replace : Int) : Except PythonError Unit := do
  requireInt "new" new 0 u32Max
  requireInt "cancel" cancel 0 u32Max
  requireInt "replace" replace 0 u32Max
  requireThat (new + cancel + replace ≠ 0) "at least one operation weight must be positive"

/-- `OperationWeights`. -/
structure OperationWeights where
  new : Int
  cancel : Int
  replace : Int
  /-- The constructor did not raise. -/
  valid : checkOperationWeights new cancel replace = .ok ()

/-- The fields of `WorkloadSpec`. -/
structure WorkloadFields where
  commandCount : Int
  instrumentId : Int
  engine : MatchingConfig
  profile : WorkloadProfile
  priceModel : PriceModel
  operationWeights : OperationWeights
  invalidBasisPoints : Int
  aggressiveBasisPoints : Int
  marketBasisPoints : Int
  boundaryQuantityBasisPoints : Int
  midPrice : Int
  priceSpanTicks : Int
  activeOrderTarget : Int
  clientCount : Int
  snapshotInterval : Int

/-- `WorkloadSpec.__post_init__`. -/
def WorkloadFields.check (spec : WorkloadFields) : Except PythonError Unit := do
  requireInt "command_count" spec.commandCount 1 u64Max
  requireInt "instrument_id" spec.instrumentId 1 u32Max
  requireInt "invalid_basis_points" spec.invalidBasisPoints 0 10000
  requireInt "aggressive_basis_points" spec.aggressiveBasisPoints 0 10000
  requireInt "market_basis_points" spec.marketBasisPoints 0 10000
  requireInt "boundary_quantity_basis_points" spec.boundaryQuantityBasisPoints 0 10000
  requireInt "mid_price" spec.midPrice 1 i64Max
  requireThat (spec.midPrice % spec.engine.tickIncrement = 0)
    "mid_price must be aligned to tick_increment"
  requireInt "price_span_ticks" spec.priceSpanTicks 1 u32Max
  requireInt "active_order_target" spec.activeOrderTarget 0 spec.engine.maxActiveOrders
  requireInt "client_count" spec.clientCount 1 u32Max
  requireInt "snapshot_interval" spec.snapshotInterval 1 u64Max

/-- `WorkloadSpec`. -/
structure WorkloadSpec extends WorkloadFields where
  /-- The constructor did not raise. -/
  valid : toWorkloadFields.check = .ok ()

/-- `MultiInstrumentEngineConfig`, with what its constructor checks. -/
structure MultiInstrumentEngineConfig where
  maxTotalActiveOrders : Int
  /-- A count. -/
  total_valid : requireU64 "max_total_active_orders" maxTotalActiveOrders false = .ok ()

/-- The commands of several streams. -/
def streamsCommandCount (streams : List WorkloadSpec) : Int :=
  (streams.map fun stream => stream.commandCount).sum

/-- `MultiWorkloadSpec.__post_init__`. -/
def checkMultiWorkloadSpec (streams : List WorkloadSpec) : Except PythonError Unit := do
  requireThat (streams ≠ []) "streams must be a nonempty tuple"
  let instrumentIds := streams.map fun stream => stream.instrumentId
  requireThat (instrumentIds = instrumentIds.insertionSort (· ≤ ·))
    "streams must be sorted by instrument ID"
  requireThat instrumentIds.Nodup "stream instrument IDs must be unique"
  requireThat (streamsCommandCount streams ≤ u64Max) "total command count must fit in a u64"

/-- `MultiWorkloadSpec`. -/
structure MultiWorkloadSpec where
  streams : List WorkloadSpec
  engine : MultiInstrumentEngineConfig
  /-- The constructor did not raise. -/
  valid : checkMultiWorkloadSpec streams = .ok ()

/-- `MultiWorkloadSpec.command_count`. -/
def MultiWorkloadSpec.commandCount (spec : MultiWorkloadSpec) : Int :=
  streamsCommandCount spec.streams

/-- `GenerationStats`. -/
structure GenerationStats where
  commandCount : Int
  intendedValid : Int
  intendedInvalid : Int
  newOrders : Int
  cancels : Int
  replaces : Int
  intents : List (String × Int)
  deriving DecidableEq, Repr

/-- The fields of `MultiWorkloadManifest`. -/
structure ManifestFields where
  generatorVersion : Int
  seed : Int
  spec : MultiWorkloadSpec
  commandCount : Int
  commandStreamSha256 : String
  stats : GenerationStats

/-- A hexadecimal digit in lower case. -/
def isLowerHex (character : Char) : Bool :=
  "0123456789abcdef".toList.contains character

/-- `MultiWorkloadManifest.__post_init__`. A text of digits and of `a` to `f` is its own
lower case. -/
def ManifestFields.check (manifest : ManifestFields) : Except PythonError Unit := do
  requireThat (manifest.generatorVersion = 2) "unsupported multi workload generator version"
  requireThat (0 ≤ manifest.seed ∧ manifest.seed ≤ u64Max) "seed must be a u64"
  requireThat (0 ≤ manifest.commandCount ∧ manifest.commandCount ≤ u64Max)
    "command_count must be a u64"
  requireThat (manifest.commandCount = manifest.spec.commandCount)
    "manifest command count differs from its spec"
  requireThat (manifest.commandStreamSha256.length = 64 ∧
    manifest.commandStreamSha256.toList.all isLowerHex)
    "command_stream_sha256 must be lowercase SHA-256 hex"
  requireThat (manifest.stats.commandCount = manifest.commandCount)
    "generation stats do not cover the workload"
  requireThat (manifest.stats.intendedValid + manifest.stats.intendedInvalid =
    manifest.commandCount) "generation validity intents do not cover the workload"
  requireThat (manifest.stats.newOrders + manifest.stats.cancels + manifest.stats.replaces =
    manifest.commandCount) "generation operation counts do not cover the workload"
  requireThat ((manifest.stats.intents.map Prod.snd).sum = manifest.commandCount)
    "generation intent histogram does not cover the workload"
  let names := manifest.stats.intents.map Prod.fst
  requireThat (names = names.insertionSort (· ≤ ·) ∧ names.Nodup ∧
    ∀ intent ∈ manifest.stats.intents, intent.1 ≠ "" ∧ 1 ≤ intent.2)
    "generation intent histogram is not canonical"

/-- `MultiWorkloadManifest`. -/
structure MultiWorkloadManifest extends ManifestFields where
  /-- The constructor did not raise. -/
  valid : toManifestFields.check = .ok ()

end AtlasLob.Oracle
