import AtlasLob.Core.PythonValue
import AtlasLob.Core.WorkloadSpec

/-!
# Persisted specifications

The dictionaries that specifications, manifests and commands are written to, and the readers
that take them back.
-/

namespace AtlasLob.Oracle

/-- The call of a constructor that checks its arguments. -/
def constructing {Value : Type} (check : Except PythonError Unit)
    (build : check = .ok () → Value) : Except PythonError Value :=
  match check, build with
  | .ok (), build => .ok (build rfl)
  | .error error, _ => .error error

/-- The call of an enumeration: the member with a value. -/
def memberOf {Member : Type} (members : List Member) (valueOf : Member → String)
    (enumeration : String) (raw : PyValue) (name : String) : Except PythonError Member := do
  let text ← stringValue raw name
  match members.find? fun member => valueOf member = text with
  | some member => .ok member
  | none => .error (.valueError ("'" ++ text ++ "' is not a valid " ++ enumeration))

/-- `WORKLOAD_SPEC_SCHEMA`. -/
def workloadSpecSchema : String := "atlas_workload_spec_v1"

/-- `MULTI_WORKLOAD_SPEC_SCHEMA`. -/
def multiWorkloadSpecSchema : String := "atlas_workload_spec_v2"

/-- `MULTI_WORKLOAD_MANIFEST_SCHEMA`. -/
def multiWorkloadManifestSchema : String := "atlas_workload_manifest_v2"

/-- The comparison of a field with a schema. -/
def requireSchema (entries : Entries) (schema message : String) : Except PythonError Unit := do
  match ← subscript entries "schema" with
  | .str text => requireThat (text = schema) message
  | _ => .error (.valueError message)

/-- The entries of an engine. -/
def engineEntries (engine : MatchingConfig) : Entries :=
  [("max_order_quantity", decimalString engine.maxOrderQuantity),
    ("tick_increment", decimalString engine.tickIncrement),
    ("max_active_orders", decimalString engine.maxActiveOrders)]

/-- The entries of the weights. -/
def weightEntries (weights : OperationWeights) : Entries :=
  [("new", .int weights.new), ("cancel", .int weights.cancel), ("replace", .int weights.replace)]

/-- The entries of a specification. -/
def specEntries (spec : WorkloadSpec) : Entries :=
  [("schema", .str workloadSpecSchema),
    ("command_count", decimalString spec.commandCount),
    ("instrument_id", decimalString spec.instrumentId),
    ("engine", .ofEntries (engineEntries spec.engine)),
    ("profile", .str spec.profile.value),
    ("price_model", .str spec.priceModel.value),
    ("operation_weights", .ofEntries (weightEntries spec.operationWeights)),
    ("invalid_basis_points", .int spec.invalidBasisPoints),
    ("aggressive_basis_points", .int spec.aggressiveBasisPoints),
    ("market_basis_points", .int spec.marketBasisPoints),
    ("boundary_quantity_basis_points", .int spec.boundaryQuantityBasisPoints),
    ("mid_price", decimalString spec.midPrice),
    ("price_span_ticks", .int spec.priceSpanTicks),
    ("active_order_target", decimalString spec.activeOrderTarget),
    ("client_count", .int spec.clientCount),
    ("snapshot_interval", decimalString spec.snapshotInterval)]

/-- `spec_to_dict`. -/
def specToDict (spec : WorkloadSpec) : PyValue := .ofEntries (specEntries spec)

/-- The keys of a specification. -/
def specKeys : List String :=
  ["schema", "command_count", "instrument_id", "engine", "profile", "price_model",
    "operation_weights", "invalid_basis_points", "aggressive_basis_points", "market_basis_points",
    "boundary_quantity_basis_points", "mid_price", "price_span_ticks", "active_order_target",
    "client_count", "snapshot_interval"]

/-- The keys of an engine. -/
def engineKeys : List String := ["max_order_quantity", "tick_increment", "max_active_orders"]

/-- The keys of the weights. -/
def weightKeys : List String := ["new", "cancel", "replace"]

/-- The engine of a specification. -/
def engineFromDict (entries : Entries) : Except PythonError MatchingConfig := do
  let maxOrderQuantity ← field decimalValue entries "max_order_quantity"
  let tickIncrement ← field signedDecimalValue entries "tick_increment"
  let maxActiveOrders ← field decimalValue entries "max_active_orders"
  constructing (checkMatchingConfig maxOrderQuantity tickIncrement maxActiveOrders)
    fun valid => ⟨maxOrderQuantity, tickIncrement, maxActiveOrders, valid⟩

/-- The weights of a specification. -/
def weightsFromDict (entries : Entries) : Except PythonError OperationWeights := do
  let new ← field jsonInt entries "new"
  let cancel ← field jsonInt entries "cancel"
  let replace ← field jsonInt entries "replace"
  constructing (checkOperationWeights new cancel replace) fun valid => ⟨new, cancel, replace, valid⟩

/-- `spec_from_dict`. -/
def specFromDict (entries : Entries) : Except PythonError WorkloadSpec := do
  requireThat (keysEqual entries specKeys) "workload spec fields do not match the V1 schema"
  requireSchema entries workloadSpecSchema "unsupported workload spec schema"
  let engineValue ← field mappingValue entries "engine"
  requireThat (keysEqual engineValue engineKeys) "engine fields do not match the workload schema"
  let weightsValue ← field mappingValue entries "operation_weights"
  requireThat (keysEqual weightsValue weightKeys)
    "operation weight fields do not match the workload schema"
  let commandCount ← field decimalValue entries "command_count"
  let instrumentId ← field decimalValue entries "instrument_id"
  let engine ← engineFromDict engineValue
  let profile ← field (memberOf WorkloadProfile.all WorkloadProfile.value "WorkloadProfile") entries
    "profile"
  let priceModel ← field (memberOf PriceModel.all PriceModel.value "PriceModel") entries
    "price_model"
  let operationWeights ← weightsFromDict weightsValue
  let invalidBasisPoints ← field jsonInt entries "invalid_basis_points"
  let aggressiveBasisPoints ← field jsonInt entries "aggressive_basis_points"
  let marketBasisPoints ← field jsonInt entries "market_basis_points"
  let boundaryQuantityBasisPoints ← field jsonInt entries "boundary_quantity_basis_points"
  let midPrice ← field signedDecimalValue entries "mid_price"
  let priceSpanTicks ← field jsonInt entries "price_span_ticks"
  let activeOrderTarget ← field decimalValue entries "active_order_target"
  let clientCount ← field jsonInt entries "client_count"
  let snapshotInterval ← field decimalValue entries "snapshot_interval"
  let fields : WorkloadFields := {
    commandCount, instrumentId, engine, profile, priceModel, operationWeights,
    invalidBasisPoints, aggressiveBasisPoints, marketBasisPoints, boundaryQuantityBasisPoints,
    midPrice, priceSpanTicks, activeOrderTarget, clientCount, snapshotInterval }
  constructing fields.check fun valid => ⟨fields, valid⟩

/-- The entries of a routed specification. -/
def multiSpecEntries (spec : MultiWorkloadSpec) : Entries :=
  [("schema", .str multiWorkloadSpecSchema),
    ("max_total_active_orders", decimalString spec.engine.maxTotalActiveOrders),
    ("streams", .list (spec.streams.map specToDict))]

/-- `multi_spec_to_dict`. -/
def multiSpecToDict (spec : MultiWorkloadSpec) : PyValue := .ofEntries (multiSpecEntries spec)

/-- The streams of a routed specification, still to be read. -/
def streamsValue (value : PyValue) (_ : String) : Except PythonError (List PyValue) :=
  match value with
  | .list items => .ok items
  | _ => .error (.valueError "streams must be an array")

/-- The capacity of a routed specification. -/
def capacityValue (raw : PyValue) (_ : String) : Except PythonError Int :=
  match raw with
  | .str text =>
    if !isAscii text.toList ∨ !isDecimal text.toList then
      .error (.valueError "max_total_active_orders must be a canonical decimal string")
    else do
      let capacity ← intOfDigits text.toList
      if 0 ≤ capacity ∧ capacity ≤ u64Max ∧ intText capacity = text then pure capacity
      else .error (.valueError "max_total_active_orders must be a canonical u64")
  | _ => .error (.valueError "max_total_active_orders must be a canonical decimal string")

/-- The streams of a routed specification, from an index on. -/
def streamsFromList : Nat → List PyValue → Except PythonError (List WorkloadSpec)
  | _, [] => .ok []
  | index, .dict entries :: rest => do
    let stream ← specFromDict entries
    let streams ← streamsFromList (index + 1) rest
    pure (stream :: streams)
  | index, _ :: _ => .error (.valueError ("streams[" ++ toString index ++ "] must be an object"))

/-- `multi_spec_from_dict`. -/
def multiSpecFromDict (entries : Entries) : Except PythonError MultiWorkloadSpec := do
  requireThat (keysEqual entries ["schema", "max_total_active_orders", "streams"])
    "multi workload spec has unexpected fields"
  requireSchema entries multiWorkloadSpecSchema "unsupported multi workload spec schema"
  let rawStreams ← field streamsValue entries "streams"
  let capacity ← field capacityValue entries "max_total_active_orders"
  let streams ← streamsFromList 0 rawStreams
  let engine ← constructing (requireU64 "max_total_active_orders" capacity false)
    fun valid => (⟨capacity, valid⟩ : MultiInstrumentEngineConfig)
  constructing (checkMultiWorkloadSpec streams) fun valid => ⟨streams, engine, valid⟩

/-- The entries of a command. -/
def commandEntries : Command → Entries
  | .newOrder order =>
    [("type", .str "new"),
      ("client_id", decimalString order.clientId),
      ("order_id", decimalString order.orderId),
      ("instrument_id", decimalString order.instrumentId),
      ("side", .int order.side),
      ("order_type", .int order.orderType),
      ("time_in_force", .int order.timeInForce),
      ("limit_price", match order.limitPrice with
        | none => .none
        | some price => decimalString price),
      ("quantity", decimalString order.quantity)]
  | .cancel order =>
    [("type", .str "cancel"),
      ("client_id", decimalString order.clientId),
      ("order_id", decimalString order.orderId),
      ("instrument_id", decimalString order.instrumentId)]
  | .replace order =>
    [("type", .str "replace"),
      ("client_id", decimalString order.clientId),
      ("old_order_id", decimalString order.oldOrderId),
      ("new_order_id", decimalString order.newOrderId),
      ("instrument_id", decimalString order.instrumentId),
      ("new_limit_price", decimalString order.newLimitPrice),
      ("new_quantity", decimalString order.newQuantity)]

/-- `command_to_dict`. -/
def commandToDict (command : Command) : PyValue := .ofEntries (commandEntries command)

/-- `_require_keys`. -/
def requireKeys (entries : Entries) (expected : List String) : Except PythonError Unit :=
  requireThat (keysEqual entries expected) "V2 mapping has unexpected fields"

/-- A price that may be absent. -/
def optionalPrice (raw : PyValue) (name : String) : Except PythonError (Option Int) :=
  match raw with
  | .none => .ok none
  | raw => do
    let price ← boundedSigned raw name
    pure (some price)

/-- The keys of a new order. -/
def newOrderKeys : List String :=
  ["type", "client_id", "order_id", "instrument_id", "side", "order_type", "time_in_force",
    "limit_price", "quantity"]

/-- The keys of a withdrawal. -/
def cancelKeys : List String := ["type", "client_id", "order_id", "instrument_id"]

/-- The keys of an exchange. -/
def replaceKeys : List String :=
  ["type", "client_id", "old_order_id", "new_order_id", "instrument_id", "new_limit_price",
    "new_quantity"]

/-- The new order of a dictionary. -/
def newOrderFromDict (entries : Entries) : Except PythonError Command := do
  requireKeys entries newOrderKeys
  let clientId ← field (boundedDecimal u32Max) entries "client_id"
  let orderId ← field (boundedDecimal u64Max) entries "order_id"
  let instrumentId ← field (boundedDecimal u32Max) entries "instrument_id"
  let side ← field jsonByte entries "side"
  let orderType ← field jsonByte entries "order_type"
  let timeInForce ← field jsonByte entries "time_in_force"
  let limitPrice ← field optionalPrice entries "limit_price"
  let quantity ← field (boundedDecimal u64Max) entries "quantity"
  pure (.newOrder {
    clientId, orderId, instrumentId, side, orderType, timeInForce, limitPrice, quantity })

/-- The withdrawal of a dictionary. -/
def cancelFromDict (entries : Entries) : Except PythonError Command := do
  requireKeys entries cancelKeys
  let clientId ← field (boundedDecimal u32Max) entries "client_id"
  let orderId ← field (boundedDecimal u64Max) entries "order_id"
  let instrumentId ← field (boundedDecimal u32Max) entries "instrument_id"
  pure (.cancel { clientId, orderId, instrumentId })

/-- The exchange of a dictionary. -/
def replaceFromDict (entries : Entries) : Except PythonError Command := do
  requireKeys entries replaceKeys
  let clientId ← field (boundedDecimal u32Max) entries "client_id"
  let oldOrderId ← field (boundedDecimal u64Max) entries "old_order_id"
  let newOrderId ← field (boundedDecimal u64Max) entries "new_order_id"
  let instrumentId ← field (boundedDecimal u32Max) entries "instrument_id"
  let newLimitPrice ← field boundedSigned entries "new_limit_price"
  let newQuantity ← field (boundedDecimal u64Max) entries "new_quantity"
  pure (.replace { clientId, oldOrderId, newOrderId, instrumentId, newLimitPrice, newQuantity })

/-- `command_from_dict`. -/
def commandFromDict (entries : Entries) : Except PythonError Command :=
  match entries.lookup "type" with
  | some (.str text) =>
    if text = "new" then newOrderFromDict entries
    else if text = "cancel" then cancelFromDict entries
    else if text = "replace" then replaceFromDict entries
    else .error (.valueError "unsupported V2 command type")
  | _ => .error (.valueError "unsupported V2 command type")

/-- The entries of a histogram. -/
def intentEntries (intents : List (String × Int)) : Entries :=
  intents.map fun intent => (intent.1, decimalString intent.2)

/-- The entries of the counts. -/
def countEntries (stats : GenerationStats) : Entries :=
  [("intended_valid", decimalString stats.intendedValid),
    ("intended_invalid", decimalString stats.intendedInvalid),
    ("new_orders", decimalString stats.newOrders),
    ("cancels", decimalString stats.cancels),
    ("replaces", decimalString stats.replaces),
    ("intents", .ofEntries (intentEntries stats.intents))]

/-- The entries of a manifest. -/
def manifestEntries (manifest : MultiWorkloadManifest) : Entries :=
  [("schema", .str multiWorkloadManifestSchema),
    ("generator_version", .int manifest.generatorVersion),
    ("seed", decimalString manifest.seed),
    ("spec", multiSpecToDict manifest.spec),
    ("command_count", decimalString manifest.commandCount),
    ("command_stream_sha256", .str manifest.commandStreamSha256),
    ("intent_counts", .ofEntries (countEntries manifest.stats))]

/-- `multi_manifest_to_dict`. -/
def multiManifestToDict (manifest : MultiWorkloadManifest) : PyValue :=
  .ofEntries (manifestEntries manifest)

/-- A field that must be an object. -/
def objectValue (message : String) (value : PyValue) (_ : String) : Except PythonError Entries :=
  match value with
  | .dict entries => .ok entries
  | _ => .error (.valueError message)

/-- The intents of a histogram, in the order of the dictionary. -/
def intentsFromDict : Entries → Except PythonError (List (String × Int))
  | [] => .ok []
  | (name, raw) :: rest => do
    let count ← boundedDecimal u64Max raw ("intents." ++ name)
    let intents ← intentsFromDict rest
    pure ((name, count) :: intents)

/-- The keys of the counts. -/
def countKeys : List String :=
  ["intended_valid", "intended_invalid", "new_orders", "cancels", "replaces", "intents"]

/-- The keys of a manifest. -/
def manifestKeys : List String :=
  ["schema", "generator_version", "seed", "spec", "command_count", "command_stream_sha256",
    "intent_counts"]

/-- The digest of a manifest. -/
def digestValue (value : PyValue) (_ : String) : Except PythonError String :=
  match value with
  | .str text => .ok text
  | _ => .error (.valueError "command_stream_sha256 must be a string")

/-- The generator version of a manifest. -/
def versionValue (value : PyValue) (_ : String) : Except PythonError Int :=
  match value with
  | .int value => .ok value
  | _ => .error (.valueError "generator_version must be an integer")

/-- `multi_manifest_from_dict`. -/
def multiManifestFromDict (entries : Entries) : Except PythonError MultiWorkloadManifest := do
  requireKeys entries manifestKeys
  requireSchema entries multiWorkloadManifestSchema "unsupported multi workload manifest schema"
  let rawCounts ← field (objectValue "intent_counts must be an object") entries "intent_counts"
  requireKeys rawCounts countKeys
  let rawIntents ← field (objectValue "intent_counts.intents must be an object") rawCounts "intents"
  requireThat (∀ entry ∈ rawIntents, entry.1 ≠ "") "intent names must be nonempty strings"
  let commandCount ← field (boundedDecimal u64Max) entries "command_count"
  let intendedValid ← field (boundedDecimal u64Max) rawCounts "intended_valid"
  let intendedInvalid ← field (boundedDecimal u64Max) rawCounts "intended_invalid"
  let newOrders ← field (boundedDecimal u64Max) rawCounts "new_orders"
  let cancels ← field (boundedDecimal u64Max) rawCounts "cancels"
  let replaces ← field (boundedDecimal u64Max) rawCounts "replaces"
  let intents ← intentsFromDict rawIntents
  let stats : GenerationStats := {
    commandCount, intendedValid, intendedInvalid, newOrders, cancels, replaces,
    intents := intents.insertionSort fun left right => left.1 ≤ right.1 }
  let rawSpec ← field (objectValue "spec must be an object") entries "spec"
  let commandStreamSha256 ← field digestValue entries "command_stream_sha256"
  let generatorVersion ← field versionValue entries "generator_version"
  let seed ← field (boundedDecimal u64Max) entries "seed"
  let spec ← multiSpecFromDict rawSpec
  let fields : ManifestFields := {
    generatorVersion, seed, spec, commandCount, commandStreamSha256, stats }
  constructing fields.check fun valid => ⟨fields, valid⟩

end AtlasLob.Oracle
