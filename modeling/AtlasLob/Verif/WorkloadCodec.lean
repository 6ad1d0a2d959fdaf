import AtlasLob.Verif.PythonValue

/-!
# Persisted specifications have one spelling

Every reader takes back what its writer gives. The readers of commands and of the counts of a
manifest accept nothing else; the reader of a specification accepts nothing else among the
documents of ASCII strings, and a decimal digit of another script is read as well.
-/

namespace AtlasLob.Oracle

/-- What the constructor of a specification checks. -/
theorem WorkloadSpec.bounds (spec : WorkloadSpec) :
    (1 ≤ spec.commandCount ∧ spec.commandCount ≤ u64Max) ∧
      (1 ≤ spec.instrumentId ∧ spec.instrumentId ≤ u32Max) ∧
      (1 ≤ spec.midPrice ∧ spec.midPrice ≤ i64Max) ∧
      (0 ≤ spec.activeOrderTarget ∧ spec.activeOrderTarget ≤ spec.engine.maxActiveOrders) ∧
      1 ≤ spec.snapshotInterval ∧ spec.snapshotInterval ≤ u64Max := by
  have valid := spec.valid
  simp only [WorkloadFields.check, checks_eq_ok, requireInt_eq_ok, requireThat_eq_ok] at valid
  exact ⟨valid.1, valid.2.1, valid.2.2.2.2.2.2.1, valid.2.2.2.2.2.2.2.2.2.1,
    valid.2.2.2.2.2.2.2.2.2.2.2⟩

section Parts

variable {entries : Entries}

/-- A value of an ASCII dictionary is ASCII. -/
theorem PyValue.Ascii.at {name : String} {raw : PyValue} (ascii : PyValue.Ascii (.dict entries))
    (ordered : Ordered entries) (found : entries.lookup name = some raw) : raw.Ascii := by
  cases ascii with
  | dict _ each => exact each (name, raw) ((lookup_eq_some ordered.nodup).mp found)

/-- A value of a canonical dictionary is canonical. -/
theorem PyValue.Canonical.at {name : String} {raw : PyValue}
    (canonical : PyValue.Canonical (.dict entries)) (found : entries.lookup name = some raw) :
    raw.Canonical := by
  cases canonical with
  | dict _ ordered each => exact each (name, raw) ((lookup_eq_some ordered.nodup).mp found)

/-- A canonical dictionary is ordered. -/
theorem PyValue.Canonical.ordered (canonical : PyValue.Canonical (.dict entries)) :
    Ordered entries := by
  cases canonical with
  | dict _ ordered _ => exact ordered

/-- An ASCII string is ASCII. -/
theorem PyValue.Ascii.text {raw : PyValue} (ascii : raw.Ascii) :
    ∀ text, raw = .str text → isAscii text.toList = true := by
  rintro text rfl
  cases ascii with
  | str _ ascii => exact ascii

/-- A decimal field of an ASCII dictionary holds the canonical spelling. -/
theorem decimalField_strict (ordered : Ordered entries) (ascii : PyValue.Ascii (.dict entries))
    {name : String} {value : Int} (read : field decimalValue entries name = .ok value) :
    entries.lookup name = some (decimalString value) ∧ 0 ≤ value := by
  obtain ⟨raw, found, parsed⟩ := field_eq_ok.mp read
  obtain ⟨same, natural⟩ := decimalValue_strict (ascii.at ordered found).text parsed
  exact ⟨same ▸ found, natural⟩

/-- A positive signed field of an ASCII dictionary holds the canonical spelling. -/
theorem signedField_strict (ordered : Ordered entries) (ascii : PyValue.Ascii (.dict entries))
    {name : String} {value : Int} (positive : 0 < value)
    (read : field signedDecimalValue entries name = .ok value) :
    entries.lookup name = some (decimalString value) := by
  obtain ⟨raw, found, parsed⟩ := field_eq_ok.mp read
  exact signedDecimalValue_strict (ascii.at ordered found).text positive parsed ▸ found

/-- An integer field holds the integer. -/
theorem intField_strict {name : String} {value : Int}
    (read : field jsonInt entries name = .ok value) :
    entries.lookup name = some (.int value) := by
  obtain ⟨raw, found, parsed⟩ := field_eq_ok.mp read
  exact jsonInt_eq_ok.mp parsed ▸ found

/-- A nested dictionary is the value of its field. -/
theorem mappingField_strict {name : String} {nested : Entries}
    (read : field mappingValue entries name = .ok nested) :
    entries.lookup name = some (.dict nested) := by
  obtain ⟨raw, found, parsed⟩ := field_eq_ok.mp read
  exact mappingValue_eq_ok.mp parsed ▸ found

/-- The schema of a dictionary that passes. -/
theorem requireSchema_eq_ok {schema message : String} :
    requireSchema entries schema message = .ok () ↔
      entries.lookup "schema" = some (.str schema) := by
  unfold requireSchema subscript
  cases found : entries.lookup "schema" with
  | none => exact iff_of_false nofun nofun
  | some raw =>
    rw [pythonOk_bind]
    cases raw with
    | str text =>
      simp only [requireThat_eq_ok, Option.some.injEq, PyValue.str.injEq]
    | _ => exact iff_of_false nofun (by simp)

end Parts

section Engine

/-- The keys of an engine are different. -/
theorem engineEntries_nodup (engine : MatchingConfig) :
    ((engineEntries engine).map Prod.fst).Nodup := by
  show engineKeys.Nodup
  decide

/-- The keys of the weights are different. -/
theorem weightEntries_nodup (weights : OperationWeights) :
    ((weightEntries weights).map Prod.fst).Nodup := by
  show weightKeys.Nodup
  decide

/-- The keys of a specification are different. -/
theorem specEntries_nodup (spec : WorkloadSpec) :
    ((specEntries spec).map Prod.fst).Nodup := by
  show specKeys.Nodup
  decide

/-- The engine of a specification is read back. -/
theorem engineFromDict_entries (engine : MatchingConfig) :
    engineFromDict (PyValue.ofEntries (engineEntries engine)).entries = .ok engine := by
  obtain ⟨quantity, tick, active⟩ := engine.bounds
  have distinct := engineEntries_nodup engine
  have upper : i64Max = 9223372036854775807 := rfl
  have word : u64Max = 18446744073709551615 := rfl
  unfold engineFromDict
  refine bind_eq_ok.mpr ⟨engine.maxOrderQuantity, field_ofEntries distinct rfl
    (decimalValue_decimalString (by omega) quantity.2), ?_⟩
  refine bind_eq_ok.mpr ⟨engine.tickIncrement, field_ofEntries distinct rfl
    (signedDecimalValue_decimalString (by omega) (by omega)), ?_⟩
  refine bind_eq_ok.mpr ⟨engine.maxActiveOrders, field_ofEntries distinct rfl
    (decimalValue_decimalString active.1 active.2), ?_⟩
  exact constructing_eq_ok.mpr ⟨engine.valid, rfl⟩

/-- The engine of an ASCII dictionary is spelled canonically. -/
theorem engineFromDict_strict {entries : Entries} (ordered : Ordered entries)
    (ascii : PyValue.Ascii (.dict entries)) (keys : keysEqual entries engineKeys = true)
    {engine : MatchingConfig} (read : engineFromDict entries = .ok engine) :
    PyValue.dict entries = .ofEntries (engineEntries engine) := by
  unfold engineFromDict at read
  obtain ⟨quantity, quantityRead, read⟩ := bind_eq_ok.mp read
  obtain ⟨tick, tickRead, read⟩ := bind_eq_ok.mp read
  obtain ⟨active, activeRead, read⟩ := bind_eq_ok.mp read
  obtain ⟨valid, rfl⟩ := constructing_eq_ok.mp read
  have tickValid := (MatchingConfig.mk quantity tick active valid).bounds.2.1
  refine dict_eq_ofEntries ordered (engineEntries_nodup _) keys ?_
  intro entry inside
  simp only [engineEntries, List.mem_cons, List.not_mem_nil, or_false] at inside
  rcases inside with rfl | rfl | rfl
  · exact (decimalField_strict ordered ascii quantityRead).1
  · exact signedField_strict ordered ascii tickValid.1 tickRead
  · exact (decimalField_strict ordered ascii activeRead).1

/-- The weights of a specification are read back. -/
theorem weightsFromDict_entries (weights : OperationWeights) :
    weightsFromDict (PyValue.ofEntries (weightEntries weights)).entries = .ok weights := by
  have distinct := weightEntries_nodup weights
  unfold weightsFromDict
  refine bind_eq_ok.mpr ⟨weights.new, field_ofEntries distinct rfl (jsonInt_eq_ok.mpr rfl), ?_⟩
  refine bind_eq_ok.mpr ⟨weights.cancel, field_ofEntries distinct rfl
    (jsonInt_eq_ok.mpr rfl), ?_⟩
  refine bind_eq_ok.mpr ⟨weights.replace, field_ofEntries distinct rfl
    (jsonInt_eq_ok.mpr rfl), ?_⟩
  exact constructing_eq_ok.mpr ⟨weights.valid, rfl⟩

/-- The weights of a dictionary are its integers. -/
theorem weightsFromDict_strict {entries : Entries} (ordered : Ordered entries)
    (keys : keysEqual entries weightKeys = true) {weights : OperationWeights}
    (read : weightsFromDict entries = .ok weights) :
    PyValue.dict entries = .ofEntries (weightEntries weights) := by
  unfold weightsFromDict at read
  obtain ⟨new, newRead, read⟩ := bind_eq_ok.mp read
  obtain ⟨cancel, cancelRead, read⟩ := bind_eq_ok.mp read
  obtain ⟨replace, replaceRead, read⟩ := bind_eq_ok.mp read
  obtain ⟨valid, rfl⟩ := constructing_eq_ok.mp read
  refine dict_eq_ofEntries ordered (weightEntries_nodup _) keys ?_
  intro entry inside
  simp only [weightEntries, List.mem_cons, List.not_mem_nil, or_false] at inside
  rcases inside with rfl | rfl | rfl
  · exact intField_strict newRead
  · exact intField_strict cancelRead
  · exact intField_strict replaceRead

end Engine

section Specification

/-- The values of the profiles are different. -/
theorem profile_value_injective : Function.Injective WorkloadProfile.value := by
  intro left right same
  cases left <;> cases right <;> first | rfl | exact absurd same (by decide)

/-- The values of the price models are different. -/
theorem priceModel_value_injective : Function.Injective PriceModel.value := by
  intro left right same
  cases left <;> cases right <;> first | rfl | exact absurd same (by decide)

/-- Every profile is listed. -/
theorem profile_mem_all (profile : WorkloadProfile) : profile ∈ WorkloadProfile.all := by
  cases profile <;> decide

/-- Every price model is listed. -/
theorem priceModel_mem_all (model : PriceModel) : model ∈ PriceModel.all := by
  cases model <;> decide

/-- A specification is read back. -/
theorem specFromDict_specToDict (spec : WorkloadSpec) :
    specFromDict (specToDict spec).entries = .ok spec := by
  obtain ⟨count, instrument, mid, active, interval⟩ := spec.bounds
  have capacity := spec.engine.bounds.2.2
  have distinct := specEntries_nodup spec
  have word : u64Max = 18446744073709551615 := rfl
  have half : u32Max = 4294967295 := rfl
  have signed : i64Max = 9223372036854775807 := rfl
  have integer : ∀ {name value}, (specEntries spec).lookup name = some (.int value) →
      field jsonInt (specToDict spec).entries name = .ok value :=
    fun found => field_ofEntries distinct found (jsonInt_eq_ok.mpr rfl)
  unfold specFromDict
  refine bind_eq_ok.mpr ⟨(), requireThat_eq_ok.mpr (keysEqual_ofEntries (specEntries spec)), ?_⟩
  refine bind_eq_ok.mpr ⟨(), requireSchema_eq_ok.mpr
    ((lookup_ofEntries distinct "schema").trans rfl), ?_⟩
  refine bind_eq_ok.mpr ⟨(PyValue.ofEntries (engineEntries spec.engine)).entries,
    field_ofEntries distinct rfl (mappingValue_eq_ok.mpr rfl), ?_⟩
  refine bind_eq_ok.mpr ⟨(), requireThat_eq_ok.mpr
    (keysEqual_ofEntries (engineEntries spec.engine)), ?_⟩
  refine bind_eq_ok.mpr ⟨(PyValue.ofEntries (weightEntries spec.operationWeights)).entries,
    field_ofEntries distinct rfl (mappingValue_eq_ok.mpr rfl), ?_⟩
  refine bind_eq_ok.mpr ⟨(), requireThat_eq_ok.mpr
    (keysEqual_ofEntries (weightEntries spec.operationWeights)), ?_⟩
  refine bind_eq_ok.mpr ⟨spec.commandCount, field_ofEntries distinct rfl
    (decimalValue_decimalString (by omega) count.2), ?_⟩
  refine bind_eq_ok.mpr ⟨spec.instrumentId, field_ofEntries distinct rfl
    (decimalValue_decimalString (by omega) (by omega)), ?_⟩
  refine bind_eq_ok.mpr ⟨spec.engine, engineFromDict_entries spec.engine, ?_⟩
  refine bind_eq_ok.mpr ⟨spec.profile, field_ofEntries distinct rfl
    ((memberOf_eq_ok profile_mem_all profile_value_injective).mpr rfl), ?_⟩
  refine bind_eq_ok.mpr ⟨spec.priceModel, field_ofEntries distinct rfl
    ((memberOf_eq_ok priceModel_mem_all priceModel_value_injective).mpr rfl), ?_⟩
  refine bind_eq_ok.mpr ⟨spec.operationWeights, weightsFromDict_entries spec.operationWeights, ?_⟩
  refine bind_eq_ok.mpr ⟨spec.invalidBasisPoints, integer rfl, ?_⟩
  refine bind_eq_ok.mpr ⟨spec.aggressiveBasisPoints, integer rfl, ?_⟩
  refine bind_eq_ok.mpr ⟨spec.marketBasisPoints, integer rfl, ?_⟩
  refine bind_eq_ok.mpr ⟨spec.boundaryQuantityBasisPoints, integer rfl, ?_⟩
  refine bind_eq_ok.mpr ⟨spec.midPrice, field_ofEntries distinct rfl
    (signedDecimalValue_decimalString (by omega) (by omega)), ?_⟩
  refine bind_eq_ok.mpr ⟨spec.priceSpanTicks, integer rfl, ?_⟩
  refine bind_eq_ok.mpr ⟨spec.activeOrderTarget, field_ofEntries distinct rfl
    (decimalValue_decimalString active.1 (by omega)), ?_⟩
  refine bind_eq_ok.mpr ⟨spec.clientCount, integer rfl, ?_⟩
  refine bind_eq_ok.mpr ⟨spec.snapshotInterval, field_ofEntries distinct rfl
    (decimalValue_decimalString (by omega) interval.2), ?_⟩
  exact constructing_eq_ok.mpr ⟨spec.valid, rfl⟩

/-- A specification read from ASCII is spelled canonically. -/
theorem specFromDict_strict {entries : Entries} (canonical : PyValue.Canonical (.dict entries))
    (ascii : PyValue.Ascii (.dict entries)) {spec : WorkloadSpec}
    (read : specFromDict entries = .ok spec) : specToDict spec = .dict entries := by
  have ordered := canonical.ordered
  unfold specFromDict at read
  obtain ⟨_, keys, read⟩ := bind_eq_ok.mp read
  obtain ⟨_, schema, read⟩ := bind_eq_ok.mp read
  obtain ⟨engineValue, engineMapping, read⟩ := bind_eq_ok.mp read
  obtain ⟨_, engineKeyed, read⟩ := bind_eq_ok.mp read
  obtain ⟨weightsValue, weightsMapping, read⟩ := bind_eq_ok.mp read
  obtain ⟨_, weightsKeyed, read⟩ := bind_eq_ok.mp read
  obtain ⟨count, countRead, read⟩ := bind_eq_ok.mp read
  obtain ⟨instrument, instrumentRead, read⟩ := bind_eq_ok.mp read
  obtain ⟨engine, engineRead, read⟩ := bind_eq_ok.mp read
  obtain ⟨profile, profileRead, read⟩ := bind_eq_ok.mp read
  obtain ⟨model, modelRead, read⟩ := bind_eq_ok.mp read
  obtain ⟨weights, weightsRead, read⟩ := bind_eq_ok.mp read
  obtain ⟨invalid, invalidRead, read⟩ := bind_eq_ok.mp read
  obtain ⟨aggressive, aggressiveRead, read⟩ := bind_eq_ok.mp read
  obtain ⟨market, marketRead, read⟩ := bind_eq_ok.mp read
  obtain ⟨boundary, boundaryRead, read⟩ := bind_eq_ok.mp read
  obtain ⟨mid, midRead, read⟩ := bind_eq_ok.mp read
  obtain ⟨span, spanRead, read⟩ := bind_eq_ok.mp read
  obtain ⟨active, activeRead, read⟩ := bind_eq_ok.mp read
  obtain ⟨clients, clientsRead, read⟩ := bind_eq_ok.mp read
  obtain ⟨interval, intervalRead, read⟩ := bind_eq_ok.mp read
  obtain ⟨valid, rfl⟩ := constructing_eq_ok.mp read
  have engineFound := mappingField_strict engineMapping
  have weightsFound := mappingField_strict weightsMapping
  have engineSame := engineFromDict_strict (canonical.at engineFound).ordered
    (ascii.at ordered engineFound) (requireThat_eq_ok.mp engineKeyed) engineRead
  have weightsSame := weightsFromDict_strict (canonical.at weightsFound).ordered
    (requireThat_eq_ok.mp weightsKeyed) weightsRead
  have midValid := (WorkloadSpec.mk _ valid).bounds.2.2.1
  obtain ⟨profileRaw, profileFound, profileParsed⟩ := field_eq_ok.mp profileRead
  obtain ⟨modelRaw, modelFound, modelParsed⟩ := field_eq_ok.mp modelRead
  rw [memberOf_eq_ok profile_mem_all profile_value_injective] at profileParsed
  rw [memberOf_eq_ok priceModel_mem_all priceModel_value_injective] at modelParsed
  refine (dict_eq_ofEntries ordered (specEntries_nodup _) (requireThat_eq_ok.mp keys) ?_).symm
  intro entry inside
  simp only [specEntries, List.mem_cons, List.not_mem_nil, or_false] at inside
  rcases inside with rfl | rfl | rfl | rfl | rfl | rfl | rfl | rfl | rfl | rfl | rfl | rfl | rfl |
    rfl | rfl | rfl
  · exact requireSchema_eq_ok.mp schema
  · exact (decimalField_strict ordered ascii countRead).1
  · exact (decimalField_strict ordered ascii instrumentRead).1
  · exact engineSame ▸ engineFound
  · exact profileParsed ▸ profileFound
  · exact modelParsed ▸ modelFound
  · exact weightsSame ▸ weightsFound
  · exact intField_strict invalidRead
  · exact intField_strict aggressiveRead
  · exact intField_strict marketRead
  · exact intField_strict boundaryRead
  · exact signedField_strict ordered ascii midValid.1 midRead
  · exact intField_strict spanRead
  · exact (decimalField_strict ordered ascii activeRead).1
  · exact intField_strict clientsRead
  · exact (decimalField_strict ordered ascii intervalRead).1

/-- A display of ASCII values is ASCII. -/
theorem ascii_ofEntries {display : Entries} (each : ∀ entry ∈ display, entry.2.Ascii) :
    (PyValue.ofEntries display).Ascii := by
  refine .dict _ fun entry inside => each entry ?_
  exact (List.perm_insertionSort _ display).mem_iff.mp inside

/-- The string of an integer is ASCII. -/
theorem decimalString_ascii (value : Int) : (decimalString value).Ascii :=
  .str _ (intText_ascii value)

/-- The dictionary of a specification is ASCII. -/
theorem specToDict_ascii (spec : WorkloadSpec) : (specToDict spec).Ascii := by
  refine ascii_ofEntries fun entry inside => ?_
  simp only [specEntries, List.mem_cons, List.not_mem_nil, or_false] at inside
  rcases inside with rfl | rfl | rfl | rfl | rfl | rfl | rfl | rfl | rfl | rfl | rfl | rfl | rfl |
    rfl | rfl | rfl
  · exact .str _ (by decide)
  · exact decimalString_ascii _
  · exact decimalString_ascii _
  · refine ascii_ofEntries fun entry inside => ?_
    simp only [engineEntries, List.mem_cons, List.not_mem_nil, or_false] at inside
    rcases inside with rfl | rfl | rfl <;> exact decimalString_ascii _
  · show (PyValue.str spec.profile.value).Ascii
    cases spec.profile <;> exact .str _ (by decide)
  · show (PyValue.str spec.priceModel.value).Ascii
    cases spec.priceModel <;> exact .str _ (by decide)
  · refine ascii_ofEntries fun entry inside => ?_
    simp only [weightEntries, List.mem_cons, List.not_mem_nil, or_false] at inside
    rcases inside with rfl | rfl | rfl <;> exact .int _
  · exact .int _
  · exact .int _
  · exact .int _
  · exact .int _
  · exact decimalString_ascii _
  · exact .int _
  · exact decimalString_ascii _
  · exact .int _
  · exact decimalString_ascii _

/-- What is read from a dictionary is spelled as in it exactly when the dictionary is ASCII. -/
theorem specFromDict_spelling_iff {entries : Entries}
    (canonical : PyValue.Canonical (.dict entries)) {spec : WorkloadSpec}
    (read : specFromDict entries = .ok spec) :
    specToDict spec = .dict entries ↔ PyValue.Ascii (.dict entries) := by
  constructor
  · intro same
    rw [← same]
    exact specToDict_ascii spec
  · exact fun ascii => specFromDict_strict canonical ascii read

end Specification

section Routed

/-- The keys of a routed specification are different. -/
theorem multiSpecEntries_nodup (spec : MultiWorkloadSpec) :
    ((multiSpecEntries spec).map Prod.fst).Nodup := by
  show ["schema", "max_total_active_orders", "streams"].Nodup
  decide

/-- The capacity of a routed specification is read from its canonical spelling only. -/
theorem capacityValue_eq_ok {raw : PyValue} {name : String} {capacity : Int} :
    capacityValue raw name = .ok capacity ↔
      raw = decimalString capacity ∧ Fits u64Max capacity := by
  constructor
  · intro read
    cases raw with
    | str text =>
      unfold capacityValue at read
      simp only at read
      split at read
      · exact absurd read nofun
      · obtain ⟨parsed, _, ranged⟩ := bind_eq_ok.mp read
        split at ranged
        · next range =>
          rw [← Except.ok.inj ranged]
          refine ⟨?_, range.1, range.2.1⟩
          rw [← range.2.2]
          rfl
        · exact absurd ranged nofun
    | _ => exact absurd read nofun
  · rintro ⟨rfl, natural, range⟩
    obtain ⟨number, rfl⟩ := Int.eq_ofNat_of_zero_le natural
    obtain ⟨ascii, decimal⟩ := text_decimal number
    unfold capacityValue decimalString
    simp only
    rw [intText_natCast, String.toList_ofList, if_neg, intOfDigits_text range, pythonOk_bind,
      if_pos ⟨natural, range, rfl⟩]
    · rfl
    · rw [ascii, decimal]
      decide

/-- A specification is written to a dictionary. -/
theorem specToDict_eq_dict (spec : WorkloadSpec) :
    specToDict spec = .dict (specToDict spec).entries := by
  unfold specToDict
  exact PyValue.ofEntries_eq_dict _

/-- The first stream is read before the others. -/
theorem streamsFromList_cons (index : Nat) (entries : Entries) (rest : List PyValue) :
    streamsFromList index (.dict entries :: rest) = specFromDict entries >>= fun stream =>
      streamsFromList (index + 1) rest >>= fun streams => pure (stream :: streams) := rfl

/-- The streams are read back. -/
theorem streamsFromList_map (index : Nat) (streams : List WorkloadSpec) :
    streamsFromList index (streams.map specToDict) = .ok streams := by
  induction streams generalizing index with
  | nil => rfl
  | cons stream rest ih =>
    have first := specFromDict_specToDict stream
    rw [List.map_cons, specToDict_eq_dict, streamsFromList_cons, first, pythonOk_bind, ih,
      pythonOk_bind]
    rfl

/-- Streams read from ASCII are spelled canonically. -/
theorem streamsFromList_strict {index : Nat} {items : List PyValue}
    (canonical : ∀ item ∈ items, item.Canonical) (ascii : ∀ item ∈ items, item.Ascii)
    {streams : List WorkloadSpec} (read : streamsFromList index items = .ok streams) :
    streams.map specToDict = items := by
  induction items generalizing index streams with
  | nil =>
    rw [← Except.ok.inj read]
    rfl
  | cons item rest ih =>
    cases item with
    | dict entries =>
      rw [streamsFromList_cons] at read
      obtain ⟨stream, streamRead, read⟩ := bind_eq_ok.mp read
      obtain ⟨others, othersRead, read⟩ := bind_eq_ok.mp read
      rw [← Except.ok.inj read, List.map_cons,
        specFromDict_strict (canonical _ List.mem_cons_self) (ascii _ List.mem_cons_self)
        streamRead, ih (fun other inside => canonical other (List.mem_cons_of_mem _ inside))
          (fun other inside => ascii other (List.mem_cons_of_mem _ inside)) othersRead]
    | _ => exact absurd read nofun

/-- The streams of a specification are a list. -/
theorem streamsValue_eq_ok {raw : PyValue} {name : String} {items : List PyValue} :
    streamsValue raw name = .ok items ↔ raw = .list items := by
  cases raw with
  | list other => exact ⟨fun read => by rw [← Except.ok.inj read],
      fun same => by rw [PyValue.list.inj same]; rfl⟩
  | _ => exact iff_of_false nofun nofun

/-- A routed specification is read back. -/
theorem multiSpecFromDict_multiSpecToDict (spec : MultiWorkloadSpec) :
    multiSpecFromDict (multiSpecToDict spec).entries = .ok spec := by
  have distinct := multiSpecEntries_nodup spec
  have capacity := requireU64_eq_ok.mp spec.engine.total_valid
  unfold multiSpecFromDict
  refine bind_eq_ok.mpr ⟨(), requireThat_eq_ok.mpr
    (keysEqual_ofEntries (multiSpecEntries spec)), ?_⟩
  refine bind_eq_ok.mpr ⟨(), requireSchema_eq_ok.mpr
    ((lookup_ofEntries distinct "schema").trans rfl), ?_⟩
  refine bind_eq_ok.mpr ⟨spec.streams.map specToDict,
    field_ofEntries distinct rfl (streamsValue_eq_ok.mpr rfl), ?_⟩
  refine bind_eq_ok.mpr ⟨spec.engine.maxTotalActiveOrders, field_ofEntries distinct rfl
    (capacityValue_eq_ok.mpr ⟨rfl, capacity.1, capacity.2.1⟩), ?_⟩
  refine bind_eq_ok.mpr ⟨spec.streams, streamsFromList_map 0 spec.streams, ?_⟩
  refine bind_eq_ok.mpr ⟨spec.engine, constructing_eq_ok.mpr ⟨spec.engine.total_valid, rfl⟩, ?_⟩
  exact constructing_eq_ok.mpr ⟨spec.valid, rfl⟩

/-- A routed specification read from ASCII is spelled canonically. -/
theorem multiSpecFromDict_strict {entries : Entries}
    (canonical : PyValue.Canonical (.dict entries)) (ascii : PyValue.Ascii (.dict entries))
    {spec : MultiWorkloadSpec} (read : multiSpecFromDict entries = .ok spec) :
    multiSpecToDict spec = .dict entries := by
  have ordered := canonical.ordered
  unfold multiSpecFromDict at read
  obtain ⟨_, keys, read⟩ := bind_eq_ok.mp read
  obtain ⟨_, schema, read⟩ := bind_eq_ok.mp read
  obtain ⟨items, itemsRead, read⟩ := bind_eq_ok.mp read
  obtain ⟨capacity, capacityRead, read⟩ := bind_eq_ok.mp read
  obtain ⟨streams, streamsRead, read⟩ := bind_eq_ok.mp read
  obtain ⟨engine, engineRead, read⟩ := bind_eq_ok.mp read
  obtain ⟨_, rfl⟩ := constructing_eq_ok.mp engineRead
  obtain ⟨valid, rfl⟩ := constructing_eq_ok.mp read
  obtain ⟨rawItems, itemsFound, itemsParsed⟩ := field_eq_ok.mp itemsRead
  obtain ⟨rawCapacity, capacityFound, capacityParsed⟩ := field_eq_ok.mp capacityRead
  rw [streamsValue_eq_ok] at itemsParsed
  rw [itemsParsed] at itemsFound
  have spelled : streams.map specToDict = items := by
    refine streamsFromList_strict ?_ ?_ streamsRead
    · cases canonical.at itemsFound with
      | list _ each => exact each
    · cases ascii.at ordered itemsFound with
      | list _ each => exact each
  refine (dict_eq_ofEntries ordered (multiSpecEntries_nodup _)
    (requireThat_eq_ok.mp keys) ?_).symm
  intro entry inside
  simp only [multiSpecEntries, List.mem_cons, List.not_mem_nil, or_false] at inside
  rcases inside with rfl | rfl | rfl
  · exact requireSchema_eq_ok.mp schema
  · exact (capacityValue_eq_ok.mp capacityParsed).1 ▸ capacityFound
  · exact spelled ▸ itemsFound

/-- The dictionary of a routed specification is ASCII. -/
theorem multiSpecToDict_ascii (spec : MultiWorkloadSpec) : (multiSpecToDict spec).Ascii := by
  refine ascii_ofEntries fun entry inside => ?_
  simp only [multiSpecEntries, List.mem_cons, List.not_mem_nil, or_false] at inside
  rcases inside with rfl | rfl | rfl
  · exact .str _ (by decide)
  · exact decimalString_ascii _
  · refine .list _ fun item inside => ?_
    obtain ⟨stream, _, rfl⟩ := List.mem_map.mp inside
    exact specToDict_ascii stream

end Routed

section Commands

/-- The keys of a command are different. -/
theorem commandEntries_nodup (command : Command) :
    ((commandEntries command).map Prod.fst).Nodup := by
  cases command with
  | newOrder order =>
    show newOrderKeys.Nodup
    decide
  | cancel order =>
    show cancelKeys.Nodup
    decide
  | replace order =>
    show replaceKeys.Nodup
    decide

/-- The keys of a mapping that passes are the expected ones. -/
theorem requireKeys_eq_ok {entries : Entries} {expected : List String} :
    requireKeys entries expected = .ok () ↔ keysEqual entries expected = true := by
  unfold requireKeys
  exact requireThat_eq_ok

/-- A decimal field of a routed workload holds the canonical spelling. -/
theorem boundedField_strict {entries : Entries} {maximum value : Int} (word : maximum ≤ u64Max)
    {name : String} (read : field (boundedDecimal maximum) entries name = .ok value) :
    entries.lookup name = some (decimalString value) ∧ Fits maximum value := by
  obtain ⟨raw, found, parsed⟩ := field_eq_ok.mp read
  obtain ⟨same, fits⟩ := (boundedDecimal_eq_ok word).mp parsed
  exact ⟨same ▸ found, fits⟩

/-- A byte field of a routed workload holds the integer. -/
theorem byteField_strict {entries : Entries} {value : Int} {name : String}
    (read : field jsonByte entries name = .ok value) :
    entries.lookup name = some (.int value) ∧ Fits u8Max value := by
  obtain ⟨raw, found, parsed⟩ := field_eq_ok.mp read
  obtain ⟨same, fits⟩ := jsonByte_eq_ok.mp parsed
  exact ⟨same ▸ found, fits⟩

/-- The type of a command that is read. -/
theorem commandFromDict_cases {entries : Entries} {command : Command}
    (read : commandFromDict entries = .ok command) :
    (entries.lookup "type" = some (.str "new") ∧ newOrderFromDict entries = .ok command) ∨
      (entries.lookup "type" = some (.str "cancel") ∧ cancelFromDict entries = .ok command) ∨
      (entries.lookup "type" = some (.str "replace") ∧
        replaceFromDict entries = .ok command) := by
  unfold commandFromDict at read
  split at read
  · next text found =>
    rw [found]
    split at read
    · next same => exact Or.inl ⟨by rw [same], read⟩
    · split at read
      · next same => exact Or.inr (Or.inl ⟨by rw [same], read⟩)
      · split at read
        · next same => exact Or.inr (Or.inr ⟨by rw [same], read⟩)
        · exact absurd read nofun
  · exact absurd read nofun

/-- A command is spelled by an ordered dictionary with its keys and its values. -/
theorem commandToDict_eq {entries : Entries} (ordered : Ordered entries) {command : Command}
    {expected : List String} (names : (commandEntries command).map Prod.fst = expected)
    (keys : requireKeys entries expected = .ok ())
    (each : ∀ entry ∈ commandEntries command, entries.lookup entry.1 = some entry.2) :
    commandToDict command = .dict entries := by
  rw [← names, requireKeys_eq_ok] at keys
  exact (dict_eq_ofEntries ordered (commandEntries_nodup command) keys each).symm

/-- A command that is read is representable and spelled canonically. -/
theorem commandFromDict_strict {entries : Entries} (ordered : Ordered entries) {command : Command}
    (read : commandFromDict entries = .ok command) :
    commandToDict command = .dict entries ∧ command.Representable := by
  have half : u32Max ≤ u64Max := by decide
  rcases commandFromDict_cases read with ⟨type, read⟩ | ⟨type, read⟩ | ⟨type, read⟩
  · unfold newOrderFromDict at read
    obtain ⟨⟨⟩, keys, read⟩ := bind_eq_ok.mp read
    obtain ⟨client, clientRead, read⟩ := bind_eq_ok.mp read
    obtain ⟨name, nameRead, read⟩ := bind_eq_ok.mp read
    obtain ⟨instrument, instrumentRead, read⟩ := bind_eq_ok.mp read
    obtain ⟨side, sideRead, read⟩ := bind_eq_ok.mp read
    obtain ⟨kind, kindRead, read⟩ := bind_eq_ok.mp read
    obtain ⟨force, forceRead, read⟩ := bind_eq_ok.mp read
    obtain ⟨price, priceRead, read⟩ := bind_eq_ok.mp read
    obtain ⟨quantity, quantityRead, read⟩ := bind_eq_ok.mp read
    rw [← Except.ok.inj read]
    obtain ⟨clientFound, clientFits⟩ := boundedField_strict half clientRead
    obtain ⟨nameFound, nameFits⟩ := boundedField_strict (le_refl _) nameRead
    obtain ⟨instrumentFound, instrumentFits⟩ := boundedField_strict half instrumentRead
    obtain ⟨sideFound, sideFits⟩ := byteField_strict sideRead
    obtain ⟨kindFound, kindFits⟩ := byteField_strict kindRead
    obtain ⟨forceFound, forceFits⟩ := byteField_strict forceRead
    obtain ⟨quantityFound, quantityFits⟩ := boundedField_strict (le_refl _) quantityRead
    obtain ⟨raw, priceFound, priceParsed⟩ := field_eq_ok.mp priceRead
    obtain ⟨same, priceFits⟩ := optionalPrice_eq_ok.mp priceParsed
    refine ⟨commandToDict_eq ordered rfl keys ?_, clientFits, nameFits, instrumentFits, sideFits,
      kindFits, forceFits, priceFits, quantityFits⟩
    intro entry inside
    simp only [commandEntries, List.mem_cons, List.not_mem_nil, or_false] at inside
    rcases inside with rfl | rfl | rfl | rfl | rfl | rfl | rfl | rfl | rfl
    · exact type
    · exact clientFound
    · exact nameFound
    · exact instrumentFound
    · exact sideFound
    · exact kindFound
    · exact forceFound
    · exact priceFound.trans (congrArg some same)
    · exact quantityFound
  · unfold cancelFromDict at read
    obtain ⟨⟨⟩, keys, read⟩ := bind_eq_ok.mp read
    obtain ⟨client, clientRead, read⟩ := bind_eq_ok.mp read
    obtain ⟨name, nameRead, read⟩ := bind_eq_ok.mp read
    obtain ⟨instrument, instrumentRead, read⟩ := bind_eq_ok.mp read
    rw [← Except.ok.inj read]
    obtain ⟨clientFound, clientFits⟩ := boundedField_strict half clientRead
    obtain ⟨nameFound, nameFits⟩ := boundedField_strict (le_refl _) nameRead
    obtain ⟨instrumentFound, instrumentFits⟩ := boundedField_strict half instrumentRead
    refine ⟨commandToDict_eq ordered rfl keys ?_, clientFits, nameFits, instrumentFits⟩
    intro entry inside
    simp only [commandEntries, List.mem_cons, List.not_mem_nil, or_false] at inside
    rcases inside with rfl | rfl | rfl | rfl
    · exact type
    · exact clientFound
    · exact nameFound
    · exact instrumentFound
  · unfold replaceFromDict at read
    obtain ⟨⟨⟩, keys, read⟩ := bind_eq_ok.mp read
    obtain ⟨client, clientRead, read⟩ := bind_eq_ok.mp read
    obtain ⟨old, oldRead, read⟩ := bind_eq_ok.mp read
    obtain ⟨new, newRead, read⟩ := bind_eq_ok.mp read
    obtain ⟨instrument, instrumentRead, read⟩ := bind_eq_ok.mp read
    obtain ⟨price, priceRead, read⟩ := bind_eq_ok.mp read
    obtain ⟨quantity, quantityRead, read⟩ := bind_eq_ok.mp read
    rw [← Except.ok.inj read]
    obtain ⟨clientFound, clientFits⟩ := boundedField_strict half clientRead
    obtain ⟨oldFound, oldFits⟩ := boundedField_strict (le_refl _) oldRead
    obtain ⟨newFound, newFits⟩ := boundedField_strict (le_refl _) newRead
    obtain ⟨instrumentFound, instrumentFits⟩ := boundedField_strict half instrumentRead
    obtain ⟨quantityFound, quantityFits⟩ := boundedField_strict (le_refl _) quantityRead
    obtain ⟨raw, priceFound, priceParsed⟩ := field_eq_ok.mp priceRead
    obtain ⟨same, priceFits⟩ := boundedSigned_eq_ok.mp priceParsed
    refine ⟨commandToDict_eq ordered rfl keys ?_, clientFits, oldFits, newFits, instrumentFits,
      priceFits, quantityFits⟩
    intro entry inside
    simp only [commandEntries, List.mem_cons, List.not_mem_nil, or_false] at inside
    rcases inside with rfl | rfl | rfl | rfl | rfl | rfl | rfl
    · exact type
    · exact clientFound
    · exact oldFound
    · exact newFound
    · exact instrumentFound
    · exact same ▸ priceFound
    · exact quantityFound

/-- A representable command is read back. -/
theorem commandFromDict_commandToDict {command : Command}
    (representable : command.Representable) :
    commandFromDict (commandToDict command).entries = .ok command := by
  have half : u32Max ≤ u64Max := by decide
  have distinct := commandEntries_nodup command
  have keys : requireKeys (commandToDict command).entries
      ((commandEntries command).map Prod.fst) = .ok () :=
    requireKeys_eq_ok.mpr (keysEqual_ofEntries (commandEntries command))
  have decimal : ∀ {maximum name value}, maximum ≤ u64Max → Fits maximum value →
      (commandEntries command).lookup name = some (decimalString value) →
        field (boundedDecimal maximum) (commandToDict command).entries name = .ok value :=
    fun word fits found =>
      field_ofEntries distinct found ((boundedDecimal_eq_ok word).mpr ⟨rfl, fits⟩)
  have byte : ∀ {name value}, Fits u8Max value →
      (commandEntries command).lookup name = some (.int value) →
        field jsonByte (commandToDict command).entries name = .ok value :=
    fun fits found => field_ofEntries distinct found (jsonByte_eq_ok.mpr ⟨rfl, fits⟩)
  have type : (commandToDict command).entries.lookup "type" =
      (commandEntries command).lookup "type" := lookup_ofEntries distinct "type"
  unfold commandFromDict
  rw [type]
  cases command with
  | newOrder order =>
    obtain ⟨client, name, instrument, side, kind, force, price, quantity⟩ := representable
    show newOrderFromDict _ = _
    unfold newOrderFromDict
    refine bind_eq_ok.mpr ⟨(), keys, ?_⟩
    refine bind_eq_ok.mpr ⟨_, decimal half client rfl, ?_⟩
    refine bind_eq_ok.mpr ⟨_, decimal (le_refl _) name rfl, ?_⟩
    refine bind_eq_ok.mpr ⟨_, decimal half instrument rfl, ?_⟩
    refine bind_eq_ok.mpr ⟨_, byte side rfl, ?_⟩
    refine bind_eq_ok.mpr ⟨_, byte kind rfl, ?_⟩
    refine bind_eq_ok.mpr ⟨_, byte force rfl, ?_⟩
    refine bind_eq_ok.mpr ⟨order.limitPrice, field_ofEntries distinct rfl
      (optionalPrice_eq_ok.mpr ⟨rfl, price⟩), ?_⟩
    exact bind_eq_ok.mpr ⟨_, decimal (le_refl _) quantity rfl, rfl⟩
  | cancel order =>
    obtain ⟨client, name, instrument⟩ := representable
    show cancelFromDict _ = _
    unfold cancelFromDict
    refine bind_eq_ok.mpr ⟨(), keys, ?_⟩
    refine bind_eq_ok.mpr ⟨_, decimal half client rfl, ?_⟩
    refine bind_eq_ok.mpr ⟨_, decimal (le_refl _) name rfl, ?_⟩
    exact bind_eq_ok.mpr ⟨_, decimal half instrument rfl, rfl⟩
  | replace order =>
    obtain ⟨client, old, new, instrument, price, quantity⟩ := representable
    show replaceFromDict _ = _
    unfold replaceFromDict
    refine bind_eq_ok.mpr ⟨(), keys, ?_⟩
    refine bind_eq_ok.mpr ⟨_, decimal half client rfl, ?_⟩
    refine bind_eq_ok.mpr ⟨_, decimal (le_refl _) old rfl, ?_⟩
    refine bind_eq_ok.mpr ⟨_, decimal (le_refl _) new rfl, ?_⟩
    refine bind_eq_ok.mpr ⟨_, decimal half instrument rfl, ?_⟩
    refine bind_eq_ok.mpr ⟨order.newLimitPrice, field_ofEntries distinct rfl
      (boundedSigned_eq_ok.mpr ⟨rfl, price⟩), ?_⟩
    exact bind_eq_ok.mpr ⟨_, decimal (le_refl _) quantity rfl, rfl⟩

end Commands

end AtlasLob.Oracle
