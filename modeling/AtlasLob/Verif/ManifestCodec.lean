import AtlasLob.Verif.WorkloadCodec

/-!
# Persisted manifests

A manifest is read back when its counts are natural numbers, which its constructor does not
check. What a reader refuses, it refuses with a `ValueError`.
-/

namespace AtlasLob.Oracle

section Manifest

/-- The keys of the counts are different. -/
theorem countEntries_nodup (stats : GenerationStats) :
    ((countEntries stats).map Prod.fst).Nodup := by
  show countKeys.Nodup
  decide

/-- The keys of a manifest are different. -/
theorem manifestEntries_nodup (manifest : MultiWorkloadManifest) :
    ((manifestEntries manifest).map Prod.fst).Nodup := by
  show manifestKeys.Nodup
  decide

/-- What the constructor of a manifest checks. -/
theorem MultiWorkloadManifest.bounds (manifest : MultiWorkloadManifest) :
    Fits u64Max manifest.seed ∧ Fits u64Max manifest.commandCount ∧
      manifest.stats.commandCount = manifest.commandCount ∧
      manifest.stats.intendedValid + manifest.stats.intendedInvalid = manifest.commandCount ∧
      manifest.stats.newOrders + manifest.stats.cancels + manifest.stats.replaces =
        manifest.commandCount ∧
      (manifest.stats.intents.map Prod.snd).sum = manifest.commandCount ∧
      (manifest.stats.intents.map Prod.fst).Pairwise (· ≤ ·) ∧
      (manifest.stats.intents.map Prod.fst).Nodup ∧
      ∀ intent ∈ manifest.stats.intents, intent.1 ≠ "" ∧ 1 ≤ intent.2 := by
  have valid := manifest.valid
  simp only [ManifestFields.check, checks_eq_ok, requireThat_eq_ok] at valid
  obtain ⟨_, seed, count, _, _, covered, validity, operations, histogram, ordered, canonical⟩ :=
    valid
  refine ⟨seed, count, covered, validity, operations, histogram, ?_, canonical⟩
  rw [ordered]
  exact List.pairwise_insertionSort _ _

/-- The intents of a histogram of words are read back. -/
theorem intentsFromDict_entries {intents : List (String × Int)}
    (words : ∀ intent ∈ intents, Fits u64Max intent.2) :
    intentsFromDict (intentEntries intents) = .ok intents := by
  induction intents with
  | nil => rfl
  | cons intent rest ih =>
    have first : boundedDecimal u64Max (decimalString intent.2) ("intents." ++ intent.1) =
        .ok intent.2 :=
      (boundedDecimal_eq_ok (le_refl u64Max)).mpr ⟨rfl, words intent List.mem_cons_self⟩
    have others := ih fun other inside => words other (List.mem_cons_of_mem _ inside)
    show (boundedDecimal u64Max (decimalString intent.2) ("intents." ++ intent.1) >>= fun count =>
      intentsFromDict (intentEntries rest) >>= fun intents =>
        pure ((intent.1, count) :: intents)) = _
    rw [first, pythonOk_bind, others, pythonOk_bind]
    rfl

/-- The intents of a dictionary are words and spelled canonically. -/
theorem intentsFromDict_strict {entries : Entries} {intents : List (String × Int)}
    (read : intentsFromDict entries = .ok intents) :
    intentEntries intents = entries ∧ ∀ intent ∈ intents, Fits u64Max intent.2 := by
  induction entries generalizing intents with
  | nil =>
    rw [← Except.ok.inj read]
    exact ⟨rfl, nofun⟩
  | cons entry rest ih =>
    obtain ⟨count, countRead, read⟩ := bind_eq_ok.mp read
    obtain ⟨others, othersRead, read⟩ := bind_eq_ok.mp read
    obtain ⟨spelled, fits⟩ := (boundedDecimal_eq_ok (le_refl u64Max)).mp countRead
    obtain ⟨same, words⟩ := ih othersRead
    rw [← Except.ok.inj read]
    constructor
    · show (entry.1, decimalString count) :: intentEntries others = entry :: rest
      rw [same, ← spelled]
    · intro intent inside
      rcases List.mem_cons.mp inside with rfl | later
      · exact fits
      · exact words intent later

/-- The names of a histogram are the keys of its dictionary. -/
theorem intentEntries_keys (intents : List (String × Int)) :
    (intentEntries intents).map Prod.fst = intents.map Prod.fst := by
  unfold intentEntries
  rw [List.map_map]
  rfl

/-- The dictionary of an ordered histogram keeps its order. -/
theorem ofEntries_intents {intents : List (String × Int)}
    (ordered : (intents.map Prod.fst).Pairwise (· ≤ ·)) :
    PyValue.ofEntries (intentEntries intents) = .dict (intentEntries intents) := by
  rw [← intentEntries_keys, List.pairwise_map] at ordered
  unfold PyValue.ofEntries
  rw [ordered.insertionSort_eq]

/-- A count of the histogram is at most the number of commands. -/
theorem count_le_total {intents : List (String × Int)}
    (positive : ∀ intent ∈ intents, 1 ≤ intent.2) {intent : String × Int}
    (inside : intent ∈ intents) : intent.2 ≤ (intents.map Prod.snd).sum := by
  apply List.single_le_sum _ _ (List.mem_map_of_mem inside)
  intro count member
  obtain ⟨other, present, rfl⟩ := List.mem_map.mp member
  have least := positive other present
  omega

/-- The counts of a manifest are natural numbers. -/
def GenerationStats.Natural (stats : GenerationStats) : Prop :=
  0 ≤ stats.intendedValid ∧ 0 ≤ stats.intendedInvalid ∧ 0 ≤ stats.newOrders ∧
    0 ≤ stats.cancels ∧ 0 ≤ stats.replaces

/-- A decimal field of a dictionary is read back when its value is a word. -/
theorem wordField_ofEntries {display : Entries} (distinct : (display.map Prod.fst).Nodup)
    {name : String} {value : Int} (found : display.lookup name = some (decimalString value))
    (fits : Fits u64Max value) :
    field (boundedDecimal u64Max) (PyValue.ofEntries display).entries name = .ok value :=
  field_ofEntries distinct found ((boundedDecimal_eq_ok (le_refl u64Max)).mpr ⟨rfl, fits⟩)

/-- An object field holds the dictionary. -/
theorem objectValue_eq_ok {message name : String} {raw : PyValue} {entries : Entries} :
    objectValue message raw name = .ok entries ↔ raw = .dict entries := by
  cases raw with
  | dict other =>
    exact ⟨fun read => by rw [← Except.ok.inj read], fun same => by rw [PyValue.dict.inj same]; rfl⟩
  | _ => exact iff_of_false nofun nofun

/-- The digest of a manifest is a string. -/
theorem digestValue_eq_ok {name digest : String} {raw : PyValue} :
    digestValue raw name = .ok digest ↔ raw = .str digest := by
  cases raw with
  | str other =>
    exact ⟨fun read => by rw [← Except.ok.inj read], fun same => by rw [PyValue.str.inj same]; rfl⟩
  | _ => exact iff_of_false nofun nofun

/-- The generator version of a manifest is an integer. -/
theorem versionValue_eq_ok {name : String} {version : Int} {raw : PyValue} :
    versionValue raw name = .ok version ↔ raw = .int version := by
  cases raw with
  | int other =>
    exact ⟨fun read => by rw [← Except.ok.inj read], fun same => by rw [PyValue.int.inj same]; rfl⟩
  | _ => exact iff_of_false nofun nofun

/-- The constructor of a manifest accepts the fields of one. -/
theorem constructing_manifest {fields : ManifestFields} {manifest : MultiWorkloadManifest}
    (same : fields = manifest.toManifestFields) :
    constructing fields.check (fun valid => MultiWorkloadManifest.mk fields valid) =
      .ok manifest := by
  subst same
  exact constructing_eq_ok.mpr ⟨manifest.valid, rfl⟩

/-- A manifest with natural counts is read back. -/
theorem multiManifestFromDict_multiManifestToDict (manifest : MultiWorkloadManifest)
    (natural : manifest.stats.Natural) :
    multiManifestFromDict (multiManifestToDict manifest).entries = .ok manifest := by
  obtain ⟨seed, count, covered, validity, operations, histogram, ordered, _, named⟩ :=
    manifest.bounds
  obtain ⟨valid, invalid, orders, cancels, replaces⟩ := natural
  obtain ⟨_, counted⟩ := count
  have distinct := manifestEntries_nodup manifest
  have inner := countEntries_nodup manifest.stats
  have histogramRead := ofEntries_intents ordered
  have words : ∀ intent ∈ manifest.stats.intents, Fits u64Max intent.2 := by
    intro intent inside
    have bound := count_le_total (fun other present => (named other present).2) inside
    have least := (named intent inside).2
    exact ⟨by omega, by omega⟩
  have sorted : manifest.stats.intents.insertionSort (fun left right => left.1 ≤ right.1) =
      manifest.stats.intents :=
    (List.pairwise_map.mp ordered).insertionSort_eq
  unfold multiManifestFromDict
  refine bind_eq_ok.mpr ⟨(), requireKeys_eq_ok.mpr
    (keysEqual_ofEntries (manifestEntries manifest)), ?_⟩
  refine bind_eq_ok.mpr ⟨(), requireSchema_eq_ok.mpr
    ((lookup_ofEntries distinct "schema").trans rfl), ?_⟩
  refine bind_eq_ok.mpr ⟨(PyValue.ofEntries (countEntries manifest.stats)).entries,
    field_ofEntries distinct rfl (objectValue_eq_ok.mpr rfl), ?_⟩
  refine bind_eq_ok.mpr ⟨(), requireKeys_eq_ok.mpr
    (keysEqual_ofEntries (countEntries manifest.stats)), ?_⟩
  refine bind_eq_ok.mpr ⟨intentEntries manifest.stats.intents,
    field_ofEntries inner rfl (objectValue_eq_ok.mpr histogramRead), ?_⟩
  refine bind_eq_ok.mpr ⟨(), requireThat_eq_ok.mpr ?_, ?_⟩
  · intro entry inside
    obtain ⟨intent, present, rfl⟩ := List.mem_map.mp inside
    exact (named intent present).1
  refine bind_eq_ok.mpr ⟨manifest.commandCount, wordField_ofEntries distinct rfl
    ⟨by omega, counted⟩, ?_⟩
  refine bind_eq_ok.mpr ⟨manifest.stats.intendedValid, wordField_ofEntries inner rfl
    ⟨valid, by omega⟩, ?_⟩
  refine bind_eq_ok.mpr ⟨manifest.stats.intendedInvalid, wordField_ofEntries inner rfl
    ⟨invalid, by omega⟩, ?_⟩
  refine bind_eq_ok.mpr ⟨manifest.stats.newOrders, wordField_ofEntries inner rfl
    ⟨orders, by omega⟩, ?_⟩
  refine bind_eq_ok.mpr ⟨manifest.stats.cancels, wordField_ofEntries inner rfl
    ⟨cancels, by omega⟩, ?_⟩
  refine bind_eq_ok.mpr ⟨manifest.stats.replaces, wordField_ofEntries inner rfl
    ⟨replaces, by omega⟩, ?_⟩
  refine bind_eq_ok.mpr ⟨manifest.stats.intents, intentsFromDict_entries words, ?_⟩
  refine bind_eq_ok.mpr ⟨(multiSpecToDict manifest.spec).entries,
    field_ofEntries distinct rfl (objectValue_eq_ok.mpr rfl), ?_⟩
  refine bind_eq_ok.mpr ⟨manifest.commandStreamSha256,
    field_ofEntries distinct rfl (digestValue_eq_ok.mpr rfl), ?_⟩
  refine bind_eq_ok.mpr ⟨manifest.generatorVersion,
    field_ofEntries distinct rfl (versionValue_eq_ok.mpr rfl), ?_⟩
  refine bind_eq_ok.mpr ⟨manifest.seed, wordField_ofEntries distinct rfl seed, ?_⟩
  refine bind_eq_ok.mpr ⟨manifest.spec, multiSpecFromDict_multiSpecToDict manifest.spec, ?_⟩
  refine constructing_manifest (congrArg (ManifestFields.mk _ _ _ _ _) ?_)
  rw [sorted, ← covered]

/-- A manifest read from ASCII is spelled canonically, with natural counts. -/
theorem multiManifestFromDict_strict {entries : Entries}
    (canonical : PyValue.Canonical (.dict entries)) {manifest : MultiWorkloadManifest}
    (read : multiManifestFromDict entries = .ok manifest) :
    manifest.stats.Natural ∧
      (PyValue.Ascii (.dict entries) → multiManifestToDict manifest = .dict entries) := by
  have ordered := canonical.ordered
  unfold multiManifestFromDict at read
  obtain ⟨⟨⟩, keys, read⟩ := bind_eq_ok.mp read
  obtain ⟨⟨⟩, schema, read⟩ := bind_eq_ok.mp read
  obtain ⟨counts, countsRead, read⟩ := bind_eq_ok.mp read
  obtain ⟨⟨⟩, countKeyed, read⟩ := bind_eq_ok.mp read
  obtain ⟨histogram, histogramRead, read⟩ := bind_eq_ok.mp read
  obtain ⟨_, _, read⟩ := bind_eq_ok.mp read
  obtain ⟨count, countRead, read⟩ := bind_eq_ok.mp read
  obtain ⟨valid, validRead, read⟩ := bind_eq_ok.mp read
  obtain ⟨invalid, invalidRead, read⟩ := bind_eq_ok.mp read
  obtain ⟨orders, ordersRead, read⟩ := bind_eq_ok.mp read
  obtain ⟨cancels, cancelsRead, read⟩ := bind_eq_ok.mp read
  obtain ⟨replaces, replacesRead, read⟩ := bind_eq_ok.mp read
  obtain ⟨intents, intentsRead, read⟩ := bind_eq_ok.mp read
  obtain ⟨rawSpec, rawRead, read⟩ := bind_eq_ok.mp read
  obtain ⟨digest, digestRead, read⟩ := bind_eq_ok.mp read
  obtain ⟨version, versionRead, read⟩ := bind_eq_ok.mp read
  obtain ⟨seed, seedRead, read⟩ := bind_eq_ok.mp read
  obtain ⟨spec, specRead, read⟩ := bind_eq_ok.mp read
  obtain ⟨accepted, rfl⟩ := constructing_eq_ok.mp read
  obtain ⟨validFound, validFits⟩ := boundedField_strict (le_refl u64Max) validRead
  obtain ⟨invalidFound, invalidFits⟩ := boundedField_strict (le_refl u64Max) invalidRead
  obtain ⟨ordersFound, ordersFits⟩ := boundedField_strict (le_refl u64Max) ordersRead
  obtain ⟨cancelsFound, cancelsFits⟩ := boundedField_strict (le_refl u64Max) cancelsRead
  obtain ⟨replacesFound, replacesFits⟩ := boundedField_strict (le_refl u64Max) replacesRead
  refine ⟨⟨validFits.1, invalidFits.1, ordersFits.1, cancelsFits.1, replacesFits.1⟩, ?_⟩
  intro ascii
  obtain ⟨rawCounts, countsFound, countsParsed⟩ := field_eq_ok.mp countsRead
  obtain ⟨rawHistogram, histogramFound, histogramParsed⟩ := field_eq_ok.mp histogramRead
  obtain ⟨rawNested, specFound, specParsed⟩ := field_eq_ok.mp rawRead
  obtain ⟨rawDigest, digestFound, digestParsed⟩ := field_eq_ok.mp digestRead
  obtain ⟨rawVersion, versionFound, versionParsed⟩ := field_eq_ok.mp versionRead
  rw [objectValue_eq_ok.mp countsParsed] at countsFound
  rw [objectValue_eq_ok.mp histogramParsed] at histogramFound
  rw [objectValue_eq_ok.mp specParsed] at specFound
  rw [digestValue_eq_ok.mp digestParsed] at digestFound
  rw [versionValue_eq_ok.mp versionParsed] at versionFound
  have countsCanonical := canonical.at countsFound
  have histogramOrdered := (countsCanonical.at histogramFound).ordered
  obtain ⟨spelled, _⟩ := intentsFromDict_strict intentsRead
  have names : (intents.map Prod.fst).Pairwise (· ≤ ·) := by
    rw [← intentEntries_keys, spelled, List.pairwise_map]
    exact histogramOrdered.imp fun less => le_of_lt less
  have sorted : intents.insertionSort (fun left right => left.1 ≤ right.1) = intents :=
    (List.pairwise_map.mp names).insertionSort_eq
  have histogramSame : PyValue.ofEntries (intentEntries intents) = .dict histogram := by
    rw [ofEntries_intents names, spelled]
  have specSame := multiSpecFromDict_strict (canonical.at specFound)
    (ascii.at ordered specFound) specRead
  refine (dict_eq_ofEntries ordered (manifestEntries_nodup _) (requireKeys_eq_ok.mp keys) ?_).symm
  intro entry inside
  simp only [manifestEntries, List.mem_cons, List.not_mem_nil, or_false] at inside
  rcases inside with rfl | rfl | rfl | rfl | rfl | rfl | rfl
  · exact requireSchema_eq_ok.mp schema
  · exact versionFound
  · exact (boundedField_strict (le_refl u64Max) seedRead).1
  · exact specSame ▸ specFound
  · exact (boundedField_strict (le_refl u64Max) countRead).1
  · exact digestFound
  · refine countsFound.trans (congrArg some ?_)
    refine dict_eq_ofEntries countsCanonical.ordered (countEntries_nodup _)
      (requireKeys_eq_ok.mp countKeyed) ?_
    intro entry inside
    simp only [countEntries, List.mem_cons, List.not_mem_nil, or_false] at inside
    rcases inside with rfl | rfl | rfl | rfl | rfl | rfl
    · exact validFound
    · exact invalidFound
    · exact ordersFound
    · exact cancelsFound
    · exact replacesFound
    · rw [sorted, histogramSame]
      exact histogramFound

/-- A text of lower-case hexadecimal digits belongs to ASCII. -/
theorem isAscii_of_hex {text : List Char} (digits : text.all isLowerHex = true) :
    isAscii text = true := by
  have small : ∀ character ∈ "0123456789abcdef".toList, character.toNat < 128 := by
    simp
  unfold isAscii
  rw [List.all_eq_true] at digits ⊢
  intro character inside
  have digit := digits character inside
  unfold isLowerHex at digit
  exact decide_eq_true (small character (List.contains_iff_mem.mp digit))

/-- The dictionary of a manifest is ASCII. -/
theorem multiManifestToDict_ascii (manifest : MultiWorkloadManifest) :
    (multiManifestToDict manifest).Ascii := by
  have valid := manifest.valid
  simp only [ManifestFields.check, checks_eq_ok, requireThat_eq_ok] at valid
  have digest := isAscii_of_hex valid.2.2.2.2.1.2
  refine ascii_ofEntries fun entry inside => ?_
  simp only [manifestEntries, List.mem_cons, List.not_mem_nil, or_false] at inside
  rcases inside with rfl | rfl | rfl | rfl | rfl | rfl | rfl
  · exact .str _ (by decide)
  · exact .int _
  · exact decimalString_ascii _
  · exact multiSpecToDict_ascii _
  · exact decimalString_ascii _
  · exact .str _ digest
  · refine ascii_ofEntries fun entry inside => ?_
    simp only [countEntries, List.mem_cons, List.not_mem_nil, or_false] at inside
    rcases inside with rfl | rfl | rfl | rfl | rfl | rfl
    · exact decimalString_ascii _
    · exact decimalString_ascii _
    · exact decimalString_ascii _
    · exact decimalString_ascii _
    · exact decimalString_ascii _
    · refine ascii_ofEntries fun entry inside => ?_
      obtain ⟨intent, _, rfl⟩ := List.mem_map.mp inside
      exact decimalString_ascii _

/-- A display of canonical values with different keys is canonical. -/
theorem canonical_ofEntries {display : Entries} (distinct : (display.map Prod.fst).Nodup)
    (each : ∀ entry ∈ display, entry.2.Canonical) : (PyValue.ofEntries display).Canonical := by
  refine .dict _ (ordered_sort distinct) fun entry inside => each entry ?_
  exact (List.perm_insertionSort _ display).mem_iff.mp inside

/-- The dictionary of a specification is canonical. -/
theorem specToDict_canonical (spec : WorkloadSpec) : (specToDict spec).Canonical := by
  refine canonical_ofEntries (specEntries_nodup spec) fun entry inside => ?_
  simp only [specEntries, List.mem_cons, List.not_mem_nil, or_false] at inside
  rcases inside with rfl | rfl | rfl | rfl | rfl | rfl | rfl | rfl | rfl | rfl | rfl | rfl | rfl |
    rfl | rfl | rfl
  · exact .str _
  · exact .str _
  · exact .str _
  · refine canonical_ofEntries (engineEntries_nodup _) fun entry inside => ?_
    simp only [engineEntries, List.mem_cons, List.not_mem_nil, or_false] at inside
    rcases inside with rfl | rfl | rfl <;> exact .str _
  · exact .str _
  · exact .str _
  · refine canonical_ofEntries (weightEntries_nodup _) fun entry inside => ?_
    simp only [weightEntries, List.mem_cons, List.not_mem_nil, or_false] at inside
    rcases inside with rfl | rfl | rfl <;> exact .int _
  · exact .int _
  · exact .int _
  · exact .int _
  · exact .int _
  · exact .str _
  · exact .int _
  · exact .str _
  · exact .int _
  · exact .str _

/-- The dictionary of a routed specification is canonical. -/
theorem multiSpecToDict_canonical (spec : MultiWorkloadSpec) :
    (multiSpecToDict spec).Canonical := by
  refine canonical_ofEntries (multiSpecEntries_nodup spec) fun entry inside => ?_
  simp only [multiSpecEntries, List.mem_cons, List.not_mem_nil, or_false] at inside
  rcases inside with rfl | rfl | rfl
  · exact .str _
  · exact .str _
  · refine .list _ fun item inside => ?_
    obtain ⟨stream, _, rfl⟩ := List.mem_map.mp inside
    exact specToDict_canonical stream

/-- The dictionary of a manifest is canonical. -/
theorem multiManifestToDict_canonical (manifest : MultiWorkloadManifest) :
    PyValue.Canonical (.dict (multiManifestToDict manifest).entries) := by
  obtain ⟨_, _, _, _, _, _, _, distinct, _⟩ := manifest.bounds
  refine canonical_ofEntries (manifestEntries_nodup manifest) fun entry inside => ?_
  simp only [manifestEntries, List.mem_cons, List.not_mem_nil, or_false] at inside
  rcases inside with rfl | rfl | rfl | rfl | rfl | rfl | rfl
  · exact .str _
  · exact .int _
  · exact .str _
  · exact multiSpecToDict_canonical _
  · exact .str _
  · exact .str _
  · refine canonical_ofEntries (countEntries_nodup _) fun entry inside => ?_
    simp only [countEntries, List.mem_cons, List.not_mem_nil, or_false] at inside
    rcases inside with rfl | rfl | rfl | rfl | rfl | rfl
    · exact .str _
    · exact .str _
    · exact .str _
    · exact .str _
    · exact .str _
    · refine canonical_ofEntries (intentEntries_keys _ ▸ distinct) fun entry inside => ?_
      obtain ⟨intent, _, rfl⟩ := List.mem_map.mp inside
      exact .str _

/-- The dictionary of a command is ordered. -/
theorem commandToDict_ordered (command : Command) : Ordered (commandToDict command).entries :=
  ordered_sort (commandEntries_nodup command)

end Manifest

section Errors

variable {Value Next : Type}

/-- What a computation raises is a `ValueError`. -/
def ValueErrors (computation : Except PythonError Value) : Prop :=
  ∀ error, computation = .error error → ∃ message, error = .valueError message

/-- A value is no error. -/
theorem valueErrors_ok (value : Value) : ValueErrors (.ok value : Except PythonError Value) :=
  fun _ same => absurd same nofun

/-- A `ValueError` is one. -/
theorem valueErrors_error (message : String) :
    ValueErrors (.error (.valueError message) : Except PythonError Value) :=
  fun _ same => ⟨message, (Except.error.inj same).symm⟩

/-- The errors of a computation in two parts. -/
theorem valueErrors_bind {first : Except PythonError Value}
    {rest : Value → Except PythonError Next} (head : ValueErrors first)
    (tail : ∀ value, first = .ok value → ValueErrors (rest value)) :
    ValueErrors (first >>= rest) := by
  cases first with
  | error error =>
    exact fun other same => head other (congrArg Except.error (Except.error.inj same))
  | ok value => exact tail value rfl

/-- A check raises a `ValueError`. -/
theorem requireThat_errors {condition : Prop} [Decidable condition] {message : String} :
    ValueErrors (requireThat condition message) := by
  unfold requireThat
  split
  · exact valueErrors_ok ()
  · exact valueErrors_error message

/-- The check of a word raises a `ValueError`. -/
theorem requireU64_errors {name : String} {value : Int} {nonzero : Bool} :
    ValueErrors (requireU64 name value nonzero) := by
  unfold requireU64
  split
  · exact valueErrors_ok ()
  · exact valueErrors_error _

/-- The check of a signed word raises a `ValueError`. -/
theorem requireI64_errors {name : String} {value : Int} :
    ValueErrors (requireI64 name value) := by
  unfold requireI64
  split
  · exact valueErrors_ok ()
  · exact valueErrors_error _

/-- The check of a range raises a `ValueError`. -/
theorem requireInt_errors {name : String} {value minimum maximum : Int} :
    ValueErrors (requireInt name value minimum maximum) := by
  unfold requireInt
  split
  · exact valueErrors_ok ()
  · exact valueErrors_error _

/-- The call of a constructor raises what its check raises. -/
theorem constructing_errors {check : Except PythonError Unit} {build : check = .ok () → Value}
    (checked : ValueErrors check) : ValueErrors (constructing check build) := by
  cases check with
  | error error => exact fun other same => checked other (congrArg _ (Except.error.inj same))
  | ok _ => exact valueErrors_ok _

/-- A field that is present raises what its reader raises. -/
theorem field_errors {parse : PyValue → String → Except PythonError Value} {entries : Entries}
    {expected : List String} (keys : keysEqual entries expected = true) {name : String}
    (inside : name ∈ expected) (parsed : ∀ raw name, ValueErrors (parse raw name)) :
    ValueErrors (field parse entries name) := by
  obtain ⟨entry, present, same⟩ := List.mem_map.mp ((keysEqual_iff.mp keys name).mpr inside)
  unfold field subscript
  cases found : entries.lookup name with
  | none =>
    have missing := List.lookup_eq_none_iff.mp found entry present
    exact absurd same.symm (bne_iff_ne.mp missing)
  | some raw =>
    rw [pythonOk_bind]
    exact parsed raw name

/-- The reading of an integer raises a `ValueError`. -/
theorem intOfDigits_errors {text : List Char} : ValueErrors (intOfDigits text) := by
  unfold intOfDigits
  split
  · exact valueErrors_error _
  · exact valueErrors_ok _

/-- The reading of a signed integer raises a `ValueError`. -/
theorem intOfSigned_errors {text : List Char} : ValueErrors (intOfSigned text) := by
  unfold intOfSigned
  split
  · exact valueErrors_bind intOfDigits_errors fun value _ => valueErrors_ok _
  · exact intOfDigits_errors

/-- The reading of a string raises a `ValueError`. -/
theorem stringValue_errors {raw : PyValue} {name : String} :
    ValueErrors (stringValue raw name) := by
  cases raw with
  | str text => exact valueErrors_ok text
  | _ => exact valueErrors_error _

/-- `_decimal` raises a `ValueError`. -/
theorem decimalValue_errors (raw : PyValue) (name : String) :
    ValueErrors (decimalValue raw name) := by
  refine valueErrors_bind stringValue_errors fun text _ => ?_
  split
  · exact valueErrors_error _
  · exact intOfDigits_errors

/-- `_signed_decimal` raises a `ValueError`. -/
theorem signedDecimalValue_errors (raw : PyValue) (name : String) :
    ValueErrors (signedDecimalValue raw name) := by
  refine valueErrors_bind stringValue_errors fun text _ => ?_
  simp only
  split
  · exact valueErrors_error _
  · split
    · exact valueErrors_error _
    · exact intOfSigned_errors

/-- `_json_int` raises a `ValueError`. -/
theorem jsonInt_errors (raw : PyValue) (name : String) : ValueErrors (jsonInt raw name) := by
  cases raw with
  | int value => exact valueErrors_ok value
  | _ => exact valueErrors_error _

/-- `_mapping` raises a `ValueError`. -/
theorem mappingValue_errors (raw : PyValue) (name : String) :
    ValueErrors (mappingValue raw name) := by
  cases raw with
  | dict entries => exact valueErrors_ok entries
  | _ => exact valueErrors_error _

/-- The call of an enumeration raises a `ValueError`. -/
theorem memberOf_errors {members : List Value} {valueOf : Value → String} {enumeration : String}
    (raw : PyValue) (name : String) :
    ValueErrors (memberOf members valueOf enumeration raw name) := by
  refine valueErrors_bind stringValue_errors fun text _ => ?_
  split
  · exact valueErrors_ok _
  · exact valueErrors_error _

/-- `_decimal` of the routed workloads raises a `ValueError`. -/
theorem boundedDecimal_errors {maximum : Int} (raw : PyValue) (name : String) :
    ValueErrors (boundedDecimal maximum raw name) := by
  cases raw with
  | str text =>
    unfold boundedDecimal
    simp only
    split
    · exact valueErrors_error _
    · refine valueErrors_bind intOfDigits_errors fun parsed _ => ?_
      split
      · exact valueErrors_ok _
      · exact valueErrors_error _
  | _ => exact valueErrors_error _

/-- `_signed_decimal` of the routed workloads raises a `ValueError`. -/
theorem boundedSigned_errors (raw : PyValue) (name : String) :
    ValueErrors (boundedSigned raw name) := by
  cases raw with
  | str text =>
    rw [boundedSigned_str]
    split
    · exact valueErrors_error _
    · refine valueErrors_bind intOfSigned_errors fun parsed _ => ?_
      split
      · exact valueErrors_ok _
      · exact valueErrors_error _
  | _ => exact valueErrors_error _

/-- `_json_u8` raises a `ValueError`. -/
theorem jsonByte_errors (raw : PyValue) (name : String) : ValueErrors (jsonByte raw name) := by
  cases raw with
  | int value =>
    unfold jsonByte
    simp only
    split
    · exact valueErrors_ok value
    · exact valueErrors_error _
  | _ => exact valueErrors_error _

/-- The reading of an optional price raises a `ValueError`. -/
theorem optionalPrice_errors (raw : PyValue) (name : String) :
    ValueErrors (optionalPrice raw name) := by
  cases raw with
  | none => exact valueErrors_ok none
  | _ => exact valueErrors_bind (boundedSigned_errors _ name) fun price _ => valueErrors_ok _

/-- The comparison of a schema raises a `ValueError` when the field is there. -/
theorem requireSchema_errors {entries : Entries} {schema message : String}
    {expected : List String} (keys : keysEqual entries expected = true)
    (inside : "schema" ∈ expected) : ValueErrors (requireSchema entries schema message) := by
  have present : ValueErrors (subscript entries "schema") := by
    have read : ValueErrors (field (fun raw _ => .ok raw) entries "schema") :=
      field_errors keys inside fun raw _ => valueErrors_ok raw
    unfold field at read
    cases found : subscript entries "schema" with
    | ok raw => exact valueErrors_ok raw
    | error error =>
      rw [found] at read
      exact fun other same => read other (congrArg _ (Except.error.inj same))
  refine valueErrors_bind present fun raw _ => ?_
  cases raw with
  | str text => exact requireThat_errors
  | _ => exact valueErrors_error _

/-- The reading of an engine raises a `ValueError`. -/
theorem engineFromDict_errors {entries : Entries} (keys : keysEqual entries engineKeys = true) :
    ValueErrors (engineFromDict entries) := by
  unfold engineFromDict
  refine valueErrors_bind (field_errors keys (by decide) decimalValue_errors) fun _ _ => ?_
  refine valueErrors_bind (field_errors keys (by decide) signedDecimalValue_errors) fun _ _ => ?_
  refine valueErrors_bind (field_errors keys (by decide) decimalValue_errors) fun _ _ => ?_
  refine constructing_errors (valueErrors_bind requireU64_errors fun _ _ => ?_)
  refine valueErrors_bind requireI64_errors fun _ _ => ?_
  exact valueErrors_bind requireThat_errors fun _ _ => requireU64_errors

/-- The reading of the weights raises a `ValueError`. -/
theorem weightsFromDict_errors {entries : Entries} (keys : keysEqual entries weightKeys = true) :
    ValueErrors (weightsFromDict entries) := by
  unfold weightsFromDict
  refine valueErrors_bind (field_errors keys (by decide) jsonInt_errors) fun _ _ => ?_
  refine valueErrors_bind (field_errors keys (by decide) jsonInt_errors) fun _ _ => ?_
  refine valueErrors_bind (field_errors keys (by decide) jsonInt_errors) fun _ _ => ?_
  refine constructing_errors (valueErrors_bind requireInt_errors fun _ _ => ?_)
  refine valueErrors_bind requireInt_errors fun _ _ => ?_
  exact valueErrors_bind requireInt_errors fun _ _ => requireThat_errors

/-- The checks of a specification raise a `ValueError`. -/
theorem WorkloadFields.check_errors (fields : WorkloadFields) : ValueErrors fields.check := by
  unfold WorkloadFields.check
  refine valueErrors_bind requireInt_errors fun _ _ => ?_
  refine valueErrors_bind requireInt_errors fun _ _ => ?_
  refine valueErrors_bind requireInt_errors fun _ _ => ?_
  refine valueErrors_bind requireInt_errors fun _ _ => ?_
  refine valueErrors_bind requireInt_errors fun _ _ => ?_
  refine valueErrors_bind requireInt_errors fun _ _ => ?_
  refine valueErrors_bind requireInt_errors fun _ _ => ?_
  refine valueErrors_bind requireThat_errors fun _ _ => ?_
  refine valueErrors_bind requireInt_errors fun _ _ => ?_
  refine valueErrors_bind requireInt_errors fun _ _ => ?_
  exact valueErrors_bind requireInt_errors fun _ _ => requireInt_errors

/-- `spec_from_dict` raises a `ValueError`. -/
theorem specFromDict_errors (entries : Entries) : ValueErrors (specFromDict entries) := by
  unfold specFromDict
  refine valueErrors_bind requireThat_errors fun _ keyed => ?_
  have keys := requireThat_eq_ok.mp keyed
  refine valueErrors_bind (requireSchema_errors keys (by decide)) fun _ _ => ?_
  refine valueErrors_bind (field_errors keys (by decide) mappingValue_errors) fun engine _ => ?_
  refine valueErrors_bind requireThat_errors fun _ engineKeyed => ?_
  refine valueErrors_bind (field_errors keys (by decide) mappingValue_errors) fun weights _ => ?_
  refine valueErrors_bind requireThat_errors fun _ weightsKeyed => ?_
  refine valueErrors_bind (field_errors keys (by decide) decimalValue_errors) fun _ _ => ?_
  refine valueErrors_bind (field_errors keys (by decide) decimalValue_errors) fun _ _ => ?_
  refine valueErrors_bind (engineFromDict_errors (requireThat_eq_ok.mp engineKeyed))
    fun _ _ => ?_
  refine valueErrors_bind (field_errors keys (by decide) memberOf_errors) fun _ _ => ?_
  refine valueErrors_bind (field_errors keys (by decide) memberOf_errors) fun _ _ => ?_
  refine valueErrors_bind (weightsFromDict_errors (requireThat_eq_ok.mp weightsKeyed))
    fun _ _ => ?_
  refine valueErrors_bind (field_errors keys (by decide) jsonInt_errors) fun _ _ => ?_
  refine valueErrors_bind (field_errors keys (by decide) jsonInt_errors) fun _ _ => ?_
  refine valueErrors_bind (field_errors keys (by decide) jsonInt_errors) fun _ _ => ?_
  refine valueErrors_bind (field_errors keys (by decide) jsonInt_errors) fun _ _ => ?_
  refine valueErrors_bind (field_errors keys (by decide) signedDecimalValue_errors) fun _ _ => ?_
  refine valueErrors_bind (field_errors keys (by decide) jsonInt_errors) fun _ _ => ?_
  refine valueErrors_bind (field_errors keys (by decide) decimalValue_errors) fun _ _ => ?_
  refine valueErrors_bind (field_errors keys (by decide) jsonInt_errors) fun _ _ => ?_
  refine valueErrors_bind (field_errors keys (by decide) decimalValue_errors) fun _ _ => ?_
  exact constructing_errors (WorkloadFields.check_errors _)

/-- The reading of the streams raises a `ValueError`. -/
theorem streamsFromList_errors (index : Nat) (items : List PyValue) :
    ValueErrors (streamsFromList index items) := by
  induction items generalizing index with
  | nil => exact valueErrors_ok []
  | cons item rest ih =>
    cases item with
    | dict entries =>
      rw [streamsFromList_cons]
      refine valueErrors_bind (specFromDict_errors entries) fun _ _ => ?_
      exact valueErrors_bind (ih (index + 1)) fun _ _ => valueErrors_ok _
    | _ => exact valueErrors_error _

/-- The reading of the capacity raises a `ValueError`. -/
theorem capacityValue_errors (raw : PyValue) (name : String) :
    ValueErrors (capacityValue raw name) := by
  cases raw with
  | str text =>
    unfold capacityValue
    simp only
    split
    · exact valueErrors_error _
    · refine valueErrors_bind intOfDigits_errors fun capacity _ => ?_
      split
      · exact valueErrors_ok capacity
      · exact valueErrors_error _
  | _ => exact valueErrors_error _

/-- The reading of the array of streams raises a `ValueError`. -/
theorem streamsValue_errors (raw : PyValue) (name : String) :
    ValueErrors (streamsValue raw name) := by
  cases raw with
  | list items => exact valueErrors_ok items
  | _ => exact valueErrors_error _

/-- `multi_spec_from_dict` raises a `ValueError`. -/
theorem multiSpecFromDict_errors (entries : Entries) :
    ValueErrors (multiSpecFromDict entries) := by
  unfold multiSpecFromDict
  refine valueErrors_bind requireThat_errors fun _ keyed => ?_
  have keys := requireThat_eq_ok.mp keyed
  refine valueErrors_bind (requireSchema_errors keys (by decide)) fun _ _ => ?_
  refine valueErrors_bind (field_errors keys (by decide) streamsValue_errors) fun _ _ => ?_
  refine valueErrors_bind (field_errors keys (by decide) capacityValue_errors) fun _ _ => ?_
  refine valueErrors_bind (streamsFromList_errors 0 _) fun _ _ => ?_
  refine valueErrors_bind (constructing_errors requireU64_errors) fun _ _ => ?_
  refine constructing_errors (valueErrors_bind requireThat_errors fun _ _ => ?_)
  refine valueErrors_bind requireThat_errors fun _ _ => ?_
  exact valueErrors_bind requireThat_errors fun _ _ => requireThat_errors

/-- `command_from_dict` raises a `ValueError`. -/
theorem commandFromDict_errors (entries : Entries) : ValueErrors (commandFromDict entries) := by
  unfold commandFromDict
  split
  · split
    · unfold newOrderFromDict
      refine valueErrors_bind requireThat_errors fun _ keyed => ?_
      have keys := requireThat_eq_ok.mp keyed
      refine valueErrors_bind (field_errors keys (by decide) boundedDecimal_errors) fun _ _ => ?_
      refine valueErrors_bind (field_errors keys (by decide) boundedDecimal_errors) fun _ _ => ?_
      refine valueErrors_bind (field_errors keys (by decide) boundedDecimal_errors) fun _ _ => ?_
      refine valueErrors_bind (field_errors keys (by decide) jsonByte_errors) fun _ _ => ?_
      refine valueErrors_bind (field_errors keys (by decide) jsonByte_errors) fun _ _ => ?_
      refine valueErrors_bind (field_errors keys (by decide) jsonByte_errors) fun _ _ => ?_
      refine valueErrors_bind (field_errors keys (by decide) optionalPrice_errors) fun _ _ => ?_
      exact valueErrors_bind (field_errors keys (by decide) boundedDecimal_errors)
        fun _ _ => valueErrors_ok _
    · split
      · unfold cancelFromDict
        refine valueErrors_bind requireThat_errors fun _ keyed => ?_
        have keys := requireThat_eq_ok.mp keyed
        refine valueErrors_bind (field_errors keys (by decide) boundedDecimal_errors)
          fun _ _ => ?_
        refine valueErrors_bind (field_errors keys (by decide) boundedDecimal_errors)
          fun _ _ => ?_
        exact valueErrors_bind (field_errors keys (by decide) boundedDecimal_errors)
          fun _ _ => valueErrors_ok _
      · split
        · unfold replaceFromDict
          refine valueErrors_bind requireThat_errors fun _ keyed => ?_
          have keys := requireThat_eq_ok.mp keyed
          refine valueErrors_bind (field_errors keys (by decide) boundedDecimal_errors)
            fun _ _ => ?_
          refine valueErrors_bind (field_errors keys (by decide) boundedDecimal_errors)
            fun _ _ => ?_
          refine valueErrors_bind (field_errors keys (by decide) boundedDecimal_errors)
            fun _ _ => ?_
          refine valueErrors_bind (field_errors keys (by decide) boundedDecimal_errors)
            fun _ _ => ?_
          refine valueErrors_bind (field_errors keys (by decide) boundedSigned_errors)
            fun _ _ => ?_
          exact valueErrors_bind (field_errors keys (by decide) boundedDecimal_errors)
            fun _ _ => valueErrors_ok _
        · exact valueErrors_error _
  · exact valueErrors_error _

/-- The reading of an object raises a `ValueError`. -/
theorem objectValue_errors {message : String} (raw : PyValue) (name : String) :
    ValueErrors (objectValue message raw name) := by
  cases raw with
  | dict entries => exact valueErrors_ok entries
  | _ => exact valueErrors_error _

/-- The reading of the digest raises a `ValueError`. -/
theorem digestValue_errors (raw : PyValue) (name : String) :
    ValueErrors (digestValue raw name) := by
  cases raw with
  | str text => exact valueErrors_ok text
  | _ => exact valueErrors_error _

/-- The reading of the generator version raises a `ValueError`. -/
theorem versionValue_errors (raw : PyValue) (name : String) :
    ValueErrors (versionValue raw name) := by
  cases raw with
  | int value => exact valueErrors_ok value
  | _ => exact valueErrors_error _

/-- The reading of the intents raises a `ValueError`. -/
theorem intentsFromDict_errors (entries : Entries) : ValueErrors (intentsFromDict entries) := by
  induction entries with
  | nil => exact valueErrors_ok []
  | cons entry rest ih =>
    refine valueErrors_bind (boundedDecimal_errors entry.2 _) fun _ _ => ?_
    exact valueErrors_bind ih fun _ _ => valueErrors_ok _

/-- The checks of a manifest raise a `ValueError`. -/
theorem ManifestFields.check_errors (fields : ManifestFields) : ValueErrors fields.check := by
  unfold ManifestFields.check
  refine valueErrors_bind requireThat_errors fun _ _ => ?_
  refine valueErrors_bind requireThat_errors fun _ _ => ?_
  refine valueErrors_bind requireThat_errors fun _ _ => ?_
  refine valueErrors_bind requireThat_errors fun _ _ => ?_
  refine valueErrors_bind requireThat_errors fun _ _ => ?_
  refine valueErrors_bind requireThat_errors fun _ _ => ?_
  refine valueErrors_bind requireThat_errors fun _ _ => ?_
  refine valueErrors_bind requireThat_errors fun _ _ => ?_
  exact valueErrors_bind requireThat_errors fun _ _ => requireThat_errors

/-- `multi_manifest_from_dict` raises a `ValueError`. -/
theorem multiManifestFromDict_errors (entries : Entries) :
    ValueErrors (multiManifestFromDict entries) := by
  unfold multiManifestFromDict
  refine valueErrors_bind requireThat_errors fun _ keyed => ?_
  have keys := requireThat_eq_ok.mp keyed
  refine valueErrors_bind (requireSchema_errors keys (by decide)) fun _ _ => ?_
  refine valueErrors_bind (field_errors keys (by decide) objectValue_errors) fun counts _ => ?_
  refine valueErrors_bind requireThat_errors fun _ countKeyed => ?_
  have inner := requireThat_eq_ok.mp countKeyed
  refine valueErrors_bind (field_errors inner (by decide) objectValue_errors) fun _ _ => ?_
  refine valueErrors_bind requireThat_errors fun _ _ => ?_
  refine valueErrors_bind (field_errors keys (by decide) boundedDecimal_errors) fun _ _ => ?_
  refine valueErrors_bind (field_errors inner (by decide) boundedDecimal_errors) fun _ _ => ?_
  refine valueErrors_bind (field_errors inner (by decide) boundedDecimal_errors) fun _ _ => ?_
  refine valueErrors_bind (field_errors inner (by decide) boundedDecimal_errors) fun _ _ => ?_
  refine valueErrors_bind (field_errors inner (by decide) boundedDecimal_errors) fun _ _ => ?_
  refine valueErrors_bind (field_errors inner (by decide) boundedDecimal_errors) fun _ _ => ?_
  refine valueErrors_bind (intentsFromDict_errors _) fun _ _ => ?_
  refine valueErrors_bind (field_errors keys (by decide) objectValue_errors) fun _ _ => ?_
  refine valueErrors_bind (field_errors keys (by decide) digestValue_errors) fun _ _ => ?_
  refine valueErrors_bind (field_errors keys (by decide) versionValue_errors) fun _ _ => ?_
  refine valueErrors_bind (field_errors keys (by decide) boundedDecimal_errors) fun _ _ => ?_
  refine valueErrors_bind (multiSpecFromDict_errors _) fun _ _ => ?_
  exact constructing_errors (ManifestFields.check_errors _)

end Errors

section Spelling

/-- What is accepted from a dictionary is spelled as in it exactly when its strings are ASCII, for
specifications and manifests, and always for commands. What is refused is a `ValueError`. Every
specification is read back, a manifest when its counts are natural numbers and a command when it is
representable. -/
theorem persisted_spelling_iff {entries : Entries} (canonical : PyValue.Canonical (.dict entries)) :
    (ValueErrors (specFromDict entries) ∧ ∀ spec, specFromDict entries = .ok spec →
        (specToDict spec = .dict entries ↔ PyValue.Ascii (.dict entries))) ∧
      (ValueErrors (multiSpecFromDict entries) ∧ ∀ spec, multiSpecFromDict entries = .ok spec →
        (multiSpecToDict spec = .dict entries ↔ PyValue.Ascii (.dict entries))) ∧
      (ValueErrors (multiManifestFromDict entries) ∧
        ∀ manifest, multiManifestFromDict entries = .ok manifest →
          (multiManifestToDict manifest = .dict entries ↔ PyValue.Ascii (.dict entries))) ∧
      (ValueErrors (commandFromDict entries) ∧
        ∀ command, commandFromDict entries = .ok command →
          commandToDict command = .dict entries) ∧
      (∀ spec, specFromDict (specToDict spec).entries = .ok spec) ∧
      (∀ spec, multiSpecFromDict (multiSpecToDict spec).entries = .ok spec) ∧
      (∀ manifest, multiManifestFromDict (multiManifestToDict manifest).entries = .ok manifest ↔
        manifest.stats.Natural) ∧
      ∀ command, commandFromDict (commandToDict command).entries = .ok command ↔
        command.Representable := by
  refine ⟨⟨specFromDict_errors entries, fun spec read => ?_⟩,
    ⟨multiSpecFromDict_errors entries, fun spec read => ⟨?_, fun ascii => ?_⟩⟩,
    ⟨multiManifestFromDict_errors entries, fun manifest read => ⟨?_, fun ascii => ?_⟩⟩,
    ⟨commandFromDict_errors entries, fun command read => ?_⟩,
    specFromDict_specToDict, multiSpecFromDict_multiSpecToDict,
    fun manifest => ⟨fun read => ?_, multiManifestFromDict_multiManifestToDict manifest⟩,
    fun command => ⟨fun read => ?_, commandFromDict_commandToDict⟩⟩
  · exact specFromDict_spelling_iff canonical read
  · exact fun same => same ▸ multiSpecToDict_ascii spec
  · exact multiSpecFromDict_strict canonical ascii read
  · exact fun same => same ▸ multiManifestToDict_ascii manifest
  · exact (multiManifestFromDict_strict canonical read).2 ascii
  · exact (commandFromDict_strict canonical.ordered read).1
  · exact (multiManifestFromDict_strict (multiManifestToDict_canonical manifest) read).1
  · exact (commandFromDict_strict (commandToDict_ordered command) read).2

/-- A specification of a number of commands. -/
def countedEntries (count : String) : Entries :=
  [("active_order_target", .str "0"), ("aggressive_basis_points", .int 0),
    ("boundary_quantity_basis_points", .int 0), ("client_count", .int 1),
    ("command_count", .str count),
    ("engine", .dict [("max_active_orders", .str "8"), ("max_order_quantity", .str "5"),
      ("tick_increment", .str "1")]),
    ("instrument_id", .str "1"), ("invalid_basis_points", .int 0),
    ("market_basis_points", .int 0), ("mid_price", .str "100"),
    ("operation_weights", .dict [("cancel", .int 0), ("new", .int 1), ("replace", .int 0)]),
    ("price_model", .str "uniform"), ("price_span_ticks", .int 1),
    ("profile", .str "uniform_synthetic"), ("schema", .str "atlas_workload_spec_v1"),
    ("snapshot_interval", .str "1")]

/-- It is a dictionary. -/
theorem countedEntries_canonical (count : String) :
    PyValue.Canonical (.dict (countedEntries count)) := by
  refine .dict _ ?_ fun entry inside => ?_
  · have names : ((countedEntries "").map Prod.fst).Pairwise (· < ·) := by
      decide +kernel
    exact List.pairwise_map.mp (show ((countedEntries count).map Prod.fst).Pairwise _ from names)
  · simp only [countedEntries, List.mem_cons, List.not_mem_nil, or_false] at inside
    rcases inside with rfl | rfl | rfl | rfl | rfl | rfl | rfl | rfl | rfl | rfl | rfl | rfl |
      rfl | rfl | rfl | rfl
    · exact .str _
    · exact .int _
    · exact .int _
    · exact .int _
    · exact .str _
    · refine .dict _ ?_ fun entry inside => ?_
      · unfold Ordered
        decide +kernel
      · simp only [List.mem_cons, List.not_mem_nil, or_false] at inside
        rcases inside with rfl | rfl | rfl <;> exact .str _
    · exact .str _
    · exact .int _
    · exact .int _
    · exact .str _
    · refine .dict _ ?_ fun entry inside => ?_
      · unfold Ordered
        decide +kernel
      · simp only [List.mem_cons, List.not_mem_nil, or_false] at inside
        rcases inside with rfl | rfl | rfl <;> exact .int _
    · exact .str _
    · exact .int _
    · exact .str _
    · exact .str _
    · exact .str _

/-- Its strings are ASCII if the count is. -/
theorem countedEntries_ascii {count : String} (ascii : isAscii count.toList = true) :
    PyValue.Ascii (.dict (countedEntries count)) := by
  refine .dict _ fun entry inside => ?_
  simp only [countedEntries, List.mem_cons, List.not_mem_nil, or_false] at inside
  rcases inside with rfl | rfl | rfl | rfl | rfl | rfl | rfl | rfl | rfl | rfl | rfl | rfl |
    rfl | rfl | rfl | rfl
  · exact .str _ (by decide +kernel)
  · exact .int _
  · exact .int _
  · exact .int _
  · exact .str _ ascii
  · refine .dict _ fun entry inside => ?_
    simp only [List.mem_cons, List.not_mem_nil, or_false] at inside
    rcases inside with rfl | rfl | rfl <;> exact .str _ (by decide +kernel)
  · exact .str _ (by decide +kernel)
  · exact .int _
  · exact .int _
  · exact .str _ (by decide +kernel)
  · refine .dict _ fun entry inside => ?_
    simp only [List.mem_cons, List.not_mem_nil, or_false] at inside
    rcases inside with rfl | rfl | rfl <;> exact .int _
  · exact .str _ (by decide +kernel)
  · exact .int _
  · exact .str _ (by decide +kernel)
  · exact .str _ (by decide +kernel)
  · exact .str _ (by decide +kernel)

/-- It is accepted with a digit of either script as its count. -/
theorem countedEntries_accepted {count : String} (digit : count = "3" ∨ count = "٣") :
    ∃ spec, specFromDict (countedEntries count) = .ok spec := by
  have some : (specFromDict (countedEntries count)).toOption.isSome = true := by
    rcases digit with rfl | rfl <;> decide +kernel
  cases read : specFromDict (countedEntries count) with
  | ok spec => exact ⟨spec, rfl⟩
  | error error =>
    rw [read] at some
    exact absurd some Bool.false_ne_true

/-- The specification whose count is written with an Arabic digit. -/
def arabicEntries : Entries := countedEntries "٣"

/-- The Arabic specification is not ASCII. -/
theorem arabicEntries_not_ascii : ¬PyValue.Ascii (.dict arabicEntries) := by
  intro ascii
  have found : arabicEntries.lookup "command_count" = some (.str "٣") := rfl
  have text := (ascii.at (countedEntries_canonical "٣").ordered found).text "٣" rfl
  exact absurd text (by decide +kernel)

/-- The Arabic specification is accepted and not spelled as it is written. -/
theorem specFromDict_accepts_arabic :
    ∃ spec, specFromDict arabicEntries = .ok spec ∧ specToDict spec ≠ .dict arabicEntries := by
  obtain ⟨spec, read⟩ := countedEntries_accepted (.inr rfl)
  refine ⟨spec, read, fun same => arabicEntries_not_ascii ?_⟩
  rw [← same]
  exact specToDict_ascii spec

/-- The specification with the Arabic digit is accepted and spelled otherwise; with the ASCII digit
it is spelled as it is written. -/
theorem persisted_spelling_digits :
    (∃ spec, specFromDict arabicEntries = .ok spec ∧ specToDict spec ≠ .dict arabicEntries) ∧
      ∃ spec, specFromDict (countedEntries "3") = .ok spec ∧
        specToDict spec = .dict (countedEntries "3") := by
  obtain ⟨arabic, readArabic⟩ := countedEntries_accepted (.inr rfl)
  obtain ⟨plain, readPlain⟩ := countedEntries_accepted (.inl rfl)
  have lawArabic := (persisted_spelling_iff (countedEntries_canonical "٣")).1.2 arabic readArabic
  have lawPlain := (persisted_spelling_iff (countedEntries_canonical "3")).1.2 plain readPlain
  exact ⟨⟨arabic, readArabic, fun same => arabicEntries_not_ascii (lawArabic.mp same)⟩,
    plain, readPlain, lawPlain.mpr (countedEntries_ascii (by decide +kernel))⟩

end Spelling

end AtlasLob.Oracle
