import AtlasLob.Core.SnapshotNames

/-!
# Snapshot names are canonical and the newest snapshot is selected

A name is read back as the sequence it was built from, and nothing else is read. The candidates of
a directory are tried from the newest to the oldest, so that the first that can be used is the
newest that can.
-/

namespace AtlasLob

open Binary

section Names

/-- Half bytes have different digits. -/
theorem hexDigit_injective {left right : UInt8} (leftSmall : left.toNat < 16)
    (rightSmall : right.toNat < 16) (same : hexDigit left = hexDigit right) : left = right := by
  have table : ∀ first < 16, ∀ second < 16,
      hexDigits.getD first '0' = hexDigits.getD second '0' → first = second := by
    decide
  exact UInt8.toNat_inj.mp (table left.toNat leftSmall right.toNat rightSmall same)

/-- The digits of a byte, as numbers. -/
theorem nibbles_toNat (byte : UInt8) :
    ((byte >>> 4) &&& 0x0f).toNat = byte.toNat / 16 ∧ (byte &&& 0x0f).toNat = byte.toNat % 16 := by
  have small : byte.toNat < 256 := byte.toNat_lt
  have mask : (0x0f : UInt8).toNat = 2 ^ 4 - 1 := rfl
  have four : (4 : UInt8).toNat % 8 = 4 := rfl
  constructor
  · rw [UInt8.toNat_and, UInt8.toNat_shiftRight, four, mask, Nat.and_two_pow_sub_one_eq_mod,
      Nat.shiftRight_eq_div_pow]
    omega
  · rw [UInt8.toNat_and, mask, Nat.and_two_pow_sub_one_eq_mod]

/-- A byte is known from its digits. -/
theorem byteHex_injective {left right : UInt8} (same : byteHex left = byteHex right) :
    left = right := by
  obtain ⟨high, low⟩ := List.cons_eq_cons.mp same
  obtain ⟨leftHigh, leftLow⟩ := nibbles_toNat left
  obtain ⟨rightHigh, rightLow⟩ := nibbles_toNat right
  have leftSmall : left.toNat < 256 := left.toNat_lt
  have rightSmall : right.toNat < 256 := right.toNat_lt
  have highSame := hexDigit_injective (by omega) (by omega) high
  have lowSame := hexDigit_injective (by omega) (by omega) (List.head_eq_of_cons_eq low)
  apply UInt8.toNat_inj.mp
  rw [highSame] at leftHigh
  rw [lowSame] at leftLow
  omega

/-- Bytes are known from their digits. -/
theorem hexBytes_injective {left right : List UInt8}
    (same : left.flatMap byteHex = right.flatMap byteHex) : left = right := by
  induction left generalizing right with
  | nil =>
    cases right with
    | nil => rfl
    | cons _ _ => exact absurd same (List.cons_ne_nil _ _).symm
  | cons first rest ih =>
    cases right with
    | nil => exact absurd same (List.cons_ne_nil _ _)
    | cons other others =>
      rw [List.flatMap_cons, List.flatMap_cons] at same
      obtain ⟨digits, remaining⟩ := List.append_inj same rfl
      rw [byteHex_injective digits, ih remaining]

/-- Logs have different digits. -/
theorem logIdHex_injective {left right : LogId} (same : logIdHex left = logIdHex right) :
    left = right :=
  Block.ext (hexBytes_injective same)

/-- The digits of a log are thirty-two. -/
theorem logIdHex_length (logId : LogId) : (logIdHex logId).length = 32 := by
  unfold logIdHex
  have each : ∀ byte, (byteHex byte).length = 2 := fun _ => rfl
  rw [List.length_flatMap]
  simp only [each, List.map_const', List.sum_replicate, logId.size]
  rfl

/-- The beginning of a name holds no dot. -/
theorem dot_notMem_snapshotStart (logId : LogId) : '.' ∉ snapshotStart logId := by
  have digits : '.' ∉ hexDigits := by
    decide
  have digit : ∀ nibble : UInt8, nibble.toNat < 16 → hexDigit nibble ∈ hexDigits := by
    intro nibble small
    unfold hexDigit
    rw [List.getD_eq_getElem _ _ (show nibble.toNat < hexDigits.length from small)]
    exact List.getElem_mem _
  intro inside
  rcases List.mem_append.mp inside with front | dash
  · rcases List.mem_append.mp front with letters | hex
    · exact absurd letters (by decide)
    · obtain ⟨byte, _, found⟩ := List.mem_flatMap.mp hex
      obtain ⟨high, low⟩ := nibbles_toNat byte
      have small : byte.toNat < 256 := byte.toNat_lt
      rcases List.mem_pair.mp found with same | same
      · exact digits (same ▸ digit _ (by omega))
      · exact digits (same ▸ digit _ (by omega))
  · exact absurd dash (by decide)

/-- A sequence is written in twenty digits. -/
theorem paddedSequence_eq (sequence : Sequence) :
    paddedSequence sequence = .ok (Decimal.padded 20 sequence.toNat) := by
  have small : sequence.toNat < 10 ^ 20 := by
    have bound : sequence.toNat < 2 ^ 64 := sequence.toNat_lt
    omega
  have length := (Decimal.text_length_le (by decide : 0 < 20)).mpr small
  unfold paddedSequence
  simp only
  rw [if_neg (by omega)]
  rfl

/-- The name of a snapshot. -/
def snapshotName (logId : LogId) (sequence : Sequence) : List Char :=
  snapshotStart logId ++ Decimal.padded 20 sequence.toNat ++ snapshotSuffix

/-- The path of a snapshot is its name in the directory. -/
theorem finalSnapshotPath_eq (directory : List Char) (logId : LogId) (sequence : Sequence) :
    finalSnapshotPath directory logId sequence = .ok ⟨directory, snapshotName logId sequence⟩ := by
  unfold finalSnapshotPath
  rw [paddedSequence_eq]
  rfl

/-- The twenty digits of a sequence are twenty. -/
theorem padded_sequence_length (sequence : Sequence) :
    (Decimal.padded 20 sequence.toNat).length = 20 := by
  have bound : sequence.toNat < 2 ^ 64 := sequence.toNat_lt
  exact Decimal.padded_length (by decide) (by omega)

/-- The digits of a word are read whole. -/
theorem fromChars_padded (sequence : Sequence) :
    fromChars (Decimal.padded 20 sequence.toNat) = (20, .ok sequence) := by
  have bound : sequence.toNat < 2 ^ 64 := sequence.toNat_lt
  have length := padded_sequence_length sequence
  have all : (Decimal.padded 20 sequence.toNat).takeWhile Char.isDigit =
      Decimal.padded 20 sequence.toNat :=
    List.takeWhile_eq_self_iff.mpr fun _ inside => Decimal.isDigit_of_mem_padded inside
  have filled : Decimal.padded 20 sequence.toNat ≠ [] := by
    intro none
    rw [none] at length
    exact absurd length (by decide)
  unfold fromChars
  simp only
  rw [all, if_neg filled, Decimal.value_padded, if_pos bound, length, UInt64.ofNat_toNat]

/-- A text is read whole when it consists of digits and fits the word. -/
theorem fromChars_whole {text : List Char} {value : UInt64}
    (read : fromChars text = (text.length, .ok value)) :
    text ≠ [] ∧ (∀ character ∈ text, character.isDigit = true) ∧
      Decimal.value text = value.toNat := by
  unfold fromChars at read
  simp only at read
  split at read
  · exact absurd (congrArg Prod.snd read) nofun
  · next filled =>
    split at read
    · next small =>
      obtain ⟨length, same⟩ := Prod.mk.inj read
      have whole : text.takeWhile Char.isDigit = text :=
        (List.takeWhile_prefix _).eq_of_length length
      rw [whole] at filled small same
      refine ⟨filled, List.takeWhile_eq_self_iff.mp whole, ?_⟩
      rw [← Except.ok.inj same, UInt64.toNat_ofNat_of_lt' small]
    · exact absurd (congrArg Prod.snd read) nofun

/-- A name that begins and ends like a snapshot's has its digits between. -/
theorem name_parts {filename : List Char} {logId : LogId}
    (begins : (snapshotStart logId).isPrefixOf filename = true)
    (ends : snapshotSuffix.isSuffixOf filename = true) :
    ∃ digits, filename = snapshotStart logId ++ digits ++ snapshotSuffix := by
  obtain ⟨rest, whole⟩ := List.isPrefixOf_iff_prefix.mp begins
  obtain ⟨front, other⟩ := List.isSuffixOf_iff_suffix.mp ends
  by_cases long : (snapshotStart logId).length ≤ front.length
  · have split : snapshotStart logId <+: front :=
      List.prefix_of_prefix_length_le ⟨rest, whole⟩ ⟨snapshotSuffix, other⟩ long
    obtain ⟨digits, same⟩ := split
    exact ⟨digits, by rw [same, other]⟩
  -- Otherwise the dot of the suffix would lie inside the beginning of the name.
  · have dotted : front ++ ['.'] <+: filename :=
      ⟨snapshotSuffix.tail, by rw [List.append_assoc]; exact other⟩
    have inside : front ++ ['.'] <+: snapshotStart logId := by
      apply List.prefix_of_prefix_length_le dotted ⟨rest, whole⟩
      rw [List.length_append, List.length_singleton]
      omega
    exact absurd (inside.subset (List.mem_append_right _ List.mem_cons_self))
      (dot_notMem_snapshotStart logId)

/-- A difference of sizes that does not wrap. -/
theorem sizeDifference_add (left right : Nat) : sizeDifference (left + right) right = left := by
  unfold sizeDifference
  rw [if_pos (Nat.le_add_left right left), Nat.add_sub_cancel]

/-- What is between the beginning and the end of a name. -/
theorem substr_between {start digits suffix : List Char} :
    substr (start ++ digits ++ suffix) start.length
      (sizeDifference (sizeDifference (start ++ digits ++ suffix).length start.length)
        suffix.length) = digits := by
  have total : (start ++ digits ++ suffix).length =
      digits.length + suffix.length + start.length := by
    rw [List.length_append, List.length_append]
    omega
  have count : sizeDifference (sizeDifference (start ++ digits ++ suffix).length start.length)
      suffix.length = digits.length := by
    rw [total, sizeDifference_add, sizeDifference_add]
  unfold substr
  rw [count, List.append_assoc, List.drop_left, List.take_left]

/-- What is between begins and ends like a name. -/
theorem name_recognized (logId : LogId) (digits : List Char) :
    (!(snapshotStart logId).isPrefixOf (snapshotStart logId ++ digits ++ snapshotSuffix) ||
      !snapshotSuffix.isSuffixOf (snapshotStart logId ++ digits ++ snapshotSuffix)) = false := by
  have begins : (snapshotStart logId).isPrefixOf
      (snapshotStart logId ++ digits ++ snapshotSuffix) = true :=
    List.isPrefixOf_iff_prefix.mpr ⟨digits ++ snapshotSuffix, (List.append_assoc _ _ _).symm⟩
  have ends : snapshotSuffix.isSuffixOf
      (snapshotStart logId ++ digits ++ snapshotSuffix) = true :=
    List.isSuffixOf_iff_suffix.mpr ⟨snapshotStart logId ++ digits, rfl⟩
  rw [begins, ends]
  rfl

/-- A name is read as a sequence exactly when it is the name of that sequence. -/
theorem parseSnapshotFilename_eq_some {filename : List Char} {logId : LogId}
    {sequence : Sequence} :
    parseSnapshotFilename filename logId = some sequence ↔
      filename = snapshotName logId sequence := by
  constructor
  · intro read
    unfold parseSnapshotFilename at read
    simp only at read
    split at read
    · exact absurd read nofun
    · next recognized =>
      rw [Bool.or_eq_true, not_or, Bool.not_eq_true', Bool.not_eq_false, Bool.not_eq_true',
        Bool.not_eq_false] at recognized
      obtain ⟨digits, rfl⟩ := name_parts recognized.1 recognized.2
      rw [substr_between] at read
      split at read
      · exact absurd read nofun
      · next twenty =>
        cases parsed : fromChars digits with
        | mk stopped outcome =>
          rw [parsed] at read
          cases outcome with
          | error _ => exact absurd read nofun
          | ok value =>
            simp only at read
            split at read
            · exact absurd read nofun
            · next whole =>
              rw [not_not] at whole twenty
              rw [whole, Option.some.inj read] at parsed
              obtain ⟨filled, all, same⟩ := fromChars_whole parsed
              have padded := Decimal.padded_value filled all
              rw [twenty, same] at padded
              unfold snapshotName
              rw [padded]
  · rintro rfl
    unfold parseSnapshotFilename snapshotName
    simp only
    rw [name_recognized, if_neg Bool.false_ne_true, substr_between, fromChars_padded,
      padded_sequence_length]
    rfl

/-- Different snapshots have different names. -/
theorem snapshotName_injective {leftId rightId : LogId} {left right : Sequence}
    (same : snapshotName leftId left = snapshotName rightId right) :
    leftId = rightId ∧ left = right := by
  unfold snapshotName snapshotStart at same
  simp only [List.append_assoc] at same
  obtain ⟨_, same⟩ := List.append_inj same rfl
  have lengths : (logIdHex leftId).length = (logIdHex rightId).length := by
    rw [logIdHex_length, logIdHex_length]
  obtain ⟨hex, same⟩ := List.append_inj same lengths
  obtain ⟨_, same⟩ := List.append_inj same rfl
  have widths : (Decimal.padded 20 left.toNat).length = (Decimal.padded 20 right.toNat).length := by
    rw [padded_sequence_length, padded_sequence_length]
  obtain ⟨digits, _⟩ := List.append_inj same widths
  refine ⟨logIdHex_injective hex, UInt64.toNat_inj.mp ?_⟩
  rw [← Decimal.value_padded 20 left.toNat, digits, Decimal.value_padded]

end Names

section Candidates

/-- The order of the candidates: newer first, then by name. -/
theorem candidateBefore_iff {left right : SnapshotCandidate} :
    candidateBefore left right = true ↔ right.filenameSequence < left.filenameSequence ∨
      left.filenameSequence = right.filenameSequence ∧
        left.path.filename < right.path.filename := by
  unfold candidateBefore
  by_cases same : left.filenameSequence = right.filenameSequence
  · rw [if_neg (not_not.mpr same), decide_eq_true_iff, same]
    constructor
    · exact fun less => Or.inr ⟨rfl, less⟩
    · rintro (less | less)
      · exact absurd less (UInt64.lt_irrefl _)
      · exact less.2
  · rw [if_pos same, decide_eq_true_iff]
    constructor
    · exact Or.inl
    · rintro (less | less)
      · exact less
      · exact absurd less.1 same

/-- A candidate does not come after another. -/
def NotAfter (left right : SnapshotCandidate) : Prop := ¬candidateBefore right left = true

/-- A candidate that does not come after another is not older, and not behind it by name. -/
theorem notAfter_iff {left right : SnapshotCandidate} :
    NotAfter left right ↔ right.filenameSequence ≤ left.filenameSequence ∧
      (right.filenameSequence = left.filenameSequence →
        left.path.filename ≤ right.path.filename) := by
  unfold NotAfter
  rw [candidateBefore_iff, not_or, not_and, UInt64.not_lt, not_lt]

instance : DecidableRel NotAfter := fun left right =>
  inferInstanceAs (Decidable (¬candidateBefore right left = true))

instance : Std.Total NotAfter where
  total left right := by
    rw [notAfter_iff, notAfter_iff]
    by_cases same : left.filenameSequence = right.filenameSequence
    · cases le_total left.path.filename right.path.filename with
      | inl less => exact Or.inl ⟨UInt64.le_of_eq same.symm, fun _ => less⟩
      | inr less => exact Or.inr ⟨UInt64.le_of_eq same, fun _ => less⟩
    · cases UInt64.le_total left.filenameSequence right.filenameSequence with
      | inl less => exact Or.inr ⟨less, fun equal => absurd equal same⟩
      | inr less => exact Or.inl ⟨less, fun equal => absurd equal.symm same⟩

instance : IsTrans SnapshotCandidate NotAfter where
  trans first second third := by
    rw [notAfter_iff, notAfter_iff, notAfter_iff]
    rintro ⟨newer, named⟩ ⟨next, names⟩
    refine ⟨UInt64.le_trans next newer, fun same => ?_⟩
    have middle : second.filenameSequence = first.filenameSequence :=
      UInt64.le_antisymm newer (same ▸ next)
    have last : third.filenameSequence = second.filenameSequence := same.trans middle.symm
    exact le_trans (named middle) (names last)

/-- The candidate of an entry has its path and is named after its log and its sequence. -/
theorem candidateOf_eq_some {logId : LogId} {entry : DirectoryEntry}
    {candidate : SnapshotCandidate} (found : candidateOf logId entry = some candidate) :
    candidate.path = entry.path ∧
      entry.path.filename = snapshotName logId candidate.filenameSequence := by
  obtain ⟨filename, ascii, found⟩ := Option.bind_eq_some_iff.mp found
  obtain ⟨sequence, read, same⟩ := Option.bind_eq_some_iff.mp found
  unfold asciiFilename at ascii
  split at ascii
  · rw [← Option.some.inj ascii] at read
    rw [← Option.some.inj same]
    exact ⟨rfl, parseSnapshotFilename_eq_some.mp read⟩
  · exact absurd ascii nofun

/-- The candidates of a directory, before they are sorted, have different sequences. -/
theorem candidates_distinct {logId : LogId} {entries : List DirectoryEntry}
    (distinct : (entries.map fun entry => entry.path.filename).Nodup) :
    (entries.filterMap (candidateOf logId)).Pairwise
      fun left right => left.filenameSequence ≠ right.filenameSequence := by
  rw [List.pairwise_filterMap]
  refine (List.pairwise_map.mp distinct).imp
    fun different left leftFound right rightFound same => ?_
  obtain ⟨_, leftName⟩ := candidateOf_eq_some leftFound
  obtain ⟨_, rightName⟩ := candidateOf_eq_some rightFound
  exact different (by rw [leftName, rightName, same])

/-- A directory that is iterated to its end is listed, and no other. -/
theorem listCandidates_ok_iff {listing : DirectoryListing} {logId : LogId}
    {candidates : List SnapshotCandidate} :
    listCandidates (.ok listing) logId = .ok candidates ↔ listing.failure = none ∧
      candidates = (listing.entries.filterMap (candidateOf logId)).insertionSort NotAfter := by
  unfold listCandidates
  simp only
  cases listing.failure with
  | some systemError =>
    refine iff_of_false (fun listed => ?_) fun both => absurd both.1 (Option.some_ne_none _)
    cases listed
  | none =>
    constructor
    · intro listed
      rw [← Except.ok.inj listed]
      exact ⟨rfl, rfl⟩
    · rintro ⟨_, rfl⟩
      rfl

/-- The candidates of a directory are those of its entries. -/
theorem mem_listCandidates {listing : DirectoryListing} {logId : LogId}
    {candidates : List SnapshotCandidate}
    (listed : listCandidates (.ok listing) logId = .ok candidates)
    {candidate : SnapshotCandidate} :
    candidate ∈ candidates ↔
      ∃ entry ∈ listing.entries, candidateOf logId entry = some candidate := by
  rw [(listCandidates_ok_iff.mp listed).2, List.mem_insertionSort, List.mem_filterMap]

/-- The candidates of a directory are strictly from newer to older. -/
theorem listCandidates_decreasing {listing : DirectoryListing} {logId : LogId}
    {candidates : List SnapshotCandidate}
    (distinct : (listing.entries.map fun entry => entry.path.filename).Nodup)
    (listed : listCandidates (.ok listing) logId = .ok candidates) :
    candidates.Pairwise fun left right => right.filenameSequence < left.filenameSequence := by
  have sorted := List.pairwise_insertionSort NotAfter
    (listing.entries.filterMap (candidateOf logId))
  have permuted := List.perm_insertionSort NotAfter
    (listing.entries.filterMap (candidateOf logId))
  have different := (permuted.pairwise_iff fun unequal => unequal.symm).mpr
    (candidates_distinct distinct)
  rw [(listCandidates_ok_iff.mp listed).2]
  refine (sorted.and different).imp fun both => ?_
  exact UInt64.lt_of_le_of_ne (notAfter_iff.mp both.1).1 both.2.symm

end Candidates

section Selection

variable {File Engine : Type} {examination : SnapshotExamination File Engine}

/-- An entry of a directory is a snapshot of the log that can be used. -/
structure Usable (examination : SnapshotExamination File Engine) (logId : LogId)
    (entry : DirectoryEntry) (file : File) (engine : Engine) : Prop where
  /-- It is a regular file. -/
  regular : entry.regular = .ok true
  /-- Its contents are a snapshot. -/
  inspected : examination.inspect entry.path = .ok file
  /-- It is named after the log and the sequence it covers. -/
  named : entry.path.filename = snapshotName logId (examination.coveredSequence file)
  /-- It agrees with the log. -/
  compatible : examination.compatible file = none
  /-- An engine is restored from it. -/
  restored : examination.restore file = .ok engine

/-- A candidate passes when each of its checks does. -/
theorem examineCandidate_eq_ok {candidate : SnapshotCandidate}
    {selected : SelectedSnapshot File Engine} :
    examineCandidate examination candidate = .ok selected ↔
      candidate.discoveryError = none ∧ selected.path = candidate.path ∧
        examination.inspect candidate.path = .ok selected.file ∧
        examination.coveredSequence selected.file = candidate.filenameSequence ∧
        examination.compatible selected.file = none ∧
        examination.restore selected.file = .ok selected.engine := by
  unfold examineCandidate
  cases candidate.discoveryError with
  | some error => exact iff_of_false nofun fun both => absurd both.1 nofun
  | none =>
    simp only [true_and]
    cases inspected : examination.inspect candidate.path with
    | error error => exact iff_of_false nofun fun both => absurd both.2.1 nofun
    | ok file =>
      show (if examination.coveredSequence file ≠ candidate.filenameSequence then _ else _) =
        Except.ok selected ↔ _
      constructor
      · intro examined
        split at examined
        · exact absurd examined nofun
        · next covered =>
          split at examined
          · exact absurd examined nofun
          · next compatible =>
            cases restored : examination.restore file with
            | error error =>
              rw [restored] at examined
              exact absurd examined nofun
            | ok engine =>
              rw [restored] at examined
              have same : SelectedSnapshot.mk candidate.path file engine = selected :=
                Except.ok.inj examined
              rw [← same]
              exact ⟨rfl, rfl, not_not.mp covered, compatible, restored⟩
      · rintro ⟨path, same, covered, compatible, restored⟩
        rw [Except.ok.inj same, if_neg (not_not.mpr covered), compatible, restored, ← path]
        rfl

/-- A selected snapshot is the first candidate that passes. -/
theorem selectDirectorySnapshot_some {candidates : List SnapshotCandidate}
    {selected : SelectedSnapshot File Engine}
    (chosen : (selectDirectorySnapshot examination candidates).1 = some selected) :
    ∃ earlier candidate later, candidates = earlier ++ candidate :: later ∧
      examineCandidate examination candidate = .ok selected ∧
      ∀ other ∈ earlier, ∀ passed, examineCandidate examination other ≠ .ok passed := by
  induction candidates with
  | nil => exact absurd chosen nofun
  | cons first rest ih =>
    unfold selectDirectorySnapshot at chosen
    cases examined : examineCandidate examination first with
    | ok passed =>
      rw [examined] at chosen
      exact ⟨[], first, rest, rfl, by rw [examined, Option.some.inj chosen], nofun⟩
    | error error =>
      rw [examined] at chosen
      obtain ⟨earlier, candidate, later, split, passes, fail⟩ := ih chosen
      refine ⟨first :: earlier, candidate, later, by rw [split]; rfl, passes, ?_⟩
      intro other inside passed
      rcases List.mem_cons.mp inside with rfl | within
      · rw [examined]
        exact nofun
      · exact fail other within passed

/-- Without a selected snapshot no candidate passes. -/
theorem selectDirectorySnapshot_none {candidates : List SnapshotCandidate}
    (none : (selectDirectorySnapshot examination candidates).1 = none) :
    ∀ candidate ∈ candidates, ∀ passed, examineCandidate examination candidate ≠ .ok passed := by
  induction candidates with
  | nil => exact fun _ inside => absurd inside List.not_mem_nil
  | cons first rest ih =>
    unfold selectDirectorySnapshot at none
    cases examined : examineCandidate examination first with
    | ok passed =>
      rw [examined] at none
      exact absurd none nofun
    | error error =>
      rw [examined] at none
      intro candidate inside passed
      rcases List.mem_cons.mp inside with rfl | within
      · rw [examined]
        exact nofun
      · exact ih none candidate within passed

/-- The name of a snapshot is ASCII. -/
theorem snapshotName_ascii (logId : LogId) (sequence : Sequence) :
    (snapshotName logId sequence).all (fun unit => unit.toNat ≤ 0x7f) = true := by
  have table : ∀ nibble : UInt8, (hexDigit nibble).toNat ≤ 0x7f := by
    intro nibble
    have digits : ∀ index < 17, (hexDigits.getD index '0').toNat ≤ 0x7f := by
      decide
    by_cases small : nibble.toNat < 17
    · exact digits nibble.toNat small
    · have outside : hexDigit nibble = '0' := by
        unfold hexDigit
        rw [List.getD_eq_default]
        have length : hexDigits.length = 16 := rfl
        omega
      rw [outside]
      decide
  rw [List.all_eq_true]
  intro unit inside
  apply decide_eq_true
  rcases List.mem_append.mp inside with front | last
  · rcases List.mem_append.mp front with start | digit
    · rcases List.mem_append.mp start with begin | dash
      · rcases List.mem_append.mp begin with letters | hex
        · have small : ∀ letter ∈ ['a', 't', 'l', 'a', 's', 'l', 'o', 'b', '-'],
              letter.toNat ≤ 0x7f := by
            simp
          exact small unit letters
        · obtain ⟨byte, _, found⟩ := List.mem_flatMap.mp hex
          rcases List.mem_pair.mp found with rfl | rfl
          · exact table _
          · exact table _
      · rw [List.mem_singleton.mp dash]
        decide
    · have range := Decimal.isDigit_of_mem_padded digit
      unfold Char.isDigit at range
      rw [Bool.and_eq_true, decide_eq_true_iff, decide_eq_true_iff] at range
      have upper : unit.toNat ≤ 57 := range.2
      omega
  · have small : ∀ letter ∈ snapshotSuffix, letter.toNat ≤ 0x7f := by
      simp [snapshotSuffix]
    exact small unit last

/-- An entry that can be used is a candidate that passes. -/
theorem Usable.examined {logId : LogId} {entry : DirectoryEntry} {file : File} {engine : Engine}
    (usable : Usable examination logId entry file engine) :
    ∃ candidate, candidateOf logId entry = some candidate ∧
      candidate.filenameSequence = examination.coveredSequence file ∧
      examineCandidate examination candidate = .ok ⟨entry.path, file, engine⟩ := by
  refine ⟨⟨entry.path, examination.coveredSequence file, none⟩, ?_, rfl, ?_⟩
  · have ascii := snapshotName_ascii logId (examination.coveredSequence file)
    have read := parseSnapshotFilename_eq_some.mpr usable.named
    rw [← usable.named] at ascii
    unfold candidateOf asciiFilename
    rw [if_pos ascii, Option.bind_eq_bind, Option.bind_some, read, usable.regular]
    rfl
  · exact examineCandidate_eq_ok.mpr
      ⟨rfl, rfl, usable.inspected, rfl, usable.compatible, usable.restored⟩

/-- A candidate of an entry that passes is an entry that can be used. -/
theorem usable_of_examined {logId : LogId} {entry : DirectoryEntry}
    {candidate : SnapshotCandidate} (found : candidateOf logId entry = some candidate)
    {selected : SelectedSnapshot File Engine}
    (examined : examineCandidate examination candidate = .ok selected) :
    entry.path = selected.path ∧
      examination.coveredSequence selected.file = candidate.filenameSequence ∧
      Usable examination logId entry selected.file selected.engine := by
  obtain ⟨discovered, path, inspected, covered, compatible, restored⟩ :=
    examineCandidate_eq_ok.mp examined
  obtain ⟨samePath, named⟩ := candidateOf_eq_some found
  refine ⟨(path.trans samePath).symm, covered, ⟨?_, ?_, ?_, compatible, restored⟩⟩
  · obtain ⟨filename, _, found⟩ := Option.bind_eq_some_iff.mp found
    obtain ⟨sequence, _, same⟩ := Option.bind_eq_some_iff.mp found
    rw [← Option.some.inj same] at discovered
    cases regular : entry.regular with
    | error error =>
      rw [regular] at discovered
      exact absurd discovered nofun
    | ok answer =>
      rw [regular] at discovered
      cases answer with
      | false => exact absurd discovered nofun
      | true => rfl
  · rw [← samePath]
    exact inspected
  · rw [covered]
    exact named

/-- The newest snapshot of a directory that can be used. -/
structure Newest (examination : SnapshotExamination File Engine) (logId : LogId)
    (entries : List DirectoryEntry) (selected : SelectedSnapshot File Engine) : Prop where
  /-- It is one of the entries, and it can be used. -/
  usable : ∃ entry ∈ entries, entry.path = selected.path ∧
    Usable examination logId entry selected.file selected.engine
  /-- None that can be used covers more. -/
  newest : ∀ entry ∈ entries, ∀ file engine, Usable examination logId entry file engine →
    examination.coveredSequence file ≤ examination.coveredSequence selected.file

/-- A selected snapshot is the newest that can be used. -/
theorem selected_newest {listing : DirectoryListing} {logId : LogId}
    {candidates : List SnapshotCandidate}
    (distinct : (listing.entries.map fun entry => entry.path.filename).Nodup)
    (listed : listCandidates (.ok listing) logId = .ok candidates)
    {selected : SelectedSnapshot File Engine}
    (chosen : (selectDirectorySnapshot examination candidates).1 = some selected) :
    Newest examination logId listing.entries selected := by
  have decreasing := listCandidates_decreasing distinct listed
  obtain ⟨earlier, candidate, later, split, passes, fail⟩ := selectDirectorySnapshot_some chosen
  have member : candidate ∈ candidates := by
    rw [split]
    exact List.mem_append_right _ List.mem_cons_self
  obtain ⟨entry, inside, found⟩ := (mem_listCandidates listed).mp member
  obtain ⟨path, covered, usable⟩ := usable_of_examined found passes
  refine ⟨⟨entry, inside, path, usable⟩, fun other present file engine otherUsable => ?_⟩
  obtain ⟨rival, rivalFound, rivalCovers, rivalPasses⟩ := otherUsable.examined
  have rivalMember := (mem_listCandidates listed).mpr ⟨other, present, rivalFound⟩
  rw [split] at rivalMember decreasing
  rw [← rivalCovers, covered]
  rcases List.mem_append.mp rivalMember with before | after
  · exact absurd rivalPasses (fail rival before _)
  · rcases List.mem_cons.mp after with rfl | behind
    · exact UInt64.le_refl _
    · have order := (List.pairwise_cons.mp (List.pairwise_append.mp decreasing).2.1).1 rival behind
      exact UInt64.le_of_lt order

/-- Where some entry can be used, a snapshot is selected. -/
theorem selected_of_usable {listing : DirectoryListing} {logId : LogId}
    {candidates : List SnapshotCandidate}
    (listed : listCandidates (.ok listing) logId = .ok candidates) {entry : DirectoryEntry}
    (inside : entry ∈ listing.entries) {file : File} {engine : Engine}
    (usable : Usable examination logId entry file engine) :
    ∃ selected, (selectDirectorySnapshot examination candidates).1 = some selected := by
  obtain ⟨candidate, found, _, passes⟩ := usable.examined
  cases chosen : (selectDirectorySnapshot examination candidates).1 with
  | some selected => exact ⟨selected, rfl⟩
  | none =>
    exact absurd passes (selectDirectorySnapshot_none chosen candidate
      ((mem_listCandidates listed).mpr ⟨entry, inside, found⟩) _)

/-- Names are read back as their sequences and nothing else is read, and different snapshots have
different names. A directory that is iterated to its end is listed, with a candidate for every
entry that bears such a name, strictly from newer to older: the newest snapshot that can be used
is selected where one can be used, and none otherwise. -/
theorem snapshot_naming (examination : SnapshotExamination File Engine)
    {listing : DirectoryListing}
    (distinct : (listing.entries.map fun entry => entry.path.filename).Nodup) :
    (∀ directory logId sequence, ∃ path,
      finalSnapshotPath directory logId sequence = .ok path ∧
        parseSnapshotFilename path.filename logId = some sequence) ∧
      (∀ filename logId sequence, parseSnapshotFilename filename logId = some sequence →
        ∀ directory, finalSnapshotPath directory logId sequence = .ok ⟨directory, filename⟩) ∧
      (∀ directory leftId rightId left right path,
        finalSnapshotPath directory leftId left = .ok path →
          finalSnapshotPath directory rightId right = .ok path → leftId = rightId ∧ left = right) ∧
      ((∃ logId candidates, listCandidates (.ok listing) logId = .ok candidates) ↔
        listing.failure = none) ∧
      ∀ logId, listing.failure = none → ∃ candidates,
        listCandidates (.ok listing) logId = .ok candidates ∧
        (∀ candidate, candidate ∈ candidates ↔
          ∃ entry ∈ listing.entries, candidateOf logId entry = some candidate) ∧
        (candidates.Pairwise fun left right => right.filenameSequence < left.filenameSequence) ∧
        ((∃ entry ∈ listing.entries, ∃ file engine,
            Usable examination logId entry file engine) →
          ∃ selected, (selectDirectorySnapshot examination candidates).1 = some selected ∧
            Newest examination logId listing.entries selected) ∧
        ((∀ entry ∈ listing.entries, ∀ file engine,
            ¬Usable examination logId entry file engine) →
          (selectDirectorySnapshot examination candidates).1 = none) := by
  refine ⟨fun directory logId sequence => ?_, fun filename logId sequence read directory => ?_,
    fun directory leftId rightId left right path first second => ?_, ?_, fun logId whole => ?_⟩
  · exact ⟨_, finalSnapshotPath_eq directory logId sequence,
      parseSnapshotFilename_eq_some.mpr rfl⟩
  · rw [finalSnapshotPath_eq, parseSnapshotFilename_eq_some.mp read]
  · rw [finalSnapshotPath_eq] at first second
    have same := (Except.ok.inj first).trans (Except.ok.inj second).symm
    exact snapshotName_injective (congrArg SnapshotPath.filename same)
  · constructor
    · rintro ⟨logId, candidates, listed⟩
      exact (listCandidates_ok_iff.mp listed).1
    · intro whole
      exact ⟨⟨List.replicate 16 0, List.length_replicate⟩, _,
        listCandidates_ok_iff.mpr ⟨whole, rfl⟩⟩
  · have listed := listCandidates_ok_iff.mpr
      ⟨whole, (rfl : (listing.entries.filterMap (candidateOf logId)).insertionSort NotAfter = _)⟩
    refine ⟨_, listed, fun candidate => mem_listCandidates listed,
      listCandidates_decreasing distinct listed, ?_, fun unusable => ?_⟩
    · rintro ⟨entry, inside, file, engine, usable⟩
      obtain ⟨selected, chosen⟩ := selected_of_usable listed inside usable
      exact ⟨selected, chosen, selected_newest distinct listed chosen⟩
    · cases chosen : (selectDirectorySnapshot examination
          ((listing.entries.filterMap (candidateOf logId)).insertionSort NotAfter)).1 with
      | none => rfl
      | some selected =>
        obtain ⟨entry, inside, _, usable⟩ := (selected_newest distinct listed chosen).usable
        exact absurd usable (unusable entry inside _ _)

/-- The log of the sample. -/
def sampleLogId : LogId := ⟨List.replicate 16 3, rfl⟩

/-- A snapshot file of the sample. -/
def sampleEntry (sequence : Sequence) : DirectoryEntry :=
  ⟨⟨['d'], snapshotName sampleLogId sequence⟩, .ok true⟩

/-- A directory with three snapshots and another file. -/
def sampleDirectory : DirectoryListing :=
  ⟨[sampleEntry 7, ⟨⟨['d'], ['n', 'o', 't', 'e', 's']⟩, .ok true⟩, sampleEntry 9, sampleEntry 8],
    none⟩

/-- The snapshot of sequence 9 is damaged, and the others cover what their names say. -/
def sampleExamination : SnapshotExamination Sequence Unit where
  inspect path :=
    match parseSnapshotFilename path.filename sampleLogId with
    | none => .error ⟨.ioFailure, 0, none⟩
    | some sequence => if sequence = 9 then .error ⟨.badChecksum, 0, none⟩ else .ok sequence
  coveredSequence file := file
  compatible _ := none
  restore _ := .ok ()

/-- The snapshots of the sample are tried from newer to older, and that of sequence 8 is selected:
the newer one is damaged. -/
theorem snapshot_naming_sample :
    ∃ candidates selected, listCandidates (.ok sampleDirectory) sampleLogId = .ok candidates ∧
      candidates.map SnapshotCandidate.filenameSequence = [9, 8, 7] ∧
      (selectDirectorySnapshot sampleExamination candidates).1 = some selected ∧
      selected.path.filename = snapshotName sampleLogId 8 ∧
      Newest sampleExamination sampleLogId sampleDirectory.entries selected := by
  have distinct : (sampleDirectory.entries.map fun entry => entry.path.filename).Nodup := by
    decide +kernel
  obtain ⟨candidates, listed, members, decreasing, newest, _⟩ :=
    (snapshot_naming sampleExamination distinct).2.2.2.2 sampleLogId rfl
  have usable : Usable sampleExamination sampleLogId (sampleEntry 8) 8 () :=
    ⟨rfl, by decide +kernel, rfl, rfl, rfl⟩
  have inside : sampleEntry 8 ∈ sampleDirectory.entries := by simp [sampleDirectory]
  obtain ⟨selected, chosen, best⟩ := newest ⟨sampleEntry 8, inside, 8, (), usable⟩
  refine ⟨candidates, selected, listed, ?_, chosen, ?_, best⟩
  · rw [(listCandidates_ok_iff.mp listed).2]
    decide +kernel
  · have covers : 8 ≤ selected.file := best.newest _ inside 8 () usable
    obtain ⟨entry, present, path, chosenUsable⟩ := best.usable
    have inspected := chosenUsable.inspected
    have older : sampleExamination.inspect (sampleEntry 7).path = .ok 7 := by decide +kernel
    have other : sampleExamination.inspect ⟨['d'], ['n', 'o', 't', 'e', 's']⟩ =
      .error ⟨.ioFailure, 0, none⟩ := by decide +kernel
    have damaged : sampleExamination.inspect (sampleEntry 9).path =
      .error ⟨.badChecksum, 0, none⟩ := by decide +kernel
    simp only [sampleDirectory, List.mem_cons, List.not_mem_nil, or_false] at present
    rcases present with rfl | rfl | rfl | rfl
    · rw [older] at inspected
      rw [← Except.ok.inj inspected] at covers
      exact absurd covers (by decide)
    · rw [other] at inspected
      cases inspected
    · rw [damaged] at inspected
      cases inspected
    · rw [← path]
      rfl

end Selection

end AtlasLob
