import AtlasLob.Verif.Charts

/-!
# Candles are exact

The candles of a projection are the candles of the raw trades it stands for: they follow each
other from the start of the chart to the last command, at most five hundred of them, and over a
whole session their volumes sum to the summary's. The full history rebuilds the projection.
-/

namespace AtlasLob.Charts

open History

section Ranges

/-- A range of single steps. -/
theorem range_single (start stop : Int) :
    range start stop 1 =
      (List.range (stop - start).toNat).map fun index : Nat => start + (index : Int) := by
  unfold range
  have count : (stop - start + 1 - 1) / 1 = stop - start := by
    omega
  rw [count]
  apply List.map_congr_left
  intro index _
  rw [Int.mul_one]

/-- A range of single steps grows at its end. -/
theorem range_snoc {start stop : Int} (ordered : start ≤ stop) :
    range start (stop + 1) 1 = range start stop 1 ++ [stop] := by
  have count : (stop + 1 - start).toNat = (stop - start).toNat + 1 := by
    omega
  have last : start + ((stop - start).toNat : Int) = stop := by
    omega
  rw [range_single, range_single, count, List.range_succ, List.map_append, List.map_singleton, last]

/-- A range that begins where it stops is empty. -/
theorem range_nil {start stop step : Int} (positive : 0 < step) (done : stop ≤ start) :
    range start stop step = [] := by
  have count : (stop - start + step - 1) / step < 1 := by
    apply Int.ediv_lt_of_lt_mul positive
    omega
  unfold range
  rw [Int.toNat_of_nonpos (by omega), List.range_zero, List.map_nil]

/-- A range begins at its start. -/
theorem range_cons {start stop step : Int} (positive : 0 < step) (more : start < stop) :
    range start stop step = start :: range (start + step) stop step := by
  have shift : (stop - start + step - 1) / step =
      (stop - (start + step) + step - 1) / step + 1 := by
    rw [show stop - start + step - 1 = stop - (start + step) + step - 1 + 1 * step by ring,
      Int.add_mul_ediv_right _ _ (Int.ne_of_gt positive)]
  have rest : 0 ≤ (stop - (start + step) + step - 1) / step := by
    apply Int.ediv_nonneg _ (Int.le_of_lt positive)
    omega
  unfold range
  rw [shift, Int.toNat_add rest (by decide), Int.toNat_one, List.range_succ_eq_map, List.map_cons,
    List.map_map]
  congr 1
  · simp
  · apply List.map_congr_left
    intro index _
    simp only [Function.comp_apply]
    push_cast
    ring

end Ranges

section Recovery

/-- An ordered history is ordered by command. -/
theorem commands_ordered {history : List TradeEvent} (ordered : history.Pairwise Earlier) :
    history.Pairwise fun earlier later => commandOf earlier ≤ commandOf later := by
  refine ordered.imp fun {first second} before => ?_
  cases before with
  | inl less => exact Int.le_of_lt less
  | inr same => exact Int.le_of_eq same.1

/-- The key of a trade in a history. -/
def keyOf (trade : TradeEvent) : Int × Int := (commandOf trade, trade.header.eventIndex)

/-- A trade that comes after another one has a later key. -/
theorem keyAtMost_of_earlier {first second : TradeEvent} (before : Earlier first second) :
    keyAtMost (keyOf second) (keyOf first) = false := by
  unfold Earlier at before
  unfold keyAtMost keyOf
  simp only [Bool.or_eq_false_iff, Bool.and_eq_false_iff, decide_eq_false_iff_not]
  omega

/-- An ordered history of commands in a prefix is grouped by command. -/
theorem group_ok {sequence : Int} (trades : List TradeEvent) (previous : Int × Int)
    (grouped : Dict (List TradeEvent))
    (inside : ∀ trade ∈ trades, 1 ≤ commandOf trade ∧ commandOf trade ≤ sequence)
    (later : ∀ trade ∈ trades, keyAtMost (keyOf trade) previous = false)
    (ordered : trades.Pairwise Earlier) :
    ∃ after, group sequence trades previous grouped = .ok after ∧
      ∀ command, after.getD command [] = grouped.getD command [] ++
        trades.filter fun trade => commandOf trade = command := by
  induction trades generalizing previous grouped with
  | nil =>
    refine ⟨grouped, rfl, fun command => ?_⟩
    rw [List.filter_nil, List.append_nil]
  | cons trade rest ih =>
    rw [List.forall_mem_cons] at inside later
    rw [List.pairwise_cons] at ordered
    obtain ⟨after, groups, found⟩ := ih (keyOf trade)
      (grouped.insert (commandOf trade) (grouped.getD (commandOf trade) [] ++ [trade])) inside.2
      (fun other member => keyAtMost_of_earlier (ordered.1 other member)) ordered.2
    refine ⟨after, ?_, fun command => ?_⟩
    · have allowed : (!(decide (1 ≤ commandOf trade) && decide (commandOf trade ≤ sequence)) ||
          keyAtMost (keyOf trade) previous) = false := by
        rw [decide_eq_true inside.1.1, decide_eq_true inside.1.2, later.1]
        rfl
      rw [group]
      refine (if_neg ?_).trans groups
      exact Bool.eq_false_iff.mp allowed
    · rw [found, Std.ExtTreeMap.getD_insert]
      by_cases own : commandOf trade = command
      · rw [if_pos (Std.LawfulEqOrd.compare_eq_iff_eq.mpr own), own,
          List.append_assoc, List.filter_cons, if_pos (decide_eq_true own)]
        rfl
      · rw [if_neg (mt Std.LawfulEqOrd.compare_eq_iff_eq.mp own),
          List.filter_cons, if_neg (mt of_decide_eq_true own)]

/-- The trades of a list of trades. -/
theorem tradeEvents_trades (trades : List TradeEvent) :
    tradeEvents (trades.map Event.trade) = trades := by
  induction trades with
  | nil => rfl
  | cons trade rest ih =>
    show trade :: tradeEvents (rest.map Event.trade) = trade :: rest
    rw [ih]

/-- A call that returns keeps its projection. -/
theorem Call.kept_ok {call : Call Unit} {projection after : Projection}
    (returns : call projection = (.ok (), after)) : call.kept projection = .ok after := by
  unfold Call.kept
  rw [returns]

/-- A loop over one more item. -/
theorem foldlM_snoc {step : Projection → Int → Except ChartError Projection} {items : List Int}
    {item : Int} {first middle last : Projection} (runs : items.foldlM step first = .ok middle)
    (next : step middle item = .ok last) : (items ++ [item]).foldlM step first = .ok last := by
  rw [List.foldlM_append, runs]
  show (step middle item >>= fun result => Except.ok result) = .ok last
  rw [next]
  rfl

variable {projection : Projection} {history : List TradeEvent}

/-- The trades of the next command are accepted by a projection of the commands before it. -/
theorem Stands.proper_next (stands : Stands projection history) {prior : Projection}
    {past : List TradeEvent} (before : Stands prior past) (sequence : Int) :
    Proper prior.commands sequence (-1)
      (history.filter fun trade => commandOf trade = sequence) := by
  rw [proper_iff]
  constructor
  · intro trade inside
    rw [List.mem_filter, decide_eq_true_eq] at inside
    have found := stands.proper trade inside.1
    exact ⟨inside.2, found.2.2.1, (before.known _).mpr found.2.2.2.1, found.2.2.2.2⟩
  · refine (stands.ordered.filter _).imp_of_mem fun {first second} firstIn secondIn order => ?_
    rw [List.mem_filter, decide_eq_true_eq] at firstIn secondIn
    unfold Earlier at order
    rw [firstIn.2, secondIn.2] at order
    omega

/-- The history rebuilds the projection. -/
theorem Stands.recover (stands : Stands projection history) :
    Projection.recover projection.sequence history = .ok projection := by
  have inside : ∀ trade ∈ history, 1 ≤ commandOf trade ∧
      commandOf trade ≤ projection.sequence := fun trade member =>
    ⟨(stands.proper trade member).1, (stands.proper trade member).2.1⟩
  have later : ∀ trade ∈ history, keyAtMost (keyOf trade) (0, -1) = false := by
    intro trade member
    have found := stands.proper trade member
    unfold keyAtMost keyOf
    simp only [Bool.or_eq_false_iff, Bool.and_eq_false_iff, decide_eq_false_iff_not]
    omega
  obtain ⟨grouped, groups, found⟩ := group_ok history (0, -1) ∅ inside later stands.ordered
  have sorted := commands_ordered stands.ordered
  -- After each command the projection stands for the history up to it.
  have prefixes : ∀ count : Nat, ∃ prior,
      (range 1 (count + 1) 1).foldlM (fun result commandSequence =>
        (applyCommand commandSequence
          ((grouped.getD commandSequence []).map Event.trade)).kept result) Projection.create =
        .ok prior ∧ prior.sequence = count ∧ Stands prior (within commandOf 1 count history) := by
    intro count
    induction count with
    | zero =>
      refine ⟨Projection.create, ?_, rfl, ?_⟩
      · rw [range_nil (by decide) (by decide)]
        rfl
      · rw [within_empty (by decide)]
        exact Stands.create
    | succ count ih =>
      obtain ⟨prior, runs, counted, before⟩ := ih
      have proper := stands.proper_next before (count + 1)
      have events : grouped.getD ((count : Int) + 1) [] =
          history.filter fun trade => commandOf trade = (count : Int) + 1 := by
        rw [found, Std.ExtTreeMap.getD_empty, List.nil_append]
      rw [← tradeEvents_trades (history.filter _), ← events] at proper
      have next : (count : Int) + 1 = prior.sequence + 1 := by
        rw [counted]
      obtain ⟨after, returns, total, _⟩ := applyCommand_ok next proper
      have extended := (before.apply returns).1
      rw [tradeEvents_trades, events, ← within_single,
        ← within_split sorted (by omega) (by omega)] at extended
      refine ⟨after, ?_, ?_, ?_⟩
      · push_cast
        rw [range_snoc (by omega)]
        exact foldlM_snoc runs (Call.kept_ok returns)
      · rw [total]
        push_cast
        rfl
      · push_cast
        exact extended
  obtain ⟨count, counted⟩ := Int.eq_ofNat_of_zero_le stands.counted
  obtain ⟨prior, runs, total, before⟩ := prefixes count
  rw [← counted] at runs total before
  rw [within_all inside] at before
  unfold Projection.recover
  rw [groups]
  exact runs.trans (congrArg _ (before.unique stands total))

end Recovery

section Values

/-- The spelling of a number that is not negative has the pattern of a decimal. -/
theorem isDecimal_str {number : Int} (natural : 0 ≤ number) : isDecimal (str number) = true := by
  obtain ⟨value, rfl⟩ := Int.eq_ofNat_of_zero_le natural
  have digits : ∀ character ∈ Decimal.text value, character.isDigit = true :=
    fun _ inside => Decimal.isDigit_of_mem_text inside
  have filled := Decimal.text_ne_nil value
  have leading := Decimal.text_leading value
  show isDecimal (Decimal.text value) = true
  cases spelled : Decimal.text value with
  | nil => exact absurd spelled filled
  | cons first rest =>
    rw [spelled] at digits leading
    rw [List.forall_mem_cons] at digits
    cases rest with
    | nil => exact digits.1
    | cons second others =>
      have nonzero : first ≠ '0' := by
        rintro rfl
        cases leading with
        | inl single => cases (List.cons.inj single).2
        | inr other => exact other rfl
      simp only [isDecimal, digits.1, decide_eq_true nonzero, Bool.and_self, Bool.true_and]
      rw [List.all_eq_true]
      exact digits.2

/-- The spelling of any number has the pattern of a signed decimal. -/
theorem isSignedDecimal_str (number : Int) : isSignedDecimal (str number) = true := by
  cases number with
  | ofNat value =>
    have plain := isDecimal_str (Int.natCast_nonneg value)
    unfold isSignedDecimal
    split
    · next digits same => exact absurd same (Decimal.text_ne_minus value _)
    · exact plain
  | negSucc value => exact isDecimal_str (Int.natCast_nonneg (value + 1))

/-- A number of at most twenty digits is short enough. -/
theorem str_length {number : Int} (natural : 0 ≤ number) (small : number < 10 ^ 20) :
    (str number).length ≤ 20 := by
  obtain ⟨value, rfl⟩ := Int.eq_ofNat_of_zero_le natural
  refine (Decimal.text_length_le (by decide)).mpr ?_
  exact_mod_cast small

/-- A native price is short enough. -/
theorem str_length_native {price : Int} (lower : -9223372036854775808 ≤ price)
    (upper : price ≤ 9223372036854775807) : (str price).length ≤ 20 := by
  cases price with
  | ofNat value => exact str_length (Int.natCast_nonneg value) (by omega)
  | negSucc value =>
    have short : (Decimal.text (value + 1)).length ≤ 19 := by
      refine (Decimal.text_length_le (by decide)).mpr ?_
      omega
    exact Nat.succ_le_succ short

/-- A number of at most twenty digits passes. -/
theorem validDecimal_str (field : String) {number : Int} (natural : 0 ≤ number)
    (small : number < 10 ^ 20) : validDecimal field (str number) = .ok () := by
  unfold validDecimal
  rw [isDecimal_str natural, decide_eq_true (str_length natural small)]
  rfl

/-- Native prices, or none, pass. -/
theorem validSigned_str (field : String) {price : Option Int}
    (native : ∀ value ∈ price, -9223372036854775808 ≤ value ∧ value ≤ 9223372036854775807) :
    validSigned field (price.map str) = .ok () := by
  cases price with
  | none => rfl
  | some value =>
    obtain ⟨lower, upper⟩ := native value rfl
    unfold validSigned
    rw [Option.map_some, Option.all_some, isSignedDecimal_str,
      decide_eq_true (str_length_native lower upper)]
    rfl

/-- Trades with quantities have a volume that is not negative. -/
theorem volumeOf_nonneg {trades : List TradeEvent}
    (filled : ∀ trade ∈ trades, 0 < trade.executionQuantity) : 0 ≤ volumeOf trades := by
  apply List.sum_nonneg
  exact List.forall_mem_map.mpr fun trade inside => Int.le_of_lt (filled trade inside)

/-- The candle of native trades passes its validation. -/
theorem candleOf_valid {first last : Int} {trades : List TradeEvent} (positive : 1 ≤ first)
    (ordered : first ≤ last) (bounded : last ≤ 50000)
    (native : ∀ trade ∈ trades, trade.Native)
    (filled : ∀ trade ∈ trades, 0 < trade.executionQuantity) :
    (candleOf first last trades).validate = .ok (candleOf first last trades) := by
  have prices : ∀ value ∈ trades.map TradeEvent.executionPrice,
      -9223372036854775808 ≤ value ∧ value ≤ 9223372036854775807 :=
    List.forall_mem_map.mpr native
  have volume : isDecimal (str (volumeOf trades)) = true := isDecimal_str (volumeOf_nonneg filled)
  unfold Candle.validate candleOf
  simp only
  rw [validDecimal_str "start_sequence" (by omega) (by omega),
    validDecimal_str "end_sequence" (by omega) (by omega),
    validSigned_str "open" fun value found => prices value (List.mem_of_head? found),
    validSigned_str "high" fun value found => prices value (List.max?_mem found),
    validSigned_str "low" fun value found => prices value (List.min?_mem found),
    validSigned_str "close" fun value found => prices value (List.mem_of_getLast? found),
    volume]
  rfl

end Values

section Prices

variable {projection : Projection} {history : List TradeEvent} {instrument : Int}

/-- One step of the loop over the commands of a bucket. -/
theorem accumulate_eq (bars : Dict Bar) (aggregate : Option Bar) (sequence : Int) :
    accumulate bars aggregate sequence =
      Option.merge Bar.merge aggregate bars[sequence]? := by
  unfold accumulate
  cases bars[sequence]? with
  | none => rw [Option.merge_none_right]
  | some bar =>
    cases aggregate with
    | none => rfl
    | some aggregate => rfl

/-- The loop over the commands of a bucket makes the bar of their trades. -/
theorem Stands.bucket (stands : Stands projection history) {bars : Dict Bar}
    (found : projection.commands[instrument]? = some bars) (first : Int) (count : Nat) :
    (range first (first + count) 1).foldl (accumulate bars) none =
      barOf (tradesIn instrument first (first + count - 1) history) := by
  have sorted := ordered_by_command stands.ordered instrument
  induction count with
  | zero =>
    rw [range_nil (by decide) (by simp), tradesIn, within_empty (by simp)]
    rfl
  | succ count ih =>
    have last : first + ((count + 1 : Nat) : Int) - 1 = first + count := by
      push_cast
      ring
    have next : first + ((count + 1 : Nat) : Int) = first + count + 1 := by
      push_cast
      ring
    rw [last, next, range_snoc (by omega), List.foldl_append, ih, List.foldl_cons, List.foldl_nil,
      accumulate_eq, stands.bars instrument bars found, ← barOf_append]
    have place : first + (count : Int) - 1 + 1 = first + count := by
      ring
    have split := @within_split _ commandOf _ sorted first (first + count - 1) (first + count)
      (by omega) (by omega)
    rw [place] at split
    rw [tradesIn, tradesIn, tradesIn, ← split]

/-- The candle of a bucket is the candle of its trades. -/
theorem Stands.bucketCandle (stands : Stands projection history) {bars : Dict Bar}
    (found : projection.commands[instrument]? = some bars) {first last : Int}
    (ordered : first ≤ last) :
    bucketCandle bars first last =
      candleOf first last (tradesIn instrument first last history) := by
  have count : first + ((last + 1 - first).toNat : Int) = last + 1 := by
    omega
  have whole := stands.bucket found first (last + 1 - first).toNat
  rw [count, Int.add_sub_cancel] at whole
  rw [candleOf_eq, Charts.bucketCandle, whole]

/-- A loop that collects one more value at its front. -/
theorem mapM_cons_ok {step : Int → Except ChartError Candle} {first : Int} {rest : List Int}
    {candle : Candle} {candles : List Candle} (head : step first = .ok candle)
    (tail : rest.mapM step = .ok candles) :
    (first :: rest).mapM step = .ok (candle :: candles) := by
  rw [List.mapM_cons, head, tail]
  rfl

/-- The buckets of a chart make candles that tile its commands. -/
theorem Stands.candles (stands : Stands projection history) {bars : Dict Bar}
    (found : projection.commands[instrument]? = some bars)
    (native : ∀ trade ∈ history, trade.Native) (bounded : projection.sequence ≤ 50000)
    {size : Int} (positive : 0 < size) (left : Nat) (start : Int)
    (length : (projection.sequence + 1 - start).toNat ≤ left) (from1 : 1 ≤ start)
    (inside : start ≤ projection.sequence + 1) :
    ∃ candles, (range start (projection.sequence + 1) size).mapM (fun first =>
        (Charts.bucketCandle bars first
          (min (first + size - 1) projection.sequence)).validate) = .ok candles ∧
      Tiled instrument history projection.sequence start candles ∧
      candles.length = (range start (projection.sequence + 1) size).length := by
  induction left generalizing start with
  | zero =>
    obtain rfl : start = projection.sequence + 1 := by
      omega
    rw [range_nil positive (Int.le_refl _)]
    exact ⟨[], rfl, .done, rfl⟩
  | succ left ih =>
    by_cases ended : start = projection.sequence + 1
    · subst ended
      rw [range_nil positive (Int.le_refl _)]
      exact ⟨[], rfl, .done, rfl⟩
    · have ordered : start ≤ min (start + size - 1) projection.sequence := by
        omega
      have proper : ∀ trade ∈ tradesIn instrument start
          (min (start + size - 1) projection.sequence) history, trade ∈ history :=
        fun trade member => List.mem_of_mem_filter (List.mem_of_mem_filter member)
      have valid := candleOf_valid from1 ordered (by omega)
        (fun trade member => native trade (proper trade member))
        fun trade member => (stands.proper trade (proper trade member)).2.2.2.2
      rw [← stands.bucketCandle found ordered] at valid
      have same := stands.bucketCandle found ordered
      rw [same] at valid
      rw [range_cons positive (by omega)]
      by_cases more : start + size ≤ projection.sequence + 1
      · obtain ⟨candles, maps, tiled, count⟩ := ih (start + size) (by omega) (by omega) more
        have last : min (start + size - 1) projection.sequence = start + size - 1 := by
          omega
        rw [last] at same valid ordered
        refine ⟨_, mapM_cons_ok ?_ maps, .next ordered (by omega) ?_, ?_⟩
        · rw [last, same]
          exact valid
        · rw [Int.sub_add_cancel]
          exact tiled
        · rw [List.length_cons, List.length_cons, count]
      · have last : min (start + size - 1) projection.sequence = projection.sequence := by
          omega
        rw [last] at same valid ordered
        rw [range_nil positive (by omega)]
        refine ⟨_, mapM_cons_ok ?_ rfl, .next ordered (Int.le_refl _) .done, rfl⟩
        rw [last, same]
        exact valid

/-- A chart starts at a command there is. -/
theorem rangeStart_bounds {sequence : Int} (some : 0 < sequence) (visible : ChartRange) :
    1 ≤ rangeStart sequence visible ∧ rangeStart sequence visible ≤ sequence ∧
      (visible ≠ .all → sequence - rangeStart sequence visible + 1 ≤ 500) := by
  cases visible with
  | last100 =>
    simp only [rangeStart]
    omega
  | last500 =>
    simp only [rangeStart]
    omega
  | all => exact ⟨Int.le_refl 1, some, fun other => absurd rfl other⟩

/-- A chart chooses a bucket size that keeps it within five hundred candles and does not move
its start. -/
theorem bucketSize_ok {sequence : Int} (some : 0 < sequence) (bounded : sequence ≤ 50000)
    (visible : ChartRange) :
    ∃ size, bucketSize sequence (rangeStart sequence visible) = .ok size ∧ 0 < size ∧
      (rangeStart sequence visible - 1) / size * size + 1 = rangeStart sequence visible ∧
      bucketCount sequence (rangeStart sequence visible) size ≤ 500 := by
  have single : ∀ start, sequence - start + 1 ≤ 500 → ∃ size, bucketSize sequence start = .ok size ∧
      0 < size ∧ (start - 1) / size * size + 1 = start ∧ bucketCount sequence start size ≤ 500 := by
    intro start near
    have fits : bucketCount sequence start 1 ≤ 500 := by
      unfold bucketCount
      omega
    refine ⟨1, ?_, by decide, by omega, fits⟩
    unfold bucketSize
    rw [List.find?_cons, decide_eq_true fits]
  cases visible with
  | last100 => exact single _ ((rangeStart_bounds some _).2.2 (by decide))
  | last500 => exact single _ ((rangeStart_bounds some _).2.2 (by decide))
  | all =>
    unfold bucketSize
    simp only [rangeStart]
    split
    · next size found =>
      have fits : bucketCount sequence 1 size ≤ 500 := by
        have passed := List.find?_some found
        exact of_decide_eq_true passed
      have sizes := List.mem_of_find?_eq_some found
      have positive : 0 < size := by
        simp only [List.mem_cons, List.not_mem_nil, or_false] at sizes
        omega
      refine ⟨size, rfl, positive, ?_, fits⟩
      rw [Int.sub_self, Int.zero_ediv, Int.zero_mul, Int.zero_add]
    · next found =>
      rw [List.find?_eq_none] at found
      have wide := mt decide_eq_true (found 100 (by decide))
      unfold bucketCount at wide
      omega

/-- As many buckets as were counted. -/
theorem range_length {sequence start size : Int} (positive : 0 < size)
    (aligned : (start - 1) / size * size + 1 = start) (inside : start ≤ sequence) :
    ((range start (sequence + 1) size).length : Int) = bucketCount sequence start size := by
  unfold range bucketCount
  rw [List.length_map, List.length_range]
  have shape : sequence + 1 - start + size - 1 =
      sequence - 1 + (1 - (start - 1) / size) * size := by
    rw [Int.sub_mul]
    omega
  have count : (sequence + 1 - start + size - 1) / size =
      (sequence - 1) / size - (start - 1) / size + 1 := by
    rw [shape, Int.add_mul_ediv_right _ _ (Int.ne_of_gt positive)]
    ring
  have natural : 0 ≤ (sequence + 1 - start + size - 1) / size := by
    apply Int.ediv_nonneg _ (Int.le_of_lt positive)
    omega
  rw [Int.toNat_of_nonneg natural, count]

/-- A chart shows the raw trades of its range of commands. -/
theorem Stands.price (stands : Stands projection history)
    (native : ∀ trade ∈ history, trade.Native) (bounded : projection.sequence ≤ 50000)
    (known : instrument = 7 ∨ instrument = 42) (visible : ChartRange) :
    ∃ size start candles, projection.price instrument visible = .ok (size, start, candles) ∧
      candles.length ≤ 500 ∧ (projection.sequence = 0 → start = 0 ∧ candles = []) ∧
      (0 < projection.sequence → start = rangeStart projection.sequence visible ∧
        Tiled instrument history projection.sequence start candles) := by
  unfold Projection.price
  by_cases fresh : projection.sequence = 0
  · refine ⟨1, 0, [], ?_, Nat.zero_le _, fun _ => ⟨rfl, rfl⟩, fun some => ?_⟩
    · rw [if_pos fresh]
      rfl
    · omega
  · have some : 0 < projection.sequence := by
      have natural := stands.counted
      omega
    obtain ⟨size, chosen, positive, aligned, fits⟩ := bucketSize_ok some bounded visible
    have present := (stands.known instrument).mpr known
    rw [Std.ExtTreeMap.mem_iff_isSome_getElem?, Option.isSome_iff_exists] at present
    obtain ⟨bars, found⟩ := present
    obtain ⟨from1, inside, _⟩ := rangeStart_bounds some visible
    obtain ⟨candles, maps, tiled, count⟩ := stands.candles found native bounded positive _
      (rangeStart projection.sequence visible) (Nat.le_refl _) from1 (by omega)
    have length := range_length positive aligned inside
    refine ⟨size, rangeStart projection.sequence visible, candles, ?_, by omega,
      fun none => absurd none fresh, fun _ => ⟨rfl, tiled⟩⟩
    rw [if_neg fresh]
    simp only [chosen, found, bind, Except.bind, aligned, maps]
    rfl

end Prices

section Totals

variable {projection : Projection} {history : List TradeEvent} {instrument : Int}

/-- Two histories have the volumes of both. -/
theorem volumeOf_append (front back : List TradeEvent) :
    volumeOf (front ++ back) = volumeOf front + volumeOf back := by
  unfold volumeOf
  rw [List.map_append, List.sum_append]

/-- The volumes of candles that tile a range of commands sum to the volume of its trades. -/
theorem Tiled.volume {finish start : Int} {candles : List Candle}
    (ordered : history.Pairwise Earlier)
    (tiled : Tiled instrument history finish start candles) :
    (candles.map fun candle => Decimal.signedValue candle.volume).sum =
      volumeOf (tradesIn instrument start finish history) := by
  have sorted := ordered_by_command ordered instrument
  induction tiled with
  | done =>
    rw [tradesIn, within_empty (by omega)]
    rfl
  | @next start last rest order inside later ih =>
    have split : tradesIn instrument start finish history =
        tradesIn instrument start last history ++ tradesIn instrument (last + 1) finish history :=
      within_split sorted (by omega) inside
    have first : Decimal.signedValue
        (candleOf start last (tradesIn instrument start last history)).volume =
        volumeOf (tradesIn instrument start last history) :=
      Decimal.signedValue_signedText _
    rw [List.map_cons, List.sum_cons, ih, first, split, volumeOf_append]

/-- The summary that a history of trades should have. -/
def summaryOf (instrument : Int) (name : String) (activeCount : Int) (trades : List TradeEvent) :
    InstrumentSummary :=
  let prices := trades.map TradeEvent.executionPrice
  { instrumentId := str instrument
    name := name
    lastPrice := prices.getLast?.map str
    firstPrice := prices.head?.map str
    change := (barOf trades).map fun bar => str (bar.close - bar.opening)
    high := prices.max?.map str
    low := prices.min?.map str
    volume := str (volumeOf trades)
    activeCount := activeCount }

/-- The summary of native trades passes its validation. -/
theorem summaryOf_valid {trades : List TradeEvent} (known : instrument = 7 ∨ instrument = 42)
    (name : String) (activeCount : Int) (native : ∀ trade ∈ trades, trade.Native)
    (filled : ∀ trade ∈ trades, 0 < trade.executionQuantity) :
    (summaryOf instrument name activeCount trades).validate =
      .ok (summaryOf instrument name activeCount trades) := by
  have prices : ∀ value ∈ trades.map TradeEvent.executionPrice,
      -9223372036854775808 ≤ value ∧ value ≤ 9223372036854775807 :=
    List.forall_mem_map.mpr native
  have volume : isDecimal (str (volumeOf trades)) = true := isDecimal_str (volumeOf_nonneg filled)
  have change : ((barOf trades).map fun bar =>
      str (bar.close - bar.opening)).all isSignedDecimal = true := by
    cases barOf trades with
    | none => rfl
    | some bar => exact isSignedDecimal_str _
  unfold InstrumentSummary.validate summaryOf
  simp only
  rw [validDecimal_str "instrument_id" (by omega) (by omega),
    validSigned_str "last_price" fun value found => prices value (List.mem_of_getLast? found),
    validSigned_str "first_price" fun value found => prices value (List.mem_of_head? found),
    validSigned_str "high" fun value found => prices value (List.max?_mem found),
    validSigned_str "low" fun value found => prices value (List.min?_mem found),
    change, volume]
  rfl

/-- The summary of a projection is the summary of its trades. -/
theorem Stands.summary (stands : Stands projection history)
    (native : ∀ trade ∈ history, trade.Native) (known : instrument = 7 ∨ instrument = 42)
    (name : String) (activeCount : Int) :
    projection.summary instrument name activeCount =
      .ok (summaryOf instrument name activeCount (tradesOf instrument history)) := by
  have trades : ∀ trade ∈ tradesOf instrument history, trade ∈ history :=
    fun trade member => List.mem_of_mem_filter member
  have valid := summaryOf_valid known name activeCount
    (fun trade member => native trade (trades trade member))
    fun trade member => (stands.proper trade (trades trade member)).2.2.2.2
  have candle := candleOf_eq 0 0 (tradesOf instrument history)
  rw [candleOf, Candle.mk.injEq] at candle
  obtain ⟨-, -, opening, high, low, close, volume⟩ := candle
  rw [← valid]
  unfold Projection.summary summaryOf
  simp only
  rw [opening, high, low, close, volume, stands.totals]

/-- What a projection shows of raw trades: every chart has at most five hundred candles, each the
candle of the raw trades of its commands, and they tile the commands from the start of the chart
to the last one; the volumes of a whole session sum to the summary's. -/
structure Exact (projection : Projection) (history : List TradeEvent) (instrument : Int) :
    Prop where
  /-- Before the first command there is nothing to show. -/
  fresh : projection.sequence = 0 → ∀ visible, projection.price instrument visible = .ok (1, 0, [])
  /-- Then every range has its candles. -/
  tiled : 0 < projection.sequence → ∀ visible, ∃ size candles,
    projection.price instrument visible =
        .ok (size, rangeStart projection.sequence visible, candles) ∧
      candles.length ≤ 500 ∧
      Tiled instrument history projection.sequence (rangeStart projection.sequence visible) candles
  /-- Over a whole session no volume is lost. -/
  volume : ∀ name activeCount, ∃ size start candles summary,
    projection.price instrument .all = .ok (size, start, candles) ∧
      projection.summary instrument name activeCount = .ok summary ∧
      summary.volume = str ((candles.map fun candle => Decimal.signedValue candle.volume).sum)

/-- A projection of native trades shows them exactly. -/
theorem Stands.exact (stands : Stands projection history)
    (native : ∀ trade ∈ history, trade.Native) (bounded : projection.sequence ≤ 50000)
    (known : instrument = 7 ∨ instrument = 42) : Exact projection history instrument where
  fresh none visible := by
    unfold Projection.price
    rw [if_pos none]
    rfl
  tiled some visible := by
    obtain ⟨size, start, candles, shown, length, -, found⟩ :=
      stands.price native bounded known visible
    obtain ⟨rfl, tiled⟩ := found some
    exact ⟨size, candles, shown, length, tiled⟩
  volume name activeCount := by
    obtain ⟨size, start, candles, shown, -, fresh, found⟩ :=
      stands.price native bounded known .all
    refine ⟨size, start, candles, _, shown, stands.summary native known name activeCount, ?_⟩
    have inside : ∀ trade ∈ tradesOf instrument history,
        1 ≤ commandOf trade ∧ commandOf trade ≤ projection.sequence := by
      intro trade member
      have proper := stands.proper trade (List.mem_of_mem_filter member)
      exact ⟨proper.1, proper.2.1⟩
    have total : (candles.map fun candle => Decimal.signedValue candle.volume).sum =
        volumeOf (tradesOf instrument history) := by
      by_cases none : projection.sequence = 0
      · have nothing : tradesOf instrument history = [] := by
          apply List.eq_nil_iff_forall_not_mem.mpr
          intro trade member
          have bounds := inside trade member
          omega
        rw [(fresh none).2, nothing]
        rfl
      · have natural := stands.counted
        obtain ⟨rfl, tiled⟩ := found (by omega)
        have volumes := tiled.volume stands.ordered
        rw [rangeStart, tradesIn, within_all inside] at volumes
        exact volumes
    rw [total]
    rfl

/-- After any accepted calls the projection shows exactly their raw trades, the full history
rebuilds it, and a call that raises leaves it as it is. -/
theorem projection_exact {calls : List (Int × List Event)}
    (accepted : Accepted .create calls projection) :
    Projection.recover calls.length (rawTrades calls) = .ok projection ∧
      (∀ sequence events error after,
        applyCommand sequence events projection = (.error error, after) → after = projection) ∧
      (calls.length ≤ 50000 → (∀ trade ∈ rawTrades calls, trade.Native) →
        projection.sequence = calls.length ∧
          ∀ instrument, instrument = 7 ∨ instrument = 42 →
            Exact projection (rawTrades calls) instrument) := by
  obtain ⟨stands, counted⟩ := Stands.create.calls accepted
  rw [List.nil_append] at stands
  have total : projection.sequence = calls.length := by
    rw [counted]
    exact Int.zero_add _
  refine ⟨?_, ?_, ?_⟩
  · rw [← total]
    exact stands.recover
  · intro sequence events error after raises
    exact applyCommand_unchanged raises
  · intro bounded native
    refine ⟨total, fun instrument known => stands.exact native ?_ known⟩
    omega

/-- Two calls, one of them with a trade. -/
def sampleCalls : List (Int × List Event) :=
  [(1, [.other, .trade ⟨⟨1, 1, 7⟩, 100, 5⟩]), (2, [.other])]

/-- The sample calls are accepted. -/
theorem sampleCalls_accepted : ∃ projection, Accepted .create sampleCalls projection := by
  have first : Proper Projection.create.commands 1 (-1)
      (tradeEvents [.other, .trade ⟨⟨1, 1, 7⟩, 100, 5⟩]) := by
    apply (proper_iff _ _).mpr
    refine ⟨?_, List.pairwise_singleton _ _⟩
    intro trade member
    obtain rfl := List.mem_singleton.mp member
    exact ⟨rfl, by decide, (Stands.create.known 7).mpr (Or.inl rfl), by decide⟩
  obtain ⟨middle, opens, counted, _⟩ := applyCommand_ok (by decide) first
  have next : (2 : Int) = middle.sequence + 1 := by
    rw [counted]
    rfl
  obtain ⟨last, closes, _⟩ := @applyCommand_ok 2 [.other] middle next trivial
  exact ⟨last, .call opens (.call closes (.none last))⟩

/-- The sample calls are shown exactly. -/
theorem projection_exact_sample : ∃ projection, Accepted .create sampleCalls projection ∧
    Projection.recover 2 (rawTrades sampleCalls) = .ok projection ∧
    Exact projection (rawTrades sampleCalls) 7 := by
  obtain ⟨projection, accepted⟩ := sampleCalls_accepted
  obtain ⟨rebuilt, -, shown⟩ := projection_exact accepted
  have native : ∀ trade ∈ rawTrades sampleCalls, trade.Native := by
    intro trade member
    obtain rfl := List.mem_singleton.mp member
    unfold TradeEvent.Native
    decide
  exact ⟨projection, accepted, rebuilt, (shown (by decide) native).2 7 (Or.inl rfl)⟩

end Totals

end AtlasLob.Charts
