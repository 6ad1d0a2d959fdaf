import AtlasLob.Library.Decimal

/-!
# Chart projections

The projection behind the price chart: every command leaves one bar for each instrument it
traded, and a chart groups the bars of a range of commands into candles. Numbers are Python's
unbounded integers, texts are lists of characters, and a dictionary is a map from its keys. A
method that changes the projection is a call on it, so what it leaves behind when it raises is
part of its result.
-/

namespace AtlasLob.Charts

/-- What a method raises. -/
inductive ChartError
  /-- `ValueError`. -/
  | valueError (message : String)
  /-- `KeyError`. -/
  | keyError (key : Int)
  /-- `StopIteration`. -/
  | stopIteration
  /-- The validation of a value that is sent out, with the field that failed. -/
  | validationError (field : String)
  deriving DecidableEq, Repr

/-- `dict[int, V]`. -/
abbrev Dict (value : Type) := Std.ExtTreeMap Int value compare

/-- `EventHeader`. -/
structure EventHeader where
  commandSequence : Int
  eventIndex : Int
  instrumentId : Int
  deriving DecidableEq, Repr

/-- `TradeEvent`, with the fields a chart reads. -/
structure TradeEvent where
  header : EventHeader
  executionPrice : Int
  executionQuantity : Int
  deriving DecidableEq, Repr

/-- `Event`: a chart looks at trades only. -/
inductive Event
  /-- A trade. -/
  | trade (event : TradeEvent)
  /-- Any other event. -/
  | other
  deriving DecidableEq, Repr

/-- `Bar`. -/
structure Bar where
  /-- `open`. -/
  opening : Int
  high : Int
  low : Int
  close : Int
  volume : Int
  deriving DecidableEq, Repr

/-- `Bar.merge`. -/
def Bar.merge (bar other : Bar) : Bar :=
  ⟨bar.opening, max bar.high other.high, min bar.low other.low, other.close,
    bar.volume + other.volume⟩

/-- `Projection`. -/
structure Projection where
  sequence : Int
  /-- The bars of each instrument under the commands that left them. -/
  commands : Dict (Dict Bar)
  /-- The bar of each instrument over the whole session. -/
  totals : Dict Bar

/-- A fresh `Projection`. -/
def Projection.create : Projection :=
  ⟨0, ((∅ : Dict (Dict Bar)).insert 7 ∅).insert 42 ∅, ∅⟩

/-- A method that may change its projection and may raise. -/
abbrev Call := ExceptT ChartError (StateM Projection)

/-- The bar of one trade. -/
def tradeBar (event : TradeEvent) : Bar :=
  ⟨event.executionPrice, event.executionPrice, event.executionPrice, event.executionPrice,
    event.executionQuantity⟩

/-- `pending[instrument] = prior.merge(bar) if prior else bar`. -/
def mergeInto (bars : Dict Bar) (instrument : Int) (bar : Bar) : Bar :=
  match bars[instrument]? with
  | some prior => prior.merge bar
  | none => bar

/-- The guard of one trade in a command. -/
def tradeRefused (commands : Dict (Dict Bar)) (sequence previousIndex : Int)
    (event : TradeEvent) : Bool :=
  event.header.commandSequence ≠ sequence || event.header.eventIndex ≤ previousIndex ||
    !commands.contains event.header.instrumentId || event.executionQuantity ≤ 0

/-- The loop over the events of a command. -/
def gather (commands : Dict (Dict Bar)) (sequence : Int) :
    List Event → Int → Dict Bar → Except ChartError (Dict Bar)
  | [], _, pending => .ok pending
  | .other :: rest, previousIndex, pending => gather commands sequence rest previousIndex pending
  | .trade event :: rest, previousIndex, pending =>
    if tradeRefused commands sequence previousIndex event then
      .error (.valueError "Invalid or unordered native trade while building chart history.")
    else
      gather commands sequence rest event.header.eventIndex
        (pending.insert event.header.instrumentId
          (mergeInto pending event.header.instrumentId (tradeBar event)))

/-- `self.commands[instrument][sequence] = bar`. -/
def storeBar (sequence instrument : Int) (bar : Bar) : Call Unit := do
  let projection ← get
  match projection.commands[instrument]? with
  | none => throw (.keyError instrument)
  | some bars =>
    set { projection with commands :=
      projection.commands.insert instrument (bars.insert sequence bar) }

/-- `apply_command`. -/
def applyCommand (sequence : Int) (events : List Event) : Call Unit := do
  let projection ← get
  if sequence ≠ projection.sequence + 1 then
    throw (.valueError "Chart command sequence must advance exactly once.")
  let pending ← liftM (gather projection.commands sequence events (-1) ∅)
  let totals := pending.map fun instrument bar => mergeInto projection.totals instrument bar
  pending.toList.forM fun entry => storeBar sequence entry.1 entry.2
  modify fun projection => { projection with totals := projection.totals ∪ totals }
  modify fun projection => { projection with sequence := sequence }

/-- A call whose projection is only kept when it returns. -/
def Call.kept (call : Call Unit) (projection : Projection) : Except ChartError Projection :=
  match call projection with
  | (.ok (), after) => .ok after
  | (.error error, _) => .error error

/-- `range(start, stop, step)` with a positive step. -/
def range (start stop step : Int) : List Int :=
  (List.range ((stop - start + step - 1) / step).toNat).map fun index : Nat =>
    start + (index : Int) * step

/-- The comparison of two keys of a command and an event. -/
def keyAtMost (left right : Int × Int) : Bool :=
  left.1 < right.1 || (left.1 = right.1 && left.2 ≤ right.2)

/-- The loop that groups a history by command. -/
def group (sequence : Int) :
    List TradeEvent → Int × Int → Dict (List TradeEvent) →
      Except ChartError (Dict (List TradeEvent))
  | [], _, grouped => .ok grouped
  | trade :: rest, previous, grouped =>
    let key := (trade.header.commandSequence, trade.header.eventIndex)
    if !(1 ≤ key.1 && key.1 ≤ sequence) || keyAtMost key previous then
      .error (.valueError "Recovered trades are outside the verified prefix or unordered.")
    else
      group sequence rest key (grouped.insert key.1 (grouped.getD key.1 [] ++ [trade]))

/-- `recover`. -/
def Projection.recover (sequence : Int) (trades : List TradeEvent) :
    Except ChartError Projection := do
  let grouped ← group sequence trades (0, -1) ∅
  (range 1 (sequence + 1) 1).foldlM (fun result commandSequence =>
    (applyCommand commandSequence
      ((grouped.getD commandSequence []).map Event.trade)).kept result) .create

section Values

/-- The pattern of `Decimal`. -/
def isDecimal (text : List Char) : Bool :=
  match text with
  | [] => false
  | [character] => character.isDigit
  | first :: rest => first.isDigit && first ≠ '0' && rest.all Char.isDigit

/-- The pattern of `SignedDecimal`. -/
def isSignedDecimal : List Char → Bool
  | '-' :: digits => isDecimal digits
  | digits => isDecimal digits

/-- Validate one field. -/
def validated (field : String) (valid : Bool) : Except ChartError Unit :=
  if valid then .ok () else .error (.validationError field)

/-- Validate a `Decimal` field. -/
def validDecimal (field : String) (text : List Char) : Except ChartError Unit :=
  validated field (isDecimal text && text.length ≤ 20)

/-- Validate an optional `SignedDecimal` field. -/
def validSigned (field : String) (text : Option (List Char)) : Except ChartError Unit :=
  validated field (text.all fun text => isSignedDecimal text && text.length ≤ 20)

/-- `Candle`. -/
structure Candle where
  startSequence : List Char
  endSequence : List Char
  /-- `open`. -/
  opening : Option (List Char)
  high : Option (List Char)
  low : Option (List Char)
  close : Option (List Char)
  volume : List Char
  deriving DecidableEq, Repr

/-- The validation of a `Candle`. -/
def Candle.validate (candle : Candle) : Except ChartError Candle := do
  validDecimal "start_sequence" candle.startSequence
  validDecimal "end_sequence" candle.endSequence
  validSigned "open" candle.opening
  validSigned "high" candle.high
  validSigned "low" candle.low
  validSigned "close" candle.close
  validated "volume" (isDecimal candle.volume)
  return candle

/-- `InstrumentSummary`. -/
structure InstrumentSummary where
  instrumentId : List Char
  name : String
  lastPrice : Option (List Char)
  firstPrice : Option (List Char)
  change : Option (List Char)
  high : Option (List Char)
  low : Option (List Char)
  volume : List Char
  activeCount : Int
  deriving DecidableEq, Repr

/-- The validation of an `InstrumentSummary`. -/
def InstrumentSummary.validate (summary : InstrumentSummary) :
    Except ChartError InstrumentSummary := do
  validDecimal "instrument_id" summary.instrumentId
  validSigned "last_price" summary.lastPrice
  validSigned "first_price" summary.firstPrice
  validated "change" (summary.change.all isSignedDecimal)
  validSigned "high" summary.high
  validSigned "low" summary.low
  validated "volume" (isDecimal summary.volume)
  return summary

/-- `str` of an integer. -/
def str (value : Int) : List Char := Decimal.signedText value

end Values

/-- `summary`. -/
def Projection.summary (projection : Projection) (instrument : Int) (name : String)
    (activeCount : Int) : Except ChartError InstrumentSummary :=
  let bar := projection.totals[instrument]?
  InstrumentSummary.validate
    { instrumentId := str instrument
      name := name
      lastPrice := bar.map fun bar => str bar.close
      firstPrice := bar.map fun bar => str bar.opening
      change := bar.map fun bar => str (bar.close - bar.opening)
      high := bar.map fun bar => str bar.high
      low := bar.map fun bar => str bar.low
      volume := (bar.map fun bar => str bar.volume).getD ['0']
      activeCount := activeCount }

/-- `ChartRange`. -/
inductive ChartRange
  /-- `"100"`. -/
  | last100
  /-- `"500"`. -/
  | last500
  /-- `"all"`. -/
  | all
  deriving DecidableEq, Repr

/-- The first command a chart shows. -/
def rangeStart (sequence : Int) : ChartRange → Int
  | .all => 1
  | .last100 => max 1 (sequence - 100 + 1)
  | .last500 => max 1 (sequence - 500 + 1)

/-- The number of buckets of one size that a chart needs. -/
def bucketCount (sequence start size : Int) : Int :=
  (sequence - 1) / size - (start - 1) / size + 1

/-- The smallest bucket size that keeps a chart within 500 candles. -/
def bucketSize (sequence start : Int) : Except ChartError Int :=
  match [1, 5, 20, 100].find? fun size => bucketCount sequence start size ≤ 500 with
  | some size => .ok size
  | none => .error .stopIteration

/-- `aggregate.merge(bar) if aggregate else bar`, for each bar there is. -/
def accumulate (commands : Dict Bar) (aggregate : Option Bar) (sequence : Int) : Option Bar :=
  match commands[sequence]? with
  | none => aggregate
  | some bar =>
    match aggregate with
    | some aggregate => some (aggregate.merge bar)
    | none => some bar

/-- The candle of the commands of one bucket. -/
def bucketCandle (commands : Dict Bar) (first last : Int) : Candle :=
  let aggregate := (range first (last + 1) 1).foldl (accumulate commands) none
  { startSequence := str first
    endSequence := str last
    opening := aggregate.map fun bar => str bar.opening
    high := aggregate.map fun bar => str bar.high
    low := aggregate.map fun bar => str bar.low
    close := aggregate.map fun bar => str bar.close
    volume := (aggregate.map fun bar => str bar.volume).getD ['0'] }

/-- `price`. -/
def Projection.price (projection : Projection) (instrument : Int) (visibleRange : ChartRange) :
    Except ChartError (Int × Int × List Candle) := do
  if projection.sequence = 0 then return (1, 0, [])
  let start := rangeStart projection.sequence visibleRange
  let size ← bucketSize projection.sequence start
  let alignedStart := (start - 1) / size * size + 1
  match projection.commands[instrument]? with
  | none => throw (.keyError instrument)
  | some commands =>
    let candles ← (range alignedStart (projection.sequence + 1) size).mapM fun first =>
      (bucketCandle commands first (min (first + size - 1) projection.sequence)).validate
    return (size, alignedStart, candles)

end AtlasLob.Charts
