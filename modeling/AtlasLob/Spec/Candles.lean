import AtlasLob.Core.Charts
import AtlasLob.Library.History

/-!
# Candles of raw trades

What a chart is for: the trades of one instrument, cut into contiguous ranges of commands, each
with its first, highest, lowest and last price and the exact sum of its quantities. Nothing here
aggregates before it is asked to.
-/

namespace AtlasLob.Charts

open History

/-- The trades of an instrument. -/
def tradesOf (instrument : Int) (history : List TradeEvent) : List TradeEvent :=
  history.filter fun trade => trade.header.instrumentId = instrument

/-- The trades of an instrument in two histories. -/
theorem tradesOf_append (instrument : Int) (front back : List TradeEvent) :
    tradesOf instrument (front ++ back) = tradesOf instrument front ++ tradesOf instrument back :=
  List.filter_append front back

/-- A trade of the instrument. -/
theorem tradesOf_own {instrument : Int} {trade : TradeEvent}
    (own : trade.header.instrumentId = instrument) : tradesOf instrument [trade] = [trade] :=
  List.filter_eq_self.mpr fun other inside => by
    rw [List.mem_singleton] at inside
    rw [inside]
    exact decide_eq_true own

/-- A trade of another instrument. -/
theorem tradesOf_other {instrument : Int} {trade : TradeEvent}
    (other : trade.header.instrumentId ≠ instrument) : tradesOf instrument [trade] = [] :=
  List.filter_eq_nil_iff.mpr fun candidate inside => by
    rw [List.mem_singleton] at inside
    rw [inside, decide_eq_true_eq]
    exact other

/-- The command of a trade. -/
def commandOf (trade : TradeEvent) : Int := trade.header.commandSequence

/-- The trades of an instrument in a range of commands. -/
def tradesIn (instrument first last : Int) (history : List TradeEvent) : List TradeEvent :=
  within commandOf first last (tradesOf instrument history)

/-- The exact sum of the quantities of trades. -/
def volumeOf (trades : List TradeEvent) : Int := (trades.map TradeEvent.executionQuantity).sum

/-- The candle of the trades of a range of commands: prices where there are trades, and a volume
in any case. -/
def candleOf (first last : Int) (trades : List TradeEvent) : Candle :=
  let prices := trades.map TradeEvent.executionPrice
  { startSequence := str first
    endSequence := str last
    opening := prices.head?.map str
    high := prices.max?.map str
    low := prices.min?.map str
    close := prices.getLast?.map str
    volume := str (volumeOf trades) }

/-- Candles of raw trades that follow each other without a gap up to a last command. -/
inductive Tiled (instrument : Int) (history : List TradeEvent) (finish : Int) :
    Int → List Candle → Prop
  /-- Nothing is left. -/
  | done : Tiled instrument history finish (finish + 1) []
  /-- A candle for the next commands, then the rest. -/
  | next {start last : Int} {rest : List Candle} (ordered : start ≤ last) (inside : last ≤ finish)
      (later : Tiled instrument history finish (last + 1) rest) :
      Tiled instrument history finish start
        (candleOf start last (tradesIn instrument start last history) :: rest)

/-- The trades among the events of a command. -/
def tradeEvents (events : List Event) : List TradeEvent :=
  events.filterMap fun event =>
    match event with
    | .trade trade => some trade
    | .other => none

/-- The raw trades of calls that were made one after another. -/
def rawTrades (calls : List (Int × List Event)) : List TradeEvent :=
  calls.flatMap fun call => tradeEvents call.2

/-- Accepted calls on a projection, one after another. -/
inductive Accepted : Projection → List (Int × List Event) → Projection → Prop
  /-- No call. -/
  | none (projection : Projection) : Accepted projection [] projection
  /-- A call that returns, then the rest. -/
  | call {projection middle after : Projection} {sequence : Int} {events : List Event}
      {rest : List (Int × List Event)}
      (returns : applyCommand sequence events projection = (.ok (), middle))
      (later : Accepted middle rest after) :
      Accepted projection ((sequence, events) :: rest) after

/-- The prices a native trade can have. -/
def TradeEvent.Native (trade : TradeEvent) : Prop :=
  -9223372036854775808 ≤ trade.executionPrice ∧ trade.executionPrice ≤ 9223372036854775807

end AtlasLob.Charts
