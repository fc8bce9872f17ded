import CexEngine.Runtime.Store

/-!
# The public market

`market.rs`.  The output worker keeps its own view of the order books and rebuilds it
from the records alone: from the trades of a submission, the part of a limit order that
was not filled, and the cancellations.  For every submission that was executed and every
cancellation it publishes the best twenty levels of the two sides.

The functions hold a mutable borrow of the projection, so they are written in `Mut`.
-/

namespace CexEngine

open Foundation Foundation.DigitText Amount

structure MarketTrade where
  id : String
  price : String
  amount : String
  side : String
  deriving DecidableEq

structure MarketSnapshot where
  eventType : String
  eventId : String
  engineId : String
  sequence : String
  previousSequence : String
  baseMint : String
  quoteMint : String
  timestamp : Timestamp
  bids : List (String × String)
  asks : List (String × String)
  trades : List MarketTrade
  deriving DecidableEq

namespace Market

/-- The levels of a market and the sequence of its last snapshot. -/
structure Book where
  bids : PriceMap ℤ
  asks : PriceMap ℤ
  sequence : ℕ

/-- An order that rests in the public book. -/
structure Resting where
  pair : TradingPair
  buy : Bool
  price : Decimal
  remaining : Decimal

structure Projection where
  orders : Finmap fun _ : UInt64 => Resting
  books : Finmap fun _ : TradingPair => Book
  latest : Finmap fun _ : TradingPair => MarketSnapshot

namespace Book

def new : Book := ⟨SortedMap.empty, SortedMap.empty, 0⟩

def levels (book : Book) (buy : Bool) : PriceMap ℤ := if buy then book.bids else book.asks

def setLevels (book : Book) (buy : Bool) (levels : PriceMap ℤ) : Book :=
  if buy then { book with bids := levels } else { book with asks := levels }

end Book

/-- The exact text of a number of units. -/
def quantityText (units : ℤ) : String :=
  let text := formatInt units
  let text := if text.length ≤ 9 then text.leftpad 10 '0' else text
  let text := text.take (text.length - 9) ++ '.' :: text.drop (text.length - 9)
  String.ofList (trimText text)

/-- The text of a decimal. -/
def decimalText (d : Decimal) : String := String.ofList d.toText

/-- The levels of a snapshot, in the order they are listed in. -/
def levelTexts (levels : List (Decimal × ℤ)) : List (String × String) :=
  (levels.take 20).map fun level => (decimalText level.1, quantityText level.2)

namespace Projection

def new : Projection := ⟨∅, ∅, ∅⟩

def setOrder (id : UInt64) (order : Resting) (self : Projection) : Projection :=
  { self with orders := self.orders.insert id order }

def removeOrder (id : UInt64) (self : Projection) : Projection :=
  { self with orders := self.orders.erase id }

def setBook (pair : TradingPair) (book : Book) (self : Projection) : Projection :=
  { self with books := self.books.insert pair book }

/-- `books.entry(pair).or_default()`. -/
def bookEntry (self : Projection) (pair : TradingPair) : Book := (self.books.lookup pair).getD Book.new

/-- Take a quantity from a resting order and from its level. -/
def reduce (id : UInt64) (quantity : Decimal) : Mut Projection Unit := do
  let order ← orErr ((← get).orders.lookup id) s!"Missing resting market order {id}"
  let remaining ← subtract order.remaining quantity
  modify (setOrder id { order with remaining })
  let book ← expect ((← get).books.lookup order.pair) "resting book exists"
  let levels := book.levels order.buy
  let level ← expect (levels.find? order.price) "resting price exists"
  let change ← units quantity
  ensure (change ≤ level) "Negative public price level"
  let levels := levels.upsert order.price fun _ => level - change
  let levels := if level - change = 0 then levels.erase order.price else levels
  modify (setBook order.pair (book.setLevels order.buy levels))
  if remaining.isZero then modify (removeOrder id) else pure ()

/-- The maker of a trade of an incoming order. -/
def makerId (order : OrderEntry) (trade : MatchResult) : UInt64 :=
  if order.orderType = "buy" then trade.sellOrderId else trade.buyOrderId

/-- The loop over the trades: the amount filled, and the published trades. -/
def fill (order : OrderEntry) (sequence : ℕ) (engineId : String) :
    List TradeOutput → ℕ → Decimal → List MarketTrade → Mut Projection (Decimal × List MarketTrade)
  | [], _, filled, trades => pure (filled, trades)
  | output :: outputs, index, filled, trades => do
    let t := output.trade
    reduce (makerId order t) t.amount
    let filled ← add filled t.amount
    fill order sequence engineId outputs (index + 1) filled
      (trades ++ [⟨s!"{engineId}:{sequence}:{index}", decimalText t.price, decimalText t.amount,
        order.orderType⟩])

/-- Add the rest of a limit order to the book. -/
def rest (pair : TradingPair) (order : OrderEntry) (price remaining : Decimal) :
    Mut Projection Unit := do
  let buy := decide (order.orderType = "buy")
  let book := (← get).bookEntry pair
  modify (setBook pair (book.setLevels buy ((book.levels buy).upsert price fun level => level.getD 0)))
  let change ← units remaining
  let book := (← get).bookEntry pair
  modify (setBook pair
    (book.setLevels buy ((book.levels buy).upsert price fun level => level.getD 0 + change)))
  let old := (← get).orders.lookup order.id
  modify (setOrder order.id ⟨pair, buy, price, remaining⟩)
  ensure (old.isNone = true) "Duplicate resting order"

/-- Publish the best levels of a market. -/
def snapshot (record : Record) (engineId : String) (pair : TradingPair) (trades : List MarketTrade) :
    Mut Projection (Option MarketSnapshot) := do
  let book := (← get).bookEntry pair
  let event : MarketSnapshot :=
    { eventType := "market_snapshot"
      eventId := s!"{engineId}:{record.sequence}:market"
      engineId := engineId
      sequence := toString record.sequence
      previousSequence := toString book.sequence
      baseMint := pair.baseMint
      quoteMint := pair.quoteMint
      timestamp := record.timestamp
      bids := levelTexts book.bids.entries.reverse
      asks := levelTexts book.asks.entries
      trades := trades }
  modify (setBook pair { book with sequence := record.sequence })
  modify fun self => { self with latest := self.latest.insert pair event }
  pure (some event)

/-- What is left of a limit order after its trades joins the book. -/
def addRemainder (order : OrderEntry) (filled : Decimal) : Mut Projection Unit :=
  if order.orderSide = "limit" then do
    let remaining ← subtract order.amount filled
    if 0 < remaining then do
      let price ← expect order.price "accepted limit price"
      rest order.pair order price remaining
    else pure ()
  else pure ()

/-- Take a record into the view. -/
def apply (record : Record) (engineId : String) : Mut Projection (Option MarketSnapshot) :=
  match record.command, record.outcome with
  | .submit order, .applied (some (.submitted _ outputs _)) => do
    let (filled, trades) ← fill order record.sequence engineId outputs 0 Decimal.ZERO []
    addRemainder order filled
    snapshot record engineId order.pair trades
  | _, .applied (some (.cancelled order)) => do
    reduce order.id order.remainingAmount
    snapshot record engineId order.pair []
  | _, _ => pure none

/-- Take a list of records into the view, one after the other. -/
def applyAll (engineId : String) : List Record → Mut Projection (List (Option MarketSnapshot))
  | [] => pure []
  | record :: records => do
    let event ← apply record engineId
    let events ← applyAll engineId records
    pure (event :: events)

end Projection

end Market

end CexEngine
