import CexEngine.Engine.OrderBook

/-!
# Planning a match

`matcher.rs`.  `plan_order` walks the opposite side of the book from its best
price, and in each price in queue order, and collects the trades and the makers
they change in a `MatchPlan`.  The book is only read; `commit_book` writes the
plan.

The two nested loops are `planLevels` and `planQueue`.  The inner loop returns
from the whole function once the incoming order has nothing left, which the flag
of `planQueue` records; the outer loop ends at the first price outside the limit.
-/

namespace CexEngine

open Foundation Amount

/-- The invariants of an order, checked for the incoming order and again for
every maker. -/
def validate (order : OrderEntry) (incoming : Bool) : Except Fault Unit := do
  let _ ← fee 0 order.feeRate
  ensure (0 < order.id ∧ order.id ≤ maxI64 ∧ 0 < order.userId ∧ order.userId ≤ maxI64)
    "Invalid order identity"
  ensure ((order.orderType = "buy" ∨ order.orderType = "sell") ∧
    (order.orderSide = "limit" ∨ order.orderSide = "market")) "Invalid order kind"
  ensure (ValidAsset order.baseMint) "Invalid order asset"
  ensure (ValidAsset order.quoteMint) "Invalid order asset"
  ensure (order.baseMint ≠ order.quoteMint) "Identical order assets"
  ensure (incoming = true → order.filledAmount ≈ 0) "Incoming order is not fresh"
  if order.orderSide = "market" ∧ order.orderType = "buy" then do
    let budget ← orErr order.quoteAmount "Missing market budget"
    ensure (0 < budget ∧ order.price = none ∧ order.amount ≈ 0 ∧ order.remainingAmount ≈ 0 ∧
      SameOption order.remainingQuoteAmount (some budget)) "Invalid market buy"
    let _ ← units budget
    pure ()
  else do
    ensure (0 < order.amount ∧ 0 < order.remainingAmount ∧ order.quoteAmount = none ∧
      order.remainingQuoteAmount = none) "Invalid quantity order"
    let sum ← add order.filledAmount order.remainingAmount
    ensure (sum ≈ order.amount) "Inconsistent order quantity"
    if order.orderSide = "limit" then do
      let price ← orErr order.price "Missing limit price"
      ensure (0 < price) "Invalid limit price"
      let _ ← quote price order.amount
      pure ()
    else ensure (order.price = none) "Market sell has price"

/-- The planned result: the incoming order after its fills, the trades, their
totals, and every changed maker under its price. -/
structure MatchPlan where
  order : OrderEntry
  matchList : List MatchResult
  totalAmount : Decimal
  totalQuote : Decimal
  makers : PriceMap (Finmap fun _ : UInt64 => OrderEntry)
  makerBuy : Bool

namespace MatchPlan

/-- The plan before any maker was visited. -/
def start (incoming : OrderEntry) : MatchPlan :=
  { order := incoming
    matchList := []
    totalAmount := 0
    totalQuote := 0
    makers := SortedMap.empty
    makerBuy := decide (incoming.orderType = "sell") }

/-- Nothing is left to fill: the budget of a budget order, the quantity of any
other. -/
def exhausted (plan : MatchPlan) : Bool :=
  match plan.order.remainingQuoteAmount with
  | some budget => decide (budget ≈ 0)
  | none => decide (plan.order.remainingAmount ≈ 0)

/-- A price the incoming order does not accept. -/
def outsideLimit (plan : MatchPlan) (price : Decimal) : Bool :=
  match plan.order.price with
  | some limit => (plan.makerBuy && decide (price < limit)) || (!plan.makerBuy && decide (limit < price))
  | none => false

/-- The maker after a fill. -/
def filledMaker (original : OrderEntry) (quantity : Decimal) : Except Fault OrderEntry := do
  let remainingAmount ← subtract original.remainingAmount quantity
  let filledAmount ← add original.filledAmount quantity
  pure { original with remainingAmount, filledAmount }

/-- The incoming order after a fill of `quantity` for `value`. -/
def filledTaker (order : OrderEntry) (quantity value : Decimal) : Except Fault OrderEntry := do
  let order ←
    match order.remainingQuoteAmount with
    | some budget => do
      let left ← subtract budget value
      let amount ← add order.amount quantity
      pure { order with remainingQuoteAmount := some left, amount }
    | none => do
      let remainingAmount ← subtract order.remainingAmount quantity
      pure { order with remainingAmount }
  let filledAmount ← add order.filledAmount quantity
  pure { order with filledAmount }

/-- The trade between the incoming order and a maker. -/
def trade (makerBuy : Bool) (order maker : OrderEntry) (price quantity : Decimal) : MatchResult :=
  let buy := if makerBuy then maker else order
  let sell := if makerBuy then order else maker
  { buyerFeeRate := buy.feeRate
    sellerFeeRate := sell.feeRate
    buyOrderId := buy.id
    sellOrderId := sell.id
    buyerId := buy.userId
    sellerId := sell.userId
    price := price
    amount := quantity
    baseMint := order.baseMint
    quoteMint := order.quoteMint }

/-- Record a fill of a maker. -/
def fillMaker (plan : MatchPlan) (price : Decimal) (original : OrderEntry) (quantity : Decimal) :
    Except Fault MatchPlan := do
  let value ← quote price quantity
  let maker ← filledMaker original quantity
  let order ← filledTaker plan.order quantity value
  let totalAmount ← add plan.totalAmount quantity
  let totalQuote ← add plan.totalQuote value
  let atPrice := (plan.makers.find? price).getD ∅
  ensure (atPrice.lookup maker.id = none) "Duplicate maker order id"
  pure
    { plan with
      order
      totalAmount
      totalQuote
      matchList := plan.matchList ++ [trade plan.makerBuy order maker price quantity]
      makers := plan.makers.upsert price fun changed => (changed.getD ∅).insert maker.id maker }

/-- The quantity a maker is filled with. -/
def makerQuantity (order : OrderEntry) (price : Decimal) (original : OrderEntry) :
    Except Fault Decimal :=
  match order.remainingQuoteAmount with
  | some budget => quantityForBudget budget price original.remainingAmount
  | none => pure (order.remainingAmount.min original.remainingAmount)

/-- One round of the inner loop.  Orders of the same user, and makers that can
supply nothing, are passed over. -/
def planMaker (plan : MatchPlan) (price : Decimal) (original : OrderEntry) :
    Except Fault MatchPlan := do
  validate original false
  ensure (SameOption original.price (some price) ∧ original.orderSide = "limit" ∧
    decide (original.orderType = "buy") = plan.makerBuy ∧
    original.baseMint = plan.order.baseMint ∧ original.quoteMint = plan.order.quoteMint)
    "Maker does not match its orderbook level"
  ensure (original.id ≠ plan.order.id) "Incoming order already exists in orderbook"
  if original.userId = plan.order.userId then pure plan
  else do
    let quantity ← makerQuantity plan.order price original
    if quantity ≈ 0 then pure plan else plan.fillMaker price original quantity

/-- The inner loop over one queue.  The flag says that the function returned. -/
def planQueue (price : Decimal) : MatchPlan → List OrderEntry → Except Fault (MatchPlan × Bool)
  | plan, [] => pure (plan, false)
  | plan, original :: queue =>
    if plan.exhausted then pure (plan, true)
    else do
      let plan ← plan.planMaker price original
      planQueue price plan queue

/-- The outer loop over the price levels. -/
def planLevels : MatchPlan → List (Decimal × List OrderEntry) → Except Fault MatchPlan
  | plan, [] => pure plan
  | plan, (price, queue) :: levels =>
    if plan.outsideLimit price then pure plan
    else do
      let (plan, returned) ← planQueue price plan queue
      if returned then pure plan else planLevels plan levels

/-- Write the plan to the book: first the makers, then the remainder of a limit
order. -/
def commitBook (plan : MatchPlan) (book : OrderBook) : Except Fault OrderBook := do
  let side ← (book.side plan.makerBuy).applyPreparedOrders plan.makers
  let book := book.setSide plan.makerBuy side
  if plan.order.orderSide = "limit" ∧ 0 < plan.order.remainingAmount then book.addOrder plan.order
  else pure book

end MatchPlan

/-- The levels an incoming order visits, best price first. -/
def opposite (incoming : OrderEntry) (book : OrderBook) : List (Decimal × List OrderEntry) :=
  if incoming.orderType = "sell" then book.buyOrders.orders.entries.reverse
  else book.sellOrders.orders.entries

def planOrder (incoming : OrderEntry) (book : OrderBook) : Except Fault MatchPlan := do
  validate incoming true
  (MatchPlan.start incoming).planLevels (opposite incoming book)

end CexEngine
