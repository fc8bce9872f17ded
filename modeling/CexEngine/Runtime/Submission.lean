import CexEngine.Engine.BalanceCache
import CexEngine.Engine.Matcher

/-!
# Executing one submission

`submission.rs`.  The match is planned on the book as it is, the balances are
computed on a working copy that holds only the accounts involved, and book and
cache are written at the very end.
-/

namespace CexEngine

open Foundation Amount

/-- The books of all markets. -/
abbrev Books := Finmap fun _ : TradingPair => OrderBook

/-- The final report of a market order. -/
structure MarketCompletion where
  orderId : UInt64
  userId : UInt64
  orderType : String
  baseMint : String
  quoteMint : String
  filledAmount : Decimal
  filledQuoteAmount : Decimal
  reservedAmount : Decimal
  refundAmount : Decimal
  tradeCount : ℕ
  status : String
  deriving DecidableEq

structure AppliedSubmission where
  orderId : UInt64
  matchList : List MatchResult
  completion : Option MarketCompletion

namespace Submission

/-- The asset an order pays with. -/
def refundMint (order : OrderEntry) : String :=
  if order.orderType = "buy" then order.quoteMint else order.baseMint

/-- What an order reserves before it is matched. -/
def reservedAmount (order : OrderEntry) : Except Fault Decimal :=
  if order.orderType = "buy" then
    match order.price with
    | some price => quote price order.amount
    | none => expect order.quoteAmount "validated market buy budget"
  else pure order.amount

/-- What stays reserved for the remainder of an order. -/
def remainingReserve (order : OrderEntry) (left : Decimal) : Except Fault Decimal :=
  if order.orderSide = "market" then pure 0
  else if order.orderType = "buy" then do
    quote (← expect order.price "called `Option::unwrap()` on a `None` value") left
  else pure left

/-- The accounts of one trade, in the order they are copied. -/
def tradeAccounts (trade : MatchResult) : List Account :=
  [(trade.buyerId, trade.baseMint), (trade.buyerId, trade.quoteMint),
    (trade.sellerId, trade.baseMint), (trade.sellerId, trade.quoteMint)]

/-- The working copy of the accounts a submission involves. -/
def copyAccounts (source : BalanceCache) (accounts : List Account) : BalanceCache :=
  accounts.foldl (fun prepared account => prepared.copyAccountFrom source account.1 account.2)
    BalanceCache.new

/-- Settle the trades of a plan, in order. -/
def settleAll : List MatchResult → BalanceCache → Except Fault BalanceCache
  | [], prepared => pure prepared
  | trade :: trades, prepared => do
    let prepared ← (BalanceCache.settleTrade trade).exec prepared
    settleAll trades prepared

/-- The report of a market order. -/
def marketCompletion (order : OrderEntry) (plan : MatchPlan) (reserved refund : Decimal) :
    Option MarketCompletion :=
  if order.orderSide = "market" then
    some
      { orderId := order.id
        userId := order.userId
        orderType := order.orderType
        baseMint := order.baseMint
        quoteMint := order.quoteMint
        filledAmount := plan.totalAmount
        filledQuoteAmount := plan.totalQuote
        reservedAmount := reserved
        refundAmount := refund
        tradeCount := plan.matchList.length
        status := if refund.isZero then "filled" else "expired" }
  else none

/-- The book an order is matched with. -/
def bookOf (books : Books) (order : OrderEntry) : OrderBook :=
  (books.lookup order.pair).getD (OrderBook.new order.pair)

/-- The part of a submission that only reads: the plan, the working copy with all
its movements, and the report.  Every error of a submission is returned here. -/
def prepare (order : OrderEntry) (books : Books) (executor : Executor) :
    Except Fault (MatchPlan × BalanceCache × Option MarketCompletion) := do
  let plan ← planOrder order (bookOf books order)
  let reserved ← reservedAmount order
  let prepared := copyAccounts executor.balanceCache
    ((order.userId, refundMint order) :: plan.matchList.flatMap tradeAccounts)
  let prepared ← (BalanceCache.lockBalance order.userId (refundMint order) reserved).exec prepared
  let prepared ← settleAll plan.matchList prepared
  let remaining ← remainingReserve order plan.order.remainingAmount
  let used := if order.orderType = "buy" then plan.totalQuote else plan.totalAmount
  let refund ← subtract (← subtract reserved used) remaining
  let prepared ←
    if 0 < refund then
      (BalanceCache.unlockBalance order.userId (refundMint order) refund).exec prepared
    else pure prepared
  pure (plan, prepared, marketCompletion order plan reserved refund)

def apply (order : OrderEntry) : Mut (Books × Executor) AppliedSubmission := do
  let (books, executor) ← get
  let (plan, prepared, completion) ← prepare order books executor
  -- nothing below returns an error; the book and the cache are written from here on
  let book ← plan.commitBook (bookOf books order)
  set (books.insert order.pair book, Executor.mk (executor.balanceCache.commitPrepared prepared))
  pure ⟨plan.order.id, plan.matchList, completion⟩

end Submission

end CexEngine
