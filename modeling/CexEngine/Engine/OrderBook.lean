import CexEngine.Engine.Types
import CexEngine.Foundation.SortedMap

/-!
# The order book

`orderbook.rs`.  A side of a book maps prices to queues and caches its number of
orders.  Prices are compared by value, so a level is a `SortedMap` over
`Decimal.raw`.

`apply_prepared_orders` rewrites only the front of each affected queue: it pops
orders until the last changed one, keeps the unchanged and the partially filled
ones aside, and pushes them back.  The loop is modelled with its accumulator;
`CexEngine.Engine.BookCommit` proves what it computes.
-/

namespace CexEngine

open Foundation

/-- A map from prices, ordered by value. -/
abbrev PriceMap (ν : Type) := SortedMap Decimal.raw ν

/-- Unsigned subtraction, which panics below zero. -/
def checkedSub (a b : ℕ) : Except Fault ℕ :=
  if b ≤ a then .ok (a - b) else .error (.panic "attempt to subtract with overflow")

structure OrderBookSide where
  orders : PriceMap (List OrderEntry)
  totalOrders : ℕ

namespace OrderBookSide

def new : OrderBookSide := ⟨SortedMap.empty, 0⟩

/-- Append an order to the queue of its price. -/
def addOrder (self : OrderBookSide) (order : OrderEntry) : Except Fault OrderBookSide := do
  let price ← expect order.price "Limit order must have price"
  pure
    { orders := self.orders.upsert price fun queue => queue.getD [] ++ [order]
      totalOrders := self.totalOrders + 1 }

/-- Write a queue back to its level, or drop the level when it is empty. -/
def setQueue (orders : PriceMap (List OrderEntry)) (price : Decimal) (queue : List OrderEntry) :
    PriceMap (List OrderEntry) :=
  if queue.isEmpty then orders.erase price else orders.upsert price fun _ => queue

/-- Remove the first order with the given id from the queue of a price. -/
def removeOrder (self : OrderBookSide) (orderId : UInt64) (price : Decimal) :
    Except Fault (Option OrderEntry × OrderBookSide) :=
  match self.orders.find? price with
  | none => pure (none, self)
  | some queue =>
    match queue.find? fun order => order.id == orderId with
    | none => pure (none, self)
    | some order => do
      let queue := queue.eraseP fun order => order.id == orderId
      let totalOrders ← checkedSub self.totalOrders 1
      pure (some order, ⟨setQueue self.orders price queue, totalOrders⟩)

/-- The popping loop: it stops when no change is left, and returns the rest of
the queue and the orders to put back in front of it. -/
def popChanged : List OrderEntry → (Finmap fun _ : UInt64 => OrderEntry) → List OrderEntry →
    Except Fault (List OrderEntry × List OrderEntry)
  | queue, changed, aside =>
    if changed.keys = ∅ then pure (queue, aside)
    else
      match queue with
      | [] => .error (.panic "planned maker remains during exclusive borrow")
      | order :: queue =>
        match changed.lookup order.id with
        | some next =>
          if 0 < next.remainingAmount then
            popChanged queue (changed.erase order.id) (aside ++ [next])
          else popChanged queue (changed.erase order.id) aside
        | none => popChanged queue changed (aside ++ [order])

/-- The push-back loop: pop from the back, push to the front. -/
def pushBack (aside queue : List OrderEntry) : List OrderEntry := aside.foldr List.cons queue

/-- The changes of one price level. -/
def applyLevel (self : OrderBookSide) (price : Decimal)
    (changed : Finmap fun _ : UInt64 => OrderEntry) : Except Fault OrderBookSide := do
  let queue ← expect (self.orders.find? price) "planned price remains during exclusive borrow"
  let before := queue.length
  let (queue, aside) ← popChanged queue changed []
  let queue := pushBack aside queue
  let removed ← checkedSub before queue.length
  let totalOrders ← checkedSub self.totalOrders removed
  pure ⟨setQueue self.orders price queue, totalOrders⟩

def applyLevels : OrderBookSide → List (Decimal × Finmap fun _ : UInt64 => OrderEntry) →
    Except Fault OrderBookSide
  | self, [] => pure self
  | self, (price, changed) :: changes => do
    let self ← self.applyLevel price changed
    self.applyLevels changes

/-- Apply the planned makers, price by price. -/
def applyPreparedOrders (self : OrderBookSide)
    (changes : PriceMap (Finmap fun _ : UInt64 => OrderEntry)) : Except Fault OrderBookSide :=
  self.applyLevels changes.entries

end OrderBookSide

structure OrderBook where
  tradingPair : TradingPair
  buyOrders : OrderBookSide
  sellOrders : OrderBookSide

namespace OrderBook

def new (tradingPair : TradingPair) : OrderBook :=
  ⟨tradingPair, OrderBookSide.new, OrderBookSide.new⟩

def addOrder (self : OrderBook) (order : OrderEntry) : Except Fault OrderBook :=
  if order.orderType = "buy" then do
    let side ← self.buyOrders.addOrder order
    pure { self with buyOrders := side }
  else if order.orderType = "sell" then do
    let side ← self.sellOrders.addOrder order
    pure { self with sellOrders := side }
  else pure self

/-- The side that holds buys or sells. -/
def side (self : OrderBook) (buy : Bool) : OrderBookSide :=
  if buy then self.buyOrders else self.sellOrders

def setSide (self : OrderBook) (buy : Bool) (side : OrderBookSide) : OrderBook :=
  if buy then { self with buyOrders := side } else { self with sellOrders := side }

@[simp] theorem side_setSide_same (self : OrderBook) (buy : Bool) (s : OrderBookSide) :
    (self.setSide buy s).side buy = s := by
  cases buy <;> rfl

@[simp] theorem side_setSide_not (self : OrderBook) (buy : Bool) (s : OrderBookSide) :
    (self.setSide buy s).side (!buy) = self.side (!buy) := by
  cases buy <;> rfl

@[simp] theorem tradingPair_setSide (self : OrderBook) (buy : Bool) (s : OrderBookSide) :
    (self.setSide buy s).tradingPair = self.tradingPair := by
  cases buy <;> rfl

end OrderBook

end CexEngine
