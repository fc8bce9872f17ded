import CexEngine.Runtime.Store
import Mathlib.Data.Rat.Defs

/-!
# Accepting an order

`services/order_receipt.rs`.  Before an order is sent to the engine its request is compared
with what the platform has stored, and a receipt is inserted.  Any number of calls for one
order may run at the same time, while the platform moves the order on.

A call is a sequence of statements of one `READ COMMITTED` transaction, so it is modelled by
the statement it is about to execute (`Call`), and `Step` executes one statement of one call
on the committed rows:

* a `SELECT` sees what is committed when it runs;
* `FOR SHARE` keeps the platform from changing the rows it has returned, until the
  transaction ends;
* `INSERT … ON CONFLICT DO NOTHING` waits for the end of another transaction that has
  inserted the same key, and then sees its row if that transaction was committed;
* a transaction may fail at any statement and is rolled back then; a commit may also
  succeed although the call is not told so.

A `NUMERIC(p,s)` column is read as text; what a value reads as after it was stored there is
the parameter `numeric`.
-/

namespace CexEngine

open Foundation Amount

/-- The request of a client. -/
structure CreateOrderRequest where
  orderId : Option UInt64
  userId : UInt64
  orderType : String
  orderSide : String
  baseMint : String
  quoteMint : Option String
  price : Option Decimal
  amount : Option Decimal
  quoteAmount : Option Decimal

namespace OrderReceipt

/-- Why a call returns an error. -/
inductive Refusal where
  | invalid
  | conflict
  | fee (fault : Fault)
  | database
  deriving DecidableEq

/-- A row of a receipt or of a submission, as a query returns it. -/
structure CommandRow where
  orderId : Int64
  userId : Int64
  orderType : String
  orderSide : String
  baseMint : String
  quoteMint : String
  price : Option String
  amount : Option String
  quoteAmount : Option String
  feeRate : Option String
  acceptedAt : Timestamp
  deriving DecidableEq

/-- The platform's row of an order. -/
structure OrderRow where
  userId : Int64
  status : String
  filledAmount : ℚ
  deriving DecidableEq

structure StoredCommand where
  feeRate : Decimal
  orderId : Int64
  userId : Int64
  orderType : String
  orderSide : String
  baseMint : String
  quoteMint : String
  price : Option Decimal
  amount : Option Decimal
  quoteAmount : Option Decimal
  acceptedAt : Timestamp

structure OrderAcceptance where
  orderId : String
  userId : String
  receiptStatus : String
  acceptedAt : Timestamp
  deriving DecidableEq

structure AcceptanceResult where
  receipt : OrderAcceptance
  created : Bool
  feeRate : Decimal

/-- Read an optional amount without rounding. -/
def readOptionalDecimal (text : Option String) (column : String) :
    Except Fault (Option Decimal) :=
  match text with
  | none => pure none
  | some text => do
    let value ← Startup.readDecimal text column
    pure (some value)

def CommandRow.decode (row : CommandRow) : Except Fault StoredCommand := do
  let feeRate ← orErr (← readOptionalDecimal row.feeRate "fee_rate")
    "no column found for name: fee_rate"
  let price ← readOptionalDecimal row.price "price"
  let amount ← readOptionalDecimal row.amount "amount"
  let quoteAmount ← readOptionalDecimal row.quoteAmount "quote_amount"
  pure ⟨feeRate, row.orderId, row.userId, row.orderType, row.orderSide, row.baseMint,
    row.quoteMint, price, amount, quoteAmount, row.acceptedAt⟩

namespace StoredCommand

/-- The command is the one of a request. -/
def Matches (self : StoredCommand) (request : CreateOrderRequest) : Prop :=
  some self.orderId.toUInt64 = request.orderId ∧
    self.userId.toUInt64 = request.userId ∧
    self.orderType = request.orderType ∧
    self.orderSide = request.orderSide ∧
    self.baseMint = request.baseMint ∧
    self.quoteMint = request.quoteMint.getD "USDT" ∧
    SameOption self.price request.price ∧
    SameOption self.amount request.amount ∧
    SameOption self.quoteAmount request.quoteAmount

instance (self : StoredCommand) (request : CreateOrderRequest) :
    Decidable (self.Matches request) := inferInstanceAs (Decidable (_ ∧ _))

def acceptance (self : StoredCommand) : OrderAcceptance :=
  ⟨toString self.orderId, toString self.userId, "accepted", self.acceptedAt⟩

/-- What a call returns that has found or inserted this command. -/
def result (self : StoredCommand) (created : Bool) : AcceptanceResult :=
  ⟨self.acceptance, created, self.feeRate⟩

end StoredCommand

/-! ## The statements of a call -/

/-- The rows that are committed. -/
structure Tables where
  receipts : Int64 → Option CommandRow
  submissions : Int64 → Option CommandRow
  orders : Int64 → Option OrderRow

namespace Tables

def setReceipt (tables : Tables) (orderId : Int64) (row : CommandRow) : Tables :=
  { tables with receipts := Function.update tables.receipts orderId (some row) }

def setSubmission (tables : Tables) (orderId : Int64) (row : CommandRow) : Tables :=
  { tables with submissions := Function.update tables.submissions orderId (some row) }

def setOrder (tables : Tables) (orderId : Int64) (row : OrderRow) : Tables :=
  { tables with orders := Function.update tables.orders orderId (some row) }

@[simp] theorem setReceipt_self (tables : Tables) (orderId : Int64) (row : CommandRow) :
    (tables.setReceipt orderId row).receipts orderId = some row := Function.update_self ..

theorem setReceipt_of_ne (tables : Tables) {orderId id : Int64} (row : CommandRow)
    (h : id ≠ orderId) : (tables.setReceipt orderId row).receipts id = tables.receipts id :=
  Function.update_of_ne h ..

@[simp] theorem setSubmission_self (tables : Tables) (orderId : Int64) (row : CommandRow) :
    (tables.setSubmission orderId row).submissions orderId = some row := Function.update_self ..

theorem setSubmission_of_ne (tables : Tables) {orderId id : Int64} (row : CommandRow)
    (h : id ≠ orderId) :
    (tables.setSubmission orderId row).submissions id = tables.submissions id :=
  Function.update_of_ne h ..

end Tables

/-- Where a command comes from that a call is about to commit with: a receipt that was
there, the receipt of a call that won, or a row of its own. -/
inductive Source where
  | existing
  | winner
  | own (row : CommandRow)

/-- The next statement of a call. -/
inductive Call where
  | idle
  /-- The receipt is looked up. -/
  | begun (request : CreateOrderRequest) (orderId userId : Int64)
  /-- There was no receipt; the original is read. -/
  | absent (request : CreateOrderRequest) (orderId userId : Int64)
  /-- There was no open original; the receipt is looked up again. -/
  | vanished (request : CreateOrderRequest) (orderId userId : Int64)
  /-- The original is locked and matches; the receipt is inserted. -/
  | holding (request : CreateOrderRequest) (orderId userId : Int64) (original : StoredCommand)
  /-- Another receipt was there; it is read. -/
  | lost (request : CreateOrderRequest) (orderId userId : Int64)
  /-- The transaction is committed. -/
  | found (request : CreateOrderRequest) (orderId : Int64) (stored : StoredCommand)
      (source : Source)
  | returned (request : CreateOrderRequest) (result : AcceptanceResult)
  | failed (request : CreateOrderRequest) (refusal : Refusal)

/-- A positive identifier in the range of `BIGINT`. -/
def bigint (id : UInt64) : Option Int64 := if 0 < id ∧ id ≤ maxI64 then some id.toInt64 else none

/-- The checks before the transaction. -/
def begin_ (request : CreateOrderRequest) : Call :=
  match request.orderId.bind bigint, bigint request.userId with
  | some orderId, some userId => .begun request orderId userId
  | _, _ => .failed request .invalid

/-- A receipt that a query has returned. -/
def checkReceipt (request : CreateOrderRequest) (orderId : Int64) (row : CommandRow)
    (source : Source) : Call :=
  match row.decode with
  | .error _ => .failed request .database
  | .ok existing =>
    if existing.Matches request then .found request orderId existing source
    else .failed request .conflict

def lookup (tables : Tables) (request : CreateOrderRequest) (orderId userId : Int64) : Call :=
  match tables.receipts orderId with
  | some row => checkReceipt request orderId row .existing
  | none => .absent request orderId userId

/-- The original of an open order. -/
def original (tables : Tables) (orderId userId : Int64) : Option CommandRow :=
  match tables.submissions orderId, tables.orders orderId with
  | some s, some o =>
    if s.userId = userId ∧ o.userId = userId ∧ o.status = "pending" ∧ o.filledAmount = 0 then some s
    else none
  | _, _ => none

/-- The checks on the original. -/
def checkOriginal (request : CreateOrderRequest) (orderId userId : Int64) (row : CommandRow) :
    Call :=
  match row.decode with
  | .error _ => .failed request .database
  | .ok original =>
    if original.Matches request then
      match fee Decimal.ZERO original.feeRate with
      | .ok _ => .holding request orderId userId original
      | .error fault => .failed request (.fee fault)
    else .failed request .conflict

def readOriginal (tables : Tables) (request : CreateOrderRequest) (orderId userId : Int64) : Call :=
  match original tables orderId userId with
  | some row => checkOriginal request orderId userId row
  | none => .vanished request orderId userId

def lookupAgain (tables : Tables) (request : CreateOrderRequest) (orderId : Int64) : Call :=
  match tables.receipts orderId with
  | some row => checkReceipt request orderId row .existing
  | none => .failed request .invalid

section Numeric

variable (numeric : ℕ → ℕ → Decimal → Option String)

/-- The text of an optional amount that was stored; `none` if it does not fit. -/
def storeOptional (value : Option Decimal) : Option (Option String) :=
  match value with
  | none => some none
  | some value => (numeric 30 9 value).map some

/-- The row of a new receipt, under the constraints of its table. -/
def receiptRow (orderId userId : Int64) (original : StoredCommand) (acceptedAt : Timestamp) :
    Option CommandRow := do
  let price ← storeOptional numeric original.price
  let amount ← storeOptional numeric original.amount
  let quoteAmount ← storeOptional numeric original.quoteAmount
  let feeRate ← numeric 10 6 original.feeRate
  let rate ← (Startup.readDecimal feeRate "fee_rate").toOption
  guard (0 < userId ∧ (original.orderType = "buy" ∨ original.orderType = "sell") ∧
    (original.orderSide = "limit" ∨ original.orderSide = "market") ∧ 0 ≤ rate ∧
    rate < Decimal.ONE ∧ 0 < orderId)
  pure ⟨orderId, userId, original.orderType, original.orderSide, original.baseMint,
    original.quoteMint, price, amount, quoteAmount, some feeRate, acceptedAt⟩

def insert (tables : Tables) (acceptedAt : Timestamp) (request : CreateOrderRequest)
    (orderId userId : Int64) (original : StoredCommand) : Call :=
  match tables.receipts orderId with
  | some _ => .lost request orderId userId
  | none =>
    match receiptRow numeric orderId userId original acceptedAt with
    | some row => checkReceipt request orderId row (.own row)
    | none => .failed request .database

end Numeric

def readWinner (tables : Tables) (request : CreateOrderRequest) (orderId : Int64) : Call :=
  match tables.receipts orderId with
  | some row => checkReceipt request orderId row .winner
  | none => .failed request .database

/-- A commit makes the own row visible. -/
def commitTables (tables : Tables) (orderId : Int64) : Source → Tables
  | .own row => tables.setReceipt orderId row
  | _ => tables

def Source.created : Source → Bool
  | .own _ => true
  | _ => false

/-! ## Interleavings -/

/-- The committed rows and the calls. -/
structure World where
  tables : Tables
  calls : ℕ → Call

def World.set (w : World) (c : ℕ) (call : Call) : World :=
  { w with calls := Function.update w.calls c call }

namespace Call

/-- The call has inserted a receipt that is not committed yet. -/
def inserts (call : Call) (orderId : Int64) : Prop :=
  ∃ request stored row, call = .found request orderId stored (.own row)

/-- The call holds the shared locks on the rows of an order. -/
def Locks (orderId : Int64) : Call → Prop
  | .holding _ id _ _ => id = orderId
  | .lost _ id _ => id = orderId
  | .found _ id _ .winner => id = orderId
  | .found _ id _ (.own _) => id = orderId
  | _ => False

/-- The call has begun with a request and not ended. -/
def Runs (request : CreateOrderRequest) : Call → Prop
  | .begun r _ _ | .absent r _ _ | .vanished r _ _ | .holding r _ _ _ | .lost r _ _
  | .found r _ _ _ => r = request
  | _ => False

end Call

/-- One statement of one call, or a change of the platform. -/
inductive Step (numeric : ℕ → ℕ → Decimal → Option String) : World → World → Prop
  | begin_ {w : World} {c : ℕ} (request : CreateOrderRequest) (here : w.calls c = .idle) :
      Step numeric w (w.set c (begin_ request))
  | lookup {w : World} {c : ℕ} {request : CreateOrderRequest} {orderId userId : Int64}
      (here : w.calls c = .begun request orderId userId) :
      Step numeric w (w.set c (lookup w.tables request orderId userId))
  | readOriginal {w : World} {c : ℕ} {request : CreateOrderRequest} {orderId userId : Int64}
      (here : w.calls c = .absent request orderId userId) :
      Step numeric w (w.set c (readOriginal w.tables request orderId userId))
  | lookupAgain {w : World} {c : ℕ} {request : CreateOrderRequest} {orderId userId : Int64}
      (here : w.calls c = .vanished request orderId userId) :
      Step numeric w (w.set c (lookupAgain w.tables request orderId))
  /-- The key is free: no other transaction has inserted it and is still open. -/
  | insert {w : World} {c : ℕ} {request : CreateOrderRequest} {orderId userId : Int64}
      {original : StoredCommand} (acceptedAt : Timestamp)
      (here : w.calls c = .holding request orderId userId original)
      (free : ∀ d, ¬ (w.calls d).inserts orderId) :
      Step numeric w (w.set c (insert numeric w.tables acceptedAt request orderId userId original))
  | readWinner {w : World} {c : ℕ} {request : CreateOrderRequest} {orderId userId : Int64}
      (here : w.calls c = .lost request orderId userId) :
      Step numeric w (w.set c (readWinner w.tables request orderId))
  /-- The transaction is committed; `told` is whether the call learns it. -/
  | commit {w : World} {c : ℕ} {request : CreateOrderRequest} {orderId : Int64}
      {stored : StoredCommand} {source : Source} (told : Bool)
      (here : w.calls c = .found request orderId stored source) :
      Step numeric w
        (World.set { w with tables := commitTables w.tables orderId source } c
          (if told then .returned request (stored.result source.created)
          else .failed request .database))
  /-- A statement fails, and the transaction is rolled back. -/
  | rollback {w : World} {c : ℕ} {request : CreateOrderRequest}
      (running : (w.calls c).Runs request) :
      Step numeric w (w.set c (.failed request .database))
  /-- The platform adds an order. -/
  | submit {w : World} {orderId : Int64} (submission : CommandRow) (order : OrderRow)
      (new : w.tables.submissions orderId = none) :
      Step numeric w { w with tables :=
        (w.tables.setSubmission orderId { submission with orderId }).setOrder orderId order }
  /-- The platform moves an order on. -/
  | progress {w : World} {orderId : Int64} (order : OrderRow)
      (unlocked : ∀ d, ¬ (w.calls d).Locks orderId) :
      Step numeric w { w with tables := w.tables.setOrder orderId order }
  /-- The platform changes the fee rate of a submission. -/
  | reprice {w : World} {orderId : Int64} {submission : CommandRow} (feeRate : Option String)
      (stored : w.tables.submissions orderId = some submission)
      (unlocked : ∀ d, ¬ (w.calls d).Locks orderId) :
      Step numeric w { w with tables :=
        w.tables.setSubmission orderId { submission with feeRate } }

/-- Before the first call: no receipts, and submissions under their own identifiers. -/
structure World.Initial (w : World) : Prop where
  receipts : ∀ orderId, w.tables.receipts orderId = none
  submissions : ∀ orderId row, w.tables.submissions orderId = some row → row.orderId = orderId
  idle : ∀ c, w.calls c = .idle

inductive Reachable (numeric : ℕ → ℕ → Decimal → Option String) (start : World) : World → Prop
  | start : Reachable numeric start start
  | step {w w' : World} (reached : Reachable numeric start w) (step : Step numeric w w') :
      Reachable numeric start w'

end OrderReceipt

end CexEngine
