import CexEngine.Runtime.Submission

/-!
# The commands of the core

`journal.rs`, with `withdrawal.rs`, `deposit.rs`, `cancel_order` of `threads.rs`
and `OutputBatch::submitted` of `output.rs`.  `Journal.apply` is the only function
that changes the engine state: the live core calls it once per command, and the
recovery calls it once per stored record.

Every function here holds a mutable borrow of the state and is written in `Mut`,
so a call that stops with an error keeps what it wrote before.
-/

namespace CexEngine

open Foundation Amount

/-! ## Commands -/

structure DepositCredit where
  depositId : Uuid
  userId : UInt64
  asset : String
  amount : Decimal
  deriving DecidableEq

/-- The derived equality of credits. -/
def DepositCredit.Same (a b : DepositCredit) : Prop :=
  a.depositId = b.depositId ∧ a.userId = b.userId ∧ a.asset = b.asset ∧ a.amount ≈ b.amount

instance (a b : DepositCredit) : Decidable (a.Same b) := inferInstanceAs (Decidable (_ ∧ _))

structure WithdrawalFunds where
  withdrawalId : Uuid
  userId : UInt64
  asset : String
  amount : Decimal
  deriving DecidableEq

/-- The derived equality of withdrawal contents. -/
def WithdrawalFunds.Same (a b : WithdrawalFunds) : Prop :=
  a.withdrawalId = b.withdrawalId ∧ a.userId = b.userId ∧ a.asset = b.asset ∧ a.amount ≈ b.amount

instance (a b : WithdrawalFunds) : Decidable (a.Same b) := inferInstanceAs (Decidable (_ ∧ _))

inductive WithdrawalAction where
  | reserve
  | release
  | complete
  deriving DecidableEq

structure WithdrawalCommand where
  action : WithdrawalAction
  funds : WithdrawalFunds
  deriving DecidableEq

inductive Command where
  | withdrawal (command : WithdrawalCommand)
  | creditDeposit (credit : DepositCredit)
  | submit (order : OrderEntry)
  | cancel (orderId userId : UInt64) (pair : TradingPair)
  | balance (userId : UInt64) (mint : String) (delta : Decimal)
  | lock (userId : UInt64) (mint : String) (amount : Decimal)
  | unlock (userId : UInt64) (mint : String) (amount : Decimal)
  deriving DecidableEq

/-! ## Outcomes -/

/-- A trade as it is published, with the fees taken from its two sides. -/
structure TradeOutput where
  trade : MatchResult
  buyerFee : Decimal
  sellerFee : Decimal
  deriving DecidableEq

inductive OutputBatch where
  | withdrawalChanged (command : WithdrawalCommand)
  | withdrawalRejected (funds : WithdrawalFunds) (reason : String)
  | depositCredited (credit : DepositCredit)
  | submitted (orderId : UInt64) (trades : List TradeOutput) (completion : Option MarketCompletion)
  | cancelled (order : OrderEntry)
  | rejected (order : OrderEntry) (reason : String)
  deriving DecidableEq

inductive Outcome where
  | applied (output : Option OutputBatch)
  | failed (reason : String)
  | duplicateCancellation (order : OrderEntry)
  deriving DecidableEq

/-- The published form of a trade.  The fees are computed a second time here. -/
def tradeOutput (trade : MatchResult) : Except Fault TradeOutput := do
  let buyerFee ← expectOk (fee trade.amount trade.buyerFeeRate) "validated fee"
  let value ← expectOk (quote trade.price trade.amount) "validated value"
  let sellerFee ← expectOk (fee value trade.sellerFeeRate) "validated fee"
  pure ⟨trade, buyerFee, sellerFee⟩

def tradeOutputs : List MatchResult → Except Fault (List TradeOutput)
  | [] => pure []
  | trade :: trades => do
    let output ← tradeOutput trade
    let outputs ← tradeOutputs trades
    pure (output :: outputs)

/-- `OutputBatch::submitted`. -/
def OutputBatch.ofSubmission (applied : AppliedSubmission) : Except Fault OutputBatch := do
  let trades ← tradeOutputs applied.matchList
  pure (.submitted applied.orderId trades applied.completion)

/-! ## The engine state -/

/-- The stages of a withdrawal. -/
inductive Status where
  | reserved
  | released
  | completed
  | rejected (reason : String)
  deriving DecidableEq

structure WithdrawalReceipt where
  original : WithdrawalFunds
  status : Status
  deriving DecidableEq

structure DepositReceipt where
  original : DepositCredit
  rejection : Option String
  deriving DecidableEq

structure EngineState where
  withdrawalReceipts : Finmap fun _ : Uuid => WithdrawalReceipt
  depositReceipts : Finmap fun _ : Uuid => DepositReceipt
  submissions : Finmap fun _ : UInt64 => OrderEntry
  cancellations : Finmap fun _ : UInt64 => OrderEntry
  orderbooks : Books
  executor : Executor

namespace EngineState

def new : EngineState :=
  { withdrawalReceipts := ∅
    depositReceipts := ∅
    submissions := ∅
    cancellations := ∅
    orderbooks := ∅
    executor := Executor.new }

/-- The balances of the state. -/
def cache (state : EngineState) : BalanceCache := state.executor.balanceCache

def setCache (cache : BalanceCache) (state : EngineState) : EngineState :=
  { state with executor := ⟨cache⟩ }

/-- Run a call on the books and the executor. -/
def onMarket {α : Type} (x : Mut (Books × Executor) α) : Mut EngineState α :=
  Mut.zoom (fun s => (s.orderbooks, s.executor))
    (fun m s => { s with orderbooks := m.1, executor := m.2 }) x

/-- Run a call on the executor. -/
def onExecutor {α : Type} (x : Mut Executor α) : Mut EngineState α :=
  Mut.zoom executor (fun e s => { s with executor := e }) x

/-- Run a call on the balances. -/
def onCache {α : Type} (x : Mut BalanceCache α) : Mut EngineState α :=
  Mut.zoom cache setCache x

end EngineState

/-! ## Withdrawals -/

namespace Withdrawal

/-- The asset test of withdrawals: upper-case letters and digits. -/
def ValidWithdrawalAsset (asset : String) : Prop :=
  asset ≠ "" ∧ asset.utf8ByteSize ≤ 128 ∧ asset.toList.all (fun c => c.isUpper || c.isDigit) = true

instance (asset : String) : Decidable (ValidWithdrawalAsset asset) :=
  inferInstanceAs (Decidable (_ ∧ _))

/-- The format checks of a withdrawal command. -/
def checkFormat (funds : WithdrawalFunds) : Except Fault Unit := do
  ensure (funds.withdrawalId ≠ 0 ∧ 0 < funds.userId ∧ funds.userId ≤ maxI64)
    "Invalid withdrawal identity"
  ensure (ValidWithdrawalAsset funds.asset) "Invalid withdrawal asset"
  ensure (0 < funds.amount) "Withdrawal amount must be positive"
  let _ ← units funds.amount
  pure ()

/-- The check against the receipt: `some` answers the command at once, `none`
lets it proceed. -/
def checkReceipt (receipt : Option WithdrawalReceipt) (command : WithdrawalCommand) :
    Except Fault (Option (Option OutputBatch)) :=
  match receipt with
  | some receipt => do
    ensure (receipt.original.Same command.funds)
      "Withdrawal id conflicts with original financial content"
    match receipt.status, command.action with
    | .rejected reason, _ => .error (.err reason)
    | .reserved, .reserve => pure (some none)
    | .released, .release => pure (some none)
    | .completed, .complete => pure (some none)
    | .reserved, _ => pure none
    | _, _ => .error (.err "Withdrawal reservation is already finalized")
  | none => do
    ensure (command.action = .reserve) "Withdrawal reservation does not exist"
    pure none

/-- Remove a completed amount from the locked balance. -/
def completeBalance (funds : WithdrawalFunds) : Mut BalanceCache Unit := do
  let old ← orErr ((← get).getBalance funds.userId funds.asset) "Missing withdrawal balance"
  let next ← subtract old.locked funds.amount
  modify fun cache => cache.getBalanceMut funds.userId funds.asset fun b => { b with locked := next }

def putReceipt (funds : WithdrawalFunds) (status : Status) (state : EngineState) : EngineState :=
  { state with
    withdrawalReceipts := state.withdrawalReceipts.insert funds.withdrawalId ⟨funds, status⟩ }

def nextStatus : WithdrawalAction → Status
  | .reserve => .reserved
  | .release => .released
  | .complete => .completed

def apply (command : WithdrawalCommand) : Mut EngineState (Option OutputBatch) := do
  let funds := command.funds
  checkFormat funds
  match ← checkReceipt ((← get).withdrawalReceipts.lookup funds.withdrawalId) command with
  | some answer => pure answer
  | none =>
    match command.action with
    | .reserve =>
      match ← (EngineState.onCache
          (BalanceCache.lockBalance funds.userId funds.asset funds.amount)).attempt with
      | .error reason =>
        modify (putReceipt funds (.rejected reason))
        pure (some (.withdrawalRejected funds reason))
      | .ok _ =>
        modify (putReceipt funds (nextStatus command.action))
        pure (some (.withdrawalChanged command))
    | .release =>
      EngineState.onCache (BalanceCache.unlockBalance funds.userId funds.asset funds.amount)
      modify (putReceipt funds (nextStatus command.action))
      pure (some (.withdrawalChanged command))
    | .complete =>
      EngineState.onCache (completeBalance funds)
      modify (putReceipt funds (nextStatus command.action))
      pure (some (.withdrawalChanged command))

end Withdrawal

/-! ## Deposits -/

namespace Deposit

/-- The format checks of a deposit. -/
def checkFormat (credit : DepositCredit) : Except Fault Unit := do
  ensure (credit.depositId ≠ 0 ∧ 0 < credit.userId) "Invalid deposit identity"
  ensure (credit.asset ≠ "" ∧ credit.asset.utf8ByteSize ≤ 128 ∧ trim credit.asset = credit.asset)
    "Invalid deposit asset"
  ensure (0 < credit.amount) "Deposit amount must be positive"
  let _ ← units credit.amount
  pure ()

/-- Add a credit to the available balance. -/
def creditBalance (credit : DepositCredit) : Mut BalanceCache (Option OutputBatch) := do
  let old := (((← get).getBalance credit.userId credit.asset).map (·.available)).getD 0
  let next ← add old credit.amount
  modify fun cache =>
    cache.getBalanceMut credit.userId credit.asset fun b => { b with available := next }
  pure (some (.depositCredited credit))

def putReceipt (credit : DepositCredit) (rejection : Option String) (state : EngineState) :
    EngineState :=
  { state with depositReceipts := state.depositReceipts.insert credit.depositId ⟨credit, rejection⟩ }

def apply (credit : DepositCredit) : Mut EngineState (Option OutputBatch) := do
  match (← get).depositReceipts.lookup credit.depositId with
  | some receipt =>
    ensure (receipt.original.Same credit) "Deposit id conflicts with original financial content"
    match receipt.rejection with
    | some reason => throw (.err reason)
    | none => pure none
  | none =>
    checkFormat credit
    match ← (EngineState.onCache (creditBalance credit)).attempt with
    | .ok output =>
      modify (putReceipt credit none)
      pure output
    | .error reason =>
      modify (putReceipt credit (some reason))
      throw (.err reason)

end Deposit

/-! ## Cancellations -/

namespace Threads

/-- The first order with an id on a side, with its level. -/
def findResting (side : OrderBookSide) (orderId : UInt64) : Option (Decimal × OrderEntry) :=
  side.orders.entries.findSome? fun level =>
    (level.2.find? fun order => order.id == orderId).map fun order => (level.1, order)

/-- The first order with an id in a book: its level, its side and the order. -/
def findInBook (book : OrderBook) (orderId : UInt64) : Option (Decimal × Bool × OrderEntry) :=
  ((findResting book.buyOrders orderId).map fun r => (r.1, true, r.2)).or
    ((findResting book.sellOrders orderId).map fun r => (r.1, false, r.2))

/-- The checks on the order found. -/
def checkCancel (userId : UInt64) (pair : TradingPair) (level : Decimal) (buy : Bool)
    (found : OrderEntry) : Except Fault Unit := do
  ensure (found.userId = userId) "Unauthorized cancellation"
  ensure (found.orderSide = "limit" ∧ found.orderType = if buy then "buy" else "sell")
    "Invalid resting order kind"
  ensure (SameOption found.price (some level) ∧ 0 < level ∧ 0 < found.remainingAmount)
    "Invalid resting order price or remaining quantity"
  ensure (found.baseMint = pair.baseMint ∧ found.quoteMint = pair.quoteMint)
    "Resting order market differs from book"

/-- The part of a cancellation that only reads: the book, the order with its level
and side, and the amount to unlock. -/
def prepareCancel (orderId userId : UInt64) (pair : TradingPair) (books : Books) :
    Except Fault (OrderBook × Decimal × Bool × OrderEntry × Decimal) := do
  let book ← orErr (books.lookup pair) "OrderBook not found"
  let (level, buy, found) ← orErr (findInBook book orderId) "Order not found"
  checkCancel userId pair level buy found
  let unlock ← if buy then quote level found.remainingAmount else pure found.remainingAmount
  ensure (0 < (book.side buy).totalOrders) "Invalid order counter"
  pure (book, level, buy, found, unlock)

def cancelOrder (orderId userId : UInt64) (pair : TradingPair) :
    Mut (Books × Executor) OrderEntry := do
  let (book, level, buy, found, unlock) ← prepareCancel orderId userId pair (← get).1
  let asset := if buy then found.quoteMint else found.baseMint
  Mut.zoom Prod.snd (fun e m => (m.1, e))
    (Executor.unlockBalanceForCancel orderId userId asset unlock)
  let (removed, side) ← (book.side buy).removeOrder orderId level
  let _ ← expect removed "validated order remains during exclusive borrow"
  modify fun m => (m.1.insert pair (book.setSide buy side), m.2)
  pure found

end Threads

/-! ## Execution -/

namespace Journal

/-- Add a delta to an available balance. -/
def changeBalance (userId : UInt64) (mint : String) (delta : Decimal) : Mut BalanceCache Unit := do
  let old := (((← get).getBalance userId mint).map (·.available)).getD 0
  let next ← if 0 ≤ delta then add old delta else subtract old delta.abs
  modify fun cache => cache.getBalanceMut userId mint fun b => { b with available := next }

/-- A submission under an id that was submitted before. -/
def resubmit (original order : OrderEntry) : Except Fault (Option OutputBatch) := do
  ensure (({ order with createdAt := original.createdAt } : OrderEntry).Same original)
    "Order id is already bound to another command"
  pure none

/-- Remember a submission under its id, before it is executed. -/
def recorded (order : OrderEntry) (state : EngineState) : EngineState :=
  { state with submissions := state.submissions.insert order.id order }

def execute : Command → Mut EngineState (Option OutputBatch)
  | .withdrawal command => Withdrawal.apply command
  | .creditDeposit credit => Deposit.apply credit
  | .submit order => do
    match (← get).submissions.lookup order.id with
    | some original => resubmit original order
    | none =>
      modify (recorded order)
      match ← (EngineState.onMarket (Submission.apply order)).attempt with
      | .ok applied => do
        let batch ← OutputBatch.ofSubmission applied
        pure (some batch)
      | .error reason => pure (some (.rejected order reason))
  | .cancel orderId userId pair => do
    let order ← EngineState.onMarket (Threads.cancelOrder orderId userId pair)
    modify fun s => { s with cancellations := s.cancellations.insert orderId order }
    pure (some (.cancelled order))
  | .balance userId mint delta => do
    ensure (0 < userId ∧ mint ≠ "" ∧ trim mint = mint) "Invalid balance account"
    EngineState.onCache (changeBalance userId mint delta)
    pure none
  | .lock userId mint amount => do
    EngineState.onExecutor (Executor.lockBalanceForOrder 0 userId mint amount)
    pure none
  | .unlock userId mint amount => do
    EngineState.onExecutor (Executor.unlockBalanceForCancel 0 userId mint amount)
    pure none

/-- The answer to a repeated cancellation, before anything is executed. -/
def repeatedCancel (state : EngineState) : Command → Option Outcome
  | .cancel orderId userId pair =>
    (state.cancellations.lookup orderId).map fun order =>
      if order.userId = userId ∧ order.baseMint = pair.baseMint ∧
          order.quoteMint = pair.quoteMint then .duplicateCancellation order
      else .failed "Unauthorized cancellation"
  | _ => none

def apply (command : Command) : Mut EngineState Outcome := do
  match repeatedCancel (← get) command with
  | some outcome => pure outcome
  | none =>
    match ← (execute command).attempt with
    | .ok output => pure (.applied output)
    | .error reason => pure (.failed reason)

/-- Execute a sequence of commands and collect the outcomes. -/
def applyAll : List Command → Mut EngineState (List Outcome)
  | [] => pure []
  | command :: commands => do
    let outcome ← apply command
    let outcomes ← applyAll commands
    pure (outcome :: outcomes)

end Journal

end CexEngine
