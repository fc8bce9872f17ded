import CexEngine.Engine.Types
import Mathlib.Data.List.AList

/-!
# Balances and settlement

`balance_cache.rs` and `balance_cache/settlement.rs`.  The cache maps an account
to its available and its locked amount.  The functions that hold a mutable borrow
of the cache are written in `Mut BalanceCache`, with each write where the source
has it; what they guarantee is proved in `CexEngine.Engine.Ledger`.
-/

namespace CexEngine

open Foundation Amount

structure Balance where
  available : Decimal
  locked : Decimal
  deriving DecidableEq

namespace Balance

def new : Balance := ⟨0, 0⟩

end Balance

structure BalanceCache where
  balances : Finmap fun _ : Account => Balance

namespace BalanceCache

def new : BalanceCache := ⟨∅⟩

def getBalance (self : BalanceCache) (userId : UInt64) (mint : String) : Option Balance :=
  self.balances.lookup (userId, mint)

def setBalance (self : BalanceCache) (userId : UInt64) (mint : String)
    (available locked : Decimal) : BalanceCache :=
  ⟨self.balances.insert (userId, mint) ⟨available, locked⟩⟩

/-- A write through `get_balance_mut`: the account is created at zero first. -/
def getBalanceMut (self : BalanceCache) (userId : UInt64) (mint : String)
    (write : Balance → Balance) : BalanceCache :=
  ⟨self.balances.insert (userId, mint) (write ((self.getBalance userId mint).getD Balance.new))⟩

/-! ## Reservations -/

/-- Move an amount between available and locked. -/
def changeReservation (userId : UInt64) (mint : String) (value : Decimal) (lock : Bool) :
    Mut BalanceCache Unit := do
  ensure (0 < value) "Reservation amount must be positive"
  let _ ← units value
  let balance ← orErr ((← get).getBalance userId mint) "Missing reservation balance"
  let (available, locked) ←
    if lock then do
      let available ← subtract balance.available value
      let locked ← add balance.locked value
      pure (available, locked)
    else do
      let available ← add balance.available value
      let locked ← subtract balance.locked value
      pure (available, locked)
  modify fun self => self.setBalance userId mint available locked

def lockBalance (userId : UInt64) (mint : String) (amount : Decimal) : Mut BalanceCache Unit :=
  changeReservation userId mint amount true

def unlockBalance (userId : UInt64) (mint : String) (amount : Decimal) : Mut BalanceCache Unit :=
  changeReservation userId mint amount false

/-! ## Working copies -/

/-- Copy an account into a working copy that does not hold it yet. -/
def copyAccountFrom (self source : BalanceCache) (user : UInt64) (asset : String) :
    BalanceCache :=
  match self.getBalance user asset with
  | some _ => self
  | none =>
    match source.getBalance user asset with
    | some balance => self.setBalance user asset balance.available balance.locked
    | none => self

/-- Write every account of a working copy back. -/
def commitPrepared (self prepared : BalanceCache) : BalanceCache :=
  ⟨prepared.balances ∪ self.balances⟩

/-! ## Settlement -/

/-- One of the four balance changes of a trade. -/
structure Change where
  user : UInt64
  asset : String
  availableDelta : ℤ
  lockedDelta : ℤ

/-- The staged units of the accounts a trade touches. -/
abbrev Staged := AList fun _ : Account => ℤ × ℤ

/-- Read an account into the staging area on its first use. -/
def stageAccount (self : BalanceCache) (staged : Staged) (key : Account) : Except Fault Staged :=
  match staged.lookup key with
  | some _ => pure staged
  | none => do
    let balance := (self.balances.lookup key).getD Balance.new
    let available ← units balance.available
    let locked ← units balance.locked
    pure (staged.insert key (available, locked))

/-- One round of the staging loop. -/
def stageChange (self : BalanceCache) (staged : Staged) (change : Change) :
    Except Fault Staged := do
  let key : Account := (change.user, change.asset)
  let staged ← stageAccount self staged key
  let balance ← expect (staged.lookup key) "staged balance exists"
  let available ← orErr (checkedI128 (balance.1 + change.availableDelta)) "Available overflow"
  let locked ← orErr (checkedI128 (balance.2 + change.lockedDelta)) "Locked overflow"
  ensure (0 ≤ available ∧ 0 ≤ locked) "Insufficient settlement balance"
  ensure (available ≤ maxUnits ∧ locked ≤ maxUnits) "Settlement balance exceeds NUMERIC(30,9)"
  pure (staged.insert key (available, locked))

def stageChanges (self : BalanceCache) : Staged → List Change → Except Fault Staged
  | staged, [] => pure staged
  | staged, change :: changes => do
    let staged ← stageChange self staged change
    stageChanges self staged changes

/-- Convert every staged account back before anything is written. -/
def prepareStaged : List (Σ _ : Account, ℤ × ℤ) → Except Fault (List (Account × Balance))
  | [] => pure []
  | ⟨key, units⟩ :: staged => do
    let available ← decimal units.1
    let locked ← decimal units.2
    let prepared ← prepareStaged staged
    pure ((key, ⟨available, locked⟩) :: prepared)

/-- The fees of a trade and its price, in units: the amount, its quote, the
buyer's fee and the seller's fee. -/
def tradeUnits (trade : MatchResult) : Except Fault (ℤ × ℤ × ℤ × ℤ) := do
  let amount ← units trade.amount
  let value ← units (← quote trade.price trade.amount)
  let buyerFee ← units (← fee trade.amount trade.buyerFeeRate)
  let sellerFee ← units (← fee (← quote trade.price trade.amount) trade.sellerFeeRate)
  pure (amount, value, buyerFee, sellerFee)

/-- The four changes of a trade.  Fees are taken out of what is received. -/
def tradeChanges (trade : MatchResult) (amount value buyerFee sellerFee : ℤ) : List Change :=
  [⟨trade.buyerId, trade.quoteMint, 0, -value⟩,
    ⟨trade.sellerId, trade.quoteMint, value - sellerFee, 0⟩,
    ⟨trade.sellerId, trade.baseMint, 0, -amount⟩,
    ⟨trade.buyerId, trade.baseMint, amount - buyerFee, 0⟩]

def settleTrade (trade : MatchResult) : Mut BalanceCache Unit := do
  ensure (0 < trade.buyerId ∧ 0 < trade.sellerId) "Invalid settlement user"
  ensure (0 < trade.buyOrderId ∧ 0 < trade.sellOrderId ∧ trade.buyOrderId ≠ trade.sellOrderId)
    "Invalid settlement order ids"
  ensure (ValidAsset trade.baseMint) "Invalid settlement asset"
  ensure (ValidAsset trade.quoteMint) "Invalid settlement asset"
  ensure (trade.baseMint ≠ trade.quoteMint) "Settlement assets must differ"
  ensure (0 < trade.price ∧ 0 < trade.amount) "Settlement price and amount must be positive"
  let (amount, value, buyerFee, sellerFee) ← tradeUnits trade
  let staged ← stageChanges (← get) ∅ (tradeChanges trade amount value buyerFee sellerFee)
  let prepared ← prepareStaged staged.entries
  modify fun self =>
    ⟨prepared.foldl (fun balances entry => balances.insert entry.1 entry.2) self.balances⟩

end BalanceCache

/-! ## The owner of the cache -/

structure Executor where
  balanceCache : BalanceCache

namespace Executor

def new : Executor := ⟨BalanceCache.new⟩

/-- Run a call on the executor's cache. -/
def onCache {α : Type} (x : Mut BalanceCache α) : Mut Executor α :=
  Mut.zoom balanceCache (fun cache _ => ⟨cache⟩) x

def lockBalanceForOrder (orderId userId : UInt64) (mint : String) (amount : Decimal) :
    Mut Executor Unit :=
  (onCache (BalanceCache.lockBalance userId mint amount)).context
    s!"Failed to lock balance for order {orderId}"

def unlockBalanceForCancel (orderId userId : UInt64) (mint : String) (amount : Decimal) :
    Mut Executor Unit :=
  (onCache (BalanceCache.unlockBalance userId mint amount)).context
    s!"Failed to unlock balance for order {orderId}"

end Executor

end CexEngine
