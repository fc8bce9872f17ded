import CexEngine.Runtime.Journal
import Mathlib.Data.Finset.Sort
import Mathlib.Data.Prod.Lex
import Mathlib.Data.String.Basic

/-!
# The journal on disk

`startup.rs`, `journal/store.rs` and the `Pending` items of `journal.rs`.  A journal
starts from balances of the platform's database, which are checked once
(`Startup.loadBalances`) and kept as its genesis.  Afterwards every executed command
is appended with its outcome, and `Store.recover` rebuilds the state by executing the
records again and comparing the outcomes.

The tables are modelled by their rows: a primary key is the key of a sorted map, so
`ORDER BY` is the order of the entries.  The encodings are not part of this
repository; they are the fields of a `Codec`.
-/

namespace CexEngine

open Foundation Foundation.DigitText Amount

/-! ## Startup -/

namespace Startup

/-- A row of `user_balances`, with the amounts as text. -/
structure BalanceRow where
  userId : Int64
  mintAddress : String
  available : String
  locked : String

/-- What one snapshot of the platform's database shows at startup. -/
structure Platform where
  receipt : Option Int64
  received : Option String
  attempted : Option String
  withdrawal : Option String
  withdrawalAttempt : Option String
  unresolvedOrder : Option (Int64 × Option String)
  userBalances : List BalanceRow

/-- Read an amount without rounding.  Only the zeros of a fraction are dropped. -/
def readDecimal (text column : String) : Except Fault Decimal :=
  let normalized := if text.toList.contains '.' then trimText text.toList else text.toList
  orErr (Decimal.fromStrExact normalized) s!"error occurred while decoding column {column}"

/-- The checks on one row, and its account. -/
def loadRow (balances : BalanceCache) (row : BalanceRow) : Except Fault BalanceCache := do
  ensure (0 < row.userId) "Engine startup blocked: invalid user id"
  let userId := row.userId.toUInt64
  let mint := row.mintAddress
  let available ← readDecimal row.available "available"
  let locked ← readDecimal row.locked "locked"
  ensure (mint ≠ "" ∧ trim mint = mint)
    s!"Engine startup blocked: invalid asset identifier for user={userId}"
  ensure (0 ≤ available ∧ 0 ≤ locked)
    s!"Engine startup blocked: negative balance for user={userId}, mint={mint}"
  ensure (available < .ofScaled 1000000000000000000000 0 ∧ available.normalize.scale ≤ 9)
    "Engine startup blocked: available exceeds NUMERIC(30,9)"
  ensure (locked ≈ 0)
    s!"Engine startup blocked: unresolved locked balance for user={userId}, mint={mint}; authoritative replay is required"
  ensure ((balances.getBalance userId mint).isNone = true)
    s!"Engine startup blocked: duplicate balance for user={userId}, mint={mint}"
  pure (balances.setBalance userId mint available locked)

def loadRows : List BalanceRow → BalanceCache → Except Fault BalanceCache
  | [], balances => pure balances
  | row :: rows, balances => do
    let balances ← loadRow balances row
    loadRows rows balances

/-- The text of an order that blocks the startup. -/
def unresolvedText (order : Int64 × Option String) : String :=
  let id := order.1
  let status := order.2.getD "NULL"
  s!"Engine startup blocked: unresolved order id={id}, status={status}; authoritative replay is required"

def loadBalances (platform : Platform) : Except Fault BalanceCache := do
  match platform.receipt with
  | some id => throw (.err
      s!"Engine startup blocked: durable receipt order_id={id}; authoritative replay is required")
  | none => pure ()
  ensure (platform.received.isNone = true)
    "Engine startup blocked: current engine event history exists; restore the authoritative journal"
  ensure (platform.attempted.isNone = true)
    "Engine startup blocked: native deposit dispatch history exists; restore the authoritative journal"
  ensure (platform.withdrawal.isNone = true)
    "Engine startup blocked: native withdrawal history exists; restore the authoritative journal"
  ensure (platform.withdrawalAttempt.isNone = true)
    "Engine startup blocked: native withdrawal dispatch history exists; restore the authoritative journal"
  match platform.unresolvedOrder with
  | some order => throw (.err (unresolvedText order))
  | none => pure ()
  loadRows platform.userBalances BalanceCache.new

end Startup

/-! ## Pending items -/

/-- Where the answer to a request goes, and for a query the answer itself.  A sender
is known by its number. -/
inductive Reply where
  | submit (sender : ℕ)
  | cancel (sender : ℕ)
  | unit (sender : ℕ)
  | withdrawal (sender : ℕ)
  | book (sender : ℕ) (bids asks : List OrderEntry)
  | balance (sender : ℕ) (available locked : Decimal)
  deriving DecidableEq

/-- An executed request on its way to the journal.  A query has no command. -/
structure Pending where
  command : Option Command
  outcome : Outcome
  reply : Reply
  deriving DecidableEq

/-- What a sender is sent. -/
inductive Answer where
  | done
  | order (order : OrderEntry)
  | book (bids asks : List OrderEntry)
  | balance (available locked : Decimal)
  | error (reason : String)
  deriving DecidableEq

namespace Pending

/-- The answer of an executed request. -/
def answer (pending : Pending) : ℕ × Answer :=
  match pending.reply with
  | .submit sender => (sender,
    match pending.outcome with
    | .failed reason => .error reason
    | _ => .done)
  | .cancel sender => (sender,
    match pending.outcome with
    | .applied (some (.cancelled order)) => .order order
    | .duplicateCancellation order => .order order
    | .failed reason => .error reason
    | _ => .error "Invalid cancellation outcome")
  | .withdrawal sender => (sender,
    match pending.outcome with
    | .failed reason => .error reason
    | .applied (some (.withdrawalRejected _ reason)) => .error reason
    | _ => .done)
  | .unit sender => (sender,
    match pending.outcome with
    | .failed reason => .error reason
    | _ => .done)
  | .book sender bids asks => (sender, .book bids asks)
  | .balance sender available locked => (sender, .balance available locked)

end Pending

/-! ## The tables -/

/-- The accounts a journal starts from. -/
structure Genesis where
  version : ℕ
  engineId : String
  balances : List (UInt64 × String × Decimal × Decimal)
  deriving DecidableEq

structure Record where
  sequence : ℕ
  timestamp : Timestamp
  command : Command
  outcome : Outcome
  deriving DecidableEq

/-- A stored text with its checksum. -/
structure Row where
  payload : String
  checksum : List UInt8
  deriving DecidableEq

/-- The encodings the journal is written in: JSON texts, JSON values, SHA-256, and
the syntax of identifiers. -/
structure Codec (Json : Type) where
  genesisText : Genesis → String
  parseGenesis : String → Option Genesis
  recordText : Record → String
  parseRecord : String → Option Record
  outcomeValue : Outcome → Json
  digest : String → List UInt8
  isUuid : String → Bool

/-- The rows of the three tables. -/
structure Store where
  genesis : Option Row
  records : SortedMap (fun sequence : ℤ => sequence) Row
  delivery : Option ℤ

namespace BalanceCache

/-- The order in which accounts are written: by user, then by asset. -/
def AccountLe (a b : Account) : Prop := toLex (a.1.toNat, a.2) ≤ toLex (b.1.toNat, b.2)

instance : DecidableRel AccountLe := fun a b =>
  inferInstanceAs (Decidable (toLex (a.1.toNat, a.2) ≤ toLex (b.1.toNat, b.2)))

instance : IsTrans Account AccountLe :=
  ⟨fun a b c => le_trans (a := toLex (a.1.toNat, a.2)) (b := toLex (b.1.toNat, b.2))
    (c := toLex (c.1.toNat, c.2))⟩

instance : Std.Antisymm AccountLe := ⟨fun a b hab hba => by
  have h : (a.1.toNat, a.2) = (b.1.toNat, b.2) := toLex.injective (le_antisymm hab hba)
  obtain ⟨huser, hmint⟩ := Prod.mk.inj h
  exact Prod.ext (UInt64.toNat_inj.mp huser) hmint⟩

instance : Std.Total AccountLe :=
  ⟨fun a b => le_total (toLex (a.1.toNat, a.2)) (toLex (b.1.toNat, b.2))⟩

/-- All accounts, in order. -/
def journalSeed (self : BalanceCache) : List (UInt64 × String × Decimal × Decimal) :=
  (self.balances.keys.sort AccountLe).filterMap fun account =>
    (self.balances.lookup account).map fun b => (account.1, account.2, b.available, b.locked)

end BalanceCache

namespace Store

variable {Json : Type} [DecidableEq Json] (codec : Codec Json)

/-- A store after `Store::open` has created its tables. -/
def fresh : Store := ⟨none, SortedMap.empty, some 0⟩

/-- Check the checksum of a row and parse it. -/
def decode {α : Type} (parse : String → Option α) (row : Row) : Except Fault α := do
  ensure (codec.digest row.payload = row.checksum) "Journal checksum mismatch"
  orErr (parse row.payload) "Invalid journal record"

def toU64 (value : ℤ) : Except Fault ℕ := do
  ensure (0 ≤ value) "out of range integral type conversion attempted"
  pure value.toNat

def lastSequence (store : Store) : Except Fault ℕ :=
  toU64 ((store.records.entries.getLast?.map Prod.fst).getD 0)

def delivered (store : Store) : Except Fault ℕ := do
  toU64 (← orErr store.delivery "Query returned no rows")

def initialized (store : Store) : Except Fault Bool :=
  match store.genesis with
  | some _ => pure true
  | none => do
    ensure ((← store.lastSequence) = 0 ∧ (← store.delivered) = 0)
      "Journal has records without genesis"
    pure false

/-- `Store::initialize`: write the genesis of a state that has executed nothing. -/
def initializeGenesis (engineId : String) (state : EngineState) (store : Store) : Except Fault Store := do
  ensure (¬ (← store.initialized) = true) "Journal already initialized"
  ensure (state.depositReceipts.keys = ∅ ∧ state.withdrawalReceipts.keys = ∅ ∧
      state.submissions.keys = ∅ ∧ state.cancellations.keys = ∅ ∧ state.orderbooks.keys = ∅)
    "Genesis cannot replace executed financial history"
  let payload := codec.genesisText ⟨4, engineId, state.cache.journalSeed⟩
  pure { store with genesis := some ⟨payload, codec.digest payload⟩ }

/-! ### Recovery -/

/-- One account of the genesis. -/
def restoreAccount (state : EngineState) (row : UInt64 × String × Decimal × Decimal) :
    Except Fault EngineState := do
  let (user, mint, available, locked) := row
  ensure (0 < user ∧ mint ≠ "" ∧ trim mint = mint ∧ locked ≈ 0) "Invalid genesis account"
  let _ ← units available
  ensure ((state.cache.getBalance user mint).isNone = true) "Duplicate genesis account"
  pure (state.setCache (state.cache.setBalance user mint available locked))

def restore : List (UInt64 × String × Decimal × Decimal) → EngineState → Except Fault EngineState
  | [], state => pure state
  | row :: rows, state => do
    let state ← restoreAccount state row
    restore rows state

/-- Execute one record again: the state and the outcome. -/
def replayApply (state : EngineState) (command : Command) :
    Except Fault (Outcome × EngineState) :=
  match (Journal.apply command).run state with
  | (.ok outcome, state) => .ok (outcome, state)
  | (.error fault, _) => .error fault

/-- One round of the replay: the row must have the next sequence, and its outcome
must be the one of executing its command. -/
def replayRecord (state : EngineState) (next : ℕ) (row : ℤ × Row) : Except Fault EngineState := do
  let sequence ← toU64 row.1
  ensure (sequence = next) "Journal sequence gap"
  let record ← decode codec codec.parseRecord row.2
  ensure (record.sequence = sequence) "Journal sequence mismatch"
  let (replayed, state) ← replayApply state record.command
  ensure (codec.outcomeValue replayed = codec.outcomeValue record.outcome)
    s!"Journal replay differs at sequence {sequence}"
  pure state

def replay : List (ℤ × Row) → EngineState → ℕ → Except Fault (EngineState × ℕ)
  | [], state, next => pure (state, next)
  | row :: rows, state, next => do
    let state ← replayRecord codec state next row
    replay rows state (next + 1)

def recover (store : Store) : Except Fault (EngineState × String) := do
  let genesis ← decode codec codec.parseGenesis (← orErr store.genesis "Query returned no rows")
  ensure (genesis.version = 4 ∧ codec.isUuid genesis.engineId = true) "Unsupported journal genesis"
  let state ← restore genesis.balances EngineState.new
  let (state, next) ← replay codec store.records.entries state 1
  ensure ((← store.delivered) < next) "Delivery cursor is ahead of journal"
  pure (state, genesis.engineId)

/-! ### Single records -/

def toI64 (value : ℕ) : Except Fault ℤ := do
  ensure (value ≤ maxI64.toNat) "out of range integral type conversion attempted"
  pure value

/-- The record under a sequence. -/
def read (store : Store) (sequence : ℕ) : Except Fault Record := do
  let key ← toI64 sequence
  let row ← orErr (store.records.find? key) "Query returned no rows"
  let record ← decode codec codec.parseRecord row
  ensure (record.sequence = sequence) "Journal sequence mismatch"
  pure record

/-- Move the delivery cursor to a sequence, from the one before it. -/
def markDelivered (store : Store) (sequence : ℕ) : Except Fault Store := do
  let key ← toI64 sequence
  let previous ← expect (if 0 < sequence then some (sequence - 1) else none)
    "attempt to subtract with overflow"
  let previous ← toI64 previous
  ensure (store.delivery = some previous) "Non-contiguous delivery cursor"
  pure { store with delivery := some key }

/-! ### Appending -/

/-- Insert a record under the next sequence. -/
def insertRecord (clock : ℕ → Timestamp) (records : SortedMap (fun sequence : ℤ => sequence) Row)
    (sequence : ℕ) (command : Command) (outcome : Outcome) :
    Except Fault (SortedMap (fun sequence : ℤ => sequence) Row × ℕ) := do
  ensure (sequence + 1 < 2 ^ 64) "Journal sequence exhausted"
  let next := sequence + 1
  let payload := codec.recordText ⟨next, clock next, command, outcome⟩
  ensure (next ≤ maxI64.toNat) "out of range integral type conversion attempted"
  ensure ((records.find? next).isNone = true) "UNIQUE constraint failed: records.sequence"
  pure (records.upsert next fun _ => ⟨payload, codec.digest payload⟩, next)

/-- The statements of one transaction. -/
def insertAll (clock : ℕ → Timestamp) : List Pending →
    SortedMap (fun sequence : ℤ => sequence) Row → ℕ →
    Except Fault (SortedMap (fun sequence : ℤ => sequence) Row × ℕ)
  | [], records, sequence => pure (records, sequence)
  | item :: pending, records, sequence =>
    match item.command with
    | none => insertAll clock pending records sequence
    | some command => do
      let (records, sequence) ← insertRecord codec clock records sequence command item.outcome
      insertAll clock pending records sequence

/-- Append a group of items in one transaction: all of them, or none. -/
def append (clock : ℕ → Timestamp) (pending : List Pending) (store : Store) (sequence : ℕ) :
    Except Fault (Store × ℕ) := do
  let (records, sequence) ← insertAll codec clock pending store.records sequence
  pure ({ store with records }, sequence)

/-- Append one group after the other. -/
def appendGroups (clock : ℕ → Timestamp) : List (List Pending) → Store → ℕ →
    Except Fault (Store × ℕ)
  | [], store, sequence => pure (store, sequence)
  | group :: groups, store, sequence => do
    let (store, sequence) ← append codec clock group store sequence
    appendGroups clock groups store sequence

end Store

end CexEngine
