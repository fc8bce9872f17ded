import CexEngine.Amount.Units
import Mathlib.Data.Finmap

/-!
# Orders, trades and identifiers

The data types of `types.rs`, and the two string operations the validators use.
User and order ids are `u64`, assets are arbitrary strings, and a timestamp is a
number the engine never looks into.

The derived equality of the source compares decimals by value, so it is not the
equality of the Lean records: `OrderEntry.Same` is the source's `==` on orders.
-/

namespace CexEngine

open Foundation

/-! ## Strings -/

/-- The characters of Unicode's `White_Space` property. -/
def isWhitespace (c : Char) : Bool :=
  (9 ≤ c.toNat && c.toNat ≤ 13) || c.toNat == 0x20 || c.toNat == 0x85 || c.toNat == 0xA0 ||
    c.toNat == 0x1680 || (0x2000 ≤ c.toNat && c.toNat ≤ 0x200A) || c.toNat == 0x2028 ||
    c.toNat == 0x2029 || c.toNat == 0x202F || c.toNat == 0x205F || c.toNat == 0x3000

/-- Remove the white space at both ends. -/
def trim (s : String) : String :=
  String.ofList ((s.toList.dropWhile isWhitespace).rdropWhile isWhitespace)

/-- The test on asset names of orders and settlements. -/
def ValidAsset (asset : String) : Prop :=
  asset ≠ "" ∧ trim asset = asset ∧ asset.utf8ByteSize ≤ 255

instance (asset : String) : Decidable (ValidAsset asset) := inferInstanceAs (Decidable (_ ∧ _))

/-- `i64::MAX` as a `u64`. -/
def maxI64 : UInt64 := 9223372036854775807

/-! ## Records -/

abbrev Timestamp := ℤ

/-- A 128-bit identifier; the nil identifier is zero. -/
abbrev Uuid := BitVec 128

/-- A balance is kept for a user and an asset. -/
abbrev Account := UInt64 × String

structure TradingPair where
  baseMint : String
  quoteMint : String
  deriving DecidableEq

structure OrderEntry where
  feeRate : Decimal
  id : UInt64
  userId : UInt64
  orderType : String
  orderSide : String
  baseMint : String
  quoteMint : String
  price : Option Decimal
  amount : Decimal
  quoteAmount : Option Decimal
  filledAmount : Decimal
  remainingAmount : Decimal
  remainingQuoteAmount : Option Decimal
  createdAt : Timestamp
  deriving DecidableEq

structure MatchResult where
  buyerFeeRate : Decimal
  sellerFeeRate : Decimal
  buyOrderId : UInt64
  sellOrderId : UInt64
  buyerId : UInt64
  sellerId : UInt64
  price : Decimal
  amount : Decimal
  baseMint : String
  quoteMint : String
  deriving DecidableEq

/-- The derived equality of optional decimals. -/
def SameOption (a b : Option Decimal) : Prop := a.map Decimal.raw = b.map Decimal.raw

instance (a b : Option Decimal) : Decidable (SameOption a b) :=
  inferInstanceAs (Decidable (_ = _))

namespace OrderEntry

/-- The market of an order. -/
def pair (o : OrderEntry) : TradingPair := ⟨o.baseMint, o.quoteMint⟩

/-- A new limit order on the market BTC/USDT, without fees.  The concrete runs of
the later modules are made of these. -/
def limit (id userId : UInt64) (buy : Bool) (price amount : Decimal) : OrderEntry :=
  { feeRate := 0
    id := id
    userId := userId
    orderType := if buy then "buy" else "sell"
    orderSide := "limit"
    baseMint := "BTC"
    quoteMint := "USDT"
    price := some price
    amount := amount
    quoteAmount := none
    filledAmount := 0
    remainingAmount := amount
    remainingQuoteAmount := none
    createdAt := 0 }

/-- The derived equality of orders. -/
def Same (a b : OrderEntry) : Prop :=
  a.feeRate ≈ b.feeRate ∧ a.id = b.id ∧ a.userId = b.userId ∧ a.orderType = b.orderType ∧
    a.orderSide = b.orderSide ∧ a.baseMint = b.baseMint ∧ a.quoteMint = b.quoteMint ∧
    SameOption a.price b.price ∧ a.amount ≈ b.amount ∧ SameOption a.quoteAmount b.quoteAmount ∧
    a.filledAmount ≈ b.filledAmount ∧ a.remainingAmount ≈ b.remainingAmount ∧
    SameOption a.remainingQuoteAmount b.remainingQuoteAmount ∧ a.createdAt = b.createdAt

instance (a b : OrderEntry) : Decidable (Same a b) := inferInstanceAs (Decidable (_ ∧ _))

end OrderEntry

end CexEngine
