import CexEngine.Amount.Exact
import CexEngine.Runtime.ExactlyOnce
import CexEngine.Runtime.Linearizable
import CexEngine.Services.Acceptance

/-!
# Creating an order

`create_order` of `services/order_service.rs` and of `order_handler.rs`.  A request is validated, its
receipt is inserted or found in the database of the platform, and an order is built from the
request and the receipt and submitted to the engine.  A client that is not sure of the outcome sends
its request again, so any number of these calls may run for one order, against two systems that
know nothing of each other and that fail separately: the database and the engine.

* `validate_entryOf`: what is left for the checks of the matcher on a request that was validated.
* `orderEntry_same`: two accepted requests for one order build the same order, down to the time.
* `Linked`: a submission of the engine belongs to one accepted request.
* `created_orders_confirmed`: what the answers of the handler say about the commands on the disk.

A call of `create_order` may go on after the process was restarted.  The code has no such calls;
they only add to the executions.
-/

namespace CexEngine

open Foundation Amount

/-! ## Orders in the journal -/

section Journal

variable {cache : BalanceCache} {s s' : EngineState} {order : OrderEntry} {outcome : Outcome}
  {history : List (Command × Outcome)}

/-- A first submission executes or rejects its order. -/
theorem submits_of_first (hs : s.Inv) (hrun : (Journal.apply (.submit order)).run s = (.ok outcome, s'))
    (hnew : s.submissions.lookup order.id = none) :
    submits order.id (.submit order, outcome) = true := by
  cases Journal.apply_effect hrun with
  | failed =>
    obtain ⟨reason, heq⟩ | ⟨id, trades, completion, heq⟩ := (Journal.apply_first_submit hrun hnew).2
    · cases heq
    · cases heq
  | resubmitted hlookup =>
    rw [hnew] at hlookup
    cases hlookup
  | rejected => exact beq_self_eq_true order.id
  | submitted hnew hsubmit =>
    obtain ⟨_, _, _, _, _, _, _, _, happlied, -⟩ := hs.applied hnew hsubmit
    exact beq_iff_eq.mpr happlied.orderId

/-- A submission in a run, and what is bound to its id before it. -/
theorem Run.at_submit (h : Run (.genesis cache) history s) (hmem : (.submit order, outcome) ∈ history) :
    ∃ before after mid mid', history = before ++ (.submit order, outcome) :: after ∧
      Run (.genesis cache) before mid ∧
      (Journal.apply (.submit order)).run mid = (.ok outcome, mid') ∧
      ∀ id, mid.submissions.lookup id = before.findSome? (submitOf id) := by
  obtain ⟨before, after, rfl⟩ := List.append_of_mem hmem
  obtain ⟨mid, hbefore, hrest⟩ := h.split
  cases hrest with
  | cons head _ =>
    exact ⟨before, after, mid, _, rfl, hbefore, head, fun id => hbefore.index_eq (writes_submissions id)⟩

/-- The order that is bound to an id. -/
theorem submitOf_eq_some {id : UInt64} {e : Command × Outcome} (h : submitOf id e = some order) :
    e.1 = .submit order ∧ order.id = id := by
  obtain ⟨command, outcome⟩ := e
  cases command with
  | submit other =>
    have hid : other.id = id := by
      by_contra hne
      rw [submitOf, if_neg hne] at h
      cases h
    rw [submitOf, if_pos hid, Option.some_inj] at h
    exact ⟨congrArg Command.submit h, h ▸ hid⟩
  | _ => cases h

/-- **A submitted order was executed or rejected once.** -/
theorem Run.submitted_once (hcache : cache.Valid) (h : Run (.genesis cache) history s)
    (hmem : (.submit order, outcome) ∈ history) : history.countP (submits order.id) = 1 := by
  refine le_antisymm ((h.onceOnly hcache).submitted order.id) ?_
  -- the first submission of the id
  obtain ⟨first, hfirst⟩ : ∃ first, history.findSome? (submitOf order.id) = some first := by
    refine Option.isSome_iff_exists.mp (List.findSome?_isSome_iff.mpr ⟨_, hmem, ?_⟩)
    rw [submitOf, if_pos rfl, Option.isSome_some]
  obtain ⟨before, e, after, rfl, he, hnone⟩ := List.findSome?_eq_some_iff.mp hfirst
  obtain ⟨mid, hbefore, hrest⟩ := h.split
  obtain ⟨hcommand, hid⟩ := submitOf_eq_some he
  refine Nat.one_le_iff_ne_zero.mpr fun hzero => ?_
  refine List.countP_eq_zero.mp hzero e (List.mem_append_right _ (List.mem_cons_self ..)) ?_
  cases hrest with
  | cons head _ =>
    obtain rfl : _ = Command.submit first := hcommand
    rw [← hid]
    refine submits_of_first (hbefore.inv (EngineState.inv_genesis hcache)) head ?_
    have hindex : mid.submissions.lookup first.id = before.findSome? (submitOf first.id) :=
      hbefore.index_eq (writes_submissions first.id)
    rw [hindex, hid]
    exact List.findSome?_eq_none_iff.mpr hnone

theorem createdAt_of_same {original : OrderEntry} (h : order.Same original) :
    order.createdAt = original.createdAt := by
  obtain ⟨-, -, -, -, -, -, -, -, -, -, -, -, -, htime⟩ := h
  exact htime

/-- **No submission fails if all submissions of an id are the same.** -/
theorem Run.unrefused (h : Run (.genesis cache) history s)
    (hsame : ∀ e ∈ history, ∀ e' ∈ history, ∀ order order', e.1 = .submit order →
      e'.1 = .submit order' → order.id = order'.id → order.Same order')
    (hmem : (.submit order, outcome) ∈ history) : outcome.failure = none := by
  obtain ⟨before, after, mid, mid', rfl, -, hrun, hindex⟩ := h.at_submit hmem
  cases hlookup : mid.submissions.lookup order.id with
  | none =>
    obtain ⟨reason, rfl⟩ | ⟨id, trades, completion, rfl⟩ := (Journal.apply_first_submit hrun hlookup).2
    · rfl
    · rfl
  | some original =>
    obtain ⟨e, he, hentry⟩ := List.exists_of_findSome?_eq_some ((hindex order.id).symm.trans hlookup)
    obtain ⟨hcommand, hid⟩ := submitOf_eq_some hentry
    have horders := hsame _ hmem e (List.mem_append_left _ he) order original rfl hcommand hid.symm
    have htime : ({ order with createdAt := original.createdAt } : OrderEntry).Same original := by
      rw [← createdAt_of_same horders]
      exact horders
    rw [apply_resubmit hlookup, if_pos htime, Prod.mk.injEq, Except.ok.injEq] at hrun
    rw [← hrun.1]
    rfl

end Journal

namespace OrderService

open OrderReceipt (AcceptanceResult Refusal)

/-! ## The request -/

/-- Checks that are made in one case. -/
def checkIf (p : Prop) [Decidable p] (checks : Except Fault Unit) : Except Fault Unit :=
  if p then checks else pure ()

theorem checkIf_eq_ok {p : Prop} [Decidable p] {checks : Except Fault Unit} {u : Unit} :
    checkIf p checks = .ok u ↔ (p → checks = .ok ()) := by
  unfold checkIf
  split
  · next hp => exact ⟨fun h _ => h, fun h => h hp⟩
  · next hp => exact ⟨fun _ h => absurd h hp, fun _ => rfl⟩

/-- The checks on an order for a quantity. -/
def checkQuantity (missing quoted : String) (request : CreateOrderRequest) : Except Fault Unit := do
  ensure (request.amount ≠ none) missing
  ensure (∀ amount ∈ request.amount, 0 < amount) "Amount must be positive"
  ensure (request.quoteAmount = none) quoted

/-- The checks on an order for a budget. -/
def checkBudget (request : CreateOrderRequest) : Except Fault Unit := do
  ensure (request.quoteAmount ≠ none)
    "Market buy orders must have quote_amount (amount-based market buy is not supported)"
  ensure (request.amount = none) "Market buy orders cannot use amount, use quote_amount instead"
  ensure (∀ quoteAmount ∈ request.quoteAmount, 0 < quoteAmount) "Quote amount must be positive"

def validateOrderRequest (request : CreateOrderRequest) : Except Fault Unit := do
  ensure (request.orderType = "buy" ∨ request.orderType = "sell")
    "Invalid order_type: must be 'buy' or 'sell'"
  ensure (request.orderSide = "limit" ∨ request.orderSide = "market")
    "Invalid order_side: must be 'limit' or 'market'"
  ensure (request.orderSide = "limit" → request.price ≠ none) "Limit order must have price"
  ensure (request.orderSide = "market" → request.price = none) "Market order cannot have price"
  checkIf (request.orderType = "sell") <|
    checkQuantity "Sell orders must have amount" "Sell orders cannot use quote_amount" request
  checkIf (request.orderType = "buy" ∧ request.orderSide = "limit") <|
    checkQuantity "Limit buy orders must have amount" "Limit buy orders cannot use quote_amount"
      request
  checkIf (request.orderType = "buy" ∧ request.orderSide = "market") <| checkBudget request
  ensure (∀ price ∈ request.price, 0 < price) "Price must be positive"

/-- The order that is submitted to the engine. -/
def orderEntry (userId : UInt64) (request : CreateOrderRequest) (accepted : AcceptanceResult) :
    Except Fault OrderEntry := do
  let marketBuy := request.orderType = "buy" ∧ request.orderSide = "market"
  let amount ← if marketBuy then pure Decimal.ZERO
    else expect request.amount "called `Option::unwrap()` on a `None` value"
  let id ← expect request.orderId "called `Option::unwrap()` on a `None` value"
  pure {
    feeRate := accepted.feeRate
    id := id
    userId := userId
    orderType := request.orderType
    orderSide := request.orderSide
    baseMint := request.baseMint
    quoteMint := request.quoteMint.getD "USDT"
    price := request.price
    amount := amount
    quoteAmount := request.quoteAmount
    filledAmount := Decimal.ZERO
    remainingAmount := amount
    remainingQuoteAmount := if marketBuy then request.quoteAmount else none
    createdAt := accepted.receipt.acceptedAt }

/-- An order for a quantity. -/
structure ForQuantity (request : CreateOrderRequest) (amount : Decimal) : Prop where
  sized : request.amount = some amount
  positive : 0 < amount
  unquoted : request.quoteAmount = none
  limit : request.orderSide = "limit" → ∃ price, request.price = some price ∧ 0 < price
  market : request.orderSide ≠ "limit" →
    request.orderType = "sell" ∧ request.orderSide = "market" ∧ request.price = none

/-- An order for a budget. -/
structure ForBudget (request : CreateOrderRequest) (budget : Decimal) : Prop where
  kind : request.orderType = "buy" ∧ request.orderSide = "market"
  unpriced : request.price = none
  unsized : request.amount = none
  quoted : request.quoteAmount = some budget
  positive : 0 < budget

theorem checkQuantity_ok {missing quoted : String} {request : CreateOrderRequest}
    (h : checkQuantity missing quoted request = .ok ()) :
    ∃ amount, request.amount = some amount ∧ 0 < amount ∧ request.quoteAmount = none := by
  simp only [checkQuantity, bind_eq_ok, ensure_eq_ok, exists_const] at h
  obtain ⟨hsome, hpos, hquote⟩ := h
  obtain ⟨amount, hamount⟩ := Option.ne_none_iff_exists'.mp hsome
  exact ⟨amount, hamount, hpos amount hamount, hquote⟩

/-- **The two kinds of requests that pass.** -/
theorem validated_cases {request : CreateOrderRequest} (h : validateOrderRequest request = .ok ()) :
    (request.orderType = "buy" ∨ request.orderType = "sell") ∧
      (request.orderSide = "limit" ∨ request.orderSide = "market") ∧
      ((∃ budget, ForBudget request budget) ∨ ∃ amount, ForQuantity request amount) := by
  simp only [validateOrderRequest, bind_eq_ok, ensure_eq_ok, checkIf_eq_ok, exists_const] at h
  obtain ⟨htype, hside, hpriced, hunpriced, hsell, hlimit, hbudget, hprice⟩ := h
  refine ⟨htype, hside, ?_⟩
  by_cases hkind : request.orderType = "buy" ∧ request.orderSide = "market"
  · have hchecked := hbudget hkind
    simp only [checkBudget, bind_eq_ok, ensure_eq_ok, exists_const] at hchecked
    obtain ⟨hsome, hnone, hpos⟩ := hchecked
    obtain ⟨budget, hquote⟩ := Option.ne_none_iff_exists'.mp hsome
    exact Or.inl ⟨budget, hkind, hunpriced hkind.2, hnone, hquote, hpos budget hquote⟩
  · -- a sale, or a purchase at a limit
    obtain ⟨amount, hamount, hpos, hquote⟩ : ∃ amount, request.amount = some amount ∧ 0 < amount ∧
        request.quoteAmount = none := by
      rcases htype with htype | htype
      · have hcase : request.orderType = "buy" ∧ request.orderSide = "limit" :=
          ⟨htype, hside.resolve_right fun h => hkind ⟨htype, h⟩⟩
        exact checkQuantity_ok (hlimit hcase)
      · exact checkQuantity_ok (hsell htype)
    refine Or.inr ⟨amount, hamount, hpos, hquote, fun h => ?_, fun h => ?_⟩
    · obtain ⟨price, heq⟩ := Option.ne_none_iff_exists'.mp (hpriced h)
      exact ⟨price, heq, hprice price heq⟩
    · have hmarket := hside.resolve_left h
      exact ⟨htype.resolve_left fun h => hkind ⟨h, hmarket⟩, hmarket, hunpriced hmarket⟩

/-! ## The order -/

/-- The order of a request with its id, for an amount and a budget. -/
def entryOf (request : CreateOrderRequest) (accepted : AcceptanceResult) (id : UInt64)
    (amount : Decimal) : OrderEntry where
  feeRate := accepted.feeRate
  id := id
  userId := request.userId
  orderType := request.orderType
  orderSide := request.orderSide
  baseMint := request.baseMint
  quoteMint := request.quoteMint.getD "USDT"
  price := request.price
  amount := amount
  quoteAmount := request.quoteAmount
  filledAmount := Decimal.ZERO
  remainingAmount := amount
  remainingQuoteAmount := request.quoteAmount
  createdAt := accepted.receipt.acceptedAt

/-- The amount of an order is that of its request, if it has one. -/
theorem orderEntry_eq_ok {request : CreateOrderRequest} {accepted : AcceptanceResult}
    {entry : OrderEntry} (hvalid : validateOrderRequest request = .ok ()) :
    orderEntry request.userId request accepted = .ok entry ↔ ∃ id, request.orderId = some id ∧
      entry = entryOf request accepted id (request.amount.getD Decimal.ZERO) := by
  obtain ⟨-, -, ⟨budget, hbudget⟩ | ⟨amount, hquantity⟩⟩ := validated_cases hvalid
  · simp only [orderEntry, if_pos hbudget.kind, bind_eq_ok, pure_eq_ok, expect_eq_ok]
    simp only [exists_eq_left', hbudget.unsized, Option.getD_none, eq_comm (a := entry)]
    rfl
  · have hkind : ¬ (request.orderType = "buy" ∧ request.orderSide = "market") := by
      rintro ⟨hbuy, hmarket⟩
      have hsell := (hquantity.market (by rw [hmarket]; decide)).1
      rw [hbuy] at hsell
      exact absurd hsell (by decide)
    simp only [orderEntry, if_neg hkind, bind_eq_ok, pure_eq_ok, expect_eq_ok]
    simp only [hquantity.sized, Option.some.injEq, exists_eq_left', Option.getD_some,
      eq_comm (a := entry), entryOf, hquantity.unquoted]

/-- What is left for the matcher to check. -/
structure Fits (entry : OrderEntry) : Prop where
  rate : ∃ charged, fee 0 entry.feeRate = .ok charged
  assets : ValidAsset entry.baseMint ∧ ValidAsset entry.quoteMint ∧ entry.baseMint ≠ entry.quoteMint
  budget : ∀ budget, entry.quoteAmount = some budget → IsAmount budget.toRat
  quantity : entry.quoteAmount = none → IsAmount entry.amount.toRat ∧
    ∀ price, entry.price = some price → IsAmount price.toRat ∧
      IsAmount (price.toRat * entry.amount.toRat) ∧ Storable (price.toRat * entry.amount.toRat)

/-- The sum of nothing and an amount. -/
theorem add_zero_ok {amount : Decimal} :
    (∃ sum, add Decimal.ZERO amount = .ok sum ∧ sum ≈ amount) ↔ IsAmount amount.toRat := by
  constructor
  · rintro ⟨sum, hsum, -⟩
    obtain ⟨-, y, -, hy, -⟩ := add_ok hsum
    exact isAmount_iff.mpr ⟨y, hy⟩
  · intro h
    obtain ⟨y, hy⟩ := isAmount_iff.mp h
    obtain ⟨sum, hsum, hunits⟩ := exists_add (units_zero : units Decimal.ZERO = .ok 0) hy
      (by rw [zero_add]; exact ⟨amount, hy⟩)
    rw [zero_add] at hunits
    exact ⟨sum, hsum, units_inj hunits hy⟩

/-- The last checks of the matcher on a purchase for a budget. -/
theorem validate_budget {order : OrderEntry} {budget : Decimal}
    (hkind : order.orderSide = "market" ∧ order.orderType = "buy")
    (hquoted : order.quoteAmount = some budget) (hpositive : 0 < budget) (hprice : order.price = none)
    (hamount : order.amount ≈ 0 ∧ order.remainingAmount ≈ 0)
    (hremaining : order.remainingQuoteAmount = some budget) (hfresh : order.filledAmount ≈ 0) :
    validate order true = .ok () ↔ (∃ charged, fee 0 order.feeRate = .ok charged) ∧
      (0 < order.id ∧ order.id ≤ maxI64 ∧ 0 < order.userId ∧ order.userId ≤ maxI64) ∧
      ValidAsset order.baseMint ∧ ValidAsset order.quoteMint ∧ order.baseMint ≠ order.quoteMint ∧
      IsAmount budget.toRat := by
  have hsame : SameOption order.remainingQuoteAmount (some budget) := by
    rw [hremaining]
    rfl
  simp only [validate, bind_eq_ok, ensure_eq_ok, exists_const, if_pos hkind, orErr_eq_ok, pure_eq_ok,
    hquoted, Option.some.injEq, exists_eq_left', isAmount_iff]
  constructor
  · rintro ⟨charged, hfee, hidentity, -, hbase, hquote, hne, -, -, u, hu, -⟩
    exact ⟨⟨charged, hfee⟩, hidentity, hbase, hquote, hne, u, hu⟩
  · rintro ⟨⟨charged, hfee⟩, hidentity, hbase, hquote, hne, u, hu⟩
    exact ⟨charged, hfee, hidentity, ⟨Or.inl hkind.2, Or.inr hkind.1⟩, hbase, hquote, hne,
      fun _ => hfresh, ⟨hpositive, hprice, hamount.1, hamount.2, hsame⟩, u, hu, trivial⟩

/-- The last checks of the matcher on an order for a quantity. -/
theorem validate_quantity {order : OrderEntry}
    (hkind : (order.orderType = "buy" ∨ order.orderType = "sell") ∧
      (order.orderSide = "limit" ∨ order.orderSide = "market"))
    (hlimit : order.orderSide = "limit" → ∃ price, order.price = some price ∧ 0 < price)
    (hmarket : order.orderSide ≠ "limit" → order.orderType = "sell" ∧ order.price = none)
    (hamount : 0 < order.amount ∧ order.remainingAmount = order.amount)
    (hunquoted : order.quoteAmount = none ∧ order.remainingQuoteAmount = none)
    (hfresh : order.filledAmount = Decimal.ZERO) :
    validate order true = .ok () ↔ (∃ charged, fee 0 order.feeRate = .ok charged) ∧
      (0 < order.id ∧ order.id ≤ maxI64 ∧ 0 < order.userId ∧ order.userId ≤ maxI64) ∧
      ValidAsset order.baseMint ∧ ValidAsset order.quoteMint ∧ order.baseMint ≠ order.quoteMint ∧
      IsAmount order.amount.toRat ∧ ∀ price, order.price = some price → IsAmount price.toRat ∧
        IsAmount (price.toRat * order.amount.toRat) ∧
        Storable (price.toRat * order.amount.toRat) := by
  have hnot : ¬ (order.orderSide = "market" ∧ order.orderType = "buy") := by
    rintro ⟨hside, hbuy⟩
    have hsell := (hmarket (by rw [hside]; decide)).1
    rw [hbuy] at hsell
    exact absurd hsell (by decide)
  have hpositive : 0 < order.amount ∧ 0 < order.amount ∧ order.quoteAmount = none ∧
      order.remainingQuoteAmount = none := ⟨hamount.1, hamount.1, hunquoted⟩
  have hzero : True → order.filledAmount ≈ 0 := fun _ => hfresh ▸ Setoid.refl _
  simp only [validate, bind_eq_ok, ensure_eq_ok, exists_const, if_neg hnot]
  rw [hfresh, hamount.2]
  by_cases hside : order.orderSide = "limit"
  · obtain ⟨price, hprice, hpos⟩ := hlimit hside
    simp only [if_pos hside, bind_eq_ok, orErr_eq_ok, ensure_eq_ok, exists_const, pure_eq_ok, hprice,
      Option.some.injEq, exists_eq_left', forall_eq', and_true]
    constructor
    · rintro ⟨charged, hfee, hidentity, -, hbase, hquote, hne, -, -, sum, -, -, -, q, hq⟩
      obtain ⟨hp, ha, hvalue⟩ := (quote_computes price order.amount).1.mp ⟨q, hq⟩
      exact ⟨⟨charged, hfee⟩, hidentity, hbase, hquote, hne, ha, hp, hvalue⟩
    · rintro ⟨⟨charged, hfee⟩, hidentity, hbase, hquote, hne, ha, hp, hvalue⟩
      obtain ⟨sum, hsum, hsame⟩ := add_zero_ok.mpr ha
      obtain ⟨q, hq⟩ := (quote_computes price order.amount).1.mpr ⟨hp, ha, hvalue⟩
      exact ⟨charged, hfee, hidentity, hkind, hbase, hquote, hne, hfresh ▸ hzero, hpositive, sum,
        hsum, hsame, hpos, q, hq⟩
  · have hprice := (hmarket hside).2
    simp only [if_neg hside, ensure_eq_ok, hprice, and_true, reduceCtorEq, false_implies,
      implies_true]
    constructor
    · rintro ⟨charged, hfee, hidentity, -, hbase, hquote, hne, -, -, hsum⟩
      exact ⟨⟨charged, hfee⟩, hidentity, hbase, hquote, hne, add_zero_ok.mp hsum⟩
    · rintro ⟨⟨charged, hfee⟩, hidentity, hbase, hquote, hne, ha⟩
      exact ⟨charged, hfee, hidentity, hkind, hbase, hquote, hne, hfresh ▸ hzero, hpositive,
        add_zero_ok.mpr ha⟩

/-- **The checks of the matcher after those of the service.** -/
theorem validate_entryOf {request : CreateOrderRequest} {accepted : AcceptanceResult} {id : UInt64}
    (hvalid : validateOrderRequest request = .ok ())
    (hidentity : 0 < id ∧ id ≤ maxI64 ∧ 0 < request.userId ∧ request.userId ≤ maxI64) :
    validate (entryOf request accepted id (request.amount.getD Decimal.ZERO)) true = .ok () ↔
      Fits (entryOf request accepted id (request.amount.getD Decimal.ZERO)) := by
  obtain ⟨htype, hside, ⟨budget, hbudget⟩ | ⟨amount, hquantity⟩⟩ := validated_cases hvalid
  · have hzero : request.amount.getD Decimal.ZERO ≈ 0 := by
      rw [hbudget.unsized]
      exact Setoid.refl _
    rw [validate_budget hbudget.kind.symm hbudget.quoted hbudget.positive hbudget.unpriced
      ⟨hzero, hzero⟩ hbudget.quoted (Setoid.refl _)]
    constructor
    · rintro ⟨hrate, -, hbase, hquote, hne, hamount⟩
      refine ⟨hrate, ⟨hbase, hquote, hne⟩, fun other hother => ?_, fun hnone => ?_⟩
      · obtain rfl := Option.some.inj (hbudget.quoted.symm.trans hother)
        exact hamount
      · exact absurd (hbudget.quoted.symm.trans hnone) (Option.some_ne_none _)
    · intro hfits
      exact ⟨hfits.rate, hidentity, hfits.assets.1, hfits.assets.2.1, hfits.assets.2.2,
        hfits.budget budget hbudget.quoted⟩
  · rw [hquantity.sized, Option.getD_some]
    rw [validate_quantity ⟨htype, hside⟩ hquantity.limit
      (fun h => ⟨(hquantity.market h).1, (hquantity.market h).2.2⟩) ⟨hquantity.positive, rfl⟩
      ⟨hquantity.unquoted, hquantity.unquoted⟩ rfl]
    constructor
    · rintro ⟨hrate, -, hbase, hquote, hne, hamount⟩
      refine ⟨hrate, ⟨hbase, hquote, hne⟩, fun other hother => ?_, fun _ => hamount⟩
      exact absurd (hquantity.unquoted.symm.trans hother) (Option.some_ne_none _).symm
    · intro hfits
      exact ⟨hfits.rate, hidentity, hfits.assets.1, hfits.assets.2.1, hfits.assets.2.2,
        hfits.quantity hquantity.unquoted⟩

/-! ## Accepted requests -/

section Accepted

open OrderReceipt (bigint requestKey matches_iff)

variable {numeric : ℕ → ℕ → Decimal → Option String} {start w : OrderReceipt.World} {c d : ℕ}
  {request request' : CreateOrderRequest} {accepted accepted' : AcceptanceResult}

theorem bigint_eq_some {id : UInt64} {key : Int64} (h : bigint id = some key) :
    0 < id ∧ id ≤ maxI64 := by
  unfold OrderReceipt.bigint at h
  split at h
  · assumption
  · cases h

/-- The identifiers of an accepted request. -/
theorem identity_of_returned (hinv : OrderReceipt.Inv w) (hc : w.calls c = .returned request accepted) :
    ∃ id, request.orderId = some id ∧ 0 < id ∧ id ≤ maxI64 ∧ 0 < request.userId ∧
      request.userId ≤ maxI64 := by
  have hcall := hinv.calls c
  rw [hc] at hcall
  obtain ⟨key, row, stored, created, hkey, hrow, hdecode, hmatches, -⟩ := hcall
  obtain ⟨-, user, huser⟩ := hinv.identified hrow hdecode hmatches
  obtain ⟨id, hid, hbigint⟩ := Option.bind_eq_some_iff.mp hkey
  exact ⟨id, hid, (bigint_eq_some hbigint).1, (bigint_eq_some hbigint).2, bigint_eq_some huser⟩

/-- Accepted requests for one order have the same content. -/
theorem key_of_returned (hinv : OrderReceipt.Inv w) (hc : w.calls c = .returned request accepted)
    (hd : w.calls d = .returned request' accepted') (hid : request.orderId = request'.orderId) :
    requestKey request = requestKey request' := by
  have hcallc := hinv.calls c
  have hcalld := hinv.calls d
  rw [hc] at hcallc
  rw [hd] at hcalld
  obtain ⟨key, row, stored, -, hkey, hrow, hdecode, hmatches, -⟩ := hcallc
  obtain ⟨key', row', stored', -, hkey', hrow', hdecode', hmatches', -⟩ := hcalld
  rw [hid, hkey', Option.some_inj] at hkey
  subst hkey
  rw [hrow', Option.some_inj] at hrow
  subst hrow
  rw [hdecode', Except.ok.injEq] at hdecode
  subst hdecode
  rw [← matches_iff.mp hmatches, ← matches_iff.mp hmatches']

/-- **Accepted requests for one order build the same order**, down to the time. -/
theorem orderEntry_same (hinv : OrderReceipt.Inv w) (hc : w.calls c = .returned request accepted)
    (hd : w.calls d = .returned request' accepted') (hvalid : validateOrderRequest request = .ok ())
    (hvalid' : validateOrderRequest request' = .ok ()) {entry entry' : OrderEntry}
    (hentry : orderEntry request.userId request accepted = .ok entry)
    (hentry' : orderEntry request'.userId request' accepted' = .ok entry')
    (hid : entry.id = entry'.id) : entry.Same entry' := by
  obtain ⟨id, hsome, rfl⟩ := (orderEntry_eq_ok hvalid).mp hentry
  obtain ⟨id', hsome', rfl⟩ := (orderEntry_eq_ok hvalid').mp hentry'
  obtain rfl : id = id' := hid
  have horder : request.orderId = request'.orderId := hsome.trans hsome'.symm
  have hkey := key_of_returned hinv hc hd horder
  obtain ⟨hrate, hreceipt⟩ := hinv.same_receipt hc hd horder
  rw [requestKey, requestKey, OrderReceipt.Key.mk.injEq] at hkey
  obtain ⟨-, huser, htype, hside, hbase, hquote, hprice, hamount, hbudget⟩ := hkey
  have hsize : request.amount.getD Decimal.ZERO ≈ request'.amount.getD Decimal.ZERO := by
    show (request.amount.getD Decimal.ZERO).raw = (request'.amount.getD Decimal.ZERO).raw
    rw [← Option.getD_map Decimal.raw, ← Option.getD_map Decimal.raw, hamount]
  refine ⟨?_, rfl, huser, htype, hside, hbase, hquote, hprice, hsize, hbudget, Setoid.refl _, hsize,
    hbudget, ?_⟩
  · show accepted.feeRate ≈ accepted'.feeRate
    rw [hrate]
  · show accepted.receipt.acceptedAt = accepted'.receipt.acceptedAt
    rw [hreceipt]

/-- **The service checks the form of an order as the matcher does.**  After any interleaving of
calls, a request that was validated and accepted builds an order, and the checks of the matcher on
this order fail for its assets, its rate or the size of its amounts only. -/
theorem accepted_orders_checked (initial : start.Initial) (h : OrderReceipt.Reachable numeric start w)
    (hreturned : w.calls c = .returned request accepted)
    (hvalid : validateOrderRequest request = .ok ()) :
    ∃ entry, orderEntry request.userId request accepted = .ok entry ∧
      (validate entry true = .ok () ↔ Fits entry) := by
  obtain ⟨id, hid, hrange⟩ := identity_of_returned (h.inv initial) hreturned
  exact ⟨_, (orderEntry_eq_ok hvalid).mpr ⟨id, hid, rfl⟩, validate_entryOf hvalid hrange⟩

theorem accepted_orders_checked_limitBuy : ∃ entry,
    orderEntry 101 OrderReceipt.sampleRequest ⟨⟨"1", "101", "accepted", 7⟩, true, .ofScaled 1 4⟩ =
      .ok entry ∧ Fits entry := by
  have hvalid : validateOrderRequest OrderReceipt.sampleRequest = .ok () := by decide +kernel
  obtain ⟨entry, hentry, hiff⟩ := accepted_orders_checked OrderReceipt.sampleStart_initial
    OrderReceipt.sampleEnd_reachable (c := 0) rfl hvalid
  refine ⟨entry, hentry, hiff.mp ?_⟩
  obtain ⟨id, hid, rfl⟩ := (orderEntry_eq_ok hvalid).mp hentry
  cases hid
  decide +kernel

end Accepted

/-! ## The database and the engine -/

open Pipeline (Clients Call CallStep CallReachable Legible)

/-- A request that is on its way, or whose receipt was returned. -/
def Active (request : CreateOrderRequest) : OrderReceipt.Call → Prop
  | .returned r _ => r = request
  | call => call.Runs request

/-- All calls of `create_order`, in the database and in the engine. -/
structure Service where
  acceptance : OrderReceipt.World
  clients : Clients
  /-- The call of the engine that a call of `create_order` has made. -/
  submitted : ℕ → Option ℕ

section Steps

variable {Json : Type} [DecidableEq Json] (numeric : ℕ → ℕ → Decimal → Option String)
  (codec : Codec Json)

/-- One step of a call of `create_order`, or of another client. -/
inductive ServiceStep : Service → Service → Prop
  /-- The request is validated, and `accept` begins. -/
  | request {s : Service} {k : ℕ} {request : CreateOrderRequest}
      (here : s.acceptance.calls k = .idle) (valid : validateOrderRequest request = .ok ()) :
      ServiceStep s { s with acceptance := s.acceptance.set k (OrderReceipt.begin_ request) }
  | invalid {s : Service} {k : ℕ} {request : CreateOrderRequest}
      (here : s.acceptance.calls k = .idle) (invalid : validateOrderRequest request ≠ .ok ()) :
      ServiceStep s { s with acceptance := s.acceptance.set k (.failed request .invalid) }
  | accept {s : Service} {acceptance : OrderReceipt.World}
      (step : OrderReceipt.Step numeric s.acceptance acceptance)
      (idle : ∀ k, s.acceptance.calls k = .idle → acceptance.calls k = .idle) :
      ServiceStep s { s with acceptance }
  /-- A call whose receipt was returned submits its order. -/
  | submit {s : Service} {k : ℕ} {request : CreateOrderRequest} {accepted : AcceptanceResult}
      {order : OrderEntry} (here : s.acceptance.calls k = .returned request accepted)
      (first : s.submitted k = none)
      (built : orderEntry request.userId request accepted = .ok order)
      (up : s.clients.world.core ≠ .down) :
      ServiceStep s { s with
        submitted := Function.update s.submitted k (some s.clients.calls.length)
        clients := { s.clients with calls := s.clients.calls ++
          [⟨.order (.submitOrder order s.clients.calls.length), .calling, s.clients.returned⟩] } }
  /-- The engine and its clients.  No one else submits orders. -/
  | client {s : Service} {clients : Clients} (step : CallStep codec s.clients clients)
      (others : ∀ call ∈ clients.calls.drop s.clients.calls.length, ∀ order n,
        call.input ≠ .order (.submitOrder order n)) : ServiceStep s { s with clients }

inductive ServiceReachable (start : Service) : Service → Prop
  | start : ServiceReachable start start
  | step {s s' : Service} (reached : ServiceReachable start s)
      (step : ServiceStep numeric codec s s') : ServiceReachable start s'

end Steps

/-- No call was made. -/
structure Service.Initial {Json : Type} (codec : Codec Json) (cache : BalanceCache)
    (engineId : String) (s : Service) : Prop where
  acceptance : s.acceptance.Initial
  clients : s.clients.Initial codec cache engineId
  submitted : ∀ k, s.submitted k = none

/-! ### The answers -/

/-- What the handler answers. -/
inductive Response where
  | accepted (receipt : OrderReceipt.OrderAcceptance)
  | confirmed (receipt : OrderReceipt.OrderAcceptance)
  | invalid
  | conflict
  | unavailable

namespace Response

def status : Response → ℕ
  | accepted _ => 202
  | confirmed _ => 200
  | invalid => 400
  | conflict => 409
  | unavailable => 503

def code : Response → Option String
  | accepted _ | confirmed _ => none
  | invalid => some "INVALID_ORDER_SUBMISSION"
  | conflict => some "ORDER_SUBMISSION_CONFLICT"
  | unavailable => some "ORDER_ACCEPTANCE_UNAVAILABLE"

/-- The receipt of a success. -/
def receipt : Response → Option OrderReceipt.OrderAcceptance
  | accepted receipt | confirmed receipt => some receipt
  | _ => none

/-- An answer without a receipt is told by its code. -/
theorem eq_of_code {response response' : Response} (hnone : response.receipt = none)
    (hcode : response'.code = response.code) : response' = response := by
  cases response with
  | accepted | confirmed => cases hnone
  | _ => cases response' <;> simp [code] at hcode ⊢

end Response

/-- An error of `accept`. -/
def refusalResponse : Refusal → Response
  | .invalid => .invalid
  | .conflict => .conflict
  | _ => .unavailable

/-- The end of a call whose order was submitted. -/
def submissionResponse (accepted : AcceptanceResult) (order : OrderCommand)
    (result : Pipeline.CallResult) : Option Response :=
  match order.reported result with
  | none => none
  | some (.error _) => some .unavailable
  | some (.ok _) =>
    some (if accepted.created then .accepted accepted.receipt else .confirmed accepted.receipt)

/-- The answer of a call of `create_order`, if it has ended. -/
def Service.response (s : Service) (k : ℕ) : Option Response :=
  match s.acceptance.calls k with
  | .failed _ refusal => some (refusalResponse refusal)
  | .returned _ accepted =>
    match (s.submitted k).bind fun n => s.clients.calls[n]? with
    | some ⟨.order order, .done result, _⟩ => submissionResponse accepted order result
    | _ => none
  | _ => none

/-! ### What the steps keep -/

section Requests

variable {numeric : ℕ → ℕ → Decimal → Option String} {w w' : OrderReceipt.World}
  {request r : CreateOrderRequest}

theorem active_checkReceipt {orderId : Int64} {row : OrderReceipt.CommandRow}
    {source : OrderReceipt.Source}
    (h : Active r (OrderReceipt.checkReceipt request orderId row source)) : request = r := by
  rcases OrderReceipt.checkReceipt_cases request orderId row source with
    ⟨_, -, -, heq⟩ | ⟨_, -, -, heq⟩ | heq
  · rw [heq] at h
    exact h
  · rw [heq] at h
    exact h.elim
  · rw [heq] at h
    exact h.elim

theorem active_readOriginal {tables : OrderReceipt.Tables} {orderId userId : Int64}
    (h : Active r (OrderReceipt.readOriginal tables request orderId userId)) : request = r := by
  unfold OrderReceipt.readOriginal at h
  split at h
  · next row _ =>
    rcases OrderReceipt.checkOriginal_cases request orderId userId row with
      ⟨_, -, -, heq⟩ | ⟨_, -, -, heq⟩ | heq | ⟨_, heq⟩
    · rw [heq] at h
      exact h
    all_goals
      rw [heq] at h
      exact h.elim
  · exact h

/-- **A call keeps its request.** -/
theorem active_before (step : OrderReceipt.Step numeric w w') {k : ℕ} (h : Active r (w'.calls k)) :
    Active r (w.calls k) ∨ w.calls k = .idle := by
  -- one call goes on
  have hset : ∀ {c : ℕ} {call : OrderReceipt.Call} {tables : OrderReceipt.Tables},
      (Active r call → Active r (w.calls c) ∨ w.calls c = .idle) →
      Active r ((OrderReceipt.World.set { w with tables } c call).calls k) →
      Active r (w.calls k) ∨ w.calls k = .idle := by
    intro c call tables hcall hactive
    by_cases hk : k = c
    · subst hk
      rw [OrderReceipt.World.set_self] at hactive
      exact hcall hactive
    · rw [OrderReceipt.World.set_of_ne _ _ hk] at hactive
      exact Or.inl hactive
  cases step with
  | begin_ request here => exact hset (fun _ => Or.inr here) h
  | lookup here =>
    refine hset (fun hcall => Or.inl ?_) h
    rw [here]
    unfold OrderReceipt.lookup at hcall
    split at hcall
    · exact active_checkReceipt hcall
    · exact hcall
  | readOriginal here =>
    refine hset (fun hcall => Or.inl ?_) h
    rw [here]
    exact active_readOriginal hcall
  | lookupAgain here =>
    refine hset (fun hcall => Or.inl ?_) h
    rw [here]
    unfold OrderReceipt.lookupAgain at hcall
    split at hcall
    · exact active_checkReceipt hcall
    · exact hcall.elim
  | insert acceptedAt here =>
    refine hset (fun hcall => Or.inl ?_) h
    rw [here]
    unfold OrderReceipt.insert at hcall
    split at hcall
    · exact hcall
    · split at hcall
      · exact active_checkReceipt hcall
      · exact hcall.elim
  | readWinner here =>
    refine hset (fun hcall => Or.inl ?_) h
    rw [here]
    unfold OrderReceipt.readWinner at hcall
    split at hcall
    · exact active_checkReceipt hcall
    · exact hcall.elim
  | commit told here =>
    refine hset (fun hcall => Or.inl ?_) h
    rw [here]
    cases told with
    | true => exact hcall
    | false => exact hcall.elim
  | rollback running =>
    refine hset (fun hcall => ?_) h
    exact False.elim hcall
  | submit | progress | reprice => exact Or.inl h

/-- A call that has returned stays so. -/
theorem returned_kept (step : OrderReceipt.Step numeric w w') {k : ℕ} {accepted : AcceptanceResult}
    (h : w.calls k = .returned request accepted) : w'.calls k = .returned request accepted := by
  have hset : ∀ {c : ℕ} {call : OrderReceipt.Call} {tables : OrderReceipt.Tables},
      (∀ r a, w.calls c ≠ .returned r a) →
      (OrderReceipt.World.set { w with tables } c call).calls k = .returned request accepted := by
    intro c call tables hne
    rw [OrderReceipt.World.set_of_ne]
    · exact h
    · rintro rfl
      exact hne _ _ h
  cases step with
  | begin_ r here | lookup here | readOriginal here | lookupAgain here | insert t here | readWinner here
  | commit told here =>
    refine hset fun r a heq => ?_
    rw [here] at heq
    cases heq
  | rollback running =>
    refine hset fun r a heq => ?_
    rw [heq] at running
    exact running
  | submit | progress | reprice => exact h

end Requests

section Kept

variable {Json : Type} [DecidableEq Json] {numeric : ℕ → ℕ → Decimal → Option String}
  {codec : Codec Json} {cache : BalanceCache} {engineId : String} {start s s' : Service}

/-- The database is in a state of `Acceptance`. -/
theorem ServiceReachable.inv (hstart : start.acceptance.Initial)
    (h : ServiceReachable numeric codec start s) : OrderReceipt.Inv s.acceptance := by
  induction h with
  | start => exact OrderReceipt.inv_of_initial hstart
  | step _ step ih =>
    cases step with
    | request here valid => exact (@OrderReceipt.Step.begin_ numeric _ _ _ here).inv ih
    | invalid here => exact ih.set_quiet trivial (OrderReceipt.quiet_failed ..)
    | accept step => exact step.inv ih
    | submit => exact ih
    | client => exact ih

/-- The engine is in a state of `Linearizable`. -/
theorem ServiceReachable.clients (h : ServiceReachable numeric codec start s) :
    CallReachable codec start.clients s.clients := by
  induction h with
  | start => exact .start
  | step _ step ih =>
    cases step with
    | request => exact ih
    | invalid => exact ih
    | accept => exact ih
    | submit here first built up => exact .step ih (.call up rfl)
    | client step => exact .step ih step

/-- **Every request that reaches the database was validated.** -/
theorem ServiceReachable.valid (hstart : start.acceptance.Initial)
    (h : ServiceReachable numeric codec start s) : ∀ k request, Active request (s.acceptance.calls k) →
      validateOrderRequest request = .ok () := by
  induction h with
  | start =>
    intro k request hactive
    rw [hstart.idle] at hactive
    exact hactive.elim
  | @step s s' _ step ih =>
    intro k r hactive
    cases step with
    | @request c request here valid =>
      change Active r ((s.acceptance.set c (OrderReceipt.begin_ request)).calls k) at hactive
      by_cases hk : k = c
      · rw [hk, OrderReceipt.World.set_self] at hactive
        unfold OrderReceipt.begin_ at hactive
        split at hactive
        · exact hactive ▸ valid
        · exact hactive.elim
      · rw [OrderReceipt.World.set_of_ne _ _ hk] at hactive
        exact ih k r hactive
    | @invalid c request here =>
      change Active r ((s.acceptance.set c (.failed request .invalid)).calls k) at hactive
      by_cases hk : k = c
      · rw [hk, OrderReceipt.World.set_self] at hactive
        exact hactive.elim
      · rw [OrderReceipt.World.set_of_ne _ _ hk] at hactive
        exact ih k r hactive
    | accept step idle =>
      rcases active_before step hactive with hbefore | hidle
      · exact ih k r hbefore
      · rw [idle k hidle] at hactive
        exact hactive.elim
    | submit => exact ih k r hactive
    | client => exact ih k r hactive

/-- The call `n` of the engine was made by the call `k` of `create_order`. -/
def Submits (s : Service) (k n : ℕ) (call : Call) : Prop :=
  ∃ request accepted order, s.acceptance.calls k = .returned request accepted ∧
    orderEntry request.userId request accepted = .ok order ∧
    call.input = .order (.submitOrder order n)

/-- **Submissions and accepted requests belong together.** -/
structure Linked (s : Service) : Prop where
  made : ∀ k n, s.submitted k = some n → ∃ call, s.clients.calls[n]? = some call ∧ Submits s k n call
  source : ∀ (n : ℕ) (call : Call), s.clients.calls[n]? = some call → ∀ order m,
    call.input = .order (.submitOrder order m) → ∃ k, s.submitted k = some n

/-- A step of the database. -/
theorem Linked.accept (h : Linked s) {acceptance : OrderReceipt.World}
    (hkept : ∀ k request accepted, s.acceptance.calls k = .returned request accepted →
      acceptance.calls k = .returned request accepted) : Linked { s with acceptance } := by
  refine ⟨fun k n hsubmitted => ?_, h.source⟩
  obtain ⟨call, hcall, request, accepted, order, hreturned, hmade⟩ := h.made k n hsubmitted
  exact ⟨call, hcall, request, accepted, order, hkept k request accepted hreturned, hmade⟩

theorem ServiceStep.linked (step : ServiceStep numeric codec s s') (h : Linked s) : Linked s' := by
  -- another call begins
  have hidle : ∀ {c : ℕ} {call : OrderReceipt.Call}, s.acceptance.calls c = .idle →
      ∀ k request accepted, s.acceptance.calls k = .returned request accepted →
        (s.acceptance.set c call).calls k = .returned request accepted := by
    intro c call here k request accepted hreturned
    rw [OrderReceipt.World.set_of_ne]
    · exact hreturned
    · rintro rfl
      rw [here] at hreturned
      cases hreturned
  cases step with
  | request here => exact h.accept (hidle here)
  | invalid here => exact h.accept (hidle here)
  | accept step => exact h.accept fun k request accepted hreturned => returned_kept step hreturned
  | @submit c request accepted order here first built up =>
    have hkept : ∀ {n : ℕ} {call : Call}, s.clients.calls[n]? = some call → ∀ new,
        (s.clients.calls ++ [new])[n]? = some call := by
      intro n call hcall new
      rw [List.getElem?_append_left (List.getElem?_eq_some_iff.mp hcall).1]
      exact hcall
    refine ⟨fun k n hsubmitted => ?_, fun n call hcall o m hinput => ?_⟩
    · by_cases hk : k = c
      · subst hk
        change Function.update s.submitted k _ k = some n at hsubmitted
        rw [Function.update_self, Option.some_inj] at hsubmitted
        subst hsubmitted
        exact ⟨_, List.getElem?_concat_length, request, accepted, order, here, built, rfl⟩
      · obtain ⟨call, hcall, hmade⟩ :=
          h.made k n ((Function.update_of_ne hk ..).symm.trans hsubmitted)
        exact ⟨call, hkept hcall _, hmade⟩
    · by_cases hn : n < s.clients.calls.length
      · change (s.clients.calls ++ [_])[n]? = some call at hcall
        rw [List.getElem?_append_left hn] at hcall
        obtain ⟨k, hk⟩ := h.source n call hcall o m hinput
        refine ⟨k, (Function.update_of_ne ?_ ..).trans hk⟩
        rintro rfl
        rw [first] at hk
        cases hk
      · have hlt := (List.getElem?_eq_some_iff.mp hcall).1
        rw [List.length_append, List.length_singleton] at hlt
        obtain rfl : n = s.clients.calls.length := by omega
        exact ⟨c, Function.update_self ..⟩
  | @client clients step others =>
    refine ⟨fun k n hsubmitted => ?_, fun n call' hcall' order m hinput => ?_⟩
    · obtain ⟨call, hcall, request, accepted, order, hreturned, hbuilt, hinput⟩ :=
        h.made k n hsubmitted
      obtain ⟨call', hcall', hsame⟩ := step.inputs hcall
      exact ⟨call', hcall', request, accepted, order, hreturned, hbuilt, hsame.trans hinput⟩
    · by_cases hn : n < s.clients.calls.length
      · have hcall := List.getElem?_eq_getElem hn
        obtain ⟨other, hother, hsame⟩ := step.inputs hcall
        obtain rfl := Option.some.inj (hother.symm.trans hcall')
        exact h.source n _ hcall order m (hsame.symm.trans hinput)
      · -- a call that is new
        refine absurd hinput (others call' (List.mem_of_getElem? (i := n - s.clients.calls.length) ?_)
          order m)
        rw [List.getElem?_drop, Nat.add_sub_cancel' (not_lt.mp hn)]
        exact hcall'

theorem ServiceReachable.linked (hstart : start.Initial codec cache engineId)
    (h : ServiceReachable numeric codec start s) : Linked s := by
  induction h with
  | start =>
    refine ⟨fun k n hk => ?_, fun n call hcall => ?_⟩
    · rw [hstart.submitted] at hk
      cases hk
    · rw [hstart.clients.none.1] at hcall
      cases hcall
  | step _ step ih => exact step.linked ih

end Kept

/-! ## What the answers mean -/

section Answers

open Store (executed recordsOf rowOf)

/-- The executed submission of a request. -/
theorem execute_submit {state state' : EngineState} {order : OrderEntry} {n : ℕ} {pending : Pending}
    (h : (Input.order (.submitOrder order n)).execute state = .ok (pending, state')) :
    ∃ outcome, pending = ⟨some (.submit order), outcome, .submit n⟩ := by
  simp only [Input.execute, Input.request, OrderCommand.request] at h
  split at h
  · cases h
    exact ⟨_, rfl⟩
  · cases h

/-- Only a request to submit an order submits it. -/
theorem request_submit {state : EngineState} {input : Input} {order : OrderEntry} {reply : Reply}
    (h : input.request state = (some (.submit order), reply)) :
    ∃ n, input = .order (.submitOrder order n) := by
  cases input with
  | order command =>
    cases command with
    | submitOrder other n =>
      cases h
      exact ⟨n, rfl⟩
    | getOrderbook pair depth n =>
      simp only [Input.request, OrderCommand.request] at h
      split at h <;> cases h
    | _ => cases h
  | balance command => cases command <;> cases h

variable {s : Service} {k : ℕ}

/-- The engine has answered. -/
theorem submissionResponse_success {accepted : AcceptanceResult} {command : OrderCommand}
    {result : Pipeline.CallResult} {response : Response} {receipt : OrderReceipt.OrderAcceptance}
    (h : submissionResponse accepted command result = some response)
    (hreceipt : response.receipt = some receipt) : (∃ answer, result = .answered answer) ∧
      accepted.receipt = receipt ∧ (response.status = 202 → accepted.created = true) := by
  unfold submissionResponse at h
  split at h
  · cases h
  · cases h
    cases hreceipt
  · next answer hreported =>
    refine ⟨?_, ?_⟩
    · cases result with
      | answered answer => exact ⟨answer, rfl⟩
      | _ => cases hreported
    · cases h
      by_cases hcreated : accepted.created = true
      · rw [if_pos hcreated] at hreceipt
        exact ⟨Option.some.inj hreceipt, fun _ => hcreated⟩
      · rw [if_neg hcreated] at hreceipt
        refine ⟨Option.some.inj hreceipt, fun hstatus => ?_⟩
        rw [if_neg hcreated] at hstatus
        exact absurd (show 200 = 202 from hstatus) (by decide)

/-- The answer of a call that has returned a receipt, from its call of the engine. -/
theorem response_of_returned (hlinked : Linked s) {request : CreateOrderRequest}
    {accepted : AcceptanceResult} (hreturned : s.acceptance.calls k = .returned request accepted)
    {response : Response} (h : s.response k = some response) :
    ∃ (order : OrderEntry) (n : ℕ) (call : Call) (result : Pipeline.CallResult),
      orderEntry request.userId request accepted = .ok order ∧ s.submitted k = some n ∧
      s.clients.calls[n]? = some call ∧ call.input = .order (.submitOrder order n) ∧
      call.phase = .done result ∧ submissionResponse accepted (.submitOrder order n) result = some response := by
  rw [Service.response, hreturned] at h
  dsimp only at h
  split at h
  · next command result after hcall =>
    obtain ⟨n, hn, hcall⟩ := Option.bind_eq_some_iff.mp hcall
    obtain ⟨call, hcall', request', accepted', order, hreturned', hbuilt, hinput⟩ := hlinked.made k n hn
    rw [hreturned, OrderReceipt.Call.returned.injEq] at hreturned'
    obtain ⟨rfl, rfl⟩ := hreturned'
    obtain rfl := Option.some.inj (hcall.symm.trans hcall')
    obtain rfl := Input.order.inj hinput
    exact ⟨order, n, _, result, hbuilt, hn, hcall, rfl, rfl, h⟩
  · cases h

/-- A success follows on a receipt. -/
theorem returned_of_success {response : Response} {receipt : OrderReceipt.OrderAcceptance}
    (h : s.response k = some response) (hreceipt : response.receipt = some receipt) :
    ∃ request accepted, s.acceptance.calls k = .returned request accepted := by
  unfold Service.response at h
  split at h
  · next refusal _ =>
    cases h
    cases refusal <;> cases hreceipt
  · next request accepted hreturned => exact ⟨request, accepted, hreturned⟩
  · cases h

/-- **What the answers of `create_order` say about the commands `D` on the disk.** -/
structure Confirmed {Json : Type} (codec : Codec Json) (s : Service) (D : List (Command × Outcome)) :
    Prop where
  records : ∃ clock, s.clients.world.store.records.entries = (recordsOf clock 0 D).map (rowOf codec)
  /-- The engine refuses no order whose request was accepted. -/
  unrefused : ∀ e ∈ D, ∀ order, e.1 = .submit order → e.2.failure = none
  /-- After 202 or 200 the order of the request is on the disk, and it was executed once. -/
  once : ∀ k response receipt, s.response k = some response → response.receipt = some receipt →
    ∃ request accepted order, s.acceptance.calls k = .returned request accepted ∧
      accepted.receipt = receipt ∧ orderEntry request.userId request accepted = .ok order ∧
      (∃ outcome, (.submit order, outcome) ∈ D) ∧ D.countP (submits order.id) = 1
  /-- Calls for one order return one receipt, and one of them at most says 202. -/
  agreed : ∀ k k' request request' accepted accepted',
    s.acceptance.calls k = .returned request accepted →
    s.acceptance.calls k' = .returned request' accepted' → request.orderId = request'.orderId →
    accepted.receipt = accepted'.receipt ∧ ∀ response response', s.response k = some response →
      s.response k' = some response' → response.status = 202 → response'.status = 202 → k = k'
  /-- 503 leaves the outcome open: the engine has not answered the call. -/
  unknown : ∀ k request accepted, s.acceptance.calls k = .returned request accepted →
    s.response k = some .unavailable → ∃ n call result, s.submitted k = some n ∧
      s.clients.calls[n]? = some call ∧ call.phase = .done result ∧
      ∀ answer, result ≠ .answered answer
  /-- After 400 or 409 nothing was submitted. -/
  refused : ∀ k response, s.response k = some response → response = .invalid ∨ response = .conflict →
    s.submitted k = none

variable {Json : Type} [DecidableEq Json] {numeric : ℕ → ℕ → Decimal → Option String}
  {codec : Codec Json} {cache : BalanceCache} {engineId : String} {start : Service}

/-- **Submissions of one id are the same**, whichever calls have sent them. -/
theorem submissions_same (hinv : OrderReceipt.Inv s.acceptance) (hlinked : Linked s)
    (hvalid : ∀ k request, Active request (s.acceptance.calls k) →
      validateOrderRequest request = .ok ())
    (hrequested : ∀ e ∈ s.clients.world.history, ∃ call ∈ s.clients.calls, ∃ state reply,
      call.input.request state = (some e.1, reply)) :
    ∀ e ∈ s.clients.world.history, ∀ e' ∈ s.clients.world.history, ∀ order order',
      e.1 = .submit order → e'.1 = .submit order' → order.id = order'.id → order.Same order' := by
  have hcreated : ∀ e ∈ s.clients.world.history, ∀ order, e.1 = .submit order →
      ∃ k request accepted, s.acceptance.calls k = .returned request accepted ∧
        orderEntry request.userId request accepted = .ok order := by
    intro e he order horder
    obtain ⟨call, hcall, state, reply, hrequest⟩ := hrequested e he
    rw [horder] at hrequest
    obtain ⟨m, hinput⟩ := request_submit hrequest
    obtain ⟨n, hn⟩ := List.mem_iff_getElem?.mp hcall
    obtain ⟨k, hk⟩ := hlinked.source n call hn order m hinput
    obtain ⟨call', hcall', request, accepted, order', hreturned, hbuilt, hinput'⟩ := hlinked.made k n hk
    obtain rfl := Option.some.inj (hn.symm.trans hcall')
    rw [hinput] at hinput'
    cases hinput'
    exact ⟨k, request, accepted, hreturned, hbuilt⟩
  intro e he e' he' order order' horder horder' hid
  obtain ⟨k, request, accepted, hreturned, hbuilt⟩ := hcreated e he order horder
  obtain ⟨k', request', accepted', hreturned', hbuilt'⟩ := hcreated e' he' order' horder'
  have hk := hvalid k request (by rw [hreturned]; rfl)
  have hk' := hvalid k' request' (by rw [hreturned']; rfl)
  exact orderEntry_same hinv hreturned hreturned' hk hk' hbuilt hbuilt' hid

omit [DecidableEq Json] in
/-- **An answered submission is on the disk.** -/
theorem answered_submission {c : Clients} {D : List (Command × Outcome)}
    (htraced : Pipeline.Traced cache c) (hD : Pipeline.Trail.InvAt codec cache engineId c.world.trail D)
    {n : ℕ} {call : Call} {order : OrderEntry} {answer : Answer} (hcall : c.calls[n]? = some call)
    (hinput : call.input = .order (.submitOrder order n))
    (hphase : call.phase = .done (.answered answer)) :
    ∃ outcome, (Command.submit order, outcome) ∈ D ∧
      Pending.answer ⟨some (.submit order), outcome, .submit n⟩ = (n, answer) := by
  obtain ⟨item, -, hanswer, ⟨before, state, state', -, hexecute, hhistory, -⟩, rest, hitem⟩ :=
    htraced.point hD hcall (by rw [hphase]; rfl)
  rw [hinput] at hexecute
  obtain ⟨outcome, hpending⟩ := execute_submit hexecute
  rw [hpending] at hanswer hhistory
  refine ⟨outcome, ?_, hanswer⟩
  rw [← hitem, hhistory]
  exact List.mem_append_left _ (List.mem_append_right _ (List.mem_cons_self ..))

/-- A call that answers 202 has created the receipt. -/
theorem created_of_status (hlinked : Linked s) {request : CreateOrderRequest}
    {accepted : AcceptanceResult} {response : Response}
    (hreturned : s.acceptance.calls k = .returned request accepted)
    (hresponse : s.response k = some response) (h202 : response.status = 202) :
    accepted.created = true := by
  obtain ⟨receipt, hreceipt⟩ : ∃ receipt, response.receipt = some receipt := by
    cases response with
    | accepted receipt => exact ⟨receipt, rfl⟩
    | _ => cases h202
  obtain ⟨order, n, call, result, -, -, -, -, -, hsubmission⟩ :=
    response_of_returned hlinked hreturned hresponse
  exact (submissionResponse_success hsubmission hreceipt).2.2 h202

/-- **An accepted order is executed once, and a success says so.**  In every interleaving of any
number of calls of `create_order`, for the same orders or for others, with the changes of the
platform, with rollbacks, lost answers, crashes and restarts. -/
theorem created_orders_confirmed {platform : Startup.Platform}
    (hload : Startup.loadBalances platform = .ok cache) (hid : codec.isUuid engineId = true)
    (hgenesis : codec.parseGenesis (codec.genesisText ⟨4, engineId, cache.journalSeed⟩) =
      some ⟨4, engineId, cache.journalSeed⟩)
    (hstart : start.Initial codec cache engineId) (hreached : ServiceReachable numeric codec start s)
    (hrecords : Legible codec s.clients.world.store) : ∃ D, Confirmed codec s D := by
  have hcache := Startup.loadBalances_admissible hload
  have hclients := hreached.clients
  have hinv := hreached.inv hstart.acceptance
  have hlinked := hreached.linked hstart
  obtain ⟨⟨D, hD⟩, -⟩ := hclients.world.inv hcache hid hgenesis hstart.clients.world hrecords
  obtain ⟨htraced, -⟩ := hclients.traced hcache hid hgenesis hstart.clients hrecords
  obtain ⟨final, hrun⟩ := hD.run_durable
  have hsame := submissions_same hinv hlinked (hreached.valid hstart.acceptance)
    (hclients.requested hcache hid hgenesis hstart.clients hrecords)
  have hdisk : ∀ e ∈ D, e ∈ s.clients.world.history := fun e he => hD.isPrefix.subset he
  have hunrefused : ∀ e ∈ D, ∀ order, e.1 = .submit order → e.2.failure = none := by
    rintro ⟨command, outcome⟩ he order rfl
    exact hrun.unrefused (fun e he e' he' => hsame e (hdisk e he) e' (hdisk e' he')) he
  refine ⟨D, hD.records, hunrefused, ?_, ?_, ?_, ?_⟩
  · intro k response receipt hresponse hreceipt
    obtain ⟨request, accepted, hreturned⟩ := returned_of_success hresponse hreceipt
    obtain ⟨order, n, call, result, hbuilt, -, hcall, hinput, hphase, hsubmission⟩ :=
      response_of_returned hlinked hreturned hresponse
    obtain ⟨⟨answer, rfl⟩, hsame, -⟩ := submissionResponse_success hsubmission hreceipt
    obtain ⟨outcome, hmem, -⟩ := answered_submission htraced hD hcall hinput hphase
    exact ⟨request, accepted, order, hreturned, hsame, hbuilt, ⟨outcome, hmem⟩,
      hrun.submitted_once (Store.valid_of_admissible hcache) hmem⟩
  · intro k k' request request' accepted accepted' hk hk' horder
    refine ⟨(hinv.same_receipt hk hk' horder).2, fun response response' hr hr' h202 h202' => ?_⟩
    exact hinv.created k k' request request' accepted accepted' hk hk' horder
      (created_of_status hlinked hk hr h202) (created_of_status hlinked hk' hr' h202')
  · intro k request accepted hk hresponse
    obtain ⟨order, n, call, result, -, hn, hcall, hinput, hphase, hsubmission⟩ :=
      response_of_returned hlinked hk hresponse
    refine ⟨n, call, result, hn, hcall, hphase, ?_⟩
    rintro answer rfl
    -- an answer would be a success
    obtain ⟨outcome, hmem, hanswer⟩ := answered_submission htraced hD hcall hinput hphase
    have hfailure := hunrefused _ hmem order rfl
    cases outcome with
    | failed reason => cases hfailure
    | _ =>
      cases hanswer
      cases hcreated : accepted.created <;> simp [submissionResponse, OrderCommand.reported,
        CallTexts.report, hcreated] at hsubmission
  · intro k response hresponse hcode
    cases hn : s.submitted k with
    | none => rfl
    | some n =>
      obtain ⟨call, -, request, accepted, order, hreturned, -⟩ := hlinked.made k n hn
      obtain ⟨order', m, call', result, -, -, -, -, -, hsubmission⟩ :=
        response_of_returned hlinked hreturned hresponse
      unfold submissionResponse at hsubmission
      split at hsubmission
      · cases hsubmission
      · cases hsubmission
        rcases hcode with hcode | hcode <;> cases hcode
      · cases hsubmission
        split at hcode <;> rcases hcode with hcode | hcode <;> cases hcode

end Answers

/-! ### One order, asked for three times -/

section Sample

open Store (rowOf TableRow tableCodec written append_first)
open Pipeline (recordStart recover_record inputCapacity journalCapacity groupSize)

def sampleAccepted (created : Bool) : AcceptanceResult :=
  ⟨⟨"1", "101", "accepted", 7⟩, created, .ofScaled 1 4⟩

def sampleOrder : OrderEntry :=
  entryOf OrderReceipt.sampleRequest (sampleAccepted true) 1 (.ofScaled 2 0)

def sampleFunded : Record := ⟨1, 0, .balance 101 "USDT" (.ofScaled 300 0), .applied none⟩

def sampleSubmitted : Record :=
  ⟨2, 0, .submit sampleOrder, .applied (some (.submitted 1 [] none))⟩

def sampleRepeated : Record := ⟨3, 0, .submit sampleOrder, .applied none⟩

/-- The three records with their texts. -/
def orderRows : List TableRow :=
  [ ⟨sampleFunded,
      "\x7b\"sequence\":1,\"timestamp\":\"1970-01-01T00:00:00Z\",\"command\":\x7b\"Balance\":\x7b\"user_id\":101,\"mint\":\"USDT\",\"delta\":\"300\"\x7d\x7d,\"outcome\":\x7b\"Applied\":null\x7d\x7d",
      "\x7b\"Applied\":null\x7d",
      [5, 203, 190, 23, 214, 245, 213, 49, 128, 16, 122, 148, 220, 35, 136, 17, 191, 14, 199, 16, 187, 186,
        232, 26, 166, 235, 21, 201, 131, 167, 87, 186]⟩,
    ⟨sampleSubmitted,
      "\x7b\"sequence\":2,\"timestamp\":\"1970-01-01T00:00:00Z\",\"command\":\x7b\"Submit\":\x7b\"fee_rate\":\"0.0001\",\"id\":1,\"user_id\":101,\"order_type\":\"buy\",\"order_side\":\"limit\",\"base_mint\":\"SOL\",\"quote_mint\":\"USDT\",\"price\":\"100\",\"amount\":\"2\",\"quote_amount\":null,\"filled_amount\":\"0\",\"remaining_amount\":\"2\",\"remaining_quote_amount\":null,\"created_at\":\"1970-01-01T00:00:00.000007Z\"\x7d\x7d,\"outcome\":\x7b\"Applied\":\x7b\"Submitted\":\x7b\"order_id\":1,\"trades\":[],\"completion\":null\x7d\x7d\x7d\x7d",
      "\x7b\"Applied\":\x7b\"Submitted\":\x7b\"order_id\":1,\"trades\":[],\"completion\":null\x7d\x7d\x7d",
      [150, 66, 60, 68, 8, 138, 50, 250, 39, 228, 223, 109, 121, 60, 114, 146, 242, 215, 82, 122, 202, 23,
        246, 123, 22, 113, 120, 177, 87, 64, 174, 113]⟩,
    ⟨sampleRepeated,
      "\x7b\"sequence\":3,\"timestamp\":\"1970-01-01T00:00:00Z\",\"command\":\x7b\"Submit\":\x7b\"fee_rate\":\"0.0001\",\"id\":1,\"user_id\":101,\"order_type\":\"buy\",\"order_side\":\"limit\",\"base_mint\":\"SOL\",\"quote_mint\":\"USDT\",\"price\":\"100\",\"amount\":\"2\",\"quote_amount\":null,\"filled_amount\":\"0\",\"remaining_amount\":\"2\",\"remaining_quote_amount\":null,\"created_at\":\"1970-01-01T00:00:00.000007Z\"\x7d\x7d,\"outcome\":\x7b\"Applied\":null\x7d\x7d",
      "\x7b\"Applied\":null\x7d",
      [114, 112, 245, 3, 183, 4, 62, 132, 105, 2, 83, 116, 250, 245, 85, 8, 210, 205, 225, 206, 100, 57,
        147, 219, 63, 131, 9, 134, 118, 179, 31, 242]⟩]

/-- The encodings on them. -/
def orderCodec : Codec String := tableCodec orderRows

def sampleGroup : List Pending :=
  [⟨some sampleFunded.command, sampleFunded.outcome, .unit 0⟩,
    ⟨some sampleSubmitted.command, sampleSubmitted.outcome, .submit 1⟩,
    ⟨some sampleRepeated.command, sampleRepeated.outcome, .submit 2⟩]

/-- The journal with the order. -/
def submittedStore : Store := written orderCodec (recordStart orderCodec).store sampleGroup 0

theorem append_submittedStore :
    (recordStart orderCodec).store.append orderCodec (fun _ => 0) sampleGroup 0 =
        .ok (submittedStore, 3) ∧
      submittedStore.records.entries = (orderRows.map TableRow.record).map (rowOf orderCodec) := by
  obtain ⟨happend, hentries, -⟩ := @append_first orderCodec (recordStart orderCodec).store
    sampleGroup rfl (by decide)
  exact ⟨happend, hentries⟩

theorem legible_submittedStore : Pipeline.Legible orderCodec submittedStore :=
  Pipeline.legible_record (by decide +kernel : Store.Distinct orderRows) (List.Subset.refl _)
    append_submittedStore.2

def sampleService : Service :=
  ⟨OrderReceipt.sampleStart, ⟨recordStart orderCodec, [], []⟩, fun _ => none⟩

theorem sampleService_initial :
    sampleService.Initial orderCodec Store.sampleCache Store.sampleGenesis.engineId :=
  ⟨OrderReceipt.sampleStart_initial, Pipeline.initial_record, fun _ => rfl⟩

/-- Three calls of `accept` begin and end. -/
theorem sample_accepted : ServiceReachable OrderReceipt.sampleNumeric orderCodec sampleService
    ⟨OrderReceipt.sampleEnd, sampleService.clients, sampleService.submitted⟩ := by
  have hvalid : validateOrderRequest OrderReceipt.sampleRequest = .ok () ∧
      validateOrderRequest OrderReceipt.sampleOther = .ok () := by decide +kernel
  refine @OrderReceipt.sample_run (fun w => ServiceReachable OrderReceipt.sampleNumeric orderCodec
    sampleService ⟨w, sampleService.clients, sampleService.submitted⟩)
    (fun step hidle h => h.step (.accept step hidle)) ?_
  have h0 : ServiceReachable OrderReceipt.sampleNumeric orderCodec sampleService
      ⟨OrderReceipt.sampleStart, sampleService.clients, sampleService.submitted⟩ := .start
  have h1 := h0.step (.request (k := 0) rfl hvalid.1)
  rw [OrderReceipt.sampleStart, OrderReceipt.sampleWorld_set_zero] at h1
  have h2 := h1.step (.request (k := 1) rfl hvalid.1)
  rw [OrderReceipt.sampleWorld_set_one] at h2
  have h3 := h2.step (.request (k := 2) rfl hvalid.2)
  rw [OrderReceipt.sampleWorld_set_two] at h3
  exact h3

section Go

variable {Json : Type} [DecidableEq Json] {numeric : ℕ → ℕ → Decimal → Option String}
  {codec : Codec Json} {c c' : Clients}

theorem calls_grow (step : CallStep codec c c') : c.calls.length ≤ c'.calls.length := by
  by_contra hlt
  obtain ⟨_, hcall, -⟩ := step.inputs (List.getElem?_eq_getElem (not_le.mp hlt))
  exact absurd (List.getElem?_eq_some_iff.mp hcall).1 (lt_irrefl _)

/-- The engine and its clients go on, and no order is submitted. -/
theorem ServiceReachable.go {start s : Service} (h : ServiceReachable numeric codec start s)
    (hclients : CallReachable codec s.clients c)
    (hothers : ∀ n call, s.clients.calls.length ≤ n → c.calls[n]? = some call →
      ∀ order m, call.input ≠ .order (.submitOrder order m)) :
    ServiceReachable numeric codec start { s with clients := c } := by
  have hgrow : ∀ {c}, CallReachable codec s.clients c →
      s.clients.calls.length ≤ c.calls.length := by
    intro c hc
    induction hc with
    | start => exact le_rfl
    | step _ step ih => exact ih.trans (calls_grow step)
  induction hclients with
  | start => exact h
  | @step mid c reached step ih =>
    have hmid := ih fun n call hn hcall order m hinput => by
      obtain ⟨call', hcall', hsame⟩ := step.inputs hcall
      exact hothers n call' hn hcall' order m (hsame ▸ hinput)
    refine hmid.step (.client step fun call hcall => ?_)
    obtain ⟨n, hn⟩ := List.mem_iff_getElem?.mp hcall
    rw [List.getElem?_drop] at hn
    exact hothers _ call ((hgrow reached).trans (Nat.le_add_right _ _)) hn

/-- The execution of the engine goes on from here. -/
theorem ServiceReachable.here {start s : Service} (_ : ServiceReachable numeric codec start s) :
    CallReachable codec s.clients s.clients := .start

end Go

/-- Two requests for the order are confirmed, and a third one with another amount is refused. -/
theorem created_orders_confirmed_limitBuy : ∃ s D,
    s.response 0 = some (.accepted (sampleAccepted true).receipt) ∧
      s.response 1 = some (.confirmed (sampleAccepted true).receipt) ∧
      s.response 2 = some .conflict ∧ Confirmed orderCodec s D := by
  have hbuilt : ∀ created, orderEntry 101 OrderReceipt.sampleRequest (sampleAccepted created) =
      .ok sampleOrder := by
    intro created
    cases created <;> decide +kernel
  obtain ⟨last, hrun⟩ := @Pipeline.exists_run
    [(sampleFunded.command, sampleFunded.outcome), (sampleSubmitted.command, sampleSubmitted.outcome),
      (sampleRepeated.command, sampleRepeated.outcome)] (by decide +kernel)
  obtain _ | ⟨hfunded, hrun⟩ := hrun
  obtain _ | ⟨hsubmitted, hrun⟩ := hrun
  obtain _ | ⟨hrepeated, -⟩ := hrun
  have hroom : 0 < inputCapacity ∧ 1 < inputCapacity := by decide
  have hjournal : 0 < journalCapacity ∧ 1 < journalCapacity ∧ 2 < journalCapacity ∧ 3 ≤ groupSize := by
    decide
  -- the process starts, and the account is funded
  have h0 : CallReachable orderCodec ⟨recordStart orderCodec, [], []⟩ _ := .start
  have h1 := h0.step (.engine (.boot ⟨rfl, rfl⟩ recover_record rfl) nofun
    ⟨Nat.zero_le _, Nat.zero_le _⟩)
  have h2 := @CallReachable.sendsBalance _ _ _ _ _ _ _ _ h1 ⟨rfl, ⟨rfl, rfl⟩, hjournal.1⟩
    (.updateBalance 101 "USDT" (.ofScaled 300 0) 0) rfl hroom.1
  have hothers : ∀ n call, 0 ≤ n →
      [(⟨.balance (.updateBalance 101 "USDT" (.ofScaled 300 0) 0), .waiting, []⟩ : Call)][n]? =
        some call → ∀ order m, call.input ≠ .order (.submitOrder order m) := by
    intro n call _ hcall order m hinput
    obtain rfl := List.mem_singleton.mp (List.mem_of_getElem? hcall)
    cases hinput
  have hfirst := sample_accepted.go h2 hothers
  -- both calls submit the order
  have hsecond := hfirst.step (.submit (k := 0) rfl rfl (hbuilt true) nofun)
  have hthird := hsecond.step (.submit (k := 1) rfl rfl (hbuilt false) nofun)
  have g0 := hthird.here
  have g1 := g0.step (.opened (n := 1) rfl rfl rfl)
  have g2 := g1.step (.opened (n := 2) rfl rfl rfl)
  have g3 := g2.step (.sentOrder (n := 1) rfl rfl rfl nofun hroom.1)
  have g4 := g3.step (.sentOrder (n := 2) rfl rfl rfl nofun hroom.2)
  -- the core executes the three commands, and the worker records them in one group
  obtain ⟨_, g5⟩ := CallReachable.serveBalance g4 ⟨rfl, ⟨rfl, rfl⟩, hjournal.1⟩ rfl
    (Input.execute_of_run rfl hfunded)
  obtain ⟨_, g6⟩ := g5.serveOrder ⟨rfl, ⟨rfl, rfl⟩, hjournal.2.1⟩ rfl rfl
    (Input.execute_of_run rfl hsubmitted)
  obtain ⟨_, g7⟩ := g6.serveOrder ⟨rfl, ⟨rfl, rfl⟩, hjournal.2.2.1⟩ rfl rfl
    (Input.execute_of_run rfl hrepeated)
  obtain ⟨_, g8⟩ := g7.starts nofun rfl rfl
  obtain ⟨_, g9⟩ := g8.records nofun rfl rfl hjournal.2.2.2 append_submittedStore.1
  have g10 := g9.step (.answered (n := 1) rfl rfl
    (List.mem_append_right _ (List.mem_cons_of_mem _ (List.mem_cons_self ..))) rfl)
  have g11 := g10.step (.answered (n := 2) rfl rfl (List.mem_append_right _
    (List.mem_cons_of_mem _ (List.mem_cons_of_mem _ (List.mem_cons_self ..)))) rfl)
  have hend := hthird.go g11 fun n call hn hcall =>
    absurd (List.getElem?_eq_some_iff.mp hcall).1 (not_lt.mpr hn)
  obtain ⟨D, hD⟩ := created_orders_confirmed Store.loadBalances_sample Pipeline.record_isUuid
    Pipeline.record_genesis sampleService_initial hend legible_submittedStore
  exact ⟨_, D, rfl, rfl, rfl, hD⟩

end Sample

end OrderService

end CexEngine
