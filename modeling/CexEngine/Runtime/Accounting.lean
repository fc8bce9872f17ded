import CexEngine.Runtime.CommandSpec
import CexEngine.Runtime.Staging

/-!
# The accounts of one submission

What an order reserves is what it pays, plus what is refunded, plus what stays
reserved for its remainder.  The four kinds of orders compute these by different
formulas; here they are one equation in units, for every state of the engine and every
order that is executed, together with what it does to the two balances of the order's
user and with the report of a market order.

`refund_nonneg` is the reason the refund is never negative: every fill is at a price
inside the limit, and a budget is never exceeded.
-/

namespace CexEngine

open Foundation Foundation.FiniteMap Foundation.Allocation Amount

namespace Submission

/-! ## What a trade means for the incoming order -/

/-- What a trade costs the order, in units: its value for a buy, its amount for a
sell. -/
def paidFor (order : OrderEntry) (trade : MatchResult) : ℤ :=
  if order.orderType = "buy" then unitsOf trade.price * unitsOf trade.amount / FACTOR
  else unitsOf trade.amount

/-- What a trade gives the order after its fee, in units. -/
def receivedFor (order : OrderEntry) (trade : MatchResult) : ℤ :=
  match BalanceCache.tradeUnits trade with
  | .ok (amount, value, buyerFee, sellerFee) =>
    if order.orderType = "buy" then amount - buyerFee else value - sellerFee
  | .error _ => 0

/-- The asset an order receives. -/
def receiveMint (order : OrderEntry) : String :=
  if order.orderType = "buy" then order.baseMint else order.quoteMint

/-- The amount traded, in units. -/
def tradedAmount (trades : List MatchResult) : ℤ := (trades.map fun t => unitsOf t.amount).sum

/-- The value traded, in units. -/
def tradedValue (trades : List MatchResult) : ℤ :=
  (trades.map fun t => unitsOf t.price * unitsOf t.amount / FACTOR).sum

/-! ## The plan -/

section Plan

variable {order : OrderEntry} {book : OrderBook} {plan : MatchPlan} {d : Demand} {os : List Visit}
  {fills : List Fill}

/-- **What a plan contains**, on any book. -/
structure Planned (order : OrderEntry) (plan : MatchPlan) (d : Demand) (os : List Visit)
    (fills : List Fill) : Prop where
  valid : validate order true = .ok ()
  denotes : Denotes order d
  advance : Advance (MatchPlan.start order) d os fills plan
  good : ∀ v ∈ os, terms.Good v
  inside : ∀ f ∈ fills, (MatchPlan.start order).outsideLimit f.price = false
  other : ∀ f ∈ fills, f.maker.userId ≠ order.userId

theorem planned (h : planOrder order book = .ok plan) : ∃ d os fills, Planned order plan d os fills := by
  obtain ⟨hvalid, d, os, fills, hd, hadv, hchecked⟩ := planOrder_checked h
  refine ⟨d, os, fills, hvalid, hd, hadv, fun v hv => (hchecked v hv).2.good, fun f hf => ?_,
    fun f hf => ?_⟩
  · exact (mem_visits (hchecked _ (hadv.mem_offers hf).2).1).1
  · exact (hchecked _ (hadv.mem_offers hf).2).2.other

theorem Planned.matchList (h : Planned order plan d os fills) :
    plan.matchList = fills.map (Fill.trade (MatchPlan.start order).makerBuy order) :=
  h.advance.matchList

theorem Planned.amount_eq (h : Planned order plan d os fills) :
    tradedAmount plan.matchList = (fills.map fun f => unitsOf f.quantity).sum := by
  rw [tradedAmount, h.matchList, List.map_map]
  rfl

theorem Planned.value_eq (h : Planned order plan d os fills) :
    tradedValue plan.matchList = (fills.map fun f => unitsOf f.value).sum := by
  rw [tradedValue, h.matchList, List.map_map]
  exact congrArg List.sum (List.map_congr_left fun f hf => (h.advance.ok f hf).value_eq)

theorem Planned.totals (h : Planned order plan d os fills) :
    units plan.totalAmount = .ok (tradedAmount plan.matchList) ∧
      units plan.totalQuote = .ok (tradedValue plan.matchList) := by
  have hamount := h.advance.totalAmount 0 units_zero
  have hquote := h.advance.totalQuote 0 units_zero
  rw [zero_add] at hamount hquote
  rw [h.amount_eq, h.value_eq]
  exact ⟨hamount, hquote⟩

/-- A buy with a limit pays at most the limit for each fill. -/
theorem Planned.value_le (h : Planned order plan d os fills) (hbuy : order.orderType = "buy")
    {limit : Decimal} {p : ℤ} (hprice : order.price = some limit) (hlimit : units limit = .ok p) :
    tradedValue plan.matchList * FACTOR ≤ p * tradedAmount plan.matchList := by
  have hmaker : (MatchPlan.start order).makerBuy = false := by
    simp [MatchPlan.start, hbuy]
  have hfill : ∀ f ∈ fills, unitsOf f.value * FACTOR ≤ p * unitsOf f.quantity := by
    intro f hf
    have hok := h.advance.ok f hf
    have hin := h.inside f hf
    rw [MatchPlan.outsideLimit, hmaker] at hin
    have hprice' : (MatchPlan.start order).order.price = some limit := hprice
    rw [hprice'] at hin
    have hle : ¬ limit < f.price := by simpa using hin
    rw [lt_iff_units hlimit hok.units_value.1, not_lt] at hle
    rw [← hok.units_value.2.2]
    exact mul_le_mul_of_nonneg_right hle hok.pos.le
  rw [h.value_eq, h.amount_eq, ← List.sum_map_mul_right, ← List.sum_map_mul_left]
  exact List.sum_le_sum hfill

/-- What is left of a quantity order. -/
theorem Planned.remaining (h : Planned order plan d os fills)
    (hnone : order.remainingQuoteAmount = none) :
    tradedAmount plan.matchList ≤ unitsOf order.amount ∧
      units plan.order.remainingAmount =
        .ok (unitsOf order.amount - tradedAmount plan.matchList) := by
  rw [h.amount_eq]
  exact remaining_quantity h.valid h.denotes h.good h.advance hnone

/-- A budget is not exceeded. -/
theorem Planned.budget (h : Planned order plan d os fills) {budget : Decimal} {b : ℤ}
    (hbudget : order.remainingQuoteAmount = some budget) (hb : units budget = .ok b) :
    tradedValue plan.matchList ≤ b := by
  have hleft := residual_nonneg h.denotes.nonneg h.good
  have hd := h.denotes
  rw [Denotes, hbudget] at hd
  obtain ⟨x, hx, rfl⟩ := hd
  obtain rfl : b = x := Except.ok.inj (hb.symm.trans hx)
  rw [residual_budget] at hleft
  rw [h.value_eq, h.advance.sum_value]
  exact sub_nonneg.mp hleft

end Plan

/-! ## Reserved, used, remaining -/

/-- What an order uses of its reservation, in units. -/
def usedBy (order : OrderEntry) (trades : List MatchResult) : ℤ :=
  (trades.map (paidFor order)).sum

theorem usedBy_eq (order : OrderEntry) (trades : List MatchResult) :
    usedBy order trades =
      if order.orderType = "buy" then tradedValue trades else tradedAmount trades := by
  unfold usedBy paidFor tradedValue tradedAmount
  split <;> rfl

/-- The amounts of a submission by the kind of the order. -/
structure Amounts (order : OrderEntry) (trades : List MatchResult) (reserved remainder : ℤ) :
    Prop where
  limitBuy : order.orderSide = "limit" → order.orderType = "buy" → ∃ p, order.price = some p ∧
    reserved * FACTOR = unitsOf p * unitsOf order.amount ∧
    remainder * FACTOR = unitsOf p * (unitsOf order.amount - tradedAmount trades)
  limitSell : order.orderSide = "limit" → order.orderType = "sell" →
    reserved = unitsOf order.amount ∧ remainder = unitsOf order.amount - tradedAmount trades
  marketBuy : order.orderSide = "market" → order.orderType = "buy" →
    (∃ b, order.quoteAmount = some b ∧ reserved = unitsOf b) ∧ remainder = 0
  marketSell : order.orderSide = "market" → order.orderType = "sell" →
    reserved = unitsOf order.amount ∧ remainder = 0

section Amounts

variable {order : OrderEntry} {plan : MatchPlan} {d : Demand} {os : List Visit}
  {fills : List Fill} {x y : Decimal} {reserved remainder : ℤ}

/-- The four kinds of orders. -/
theorem Planned.amounts (h : Planned order plan d os fills) (hx : reservedAmount order = .ok x)
    (hux : units x = .ok reserved)
    (hy : remainingReserve order plan.order.remainingAmount = .ok y)
    (huy : units y = .ok remainder) : Amounts order plan.matchList reserved remainder := by
  have hprice : plan.order.price = order.price :=
    OrderEntry.congr_frame OrderEntry.price h.advance.frame
  have hmarketZero : order.orderSide = "market" → remainder = 0 := fun hm => by
    rw [remainingReserve, if_pos hm] at hy
    obtain rfl := pure_eq_ok.mp hy
    exact (Except.ok.inj (units_zero.symm.trans huy)).symm
  have hsell : order.orderType = "sell" → reserved = unitsOf order.amount := fun hs => by
    rw [reservedAmount, if_neg (by rw [hs]; decide)] at hx
    obtain rfl := pure_eq_ok.mp hx
    exact (unitsOf_eq hux).symm
  constructor
  · intro hl hbuy
    obtain ⟨-, -, p, a, f, r, hlim⟩ := (validate_limit_iff hl).mp h.valid
    obtain ⟨limit, hlimit, hup, -⟩ := hlim.price
    have hmarket : order.orderSide ≠ "market" := by rw [hl]; decide
    rw [reservedAmount, if_pos hbuy, hlimit] at hx
    rw [remainingReserve, if_neg hmarket, if_pos hbuy, hlimit] at hy
    obtain ⟨-, hremaining⟩ := h.remaining hlim.noBudget.2
    obtain ⟨x1, x2, x3, hx1, hx2, hx3, hxe⟩ := quote_ok hx
    obtain ⟨y1, y2, y3, hy1, hy2, hy3, hye⟩ := quote_ok hy
    obtain rfl : reserved = x3 := Except.ok.inj (hux.symm.trans hx3)
    obtain rfl : remainder = y3 := Except.ok.inj (huy.symm.trans hy3)
    refine ⟨limit, hlimit, ?_, ?_⟩
    · rw [unitsOf_eq hx1, unitsOf_eq hx2, hxe]
    · rw [unitsOf_eq hy1, ← hye, Except.ok.inj (hy2.symm.trans hremaining)]
  · intro hl hs
    obtain ⟨-, -, p, a, f, r, hlim⟩ := (validate_limit_iff hl).mp h.valid
    have hmarket : order.orderSide ≠ "market" := by rw [hl]; decide
    rw [remainingReserve, if_neg hmarket, if_neg (by rw [hs]; decide)] at hy
    obtain rfl := pure_eq_ok.mp hy
    obtain ⟨-, hremaining⟩ := h.remaining hlim.noBudget.2
    exact ⟨hsell hs, Except.ok.inj (huy.symm.trans hremaining)⟩
  · intro hm hbuy
    refine ⟨?_, hmarketZero hm⟩
    obtain ⟨b, hb⟩ := validate_marketBuy hm hbuy h.valid
    obtain ⟨q, hq, -⟩ := hb.budget
    rw [reservedAmount, if_pos hbuy, hb.price] at hx
    rw [hq, expect_eq_ok] at hx
    obtain rfl := Option.some.inj hx
    exact ⟨_, hq, (unitsOf_eq hux).symm⟩
  · exact fun hm hs => ⟨hsell hs, hmarketZero hm⟩

/-- **The refund is not negative**, and it is zero for a limit sell. -/
theorem Planned.refund_nonneg (h : Planned order plan d os fills)
    (ha : Amounts order plan.matchList reserved remainder) :
    usedBy order plan.matchList + remainder ≤ reserved ∧
      (order.orderSide = "limit" → order.orderType = "sell" →
        reserved = usedBy order plan.matchList + remainder) := by
  have hshape := (validate_ok h.valid).1
  have hsellNe : order.orderType = "sell" → order.orderType ≠ "buy" := fun hs => by rw [hs]; decide
  rw [usedBy_eq]
  rcases hshape.kind.2 with hl | hm
  · obtain ⟨-, -, p, a, f, r, hlim⟩ := (validate_limit_iff hl).mp h.valid
    obtain ⟨limit, hlimit, hup, -⟩ := hlim.price
    rcases hshape.kind.1 with hbuy | hs
    · obtain ⟨limit', hlimit', hres, hrem⟩ := ha.limitBuy hl hbuy
      obtain rfl := Option.some.inj (hlimit.symm.trans hlimit')
      have hvalue := h.value_le hbuy hlimit hup
      rw [unitsOf_eq hup] at hres hrem
      rw [if_pos hbuy]
      refine ⟨?_, fun _ hs => absurd hbuy (hsellNe hs)⟩
      have hfactor := factor_pos
      have hsum : (tradedValue plan.matchList + remainder) * FACTOR ≤ reserved * FACTOR := by
        rw [add_mul, hres, hrem]
        linarith [mul_sub p (unitsOf order.amount) (tradedAmount plan.matchList)]
      exact le_of_mul_le_mul_right hsum hfactor
    · obtain ⟨hres, hrem⟩ := ha.limitSell hl hs
      rw [if_neg (hsellNe hs), hres, hrem]
      exact ⟨by omega, fun _ _ => by omega⟩
  · have hnotLimit : order.orderSide ≠ "limit" := by rw [hm]; decide
    refine ⟨?_, fun hl => absurd hl hnotLimit⟩
    rcases hshape.kind.1 with hbuy | hs
    · obtain ⟨⟨b, hb, hres⟩, hzero⟩ := ha.marketBuy hm hbuy
      obtain ⟨n, hmb⟩ := validate_marketBuy hm hbuy h.valid
      obtain ⟨b', hb', hu⟩ := hmb.budget
      obtain ⟨r, hr, hur⟩ := hmb.remaining
      obtain rfl := Option.some.inj (hb.symm.trans hb')
      rw [if_pos hbuy, hzero, hres, unitsOf_eq hu, add_zero]
      exact h.budget hr hur
    · obtain ⟨hres, hzero⟩ := ha.marketSell hm hs
      obtain ⟨a, f, r, hms⟩ := validate_marketSell hm (hsellNe hs) h.valid
      rw [if_neg (hsellNe hs), hzero, hres, add_zero]
      exact (h.remaining hms.noBudget.2).1

end Amounts

/-! ## The balances of the user -/

/-- The value of a settled trade. -/
theorem value_of_tradeUnits {trade : MatchResult} {amount value buyerFee sellerFee : ℤ}
    (h : BalanceCache.tradeUnits trade = .ok (amount, value, buyerFee, sellerFee)) :
    unitsOf trade.amount = amount ∧
      unitsOf trade.price * unitsOf trade.amount / FACTOR = value := by
  obtain ⟨ha, v, b, s, hv, huv, -⟩ := tradeUnits_ok h
  obtain ⟨x, y, z, hx, hy, hz, hxyz⟩ := quote_ok hv
  obtain rfl : value = z := Except.ok.inj (huv.symm.trans hz)
  refine ⟨unitsOf_eq ha, ?_⟩
  rw [unitsOf_eq hx, unitsOf_eq hy, hxyz, Int.mul_ediv_cancel _ factor_pos.ne']

/-- A trade of an order with somebody else. -/
def TakenBy (order : OrderEntry) (trade : MatchResult) : Prop :=
  (if order.orderType = "buy" then trade.buyerId = order.userId ∧ trade.sellerId ≠ order.userId
    else trade.sellerId = order.userId ∧ trade.buyerId ≠ order.userId) ∧
    trade.baseMint = order.baseMint ∧ trade.quoteMint = order.quoteMint

/-- **What the trades move in the two accounts of the user.** -/
theorem Settles.taker {order : OrderEntry} {trades : List MatchResult} {δ : Ledger}
    (h : Settles trades δ) (hne : order.baseMint ≠ order.quoteMint)
    (htaken : ∀ t ∈ trades, TakenBy order t) :
    δ (order.userId, refundMint order) = (0, -usedBy order trades) ∧
      δ (order.userId, receiveMint order) = ((trades.map (receivedFor order)).sum, 0) := by
  induction h with
  | nil => exact ⟨rfl, rfl⟩
  | @cons trade trades δ amount value buyerFee sellerFee head _ ih =>
    obtain ⟨hpay, hget⟩ := ih fun t ht => htaken t (List.mem_cons_of_mem _ ht)
    obtain ⟨hparties, hbase, hquote⟩ := htaken trade (List.mem_cons_self ..)
    obtain ⟨ha, hv⟩ := value_of_tradeUnits head.units_eq
    have hused : usedBy order (trade :: trades) = paidFor order trade + usedBy order trades := by
      rw [usedBy, List.map_cons, List.sum_cons, usedBy]
    have hdelta : ∀ account, BalanceCache.tradeDelta trade amount value buyerFee sellerFee account =
        (if (trade.buyerId, trade.quoteMint) = account then (0, -value) else 0) +
        ((if (trade.sellerId, trade.quoteMint) = account then (value - sellerFee, 0) else 0) +
        ((if (trade.sellerId, trade.baseMint) = account then (0, -amount) else 0) +
        (if (trade.buyerId, trade.baseMint) = account then (amount - buyerFee, 0) else 0))) := by
      intro account
      simp only [BalanceCache.tradeDelta, BalanceCache.tradeChanges, BalanceCache.Change.delta,
        List.map_cons, List.map_nil, List.sum_cons, List.sum_nil, Finsupp.add_apply,
        Finsupp.single_apply, add_zero]
    rw [Finsupp.add_apply, Finsupp.add_apply, hdelta, hdelta, hpay, hget, hused, List.map_cons,
      List.sum_cons, paidFor, receivedFor, head.units_eq]
    unfold refundMint receiveMint
    by_cases hbuy : order.orderType = "buy"
    · rw [if_pos hbuy] at hparties
      obtain ⟨hbuyer, hseller⟩ := hparties
      simp only [if_pos hbuy, hbase, hquote, hbuyer, hv, Prod.mk.injEq, hseller, hne, hne.symm]
      simp [add_comm]
    · rw [if_neg hbuy] at hparties
      obtain ⟨hseller, hbuyer⟩ := hparties
      simp only [if_neg hbuy, hbase, hquote, hseller, ha, Prod.mk.injEq, hbuyer, hne, hne.symm]
      simp [add_comm]

theorem Settles.units {trades : List MatchResult} {δ : Ledger} (h : Settles trades δ) :
    ∀ t ∈ trades, ∃ units, BalanceCache.tradeUnits t = .ok units := by
  induction h with
  | nil => exact fun t ht => by cases ht
  | cons head _ ih =>
    intro t ht
    rcases List.mem_cons.mp ht with rfl | ht
    · exact ⟨_, head.units_eq⟩
    · exact ih t ht

theorem Planned.takenBy {order : OrderEntry} {plan : MatchPlan} {d : Demand} {os : List Visit}
    {fills : List Fill} (h : Planned order plan d os fills) :
    ∀ t ∈ plan.matchList, TakenBy order t := by
  intro t ht
  rw [h.matchList] at ht
  obtain ⟨f, hf, rfl⟩ := List.mem_map.mp ht
  have hother := h.other f hf
  rcases (validate_ok h.valid).1.kind.1 with hbuy | hsell
  · have hmaker : (MatchPlan.start order).makerBuy = false := by simp [MatchPlan.start, hbuy]
    rw [hmaker, TakenBy, if_pos hbuy]
    exact ⟨⟨rfl, hother⟩, rfl, rfl⟩
  · have hmaker : (MatchPlan.start order).makerBuy = true := decide_eq_true hsell
    rw [hmaker, TakenBy, if_neg (by rw [hsell]; decide)]
    exact ⟨⟨rfl, hother⟩, rfl, rfl⟩

/-! ## The result -/

/-- The report of a market order. -/
structure Reported (order : OrderEntry) (trades : List MatchResult) (reserved refund : ℤ)
    (report : MarketCompletion) : Prop where
  identity : report.orderId = order.id ∧ report.userId = order.userId ∧
    report.orderType = order.orderType ∧ report.baseMint = order.baseMint ∧
    report.quoteMint = order.quoteMint
  filledAmount : units report.filledAmount = .ok (tradedAmount trades)
  filledQuoteAmount : units report.filledQuoteAmount = .ok (tradedValue trades)
  reservedAmount : units report.reservedAmount = .ok reserved
  refundAmount : units report.refundAmount = .ok refund
  tradeCount : report.tradeCount = trades.length
  status : (report.status = "filled" ↔ refund = 0) ∧ (report.status = "expired" ↔ refund ≠ 0)

/-- **The accounts of a submission**, in units. -/
structure Accounted (order : OrderEntry) (applied : AppliedSubmission) (cache cache' : BalanceCache)
    (reserved refund remainder : ℤ) : Prop where
  amounts : Amounts order applied.matchList reserved remainder
  /-- Every trade has an exact value and exact fees. -/
  exact : ∀ t ∈ applied.matchList, FACTOR ∣ unitsOf t.price * unitsOf t.amount ∧
    ∃ units, BalanceCache.tradeUnits t = .ok units
  balance : reserved = usedBy order applied.matchList + refund + remainder
  nonneg : 0 ≤ refund ∧ 0 ≤ remainder
  limitSell : order.orderSide = "limit" → order.orderType = "sell" → refund = 0
  paying : unitsOf (cache'.balanceAt (order.userId, refundMint order)).available =
      unitsOf (cache.balanceAt (order.userId, refundMint order)).available -
        (usedBy order applied.matchList + remainder) ∧
    unitsOf (cache'.balanceAt (order.userId, refundMint order)).locked =
      unitsOf (cache.balanceAt (order.userId, refundMint order)).locked + remainder
  receiving : unitsOf (cache'.balanceAt (order.userId, receiveMint order)).available =
      unitsOf (cache.balanceAt (order.userId, receiveMint order)).available +
        (applied.matchList.map (receivedFor order)).sum ∧
    unitsOf (cache'.balanceAt (order.userId, receiveMint order)).locked =
      unitsOf (cache.balanceAt (order.userId, receiveMint order)).locked
  market : order.orderSide = "market" → ∃ report, applied.completion = some report ∧
    Reported order applied.matchList reserved refund report
  limit : order.orderSide = "limit" → applied.completion = none

theorem Planned.reported {order : OrderEntry} {plan : MatchPlan} {d : Demand} {os : List Visit}
    {fills : List Fill} (h : Planned order plan d os fills) {x w : Decimal} {reserved refund : ℤ}
    (hx : units x = .ok reserved) (hw : units w = .ok refund) (hm : order.orderSide = "market") :
    ∃ report, marketCompletion order plan x w = some report ∧
      Reported order plan.matchList reserved refund report := by
  refine ⟨_, by rw [marketCompletion, if_pos hm], ?_⟩
  obtain ⟨hamount, hquote⟩ := h.totals
  have hzero : w.isZero = true ↔ refund = 0 := by
    rw [Decimal.isZero_iff, ← equiv_zero_iff_units hw]
    rfl
  refine ⟨⟨rfl, rfl, rfl, rfl, rfl⟩, hamount, hquote, hx, hw, rfl, ?_⟩
  dsimp only
  by_cases h0 : w.isZero = true
  · rw [if_pos h0]
    exact ⟨⟨fun _ => hzero.mp h0, fun _ => rfl⟩,
      ⟨fun hs => absurd hs (by decide), fun hne => absurd (hzero.mp h0) hne⟩⟩
  · rw [if_neg h0]
    exact ⟨⟨fun hs => absurd hs (by decide), fun hr => absurd (hzero.mpr hr) h0⟩,
      ⟨fun _ hr => h0 (hzero.mpr hr), fun _ => rfl⟩⟩

/-- **Accounting of one submission**, in every state.  Once an order is planned, what it
used and what stays reserved never exceed the reservation; and when it is executed, its
accounts balance. -/
theorem submission_accounting (order : OrderEntry) (books : Books) (executor : Executor) :
    (∀ plan x y used reserved remainder, planOrder order (bookOf books order) = .ok plan →
      reservedAmount order = .ok x → units x = .ok reserved →
      remainingReserve order plan.order.remainingAmount = .ok y → units y = .ok remainder →
      units (if order.orderType = "buy" then plan.totalQuote else plan.totalAmount) = .ok used →
      0 ≤ reserved - used ∧ 0 ≤ reserved - used - remainder) ∧
    ∀ applied books' executor',
      (apply order).run (books, executor) = (.ok applied, (books', executor')) →
      ∃ reserved refund remainder, Accounted order applied executor.balanceCache
        executor'.balanceCache reserved refund remainder := by
  constructor
  · intro plan x y used reserved remainder hplan hx hux hy huy hused
    obtain ⟨d, os, fills, h⟩ := planned hplan
    have hle := (h.refund_nonneg (h.amounts hx hux hy huy)).1
    have heq : used = usedBy order plan.matchList := by
      rw [usedBy_eq]
      split at hused
      · next hbuy =>
        rw [if_pos hbuy]
        exact Except.ok.inj (hused.symm.trans h.totals.2)
      · next hbuy =>
        rw [if_neg hbuy]
        exact Except.ok.inj (hused.symm.trans h.totals.1)
    have hnn := units_nonneg huy
    omega
  · intro applied books' executor' hrun
    obtain ⟨plan, prepared, completion, book', hprep, -, rfl, -, rfl⟩ := apply_prepared hrun
    obtain ⟨hplan, δ, x, reserved, y, remaining, z, refund, hδ, hx, hux, hy, huy, hz, hrefund, hnn,
      ⟨w, hw, rfl⟩, touched, hmoves⟩ := prepare_ok hprep
    obtain ⟨d, os, fills, h⟩ := planned hplan
    have ha := h.amounts hx hux hy huy
    have hused : z = usedBy order plan.matchList := by
      rw [usedBy_eq]
      split at hz
      · next hbuy =>
        rw [if_pos hbuy]
        exact Except.ok.inj (hz.symm.trans h.totals.2)
      · next hbuy =>
        rw [if_neg hbuy]
        exact Except.ok.inj (hz.symm.trans h.totals.1)
    rw [hused] at hrefund
    have hne := (validate_ok h.valid).1.assets_ne
    obtain ⟨hpay, hget⟩ := hδ.taker hne h.takenBy
    have hmints : refundMint order ≠ receiveMint order := by
      unfold refundMint receiveMint
      split
      · exact hne.symm
      · exact hne
    have hbalance : reserved = usedBy order plan.matchList + refund + remaining := by omega
    have hledger : ∀ account, BalanceCache.unitsPair
        ((executor.balanceCache.commitPrepared prepared).balanceAt account) =
        BalanceCache.unitsPair (executor.balanceCache.balanceAt account) +
          (BalanceCache.reservation (order.userId, refundMint order) true reserved account +
            δ account +
            BalanceCache.reservation (order.userId, refundMint order) false refund account) := by
      intro account
      have heq := congrFun (congrArg DFunLike.coe hmoves.ledger_eq) account
      rw [Finsupp.add_apply, Finsupp.add_apply, Finsupp.add_apply, BalanceCache.ledger_apply,
        BalanceCache.ledger_apply] at heq
      exact heq
    have hpaying := hledger (order.userId, refundMint order)
    have hreceiving := hledger (order.userId, receiveMint order)
    rw [hpay] at hpaying
    rw [hget] at hreceiving
    simp only [BalanceCache.reservation, Finsupp.single_apply, BalanceCache.unitsPair, if_true,
      Prod.mk.injEq, hmints, and_false, if_false, Prod.mk_add_mk, zero_add, add_zero,
      Bool.false_eq_true] at hpaying hreceiving
    refine ⟨reserved, refund, remaining, ha, fun t ht => ⟨?_, hδ.units t ht⟩, hbalance,
      ⟨hnn, units_nonneg huy⟩, ?_, ?_, hreceiving, fun hm => h.reported hux hw hm, fun hl => ?_⟩
    · have ht' : t ∈ plan.matchList := ht
      rw [h.matchList] at ht'
      obtain ⟨f, hf, rfl⟩ := List.mem_map.mp ht'
      exact ⟨unitsOf f.value, (h.advance.ok f hf).units_value.2.2.trans (mul_comm _ _)⟩
    · intro hl hs
      have hzero := (h.refund_nonneg ha).2 hl hs
      omega
    · obtain ⟨havailable, hlocked⟩ := hpaying
      rw [havailable, hlocked]
      constructor
      · show _ = _ - (usedBy order plan.matchList + remaining)
        omega
      · omega
    · show marketCompletion order plan x w = none
      rw [marketCompletion, if_neg (by rw [hl]; decide)]

/-- A buy that is filled. -/
theorem submission_accounting_trade :
    ∃ applied books' executor', (apply (.limit 2 2 true Decimal.ONE Decimal.ONE)).run
        (booksWithSell, ⟨lockedSeller⟩) = (.ok applied, (books', executor')) ∧
      ∃ reserved refund remainder, Accounted (.limit 2 2 true Decimal.ONE Decimal.ONE) applied
        lockedSeller executor'.balanceCache reserved refund remainder := by
  have hok : ((apply (.limit 2 2 true Decimal.ONE Decimal.ONE)).run
      (booksWithSell, ⟨lockedSeller⟩)).1.isOk = true := by
    decide +kernel
  rcases hrun : (apply (.limit 2 2 true Decimal.ONE Decimal.ONE)).run
    (booksWithSell, ⟨lockedSeller⟩) with ⟨fault | applied, books', executor'⟩
  · rw [hrun] at hok
    cases hok
  · exact ⟨applied, books', executor', rfl, (submission_accounting _ booksWithSell
      ⟨lockedSeller⟩).2 applied books' executor' hrun⟩

end Submission

end CexEngine
