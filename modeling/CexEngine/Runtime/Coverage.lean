import CexEngine.Runtime.Reachable

/-!
# What the locked balances cover

One `locked` field of an account backs the resting orders of its user in all
markets, the reserved withdrawals and the manual holds.  `coverage` says that it is
exactly their sum, in every reachable state.

The share of an order is its backing: the price of the remainder for a buy, the
remainder itself for a sell.  A fill takes from the locked balance of the maker what
it takes from the backing (`Fill.Ok.backing_rest`), and what the taker keeps locked
is the backing of its remainder (`Applied.remaining_backing`).

The backing of a buy is a product of two amounts, and it is always a whole number
of units.  It is what `amount::quote` returns, as long as the 96 bits of a decimal
hold it.
-/

namespace CexEngine

open Foundation Foundation.FiniteMap Foundation.Allocation Amount

/-! ## The backing of an order -/

namespace OrderEntry

/-- The price of an order, in units. -/
def priceUnits (o : OrderEntry) : ℤ := o.price.elim 0 unitsOf

/-- The product of the price and the remainder, in squared units. -/
def product (o : OrderEntry) : ℤ := o.priceUnits * unitsOf o.remainingAmount

/-- What an order needs locked, in units. -/
def backing (buy : Bool) (o : OrderEntry) : ℤ :=
  if buy then o.product / FACTOR else unitsOf o.remainingAmount

/-- The account that backs an order. -/
def account (buy : Bool) (o : OrderEntry) : Account :=
  (o.userId, if buy then o.quoteMint else o.baseMint)

/-- The share of an account that an order holds. -/
def hold (account : Account) (buy : Bool) (o : OrderEntry) : ℤ :=
  if o.account buy = account then o.backing buy else 0

/-- The account is read off the frame. -/
theorem account_congr {o o' : OrderEntry} (h : o'.frame = o.frame) (buy : Bool) :
    o'.account buy = o.account buy := congr_frame (account buy) h

end OrderEntry

/-- A level names the price of its orders. -/
theorem Resting.priceUnits_eq {pair : TradingPair} {buy : Bool} {level : Decimal} {o : OrderEntry}
    (h : Resting pair buy level o) : o.priceUnits = unitsOf level := by
  have hprice := h.price
  unfold SameOption at hprice
  unfold OrderEntry.priceUnits
  cases hp : o.price with
  | none =>
    rw [hp] at hprice
    cases hprice
  | some d =>
    rw [hp] at hprice
    have hraw : d.raw = level.raw := Option.some.inj hprice
    rw [Option.elim_some, unitsOf, unitsOf, hraw]

section Fills

variable {pair : TradingPair} {buy : Bool} {f : Fill}

/-- **A fill takes its value from the product of the maker.** -/
theorem Fill.Ok.product_rest (h : f.Ok) (hrest : Resting pair buy f.price f.maker) :
    f.rest.product = f.maker.product - unitsOf f.value * FACTOR := by
  obtain ⟨q, r, -, hq, hr, -, hrq, -, -⟩ := Fill.filledMaker_ok h.rest
  have hprice : f.rest.priceUnits = f.maker.priceUnits :=
    OrderEntry.congr_frame OrderEntry.priceUnits h.frame
  have hvalue := h.units_value.2.2
  rw [OrderEntry.product, OrderEntry.product, hprice, hrest.priceUnits_eq, ← hvalue, unitsOf_eq hq,
    unitsOf_eq hr, unitsOf_eq hrq]
  ring

/-- The part of the backing that a fill takes. -/
def Fill.taken (buy : Bool) (f : Fill) : ℤ := if buy then unitsOf f.value else unitsOf f.quantity

/-- **A fill takes its part from the backing of the maker.** -/
theorem Fill.Ok.backing_rest (h : f.Ok) (hrest : Resting pair buy f.price f.maker) :
    f.rest.backing buy = f.maker.backing buy - f.taken buy := by
  obtain ⟨q, r, -, hq, hr, -, hrq, -, -⟩ := Fill.filledMaker_ok h.rest
  unfold OrderEntry.backing Fill.taken
  cases buy with
  | true =>
    show f.rest.product / FACTOR = f.maker.product / FACTOR - unitsOf f.value
    rw [h.product_rest hrest, sub_eq_add_neg, ← neg_mul, Int.add_mul_ediv_right _ _ factor_pos.ne',
      sub_eq_add_neg]
  | false =>
    show unitsOf f.rest.remainingAmount = unitsOf f.maker.remainingAmount - unitsOf f.quantity
    rw [unitsOf_eq hrq, unitsOf_eq hr, unitsOf_eq hq]

/-- An order with nothing left needs nothing locked. -/
theorem OrderEntry.backing_of_not_pos {o : OrderEntry} {r : ℤ}
    (hr : units o.remainingAmount = .ok r) (hpos : ¬ 0 < o.remainingAmount) (buy : Bool) :
    o.backing buy = 0 := by
  have hzero : r = 0 := le_antisymm (not_lt.mp fun h => hpos ((pos_iff_units hr).mpr h))
    (units_nonneg hr)
  unfold OrderEntry.backing OrderEntry.product
  rw [unitsOf_eq hr, hzero, mul_zero, Int.zero_ediv, ite_self]

/-- What a fill takes from the share of an account. -/
theorem Fill.Ok.hold_diff (h : f.Ok) (hrest : Resting pair buy f.price f.maker) (account : Account) :
    f.maker.hold account buy - (kept f.rest).elim 0 (OrderEntry.hold account buy) =
      if f.maker.account buy = account then f.taken buy else 0 := by
  obtain ⟨q, r, -, -, -, -, hrq, -, -⟩ := Fill.filledMaker_ok h.rest
  have hkept : (kept f.rest).elim 0 (OrderEntry.hold account buy) = f.rest.hold account buy := by
    unfold kept
    split
    · rfl
    · next hpos =>
      rw [Option.elim_none, OrderEntry.hold, OrderEntry.backing_of_not_pos hrq hpos, ite_self]
  rw [hkept, OrderEntry.hold, OrderEntry.hold, OrderEntry.account_congr h.frame,
    h.backing_rest hrest]
  split <;> ring

end Fills

/-! ## The shares of a book -/

/-- What the orders of a book hold of an account. -/
def OrderBook.hold (account : Account) (b : OrderBook) : ℤ :=
  (b.buyOrders.flat.map (OrderEntry.hold account true)).sum +
    (b.sellOrders.flat.map (OrderEntry.hold account false)).sum

theorem OrderBook.hold_eq (account : Account) (b : OrderBook) (buy : Bool) :
    b.hold account = ((b.side buy).flat.map (OrderEntry.hold account buy)).sum +
      ((b.side !buy).flat.map (OrderEntry.hold account !buy)).sum := by
  cases buy with
  | true => rfl
  | false => exact add_comm _ _

/-- **What a book holds after a commit.** -/
theorem Committed.hold {book book' : OrderBook} {makerBuy : Bool} {fills : List Fill}
    {added : Option (Decimal × OrderEntry)} {pair : TradingPair}
    (h : Committed book book' makerBuy fills added) (hbook : book.Inv pair)
    (hfills : FillsOf (book.side makerBuy) fills) (account : Account) :
    book'.hold account = book.hold account -
      (fills.map fun f => if f.maker.account makerBuy = account then f.taken makerBuy else 0).sum +
      added.elim 0 fun a => a.2.hold account !makerBuy := by
  have hmakers := hfills.sum_flat (hbook.side_ids makerBuy) (OrderEntry.hold account makerBuy)
  have hdiff : (fills.map fun f => f.maker.hold account makerBuy -
      (kept f.rest).elim 0 (OrderEntry.hold account makerBuy)) =
      fills.map fun f => if f.maker.account makerBuy = account then f.taken makerBuy else 0 := by
    refine List.map_congr_left fun f hf => ?_
    obtain ⟨queue, hqueue, hmem⟩ := hfills.mem f hf
    exact (hfills.ok f hf).hold_diff ((hbook.side makerBuy).resting _ _ hqueue _ hmem) account
  rw [hdiff, ← h.makers_flat] at hmakers
  have htaker : ((book'.side !makerBuy).flat.map (OrderEntry.hold account !makerBuy)).sum =
      (added.elim 0 fun a => a.2.hold account !makerBuy) +
        ((book.side !makerBuy).flat.map (OrderEntry.hold account !makerBuy)).sum := by
    rw [(h.taker_flat.map _).sum_eq, List.map_append, List.sum_append]
    cases added <;> simp
  rw [OrderBook.hold_eq account book' makerBuy, OrderBook.hold_eq account book makerBuy, hmakers,
    htaker]
  ring

/-! ## What a submission moves -/

namespace Submission

/-- What trades take from the locked amount of an account. -/
theorem Settles.lockedAt {makerBuy : Bool} {order : OrderEntry} {fills : List Fill} {δ : Ledger}
    (h : Settles (fills.map (Fill.trade makerBuy order)) δ) (hok : ∀ f ∈ fills, f.Ok)
    (account : Account) :
    Ledger.lockedAt account δ = -(fills.map fun f =>
      (if ((if makerBuy then f.maker else order).userId, order.quoteMint) = account then
        unitsOf f.value else 0) +
      if ((if makerBuy then order else f.maker).userId, order.baseMint) = account then
        unitsOf f.quantity else 0).sum := by
  induction fills generalizing δ with
  | nil =>
    cases h
    rw [map_zero]
    rfl
  | cons f fills ih =>
    cases h with
    | @cons _ _ δ' amount value buyerFee sellerFee head tail =>
      obtain ⟨hamount, v, b, s, hv, hvalue, -, -, -, -⟩ := tradeUnits_ok head.units_eq
      have hf := hok f (List.mem_cons_self ..)
      obtain rfl : f.value = v := Except.ok.inj (hf.value.symm.trans hv)
      have hamount' : unitsOf f.quantity = amount := unitsOf_eq hamount
      rw [map_add, lockedAt_tradeDelta, ih tail fun g hg => hok g (List.mem_cons_of_mem _ hg),
        List.map_cons, List.sum_cons, ← hamount', ← unitsOf_eq hvalue]
      exact (neg_add _ _).symm

/-- A fixed account among those of a list of fills. -/
theorem sum_add_ite (fills : List Fill) (g h : Fill → ℤ) (p : Prop) [Decidable p] :
    (fills.map fun f => g f + if p then h f else 0).sum =
      (fills.map g).sum + if p then (fills.map h).sum else 0 := by
  rw [List.sum_map_add]
  split
  · rfl
  · rw [List.map_const', List.sum_replicate, smul_zero]

variable {books books' : Books} {cache cache' : BalanceCache} {order : OrderEntry}
  {applied : AppliedSubmission} {book' : OrderBook} {plan : MatchPlan} {d : Demand}
  {fills : List Fill} {δ : Ledger} {reserved remaining refund : ℤ}

/-- The remainder of a limit order, and what stays reserved for it. -/
theorem Applied.remaining_limit
    (h : Applied books cache order applied books' cache' book' plan d fills δ reserved remaining
      refund) (hlimit : order.orderSide = "limit") :
    (∃ r, units plan.order.remainingAmount = .ok r) ∧
      (order.orderType = "buy" → plan.order.product = remaining * FACTOR) ∧
      (order.orderType ≠ "buy" → unitsOf plan.order.remainingAmount = remaining) := by
  have hmarket : order.orderSide ≠ "market" := by
    rw [hlimit]
    decide
  obtain ⟨x, hx, hux⟩ := h.remaining_eq
  rw [remainingReserve, if_neg hmarket] at hx
  by_cases hbuy : order.orderType = "buy"
  · rw [if_pos hbuy] at hx
    simp only [bind_eq_ok, expect_eq_ok] at hx
    obtain ⟨level, hlevel, hquote⟩ := hx
    obtain ⟨u, w, z, hu, hw, hz, huwz⟩ := quote_ok hquote
    obtain rfl : remaining = z := Except.ok.inj (hux.symm.trans hz)
    have hprice : plan.order.price = some level :=
      (OrderEntry.congr_frame OrderEntry.price h.advance.frame).trans hlevel
    refine ⟨⟨w, hw⟩, fun _ => ?_, fun hne => absurd hbuy hne⟩
    rw [OrderEntry.product, OrderEntry.priceUnits, hprice, Option.elim_some, unitsOf_eq hu,
      unitsOf_eq hw, huwz]
  · rw [if_neg hbuy] at hx
    obtain rfl := pure_eq_ok.mp hx
    exact ⟨⟨_, hux⟩, fun h => absurd h hbuy, fun _ => unitsOf_eq hux⟩

/-- **What stays reserved is the backing of the remainder.** -/
theorem Applied.remaining_backing
    (h : Applied books cache order applied books' cache' book' plan d fills δ reserved remaining
      refund) (account : Account) :
    (plan.remainder.elim 0 fun a => a.2.hold account !plan.makerBuy) =
      if (order.userId, refundMint order) = account then remaining else 0 := by
  have hframe : plan.order.frame = order.frame := h.advance.frame
  have hside : plan.order.orderSide = order.orderSide :=
    OrderEntry.congr_frame OrderEntry.orderSide hframe
  unfold MatchPlan.remainder
  rw [hside]
  by_cases hmarket : order.orderSide = "market"
  · -- nothing of a market order rests, and nothing stays reserved
    obtain ⟨x, hx, hux⟩ := h.remaining_eq
    rw [remainingReserve, if_pos hmarket] at hx
    obtain rfl := pure_eq_ok.mp hx
    have hzero : remaining = 0 := Except.ok.inj (hux.symm.trans units_zero)
    rw [if_neg fun hl => absurd (hmarket.symm.trans hl.1) (by decide), hzero, ite_self]
    rfl
  · have hlimit := (validate_ok h.valid).1.kind.2.resolve_right hmarket
    obtain ⟨⟨r, hr⟩, hbuyer, hseller⟩ := h.remaining_limit hlimit
    obtain ⟨-, -, p, a, f, r', hl⟩ := (validate_limit_iff hlimit).mp h.valid
    obtain ⟨level, hlevel, -⟩ := hl.price
    have hprice : plan.order.price = some level :=
      (OrderEntry.congr_frame OrderEntry.price hframe).trans hlevel
    have hhold : plan.order.hold account (!plan.makerBuy) =
        if (order.userId, refundMint order) = account then remaining else 0 := by
      rw [h.advance.not_makerBuy h.valid, OrderEntry.hold, OrderEntry.account_congr hframe,
        OrderEntry.account, OrderEntry.backing, refundMint]
      by_cases hbuy : order.orderType = "buy"
      · rw [decide_eq_true hbuy, if_pos rfl, if_pos rfl, if_pos hbuy, hbuyer hbuy,
          Int.mul_ediv_cancel _ factor_pos.ne']
      · rw [decide_eq_false hbuy, if_neg Bool.false_ne_true, if_neg Bool.false_ne_true,
          if_neg hbuy, hseller hbuy]
    by_cases hpos : 0 < plan.order.remainingAmount
    · rw [if_pos ⟨hlimit, hpos⟩, hprice]
      exact hhold
    · rw [if_neg fun hc => hpos hc.2, ← hhold, OrderEntry.hold,
        OrderEntry.backing_of_not_pos hr hpos, ite_self]
      rfl

/-- **What a submission does to the locked amount of an account** is what it does to
the shares of the book. -/
theorem Applied.lockedAt
    (h : Applied books cache order applied books' cache' book' plan d fills δ reserved remaining
      refund)
    (hpairs : ∀ f ∈ fills, f.maker.pair = order.pair) (account : Account) :
    Ledger.lockedAt account (BalanceCache.reservation (order.userId, refundMint order) true reserved
      + δ + BalanceCache.reservation (order.userId, refundMint order) false refund) =
      (plan.remainder.elim 0 fun a => a.2.hold account !plan.makerBuy) -
      (fills.map fun f => if f.maker.account plan.makerBuy = account then
        f.taken plan.makerBuy else 0).sum := by
  have hmatch : plan.matchList = fills.map (Fill.trade plan.makerBuy order) := by
    rw [h.advance.matchList, h.advance.makerBuy]
    rfl
  have hsettles := h.settles
  rw [hmatch] at hsettles
  have hrefund := h.refund_eq
  have hmakers : (fills.map fun f =>
      (if ((if plan.makerBuy then f.maker else order).userId, order.quoteMint) = account then
        unitsOf f.value else 0) +
      if ((if plan.makerBuy then order else f.maker).userId, order.baseMint) = account then
        unitsOf f.quantity else 0).sum =
      (fills.map fun f => if f.maker.account plan.makerBuy = account then
        f.taken plan.makerBuy else 0).sum +
      if (order.userId, refundMint order) = account then used order fills else 0 := by
    have hbase : ∀ f ∈ fills, f.maker.baseMint = order.baseMint := fun f hf =>
      congrArg TradingPair.baseMint (hpairs f hf)
    have hquote : ∀ f ∈ fills, f.maker.quoteMint = order.quoteMint := fun f hf =>
      congrArg TradingPair.quoteMint (hpairs f hf)
    have hside : plan.makerBuy = decide (order.orderType = "sell") := h.advance.makerBuy
    rcases (validate_ok h.valid).1.kind.1 with htype | htype
    · -- a buy: the taker pays the values
      have hmaker : plan.makerBuy = false := by
        rw [hside, htype]
        rfl
      rw [hmaker, refundMint, used, if_pos htype, if_pos htype, ← sum_add_ite]
      refine congrArg List.sum (List.map_congr_left fun f hf => ?_)
      rw [OrderEntry.account, Fill.taken, if_neg Bool.false_ne_true, if_neg Bool.false_ne_true,
        hbase f hf]
      exact add_comm _ _
    · -- a sell: the taker delivers the quantities
      have hne : order.orderType ≠ "buy" := by
        rw [htype]
        decide
      have hmaker : plan.makerBuy = true := by
        rw [hside, htype]
        rfl
      rw [hmaker, refundMint, used, if_neg hne, if_neg hne, ← sum_add_ite]
      refine congrArg List.sum (List.map_congr_left fun f hf => ?_)
      rw [OrderEntry.account, Fill.taken, hquote f hf]
      rfl
  rw [map_add, map_add, hsettles.lockedAt h.advance.ok, hmakers, h.remaining_backing account,
    BalanceCache.reservation, BalanceCache.reservation, Ledger.lockedAt_single,
    Ledger.lockedAt_single]
  split
  · simp only [if_true, Bool.false_eq_true, if_false]
    linarith
  · ring

end Submission

/-! ## The shares of a state -/

/-- The share of an account that a withdrawal holds, as long as it is reserved. -/
def WithdrawalReceipt.reservedFor (account : Account) (r : WithdrawalReceipt) : ℤ :=
  if r.status = .reserved ∧ (r.original.userId, r.original.asset) = account then
    unitsOf r.original.amount else 0

/-- What standalone locks and unlocks hold of an account. -/
def manualAt (account : Account) : Command × Outcome → ℤ
  | (.lock userId mint amount, .applied _) =>
    if (userId, mint) = account then unitsOf amount else 0
  | (.unlock userId mint amount, .applied _) =>
    if (userId, mint) = account then -unitsOf amount else 0
  | _ => 0

namespace EngineState

/-- What the resting orders hold of an account, over all books. -/
noncomputable def heldByOrders (account : Account) (s : EngineState) : ℤ :=
  total (OrderBook.hold account) s.orderbooks

/-- What the reserved withdrawals hold of an account. -/
noncomputable def heldByWithdrawals (account : Account) (s : EngineState) : ℤ :=
  total (WithdrawalReceipt.reservedFor account) s.withdrawalReceipts

/-- What an account has locked, in units. -/
def lockedUnits (account : Account) (s : EngineState) : ℤ :=
  unitsOf (s.cache.balanceAt account).locked

/-- What an account has locked beyond its orders and withdrawals. -/
noncomputable def surplus (account : Account) (s : EngineState) : ℤ :=
  s.lockedUnits account - s.heldByOrders account - s.heldByWithdrawals account

end EngineState

theorem BalanceCache.Moves.locked {c c' : BalanceCache} {δ : Ledger} {touched : List Account}
    (h : BalanceCache.Moves c c' δ touched) (account : Account) :
    unitsOf (c'.balanceAt account).locked =
      unitsOf (c.balanceAt account).locked + Ledger.lockedAt account δ := by
  have hat : ∀ c : BalanceCache,
      unitsOf (c.balanceAt account).locked = Ledger.lockedAt account c.ledger := by
    intro c
    rw [Ledger.lockedAt_apply, BalanceCache.ledger_apply]
    rfl
  rw [hat, hat, h.ledger_eq, map_add]

section Steps

variable {s s' : EngineState} {δ : Ledger} {touched : List Account} (account : Account)

/-- A transition that touches no book and no receipt of a withdrawal. -/
theorem surplus_of_moves (hmoves : BalanceCache.Moves s.cache s'.cache δ touched)
    (hbooks : s'.orderbooks = s.orderbooks)
    (hreceipts : s'.withdrawalReceipts = s.withdrawalReceipts) {x : ℤ}
    (hx : Ledger.lockedAt account δ = x) : s'.surplus account = s.surplus account + x := by
  have hlocked : s'.lockedUnits account = _ := hmoves.locked account
  have hlocked' : s.lockedUnits account = unitsOf (s.cache.balanceAt account).locked := rfl
  unfold EngineState.surplus EngineState.heldByOrders EngineState.heldByWithdrawals
  rw [hbooks, hreceipts]
  linarith

/-- A transition that writes one book. -/
theorem surplus_of_setBook {pair : TradingPair} {book' : OrderBook}
    (hmoves : BalanceCache.Moves s.cache s'.cache δ touched)
    (hbooks : s'.orderbooks = s.orderbooks.insert pair book')
    (hreceipts : s'.withdrawalReceipts = s.withdrawalReceipts)
    (hhold : book'.hold account = weights (OrderBook.hold account) s.orderbooks pair +
      Ledger.lockedAt account δ) : s'.surplus account = s.surplus account := by
  have hlocked : s'.lockedUnits account = _ := hmoves.locked account
  have hlocked' : s.lockedUnits account = unitsOf (s.cache.balanceAt account).locked := rfl
  unfold EngineState.surplus EngineState.heldByOrders EngineState.heldByWithdrawals
  rw [hbooks, hreceipts, total_insert]
  linarith

/-- A transition that writes one withdrawal receipt. -/
theorem surplus_of_putReceipt {funds : WithdrawalFunds} {status : Status}
    (hmoves : BalanceCache.Moves s.cache s'.cache δ touched)
    (hbooks : s'.orderbooks = s.orderbooks)
    (hreceipts : s'.withdrawalReceipts =
      s.withdrawalReceipts.insert funds.withdrawalId ⟨funds, status⟩)
    (hhold : WithdrawalReceipt.reservedFor account ⟨funds, status⟩ =
      weights (WithdrawalReceipt.reservedFor account) s.withdrawalReceipts funds.withdrawalId +
        Ledger.lockedAt account δ) : s'.surplus account = s.surplus account := by
  have hlocked : s'.lockedUnits account = _ := hmoves.locked account
  have hlocked' : s.lockedUnits account = unitsOf (s.cache.balanceAt account).locked := rfl
  unfold EngineState.surplus EngineState.heldByOrders EngineState.heldByWithdrawals
  rw [hbooks, hreceipts, total_insert]
  linarith

/-- The share of the book an order meets. -/
theorem weights_bookOf (books : Books) (order : OrderEntry) :
    weights (OrderBook.hold account) books order.pair =
      (Submission.bookOf books order).hold account := by
  unfold Submission.bookOf
  cases h : books.lookup order.pair with
  | none =>
    rw [weights_apply_none h]
    rfl
  | some book =>
    rw [weights_apply_some h]
    rfl

theorem lockedAt_stepDelta (command : WithdrawalCommand) (v : ℤ) :
    Ledger.lockedAt account (Withdrawal.stepDelta command v) =
      if (command.funds.userId, command.funds.asset) = account then
        (if command.action = .reserve then v else -v) else 0 := by
  unfold Withdrawal.stepDelta BalanceCache.reservation
  cases command.action <;> simp only [Ledger.lockedAt_single] <;> rfl

/-- **The step of a withdrawal.**  The receipt holds what the command locks. -/
theorem reservedFor_step {command : WithdrawalCommand} {v : ℤ}
    (hreceipt : Withdrawal.checkReceipt
      (s.withdrawalReceipts.lookup command.funds.withdrawalId) command = .ok none)
    (hv : units command.funds.amount = .ok v) :
    WithdrawalReceipt.reservedFor account
        ⟨command.funds, Withdrawal.nextStatus command.action⟩ =
      weights (WithdrawalReceipt.reservedFor account) s.withdrawalReceipts
          command.funds.withdrawalId +
        Ledger.lockedAt account (Withdrawal.stepDelta command v) := by
  have hnew : WithdrawalReceipt.reservedFor account
      ⟨command.funds, Withdrawal.nextStatus command.action⟩ =
      if (command.funds.userId, command.funds.asset) = account then
        (if command.action = .reserve then v else 0) else 0 := by
    rw [WithdrawalReceipt.reservedFor, unitsOf_eq hv]
    cases command.action <;> simp [Withdrawal.nextStatus]
  rw [hnew, lockedAt_stepDelta]
  rcases Withdrawal.checkReceipt_eq_none.mp hreceipt with ⟨hnone, haction⟩ |
    ⟨r, hr, ⟨-, huser, hasset, hamount⟩, hstatus, haction⟩
  · rw [weights_apply_none hnone, if_pos haction, if_pos haction, zero_add]
  · have hold : WithdrawalReceipt.reservedFor account r =
        if (command.funds.userId, command.funds.asset) = account then v else 0 := by
      rw [WithdrawalReceipt.reservedFor, hstatus, huser, hasset,
        unitsOf_eq ((units_congr hamount).mpr hv)]
      simp
    rw [weights_apply_some hr, hold, if_neg haction, if_neg haction]
    split <;> ring

end Steps

/-- **One transition**: what is locked beyond orders and withdrawals changes by
standalone locks and unlocks only. -/
theorem Effect.surplus {s s' : EngineState} {command : Command} {outcome : Outcome}
    (h : Effect s command outcome s') (hs : s.Inv) (account : Account) :
    s'.surplus account = s.surplus account + manualAt account (command, outcome) := by
  have hzero : ∀ x : ℤ, s'.surplus account = x → s'.surplus account = x + 0 := by
    intro x hx
    rw [hx, add_zero]
  cases h with
  | failed => cases command <;> exact (add_zero _).symm
  | repeatedCancel => exact (add_zero _).symm
  | resubmitted => exact (add_zero _).symm
  | rejected => exact (add_zero _).symm
  | @submitted order applied books' executor' trades hnew hrun houtputs =>
    obtain ⟨book', plan, d, fills, δ, reserved, remaining, refund, happlied, -, hfills,
      hcommitted⟩ := hs.applied hnew hrun
    obtain ⟨touched, hmoves⟩ := happlied.moves
    have hbook := hs.bookOf order
    have hpairs : ∀ f ∈ fills, f.maker.pair = order.pair := by
      intro f hf
      obtain ⟨queue, hqueue, hmem⟩ := hfills.mem f hf
      exact ((hbook.side _).resting _ _ hqueue _ hmem).pair
    refine hzero _ (surplus_of_setBook account hmoves happlied.books_eq rfl ?_)
    rw [weights_bookOf, happlied.lockedAt hpairs, hcommitted.hold hbook hfills]
    ring
  | @cancelled orderId userId pair order books' executor' _ hrun =>
    obtain ⟨book, buy, level, queue, side', v, hc⟩ := Threads.cancelOrder_ok hrun
    have hbook := hs.books _ _ hc.lookup
    obtain ⟨-, hperm, -, -, -⟩ := hc.book hbook
    have hmoves : BalanceCache.Moves s.cache _ _ _ := hc.moves
    have hmem : order ∈ queue := List.mem_of_find?_eq_some hc.found_eq
    have hrest := (hbook.side buy).resting _ _ hc.queue_eq _ hmem
    have hbacking : order.backing buy = v := by
      have hvalue := hc.value
      unfold OrderEntry.backing OrderEntry.product
      rw [hrest.priceUnits_eq]
      cases buy with
      | true =>
        rw [if_pos rfl] at hvalue ⊢
        rw [hvalue, Int.mul_ediv_cancel _ factor_pos.ne']
      | false => exact hvalue
    have hhold : order.hold account buy =
        if (userId, if buy then order.quoteMint else order.baseMint) = account then v else 0 := by
      rw [OrderEntry.hold, OrderEntry.account, hbacking, hc.owner]
    refine hzero _ (surplus_of_setBook account hmoves hc.books_eq rfl ?_)
    rw [weights_apply_some hc.lookup, BalanceCache.reservation, Ledger.lockedAt_single,
      OrderBook.hold_eq account _ buy, OrderBook.hold_eq account book buy,
      OrderBook.side_setSide_same, OrderBook.side_setSide_not, (hperm.map _).sum_eq, List.map_cons,
      List.sum_cons, hhold]
    by_cases haccount : (userId, if buy then order.quoteMint else order.baseMint) = account
    · rw [if_pos haccount, if_pos haccount]
      show _ = _ + -v
      ring
    · rw [if_neg haccount, if_neg haccount]
      ring
  | @withdrawal command output s' step =>
    cases step with
    | repeated => exact (add_zero _).symm
    | rejected _ hnone =>
      refine hzero _ (surplus_of_putReceipt account (.refl _) rfl rfl ?_)
      rw [weights_apply_none hnone, map_zero, WithdrawalReceipt.reservedFor]
      simp
    | performed _ hreceipt hstep =>
      obtain ⟨v, hv, hmoves⟩ := Withdrawal.balanceStep_moves hstep
      exact hzero _ (surplus_of_putReceipt account hmoves rfl rfl
        (reservedFor_step account hreceipt hv))
  | deposit step =>
    cases step with
    | repeatedCredit => exact (add_zero _).symm
    | credited _ _ hrun =>
      obtain ⟨-, v, hv, hmoves⟩ := Deposit.creditBalance_moves hrun
      refine surplus_of_moves account hmoves (by rfl) (by rfl) ?_
      exact (Ledger.lockedAt_single ..).trans (ite_self _)
  | depositFailed step =>
    cases step <;> exact (add_zero _).symm
  | balance hrun =>
    refine surplus_of_moves account (Journal.changeBalance_moves hrun).2 (by rfl) (by rfl) ?_
    exact (Ledger.lockedAt_single ..).trans (ite_self _)
  | locked hrun =>
    obtain ⟨v, hv, -, hmoves⟩ := BalanceCache.changeReservation_moves hrun
    refine surplus_of_moves account hmoves (by rfl) (by rfl) ?_
    rw [BalanceCache.reservation, Ledger.lockedAt_single, manualAt, unitsOf_eq hv]
    rfl
  | unlocked hrun =>
    obtain ⟨v, hv, -, hmoves⟩ := BalanceCache.changeReservation_moves hrun
    refine surplus_of_moves account hmoves (by rfl) (by rfl) ?_
    rw [BalanceCache.reservation, Ledger.lockedAt_single, manualAt, unitsOf_eq hv]
    rfl

theorem Run.surplus {s s' : EngineState} {history : List (Command × Outcome)}
    (h : Run s history s') (hs : s.Inv) (account : Account) :
    s'.surplus account = s.surplus account + (history.map (manualAt account)).sum := by
  induction h with
  | nil => exact (add_zero _).symm
  | cons head _ ih =>
    have heffect := Journal.apply_effect head
    rw [ih (heffect.inv hs), heffect.surplus hs, List.map_cons, List.sum_cons, add_assoc]

/-! ## Buys are exact -/

/-- A resting buy is backed by a whole number of units. -/
def ExactBuy (buy : Bool) (o : OrderEntry) : Prop := buy = true → FACTOR ∣ o.product

theorem Fill.Ok.dvd_product {pair : TradingPair} {buy : Bool} {f : Fill} (h : f.Ok)
    (hrest : Resting pair buy f.price f.maker) (hdvd : FACTOR ∣ f.maker.product) :
    FACTOR ∣ f.rest.product := by
  rw [h.product_rest hrest]
  exact dvd_sub hdvd (dvd_mul_left _ _)

theorem Effect.exactBuy {s s' : EngineState} {command : Command} {outcome : Outcome}
    (h : Effect s command outcome s') (hs : s.Inv) (hexact : s.Holds ExactBuy) :
    s'.Holds ExactBuy := by
  refine h.holds hs hexact (fun pair buy f hf hrest hmaker hbuy => ?_) ?_
  · exact hf.dvd_product hrest (hmaker hbuy)
  · intro order applied books' cache' book' plan d fills δ reserved remaining refund p _ happlied
      hremainder hbuy
    obtain ⟨-, -, hlimit, -⟩ := MatchPlan.remainder_eq_some hremainder
    rw [happlied.advance.not_makerBuy happlied.valid] at hbuy
    have hside : order.orderSide = "limit" :=
      (OrderEntry.congr_frame OrderEntry.orderSide happlied.advance.frame).symm.trans hlimit
    rw [(happlied.remaining_limit hside).2.1 (of_decide_eq_true hbuy)]
    exact dvd_mul_left _ _

theorem Run.exactBuy {s s' : EngineState} {history : List (Command × Outcome)}
    (h : Run s history s') (hs : s.Inv) (hexact : s.Holds ExactBuy) : s'.Holds ExactBuy := by
  induction h with
  | nil => exact hexact
  | cons head _ ih =>
    have heffect := Journal.apply_effect head
    exact ih (heffect.inv hs) (heffect.exactBuy hs hexact)

/-! ## Coverage -/

/-- A non-negative whole number of units, at most the largest. -/
def InRange (d : Decimal) : Prop := ∃ u : ℤ, 0 ≤ u ∧ u ≤ maxUnits ∧ d.raw = u * 10 ^ 19

theorem inRange_iff {d : Decimal} : InRange d ↔ ∃ u, units d = .ok u := by
  refine exists_congr fun u => ?_
  rw [units_eq_ok_iff]

/-- The backing of a resting buy is the number `amount::quote` returns for it, if it
returns one, and it does so when the number fits the mantissa. -/
structure Quoted (o : OrderEntry) : Prop where
  exact : FACTOR ∣ o.product
  quote_eq : ∀ p q, o.price = some p → quote p o.remainingAmount = .ok q →
    units q = .ok (o.product / FACTOR)
  quote_ok : o.product / FACTOR < 2 ^ 96 →
    ∃ p q, o.price = some p ∧ quote p o.remainingAmount = .ok q

theorem quoted_of_resting {pair : TradingPair} {buy : Bool} {level : Decimal} {o : OrderEntry}
    (hrest : Resting pair buy level o) (hdvd : FACTOR ∣ o.product) : Quoted o := by
  obtain ⟨-, -, p, a, f, r, hl⟩ := (validate_limit_iff hrest.limit).mp hrest.valid
  obtain ⟨d, hd, hup, -⟩ := hl.price
  have hproduct : o.product = p * r := by
    rw [OrderEntry.product, OrderEntry.priceUnits, hd, Option.elim_some, unitsOf_eq hup,
      unitsOf_eq hl.remaining]
  refine ⟨hdvd, fun d' q hd' hq => ?_, fun hlt => ?_⟩
  · obtain rfl := Option.some.inj (hd.symm.trans hd')
    obtain ⟨x, y, z, hx, hy, hz, hxyz⟩ := quote_ok hq
    obtain rfl : p = x := Except.ok.inj (hup.symm.trans hx)
    obtain rfl : r = y := Except.ok.inj (hl.remaining.symm.trans hy)
    rw [hz, hproduct, hxyz, Int.mul_ediv_cancel _ factor_pos.ne']
  · have hnn : 0 ≤ o.product / FACTOR := by
      rw [hproduct]
      exact Int.ediv_nonneg (mul_nonneg hl.price_pos.le hl.remaining_pos.le) factor_pos.le
    obtain ⟨q, hq, -⟩ := exists_quote hup hl.remaining (representable_of_lt hnn hlt)
      (by rw [← hproduct, Int.ediv_mul_cancel hdvd])
    exact ⟨d, q, hd, hq⟩

/-- **Reservation coverage.**  From a genesis without locked balances every sequence
of commands runs to its end, and every account has locked exactly what its resting
buys and sells, its reserved withdrawals and the standalone locks hold of it. -/
theorem coverage {cache : BalanceCache} (hcache : cache.Valid)
    (hlocked : ∀ account b, cache.balances.lookup account = some b → b.locked ≈ 0)
    (commands : List Command) :
    ∃ outcomes s', (Journal.applyAll commands).run (.genesis cache) = (.ok outcomes, s') ∧
      outcomes.length = commands.length ∧
      (∀ account, s'.lockedUnits account =
        s'.heldByOrders account + s'.heldByWithdrawals account +
          ((commands.zip outcomes).map (manualAt account)).sum) ∧
      (∀ pair book, s'.orderbooks.lookup pair = some book → ∀ o ∈ book.buyOrders.flat, Quoted o) ∧
      ∀ account b, s'.cache.balances.lookup account = some b →
        InRange b.available ∧ InRange b.locked := by
  have hinv := EngineState.inv_genesis hcache
  obtain ⟨outcomes, s', hrun, hlength, hhistory⟩ := Journal.applyAll_total hinv commands
  have hinv' := hhistory.inv hinv
  refine ⟨outcomes, s', hrun, hlength, fun account => ?_, ?_, ?_⟩
  · have hzero : (EngineState.genesis cache).surplus account = 0 := by
      have hunits : (EngineState.genesis cache).lockedUnits account = 0 := by
        show unitsOf (cache.balanceAt account).locked = 0
        unfold BalanceCache.balanceAt
        cases hb : cache.balances.lookup account with
        | none => exact unitsOf_eq units_zero
        | some b => exact unitsOf_eq ((units_congr (hlocked account b hb)).mpr units_zero)
      have hbooks : (EngineState.genesis cache).heldByOrders account = 0 := total_empty _
      have hreceipts : (EngineState.genesis cache).heldByWithdrawals account = 0 := total_empty _
      rw [EngineState.surplus, hunits, hbooks, hreceipts]
      rfl
    have hsum := hhistory.surplus hinv account
    rw [hzero, EngineState.surplus] at hsum
    linarith
  · have hexact := hhistory.exactBuy hinv fun pair book hbook => by
      change Finmap.lookup pair (∅ : Books) = some book at hbook
      rw [Finmap.lookup_empty] at hbook
      cases hbook
    intro pair book hbook o ho
    obtain ⟨p, queue, hqueue, hmem⟩ := OrderBookSide.mem_flat_iff.mp ho
    exact quoted_of_resting (((hinv'.books _ _ hbook).side true).resting p queue hqueue o hmem)
      (hexact pair book hbook true o ho rfl)
  · intro account b hb
    obtain ⟨hx, hy⟩ := hinv'.balances account b hb
    exact ⟨inRange_iff.mpr hx, inRange_iff.mpr hy⟩

/-- A resting buy and a manual hold. -/
theorem coverage_hold :
    ∃ outcomes s', (Journal.applyAll
        [.submit (.limit 1 2 true Decimal.ONE Decimal.ONE),
          .lock 2 "USDT" Decimal.ONE]).run
        (.genesis (EngineState.funded Decimal.ONE (.ofScaled 2 0))) = (.ok outcomes, s') ∧
      s'.lockedUnits (2, "USDT") =
        s'.heldByOrders (2, "USDT") + s'.heldByWithdrawals (2, "USDT") +
          (([.submit (.limit 1 2 true Decimal.ONE Decimal.ONE),
            .lock 2 "USDT" Decimal.ONE].zip outcomes).map (manualAt (2, "USDT"))).sum := by
  have hone : units Decimal.ONE = .ok 1000000000 := rfl
  have htwo : units (.ofScaled 2 0) = .ok 2000000000 := rfl
  obtain ⟨outcomes, s', hrun, -, hsum, -⟩ := coverage (EngineState.valid_funded hone htwo)
    (fun account b hb => by rcases EngineState.funded_lookup hb with rfl | rfl <;> rfl)
    [.submit (.limit 1 2 true Decimal.ONE Decimal.ONE), .lock 2 "USDT" Decimal.ONE]
  exact ⟨outcomes, s', hrun, hsum (2, "USDT")⟩

/-! ### Where `amount::quote` returns no number

A standalone unlock can take what an order has reserved, and then a fill can leave a
buy whose backing is above `2 ^ 96` units and not a multiple of ten.  No decimal
denotes it. -/

/-- Coverage in terms of `amount::quote`: every resting buy of the account has a
quote, and the locked balance is the sum with these quotes. -/
def CoveredByQuotes (s : EngineState) (account : Account) (manual : ℤ) : Prop :=
  ∃ quoted : OrderEntry → ℤ,
    (∀ pair book, s.orderbooks.lookup pair = some book → ∀ o ∈ book.buyOrders.flat,
      (o.userId, o.quoteMint) = account →
        ∃ p q, o.price = some p ∧ quote p o.remainingAmount = .ok q ∧ units q = .ok (quoted o)) ∧
    s.lockedUnits account =
      total (fun book : OrderBook =>
        (book.buyOrders.flat.map fun o =>
          if (o.userId, o.quoteMint) = account then quoted o else 0).sum +
        (book.sellOrders.flat.map fun o =>
          if (o.userId, o.baseMint) = account then unitsOf o.remainingAmount else 0).sum)
        s.orderbooks + s.heldByWithdrawals account + manual

/-- The balances the run starts from. -/
def largeFunds : BalanceCache :=
  EngineState.funded Decimal.ONE (.ofScaled 100000000000000000000 0)

theorem valid_largeFunds : largeFunds.Valid := by
  have hone : units Decimal.ONE = .ok 1000000000 := rfl
  have hlarge : units (.ofScaled 100000000000000000000 0) =
      .ok 100000000000000000000000000000 := rfl
  exact EngineState.valid_funded hone hlarge

/-- User 2 buys for `10 ^ 20`, unlocks all but five units of it, and is filled for
these five. -/
def unlockedBuy : List Command :=
  [.submit (.limit 1 2 true (.ofScaled 5 0) (.ofScaled 20000000000000000000 0)),
    .balance 2 "USDT" (.ofScaled 5 9),
    .unlock 2 "USDT" (.ofScaled 49999999999999999999999999995 9),
    .unlock 2 "USDT" (.ofScaled 50000000000000000000 0),
    .submit (.limit 2 1 false (.ofScaled 5 0) (.ofScaled 1 9))]

/-- The buy that is left. -/
def unlockedBuyRest : OrderEntry :=
  { OrderEntry.limit 1 2 true (.ofScaled 5 0) (.ofScaled 20000000000000000000 0) with
    remainingAmount := .ofScaled 19999999999999999999999999999 9
    filledAmount := .ofScaled 1 9 }

theorem coverage_by_quotes_fails :
    ¬ ∀ (cache : BalanceCache) (commands : List Command) (outcomes : List Outcome)
      (s' : EngineState), cache.Valid →
      (∀ account b, cache.balances.lookup account = some b → b.locked ≈ 0) →
      (Journal.applyAll commands).run (.genesis cache) = (.ok outcomes, s') →
      ∀ account, CoveredByQuotes s' account
        ((commands.zip outcomes).map (manualAt account)).sum := by
  intro h
  obtain ⟨outcomes, s', hrun, -, -⟩ := Journal.applyAll_total
    (EngineState.inv_genesis valid_largeFunds) unlockedBuy
  obtain ⟨quoted, hquoted, -⟩ := h largeFunds unlockedBuy outcomes s' valid_largeFunds
    (fun account b hb => by rcases EngineState.funded_lookup hb with rfl | rfl <;> rfl) hrun
    (2, "USDT")
  have hbook : ((((Journal.applyAll unlockedBuy).run (.genesis largeFunds)).2.orderbooks.lookup
      ⟨"BTC", "USDT"⟩).map fun book => book.buyOrders.flat) = some [unlockedBuyRest] := by
    decide +kernel
  rw [hrun] at hbook
  obtain ⟨book, hlookup, hflat⟩ := Option.map_eq_some_iff.mp hbook
  obtain ⟨p, q, hp, hq, -⟩ := hquoted _ book hlookup unlockedBuyRest
    (by rw [hflat]; exact List.mem_singleton_self _) rfl
  obtain rfl : Decimal.ofScaled 5 0 = p := Option.some.inj hp
  have hfails : (quote (.ofScaled 5 0) unlockedBuyRest.remainingAmount).isOk = false := by
    decide +kernel
  rw [hq] at hfails
  cases hfails

end CexEngine
