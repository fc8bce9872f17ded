import CexEngine.Runtime.Accounting
import CexEngine.Runtime.ExactlyOnce

/-!
# The life of an order in the journal

The engine publishes what happened to an order in pieces: the record of its own submission,
the records of later submissions that traded with it, and at most one cancellation.  Here the
pieces are put together.  For every id the units that were traded over a whole history, those
that rest in a book and those that a cancellation gave back are the units that were placed
(`Run.placed`), and from this follow the fate of every submitted order (`orders_accounted`) and
where every published trade comes from (`trades_sourced`).

The equation is kept by every transition (`Effect.placed`).  A fill moves units of a maker from
the book to the trades, a cancellation moves them from the book to the cancellations, and what
a limit order does not trade at once goes to the book.
-/

namespace CexEngine

open Foundation Foundation.FiniteMap Foundation.Allocation Amount

/-! ## The units of an order -/

/-- What a published trade fills of the order `id`, in units. -/
def TradeOutput.filledOf (id : UInt64) (output : TradeOutput) : ℤ :=
  (if output.trade.buyOrderId = id then unitsOf output.trade.amount else 0) +
    if output.trade.sellOrderId = id then unitsOf output.trade.amount else 0

/-- What an outcome fills of the order `id`. -/
def Outcome.filledOf (id : UInt64) (outcome : Outcome) : ℤ :=
  (outcome.trades.map (TradeOutput.filledOf id)).sum

/-- What a history fills of the order `id`. -/
def filledOf (id : UInt64) (history : List (Command × Outcome)) : ℤ :=
  (history.map fun e => e.2.filledOf id).sum

/-- What is left of an order, if it is the order `id`. -/
def OrderEntry.leftOf (id : UInt64) (o : OrderEntry) : ℤ :=
  if o.id = id then unitsOf o.remainingAmount else 0

/-- What is left of the order `id` in a book. -/
def OrderBook.leftOf (id : UInt64) (b : OrderBook) : ℤ := (b.flat.map (OrderEntry.leftOf id)).sum

namespace EngineState

/-- What is left of the order `id` in the books. -/
noncomputable def restingOf (id : UInt64) (s : EngineState) : ℤ :=
  total (OrderBook.leftOf id) s.orderbooks

/-- What a cancellation gave back of the order `id`. -/
def cancelledOf (id : UInt64) (s : EngineState) : ℤ :=
  (s.cancellations.lookup id).elim 0 fun o => unitsOf o.remainingAmount

end EngineState

/-- What a command places under the id `id`: the amount of a limit order, and of a market order
what it trades at once. -/
def placedOf (id : UInt64) : Command × Outcome → ℤ
  | (.submit order, .applied (some (.submitted orderId trades _))) =>
    if orderId = id then
      (if order.orderSide = "limit" then unitsOf order.amount
        else (trades.map fun t => unitsOf t.trade.amount).sum)
    else 0
  | _ => 0

/-! ## One submission -/

section Fills

variable {makerBuy : Bool} {order : OrderEntry} {f : Fill}

/-- A fill is a trade of its maker and of the incoming order. -/
theorem Fill.filledOf_trade {output : TradeOutput} (h : output.trade = f.trade makerBuy order)
    (id : UInt64) :
    output.filledOf id = (if f.maker.id = id then unitsOf f.quantity else 0) +
      if order.id = id then unitsOf f.quantity else 0 := by
  rw [TradeOutput.filledOf, h]
  cases makerBuy with
  | true => rfl
  | false => exact add_comm _ _

/-- What a fill takes from what is left of its maker. -/
theorem Fill.Ok.leftOf_diff (h : f.Ok) (id : UInt64) :
    f.maker.leftOf id - (kept f.rest).elim 0 (OrderEntry.leftOf id) =
      if f.maker.id = id then unitsOf f.quantity else 0 := by
  obtain ⟨q, r, -, hq, hr, -, hrq, -, -⟩ := Fill.filledMaker_ok h.rest
  have hkept : (kept f.rest).elim 0 (OrderEntry.leftOf id) = f.rest.leftOf id := by
    unfold kept
    split
    · rfl
    · next hpos =>
      have hzero : r - q = 0 :=
        le_antisymm (not_lt.mp fun h => hpos ((pos_iff_units hrq).mpr h)) (units_nonneg hrq)
      rw [Option.elim_none, OrderEntry.leftOf, unitsOf_eq hrq, hzero, ite_self]
  rw [hkept, OrderEntry.leftOf, OrderEntry.leftOf, h.id, unitsOf_eq hr, unitsOf_eq hrq, unitsOf_eq hq]
  split <;> ring

end Fills

theorem OrderBook.leftOf_eq (id : UInt64) (b : OrderBook) (buy : Bool) :
    b.leftOf id = ((b.side buy).flat.map (OrderEntry.leftOf id)).sum +
      ((b.side !buy).flat.map (OrderEntry.leftOf id)).sum := by
  rw [OrderBook.leftOf, ((b.flat_perm buy).map _).sum_eq, List.map_append, List.sum_append]

/-- **What is left in a book after a commit.** -/
theorem Committed.leftOf {book book' : OrderBook} {makerBuy : Bool} {fills : List Fill}
    {added : Option (Decimal × OrderEntry)} {pair : TradingPair}
    (h : Committed book book' makerBuy fills added) (hbook : book.Inv pair)
    (hfills : FillsOf (book.side makerBuy) fills) (id : UInt64) :
    book'.leftOf id = book.leftOf id -
      (fills.map fun f => if f.maker.id = id then unitsOf f.quantity else 0).sum +
      added.elim 0 fun a => a.2.leftOf id := by
  have hmakers := hfills.sum_flat (hbook.side_ids makerBuy) (OrderEntry.leftOf id)
  have hdiff : (fills.map fun f => f.maker.leftOf id -
      (kept f.rest).elim 0 (OrderEntry.leftOf id)) =
      fills.map fun f => if f.maker.id = id then unitsOf f.quantity else 0 :=
    List.map_congr_left fun f hf => (hfills.ok f hf).leftOf_diff id
  rw [hdiff, ← h.makers_flat] at hmakers
  have htaker : ((book'.side !makerBuy).flat.map (OrderEntry.leftOf id)).sum =
      (added.elim 0 fun a => a.2.leftOf id) +
        ((book.side !makerBuy).flat.map (OrderEntry.leftOf id)).sum := by
    rw [(h.taker_flat.map _).sum_eq, List.map_append, List.sum_append]
    cases added <;> simp
  rw [book'.leftOf_eq id makerBuy, book.leftOf_eq id makerBuy, hmakers, htaker]
  ring

namespace Submission

variable {books books' : Books} {cache cache' : BalanceCache} {order : OrderEntry}
  {applied : AppliedSubmission} {book' : OrderBook} {plan : MatchPlan} {d : Demand}
  {fills : List Fill} {δ : Ledger} {reserved remaining refund : ℤ}

/-- The published trades of a submission are its fills. -/
theorem Applied.outputs
    (h : Applied books cache order applied books' cache' book' plan d fills δ reserved remaining
      refund) {trades : List TradeOutput} (houtputs : tradeOutputs applied.matchList = .ok trades) :
    trades.map TradeOutput.trade = fills.map (Fill.trade plan.makerBuy order) := by
  obtain ⟨outputs, hout, htrades, -⟩ := tradeOutputs_ok (h.matchList ▸ h.settles)
  obtain rfl : trades = outputs := Except.ok.inj (houtputs.symm.trans hout)
  rw [htrades, h.matchList, h.advance.matchList, h.advance.makerBuy]
  rfl

/-- What a submission fills, by fills. -/
theorem Applied.sum_filledOf
    (h : Applied books cache order applied books' cache' book' plan d fills δ reserved remaining
      refund) {trades : List TradeOutput} (houtputs : tradeOutputs applied.matchList = .ok trades)
    (id : UInt64) :
    (trades.map (TradeOutput.filledOf id)).sum =
      (fills.map fun f => if f.maker.id = id then unitsOf f.quantity else 0).sum +
        if order.id = id then (fills.map fun f => unitsOf f.quantity).sum else 0 := by
  have htrades := h.outputs houtputs
  clear h houtputs
  induction fills generalizing trades with
  | nil =>
    obtain rfl : trades = [] := List.map_eq_nil_iff.mp htrades
    simp
  | cons f fills ih =>
    cases trades with
    | nil => cases htrades
    | cons output trades =>
      rw [List.map_cons, List.map_cons, List.cons.injEq] at htrades
      rw [List.map_cons, List.sum_cons, ih htrades.2, Fill.filledOf_trade htrades.1, List.map_cons,
        List.map_cons, List.sum_cons, List.sum_cons]
      split_ifs <;> ring

/-- **A limit order is traded or rests.** -/
theorem Applied.limit_amount
    (h : Applied books cache order applied books' cache' book' plan d fills δ reserved remaining
      refund) (hlimit : order.orderSide = "limit") :
    (fills.map fun f => unitsOf f.quantity).sum +
      (plan.remainder.elim 0 fun a => unitsOf a.2.remainingAmount) = unitsOf order.amount := by
  obtain ⟨-, -, p, a, fl, r, hl⟩ := (validate_limit_iff hlimit).mp h.valid
  obtain ⟨d', os, fills', hplanned⟩ := CexEngine.Submission.planned h.planned
  obtain ⟨-, hremaining⟩ := hplanned.remaining hl.noBudget.2
  have htraded : tradedAmount plan.matchList = (fills.map fun f => unitsOf f.quantity).sum := by
    rw [h.advance.matchList, tradedAmount]
    show ((fills.map (Fill.trade _ _)).map _).sum = _
    rw [List.map_map]
    refine congrArg List.sum (List.map_congr_left fun f _ => ?_)
    cases (MatchPlan.start order).makerBuy <;> rfl
  have hrest : (plan.remainder.elim 0 fun a => unitsOf a.2.remainingAmount) =
      unitsOf plan.order.remainingAmount := by
    have hframe : plan.order.frame = order.frame := h.advance.frame
    have hside : plan.order.orderSide = "limit" :=
      (OrderEntry.congr_frame OrderEntry.orderSide hframe).trans hlimit
    obtain ⟨level, hlevel, -⟩ := hl.price
    have hprice : plan.order.price = some level :=
      (OrderEntry.congr_frame OrderEntry.price hframe).trans hlevel
    rw [MatchPlan.remainder, hprice]
    by_cases hpos : 0 < plan.order.remainingAmount
    · rw [if_pos ⟨hside, hpos⟩]
      rfl
    · have hzero : unitsOf order.amount - tradedAmount plan.matchList = 0 :=
        le_antisymm (not_lt.mp fun h => hpos ((pos_iff_units hremaining).mpr h))
          (units_nonneg hremaining)
      rw [if_neg fun hc => hpos hc.2, Option.elim_none, unitsOf_eq hremaining, hzero]
  rw [hrest, unitsOf_eq hremaining, htraded]
  ring

/-- **What a submission places** is what the incoming order trades and what is left of it. -/
theorem Applied.placed
    (h : Applied books cache order applied books' cache' book' plan d fills δ reserved remaining
      refund) {trades : List TradeOutput} (houtputs : tradeOutputs applied.matchList = .ok trades)
    (id : UInt64) :
    (if order.id = id then (fills.map fun f => unitsOf f.quantity).sum else 0) +
      (plan.remainder.elim 0 fun a => a.2.leftOf id) =
    placedOf id (.submit order,
      .applied (some (.submitted applied.orderId trades applied.completion))) := by
  have hid : plan.order.id = order.id := OrderEntry.congr_frame OrderEntry.id h.advance.frame
  have hrest : ∀ a, plan.remainder = some a → a.2.leftOf id =
      if order.id = id then unitsOf a.2.remainingAmount else 0 := by
    rintro ⟨p, o⟩ ha
    obtain ⟨rfl, -⟩ := MatchPlan.remainder_eq_some ha
    rw [OrderEntry.leftOf, hid]
  have hleft : (plan.remainder.elim 0 fun a => a.2.leftOf id) =
      if order.id = id then (plan.remainder.elim 0 fun a => unitsOf a.2.remainingAmount) else 0 := by
    cases hr : plan.remainder with
    | none => rw [Option.elim_none, Option.elim_none, ite_self]
    | some a => exact hrest a hr
  rw [hleft, placedOf, h.orderId]
  by_cases heq : order.id = id
  · rw [if_pos heq, if_pos heq, if_pos heq]
    by_cases hlimit : order.orderSide = "limit"
    · rw [if_pos hlimit]
      exact h.limit_amount hlimit
    · have hnone : plan.remainder = none := by
        rw [MatchPlan.remainder, if_neg fun hc => hlimit
          ((OrderEntry.congr_frame OrderEntry.orderSide h.advance.frame).symm.trans hc.1)]
      rw [if_neg hlimit, hnone, Option.elim_none, add_zero]
      have hmap := congrArg (fun l => (l.map fun t => unitsOf t.amount).sum) (h.outputs houtputs)
      rw [List.map_map, List.map_map] at hmap
      exact hmap.symm
  · rw [if_neg heq, if_neg heq, if_neg heq, add_zero]

end Submission

/-! ## One transition -/

theorem weights_leftOf_bookOf (books : Books) (order : OrderEntry) (id : UInt64) :
    weights (OrderBook.leftOf id) books order.pair =
      (Submission.bookOf books order).leftOf id := by
  unfold Submission.bookOf
  cases h : books.lookup order.pair with
  | none =>
    rw [weights_apply_none h]
    rfl
  | some book =>
    rw [weights_apply_some h]
    rfl

/-- **One transition**: what is placed is traded, rests, or is given back. -/
theorem Effect.placed {s s' : EngineState} {command : Command} {outcome : Outcome}
    (h : Effect s command outcome s') (hs : s.Inv) (id : UInt64) :
    outcome.filledOf id + s'.restingOf id + s'.cancelledOf id =
      s.restingOf id + s.cancelledOf id + placedOf id (command, outcome) := by
  have hsame : outcome.trades = [] → placedOf id (command, outcome) = 0 →
      s'.orderbooks = s.orderbooks → s'.cancellations = s.cancellations →
      outcome.filledOf id + s'.restingOf id + s'.cancelledOf id =
        s.restingOf id + s.cancelledOf id + placedOf id (command, outcome) := by
    intro htrades hplaced hbooks hcancel
    rw [Outcome.filledOf, htrades, hplaced, EngineState.restingOf, EngineState.restingOf,
      EngineState.cancelledOf, EngineState.cancelledOf, hbooks, hcancel]
    simp
  cases h with
  | @submitted order applied books' executor' trades hnew hrun houtputs =>
    obtain ⟨book', plan, d, fills, δ, reserved, remaining, refund, happlied, -, hfills,
      hcommitted⟩ := hs.applied hnew hrun
    have hresting : (total (OrderBook.leftOf id) books' : ℤ) = _ :=
      happlied.books_eq ▸ total_insert (OrderBook.leftOf id) s.orderbooks order.pair book'
    rw [weights_leftOf_bookOf, hcommitted.leftOf (hs.bookOf order) hfills] at hresting
    have hfilled := happlied.sum_filledOf houtputs id
    have hplaced := happlied.placed houtputs id
    change (trades.map (TradeOutput.filledOf id)).sum + total (OrderBook.leftOf id) books' +
      s.cancelledOf id = total (OrderBook.leftOf id) s.orderbooks + s.cancelledOf id + _
    rw [hresting, hfilled, ← hplaced]
    ring
  | @cancelled orderId userId pair order books' executor' hnone hrun =>
    obtain ⟨book, buy, level, queue, side', v, hc⟩ := Threads.cancelOrder_ok hrun
    obtain ⟨hid, -, hflat, -, -⟩ := hc.book (hs.books _ _ hc.lookup)
    have hbook : book.leftOf id = order.leftOf id + (book.setSide buy side').leftOf id := by
      rw [OrderBook.leftOf, (hflat.map _).sum_eq, List.map_cons, List.sum_cons, OrderBook.leftOf]
    have hresting := total_insert (OrderBook.leftOf id) s.orderbooks pair (book.setSide buy side')
    rw [← hc.books_eq, weights_apply_some hc.lookup, hbook] at hresting
    have hcancelled : ((s.cancellations.insert orderId order).lookup id).elim 0
        (fun o => unitsOf o.remainingAmount) = s.cancelledOf id + order.leftOf id := by
      rw [lookup_insert_eq, OrderEntry.leftOf, hid, EngineState.cancelledOf]
      by_cases h : id = orderId
      · rw [if_pos h, if_pos h.symm, h, hnone]
        exact (zero_add _).symm
      · rw [if_neg h, if_neg (Ne.symm h), add_zero]
    change 0 + total (OrderBook.leftOf id) books' + ((s.cancellations.insert orderId order).lookup
      id).elim 0 (fun o => unitsOf o.remainingAmount) = s.restingOf id + s.cancelledOf id + 0
    rw [hresting, hcancelled, EngineState.restingOf]
    ring
  | withdrawal step =>
    rcases step.output_cases with rfl | ⟨reason, rfl⟩ | rfl <;> cases step <;>
      exact hsame rfl rfl rfl rfl
  | deposit step =>
    rcases step.output_cases with rfl | ⟨rfl, -⟩ <;> cases step <;> exact hsame rfl rfl rfl rfl
  | depositFailed step => cases step <;> exact hsame rfl rfl rfl rfl
  | failed =>
    refine hsame rfl ?_ rfl rfl
    cases command <;> rfl
  | _ => exact hsame rfl rfl rfl rfl

/-! ## The trades of one transition -/

/-- **A trade of one transition**: an incoming order meets a maker that rests in its market. -/
theorem Effect.trade {s s' : EngineState} {command : Command} {outcome : Outcome}
    (h : Effect s command outcome s') (hs : s.Inv) {t : TradeOutput} (ht : t ∈ outcome.trades) :
    ∃ taker book, ∃ f : Fill, command = .submit taker ∧ s.submissions.lookup taker.id = none ∧
      (taker.orderType = "buy" ∨ taker.orderType = "sell") ∧
      t.trade = f.trade (decide (taker.orderType = "sell")) taker ∧ f.Ok ∧
      (MatchPlan.start taker).outsideLimit f.price = false ∧ f.maker.userId ≠ taker.userId ∧
      s.orderbooks.lookup taker.pair = some book ∧ f.maker ∈ book.flat ∧
      Resting taker.pair (decide (taker.orderType = "sell")) f.price f.maker := by
  cases h with
  | @submitted order applied books' executor' trades hnew hrun houtputs =>
    obtain ⟨book', plan, d, fills, δ, reserved, remaining, refund, happlied, -, hfills, -⟩ :=
      hs.applied hnew hrun
    have hmem : t.trade ∈ fills.map (Fill.trade plan.makerBuy order) := by
      rw [← happlied.outputs houtputs]
      exact List.mem_map_of_mem ht
    obtain ⟨f, hf, htrade⟩ := List.mem_map.mp hmem
    have hbuy : plan.makerBuy = decide (order.orderType = "sell") := happlied.advance.makerBuy
    obtain ⟨queue, hqueue, hmaker⟩ := hfills.mem f hf
    have hflat : f.maker ∈ (Submission.bookOf s.orderbooks order).flat :=
      OrderBook.mem_flat_iff.mpr ⟨_, OrderBookSide.mem_flat_iff.mpr ⟨_, _, hqueue, hmaker⟩⟩
    obtain ⟨book, hbook, heq⟩ := EngineState.mem_bookOf hflat
    have hoffer := (happlied.advance.mem_offers hf).2
    obtain ⟨hinside, -⟩ := mem_visits (List.mem_of_mem_filter hoffer)
    have huser : f.maker.userId ≠ order.userId := by simpa using List.of_mem_filter hoffer
    refine ⟨order, book, f, rfl, hnew, (validate_ok happlied.valid).1.kind.1, ?_, hfills.ok f hf,
      hinside, huser, hbook, heq ▸ hflat, ?_⟩
    · rw [← htrade, hbuy]
    · rw [← hbuy]
      exact ((hs.bookOf order).side _).resting _ _ hqueue _ hmaker
  | withdrawal step =>
    rcases step.output_cases with rfl | ⟨reason, rfl⟩ | rfl <;> cases ht
  | deposit step =>
    rcases step.output_cases with rfl | ⟨rfl, -⟩ <;> cases ht
  | _ => cases ht

theorem Effect.filledOf_nonneg {s s' : EngineState} {command : Command} {outcome : Outcome}
    (h : Effect s command outcome s') (hs : s.Inv) (id : UInt64) : 0 ≤ outcome.filledOf id := by
  refine List.sum_nonneg fun x hx => ?_
  obtain ⟨t, ht, rfl⟩ := List.mem_map.mp hx
  obtain ⟨taker, -, f, -, -, -, htrade, hok, -⟩ := h.trade hs ht
  have hpos := hok.pos.le
  rw [Fill.filledOf_trade htrade]
  split_ifs <;> omega

/-! ## What is left of one order -/

/-- A sum with one term. -/
theorem sum_map_eq_of_countP {α : Type} {p : α → Bool} {f : α → ℤ} {l : List α} {a : α}
    (hf : ∀ x ∈ l, p x = false → f x = 0) (hl : l.countP p ≤ 1) (ha : a ∈ l) (hp : p a = true) :
    (l.map f).sum = f a := by
  have hzero : ∀ l : List α, (∀ x ∈ l, f x = 0) → (l.map f).sum = 0 := fun l h =>
    List.sum_eq_zero fun y hy => by
      obtain ⟨x, hx, rfl⟩ := List.mem_map.mp hy
      exact h x hx
  induction l with
  | nil => cases ha
  | cons x l ih =>
    rw [List.map_cons, List.sum_cons]
    have htail : ∀ y ∈ l, p y = false → f y = 0 := fun y hy => hf y (List.mem_cons_of_mem _ hy)
    cases hx : p x with
    | true =>
      rw [List.countP_cons_of_pos hx] at hl
      have hnone : ∀ y ∈ l, p y = false := fun y hy => by
        simpa using List.countP_eq_zero.mp (Nat.le_zero.mp (Nat.le_of_succ_le_succ hl)) y hy
      have hax : a = x := (List.mem_cons.mp ha).resolve_right fun h => by
        rw [hnone a h] at hp
        cases hp
      rw [hzero l fun y hy => htail y hy (hnone y hy), add_zero, hax]
    | false =>
      rw [List.countP_cons_of_neg (by rw [hx]; exact Bool.false_ne_true)] at hl
      have hmem : a ∈ l := (List.mem_cons.mp ha).resolve_left fun h => by
        rw [h, hx] at hp
        cases hp
      rw [hf x (List.mem_cons_self ..) hx, zero_add, ih htail hl hmem]

namespace EngineState

variable {s : EngineState} {pair : TradingPair} {book : OrderBook} {o : OrderEntry}

/-- No book holds an order with the id. -/
def Gone (id : UInt64) (s : EngineState) : Prop :=
  ∀ pair book, s.orderbooks.lookup pair = some book → ∀ o ∈ book.flat, o.id ≠ id

theorem Inv.resting (h : s.Inv) (hbook : s.orderbooks.lookup pair = some book)
    (ho : o ∈ book.flat) : ∃ buy p, Resting pair buy p o := by
  obtain ⟨buy, hside⟩ := OrderBook.mem_flat_iff.mp ho
  obtain ⟨p, queue, hqueue, hmem⟩ := OrderBookSide.mem_flat_iff.mp hside
  exact ⟨buy, p, ((h.books _ _ hbook).side buy).resting p queue hqueue o hmem⟩

theorem Inv.remaining_pos (h : s.Inv) (hbook : s.orderbooks.lookup pair = some book)
    (ho : o ∈ book.flat) : 0 < unitsOf o.remainingAmount := by
  obtain ⟨buy, p, hrest⟩ := h.resting hbook ho
  obtain ⟨-, -, x, a, f, r, hl⟩ := (validate_limit_iff hrest.limit).mp hrest.valid
  rw [unitsOf_eq hl.remaining]
  exact hl.remaining_pos

theorem restingOf_of_gone {id : UInt64} (h : s.Gone id) : s.restingOf id = 0 := by
  refine total_eq_zero fun pair book hbook => List.sum_eq_zero fun x hx => ?_
  obtain ⟨o, ho, rfl⟩ := List.mem_map.mp hx
  exact if_neg (h pair book hbook o ho)

/-- **What rests of an order is what is left of it in its book.** -/
theorem Inv.restingOf_eq (h : s.Inv) (hbook : s.orderbooks.lookup pair = some book)
    (ho : o ∈ book.flat) : s.restingOf o.id = unitsOf o.remainingAmount := by
  have hother : ∀ pair' book', s.orderbooks.lookup pair' = some book' → pair' ≠ pair →
      book'.leftOf o.id = 0 := by
    intro pair' book' hbook' hne
    refine List.sum_eq_zero fun x hx => ?_
    obtain ⟨o', ho', rfl⟩ := List.mem_map.mp hx
    exact if_neg fun hid => hne (h.pair_eq hbook' hbook ho' ho hid)
  have hcount : book.flat.countP (fun o' => o'.id == o.id) ≤ 1 := by
    have hids := List.nodup_iff_count_le_one.mp (h.books _ _ hbook).ids o.id
    rwa [List.count, List.countP_map] at hids
  have hself : book.leftOf o.id = o.leftOf o.id :=
    sum_map_eq_of_countP (fun o' _ ho' => if_neg (beq_eq_false_iff_ne.mp ho')) hcount ho
      (beq_self_eq_true o.id)
  rw [restingOf, total_eq_single hbook hother, hself]
  exact if_pos rfl

theorem Inv.restingOf_nonneg (h : s.Inv) (id : UInt64) : 0 ≤ s.restingOf id := by
  refine total_nonneg fun pair book hbook => List.sum_nonneg fun x hx => ?_
  obtain ⟨o, ho, rfl⟩ := List.mem_map.mp hx
  rw [OrderEntry.leftOf]
  split
  · exact (h.remaining_pos hbook ho).le
  · exact le_rfl

theorem Inv.gone_of_restingOf (h : s.Inv) {id : UInt64} (hzero : s.restingOf id = 0) :
    s.Gone id := by
  rintro pair book hbook o ho rfl
  have hpos := h.remaining_pos hbook ho
  rw [← h.restingOf_eq hbook ho, hzero] at hpos
  exact absurd hpos (lt_irrefl _)

end EngineState

/-! ## What the state keeps of submitted orders -/

/-- **What the state keeps of a submitted order**: a resting order has the submitted amount, and a
cancelled one is a limit order of which something was left. -/
structure EngineState.Kept (s : EngineState) : Prop where
  amount : s.Holds fun _ o => ∀ original, s.submissions.lookup o.id = some original →
    unitsOf o.amount = unitsOf original.amount
  cancelled : ∀ id o, s.cancellations.lookup id = some o → o.orderSide = "limit" ∧
    0 < unitsOf o.remainingAmount ∧
      ∃ original, s.submissions.lookup id = some original ∧ o.frame = original.frame

theorem EngineState.kept_genesis (cache : BalanceCache) : (EngineState.genesis cache).Kept where
  amount := fun pair book hbook => by
    rw [genesis, new, Finmap.lookup_empty] at hbook
    cases hbook
  cancelled := fun id o ho => by
    rw [genesis, new, Finmap.lookup_empty] at ho
    cases ho

theorem Effect.kept_amount {s s' : EngineState} {command : Command} {outcome : Outcome}
    (h : Effect s command outcome s') (hs : s.Inv) (hk : s.Kept) :
    s'.Holds fun _ o => ∀ original, s'.submissions.lookup o.id = some original →
      unitsOf o.amount = unitsOf original.amount := by
  by_cases hagain : ∃ order, command = .submit order ∧ s.submissions.lookup order.id ≠ none
  · obtain ⟨order, rfl, hold⟩ := hagain
    cases h with
    | failed => exact hk.amount
    | resubmitted => exact hk.amount
    | rejected hnew => exact absurd hnew hold
    | submitted hnew => exact absurd hnew hold
  refine h.holds hs ?_ ?_ ?_
  · intro pair book hbook buy o ho original horiginal
    obtain ⟨first, hfirst, -⟩ := hs.submitted _ _ hbook o (OrderBook.mem_flat_iff.mpr ⟨buy, ho⟩)
    obtain rfl : first = original :=
      Option.some.inj ((h.submissions_mono hfirst).symm.trans horiginal)
    exact hk.amount pair book hbook buy o ho first hfirst
  · intro pair buy f hf _ hQ original horiginal
    obtain ⟨-, -, -, -, -, -, -, -, hrest⟩ := Fill.filledMaker_ok hf.rest
    rw [hf.id] at horiginal
    rw [hrest]
    exact hQ original horiginal
  · intro order applied books' cache' book' plan d fills δ reserved remaining refund p hcommand
      happlied hremainder original horiginal
    obtain ⟨-, -, hside, -⟩ := MatchPlan.remainder_eq_some hremainder
    have hframe : plan.order.frame = order.frame := happlied.advance.frame
    have hlimit : order.orderSide = "limit" :=
      (OrderEntry.congr_frame OrderEntry.orderSide hframe).symm.trans hside
    obtain ⟨-, -, x, a, f, r, hl⟩ := (validate_limit_iff hlimit).mp happlied.valid
    have hamount : plan.order.amount = order.amount :=
      (happlied.advance.quantityOrder hl.noBudget.2).1
    have hid : plan.order.id = order.id := OrderEntry.congr_frame OrderEntry.id hframe
    have hnew : s.submissions.lookup order.id = none := by
      by_contra hold
      exact hagain ⟨order, hcommand, hold⟩
    rw [hid] at horiginal
    rcases h.submissions_cases with heq | ⟨order', hcommand', -, heq⟩
    · rw [heq, hnew] at horiginal
      cases horiginal
    · obtain rfl : order = order' := Command.submit.inj (hcommand.symm.trans hcommand')
      rw [heq, Finmap.lookup_insert] at horiginal
      cases horiginal
      rw [hamount]

theorem Effect.kept {s s' : EngineState} {command : Command} {outcome : Outcome}
    (h : Effect s command outcome s') (hs : s.Inv) (hk : s.Kept) : s'.Kept where
  amount := h.kept_amount hs hk
  cancelled := by
    have hsame : s'.cancellations = s.cancellations → ∀ id o, s'.cancellations.lookup id = some o →
        o.orderSide = "limit" ∧ 0 < unitsOf o.remainingAmount ∧
          ∃ original, s'.submissions.lookup id = some original ∧ o.frame = original.frame := by
      intro heq id o ho
      rw [heq] at ho
      obtain ⟨hside, hpos, original, horiginal, hframe⟩ := hk.cancelled id o ho
      exact ⟨hside, hpos, original, h.submissions_mono horiginal, hframe⟩
    cases h with
    | @cancelled orderId userId pair order books' executor' hnone hrun =>
      obtain ⟨book, buy, level, queue, side', v, hc⟩ := Threads.cancelOrder_ok hrun
      obtain ⟨rfl, -, hflat, -, -⟩ := hc.book (hs.books _ _ hc.lookup)
      have hmem : order ∈ book.flat := hflat.mem_iff.mpr (List.mem_cons_self ..)
      intro id o ho
      change (s.cancellations.insert order.id order).lookup id = some o at ho
      rw [lookup_insert_eq] at ho
      split at ho
      · next hid =>
        cases ho
        obtain ⟨_, _, hrest⟩ := hs.resting hc.lookup hmem
        obtain ⟨original, horiginal, hframe⟩ := hs.submitted _ _ hc.lookup order hmem
        exact ⟨hrest.limit, hs.remaining_pos hc.lookup hmem, original, hid ▸ horiginal, hframe⟩
      · exact hk.cancelled id o ho
    | withdrawal step => cases step <;> exact hsame rfl
    | deposit step => cases step <;> exact hsame rfl
    | depositFailed step => cases step <;> exact hsame rfl
    | _ => exact hsame rfl

/-! ## Whole runs -/

namespace Run

variable {s s' : EngineState} {history : List (Command × Outcome)}

/-- **What was placed under an id was traded, rests, or was given back.** -/
theorem placed (h : Run s history s') (hs : s.Inv) (id : UInt64) :
    filledOf id history + s'.restingOf id + s'.cancelledOf id =
      s.restingOf id + s.cancelledOf id + (history.map (placedOf id)).sum := by
  induction h with
  | nil => rw [filledOf, List.map_nil, List.map_nil, List.sum_nil, zero_add, add_zero]
  | cons head _ ih =>
    have hstep := (Journal.apply_effect head).placed hs id
    have htail := ih ((Journal.apply_effect head).inv hs)
    rw [filledOf] at htail
    rw [filledOf, List.map_cons, List.sum_cons, List.map_cons, List.sum_cons]
    linarith

theorem filledOf_nonneg (h : Run s history s') (hs : s.Inv) (id : UInt64) :
    0 ≤ filledOf id history := by
  induction h with
  | nil => exact le_rfl
  | cons head _ ih =>
    rw [filledOf, List.map_cons, List.sum_cons]
    exact add_nonneg ((Journal.apply_effect head).filledOf_nonneg hs id)
      (ih ((Journal.apply_effect head).inv hs))

theorem kept (h : Run s history s') (hs : s.Inv) (hk : s.Kept) : s'.Kept := by
  induction h with
  | nil => exact hk
  | cons head _ ih =>
    exact ih ((Journal.apply_effect head).inv hs) ((Journal.apply_effect head).kept hs hk)

variable {cache : BalanceCache}

/-- What is placed under an id is placed by the one command that was executed for it. -/
theorem placed_eq (h : Run (.genesis cache) history s) (hcache : cache.Valid) {id : UInt64}
    {e : Command × Outcome} (he : e ∈ history) (hsubmits : submits id e = true) :
    filledOf id history + s.restingOf id + s.cancelledOf id = placedOf id e := by
  have hplaced := h.placed (EngineState.inv_genesis hcache) id
  have hother : ∀ e ∈ history, submits id e = false → placedOf id e = 0 := by
    rintro ⟨command, outcome⟩ - hno
    unfold placedOf
    split
    · next heq =>
      cases heq
      exact if_neg (beq_eq_false_iff_ne.mp hno)
    · rfl
  rw [sum_map_eq_of_countP hother ((h.onceOnly hcache).submitted id) he hsubmits] at hplaced
  rw [hplaced, EngineState.restingOf, EngineState.genesis, EngineState.new, total_empty]
  exact zero_add _

/-- The order that was executed under an id is the one that is remembered. -/
theorem submitted_first (h : Run (.genesis cache) history s) (hcache : cache.Valid)
    {order : OrderEntry} {outcome : Outcome} (he : (.submit order, outcome) ∈ history)
    (hsubmits : submits order.id (.submit order, outcome) = true) :
    s.submissions.lookup order.id = some order := by
  obtain ⟨before, after, rfl⟩ := List.append_of_mem he
  obtain ⟨mid, hbefore, hrest⟩ := h.split
  cases hrest with
  | cons head tail =>
    have hnew := (submits_fresh order.id (hbefore.inv (EngineState.inv_genesis hcache)) head
      hsubmits).1
    refine (tail.index_eq (writes_submissions order.id)).trans ?_
    rw [(Journal.apply_first_submit head hnew).1, Finmap.lookup_insert, Option.some_or]

theorem submitted_id (h : Run (.genesis cache) history s) (hcache : cache.Valid)
    {order : OrderEntry} {id : UInt64} {trades : List TradeOutput}
    {completion : Option MarketCompletion}
    (he : (.submit order, .applied (some (.submitted id trades completion))) ∈ history) :
    id = order.id := by
  obtain ⟨before, after, rfl⟩ := List.append_of_mem he
  obtain ⟨mid, hbefore, hrest⟩ := h.split
  cases hrest with
  | cons head tail =>
    cases Journal.apply_effect head with
    | submitted hnew hrun =>
      obtain ⟨_, _, _, _, _, _, _, _, happlied, -⟩ :=
        (hbefore.inv (EngineState.inv_genesis hcache)).applied hnew hrun
      exact happlied.orderId

end Run

/-! ## The fate of an order -/

/-- **What has become of a limit order** after a history: it rests with what was not traded, it
was cancelled with what was not traded, or it was traded in full. -/
inductive Fate (history : List (Command × Outcome)) (s : EngineState) (order : OrderEntry) : Prop
  | resting {pair : TradingPair} {book : OrderBook} {o : OrderEntry}
      (lookup : s.orderbooks.lookup pair = some book) (mem : o ∈ book.flat)
      (frame : o.frame = order.frame) (pos : 0 < unitsOf o.remainingAmount)
      (left : unitsOf o.remainingAmount = unitsOf order.amount - filledOf order.id history)
      (filled : unitsOf o.filledAmount = filledOf order.id history)
      (live : history.findSome? (cancelOf order.id) = none)
  | cancelled {o : OrderEntry} (entry : history.findSome? (cancelOf order.id) = some o)
      (frame : o.frame = order.frame) (pos : 0 < unitsOf o.remainingAmount)
      (left : unitsOf o.remainingAmount = unitsOf order.amount - filledOf order.id history)
      (gone : s.Gone order.id)
  | filled (all : filledOf order.id history = unitsOf order.amount) (gone : s.Gone order.id)
      (live : history.findSome? (cancelOf order.id) = none)

/-- **Every order is accounted for**: the limit orders by their fate, the market orders by the
trades of their own record, and nothing is traded, rests or is cancelled under an id whose
submission was rejected or never came. -/
structure Accounted (history : List (Command × Outcome)) (s : EngineState) : Prop where
  limit : ∀ order id trades completion,
    (.submit order, .applied (some (.submitted id trades completion))) ∈ history →
      order.orderSide = "limit" → Fate history s order
  market : ∀ order id trades completion,
    (.submit order, .applied (some (.submitted id trades completion))) ∈ history →
      order.orderSide ≠ "limit" →
      filledOf order.id history = (trades.map fun t => unitsOf t.trade.amount).sum ∧
        s.Gone order.id ∧ history.findSome? (cancelOf order.id) = none
  rejected : ∀ order reason,
    (.submit order, .applied (some (.rejected order reason))) ∈ history →
      filledOf order.id history = 0 ∧ s.Gone order.id ∧
        history.findSome? (cancelOf order.id) = none
  unknown : ∀ id, history.findSome? (submitOf id) = none →
    filledOf id history = 0 ∧ s.Gone id ∧ history.findSome? (cancelOf id) = none

section Fates

variable {cache : BalanceCache} {history : List (Command × Outcome)} {s : EngineState}

/-- Where nothing was placed there is nothing. -/
theorem Run.nothing (h : Run (.genesis cache) history s) (hcache : cache.Valid) {id : UInt64}
    (hzero : filledOf id history + s.restingOf id + s.cancelledOf id = 0) :
    filledOf id history = 0 ∧ s.Gone id ∧ s.cancellations.lookup id = none := by
  have hinv := EngineState.inv_genesis hcache
  have hfilled := h.filledOf_nonneg hinv id
  have hresting := (h.inv hinv).restingOf_nonneg id
  have hkept := h.kept hinv (EngineState.kept_genesis cache)
  cases hcancel : s.cancellations.lookup id with
  | none =>
    rw [EngineState.cancelledOf, hcancel, Option.elim_none] at hzero
    exact ⟨by omega, (h.inv hinv).gone_of_restingOf (by omega), rfl⟩
  | some o =>
    have hpos := (hkept.cancelled id o hcancel).2.1
    rw [EngineState.cancelledOf, hcancel, Option.elim_some] at hzero
    omega

/-- A limit order that was executed. -/
theorem Run.fate (h : Run (.genesis cache) history s) (hcache : cache.Valid) {order : OrderEntry}
    (hfirst : s.submissions.lookup order.id = some order)
    (hplaced : filledOf order.id history + s.restingOf order.id + s.cancelledOf order.id =
      unitsOf order.amount) : Fate history s order := by
  have hinv := h.inv (EngineState.inv_genesis hcache)
  have hkept := h.kept (EngineState.inv_genesis hcache) (EngineState.kept_genesis cache)
  have hcancelled : s.cancellations.lookup order.id = history.findSome? (cancelOf order.id) :=
    h.index_eq (writes_cancellations order.id)
  cases hcancel : s.cancellations.lookup order.id with
  | some o =>
    obtain ⟨-, hpos, original, horiginal, hframe⟩ := hkept.cancelled _ _ hcancel
    obtain rfl : order = original := Option.some.inj (hfirst.symm.trans horiginal)
    have hgone : s.Gone order.id := fun pair book hbook o' ho' hid => by
      have hlive := hinv.live pair book hbook o' ho'
      rw [hid, hcancel] at hlive
      cases hlive
    rw [EngineState.restingOf_of_gone hgone, EngineState.cancelledOf, hcancel,
      Option.elim_some] at hplaced
    exact .cancelled (hcancelled.symm.trans hcancel) hframe hpos (by omega) hgone
  | none =>
    rw [EngineState.cancelledOf, hcancel, Option.elim_none, add_zero] at hplaced
    rw [hcancel] at hcancelled
    by_cases hgone : s.Gone order.id
    · rw [EngineState.restingOf_of_gone hgone, add_zero] at hplaced
      exact .filled hplaced hgone hcancelled.symm
    · unfold EngineState.Gone at hgone
      push Not at hgone
      obtain ⟨pair, book, hbook, o, ho, hid⟩ := hgone
      obtain ⟨original, horiginal, hframe⟩ := hinv.submitted _ _ hbook o ho
      rw [hid] at horiginal
      obtain rfl : order = original := Option.some.inj (hfirst.symm.trans horiginal)
      rw [← hid, hinv.restingOf_eq hbook ho, hid] at hplaced
      obtain ⟨buy, hside⟩ := OrderBook.mem_flat_iff.mp ho
      have hamount := hkept.amount pair book hbook buy o hside order (hid ▸ hfirst)
      obtain ⟨_, _, hrest⟩ := hinv.resting hbook ho
      obtain ⟨-, -, p, a, f, r, hl⟩ := (validate_limit_iff hrest.limit).mp hrest.valid
      have hbalance := hl.balance
      rw [← unitsOf_eq hl.filled, ← unitsOf_eq hl.remaining, ← unitsOf_eq hl.amount] at hbalance
      exact .resting hbook ho hframe (hinv.remaining_pos hbook ho) (by omega) (by omega)
        hcancelled.symm

/-- **Every run accounts for its orders.** -/
theorem Run.accounted (h : Run (.genesis cache) history s) (hcache : cache.Valid) :
    Accounted history s := by
  have hinv := h.inv (EngineState.inv_genesis hcache)
  have hkept := h.kept (EngineState.inv_genesis hcache) (EngineState.kept_genesis cache)
  have hcancelled : ∀ id, s.cancellations.lookup id = history.findSome? (cancelOf id) := fun id =>
    h.index_eq (writes_cancellations id)
  have hexecuted : ∀ order id trades completion,
      (.submit order, .applied (some (.submitted id trades completion))) ∈ history →
      id = order.id ∧ s.submissions.lookup order.id = some order ∧
        filledOf order.id history + s.restingOf order.id + s.cancelledOf order.id =
          if order.orderSide = "limit" then unitsOf order.amount
          else (trades.map fun t => unitsOf t.trade.amount).sum := by
    intro order id trades completion he
    obtain rfl := h.submitted_id hcache he
    refine ⟨rfl, h.submitted_first hcache he (beq_self_eq_true order.id), ?_⟩
    rw [h.placed_eq hcache he (beq_self_eq_true order.id), placedOf, if_pos rfl]
  refine ⟨?_, ?_, ?_, ?_⟩
  · intro order id trades completion he hlimit
    obtain ⟨-, hfirst, hplaced⟩ := hexecuted order id trades completion he
    rw [if_pos hlimit] at hplaced
    exact h.fate hcache hfirst hplaced
  · intro order id trades completion he hmarket
    obtain ⟨-, hfirst, hplaced⟩ := hexecuted order id trades completion he
    -- only limit orders rest, and only resting orders are cancelled
    have hgone : s.Gone order.id := fun pair book hbook o ho hid => by
      obtain ⟨_, _, hrest⟩ := hinv.resting hbook ho
      obtain ⟨original, horiginal, hframe⟩ := hinv.submitted _ _ hbook o ho
      rw [hid, hfirst] at horiginal
      cases horiginal
      exact hmarket ((OrderEntry.congr_frame OrderEntry.orderSide hframe).symm.trans hrest.limit)
    have hlive : s.cancellations.lookup order.id = none := by
      cases hcancel : s.cancellations.lookup order.id with
      | none => rfl
      | some o =>
        obtain ⟨hside, -, original, horiginal, hframe⟩ := hkept.cancelled _ _ hcancel
        rw [hfirst] at horiginal
        cases horiginal
        exact absurd ((OrderEntry.congr_frame OrderEntry.orderSide hframe).symm.trans hside) hmarket
    rw [if_neg hmarket, EngineState.restingOf_of_gone hgone, EngineState.cancelledOf, hlive,
      Option.elim_none, add_zero, add_zero] at hplaced
    exact ⟨hplaced, hgone, (hcancelled _).symm.trans hlive⟩
  · intro order reason he
    obtain ⟨hfilled, hgone, hlive⟩ :=
      h.nothing hcache (h.placed_eq hcache he (beq_self_eq_true order.id))
    exact ⟨hfilled, hgone, (hcancelled _).symm.trans hlive⟩
  · intro id hnone
    have hzero : (history.map (placedOf id)).sum = 0 := by
      refine List.sum_eq_zero fun x hx => ?_
      obtain ⟨⟨command, outcome⟩, he, rfl⟩ := List.mem_map.mp hx
      have hsubmit := List.findSome?_eq_none_iff.mp hnone _ he
      unfold placedOf
      split
      · next order orderId trades completion heq =>
        cases heq
        obtain rfl := h.submitted_id hcache he
        exact if_neg fun hid => by
          rw [submitOf, if_pos hid] at hsubmit
          cases hsubmit
      · rfl
    have hplaced := h.placed (EngineState.inv_genesis hcache) id
    rw [hzero, add_zero, EngineState.restingOf, EngineState.restingOf, EngineState.genesis,
      EngineState.new, total_empty] at hplaced
    obtain ⟨hfilled, hgone, hlive⟩ := h.nothing hcache hplaced
    exact ⟨hfilled, hgone, (hcancelled _).symm.trans hlive⟩

end Fates

/-! ## The source of a trade -/

/-- **Where a trade comes from.**  The incoming order is new, the maker was submitted before and is
what its first submission says; it is a limit order of the same market and the other side, of
another user, and was not cancelled.  The trade is at the maker's price, inside the limit of the
incoming order, and with all earlier trades of the maker within the amount of its submission. -/
structure Sourced (before : List (Command × Outcome)) (taker maker : OrderEntry)
    (t : MatchResult) : Prop where
  fresh : before.findSome? (submitOf taker.id) = none
  submitted : before.findSome? (submitOf maker.id) = some maker
  live : before.findSome? (cancelOf maker.id) = none
  limit : maker.orderSide = "limit"
  opposite : (taker.orderType = "buy" ∧ maker.orderType = "sell") ∨
    (taker.orderType = "sell" ∧ maker.orderType = "buy")
  pair : maker.pair = taker.pair
  users : maker.userId ≠ taker.userId
  trade : t = MatchPlan.trade (decide (taker.orderType = "sell")) taker maker t.price t.amount
  price : SameOption maker.price (some t.price)
  within : ∀ p, taker.price = some p →
    if taker.orderType = "sell" then p ≤ t.price else t.price ≤ p
  pos : 0 < unitsOf t.amount
  available : filledOf maker.id before + unitsOf t.amount ≤ unitsOf maker.amount

section Sources

variable {cache : BalanceCache} {before : List (Command × Outcome)} {s : EngineState}

/-- What is remembered under an id was executed or rejected. -/
theorem Run.submitted_entry (h : Run (.genesis cache) before s) (hcache : cache.Valid)
    {id : UInt64} {original : OrderEntry} (horiginal : s.submissions.lookup id = some original) :
    original.id = id ∧
      ((∃ reason, (.submit original, .applied (some (.rejected original reason))) ∈ before) ∨
        ∃ trades completion,
          (.submit original, .applied (some (.submitted id trades completion))) ∈ before) := by
  have hfirst : before.findSome? (submitOf id) = some original :=
    (h.index_eq (writes_submissions id)).symm.trans horiginal
  obtain ⟨pre, ⟨command, outcome⟩, post, rfl, hentry, hpre⟩ := List.findSome?_eq_some_iff.mp hfirst
  obtain ⟨mid, hmid, hrest⟩ := h.split
  cases command with
  | submit order =>
    rw [submitOf] at hentry
    split at hentry
    · next hid =>
      cases hentry
      refine ⟨hid, ?_⟩
      have hnew : mid.submissions.lookup original.id = none := by
        rw [hid]
        exact (hmid.index_eq (writes_submissions id)).trans (List.findSome?_eq_none_iff.mpr hpre)
      have hmem : (.submit original, outcome) ∈ pre ++ (.submit original, outcome) :: post :=
        List.mem_append_right _ (List.mem_cons_self ..)
      cases hrest with
      | cons head tail =>
        rcases (Journal.apply_first_submit head hnew).2 with
          ⟨reason, rfl⟩ | ⟨id', trades, completion, rfl⟩
        · exact Or.inl ⟨reason, hmem⟩
        · obtain rfl := h.submitted_id hcache hmem
          exact Or.inr ⟨trades, completion, hid ▸ hmem⟩
    · cases hentry
  | _ => cases hentry

/-- What was traded of a resting order, and what is left of it. -/
theorem Run.filledOf_resting (h : Run (.genesis cache) before s) (hcache : cache.Valid)
    {pair : TradingPair} {book : OrderBook} {o original : OrderEntry}
    (hbook : s.orderbooks.lookup pair = some book) (ho : o ∈ book.flat)
    (horiginal : s.submissions.lookup o.id = some original) (hframe : o.frame = original.frame) :
    filledOf o.id before + unitsOf o.remainingAmount = unitsOf original.amount := by
  have hinv := h.inv (EngineState.inv_genesis hcache)
  obtain ⟨hid, ⟨reason, he⟩ | ⟨trades, completion, he⟩⟩ := h.submitted_entry hcache horiginal
  · obtain ⟨-, hgone, -⟩ := (h.accounted hcache).rejected original reason he
    exact absurd hid.symm (hgone pair book hbook o ho)
  · obtain ⟨_, _, hrest⟩ := hinv.resting hbook ho
    have hlimit : original.orderSide = "limit" :=
      (OrderEntry.congr_frame OrderEntry.orderSide hframe).symm.trans hrest.limit
    have hplaced := h.placed_eq hcache he (beq_self_eq_true o.id)
    rw [placedOf, if_pos rfl, if_pos hlimit, hinv.restingOf_eq hbook ho, EngineState.cancelledOf,
      hinv.live _ _ hbook o ho, Option.elim_none, add_zero] at hplaced
    exact hplaced

/-- **The source of a trade**, for the command after a run. -/
theorem Run.sourced (h : Run (.genesis cache) before s) (hcache : cache.Valid) {s' : EngineState}
    {command : Command} {outcome : Outcome}
    (hrun : (Journal.apply command).run s = (.ok outcome, s')) {t : TradeOutput}
    (ht : t ∈ outcome.trades) :
    ∃ taker maker, command = .submit taker ∧ Sourced before taker maker t.trade := by
  have hinv := h.inv (EngineState.inv_genesis hcache)
  obtain ⟨taker, book, f, hcommand, hnew, hkind, htrade, hok, hinside, huser, hbook, hmem, hrest⟩ :=
    (Journal.apply_effect hrun).trade hinv ht
  obtain ⟨maker, hmaker, hframe⟩ := hinv.submitted _ _ hbook _ hmem
  have hid : maker.id = f.maker.id := (h.submitted_entry hcache hmaker).1
  have hprice : t.trade.price = f.price := by
    rw [htrade]
    rfl
  have hamount : t.trade.amount = f.quantity := by
    rw [htrade]
    rfl
  obtain ⟨q, r, -, hq, hr, -, hrq, -⟩ := Fill.filledMaker_ok hok.rest
  have hfilled := h.filledOf_resting hcache hbook hmem hmaker hframe
  have hside : f.maker.orderType = maker.orderType := OrderEntry.congr_frame OrderEntry.orderType hframe
  refine ⟨taker, maker, hcommand, ?_, ?_, ?_, ?_, ?_, ?_, ?_, ?_, ?_, ?_, ?_, ?_⟩
  · exact (h.index_eq (writes_submissions taker.id)).symm.trans hnew
  · rw [hid]
    exact (h.index_eq (writes_submissions f.maker.id)).symm.trans hmaker
  · rw [hid]
    exact (h.index_eq (writes_cancellations f.maker.id)).symm.trans (hinv.live _ _ hbook _ hmem)
  · exact (OrderEntry.congr_frame OrderEntry.orderSide hframe).symm.trans hrest.limit
  · rw [← hside, hrest.side]
    rcases hkind with hbuy | hsell
    · exact Or.inl ⟨hbuy, by rw [hbuy]; rfl⟩
    · exact Or.inr ⟨hsell, by rw [hsell]; rfl⟩
  · exact (OrderEntry.congr_frame OrderEntry.pair hframe).symm.trans hrest.pair
  · rwa [← OrderEntry.congr_frame OrderEntry.userId hframe]
  · have hcongr : ∀ makerBuy, MatchPlan.trade makerBuy taker f.maker f.price f.quantity =
        MatchPlan.trade makerBuy taker maker f.price f.quantity := by
      have hfee : f.maker.feeRate = maker.feeRate := OrderEntry.congr_frame OrderEntry.feeRate hframe
      have hmakerUser : f.maker.userId = maker.userId :=
        OrderEntry.congr_frame OrderEntry.userId hframe
      rintro (_ | _)
      · simp [MatchPlan.trade, hfee, hmakerUser, hid]
      · simp [MatchPlan.trade, hfee, hmakerUser, hid]
    rw [hprice, hamount, htrade, Fill.trade, hcongr]
  · rw [hprice, ← OrderEntry.congr_frame OrderEntry.price hframe]
    exact hrest.price
  · intro p hp
    rw [MatchPlan.outsideLimit, show (MatchPlan.start taker).order.price = some p from hp] at hinside
    rw [hprice]
    rcases hkind with hbuy | hsell
    · have hnot : ¬ p < f.price := by simpa [MatchPlan.start, hbuy] using hinside
      rw [if_neg (by rw [hbuy]; decide)]
      exact Int.not_lt.mp hnot
    · have hnot : ¬ f.price < p := by simpa [MatchPlan.start, hsell] using hinside
      rw [if_pos hsell]
      exact Int.not_lt.mp hnot
  · rw [hamount]
    exact hok.pos
  · rw [hid, hamount, ← hfilled, unitsOf_eq hq, unitsOf_eq hr]
    have hnonneg := units_nonneg hrq
    omega

end Sources

/-! ## Whole lives -/

section Lives

variable {Json : Type} [DecidableEq Json] {codec : Codec Json} {cache : BalanceCache}
  {history : List (Command × Outcome)} {s : EngineState}

/-- **Every order is accounted for**, over a whole life of the engine, restarts included. -/
theorem orders_accounted (hcache : ∀ account b, cache.balances.lookup account = some b →
    Startup.Admissible account b) (h : Lifetime codec cache history s) : Accounted history s :=
  (h.run hcache).accounted (Store.valid_of_admissible hcache)

/-- **Every published trade has its source** in the history before it. -/
theorem trades_sourced (hcache : ∀ account b, cache.balances.lookup account = some b →
    Startup.Admissible account b) {before after : List (Command × Outcome)} {command : Command}
    {outcome : Outcome} (h : Lifetime codec cache (before ++ (command, outcome) :: after) s)
    {t : TradeOutput} (ht : t ∈ outcome.trades) :
    ∃ taker maker, command = .submit taker ∧ Sourced before taker maker t.trade := by
  have hvalid := Store.valid_of_admissible hcache
  obtain ⟨mid, hbefore, hrest⟩ := (h.run hcache).split
  cases hrest with
  | cons head tail => exact hbefore.sourced hvalid head ht

/-- A life goes on with a run. -/
theorem Lifetime.append {s' : EngineState} {history' : List (Command × Outcome)}
    (h : Lifetime codec cache history s) (hrun : Run s history' s') :
    Lifetime codec cache (history ++ history') s' := by
  induction hrun generalizing history with
  | nil =>
    rw [List.append_nil]
    exact h
  | @cons s mid s'' command outcome history' head _ ih =>
    rw [← List.singleton_append, ← List.append_assoc]
    exact ih (h.step head)

/-- The life in which user 2 buys what user 1 sells. -/
theorem exists_traded_life (codec : Codec Json) :
    ∃ first second t s, Lifetime codec (EngineState.funded Decimal.ONE Decimal.ONE)
      [(.submit (.limit 1 1 false Decimal.ONE Decimal.ONE), first),
        (.submit (.limit 2 2 true Decimal.ONE Decimal.ONE), second)] s ∧ t ∈ second.trades := by
  have hone : units Decimal.ONE = .ok 1000000000 := rfl
  obtain ⟨outcomes, s, hrun, hlength, hhistory⟩ := Journal.applyAll_total
    (EngineState.inv_genesis (EngineState.valid_funded hone hone))
    [.submit (.limit 1 1 false Decimal.ONE Decimal.ONE),
      .submit (.limit 2 2 true Decimal.ONE Decimal.ONE)]
  have hcounts : ((Journal.applyAll [.submit (.limit 1 1 false Decimal.ONE Decimal.ONE),
      .submit (.limit 2 2 true Decimal.ONE Decimal.ONE)]).run (.genesis
        (EngineState.funded Decimal.ONE Decimal.ONE))).1.toOption.map
      (fun outcomes => outcomes.map fun o => o.trades.length) = some [0, 1] := by
    decide +kernel
  rw [hrun] at hcounts
  clear hrun
  obtain ⟨first, second, rfl⟩ := List.length_eq_two.mp hlength
  have hsecond : second.trades.length = 1 :=
    (List.cons.inj (List.cons.inj (Option.some.inj hcounts)).2).1
  obtain ⟨t, ht⟩ := List.length_pos_iff_exists_mem.mp (hsecond ▸ Nat.one_pos)
  exact ⟨first, second, t, s, Lifetime.start.append hhistory, ht⟩

theorem admissible_funded : ∀ account b,
    (EngineState.funded Decimal.ONE Decimal.ONE).balances.lookup account = some b →
      Startup.Admissible account b := by
  intro account b hb
  rw [EngineState.funded, lookup_insert_eq, lookup_insert_eq, Finmap.lookup_empty] at hb
  split at hb
  · next haccount =>
    cases hb
    rw [haccount]
    exact ⟨by decide, by decide, by decide +kernel, by decide, 1000000000, rfl⟩
  · split at hb
    · next haccount =>
      cases hb
      rw [haccount]
      exact ⟨by decide, by decide, by decide +kernel, by decide, 1000000000, rfl⟩
    · cases hb

theorem orders_accounted_sale :
    ∃ first second s, Accounted [(.submit (.limit 1 1 false Decimal.ONE Decimal.ONE), first),
      (.submit (.limit 2 2 true Decimal.ONE Decimal.ONE), second)] s := by
  obtain ⟨first, second, -, s, hlife, -⟩ := exists_traded_life Store.sampleCodec
  exact ⟨first, second, s, orders_accounted admissible_funded hlife⟩

theorem trades_sourced_sale :
    ∃ first t taker maker, Sourced [(.submit (.limit 1 1 false Decimal.ONE Decimal.ONE), first)]
      taker maker t := by
  obtain ⟨first, second, t, s, hlife, ht⟩ := exists_traded_life Store.sampleCodec
  rw [← List.singleton_append] at hlife
  obtain ⟨taker, maker, -, hsource⟩ := trades_sourced admissible_funded hlife ht
  exact ⟨first, t.trade, taker, maker, hsource⟩

end Lives

end CexEngine
