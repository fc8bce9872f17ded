import CexEngine.Runtime.Reserves

/-!
# Resting orders that can be filled in full

A resting order can be taken in full at its own price when the price of its remainder is an exact
number of units that a decimal holds.  A remainder comes about in two ways, and the code looks at
one of them only.

* A new order is filled in part, and the rest of it stays.  For a buy the submission recomputes the
  reservation, so the quote of the rest is checked; for a sell nothing is.  A sell that is partly
  filled at better prices can leave a rest nobody can take (`resting_quotable_fails`).
* A new order takes a part of a resting order.  What it takes has an exact price, so what it leaves
  has one; but a number of units above `2 ^ 96` that a decimal holds can become one that no decimal
  holds.

A new order that is turned away for rounding is turned away for a quantity of its own: it ends in a
resting order and the part it would take has no exact price, or it exceeds all it meets and the rest
of it has none.  The resting orders that it takes whole are never the reason, as long as they have
quotes.  So there is one condition for both halves, on a command and the state before it: whatever
a new order leaves, of itself or of another, has a quote (`Fillable`).

* `Effect.quotable`: a command that meets the condition leaves resting orders with quotes.
* `Submission.prepare_exact`: what a new order is turned away for.
* `resting_quotable`: both, in every run whose commands meet the condition.
-/

namespace CexEngine

open Foundation Foundation.FiniteMap Foundation.Allocation Amount

/-! ## The condition -/

/-- The resting orders a new order meets: those of other users at its limit or better, best price
first and in queue order. -/
def met (s : EngineState) (order : OrderEntry) : List Visit :=
  offers order.userId (visits order (Submission.bookOf s.orderbooks order))

/-- A price times a quantity, of which `quote` returns the value. -/
def Quotable (product : ℤ) : Prop := FACTOR ∣ product ∧ Representable (product / FACTOR)

/-- A new order that comes to be matched, with funds for its reservation. -/
structure Admitted (s : EngineState) (order : OrderEntry) : Prop where
  fresh : s.submissions.lookup order.id = none
  valid : validate order true = .ok ()
  funded : ∃ x, Submission.reservedAmount order = .ok x ∧
    unitsOf x ≤ unitsOf (s.cache.balanceAt (order.userId, Submission.refundMint order)).available

/-- What a new order leaves of a resting order of which it takes a part. -/
def restOfMaker (e : Visit × ℤ) : ℤ := terms.price e.1 * (terms.size e.1 - e.2)

/-- What is left of a new order that exceeds all it meets. -/
def restOfOrder (s : EngineState) (order : OrderEntry) : ℤ :=
  order.priceUnits * (unitsOf order.amount - offered terms (met s order))

/-- **The condition on a command.**  What a new order leaves has a quote, as far as the submission
does not look itself: the resting orders of which it takes a part, and the rest of a limit order.  A
quantity takes a part of the order in which it ends; a budget takes of each order the most that has an
exact price, so that it may take a part of several. -/
def Fillable (s : EngineState) : Command → Prop
  | .submit order => Admitted s order →
    match order.remainingQuoteAmount with
    | some budget => ∀ e ∈ allocate terms (.budget (unitsOf budget)) (met s order),
      0 < e.2 → e.2 < terms.size e.1 → Representable (restOfMaker e / FACTOR)
    | none =>
      (∀ e, endsIn terms (unitsOf order.amount) (met s order) = some e →
        (order.orderSide = "limit" → FACTOR ∣ restOfMaker e) ∧
          (FACTOR ∣ restOfMaker e → Representable (restOfMaker e / FACTOR))) ∧
      (order.orderSide = "limit" → offered terms (met s order) < unitsOf order.amount →
        FACTOR ∣ restOfOrder s order ∧
          (order.orderType = "sell" → Representable (restOfOrder s order / FACTOR)))
  | _ => True

/-- The order has a quote, by value. -/
def QuotableOrder (o : OrderEntry) : Prop := Quotable o.product

/-! ## What a submission leaves -/

namespace Submission

variable {books books' : Books} {cache cache' : BalanceCache} {order : OrderEntry}
  {applied : AppliedSubmission} {book' : OrderBook} {plan : MatchPlan} {d : Demand}
  {fills : List Fill} {δ : Ledger} {reserved remaining refund : ℤ}

/-- **What is left of a quantity order**: what it exceeds the resting orders by. -/
theorem remaining_of_advance {os : List Visit} (hvalid : validate order true = .ok ())
    (hd : Denotes order d) (hgood : ∀ v ∈ os, terms.Good v)
    (hadv : Advance (MatchPlan.start order) d os fills plan)
    (hnone : order.remainingQuoteAmount = none) :
    units plan.order.remainingAmount =
      .ok (max 0 (unitsOf order.amount - offered terms os)) := by
  obtain ⟨-, hnone'⟩ := hadv.quantityOrder hnone
  have hdemand := hadv.demand
  rw [Denotes, hnone] at hd
  obtain ⟨n, hn, rfl⟩ := hd
  rw [residual_quantity_eq (units_nonneg hn) hgood, Denotes, hnone'] at hdemand
  obtain ⟨m, hm, heq⟩ := hdemand
  rw [hm, ← Demand.quantity.inj heq, remaining_eq_amount hvalid hnone hn]

/-- What a fill leaves of a maker. -/
theorem product_rest_eq {pair : TradingPair} {buy : Bool} {f : Fill} (hf : f.Ok)
    (hrest : Resting pair buy f.price f.maker) : f.rest.product = restOfMaker f.entry := by
  obtain ⟨q, r, -, hq, hr, -, hrq, -, -⟩ := Fill.filledMaker_ok hf.rest
  rw [OrderEntry.product, OrderEntry.congr_frame OrderEntry.priceUnits hf.frame,
    hrest.priceUnits_eq, unitsOf_eq hrq, ← unitsOf_eq hr, ← unitsOf_eq hq]
  rfl

/-- **A maker that is filled keeps a quote.** -/
theorem Applied.quotable_rest {s : EngineState} (hs : s.Inv)
    (h : Applied s.orderbooks s.cache order applied books' cache' book' plan d fills δ reserved
      remaining refund) (hadmitted : Admitted s order) (hcommand : Fillable s (.submit order))
    {f : Fill} (hf : f ∈ fills) (hrest : Resting order.pair plan.makerBuy f.price f.maker)
    (hmaker : QuotableOrder f.maker) : QuotableOrder f.rest := by
  have hok := h.advance.ok f hf
  obtain ⟨hentry, hmem⟩ := h.advance.mem_offers hf
  have hdvd := hok.dvd_product hrest hmaker.1
  refine ⟨hdvd, ?_⟩
  have hfillable := hcommand hadmitted
  have hgood : ∀ v ∈ met s order, terms.Good v := fun v hv =>
    good_of_mem_visits (hs.bookOf order) (List.mem_of_mem_filter hv)
  obtain ⟨q, r, -, hq, hr, -, hrq, -, -⟩ := Fill.filledMaker_ok hok.rest
  have hle : f.entry.2 ≤ terms.size f.entry.1 := by
    show unitsOf f.quantity ≤ unitsOf f.maker.remainingAmount
    rw [unitsOf_eq hq, unitsOf_eq hr]
    exact sub_nonneg.mp (units_nonneg hrq)
  rw [product_rest_eq hok hrest] at hdvd ⊢
  rcases hle.eq_or_lt with hall | hpart
  · -- the maker is taken whole
    rw [restOfMaker, hall, sub_self, mul_zero, Int.zero_ediv]
    exact ⟨0, units_zero⟩
  have hd := h.denotes
  cases hbudget : order.remainingQuoteAmount with
  | some budget =>
    rw [hbudget] at hfillable
    rw [Denotes, hbudget] at hd
    obtain ⟨b, hb, rfl⟩ := hd
    rw [← unitsOf_eq hb] at hentry
    exact hfillable _ hentry hok.pos hpart
  | none =>
    rw [hbudget] at hfillable
    rw [Denotes, hbudget] at hd
    obtain ⟨n, hn, rfl⟩ := hd
    rcases endsIn_of_mem (units_nonneg hn) hgood hentry with hzero | hall | hends
    · exact absurd hzero hok.pos.ne'
    · exact absurd hall hpart.ne
    · rw [remaining_eq_amount h.valid hbudget hn] at hfillable
      exact (hfillable.1 _ hends).2 hdvd

/-- **The rest of a limit order has a quote.** -/
theorem Applied.quotable_remainder {s : EngineState} (hs : s.Inv)
    (h : Applied s.orderbooks s.cache order applied books' cache' book' plan d fills δ reserved
      remaining refund) (hadmitted : Admitted s order) (hcommand : Fillable s (.submit order))
    {p : Decimal} (hremainder : plan.remainder = some (p, plan.order)) : QuotableOrder plan.order := by
  obtain ⟨-, -, hside, hpos⟩ := MatchPlan.remainder_eq_some hremainder
  have hframe : plan.order.frame = order.frame := h.advance.frame
  have hlimit : order.orderSide = "limit" :=
    (OrderEntry.congr_frame OrderEntry.orderSide hframe).symm.trans hside
  obtain ⟨-, -, q, a, f, r, hl⟩ := (validate_limit_iff hlimit).mp h.valid
  have hfillable := hcommand hadmitted
  rw [hl.noBudget.2] at hfillable
  rcases (validate_ok h.valid).1.kind.1 with hbuy | hsell
  · -- the submission has recomputed the reservation
    obtain ⟨x, -, hux⟩ := h.remaining_eq
    have hproduct := (h.remaining_limit hlimit).2.1 hbuy
    rw [QuotableOrder, hproduct]
    refine ⟨dvd_mul_left _ _, ?_⟩
    rw [Int.mul_ediv_cancel _ factor_pos.ne']
    exact ⟨x, hux⟩
  · have hleft := remaining_of_advance h.valid h.denotes (fun v hv =>
      good_of_mem_visits (hs.bookOf order) (List.mem_of_mem_filter hv)) h.advance hl.noBudget.2
    have hmore : 0 < unitsOf order.amount - offered terms (met s order) := by
      have hunits := (pos_iff_units hleft).mp hpos
      exact (lt_max_iff.mp hunits).resolve_left (lt_irrefl 0)
    have hproduct : plan.order.product = restOfOrder s order := by
      rw [OrderEntry.product, OrderEntry.congr_frame OrderEntry.priceUnits hframe, unitsOf_eq hleft]
      exact congrArg (order.priceUnits * ·) (max_eq_right hmore.le)
    obtain ⟨hdvd, hrepresentable⟩ := hfillable.2 hlimit (sub_pos.mp hmore)
    rw [QuotableOrder, hproduct]
    exact ⟨hdvd, hrepresentable hsell⟩

end Submission

/-- An order whose reservation was locked was funded. -/
theorem BalanceCache.available_of_lock {c c' : BalanceCache} {userId : UInt64} {mint : String}
    {x : Decimal} (h : (lockBalance userId mint x).exec c = .ok c') :
    unitsOf x ≤ unitsOf (c.balanceAt (userId, mint)).available := by
  obtain ⟨u, hrun⟩ := Mut.exec_eq_ok_iff.mp h
  simp [lockBalance, changeReservation, Mut.run_bind_ok_iff] at hrun
  obtain ⟨-, -, b, hb, a, ha, -⟩ := hrun
  obtain ⟨y, z, hy, hz, hyz⟩ := subtract_ok ha
  rw [balanceAt_of_getBalance hb, unitsOf_eq hy, unitsOf_eq hz]
  exact sub_nonneg.mp (units_nonneg hyz)

/-- **One transition**: a command that meets the condition leaves orders with quotes. -/
theorem Effect.quotable {s s' : EngineState} {command : Command} {outcome : Outcome}
    (h : Effect s command outcome s') (hs : s.Inv) (hcommand : Fillable s command)
    (horders : s.Holds fun _ => QuotableOrder) : s'.Holds fun _ => QuotableOrder := by
  have hadmitted : ∀ {order applied books' executor' book'} {plan : MatchPlan}
      {d fills δ reserved remaining refund}, s.submissions.lookup order.id = none →
      (Submission.apply order).run (s.orderbooks, s.executor) = (.ok applied, (books', executor')) →
      Submission.Applied s.orderbooks s.cache order applied books' executor'.balanceCache book' plan
        d fills δ reserved remaining refund → Admitted s order := by
    intro order applied books' executor' book' plan d fills δ reserved remaining refund hnew hrun happlied
    obtain ⟨x, c, c', hx, hlock, -⟩ := Submission.apply_settled happlied.planned hrun
    exact ⟨hnew, happlied.valid, x, hx, BalanceCache.available_of_lock hlock⟩
  refine h.holds_of_fills hs horders ?_ ?_
  · intro order applied books' executor' book' plan d fills δ reserved remaining refund hc hnew hrun
      happlied _ f hf hrest hmaker
    subst hc
    exact happlied.quotable_rest hs (hadmitted hnew hrun happlied) hcommand hf hrest hmaker
  · intro order applied books' executor' book' plan d fills δ reserved remaining refund p hc hnew hrun
      happlied hremainder
    subst hc
    exact happlied.quotable_remainder hs (hadmitted hnew hrun happlied) hcommand hremainder

/-! ## What a submission is turned away for -/

/-- A quote is exact when the product of the units is. -/
theorem avoids_inexact {p a : Decimal}
    (h : ∀ x y, units p = .ok x → units a = .ok y → FACTOR ∣ x * y) : Avoids inexact (quote p a) :=
  (avoids_units _).bind fun x hx => (avoids_units _).bind fun y hy =>
    (avoids_ensure_of (Int.emod_eq_zero_of_dvd (h x y hx hy))).bind fun _ _ =>
    (avoids_orErr (by decide)).bind fun _ _ => (avoids_ensure (by decide)).bind
    fun _ _ => avoids_decimal _

namespace MatchPlan

variable {pair : TradingPair} {buy : Bool} {plan : MatchPlan} {n : ℤ}

/-- One round, at a maker of which a part with an exact price is taken. -/
theorem planMaker_exact {v : Visit} (hd : Denotes plan.order (.quantity n))
    (hrest : Resting pair buy v.1 v.2)
    (hexact : v.2.userId ≠ plan.order.userId →
      FACTOR ∣ terms.price v * Demand.take terms (.quantity n) v) :
    Avoids inexact (plan.planMaker v.1 v.2) := by
  obtain ⟨-, -, p, a, f, r, hl⟩ := (validate_limit_iff hrest.limit).mp hrest.valid
  have hnone : plan.order.remainingQuoteAmount = none := by
    unfold Denotes at hd
    split at hd
    · obtain ⟨_, -, hbudget⟩ := hd
      cases hbudget
    · assumption
  rw [planMaker, hrest.valid, ok_bind]
  refine (avoids_ensure (by decide)).bind fun _ _ => (avoids_ensure (by decide)).bind fun _ _ => ?_
  split
  · exact avoids_ok _
  · next hother =>
    have hquantity : Avoids inexact (makerQuantity plan.order v.1 v.2) := by
      rw [makerQuantity, hnone]
      exact avoids_ok _
    refine hquantity.bind fun quantity hq => ?_
    have htaken := makerQuantity_ok hq hd hl.remaining
    split
    · exact avoids_ok _
    · have hvalue : Avoids inexact (quote v.1 quantity) := by
        refine avoids_inexact fun x y hx hy => ?_
        rw [← unitsOf_eq hx, Except.ok.inj (hy.symm.trans htaken)]
        exact hexact hother
      exact hvalue.bind fun _ _ => (avoids_filledMaker _ _).bind fun _ _ =>
        (avoids_filledTaker _ _ _).bind fun _ _ => (avoids_add _ _).bind fun _ _ =>
        (avoids_add _ _).bind fun _ _ => (avoids_ensure (by decide)).bind fun _ _ => avoids_ok _

/-- **The loop over makers with exact prices**: a quantity is turned away for rounding by the maker
in which it ends, or by none. -/
theorem planVisits_exact {vs : List Visit} (hd : Denotes plan.order (.quantity n))
    (hvs : ∀ v ∈ vs, Resting pair buy v.1 v.2 ∧ FACTOR ∣ v.2.product)
    (hends : ∀ e, endsIn terms n (offers plan.order.userId vs) = some e →
      FACTOR ∣ terms.price e.1 * e.2) : Avoids inexact (plan.planVisits vs) := by
  induction vs generalizing plan n with
  | nil => exact avoids_ok _
  | cons v vs ih =>
    obtain ⟨hrest, hproduct⟩ := hvs v (List.mem_cons_self ..)
    have hvs' : ∀ w ∈ vs, Resting pair buy w.1 w.2 ∧ FACTOR ∣ w.2.product := fun w hw =>
      hvs w (List.mem_cons_of_mem _ hw)
    rw [planVisits]
    split
    · exact avoids_ok _
    · next hleft =>
      by_cases hself : v.2.userId = plan.order.userId
      · -- an order of the same user is passed over
        have hskip : offers plan.order.userId (v :: vs) = offers plan.order.userId vs := by
          rw [offers, List.filter_cons, if_neg (by simpa using hself), offers]
        have hnone : offers plan.order.userId [v] = [] := by
          rw [offers, List.filter_cons, if_neg (by simpa using hself), List.filter_nil]
        rw [hskip] at hends
        refine (planMaker_exact hd hrest fun hother => absurd hself hother).bind fun mid hmid => ?_
        obtain ⟨fills, hadv⟩ := planMaker_advance hmid hd
        have hdemand := hadv.demand
        rw [hnone] at hdemand
        refine ih hdemand hvs' ?_
        rw [OrderEntry.congr_frame OrderEntry.userId hadv.frame]
        exact hends
      · have htake : offers plan.order.userId (v :: vs) = v :: offers plan.order.userId vs := by
          rw [offers, List.filter_cons, if_pos (by simpa using hself), offers]
        have hone : offers plan.order.userId [v] = [v] := by
          rw [offers, List.filter_cons, if_pos (by simpa using hself), List.filter_nil]
        have hpos : 0 < n := lt_of_le_of_ne hd.nonneg fun hzero =>
          hleft (hd.exhausted_iff.mpr hzero.symm)
        rw [htake, endsIn] at hends
        have hwhole : terms.price v * terms.size v = v.2.product := by
          rw [OrderEntry.product, hrest.priceUnits_eq]
          rfl
        have hadvanced : ∀ {mid : MatchPlan}, plan.planMaker v.1 v.2 = .ok mid →
            mid.order.userId = plan.order.userId ∧
              Denotes mid.order (.quantity (n - min n (terms.size v))) := by
          intro mid hmid
          obtain ⟨fills, hadv⟩ := planMaker_advance hmid hd
          have hdemand := hadv.demand
          rw [hone] at hdemand
          exact ⟨OrderEntry.congr_frame OrderEntry.userId hadv.frame, hdemand⟩
        rcases le_or_gt (terms.size v) n with hle | hlt
        · -- the maker is taken whole
          rw [if_pos hle] at hends
          have hexact : FACTOR ∣ terms.price v * Demand.take terms (.quantity n) v := by
            rw [show Demand.take terms (.quantity n) v = terms.size v from min_eq_right hle, hwhole]
            exact hproduct
          refine (planMaker_exact hd hrest fun _ => hexact).bind fun mid hmid => ?_
          obtain ⟨huser, hdemand⟩ := hadvanced hmid
          rw [min_eq_right hle] at hdemand
          refine ih hdemand hvs' ?_
          rw [huser]
          exact hends
        · -- the quantity ends in the maker
          rw [if_neg (not_le.mpr hlt), if_pos hpos] at hends
          have hexact : FACTOR ∣ terms.price v * Demand.take terms (.quantity n) v := by
            rw [show Demand.take terms (.quantity n) v = n from min_eq_left hlt.le]
            exact hends _ rfl
          refine (planMaker_exact hd hrest fun _ => hexact).bind fun mid hmid => ?_
          obtain ⟨-, hdemand⟩ := hadvanced hmid
          rw [min_eq_left hlt.le, sub_self] at hdemand
          rw [planVisits_of_exhausted (hdemand.exhausted_iff.mpr rfl)]
          exact avoids_ok _

end MatchPlan

/-- No change of a settlement is a matter of rounding. -/
theorem BalanceCache.stageChanges_exact (c : BalanceCache) (staged : Staged) (changes : List Change) :
    Avoids inexact (stageChanges c staged changes) := by
  induction changes generalizing staged with
  | nil => exact avoids_ok _
  | cons change changes ih =>
    have hchange : Avoids inexact (stageChange c staged change) :=
      (avoids_stageAccount _ _ _).bind fun _ _ => (avoids_expect (by decide)).bind fun _ _ =>
        (avoids_orErr (by decide)).bind fun _ _ => (avoids_orErr (by decide)).bind fun _ _ =>
        (avoids_ensure (by decide)).bind fun _ _ => (avoids_ensure (by decide)).bind
        fun _ _ => avoids_ok _
    exact hchange.bind fun staged' _ => ih staged'

namespace Submission

/-- The trades of a plan have quotes. -/
theorem settleAll_exact {order : OrderEntry} {makerBuy : Bool} {fills : List Fill}
    (hfills : ∀ f ∈ fills, f.Ok) (c : BalanceCache) :
    Avoids inexact (settleAll (fills.map (Fill.trade makerBuy order)) c) := by
  induction fills generalizing c with
  | nil => exact avoids_ok _
  | cons f fills ih =>
    have hvalue : Avoids inexact (quote f.price f.quantity) := by
      rw [(hfills f (List.mem_cons_self ..)).value]
      exact avoids_ok _
    exact Avoids.bind (BalanceCache.avoids_settleTrade c hvalue fun _ _ _ _ _ _ =>
      BalanceCache.stageChanges_exact _ _ _) fun c' _ =>
      ih (fun g hg => hfills g (List.mem_cons_of_mem _ hg)) c'

/-- The orders that a new order comes by, with exact prices when all resting orders have them. -/
theorem exact_of_mem_visits {s : EngineState} {order : OrderEntry} (hs : s.Inv)
    (horders : s.Holds fun _ o => FACTOR ∣ o.product) {v : Visit}
    (hv : v ∈ visits order (bookOf s.orderbooks order)) :
    Resting order.pair (MatchPlan.start order).makerBuy v.1 v.2 ∧ FACTOR ∣ v.2.product := by
  obtain ⟨-, queue, hqueue, hmem⟩ := mem_visits hv
  refine ⟨((hs.bookOf order).side _).resting _ _ hqueue _ hmem, ?_⟩
  have hflat := OrderBook.mem_flat_iff.mpr ⟨_, OrderBookSide.mem_flat_iff.mpr ⟨_, _, hqueue, hmem⟩⟩
  obtain ⟨book, hlookup, heq⟩ := EngineState.mem_bookOf hflat
  rw [heq] at hqueue
  exact horders _ _ hlookup _ _ (OrderBookSide.mem_flat_iff.mpr ⟨_, _, hqueue, hmem⟩)

/-- The part of a resting order that is taken has an exact price when the rest of it has. -/
theorem part_exact {s : EngineState} {order : OrderEntry} (hs : s.Inv)
    (horders : s.Holds fun _ o => FACTOR ∣ o.product) {e : Visit × ℤ}
    (he : endsIn terms (unitsOf order.amount) (met s order) = some e)
    (hrest : FACTOR ∣ restOfMaker e) : FACTOR ∣ terms.price e.1 * e.2 := by
  obtain ⟨hresting, hproduct⟩ :=
    exact_of_mem_visits hs horders (List.mem_of_mem_filter (endsIn_eq_some he).1)
  have hdvd := dvd_sub hproduct hrest
  rw [OrderEntry.product, hresting.priceUnits_eq, restOfMaker, mul_sub] at hdvd
  exact (sub_sub_cancel (terms.price e.1 * terms.size e.1) (terms.price e.1 * e.2)) ▸ hdvd

/-- **What a limit order is turned away for**: not for rounding, when it ends in a resting order at
an exact price, and leaves a rest at an exact price if it is a buy. -/
theorem prepare_exact {s : EngineState} {order : OrderEntry} (hs : s.Inv)
    (horders : s.Holds fun _ o => FACTOR ∣ o.product) (hlimit : order.orderSide = "limit")
    (hvalid : validate order true = .ok ())
    (hpart : ∀ e, endsIn terms (unitsOf order.amount) (met s order) = some e →
      FACTOR ∣ terms.price e.1 * e.2)
    (hrest : order.orderType = "buy" → offered terms (met s order) < unitsOf order.amount →
      FACTOR ∣ restOfOrder s order) :
    Avoids inexact (prepare order s.orderbooks s.executor) := by
  have hbook := hs.bookOf order
  obtain ⟨-, -, p, a, f, r, hl⟩ := (validate_limit_iff hlimit).mp hvalid
  obtain ⟨limit, hprice, hunits, q, hquote⟩ := hl.price
  have hd : Denotes order (.quantity (unitsOf order.amount)) := by
    rw [Denotes, hl.noBudget.2, remaining_eq_amount hvalid hl.noBudget.2 hl.remaining]
    exact ⟨r, hl.remaining, rfl⟩
  have hplanned : Avoids inexact (planOrder order (bookOf s.orderbooks order)) := by
    have hstart : Denotes (MatchPlan.start order).order (.quantity (unitsOf order.amount)) := hd
    rw [planOrder, hvalid, ok_bind, MatchPlan.planLevels_eq hstart fun _ => rfl]
    exact MatchPlan.planVisits_exact hstart (fun _ hv => exact_of_mem_visits hs horders hv) hpart
  intro hprepare
  cases hplan : planOrder order (bookOf s.orderbooks order) with
  | error e =>
    rw [prepare, hplan] at hprepare
    have he : e = inexact := Except.error.inj hprepare
    rw [he] at hplan
    exact hplanned hplan
  | ok plan =>
    have hinPlace := staged_eq_inPlace s.cache s.orderbooks order hplan
    rw [show (⟨s.cache⟩ : Executor) = s.executor from rfl, hprepare] at hinPlace
    obtain ⟨-, d, fills, hd', hadv⟩ := planOrder_advance hbook hplan
    have hmatch : plan.matchList = fills.map (Fill.trade (MatchPlan.start order).makerBuy order) :=
      hadv.matchList
    have hgood : ∀ v ∈ met s order, terms.Good v := fun v hv =>
      good_of_mem_visits hbook (List.mem_of_mem_filter hv)
    have hleft : units plan.order.remainingAmount =
        .ok (max 0 (unitsOf order.amount - offered terms (met s order))) :=
      remaining_of_advance hvalid hd' hgood hadv hl.noBudget.2
    have hreserved : Avoids inexact (reservedAmount order) := by
      unfold reservedAmount
      rw [hprice]
      split
      · dsimp only
        rw [hquote]
        exact avoids_ok _
      · exact avoids_ok _
    have hremaining : Avoids inexact (remainingReserve order plan.order.remainingAmount) := by
      unfold remainingReserve
      split
      · exact avoids_ok _
      · split
        · next hbuy =>
          refine (avoids_expect (by decide)).bind fun level hlevel => avoids_inexact fun x y hx hy => ?_
          obtain rfl : limit = level := by
            rw [hprice, expect_eq_ok] at hlevel
            exact Option.some.inj hlevel
          have hpriceUnits : order.priceUnits = x := by
            rw [OrderEntry.priceUnits, hprice, Option.elim_some, unitsOf_eq hx]
          rw [← Except.ok.inj (hleft.symm.trans hy), ← hpriceUnits]
          -- either everything is taken, or the rest is that of the hypothesis
          rcases le_or_gt (unitsOf order.amount) (offered terms (met s order)) with hall | hmore
          · rw [max_eq_left (sub_nonpos.mpr hall), mul_zero]
            exact dvd_zero _
          · rw [max_eq_right (sub_nonneg.mpr hmore.le)]
            exact hrest hbuy hmore
        · exact avoids_ok _
    refine (hreserved.bind fun x _ => (BalanceCache.avoids_changeReservation _ _ _ _ _).bind
      fun c _ => Avoids.bind ?_ fun c' _ => hremaining.bind fun _ _ => (avoids_subtract _ _).bind
      fun _ _ => (avoids_subtract _ _).bind fun _ _ => ?_) hinPlace.symm
    · rw [hmatch]
      exact settleAll_exact hadv.ok c
    · split
      · exact BalanceCache.avoids_changeReservation _ _ _ _ _
      · exact avoids_ok _

end Submission

/-! ## The property of a run -/

/-- Every command of a sequence meets the condition in the state it finds. -/
def AllFillable : EngineState → List Command → Prop
  | _, [] => True
  | s, command :: commands => Fillable s command ∧
      ∀ outcome s', (Journal.apply command).run s = (.ok outcome, s') → AllFillable s' commands

theorem Run.quotable {s s' : EngineState} {commands : List Command} {outcomes : List Outcome}
    (hlength : outcomes.length = commands.length) (h : Run s (commands.zip outcomes) s')
    (hs : s.Inv) (hcommands : AllFillable s commands) (horders : s.Holds fun _ => QuotableOrder) :
    s'.Holds fun _ => QuotableOrder := by
  induction commands generalizing s outcomes with
  | nil =>
    cases h
    exact horders
  | cons command commands ih =>
    cases outcomes with
    | nil => cases hlength
    | cons outcome outcomes =>
      cases h with
      | cons head tail =>
        have heffect := Journal.apply_effect head
        exact ih (Nat.succ.inj hlength) tail (heffect.inv hs) (hcommands.2 _ _ head)
          (heffect.quotable hs hcommands.1 horders)

/-- The outcome of a limit order that is turned away for rounding. -/
def RoundingRejected (s : EngineState) (order : OrderEntry) : Prop :=
  ((Journal.apply (.submit order)).run s).1 =
    .ok (.applied (some (.rejected order "Quote value requires rounding")))

/-- **No resting order is unfillable**, and none is the reason that a valid limit order is turned
away for rounding. -/
structure AllQuoted (s : EngineState) : Prop where
  /-- The remainder of every resting order has a quote at its own price. -/
  quoted : ∀ pair book, s.orderbooks.lookup pair = some book → ∀ buy, ∀ o ∈ (book.side buy).flat,
    ∃ p q, o.price = some p ∧ quote p o.remainingAmount = .ok q
  /-- A valid limit order, crossing or not, that is turned away for rounding ends in a resting order
  of which it does not have all, or exceeds all it meets, and has no exact price there itself. -/
  own : ∀ order, order.orderSide = "limit" → validate order true = .ok () →
    RoundingRejected s order →
      (∃ v part, endsIn terms (unitsOf order.amount) (met s order) = some (v, part) ∧ 0 < part ∧
        part < unitsOf v.2.remainingAmount ∧ ¬ FACTOR ∣ unitsOf v.1 * part) ∨
      (order.orderType = "buy" ∧ offered terms (met s order) < unitsOf order.amount ∧
        ¬ FACTOR ∣ restOfOrder s order)
  /-- With the condition it is never turned away for rounding. -/
  taken : ∀ order, order.orderSide = "limit" → Admitted s order → Fillable s (.submit order) →
    ¬ RoundingRejected s order

/-- Resting orders with quotes. -/
theorem EngineState.Inv.allQuoted {s : EngineState} (hs : s.Inv)
    (horders : s.Holds fun _ => QuotableOrder) : AllQuoted s := by
  have hexact : s.Holds fun _ o => FACTOR ∣ o.product := fun pair book hbook buy o ho =>
    (horders pair book hbook buy o ho).1
  have hprepare : ∀ {order}, RoundingRejected s order →
      ¬ Avoids inexact (Submission.prepare order s.orderbooks s.executor) := fun h havoids =>
    havoids (Journal.prepare_of_rejected (Prod.ext h rfl))
  refine ⟨fun pair book hbook buy o ho => ?_, fun order hlimit hvalid hrejected => ?_,
    fun order hlimit hadmitted hcommand hrejected => ?_⟩
  · obtain ⟨level, queue, hqueue, hmem⟩ := OrderBookSide.mem_flat_iff.mp ho
    have hrest := ((hs.books _ _ hbook).side buy).resting level queue hqueue o hmem
    obtain ⟨-, -, p, a, f, r, hl⟩ := (validate_limit_iff hrest.limit).mp hrest.valid
    obtain ⟨d, hd, hup, -⟩ := hl.price
    obtain ⟨hdvd, hrepresentable⟩ := horders pair book hbook buy o ho
    have hproduct : o.product = p * r := by
      rw [OrderEntry.product, OrderEntry.priceUnits, hd, Option.elim_some, unitsOf_eq hup,
        unitsOf_eq hl.remaining]
    rw [hproduct] at hdvd hrepresentable
    obtain ⟨q, hq, -⟩ :=
      exists_quote hup hl.remaining hrepresentable (Int.ediv_mul_cancel hdvd).symm
    exact ⟨d, q, hd, hq⟩
  · by_contra hnone
    obtain ⟨hlast, hrest⟩ := not_or.mp hnone
    refine hprepare hrejected (Submission.prepare_exact hs hexact hlimit hvalid (fun e he => ?_)
      fun hbuy hmore => ?_)
    · obtain ⟨hmem, hpos, hlt⟩ := endsIn_eq_some he
      by_contra hinexact
      exact hlast ⟨e.1, e.2, he, hpos, hlt, hinexact⟩
    · by_contra hinexact
      exact hrest ⟨hbuy, hmore, hinexact⟩
  · have hfillable := hcommand hadmitted
    obtain ⟨-, -, p, a, f, r, hl⟩ := (validate_limit_iff hlimit).mp hadmitted.valid
    rw [hl.noBudget.2] at hfillable
    exact hprepare hrejected (Submission.prepare_exact hs hexact hlimit hadmitted.valid
      (fun e he => Submission.part_exact hs hexact he ((hfillable.1 e he).1 hlimit))
      fun _ hmore => (hfillable.2 hlimit hmore).1)

/-- **No unfillable resting order**, in every run whose commands meet the condition: the remainder
of every resting order has a quote at the order's own price, and a valid limit order that crosses
them is never turned away for rounding because of one. -/
theorem resting_quotable {cache : BalanceCache} (hcache : cache.Valid) (commands : List Command)
    (hcommands : AllFillable (.genesis cache) commands) :
    ∃ outcomes s', (Journal.applyAll commands).run (.genesis cache) = (.ok outcomes, s') ∧
      AllQuoted s' := by
  have hinv := EngineState.inv_genesis hcache
  obtain ⟨outcomes, s', hrun, hlength, hhistory⟩ := Journal.applyAll_total hinv commands
  have horders := Run.quotable hlength hhistory hinv hcommands fun pair book hbook => by
    change Finmap.lookup pair (∅ : Books) = some book at hbook
    rw [Finmap.lookup_empty] at hbook
    cases hbook
  exact ⟨outcomes, s', hrun, (hhistory.inv hinv).allQuoted horders⟩

/-- The state that a command leaves. -/
def EngineState.after (s : EngineState) (command : Command) : EngineState :=
  ((Journal.apply command).run s).2

theorem AllFillable.cons {s : EngineState} {command : Command} {commands : List Command}
    (hcommand : Fillable s command) (hcommands : AllFillable (s.after command) commands) :
    AllFillable s (command :: commands) := by
  refine ⟨hcommand, fun outcome s' hrun => ?_⟩
  rw [EngineState.after, hrun] at hcommands
  exact hcommands

/-- A bid. -/
def quotedBid : OrderEntry := .limit 1 2 true (.ofScaled 10 9) (.ofScaled 2 1)

/-- A sell that takes the bid at twice its own price, and stays with a part. -/
def quotedSell : OrderEntry := .limit 2 1 false (.ofScaled 5 9) (.ofScaled 8 1)

/-- A buy of a third of that part. -/
def quotedBuy : OrderEntry := .limit 3 2 true (.ofScaled 5 9) (.ofScaled 2 1)

/-- A buy for one unit, which pays another third. -/
def quotedBudget : OrderEntry :=
  { OrderEntry.limit 4 2 true 0 0 with
    orderSide := "market"
    price := none
    quoteAmount := some (.ofScaled 1 9)
    remainingQuoteAmount := some (.ofScaled 1 9) }

def quotedOrders : List Command :=
  [.submit quotedBid, .submit quotedSell, .submit quotedBuy, .submit quotedBudget]

/-- The sell, filled in part as a new order and twice as a resting one. -/
def quotedRest : OrderEntry :=
  { quotedSell with remainingAmount := .ofScaled 2 1, filledAmount := .ofScaled 6 1 }

theorem quotedOrders_fillable :
    AllFillable (.genesis (EngineState.funded Decimal.ONE Decimal.ONE)) quotedOrders := by
  let s := EngineState.genesis (EngineState.funded Decimal.ONE Decimal.ONE)
  have hbid : endsIn terms (unitsOf quotedBid.amount) (met s quotedBid) = none := by
    decide +kernel
  have hsell : endsIn terms (unitsOf quotedSell.amount)
      (met (s.after (.submit quotedBid)) quotedSell) = none := by
    decide +kernel
  have hbuy : (endsIn terms (unitsOf quotedBuy.amount)
      (met ((s.after (.submit quotedBid)).after (.submit quotedSell)) quotedBuy)).map restOfMaker =
      some 2000000000 := by
    decide +kernel
  have hbudget : (allocate terms (.budget (unitsOf (.ofScaled 1 9)))
      (met (((s.after (.submit quotedBid)).after (.submit quotedSell)).after (.submit quotedBuy))
        quotedBudget)).map restOfMaker = [1000000000] := by
    decide +kernel
  refine AllFillable.cons (fun _ => ⟨fun e he => ?_, fun _ _ => ⟨by decide +kernel, fun h => ?_⟩⟩)
    (AllFillable.cons (fun _ => ⟨fun e he => ?_, fun _ _ => ⟨by decide +kernel, fun _ => ?_⟩⟩)
      (AllFillable.cons (fun _ => ⟨fun e he => ?_, fun _ hmore => ?_⟩)
        (AllFillable.cons (fun _ e he _ _ => ?_) trivial)))
  · exact absurd (he.symm.trans hbid) (Option.some_ne_none e)
  · exact absurd h (by decide)
  · exact absurd (he.symm.trans hsell) (Option.some_ne_none e)
  · exact representable_of_lt (by decide +kernel) (by decide +kernel)
  · rw [he, Option.map_some, Option.some_inj] at hbuy
    rw [hbuy]
    exact ⟨fun _ => by decide, fun _ => representable_of_lt (by decide) (by decide)⟩
  · exact absurd hmore (by decide +kernel)
  · have hrest : restOfMaker e ∈ [1000000000] := hbudget ▸ List.mem_map_of_mem he
    rw [List.mem_singleton.mp hrest]
    exact representable_of_lt (by decide) (by decide)

/-- The sell is filled in part three times, and rests with a quote, as all orders do. -/
theorem resting_quotable_sell :
    ∃ outcomes s', (Journal.applyAll quotedOrders).run
        (.genesis (EngineState.funded Decimal.ONE Decimal.ONE)) = (.ok outcomes, s') ∧
      (∃ book, s'.orderbooks.lookup ⟨"BTC", "USDT"⟩ = some book ∧
        book.sellOrders.flat = [quotedRest]) ∧ AllQuoted s' := by
  have hone : units Decimal.ONE = .ok 1000000000 := rfl
  obtain ⟨outcomes, s', hrun, hquoted⟩ := resting_quotable (EngineState.valid_funded hone hone)
    quotedOrders quotedOrders_fillable
  have hbook : ((((Journal.applyAll quotedOrders).run
      (.genesis (EngineState.funded Decimal.ONE Decimal.ONE))).2.orderbooks.lookup
      ⟨"BTC", "USDT"⟩).map fun book => book.sellOrders.flat) = some [quotedRest] := by
    decide +kernel
  rw [hrun] at hbook
  exact ⟨outcomes, s', hrun, Option.map_eq_some_iff.mp hbook, hquoted⟩

/-! ### A sell that leaves an unfillable remainder -/

/-- User 2 bids for one unit at one, and user 1 sells a thousand million units at the
smallest price: the bid takes one of them. -/
def unfillableSell : List Command :=
  [.submit (.limit 1 2 true Decimal.ONE (.ofScaled 1 9)),
    .submit (.limit 2 1 false (.ofScaled 1 9) Decimal.ONE)]

/-- The sell that is left. -/
def unfillableRest : OrderEntry :=
  { OrderEntry.limit 2 1 false (.ofScaled 1 9) Decimal.ONE with
    remainingAmount := .ofScaled 999999999 9
    filledAmount := .ofScaled 1 9 }

/-- The remainder has no quote at its own price, and a valid buy that crosses it with
a larger quantity is rejected for rounding. -/
theorem resting_quotable_fails :
    ∃ outcomes s', (Journal.applyAll unfillableSell).run
        (.genesis (EngineState.funded Decimal.ONE Decimal.ONE)) = (.ok outcomes, s') ∧
      (∃ book, s'.orderbooks.lookup ⟨"BTC", "USDT"⟩ = some book ∧
        unfillableRest ∈ book.sellOrders.flat) ∧
      quote (.ofScaled 1 9) unfillableRest.remainingAmount =
        .error (.err "Quote value requires rounding") ∧
      ((Journal.apply (.submit (.limit 3 2 true (.ofScaled 1 9) Decimal.ONE))).run s').1 =
        .ok (.applied (some (.rejected (.limit 3 2 true (.ofScaled 1 9) Decimal.ONE)
          "Quote value requires rounding"))) := by
  have hone : units Decimal.ONE = .ok 1000000000 := rfl
  obtain ⟨outcomes, s', hrun, -, -⟩ := Journal.applyAll_total
    (EngineState.inv_genesis (EngineState.valid_funded hone hone)) unfillableSell
  have hbook : ((((Journal.applyAll unfillableSell).run
      (.genesis (EngineState.funded Decimal.ONE Decimal.ONE))).2.orderbooks.lookup
      ⟨"BTC", "USDT"⟩).map fun book => book.sellOrders.flat) = some [unfillableRest] := by
    decide +kernel
  have hthird : ((Journal.apply (.submit (.limit 3 2 true (.ofScaled 1 9) Decimal.ONE))).run
      ((Journal.applyAll unfillableSell).run
        (.genesis (EngineState.funded Decimal.ONE Decimal.ONE))).2).1.toOption =
      some (.applied (some (.rejected (.limit 3 2 true (.ofScaled 1 9) Decimal.ONE)
        "Quote value requires rounding"))) := by
    decide +kernel
  rw [hrun] at hbook hthird
  obtain ⟨book, hlookup, hflat⟩ := Option.map_eq_some_iff.mp hbook
  refine ⟨outcomes, s', hrun, ⟨book, hlookup, ?_⟩, rfl, ?_⟩
  · rw [hflat]
    exact List.mem_singleton_self _
  · generalize Mut.run _ s' = r at hthird ⊢
    obtain ⟨_ | outcome, t⟩ := r
    · cases hthird
    · exact congrArg Except.ok (Option.some.inj hthird)

end CexEngine
