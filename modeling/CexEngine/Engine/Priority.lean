import CexEngine.Engine.BookCommit

/-!
# Price-time priority

`planOrder_priceTimePriority`: the matches of a plan are what one gets by visiting
the other side of the book best price first, and in each price in queue order,
passing over orders of the same user, and filling every maker as far as possible.

`PriceTimePriority` spells this out.  Its `alloc` has one entry for every maker of
another user inside the limit, in visiting order, with the units it was filled by;
the matches are the entries with a fill.
-/

namespace CexEngine

open Foundation Foundation.Allocation Amount

/-! ## The visiting order -/

/-- `v` is not visited after `w`: its price is at least as good for the taker. -/
def NoWorse (makerBuy : Bool) (v w : Decimal) : Prop :=
  if makerBuy then w ≤ v else v ≤ w

/-- The levels of the other side come best price first. -/
theorem opposite_sorted (incoming : OrderEntry) (book : OrderBook) :
    (opposite incoming book).Pairwise fun a b =>
      NoWorse (MatchPlan.start incoming).makerBuy a.1 b.1 ∧ a.1.raw ≠ b.1.raw := by
  unfold opposite NoWorse MatchPlan.start
  by_cases hs : incoming.orderType = "sell"
  · rw [if_pos hs, List.pairwise_reverse]
    simp only [hs, decide_true, if_true]
    exact book.buyOrders.orders.sorted.imp fun hlt => ⟨hlt.le, hlt.ne'⟩
  · rw [if_neg hs]
    simp only [hs, decide_false, Bool.false_eq_true, if_false]
    exact book.sellOrders.orders.sorted.imp fun hlt => ⟨hlt.le, hlt.ne⟩

/-- The makers come best price first. -/
theorem visits_sorted (incoming : OrderEntry) (book : OrderBook) :
    (visits incoming book).Pairwise fun v w =>
      NoWorse (MatchPlan.start incoming).makerBuy v.1 w.1 := by
  rw [visits, MatchPlan.inside, List.pairwise_flatMap]
  constructor
  · intro level _
    rw [List.pairwise_map]
    refine List.pairwise_of_forall fun _ _ => ?_
    unfold NoWorse
    split <;> exact le_refl (level.1.raw)
  · refine ((opposite_sorted incoming book).sublist (List.takeWhile_sublist _)).imp ?_
    intro a b hab v hv w hw
    obtain ⟨o, -, rfl⟩ := List.mem_map.mp hv
    obtain ⟨o', -, rfl⟩ := List.mem_map.mp hw
    exact hab.1

/-- A price at least as good as one inside the limit is inside the limit. -/
theorem outsideLimit_mono {plan : MatchPlan} {p p' : Decimal} (h : NoWorse plan.makerBuy p p')
    (hp' : plan.outsideLimit p' = false) : plan.outsideLimit p = false := by
  unfold MatchPlan.outsideLimit at hp' ⊢
  unfold NoWorse at h
  cases hprice : plan.order.price with
  | none => rfl
  | some limit =>
    rw [hprice] at hp'
    cases hb : plan.makerBuy with
    | true =>
      rw [hb, if_pos rfl] at h
      simp only [hb, Bool.true_and, Bool.not_true, Bool.false_and, Bool.or_false,
        decide_eq_false_iff_not] at hp' ⊢
      exact fun hlt => hp' (lt_of_le_of_lt (Decimal.le_def.mp h) (Decimal.lt_def.mp hlt))
    | false =>
      rw [hb, if_neg Bool.false_ne_true] at h
      simp only [hb, Bool.false_and, Bool.not_false, Bool.true_and, Bool.false_or,
        decide_eq_false_iff_not] at hp' ⊢
      exact fun hlt => hp' (lt_of_lt_of_le (Decimal.lt_def.mp hlt) (Decimal.le_def.mp h))

/-- A list sorted so that a test holds upwards passes it as far as it goes. -/
theorem mem_takeWhile_of_mono {α : Type} {test : α → Bool} {r : α → α → Prop} {l : List α} {a : α}
    (hl : l.Pairwise r) (hr : ∀ b, r b a → test b = true) (ha : a ∈ l) (hta : test a = true) :
    a ∈ l.takeWhile test := by
  induction l with
  | nil => cases ha
  | cons b l ih =>
    rcases List.mem_cons.mp ha with rfl | ha
    · rw [List.takeWhile_cons, if_pos hta]
      exact List.mem_cons_self ..
    · rw [List.takeWhile_cons, if_pos (hr b (List.rel_of_pairwise_cons hl ha))]
      exact List.mem_cons_of_mem _ (ih hl.of_cons ha)

/-- Every maker inside the limit is visited. -/
theorem mem_visits_of_inside {incoming : OrderEntry} {book : OrderBook} {p : Decimal}
    {queue : List OrderEntry} {o : OrderEntry}
    (hlevel : (p, queue) ∈ (book.side (MatchPlan.start incoming).makerBuy).orders.entries)
    (ho : o ∈ queue) (hp : (MatchPlan.start incoming).outsideLimit p = false) :
    (p, o) ∈ visits incoming book := by
  have hopp : (p, queue) ∈ opposite incoming book := by
    unfold opposite
    by_cases hs : incoming.orderType = "sell"
    · rw [if_pos hs, List.mem_reverse]
      simpa [MatchPlan.start, OrderBook.side, hs] using hlevel
    · rw [if_neg hs]
      simpa [MatchPlan.start, OrderBook.side, hs] using hlevel
  refine List.mem_flatMap.mpr ⟨(p, queue), ?_, List.mem_map.mpr ⟨o, ho, rfl⟩⟩
  refine mem_takeWhile_of_mono (opposite_sorted incoming book) (fun b hb => ?_) hopp (by simp [hp])
  rw [outsideLimit_mono hb.1 hp]
  rfl

/-! ## The fills of a plan -/

/-- No order is visited twice. -/
theorem visits_ids {incoming : OrderEntry} {book : OrderBook} {pair : TradingPair}
    (hbook : book.Inv pair) : ((visits incoming book).map fun v => v.2.id).Nodup := by
  have hflat : ((opposite incoming book).flatMap Prod.snd).Perm
      (book.side (MatchPlan.start incoming).makerBuy).flat := by
    unfold opposite
    by_cases hs : incoming.orderType = "sell"
    · have hside : book.side (MatchPlan.start incoming).makerBuy = book.buyOrders := by
        simp [MatchPlan.start, OrderBook.side, hs]
      rw [if_pos hs, hside]
      exact (List.reverse_perm _).flatMap_right _
    · have hside : book.side (MatchPlan.start incoming).makerBuy = book.sellOrders := by
        simp [MatchPlan.start, OrderBook.side, hs]
      rw [if_neg hs, hside]
      exact List.Perm.refl _
  have hmap : (visits incoming book).map (fun v => v.2.id) =
      (((opposite incoming book).takeWhile fun level =>
        !(MatchPlan.start incoming).outsideLimit level.1).flatMap Prod.snd).map OrderEntry.id := by
    rw [visits, MatchPlan.inside, List.map_flatMap, List.map_flatMap]
    refine List.flatMap_congr fun level _ => ?_
    rw [List.map_map]
    rfl
  rw [hmap]
  refine List.Nodup.sublist ?_ ((hflat.map OrderEntry.id).nodup_iff.mpr (hbook.side_ids _))
  exact ((List.takeWhile_sublist _).flatMap _).map _

theorem Advance.mem_offers {plan plan' : MatchPlan} {d : Demand} {os : List Visit}
    {fills : List Fill} (h : Advance plan d os fills plan') {f : Fill} (hf : f ∈ fills) :
    f.entry ∈ allocate terms d os ∧ (f.price, f.maker) ∈ os := by
  have hmem : f.entry ∈ allocate terms d os := by
    have hmap : f.entry ∈ fills.map Fill.entry := List.mem_map_of_mem hf
    rw [h.entries] at hmap
    exact List.mem_of_mem_filter hmap
  refine ⟨hmem, ?_⟩
  rw [← map_fst_allocate (t := terms) d os]
  exact List.mem_map_of_mem hmem

/-- The makers rest on the other side of the book, and a remainder on the order's own. -/
theorem Advance.not_makerBuy {order : OrderEntry} {plan : MatchPlan} {d : Demand} {os : List Visit}
    {fills : List Fill} (h : Advance (MatchPlan.start order) d os fills plan)
    (hvalid : validate order true = .ok ()) :
    (!plan.makerBuy) = decide (order.orderType = "buy") := by
  rw [h.makerBuy]
  show (!decide (order.orderType = "sell")) = _
  rcases (validate_ok hvalid).1.kind.1 with htype | htype <;> rw [htype] <;> decide

/-- The fills of a plan are fills of the other side of the book. -/
theorem Advance.fillsOf {incoming : OrderEntry} {book : OrderBook} {pair : TradingPair}
    {d : Demand} {fills : List Fill} {plan : MatchPlan} (hbook : book.Inv pair)
    (h : Advance (MatchPlan.start incoming) d (offers incoming.userId (visits incoming book)) fills
      plan) : FillsOf (book.side plan.makerBuy) fills where
  ok := h.ok
  mem := fun f hf => by
    rw [h.makerBuy]
    exact (mem_visits (List.mem_of_mem_filter (h.mem_offers hf).2)).2
  ids := by
    have hids : (fills.map fun f => f.maker.id) = (fills.map Fill.entry).map fun e => e.1.2.id := by
      rw [List.map_map]
      rfl
    rw [hids, h.entries]
    have hsub : ((allocate terms d (offers incoming.userId (visits incoming book))).filter
        fun e => decide (e.2 ≠ 0)).map (fun e => e.1.2.id) |>.Sublist
        ((visits incoming book).map fun v => v.2.id) := by
      have h1 := (List.filter_sublist (p := fun e : Visit × ℤ => decide (e.2 ≠ 0))
        (l := allocate terms d (offers incoming.userId (visits incoming book)))).map
        fun e => e.1.2.id
      have h2 : (allocate terms d (offers incoming.userId (visits incoming book))).map
          (fun e => e.1.2.id) = (offers incoming.userId (visits incoming book)).map
          fun v => v.2.id := by
        rw [← map_fst_allocate (t := terms) d (offers incoming.userId (visits incoming book)),
          List.map_map, map_fst_allocate]
        rfl
      rw [h2] at h1
      exact h1.trans ((List.filter_sublist).map _)
    exact (visits_ids hbook).sublist hsub

/-! ## The result -/

/-- What the budget of a market buy can no longer reach: of a maker that was
filled by `a` units, no further exact quantity fits the budget `left`. -/
def OutOfReach (incoming : OrderEntry) (left : ℤ) (e : Visit × ℤ) : Prop :=
  incoming.orderSide = "market" ∧ incoming.orderType = "buy" ∧
    ∀ x, ¬ Affordable FACTOR left (unitsOf e.1.1) (unitsOf e.1.2.remainingAmount - e.2) x

/-- A maker that was filled completely. -/
def FilledUp (e : Visit × ℤ) : Prop := e.2 = unitsOf e.1.2.remainingAmount

/-- The price of what was taken of makers, in units. -/
def paid (es : List (Visit × ℤ)) : ℤ := (es.map fun e => terms.value e.1 e.2).sum

/-- **Price-time priority.**  `alloc` lists the makers of other users inside the
limit in visiting order, with the units each was filled by; `fills` are the
entries with a fill. -/
structure PriceTimePriority (incoming : OrderEntry) (book : OrderBook) (plan : MatchPlan)
    (alloc : List (Visit × ℤ)) (fills : List Fill) : Prop where
  /-- Makers are visited best price first, and no maker inside the limit is left out. -/
  sorted : (visits incoming book).Pairwise fun v w =>
    NoWorse (MatchPlan.start incoming).makerBuy v.1 w.1
  complete : ∀ level ∈ (book.side (MatchPlan.start incoming).makerBuy).orders.entries,
    (MatchPlan.start incoming).outsideLimit level.1 = false →
      ∀ o ∈ level.2, (level.1, o) ∈ visits incoming book
  offered : alloc.map Prod.fst = offers incoming.userId (visits incoming book)
  /-- The match list is exactly the list of fills, in visiting order. -/
  matched : fills.map Fill.entry = alloc.filter fun e => decide (e.2 ≠ 0)
  matchList : plan.matchList =
    fills.map (Fill.trade (MatchPlan.start incoming).makerBuy incoming)
  /-- Each trade is at the maker's own price, inside the limit, between two users,
  of a positive amount the maker has. -/
  trade : ∀ f ∈ fills, SameOption f.maker.price (some f.price) ∧
    (MatchPlan.start incoming).outsideLimit f.price = false ∧
    f.maker.userId ≠ incoming.userId ∧ 0 < f.quantity ∧ f.quantity ≤ f.maker.remainingAmount
  once : (fills.map fun f => f.maker.id).Nodup
  /-- The totals are exact sums. -/
  totalAmount : units plan.totalAmount = .ok (fills.map fun f => unitsOf f.quantity).sum
  totalQuote : units plan.totalQuote = .ok (fills.map fun f => unitsOf f.value).sum
  value : ∀ f ∈ fills, unitsOf f.price * unitsOf f.quantity = unitsOf f.value * FACTOR
  /-- The taker is filled within its amount, or within its budget. -/
  amount : incoming.remainingQuoteAmount = none →
    (fills.map fun f => unitsOf f.quantity).sum ≤ unitsOf incoming.amount ∧
      units plan.order.remainingAmount =
        .ok (unitsOf incoming.amount - (fills.map fun f => unitsOf f.quantity).sum)
  budget : ∀ b, incoming.remainingQuoteAmount = some b →
    (fills.map fun f => unitsOf f.value).sum ≤ unitsOf b ∧
      ∃ left, plan.order.remainingQuoteAmount = some left ∧
        units left = .ok (unitsOf b - (fills.map fun f => unitsOf f.value).sum)
  /-- When a maker is matched, every earlier one is filled up or out of reach of the
  budget then left. -/
  earlier : ∀ pre e post, alloc = pre ++ e :: post → e.2 ≠ 0 → ∀ e' ∈ pre,
    FilledUp e' ∨ ∃ b, incoming.remainingQuoteAmount = some b ∧
      OutOfReach incoming (unitsOf b - paid pre) e'
  /-- Nothing more can be traded. -/
  maximalAmount : incoming.remainingQuoteAmount = none →
    units plan.order.remainingAmount = .ok 0 ∨ ∀ e ∈ alloc, FilledUp e
  maximalBudget : ∀ b, incoming.remainingQuoteAmount = some b →
    ∀ e ∈ alloc, FilledUp e ∨ OutOfReach incoming (unitsOf b - paid alloc) e

/-- The entries without a fill contribute nothing to a sum. -/
theorem sum_filter_fills {es : List (Visit × ℤ)} {g : Visit × ℤ → ℤ}
    (hg : ∀ e ∈ es, e.2 = 0 → g e = 0) :
    ((es.filter fun e => decide (e.2 ≠ 0)).map g).sum = (es.map g).sum := by
  induction es with
  | nil => rfl
  | cons e es ih =>
    have ih' := ih fun e' he' => hg e' (List.mem_cons_of_mem _ he')
    by_cases he : e.2 = 0
    · rw [List.filter_cons, if_neg (by simpa using he), ih', List.map_cons, List.sum_cons,
        hg e (List.mem_cons_self ..) he, zero_add]
    · rw [List.filter_cons, if_pos (by simpa using he), List.map_cons, List.sum_cons, ih',
        List.map_cons, List.sum_cons]

theorem Advance.sum_quantity {plan plan' : MatchPlan} {d : Demand} {os : List Visit}
    {fills : List Fill} (h : Advance plan d os fills plan') :
    (fills.map fun f => unitsOf f.quantity).sum = ((allocate terms d os).map Prod.snd).sum := by
  have hmap : (fills.map fun f => unitsOf f.quantity) = (fills.map Fill.entry).map Prod.snd := by
    rw [List.map_map]
    rfl
  rw [hmap, h.entries, sum_filter_fills fun e _ he => he]

theorem Advance.sum_value {plan plan' : MatchPlan} {d : Demand} {os : List Visit}
    {fills : List Fill} (h : Advance plan d os fills plan') :
    (fills.map fun f => unitsOf f.value).sum = paid (allocate terms d os) := by
  have hmap : (fills.map fun f => unitsOf f.value) =
      (fills.map Fill.entry).map fun e => terms.value e.1 e.2 := by
    rw [List.map_map]
    exact List.map_congr_left fun f hf => (h.ok f hf).value_eq.symm
  rw [hmap, h.entries, sum_filter_fills fun e _ he => by rw [he, Terms.value, mul_zero,
    Int.zero_ediv]]
  rfl

/-- Only a market buy has a budget. -/
theorem marketBuy_of_budget {o : OrderEntry} {b : Decimal} (h : validate o true = .ok ())
    (hb : o.remainingQuoteAmount = some b) : o.orderSide = "market" ∧ o.orderType = "buy" := by
  obtain ⟨hshape, -⟩ := validate_ok h
  by_cases hside : o.orderSide = "limit"
  · obtain ⟨-, -, p, a, f, r, hl⟩ := (validate_limit_iff hside).mp h
    rw [hl.noBudget.2] at hb
    cases hb
  · have hmarket := hshape.kind.2.resolve_left hside
    refine ⟨hmarket, ?_⟩
    by_contra hbuy
    obtain ⟨a, f, r, hs⟩ := validate_marketSell hmarket hbuy h
    rw [hs.noBudget.2] at hb
    cases hb

/-- A fresh quantity order has its whole amount left. -/
theorem remaining_eq_amount {o : OrderEntry} (h : validate o true = .ok ())
    (hb : o.remainingQuoteAmount = none) {x : ℤ} (hx : units o.remainingAmount = .ok x) :
    unitsOf o.amount = x := by
  obtain ⟨hshape, hfresh⟩ := validate_ok h
  have hzero : ∀ {f : ℤ}, units o.filledAmount = .ok f → f = 0 := fun hf =>
    (equiv_zero_iff_units hf).mp (hfresh rfl)
  by_cases hside : o.orderSide = "limit"
  · obtain ⟨-, -, p, a, f, r, hl⟩ := (validate_limit_iff hside).mp h
    obtain rfl : x = r := Except.ok.inj (hx.symm.trans hl.remaining)
    rw [unitsOf_eq hl.amount, ← hl.balance, hzero hl.filled, zero_add]
  · have hmarket := hshape.kind.2.resolve_left hside
    by_cases hbuy : o.orderType = "buy"
    · obtain ⟨b, hbud⟩ := validate_marketBuy hmarket hbuy h
      obtain ⟨q, hq, -⟩ := hbud.remaining
      rw [hq] at hb
      cases hb
    · obtain ⟨a, f, r, hs⟩ := validate_marketSell hmarket hbuy h
      obtain rfl : x = r := Except.ok.inj (hx.symm.trans hs.remaining)
      rw [unitsOf_eq hs.amount, ← hs.balance, hzero hs.filled, zero_add]

section Rules

variable {incoming : OrderEntry} {d : Demand} {os : List Visit} {alloc : List (Visit × ℤ)}

/-- Earlier makers are filled up or out of reach. -/
theorem earlier_spent (hvalid : validate incoming true = .ok ()) (hd : Denotes incoming d)
    (hgood : ∀ v ∈ os, terms.Good v) {pre post : List (Visit × ℤ)} {e e' : Visit × ℤ}
    (h : allocate terms d os = pre ++ e :: post) (he : e.2 ≠ 0) (he' : e' ∈ pre) :
    FilledUp e' ∨ ∃ b, incoming.remainingQuoteAmount = some b ∧
      OutOfReach incoming (unitsOf b - paid pre) e' := by
  have hspent := spent_before hd.nonneg hgood h he'
  have htake := snd_eq_take h
  obtain ⟨hsplit, hpre⟩ := allocate_map_fst h
  have hmem : e.1 ∈ os := by
    rw [hsplit]
    exact List.mem_append_right _ (List.mem_cons_self ..)
  cases hb : incoming.remainingQuoteAmount with
  | none =>
    rw [Denotes, hb] at hd
    obtain ⟨n, hn, rfl⟩ := hd
    left
    rw [residual_quantity] at hspent htake
    rcases hspent with hzero | hfull
    · exact absurd (htake.trans (Demand.take_of_amount_eq_zero hzero (hgood _ hmem))) he
    · exact hfull
  | some b =>
    obtain ⟨hmarket, hbuy⟩ := marketBuy_of_budget hvalid hb
    rw [Denotes, hb] at hd
    obtain ⟨x, hx, rfl⟩ := hd
    rw [residual_budget, hpre] at hspent
    right
    refine ⟨b, rfl, hmarket, hbuy, ?_⟩
    rw [unitsOf_eq hx]
    exact hspent

/-- A quantity order is filled within its amount. -/
theorem remaining_quantity (hvalid : validate incoming true = .ok ()) (hd : Denotes incoming d)
    (hgood : ∀ v ∈ os, terms.Good v) {fills : List Fill} {plan : MatchPlan}
    (hadv : Advance (MatchPlan.start incoming) d os fills plan)
    (hnone : incoming.remainingQuoteAmount = none) :
    (fills.map fun f => unitsOf f.quantity).sum ≤ unitsOf incoming.amount ∧
      units plan.order.remainingAmount =
        .ok (unitsOf incoming.amount - (fills.map fun f => unitsOf f.quantity).sum) := by
  have hleft := residual_nonneg hd.nonneg hgood
  have hdemand := hadv.demand
  obtain ⟨-, hnone'⟩ := hadv.quantityOrder hnone
  rw [Denotes, hnone] at hd
  obtain ⟨n, hn, rfl⟩ := hd
  rw [residual_quantity] at hdemand hleft
  rw [Denotes, hnone'] at hdemand
  obtain ⟨m, hm, heq⟩ := hdemand
  rw [remaining_eq_amount hvalid hnone hn, hadv.sum_quantity]
  exact ⟨sub_nonneg.mp hleft, by rw [hm, ← Demand.quantity.inj heq]⟩

/-- A quantity order is filled, or every maker is. -/
theorem maximal_quantity (hd : Denotes incoming d) (hgood : ∀ v ∈ os, terms.Good v)
    {fills : List Fill} {plan : MatchPlan}
    (hadv : Advance (MatchPlan.start incoming) d os fills plan)
    (hnone : incoming.remainingQuoteAmount = none) :
    units plan.order.remainingAmount = .ok 0 ∨ ∀ e ∈ allocate terms d os, FilledUp e := by
  have hdemand := hadv.demand
  obtain ⟨-, hnone'⟩ := hadv.quantityOrder hnone
  rw [Denotes, hnone] at hd
  obtain ⟨n, hn, rfl⟩ := hd
  have hspent : ∀ e ∈ allocate terms (.quantity n) os,
      (residual terms (.quantity n) os).Spent terms e.1 e.2 := fun e he =>
    spent_residual (units_nonneg hn) hgood he
  rw [residual_quantity] at hdemand hspent
  rw [Denotes, hnone'] at hdemand
  obtain ⟨m, hm, heq⟩ := hdemand
  by_cases hzero : m = 0
  · left
    rw [hm, hzero]
  · right
    intro e he
    exact (hspent e he).resolve_left fun h0 => hzero ((Demand.quantity.inj heq).symm.trans h0)

end Rules

/-- **The plan of an incoming order has price-time priority and is maximal.** -/
theorem planOrder_priceTimePriority {incoming : OrderEntry} {book : OrderBook}
    {pair : TradingPair} {plan : MatchPlan} (hbook : book.Inv pair)
    (h : planOrder incoming book = .ok plan) :
    ∃ alloc fills, PriceTimePriority incoming book plan alloc fills := by
  obtain ⟨hvalid, d, fills, hd, hadv⟩ := planOrder_advance hbook h
  set os := offers incoming.userId (visits incoming book) with hos
  have hgood : ∀ v ∈ os, terms.Good v := fun v hv =>
    good_of_mem_visits hbook (List.mem_of_mem_filter hv)
  have hfills := hadv.fillsOf hbook
  have hleft := residual_nonneg hd.nonneg hgood
  have hdemand := hadv.demand
  refine ⟨allocate terms d os, fills, visits_sorted incoming book, ?_, map_fst_allocate d os,
    hadv.entries, ?_, ?_, hfills.ids, ?_, ?_, fun f hf => (hadv.ok f hf).units_value.2.2, ?_, ?_,
    fun pre e post heq he e' he' => earlier_spent hvalid hd hgood heq he he', ?_, ?_⟩
  · exact fun level hlevel hp o ho => mem_visits_of_inside hlevel ho hp
  · exact hadv.matchList
  · intro f hf
    obtain ⟨hentry, hmem⟩ := hadv.mem_offers hf
    obtain ⟨hinside, queue, hqueue, hin⟩ := mem_visits (List.mem_of_mem_filter hmem)
    have hrest := (hbook.side _).resting _ _ hqueue _ hin
    obtain ⟨q, r, -, hq, hr, -, hrq, -⟩ := Fill.filledMaker_ok (hadv.ok f hf).rest
    refine ⟨hrest.price, hinside, by simpa using List.of_mem_filter hmem, ?_, ?_⟩
    · exact (pos_iff_units (hadv.ok f hf).quantity).mpr (hadv.ok f hf).pos
    · refine (le_iff_units hq hr).mpr ?_
      have := units_nonneg hrq
      omega
  · have htotal := hadv.totalAmount 0 units_zero
    rwa [zero_add] at htotal
  · have htotal := hadv.totalQuote 0 units_zero
    rwa [zero_add] at htotal
  · exact fun hnone => remaining_quantity hvalid hd hgood hadv hnone
  · intro b hb
    rw [Denotes, hb] at hd
    obtain ⟨x, hx, rfl⟩ := hd
    rw [residual_budget] at hdemand hleft
    obtain ⟨left, hleft'⟩ := Option.ne_none_iff_exists'.mp
      (hadv.budgetOrder (by rw [MatchPlan.start, hb]; simp)).2
    rw [Denotes, hleft'] at hdemand
    obtain ⟨y, hy, heq⟩ := hdemand
    rw [unitsOf_eq hx, hadv.sum_value]
    exact ⟨sub_nonneg.mp hleft, left, hleft', by rw [hy, ← Demand.budget.inj heq]; rfl⟩
  · exact fun hnone => maximal_quantity hd hgood hadv hnone
  · intro b hb
    obtain ⟨hmarket, hbuy⟩ := marketBuy_of_budget hvalid hb
    rw [Denotes, hb] at hd
    obtain ⟨x, hx, rfl⟩ := hd
    intro e he
    have hspent := spent_residual (units_nonneg hx) hgood he
    rw [residual_budget] at hspent
    right
    refine ⟨hmarket, hbuy, ?_⟩
    rw [unitsOf_eq hx]
    exact hspent

/-- Three levels of sells: two orders of others at one price, then one of user 2 in front of another,
and a level that is out of a limit of 2. -/
def bookOfSells : OrderBook :=
  let sell (id user : UInt64) (price amount : ℕ) : OrderEntry :=
    .limit id user false (.ofScaled price 0) (.ofScaled amount 0)
  ⟨⟨"BTC", "USDT"⟩, OrderBookSide.new,
    ⟨⟨[(.ofScaled 1 0, [sell 1 1 1 1, sell 2 3 1 1]), (.ofScaled 2 0, [sell 3 2 2 1, sell 4 1 2 2]),
      (.ofScaled 3 0, [sell 5 3 3 1])], by decide⟩, 5⟩⟩

theorem inv_bookOfSells : bookOfSells.Inv ⟨"BTC", "USDT"⟩ where
  tradingPair := rfl
  side := by
    rintro (_ | _)
    · refine OrderBookSide.inv_of_levels (fun e he => ?_) (by decide +kernel)
      have hlevels : ∀ e ∈ bookOfSells.sellOrders.orders.entries, e.2 ≠ [] ∧ ∀ o ∈ e.2,
          validate o false = .ok () ∧ o.orderSide = "limit" ∧ o.orderType = "sell" ∧
            SameOption o.price (some e.1) ∧ o.pair = ⟨"BTC", "USDT"⟩ := by decide +kernel
      obtain ⟨hne, horders⟩ := hlevels e he
      refine ⟨hne, fun o ho => ?_⟩
      obtain ⟨hvalid, hlimit, hside, hprice, hpair⟩ := horders o ho
      exact ⟨hvalid, hlimit, hside, hprice, hpair⟩
    · exact (OrderBook.inv_new _).side true
  ids := by decide +kernel

/-- User 2 buys 3.5 at 2: one and one at the first price, and one and a half of the second level,
behind its own order. -/
theorem planOrder_priceTimePriority_bookOfSells :
    ∃ plan, planOrder (.limit 6 2 true (.ofScaled 2 0) (.ofScaled 35 1)) bookOfSells = .ok plan ∧
      plan.matchList.map (fun trade => (trade.sellOrderId, units trade.price, units trade.amount)) =
        [(1, .ok 1000000000, .ok 1000000000), (2, .ok 1000000000, .ok 1000000000),
          (4, .ok 2000000000, .ok 1500000000)] ∧
      ∃ alloc fills, PriceTimePriority (.limit 6 2 true (.ofScaled 2 0) (.ofScaled 35 1)) bookOfSells
        plan alloc fills := by
  have hmatches : ((planOrder (.limit 6 2 true (.ofScaled 2 0) (.ofScaled 35 1)) bookOfSells).map
      fun plan => plan.matchList.map fun trade =>
        (trade.sellOrderId, units trade.price, units trade.amount)).toOption =
      some [(1, .ok 1000000000, .ok 1000000000), (2, .ok 1000000000, .ok 1000000000),
        (4, .ok 2000000000, .ok 1500000000)] := by decide +kernel
  cases hplan : planOrder (.limit 6 2 true (.ofScaled 2 0) (.ofScaled 35 1)) bookOfSells with
  | error e =>
    rw [hplan] at hmatches
    cases hmatches
  | ok plan =>
    rw [hplan] at hmatches
    exact ⟨plan, rfl, Option.some.inj hmatches, planOrder_priceTimePriority inv_bookOfSells hplan⟩

end CexEngine
