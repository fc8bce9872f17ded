import CexEngine.Engine.Resting

/-!
# What a plan contains

The abstract matcher is greedy allocation (`Foundation.Allocation`): the incoming
order is a demand, the makers of other users inside its limit are the offers, best
price first and in queue order, and each offer gives as much as the demand can
take.  This file shows that the two nested loops of the matcher compute that
allocation.

The loops are first flattened: `planLevels_eq` says they are one loop over the
makers inside the limit, whose early return only skips makers that an exhausted
order would take nothing from.  `Advance` then says everything a stretch of that
loop did, in terms of the list of its `Fill`s: which makers were filled and by how
much, the trades, the totals, the changed makers, and what is left of the incoming
order.  One round is `planMaker_advance`, composition is `Advance.trans`, and the
whole loop is `planVisits_advance`.
-/

namespace CexEngine

open Foundation Foundation.Allocation Amount

/-- A maker as the loops come to it: the price of its level, and the order. -/
abbrev Visit := Decimal × OrderEntry

/-- The offers of the allocation. -/
def terms : Terms Visit where
  F := FACTOR
  price v := unitsOf v.1
  size v := unitsOf v.2.remainingAmount
  F_pos := factor_pos

/-- The makers of other users. -/
def offers (userId : UInt64) (vs : List Visit) : List Visit :=
  vs.filter fun v => decide (v.2.userId ≠ userId)

/-- The demand an order stands for. -/
def Denotes (order : OrderEntry) (d : Demand) : Prop :=
  match order.remainingQuoteAmount with
  | some budget => ∃ x, units budget = .ok x ∧ d = .budget x
  | none => ∃ x, units order.remainingAmount = .ok x ∧ d = .quantity x

theorem Denotes.nonneg {order : OrderEntry} {d : Demand} (h : Denotes order d) : 0 ≤ d.amount := by
  unfold Denotes at h
  split at h
  all_goals
    obtain ⟨x, hx, rfl⟩ := h
    exact units_nonneg hx

theorem Denotes.exhausted_iff {plan : MatchPlan} {d : Demand} (h : Denotes plan.order d) :
    plan.exhausted = true ↔ d.amount = 0 := by
  unfold Denotes at h
  unfold MatchPlan.exhausted
  cases hb : plan.order.remainingQuoteAmount with
  | some budget =>
    rw [hb] at h
    obtain ⟨x, hx, rfl⟩ := h
    rw [decide_eq_true_iff]
    exact equiv_zero_iff_units hx
  | none =>
    rw [hb] at h
    obtain ⟨x, hx, rfl⟩ := h
    rw [decide_eq_true_iff]
    exact equiv_zero_iff_units hx

/-! ## Fills -/

/-- One fill: a maker, the quantity and its price, and the maker afterwards. -/
structure Fill where
  price : Decimal
  maker : OrderEntry
  quantity : Decimal
  value : Decimal
  rest : OrderEntry

namespace Fill

/-- The values of a fill belong together. -/
structure Ok (f : Fill) : Prop where
  value : quote f.price f.quantity = .ok f.value
  rest : MatchPlan.filledMaker f.maker f.quantity = .ok f.rest
  pos : 0 < unitsOf f.quantity

/-- A fill as an entry of the allocation. -/
def entry (f : Fill) : Visit × ℤ := ((f.price, f.maker), unitsOf f.quantity)

/-- The trade of a fill. -/
def trade (makerBuy : Bool) (order : OrderEntry) (f : Fill) : MatchResult :=
  MatchPlan.trade makerBuy order f.maker f.price f.quantity

variable {f : Fill}

theorem Ok.quantity (h : f.Ok) : units f.quantity = .ok (unitsOf f.quantity) := by
  obtain ⟨x, y, z, -, hy, -⟩ := quote_ok h.value
  rw [unitsOf_eq hy]
  exact hy

theorem Ok.units_value (h : f.Ok) :
    units f.price = .ok (unitsOf f.price) ∧ units f.value = .ok (unitsOf f.value) ∧
      unitsOf f.price * unitsOf f.quantity = unitsOf f.value * FACTOR := by
  obtain ⟨x, y, z, hx, hy, hz, hxyz⟩ := quote_ok h.value
  rw [unitsOf_eq hx, unitsOf_eq hy, unitsOf_eq hz]
  exact ⟨hx, hz, hxyz⟩

theorem Ok.value_eq (h : f.Ok) : terms.value (f.price, f.maker) (unitsOf f.quantity) = unitsOf f.value := by
  show unitsOf f.price * unitsOf f.quantity / FACTOR = unitsOf f.value
  rw [h.units_value.2.2, Int.mul_ediv_cancel _ factor_pos.ne']

/-- The maker after a fill, in units. -/
theorem filledMaker_ok {original maker : OrderEntry} {quantity : Decimal}
    (h : MatchPlan.filledMaker original quantity = .ok maker) :
    ∃ q r f, units quantity = .ok q ∧ units original.remainingAmount = .ok r ∧
      units original.filledAmount = .ok f ∧ units maker.remainingAmount = .ok (r - q) ∧
      units maker.filledAmount = .ok (f + q) ∧
      maker = { original with
        remainingAmount := maker.remainingAmount, filledAmount := maker.filledAmount } := by
  simp only [MatchPlan.filledMaker, bind_eq_ok, pure_eq_ok] at h
  obtain ⟨ra, hra, fa, hfa, rfl⟩ := h
  obtain ⟨r, q, hr, hq, hrq⟩ := subtract_ok hra
  obtain ⟨f, q', hf, hq', hfq⟩ := add_ok hfa
  obtain rfl : q = q' := Except.ok.inj (hq.symm.trans hq')
  exact ⟨q, r, f, hq, hr, hf, hrq, hfq, rfl⟩

theorem Ok.frame (h : f.Ok) : f.rest.frame = f.maker.frame := by
  obtain ⟨-, -, -, -, -, -, -, -, heq⟩ := filledMaker_ok h.rest
  rw [heq]
  rfl

theorem Ok.id (h : f.Ok) : f.rest.id = f.maker.id :=
  OrderEntry.congr_frame OrderEntry.id h.frame

end Fill

/-- Record a changed maker under its price. -/
def addMaker (makers : PriceMap (Finmap fun _ : UInt64 => OrderEntry)) (f : Fill) :
    PriceMap (Finmap fun _ : UInt64 => OrderEntry) :=
  makers.upsert f.price fun changed => (changed.getD ∅).insert f.rest.id f.rest

/-! ## Stretches of the loop -/

/-- **Everything a stretch of the loop did.**  It met the offers `os` with the
demand `d`, and made the fills `fills`. -/
structure Advance (plan : MatchPlan) (d : Demand) (os : List Visit) (fills : List Fill)
    (plan' : MatchPlan) : Prop where
  frame : plan'.order.frame = plan.order.frame
  makerBuy : plan'.makerBuy = plan.makerBuy
  demand : Denotes plan'.order (residual terms d os)
  entries : fills.map Fill.entry = (allocate terms d os).filter fun e => decide (e.2 ≠ 0)
  ok : ∀ f ∈ fills, f.Ok
  matchList : plan'.matchList = plan.matchList ++ fills.map (Fill.trade plan.makerBuy plan.order)
  makers : plan'.makers = fills.foldl addMaker plan.makers
  totalAmount : ∀ x, units plan.totalAmount = .ok x →
    units plan'.totalAmount = .ok (x + (fills.map fun f => unitsOf f.quantity).sum)
  totalQuote : ∀ x, units plan.totalQuote = .ok x →
    units plan'.totalQuote = .ok (x + (fills.map fun f => unitsOf f.value).sum)
  filled : ∀ x, units plan.order.filledAmount = .ok x →
    units plan'.order.filledAmount = .ok (x + (fills.map fun f => unitsOf f.quantity).sum)
  quantityOrder : plan.order.remainingQuoteAmount = none →
    plan'.order.amount = plan.order.amount ∧ plan'.order.remainingQuoteAmount = none
  budgetOrder : plan.order.remainingQuoteAmount ≠ none →
    plan'.order.remainingAmount = plan.order.remainingAmount ∧
      plan'.order.remainingQuoteAmount ≠ none

/-- A trade depends on the frames only. -/
theorem Fill.trade_congr {makerBuy : Bool} {o o' : OrderEntry} (h : o'.frame = o.frame) (f : Fill) :
    f.trade makerBuy o' = f.trade makerBuy o := by
  have htrade : ∀ o : OrderEntry, f.trade makerBuy o = f.trade makerBuy o.frame := by
    intro o
    cases makerBuy <;> rfl
  rw [htrade o', htrade o, h]

namespace Advance

/-- A stretch that fills nothing. -/
theorem refl {plan : MatchPlan} {d : Demand} {os : List Visit} (hd : Denotes plan.order d)
    (hres : residual terms d os = d)
    (hnone : (allocate terms d os).filter (fun e => decide (e.2 ≠ 0)) = []) :
    Advance plan d os [] plan where
  frame := rfl
  makerBuy := rfl
  demand := by rwa [hres]
  entries := hnone.symm
  ok := fun f hf => by cases hf
  matchList := (List.append_nil _).symm
  makers := rfl
  totalAmount := fun x hx => by rw [hx, List.map_nil, List.sum_nil, add_zero]
  totalQuote := fun x hx => by rw [hx, List.map_nil, List.sum_nil, add_zero]
  filled := fun x hx => by rw [hx, List.map_nil, List.sum_nil, add_zero]
  quantityOrder := fun h => ⟨rfl, h⟩
  budgetOrder := fun h => ⟨rfl, h⟩

/-- Two stretches in a row. -/
theorem trans {plan plan' plan'' : MatchPlan} {d : Demand} {os os' : List Visit}
    {fills fills' : List Fill} (h : Advance plan d os fills plan')
    (h' : Advance plan' (residual terms d os) os' fills' plan'') :
    Advance plan d (os ++ os') (fills ++ fills') plan'' where
  frame := h'.frame.trans h.frame
  makerBuy := h'.makerBuy.trans h.makerBuy
  demand := by
    rw [residual_append]
    exact h'.demand
  entries := by
    rw [allocate_append, List.filter_append, List.map_append, h.entries, h'.entries]
  ok := fun f hf => (List.mem_append.mp hf).elim (h.ok f) (h'.ok f)
  matchList := by
    rw [h'.matchList, h.matchList, h.makerBuy, List.map_append, List.append_assoc]
    congr 2
    exact List.map_congr_left fun f _ => Fill.trade_congr h.frame f
  makers := by rw [h'.makers, h.makers, List.foldl_append]
  totalAmount := fun x hx => by
    rw [h'.totalAmount _ (h.totalAmount x hx), List.map_append, List.sum_append, add_assoc]
  totalQuote := fun x hx => by
    rw [h'.totalQuote _ (h.totalQuote x hx), List.map_append, List.sum_append, add_assoc]
  filled := fun x hx => by
    rw [h'.filled _ (h.filled x hx), List.map_append, List.sum_append, add_assoc]
  quantityOrder := fun hq => by
    obtain ⟨ha, hq'⟩ := h.quantityOrder hq
    obtain ⟨ha', hq''⟩ := h'.quantityOrder hq'
    exact ⟨ha'.trans ha, hq''⟩
  budgetOrder := fun hq => by
    obtain ⟨ha, hq'⟩ := h.budgetOrder hq
    obtain ⟨ha', hq''⟩ := h'.budgetOrder hq'
    exact ⟨ha'.trans ha, hq''⟩

end Advance

/-! ## One round -/

/-- The incoming order after a fill. -/
theorem filledTaker_ok {order order' : OrderEntry} {quantity value : Decimal} {d : Demand}
    {q w : ℤ} (h : MatchPlan.filledTaker order quantity value = .ok order') (hd : Denotes order d)
    (hq : units quantity = .ok q) (hw : units value = .ok w) :
    order'.frame = order.frame ∧
      (∀ x, units order.filledAmount = .ok x → units order'.filledAmount = .ok (x + q)) ∧
      (order.remainingQuoteAmount = none →
        order'.amount = order.amount ∧ order'.remainingQuoteAmount = none) ∧
      (order.remainingQuoteAmount ≠ none →
        order'.remainingAmount = order.remainingAmount ∧ order'.remainingQuoteAmount ≠ none) ∧
      match d with
      | .quantity n => Denotes order' (.quantity (n - q))
      | .budget b => Denotes order' (.budget (b - w)) := by
  have hadd : ∀ {filled : Decimal}, add order.filledAmount quantity = .ok filled →
      ∀ x, units order.filledAmount = .ok x → units filled = .ok (x + q) := by
    intro filled hf x hx
    obtain ⟨x', q', hx', hq', hsum⟩ := add_ok hf
    obtain rfl : x = x' := Except.ok.inj (hx.symm.trans hx')
    obtain rfl : q = q' := Except.ok.inj (hq.symm.trans hq')
    exact hsum
  unfold Denotes at hd
  unfold MatchPlan.filledTaker at h
  cases hb : order.remainingQuoteAmount with
  | some budget =>
    rw [hb] at hd h
    obtain ⟨b, hub, rfl⟩ := hd
    simp only [bind_eq_ok, pure_eq_ok] at h
    obtain ⟨left, hleft, amount, hamount, _, rfl, filled, hfilled, rfl⟩ := h
    refine ⟨rfl, hadd hfilled, fun hnone => (by cases hnone), fun _ => ⟨rfl, by simp⟩, ?_⟩
    obtain ⟨b', w', hb', hw', hdiff⟩ := subtract_ok hleft
    obtain rfl : b = b' := Except.ok.inj (hub.symm.trans hb')
    obtain rfl : w = w' := Except.ok.inj (hw.symm.trans hw')
    exact ⟨b - w, hdiff, rfl⟩
  | none =>
    rw [hb] at hd h
    obtain ⟨n, hun, rfl⟩ := hd
    simp only [bind_eq_ok, pure_eq_ok] at h
    obtain ⟨left, hleft, _, rfl, filled, hfilled, rfl⟩ := h
    refine ⟨rfl, hadd hfilled, fun _ => ⟨rfl, rfl⟩, fun hne => absurd rfl hne, ?_⟩
    obtain ⟨n', q', hn', hq', hdiff⟩ := subtract_ok hleft
    obtain rfl : n = n' := Except.ok.inj (hun.symm.trans hn')
    obtain rfl : q = q' := Except.ok.inj (hq.symm.trans hq')
    exact ⟨n - q, hdiff, rfl⟩

/-- The quantity of a maker is what the demand takes of it. -/
theorem makerQuantity_ok {order original : OrderEntry} {price quantity : Decimal} {d : Demand}
    {r : ℤ} (h : MatchPlan.makerQuantity order price original = .ok quantity)
    (hd : Denotes order d) (hr : units original.remainingAmount = .ok r) :
    units quantity = .ok (d.take terms (price, original)) := by
  unfold Denotes at hd
  unfold MatchPlan.makerQuantity at h
  cases hb : order.remainingQuoteAmount with
  | some budget =>
    rw [hb] at hd h
    obtain ⟨b, hub, rfl⟩ := hd
    obtain ⟨b', p, r', hb', hp, hr', -, hq⟩ := quantityForBudget_ok h
    obtain rfl : b = b' := Except.ok.inj (hub.symm.trans hb')
    rw [hq]
    show _ = Except.ok (largest FACTOR b (unitsOf price) (unitsOf original.remainingAmount))
    rw [unitsOf_eq hp, unitsOf_eq hr']
  | none =>
    rw [hb] at hd h
    obtain ⟨n, hun, rfl⟩ := hd
    obtain rfl := pure_eq_ok.mp h
    rw [units_min hun hr]
    show _ = Except.ok (min n (unitsOf original.remainingAmount))
    rw [unitsOf_eq hr]

/-- A fill of one maker. -/
theorem fillMaker_advance {plan plan' : MatchPlan} {price quantity : Decimal}
    {original : OrderEntry} {d : Demand} (h : plan.fillMaker price original quantity = .ok plan')
    (hd : Denotes plan.order d) (hq : units quantity = .ok (d.take terms (price, original)))
    (hne : d.take terms (price, original) ≠ 0) :
    ∃ f, Advance plan d [(price, original)] [f] plan' := by
  simp only [MatchPlan.fillMaker, bind_eq_ok, pure_eq_ok, ensure_eq_ok, exists_const] at h
  obtain ⟨value, hvalue, rest, hrest, order, horder, ta, hta, tq, htq, -, rfl⟩ := h
  obtain ⟨-, -, w, -, -, hw, -⟩ := quote_ok hvalue
  obtain ⟨hframe, hfilled, hquantity, hbudget, hdemand⟩ := filledTaker_ok horder hd hq hw
  set f : Fill := ⟨price, original, quantity, value, rest⟩ with hf
  have hqf : unitsOf f.quantity = d.take terms (price, original) := unitsOf_eq hq
  have hpos : 0 < unitsOf f.quantity := by
    rw [hqf]
    exact lt_of_le_of_ne (units_nonneg hq) hne.symm
  have hok : f.Ok := ⟨hvalue, hrest, hpos⟩
  have hadd : ∀ {a b c : Decimal} {y : ℤ}, add a b = .ok c → units b = .ok y →
      ∀ x, units a = .ok x → units c = .ok (x + y) := by
    intro a b c y hab hy x hx
    obtain ⟨x', y', hx', hy', hsum⟩ := add_ok hab
    obtain rfl : x = x' := Except.ok.inj (hx.symm.trans hx')
    obtain rfl : y = y' := Except.ok.inj (hy.symm.trans hy')
    exact hsum
  refine ⟨f, hframe, rfl, ?_, ?_, ?_, ?_, rfl, ?_, ?_, ?_, hquantity, hbudget⟩
  · show Denotes order (d.left terms (price, original))
    cases d with
    | quantity n => exact hdemand
    | budget b =>
      have hv : terms.value (price, original) (Demand.take terms (.budget b) (price, original)) = w := by
        rw [← hqf]
        exact hok.value_eq.trans (unitsOf_eq hw)
      show Denotes order (.budget (b - terms.value (price, original)
        (Demand.take terms (.budget b) (price, original))))
      rw [hv]
      exact hdemand
  · show [f.entry] = [((price, original), d.take terms (price, original))].filter _
    rw [List.filter_cons, if_pos (decide_eq_true hne), List.filter_nil, Fill.entry, hqf]
  · intro g hg
    rw [List.mem_singleton.mp hg]
    exact hok
  · have htrade : MatchPlan.trade plan.makerBuy order rest price quantity =
        f.trade plan.makerBuy plan.order := by
      rw [← Fill.trade_congr hframe f]
      obtain ⟨-, -, -, -, -, -, -, -, heq⟩ := Fill.filledMaker_ok hrest
      rw [heq]
      cases plan.makerBuy <;> rfl
    show plan.matchList ++ [_] = plan.matchList ++ [_]
    rw [htrade]
  · intro x hx
    rw [List.map_singleton, List.sum_singleton, hqf]
    exact hadd hta hq x hx
  · intro x hx
    rw [List.map_singleton, List.sum_singleton]
    exact hadd htq (by rw [unitsOf_eq hw]; exact hw) x hx
  · intro x hx
    rw [List.map_singleton, List.sum_singleton, hqf]
    exact hfilled x hx

/-- **One round of the inner loop.** -/
theorem planMaker_advance {plan plan' : MatchPlan} {v : Visit} {d : Demand}
    (h : plan.planMaker v.1 v.2 = .ok plan') (hd : Denotes plan.order d) :
    ∃ fills, Advance plan d (offers plan.order.userId [v]) fills plan' := by
  simp only [MatchPlan.planMaker, bind_eq_ok, ensure_eq_ok, exists_const] at h
  obtain ⟨_, hvalid, ⟨-, hside, -⟩, -, h⟩ := h
  obtain ⟨-, -, p, a, f, r, hlimit⟩ := (validate_limit_iff hside).mp hvalid
  by_cases hself : v.2.userId = plan.order.userId
  · rw [if_pos hself] at h
    obtain rfl := pure_eq_ok.mp h
    have hnone : offers plan.order.userId [v] = [] := by
      rw [offers, List.filter_cons, if_neg (by simpa using hself), List.filter_nil]
    rw [hnone]
    exact ⟨[], Advance.refl hd rfl rfl⟩
  · rw [if_neg hself] at h
    obtain ⟨quantity, hquantity, h⟩ := bind_eq_ok.mp h
    have hsome : offers plan.order.userId [v] = [v] := by
      rw [offers, List.filter_cons, if_pos (by simpa using hself), List.filter_nil]
    have hq := makerQuantity_ok hquantity hd hlimit.remaining
    rw [hsome]
    by_cases hzero : quantity ≈ 0
    · rw [if_pos hzero] at h
      obtain rfl := pure_eq_ok.mp h
      have htake : d.take terms v = 0 := (equiv_zero_iff_units hq).mp hzero
      refine ⟨[], Advance.refl hd (Demand.left_of_take_eq_zero htake) ?_⟩
      rw [allocate, allocate, htake]
      rfl
    · rw [if_neg hzero] at h
      have htake : d.take terms v ≠ 0 := fun h0 => hzero ((equiv_zero_iff_units hq).mpr h0)
      obtain ⟨fill, hfill⟩ := fillMaker_advance h hd hq htake
      exact ⟨[fill], hfill⟩

/-- A limit order at the price of its level is an offer one can buy from. -/
theorem good_of_limit {v : Visit} {p a f r : ℤ} (hl : v.2.Limit p a f r)
    (hlevel : SameOption v.2.price (some v.1)) : terms.Good v := by
  obtain ⟨d, hd, hp, -⟩ := hl.price
  have hprice : units v.1 = .ok p := by
    rw [hd] at hlevel
    exact (units_congr (Option.some.inj hlevel)).mp hp
  constructor
  · show 0 < unitsOf v.1
    rw [unitsOf_eq hprice]
    exact hl.price_pos
  · show 0 ≤ unitsOf v.2.remainingAmount
    rw [unitsOf_eq hl.remaining]
    exact hl.remaining_pos.le

/-- A maker that passed the checks of a round. -/
theorem planMaker_good {plan plan' : MatchPlan} {v : Visit}
    (h : plan.planMaker v.1 v.2 = .ok plan') : terms.Good v := by
  simp only [MatchPlan.planMaker, bind_eq_ok, ensure_eq_ok, exists_const] at h
  obtain ⟨_, hvalid, ⟨hlevel, hside, -⟩, -⟩ := h
  obtain ⟨-, -, p, a, f, r, hl⟩ := (validate_limit_iff hside).mp hvalid
  exact good_of_limit hl hlevel

/-! ## The whole loop -/

namespace MatchPlan

/-- The two loops as one, over the makers they come to. -/
def planVisits : MatchPlan → List Visit → Except Fault MatchPlan
  | plan, [] => pure plan
  | plan, v :: vs =>
    if plan.exhausted then pure plan
    else do
      let plan ← plan.planMaker v.1 v.2
      planVisits plan vs

/-- The makers inside the limit: the levels before the first price outside it, and
in each the queue in order. -/
def inside (outside : Decimal → Bool) (levels : List (Decimal × List OrderEntry)) : List Visit :=
  (levels.takeWhile fun level => !outside level.1).flatMap fun level =>
    level.2.map fun o => (level.1, o)

theorem planVisits_of_exhausted {plan : MatchPlan} (h : plan.exhausted = true) (vs : List Visit) :
    plan.planVisits vs = pure plan := by
  cases vs with
  | nil => rfl
  | cons v vs => rw [planVisits, if_pos h]

theorem planVisits_append (plan : MatchPlan) (vs ws : List Visit) :
    plan.planVisits (vs ++ ws) = plan.planVisits vs >>= fun plan => plan.planVisits ws := by
  induction vs generalizing plan with
  | nil => rfl
  | cons v vs ih =>
    rw [List.cons_append, planVisits, planVisits]
    by_cases h : plan.exhausted = true
    · rw [if_pos h, if_pos h, pure_bind, planVisits_of_exhausted h]
    · rw [if_neg h, if_neg h, bind_assoc]
      exact bind_congr fun plan => ih plan

/-- The inner loop, followed by more of the outer one. -/
theorem planQueue_bind (price : Decimal) (plan : MatchPlan) (queue : List OrderEntry)
    (k : MatchPlan → Except Fault MatchPlan) (hk : ∀ p, p.exhausted = true → k p = pure p) :
    (planQueue price plan queue >>= fun r => if r.2 = true then pure r.1 else k r.1) =
      plan.planVisits (queue.map fun o => (price, o)) >>= k := by
  induction queue generalizing plan with
  | nil => rfl
  | cons o queue ih =>
    rw [planQueue, List.map_cons, planVisits]
    by_cases h : plan.exhausted = true
    · rw [if_pos h, if_pos h, pure_bind, pure_bind, hk plan h]
      rfl
    · rw [if_neg h, if_neg h, bind_assoc, bind_assoc]
      exact bind_congr fun plan => ih plan

theorem planLevels_of_exhausted {plan : MatchPlan} (h : plan.exhausted = true)
    (levels : List (Decimal × List OrderEntry)) : plan.planLevels levels = pure plan := by
  induction levels with
  | nil => rfl
  | cons level levels ih =>
    obtain ⟨price, queue⟩ := level
    rw [planLevels]
    split
    · rfl
    · cases queue with
      | nil => exact ih
      | cons o queue =>
        rw [planQueue, if_pos h]
        rfl

theorem outsideLimit_congr {plan plan' : MatchPlan} (hframe : plan'.order.frame = plan.order.frame)
    (hbuy : plan'.makerBuy = plan.makerBuy) (price : Decimal) :
    plan'.outsideLimit price = plan.outsideLimit price := by
  unfold outsideLimit
  rw [OrderEntry.congr_frame OrderEntry.price hframe, hbuy]

/-- The loop keeps what identifies the incoming order. -/
theorem planVisits_frame {vs : List Visit} {plan plan' : MatchPlan} {d : Demand}
    (h : plan.planVisits vs = .ok plan') (hd : Denotes plan.order d) :
    plan'.order.frame = plan.order.frame ∧ plan'.makerBuy = plan.makerBuy ∧
      ∃ d', Denotes plan'.order d' := by
  induction vs generalizing plan d with
  | nil =>
    obtain rfl := pure_eq_ok.mp h
    exact ⟨rfl, rfl, d, hd⟩
  | cons v vs ih =>
    rw [planVisits] at h
    by_cases he : plan.exhausted = true
    · rw [if_pos he] at h
      obtain rfl := pure_eq_ok.mp h
      exact ⟨rfl, rfl, d, hd⟩
    · rw [if_neg he] at h
      obtain ⟨mid, hmid, hrest⟩ := bind_eq_ok.mp h
      obtain ⟨fills, hadv⟩ := planMaker_advance hmid hd
      obtain ⟨hframe, hbuy, hd'⟩ := ih hrest hadv.demand
      exact ⟨hframe.trans hadv.frame, hbuy.trans hadv.makerBuy, hd'⟩

/-- **The two loops are one loop over the makers inside the limit.** -/
theorem planLevels_eq {out : Decimal → Bool} {levels : List (Decimal × List OrderEntry)}
    {plan : MatchPlan} {d : Demand} (hd : Denotes plan.order d)
    (hout : ∀ price, plan.outsideLimit price = out price) :
    plan.planLevels levels = plan.planVisits (inside out levels) := by
  induction levels generalizing plan d with
  | nil => rfl
  | cons level levels ih =>
    obtain ⟨price, queue⟩ := level
    rw [planLevels, hout]
    cases hprice : out price with
    | true =>
      have hnil : inside out ((price, queue) :: levels) = [] := by
        rw [inside, List.takeWhile_cons, hprice]
        rfl
      rw [if_pos rfl, hnil]
      rfl
    | false =>
      have hcons : inside out ((price, queue) :: levels) =
          (queue.map fun o => (price, o)) ++ inside out levels := by
        rw [inside, List.takeWhile_cons, hprice]
        rfl
      rw [if_neg Bool.false_ne_true, hcons, planVisits_append]
      refine (planQueue_bind price plan queue (fun p => p.planLevels levels)
        fun p hp => planLevels_of_exhausted hp levels).trans ?_
      refine bind_congr_ok fun p hp => ?_
      obtain ⟨hframe, hbuy, d', hd'⟩ := planVisits_frame hp hd
      exact ih hd' fun price => (outsideLimit_congr hframe hbuy price).trans (hout price)

/-- **The loop is greedy allocation.** -/
theorem planVisits_advance {vs : List Visit} {plan plan' : MatchPlan} {d : Demand}
    (h : plan.planVisits vs = .ok plan') (hd : Denotes plan.order d)
    (hgood : ∀ v ∈ vs, terms.Good v) :
    ∃ fills, Advance plan d (offers plan.order.userId vs) fills plan' := by
  induction vs generalizing plan d with
  | nil =>
    obtain rfl := pure_eq_ok.mp h
    exact ⟨[], Advance.refl hd rfl rfl⟩
  | cons v vs ih =>
    rw [planVisits] at h
    by_cases he : plan.exhausted = true
    · rw [if_pos he] at h
      obtain rfl := pure_eq_ok.mp h
      -- nothing more can be taken, whatever is left to visit
      have hoffers : ∀ o ∈ offers plan.order.userId (v :: vs), terms.Good o := fun o ho =>
        hgood o (List.mem_of_mem_filter ho)
      obtain ⟨hall, hres⟩ := allocate_of_amount_eq_zero (hd.exhausted_iff.mp he) hoffers
      refine ⟨[], Advance.refl hd hres ?_⟩
      rw [hall, List.filter_map, List.map_eq_nil_iff, List.filter_eq_nil_iff]
      intro o _
      simp
    · rw [if_neg he] at h
      obtain ⟨mid, hmid, hrest⟩ := bind_eq_ok.mp h
      obtain ⟨fills, hadv⟩ := planMaker_advance hmid hd
      obtain ⟨fills', hadv'⟩ := ih hrest hadv.demand fun v' hv' => hgood v' (List.mem_cons_of_mem _ hv')
      rw [OrderEntry.congr_frame OrderEntry.userId hadv.frame] at hadv'
      have hsplit : offers plan.order.userId (v :: vs) =
          offers plan.order.userId [v] ++ offers plan.order.userId vs := by
        rw [offers, offers, offers, ← List.filter_append, List.singleton_append]
      rw [hsplit]
      exact ⟨fills ++ fills', hadv.trans hadv'⟩

/-- What the loop checked of a maker it took from. -/
structure Checked (userId : UInt64) (v : Visit) : Prop where
  good : terms.Good v
  other : v.2.userId ≠ userId

/-- **The loop on any list of makers**, valid or not: it is the allocation over the
makers it came to, which it checked. -/
theorem planVisits_checked {vs : List Visit} {plan plan' : MatchPlan} {d : Demand}
    (h : plan.planVisits vs = .ok plan') (hd : Denotes plan.order d) :
    ∃ os fills, Advance plan d os fills plan' ∧
      ∀ v ∈ os, v ∈ vs ∧ Checked plan.order.userId v := by
  induction vs generalizing plan d with
  | nil =>
    obtain rfl := pure_eq_ok.mp h
    exact ⟨[], [], Advance.refl hd rfl rfl, fun v hv => by cases hv⟩
  | cons v vs ih =>
    rw [planVisits] at h
    by_cases he : plan.exhausted = true
    · rw [if_pos he] at h
      obtain rfl := pure_eq_ok.mp h
      exact ⟨[], [], Advance.refl hd rfl rfl, fun v hv => by cases hv⟩
    · rw [if_neg he] at h
      obtain ⟨mid, hmid, hrest⟩ := bind_eq_ok.mp h
      obtain ⟨fills, hadv⟩ := planMaker_advance hmid hd
      obtain ⟨os, fills', hadv', hchecked⟩ := ih hrest hadv.demand
      refine ⟨_, _, hadv.trans hadv', fun w hw => ?_⟩
      rcases List.mem_append.mp hw with hw | hw
      · obtain ⟨hw, hother⟩ := List.mem_filter.mp hw
        obtain rfl := List.mem_singleton.mp hw
        exact ⟨List.mem_cons_self .., planMaker_good hmid, of_decide_eq_true hother⟩
      · obtain ⟨hmem, hgood, hother⟩ := hchecked w hw
        rw [OrderEntry.congr_frame OrderEntry.userId hadv.frame] at hother
        exact ⟨List.mem_cons_of_mem _ hmem, hgood, hother⟩

end MatchPlan

/-! ## The plan of an incoming order -/

/-- The makers an incoming order comes to, best price first. -/
def visits (incoming : OrderEntry) (book : OrderBook) : List Visit :=
  MatchPlan.inside (MatchPlan.start incoming).outsideLimit (opposite incoming book)

/-- A fresh order is a demand. -/
theorem exists_denotes {incoming : OrderEntry} (h : validate incoming true = .ok ()) :
    ∃ d, Denotes incoming d := by
  obtain ⟨hshape, -⟩ := validate_ok h
  by_cases hside : incoming.orderSide = "limit"
  · obtain ⟨-, -, p, a, f, r, hl⟩ := (validate_limit_iff hside).mp h
    refine ⟨.quantity r, ?_⟩
    rw [Denotes, hl.noBudget.2]
    exact ⟨r, hl.remaining, rfl⟩
  · have hmarket := hshape.kind.2.resolve_left hside
    by_cases hbuy : incoming.orderType = "buy"
    · obtain ⟨b, hb⟩ := validate_marketBuy hmarket hbuy h
      obtain ⟨q, hq, hu⟩ := hb.remaining
      refine ⟨.budget b, ?_⟩
      rw [Denotes, hq]
      exact ⟨b, hu, rfl⟩
    · obtain ⟨a, f, r, hs⟩ := validate_marketSell hmarket hbuy h
      refine ⟨.quantity r, ?_⟩
      rw [Denotes, hs.noBudget.2]
      exact ⟨r, hs.remaining, rfl⟩

/-- A level of the side an incoming order is matched with. -/
theorem mem_opposite {incoming : OrderEntry} {book : OrderBook} {level : Decimal × List OrderEntry}
    (h : level ∈ opposite incoming book) :
    level ∈ (book.side (MatchPlan.start incoming).makerBuy).orders.entries := by
  unfold opposite at h
  by_cases hs : incoming.orderType = "sell"
  · rw [if_pos hs, List.mem_reverse] at h
    simpa [MatchPlan.start, OrderBook.side, hs] using h
  · rw [if_neg hs] at h
    simpa [MatchPlan.start, OrderBook.side, hs] using h

/-- A maker an order comes to rests on the other side, at a price inside the
limit. -/
theorem mem_visits {incoming : OrderEntry} {book : OrderBook} {v : Visit}
    (h : v ∈ visits incoming book) :
    (MatchPlan.start incoming).outsideLimit v.1 = false ∧
      ∃ queue, (book.side (MatchPlan.start incoming).makerBuy).orders.find? v.1 = some queue ∧
        v.2 ∈ queue := by
  obtain ⟨level, hlevel, hv⟩ := List.mem_flatMap.mp h
  obtain ⟨o, ho, rfl⟩ := List.mem_map.mp hv
  refine ⟨?_, level.2, ?_, ho⟩
  · simpa using List.mem_takeWhile_imp hlevel
  · exact SortedMap.find?_of_mem (mem_opposite ((List.takeWhile_sublist _).subset hlevel))

/-- In a book with the invariant every maker is an offer one can buy from. -/
theorem good_of_mem_visits {incoming : OrderEntry} {book : OrderBook} {pair : TradingPair}
    (hbook : book.Inv pair) {v : Visit} (h : v ∈ visits incoming book) : terms.Good v := by
  obtain ⟨-, queue, hqueue, hv⟩ := mem_visits h
  have hrest := (hbook.side _).resting _ _ hqueue _ hv
  obtain ⟨-, -, p, a, f, r, hl⟩ := (validate_limit_iff hrest.limit).mp hrest.valid
  exact good_of_limit hl hrest.price

/-- **The plan of an incoming order.** -/
theorem planOrder_advance {incoming : OrderEntry} {book : OrderBook} {pair : TradingPair}
    {plan : MatchPlan} (hbook : book.Inv pair) (h : planOrder incoming book = .ok plan) :
    validate incoming true = .ok () ∧ ∃ d fills, Denotes incoming d ∧
      Advance (MatchPlan.start incoming) d (offers incoming.userId (visits incoming book)) fills
        plan := by
  obtain ⟨u, hvalid, h⟩ := bind_eq_ok.mp h
  obtain ⟨d, hd⟩ := exists_denotes hvalid
  have hd' : Denotes (MatchPlan.start incoming).order d := hd
  rw [MatchPlan.planLevels_eq hd' fun _ => rfl] at h
  obtain ⟨fills, hadv⟩ := MatchPlan.planVisits_advance h hd' fun v hv => good_of_mem_visits hbook hv
  exact ⟨hvalid, d, fills, hd, hadv⟩

/-- **The plan of an incoming order, on any book.**  The offers are makers inside the
limit that passed the checks. -/
theorem planOrder_checked {incoming : OrderEntry} {book : OrderBook} {plan : MatchPlan}
    (h : planOrder incoming book = .ok plan) :
    validate incoming true = .ok () ∧ ∃ d os fills, Denotes incoming d ∧
      Advance (MatchPlan.start incoming) d os fills plan ∧
      ∀ v ∈ os, v ∈ visits incoming book ∧ MatchPlan.Checked incoming.userId v := by
  obtain ⟨u, hvalid, h⟩ := bind_eq_ok.mp h
  obtain ⟨d, hd⟩ := exists_denotes hvalid
  have hd' : Denotes (MatchPlan.start incoming).order d := hd
  rw [MatchPlan.planLevels_eq hd' fun _ => rfl] at h
  obtain ⟨os, fills, hadv, hchecked⟩ := MatchPlan.planVisits_checked h hd'
  exact ⟨hvalid, d, os, fills, hd, hadv, hchecked⟩

end CexEngine
