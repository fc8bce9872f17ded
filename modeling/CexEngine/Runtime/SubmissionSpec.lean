import CexEngine.Engine.Priority
import CexEngine.Runtime.Settlement

/-!
# What one submission does

`Submission.apply` computes everything on the side and writes the book and the
cache at the end.  `Applied` says what a finished call did: the plan with its
fills, the book after the commit, and the movement of the balances, which is the
reservation of the whole order, the trades, and the refund of what the remainder
does not need.

`apply_ok` reads a finished call as an `Applied`, and `apply_noPanic` says that on
a book with the invariant the call finishes or returns an error.
-/

namespace CexEngine

open Foundation Foundation.FiniteMap Foundation.Allocation Amount

namespace Submission

/-! ## The incoming order -/

/-- What an order uses of its reservation: the price of its fills, or their
quantity. -/
def used (order : OrderEntry) (fills : List Fill) : ℤ :=
  if order.orderType = "buy" then (fills.map fun f => unitsOf f.value).sum
  else (fills.map fun f => unitsOf f.quantity).sum

/-- **What a finished submission did.** -/
structure Applied (books : Books) (cache : BalanceCache) (order : OrderEntry)
    (applied : AppliedSubmission) (books' : Books) (cache' : BalanceCache) (book' : OrderBook)
    (plan : MatchPlan) (d : Demand) (fills : List Fill) (δ : Ledger)
    (reserved remaining refund : ℤ) : Prop where
  valid : validate order true = .ok ()
  denotes : Denotes order d
  advance : Advance (MatchPlan.start order) d
    (offers order.userId (visits order (bookOf books order))) fills plan
  commit : plan.commitBook (bookOf books order) = .ok book'
  books_eq : books' = books.insert order.pair book'
  settles : Settles plan.matchList δ
  moves : ∃ touched, BalanceCache.Moves cache cache'
    (BalanceCache.reservation (order.userId, refundMint order) true reserved + δ +
      BalanceCache.reservation (order.userId, refundMint order) false refund) touched
  reserved_eq : ∃ x, reservedAmount order = .ok x ∧ units x = .ok reserved
  remaining_eq : ∃ x, remainingReserve order plan.order.remainingAmount = .ok x ∧
    units x = .ok remaining
  refund_eq : reserved - used order fills - remaining = refund
  refund_nonneg : 0 ≤ refund
  orderId : applied.orderId = order.id
  matchList : applied.matchList = plan.matchList
  planned : planOrder order (bookOf books order) = .ok plan

/-- Unlocking nothing is no movement. -/
theorem reservation_zero (account : Account) (lock : Bool) :
    BalanceCache.reservation account lock 0 = 0 := by
  rw [BalanceCache.reservation]
  cases lock <;> simp

/-- The read-only part: the plan, and the working copy as a movement of the cache. -/
theorem prepare_ok {books : Books} {executor : Executor} {order : OrderEntry} {plan : MatchPlan}
    {prepared : BalanceCache} {completion : Option MarketCompletion}
    (h : prepare order books executor = .ok (plan, prepared, completion)) :
    planOrder order (bookOf books order) = .ok plan ∧
      ∃ δ x reserved y remaining z refund,
        Settles plan.matchList δ ∧
        reservedAmount order = .ok x ∧ units x = .ok reserved ∧
        remainingReserve order plan.order.remainingAmount = .ok y ∧ units y = .ok remaining ∧
        units (if order.orderType = "buy" then plan.totalQuote else plan.totalAmount) = .ok z ∧
        reserved - z - remaining = refund ∧ 0 ≤ refund ∧
        (∃ w, units w = .ok refund ∧ completion = marketCompletion order plan x w) ∧
        ∃ touched, BalanceCache.Moves executor.balanceCache
          (executor.balanceCache.commitPrepared prepared)
          (BalanceCache.reservation (order.userId, refundMint order) true reserved + δ +
            BalanceCache.reservation (order.userId, refundMint order) false refund) touched := by
  simp only [prepare, bind_eq_ok] at h
  obtain ⟨plan', hplan, x, hx, locked, hlocked, settled, hsettled, y, hy, net, hnet, refund,
    hrefund, h⟩ := h
  obtain ⟨u, hlock⟩ := Mut.exec_eq_ok_iff.mp hlocked
  obtain ⟨reserved, hux, -, hmove⟩ := BalanceCache.changeReservation_moves hlock
  obtain ⟨δ, touched, hδ, hmoves, htouched⟩ := settleAll_moves hsettled
  obtain ⟨r', z, hr', hz, hrz⟩ := subtract_ok hnet
  obtain rfl : reserved = r' := Except.ok.inj (hux.symm.trans hr')
  obtain ⟨n', remaining, hn', hrem, hnr⟩ := subtract_ok hrefund
  obtain rfl : reserved - z = n' := Except.ok.inj (hrz.symm.trans hn')
  have hnn := units_nonneg hnr
  have hboth := hmove.trans hmoves
  by_cases hpos : 0 < refund
  · rw [if_pos hpos] at h
    simp only [bind_eq_ok, pure_eq_ok, Prod.mk.injEq] at h
    obtain ⟨final, hfinal, rfl, rfl, hcompletion⟩ := h
    obtain ⟨u, hunlock⟩ := Mut.exec_eq_ok_iff.mp hfinal
    obtain ⟨v, hv, -, hmove'⟩ := BalanceCache.changeReservation_moves hunlock
    obtain rfl : reserved - z - remaining = v := Except.ok.inj (hnr.symm.trans hv)
    refine ⟨hplan, δ, x, reserved, y, remaining, z, _, hδ, hx, hux, hy, hrem, hz, rfl, hnn,
      ⟨refund, hnr, hcompletion.symm⟩, _,
      commitPrepared_moves (hboth.trans hmove') fun k hk => ?_⟩
    rcases List.mem_append.mp hk with hk | hk
    · rcases List.mem_append.mp hk with hk | hk
      · rw [List.mem_singleton.mp hk]
        exact List.mem_cons_self ..
      · exact List.mem_cons_of_mem _ (htouched k hk)
    · rw [List.mem_singleton.mp hk]
      exact List.mem_cons_self ..
  · rw [if_neg hpos] at h
    simp only [pure_bind, pure_eq_ok, Prod.mk.injEq] at h
    obtain ⟨rfl, rfl, hcompletion⟩ := h
    have hzero : reserved - z - remaining = 0 :=
      le_antisymm (not_lt.mp fun h0 => hpos ((pos_iff_units hnr).mpr h0)) hnn
    refine ⟨hplan, δ, x, reserved, y, remaining, z, _, hδ, hx, hux, hy, hrem, hz, rfl, hnn,
      ⟨refund, hnr, hcompletion.symm⟩, ?_⟩
    rw [hzero, reservation_zero, add_zero]
    refine ⟨_, commitPrepared_moves hboth fun k hk => ?_⟩
    rcases List.mem_append.mp hk with hk | hk
    · rw [List.mem_singleton.mp hk]
      exact List.mem_cons_self ..
    · exact List.mem_cons_of_mem _ (htouched k hk)

/-- What a finished submission wrote. -/
theorem apply_prepared {books books' : Books} {executor executor' : Executor} {order : OrderEntry}
    {applied : AppliedSubmission}
    (h : (apply order).run (books, executor) = (.ok applied, (books', executor'))) :
    ∃ plan prepared completion book', prepare order books executor = .ok (plan, prepared, completion) ∧
      plan.commitBook (bookOf books order) = .ok book' ∧
      applied = ⟨plan.order.id, plan.matchList, completion⟩ ∧
      books' = books.insert order.pair book' ∧
      executor' = ⟨executor.balanceCache.commitPrepared prepared⟩ := by
  simp only [apply, Mut.run_bind_ok_iff] at h
  obtain ⟨_, _, hget, ⟨plan, prepared, completion⟩, _, hprep, book', _, hcommit, _, _, hset, h⟩ := h
  cases hget
  rw [Mut.run_lift, Prod.mk.injEq] at hprep hcommit
  obtain ⟨hprep, rfl⟩ := hprep
  obtain ⟨hcommit, rfl⟩ := hcommit
  cases hset
  cases h
  exact ⟨plan, prepared, completion, book', hprep, hcommit, rfl, rfl, rfl⟩

/-- **A finished submission.** -/
theorem apply_ok {books books' : Books} {executor executor' : Executor} {order : OrderEntry}
    {applied : AppliedSubmission} (hbook : (bookOf books order).Inv order.pair)
    (h : (apply order).run (books, executor) = (.ok applied, (books', executor'))) :
    ∃ book' plan d fills δ reserved remaining refund,
      Applied books executor.balanceCache order applied books' executor'.balanceCache book' plan d
        fills δ reserved remaining refund := by
  obtain ⟨plan, prepared, completion, book', hprep, hcommit, rfl, rfl, rfl⟩ := apply_prepared h
  obtain ⟨hplan, δ, x, reserved, y, remaining, z, refund, hδ, hx, hux, hy, huy, hz, hrefund, hnn,
    -, hmoves⟩ := prepare_ok hprep
  obtain ⟨hvalid, d, fills, hd, hadv⟩ := planOrder_advance hbook hplan
  have hused : z = used order fills := by
    unfold used
    by_cases hbuy : order.orderType = "buy"
    · rw [if_pos hbuy] at hz ⊢
      have htotal := hadv.totalQuote 0 units_zero
      rw [zero_add] at htotal
      exact Except.ok.inj (hz.symm.trans htotal)
    · rw [if_neg hbuy] at hz ⊢
      have htotal := hadv.totalAmount 0 units_zero
      rw [zero_add] at htotal
      exact Except.ok.inj (hz.symm.trans htotal)
  refine ⟨book', plan, d, fills, δ, reserved, remaining, refund, hvalid, hd, hadv, hcommit, rfl, hδ,
    hmoves, ⟨x, hx, hux⟩, ⟨y, hy, huy⟩, ?_, hnn, ?_, rfl, hplan⟩
  · rw [← hused]
    exact hrefund
  · exact OrderEntry.congr_frame OrderEntry.id hadv.frame

/-! ## The remainder -/

/-- The remainder of a limit order may rest in the book. -/
theorem remainder_resting {order : OrderEntry} {d : Demand} {os : List Visit} {fills : List Fill}
    {plan : MatchPlan} (hvalid : validate order true = .ok ()) (hd : Denotes order d)
    (hadv : Advance (MatchPlan.start order) d os fills plan)
    (hside : plan.order.orderSide = "limit") (hpos : 0 < plan.order.remainingAmount) :
    ∃ p, plan.order.price = some p ∧ Resting order.pair (!plan.makerBuy) p plan.order := by
  have hframe : plan.order.frame = order.frame := hadv.frame
  have hside' : order.orderSide = "limit" :=
    (OrderEntry.congr_frame OrderEntry.orderSide hframe).symm.trans hside
  obtain ⟨hshape, hfresh, p, a, f, r, hl⟩ := (validate_limit_iff hside').mp hvalid
  obtain ⟨hamount, hbudget⟩ := hadv.quantityOrder hl.noBudget.2
  have hprice : plan.order.price = order.price := OrderEntry.congr_frame OrderEntry.price hframe
  rw [Denotes, hl.noBudget.2] at hd
  obtain ⟨n, hn, rfl⟩ := hd
  obtain rfl : r = n := Except.ok.inj (hl.remaining.symm.trans hn)
  have hdemand := hadv.demand
  rw [residual_quantity, Denotes, hbudget] at hdemand
  obtain ⟨m, hm, heq⟩ := hdemand
  have hm' : m = r - (fills.map fun f => unitsOf f.quantity).sum := by
    rw [hadv.sum_quantity]
    exact (Demand.quantity.inj heq).symm
  have hlimit : plan.order.Limit p a (f + (fills.map fun f => unitsOf f.quantity).sum) m := by
    refine ⟨?_, hl.price_pos, ?_, hadv.filled f hl.filled, hm, (pos_iff_units hm).mp hpos, ?_, ?_,
      hbudget⟩
    · rw [hprice, hamount]
      exact hl.price
    · rw [hamount]
      exact hl.amount
    · rw [hm', ← hl.balance]
      ring
    · exact (OrderEntry.congr_frame OrderEntry.quoteAmount hframe).trans hl.noBudget.1
  obtain ⟨level, hlevel, -⟩ := hl.price
  refine ⟨level, hprice.trans hlevel, ?_, hside, ?_, ?_, OrderEntry.congr_frame OrderEntry.pair hframe⟩
  · exact (validate_limit_iff hside).mpr ⟨hshape.of_frame hframe, fun h => (by cases h), p, a, _, m,
      hlimit⟩
  · rw [OrderEntry.congr_frame OrderEntry.orderType hframe, hadv.makerBuy]
    show order.orderType = if (!decide (order.orderType = "sell")) = true then "buy" else "sell"
    rcases hshape.kind.1 with h | h <;> rw [h] <;> decide
  · rw [hprice, hlevel]
    rfl

/-- **The book after a submission.** -/
theorem Applied.committed {books books' : Books} {cache cache' : BalanceCache} {order : OrderEntry}
    {applied : AppliedSubmission} {book' : OrderBook} {plan : MatchPlan} {d : Demand}
    {fills : List Fill} {δ : Ledger} {reserved remaining refund : ℤ}
    (h : Applied books cache order applied books' cache' book' plan d fills δ reserved remaining
      refund)
    (hbook : (bookOf books order).Inv order.pair)
    (hfresh : ∀ o ∈ (bookOf books order).flat, o.id ≠ order.id) :
    book'.Inv order.pair ∧
      Committed (bookOf books order) book' plan.makerBuy fills plan.remainder := by
  have hid : plan.order.id = order.id := OrderEntry.congr_frame OrderEntry.id h.advance.frame
  obtain ⟨book'', hcommit, hinv, hcommitted⟩ := commitBook_ok hbook (h.advance.fillsOf hbook)
    h.advance.makers (remainder_resting h.valid h.denotes h.advance) (by rw [hid]; exact hfresh)
  obtain rfl : book' = book'' := Except.ok.inj (h.commit.symm.trans hcommit)
  exact ⟨hinv, hcommitted⟩

end Submission

/-! ## Submissions do not panic -/

theorem noPanic_validate (o : OrderEntry) (incoming : Bool) : NoPanic (validate o incoming) := by
  refine (noPanic_fee _ _).bind fun _ _ => noPanic_ensure.bind fun _ _ => noPanic_ensure.bind
    fun _ _ => noPanic_ensure.bind fun _ _ => noPanic_ensure.bind fun _ _ => noPanic_ensure.bind
    fun _ _ => noPanic_ensure.bind fun _ _ => ?_
  split
  · exact noPanic_orErr.bind fun _ _ => noPanic_ensure.bind fun _ _ =>
      (noPanic_units _).bind fun _ _ => noPanic_ok _
  · refine noPanic_ensure.bind fun _ _ => (noPanic_add _ _).bind fun _ _ => noPanic_ensure.bind
      fun _ _ => ?_
    split
    · exact noPanic_orErr.bind fun _ _ => noPanic_ensure.bind fun _ _ =>
        (noPanic_quote _ _).bind fun _ _ => noPanic_ok _
    · exact noPanic_ensure

namespace MatchPlan

theorem noPanic_filledTaker (order : OrderEntry) (quantity value : Decimal) :
    NoPanic (filledTaker order quantity value) := by
  unfold filledTaker
  cases order.remainingQuoteAmount with
  | some budget =>
    exact (noPanic_subtract _ _).bind fun _ _ => (noPanic_add _ _).bind fun _ _ =>
      (noPanic_ok _).bind fun _ _ => (noPanic_add _ _).bind fun _ _ => noPanic_ok _
  | none =>
    exact (noPanic_subtract _ _).bind fun _ _ => (noPanic_ok _).bind fun _ _ =>
      (noPanic_add _ _).bind fun _ _ => noPanic_ok _

theorem noPanic_makerQuantity (order : OrderEntry) (price : Decimal) (original : OrderEntry) :
    NoPanic (makerQuantity order price original) := by
  unfold makerQuantity
  split
  · exact noPanic_quantityForBudget _ _ _
  · exact noPanic_ok _

theorem noPanic_planMaker (plan : MatchPlan) (price : Decimal) (original : OrderEntry) :
    NoPanic (plan.planMaker price original) := by
  refine (noPanic_validate _ _).bind fun _ _ => noPanic_ensure.bind fun _ _ => noPanic_ensure.bind
    fun _ _ => ?_
  split
  · exact noPanic_ok _
  · refine (noPanic_makerQuantity _ _ _).bind fun quantity _ => ?_
    split
    · exact noPanic_ok _
    · refine (noPanic_quote _ _).bind fun _ _ => ?_
      refine NoPanic.bind ((noPanic_subtract _ _).bind fun _ _ => (noPanic_add _ _).bind
        fun _ _ => noPanic_ok _) fun _ _ => ?_
      exact (noPanic_filledTaker _ _ _).bind fun _ _ => (noPanic_add _ _).bind fun _ _ =>
        (noPanic_add _ _).bind fun _ _ => noPanic_ensure.bind fun _ _ => noPanic_ok _

theorem noPanic_planVisits (plan : MatchPlan) (vs : List Visit) : NoPanic (plan.planVisits vs) := by
  induction vs generalizing plan with
  | nil => exact noPanic_ok _
  | cons v vs ih =>
    rw [planVisits]
    split
    · exact noPanic_ok _
    · exact (noPanic_planMaker plan _ _).bind fun plan _ => ih plan

end MatchPlan

theorem noPanic_planOrder (incoming : OrderEntry) (book : OrderBook) :
    NoPanic (planOrder incoming book) := by
  refine (noPanic_validate _ _).bind fun _ hvalid => ?_
  obtain ⟨d, hd⟩ := exists_denotes hvalid
  have hd' : Denotes (MatchPlan.start incoming).order d := hd
  rw [MatchPlan.planLevels_eq hd' fun _ => rfl]
  exact MatchPlan.noPanic_planVisits _ _

namespace BalanceCache

theorem noPanic_changeReservation (userId : UInt64) (mint : String) (value : Decimal) (lock : Bool)
    (c : BalanceCache) : Mut.NoPanic (changeReservation userId mint value lock) c := by
  refine (Mut.noPanic_lift noPanic_ensure _).bind fun _ _ _ => (Mut.noPanic_lift
    (noPanic_units _) _).bind fun _ _ _ => ?_
  refine Mut.NoPanic.bind (fun site s' h => by cases h) fun _ _ _ => ?_
  refine (Mut.noPanic_lift noPanic_orErr _).bind fun _ _ _ => ?_
  cases lock with
  | true =>
    exact (Mut.noPanic_lift (noPanic_subtract _ _) _).bind fun _ _ _ => (Mut.noPanic_lift
      (noPanic_add _ _) _).bind fun _ _ _ site s' h => by cases h
  | false =>
    exact (Mut.noPanic_lift (noPanic_add _ _) _).bind fun _ _ _ => (Mut.noPanic_lift
      (noPanic_subtract _ _) _).bind fun _ _ _ site s' h => by cases h

theorem noPanic_stageAccount (c : BalanceCache) (staged : Staged) (account : Account) :
    NoPanic (stageAccount c staged account) := by
  unfold stageAccount
  split
  · exact noPanic_ok _
  · exact (noPanic_units _).bind fun _ _ => (noPanic_units _).bind fun _ _ => noPanic_ok _

/-- The account of a change has been read when it is looked up. -/
theorem noPanic_stageChange (c : BalanceCache) (staged : Staged) (change : Change) :
    NoPanic (stageChange c staged change) := by
  refine (noPanic_stageAccount c staged _).bind fun mid hmid => ?_
  obtain ⟨-, -, hmem⟩ := stageAccount_ok hmid
  have hsome := AList.lookup_isSome.mpr ((hmem _).mpr (Or.inl rfl))
  obtain ⟨x, hx⟩ := Option.isSome_iff_exists.mp hsome
  rw [hx]
  exact (noPanic_ok x).bind fun _ _ => noPanic_orErr.bind fun _ _ => noPanic_orErr.bind fun _ _ =>
    noPanic_ensure.bind fun _ _ => noPanic_ensure.bind fun _ _ => noPanic_ok _

theorem noPanic_stageChanges (c : BalanceCache) (staged : Staged) (changes : List Change) :
    NoPanic (stageChanges c staged changes) := by
  induction changes generalizing staged with
  | nil => exact noPanic_ok _
  | cons change changes ih => exact (noPanic_stageChange c staged change).bind fun mid _ => ih mid

theorem noPanic_prepareStaged (entries : List (Σ _ : Account, ℤ × ℤ)) :
    NoPanic (prepareStaged entries) := by
  induction entries with
  | nil => exact noPanic_ok _
  | cons e entries ih =>
    exact (noPanic_decimal _).bind fun _ _ => (noPanic_decimal _).bind fun _ _ => ih.bind
      fun _ _ => noPanic_ok _

theorem noPanic_tradeUnits (trade : MatchResult) : NoPanic (tradeUnits trade) :=
  (noPanic_units _).bind fun _ _ => (noPanic_quote _ _).bind fun _ _ => (noPanic_units _).bind
    fun _ _ => (noPanic_fee _ _).bind fun _ _ => (noPanic_units _).bind fun _ _ =>
    (noPanic_quote _ _).bind fun _ _ => (noPanic_fee _ _).bind fun _ _ => (noPanic_units _).bind
    fun _ _ => noPanic_ok _

theorem noPanic_settleTrade (trade : MatchResult) (c : BalanceCache) :
    Mut.NoPanic (settleTrade trade) c := by
  have hensure : ∀ {p : Prop} [Decidable p] {message : String} {c : BalanceCache},
      Mut.NoPanic (liftM (ensure p message) : Mut BalanceCache Unit) c :=
    Mut.noPanic_lift noPanic_ensure _
  refine hensure.bind fun _ _ _ => hensure.bind fun _ _ _ => hensure.bind fun _ _ _ =>
    hensure.bind fun _ _ _ => hensure.bind fun _ _ _ => hensure.bind fun _ _ _ => ?_
  refine (Mut.noPanic_lift (noPanic_tradeUnits _) _).bind fun _ _ _ => ?_
  refine Mut.NoPanic.bind (fun site s' h => by cases h) fun _ _ _ => ?_
  refine (Mut.noPanic_lift (noPanic_stageChanges _ _ _) _).bind fun _ _ _ => ?_
  exact (Mut.noPanic_lift (noPanic_prepareStaged _) _).bind fun _ _ _ site s' h => by cases h

end BalanceCache

namespace Submission

theorem noPanic_settleAll (trades : List MatchResult) (c : BalanceCache) :
    NoPanic (settleAll trades c) := by
  induction trades generalizing c with
  | nil => exact noPanic_ok _
  | cons trade trades ih => exact (BalanceCache.noPanic_settleTrade trade c).exec.bind fun c _ => ih c

/-- A valid order says what it reserves. -/
theorem noPanic_reservedAmount {order : OrderEntry} (h : validate order true = .ok ()) :
    NoPanic (reservedAmount order) := by
  obtain ⟨hshape, -⟩ := validate_ok h
  unfold reservedAmount
  split
  · next hbuy =>
    split
    · exact noPanic_quote _ _
    · next hprice =>
      -- a buy without a price is a market buy
      have hmarket : order.orderSide = "market" := by
        refine hshape.kind.2.resolve_left fun hlimit => ?_
        obtain ⟨-, -, p, a, f, r, hl⟩ := (validate_limit_iff hlimit).mp h
        obtain ⟨d, hd, -⟩ := hl.price
        rw [hprice] at hd
        cases hd
      obtain ⟨b, hb⟩ := validate_marketBuy hmarket hbuy h
      obtain ⟨d, hd, -⟩ := hb.budget
      rw [hd]
      exact noPanic_ok d
  · exact noPanic_ok _

/-- A valid limit order has a price. -/
theorem noPanic_remainingReserve {order : OrderEntry} (h : validate order true = .ok ())
    (left : Decimal) : NoPanic (remainingReserve order left) := by
  unfold remainingReserve
  split
  · exact noPanic_ok _
  · next hside =>
    split
    · have hlimit := (validate_ok h).1.kind.2.resolve_right hside
      obtain ⟨-, -, p, a, f, r, hl⟩ := (validate_limit_iff hlimit).mp h
      obtain ⟨d, hd, -⟩ := hl.price
      rw [hd]
      exact (noPanic_ok d).bind fun _ _ => noPanic_quote _ _
    · exact noPanic_ok _

theorem noPanic_prepare (order : OrderEntry) (books : Books) (executor : Executor) :
    NoPanic (prepare order books executor) := by
  refine (noPanic_planOrder _ _).bind fun plan hplan => ?_
  obtain ⟨u, hvalid, -⟩ := bind_eq_ok.mp hplan
  refine (noPanic_reservedAmount hvalid).bind fun _ _ => ?_
  refine (BalanceCache.noPanic_changeReservation _ _ _ _ _).exec.bind fun _ _ => ?_
  refine (noPanic_settleAll _ _).bind fun _ _ => ?_
  refine (noPanic_remainingReserve hvalid _).bind fun _ _ => ?_
  refine (noPanic_subtract _ _).bind fun _ _ => (noPanic_subtract _ _).bind fun refund _ => ?_
  split
  · exact (BalanceCache.noPanic_changeReservation _ _ _ _ _).exec.bind fun _ _ => noPanic_ok _
  · exact (noPanic_ok _).bind fun _ _ => noPanic_ok _

/-- **On a book with the invariant a submission does not panic.** -/
theorem apply_noPanic {books : Books} {executor : Executor} {order : OrderEntry}
    (hbook : (bookOf books order).Inv order.pair)
    (hfresh : ∀ o ∈ (bookOf books order).flat, o.id ≠ order.id) :
    Mut.NoPanic (apply order) (books, executor) := by
  refine Mut.NoPanic.bind (fun site s' h => by cases h) fun _ _ hget => ?_
  cases hget
  refine (Mut.noPanic_lift (noPanic_prepare _ _ _) _).bind fun prepared _ hprep => ?_
  rw [Mut.run_lift, Prod.mk.injEq] at hprep
  obtain ⟨hprep, rfl⟩ := hprep
  obtain ⟨plan, prepared, completion⟩ := prepared
  obtain ⟨hplan, -⟩ := prepare_ok hprep
  obtain ⟨hvalid, d, fills, hd, hadv⟩ := planOrder_advance hbook hplan
  have hid : plan.order.id = order.id := OrderEntry.congr_frame OrderEntry.id hadv.frame
  obtain ⟨book', hcommit, -, -⟩ := commitBook_ok hbook (hadv.fillsOf hbook) hadv.makers
    (remainder_resting hvalid hd hadv) (by rw [hid]; exact hfresh)
  show Mut.NoPanic (liftM (plan.commitBook (bookOf books order)) >>= _) _
  rw [hcommit]
  exact (Mut.noPanic_lift (noPanic_ok book') _).bind fun _ _ _ site s' h => by cases h

end Submission

end CexEngine
