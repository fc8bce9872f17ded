import CexEngine.Runtime.Transition

/-!
# The reachable states

`EngineState.Inv` is the invariant of the reachable states.  `apply_total` says
that in a state with the invariant no command panics, `Effect.inv` that every
transition keeps it, and `applyAll_total` puts the two together: from a genesis
every sequence of commands runs to its end.

`Effect.holds` is the rule for properties of single resting orders: it is enough
that fills preserve them and that the remainder of a submission has them.
-/

namespace CexEngine

open Foundation Foundation.FiniteMap Foundation.Allocation Amount

/-! ## The invariant -/

/-- **The invariant of the reachable states.**  Every order in a book was
submitted, with the same frame, and was not cancelled. -/
structure EngineState.Inv (s : EngineState) : Prop where
  balances : s.cache.Valid
  books : ∀ pair book, s.orderbooks.lookup pair = some book → book.Inv pair
  submitted : ∀ pair book, s.orderbooks.lookup pair = some book → ∀ o ∈ book.flat,
    ∃ original, s.submissions.lookup o.id = some original ∧ o.frame = original.frame
  live : ∀ pair book, s.orderbooks.lookup pair = some book → ∀ o ∈ book.flat,
    s.cancellations.lookup o.id = none
  cancelled : ∀ id o, s.cancellations.lookup id = some o →
    o.id = id ∧ ∃ original, s.submissions.lookup id = some original

namespace EngineState

/-- The state a genesis starts from. -/
def genesis (cache : BalanceCache) : EngineState := { new with executor := ⟨cache⟩ }

theorem inv_genesis {cache : BalanceCache} (h : cache.Valid) : (genesis cache).Inv where
  balances := h
  books := fun pair book hbook => by
    rw [genesis, new, Finmap.lookup_empty] at hbook
    cases hbook
  submitted := fun pair book hbook => by
    rw [genesis, new, Finmap.lookup_empty] at hbook
    cases hbook
  live := fun pair book hbook => by
    rw [genesis, new, Finmap.lookup_empty] at hbook
    cases hbook
  cancelled := fun id o ho => by
    rw [genesis, new, Finmap.lookup_empty] at ho
    cases ho

/-- The balances of the concrete runs: user 1 has base assets, user 2 quote assets. -/
def funded (base quote : Decimal) : BalanceCache :=
  ⟨((∅ : Finmap fun _ : Account => Balance).insert (1, "BTC") ⟨base, 0⟩).insert (2, "USDT")
    ⟨quote, 0⟩⟩

theorem funded_lookup {base quote : Decimal} {account : Account} {b : Balance}
    (h : (funded base quote).balances.lookup account = some b) :
    b = ⟨base, 0⟩ ∨ b = ⟨quote, 0⟩ := by
  rw [funded, lookup_insert_eq, lookup_insert_eq, Finmap.lookup_empty] at h
  split at h
  · cases h
    exact Or.inr rfl
  · split at h
    · cases h
      exact Or.inl rfl
    · cases h

theorem valid_funded {base quote : Decimal} {x y : ℤ} (hx : units base = .ok x)
    (hy : units quote = .ok y) : (funded base quote).Valid := by
  intro account b hb
  rcases funded_lookup hb with rfl | rfl
  · exact ⟨⟨x, hx⟩, 0, units_zero⟩
  · exact ⟨⟨y, hy⟩, 0, units_zero⟩

variable {s : EngineState}

/-- The book an order meets has the invariant, whether it exists yet or not. -/
theorem Inv.bookOf (h : s.Inv) (order : OrderEntry) :
    (Submission.bookOf s.orderbooks order).Inv order.pair := by
  unfold Submission.bookOf
  cases hbook : s.orderbooks.lookup order.pair with
  | none => exact OrderBook.inv_new _
  | some book => exact h.books _ _ hbook

/-- Where an order of that book is kept. -/
theorem mem_bookOf {order o : OrderEntry} (ho : o ∈ (Submission.bookOf s.orderbooks order).flat) :
    ∃ book, s.orderbooks.lookup order.pair = some book ∧
      Submission.bookOf s.orderbooks order = book := by
  unfold Submission.bookOf at ho ⊢
  cases hbook : s.orderbooks.lookup order.pair with
  | none =>
    rw [hbook] at ho
    cases ho
  | some book => exact ⟨book, rfl, rfl⟩

theorem Inv.bookOf_submitted (h : s.Inv) {order o : OrderEntry}
    (ho : o ∈ (Submission.bookOf s.orderbooks order).flat) :
    ∃ original, s.submissions.lookup o.id = some original ∧ o.frame = original.frame := by
  obtain ⟨book, hbook, heq⟩ := mem_bookOf ho
  rw [heq] at ho
  exact h.submitted _ _ hbook o ho

theorem Inv.bookOf_live (h : s.Inv) {order o : OrderEntry}
    (ho : o ∈ (Submission.bookOf s.orderbooks order).flat) :
    s.cancellations.lookup o.id = none := by
  obtain ⟨book, hbook, heq⟩ := mem_bookOf ho
  rw [heq] at ho
  exact h.live _ _ hbook o ho

/-- A first submission has an id that is in no book. -/
theorem Inv.fresh (h : s.Inv) {order : OrderEntry} (hnew : s.submissions.lookup order.id = none) :
    ∀ o ∈ (Submission.bookOf s.orderbooks order).flat, o.id ≠ order.id := by
  intro o ho hid
  obtain ⟨original, horiginal, -⟩ := h.bookOf_submitted ho
  rw [hid, hnew] at horiginal
  cases horiginal

end EngineState

/-! ### No command panics -/

namespace Journal

theorem execute_submit_noPanic {s : EngineState} (h : s.Inv) (order : OrderEntry) :
    Mut.NoPanic (execute (.submit order)) s := by
  cases hlookup : s.submissions.lookup order.id with
  | some original =>
    intro site s' hrun
    rw [execute_resubmit hlookup, Prod.mk.injEq] at hrun
    exact (noPanic_ensure.bind fun _ _ => noPanic_ok _) site hrun.1
  | none =>
    have hbook := h.bookOf order
    have hnopanic : Mut.NoPanic (Submission.apply order) (s.orderbooks, s.executor) :=
      Submission.apply_noPanic hbook (h.fresh hlookup)
    rcases hnopanic.cases (Submission.apply_atomic order) with
      ⟨applied, ⟨books', executor'⟩, hrun⟩ | ⟨reason, hrun⟩
    · obtain ⟨book', plan, d, fills, δ, reserved, remaining, refund, happlied⟩ :=
        Submission.apply_ok hbook hrun
      obtain ⟨outputs, houtputs, -, -⟩ := tradeOutputs_ok happlied.settles
      rw [← happlied.matchList] at houtputs
      intro site s' hpanic
      rw [execute_submit_ok hlookup hrun houtputs] at hpanic
      cases hpanic
    · intro site s' hpanic
      rw [execute_submit_err hlookup hrun] at hpanic
      cases hpanic

theorem noPanic_onCache {α : Type} {x : Mut BalanceCache α} {s : EngineState}
    (hx : Mut.NoPanic x s.cache) : Mut.NoPanic (EngineState.onCache x) s := by
  intro site s' h
  rw [EngineState.onCache, Mut.run_zoom, Prod.mk.injEq] at h
  exact hx site _ (Prod.ext h.1 rfl)

theorem noPanic_onExecutor {x : Mut BalanceCache Unit} {message : String} {s : EngineState}
    (hx : Mut.NoPanic x s.cache) :
    Mut.NoPanic (EngineState.onExecutor ((Executor.onCache x).context message)) s := by
  intro site s' h
  rw [EngineState.onExecutor, Mut.run_zoom, Mut.run_context, Executor.onCache, Mut.run_zoom,
    Prod.mk.injEq] at h
  exact (NoPanic.withContext fun site h => hx site _ (Prod.ext h rfl)) site h.1

theorem execute_noPanic {s : EngineState} (h : s.Inv) (command : Command) :
    Mut.NoPanic (execute command) s := by
  cases command with
  | submit order => exact execute_submit_noPanic h order
  | creditDeposit credit =>
    intro site s' hrun
    obtain ⟨result, t, -, hstep⟩ := Deposit.apply_step s credit
    change (Deposit.apply credit).run s = _ at hrun
    rw [hstep] at hrun
    cases result <;> cases hrun
  | withdrawal command =>
    intro site s' hrun
    obtain ⟨result, t, -, hstep⟩ := Withdrawal.apply_step s command
    change (Withdrawal.apply command).run s = _ at hrun
    rw [hstep] at hrun
    cases result <;> cases hrun
  | cancel orderId userId pair =>
    have hnopanic : Mut.NoPanic (Threads.cancelOrder orderId userId pair)
        (s.orderbooks, s.executor) := Threads.cancelOrder_noPanic (h.books pair)
    refine Mut.NoPanic.bind ?_ fun _ _ _ site s' hrun => by cases hrun
    intro site s' hrun
    rw [EngineState.onMarket, Mut.run_zoom, Prod.mk.injEq] at hrun
    exact hnopanic site _ (Prod.ext hrun.1 rfl)
  | balance userId mint delta =>
    refine (Mut.noPanic_lift noPanic_ensure _).bind fun _ s' _ => ?_
    refine Mut.NoPanic.bind (noPanic_onCache ?_) fun _ _ _ site s' hrun => by cases hrun
    refine Mut.NoPanic.bind (fun site s' hrun => by cases hrun) fun _ _ _ => ?_
    dsimp only
    split
    · exact (Mut.noPanic_lift (noPanic_add _ _) _).bind fun _ _ _ site s' hrun => by cases hrun
    · exact (Mut.noPanic_lift (noPanic_subtract _ _) _).bind fun _ _ _ site s' hrun => by cases hrun
  | lock userId mint amount =>
    refine Mut.NoPanic.bind (noPanic_onExecutor ?_) fun _ _ _ site s' hrun => by cases hrun
    exact BalanceCache.noPanic_changeReservation _ _ _ _ _
  | unlock userId mint amount =>
    refine Mut.NoPanic.bind (noPanic_onExecutor ?_) fun _ _ _ site s' hrun => by cases hrun
    exact BalanceCache.noPanic_changeReservation _ _ _ _ _

/-- **In a state with the invariant every command has an outcome.** -/
theorem apply_total {s : EngineState} (h : s.Inv) (command : Command) :
    ∃ outcome s', (apply command).run s = (.ok outcome, s') := by
  cases hrep : repeatedCancel s command with
  | some outcome => exact ⟨outcome, s, apply_of_repeatedCancel hrep⟩
  | none =>
    rcases hrun : (execute command).run s with ⟨(reason | site) | output, s'⟩
    · exact ⟨_, s', apply_of_execute_err hrep hrun⟩
    · exact absurd hrun (execute_noPanic h command site s')
    · exact ⟨_, s', apply_of_execute_ok hrep hrun⟩

end Journal

/-! ### Every transition keeps the invariant -/

/-- An order of a book after a commit was there before, up to its quantities, or is
the remainder. -/
theorem Committed.mem_flat {book book' : OrderBook} {makerBuy : Bool} {fills : List Fill}
    {added : Option (Decimal × OrderEntry)} (h : Committed book book' makerBuy fills added)
    (hfills : FillsOf (book.side makerBuy) fills) {pair : TradingPair} (hbook : book.Inv pair)
    {o : OrderEntry} (ho : o ∈ book'.flat) :
    (∃ o' ∈ book.flat, o.frame = o'.frame) ∨ ∃ p, added = some (p, o) := by
  have hsides := ((book'.flat_perm makerBuy).mem_iff).mp ho
  rcases List.mem_append.mp hsides with hmaker | htaker
  · rw [h.makers_flat, List.mem_filterMap] at hmaker
    obtain ⟨o', ho', hrep⟩ := hmaker
    exact Or.inl ⟨o', OrderBook.mem_flat_iff.mpr ⟨makerBuy, ho'⟩,
      hfills.frame_of_replace (hbook.side_ids makerBuy) ho' hrep⟩
  · rcases List.mem_append.mp (h.taker_flat.mem_iff.mp htaker) with hnew | hold
    · obtain ⟨⟨p, o'⟩, hp, rfl⟩ := List.mem_map.mp hnew
      exact Or.inr ⟨p, Option.mem_toList.mp hp⟩
    · exact Or.inl ⟨o, OrderBook.mem_flat_iff.mpr ⟨_, hold⟩, rfl⟩

theorem MatchPlan.remainder_eq_some {plan : MatchPlan} {p : Decimal} {o : OrderEntry}
    (h : plan.remainder = some (p, o)) : plan.order = o ∧ plan.order.price = some p ∧
      plan.order.orderSide = "limit" ∧ 0 < plan.order.remainingAmount := by
  unfold remainder at h
  split at h
  · next hcond =>
    obtain ⟨p', hp, heq⟩ := Option.map_eq_some_iff.mp h
    cases heq
    exact ⟨rfl, hp, hcond⟩
  · cases h

/-- **The book after a cancellation.**  One order left it. -/
theorem Threads.Cancelled.book {books books' : Books} {cache cache' : BalanceCache}
    {orderId userId : UInt64} {pair : TradingPair} {found : OrderEntry} {book : OrderBook}
    {buy : Bool} {level : Decimal} {queue : List OrderEntry} {side' : OrderBookSide} {v : ℤ}
    (h : Cancelled books cache orderId userId pair found books' cache' book buy level queue side' v)
    (hbook : book.Inv pair) :
    found.id = orderId ∧ (book.side buy).flat.Perm (found :: side'.flat) ∧
      book.flat.Perm (found :: (book.setSide buy side').flat) ∧
      (book.setSide buy side').Inv pair ∧
      ∀ p', side'.orders.find? p' =
        if p'.raw = level.raw then
          (if queue.eraseP (fun order => order.id == orderId) = [] then none
            else some (queue.eraseP fun order => order.id == orderId))
        else (book.side buy).orders.find? p' := by
  obtain ⟨side'', hremove, hperm, hfind, hinv⟩ :=
    OrderBookSide.removeOrder_ok (hbook.side buy) h.queue_eq h.found_eq
  obtain rfl : side' = side'' := by
    have := h.removed.symm.trans hremove
    cases this
    rfl
  have hflat : book.flat.Perm (found :: (book.setSide buy side').flat) :=
    ((book.flat_perm buy).trans (hperm.append_right _)).trans
      ((book.flat_setSide_perm buy side').symm.cons found)
  refine ⟨by simpa using List.find?_some h.found_eq, hperm, hflat, hbook.setSide hinv ?_, hfind⟩
  have hids := ((hperm.append_right (book.side !buy).flat).map OrderEntry.id).nodup_iff.mp
    (hbook.ids_append buy)
  rw [List.cons_append, List.map_cons] at hids
  exact (List.nodup_cons.mp hids).2

namespace EngineState

variable {s s' : EngineState}

/-- A transition that only moves money and writes receipts. -/
theorem Inv.of_cache (h : s.Inv) (hcache : s'.cache.Valid) (hbooks : s'.orderbooks = s.orderbooks)
    (hsub : s'.submissions = s.submissions) (hcancel : s'.cancellations = s.cancellations) :
    s'.Inv where
  balances := hcache
  books := by
    rw [hbooks]
    exact h.books
  submitted := by
    rw [hbooks, hsub]
    exact h.submitted
  live := by
    rw [hbooks, hcancel]
    exact h.live
  cancelled := by
    rw [hsub, hcancel]
    exact h.cancelled

/-- Remembering a first submission. -/
theorem Inv.recorded (h : s.Inv) {order : OrderEntry}
    (hnew : s.submissions.lookup order.id = none) : (Journal.recorded order s).Inv where
  balances := h.balances
  books := h.books
  submitted := fun pair book hbook o ho => by
    obtain ⟨original, horiginal, hframe⟩ := h.submitted pair book hbook o ho
    refine ⟨original, ?_, hframe⟩
    have hne : o.id ≠ order.id := fun hid => by
      rw [hid, hnew] at horiginal
      cases horiginal
    rw [Journal.recorded, lookup_insert_eq, if_neg hne]
    exact horiginal
  live := h.live
  cancelled := fun id o ho => by
    obtain ⟨hid, original, horiginal⟩ := h.cancelled id o ho
    refine ⟨hid, ?_⟩
    rw [Journal.recorded, lookup_insert_eq]
    split
    · exact ⟨order, rfl⟩
    · exact ⟨original, horiginal⟩

/-- Writing one book. -/
theorem Inv.setBook (h : s.Inv) {pair : TradingPair} {book' : OrderBook}
    (hcache : s'.cache.Valid) (hbooks : s'.orderbooks = s.orderbooks.insert pair book')
    (hbook' : book'.Inv pair) (hsub : s'.submissions = s.submissions)
    (hcancel : s'.cancellations = s.cancellations)
    (hmem : ∀ o ∈ book'.flat,
      (∃ original, s.submissions.lookup o.id = some original ∧ o.frame = original.frame) ∧
        s.cancellations.lookup o.id = none) : s'.Inv where
  balances := hcache
  books := by
    intro pair' book hbook
    rw [hbooks, lookup_insert_eq] at hbook
    split at hbook
    · next heq =>
      cases hbook
      rw [heq]
      exact hbook'
    · exact h.books _ _ hbook
  submitted := by
    intro pair' book hbook o ho
    rw [hsub]
    rw [hbooks, lookup_insert_eq] at hbook
    split at hbook
    · cases hbook
      exact (hmem o ho).1
    · exact h.submitted _ _ hbook o ho
  live := by
    intro pair' book hbook o ho
    rw [hcancel]
    rw [hbooks, lookup_insert_eq] at hbook
    split at hbook
    · cases hbook
      exact (hmem o ho).2
    · exact h.live _ _ hbook o ho
  cancelled := by
    rw [hsub, hcancel]
    exact h.cancelled

/-- Remembering a cancellation of an order that is in no book. -/
theorem Inv.cancel (h : s.Inv) {order original : OrderEntry}
    (hsub : s.submissions.lookup order.id = some original)
    (hgone : ∀ pair book, s.orderbooks.lookup pair = some book → ∀ o ∈ book.flat,
      o.id ≠ order.id) :
    ({ s with cancellations := s.cancellations.insert order.id order } : EngineState).Inv where
  balances := h.balances
  books := h.books
  submitted := h.submitted
  live := fun pair book hbook o ho => by
    rw [lookup_insert_eq, if_neg (hgone pair book hbook o ho)]
    exact h.live pair book hbook o ho
  cancelled := fun id o ho => by
    rw [lookup_insert_eq] at ho
    split at ho
    · next hid =>
      cases ho
      exact ⟨hid.symm, original, hid ▸ hsub⟩
    · exact h.cancelled id o ho

/-- An id is in one market only. -/
theorem Inv.pair_eq (h : s.Inv) {pair pair' : TradingPair} {book book' : OrderBook}
    {o o' : OrderEntry} (hbook : s.orderbooks.lookup pair = some book)
    (hbook' : s.orderbooks.lookup pair' = some book') (ho : o ∈ book.flat) (ho' : o' ∈ book'.flat)
    (hid : o.id = o'.id) : pair = pair' := by
  obtain ⟨original, horiginal, hframe⟩ := h.submitted _ _ hbook o ho
  obtain ⟨original', horiginal', hframe'⟩ := h.submitted _ _ hbook' o' ho'
  rw [hid, horiginal'] at horiginal
  cases horiginal
  have hpair : ∀ {pair : TradingPair} {book : OrderBook} {o : OrderEntry},
      s.orderbooks.lookup pair = some book → o ∈ book.flat → o.pair = pair := by
    intro pair book o hbook ho
    obtain ⟨buy, hside⟩ := OrderBook.mem_flat_iff.mp ho
    obtain ⟨p, queue, hqueue, hmem⟩ := OrderBookSide.mem_flat_iff.mp hside
    exact (((h.books _ _ hbook).side buy).resting p queue hqueue o hmem).pair
  rw [← hpair hbook ho, ← hpair hbook' ho']
  exact OrderEntry.congr_frame OrderEntry.pair (hframe.trans hframe'.symm)

/-- **A finished first submission**, in a state with the invariant. -/
theorem Inv.applied (h : s.Inv) {order : OrderEntry} {applied : AppliedSubmission} {books' : Books}
    {executor' : Executor} (hnew : s.submissions.lookup order.id = none)
    (hrun : (Submission.apply order).run (s.orderbooks, s.executor) =
      (.ok applied, (books', executor'))) :
    ∃ book' plan d fills δ reserved remaining refund,
      Submission.Applied s.orderbooks s.cache order applied books' executor'.balanceCache book' plan
        d fills δ reserved remaining refund ∧
      book'.Inv order.pair ∧
      FillsOf ((Submission.bookOf s.orderbooks order).side plan.makerBuy) fills ∧
      Committed (Submission.bookOf s.orderbooks order) book' plan.makerBuy fills plan.remainder := by
  have hbook := h.bookOf order
  obtain ⟨book', plan, d, fills, δ, reserved, remaining, refund, happlied⟩ :=
    Submission.apply_ok hbook hrun
  obtain ⟨hinv, hcommitted⟩ := happlied.committed hbook (h.fresh hnew)
  exact ⟨book', plan, d, fills, δ, reserved, remaining, refund, happlied, hinv,
    happlied.advance.fillsOf hbook, hcommitted⟩

/-- The invariant after a submission. -/
theorem Inv.submit (h : s.Inv) {order : OrderEntry} {applied : AppliedSubmission} {books' : Books}
    {executor' : Executor} (hnew : s.submissions.lookup order.id = none)
    (hrun : (Submission.apply order).run (s.orderbooks, s.executor) =
      (.ok applied, (books', executor'))) :
    ({ Journal.recorded order s with orderbooks := books', executor := executor' } :
      EngineState).Inv := by
  obtain ⟨book', plan, d, fills, δ, reserved, remaining, refund, happlied, hinv, hfills,
    hcommitted⟩ := h.applied hnew hrun
  obtain ⟨touched, hmoves⟩ := happlied.moves
  refine (h.recorded hnew).setBook (hmoves.valid h.balances) happlied.books_eq hinv rfl rfl ?_
  intro o ho
  rcases hcommitted.mem_flat hfills (h.bookOf order) ho with ⟨o', ho', hframe⟩ | ⟨p, hadded⟩
  · have hid : o.id = o'.id := OrderEntry.congr_frame OrderEntry.id hframe
    obtain ⟨original, horiginal, hframe'⟩ := h.bookOf_submitted ho'
    refine ⟨⟨original, ?_, hframe.trans hframe'⟩, ?_⟩
    · rw [Journal.recorded, lookup_insert_eq, hid, if_neg (h.fresh hnew o' ho')]
      exact horiginal
    · rw [hid]
      exact h.bookOf_live ho'
  · obtain ⟨rfl, -⟩ := MatchPlan.remainder_eq_some hadded
    have hframe : plan.order.frame = order.frame := happlied.advance.frame
    have hid : plan.order.id = order.id := OrderEntry.congr_frame OrderEntry.id hframe
    refine ⟨⟨order, ?_, hframe⟩, ?_⟩
    · rw [Journal.recorded, lookup_insert_eq, if_pos hid]
    · -- a cancelled id was submitted, and this one was not
      rw [hid]
      cases hcancel : s.cancellations.lookup order.id with
      | none => exact hcancel
      | some o =>
        obtain ⟨-, original, horiginal⟩ := h.cancelled _ _ hcancel
        rw [hnew] at horiginal
        cases horiginal

/-- The invariant after a cancellation. -/
theorem Inv.cancelOrder (h : s.Inv) {orderId userId : UInt64} {pair : TradingPair}
    {order : OrderEntry} {books' : Books} {executor' : Executor}
    (hrun : (Threads.cancelOrder orderId userId pair).run (s.orderbooks, s.executor) =
      (.ok order, (books', executor'))) :
    ({ s with
        cancellations := s.cancellations.insert orderId order
        orderbooks := books'
        executor := executor' } : EngineState).Inv := by
  obtain ⟨book, buy, level, queue, side', v, hc⟩ := Threads.cancelOrder_ok hrun
  obtain ⟨rfl, -, hflat, hinv, -⟩ := hc.book (h.books _ _ hc.lookup)
  have hsub : ∀ o ∈ (book.setSide buy side').flat, o ∈ book.flat := fun o ho =>
    hflat.mem_iff.mpr (List.mem_cons_of_mem _ ho)
  have horder : order ∈ book.flat := hflat.mem_iff.mpr (List.mem_cons_self ..)
  have hbook : ({ s with orderbooks := books', executor := executor' } : EngineState).Inv :=
    h.setBook (hc.moves.valid h.balances) hc.books_eq hinv rfl rfl fun o ho =>
      ⟨h.submitted _ _ hc.lookup o (hsub o ho), h.live _ _ hc.lookup o (hsub o ho)⟩
  obtain ⟨original, horiginal, -⟩ := h.submitted _ _ hc.lookup order horder
  refine hbook.cancel horiginal ?_
  intro pair' book' hbook' o ho hid
  change books'.lookup pair' = some book' at hbook'
  rw [hc.books_eq, lookup_insert_eq] at hbook'
  split at hbook'
  · -- ids in the book are distinct
    cases hbook'
    have hids := (hflat.map OrderEntry.id).nodup_iff.mp (h.books _ _ hc.lookup).ids
    exact (List.nodup_cons.mp hids).1 (hid ▸ List.mem_map_of_mem ho)
  · next hne => exact hne (h.pair_eq hbook' hc.lookup ho horder hid)

end EngineState

/-- **Every transition keeps the invariant.** -/
theorem Effect.inv {s s' : EngineState} {command : Command} {outcome : Outcome}
    (h : Effect s command outcome s') (hs : s.Inv) : s'.Inv := by
  cases h with
  | failed => exact hs
  | repeatedCancel => exact hs
  | resubmitted => exact hs
  | rejected hnew => exact hs.recorded hnew
  | submitted hnew hrun => exact hs.submit hnew hrun
  | cancelled _ hrun => exact hs.cancelOrder hrun
  | withdrawal step =>
    cases step with
    | repeated => exact hs
    | rejected => exact hs.of_cache hs.balances rfl rfl rfl
    | performed _ _ hstep =>
      obtain ⟨v, -, hmoves⟩ := Withdrawal.balanceStep_moves hstep
      exact hs.of_cache (hmoves.valid hs.balances) rfl rfl rfl
  | deposit step =>
    cases step with
    | repeatedCredit => exact hs
    | credited _ _ hstep =>
      obtain ⟨-, v, -, hmoves⟩ := Deposit.creditBalance_moves hstep
      exact hs.of_cache (hmoves.valid hs.balances) rfl rfl rfl
  | depositFailed step =>
    cases step with
    | rejected => exact hs.of_cache hs.balances rfl rfl rfl
    | _ => exact hs
  | balance hrun =>
    exact hs.of_cache ((Journal.changeBalance_moves hrun).2.valid hs.balances) rfl rfl rfl
  | locked hrun =>
    obtain ⟨v, -, -, hmoves⟩ := BalanceCache.changeReservation_moves hrun
    exact hs.of_cache (hmoves.valid hs.balances) rfl rfl rfl
  | unlocked hrun =>
    obtain ⟨v, -, -, hmoves⟩ := BalanceCache.changeReservation_moves hrun
    exact hs.of_cache (hmoves.valid hs.balances) rfl rfl rfl

/-! ### Properties of the resting orders -/

/-- A property of every order in the books, given with its side. -/
def EngineState.Holds (Q : Bool → OrderEntry → Prop) (s : EngineState) : Prop :=
  ∀ pair book, s.orderbooks.lookup pair = some book → ∀ buy, ∀ o ∈ (book.side buy).flat, Q buy o

/-- What fills preserve, and the remainder has, every order has after a commit. -/
theorem Committed.forall_side {book book' : OrderBook} {makerBuy : Bool} {fills : List Fill}
    {added : Option (Decimal × OrderEntry)} {pair : TradingPair}
    (h : Committed book book' makerBuy fills added) (hbook : book.Inv pair)
    (hfills : FillsOf (book.side makerBuy) fills) {Q : Bool → OrderEntry → Prop}
    (hQ : ∀ buy, ∀ o ∈ (book.side buy).flat, Q buy o)
    (hfill : ∀ f ∈ fills, Resting pair makerBuy f.price f.maker → Q makerBuy f.maker →
      Q makerBuy f.rest)
    (hadded : ∀ p o, added = some (p, o) → Q (!makerBuy) o) :
    ∀ buy, ∀ o ∈ (book'.side buy).flat, Q buy o := by
  intro buy o ho
  by_cases hbuy : buy = makerBuy
  · rw [hbuy] at ho ⊢
    rw [h.makers_flat, List.mem_filterMap] at ho
    obtain ⟨o', ho', hrep⟩ := ho
    rcases replace_eq_some.mp hrep with ⟨-, rfl⟩ | ⟨hchanged, -⟩
    · exact hQ _ _ ho'
    · obtain ⟨f, hf, -, rfl⟩ := hfills.changedBy_eq_some.mp hchanged
      obtain ⟨queue, hqueue, hmem⟩ := hfills.mem f hf
      exact hfill f hf ((hbook.side _).resting _ _ hqueue _ hmem)
        (hQ _ _ (OrderBookSide.mem_flat_iff.mpr ⟨_, _, hqueue, hmem⟩))
  · rw [Bool.eq_not_of_ne hbuy] at ho ⊢
    rcases List.mem_append.mp (h.taker_flat.mem_iff.mp ho) with hnew | hold
    · obtain ⟨⟨p, o'⟩, hp, rfl⟩ := List.mem_map.mp hnew
      exact hadded p o' (Option.mem_toList.mp hp)
    · exact hQ _ _ hold

/-- **One transition** keeps a property of the resting orders that the fills of a
submission preserve and its remainder has. -/
theorem Effect.holds_of_fills {s s' : EngineState} {command : Command} {outcome : Outcome}
    (h : Effect s command outcome s') (hs : s.Inv) {Q : Bool → OrderEntry → Prop}
    (hQ : s.Holds Q)
    (hfill : ∀ order applied books' executor' book' (plan : MatchPlan) d fills δ reserved remaining
      refund, command = .submit order → s.submissions.lookup order.id = none →
      (Submission.apply order).run (s.orderbooks, s.executor) = (.ok applied, (books', executor')) →
      Submission.Applied s.orderbooks s.cache order applied books' executor'.balanceCache book' plan
        d fills δ reserved remaining refund →
      FillsOf ((Submission.bookOf s.orderbooks order).side plan.makerBuy) fills →
      ∀ f ∈ fills, Resting order.pair plan.makerBuy f.price f.maker → Q plan.makerBuy f.maker →
      Q plan.makerBuy f.rest)
    (hrest : ∀ order applied books' executor' book' (plan : MatchPlan) d fills δ reserved remaining
      refund p, command = .submit order → s.submissions.lookup order.id = none →
      (Submission.apply order).run (s.orderbooks, s.executor) = (.ok applied, (books', executor')) →
      Submission.Applied s.orderbooks s.cache order applied books' executor'.balanceCache book' plan
        d fills δ reserved remaining refund →
      plan.remainder = some (p, plan.order) → Q (!plan.makerBuy) plan.order) :
    s'.Holds Q := by
  cases h with
  | failed => exact hQ
  | repeatedCancel => exact hQ
  | resubmitted => exact hQ
  | rejected => exact hQ
  | @submitted order applied books' executor' trades hnew hrun houtputs =>
    obtain ⟨book', plan, d, fills, δ, reserved, remaining, refund, happlied, -, hfills,
      hcommitted⟩ := hs.applied hnew hrun
    intro pair book hbook
    change books'.lookup pair = some book at hbook
    rw [happlied.books_eq, lookup_insert_eq] at hbook
    split at hbook
    · cases hbook
      refine hcommitted.forall_side (hs.bookOf order) hfills (fun buy o ho => ?_)
        (fun f hf => hfill _ _ _ _ _ _ _ _ _ _ _ _ rfl hnew hrun happlied hfills f hf) fun p o hadded => ?_
      · obtain ⟨old, hold, heq⟩ := EngineState.mem_bookOf
          (OrderBook.mem_flat_iff.mpr ⟨buy, ho⟩)
        rw [heq] at ho
        exact hQ _ _ hold buy o ho
      · obtain ⟨rfl, -⟩ := MatchPlan.remainder_eq_some hadded
        exact hrest _ _ _ _ _ _ _ _ _ _ _ _ p rfl hnew hrun happlied hadded
    · exact hQ _ _ hbook
  | @cancelled orderId userId pair order books' executor' _ hrun =>
    obtain ⟨book, buy, level, queue, side', v, hc⟩ := Threads.cancelOrder_ok hrun
    obtain ⟨-, hperm, -, -, -⟩ := hc.book (hs.books _ _ hc.lookup)
    intro pair' book' hbook' buy' o ho
    change books'.lookup pair' = some book' at hbook'
    rw [hc.books_eq, lookup_insert_eq] at hbook'
    split at hbook'
    · cases hbook'
      by_cases hbuy : buy' = buy
      · rw [hbuy] at ho ⊢
        rw [OrderBook.side_setSide_same] at ho
        exact hQ _ _ hc.lookup buy o (hperm.mem_iff.mpr (List.mem_cons_of_mem _ ho))
      · rw [Bool.eq_not_of_ne hbuy] at ho ⊢
        rw [OrderBook.side_setSide_not] at ho
        exact hQ _ _ hc.lookup _ o ho
    · exact hQ _ _ hbook' buy' o ho
  | withdrawal step => cases step <;> exact hQ
  | deposit step => cases step <;> exact hQ
  | depositFailed step => cases step <;> exact hQ
  | balance => exact hQ
  | locked => exact hQ
  | unlocked => exact hQ

/-- The same for a property that every fill preserves. -/
theorem Effect.holds {s s' : EngineState} {command : Command} {outcome : Outcome}
    (h : Effect s command outcome s') (hs : s.Inv) {Q : Bool → OrderEntry → Prop}
    (hQ : s.Holds Q)
    (hfill : ∀ pair buy (f : Fill), f.Ok → Resting pair buy f.price f.maker → Q buy f.maker →
      Q buy f.rest)
    (hrest : ∀ order applied books' cache' book' (plan : MatchPlan) d fills δ reserved remaining
      refund p, command = .submit order → Submission.Applied s.orderbooks s.cache order applied books' cache'
        book' plan d fills δ reserved remaining refund →
      plan.remainder = some (p, plan.order) → Q (!plan.makerBuy) plan.order) :
    s'.Holds Q :=
  h.holds_of_fills hs hQ (fun _ _ _ _ _ _ _ _ _ _ _ _ _ _ _ _ hfills f hf =>
    hfill _ _ f (hfills.ok f hf)) fun _ _ _ _ _ _ _ _ _ _ _ _ p hc _ _ happlied =>
    hrest _ _ _ _ _ _ _ _ _ _ _ _ p hc happlied

/-! ## Runs -/

/-- A run: the commands with the outcomes they got, and the state they lead to. -/
inductive Run : EngineState → List (Command × Outcome) → EngineState → Prop
  | nil (s : EngineState) : Run s [] s
  | cons {s s' s'' : EngineState} {command : Command} {outcome : Outcome}
      {history : List (Command × Outcome)} (head : (Journal.apply command).run s = (.ok outcome, s'))
      (tail : Run s' history s'') : Run s ((command, outcome) :: history) s''

namespace Run

variable {s s' s'' : EngineState} {history history' : List (Command × Outcome)}

theorem inv (h : Run s history s') (hs : s.Inv) : s'.Inv := by
  induction h with
  | nil => exact hs
  | cons head _ ih => exact ih ((Journal.apply_effect head).inv hs)

theorem append (h : Run s history s') (h' : Run s' history' s'') :
    Run s (history ++ history') s'' := by
  induction h with
  | nil => exact h'
  | cons head _ ih => exact .cons head (ih h')

/-- The state in the middle of a run. -/
theorem split (h : Run s (history ++ history') s'') :
    ∃ s', Run s history s' ∧ Run s' history' s'' := by
  induction history generalizing s with
  | nil => exact ⟨s, .nil s, h⟩
  | cons e history ih =>
    cases h with
    | cons head tail =>
      obtain ⟨s', hfirst, hlast⟩ := ih tail
      exact ⟨s', .cons head hfirst, hlast⟩

end Run

namespace Journal

theorem run_applyAll_cons {s s' s'' : EngineState} {command : Command} {commands : List Command}
    {outcome : Outcome} {outcomes : List Outcome}
    (head : (apply command).run s = (.ok outcome, s'))
    (tail : (applyAll commands).run s' = (.ok outcomes, s'')) :
    (applyAll (command :: commands)).run s = (.ok (outcome :: outcomes), s'') := by
  simp only [applyAll, Mut.run_bind, head, tail, Mut.run_pure]

theorem run_applyAll_of_run {s s' : EngineState} {history : List (Command × Outcome)}
    (h : Run s history s') :
    (applyAll (history.map Prod.fst)).run s = (.ok (history.map Prod.snd), s') := by
  induction h with
  | nil => rfl
  | cons head _ ih => exact run_applyAll_cons head ih

/-- The outcome of a further command, as it is computed from the start. -/
theorem last_outcome {s s' s'' : EngineState} {history : List (Command × Outcome)} {command : Command}
    {outcome : Outcome} (h : Run s history s') (happly : (apply command).run s' = (.ok outcome, s'')) :
    ((applyAll (history.map Prod.fst ++ [command])).run s).1.toOption.bind List.getLast? =
      some outcome := by
  have hall := run_applyAll_of_run (h.append (.cons happly (.nil s'')))
  rw [List.map_append, List.map_cons, List.map_nil] at hall
  rw [hall, List.map_append]
  exact List.getLast?_concat

/-- **From a state with the invariant every sequence of commands runs to its end.** -/
theorem applyAll_total {s : EngineState} (hs : s.Inv) (commands : List Command) :
    ∃ outcomes s', (applyAll commands).run s = (.ok outcomes, s') ∧
      outcomes.length = commands.length ∧ Run s (commands.zip outcomes) s' := by
  induction commands generalizing s with
  | nil => exact ⟨[], s, rfl, rfl, .nil s⟩
  | cons command commands ih =>
    obtain ⟨outcome, s', hhead⟩ := apply_total hs command
    obtain ⟨outcomes, s'', htail, hlength, hrun⟩ := ih ((apply_effect hhead).inv hs)
    refine ⟨outcome :: outcomes, s'', run_applyAll_cons hhead htail, ?_, .cons hhead hrun⟩
    rw [List.length_cons, List.length_cons, hlength]

/-- A history from the outcomes of its commands. -/
theorem run_of_outcomes {s : EngineState} (hs : s.Inv) {history : List (Command × Outcome)}
    (h : ((applyAll (history.map Prod.fst)).run s).1.toOption = some (history.map Prod.snd)) :
    ∃ s', Run s history s' := by
  obtain ⟨outcomes, s', hrun, -, hhistory⟩ := applyAll_total hs (history.map Prod.fst)
  rw [hrun] at h
  obtain rfl : outcomes = history.map Prod.snd := Option.some.inj h
  refine ⟨s', ?_⟩
  rwa [List.zip_map', List.map_id'' fun _ => rfl] at hhistory

end Journal

/-- **The core never panics.**  From every genesis every sequence of commands runs to
its end, whatever the commands hold, and in the state it leads to every further
command returns an outcome. -/
theorem core_never_panics {cache : BalanceCache} (hcache : cache.Valid) (commands : List Command) :
    ∃ outcomes s', (Journal.applyAll commands).run (.genesis cache) = (.ok outcomes, s') ∧
      outcomes.length = commands.length ∧
      ∀ command, ∃ outcome s'', (Journal.apply command).run s' = (.ok outcome, s'') := by
  have hinv := EngineState.inv_genesis hcache
  obtain ⟨outcomes, s', hrun, hlength, hhistory⟩ := Journal.applyAll_total hinv commands
  exact ⟨outcomes, s', hrun, hlength, Journal.apply_total (hhistory.inv hinv)⟩

/-- An order without price, budget or positive amounts, after a resting one. -/
theorem core_never_panics_malformed :
    ∃ outcomes s', (Journal.applyAll [.submit (.limit 1 2 true Decimal.ONE Decimal.ONE)]).run
        (.genesis (EngineState.funded Decimal.ONE Decimal.ONE)) = (.ok outcomes, s') ∧
      ∃ outcome s'', (Journal.apply (.submit { OrderEntry.limit 0 0 true 0 0 with
        price := none, quoteMint := "" })).run s' = (.ok outcome, s'') := by
  have hone : units Decimal.ONE = .ok 1000000000 := rfl
  obtain ⟨outcomes, s', hrun, -, htotal⟩ := core_never_panics (EngineState.valid_funded hone hone)
    [.submit (.limit 1 2 true Decimal.ONE Decimal.ONE)]
  exact ⟨outcomes, s', hrun, htotal _⟩

end CexEngine
