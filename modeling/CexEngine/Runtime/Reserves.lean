import CexEngine.Runtime.Sufficient
import CexEngine.Runtime.WithdrawalLifecycle

/-!
# Reserves

What is locked covers what orders and withdrawals hold of it, as long as nothing but
orders and withdrawals locks and unlocks (`Run.reserves`).  So a submission finds enough
locked for its trades (`Reserves.funded`), and a fill takes from the backing of a maker
and from the locked balance alike.  That balance is at least as large and a decimal
denotes it before and after, so a decimal denotes the backing after the fill
(`Representable.sub_of_pool`): the third part of the invariant.
-/

namespace CexEngine

open Foundation Foundation.FiniteMap Foundation.Allocation Amount

/-! ## Shares are not negative -/

theorem Resting.backing_pos {pair : TradingPair} {buy : Bool} {level : Decimal} {o : OrderEntry}
    (h : Resting pair buy level o) (hexact : ExactBuy buy o) : 0 < o.backing buy := by
  obtain ⟨-, -, p, a, f, r, hl⟩ := (validate_limit_iff h.limit).mp h.valid
  obtain ⟨d, hd, hup, -⟩ := hl.price
  unfold OrderEntry.backing
  split
  · next hbuy =>
    have hproduct : 0 < o.product := by
      rw [OrderEntry.product, OrderEntry.priceUnits, hd, Option.elim_some, unitsOf_eq hup,
        unitsOf_eq hl.remaining]
      exact mul_pos hl.price_pos hl.remaining_pos
    exact Int.ediv_pos_of_pos_of_dvd hproduct factor_pos.le (hexact hbuy)
  · rw [unitsOf_eq hl.remaining]
    exact hl.remaining_pos

theorem Resting.backing_nonneg {pair : TradingPair} {buy : Bool} {level : Decimal} {o : OrderEntry}
    (h : Resting pair buy level o) : 0 ≤ o.backing buy := by
  obtain ⟨-, -, p, a, f, r, hl⟩ := (validate_limit_iff h.limit).mp h.valid
  obtain ⟨d, hd, hup, -⟩ := hl.price
  unfold OrderEntry.backing
  split
  · rw [OrderEntry.product, OrderEntry.priceUnits, hd, Option.elim_some, unitsOf_eq hup,
      unitsOf_eq hl.remaining]
    exact Int.ediv_nonneg (mul_nonneg hl.price_pos.le hl.remaining_pos.le) factor_pos.le
  · rw [unitsOf_eq hl.remaining]
    exact hl.remaining_pos.le

/-- The orders of a side, as resting orders. -/
theorem OrderBook.Inv.resting_flat {pair : TradingPair} {book : OrderBook} (h : book.Inv pair)
    {buy : Bool} {o : OrderEntry} (ho : o ∈ (book.side buy).flat) :
    ∃ level, Resting pair buy level o := by
  obtain ⟨p, queue, hqueue, hmem⟩ := OrderBookSide.mem_flat_iff.mp ho
  exact ⟨p, (h.side buy).resting p queue hqueue o hmem⟩

section Nonneg

variable {pair : TradingPair} {book : OrderBook} (account : Account)

theorem OrderBook.Inv.share_nonneg (h : book.Inv pair) (buy : Bool) :
    ∀ x ∈ (book.side buy).flat.map (OrderEntry.hold account buy), 0 ≤ x := by
  intro x hx
  obtain ⟨o, ho, rfl⟩ := List.mem_map.mp hx
  obtain ⟨level, hrest⟩ := h.resting_flat ho
  unfold OrderEntry.hold
  split
  · exact hrest.backing_nonneg
  · exact le_rfl

theorem OrderBook.Inv.side_le_hold (h : book.Inv pair) (buy : Bool) :
    ((book.side buy).flat.map (OrderEntry.hold account buy)).sum ≤ book.hold account := by
  rw [OrderBook.hold_eq account book buy]
  exact le_add_of_nonneg_right (List.sum_nonneg (h.share_nonneg account _))

theorem OrderBook.Inv.hold_nonneg (h : book.Inv pair) : 0 ≤ book.hold account :=
  (List.sum_nonneg (h.share_nonneg account true)).trans (h.side_le_hold account true)

end Nonneg

/-! ## Receipts -/

/-- Every receipt of a withdrawal is kept under its id and passed the format checks. -/
def EngineState.Receipts (s : EngineState) : Prop :=
  ∀ id r, s.withdrawalReceipts.lookup id = some r →
    r.original.withdrawalId = id ∧ Withdrawal.checkFormat r.original = .ok ()

theorem EngineState.Receipts.put {s : EngineState} (h : s.Receipts) {funds : WithdrawalFunds}
    (hformat : Withdrawal.checkFormat funds = .ok ()) (status : Status) :
    (Withdrawal.putReceipt funds status s).Receipts := by
  intro id r hr
  change (s.withdrawalReceipts.insert _ _).lookup id = some r at hr
  rw [lookup_insert_eq] at hr
  split at hr
  · next hid =>
    cases hr
    exact ⟨hid.symm, hformat⟩
  · exact h id r hr

theorem Effect.receipts {s s' : EngineState} {command : Command} {outcome : Outcome}
    (h : Effect s command outcome s') (hs : s.Receipts) : s'.Receipts := by
  cases h with
  | withdrawal step =>
    cases step with
    | repeated => exact hs
    | rejected hformat => exact hs.put hformat _
    | performed hformat _ hstep =>
      refine EngineState.Receipts.put (s := s.setCache _) ?_ hformat _
      exact hs
  | deposit step => cases step <;> exact hs
  | depositFailed step => cases step <;> exact hs
  | _ => exact hs

theorem Withdrawal.amount_of_checkFormat {funds : WithdrawalFunds}
    (h : checkFormat funds = .ok ()) : ∃ v, units funds.amount = .ok v ∧ 0 < v := by
  simp only [checkFormat, bind_eq_ok, ensure_eq_ok, exists_const] at h
  obtain ⟨-, -, hpos, v, hv, -⟩ := h
  exact ⟨v, hv, (pos_iff_units hv).mp hpos⟩

theorem EngineState.Receipts.nonneg {s : EngineState} (h : s.Receipts) (account : Account) :
    ∀ id r, s.withdrawalReceipts.lookup id = some r → 0 ≤ r.reservedFor account := by
  intro id r hr
  obtain ⟨v, hv, hpos⟩ := Withdrawal.amount_of_checkFormat (h id r hr).2
  unfold WithdrawalReceipt.reservedFor
  split
  · rw [unitsOf_eq hv]
    exact hpos.le
  · exact le_rfl

/-! ## The invariant -/

/-- **The reserves of a state**: every account has locked at least what its orders and
withdrawals hold, and every share is a number of units that a decimal denotes. -/
structure EngineState.Reserves (s : EngineState) : Prop where
  inv : s.Inv
  receipts : s.Receipts
  covered : ∀ account, 0 ≤ s.surplus account
  exactBuys : s.Holds ExactBuy
  representable : s.Holds fun buy o => Representable (o.backing buy)

namespace EngineState.Reserves

variable {s : EngineState} (h : s.Reserves) (account : Account)

include h

theorem hold_le_total {pair : TradingPair} {book : OrderBook}
    (hbook : s.orderbooks.lookup pair = some book) : book.hold account ≤ s.heldByOrders account :=
  le_total (fun _ _ hb => (h.inv.books _ _ hb).hold_nonneg account) hbook

/-- The locked balance covers the orders of a book. -/
theorem hold_le_locked {pair : TradingPair} {book : OrderBook}
    (hbook : s.orderbooks.lookup pair = some book) : book.hold account ≤ s.lockedUnits account := by
  have hsurplus := h.covered account
  have hbooks := h.hold_le_total account hbook
  have hreceipts : 0 ≤ s.heldByWithdrawals account := total_nonneg (h.receipts.nonneg account)
  unfold surplus at hsurplus
  omega

/-- The locked balance covers every resting order. -/
theorem backing_le_locked {pair : TradingPair} {book : OrderBook}
    (hbook : s.orderbooks.lookup pair = some book) {buy : Bool} {o : OrderEntry}
    (ho : o ∈ (book.side buy).flat) : o.backing buy ≤ s.lockedUnits (o.account buy) := by
  have hinv := h.inv.books _ _ hbook
  refine le_trans ?_ (h.hold_le_locked (o.account buy) hbook)
  refine le_trans ?_ (hinv.side_le_hold (o.account buy) buy)
  have hself : o.backing buy = o.hold (o.account buy) buy := (if_pos rfl).symm
  rw [hself]
  exact List.single_le_sum (hinv.share_nonneg _ buy) _ (List.mem_map_of_mem ho)

/-- The locked balance covers every reserved withdrawal. -/
theorem reserved_le_locked {id : Uuid} {r : WithdrawalReceipt}
    (hr : s.withdrawalReceipts.lookup id = some r) (hstatus : r.status = .reserved) :
    unitsOf r.original.amount ≤ s.lockedUnits (r.original.userId, r.original.asset) := by
  have hsurplus := h.covered (r.original.userId, r.original.asset)
  have hbooks : 0 ≤ s.heldByOrders (r.original.userId, r.original.asset) :=
    total_nonneg fun _ _ hb => (h.inv.books _ _ hb).hold_nonneg _
  have hreceipt := le_total (h.receipts.nonneg (r.original.userId, r.original.asset)) hr
  have hself : r.reservedFor (r.original.userId, r.original.asset) = unitsOf r.original.amount :=
    if_pos ⟨hstatus, rfl⟩
  rw [hself] at hreceipt
  unfold surplus heldByWithdrawals at hsurplus
  omega

omit h in
theorem lockedUnits_nonneg (hinv : s.Inv) : 0 ≤ s.lockedUnits account := by
  obtain ⟨-, y, hy⟩ := hinv.balances.balanceAt account
  rw [lockedUnits, unitsOf_eq hy]
  exact units_nonneg hy

/-- The locked balance covers the book an order meets, whether it exists yet or not. -/
theorem bookOf_hold_le (order : OrderEntry) :
    (Submission.bookOf s.orderbooks order).hold account ≤ s.lockedUnits account := by
  unfold Submission.bookOf
  cases hbook : s.orderbooks.lookup order.pair with
  | none => exact lockedUnits_nonneg account h.inv
  | some book => exact h.hold_le_locked account hbook

/-- **A submission finds enough locked** once it has reserved what it may pay. -/
theorem funded {order : OrderEntry} {plan : MatchPlan} {fills : List Fill} {x : Decimal}
    {c : BalanceCache}
    (hplan : planOrder order (Submission.bookOf s.orderbooks order) = .ok plan)
    (hmatch : plan.matchList = fills.map (Fill.trade plan.makerBuy order))
    (hfills : FillsOf ((Submission.bookOf s.orderbooks order).side plan.makerBuy) fills)
    (hx : Submission.reservedAmount order = .ok x)
    (hlock : (BalanceCache.lockBalance order.userId (Submission.refundMint order) x).exec s.cache =
      .ok c) : Funded order plan.makerBuy fills c := by
  have hbook := h.inv.bookOf order
  obtain ⟨d, os, fills', hplanned⟩ := Submission.planned hplan
  obtain ⟨u, hu⟩ := Mut.exec_eq_ok_iff.mp hlock
  obtain ⟨v, hv, -, hmoves⟩ := BalanceCache.changeReservation_moves hu
  have hside : (!plan.makerBuy) = decide (order.orderType = "buy") :=
    hplanned.advance.not_makerBuy hplanned.valid
  have haccount : order.account (!plan.makerBuy) = (order.userId, Submission.refundMint order) := by
    rw [OrderEntry.account, hside, Submission.refundMint]
    simp only [decide_eq_true_eq]
  refine ⟨hmoves.valid h.inv.balances, fun account hother => ?_, ?_⟩
  · have hsame : unitsOf (c.balanceAt account).locked = s.lockedUnits account := by
      have hne : (order.userId, Submission.refundMint order) ≠ account := fun heq =>
        hother (congrArg Prod.fst heq).symm
      rw [hmoves.locked account, BalanceCache.reservation, Ledger.lockedAt_single, if_neg hne,
        add_zero]
      rfl
    obtain ⟨others, hperm, -⟩ := hfills.flat_perm (hbook.side_ids plan.makerBuy)
    have hsum := (hperm.map (OrderEntry.hold account plan.makerBuy)).sum_eq
    rw [List.map_append, List.sum_append, List.map_map] at hsum
    have hothers : 0 ≤ (others.map (OrderEntry.hold account plan.makerBuy)).sum := by
      refine List.sum_nonneg fun y hy => hbook.share_nonneg account plan.makerBuy y ?_
      exact (hperm.map _).mem_iff.mpr (by rw [List.map_append]; exact List.mem_append_right _ hy)
    have hle := (hbook.side_le_hold account plan.makerBuy).trans (h.bookOf_hold_le account order)
    rw [hsame]
    change (fills.map (OrderEntry.hold account plan.makerBuy ∘ Fill.maker)).sum ≤ _
    omega
  · have hpaid : (fills.map (Fill.taken !plan.makerBuy)).sum =
        Submission.usedBy order plan.matchList := by
      rw [Submission.usedBy, hmatch, List.map_map]
      exact congrArg List.sum (List.map_congr_left fun f hf =>
        Submission.taken_eq_paidFor (hfills.ok f hf) hside)
    have hlocked := lockedUnits_nonneg (order.userId, Submission.refundMint order) h.inv
    have hused := hplanned.used_le hx hv
    rw [haccount, hpaid, hmoves.locked, BalanceCache.reservation, Ledger.lockedAt_single,
      if_pos rfl]
    change _ ≤ s.lockedUnits _ + v
    omega

end EngineState.Reserves

/-! ## Runs without standalone locks -/

/-- The commands that lock and unlock without an order or a withdrawal. -/
def Command.standalone : Command → Bool
  | .lock .. => true
  | .unlock .. => true
  | _ => false

theorem manualAt_eq_zero {command : Command} (h : command.standalone = false) (account : Account)
    (outcome : Outcome) : manualAt account (command, outcome) = 0 := by
  cases command with
  | lock => cases h
  | unlock => cases h
  | _ => rfl

/-- The settlement of an executed submission. -/
theorem Submission.apply_settled {books books' : Books} {executor executor' : Executor}
    {order : OrderEntry} {applied : AppliedSubmission} {plan : MatchPlan}
    (hplan : planOrder order (bookOf books order) = .ok plan)
    (hrun : (apply order).run (books, executor) = (.ok applied, (books', executor'))) :
    ∃ x c c', reservedAmount order = .ok x ∧
      (BalanceCache.lockBalance order.userId (refundMint order) x).exec executor.balanceCache = .ok c ∧
      settleAll plan.matchList c = .ok c' := by
  obtain ⟨plan', prepared, completion, book', hprep, -⟩ := apply_prepared hrun
  have hinPlace := staged_eq_inPlace executor.balanceCache books order hplan
  rw [show (⟨executor.balanceCache⟩ : Executor) = executor from rfl, hprep] at hinPlace
  obtain ⟨x, hx, h⟩ := bind_eq_ok.mp hinPlace.symm
  obtain ⟨c, hc, h⟩ := bind_eq_ok.mp h
  obtain ⟨c', hc', -⟩ := bind_eq_ok.mp h
  exact ⟨x, c, c', hx, hc, hc'⟩

/-- Every error of a submission is one of its read-only part. -/
theorem Submission.prepare_eq_error {books : Books} {executor : Executor} {order : OrderEntry}
    {message : String}
    (h : ((apply order).run (books, executor)).1 = .error (.err message)) :
    prepare order books executor = .error (.err message) := by
  simp only [apply, Mut.run_bind, Mut.run_get, Mut.run_lift] at h
  cases hprepare : prepare order books executor with
  | error e =>
    rw [hprepare] at h
    dsimp only at h
    exact congrArg Except.error (Except.error.inj h)
  | ok r =>
    rw [hprepare] at h
    dsimp only at h
    cases hcommit : r.1.commitBook (bookOf books order) with
    | error e =>
      rw [hcommit] at h
      have he : e = .err message := Except.error.inj h
      rw [he] at hcommit
      exact absurd hcommit (noErr_commitBook _ _ message)
    | ok book =>
      rw [hcommit] at h
      cases h

/-- **An order is rejected with the error of its read-only part.** -/
theorem Journal.prepare_of_rejected {s s' : EngineState} {order order' : OrderEntry}
    {message : String}
    (hrun : (Journal.apply (.submit order)).run s =
      (.ok (.applied (some (.rejected order' message))), s')) :
    Submission.prepare order s.orderbooks s.executor = .error (.err message) := by
  rcases Journal.apply_eq_ok hrun with ⟨hrep, -⟩ | ⟨-, ⟨output, hexecute, houtput⟩ | ⟨reason, -, h⟩⟩
  · cases hrep
  · cases houtput
    cases hlookup : s.submissions.lookup order.id with
    | some original =>
      rw [Journal.execute_resubmit hlookup, Prod.mk.injEq] at hexecute
      simp only [Journal.resubmit, bind_eq_ok, pure_eq_ok, reduceCtorEq, and_false, exists_false,
        false_and] at hexecute
    | none =>
      rw [Journal.execute_first_submit hlookup, Prod.mk.injEq] at hexecute
      have hreport := hexecute.1
      cases hresult : ((Submission.apply order).run (s.orderbooks, s.executor)).1 with
      | ok applied =>
        rw [hresult, Journal.report] at hreport
        cases hbatch : OutputBatch.ofSubmission applied with
        | error e =>
          rw [hbatch] at hreport
          cases hreport
        | ok batch =>
          rw [hbatch] at hreport
          obtain ⟨trades, -, hbatch⟩ := bind_eq_ok.mp hbatch
          obtain rfl := pure_eq_ok.mp hbatch
          cases hreport
      | error e =>
        rw [hresult] at hreport
        rcases e with message | site
        · cases hreport
          exact Submission.prepare_eq_error hresult
        · cases hreport
  · cases h

/-- What stays reserved for a remainder is a number of units that a decimal denotes. -/
theorem Submission.Applied.representable_remainder {books books' : Books}
    {cache cache' : BalanceCache} {order : OrderEntry} {applied : AppliedSubmission}
    {book' : OrderBook} {plan : MatchPlan} {d : Demand} {fills : List Fill} {δ : Ledger}
    {reserved remaining refund : ℤ} {p : Decimal}
    (h : Applied books cache order applied books' cache' book' plan d fills δ reserved remaining
      refund) (hrest : plan.remainder = some (p, plan.order)) :
    Representable (plan.order.backing !plan.makerBuy) := by
  have hbacking := h.remaining_backing (plan.order.account !plan.makerBuy)
  have hself : plan.order.hold (plan.order.account !plan.makerBuy) (!plan.makerBuy) =
      plan.order.backing !plan.makerBuy := if_pos rfl
  have haccount : (order.userId, refundMint order) = plan.order.account !plan.makerBuy := by
    rw [OrderEntry.account_congr h.advance.frame, h.advance.not_makerBuy h.valid,
      OrderEntry.account, refundMint]
    simp only [decide_eq_true_eq]
    rfl
  rw [hrest, Option.elim_some, hself, if_pos haccount] at hbacking
  obtain ⟨x, -, hx⟩ := h.remaining_eq
  rw [hbacking]
  exact ⟨x, hx⟩

/-- **One transition** keeps the reserves. -/
theorem Effect.reserves {s s' : EngineState} {command : Command} {outcome : Outcome}
    (h : Effect s command outcome s') (hcommand : command.standalone = false) (hs : s.Reserves) :
    s'.Reserves where
  inv := h.inv hs.inv
  receipts := h.receipts hs.receipts
  covered := fun account => by
    rw [h.surplus hs.inv account, manualAt_eq_zero hcommand, add_zero]
    exact hs.covered account
  exactBuys := h.exactBuy hs.inv hs.exactBuys
  representable := by
    refine h.holds_of_fills hs.inv hs.representable ?_ ?_
    · intro order applied books' executor' book' plan d fills δ reserved remaining refund _ _ hrun
        happlied hfills f hf hrest hmaker
      obtain ⟨x, c, c', hx, hlock, hsettle⟩ := Submission.apply_settled happlied.planned hrun
      have hmatch : plan.matchList = fills.map (Fill.trade plan.makerBuy order) := by
        rw [happlied.advance.matchList, happlied.advance.makerBuy]
        rfl
      have hbook := hs.inv.bookOf order
      rw [hmatch] at hsettle
      refine (hs.funded happlied.planned hmatch hfills hx hlock).representable_rest
        (fun g hg => ⟨hfills.ok g hg, ?_, ?_⟩) hsettle hf hmaker
      · obtain ⟨queue, hqueue, hmem⟩ := hfills.mem g hg
        exact (hbook.side _).resting _ _ hqueue _ hmem
      · exact of_decide_eq_true (List.mem_filter.mp (happlied.advance.mem_offers hg).2).2
    · intro order applied books' executor' book' plan d fills δ reserved remaining refund p _ _ _
        happlied hrest
      exact happlied.representable_remainder hrest

/-- **The reserves hold along every run** without standalone locks and unlocks. -/
theorem Run.reserves {s s' : EngineState} {history : List (Command × Outcome)}
    (h : Run s history s') (hhistory : ∀ e ∈ history, e.1.standalone = false) (hs : s.Reserves) :
    s'.Reserves := by
  induction h with
  | nil => exact hs
  | cons head _ ih =>
    exact ih (fun e he => hhistory e (List.mem_cons_of_mem _ he))
      ((Journal.apply_effect head).reserves (hhistory _ (List.mem_cons_self ..)) hs)

theorem EngineState.reserves_genesis {cache : BalanceCache} (h : cache.Valid) :
    (genesis cache).Reserves where
  inv := inv_genesis h
  receipts := fun id r hr => by
    change Finmap.lookup id (∅ : Finmap fun _ : Uuid => WithdrawalReceipt) = some r at hr
    rw [Finmap.lookup_empty] at hr
    cases hr
  covered := fun account => by
    have hbooks : (genesis cache).heldByOrders account = 0 := total_empty _
    have hreceipts : (genesis cache).heldByWithdrawals account = 0 := total_empty _
    rw [surplus, hbooks, hreceipts, sub_zero, sub_zero]
    exact Reserves.lockedUnits_nonneg account (inv_genesis h)
  exactBuys := fun pair book hbook => by
    change Finmap.lookup pair (∅ : Books) = some book at hbook
    rw [Finmap.lookup_empty] at hbook
    cases hbook
  representable := fun pair book hbook => by
    change Finmap.lookup pair (∅ : Books) = some book at hbook
    rw [Finmap.lookup_empty] at hbook
    cases hbook

end CexEngine
