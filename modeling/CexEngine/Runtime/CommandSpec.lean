import CexEngine.Runtime.Atomicity
import CexEngine.Runtime.SubmissionSpec

/-!
# What the other commands do

One lemma per command handler, in the form the transitions of the engine use: a
finished call is a movement of the balances together with what it wrote
elsewhere, and no call panics in a state with the invariant.

* `cancelOrder_ok`, `cancelOrder_noPanic`: cancellations;
* `completeBalance_moves`, `creditBalance_moves`, `changeBalance_moves`: the
  single writes of withdrawals, deposits and balance changes;
* `tradeOutputs_ok`: the published fees are the fees that were taken.
-/

namespace CexEngine

open Foundation Foundation.FiniteMap Foundation.Allocation Amount

/-! ## Cancellations -/

namespace Threads

theorem findResting_eq_some {side : OrderBookSide} {orderId : UInt64} {level : Decimal}
    {o : OrderEntry} (h : findResting side orderId = some (level, o)) :
    ∃ queue, side.orders.find? level = some queue ∧
      queue.find? (fun order => order.id == orderId) = some o := by
  obtain ⟨entry, hentry, hfound⟩ := List.exists_of_findSome?_eq_some h
  obtain ⟨o', ho', heq⟩ := Option.map_eq_some_iff.mp hfound
  cases heq
  exact ⟨entry.2, SortedMap.find?_of_mem hentry, ho'⟩

theorem findInBook_eq_some {book : OrderBook} {orderId : UInt64} {level : Decimal} {buy : Bool}
    {o : OrderEntry} (h : findInBook book orderId = some (level, buy, o)) :
    ∃ queue, (book.side buy).orders.find? level = some queue ∧
      queue.find? (fun order => order.id == orderId) = some o := by
  rcases Option.or_eq_some_iff.mp h with h | ⟨-, h⟩
  · obtain ⟨⟨l, o'⟩, hfind, heq⟩ := Option.map_eq_some_iff.mp h
    cases heq
    exact findResting_eq_some hfind
  · obtain ⟨⟨l, o'⟩, hfind, heq⟩ := Option.map_eq_some_iff.mp h
    cases heq
    exact findResting_eq_some hfind

/-- **What a finished cancellation did**: the order left its queue, and its
reservation went back. -/
structure Cancelled (books : Books) (cache : BalanceCache) (orderId userId : UInt64)
    (pair : TradingPair) (found : OrderEntry) (books' : Books) (cache' : BalanceCache)
    (book : OrderBook) (buy : Bool) (level : Decimal) (queue : List OrderEntry)
    (side' : OrderBookSide) (v : ℤ) : Prop where
  lookup : books.lookup pair = some book
  queue_eq : (book.side buy).orders.find? level = some queue
  found_eq : queue.find? (fun order => order.id == orderId) = some found
  owner : found.userId = userId
  books_eq : books' = books.insert pair (book.setSide buy side')
  removed : (book.side buy).removeOrder orderId level = .ok (some found, side')
  moves : BalanceCache.Moves cache cache' (BalanceCache.reservation
    (userId, if buy then found.quoteMint else found.baseMint) false v)
    [(userId, if buy then found.quoteMint else found.baseMint)]
  value : if buy then unitsOf level * unitsOf found.remainingAmount = v * FACTOR
    else unitsOf found.remainingAmount = v

theorem prepareCancel_ok {orderId userId : UInt64} {pair : TradingPair} {books : Books}
    {book : OrderBook} {level : Decimal} {buy : Bool} {found : OrderEntry} {unlock : Decimal}
    (h : prepareCancel orderId userId pair books = .ok (book, level, buy, found, unlock)) :
    books.lookup pair = some book ∧ findInBook book orderId = some (level, buy, found) ∧
      checkCancel userId pair level buy found = .ok () ∧
      (if buy then quote level found.remainingAmount else pure found.remainingAmount) = .ok unlock := by
  simp only [prepareCancel, bind_eq_ok, orErr_eq_ok] at h
  obtain ⟨book', hbook, ⟨level', buy', found'⟩, hfound, _, hcheck, h⟩ := h
  cases hb : buy' with
  | true =>
    simp only [hb, if_true, bind_eq_ok, ensure_eq_ok, pure_eq_ok, exists_const,
      Prod.mk.injEq] at h hfound hcheck
    obtain ⟨unlock', hunlock, -, rfl, rfl, rfl, rfl, rfl⟩ := h
    exact ⟨hbook, hfound, hcheck, hunlock⟩
  | false =>
    simp only [hb, Bool.false_eq_true, if_false, bind_eq_ok, ensure_eq_ok, pure_eq_ok, exists_const,
      Prod.mk.injEq] at h hfound hcheck
    obtain ⟨unlock', rfl, -, rfl, rfl, rfl, rfl, rfl⟩ := h
    exact ⟨hbook, hfound, hcheck, rfl⟩

/-- The order found is the user's, on the market. -/
theorem checkCancel_ok {userId : UInt64} {pair : TradingPair} {level : Decimal} {buy : Bool}
    {found : OrderEntry} (h : checkCancel userId pair level buy found = .ok ()) :
    found.userId = userId ∧ found.pair = pair := by
  simp only [checkCancel, bind_eq_ok, ensure_eq_ok, exists_const] at h
  obtain ⟨howner, -, -, hbase, hquote⟩ := h
  refine ⟨howner, ?_⟩
  rw [OrderEntry.pair, hbase, hquote]

/-- The executor's unlock is an unlock of its cache. -/
theorem unlockBalanceForCancel_ok {orderId userId : UInt64} {mint : String} {amount : Decimal}
    {e e' : Executor}
    (h : (Executor.unlockBalanceForCancel orderId userId mint amount).run e = (.ok (), e')) :
    (BalanceCache.unlockBalance userId mint amount).run e.balanceCache = (.ok (), e'.balanceCache) := by
  simp only [Executor.unlockBalanceForCancel, Executor.onCache, Mut.run_context, Mut.run_zoom,
    Prod.mk.injEq, withContext_eq_ok] at h
  obtain ⟨h1, rfl⟩ := h
  exact Prod.ext h1 rfl

/-- The parts of a finished cancellation. -/
theorem cancelOrder_parts {books books' : Books} {executor executor' : Executor}
    {orderId userId : UInt64} {pair : TradingPair} {found : OrderEntry}
    (h : (cancelOrder orderId userId pair).run (books, executor) = (.ok found, (books', executor'))) :
    ∃ book level buy unlock removed side',
      prepareCancel orderId userId pair books = .ok (book, level, buy, found, unlock) ∧
      (BalanceCache.unlockBalance userId (if buy then found.quoteMint else found.baseMint) unlock).run
        executor.balanceCache = (.ok (), executor'.balanceCache) ∧
      (book.side buy).removeOrder orderId level = .ok (removed, side') ∧
      books' = books.insert pair (book.setSide buy side') := by
  simp only [cancelOrder, Mut.run_bind_ok_iff, Mut.run_get, Mut.run_lift, Prod.mk.injEq,
    Except.ok.injEq, expect_eq_ok, Mut.run_modify, Mut.run_pure] at h
  obtain ⟨_, _, ⟨rfl, rfl⟩, ⟨book, level, buy, found', unlock⟩, _, ⟨hprep, rfl⟩, u, mid, hunlock,
    ⟨removed, side'⟩, _, ⟨hremove, rfl⟩, o, _, ⟨ho, rfl⟩, _, _, ⟨-, rfl⟩, rfl, heq⟩ := h
  rw [Mut.run_zoom, Prod.mk.injEq] at hunlock
  obtain ⟨hok, rfl⟩ := hunlock
  have hrun := unlockBalanceForCancel_ok (Prod.ext hok rfl)
  obtain ⟨rfl, rfl⟩ := Prod.mk.inj heq
  exact ⟨book, level, buy, unlock, removed, side', hprep, hrun, hremove, rfl⟩

/-- **A finished cancellation.** -/
theorem cancelOrder_ok {books books' : Books} {executor executor' : Executor}
    {orderId userId : UInt64} {pair : TradingPair} {found : OrderEntry}
    (h : (cancelOrder orderId userId pair).run (books, executor) = (.ok found, (books', executor'))) :
    ∃ book buy level queue side' v, Cancelled books executor.balanceCache orderId userId pair found
      books' executor'.balanceCache book buy level queue side' v := by
  obtain ⟨book, level, buy, unlock, removed, side', hprep, hrun, hremove, rfl⟩ := cancelOrder_parts h
  obtain ⟨hbook, hfound, hcheck, hvalue⟩ := prepareCancel_ok hprep
  obtain ⟨queue, hqueue, hfind⟩ := findInBook_eq_some hfound
  obtain ⟨v, hv, -, hmoves⟩ := BalanceCache.changeReservation_moves hrun
  have hremoved : removed = some found := by
    unfold OrderBookSide.removeOrder at hremove
    simp only [hqueue, hfind, bind_eq_ok, pure_eq_ok, Prod.mk.injEq] at hremove
    obtain ⟨n, -, hsome, -⟩ := hremove
    exact hsome.symm
  refine ⟨book, buy, level, queue, side', v, hbook, hqueue, hfind, (checkCancel_ok hcheck).1, rfl, ?_,
    hmoves, ?_⟩
  · rw [hremove, hremoved]
  · cases buy with
    | true =>
      obtain ⟨x, y, z, hx, hy, hz, hxyz⟩ := quote_ok hvalue
      rw [if_pos rfl, unitsOf_eq hx, unitsOf_eq hy, hxyz, Except.ok.inj (hv.symm.trans hz)]
    | false =>
      obtain rfl := pure_eq_ok.mp hvalue
      rw [if_neg Bool.false_ne_true]
      exact unitsOf_eq hv

theorem noPanic_prepareCancel (orderId userId : UInt64) (pair : TradingPair) (books : Books) :
    NoPanic (prepareCancel orderId userId pair books) := by
  refine noPanic_orErr.bind fun _ _ => noPanic_orErr.bind fun r _ => ?_
  obtain ⟨level, buy, found⟩ := r
  refine NoPanic.bind (noPanic_ensure.bind fun _ _ => noPanic_ensure.bind fun _ _ =>
    noPanic_ensure.bind fun _ _ => noPanic_ensure) fun _ _ => ?_
  cases buy with
  | true => exact (noPanic_quote _ _).bind fun _ _ => noPanic_ensure.bind fun _ _ => noPanic_ok _
  | false => exact (noPanic_ok _).bind fun _ _ => noPanic_ensure.bind fun _ _ => noPanic_ok _

/-- **In a book with the invariant a cancellation does not panic.** -/
theorem cancelOrder_noPanic {books : Books} {executor : Executor} {orderId userId : UInt64}
    {pair : TradingPair} (hbooks : ∀ book, books.lookup pair = some book → book.Inv pair) :
    Mut.NoPanic (cancelOrder orderId userId pair) (books, executor) := by
  refine Mut.NoPanic.bind (fun site s' h => by cases h) fun _ _ hget => ?_
  cases hget
  refine (Mut.noPanic_lift (noPanic_prepareCancel _ _ _ _) _).bind fun r _ hprep => ?_
  rw [Mut.run_lift, Prod.mk.injEq] at hprep
  obtain ⟨hprep, rfl⟩ := hprep
  obtain ⟨book, level, buy, found, unlock⟩ := r
  obtain ⟨hbook, hfound, -, -⟩ := prepareCancel_ok hprep
  obtain ⟨queue, hqueue, hfind⟩ := findInBook_eq_some hfound
  obtain ⟨side', hremove, -⟩ :=
    OrderBookSide.removeOrder_ok ((hbooks book hbook).side buy) hqueue hfind
  refine Mut.NoPanic.bind ?_ fun _ _ _ => ?_
  · intro site s' h
    rw [Mut.run_zoom, Prod.mk.injEq] at h
    have hpanic := h.1
    simp only [Executor.unlockBalanceForCancel, Executor.onCache, Mut.run_context,
      Mut.run_zoom] at hpanic
    refine (NoPanic.withContext fun site h => ?_) site hpanic
    exact BalanceCache.noPanic_changeReservation _ _ _ _ _ site _ (Prod.ext h rfl)
  · show Mut.NoPanic (liftM ((book.side buy).removeOrder orderId level) >>= _) _
    rw [hremove]
    exact (Mut.noPanic_lift (noPanic_ok _) _).bind fun r _ hr => by
      cases hr
      exact (Mut.noPanic_lift (noPanic_ok found) _).bind fun _ _ _ site s' h => by cases h

end Threads

/-! ## Single writes -/

/-- The available amount a write through `get_balance_mut` starts from. -/
theorem available_eq (c : BalanceCache) (userId : UInt64) (mint : String) :
    ((c.getBalance userId mint).map (·.available)).getD 0 = (c.balanceAt (userId, mint)).available := by
  unfold BalanceCache.balanceAt BalanceCache.getBalance
  cases c.balances.lookup (userId, mint) <;> rfl

theorem Withdrawal.completeBalance_moves {funds : WithdrawalFunds} {c c' : BalanceCache}
    (h : (Withdrawal.completeBalance funds).run c = (.ok (), c')) :
    ∃ v, units funds.amount = .ok v ∧ BalanceCache.Moves c c'
      (Finsupp.single (funds.userId, funds.asset) (0, -v)) [(funds.userId, funds.asset)] := by
  simp only [Withdrawal.completeBalance, Mut.run_bind_ok_iff, Mut.run_get, Mut.run_lift,
    Prod.mk.injEq, Except.ok.injEq, orErr_eq_ok, Mut.run_modify] at h
  obtain ⟨_, _, ⟨rfl, rfl⟩, old, _, ⟨hold, rfl⟩, next, _, ⟨hnext, rfl⟩, -, rfl⟩ := h
  obtain ⟨l, v, hl, hv, hlv⟩ := subtract_ok hnext
  have hmove := BalanceCache.setLocked_moves c funds.userId funds.asset hlv
  rw [BalanceCache.balanceAt_of_getBalance hold, unitsOf_eq hl, sub_sub_cancel_left] at hmove
  exact ⟨v, hv, hmove⟩

theorem Deposit.creditBalance_moves {credit : DepositCredit} {c c' : BalanceCache}
    {output : Option OutputBatch}
    (h : (Deposit.creditBalance credit).run c = (.ok output, c')) :
    output = some (.depositCredited credit) ∧ ∃ v, units credit.amount = .ok v ∧
      BalanceCache.Moves c c' (Finsupp.single (credit.userId, credit.asset) (v, 0))
        [(credit.userId, credit.asset)] := by
  simp only [Deposit.creditBalance, Mut.run_bind_ok_iff, Mut.run_get, Mut.run_lift, Mut.run_pure,
    Prod.mk.injEq, Except.ok.injEq, Mut.run_modify] at h
  obtain ⟨_, _, ⟨rfl, rfl⟩, next, _, ⟨hnext, rfl⟩, -, _, ⟨-, rfl⟩, rfl, rfl⟩ := h
  rw [available_eq] at hnext
  obtain ⟨a, v, ha, hv, hav⟩ := add_ok hnext
  have hmove := BalanceCache.setAvailable_moves c credit.userId credit.asset hav
  rw [unitsOf_eq ha, add_sub_cancel_left] at hmove
  exact ⟨rfl, v, hv, hmove⟩

/-- The units of a negative amount. -/
theorem unitsOf_of_neg {d : Decimal} {v : ℤ} (hd : d < 0) (h : units d.abs = .ok v) :
    unitsOf d = -v ∧ Whole d := by
  have hraw := raw_eq_of_units h
  rw [Decimal.raw_abs_of_nonpos hd] at hraw
  have hd' : d.raw = -v * 10 ^ 19 := by linarith
  have hunits : unitsOf d = -v := by rw [unitsOf, hd', Int.mul_ediv_cancel _ (by norm_num)]
  refine ⟨hunits, ?_⟩
  rw [Whole, hunits]
  exact hd'

theorem Journal.changeBalance_moves {userId : UInt64} {mint : String} {delta : Decimal}
    {c c' : BalanceCache} (h : (Journal.changeBalance userId mint delta).run c = (.ok (), c')) :
    Whole delta ∧
      BalanceCache.Moves c c' (Finsupp.single (userId, mint) (unitsOf delta, 0)) [(userId, mint)] := by
  unfold Journal.changeBalance at h
  by_cases hdelta : 0 ≤ delta
  · simp only [if_pos hdelta, Mut.run_bind_ok_iff, Mut.run_get, Mut.run_lift, Prod.mk.injEq,
      Except.ok.injEq, Mut.run_modify] at h
    obtain ⟨_, _, ⟨rfl, rfl⟩, next, _, ⟨hnext, rfl⟩, -, rfl⟩ := h
    rw [available_eq] at hnext
    obtain ⟨a, v, ha, hv, hav⟩ := add_ok hnext
    have hmove := BalanceCache.setAvailable_moves c userId mint hav
    rw [unitsOf_eq ha, add_sub_cancel_left] at hmove
    rw [unitsOf_eq hv]
    exact ⟨whole_of_units hv, hmove⟩
  · simp only [if_neg hdelta, Mut.run_bind_ok_iff, Mut.run_get, Mut.run_lift, Prod.mk.injEq,
      Except.ok.injEq, Mut.run_modify] at h
    obtain ⟨_, _, ⟨rfl, rfl⟩, next, _, ⟨hnext, rfl⟩, -, rfl⟩ := h
    rw [available_eq] at hnext
    obtain ⟨a, v, ha, hv, hav⟩ := subtract_ok hnext
    have hmove := BalanceCache.setAvailable_moves c userId mint hav
    rw [unitsOf_eq ha, sub_sub_cancel_left] at hmove
    have hneg : delta < 0 := by
      rw [Decimal.le_def] at hdelta
      exact Decimal.lt_def.mpr (not_le.mp hdelta)
    obtain ⟨hunits, hwhole⟩ := unitsOf_of_neg hneg hv
    rw [hunits]
    exact ⟨hwhole, hmove⟩

/-! ## Withdrawals -/

namespace Withdrawal

/-- The balance change of a withdrawal command. -/
def balanceStep (command : WithdrawalCommand) : Mut BalanceCache Unit :=
  match command.action with
  | .reserve =>
    BalanceCache.lockBalance command.funds.userId command.funds.asset command.funds.amount
  | .release =>
    BalanceCache.unlockBalance command.funds.userId command.funds.asset command.funds.amount
  | .complete => completeBalance command.funds

/-- The movement of a withdrawal command, for an amount of `v` units. -/
noncomputable def stepDelta (command : WithdrawalCommand) (v : ℤ) : Ledger :=
  match command.action with
  | .reserve => BalanceCache.reservation (command.funds.userId, command.funds.asset) true v
  | .release => BalanceCache.reservation (command.funds.userId, command.funds.asset) false v
  | .complete => Finsupp.single (command.funds.userId, command.funds.asset) (0, -v)

theorem balanceStep_moves {command : WithdrawalCommand} {c c' : BalanceCache}
    (h : (balanceStep command).run c = (.ok (), c')) :
    ∃ v, units command.funds.amount = .ok v ∧ BalanceCache.Moves c c' (stepDelta command v)
      [(command.funds.userId, command.funds.asset)] := by
  unfold balanceStep at h
  unfold stepDelta
  cases hact : command.action with
  | reserve =>
    rw [hact] at h
    obtain ⟨v, hv, -, hmoves⟩ := BalanceCache.changeReservation_moves h
    exact ⟨v, hv, hmoves⟩
  | release =>
    rw [hact] at h
    obtain ⟨v, hv, -, hmoves⟩ := BalanceCache.changeReservation_moves h
    exact ⟨v, hv, hmoves⟩
  | complete =>
    rw [hact] at h
    exact completeBalance_moves h

theorem balanceStep_cases (command : WithdrawalCommand) (c : BalanceCache) :
    (∃ c', (balanceStep command).run c = (.ok (), c')) ∨
      ∃ reason, (balanceStep command).run c = (.error (.err reason), c) := by
  have hcases : (∃ a c', (balanceStep command).run c = (.ok a, c')) ∨
      ∃ reason, (balanceStep command).run c = (.error (.err reason), c) := by
    unfold balanceStep
    cases command.action with
    | reserve =>
      exact (BalanceCache.noPanic_changeReservation _ _ _ _ c).cases
        (BalanceCache.changeReservation_atomic _ _ _ _)
    | release =>
      exact (BalanceCache.noPanic_changeReservation _ _ _ _ c).cases
        (BalanceCache.changeReservation_atomic _ _ _ _)
    | complete =>
      refine Mut.NoPanic.cases ?_ (completeBalance_atomic _)
      refine Mut.NoPanic.bind (fun site s' h => by cases h) fun _ _ _ => ?_
      exact (Mut.noPanic_lift noPanic_orErr _).bind fun _ _ _ => (Mut.noPanic_lift
        (noPanic_subtract _ _) _).bind fun _ _ _ site s' h => by cases h
  rcases hcases with ⟨a, c', h⟩ | h
  · exact Or.inl ⟨c', h⟩
  · exact Or.inr h

/-- **What a withdrawal command can do**: be refused, repeat the step the receipt
is in, be rejected for funds on its first reservation, or perform a step. -/
inductive Step (s : EngineState) (command : WithdrawalCommand) :
    Except String (Option OutputBatch) → EngineState → Prop
  | refused {reason : String} : Step s command (.error reason) s
  | repeated {receipt : WithdrawalReceipt} (format : checkFormat command.funds = .ok ())
      (lookup : s.withdrawalReceipts.lookup command.funds.withdrawalId = some receipt)
      (same : receipt.original.Same command.funds)
      (status : receipt.status = nextStatus command.action) :
      Step s command (.ok none) s
  | rejected {reason : String} (format : checkFormat command.funds = .ok ())
      (lookup : s.withdrawalReceipts.lookup command.funds.withdrawalId = none)
      (action : command.action = .reserve)
      (failed : (balanceStep command).run s.cache = (.error (.err reason), s.cache)) :
      Step s command (.ok (some (.withdrawalRejected command.funds reason)))
        (putReceipt command.funds (.rejected reason) s)
  | performed {c' : BalanceCache} (format : checkFormat command.funds = .ok ())
      (receipt : checkReceipt (s.withdrawalReceipts.lookup command.funds.withdrawalId) command =
        .ok none)
      (step : (balanceStep command).run s.cache = (.ok (), c')) :
      Step s command (.ok (some (.withdrawalChanged command)))
        (putReceipt command.funds (nextStatus command.action) (s.setCache c'))

/-- A command proceeds on its first reservation, or as the release or the
completion of a reservation. -/
theorem checkReceipt_eq_none {receipt : Option WithdrawalReceipt} {command : WithdrawalCommand} :
    checkReceipt receipt command = .ok none ↔
      (receipt = none ∧ command.action = .reserve) ∨
        ∃ r, receipt = some r ∧ r.original.Same command.funds ∧ r.status = .reserved ∧
          command.action ≠ .reserve := by
  cases receipt with
  | none =>
    simp only [checkReceipt, bind_eq_ok, ensure_eq_ok, pure_eq_ok, exists_const]
    simp
  | some r =>
    simp only [checkReceipt, bind_eq_ok, ensure_eq_ok, exists_const, reduceCtorEq, false_and,
      false_or, Option.some.injEq, exists_eq_left']
    cases r.status <;> cases command.action <;> simp [pure_eq_ok]

/-- A command repeats the step the receipt is in. -/
theorem checkReceipt_eq_some {receipt : Option WithdrawalReceipt} {command : WithdrawalCommand}
    {answer : Option OutputBatch} :
    checkReceipt receipt command = .ok (some answer) ↔ none = answer ∧
      ∃ r, receipt = some r ∧ r.original.Same command.funds ∧
        r.status = nextStatus command.action := by
  cases receipt with
  | none =>
    simp only [checkReceipt, bind_eq_ok, ensure_eq_ok, pure_eq_ok, exists_const]
    simp
  | some r =>
    simp only [checkReceipt, bind_eq_ok, ensure_eq_ok, exists_const, Option.some.injEq,
      exists_eq_left']
    cases r.status <;> cases command.action <;> simp [pure_eq_ok, nextStatus, and_comm]

theorem noPanic_checkReceipt (receipt : Option WithdrawalReceipt) (command : WithdrawalCommand) :
    NoPanic (checkReceipt receipt command) := by
  unfold checkReceipt
  split
  · refine noPanic_ensure.bind fun _ _ => ?_
    split
    all_goals first
      | exact noPanic_ok _
      | exact fun site h => by cases h
  · exact noPanic_ensure.bind fun _ _ => noPanic_ok _

theorem noPanic_checkFormat (funds : WithdrawalFunds) : NoPanic (checkFormat funds) :=
  noPanic_ensure.bind fun _ _ => noPanic_ensure.bind fun _ _ => noPanic_ensure.bind fun _ _ =>
    (noPanic_units _).bind fun _ _ => noPanic_ok _

section Proceed

variable {s : EngineState} {command : WithdrawalCommand}

/-- A command that passes the checks and changes the balances. -/
theorem apply_of_ok {c' : BalanceCache} (hformat : checkFormat command.funds = .ok ())
    (hreceipt : checkReceipt (s.withdrawalReceipts.lookup command.funds.withdrawalId) command =
      .ok none) (hrun : (balanceStep command).run s.cache = (.ok (), c')) :
    (apply command).run s = (.ok (some (.withdrawalChanged command)),
      putReceipt command.funds (nextStatus command.action) (s.setCache c')) := by
  unfold balanceStep at hrun
  cases hact : command.action with
  | reserve =>
    rw [hact] at hrun
    have hzoom : (EngineState.onCache (BalanceCache.lockBalance command.funds.userId
        command.funds.asset command.funds.amount)).run s = (.ok (), s.setCache c') := by
      rw [EngineState.onCache, Mut.run_zoom, hrun]
    simp only [apply, Mut.run_bind, hformat, Mut.run_lift, Mut.run_get, hreceipt, hact,
      Mut.run_attempt_ok hzoom, Mut.run_modify, Mut.run_pure]
  | release =>
    rw [hact] at hrun
    simp only [apply, Mut.run_bind, hformat, Mut.run_lift, Mut.run_get, hreceipt, hact,
      EngineState.onCache, Mut.run_zoom, hrun, Mut.run_modify, Mut.run_pure]
  | complete =>
    rw [hact] at hrun
    simp only [apply, Mut.run_bind, hformat, Mut.run_lift, Mut.run_get, hreceipt, hact,
      EngineState.onCache, Mut.run_zoom, hrun, Mut.run_modify, Mut.run_pure]

/-- A command that passes the checks and is refused by the balances: a first
reservation leaves a receipt, anything else no trace. -/
theorem apply_of_err {reason : String} (hformat : checkFormat command.funds = .ok ())
    (hreceipt : checkReceipt (s.withdrawalReceipts.lookup command.funds.withdrawalId) command =
      .ok none) (hrun : (balanceStep command).run s.cache = (.error (.err reason), s.cache)) :
    (apply command).run s = if command.action = .reserve then
        (.ok (some (.withdrawalRejected command.funds reason)),
          putReceipt command.funds (.rejected reason) s)
      else (.error (.err reason), s) := by
  unfold balanceStep at hrun
  cases hact : command.action with
  | reserve =>
    rw [hact] at hrun
    have hzoom : (EngineState.onCache (BalanceCache.lockBalance command.funds.userId
        command.funds.asset command.funds.amount)).run s = (.error (.err reason), s) := by
      rw [EngineState.onCache, Mut.run_zoom, hrun]
      rfl
    rw [if_pos rfl]
    simp only [apply, Mut.run_bind, hformat, Mut.run_lift, Mut.run_get, hreceipt, hact,
      Mut.run_attempt_err hzoom, Mut.run_modify, Mut.run_pure]
  | release =>
    rw [hact] at hrun
    rw [if_neg (by decide)]
    simp only [apply, Mut.run_bind, hformat, Mut.run_lift, Mut.run_get, hreceipt, hact,
      EngineState.onCache, Mut.run_zoom, hrun]
    rfl
  | complete =>
    rw [hact] at hrun
    rw [if_neg (by decide)]
    simp only [apply, Mut.run_bind, hformat, Mut.run_lift, Mut.run_get, hreceipt, hact,
      EngineState.onCache, Mut.run_zoom, hrun]
    rfl

/-- A repetition of the step the receipt is in. -/
theorem apply_of_repeated {r : WithdrawalReceipt} (hformat : checkFormat command.funds = .ok ())
    (hr : s.withdrawalReceipts.lookup command.funds.withdrawalId = some r)
    (hsame : r.original.Same command.funds) (hstatus : r.status = nextStatus command.action) :
    (apply command).run s = (.ok none, s) := by
  have hreceipt := checkReceipt_eq_some.mpr ⟨rfl, r, hr, hsame, hstatus⟩
  simp only [apply, Mut.run_bind, hformat, Mut.run_lift, Mut.run_get, hreceipt, Mut.run_pure]

end Proceed

/-- **Every withdrawal command takes one of these steps**, in every state. -/
theorem apply_step (s : EngineState) (command : WithdrawalCommand) :
    ∃ result s', Step s command result s' ∧
      (apply command).run s = (result.mapError Fault.err, s') := by
  cases hformat : checkFormat command.funds with
  | error e =>
    rcases e with reason | site
    · refine ⟨.error reason, s, .refused, ?_⟩
      rw [apply, Mut.run_bind, hformat]
      rfl
    · exact absurd hformat (noPanic_checkFormat _ site)
  | ok u =>
    cases hreceipt : checkReceipt (s.withdrawalReceipts.lookup command.funds.withdrawalId) command with
    | error e =>
      rcases e with reason | site
      · refine ⟨.error reason, s, .refused, ?_⟩
        simp only [apply, Mut.run_bind, hformat, Mut.run_lift, Mut.run_get, hreceipt]
        rfl
      · exact absurd hreceipt (noPanic_checkReceipt _ _ site)
    | ok answer =>
      cases answer with
      | some answer =>
        obtain ⟨rfl, r, hr, hsame, hstatus⟩ := checkReceipt_eq_some.mp hreceipt
        exact ⟨.ok none, s, .repeated hformat hr hsame hstatus,
          apply_of_repeated hformat hr hsame hstatus⟩
      | none =>
        rcases balanceStep_cases command s.cache with ⟨c', hrun⟩ | ⟨reason, hrun⟩
        · exact ⟨_, _, .performed hformat hreceipt hrun, apply_of_ok hformat hreceipt hrun⟩
        · have happly := apply_of_err hformat hreceipt hrun
          by_cases hact : command.action = .reserve
          · rw [if_pos hact] at happly
            obtain ⟨hnone, -⟩ | ⟨r, -, -, -, hne⟩ := checkReceipt_eq_none.mp hreceipt
            · exact ⟨_, _, .rejected hformat hnone hact hrun, happly⟩
            · exact absurd hact hne
          · rw [if_neg hact] at happly
            exact ⟨.error reason, s, .refused, happly⟩

end Withdrawal

/-! ## Deposits -/

namespace Deposit

theorem noPanic_checkFormat (credit : DepositCredit) : NoPanic (checkFormat credit) :=
  noPanic_ensure.bind fun _ _ => noPanic_ensure.bind fun _ _ => noPanic_ensure.bind fun _ _ =>
    (noPanic_units _).bind fun _ _ => noPanic_ok _

/-- **What a deposit can do**: be refused, repeat one that was credited or
rejected, be rejected with a receipt, or be credited. -/
inductive Step (s : EngineState) (credit : DepositCredit) :
    Except String (Option OutputBatch) → EngineState → Prop
  | malformed {reason : String} (lookup : s.depositReceipts.lookup credit.depositId = none)
      (format : checkFormat credit = .error (.err reason)) : Step s credit (.error reason) s
  | conflict {receipt : DepositReceipt}
      (lookup : s.depositReceipts.lookup credit.depositId = some receipt)
      (differs : ¬ receipt.original.Same credit) :
      Step s credit (.error "Deposit id conflicts with original financial content") s
  | repeatedRejection {receipt : DepositReceipt} {reason : String}
      (lookup : s.depositReceipts.lookup credit.depositId = some receipt)
      (same : receipt.original.Same credit) (rejection : receipt.rejection = some reason) :
      Step s credit (.error reason) s
  | repeatedCredit {receipt : DepositReceipt}
      (lookup : s.depositReceipts.lookup credit.depositId = some receipt)
      (same : receipt.original.Same credit) (rejection : receipt.rejection = none) :
      Step s credit (.ok none) s
  | rejected {reason : String} (lookup : s.depositReceipts.lookup credit.depositId = none)
      (format : checkFormat credit = .ok ())
      (failed : (creditBalance credit).run s.cache = (.error (.err reason), s.cache)) :
      Step s credit (.error reason) (putReceipt credit (some reason) s)
  | credited {c' : BalanceCache} (lookup : s.depositReceipts.lookup credit.depositId = none)
      (format : checkFormat credit = .ok ())
      (step : (creditBalance credit).run s.cache = (.ok (some (.depositCredited credit)), c')) :
      Step s credit (.ok (some (.depositCredited credit))) (putReceipt credit none (s.setCache c'))

/-- **Every deposit takes one of these steps**, in every state. -/
theorem apply_step (s : EngineState) (credit : DepositCredit) :
    ∃ result s', Step s credit result s' ∧
      (apply credit).run s = (result.mapError Fault.err, s') := by
  cases hlookup : s.depositReceipts.lookup credit.depositId with
  | some receipt =>
    by_cases hsame : receipt.original.Same credit
    · have hens : ensure (receipt.original.Same credit)
          "Deposit id conflicts with original financial content" = .ok () := ensure_eq_ok.mpr hsame
      cases hrej : receipt.rejection with
      | some reason =>
        refine ⟨.error reason, s, .repeatedRejection hlookup hsame hrej, ?_⟩
        simp only [apply, Mut.run_bind, Mut.run_get, hlookup, hens, Mut.run_lift, hrej]
        rfl
      | none =>
        refine ⟨.ok none, s, .repeatedCredit hlookup hsame hrej, ?_⟩
        simp only [apply, Mut.run_bind, Mut.run_get, hlookup, hens, Mut.run_lift, hrej]
        rfl
    · refine ⟨_, s, .conflict hlookup hsame, ?_⟩
      have hens : ensure (receipt.original.Same credit)
          "Deposit id conflicts with original financial content" =
          .error (.err "Deposit id conflicts with original financial content") := if_neg hsame
      simp only [apply, Mut.run_bind, Mut.run_get, hlookup, hens, Mut.run_lift]
      rfl
  | none =>
    cases hformat : checkFormat credit with
    | error e =>
      rcases e with reason | site
      · refine ⟨.error reason, s, .malformed hlookup hformat, ?_⟩
        simp only [apply, Mut.run_bind, Mut.run_get, hlookup, hformat, Mut.run_lift]
        rfl
      · exact absurd hformat (noPanic_checkFormat _ site)
    | ok u =>
      have hnopanic : Mut.NoPanic (creditBalance credit) s.cache := by
        refine Mut.NoPanic.bind (fun site s' h => by cases h) fun _ _ _ => ?_
        exact (Mut.noPanic_lift (noPanic_add _ _) _).bind fun _ _ _ site s' h => by cases h
      rcases hnopanic.cases (creditBalance_atomic credit) with ⟨out, c', hrun⟩ | ⟨reason, hrun⟩
      · obtain ⟨rfl, -⟩ := creditBalance_moves hrun
        refine ⟨_, _, .credited hlookup hformat hrun, ?_⟩
        have hzoom : (EngineState.onCache (creditBalance credit)).run s =
            (.ok (some (.depositCredited credit)), s.setCache c') := by
          rw [EngineState.onCache, Mut.run_zoom, hrun]
        simp only [apply, Mut.run_bind, Mut.run_get, hlookup, hformat, Mut.run_lift,
          Mut.run_attempt_ok hzoom, Mut.run_modify, Mut.run_pure]
        rfl
      · refine ⟨.error reason, _, .rejected hlookup hformat hrun, ?_⟩
        have hzoom : (EngineState.onCache (creditBalance credit)).run s =
            (.error (.err reason), s) := by
          rw [EngineState.onCache, Mut.run_zoom, hrun]
          rfl
        simp only [apply, Mut.run_bind, Mut.run_get, hlookup, hformat, Mut.run_lift,
          Mut.run_attempt_err hzoom, Mut.run_modify]
        rfl

end Deposit

/-! ## Published trades -/

/-- The fees of a published trade in an asset, in units. -/
def TradeOutput.feeIn (asset : String) (output : TradeOutput) : ℤ :=
  (if output.trade.baseMint = asset then unitsOf output.buyerFee else 0) +
    if output.trade.quoteMint = asset then unitsOf output.sellerFee else 0

theorem tradeUnits_ok {trade : MatchResult} {amount value buyerFee sellerFee : ℤ}
    (h : BalanceCache.tradeUnits trade = .ok (amount, value, buyerFee, sellerFee)) :
    units trade.amount = .ok amount ∧ ∃ v b s, quote trade.price trade.amount = .ok v ∧
      units v = .ok value ∧ fee trade.amount trade.buyerFeeRate = .ok b ∧ units b = .ok buyerFee ∧
      fee v trade.sellerFeeRate = .ok s ∧ units s = .ok sellerFee := by
  simp only [BalanceCache.tradeUnits, bind_eq_ok, pure_eq_ok, Prod.mk.injEq] at h
  obtain ⟨a, ha, v, hv, w, hw, b, hb, bf, hbf, v', hv', s, hs, sf, hsf, rfl, rfl, rfl, rfl⟩ := h
  obtain rfl : v = v' := Except.ok.inj (hv.symm.trans hv')
  exact ⟨ha, v, b, s, hv, hw, hb, hbf, hs, hsf⟩

/-- The movement of a trade loses the fees, and nothing else. -/
theorem assetTotal_tradeDelta (asset : String) (trade : MatchResult)
    (amount value buyerFee sellerFee : ℤ) :
    Ledger.assetTotal asset (BalanceCache.tradeDelta trade amount value buyerFee sellerFee) =
      -((if trade.baseMint = asset then buyerFee else 0) +
        if trade.quoteMint = asset then sellerFee else 0) := by
  simp only [BalanceCache.tradeDelta, BalanceCache.tradeChanges, BalanceCache.Change.delta,
    List.map_cons, List.map_nil, List.sum_cons, List.sum_nil, map_add, map_zero,
    Ledger.assetTotal_single]
  split <;> split <;> ring

/-- A trade takes the price from what the buyer has locked, and the amount from
what the seller has. -/
theorem lockedAt_tradeDelta (account : Account) (trade : MatchResult)
    (amount value buyerFee sellerFee : ℤ) :
    Ledger.lockedAt account (BalanceCache.tradeDelta trade amount value buyerFee sellerFee) =
      -((if (trade.buyerId, trade.quoteMint) = account then value else 0) +
        if (trade.sellerId, trade.baseMint) = account then amount else 0) := by
  simp only [BalanceCache.tradeDelta, BalanceCache.tradeChanges, BalanceCache.Change.delta,
    List.map_cons, List.map_nil, List.sum_cons, List.sum_nil, map_add, map_zero,
    Ledger.lockedAt_single]
  split_ifs <;> ring

/-- **The published fees are the fees that were taken.** -/
theorem tradeOutputs_ok {trades : List MatchResult} {δ : Ledger}
    (h : Submission.Settles trades δ) :
    ∃ outputs, tradeOutputs trades = .ok outputs ∧ outputs.map TradeOutput.trade = trades ∧
      ∀ asset, Ledger.assetTotal asset δ = -(outputs.map (TradeOutput.feeIn asset)).sum := by
  induction h with
  | nil => exact ⟨[], rfl, rfl, fun asset => by rw [map_zero, List.map_nil, List.sum_nil, neg_zero]⟩
  | @cons trade trades δ amount value buyerFee sellerFee head tail ih =>
    obtain ⟨outputs, hout, htrades, hfees⟩ := ih
    obtain ⟨-, v, b, s, hv, -, hb, hbf, hs, hsf⟩ := tradeUnits_ok head.units_eq
    have hone : tradeOutput trade = .ok ⟨trade, b, s⟩ := by
      simp only [tradeOutput, bind_eq_ok, expectOk_eq_ok, pure_eq_ok]
      exact ⟨b, hb, v, hv, s, hs, rfl⟩
    refine ⟨⟨trade, b, s⟩ :: outputs, ?_, ?_, fun asset => ?_⟩
    · simp only [tradeOutputs, bind_eq_ok, pure_eq_ok]
      exact ⟨_, hone, _, hout, rfl⟩
    · rw [List.map_cons, htrades]
    · rw [map_add, assetTotal_tradeDelta, hfees, List.map_cons, List.sum_cons, TradeOutput.feeIn,
        unitsOf_eq hbf, unitsOf_eq hsf]
      ring

/-! ## Submissions and the dispatch -/

namespace Journal

/-- What the journal makes of the result of a command: an error is an outcome too. -/
def answer : Except Fault (Option OutputBatch) → Except Fault Outcome
  | .ok output => .ok (.applied output)
  | .error (.err reason) => .ok (.failed reason)
  | .error (.panic site) => .error (.panic site)

theorem apply_run {s : EngineState} {command : Command} (hrep : repeatedCancel s command = none) :
    (apply command).run s =
      (answer ((execute command).run s).1, ((execute command).run s).2) := by
  simp only [apply, Mut.run_bind, Mut.run_get, hrep]
  rcases hrun : (execute command).run s with ⟨(reason | site) | output, t⟩
  · rw [Mut.run_attempt_err hrun]
    rfl
  · rw [Mut.run_attempt_panic hrun]
    rfl
  · rw [Mut.run_attempt_ok hrun]
    rfl

theorem apply_of_repeatedCancel {s : EngineState} {command : Command} {outcome : Outcome}
    (hrep : repeatedCancel s command = some outcome) : (apply command).run s = (.ok outcome, s) := by
  simp only [apply, Mut.run_bind, Mut.run_get, hrep, Mut.run_pure]

/-- The outcome of a command, read backwards. -/
theorem apply_eq_ok {s s' : EngineState} {command : Command} {outcome : Outcome}
    (h : (apply command).run s = (.ok outcome, s')) :
    (repeatedCancel s command = some outcome ∧ s' = s) ∨
      (repeatedCancel s command = none ∧
        ((∃ output, (execute command).run s = (.ok output, s') ∧ outcome = .applied output) ∨
          ∃ reason, (execute command).run s = (.error (.err reason), s') ∧
            outcome = .failed reason)) := by
  cases hrep : repeatedCancel s command with
  | some outcome' =>
    rw [apply_of_repeatedCancel hrep] at h
    cases h
    exact Or.inl ⟨rfl, rfl⟩
  | none =>
    refine Or.inr ⟨rfl, ?_⟩
    rw [apply_run hrep] at h
    rcases hrun : (execute command).run s with ⟨(reason | site) | output, t⟩
    · rw [hrun] at h
      cases h
      exact Or.inr ⟨reason, rfl, rfl⟩
    · rw [hrun] at h
      cases h
    · rw [hrun] at h
      cases h
      exact Or.inl ⟨output, rfl, rfl⟩

theorem apply_of_execute_ok {s s' : EngineState} {command : Command} {output : Option OutputBatch}
    (hrep : repeatedCancel s command = none) (h : (execute command).run s = (.ok output, s')) :
    (apply command).run s = (.ok (.applied output), s') := by
  rw [apply_run hrep, h]
  rfl

theorem apply_of_execute_err {s s' : EngineState} {command : Command} {reason : String}
    (hrep : repeatedCancel s command = none)
    (h : (execute command).run s = (.error (.err reason), s')) :
    (apply command).run s = (.ok (.failed reason), s') := by
  rw [apply_run hrep, h]
  rfl

section Submit

variable {s : EngineState} {order : OrderEntry}

/-- A submission under an id that was used. -/
theorem execute_resubmit {original : OrderEntry}
    (h : s.submissions.lookup order.id = some original) :
    (execute (.submit order)).run s = (resubmit original order, s) := by
  simp only [execute, Mut.run_bind, Mut.run_get, h]
  rfl

/-- The market after a first submission was recorded and executed. -/
theorem run_onMarket_recorded {α : Type} (s : EngineState) (order : OrderEntry)
    (x : Mut (Books × Executor) α) :
    (EngineState.onMarket x).run (recorded order s) =
      ((x.run (s.orderbooks, s.executor)).1,
        { recorded order s with
          orderbooks := (x.run (s.orderbooks, s.executor)).2.1
          executor := (x.run (s.orderbooks, s.executor)).2.2 }) := rfl

/-- What a first submission reports. -/
def report (order : OrderEntry) : Except Fault AppliedSubmission → Except Fault (Option OutputBatch)
  | .ok applied => (OutputBatch.ofSubmission applied).map some
  | .error (.err reason) => .ok (some (.rejected order reason))
  | .error (.panic site) => .error (.panic site)

theorem execute_first_submit (h : s.submissions.lookup order.id = none) :
    (execute (.submit order)).run s =
      (report order ((Submission.apply order).run (s.orderbooks, s.executor)).1,
        { recorded order s with
          orderbooks := ((Submission.apply order).run (s.orderbooks, s.executor)).2.1
          executor := ((Submission.apply order).run (s.orderbooks, s.executor)).2.2 }) := by
  have hmarket := run_onMarket_recorded s order (Submission.apply order)
  simp only [execute, Mut.run_bind, Mut.run_get, h, Mut.run_modify]
  rcases hrun : (Submission.apply order).run (s.orderbooks, s.executor) with
    ⟨(reason | site) | applied, books', executor'⟩
  · rw [hrun] at hmarket
    rw [Mut.run_attempt_err hmarket]
    rfl
  · rw [hrun] at hmarket
    rw [Mut.run_attempt_panic hmarket]
    rfl
  · rw [hrun] at hmarket
    rw [Mut.run_attempt_ok hmarket]
    simp only [Mut.run_bind, Mut.run_lift, report]
    cases OutputBatch.ofSubmission applied <;> rfl

/-- A first submission that is refused. -/
theorem execute_submit_err {reason : String} (h : s.submissions.lookup order.id = none)
    (hrun : (Submission.apply order).run (s.orderbooks, s.executor) =
      (.error (.err reason), (s.orderbooks, s.executor))) :
    (execute (.submit order)).run s = (.ok (some (.rejected order reason)), recorded order s) := by
  rw [execute_first_submit h, hrun]
  rfl

/-- A first submission that is executed. -/
theorem execute_submit_ok {applied : AppliedSubmission} {books' : Books} {executor' : Executor}
    {trades : List TradeOutput} (h : s.submissions.lookup order.id = none)
    (hrun : (Submission.apply order).run (s.orderbooks, s.executor) =
      (.ok applied, (books', executor')))
    (htrades : tradeOutputs applied.matchList = .ok trades) :
    (execute (.submit order)).run s =
      (.ok (some (.submitted applied.orderId trades applied.completion)),
        { recorded order s with orderbooks := books', executor := executor' }) := by
  rw [execute_first_submit h, hrun, report, OutputBatch.ofSubmission, htrades]
  rfl

end Submit

end Journal

end CexEngine
