import CexEngine.Runtime.Isolation
import CexEngine.Runtime.Reserves

/-!
# Reserved funds can be claimed back

In a state with its reserves, a cancellation and the end of a withdrawal can fail for one reason only:
one of the two resulting balances is too large or is no decimal (`Unstorable`).  The locked balance
covers what is taken from it, the account exists, and the amount to unlock is a decimal.

A cancellation computes what it gives back from the resting order: what is left of the amount for a
sell, price times what is left for a buy.  Three things could go wrong there.

* The product of a buy could have more than nine digits behind the point, or be no decimal.  That the
  products of the resting buys are whole numbers of units, and that a decimal denotes them, is part of
  `Reserves` (`ExactBuy`, `Representable`), so the quote succeeds (`Reserves.unlock_eq`).
* The locked balance could be smaller.  It is the sum of what all orders and all reserved withdrawals
  of the account hold, so it is at least as large as one summand (`backing_le_locked`,
  `reserved_le_locked`).
* The order could not be found.  The source looks it up by id in the levels, and within the book ids
  are distinct (`OrderBook.Inv.findInBook_eq`).

What remains are the sums themselves.  The available balance grows by the amount and could pass the
largest storable one, and the locked balance, which is smaller than before, could be no decimal, since
a decimal has a mantissa of 96 bits; neither is excluded by the code, and the two disjuncts of the
result name them.

The same argument covers withdrawals, where the amount is that of the receipt.  For submissions the
result is stronger: the only error that speaks of too little, `Insufficient settlement balance`, is
never returned, because the fills of a plan are covered one after the other (`settleOn_sufficient`, from
`CexEngine.Runtime.Sufficient`).
-/

namespace CexEngine

open Foundation Foundation.FiniteMap Amount

/-! ## Amounts that cannot be stored -/

/-- A number of units above the largest amount, or that no decimal denotes. -/
def Unstorable (u : ℤ) : Prop := maxUnits < u ∨ ¬ ∃ d : Decimal, d.raw = u * 10 ^ 19

theorem representable_or_unstorable {u : ℤ} (hu : 0 ≤ u) : Representable u ∨ Unstorable u := by
  by_cases hle : u ≤ maxUnits
  · by_cases hd : ∃ d : Decimal, d.raw = u * 10 ^ 19
    · obtain ⟨d, hd⟩ := hd
      exact Or.inl ⟨d, units_eq_ok_iff.mpr ⟨hu, hle, hd⟩⟩
    · exact Or.inr (Or.inr hd)
  · exact Or.inr (Or.inl (not_le.mp hle))

namespace BalanceCache

variable {c : BalanceCache} {userId : UInt64} {mint : String} {value : Decimal} {v : ℤ}

/-- An account that has something locked exists. -/
theorem getBalance_of_locked (h : 0 < unitsOf (c.balanceAt (userId, mint)).locked) :
    c.getBalance userId mint = some (c.balanceAt (userId, mint)) := by
  unfold balanceAt getBalance at *
  cases hlookup : c.balances.lookup (userId, mint) with
  | none =>
    rw [hlookup] at h
    exact absurd h (by rw [Option.getD_none]; exact (unitsOf_eq units_zero).le.not_gt)
  | some b => rfl

/-- **An unlock that is covered** succeeds when both results can be stored. -/
theorem unlock_ok (hvalid : c.Valid) (hv : units value = .ok v) (hpos : 0 < v)
    (hcover : v ≤ unitsOf (c.balanceAt (userId, mint)).locked)
    (havailable : Representable (unitsOf (c.balanceAt (userId, mint)).available + v))
    (hlocked : Representable (unitsOf (c.balanceAt (userId, mint)).locked - v)) :
    ∃ c', (unlockBalance userId mint value).run c = (.ok (), c') := by
  obtain ⟨⟨x, hx⟩, y, hy⟩ := hvalid.balanceAt (userId, mint)
  have hget := getBalance_of_locked (hpos.trans_le hcover)
  rw [unitsOf_eq hx] at havailable
  rw [unitsOf_eq hy] at hlocked
  obtain ⟨a, ha, -⟩ := exists_add hx hv havailable
  obtain ⟨l, hl, -⟩ := exists_subtract hy hv hlocked
  have hens : ensure (0 < value) "Reservation amount must be positive" = .ok () :=
    ensure_eq_ok.mpr ((pos_iff_units hv).mpr hpos)
  simp only [unlockBalance, changeReservation, Mut.run_bind, Mut.run_lift, hens, hv, Mut.run_get,
    hget, orErr, Bool.false_eq_true, if_false, ha, hl, Mut.run_pure, Mut.run_modify]
  exact ⟨_, rfl⟩

end BalanceCache

/-! ## Cancellations -/

/-- What a cancellation of an order does: its reservation goes back to the available
balance, and the order leaves its queue. -/
structure Redeemed (s : EngineState) (pair : TradingPair) (book : OrderBook) (buy : Bool)
    (o : OrderEntry) (s' : EngineState) : Prop where
  available : unitsOf (s'.cache.balanceAt (o.account buy)).available =
    unitsOf (s.cache.balanceAt (o.account buy)).available + o.backing buy
  locked : s'.lockedUnits (o.account buy) = s.lockedUnits (o.account buy) - o.backing buy
  accounts : ∀ account, account ≠ o.account buy →
    s'.cache.balances.lookup account = s.cache.balances.lookup account
  books : ∀ pair', pair' ≠ pair → s'.orderbooks.lookup pair' = s.orderbooks.lookup pair'
  book : ∃ book', s'.orderbooks.lookup pair = some book' ∧ book'.side (!buy) = book.side (!buy) ∧
    ∀ price, ((book'.side buy).orders.find? price).getD [] =
      (((book.side buy).orders.find? price).getD []).erase o

section Cancel

variable {s : EngineState} {pair : TradingPair} {book : OrderBook} {buy : Bool} {o : OrderEntry}

/-- An order is found under its id. -/
theorem OrderBook.Inv.findInBook_eq (h : book.Inv pair) (ho : o ∈ (book.side buy).flat) :
    ∃ level queue, Threads.findInBook book o.id = some (level, buy, o) ∧
      (book.side buy).orders.find? level = some queue ∧
      queue.find? (fun order => order.id == o.id) = some o := by
  cases hfind : Threads.findInBook book o.id with
  | none =>
    have hside : ∀ buy, Threads.findResting (book.side buy) o.id = none := by
      rw [Threads.findInBook, Option.or_eq_none_iff, Option.map_eq_none_iff,
        Option.map_eq_none_iff] at hfind
      intro buy
      cases buy
      · exact hfind.2
      · exact hfind.1
    obtain ⟨p, queue, hqueue, hmem⟩ := OrderBookSide.mem_flat_iff.mp ho
    obtain ⟨k, -, hk⟩ := SortedMap.find?_eq_some_iff.mp hqueue
    have hnone := List.findSome?_eq_none_iff.mp (hside buy) _ hk
    exact absurd (List.find?_eq_none.mp (Option.map_eq_none_iff.mp hnone) o hmem) (by simp)
  | some r =>
    obtain ⟨level, buy', o'⟩ := r
    obtain ⟨queue, hqueue, hq⟩ := Threads.findInBook_eq_some hfind
    have hmem' : o' ∈ (book.side buy').flat :=
      OrderBookSide.mem_flat_iff.mpr ⟨_, _, hqueue, List.mem_of_find?_eq_some hq⟩
    have hid : o'.id = o.id := by simpa using List.find?_some hq
    -- ids are unique in a book, so it is this order, and on this side
    obtain rfl : o' = o := List.inj_on_of_nodup_map h.ids (OrderBook.mem_flat_iff.mpr ⟨_, hmem'⟩)
      (OrderBook.mem_flat_iff.mpr ⟨_, ho⟩) hid
    obtain ⟨_, hrest⟩ := h.resting_flat ho
    obtain ⟨_, hrest'⟩ := h.resting_flat hmem'
    obtain rfl : buy' = buy := by
      have hside := hrest.side.symm.trans hrest'.side
      cases buy <;> cases buy' <;> first | rfl | exact absurd hside (by decide)
    exact ⟨level, queue, rfl, hqueue, hq⟩

/-- **The unlock amount of a resting order** is a decimal, and denotes its backing. -/
theorem EngineState.Reserves.unlock_eq (hs : s.Reserves)
    (hbook : s.orderbooks.lookup pair = some book) (ho : o ∈ (book.side buy).flat) {level : Decimal}
    (hrest : Resting pair buy level o) :
    ∃ unlock, (if buy then quote level o.remainingAmount else pure o.remainingAmount) = .ok unlock ∧
      units unlock = .ok (o.backing buy) := by
  obtain ⟨-, -, p, a, f, r, hl⟩ := (validate_limit_iff hrest.limit).mp hrest.valid
  have hrep := hs.representable pair book hbook buy o ho
  unfold OrderEntry.backing at hrep ⊢
  cases buy with
  | true =>
    rw [if_pos rfl] at hrep
    obtain ⟨d, hd, hup, -⟩ := hl.price
    have hlevel : units level = .ok p := by
      have hraw : d.raw = level.raw := by
        have hprice := hrest.price
        rw [hd] at hprice
        exact Option.some.inj hprice
      exact (units_congr (Decimal.equiv_def.mpr hraw)).mp hup
    have hproduct : o.product = p * r := by
      rw [OrderEntry.product, hrest.priceUnits_eq, unitsOf_eq hlevel, unitsOf_eq hl.remaining]
    have hdvd : FACTOR ∣ o.product := hs.exactBuys pair book hbook true o ho rfl
    have hexact : p * r = o.product / FACTOR * FACTOR := by
      rw [← hproduct, Int.ediv_mul_cancel hdvd]
    exact exists_quote hlevel hl.remaining hrep hexact
  | false =>
    refine ⟨o.remainingAmount, rfl, ?_⟩
    rw [if_neg Bool.false_ne_true, unitsOf_eq hl.remaining]
    exact hl.remaining

/-- The read-only part of a cancellation by the owner succeeds. -/
theorem EngineState.Reserves.prepareCancel_eq (hs : s.Reserves)
    (hbook : s.orderbooks.lookup pair = some book) (ho : o ∈ (book.side buy).flat) :
    ∃ level queue unlock, Threads.prepareCancel o.id o.userId pair s.orderbooks =
        .ok (book, level, buy, o, unlock) ∧
      (book.side buy).orders.find? level = some queue ∧
      queue.find? (fun order => order.id == o.id) = some o ∧
      units unlock = .ok (o.backing buy) := by
  have hinv := hs.inv.books _ _ hbook
  obtain ⟨level, queue, hfind, hqueue, hq⟩ := hinv.findInBook_eq ho
  have hrest := (hinv.side buy).resting _ _ hqueue _ (List.mem_of_find?_eq_some hq)
  obtain ⟨unlock, hunlock, hunits⟩ := hs.unlock_eq hbook ho hrest
  refine ⟨level, queue, unlock, ?_, hqueue, hq, hunits⟩
  obtain ⟨-, -, p, a, f, r, hl⟩ := (validate_limit_iff hrest.limit).mp hrest.valid
  obtain ⟨d, hd, hup, -⟩ := hl.price
  have hraw : d.raw = level.raw := by
    have hprice := hrest.price
    rw [hd] at hprice
    exact Option.some.inj hprice
  have hcheck : Threads.checkCancel o.userId pair level buy o = .ok () := by
    simp only [Threads.checkCancel, bind_eq_ok, ensure_eq_ok, exists_const]
    refine ⟨trivial, ⟨hrest.limit, hrest.side⟩, ⟨hrest.price, ?_, ?_⟩, ?_⟩
    · exact (pos_iff_units ((units_congr (Decimal.equiv_def.mpr hraw)).mp hup)).mpr hl.price_pos
    · exact (pos_iff_units hl.remaining).mpr hl.remaining_pos
    · exact ⟨congrArg TradingPair.baseMint hrest.pair, congrArg TradingPair.quoteMint hrest.pair⟩
  have hcount : 0 < (book.side buy).totalOrders := by
    rw [(hinv.side buy).counter]
    exact List.length_pos_of_mem ho
  simp only [Threads.prepareCancel, bind_eq_ok, orErr_eq_ok]
  refine ⟨book, hbook, (level, buy, o), hfind, (), hcheck, ?_⟩
  cases buy with
  | true =>
    exact bind_eq_ok.mpr ⟨unlock, hunlock, bind_eq_ok.mpr ⟨(), ensure_eq_ok.mpr hcount, rfl⟩⟩
  | false =>
    exact bind_eq_ok.mpr ⟨unlock, hunlock, bind_eq_ok.mpr ⟨(), ensure_eq_ok.mpr hcount, rfl⟩⟩

/-- **A cancellation by the owner succeeds** when both results can be stored. -/
theorem EngineState.Reserves.cancel_ok (hs : s.Reserves)
    (hbook : s.orderbooks.lookup pair = some book) (ho : o ∈ (book.side buy).flat)
    (havailable : Representable
      (unitsOf (s.cache.balanceAt (o.account buy)).available + o.backing buy))
    (hlocked : Representable (s.lockedUnits (o.account buy) - o.backing buy)) :
    ∃ m', (Threads.cancelOrder o.id o.userId pair).run (s.orderbooks, s.executor) = (.ok o, m') := by
  have hinv := hs.inv.books _ _ hbook
  obtain ⟨level, queue, unlock, hprep, hqueue, hq, hunits⟩ := hs.prepareCancel_eq hbook ho
  have hrest := (hinv.side buy).resting _ _ hqueue _ (List.mem_of_find?_eq_some hq)
  have hpos := hrest.backing_pos (hs.exactBuys pair book hbook buy o ho)
  obtain ⟨c', hunlock⟩ := BalanceCache.unlock_ok hs.inv.balances hunits hpos
    (hs.backing_le_locked hbook ho) havailable hlocked
  obtain ⟨side', hremove, -⟩ := OrderBookSide.removeOrder_ok (hinv.side buy) hqueue hq
  have hexecutor : (Executor.unlockBalanceForCancel o.id o.userId
      (if buy then o.quoteMint else o.baseMint) unlock).run s.executor = (.ok (), ⟨c'⟩) := by
    rw [Executor.unlockBalanceForCancel, Mut.run_context, Executor.onCache, Mut.run_zoom]
    have hrun : (BalanceCache.unlockBalance o.userId (if buy then o.quoteMint else o.baseMint)
        unlock).run s.executor.balanceCache = (.ok (), c') := hunlock
    rw [hrun]
    rfl
  simp only [Threads.cancelOrder, Mut.run_bind, Mut.run_get, Mut.run_lift, hprep, Mut.run_zoom,
    hexecutor, hremove, expect, Mut.run_modify, Mut.run_pure]
  exact ⟨_, rfl⟩

/-- The queue of a price without an order. -/
theorem erase_of_find? {queue : List OrderEntry} (hq : queue.find? (fun x => x.id == o.id) = some o) :
    queue.eraseP (fun x => x.id == o.id) = queue.erase o := by
  obtain ⟨-, pre, post, rfl, hpre⟩ := List.find?_eq_some_iff_append.mp hq
  have hnot : o ∉ pre := fun hmem => by simpa using hpre o hmem
  rw [List.erase_append_right _ hnot, List.erase_cons_head,
    List.eraseP_append_right _ (fun x hx => by simpa using hpre x hx), List.eraseP_cons]
  simp

/-- **What a finished cancellation did.** -/
theorem EngineState.Reserves.redeemed (hs : s.Reserves)
    (hbook : s.orderbooks.lookup pair = some book) (ho : o ∈ (book.side buy).flat)
    {found : OrderEntry} {books' : Books} {executor' : Executor}
    (hrun : (Threads.cancelOrder o.id o.userId pair).run (s.orderbooks, s.executor) =
      (.ok found, (books', executor'))) :
    found = o ∧ ∀ s' : EngineState, s'.orderbooks = books' → s'.executor = executor' →
      Redeemed s pair book buy o s' := by
  have hinv := hs.inv.books _ _ hbook
  obtain ⟨level, queue, unlock, hprep, hqueue, hq, hunits⟩ := hs.prepareCancel_eq hbook ho
  obtain ⟨book₂, level₂, buy₂, unlock₂, removed, side', hprep₂, hunlock, hremove, rfl⟩ :=
    Threads.cancelOrder_parts hrun
  obtain ⟨rfl, rfl, rfl, rfl, rfl⟩ : book = book₂ ∧ level = level₂ ∧ buy = buy₂ ∧ o = found ∧
      unlock = unlock₂ := by
    simpa using hprep.symm.trans hprep₂
  obtain ⟨side₂, hremove₂, -, hfind, -⟩ := OrderBookSide.removeOrder_ok (hinv.side buy) hqueue hq
  obtain ⟨-, rfl⟩ : removed = some o ∧ side' = side₂ := by
    simpa using hremove.symm.trans hremove₂
  obtain ⟨v, hv, -, hmoves⟩ := BalanceCache.changeReservation_moves hunlock
  obtain rfl : o.backing buy = v := Except.ok.inj (hunits.symm.trans hv)
  refine ⟨rfl, fun s' hbooks' hexecutor' => ?_⟩
  have hledger : s'.cache.ledger (o.account buy) =
      s.cache.ledger (o.account buy) + (o.backing buy, -o.backing buy) := by
    have hcache : s'.cache = executor'.balanceCache := by rw [EngineState.cache, hexecutor']
    rw [hcache, hmoves.ledger_eq, Finsupp.add_apply, BalanceCache.reservation]
    exact congrArg (_ + ·) Finsupp.single_eq_same
  rw [BalanceCache.ledger_apply, BalanceCache.ledger_apply] at hledger
  refine ⟨congrArg Prod.fst hledger, ?_, ?_, ?_, ?_⟩
  · exact (congrArg Prod.snd hledger).trans (sub_eq_add_neg _ _).symm
  · intro account haccount
    rw [EngineState.cache, hexecutor']
    exact BalanceCache.changeReservation_frame hunlock haccount
  · intro pair' hne
    rw [hbooks', Finmap.lookup_insert_of_ne _ hne]
  · refine ⟨book.setSide buy side', ?_, OrderBook.side_setSide_not .., fun price => ?_⟩
    · rw [hbooks', Finmap.lookup_insert]
    · rw [OrderBook.side_setSide_same, hfind]
      by_cases hprice : price.raw = level.raw
      · rw [if_pos hprice, SortedMap.find?_congr _ hprice, hqueue, Option.getD_some,
          ← erase_of_find? hq]
        split
        · next hnil => rw [hnil, Option.getD_none]
        · rfl
      · -- the order rests at one price only
        rw [if_neg hprice, List.erase_of_not_mem]
        intro hmem
        cases hother : (book.side buy).orders.find? price with
        | none =>
          rw [hother] at hmem
          cases hmem
        | some queue' =>
          rw [hother] at hmem
          have hat := (hinv.side buy).resting _ _ hqueue _ (List.mem_of_find?_eq_some hq)
          have hat' := (hinv.side buy).resting _ _ hother _ hmem
          exact hprice (Option.some.inj (hat'.price.symm.trans hat.price))

/-- **Cancelling a resting order.**  The owner gets the reservation back, unless a
resulting balance cannot be stored. -/
theorem EngineState.Reserves.cancel (hs : s.Reserves)
    (hbook : s.orderbooks.lookup pair = some book) (ho : o ∈ (book.side buy).flat) :
    ∃ outcome s', (Journal.apply (.cancel o.id o.userId pair)).run s = (.ok outcome, s') ∧
      ((outcome = .applied (some (.cancelled o)) ∧ Redeemed s pair book buy o s') ∨
        ((∃ reason, outcome = .failed reason) ∧ s' = s ∧
          (Unstorable (unitsOf (s.cache.balanceAt (o.account buy)).available + o.backing buy) ∨
            Unstorable (s.lockedUnits (o.account buy) - o.backing buy)))) := by
  obtain ⟨outcome, s', hrun⟩ := Journal.apply_total hs.inv (.cancel o.id o.userId pair)
  have hlive := hs.inv.live _ _ hbook o (OrderBook.mem_flat_iff.mpr ⟨buy, ho⟩)
  refine ⟨outcome, s', hrun, ?_⟩
  have heffect := Journal.apply_effect hrun
  cases heffect with
  | repeatedCancel hlookup =>
    rw [hlive] at hlookup
    cases hlookup
  | cancelled _ hcancel =>
    obtain ⟨rfl, hredeemed⟩ := hs.redeemed hbook ho hcancel
    exact Or.inl ⟨rfl, hredeemed _ rfl rfl⟩
  | @failed _ reason =>
    refine Or.inr ⟨⟨reason, rfl⟩, rfl, ?_⟩
    have hlocked : 0 ≤ s.lockedUnits (o.account buy) - o.backing buy :=
      sub_nonneg.mpr (hs.backing_le_locked hbook ho)
    have havailable : 0 ≤ unitsOf (s.cache.balanceAt (o.account buy)).available + o.backing buy := by
      obtain ⟨⟨x, hx⟩, -⟩ := hs.inv.balances.balanceAt (o.account buy)
      obtain ⟨level, hrest⟩ := (hs.inv.books _ _ hbook).resting_flat ho
      rw [unitsOf_eq hx]
      exact add_nonneg (units_nonneg hx) hrest.backing_nonneg
    rcases representable_or_unstorable havailable with hrep | hun
    · rcases representable_or_unstorable hlocked with hrep' | hun
      · -- both results can be stored, so the cancellation would have succeeded
        obtain ⟨m', hok⟩ := hs.cancel_ok hbook ho hrep hrep'
        have hexecute : (Journal.execute (.cancel o.id o.userId pair)).run s =
            (.ok (some (.cancelled o)), { s with
              cancellations := s.cancellations.insert o.id o, orderbooks := m'.1, executor := m'.2 }) := by
          simp only [Journal.execute, Mut.run_bind, EngineState.onMarket, Mut.run_zoom, hok,
            Mut.run_modify, Mut.run_pure]
        have hrep : Journal.repeatedCancel s (.cancel o.id o.userId pair) = none :=
          Option.map_eq_none_iff.mpr hlive
        rw [Journal.apply_of_execute_ok hrep hexecute] at hrun
        cases hrun
      · exact Or.inr hun
    · exact Or.inl hun

end Cancel

/-! ## Withdrawals -/

/-- A completion that is covered succeeds when the result can be stored. -/
theorem Withdrawal.completeBalance_ok {c : BalanceCache} {funds : WithdrawalFunds} {v : ℤ}
    (hvalid : c.Valid) (hv : units funds.amount = .ok v) (hpos : 0 < v)
    (hcover : v ≤ unitsOf (c.balanceAt (funds.userId, funds.asset)).locked)
    (hlocked : Representable (unitsOf (c.balanceAt (funds.userId, funds.asset)).locked - v)) :
    ∃ c', (completeBalance funds).run c = (.ok (), c') := by
  obtain ⟨-, y, hy⟩ := hvalid.balanceAt (funds.userId, funds.asset)
  have hget := BalanceCache.getBalance_of_locked (hpos.trans_le hcover)
  rw [unitsOf_eq hy] at hlocked
  obtain ⟨l, hl, -⟩ := exists_subtract hy hv hlocked
  simp only [completeBalance, Mut.run_bind, Mut.run_get, hget, orErr, Mut.run_lift, hl,
    Mut.run_modify]
  exact ⟨_, rfl⟩

/-- **Ending a reserved withdrawal.**  It is released or completed, unless a resulting
balance cannot be stored. -/
theorem EngineState.Reserves.finish {s : EngineState} (hs : s.Reserves) {id : Uuid}
    {r : WithdrawalReceipt} (hr : s.withdrawalReceipts.lookup id = some r)
    (hstatus : r.status = .reserved) {command : WithdrawalCommand}
    (hsame : r.original.Same command.funds) (haction : command.action ≠ .reserve) :
    ∃ outcome s', (Journal.apply (.withdrawal command)).run s = (.ok outcome, s') ∧
      (outcome = .applied (some (.withdrawalChanged command)) ∨
        ((∃ reason, outcome = .failed reason) ∧ s' = s ∧
          ((command.action = .release ∧ Unstorable (unitsOf (s.cache.balanceAt
              (r.original.userId, r.original.asset)).available + unitsOf r.original.amount)) ∨
            Unstorable (s.lockedUnits (r.original.userId, r.original.asset) -
              unitsOf r.original.amount)))) := by
  obtain ⟨hkey, hformat⟩ := hs.receipts id r hr
  obtain ⟨v, hv, hpos⟩ := Withdrawal.amount_of_checkFormat hformat
  have hcover := hs.reserved_le_locked hr hstatus
  obtain ⟨hid, huser, hasset, hamount⟩ := hsame
  have hv' : units command.funds.amount = .ok v := (units_congr hamount).mp hv
  have hformat' := WithdrawalFunds.Same.checkFormat ⟨hid, huser, hasset, hamount⟩ hformat
  have hreceipt : Withdrawal.checkReceipt
      (s.withdrawalReceipts.lookup command.funds.withdrawalId) command = .ok none := by
    refine Withdrawal.checkReceipt_eq_none.mpr (Or.inr ⟨r, ?_, ⟨hid, huser, hasset, hamount⟩,
      hstatus, haction⟩)
    rw [← hid, hkey]
    exact hr
  rw [unitsOf_eq hv, huser, hasset] at hcover ⊢
  rcases Withdrawal.balanceStep_cases command s.cache with ⟨c', hrun⟩ | ⟨reason, hrun⟩
  · exact ⟨_, _, Journal.apply_of_execute_ok rfl (Withdrawal.apply_of_ok hformat' hreceipt hrun),
      Or.inl rfl⟩
  · have happly := Withdrawal.apply_of_err hformat' hreceipt hrun
    rw [if_neg haction] at happly
    refine ⟨_, _, Journal.apply_of_execute_err rfl happly, Or.inr ⟨⟨reason, rfl⟩, rfl, ?_⟩⟩
    rcases representable_or_unstorable (sub_nonneg.mpr hcover) with hlocked | hun
    · refine Or.inl ?_
      unfold Withdrawal.balanceStep at hrun
      cases hact : command.action with
      | reserve => exact absurd hact haction
      | release =>
        refine ⟨rfl, ?_⟩
        obtain ⟨⟨x, hx⟩, -⟩ :=
          hs.inv.balances.balanceAt (command.funds.userId, command.funds.asset)
        have havailable : 0 ≤ unitsOf (s.cache.balanceAt
            (command.funds.userId, command.funds.asset)).available + v := by
          rw [unitsOf_eq hx]
          exact add_nonneg (units_nonneg hx) hpos.le
        refine (representable_or_unstorable havailable).resolve_left fun hrep => ?_
        obtain ⟨c', hok⟩ := BalanceCache.unlock_ok hs.inv.balances hv' hpos hcover hrep hlocked
        rw [hact] at hrun
        cases hok.symm.trans hrun
      | complete =>
        obtain ⟨c', hok⟩ :=
          Withdrawal.completeBalance_ok hs.inv.balances hv' hpos hcover hlocked
        rw [hact] at hrun
        cases hok.symm.trans hrun
    · exact Or.inr hun

/-! ## Submissions -/

/-- The movements of a submission are not refused for too little. -/
theorem EngineState.Reserves.settleOn_sufficient {s : EngineState} (hs : s.Reserves)
    {order : OrderEntry} {plan : MatchPlan}
    (hplan : planOrder order (Submission.bookOf s.orderbooks order) = .ok plan) :
    Avoids insufficient (Submission.settleOn order plan s.cache) := by
  obtain ⟨fills, hmatch, hfills, hagainst⟩ :=
    Submission.exists_fills (hs.inv.bookOf order) hplan
  have hreserved : Avoids insufficient (Submission.reservedAmount order) := by
    unfold Submission.reservedAmount
    split
    · split
      · exact avoids_quote _ _
      · exact avoids_expect (by decide)
    · exact avoids_ok _
  have hremaining : ∀ left, Avoids insufficient (Submission.remainingReserve order left) := by
    intro left
    unfold Submission.remainingReserve
    split
    · exact avoids_ok _
    · split
      · exact (avoids_expect (by decide)).bind fun _ _ => avoids_quote _ _
      · exact avoids_ok _
  refine hreserved.bind fun x hx => (BalanceCache.avoids_changeReservation _ _ _ _ _).bind
    fun c hc => ?_
  refine Avoids.bind ?_ fun c' _ => (hremaining _).bind fun _ _ => (avoids_subtract _ _).bind
    fun _ _ => (avoids_subtract _ _).bind fun _ _ => ?_
  · rw [hmatch]
    exact (hs.funded hplan hmatch hfills hx hc).settleAll_sufficient hagainst
  · split
    · exact BalanceCache.avoids_changeReservation _ _ _ _ _
    · exact avoids_ok _

/-- **No submission is rejected because too little is locked.** -/
theorem EngineState.Reserves.submit {s s' : EngineState} (hs : s.Reserves) {order : OrderEntry}
    {outcome : Outcome} (hrun : (Journal.apply (.submit order)).run s = (.ok outcome, s'))
    (order' : OrderEntry) :
    outcome ≠ .applied (some (.rejected order' "Insufficient settlement balance")) := by
  rintro rfl
  have hprepare : Avoids insufficient (Submission.prepare order s.orderbooks s.executor) := by
    cases hplan : planOrder order (Submission.bookOf s.orderbooks order) with
    | error e =>
      intro h
      rw [Submission.prepare, hplan] at h
      have he : e = insufficient := Except.error.inj h
      rw [he] at hplan
      exact avoids_planOrder _ _ hplan
    | ok plan =>
      intro h
      have hinPlace := Submission.staged_eq_inPlace s.cache s.orderbooks order hplan
      rw [show (⟨s.cache⟩ : Executor) = s.executor from rfl, h] at hinPlace
      exact hs.settleOn_sufficient hplan hinPlace.symm
  exact hprepare (Journal.prepare_of_rejected hrun)

/-! ## The result -/

/-- **Reserved funds can always be claimed back or settled.**  In every state that is
reached without standalone locks and unlocks:

* a cancellation of a resting order by its owner gives the reservation back and removes
  the order, or a resulting balance cannot be stored;
* a release or a completion of a reserved withdrawal is performed, or a resulting balance
  cannot be stored;
* no submission is rejected because too little is locked;
* the price of the remainder of a resting buy is a decimal. -/
theorem reserves_redeemable {cache : BalanceCache} (hcache : cache.Valid)
    {history : List (Command × Outcome)} {s : EngineState}
    (hrun : Run (EngineState.genesis cache) history s)
    (hhistory : ∀ e ∈ history, e.1.standalone = false) :
    (∀ pair book, s.orderbooks.lookup pair = some book → ∀ buy, ∀ o ∈ (book.side buy).flat,
      ∃ outcome s', (Journal.apply (.cancel o.id o.userId pair)).run s = (.ok outcome, s') ∧
        ((outcome = .applied (some (.cancelled o)) ∧ Redeemed s pair book buy o s') ∨
          ((∃ reason, outcome = .failed reason) ∧ s' = s ∧
            (Unstorable (unitsOf (s.cache.balanceAt (o.account buy)).available + o.backing buy) ∨
              Unstorable (s.lockedUnits (o.account buy) - o.backing buy))))) ∧
    (∀ id r, s.withdrawalReceipts.lookup id = some r → r.status = .reserved →
      ∀ command : WithdrawalCommand, r.original.Same command.funds → command.action ≠ .reserve →
      ∃ outcome s', (Journal.apply (.withdrawal command)).run s = (.ok outcome, s') ∧
        (outcome = .applied (some (.withdrawalChanged command)) ∨
          ((∃ reason, outcome = .failed reason) ∧ s' = s ∧
            ((command.action = .release ∧ Unstorable (unitsOf (s.cache.balanceAt
                (r.original.userId, r.original.asset)).available + unitsOf r.original.amount)) ∨
              Unstorable (s.lockedUnits (r.original.userId, r.original.asset) -
                unitsOf r.original.amount))))) ∧
    (∀ order order' outcome s', (Journal.apply (.submit order)).run s = (.ok outcome, s') →
      outcome ≠ .applied (some (.rejected order' "Insufficient settlement balance"))) ∧
    ∀ pair book, s.orderbooks.lookup pair = some book → ∀ o ∈ book.buyOrders.flat,
      ∃ p q, o.price = some p ∧ quote p o.remainingAmount = .ok q ∧
        units q = .ok (o.backing true) ∧ o.backing true * FACTOR = o.product := by
  have hs := hrun.reserves hhistory (EngineState.reserves_genesis hcache)
  refine ⟨fun pair book hbook buy o ho => hs.cancel hbook ho, ?_, ?_, ?_⟩
  · intro id r hr hstatus command hsame haction
    exact hs.finish hr hstatus hsame haction
  · intro order order' outcome s' hsubmit
    exact hs.submit hsubmit order'
  · intro pair book hbook o ho
    have hside : o ∈ (book.side true).flat := ho
    obtain ⟨level, hrest⟩ := (hs.inv.books _ _ hbook).resting_flat hside
    obtain ⟨-, -, p, a, f, r, hl⟩ := (validate_limit_iff hrest.limit).mp hrest.valid
    obtain ⟨d, hd, -, -⟩ := hl.price
    have hat : Resting pair true d o := { hrest with price := by rw [hd]; rfl }
    obtain ⟨q, hq, hunits⟩ := hs.unlock_eq hbook hside hat
    exact ⟨d, q, hd, hq, hunits, Int.ediv_mul_cancel (hs.exactBuys pair book hbook true o hside rfl)⟩

/-- A buy of which a quarter is filled, and a withdrawal of the seller's other coins. -/
def redeemable : List Command :=
  [.submit (.limit 1 2 true Decimal.ONE Decimal.ONE),
    .submit (.limit 2 1 false Decimal.ONE (.ofScaled 25 2)),
    .withdrawal ⟨.reserve, ⟨7, 1, "BTC", .ofScaled 5 1⟩⟩]

/-- The buy after its fill. -/
def partlyFilled : OrderEntry :=
  { OrderEntry.limit 1 2 true Decimal.ONE Decimal.ONE with
    filledAmount := .ofScaled 25 2, remainingAmount := .ofScaled 75 2 }

/-- The rest of the buy is cancelled, and the withdrawal released or completed. -/
theorem reserves_redeemable_buy : ∃ history s,
    Run (.genesis (EngineState.funded Decimal.ONE Decimal.ONE)) history s ∧
      history.map Prod.fst = redeemable ∧
      (∃ book s', s.orderbooks.lookup ⟨"BTC", "USDT"⟩ = some book ∧
        partlyFilled ∈ (book.side true).flat ∧
        (Journal.apply (.cancel 1 2 ⟨"BTC", "USDT"⟩)).run s =
          (.ok (.applied (some (.cancelled partlyFilled))), s') ∧
        Redeemed s ⟨"BTC", "USDT"⟩ book true partlyFilled s') ∧
      ∀ action ∈ [WithdrawalAction.release, .complete], ∃ s',
        (Journal.apply (.withdrawal ⟨action, ⟨7, 1, "BTC", .ofScaled 5 1⟩⟩)).run s =
          (.ok (.applied (some (.withdrawalChanged ⟨action, ⟨7, 1, "BTC", .ofScaled 5 1⟩⟩))), s') := by
  have hone : units Decimal.ONE = .ok 1000000000 := rfl
  have hcache := EngineState.valid_funded hone hone
  obtain ⟨outcomes, s, hall, hlength, hrun⟩ := Journal.applyAll_total
    (EngineState.inv_genesis hcache) redeemable
  have hmap : (redeemable.zip outcomes).map Prod.fst = redeemable :=
    List.map_fst_zip hlength.ge
  have hcommands : ∀ e ∈ redeemable.zip outcomes, e.1.standalone = false := by
    intro e he
    exact (by decide : ∀ command ∈ redeemable, command.standalone = false) _ (List.of_mem_zip he).1
  have hflat : (((Journal.applyAll redeemable).run
      (.genesis (EngineState.funded Decimal.ONE Decimal.ONE))).2.orderbooks.lookup
      ⟨"BTC", "USDT"⟩).map (fun book => book.buyOrders.flat) = some [partlyFilled] := by
    decide +kernel
  rw [hall] at hflat
  obtain ⟨book, hbook, hflat⟩ := Option.map_eq_some_iff.mp hflat
  have ho : partlyFilled ∈ (book.side true).flat := by
    show _ ∈ book.buyOrders.flat
    rw [hflat]
    exact List.mem_singleton_self _
  obtain ⟨hcancel, hfinish, -, -⟩ := reserves_redeemable hcache hrun hcommands
  refine ⟨_, s, hrun, hmap, ?_, ?_⟩
  · obtain ⟨outcome, s', hstep, hdone⟩ := hcancel _ book hbook true _ ho
    have hevaluated : ((Journal.applyAll (redeemable ++ [.cancel 1 2 ⟨"BTC", "USDT"⟩])).run
        (.genesis (EngineState.funded Decimal.ONE Decimal.ONE))).1.toOption.bind List.getLast? =
          some (.applied (some (.cancelled partlyFilled))) := by
      decide +kernel
    have hlast := Journal.last_outcome hrun hstep
    rw [hmap] at hlast
    obtain rfl := Option.some.inj (hevaluated.symm.trans hlast)
    rcases hdone with ⟨-, hredeemed⟩ | ⟨⟨_, hfailed⟩, -⟩
    · exact ⟨book, s', hbook, ho, hstep, hredeemed⟩
    · cases hfailed
  · have hreceipt : (((Journal.applyAll redeemable).run
        (.genesis (EngineState.funded Decimal.ONE Decimal.ONE))).2.withdrawalReceipts.lookup 7) =
          some ⟨⟨7, 1, "BTC", .ofScaled 5 1⟩, .reserved⟩ := by
      decide +kernel
    rw [hall] at hreceipt
    have hevaluated : ∀ action ∈ [WithdrawalAction.release, .complete],
        action ≠ .reserve ∧ ((Journal.applyAll (redeemable ++
          [.withdrawal ⟨action, ⟨7, 1, "BTC", .ofScaled 5 1⟩⟩])).run
            (.genesis (EngineState.funded Decimal.ONE Decimal.ONE))).1.toOption.bind List.getLast? =
          some (.applied (some (.withdrawalChanged ⟨action, ⟨7, 1, "BTC", .ofScaled 5 1⟩⟩))) := by
      decide +kernel
    intro action haction
    obtain ⟨hreserve, hevaluated⟩ := hevaluated action haction
    obtain ⟨outcome, s', hstep, hdone⟩ := hfinish 7 _ hreceipt rfl
      ⟨action, ⟨7, 1, "BTC", .ofScaled 5 1⟩⟩ (WithdrawalFunds.Same.refl _) hreserve
    have hlast := Journal.last_outcome hrun hstep
    rw [hmap] at hlast
    obtain rfl := Option.some.inj (hevaluated.symm.trans hlast)
    exact ⟨s', hstep⟩

end CexEngine
