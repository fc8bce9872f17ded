import CexEngine.Runtime.Journal

/-!
# Failed commands leave no trace

A call of the source that returns an error keeps what it wrote, so that nothing
was written is a fact about each handler (`Mut.Atomic`): everything that can
return an error comes before the first write.  After the first write a handler can
only panic, never return an error (`NoErr`, `Mut.Infallible`).

`Journal.apply_failure` of `CexEngine.Runtime.Failure` puts the handlers together.
-/

namespace CexEngine

open Foundation Amount

/-! ## Writing the book -/

theorem noErr_checkedSub (a b : ℕ) : NoErr (checkedSub a b) := by
  intro message h
  unfold checkedSub at h
  split at h <;> cases h

namespace OrderBookSide

theorem noErr_popChanged (queue : List OrderEntry) (changed : Finmap fun _ : UInt64 => OrderEntry)
    (aside : List OrderEntry) : NoErr (popChanged queue changed aside) := by
  induction queue generalizing changed aside with
  | nil =>
    unfold popChanged
    split
    · exact noErr_ok _
    · intro message h
      cases h
  | cons o queue ih =>
    unfold popChanged
    split
    · exact noErr_ok _
    · dsimp only
      split
      · split
        · exact ih _ _
        · exact ih _ _
      · exact ih _ _

theorem noErr_applyLevels (s : OrderBookSide)
    (changes : List (Decimal × Finmap fun _ : UInt64 => OrderEntry)) :
    NoErr (s.applyLevels changes) := by
  induction changes generalizing s with
  | nil => exact noErr_ok _
  | cons level changes ih =>
    have hlevel : NoErr (s.applyLevel level.1 level.2) :=
      noErr_expect.bind fun _ => (noErr_popChanged _ _ _).bind fun _ =>
        (noErr_checkedSub _ _).bind fun _ => (noErr_checkedSub _ _).bind fun _ => noErr_ok _
    exact hlevel.bind fun s => ih s

theorem noErr_addOrder (s : OrderBookSide) (o : OrderEntry) : NoErr (s.addOrder o) :=
  noErr_expect.bind fun _ => noErr_ok _

theorem noErr_removeOrder (s : OrderBookSide) (orderId : UInt64) (price : Decimal) :
    NoErr (s.removeOrder orderId price) := by
  unfold removeOrder
  split
  · exact noErr_ok _
  · split
    · exact noErr_ok _
    · exact (noErr_checkedSub _ _).bind fun _ => noErr_ok _

end OrderBookSide

theorem noErr_commitBook (plan : MatchPlan) (book : OrderBook) : NoErr (plan.commitBook book) := by
  refine NoErr.bind (OrderBookSide.noErr_applyLevels _ _) fun s => ?_
  split
  · unfold OrderBook.addOrder
    split
    · exact (OrderBookSide.noErr_addOrder _ _).bind fun _ => noErr_ok _
    · split
      · exact (OrderBookSide.noErr_addOrder _ _).bind fun _ => noErr_ok _
      · exact noErr_ok _
  · exact noErr_ok _

/-! ## The handlers -/

open Mut

theorem atomic_lift_bind {σ α β : Type} {x : Except Fault α} {f : α → Mut σ β}
    (hf : ∀ a, Atomic (f a)) : Atomic ((liftM x : Mut σ α) >>= f) :=
  (readOnly_lift x).bind_atomic hf

theorem atomic_get_bind {σ β : Type} {f : σ → Mut σ β} (hf : ∀ a, Atomic (f a)) :
    Atomic ((get : Mut σ σ) >>= f) :=
  readOnly_get.bind_atomic hf

theorem BalanceCache.changeReservation_atomic (userId : UInt64) (mint : String) (value : Decimal)
    (lock : Bool) : Atomic (changeReservation userId mint value lock) := by
  refine atomic_lift_bind fun _ => atomic_lift_bind fun _ => atomic_get_bind fun _ =>
    atomic_lift_bind fun _ => ?_
  cases lock with
  | true => exact atomic_lift_bind fun _ => atomic_lift_bind fun _ => (infallible_modify _).atomic
  | false => exact atomic_lift_bind fun _ => atomic_lift_bind fun _ => (infallible_modify _).atomic

theorem Withdrawal.completeBalance_atomic (funds : WithdrawalFunds) :
    Atomic (completeBalance funds) :=
  atomic_get_bind fun _ => atomic_lift_bind fun _ => atomic_lift_bind fun _ =>
    (infallible_modify _).atomic

theorem Deposit.creditBalance_atomic (credit : DepositCredit) : Atomic (creditBalance credit) :=
  atomic_get_bind fun _ => atomic_lift_bind fun _ =>
    ((infallible_modify _).bind fun _ => infallible_pure _).atomic

theorem Journal.changeBalance_atomic (userId : UInt64) (mint : String) (delta : Decimal) :
    Atomic (changeBalance userId mint delta) := by
  refine atomic_get_bind fun _ => ?_
  dsimp only
  split
  · exact atomic_lift_bind fun _ => (infallible_modify _).atomic
  · exact atomic_lift_bind fun _ => (infallible_modify _).atomic

/-- **A submission that returns an error has written nothing.** -/
theorem Submission.apply_atomic (order : OrderEntry) : Atomic (apply order) := by
  refine atomic_get_bind fun _ => atomic_lift_bind fun prepared => ?_
  refine ((infallible_lift (noErr_commitBook _ _)).bind fun _ => ?_).atomic
  exact (infallible_set _).bind fun _ => infallible_pure _

theorem Executor.onCache_atomic {α : Type} {x : Mut BalanceCache α} (hx : Atomic x) :
    Atomic (onCache x) := hx.zoom fun _ => rfl

/-- **A cancellation that returns an error has written nothing.** -/
theorem Threads.cancelOrder_atomic (orderId userId : UInt64) (pair : TradingPair) :
    Atomic (cancelOrder orderId userId pair) := by
  refine atomic_get_bind fun _ => atomic_lift_bind fun r => ?_
  obtain ⟨book, level, buy, found, unlock⟩ := r
  refine Atomic.bind_infallible ?_ fun _ => ?_
  · exact ((Executor.onCache_atomic
      (BalanceCache.changeReservation_atomic _ _ _ _)).context).zoom fun _ => rfl
  · refine (infallible_lift (OrderBookSide.noErr_removeOrder _ _ _)).bind fun _ => ?_
    refine (infallible_lift noErr_expect).bind fun _ => ?_
    exact (infallible_modify _).bind fun _ => infallible_pure _

end CexEngine
