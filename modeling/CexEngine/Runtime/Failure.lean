import CexEngine.Runtime.Reachable

/-!
# Failed commands

The journal remembers a failed command, so what a failure may leave behind is part of the contract: a
first order, a first reservation or a first deposit that is refused leaves its receipt under its own
id, and nothing else changes.  Every other failure leaves no trace at all.

`Trace` lists what a failure leaves, command by command, and `apply_failure` is the statement, in every
state, reachable or not: nothing in it needs an invariant, since the handlers write only after their last
check (`CexEngine.Runtime.Atomicity`).  A settlement that fails late, when trades of the same submission
have been settled, is the case to look at: those were settled on the copy of the accounts, which is
thrown away.
-/

namespace CexEngine

open Foundation Amount

/-- The outcomes of a command that did not do what it asked for. -/
inductive Outcome.IsFailure : Outcome → Prop
  | failed (reason : String) : IsFailure (.failed reason)
  | duplicateCancellation (order : OrderEntry) : IsFailure (.duplicateCancellation order)
  | rejected (order : OrderEntry) (reason : String) :
      IsFailure (.applied (some (.rejected order reason)))
  | withdrawalRejected (funds : WithdrawalFunds) (reason : String) :
      IsFailure (.applied (some (.withdrawalRejected funds reason)))

/-- What a failure may leave behind. -/
inductive Trace (s : EngineState) : Command → Outcome → EngineState → Prop
  | failed {command : Command} {reason : String} : Trace s command (.failed reason) s
  | duplicateCancellation {command : Command} {order : OrderEntry} :
      Trace s command (.duplicateCancellation order) s
  | rejectedOrder {order : OrderEntry} {reason : String}
      (first : s.submissions.lookup order.id = none) :
      Trace s (.submit order) (.applied (some (.rejected order reason)))
        { s with submissions := s.submissions.insert order.id order }
  | rejectedReserve {funds : WithdrawalFunds} {reason : String}
      (first : s.withdrawalReceipts.lookup funds.withdrawalId = none) :
      Trace s (.withdrawal ⟨.reserve, funds⟩) (.applied (some (.withdrawalRejected funds reason)))
        { s with
          withdrawalReceipts :=
            s.withdrawalReceipts.insert funds.withdrawalId ⟨funds, .rejected reason⟩ }
  | rejectedDeposit {credit : DepositCredit} {reason : String}
      (first : s.depositReceipts.lookup credit.depositId = none)
      (wellFormed : Deposit.checkFormat credit = .ok ())
      (addition : add (s.cache.balanceAt (credit.userId, credit.asset)).available credit.amount =
        .error (.err reason)) :
      Trace s (.creditDeposit credit) (.failed reason)
        { s with
          depositReceipts :=
            s.depositReceipts.insert credit.depositId ⟨credit, some reason⟩ }

/-- No trace is in the books, the balances or the cancellations. -/
theorem Trace.frame {s s' : EngineState} {command : Command} {outcome : Outcome}
    (h : Trace s command outcome s') :
    s'.orderbooks = s.orderbooks ∧ s'.cache = s.cache ∧ s'.cancellations = s.cancellations := by
  cases h <;> exact ⟨rfl, rfl, rfl⟩

/-- A deposit is refused by the addition to its balance. -/
theorem Deposit.creditBalance_err {credit : DepositCredit} {c c' : BalanceCache} {reason : String}
    (h : (Deposit.creditBalance credit).run c = (.error (.err reason), c')) :
    add (c.balanceAt (credit.userId, credit.asset)).available credit.amount =
      .error (.err reason) := by
  simp only [Deposit.creditBalance, Mut.run_bind, Mut.run_get, Mut.run_lift] at h
  rw [available_eq] at h
  cases hadd : add (c.balanceAt (credit.userId, credit.asset)).available credit.amount with
  | ok next =>
    rw [hadd] at h
    cases h
  | error e =>
    rw [hadd] at h
    cases h
    rfl

/-- A failed transition leaves a trace at most. -/
theorem Effect.trace {s s' : EngineState} {command : Command} {outcome : Outcome}
    (h : Effect s command outcome s') (hfail : outcome.IsFailure) :
    Trace s command outcome s' := by
  cases h with
  | failed => exact .failed
  | repeatedCancel => exact .duplicateCancellation
  | rejected hfirst => exact .rejectedOrder hfirst
  | resubmitted => cases hfail
  | submitted => cases hfail
  | cancelled => cases hfail
  | @withdrawal command output s' step =>
    cases step with
    | repeated => cases hfail
    | performed => cases hfail
    | rejected _ hfirst haction =>
      obtain ⟨action, funds⟩ := command
      obtain rfl : action = .reserve := haction
      exact .rejectedReserve hfirst
  | deposit step =>
    cases step with
    | repeatedCredit => cases hfail
    | credited => cases hfail
  | depositFailed step =>
    cases step with
    | rejected hfirst hformat hrun =>
      exact .rejectedDeposit hfirst hformat (Deposit.creditBalance_err hrun)
    | _ => exact .failed
  | balance => cases hfail
  | locked => cases hfail
  | unlocked => cases hfail

/-- **A failed command changes no book, no balance and no cancellation, and leaves
at most one receipt, under its own id.** -/
theorem Journal.apply_failure {s s' : EngineState} {command : Command} {outcome : Outcome}
    (h : (Journal.apply command).run s = (.ok outcome, s')) (hfail : outcome.IsFailure) :
    s'.orderbooks = s.orderbooks ∧ s'.cache = s.cache ∧ s'.cancellations = s.cancellations ∧
      Trace s command outcome s' := by
  have htrace := (apply_effect h).trace hfail
  obtain ⟨hbooks, hcache, hcancel⟩ := htrace.frame
  exact ⟨hbooks, hcache, hcancel, htrace⟩

/-- Two sells rest, and the second one has lost its reservation. -/
def unreserved : EngineState :=
  ((Journal.applyAll [.balance 3 "BTC" Decimal.ONE,
    .submit (.limit 1 1 false Decimal.ONE Decimal.ONE), .submit (.limit 2 3 false Decimal.ONE Decimal.ONE),
    .unlock 3 "BTC" Decimal.ONE]).run (.genesis (EngineState.funded Decimal.ONE (.ofScaled 2 0)))).2

/-- A buy of both is reserved and planned, its first trade is settled, and the second one fails. -/
theorem Journal.apply_failure_unfunded : ∃ s',
    (Journal.apply (.submit (.limit 3 2 true Decimal.ONE (.ofScaled 2 0)))).run unreserved =
      (.ok (.applied (some (.rejected (.limit 3 2 true Decimal.ONE (.ofScaled 2 0))
        "Insufficient settlement balance"))), s') ∧
    (unreserved.orderbooks.lookup ⟨"BTC", "USDT"⟩).map (fun book => book.flat.map OrderEntry.id) =
      some [1, 2] ∧
    s'.orderbooks = unreserved.orderbooks ∧ s'.cache = unreserved.cache ∧
      s'.cancellations = unreserved.cancellations ∧
      Trace unreserved (.submit (.limit 3 2 true Decimal.ONE (.ofScaled 2 0)))
        (.applied (some (.rejected (.limit 3 2 true Decimal.ONE (.ofScaled 2 0))
          "Insufficient settlement balance"))) s' := by
  have houtcome : ((Journal.apply (.submit (.limit 3 2 true Decimal.ONE (.ofScaled 2 0)))).run
      unreserved).1.toOption =
        some (.applied (some (.rejected (.limit 3 2 true Decimal.ONE (.ofScaled 2 0))
          "Insufficient settlement balance"))) := by decide +kernel
  rcases hrun : (Journal.apply (.submit (.limit 3 2 true Decimal.ONE (.ofScaled 2 0)))).run unreserved
    with ⟨_ | outcome, s'⟩
  · rw [hrun] at houtcome
    cases houtcome
  · rw [hrun] at houtcome
    obtain rfl := Option.some.inj houtcome
    exact ⟨s', rfl, by decide +kernel, Journal.apply_failure hrun (.rejected _ _)⟩

end CexEngine
