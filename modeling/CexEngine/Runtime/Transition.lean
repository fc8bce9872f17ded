import CexEngine.Runtime.CommandSpec

/-!
# The transitions of the engine

`Effect s command outcome s'` lists everything a command can do to a state.  `apply_effect` says that
the list is complete, in every state, so the properties of single commands and of whole runs are case
analyses of `Effect` and never look into `Journal.apply` again.

A command of the source is a chain of calls that may return an error after they have written, and
`apply` turns an error into an outcome and keeps the state it finds.  So there are two questions behind
the list:

* what a call that finishes has done.  `execute_ok` takes the handlers one by one; each constructor
  keeps the run of the handler it stands for (`run`, `step`), not only its result, since that is where
  the later modules start: the moves of the balances, the fills of a plan, the receipts;
* what a call that fails has done.  `execute_failed` says that it has changed nothing, from the
  atomicity of the handlers (`Mut.Atomic`), with one exception: a first deposit that the balances
  refuse leaves its receipt.  That is why `depositFailed` has a state of its own, and `failed` has
  not.

A submission is remembered whether it is executed or rejected, and it is remembered before anything
else happens; `rejected` and `submitted` therefore both have the state `Journal.recorded order s`, and
`apply_first_submit` says that a first submission ends in one of the two.

A panic is no outcome.  It ends the core, and `Effect` says nothing about it; that no command panics in
a reachable state is `Journal.apply_total` of `CexEngine.Runtime.Reachable`.
-/

namespace CexEngine

open Foundation Foundation.FiniteMap Foundation.Allocation Amount

/-! ## What a command can do -/

/-- **Everything a command can do.** -/
inductive Effect (s : EngineState) : Command → Outcome → EngineState → Prop
  | failed {command : Command} {reason : String} : Effect s command (.failed reason) s
  | repeatedCancel {orderId userId : UInt64} {pair : TradingPair} {order : OrderEntry}
      (lookup : s.cancellations.lookup orderId = some order) :
      Effect s (.cancel orderId userId pair) (.duplicateCancellation order) s
  | resubmitted {order original : OrderEntry}
      (lookup : s.submissions.lookup order.id = some original) :
      Effect s (.submit order) (.applied none) s
  | rejected {order : OrderEntry} {reason : String}
      (lookup : s.submissions.lookup order.id = none) :
      Effect s (.submit order) (.applied (some (.rejected order reason)))
        (Journal.recorded order s)
  | submitted {order : OrderEntry} {applied : AppliedSubmission} {books' : Books}
      {executor' : Executor} {trades : List TradeOutput}
      (lookup : s.submissions.lookup order.id = none)
      (run : (Submission.apply order).run (s.orderbooks, s.executor) =
        (.ok applied, (books', executor')))
      (outputs : tradeOutputs applied.matchList = .ok trades) :
      Effect s (.submit order)
        (.applied (some (.submitted applied.orderId trades applied.completion)))
        { Journal.recorded order s with orderbooks := books', executor := executor' }
  | cancelled {orderId userId : UInt64} {pair : TradingPair} {order : OrderEntry} {books' : Books}
      {executor' : Executor} (lookup : s.cancellations.lookup orderId = none)
      (run : (Threads.cancelOrder orderId userId pair).run (s.orderbooks, s.executor) =
        (.ok order, (books', executor'))) :
      Effect s (.cancel orderId userId pair) (.applied (some (.cancelled order)))
        { s with
          cancellations := s.cancellations.insert orderId order
          orderbooks := books'
          executor := executor' }
  | withdrawal {command : WithdrawalCommand} {output : Option OutputBatch} {s' : EngineState}
      (step : Withdrawal.Step s command (.ok output) s') :
      Effect s (.withdrawal command) (.applied output) s'
  | deposit {credit : DepositCredit} {output : Option OutputBatch} {s' : EngineState}
      (step : Deposit.Step s credit (.ok output) s') :
      Effect s (.creditDeposit credit) (.applied output) s'
  | depositFailed {credit : DepositCredit} {reason : String} {s' : EngineState}
      (step : Deposit.Step s credit (.error reason) s') :
      Effect s (.creditDeposit credit) (.failed reason) s'
  | balance {userId : UInt64} {mint : String} {delta : Decimal} {c' : BalanceCache}
      (run : (Journal.changeBalance userId mint delta).run s.cache = (.ok (), c')) :
      Effect s (.balance userId mint delta) (.applied none) (s.setCache c')
  | locked {userId : UInt64} {mint : String} {amount : Decimal} {c' : BalanceCache}
      (run : (BalanceCache.lockBalance userId mint amount).run s.cache = (.ok (), c')) :
      Effect s (.lock userId mint amount) (.applied none) (s.setCache c')
  | unlocked {userId : UInt64} {mint : String} {amount : Decimal} {c' : BalanceCache}
      (run : (BalanceCache.unlockBalance userId mint amount).run s.cache = (.ok (), c')) :
      Effect s (.unlock userId mint amount) (.applied none) (s.setCache c')

namespace Journal

/-! ## The list is complete -/

theorem noErr_ofSubmission (applied : AppliedSubmission) :
    NoErr (OutputBatch.ofSubmission applied) := by
  have hexpect : ∀ {α : Type} {x : Except Fault α} {site : String}, NoErr (expectOk x site) := by
    intro α x site message h
    cases x <;> cases h
  have htrade : ∀ trade, NoErr (tradeOutput trade) := fun trade =>
    hexpect.bind fun _ => hexpect.bind fun _ => hexpect.bind fun _ => noErr_ok _
  have htrades : ∀ trades, NoErr (tradeOutputs trades) := by
    intro trades
    induction trades with
    | nil => exact noErr_ok _
    | cons trade trades ih => exact (htrade trade).bind fun _ => ih.bind fun _ => noErr_ok _
  exact (htrades _).bind fun _ => noErr_ok _

section Complete

variable {s s' : EngineState}

/-- A finished submission. -/
theorem execute_submit_effect {order : OrderEntry} {output : Option OutputBatch}
    (h : (execute (.submit order)).run s = (.ok output, s')) :
    Effect s (.submit order) (.applied output) s' := by
  cases hlookup : s.submissions.lookup order.id with
  | some original =>
    rw [execute_resubmit hlookup, Prod.mk.injEq] at h
    obtain ⟨h, rfl⟩ := h
    simp only [resubmit, bind_eq_ok, ensure_eq_ok, pure_eq_ok, exists_const] at h
    obtain ⟨-, rfl⟩ := h
    exact .resubmitted hlookup
  | none =>
    rw [execute_first_submit hlookup] at h
    rcases hrun : (Submission.apply order).run (s.orderbooks, s.executor) with
      ⟨(reason | site) | applied, books', executor'⟩
    · obtain ⟨rfl, rfl⟩ := Prod.mk.inj (Submission.apply_atomic order _ _ _ hrun)
      rw [hrun] at h
      cases h
      exact .rejected hlookup
    · rw [hrun] at h
      cases h
    · rw [hrun, report, OutputBatch.ofSubmission] at h
      cases htrades : tradeOutputs applied.matchList with
      | ok trades =>
        rw [htrades] at h
        cases h
        exact .submitted hlookup hrun htrades
      | error e =>
        rw [htrades] at h
        cases h

/-- A submission that returns an error is one under an id that was used. -/
theorem execute_submit_failed {order : OrderEntry} {reason : String}
    (h : (execute (.submit order)).run s = (.error (.err reason), s')) :
    s.submissions.lookup order.id ≠ none ∧ s' = s := by
  cases hlookup : s.submissions.lookup order.id with
  | some original =>
    rw [execute_resubmit hlookup, Prod.mk.injEq] at h
    exact ⟨Option.some_ne_none original, h.2.symm⟩
  | none =>
    rw [execute_first_submit hlookup] at h
    rcases hrun : (Submission.apply order).run (s.orderbooks, s.executor) with
      ⟨(message | site) | applied, books', executor'⟩
    · rw [hrun] at h
      cases h
    · rw [hrun] at h
      cases h
    · rw [hrun, report] at h
      rcases hbatch : OutputBatch.ofSubmission applied with (message | site) | batch
      · exact absurd hbatch (noErr_ofSubmission applied message)
      · rw [hbatch] at h
        cases h
      · rw [hbatch] at h
        cases h

/-- The books, the balances and the executor, as parts of the state. -/
theorem onMarket_atomic {α : Type} {x : Mut (Books × Executor) α} (hx : Mut.Atomic x) :
    Mut.Atomic (EngineState.onMarket x) := hx.zoom fun _ => rfl

theorem onExecutor_atomic {α : Type} {x : Mut Executor α} (hx : Mut.Atomic x) :
    Mut.Atomic (EngineState.onExecutor x) := hx.zoom fun _ => rfl

theorem onCache_atomic {α : Type} {x : Mut BalanceCache α} (hx : Mut.Atomic x) :
    Mut.Atomic (EngineState.onCache x) := hx.zoom fun _ => rfl

/-- **A command that returns an error changes nothing**, a first deposit apart. -/
theorem execute_failed {command : Command} {reason : String}
    (h : (execute command).run s = (.error (.err reason), s')) :
    Effect s command (.failed reason) s' := by
  have hatomic : ∀ {x : Mut EngineState (Option OutputBatch)}, Mut.Atomic x →
      x.run s = (.error (.err reason), s') → Effect s command (.failed reason) s' := by
    intro x hx hrun
    rw [hx s reason s' hrun]
    exact .failed
  cases command with
  | submit order =>
    rw [(execute_submit_failed h).2]
    exact .failed
  | creditDeposit credit =>
    obtain ⟨result, t, hstep, hrun⟩ := Deposit.apply_step s credit
    change (Deposit.apply credit).run s = _ at h
    rw [h] at hrun
    obtain ⟨hres, rfl⟩ := Prod.mk.inj hrun
    cases result with
    | ok output => cases hres
    | error message =>
      cases hres
      exact .depositFailed hstep
  | withdrawal command =>
    obtain ⟨result, t, hstep, hrun⟩ := Withdrawal.apply_step s command
    change (Withdrawal.apply command).run s = _ at h
    rw [h] at hrun
    obtain ⟨hres, rfl⟩ := Prod.mk.inj hrun
    cases hstep with
    | refused => exact .failed
    | repeated => cases hres
    | rejected => cases hres
    | performed => cases hres
  | cancel orderId userId pair =>
    refine hatomic ?_ h
    exact (onMarket_atomic (Threads.cancelOrder_atomic _ _ _)).bind_infallible fun _ =>
      (Mut.infallible_modify _).bind fun _ => Mut.infallible_pure _
  | balance userId mint delta =>
    refine hatomic ?_ h
    exact atomic_lift_bind fun _ => (onCache_atomic (changeBalance_atomic _ _ _)).bind_infallible
      fun _ => Mut.infallible_pure _
  | lock userId mint amount =>
    refine hatomic ?_ h
    exact (onExecutor_atomic (Executor.onCache_atomic
      (BalanceCache.changeReservation_atomic _ _ _ _)).context).bind_infallible
      fun _ => Mut.infallible_pure _
  | unlock userId mint amount =>
    refine hatomic ?_ h
    exact (onExecutor_atomic (Executor.onCache_atomic
      (BalanceCache.changeReservation_atomic _ _ _ _)).context).bind_infallible
      fun _ => Mut.infallible_pure _

theorem onCache_ok {α : Type} {x : Mut BalanceCache α} {a : α}
    (h : (EngineState.onCache x).run s = (.ok a, s')) :
    ∃ c', x.run s.cache = (.ok a, c') ∧ s' = s.setCache c' := by
  rw [EngineState.onCache, Mut.run_zoom, Prod.mk.injEq] at h
  exact ⟨_, Prod.ext h.1 rfl, h.2.symm⟩

/-- A reservation through the executor is one of its cache. -/
theorem onExecutor_ok {x : Mut BalanceCache Unit} {message : String}
    (h : (EngineState.onExecutor ((Executor.onCache x).context message)).run s = (.ok (), s')) :
    ∃ c', x.run s.cache = (.ok (), c') ∧ s' = s.setCache c' := by
  rw [EngineState.onExecutor, Mut.run_zoom, Mut.run_context, Executor.onCache, Mut.run_zoom,
    Prod.mk.injEq, withContext_eq_ok] at h
  exact ⟨_, Prod.ext h.1 rfl, h.2.symm⟩

/-- **A command that finishes has one of the effects.** -/
theorem execute_ok {command : Command} {output : Option OutputBatch}
    (hrep : repeatedCancel s command = none)
    (h : (execute command).run s = (.ok output, s')) :
    Effect s command (.applied output) s' := by
  cases command with
  | submit order => exact execute_submit_effect h
  | creditDeposit credit =>
    obtain ⟨result, t, hstep, hrun⟩ := Deposit.apply_step s credit
    change (Deposit.apply credit).run s = _ at h
    rw [h] at hrun
    obtain ⟨hres, rfl⟩ := Prod.mk.inj hrun
    cases result with
    | error message => cases hres
    | ok output' =>
      cases hres
      exact .deposit hstep
  | withdrawal command =>
    obtain ⟨result, t, hstep, hrun⟩ := Withdrawal.apply_step s command
    change (Withdrawal.apply command).run s = _ at h
    rw [h] at hrun
    obtain ⟨hres, rfl⟩ := Prod.mk.inj hrun
    cases result with
    | error message => cases hres
    | ok output' =>
      cases hres
      exact .withdrawal hstep
  | cancel orderId userId pair =>
    have hlookup : s.cancellations.lookup orderId = none := Option.map_eq_none_iff.mp hrep
    simp only [execute, Mut.run_bind_ok_iff, Mut.run_modify, Mut.run_pure, Prod.mk.injEq,
      Except.ok.injEq] at h
    obtain ⟨order, mid, hmarket, -, _, ⟨-, rfl⟩, rfl, rfl⟩ := h
    rw [EngineState.onMarket, Mut.run_zoom, Prod.mk.injEq] at hmarket
    obtain ⟨hok, rfl⟩ := hmarket
    exact .cancelled hlookup (Prod.ext hok rfl)
  | balance userId mint delta =>
    simp only [execute, Mut.run_bind_ok_iff, Mut.run_lift, Mut.run_pure, Prod.mk.injEq,
      Except.ok.injEq] at h
    obtain ⟨-, _, ⟨-, rfl⟩, _, _, hrun, rfl, rfl⟩ := h
    obtain ⟨c', hc', rfl⟩ := onCache_ok hrun
    exact .balance hc'
  | lock userId mint amount =>
    simp only [execute, Mut.run_bind_ok_iff, Mut.run_pure, Prod.mk.injEq, Except.ok.injEq] at h
    obtain ⟨_, _, hrun, rfl, rfl⟩ := h
    obtain ⟨c', hc', rfl⟩ := onExecutor_ok hrun
    exact .locked hc'
  | unlock userId mint amount =>
    simp only [execute, Mut.run_bind_ok_iff, Mut.run_pure, Prod.mk.injEq, Except.ok.injEq] at h
    obtain ⟨_, _, hrun, rfl, rfl⟩ := h
    obtain ⟨c', hc', rfl⟩ := onExecutor_ok hrun
    exact .unlocked hc'

/-- **The list of effects is complete**, in every state. -/
theorem apply_effect {command : Command} {outcome : Outcome}
    (h : (apply command).run s = (.ok outcome, s')) : Effect s command outcome s' := by
  rcases apply_eq_ok h with ⟨hrep, rfl⟩ | ⟨hrep, ⟨output, hrun, rfl⟩ | ⟨reason, hrun, rfl⟩⟩
  · cases command with
    | cancel orderId userId pair =>
      obtain ⟨order, horder, hif⟩ := Option.map_eq_some_iff.mp hrep
      split at hif
      · rw [← hif]
        exact .repeatedCancel horder
      · rw [← hif]
        exact .failed
    | _ => cases hrep
  · exact execute_ok hrep hrun
  · exact execute_failed hrun

/-- **A first submission** is remembered, and it is reported as executed or as
rejected. -/
theorem apply_first_submit {order : OrderEntry} {outcome : Outcome}
    (h : (apply (.submit order)).run s = (.ok outcome, s'))
    (hnew : s.submissions.lookup order.id = none) :
    s'.submissions = s.submissions.insert order.id order ∧
      ((∃ reason, outcome = .applied (some (.rejected order reason))) ∨
        ∃ id trades completion, outcome = .applied (some (.submitted id trades completion))) := by
  rcases apply_eq_ok h with ⟨hrep, -⟩ | ⟨-, ⟨output, hrun, rfl⟩ | ⟨reason, hrun, rfl⟩⟩
  · cases hrep
  · have heffect := execute_submit_effect hrun
    cases heffect with
    | resubmitted hlookup =>
      rw [hnew] at hlookup
      cases hlookup
    | rejected => exact ⟨rfl, Or.inl ⟨_, rfl⟩⟩
    | submitted => exact ⟨rfl, Or.inr ⟨_, _, _, rfl⟩⟩
  · exact absurd hnew (execute_submit_failed hrun).1

end Complete

end Journal

/-! ## Deposits and withdrawals -/

/-- What the journal keeps of a call that may fail. -/
def Outcome.ofResult : Except String (Option OutputBatch) → Outcome
  | .ok output => .applied output
  | .error reason => .failed reason

/-- The trades an outcome publishes. -/
def Outcome.trades : Outcome → List TradeOutput
  | .applied (some (.submitted _ trades _)) => trades
  | _ => []

/-- A command of the core that is answered by `execute`. -/
theorem Journal.apply_of_result {s s' : EngineState} {command : Command}
    {result : Except String (Option OutputBatch)} (hrep : repeatedCancel s command = none)
    (h : (execute command).run s = (result.mapError Fault.err, s')) :
    (apply command).run s = (.ok (.ofResult result), s') := by
  cases result with
  | ok output => exact apply_of_execute_ok hrep h
  | error reason => exact apply_of_execute_err hrep h

theorem Deposit.apply_run (s : EngineState) (credit : DepositCredit) :
    ∃ result s', Step s credit result s' ∧
      (Journal.apply (.creditDeposit credit)).run s = (.ok (.ofResult result), s') := by
  obtain ⟨result, s', hstep, hrun⟩ := apply_step s credit
  exact ⟨result, s', hstep, Journal.apply_of_result rfl hrun⟩

theorem Withdrawal.apply_run (s : EngineState) (command : WithdrawalCommand) :
    ∃ result s', Step s command result s' ∧
      (Journal.apply (.withdrawal command)).run s = (.ok (.ofResult result), s') := by
  obtain ⟨result, s', hstep, hrun⟩ := apply_step s command
  exact ⟨result, s', hstep, Journal.apply_of_result rfl hrun⟩

/-- A withdrawal reports nothing but withdrawals. -/
theorem Withdrawal.Step.output_cases {s s' : EngineState} {command : WithdrawalCommand} {output : Option OutputBatch}
    (h : Step s command (.ok output) s') :
    output = none ∨ (∃ reason, output = some (.withdrawalRejected command.funds reason)) ∨
      output = some (.withdrawalChanged command) := by
  cases h with
  | repeated => exact Or.inl rfl
  | rejected => exact Or.inr (Or.inl ⟨_, rfl⟩)
  | performed => exact Or.inr (Or.inr rfl)

/-- A deposit reports nothing but its credit. -/
theorem Deposit.Step.output_cases {s s' : EngineState} {credit : DepositCredit} {output : Option OutputBatch}
    (h : Step s credit (.ok output) s') :
    output = none ∨ (output = some (.depositCredited credit) ∧
      s.depositReceipts.lookup credit.depositId = none ∧ checkFormat credit = .ok ()) := by
  cases h with
  | repeatedCredit => exact Or.inl rfl
  | credited hlookup hformat => exact Or.inr ⟨rfl, hlookup, hformat⟩

/-! ## Remembered submissions -/

/-- The submissions a transition remembers: those before, and a first submission. -/
theorem Effect.submissions_cases {s s' : EngineState} {command : Command} {outcome : Outcome}
    (h : Effect s command outcome s') :
    s'.submissions = s.submissions ∨ ∃ order, command = .submit order ∧
      s.submissions.lookup order.id = none ∧
      s'.submissions = s.submissions.insert order.id order := by
  cases h with
  | rejected hnew => exact Or.inr ⟨_, rfl, hnew, rfl⟩
  | submitted hnew => exact Or.inr ⟨_, rfl, hnew, rfl⟩
  | withdrawal step => exact Or.inl (by cases step <;> rfl)
  | deposit step => exact Or.inl (by cases step <;> rfl)
  | depositFailed step => exact Or.inl (by cases step <;> rfl)
  | _ => exact Or.inl rfl

/-- What was submitted stays remembered. -/
theorem Effect.submissions_mono {s s' : EngineState} {command : Command} {outcome : Outcome}
    (h : Effect s command outcome s') {id : UInt64} {original : OrderEntry}
    (hid : s.submissions.lookup id = some original) : s'.submissions.lookup id = some original := by
  rcases h.submissions_cases with heq | ⟨order, -, hnew, heq⟩
  · rw [heq]
    exact hid
  · have hne : id ≠ order.id := fun h => by
      rw [h, hnew] at hid
      cases hid
    rw [heq, Finmap.lookup_insert_of_ne _ hne]
    exact hid

end CexEngine
