import CexEngine.Runtime.Reachable
import CexEngine.Runtime.Store

/-!
# The life of a withdrawal

A withdrawal is reserved once, and then released or completed once; a first reservation that the
balances refuse is rejected for good.  `Lifecycle` relates the first well-formed reservation of an id,
the reports for the id and the receipt.  A command keeps the relation (`lifecycle_step`), so it holds
along every run, whatever else is executed in between.

The receipt is all that the core remembers of a withdrawal, and its `original` is what a later command is
compared with.  So the relation has to say where the receipt comes from: its content is that of the first
well-formed reservation in the history (`reserveOf`), and its status is read off the reports that were
given since (`outputOf`).  A repeated command gives no report, which is how the repetitions drop out.

`Safe` collects what follows for one id: a report moves the amount of the first reservation and no other,
a command that gives no report changes no balance, a final status is never left, and a rejected withdrawal
is answered with its first reason.
-/

namespace CexEngine

open Foundation Foundation.FiniteMap Amount

/-! ## Contents that are the same -/

namespace WithdrawalFunds

theorem Same.refl (a : WithdrawalFunds) : a.Same a := ⟨rfl, rfl, rfl, Setoid.refl _⟩

theorem Same.trans {a b c : WithdrawalFunds} (h : a.Same b) (h' : b.Same c) : a.Same c :=
  ⟨h.1.trans h'.1, h.2.1.trans h'.2.1, h.2.2.1.trans h'.2.2.1, Setoid.trans h.2.2.2 h'.2.2.2⟩

/-- The format checks see the content only. -/
theorem Same.checkFormat {a b : WithdrawalFunds} (h : a.Same b)
    (ha : Withdrawal.checkFormat a = .ok ()) : Withdrawal.checkFormat b = .ok () := by
  obtain ⟨hid, huser, hasset, hamount⟩ := h
  simp only [Withdrawal.checkFormat, bind_eq_ok, ensure_eq_ok, pure_eq_ok, exists_const] at ha ⊢
  obtain ⟨hidentity, hvalid, hpos, u, hu, -⟩ := ha
  refine ⟨?_, ?_, ?_, u, (units_congr hamount).mp hu, trivial⟩
  · rw [← hid, ← huser]
    exact hidentity
  · rw [← hasset]
    exact hvalid
  · exact (pos_iff_units ((units_congr hamount).mp hu)).mpr ((pos_iff_units hu).mp hpos)

end WithdrawalFunds

namespace Withdrawal

/-! ## The lifecycle -/

/-- **The lives of a withdrawal**: its first well-formed reservation, what was
reported, and the receipt. -/
inductive Lifecycle : Option WithdrawalFunds → List OutputBatch → Option WithdrawalReceipt → Prop
  | unused : Lifecycle none [] none
  | rejected (f : WithdrawalFunds) (reason : String) :
      Lifecycle (some f) [.withdrawalRejected f reason] (some ⟨f, .rejected reason⟩)
  | reserved (f : WithdrawalFunds) :
      Lifecycle (some f) [.withdrawalChanged ⟨.reserve, f⟩] (some ⟨f, .reserved⟩)
  | released {f g : WithdrawalFunds} (same : f.Same g) :
      Lifecycle (some f) [.withdrawalChanged ⟨.reserve, f⟩, .withdrawalChanged ⟨.release, g⟩]
        (some ⟨g, .released⟩)
  | completed {f g : WithdrawalFunds} (same : f.Same g) :
      Lifecycle (some f) [.withdrawalChanged ⟨.reserve, f⟩, .withdrawalChanged ⟨.complete, g⟩]
        (some ⟨g, .completed⟩)

/-- A well-formed reservation of an id. -/
def reserveOf (id : Uuid) : Command × Outcome → Option WithdrawalFunds
  | (.withdrawal ⟨.reserve, funds⟩, _) =>
    if funds.withdrawalId = id ∧ checkFormat funds = .ok () then some funds else none
  | _ => none

/-- What is reported for an id. -/
def outputOf (id : Uuid) (e : Command × Outcome) : Option OutputBatch :=
  match e.2 with
  | .applied (some (.withdrawalChanged command)) =>
    if command.funds.withdrawalId = id then some (.withdrawalChanged command) else none
  | .applied (some (.withdrawalRejected funds reason)) =>
    if funds.withdrawalId = id then some (.withdrawalRejected funds reason) else none
  | _ => none

section Step

variable {s s' : EngineState} {command : WithdrawalCommand}

/-- A first well-formed reservation is never refused without a trace. -/
theorem apply_first_reserve (hformat : checkFormat command.funds = .ok ())
    (hnew : s.withdrawalReceipts.lookup command.funds.withdrawalId = none)
    (haction : command.action = .reserve) :
    (∃ c', (balanceStep command).run s.cache = (.ok (), c') ∧
        (apply command).run s = (.ok (some (.withdrawalChanged command)),
          putReceipt command.funds .reserved (s.setCache c'))) ∨
      ∃ reason, (apply command).run s = (.ok (some (.withdrawalRejected command.funds reason)),
        putReceipt command.funds (.rejected reason) s) := by
  have hreceipt := checkReceipt_eq_none.mpr (Or.inl ⟨hnew, haction⟩)
  rcases balanceStep_cases command s.cache with ⟨c', hrun⟩ | ⟨reason, hrun⟩
  · have happly := apply_of_ok hformat hreceipt hrun
    rw [haction] at happly
    exact Or.inl ⟨c', hrun, happly⟩
  · have happly := apply_of_err hformat hreceipt hrun
    rw [if_pos haction] at happly
    exact Or.inr ⟨reason, happly⟩

/-- The step of a withdrawal that the core has executed. -/
theorem step_of_run {outcome : Outcome}
    (hrun : (Journal.apply (.withdrawal command)).run s = (.ok outcome, s')) :
    ∃ result, outcome = .ofResult result ∧ Step s command result s' ∧
      (apply command).run s = (result.mapError Fault.err, s') := by
  obtain ⟨result, t, hstep, happly⟩ := apply_step s command
  have hrun' : (Journal.apply (.withdrawal command)).run s = (.ok (.ofResult result), t) :=
    Journal.apply_of_result rfl happly
  rw [hrun, Prod.mk.injEq, Except.ok.injEq] at hrun'
  obtain ⟨rfl, rfl⟩ := hrun'
  exact ⟨result, rfl, hstep, happly⟩

theorem outputOf_changed (c : Command) (id : Uuid) (command : WithdrawalCommand) :
    outputOf id (c, .applied (some (.withdrawalChanged command))) =
      if command.funds.withdrawalId = id then some (.withdrawalChanged command) else none := rfl

theorem outputOf_rejected (c : Command) (id : Uuid) (funds : WithdrawalFunds) (reason : String) :
    outputOf id (c, .applied (some (.withdrawalRejected funds reason))) =
      if funds.withdrawalId = id then some (.withdrawalRejected funds reason) else none := rfl

/-- A withdrawal under another id. -/
theorem Step.other {id : Uuid} {result : Except String (Option OutputBatch)}
    (h : Step s command result s') (hid : command.funds.withdrawalId ≠ id) :
    outputOf id (.withdrawal command, .ofResult result) = none ∧
      s'.withdrawalReceipts.lookup id = s.withdrawalReceipts.lookup id := by
  cases h with
  | refused => exact ⟨rfl, rfl⟩
  | repeated => exact ⟨rfl, rfl⟩
  | rejected => exact ⟨if_neg hid, Finmap.lookup_insert_of_ne _ (Ne.symm hid)⟩
  | performed => exact ⟨if_neg hid, Finmap.lookup_insert_of_ne _ (Ne.symm hid)⟩

theorem reserveOf_withdrawal (id : Uuid) (command : WithdrawalCommand) (outcome : Outcome) :
    reserveOf id (.withdrawal command, outcome) =
      if command.action = .reserve ∧ command.funds.withdrawalId = id ∧
        checkFormat command.funds = .ok () then some command.funds else none := by
  obtain ⟨action, funds⟩ := command
  cases action <;> simp [reserveOf]

/-- **One command of a withdrawal.** -/
theorem Step.lifecycle {first : Option WithdrawalFunds} {outs : List OutputBatch}
    {result : Except String (Option OutputBatch)} (hstep : Step s command result s')
    (hrun : (apply command).run s = (result.mapError Fault.err, s'))
    (h : Lifecycle first outs (s.withdrawalReceipts.lookup command.funds.withdrawalId)) :
    Lifecycle
      (first.or (reserveOf command.funds.withdrawalId (.withdrawal command, .ofResult result)))
      (outs ++ (outputOf command.funds.withdrawalId (.withdrawal command, .ofResult result)).toList)
      (s'.withdrawalReceipts.lookup command.funds.withdrawalId) := by
  rw [reserveOf_withdrawal]
  cases hlookup : s.withdrawalReceipts.lookup command.funds.withdrawalId with
  | none =>
    rw [hlookup] at h
    cases h
    by_cases hfirst : command.action = .reserve ∧ checkFormat command.funds = .ok ()
    · obtain ⟨haction, hformat⟩ := hfirst
      rw [if_pos ⟨haction, rfl, hformat⟩, Option.none_or]
      have hcommand : command = ⟨.reserve, command.funds⟩ := by rw [← haction]
      rcases apply_first_reserve hformat hlookup haction with ⟨c', -, happly⟩ | ⟨reason, happly⟩
      · obtain ⟨hresult, rfl⟩ := Prod.mk.inj (hrun.symm.trans happly)
        obtain rfl : result = .ok (some (.withdrawalChanged command)) := by
          cases result <;> cases hresult
          rfl
        rw [Outcome.ofResult, outputOf_changed, if_pos rfl, putReceipt, Finmap.lookup_insert]
        nth_rewrite 2 [hcommand]
        exact .reserved _
      · obtain ⟨hresult, rfl⟩ := Prod.mk.inj (hrun.symm.trans happly)
        obtain rfl : result = .ok (some (.withdrawalRejected command.funds reason)) := by
          cases result <;> cases hresult
          rfl
        rw [Outcome.ofResult, outputOf_rejected, if_pos rfl, putReceipt, Finmap.lookup_insert]
        exact .rejected _ _
    · -- nothing but a well-formed reservation starts a life
      rw [if_neg fun h => hfirst ⟨h.1, h.2.2⟩, Option.none_or]
      cases hstep with
      | refused =>
        rw [hlookup]
        exact .unused
      | repeated _ hr =>
        rw [hlookup] at hr
        cases hr
      | rejected hformat _ haction => exact absurd ⟨haction, hformat⟩ hfirst
      | performed hformat hreceipt =>
        rcases checkReceipt_eq_none.mp hreceipt with ⟨-, haction⟩ | ⟨r, hr, -⟩
        · exact absurd ⟨haction, hformat⟩ hfirst
        · rw [hlookup] at hr
          cases hr
  | some r =>
    rw [hlookup] at h
    obtain ⟨f, rfl⟩ : ∃ f, first = some f := by
      cases h <;> exact ⟨_, rfl⟩
    rw [Option.some_or]
    cases hstep with
    | refused =>
      rw [hlookup]
      exact (List.append_nil outs).symm ▸ h
    | repeated =>
      rw [hlookup]
      exact (List.append_nil outs).symm ▸ h
    | rejected _ hnone =>
      rw [hlookup] at hnone
      cases hnone
    | performed hformat hreceipt =>
      rw [Outcome.ofResult, outputOf_changed, if_pos rfl, putReceipt, Finmap.lookup_insert]
      rcases checkReceipt_eq_none.mp hreceipt with ⟨hnone, -⟩ | ⟨r', hr, hsame, hstatus, haction⟩
      · rw [hlookup] at hnone
        cases hnone
      · obtain rfl : r = r' := Option.some.inj (hlookup.symm.trans hr)
        cases h with
        | reserved =>
          obtain ⟨action, funds⟩ := command
          cases action with
          | reserve => exact absurd rfl haction
          | release => exact .released hsame
          | complete => exact .completed hsame
        | rejected => cases hstatus
        | released => cases hstatus
        | completed => cases hstatus

end Step

/-- A command that is no withdrawal. -/
theorem quiet_of_ne {s s' : EngineState} {command : Command} {outcome : Outcome} (id : Uuid)
    (hrun : (Journal.apply command).run s = (.ok outcome, s'))
    (hne : ∀ c, command ≠ .withdrawal c) :
    reserveOf id (command, outcome) = none ∧ outputOf id (command, outcome) = none ∧
      s'.withdrawalReceipts = s.withdrawalReceipts := by
  have hreserve : reserveOf id (command, outcome) = none := by
    cases command with
    | withdrawal c => exact absurd rfl (hne c)
    | _ => rfl
  refine ⟨hreserve, ?_⟩
  cases Journal.apply_effect hrun with
  | withdrawal => exact absurd rfl (hne _)
  | deposit step =>
    refine ⟨?_, by cases step <;> rfl⟩
    rcases step.output_cases with rfl | ⟨rfl, -⟩ <;> rfl
  | depositFailed step => exact ⟨rfl, by cases step <;> rfl⟩
  | _ => exact ⟨rfl, rfl⟩

/-- **Every command keeps the lifecycle** of every withdrawal. -/
theorem lifecycle_step {s s' : EngineState} {command : Command} {outcome : Outcome} {id : Uuid}
    {first : Option WithdrawalFunds} {outs : List OutputBatch}
    (hrun : (Journal.apply command).run s = (.ok outcome, s'))
    (h : Lifecycle first outs (s.withdrawalReceipts.lookup id)) :
    Lifecycle (first.or (reserveOf id (command, outcome)))
      (outs ++ (outputOf id (command, outcome)).toList) (s'.withdrawalReceipts.lookup id) := by
  -- a command that is not for the id
  have hkept : reserveOf id (command, outcome) = none → outputOf id (command, outcome) = none →
      s'.withdrawalReceipts.lookup id = s.withdrawalReceipts.lookup id →
      Lifecycle (first.or (reserveOf id (command, outcome)))
        (outs ++ (outputOf id (command, outcome)).toList) (s'.withdrawalReceipts.lookup id) := by
    intro hreserve houtput hlookup
    rw [hreserve, houtput, hlookup, Option.or_none, Option.toList_none, List.append_nil]
    exact h
  by_cases hwithdrawal : ∃ c, command = .withdrawal c
  · obtain ⟨c, rfl⟩ := hwithdrawal
    obtain ⟨result, rfl, hstep, happly⟩ := step_of_run hrun
    by_cases hid : c.funds.withdrawalId = id
    · subst hid
      exact hstep.lifecycle happly h
    · obtain ⟨houtput, hlookup⟩ := hstep.other hid
      exact hkept (by rw [reserveOf_withdrawal, if_neg fun h => hid h.2.1]) houtput hlookup
  · obtain ⟨hreserve, houtput, hreceipts⟩ := quiet_of_ne id hrun (not_exists.mp hwithdrawal)
    exact hkept hreserve houtput (by rw [hreceipts])

/-- **The lifecycle along a run.** -/
theorem lifecycle_run {s s' : EngineState} {history : List (Command × Outcome)} {id : Uuid}
    {first : Option WithdrawalFunds} {outs : List OutputBatch} (hrun : Run s history s')
    (h : Lifecycle first outs (s.withdrawalReceipts.lookup id)) :
    Lifecycle (first.or (history.findSome? (reserveOf id)))
      (outs ++ history.filterMap (outputOf id)) (s'.withdrawalReceipts.lookup id) := by
  induction hrun generalizing first outs with
  | nil =>
    rw [List.findSome?_nil, Option.or_none, List.filterMap_nil, List.append_nil]
    exact h
  | @cons s mid s'' command outcome history head _ ih =>
    have htail := ih (lifecycle_step head h)
    rw [Option.or_assoc, List.append_assoc] at htail
    rw [List.findSome?_cons, List.filterMap_cons]
    cases hreserve : reserveOf id (command, outcome) <;>
      cases houtput : outputOf id (command, outcome) <;>
      simpa [hreserve, houtput] using htail

/-! ## Safety -/

/-- The command is the step that the receipt takes next. -/
def Performs (s : EngineState) (command : WithdrawalCommand) (s' : EngineState) : Prop :=
  ((s.withdrawalReceipts.lookup command.funds.withdrawalId = none ∧ command.action = .reserve) ∨
    ∃ r, s.withdrawalReceipts.lookup command.funds.withdrawalId = some r ∧
      r.original.Same command.funds ∧ r.status = .reserved ∧ command.action ≠ .reserve) ∧
  s'.withdrawalReceipts.lookup command.funds.withdrawalId =
    some ⟨command.funds, nextStatus command.action⟩ ∧
  ∃ v, units command.funds.amount = .ok v ∧ BalanceCache.Moves s.cache s'.cache
    (stepDelta command v) [(command.funds.userId, command.funds.asset)]

/-- The command is the step that the receipt is in. -/
def Repeats (s : EngineState) (command : WithdrawalCommand) : Prop :=
  ∃ r, s.withdrawalReceipts.lookup command.funds.withdrawalId = some r ∧
    r.original.Same command.funds ∧ r.status = nextStatus command.action

/-- **A withdrawal is safe** after a history, in the state it leads to. -/
structure Safe (id : Uuid) (history : List (Command × Outcome)) (s : EngineState) : Prop where
  lifecycle : Lifecycle (history.findSome? (reserveOf id)) (history.filterMap (outputOf id))
    (s.withdrawalReceipts.lookup id)
  /-- A reported step moves the amount of the first reservation. -/
  moved : ∀ command s', command.funds.withdrawalId = id →
    (Journal.apply (.withdrawal command)).run s =
      (.ok (.applied (some (.withdrawalChanged command))), s') →
    ∃ f v, (history ++ [(Command.withdrawal command,
        Outcome.applied (some (.withdrawalChanged command)))]).findSome? (reserveOf id) = some f ∧
      units f.amount = .ok v ∧ BalanceCache.Moves s.cache s'.cache
        (stepDelta ⟨command.action, f⟩ v) [(f.userId, f.asset)]
  /-- Nothing else of a withdrawal moves anything. -/
  still : ∀ command outcome s', command.funds.withdrawalId = id →
    (Journal.apply (.withdrawal command)).run s = (.ok outcome, s') →
    outcome ≠ .applied (some (.withdrawalChanged command)) → s'.cache = s.cache
  /-- A finished withdrawal stays as it is, and its commands change nothing. -/
  absorbed : ∀ r, s.withdrawalReceipts.lookup id = some r → r.status ≠ .reserved →
    (∀ command, command.funds.withdrawalId = id →
      ∃ outcome, (Journal.apply (.withdrawal command)).run s = (.ok outcome, s)) ∧
    ∀ history' s', Run s history' s' → s'.withdrawalReceipts.lookup id = some r
  /-- What was rejected is refused, with the first reason. -/
  refused : ∀ f reason, s.withdrawalReceipts.lookup id = some ⟨f, .rejected reason⟩ →
    ∀ command, command.funds.withdrawalId = id →
      ∃ reason', (Journal.apply (.withdrawal command)).run s = (.ok (.failed reason'), s) ∧
        (f.Same command.funds → reason' = reason)
  /-- The reply is a success for the step that is performed or repeated. -/
  reply : ∀ command sender outcome s', command.funds.withdrawalId = id →
    (Journal.apply (.withdrawal command)).run s = (.ok outcome, s') →
    ((Pending.answer ⟨some (.withdrawal command), outcome, .withdrawal sender⟩).2 = .done ↔
      Performs s command s' ∨ Repeats s command)

section Safe

variable {s s' : EngineState} {command : WithdrawalCommand} {id : Uuid}
  {first : Option WithdrawalFunds} {outs : List OutputBatch}

/-- The receipt is about the first reservation. -/
theorem Lifecycle.original {r : WithdrawalReceipt} (h : Lifecycle first outs (some r)) :
    ∃ f, first = some f ∧ f.Same r.original := by
  cases h with
  | rejected f reason => exact ⟨f, rfl, .refl f⟩
  | reserved f => exact ⟨f, rfl, .refl f⟩
  | released same => exact ⟨_, rfl, same⟩
  | completed same => exact ⟨_, rfl, same⟩

theorem reserveOf_eq_some {e : Command × Outcome} {f : WithdrawalFunds}
    (h : reserveOf id e = some f) : f.withdrawalId = id ∧ checkFormat f = .ok () := by
  unfold reserveOf at h
  split at h
  · split at h
    · next hcond =>
      cases h
      exact hcond
    · cases h
  · cases h

theorem first_wellFormed {history : List (Command × Outcome)} {f : WithdrawalFunds}
    (h : history.findSome? (reserveOf id) = some f) : f.withdrawalId = id ∧ checkFormat f = .ok () := by
  obtain ⟨e, -, he⟩ := List.exists_of_findSome?_eq_some h
  exact reserveOf_eq_some he

/-- A finished receipt stays. -/
theorem Step.final {result : Except String (Option OutputBatch)} (h : Step s command result s')
    {r : WithdrawalReceipt} (hr : s.withdrawalReceipts.lookup command.funds.withdrawalId = some r)
    (hfinal : r.status ≠ .reserved) : s' = s := by
  cases h with
  | refused => rfl
  | repeated => rfl
  | rejected _ hnone =>
    rw [hr] at hnone
    cases hnone
  | performed _ hreceipt =>
    rcases checkReceipt_eq_none.mp hreceipt with ⟨hnone, -⟩ | ⟨r', hr', -, hstatus, -⟩
    · rw [hr] at hnone
      cases hnone
    · obtain rfl : r = r' := Option.some.inj (hr.symm.trans hr')
      exact absurd hstatus hfinal

theorem final_step {c : Command} {outcome : Outcome}
    (hrun : (Journal.apply c).run s = (.ok outcome, s')) {r : WithdrawalReceipt}
    (hr : s.withdrawalReceipts.lookup id = some r) (hfinal : r.status ≠ .reserved) :
    s'.withdrawalReceipts.lookup id = some r := by
  by_cases hwithdrawal : ∃ command, c = .withdrawal command
  · obtain ⟨command, rfl⟩ := hwithdrawal
    obtain ⟨result, -, hstep, -⟩ := step_of_run hrun
    by_cases hid : command.funds.withdrawalId = id
    · subst hid
      rw [hstep.final hr hfinal]
      exact hr
    · rw [(hstep.other hid).2]
      exact hr
  · rw [(quiet_of_ne id hrun (not_exists.mp hwithdrawal)).2.2]
    exact hr

theorem final_run {history : List (Command × Outcome)} (hrun : Run s history s')
    {r : WithdrawalReceipt} (hr : s.withdrawalReceipts.lookup id = some r)
    (hfinal : r.status ≠ .reserved) : s'.withdrawalReceipts.lookup id = some r := by
  induction hrun with
  | nil => exact hr
  | cons head _ ih => exact ih (final_step head hr hfinal)

/-- A rejected withdrawal. -/
theorem apply_of_rejected {f : WithdrawalFunds} {reason : String}
    (hr : s.withdrawalReceipts.lookup command.funds.withdrawalId = some ⟨f, .rejected reason⟩)
    (hformat : checkFormat command.funds = .ok ()) (hsame : f.Same command.funds) :
    (apply command).run s = (.error (.err reason), s) := by
  have hreceipt : checkReceipt (s.withdrawalReceipts.lookup command.funds.withdrawalId) command =
      .error (.err reason) := by
    rw [hr, checkReceipt, ensure, if_pos hsame]
    rfl
  simp only [apply, Mut.run_bind, hformat, Mut.run_lift, Mut.run_get, hreceipt]

/-- The movement of a step is that of the same step on the first reservation. -/
theorem stepDelta_same {f : WithdrawalFunds} (h : f.Same command.funds) (v : ℤ) :
    stepDelta ⟨command.action, f⟩ v = stepDelta command v := by
  simp only [stepDelta, h.2.1, h.2.2.1]

/-- Which step moves the balances. -/
theorem Step.cache {result : Except String (Option OutputBatch)} (h : Step s command result s') :
    (result = .ok (some (.withdrawalChanged command)) ∧ Performs s command s') ∨
      (result ≠ .ok (some (.withdrawalChanged command)) ∧ s'.cache = s.cache) := by
  cases h with
  | refused => exact Or.inr ⟨nofun, rfl⟩
  | repeated => exact Or.inr ⟨nofun, rfl⟩
  | rejected => exact Or.inr ⟨nofun, rfl⟩
  | performed hformat hreceipt hrun =>
    exact Or.inl ⟨rfl, checkReceipt_eq_none.mp hreceipt, Finmap.lookup_insert .., balanceStep_moves hrun⟩

/-- When the reply is a success. -/
theorem Step.reply {result : Except String (Option OutputBatch)} (h : Step s command result s')
    (sender : ℕ) (hformat : Repeats s command → checkFormat command.funds = .ok ())
    (hrun : (apply command).run s = (result.mapError Fault.err, s')) :
    (Pending.answer ⟨some (.withdrawal command), .ofResult result, .withdrawal sender⟩).2 = .done ↔
      Performs s command s' ∨ Repeats s command := by
  -- a repetition changes nothing and is answered at once
  have hrepeats : Repeats s command → result = .ok none := by
    rintro ⟨r, hr, hsame, hstatus⟩
    have happly := apply_of_repeated (hformat ⟨r, hr, hsame, hstatus⟩) hr hsame hstatus
    have hresult := (Prod.mk.inj (hrun.symm.trans happly)).1
    cases result <;> cases hresult
    rfl
  cases h with
  | @refused reason =>
    refine ⟨nofun, ?_⟩
    rintro (⟨hbefore, hafter, -⟩ | hrepeat)
    · -- without a change the receipt cannot be the next one
      rcases hbefore with ⟨hnone, -⟩ | ⟨r, hr, -, hstatus, haction⟩
      · rw [hnone] at hafter
        cases hafter
      · rw [hr, Option.some.injEq] at hafter
        rw [hafter] at hstatus
        cases hact : command.action with
        | reserve => exact absurd hact haction
        | release => rw [hact] at hstatus; cases hstatus
        | complete => rw [hact] at hstatus; cases hstatus
    · cases hrepeats hrepeat
  | repeated _ hr hsame hstatus => exact ⟨fun _ => Or.inr ⟨_, hr, hsame, hstatus⟩, fun _ => rfl⟩
  | @rejected reason =>
    refine ⟨nofun, ?_⟩
    rintro (⟨-, hafter, -⟩ | hrepeat)
    · rw [putReceipt, Finmap.lookup_insert, Option.some.injEq, WithdrawalReceipt.mk.injEq] at hafter
      cases hact : command.action <;> rw [hact] at hafter <;> cases hafter.2
    · cases hrepeats hrepeat
  | performed hformat hreceipt hstep =>
    refine ⟨fun _ => Or.inl ⟨checkReceipt_eq_none.mp hreceipt, Finmap.lookup_insert ..,
      balanceStep_moves hstep⟩, fun _ => rfl⟩

end Safe

/-- **The lifecycle of a withdrawal is safe.**  In every run, and for every id: the
reports are nothing, a rejection, a reservation, or a reservation with its release or
its completion; every step moves the amount of the first well-formed reservation, and
nothing else moves anything; what is finished stays finished. -/
theorem withdrawal_safe {cache : BalanceCache} {history : List (Command × Outcome)}
    {s : EngineState} (h : Run (.genesis cache) history s) (id : Uuid) : Safe id history s := by
  have hlife : Lifecycle (history.findSome? (reserveOf id)) (history.filterMap (outputOf id))
      (s.withdrawalReceipts.lookup id) := lifecycle_run h .unused
  -- contents that are the same as a receipt's are well formed
  have hformat : ∀ r (command : WithdrawalCommand), s.withdrawalReceipts.lookup id = some r →
      r.original.Same command.funds → checkFormat command.funds = .ok () := by
    intro r command hr hsame
    rw [hr] at hlife
    obtain ⟨f, hf, hfr⟩ := hlife.original
    exact (hfr.trans hsame).checkFormat (first_wellFormed hf).2
  refine ⟨hlife, ?_, ?_, ?_, ?_, ?_⟩
  · rintro command s' rfl hrun
    obtain ⟨result, hresult, hstep, -⟩ := step_of_run hrun
    have hok : result = .ok (some (.withdrawalChanged command)) := by
      cases result <;> cases hresult
      rfl
    rcases hstep.cache with ⟨-, -, hreceipt, v, hv, hmoves⟩ | ⟨hne, -⟩
    · -- the receipt after the step is about the first reservation
      have hnext : Lifecycle _ _ (s'.withdrawalReceipts.lookup command.funds.withdrawalId) :=
        lifecycle_run (h.append (.cons hrun (.nil _))) .unused
      rw [hreceipt, Option.none_or] at hnext
      obtain ⟨f, hf, hsame⟩ := hnext.original
      refine ⟨f, v, hf, (units_congr hsame.2.2.2).mpr hv, ?_⟩
      rw [stepDelta_same hsame, hsame.2.1, hsame.2.2.1]
      exact hmoves
    · exact absurd hok hne
  · rintro command outcome s' rfl hrun hne
    obtain ⟨result, rfl, hstep, -⟩ := step_of_run hrun
    rcases hstep.cache with ⟨rfl, -⟩ | ⟨-, hcache⟩
    · exact absurd rfl hne
    · exact hcache
  · intro r hr hfinal
    refine ⟨?_, fun history' s' hrun => final_run hrun hr hfinal⟩
    rintro command rfl
    obtain ⟨result, s', hstep, hrun⟩ := apply_run s command
    rw [hstep.final hr hfinal] at hrun
    exact ⟨_, hrun⟩
  · rintro f reason hr command rfl
    by_cases hsame : f.Same command.funds
    · have happly := apply_of_rejected hr (hformat _ _ hr hsame) hsame
      exact ⟨reason, Journal.apply_of_execute_err rfl happly, fun _ => rfl⟩
    · obtain ⟨result, s', hstep, hrun⟩ := apply_run s command
      cases hstep with
      | refused => exact ⟨_, hrun, fun h => absurd h hsame⟩
      | repeated _ hr' hsame' =>
        obtain rfl := Option.some.inj (hr.symm.trans hr')
        exact absurd hsame' hsame
      | rejected _ hnone =>
        rw [hr] at hnone
        cases hnone
      | performed _ hreceipt =>
        rcases checkReceipt_eq_none.mp hreceipt with ⟨hnone, -⟩ | ⟨r', hr', hsame', -⟩
        · rw [hr] at hnone
          cases hnone
        · obtain rfl := Option.some.inj (hr.symm.trans hr')
          exact absurd hsame' hsame
  · rintro command sender outcome s' rfl hrun
    obtain ⟨result, rfl, hstep, happly⟩ := step_of_run hrun
    refine hstep.reply sender ?_ happly
    rintro ⟨r, hr, hsame, -⟩
    exact hformat r command hr hsame

/-- A reservation of one unit by user 2, and its release. -/
def sampleFunds : WithdrawalFunds := ⟨7, 2, "USDT", Decimal.ONE⟩

theorem withdrawal_safe_released :
    ∃ s, Run (.genesis (EngineState.funded Decimal.ONE Decimal.ONE))
        [(.withdrawal ⟨.reserve, sampleFunds⟩,
            .applied (some (.withdrawalChanged ⟨.reserve, sampleFunds⟩))),
          (.withdrawal ⟨.release, sampleFunds⟩,
            .applied (some (.withdrawalChanged ⟨.release, sampleFunds⟩)))] s ∧
      Safe 7 [(.withdrawal ⟨.reserve, sampleFunds⟩,
            .applied (some (.withdrawalChanged ⟨.reserve, sampleFunds⟩))),
          (.withdrawal ⟨.release, sampleFunds⟩,
            .applied (some (.withdrawalChanged ⟨.release, sampleFunds⟩)))] s := by
  have hone : units Decimal.ONE = .ok 1000000000 := rfl
  obtain ⟨outcomes, s, hrun, hlength, hhistory⟩ := Journal.applyAll_total
    (EngineState.inv_genesis (EngineState.valid_funded hone hone))
    [.withdrawal ⟨.reserve, sampleFunds⟩, .withdrawal ⟨.release, sampleFunds⟩]
  have houtcomes : ((Journal.applyAll [.withdrawal ⟨.reserve, sampleFunds⟩,
      .withdrawal ⟨.release, sampleFunds⟩]).run
        (.genesis (EngineState.funded Decimal.ONE Decimal.ONE))).1.toOption =
      some [.applied (some (.withdrawalChanged ⟨.reserve, sampleFunds⟩)),
        .applied (some (.withdrawalChanged ⟨.release, sampleFunds⟩))] := by
    decide +kernel
  rw [hrun] at houtcomes
  obtain rfl := Option.some.inj houtcomes
  exact ⟨s, hhistory, withdrawal_safe hhistory 7⟩

end Withdrawal

end CexEngine
