import CexEngine.Handlers.FinancialInput
import CexEngine.Runtime.ExactlyOnce
import CexEngine.Runtime.Linearizable
import CexEngine.Runtime.WithdrawalLifecycle

/-!
# What the replies of the financial interface promise

`credit_deposit` of `deposit_handler.rs` and `change_withdrawal` of `withdrawal_handler.rs`.  A
request that is well formed becomes a call of the engine, and the result of the call becomes one of
four codes.  The platform acts on a code, perhaps long after it was sent and after restarts of the
engine, so what a code says must stay true.

* `Deposit.confirmed`, `Deposit.refused`: a deposit that was confirmed is credited in one record,
  and one that was refused is credited in none.
* `Withdrawal.confirmed`, `Withdrawal.refused`: the same for the three steps of a withdrawal.
* `ended_later`: a call that has ended, seen from any later time.
* `deposit_replies_final`, `withdrawal_replies_final`: what the codes say, now and later.
-/

namespace CexEngine

open Foundation Foundation.FiniteMap Amount
open Store (recordsOf rowOf)

/-! ## Deposits in a history -/

namespace Deposit

variable {cache : BalanceCache} {history rest : List (Command × Outcome)} {s s' : EngineState}
  {credit : DepositCredit} {outcome : Outcome}

/-- The step of a deposit that the core has executed. -/
theorem step_of_run (hrun : (Journal.apply (.creditDeposit credit)).run s = (.ok outcome, s')) :
    ∃ result, outcome = .ofResult result ∧ Step s credit result s' := by
  obtain ⟨result, t, hstep, hrun'⟩ := apply_run s credit
  rw [hrun, Prod.mk.injEq, Except.ok.injEq] at hrun'
  obtain ⟨rfl, rfl⟩ := hrun'
  exact ⟨result, rfl, hstep⟩

/-- A receipt stays. -/
theorem receipt_kept (h : Run s history s') {receipt : DepositReceipt} {id : Uuid}
    (hreceipt : s.depositReceipts.lookup id = some receipt) :
    s'.depositReceipts.lookup id = some receipt := by
  rw [h.index_eq (writes_depositReceipts id), hreceipt]
  rfl

/-- A deposit that a record credits has a receipt without a rejection. -/
theorem receipt_of_credited (h : Run s history s') {command : Command}
    (hmem : (command, .applied (some (.depositCredited credit))) ∈ history) :
    s'.depositReceipts.lookup credit.depositId = some ⟨credit, none⟩ := by
  obtain ⟨before, after, rfl⟩ := List.append_of_mem hmem
  obtain ⟨mid, hbefore, hrest⟩ := h.split
  cases hrest with
  | @cons _ next _ _ _ _ head tail =>
    refine receipt_kept tail ?_
    cases Journal.apply_effect head with
    | deposit step =>
      cases step
      exact Finmap.lookup_insert ..
    | withdrawal step => cases step

/-- A receipt without a rejection comes from a record that credits the deposit. -/
theorem credited_of_receipt (h : Run (.genesis cache) history s) {id : Uuid}
    (hreceipt : s.depositReceipts.lookup id = some ⟨credit, none⟩) :
    (.creditDeposit credit, .applied (some (.depositCredited credit))) ∈ history := by
  have hfirst : history.findSome? (receiptOf id) = some ⟨credit, none⟩ :=
    (h.index_eq (writes_depositReceipts id)).symm.trans hreceipt
  obtain ⟨before, ⟨command, outcome⟩, after, rfl, hentry, hnone⟩ :=
    List.findSome?_eq_some_iff.mp hfirst
  obtain ⟨mid, hbefore, hrest⟩ := h.split
  have hnew : mid.depositReceipts.lookup id = none :=
    (hbefore.index_eq (writes_depositReceipts id)).trans (List.findSome?_eq_none_iff.mpr hnone)
  refine List.mem_append_right _ ?_
  cases command with
  | creditDeposit original =>
    rw [receiptOf] at hentry
    split at hentry
    · next hcond =>
      obtain ⟨rfl, hformat⟩ := hcond
      rw [Option.some.injEq, DepositReceipt.mk.injEq] at hentry
      obtain ⟨rfl, hfailure⟩ := hentry
      cases hrest with
      | cons head tail =>
        obtain ⟨result, rfl, hstep⟩ := step_of_run head
        cases hstep with
        | malformed _ hbad =>
          rw [hformat] at hbad
          cases hbad
        | conflict hlookup | repeatedRejection hlookup | repeatedCredit hlookup =>
          rw [hnew] at hlookup
          cases hlookup
        | rejected => cases hfailure
        | credited => exact List.mem_cons_self ..
    · cases hentry
  | _ => cases hentry

/-- **A deposit that was confirmed is credited**, in one record. -/
theorem confirmed {final : EngineState} (hcache : cache.Valid) (h : Run (.genesis cache) history s)
    (hrun : (Journal.apply (.creditDeposit credit)).run s = (.ok outcome, s'))
    (hrest : Run s' rest final) (hok : outcome.failure = none) :
    (history ++ (.creditDeposit credit, outcome) :: rest).countP (credits credit.depositId) = 1 ∧
      ∃ credited : DepositCredit, credited.Same credit ∧
        (.creditDeposit credited, .applied (some (.depositCredited credited))) ∈
          history ++ (.creditDeposit credit, outcome) :: rest := by
  have hall : Run (.genesis cache) (history ++ (.creditDeposit credit, outcome) :: rest) final :=
    h.append (.cons hrun hrest)
  obtain ⟨credited, hsame, hmem⟩ : ∃ credited : DepositCredit, credited.Same credit ∧
      (.creditDeposit credited, .applied (some (.depositCredited credited))) ∈
        history ++ (.creditDeposit credit, outcome) :: rest := by
    obtain ⟨result, rfl, hstep⟩ := step_of_run hrun
    cases hstep with
    | malformed | conflict | repeatedRejection | rejected => cases hok
    | @repeatedCredit receipt hlookup hsame hrejection =>
      obtain ⟨original, rejection⟩ := receipt
      obtain rfl : rejection = none := hrejection
      exact ⟨original, hsame, List.mem_append_left _ (credited_of_receipt h hlookup)⟩
    | credited =>
      exact ⟨credit, ⟨rfl, rfl, rfl, Setoid.refl _⟩,
        List.mem_append_right _ (List.mem_cons_self ..)⟩
  refine ⟨le_antisymm ((hall.onceOnly hcache).credited _) ?_, credited, hsame, hmem⟩
  refine List.countP_pos_iff.mpr ⟨_, hmem, ?_⟩
  exact beq_iff_eq.mpr hsame.1

/-- **A deposit that was refused is never credited.** -/
theorem refused {final : EngineState} (h : Run (.genesis cache) history s)
    (hformat : checkFormat credit = .ok ())
    (hrun : (Journal.apply (.creditDeposit credit)).run s = (.ok outcome, s'))
    (hrest : Run s' rest final) (hfailed : outcome.failure ≠ none) {command : Command}
    {credited : DepositCredit}
    (hmem : (command, .applied (some (.depositCredited credited))) ∈
      history ++ (.creditDeposit credit, outcome) :: rest) : ¬ credited.Same credit := by
  intro hsame
  have hfinal := receipt_of_credited (h.append (.cons hrun hrest)) hmem
  rw [hsame.1] at hfinal
  -- the receipt after the refusal is the last one
  have hreceipt : ∀ {receipt : DepositReceipt},
      s'.depositReceipts.lookup credit.depositId = some receipt → receipt = ⟨credited, none⟩ :=
    fun hlookup => Option.some.inj ((receipt_kept hrest hlookup).symm.trans hfinal)
  obtain ⟨result, rfl, hstep⟩ := step_of_run hrun
  cases hstep with
  | malformed _ hbad =>
    rw [hformat] at hbad
    cases hbad
  | conflict hlookup hdiffers =>
    obtain rfl := hreceipt hlookup
    exact hdiffers hsame
  | repeatedRejection hlookup _ hrejection =>
    obtain rfl := hreceipt hlookup
    cases hrejection
  | repeatedCredit | credited => exact hfailed rfl
  | rejected =>
    have hnew := hreceipt (Finmap.lookup_insert ..)
    cases hnew

end Deposit

/-! ## Withdrawals in a history -/

namespace Withdrawal

variable {cache : BalanceCache} {history rest : List (Command × Outcome)} {s s' final : EngineState}
  {command : WithdrawalCommand} {outcome : Outcome}

/-- What was reported for the withdrawal when its step is confirmed. -/
def Confirmed (command : WithdrawalCommand) (history : List (Command × Outcome)) : Prop :=
  let reports := history.filterMap (outputOf command.funds.withdrawalId)
  ∃ f : WithdrawalFunds, f.Same command.funds ∧
    match command.action with
    | .reserve => [.withdrawalChanged ⟨.reserve, f⟩] <+: reports
    | action => ∃ g : WithdrawalFunds, g.Same command.funds ∧
      reports = [.withdrawalChanged ⟨.reserve, f⟩, .withdrawalChanged ⟨action, g⟩]

/-- The reports for a withdrawal, and its receipt. -/
theorem lifecycle_of_run (h : Run (.genesis cache) history s) (id : Uuid) :
    Lifecycle (history.findSome? (reserveOf id)) (history.filterMap (outputOf id))
      (s.withdrawalReceipts.lookup id) := lifecycle_run h .unused

/-- The life of a reserved withdrawal. -/
theorem Lifecycle.reserved_inv {first : Option WithdrawalFunds} {outs : List OutputBatch}
    {f : WithdrawalFunds} (h : Lifecycle first outs (some ⟨f, .reserved⟩)) :
    first = some f ∧ outs = [.withdrawalChanged ⟨.reserve, f⟩] := by
  cases h
  exact ⟨rfl, rfl⟩

/-- The life of a withdrawal that was released or completed. -/
theorem Lifecycle.ended_inv {first : Option WithdrawalFunds} {outs : List OutputBatch}
    {g : WithdrawalFunds} {action : WithdrawalAction} (haction : action ≠ .reserve)
    (h : Lifecycle first outs (some ⟨g, nextStatus action⟩)) :
    ∃ f : WithdrawalFunds, f.Same g ∧
      outs = [.withdrawalChanged ⟨.reserve, f⟩, .withdrawalChanged ⟨action, g⟩] := by
  cases action with
  | reserve => exact absurd rfl haction
  | release =>
    cases h with
    | released same => exact ⟨_, same, rfl⟩
  | complete =>
    cases h with
    | completed same => exact ⟨_, same, rfl⟩

/-- The receipt after a step that was confirmed. -/
theorem Step.confirmed_receipt {result : Except String (Option OutputBatch)}
    (hstep : Step s command result s') {sender : ℕ}
    (hdone : (Pending.answer ⟨some (.withdrawal command), .ofResult result,
      .withdrawal sender⟩).2 = .done) :
    ∃ r, s'.withdrawalReceipts.lookup command.funds.withdrawalId = some r ∧
      r.original.Same command.funds ∧ r.status = nextStatus command.action := by
  cases hstep with
  | refused => cases hdone
  | repeated _ hlookup hsame hstatus => exact ⟨_, hlookup, hsame, hstatus⟩
  | rejected => cases hdone
  | performed => exact ⟨_, Finmap.lookup_insert .., .refl _, rfl⟩

/-- **A step that was confirmed is in the reports**, and a release or a completion is the last. -/
theorem confirmed (h : Run (.genesis cache) history s)
    (hrun : (Journal.apply (.withdrawal command)).run s = (.ok outcome, s'))
    (hrest : Run s' rest final) {sender : ℕ}
    (hdone : (Pending.answer ⟨some (.withdrawal command), outcome, .withdrawal sender⟩).2 = .done) :
    Confirmed command (history ++ (.withdrawal command, outcome) :: rest) := by
  obtain ⟨result, rfl, hstep, -⟩ := step_of_run hrun
  obtain ⟨⟨original, status⟩, hr, hsame, rfl⟩ := hstep.confirmed_receipt hdone
  unfold Confirmed
  by_cases haction : command.action = .reserve
  · -- the reports up to the confirmation are those of a reservation
    have hnext := lifecycle_of_run (h.append (.cons hrun (.nil _))) command.funds.withdrawalId
    rw [hr, haction] at hnext
    refine ⟨original, hsame, ?_⟩
    simp only [haction]
    rw [List.append_cons, List.filterMap_append, hnext.reserved_inv.2]
    exact List.prefix_append ..
  · -- the receipt stays, so the reports are those of its status
    have hall := lifecycle_of_run (h.append (.cons hrun hrest)) command.funds.withdrawalId
    have hfinal : nextStatus command.action ≠ .reserved := by
      cases hact : command.action <;> simp_all [nextStatus]
    rw [final_run hrest hr hfinal] at hall
    obtain ⟨f, hf, hreports⟩ := hall.ended_inv haction
    refine ⟨f, hf.trans hsame, ?_⟩
    cases hact : command.action with
    | reserve => exact absurd hact haction
    | release => exact ⟨original, hsame, hact ▸ hreports⟩
    | complete => exact ⟨original, hsame, hact ▸ hreports⟩

/-- The receipt after a reservation that was refused. -/
theorem refused_receipt (hformat : checkFormat command.funds = .ok ())
    (haction : command.action = .reserve)
    (hrun : (Journal.apply (.withdrawal command)).run s = (.ok outcome, s')) {sender : ℕ}
    (hfailed : (Pending.answer ⟨some (.withdrawal command), outcome, .withdrawal sender⟩).2 ≠ .done) :
    ∃ r, s'.withdrawalReceipts.lookup command.funds.withdrawalId = some r ∧
      ¬ (r.original.Same command.funds ∧ r.status = .reserved) := by
  obtain ⟨result, rfl, hstep, happly⟩ := step_of_run hrun
  cases hstep with
  | @refused reason =>
    cases hlookup : s.withdrawalReceipts.lookup command.funds.withdrawalId with
    | none =>
      -- a first reservation leaves a receipt
      rcases apply_first_reserve hformat hlookup haction with ⟨c', -, hfirst⟩ | ⟨reason, hfirst⟩ <;>
        cases (Prod.mk.inj (happly.symm.trans hfirst)).1
    | some r =>
      refine ⟨r, rfl, fun ⟨hsame, hstatus⟩ => ?_⟩
      have hrepeated := apply_of_repeated hformat hlookup hsame
        (hstatus.trans (by rw [haction]; rfl))
      cases (Prod.mk.inj (happly.symm.trans hrepeated)).1
  | repeated | performed => exact absurd rfl hfailed
  | rejected =>
    refine ⟨_, Finmap.lookup_insert .., fun hreserved => ?_⟩
    cases hreserved.2

/-- **A reservation that was refused holds nothing**, then or later. -/
theorem refused (h : Run (.genesis cache) history s) (hformat : checkFormat command.funds = .ok ())
    (haction : command.action = .reserve)
    (hrun : (Journal.apply (.withdrawal command)).run s = (.ok outcome, s'))
    (hrest : Run s' rest final) {sender : ℕ}
    (hfailed : (Pending.answer ⟨some (.withdrawal command), outcome, .withdrawal sender⟩).2 ≠ .done)
    {f : WithdrawalFunds} (hsame : f.Same command.funds) :
    (history ++ (.withdrawal command, outcome) :: rest).filterMap
      (outputOf command.funds.withdrawalId) ≠ [.withdrawalChanged ⟨.reserve, f⟩] := by
  intro hreports
  obtain ⟨r, hr, hnot⟩ := refused_receipt hformat haction hrun hfailed
  have hnext := lifecycle_of_run (h.append (.cons hrun (.nil _))) command.funds.withdrawalId
  have hall := lifecycle_of_run (h.append (.cons hrun hrest)) command.funds.withdrawalId
  rw [hreports] at hall
  -- the last receipt is that of a reservation of `f`
  obtain ⟨hfirst, hlast⟩ : (history ++ (Command.withdrawal command, outcome) :: rest).findSome?
      (reserveOf command.funds.withdrawalId) = some f ∧
        final.withdrawalReceipts.lookup command.funds.withdrawalId = some ⟨f, .reserved⟩ := by
    generalize (history ++ (Command.withdrawal command, outcome) :: rest).findSome?
      (reserveOf command.funds.withdrawalId) = first at hall ⊢
    generalize final.withdrawalReceipts.lookup command.funds.withdrawalId = receipt at hall ⊢
    cases hall
    exact ⟨rfl, rfl⟩
  obtain ⟨original, status⟩ := r
  by_cases hstatus : status = .reserved
  · -- the first reservation stays the first
    subst hstatus
    rw [hr] at hnext
    rw [List.append_cons, List.findSome?_append, hnext.reserved_inv.1] at hfirst
    obtain rfl : original = f := Option.some.inj hfirst
    exact hnot ⟨hsame, rfl⟩
  · have hkept := final_run hrest hr hstatus
    rw [hlast, Option.some.injEq, WithdrawalReceipt.mk.injEq] at hkept
    exact hstatus hkept.2.symm

end Withdrawal

/-! ## Replies -/

namespace FinancialInput

open Pipeline

/-- Why the body of a request was not read. -/
inductive JsonRejection where
  | payloadTooLarge
  | other
  deriving DecidableEq

def JsonRejection.status : JsonRejection → ℕ
  | payloadTooLarge => 413
  | other => 400

structure DepositReply where
  status : ℕ
  code : String
  depositId : Option Uuid
  deriving DecidableEq

structure WithdrawalReply where
  status : ℕ
  code : String
  withdrawalId : Option Uuid
  action : Option WithdrawalAction
  deriving DecidableEq

/-- `credit_deposit` up to the call of the engine: the content of the call, or a reply at once. -/
def admitDeposit : Except JsonRejection CreditRequest → Except DepositReply DepositCredit
  | .error rejection => .error ⟨rejection.status, "INVALID_DEPOSIT_CREDIT", none⟩
  | .ok request =>
    match request.validated with
    | some credit => .ok credit
    | none => .error ⟨400, "INVALID_DEPOSIT_CREDIT", none⟩

/-- `credit_deposit` after the call of the engine. -/
def depositReply (id : Uuid) : Except FinancialError Unit → DepositReply
  | .ok () => ⟨200, "DURABLY_CREDITED", some id⟩
  | .error .notAccepted => ⟨503, "NOT_ACCEPTED", some id⟩
  | .error (.rejected _) => ⟨409, "DURABLY_REJECTED", some id⟩
  | .error .outcomeUnknown => ⟨504, "OUTCOME_UNKNOWN", some id⟩

/-- `change_withdrawal` up to the call of the engine. -/
def admitWithdrawal :
    Except JsonRejection WithdrawalRequest → Except WithdrawalReply WithdrawalCommand
  | .error rejection => .error ⟨rejection.status, "INVALID_WITHDRAWAL_COMMAND", none, none⟩
  | .ok request =>
    match request.validated with
    | some command => .ok command
    | none => .error ⟨400, "INVALID_WITHDRAWAL_COMMAND", none, none⟩

def durableCode : WithdrawalAction → String
  | .reserve => "DURABLY_RESERVED"
  | .release => "DURABLY_RELEASED"
  | .complete => "DURABLY_COMPLETED"

theorem durableCode_ne (action : WithdrawalAction) : durableCode action ≠ "NOT_ACCEPTED" ∧
    durableCode action ≠ "OUTCOME_UNKNOWN" ∧ durableCode action ≠ "DURABLY_REJECTED" := by
  cases action <;> decide

/-- `change_withdrawal` after the call of the engine. -/
def withdrawalReply (id : Uuid) (action : WithdrawalAction) :
    Except FinancialError Unit → WithdrawalReply
  | .ok () => ⟨200, durableCode action, some id, some action⟩
  | .error .notAccepted => ⟨503, "NOT_ACCEPTED", some id, some action⟩
  | .error .outcomeUnknown => ⟨504, "OUTCOME_UNKNOWN", some id, some action⟩
  | .error (.rejected _) => ⟨409, "DURABLY_REJECTED", some id, some action⟩

/-- The call number `n` of an execution was made for a request, and has returned. -/
structure Returned (c : Clients) (n : ℕ) (command : BalanceCommand)
    (returned : Except FinancialError Unit) : Prop where
  ended : ∃ call result, c.calls[n]? = some call ∧ call.input = .balance command ∧
    call.phase = .done result ∧ financialResult result = some returned

/-- What a reply says about a deposit, from the records `D` on the disk. -/
structure DepositFinal (credit : DepositCredit) (n : ℕ) (reply : DepositReply) (c : Clients)
    (D : List (Command × Outcome)) : Prop where
  credited : reply.code = "DURABLY_CREDITED" → D.countP (credits credit.depositId) = 1 ∧
    ∃ credited : DepositCredit, credited.Same credit ∧
      (.creditDeposit credited, .applied (some (.depositCredited credited))) ∈ D
  rejected : reply.code = "DURABLY_REJECTED" → ∀ command credited,
    (command, .applied (some (.depositCredited credited))) ∈ D → ¬ credited.Same credit
  notAccepted : reply.code = "NOT_ACCEPTED" →
    n ∉ c.log ∧ ∀ input ∈ c.world.queued, input.response ≠ n

/-- What a reply says about a withdrawal. -/
structure WithdrawalFinal (command : WithdrawalCommand) (n : ℕ) (reply : WithdrawalReply)
    (c : Clients) (D : List (Command × Outcome)) : Prop where
  confirmed : reply.code = durableCode command.action → Withdrawal.Confirmed command D
  rejected : reply.code = "DURABLY_REJECTED" → command.action = .reserve →
    ∀ f : WithdrawalFunds, f.Same command.funds →
      D.filterMap (Withdrawal.outputOf command.funds.withdrawalId) ≠
        [.withdrawalChanged ⟨.reserve, f⟩]
  notAccepted : reply.code = "NOT_ACCEPTED" →
    n ∉ c.log ∧ ∀ input ∈ c.world.queued, input.response ≠ n

section Final

variable {Json : Type} [DecidableEq Json] {codec : Codec Json} {platform : Startup.Platform}
  {cache : BalanceCache} {engineId : String} {start c c' : Clients} {n : ℕ}

/-- How a call that returned has ended. -/
theorem ended_of_financialResult {result : CallResult} {returned : Except FinancialError Unit}
    (h : financialResult result = some returned) :
    (returned = .error .outcomeUnknown) ∨
      (returned = .error .notAccepted ∧ ∃ error, result = .refused error) ∨
      ∃ answer, result = .answered answer ∧
        ((∃ reason, answer = .error reason ∧ returned = .error (.rejected reason)) ∨
          ((∀ reason, answer ≠ .error reason) ∧ returned = .ok ())) := by
  cases result with
  | refused error =>
    cases h
    exact Or.inr (Or.inl ⟨rfl, error, rfl⟩)
  | answered answer =>
    refine Or.inr (Or.inr ⟨answer, rfl, ?_⟩)
    cases answer with
    | error reason =>
      cases h
      exact Or.inl ⟨reason, rfl, rfl⟩
    | _ =>
      cases h
      exact Or.inr ⟨fun _ => by simp, rfl⟩
  | timeout | dropped =>
    cases h
    exact Or.inl rfl
  | severed => cases h

/-- The answer to a deposit tells whether its record has failed. -/
theorem outcome_of_answer {command : Command} {outcome : Outcome} {answer : Answer}
    (h : Pending.answer ⟨some command, outcome, .unit n⟩ = (n, answer)) :
    outcome.failure = none ↔ ∀ reason, answer ≠ .error reason := by
  cases outcome with
  | failed reason =>
    cases h
    exact ⟨nofun, fun hne => absurd rfl (hne reason)⟩
  | _ =>
    cases h
    exact ⟨fun _ _ => by simp, fun _ => rfl⟩

/-- A withdrawal that is not refused is answered without a value. -/
theorem done_of_answer {command : Command} {outcome : Outcome} {answer : Answer}
    (h : Pending.answer ⟨some command, outcome, .withdrawal n⟩ = (n, answer))
    (hok : ∀ reason, answer ≠ .error reason) :
    (Pending.answer ⟨some command, outcome, .withdrawal n⟩).2 = .done := by
  rw [h]
  simp only [Pending.answer, Prod.mk.injEq, true_and] at h
  split at h <;> first | exact h.symm | exact absurd h.symm (hok _)

theorem checkFormat_admitDeposit {request : Except JsonRejection CreditRequest}
    {credit : DepositCredit} (h : admitDeposit request = .ok credit) :
    Deposit.checkFormat credit = .ok () := by
  cases request with
  | error => cases h
  | ok request =>
    cases hvalid : request.validated with
    | none =>
      rw [admitDeposit, hvalid] at h
      cases h
    | some other =>
      rw [admitDeposit, hvalid] at h
      cases h
      exact CreditRequest.checkFormat_validated hvalid

theorem checkFormat_admitWithdrawal {request : Except JsonRejection WithdrawalRequest}
    {command : WithdrawalCommand} (h : admitWithdrawal request = .ok command) :
    Withdrawal.checkFormat command.funds = .ok () := by
  cases request with
  | error => cases h
  | ok request =>
    cases hvalid : request.validated with
    | none =>
      rw [admitWithdrawal, hvalid] at h
      cases h
    | some other =>
      rw [admitWithdrawal, hvalid] at h
      cases h
      exact WithdrawalRequest.checkFormat_validated hvalid

/-- **The replies of `credit_deposit` are final.** -/
theorem deposit_replies_final (hload : Startup.loadBalances platform = .ok cache)
    (hid : codec.isUuid engineId = true)
    (hgenesis : codec.parseGenesis (codec.genesisText ⟨4, engineId, cache.journalSeed⟩) =
      some ⟨4, engineId, cache.journalSeed⟩)
    (hstart : start.Initial codec cache engineId) (hreached : CallReachable codec start c)
    {request : Except JsonRejection CreditRequest} {credit : DepositCredit}
    {returned : Except FinancialError Unit} (hadmitted : admitDeposit request = .ok credit)
    (hreturned : Returned c n (.creditDeposit credit n) returned)
    (hlater : CallReachable codec c c') (hrecords : Legible codec c'.world.store) :
    ∃ D, (∃ clock, c'.world.store.records.entries = (recordsOf clock 0 D).map (rowOf codec)) ∧
      DepositFinal credit n (depositReply credit.depositId returned) c' D := by
  have hcache := Startup.loadBalances_admissible hload
  obtain ⟨call, result, here, hinput, hdone, hresult⟩ := hreturned.ended
  obtain ⟨D, final, hD, hrun, hrefused, hanswered⟩ :=
    ended_later hcache hid hgenesis hstart hreached hlater hrecords here hinput hdone
  refine ⟨D, hD, ?_⟩
  rcases ended_of_financialResult hresult with
    rfl | ⟨rfl, error, hresult⟩ | ⟨answer, hresult, hcase⟩
  · exact ⟨by simp [depositReply], by simp [depositReply], by simp [depositReply]⟩
  · exact ⟨by simp [depositReply], by simp [depositReply], fun _ => hrefused error hresult⟩
  · obtain ⟨before, rest, outcome, rfl, hanswer⟩ := hanswered answer hresult
    obtain ⟨s, hbefore, hrest⟩ := hrun.split
    cases hrest with
    | cons head tail =>
      have hfailure := outcome_of_answer hanswer
      rcases hcase with ⟨reason, rfl, rfl⟩ | ⟨hok, rfl⟩
      · refine ⟨by simp [depositReply], fun _ command credited hmem => ?_, by simp [depositReply]⟩
        have hne : outcome.failure ≠ none := fun hnone => hfailure.mp hnone reason rfl
        exact Deposit.refused hbefore (checkFormat_admitDeposit hadmitted) head tail hne hmem
      · refine ⟨fun _ => ?_, by simp [depositReply], by simp [depositReply]⟩
        exact Deposit.confirmed (Store.valid_of_admissible hcache) hbefore head tail
          (hfailure.mpr hok)

/-- **The replies of `change_withdrawal` are final.** -/
theorem withdrawal_replies_final (hload : Startup.loadBalances platform = .ok cache)
    (hid : codec.isUuid engineId = true)
    (hgenesis : codec.parseGenesis (codec.genesisText ⟨4, engineId, cache.journalSeed⟩) =
      some ⟨4, engineId, cache.journalSeed⟩)
    (hstart : start.Initial codec cache engineId) (hreached : CallReachable codec start c)
    {request : Except JsonRejection WithdrawalRequest} {command : WithdrawalCommand}
    {returned : Except FinancialError Unit} (hadmitted : admitWithdrawal request = .ok command)
    (hreturned : Returned c n (.withdrawal command n) returned)
    (hlater : CallReachable codec c c') (hrecords : Legible codec c'.world.store) :
    ∃ D, (∃ clock, c'.world.store.records.entries = (recordsOf clock 0 D).map (rowOf codec)) ∧
      WithdrawalFinal command n
        (withdrawalReply command.funds.withdrawalId command.action returned) c' D := by
  have hcache := Startup.loadBalances_admissible hload
  obtain ⟨call, result, here, hinput, hdone, hresult⟩ := hreturned.ended
  obtain ⟨D, final, hD, hrun, hrefused, hanswered⟩ :=
    ended_later hcache hid hgenesis hstart hreached hlater hrecords here hinput hdone
  refine ⟨D, hD, ?_⟩
  obtain ⟨hbarred, hunknown, hrejected⟩ := durableCode_ne command.action
  rcases ended_of_financialResult hresult with
    rfl | ⟨rfl, error, hresult⟩ | ⟨answer, hresult, hcase⟩
  · exact ⟨fun h => absurd h.symm hunknown, by simp [withdrawalReply], by simp [withdrawalReply]⟩
  · exact ⟨fun h => absurd h.symm hbarred, by simp [withdrawalReply],
      fun _ => hrefused error hresult⟩
  · obtain ⟨before, rest, outcome, rfl, hanswer⟩ := hanswered answer hresult
    obtain ⟨s, hbefore, hrest⟩ := hrun.split
    cases hrest with
    | cons head tail =>
      rcases hcase with ⟨reason, rfl, rfl⟩ | ⟨hok, rfl⟩
      · refine ⟨fun h => absurd h.symm hrejected, fun _ haction f hsame => ?_,
          by simp [withdrawalReply]⟩
        have hne : (Pending.answer ⟨some (.withdrawal command), outcome, .withdrawal n⟩).2 ≠ .done := by
          change Pending.answer ⟨some (.withdrawal command), outcome, .withdrawal n⟩ = _ at hanswer
          rw [hanswer]
          simp
        exact Withdrawal.refused hbefore (checkFormat_admitWithdrawal hadmitted) haction head tail hne hsame
      · exact ⟨fun _ => Withdrawal.confirmed hbefore head tail (done_of_answer hanswer hok),
          fun h => absurd h hrejected, fun h => absurd h hbarred⟩

end Final

/-! ### A deposit and a withdrawal -/

/-- The deposit was confirmed before the process crashed and was started again. -/
theorem deposit_replies_final_credit :
    ∃ (c c' : Clients) (D : List (Command × Outcome)),
      c.calls = sampleCalls ∧ c'.calls = sampleCalls.map Call.sever ∧
      DepositFinal Output.sampleCredit 0 (depositReply Output.sampleCredit.depositId (.ok ())) c' D ∧
      D.countP (credits Output.sampleCredit.depositId) = 1 := by
  obtain ⟨c, c', hreached, hlater, -, hlegible, hcalls, hcalls'⟩ := exists_calls
  have hadmitted : admitDeposit (.ok ⟨Output.sampleCredit.depositId, 2, "USDT", "1"⟩) =
      .ok Output.sampleCredit := by decide +kernel
  have hreturned : Returned c 0 (.creditDeposit Output.sampleCredit 0) (.ok ()) :=
    ⟨_, _, by rw [hcalls]; rfl, rfl, rfl, rfl⟩
  obtain ⟨D, -, hfinal⟩ := deposit_replies_final Store.loadBalances_sample record_isUuid record_genesis
    initial_record hreached hadmitted hreturned hlater hlegible
  exact ⟨c, c', D, hcalls, hcalls', hfinal, (hfinal.credited rfl).1⟩

/-- So was the reservation; that its release was executed does not count. -/
theorem withdrawal_replies_final_reserve :
    ∃ (c c' : Clients) (D : List (Command × Outcome)),
      c.calls = sampleCalls ∧ c'.calls = sampleCalls.map Call.sever ∧
      WithdrawalFinal sampleReserve 2
        (withdrawalReply sampleReserve.funds.withdrawalId sampleReserve.action (.ok ())) c' D ∧
      Withdrawal.Confirmed sampleReserve D := by
  obtain ⟨c, c', hreached, hlater, -, hlegible, hcalls, hcalls'⟩ := exists_calls
  have hadmitted : admitWithdrawal (.ok ⟨sampleReserve.funds.withdrawalId, 2, "USDT", "1", .reserve⟩) =
      .ok sampleReserve := by decide +kernel
  have hreturned : Returned c 2 (.withdrawal sampleReserve 2) (.ok ()) :=
    ⟨_, _, by rw [hcalls]; rfl, rfl, rfl, rfl⟩
  obtain ⟨D, -, hfinal⟩ := withdrawal_replies_final Store.loadBalances_sample record_isUuid
    record_genesis initial_record hreached hadmitted hreturned hlater hlegible
  exact ⟨c, c', D, hcalls, hcalls', hfinal, hfinal.confirmed rfl⟩

end FinancialInput

end CexEngine
