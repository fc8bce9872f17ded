import CexEngine.Foundation.Footprint
import CexEngine.Models.ExactDecimal
import CexEngine.Runtime.Journal
import CexEngine.Runtime.Staging

/-!
# Deposits and withdrawals over HTTP

`handlers/financial_input.rs`, and the requests of `deposit_handler.rs` and
`withdrawal_handler.rs` that are turned into commands.  The checks of the handlers and those of
the engine were written apart.

* `denotes_of_validParts`: the amount of a request that passes is the exact value of its text,
  which is written as digits, or as digits, a point and digits.
* `CreditRequest.checkFormat_validated`, `WithdrawalRequest.checkFormat_validated`: the checks of
  the engine do not fail on a command that comes from a request.
* `deposit_answer`, `withdrawal_answer`: what the engine answers depends on the receipt and on
  the balance.
-/

namespace CexEngine

open Foundation Amount

namespace FinancialInput

/-! ## The checks -/

/-- The checks on the user, the asset and the length of the amount. -/
def ValidFields (userId : UInt64) (asset text : String) : Prop :=
  userId ≠ 0 ∧ userId ≤ maxI64 ∧ asset ≠ "" ∧ asset.utf8ByteSize ≤ 128 ∧
    asset.toList.all (fun c => c.isUpper || c.isDigit) = true ∧ text ≠ "" ∧
    text.utf8ByteSize ≤ 64

instance (userId : UInt64) (asset text : String) : Decidable (ValidFields userId asset text) :=
  inferInstanceAs (Decidable (_ ∧ _))

/-- A part of an amount: digits, and at least one. -/
def validPart (part : List Char) : Bool := !part.isEmpty && part.all Char.isDigit

/-- The checks on the parts of an amount between its points: there is one, or there are two. -/
def validParts : List (List Char) → Bool
  | [] => false
  | integral :: parts =>
    validPart integral && parts.tail.isEmpty && parts.head?.all validPart

def validated (userId : UInt64) (asset text : String) : Option Decimal := do
  guard (ValidFields userId asset text)
  guard (validParts (text.toList.splitOn '.'))
  let value ← Decimal.fromStrExact text.toList
  guard (0 < value ∧ (units value).isOk)
  pure value

structure CreditRequest where
  depositId : Uuid
  userId : UInt64
  asset : String
  amount : String

structure WithdrawalRequest where
  withdrawalId : Uuid
  userId : UInt64
  asset : String
  amount : String
  action : WithdrawalAction

def CreditRequest.validated (self : CreditRequest) : Option DepositCredit := do
  guard (self.depositId ≠ 0)
  let value ← FinancialInput.validated self.userId self.asset self.amount
  pure ⟨self.depositId, self.userId, self.asset, value⟩

def WithdrawalRequest.validated (self : WithdrawalRequest) : Option WithdrawalCommand := do
  guard (self.withdrawalId ≠ 0)
  let amount ← FinancialInput.validated self.userId self.asset self.amount
  pure ⟨self.action, ⟨self.withdrawalId, self.userId, self.asset, amount⟩⟩

/-! ## The amount -/

section Amount

variable {userId : UInt64} {asset text : String} {value : Decimal}

/-- What a request has passed. -/
theorem validated_eq_some_iff : validated userId asset text = some value ↔
    ValidFields userId asset text ∧ validParts (text.toList.splitOn '.') = true ∧
      Decimal.fromStrExact text.toList = some value ∧ 0 < value ∧ ∃ u, units value = .ok u := by
  have hunits : (units value).isOk = true ↔ ∃ u, units value = .ok u := by
    cases units value <;> simp [Except.isOk, Except.toBool]
  simp only [validated, Option.bind_eq_bind, Option.bind_eq_some_iff, Option.guard_eq_some',
    exists_const, Option.pure_def, Option.some.injEq]
  constructor
  · rintro ⟨hfields, hparts, v, hexact, ⟨hpos, hok⟩, rfl⟩
    exact ⟨hfields, hparts, hexact, hpos, hunits.mp hok⟩
  · rintro ⟨hfields, hparts, hexact, hpos, hok⟩
    exact ⟨hfields, hparts, value, hexact, ⟨hpos, hunits.mpr hok⟩, rfl⟩

theorem validPart_iff {part : List Char} :
    validPart part = true ↔ part ≠ [] ∧ ∀ c ∈ part, c.isDigit = true := by
  simp [validPart]

/-- The two forms of an amount. -/
theorem eq_of_validParts {text : List Char} (h : validParts (text.splitOn '.') = true) :
    ∃ integral fractional : List Char, integral ≠ [] ∧
      (∀ c ∈ integral ++ fractional, c.isDigit = true) ∧
      text = integral ++ (if fractional = [] then [] else '.' :: fractional) := by
  have htext : ['.'].intercalate (text.splitOn '.') = text := List.intercalate_splitOn '.'
  cases hsplit : text.splitOn '.' with
  | nil =>
    rw [hsplit] at h
    cases h
  | cons integral parts =>
    rw [hsplit] at h htext
    simp only [validParts, Bool.and_eq_true, validPart_iff] at h
    obtain ⟨⟨⟨hne, hdigits⟩, hend⟩, hfractional⟩ := h
    cases parts with
    | nil =>
      refine ⟨integral, [], hne, ?_, ?_⟩
      · rwa [List.append_nil]
      · rw [← htext]
        simp
    | cons fractional rest =>
      obtain rfl : rest = [] := List.isEmpty_iff.mp hend
      obtain ⟨hne', hdigits'⟩ := validPart_iff.mp hfractional
      refine ⟨integral, fractional, hne, ?_, ?_⟩
      · intro c hc
        exact (List.mem_append.mp hc).elim (hdigits c) (hdigits' c)
      · rw [← htext, if_neg hne']
        simp

/-- **The amount is the exact value of its text.** -/
theorem denotes_of_validParts {text : List Char} (h : validParts (text.splitOn '.') = true)
    (hexact : Decimal.fromStrExact text = some value) : DigitText.Denotes text value.toRat := by
  obtain ⟨integral, fractional, hne, hdigits, rfl⟩ := eq_of_validParts h
  rw [← Literal.text_plain] at hexact
  rw [Decimal.toRat_fromStrExact (Literal.valid_plain hne hdigits) hexact,
    Literal.value_plain hdigits]
  exact ⟨integral, fractional, hne, hdigits, rfl, rfl⟩

end Amount

/-! ## The checks of the engine -/

theorem not_isWhitespace {c : Char} (h : (c.isUpper || c.isDigit) = true) :
    isWhitespace c = false := by
  have hrange : (65 ≤ c.toNat ∧ c.toNat ≤ 90) ∨ 48 ≤ c.toNat ∧ c.toNat ≤ 57 := by
    change (decide (65 ≤ c.val ∧ c.val ≤ 90) || c.isDigit) = true at h
    simpa [Char.isDigit, UInt32.le_iff_toNat_le] using h
  simp only [isWhitespace, Bool.or_eq_false_iff, Bool.and_eq_false_iff, decide_eq_false_iff_not,
    beq_eq_false_iff_ne]
  omega

/-- An asset of letters and digits has no white space at its ends. -/
theorem trim_eq_self {asset : String}
    (h : asset.toList.all (fun c => c.isUpper || c.isDigit) = true) : trim asset = asset := by
  have hnot : ∀ c ∈ asset.toList, isWhitespace c = false := fun c hc =>
    not_isWhitespace (List.all_eq_true.mp h c hc)
  have hstart : asset.toList.dropWhile isWhitespace = asset.toList := by
    cases hl : asset.toList with
    | nil => rfl
    | cons c rest =>
      rw [List.dropWhile_cons_of_neg]
      rw [hnot c (by rw [hl]; exact List.mem_cons_self ..)]
      exact Bool.false_ne_true
  have hend : asset.toList.rdropWhile isWhitespace = asset.toList := by
    rw [List.rdropWhile_eq_self_iff]
    intro hne
    rw [hnot _ (List.getLast_mem hne)]
    exact Bool.false_ne_true
  rw [trim, hstart, hend, String.ofList_toList]

/-- A deposit that comes from a request passes the checks of the engine. -/
theorem CreditRequest.checkFormat_validated {request : CreditRequest} {credit : DepositCredit}
    (h : request.validated = some credit) : Deposit.checkFormat credit = .ok () := by
  simp only [CreditRequest.validated, Option.bind_eq_bind, Option.bind_eq_some_iff,
    Option.guard_eq_some', exists_const, Option.pure_def, Option.some.injEq] at h
  obtain ⟨hid, value, hvalue, rfl⟩ := h
  obtain ⟨⟨huser, -, hasset, hsize, hall, -, -⟩, -, -, hpos, u, hu⟩ :=
    validated_eq_some_iff.mp hvalue
  have hidentity : request.depositId ≠ 0 ∧ 0 < request.userId := ⟨hid, UInt64.pos_iff_ne_zero.mpr huser⟩
  simp only [Deposit.checkFormat, ensure_of hidentity,
    ensure_of (show _ ∧ _ ∧ _ from ⟨hasset, hsize, trim_eq_self hall⟩), ensure_of hpos, hu]
  rfl

/-- A withdrawal that comes from a request passes the checks of the engine. -/
theorem WithdrawalRequest.checkFormat_validated {request : WithdrawalRequest}
    {command : WithdrawalCommand} (h : request.validated = some command) :
    Withdrawal.checkFormat command.funds = .ok () := by
  simp only [WithdrawalRequest.validated, Option.bind_eq_bind, Option.bind_eq_some_iff,
    Option.guard_eq_some', exists_const, Option.pure_def, Option.some.injEq] at h
  obtain ⟨hid, value, hvalue, rfl⟩ := h
  obtain ⟨⟨huser, hmax, hasset, hsize, hall, -, -⟩, -, -, hpos, u, hu⟩ :=
    validated_eq_some_iff.mp hvalue
  have hidentity : request.withdrawalId ≠ 0 ∧ 0 < request.userId ∧ request.userId ≤ maxI64 :=
    ⟨hid, UInt64.pos_iff_ne_zero.mpr huser, hmax⟩
  have hname : Withdrawal.ValidWithdrawalAsset request.asset := ⟨hasset, hsize, hall⟩
  simp only [Withdrawal.checkFormat, ensure_of hidentity, ensure_of hname, ensure_of hpos, hu]
  rfl

/-! ## What the engine answers -/

section Answers

open Mut (Alike)

variable {s t : EngineState}

/-- A call on the balances, in two states. -/
theorem onCache_alike {α : Type} {x : Mut BalanceCache α}
    (h : Alike (fun _ _ => True) x x s.cache t.cache) :
    Alike (fun _ _ => True) (EngineState.onCache x) (EngineState.onCache x) s t := .zoom h

theorem creditBalance_alike {credit : DepositCredit} {c d : BalanceCache}
    (h : c.getBalance credit.userId credit.asset = d.getBalance credit.userId credit.asset) :
    Alike (fun _ _ => True) (Deposit.creditBalance credit) (Deposit.creditBalance credit) c d := by
  refine .get_bind ?_
  rw [h]
  exact .lift_bind _ trivial fun next _ => .bind (.write trivial) fun _ _ _ _ => .pure _ trivial

theorem completeBalance_alike {funds : WithdrawalFunds} {c d : BalanceCache}
    (h : c.getBalance funds.userId funds.asset = d.getBalance funds.userId funds.asset) :
    Alike (fun _ _ => True) (Withdrawal.completeBalance funds) (Withdrawal.completeBalance funds)
      c d := by
  refine .get_bind ?_
  rw [h]
  exact .lift_bind _ trivial fun old _ => .lift_bind _ trivial fun next _ => .write trivial

theorem changeReservation_answer {userId : UInt64} {mint : String} {c d : BalanceCache}
    (h : c.getBalance userId mint = d.getBalance userId mint) (value : Decimal) (lock : Bool) :
    Alike (fun _ _ => True) (BalanceCache.changeReservation userId mint value lock)
      (BalanceCache.changeReservation userId mint value lock) c d := by
  have htwin : BalanceCache.Twin {account | account = (userId, mint)} c d c d :=
    FiniteMap.Twin.refl fun account haccount => by
      rw [show account = (userId, mint) from haccount]
      exact h
  exact (BalanceCache.changeReservation_alike htwin rfl value lock).mono fun _ _ _ => trivial

/-- The answer to a deposit depends on its receipt and on the balance it is added to. -/
theorem deposit_answer {credit : DepositCredit}
    (hreceipt : s.depositReceipts.lookup credit.depositId =
      t.depositReceipts.lookup credit.depositId)
    (hbalance : s.cache.getBalance credit.userId credit.asset =
      t.cache.getBalance credit.userId credit.asset) :
    ((Deposit.apply credit).run s).1 = ((Deposit.apply credit).run t).1 := by
  have halike : Alike (fun _ _ => True) (Deposit.apply credit) (Deposit.apply credit) s t := by
    refine .get_bind ?_
    rw [hreceipt]
    cases t.depositReceipts.lookup credit.depositId with
    | some receipt =>
      refine .lift_bind _ trivial fun _ _ => ?_
      cases receipt.rejection with
      | some reason => exact ⟨rfl, trivial⟩
      | none => exact .pure _ trivial
    | none =>
      refine .lift_bind _ trivial fun _ _ => ?_
      refine .bind (onCache_alike (creditBalance_alike hbalance)).attempt fun result s' t' _ => ?_
      cases result with
      | ok output => exact .bind (.write trivial) fun _ _ _ _ => .pure _ trivial
      | error reason => exact .bind (.write trivial) fun _ _ _ _ => ⟨rfl, trivial⟩
  exact halike.1

/-- The answer to a withdrawal command depends on its receipt and on the balance it is taken
from. -/
theorem withdrawal_answer {command : WithdrawalCommand}
    (hreceipt : s.withdrawalReceipts.lookup command.funds.withdrawalId =
      t.withdrawalReceipts.lookup command.funds.withdrawalId)
    (hbalance : s.cache.getBalance command.funds.userId command.funds.asset =
      t.cache.getBalance command.funds.userId command.funds.asset) :
    ((Withdrawal.apply command).run s).1 = ((Withdrawal.apply command).run t).1 := by
  have halike : Alike (fun _ _ => True) (Withdrawal.apply command) (Withdrawal.apply command)
      s t := by
    refine .lift_bind _ trivial fun _ _ => .get_bind ?_
    rw [hreceipt]
    refine .lift_bind _ trivial fun answer _ => ?_
    cases answer with
    | some answer => exact .pure _ trivial
    | none =>
      obtain ⟨action, funds⟩ := command
      cases action with
      | reserve =>
        refine .bind (onCache_alike (changeReservation_answer hbalance _ true)).attempt
          fun result s' t' _ => ?_
        cases result with
        | ok output => exact .bind (.write trivial) fun _ _ _ _ => .pure _ trivial
        | error reason => exact .bind (.write trivial) fun _ _ _ _ => .pure _ trivial
      | release =>
        refine .bind (onCache_alike (changeReservation_answer hbalance _ false))
          fun _ s' t' _ => ?_
        exact .bind (.write trivial) fun _ _ _ _ => .pure _ trivial
      | complete =>
        refine .bind (onCache_alike (completeBalance_alike hbalance)) fun _ s' t' _ => ?_
        exact .bind (.write trivial) fun _ _ _ _ => .pure _ trivial
  exact halike.1

end Answers

/-- **The handlers are at least as strict as the engine.**  An amount that passes is the exact
value, positive and in range, of a text that is written as digits or as digits, a point and
digits.  A command that comes from a request passes the checks of the engine, and what the engine
answers to it depends on its receipt and on the balance of its account. -/
theorem requests_checked :
    (∀ userId asset text value, validated userId asset text = some value →
      text.utf8ByteSize ≤ 64 ∧ DigitText.Denotes text.toList value.toRat ∧ 0 < value ∧
        ∃ u, units value = .ok u) ∧
    (∀ (request : CreditRequest) credit, request.validated = some credit →
      Deposit.checkFormat credit = .ok () ∧
      ∀ s t : EngineState,
        s.depositReceipts.lookup credit.depositId = t.depositReceipts.lookup credit.depositId →
        s.cache.getBalance credit.userId credit.asset =
          t.cache.getBalance credit.userId credit.asset →
        ((Deposit.apply credit).run s).1 = ((Deposit.apply credit).run t).1) ∧
    ∀ (request : WithdrawalRequest) command, request.validated = some command →
      Withdrawal.checkFormat command.funds = .ok () ∧
      ∀ s t : EngineState,
        s.withdrawalReceipts.lookup command.funds.withdrawalId =
          t.withdrawalReceipts.lookup command.funds.withdrawalId →
        s.cache.getBalance command.funds.userId command.funds.asset =
          t.cache.getBalance command.funds.userId command.funds.asset →
        ((Withdrawal.apply command).run s).1 = ((Withdrawal.apply command).run t).1 := by
  refine ⟨?_, ?_, ?_⟩
  · intro userId asset text value h
    obtain ⟨⟨-, -, -, -, -, -, hsize⟩, hparts, hexact, hpos, hunits⟩ := validated_eq_some_iff.mp h
    exact ⟨hsize, denotes_of_validParts hparts hexact, hpos, hunits⟩
  · intro request credit h
    exact ⟨CreditRequest.checkFormat_validated h, fun s t => deposit_answer⟩
  · intro request command h
    exact ⟨WithdrawalRequest.checkFormat_validated h, fun s t => withdrawal_answer⟩

theorem requests_checked_withdrawal :
    WithdrawalRequest.validated ⟨7, 2, "USDT", "12.50", .reserve⟩ =
        some ⟨.reserve, ⟨7, 2, "USDT", .ofScaled 1250 2⟩⟩ ∧
      Withdrawal.checkFormat ⟨7, 2, "USDT", .ofScaled 1250 2⟩ = .ok () := by
  have h : WithdrawalRequest.validated ⟨7, 2, "USDT", "12.50", .reserve⟩ =
      some ⟨.reserve, ⟨7, 2, "USDT", .ofScaled 1250 2⟩⟩ := by decide +kernel
  exact ⟨h, (requests_checked.2.2 _ _ h).1⟩

/-- Neither a sign nor a second point nor a missing part. -/
example : validated 2 "USDT" "+1" = none ∧ validated 2 "USDT" "1.5.0" = none ∧
    validated 2 "USDT" "1." = none ∧ validated 2 "usdt" "1" = none := by decide +kernel

end FinancialInput

end CexEngine
