import CexEngine.Runtime.Recovery

/-!
# Repeated commands

A client that got no answer sends its command again, before or after a restart.  The
core answers from three indexes of the state: the submissions, the receipts of
deposits and the cancellations.

Each index is written once for an id, from the command that writes it and its outcome
(`Writes`).  So an index is a function of the history (`Run.index_eq`), and what a
repeated command gets depends on nothing else.  A history outlives the process:
`Lifetime` is a run with restarts, each of which keeps the records that were written.
-/

namespace CexEngine

open Foundation Foundation.FiniteMap Amount

/-! ## Entries written once -/

section Index

variable {β : Type}

/-- **An entry that is written once**, from the command that writes it and its
outcome. -/
def Writes (index : EngineState → Option β) (entry : Command × Outcome → Option β) : Prop :=
  ∀ s command outcome s', (Journal.apply command).run s = (.ok outcome, s') →
    index s' = (index s).or (entry (command, outcome))

variable {index : EngineState → Option β} {entry : Command × Outcome → Option β}
  {s s' : EngineState} {history : List (Command × Outcome)}

/-- After a run, the entry is the first one written. -/
theorem Run.index_eq (h : Run s history s') (hindex : Writes index entry) :
    index s' = (index s).or (history.findSome? entry) := by
  induction h with
  | nil => exact (Option.or_none ..).symm
  | @cons s mid s'' command outcome history head _ ih =>
    rw [ih, hindex _ _ _ _ head, Option.or_assoc, List.findSome?_cons]
    cases entry (command, outcome) <;> rfl

/-- **An event that needs the entry to be missing, and writes it, happens once.** -/
theorem Run.countP_le_one {event : Command × Outcome → Bool} (h : Run s history s')
    (hs : s.Inv) (hindex : Writes index entry)
    (hevent : ∀ s command outcome s', s.Inv → (Journal.apply command).run s = (.ok outcome, s') →
      event (command, outcome) = true → index s = none ∧ entry (command, outcome) ≠ none) :
    history.countP event ≤ if index s = none then 1 else 0 := by
  induction h with
  | nil => exact Nat.zero_le _
  | @cons s mid s'' command outcome history head _ ih =>
    have htail := ih ((Journal.apply_effect head).inv hs)
    rw [hindex _ _ _ _ head] at htail
    by_cases he : event (command, outcome) = true
    · obtain ⟨hnone, hentry⟩ := hevent _ _ _ _ hs head he
      rw [hnone, Option.none_or, if_neg hentry] at htail
      rw [List.countP_cons_of_pos he, if_pos hnone]
      omega
    · rw [List.countP_cons_of_neg he]
      refine htail.trans ?_
      cases index s with
      | none =>
        rw [if_pos rfl]
        split <;> omega
      | some b => rw [Option.some_or]

end Index

/-! ## The three indexes -/

/-- The order that a first submission under an id binds to it. -/
def submitOf (id : UInt64) : Command × Outcome → Option OrderEntry
  | (.submit order, _) => if order.id = id then some order else none
  | _ => none

/-- The reason of a failure. -/
def Outcome.failure : Outcome → Option String
  | .failed reason => some reason
  | _ => none

/-- The receipt of the first deposit with an id that passes the format checks. -/
def receiptOf (id : Uuid) : Command × Outcome → Option DepositReceipt
  | (.creditDeposit credit, outcome) =>
    if credit.depositId = id ∧ Deposit.checkFormat credit = .ok () then
      some ⟨credit, outcome.failure⟩
    else none
  | _ => none

/-- The order a cancellation took from its book. -/
def cancelOf (id : UInt64) : Command × Outcome → Option OrderEntry
  | (.cancel orderId _ _, .applied (some (.cancelled order))) =>
    if orderId = id then some order else none
  | _ => none

theorem submitOf_of_ne {id : UInt64} {command : Command} {outcome : Outcome}
    (h : ∀ order, command = .submit order → order.id ≠ id) : submitOf id (command, outcome) = none := by
  cases command with
  | submit order => exact if_neg (h order rfl)
  | _ => rfl

theorem writes_submissions (id : UInt64) : Writes (fun s => s.submissions.lookup id) (submitOf id) := by
  intro s command outcome s' hrun
  show s'.submissions.lookup id = (s.submissions.lookup id).or (submitOf id (command, outcome))
  rcases (Journal.apply_effect hrun).submissions_cases with heq | ⟨order, rfl, hnew, heq⟩
  · rw [heq]
    cases hlookup : s.submissions.lookup id with
    | some original => rfl
    | none =>
      -- a first submission is always remembered
      rw [Option.none_or, submitOf_of_ne]
      rintro order rfl rfl
      have hinsert := (Journal.apply_first_submit hrun hlookup).1
      rw [heq] at hinsert
      rw [hinsert, Finmap.lookup_insert] at hlookup
      cases hlookup
  · rw [heq, lookup_insert_eq]
    by_cases hid : id = order.id
    · rw [if_pos hid, hid, hnew, submitOf, if_pos rfl, Option.none_or]
    · rw [if_neg hid, submitOf, if_neg (Ne.symm hid), Option.or_none]

/-- The receipt a deposit leaves. -/
theorem Deposit.Step.receipts {s s' : EngineState} {credit : DepositCredit}
    {result : Except String (Option OutputBatch)} (h : Step s credit result s') (id : Uuid) :
    s'.depositReceipts.lookup id = (s.depositReceipts.lookup id).or
      (receiptOf id (.creditDeposit credit, .ofResult result)) := by
  -- under another id, and under an id with a receipt, nothing is written
  have hkept : (id = credit.depositId → s.depositReceipts.lookup id ≠ none) →
      s.depositReceipts.lookup id = (s.depositReceipts.lookup id).or
        (receiptOf id (.creditDeposit credit, .ofResult result)) := by
    intro hid
    cases hlookup : s.depositReceipts.lookup id with
    | some receipt => rfl
    | none =>
      have hne : credit.depositId ≠ id := fun h => hid h.symm hlookup
      rw [receiptOf, if_neg fun h => hne h.1, Option.none_or]
  have hwritten : ∀ rejection, s.depositReceipts.lookup credit.depositId = none →
      checkFormat credit = .ok () →
      rejection = (Outcome.ofResult result).failure →
      (s.depositReceipts.insert credit.depositId ⟨credit, rejection⟩).lookup id =
        (s.depositReceipts.lookup id).or
          (receiptOf id (.creditDeposit credit, .ofResult result)) := by
    rintro rejection hnew hformat rfl
    rw [lookup_insert_eq]
    by_cases hid : id = credit.depositId
    · rw [if_pos hid, hid, hnew, receiptOf, if_pos ⟨rfl, hformat⟩, Option.none_or]
    · rw [if_neg hid]
      exact hkept fun h => absurd h hid
  cases h with
  | malformed hlookup hformat =>
    have hbad : ¬ (credit.depositId = id ∧ checkFormat credit = .ok ()) := by
      rw [hformat]
      rintro ⟨-, h⟩
      cases h
    rw [receiptOf, if_neg hbad, Option.or_none]
  | conflict hlookup => exact hkept fun h => by rw [h, hlookup]; exact Option.some_ne_none _
  | repeatedRejection hlookup => exact hkept fun h => by rw [h, hlookup]; exact Option.some_ne_none _
  | repeatedCredit hlookup => exact hkept fun h => by rw [h, hlookup]; exact Option.some_ne_none _
  | rejected hlookup hformat => exact hwritten _ hlookup hformat rfl
  | credited hlookup hformat => exact hwritten _ hlookup hformat rfl

theorem receiptOf_of_ne {id : Uuid} {command : Command} {outcome : Outcome}
    (h : ∀ credit, command ≠ .creditDeposit credit) : receiptOf id (command, outcome) = none := by
  cases command with
  | creditDeposit credit => exact absurd rfl (h credit)
  | _ => rfl

/-- Only deposits write receipts of deposits. -/
theorem Effect.depositReceipts_eq {s s' : EngineState} {command : Command} {outcome : Outcome}
    (h : Effect s command outcome s') (hne : ∀ credit, command ≠ .creditDeposit credit) :
    s'.depositReceipts = s.depositReceipts := by
  cases h with
  | withdrawal step => cases step <;> rfl
  | deposit => exact absurd rfl (hne _)
  | depositFailed => exact absurd rfl (hne _)
  | _ => rfl

theorem writes_depositReceipts (id : Uuid) :
    Writes (fun s => s.depositReceipts.lookup id) (receiptOf id) := by
  intro s command outcome s' hrun
  by_cases hdeposit : ∃ credit, command = .creditDeposit credit
  · obtain ⟨credit, rfl⟩ := hdeposit
    obtain ⟨result, t, hstep, hrun'⟩ := Deposit.apply_run s credit
    rw [hrun, Prod.mk.injEq, Except.ok.injEq] at hrun'
    obtain ⟨rfl, rfl⟩ := hrun'
    exact hstep.receipts id
  · have hne := not_exists.mp hdeposit
    show s'.depositReceipts.lookup id = _
    rw [(Journal.apply_effect hrun).depositReceipts_eq hne, receiptOf_of_ne hne, Option.or_none]

theorem writes_cancellations (id : UInt64) :
    Writes (fun s => s.cancellations.lookup id) (cancelOf id) := by
  intro s command outcome s' hrun
  show s'.cancellations.lookup id = (s.cancellations.lookup id).or (cancelOf id (command, outcome))
  have hkept : cancelOf id (command, outcome) = none → s'.cancellations = s.cancellations →
      s'.cancellations.lookup id =
        (s.cancellations.lookup id).or (cancelOf id (command, outcome)) := by
    intro hentry heq
    rw [hentry, heq, Option.or_none]
  cases Journal.apply_effect hrun with
  | @cancelled orderId userId pair order books' executor' hnew =>
    show (s.cancellations.insert orderId order).lookup id = _
    rw [lookup_insert_eq]
    by_cases hid : id = orderId
    · rw [if_pos hid, hid, hnew, cancelOf, if_pos rfl, Option.none_or]
    · rw [if_neg hid, cancelOf, if_neg (Ne.symm hid), Option.or_none]
  | failed => exact hkept (by cases command <;> rfl) rfl
  | withdrawal step => exact hkept rfl (by cases step <;> rfl)
  | deposit step => exact hkept rfl (by cases step <;> rfl)
  | depositFailed step => exact hkept rfl (by cases step <;> rfl)
  | _ => exact hkept rfl rfl

/-! ## Effects that happen once -/

/-- The submission of an id was executed or rejected. -/
def submits (id : UInt64) (e : Command × Outcome) : Bool :=
  match e.2 with
  | .applied (some (.submitted orderId _ _)) => orderId == id
  | .applied (some (.rejected order _)) => order.id == id
  | _ => false

/-- The order with an id was cancelled. -/
def cancels (id : UInt64) (e : Command × Outcome) : Bool :=
  match e.2 with
  | .applied (some (.cancelled order)) => order.id == id
  | _ => false

/-- The deposit with an id was credited. -/
def credits (id : Uuid) (e : Command × Outcome) : Bool :=
  match e.2 with
  | .applied (some (.depositCredited credit)) => credit.depositId == id
  | _ => false

section Events

variable {s s' : EngineState} {command : Command} {outcome : Outcome}

theorem submits_fresh (id : UInt64) (hs : s.Inv)
    (hrun : (Journal.apply command).run s = (.ok outcome, s'))
    (h : submits id (command, outcome) = true) :
    s.submissions.lookup id = none ∧ submitOf id (command, outcome) ≠ none := by
  cases Journal.apply_effect hrun with
  | @rejected order reason hnew =>
    obtain rfl : order.id = id := beq_iff_eq.mp h
    exact ⟨hnew, by rw [submitOf, if_pos rfl]; exact Option.some_ne_none _⟩
  | @submitted order applied books' executor' trades hnew hsubmit =>
    obtain ⟨_, _, _, _, _, _, _, _, happlied, -⟩ := hs.applied hnew hsubmit
    have hid : order.id = id := happlied.orderId.symm.trans (beq_iff_eq.mp h)
    subst hid
    exact ⟨hnew, by rw [submitOf, if_pos rfl]; exact Option.some_ne_none _⟩
  | withdrawal step =>
    rcases step.output_cases with rfl | ⟨reason, rfl⟩ | rfl <;> cases h
  | deposit step =>
    rcases step.output_cases with rfl | ⟨rfl, -⟩ <;> cases h
  | _ => cases h

theorem cancels_fresh (id : UInt64) (hs : s.Inv)
    (hrun : (Journal.apply command).run s = (.ok outcome, s'))
    (h : cancels id (command, outcome) = true) :
    s.cancellations.lookup id = none ∧ cancelOf id (command, outcome) ≠ none := by
  cases Journal.apply_effect hrun with
  | @cancelled orderId userId pair order books' executor' hnew hcancel =>
    obtain ⟨book, buy, level, queue, side', v, hc⟩ := Threads.cancelOrder_ok hcancel
    obtain ⟨rfl, -⟩ := hc.book (hs.books _ _ hc.lookup)
    obtain rfl : order.id = id := beq_iff_eq.mp h
    exact ⟨hnew, by rw [cancelOf, if_pos rfl]; exact Option.some_ne_none _⟩
  | withdrawal step =>
    rcases step.output_cases with rfl | ⟨reason, rfl⟩ | rfl <;> cases h
  | deposit step =>
    rcases step.output_cases with rfl | ⟨rfl, -⟩ <;> cases h
  | _ => cases h

theorem credits_fresh (id : Uuid) (hrun : (Journal.apply command).run s = (.ok outcome, s'))
    (h : credits id (command, outcome) = true) :
    s.depositReceipts.lookup id = none ∧ receiptOf id (command, outcome) ≠ none := by
  cases Journal.apply_effect hrun with
  | @deposit credit output s' step =>
    rcases step.output_cases with rfl | ⟨rfl, hlookup, hformat⟩
    · cases h
    · obtain rfl : credit.depositId = id := beq_iff_eq.mp h
      exact ⟨hlookup, by rw [receiptOf, if_pos ⟨rfl, hformat⟩]; exact Option.some_ne_none _⟩
  | withdrawal step =>
    rcases step.output_cases with rfl | ⟨reason, rfl⟩ | rfl <;> cases h
  | _ => cases h

/-- **A trade names two orders that are not cancelled**: the submitted one, which is
new, and one of the book. -/
theorem trades_live (hs : s.Inv) (hrun : (Journal.apply command).run s = (.ok outcome, s'))
    {t : TradeOutput} (ht : t ∈ outcome.trades) :
    s.cancellations.lookup t.trade.buyOrderId = none ∧
      s.cancellations.lookup t.trade.sellOrderId = none := by
  cases Journal.apply_effect hrun with
  | @submitted order applied books' executor' trades hnew hsubmit houtputs =>
    obtain ⟨book', plan, d, fills, δ, reserved, remaining, refund, happlied, -, hfills, -⟩ :=
      hs.applied hnew hsubmit
    have htaker : s.cancellations.lookup order.id = none := by
      cases hcancel : s.cancellations.lookup order.id with
      | none => rfl
      | some o =>
        obtain ⟨-, original, horiginal⟩ := hs.cancelled _ _ hcancel
        rw [hnew] at horiginal
        cases horiginal
    obtain ⟨outputs, hout, htrades, -⟩ := tradeOutputs_ok (happlied.matchList ▸ happlied.settles)
    obtain rfl : trades = outputs := Except.ok.inj (houtputs.symm.trans hout)
    have hmem : t.trade ∈ plan.matchList := by
      rw [← happlied.matchList, ← htrades]
      exact List.mem_map_of_mem ht
    rw [happlied.advance.matchList] at hmem
    obtain ⟨f, hf, hft⟩ := List.mem_map.mp hmem
    have hmaker : s.cancellations.lookup f.maker.id = none := by
      obtain ⟨queue, hqueue, hmaker⟩ := hfills.mem f hf
      exact hs.bookOf_live (OrderBook.mem_flat_iff.mpr
        ⟨_, OrderBookSide.mem_flat_iff.mpr ⟨_, _, hqueue, hmaker⟩⟩)
    rw [← hft]
    cases hbuy : (MatchPlan.start order).makerBuy with
    | true => exact ⟨hmaker, htaker⟩
    | false => exact ⟨htaker, hmaker⟩
  | withdrawal step =>
    rcases step.output_cases with rfl | ⟨reason, rfl⟩ | rfl <;> cases ht
  | deposit step =>
    rcases step.output_cases with rfl | ⟨rfl, -⟩ <;> cases ht
  | _ => cases ht

end Events

/-! ## Runs with restarts -/

/-- **A life of the engine.**  A restart keeps the records of the first `n` commands
that were written, and goes on from what `Store.recover` makes of them. -/
inductive Lifetime {Json : Type} [DecidableEq Json] (codec : Codec Json) (cache : BalanceCache) :
    List (Command × Outcome) → EngineState → Prop
  | start : Lifetime codec cache [] (.genesis cache)
  | step {history : List (Command × Outcome)} {s s' : EngineState} {command : Command}
      {outcome : Outcome} (life : Lifetime codec cache history s)
      (run : (Journal.apply command).run s = (.ok outcome, s')) :
      Lifetime codec cache (history ++ [(command, outcome)]) s'
  | restart {history : List (Command × Outcome)} {s s' : EngineState} {engineId id : String}
      {store : Store} (n : ℕ) (clock : ℕ → Timestamp) (life : Lifetime codec cache history s)
      (genesis : store.genesis = some ⟨codec.genesisText ⟨4, engineId, cache.journalSeed⟩,
        codec.digest (codec.genesisText ⟨4, engineId, cache.journalSeed⟩)⟩)
      (parseGenesis : codec.parseGenesis (codec.genesisText ⟨4, engineId, cache.journalSeed⟩) =
        some ⟨4, engineId, cache.journalSeed⟩)
      (records : store.records.entries =
        (Store.recordsOf clock 0 (history.take n)).map (Store.rowOf codec))
      (parseRecord : ∀ record ∈ Store.recordsOf clock 0 (history.take n),
        codec.parseRecord (codec.recordText record) = some record)
      (recovered : Store.recover codec store = .ok (s', id)) :
      Lifetime codec cache (history.take n) s'

section Lifetime

variable {Json : Type} [DecidableEq Json] {codec : Codec Json} {cache : BalanceCache}
  {history : List (Command × Outcome)} {s : EngineState}

/-- **A life is a run of the commands it kept.** -/
theorem Lifetime.run (h : Lifetime codec cache history s)
    (hcache : ∀ account b, cache.balances.lookup account = some b → Startup.Admissible account b) :
    Run (.genesis cache) history s := by
  induction h with
  | start => exact .nil _
  | step _ hrun ih => exact ih.append (.cons hrun (.nil _))
  | @restart history s s' engineId id store n clock _ hgenesis hparse hentries hrecords hrecover ih =>
    rw [← List.take_append_drop n history] at ih
    obtain ⟨mid, hmid, -⟩ := ih.split
    obtain ⟨genesis, cache', records, history', hf⟩ := Store.recover_ok hrecover
    -- the identity and the delivery cursor are what the recovery accepted
    have huuid : codec.isUuid engineId = true := by
      obtain ⟨row, hrow, -, hrowParse⟩ := hf.genesis_eq
      obtain rfl : _ = row := Option.some.inj (hgenesis.symm.trans hrow)
      obtain rfl : _ = genesis := Option.some.inj (hparse.symm.trans hrowParse)
      obtain ⟨-, hid, rfl⟩ := hf.identity
      exact hid
    obtain ⟨delivered, hdelivery, hle⟩ := hf.delivery
    have hlength : records.length = (history.take n).length := by
      have hparsed := congrArg List.length hf.parsed
      rw [List.length_map, List.length_map, hentries, List.length_map,
        Store.length_recordsOf] at hparsed
      exact hparsed.symm
    have hmidRecover := Store.recover_of_run clock delivered hcache hgenesis huuid hparse hentries
      hrecords hmid hdelivery (hlength ▸ hle)
    rw [hrecover, Except.ok.injEq, Prod.mk.injEq] at hmidRecover
    rw [hmidRecover.1]
    exact hmid

/-- **Once only.**  What a history says about an id, and what a repeated command gets
in the state after it. -/
structure OnceOnly (history : List (Command × Outcome)) (s : EngineState) : Prop where
  submitted : ∀ id, history.countP (submits id) ≤ 1
  cancelled : ∀ id, history.countP (cancels id) ≤ 1
  credited : ∀ id, history.countP (credits id) ≤ 1
  /-- After the first submission of an id: the same one again is accepted without an
  effect, and another one fails. -/
  resubmit : ∀ original order, history.findSome? (submitOf order.id) = some original →
    (Journal.apply (.submit order)).run s = (.ok
      (if ({ order with createdAt := original.createdAt } : OrderEntry).Same original then
        .applied none
      else .failed "Order id is already bound to another command"), s)
  /-- The receipt of a deposit is that of its first well-formed credit. -/
  receipts : ∀ id, s.depositReceipts.lookup id = history.findSome? (receiptOf id)
  /-- With a receipt: the same credit gets the first answer again, and another one
  fails. -/
  redeposit : ∀ receipt (credit : DepositCredit),
    s.depositReceipts.lookup credit.depositId = some receipt →
    (Journal.apply (.creditDeposit credit)).run s = (.ok
      (if receipt.original.Same credit then
        match receipt.rejection with
        | none => .applied none
        | some reason => .failed reason
      else .failed "Deposit id conflicts with original financial content"), s)
  /-- After a cancellation: the same one again gets the same order, and another one
  fails. -/
  recancel : ∀ id order, history.findSome? (cancelOf id) = some order → ∀ userId pair,
    (Journal.apply (.cancel id userId pair)).run s = (.ok
      (if order.userId = userId ∧ order.baseMint = pair.baseMint ∧
          order.quoteMint = pair.quoteMint then .duplicateCancellation order
      else .failed "Unauthorized cancellation"), s)
  /-- A cancelled order is in no book. -/
  gone : ∀ id order, history.findSome? (cancelOf id) = some order →
    ∀ pair book, s.orderbooks.lookup pair = some book → ∀ o ∈ book.flat, o.id ≠ id
  /-- A cancelled order is in no later trade. -/
  untraded : ∀ id before e after, history = before ++ e :: after → cancels id e = true →
    ∀ e' ∈ after, ∀ t ∈ e'.2.trades, t.trade.buyOrderId ≠ id ∧ t.trade.sellOrderId ≠ id

theorem apply_resubmit {original order : OrderEntry}
    (h : s.submissions.lookup order.id = some original) :
    (Journal.apply (.submit order)).run s = (.ok
      (if ({ order with createdAt := original.createdAt } : OrderEntry).Same original then
        .applied none
      else .failed "Order id is already bound to another command"), s) := by
  have hrun := Journal.execute_resubmit h
  by_cases hsame : ({ order with createdAt := original.createdAt } : OrderEntry).Same original
  · rw [Journal.resubmit, ensure, if_pos hsame] at hrun
    rw [if_pos hsame]
    exact Journal.apply_of_execute_ok rfl hrun
  · rw [Journal.resubmit, ensure, if_neg hsame] at hrun
    rw [if_neg hsame]
    exact Journal.apply_of_execute_err rfl hrun

theorem apply_redeposit {receipt : DepositReceipt} {credit : DepositCredit}
    (h : s.depositReceipts.lookup credit.depositId = some receipt) :
    (Journal.apply (.creditDeposit credit)).run s = (.ok
      (if receipt.original.Same credit then
        match receipt.rejection with
        | none => .applied none
        | some reason => .failed reason
      else .failed "Deposit id conflicts with original financial content"), s) := by
  obtain ⟨result, s', hstep, hrun⟩ := Deposit.apply_run s credit
  have hreceipt : ∀ {r}, s.depositReceipts.lookup credit.depositId = some r → r = receipt :=
    fun hr => Option.some.inj (hr.symm.trans h)
  rw [hrun]
  cases hstep with
  | malformed hlookup => rw [h] at hlookup; cases hlookup
  | conflict hlookup hdiffers =>
    obtain rfl := hreceipt hlookup
    rw [if_neg hdiffers]
    rfl
  | repeatedRejection hlookup hsame hrejection =>
    obtain rfl := hreceipt hlookup
    rw [if_pos hsame, hrejection]
    rfl
  | repeatedCredit hlookup hsame hrejection =>
    obtain rfl := hreceipt hlookup
    rw [if_pos hsame, hrejection]
    rfl
  | rejected hlookup => rw [h] at hlookup; cases hlookup
  | credited hlookup => rw [h] at hlookup; cases hlookup

theorem apply_recancel {id userId : UInt64} {pair : TradingPair} {order : OrderEntry}
    (h : s.cancellations.lookup id = some order) :
    (Journal.apply (.cancel id userId pair)).run s = (.ok
      (if order.userId = userId ∧ order.baseMint = pair.baseMint ∧
          order.quoteMint = pair.quoteMint then .duplicateCancellation order
      else .failed "Unauthorized cancellation"), s) := by
  refine Journal.apply_of_repeatedCancel ?_
  rw [Journal.repeatedCancel, h]
  rfl

/-- What is cancelled before a command, or by it, is cancelled after it. -/
theorem cancellations_ne_none {s' : EngineState} {command : Command} {outcome : Outcome} {id : UInt64}
    (hrun : (Journal.apply command).run s = (.ok outcome, s'))
    (h : s.cancellations.lookup id ≠ none ∨ cancelOf id (command, outcome) ≠ none) :
    s'.cancellations.lookup id ≠ none := by
  have hwrites : s'.cancellations.lookup id =
      (s.cancellations.lookup id).or (cancelOf id (command, outcome)) :=
    writes_cancellations id _ _ _ _ hrun
  rw [hwrites]
  intro hnone
  obtain ⟨hbefore, hentry⟩ := Option.or_eq_none_iff.mp hnone
  exact h.elim (· hbefore) (· hentry)

/-- An order that is cancelled before a run is in no trade of it. -/
theorem Run.trades_live {s' : EngineState} (h : Run s history s') (hs : s.Inv) {id : UInt64}
    (hid : s.cancellations.lookup id ≠ none) :
    ∀ e ∈ history, ∀ t ∈ e.2.trades, t.trade.buyOrderId ≠ id ∧ t.trade.sellOrderId ≠ id := by
  induction h with
  | nil =>
    intro e he
    cases he
  | @cons s mid s'' command outcome history head _ ih =>
    intro e he
    rcases List.mem_cons.mp he with rfl | he
    · intro t ht
      obtain ⟨hbuy, hsell⟩ := CexEngine.trades_live hs head ht
      exact ⟨fun h => hid (h ▸ hbuy), fun h => hid (h ▸ hsell)⟩
    · exact ih ((Journal.apply_effect head).inv hs) (cancellations_ne_none head (Or.inl hid)) e he

/-- **Every run is once only.** -/
theorem Run.onceOnly (h : Run (.genesis cache) history s) (hcache : cache.Valid) :
    OnceOnly history s := by
  have hinv := EngineState.inv_genesis hcache
  have hsubmit : ∀ id, s.submissions.lookup id = history.findSome? (submitOf id) := fun id =>
    h.index_eq (writes_submissions id)
  have hdeposit : ∀ id, s.depositReceipts.lookup id = history.findSome? (receiptOf id) := fun id =>
    h.index_eq (writes_depositReceipts id)
  have hcancel : ∀ id, s.cancellations.lookup id = history.findSome? (cancelOf id) := fun id =>
    h.index_eq (writes_cancellations id)
  refine ⟨fun id => ?_, fun id => ?_, fun id => ?_, fun original order hfirst => ?_, hdeposit,
    fun receipt credit hreceipt => apply_redeposit hreceipt, fun id order hfirst userId pair => ?_,
    fun id order hfirst pair book hbook o ho hid => ?_, ?_⟩
  · exact h.countP_le_one hinv (writes_submissions id) fun _ _ _ _ hs => submits_fresh id hs
  · exact h.countP_le_one hinv (writes_cancellations id) fun _ _ _ _ hs => cancels_fresh id hs
  · exact h.countP_le_one hinv (writes_depositReceipts id) fun _ _ _ _ _ => credits_fresh id
  · exact apply_resubmit ((hsubmit order.id).trans hfirst)
  · exact apply_recancel ((hcancel id).trans hfirst)
  · have hlive := (h.inv hinv).live _ _ hbook o ho
    rw [hid, hcancel id, hfirst] at hlive
    cases hlive
  · rintro id before e after rfl he
    obtain ⟨mid, hbefore, hrest⟩ := h.split
    cases hrest with
    | cons head tail =>
      have hmid := hbefore.inv hinv
      exact tail.trades_live ((Journal.apply_effect head).inv hmid)
        (cancellations_ne_none head (Or.inr (cancels_fresh id hmid head he).2))

/-- **Exactly once.**  Over a whole life of the engine, restarts included, every
submission, cancellation and deposit has its effect at most once, and a repeated
command changes nothing. -/
theorem exactly_once (hcache : ∀ account b, cache.balances.lookup account = some b →
    Startup.Admissible account b) (h : Lifetime codec cache history s) : OnceOnly history s :=
  (h.run hcache).onceOnly (Store.valid_of_admissible hcache)

/-- A journal with one record. -/
def keptStore : Store where
  genesis := some ⟨Store.sampleCodec.genesisText ⟨4, Store.sampleGenesis.engineId,
    Store.sampleCache.journalSeed⟩, Store.sampleCodec.digest (Store.sampleCodec.genesisText
      ⟨4, Store.sampleGenesis.engineId, Store.sampleCache.journalSeed⟩)⟩
  records := SortedMap.empty.upsert 1 fun _ => (Store.rowOf Store.sampleCodec Store.sampleRecord).2
  delivery := some 0

def repeatedOrder : OrderEntry := .limit 1 2 true Decimal.ONE Decimal.ONE

/-- The commands after a restart, and their outcomes: an order and its cancellation, each of them
twice, the order once more, and another one under its id. -/
def repeatedHistory : List (Command × Outcome) :=
  [(.submit repeatedOrder, .applied (some (.submitted 1 [] none))),
    (.submit { repeatedOrder with createdAt := 7 }, .applied none),
    (.cancel 1 2 ⟨"BTC", "USDT"⟩, .applied (some (.cancelled repeatedOrder))),
    (.cancel 1 2 ⟨"BTC", "USDT"⟩, .duplicateCancellation repeatedOrder),
    (.submit repeatedOrder, .applied none),
    (.submit { repeatedOrder with amount := .ofScaled 2 0, remainingAmount := .ofScaled 2 0 },
      .failed "Order id is already bound to another command")]

/-- The order was submitted before the restart too, and its record was lost. -/
theorem exactly_once_restart : ∃ s,
    Lifetime Store.sampleCodec Store.sampleCache
      ((.balance 2 "USDT" Decimal.ONE, .applied none) :: repeatedHistory) s ∧
    OnceOnly ((.balance 2 "USDT" Decimal.ONE, .applied none) :: repeatedHistory) s := by
  have hinv := EngineState.inv_genesis (Store.valid_of_admissible Store.admissible_sample)
  obtain ⟨last, hall⟩ := @Journal.run_of_outcomes _ hinv
    ((.balance 2 "USDT" Decimal.ONE, .applied none) :: repeatedHistory) (by decide +kernel)
  obtain _ | @⟨_, s, _, _, _, _, hrun, hall⟩ := hall
  have hfirst : Run (.genesis Store.sampleCache) [(.balance 2 "USDT" Decimal.ONE, .applied none)] s :=
    .cons hrun (.nil _)
  have hlife : Lifetime Store.sampleCodec Store.sampleCache
      [(.balance 2 "USDT" Decimal.ONE, .applied none)] s := .step .start hrun
  obtain _ | ⟨hsubmit, hall⟩ := hall
  have hlost := hlife.step hsubmit
  have hentries : ∀ record ∈ Store.recordsOf (fun _ => 0) 0
      [(.balance 2 "USDT" Decimal.ONE, .applied none)],
      Store.sampleCodec.parseRecord (Store.sampleCodec.recordText record) = some record := by
    decide +kernel
  have hrecover : Store.recover Store.sampleCodec keptStore = .ok (s, Store.sampleGenesis.engineId) :=
    Store.recover_of_run (fun _ => 0) 0 Store.admissible_sample rfl Store.isUuid_sample
      Store.parseGenesis_sample rfl hentries hfirst rfl (Nat.zero_le _)
  have h0 := Lifetime.restart 1 (fun _ => 0) hlost rfl Store.parseGenesis_sample rfl hentries hrecover
  obtain _ | ⟨hresubmit, hall⟩ := hall
  obtain _ | ⟨hcancel, hall⟩ := hall
  obtain _ | ⟨hrecancel, hall⟩ := hall
  obtain _ | ⟨hlate, hall⟩ := hall
  obtain _ | ⟨hother, -⟩ := hall
  have h1 := ((h0.step hsubmit).step hresubmit).step hcancel
  have h2 := ((h1.step hrecancel).step hlate).step hother
  exact ⟨_, h2, exactly_once Store.admissible_sample h2⟩

end Lifetime

end CexEngine
