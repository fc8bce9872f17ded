import CexEngine.Runtime.Recovery

/-!
# The published events

`output.rs`: what an executed command is published as.  `Output.visitEvents` hands the
texts of the financial events of one result to a callback, one after the other; the
output worker sends them and the audit collects them.

* `Output.visitEvents_eq`: the visit is a walk over the list `Output.events`.
* `Output.eventId_injective`: an event is known by the position of its record and its
  index in it.

The JSON texts are not made in this repository; `toJson` is a parameter.
-/

namespace CexEngine

open Foundation Foundation.DigitText

def WithdrawalAction.eventType : WithdrawalAction → String
  | .reserve => "withdrawal_reserved"
  | .release => "withdrawal_released"
  | .complete => "withdrawal_completed"

/-- What an event says beyond its head. -/
inductive EventBody where
  | withdrawalRejected (withdrawalId : Uuid) (userId : UInt64) (asset : String) (amount : Decimal)
      (reasonCode : String)
  | withdrawalChanged (withdrawalId : Uuid) (userId : UInt64) (asset : String) (amount : Decimal)
  | depositCredited (depositId : Uuid) (userId : UInt64) (asset : String) (amount : Decimal)
  | orderRejected (orderId userId : UInt64) (orderType orderSide baseMint quoteMint : String)
      (price amount quoteAmount : Option Decimal) (feeRate : Decimal) (reasonCode : String)
  | tradeExecuted (buyOrderId sellOrderId buyerId sellerId : UInt64) (price amount : Decimal)
      (baseMint quoteMint : String) (buyerFeeRate sellerFeeRate buyerFee sellerFee : Decimal)
  | marketOrderCompleted (result : MarketCompletion)
  | orderCancelled (orderId userId : UInt64) (baseMint quoteMint : String)
  deriving DecidableEq

/-- A financial event before it is written as JSON. -/
structure FinancialEvent where
  eventId : String
  engineId : String
  eventType : String
  timestamp : Timestamp
  body : EventBody
  deriving DecidableEq

/-- Where in a journal a result stands. -/
structure Position where
  engineId : String
  sequence : ℕ
  timestamp : Timestamp

structure DeliveryError where
  nextEvent : ℕ
  reason : String
  deriving DecidableEq

/-- A visit changes what its callback holds and ends with the first error. -/
abbrev EventVisit (σ α : Type) := ExceptT DeliveryError (StateM σ) α

namespace EventVisit

variable {σ α β : Type}

/-- How a visit ends, and what its callback holds then. -/
def run (x : EventVisit σ α) (s : σ) : Except DeliveryError α × σ := StateT.run (ExceptT.run x) s

theorem run_bind_ok_iff {x : EventVisit σ α} {f : α → EventVisit σ β} {s s'' : σ} {b : β} :
    run (x >>= f) s = (.ok b, s'') ↔
      ∃ a s', run x s = (.ok a, s') ∧ run (f a) s' = (.ok b, s'') := by
  have hbind : run (x >>= f) s = ExceptT.bindCont f (run x s).1 (run x s).2 := rfl
  rw [hbind]
  rcases run x s with ⟨e | a, s'⟩
  · simp [show ExceptT.bindCont f (.error e : Except DeliveryError α) s' = (.error e, s') from rfl]
  · simp only [Prod.mk.injEq, Except.ok.injEq]
    constructor
    · exact fun h => ⟨a, s', ⟨rfl, rfl⟩, h⟩
    · rintro ⟨a, s', ⟨rfl, rfl⟩, h⟩
      exact h

end EventVisit

namespace Output

/-- The identifier of an event. -/
def eventId (engineId : String) (sequence index : ℕ) : String := s!"{engineId}:{sequence}:{index}"

/-- An event at a position of the journal. -/
def event (position : Position) (index : ℕ) (eventType : String) (body : EventBody) :
    FinancialEvent :=
  ⟨eventId position.engineId position.sequence index, position.engineId, eventType,
    position.timestamp, body⟩

/-- The event of a trade. -/
def tradeEvent (position : Position) (index : ℕ) (output : TradeOutput) : FinancialEvent :=
  let t := output.trade
  event position index "trade_executed" (.tradeExecuted t.buyOrderId t.sellOrderId t.buyerId
    t.sellerId t.price t.amount t.baseMint t.quoteMint t.buyerFeeRate t.sellerFeeRate
    output.buyerFee output.sellerFee)

/-- The event of an order that was rejected.  A market buy has no amount. -/
def rejectedEvent (position : Position) (order : OrderEntry) : FinancialEvent :=
  let budgetBuy := order.orderSide = "market" ∧ order.orderType = "buy"
  event position 0 "order_rejected" (.orderRejected order.id order.userId order.orderType
    order.orderSide order.baseMint order.quoteMint order.price
    (if budgetBuy then none else some order.amount) order.quoteAmount order.feeRate
    "ENGINE_EXECUTION_REJECTED")

section Visiting

variable {σ : Type} (toJson : FinancialEvent → Except String String)

def encode (value : FinancialEvent) (index : ℕ) : Except DeliveryError String :=
  (toJson value).mapError fun error => ⟨index, error⟩

/-- Encode an event and hand it on. -/
def sendEvent (send : ℕ → String → EventVisit σ Unit) (value : FinancialEvent) (index : ℕ) :
    EventVisit σ Unit := do
  let payload ← encode toJson value index
  send index payload

/-- The loop over the trades. -/
def visitTrades (send : ℕ → String → EventVisit σ Unit) (position : Position) :
    List TradeOutput → ℕ → EventVisit σ Unit
  | [], _ => pure ()
  | output :: outputs, index => do
    sendEvent toJson send (tradeEvent position index output) index
    visitTrades send position outputs (index + 1)

def visitEvents (batch : OutputBatch) (position : Position)
    (send : ℕ → String → EventVisit σ Unit) : EventVisit σ Unit :=
  match batch with
  | .withdrawalRejected funds _ =>
    sendEvent toJson send (event position 0 "withdrawal_rejected" (.withdrawalRejected
      funds.withdrawalId funds.userId funds.asset funds.amount "RESERVATION_REJECTED")) 0
  | .withdrawalChanged command =>
    let funds := command.funds
    sendEvent toJson send (event position 0 command.action.eventType (.withdrawalChanged
      funds.withdrawalId funds.userId funds.asset funds.amount)) 0
  | .depositCredited credit =>
    sendEvent toJson send (event position 0 "deposit_credited" (.depositCredited
      credit.depositId credit.userId credit.asset credit.amount)) 0
  | .rejected order _ => sendEvent toJson send (rejectedEvent position order) 0
  | .submitted _ trades completion => do
    visitTrades toJson send position trades 0
    match completion with
    | some completion =>
      sendEvent toJson send (event position trades.length "market_order_completed"
        (.marketOrderCompleted completion)) trades.length
    | none => pure ()
  | .cancelled order =>
    sendEvent toJson send (event position 0 "order_cancelled" (.orderCancelled
      order.id order.userId order.baseMint order.quoteMint)) 0

/-- Hand on a list of events, the first of which has the given index. -/
def visitAll (send : ℕ → String → EventVisit σ Unit) : List FinancialEvent → ℕ → EventVisit σ Unit
  | [], _ => pure ()
  | value :: values, index => do
    sendEvent toJson send value index
    visitAll send values (index + 1)

end Visiting

/-! ## The events of a record -/

def tradeEvents (position : Position) : List TradeOutput → ℕ → List FinancialEvent
  | [], _ => []
  | output :: outputs, index =>
    tradeEvent position index output :: tradeEvents position outputs (index + 1)

/-- The events of a result, in order. -/
def events (batch : OutputBatch) (position : Position) : List FinancialEvent :=
  match batch with
  | .withdrawalRejected funds _ => [event position 0 "withdrawal_rejected" (.withdrawalRejected
      funds.withdrawalId funds.userId funds.asset funds.amount "RESERVATION_REJECTED")]
  | .withdrawalChanged command => [event position 0 command.action.eventType (.withdrawalChanged
      command.funds.withdrawalId command.funds.userId command.funds.asset command.funds.amount)]
  | .depositCredited credit => [event position 0 "deposit_credited" (.depositCredited
      credit.depositId credit.userId credit.asset credit.amount)]
  | .rejected order _ => [rejectedEvent position order]
  | .submitted _ trades completion => tradeEvents position trades 0 ++
      completion.toList.map fun completion =>
        event position trades.length "market_order_completed" (.marketOrderCompleted completion)
  | .cancelled order => [event position 0 "order_cancelled" (.orderCancelled
      order.id order.userId order.baseMint order.quoteMint)]

theorem length_tradeEvents (position : Position) (outputs : List TradeOutput) (index : ℕ) :
    (tradeEvents position outputs index).length = outputs.length := by
  induction outputs generalizing index with
  | nil => rfl
  | cons output outputs ih => rw [tradeEvents, List.length_cons, List.length_cons, ih]

section VisitAll

variable {σ : Type} {toJson : FinancialEvent → Except String String}

@[simp] theorem visitAll_singleton (send : ℕ → String → EventVisit σ Unit) (value : FinancialEvent)
    (index : ℕ) : visitAll toJson send [value] index = sendEvent toJson send value index := by
  simp only [visitAll, bind_pure_unit]

theorem visitAll_append (send : ℕ → String → EventVisit σ Unit)
    (values values' : List FinancialEvent) (index : ℕ) :
    visitAll toJson send (values ++ values') index =
      visitAll toJson send values index >>= fun _ =>
        visitAll toJson send values' (index + values.length) := by
  induction values generalizing index with
  | nil => simp [visitAll]
  | cons value values ih =>
    have hindex : index + (values.length + 1) = index + 1 + values.length := by
      omega
    simp only [List.cons_append, visitAll, bind_assoc, ih, List.length_cons, hindex]

theorem visitTrades_eq (send : ℕ → String → EventVisit σ Unit) (position : Position)
    (outputs : List TradeOutput) (index : ℕ) :
    visitTrades toJson send position outputs index =
      visitAll toJson send (tradeEvents position outputs index) index := by
  induction outputs generalizing index with
  | nil => rfl
  | cons output outputs ih =>
    simp only [visitTrades, tradeEvents, visitAll, ih]

/-- **A visit walks over the events of the result.** -/
theorem visitEvents_eq (batch : OutputBatch) (position : Position)
    (send : ℕ → String → EventVisit σ Unit) :
    visitEvents toJson batch position send = visitAll toJson send (events batch position) 0 := by
  cases batch with
  | submitted orderId trades completion =>
    simp only [visitEvents, events, visitTrades_eq, visitAll_append, length_tradeEvents,
      Nat.zero_add]
    cases completion with
    | none => rfl
    | some completion => rw [Option.toList_some, List.map_singleton, visitAll_singleton]
  | withdrawalChanged command => exact (visitAll_singleton ..).symm
  | withdrawalRejected funds reason => exact (visitAll_singleton ..).symm
  | depositCredited credit => exact (visitAll_singleton ..).symm
  | cancelled order => exact (visitAll_singleton ..).symm
  | rejected order reason => exact (visitAll_singleton ..).symm

/-- One event of a visit that succeeds: it was encoded and handed on. -/
theorem visitAll_cons_ok {send : ℕ → String → EventVisit σ Unit} {value : FinancialEvent}
    {values : List FinancialEvent} {index : ℕ} {s s' : σ} :
    EventVisit.run (visitAll toJson send (value :: values) index) s = (.ok (), s') ↔
      ∃ payload mid, toJson value = .ok payload ∧
        EventVisit.run (send index payload) s = (.ok (), mid) ∧
        EventVisit.run (visitAll toJson send values (index + 1)) mid = (.ok (), s') := by
  have hencode : ∀ payload mid,
      EventVisit.run (liftM (encode toJson value index) : EventVisit σ String) s =
        (.ok payload, mid) ↔ toJson value = .ok payload ∧ mid = s := by
    intro payload mid
    show (encode toJson value index, s) = _ ↔ _
    cases hvalue : toJson value <;> simp [encode, hvalue, Except.mapError, eq_comm]
  simp only [visitAll, sendEvent, EventVisit.run_bind_ok_iff, hencode]
  constructor
  · rintro ⟨_, mid, ⟨payload, _, ⟨hvalue, rfl⟩, hsend⟩, hrest⟩
    exact ⟨payload, mid, hvalue, hsend, hrest⟩
  · rintro ⟨payload, mid, hvalue, hsend, hrest⟩
    exact ⟨(), mid, ⟨payload, s, ⟨hvalue, rfl⟩, hsend⟩, hrest⟩

end VisitAll

/-! ## Identifiers -/

theorem toList_eventId (engineId : String) (sequence index : ℕ) :
    (eventId engineId sequence index).toList =
      engineId.toList ++ ':' :: (Nat.toDigits 10 sequence ++ ':' :: Nat.toDigits 10 index) := by
  simp [eventId, toString, Nat.repr]

/-- Digits up to the first colon are the digits of one number. -/
theorem toDigits_colon_inj {m n : ℕ} {rest rest' : List Char}
    (h : Nat.toDigits 10 m ++ ':' :: rest = Nat.toDigits 10 n ++ ':' :: rest') :
    m = n ∧ rest = rest' := by
  have hcolon : ∀ k, ':' ∉ Nat.toDigits 10 k := fun k hmem =>
    absurd (isDigit_of_mem_toDigits_ten hmem) (by decide)
  have hsplit : ∀ k (l : List Char),
      (Nat.toDigits 10 k ++ ':' :: l).takeWhile (· ≠ ':') = Nat.toDigits 10 k := by
    intro k l
    rw [List.takeWhile_append_of_pos fun c hc => by
      simpa using fun heq : c = ':' => hcolon k (heq ▸ hc)]
    simp
  have hdigits : Nat.toDigits 10 m = Nat.toDigits 10 n := by
    rw [← hsplit m rest, h, hsplit]
  rw [hdigits, List.append_cancel_left_eq, List.cons_eq_cons] at h
  refine ⟨?_, h.2⟩
  rw [← Nat.ofDigitChars_ten_toDigits (n := m), hdigits, Nat.ofDigitChars_ten_toDigits]

/-- **An identifier names one event of one record.** -/
theorem eventId_injective {engineId : String} {sequence sequence' index index' : ℕ}
    (h : eventId engineId sequence index = eventId engineId sequence' index') :
    sequence = sequence' ∧ index = index' := by
  have hlist := congrArg String.toList h
  rw [toList_eventId, toList_eventId, List.append_cancel_left_eq, List.cons_eq_cons] at hlist
  obtain ⟨hsequence, hindex⟩ := toDigits_colon_inj hlist.2
  refine ⟨hsequence, ?_⟩
  rw [← Nat.ofDigitChars_ten_toDigits (n := index), hindex, Nat.ofDigitChars_ten_toDigits]

theorem eventId_of_mem_tradeEvents {position : Position} {outputs : List TradeOutput}
    {index i : ℕ} {e : FinancialEvent} (h : (tradeEvents position outputs index)[i]? = some e) :
    e.eventId = eventId position.engineId position.sequence (index + i) := by
  induction outputs generalizing index i with
  | nil => simp [tradeEvents] at h
  | cons output outputs ih =>
    cases i with
    | zero =>
      rw [tradeEvents, List.getElem?_cons_zero, Option.some_inj] at h
      rw [← h]
      rfl
    | succ i =>
      rw [tradeEvents, List.getElem?_cons_succ] at h
      rw [ih h]
      congr 1
      omega

/-- **An event carries its position and its index.** -/
theorem eventId_of_getElem? {batch : OutputBatch} {position : Position} {i : ℕ}
    {e : FinancialEvent} (h : (events batch position)[i]? = some e) :
    e.eventId = eventId position.engineId position.sequence i := by
  have single : ∀ (eventType : String) (body : EventBody),
      [event position 0 eventType body][i]? = some e →
      e.eventId = eventId position.engineId position.sequence i := by
    intro eventType body h
    cases i with
    | zero =>
      rw [List.getElem?_cons_zero, Option.some_inj] at h
      rw [← h]
      rfl
    | succ i =>
      rw [List.getElem?_cons_succ, List.getElem?_nil] at h
      cases h
  cases batch with
  | submitted orderId trades completion =>
    rw [events] at h
    by_cases hi : i < trades.length
    · rw [List.getElem?_append_left (by rwa [length_tradeEvents])] at h
      rw [eventId_of_mem_tradeEvents h, Nat.zero_add]
    · rw [List.getElem?_append_right (by rw [length_tradeEvents]; omega), length_tradeEvents] at h
      cases completion with
      | none =>
        rw [Option.toList_none, List.map_nil, List.getElem?_nil] at h
        cases h
      | some completion =>
        rw [Option.toList_some, List.map_singleton] at h
        have hlt := (List.getElem?_eq_some_iff.mp h).1
        rw [List.length_singleton] at hlt
        have hi' : i = trades.length := by omega
        rw [hi', Nat.sub_self, List.getElem?_cons_zero, Option.some_inj] at h
        rw [← h, hi']
        rfl
  | withdrawalChanged command => exact single _ _ h
  | withdrawalRejected funds reason => exact single _ _ h
  | depositCredited credit => exact single _ _ h
  | cancelled order => exact single _ _ h
  | rejected order reason => exact single _ _ h

end Output

/-- The events a record is published as. -/
def Record.events (engineId : String) (record : Record) : List FinancialEvent :=
  match record.outcome with
  | .applied (some batch) => Output.events batch ⟨engineId, record.sequence, record.timestamp⟩
  | _ => []

theorem Record.eventId_of_getElem? {engineId : String} {record : Record} {i : ℕ}
    {e : FinancialEvent} (h : (record.events engineId)[i]? = some e) :
    e.eventId = Output.eventId engineId record.sequence i := by
  unfold Record.events at h
  split at h
  · have hid := Output.eventId_of_getElem? h
    exact hid
  · rw [List.getElem?_nil] at h
    cases h

theorem Record.map_eventId (engineId : String) (record : Record) :
    (record.events engineId).map FinancialEvent.eventId =
      (List.range (record.events engineId).length).map
        (Output.eventId engineId record.sequence) := by
  refine List.ext_getElem? fun i => ?_
  rw [List.getElem?_map, List.getElem?_map]
  cases he : (record.events engineId)[i]? with
  | none =>
    rw [List.getElem?_eq_none_iff] at he
    rw [List.getElem?_eq_none (by rwa [List.length_range])]
    rfl
  | some e =>
    rw [List.getElem?_range (List.getElem?_eq_some_iff.mp he).1, Option.map_some, Option.map_some,
      Record.eventId_of_getElem? he]

/-! ## The published stream -/

/-- A callback that collects the texts. -/
def Output.collect (_ : ℕ) (payload : String) : EventVisit (List String) Unit :=
  modify (· ++ [payload])

section Published

variable {Json : Type} (codec : Codec Json) (toJson : FinancialEvent → Except String String)

/-- The texts a visit produces for a record. -/
def Record.payloads (engineId : String) (record : Record) : Except String (List String) :=
  match record.outcome with
  | .applied (some batch) =>
    match EventVisit.run (Output.visitEvents toJson batch
        ⟨engineId, record.sequence, record.timestamp⟩ Output.collect) [] with
    | (.ok _, payloads) => .ok payloads
    | (.error error, _) => .error error.reason
  | _ => .ok []

/-- The texts of `count` records after a sequence, in order. -/
def Store.published (engineId : String) (store : Store) : ℕ → ℕ → Except Fault (List String)
  | _, 0 => pure []
  | after, count + 1 => do
    let record ← store.read codec (after + 1)
    let payloads ← (record.payloads toJson engineId).mapError .err
    let rest ← published engineId store (after + 1) count
    pure (payloads ++ rest)

variable {codec toJson}

theorem Output.visitAll_collect_ok {values : List FinancialEvent} {index : ℕ}
    {out out' : List String} :
    EventVisit.run (visitAll toJson collect values index) out = (.ok (), out') ↔
      ∃ payloads, values.mapM toJson = .ok payloads ∧ out' = out ++ payloads := by
  induction values generalizing index out with
  | nil =>
    have hrun : EventVisit.run (visitAll toJson collect [] index) out = (.ok (), out) := rfl
    rw [hrun, Prod.mk.injEq]
    constructor
    · rintro ⟨-, rfl⟩
      exact ⟨[], rfl, (List.append_nil _).symm⟩
    · rintro ⟨payloads, hpayloads, rfl⟩
      cases pure_eq_ok.mp hpayloads
      exact ⟨rfl, (List.append_nil _).symm⟩
  | cons value values ih =>
    have hcollect : ∀ payload mid, EventVisit.run (collect index payload) out = (.ok (), mid) ↔
        mid = out ++ [payload] := by
      intro payload mid
      show ((.ok (), out ++ [payload]) : Except DeliveryError Unit × List String) = _ ↔ _
      simp [eq_comm]
    simp only [visitAll_cons_ok, hcollect, ih, List.mapM_cons, bind_eq_ok, pure_eq_ok]
    constructor
    · rintro ⟨payload, _, hvalue, rfl, payloads, hrest, rfl⟩
      exact ⟨payload :: payloads, ⟨payload, hvalue, payloads, hrest, rfl⟩, by simp⟩
    · rintro ⟨_, ⟨payload, hvalue, payloads, hrest, rfl⟩, rfl⟩
      exact ⟨payload, _, hvalue, rfl, payloads, hrest, by simp⟩

/-- **The texts of a record are those of its events.** -/
theorem Record.payloads_eq_ok {engineId : String} {record : Record} {payloads : List String} :
    record.payloads toJson engineId = .ok payloads ↔
      (record.events engineId).mapM toJson = .ok payloads := by
  unfold Record.payloads Record.events
  split
  · next batch hbatch =>
    rw [Output.visitEvents_eq]
    have hcollect := @Output.visitAll_collect_ok toJson
      (Output.events batch ⟨engineId, record.sequence, record.timestamp⟩) 0 [] payloads
    simp only [List.nil_append, exists_eq_right'] at hcollect
    rw [← hcollect]
    split
    · next hrun => simp [hrun]
    · next hrun => simp [hrun]
  · rw [List.mapM_nil, pure_eq_ok, Except.ok.injEq]

/-- Records after records. -/
theorem Store.published_add {engineId : String} {store : Store} {after m n : ℕ}
    {payloads : List String} :
    store.published codec toJson engineId after (m + n) = .ok payloads ↔
      ∃ first rest, store.published codec toJson engineId after m = .ok first ∧
        store.published codec toJson engineId (after + m) n = .ok rest ∧
        payloads = first ++ rest := by
  induction m generalizing after payloads with
  | zero =>
    rw [Nat.zero_add]
    constructor
    · exact fun h => ⟨[], payloads, rfl, h, rfl⟩
    · rintro ⟨first, rest, hfirst, hrest, rfl⟩
      cases pure_eq_ok.mp hfirst
      exact hrest
  | succ m ih =>
    rw [Nat.succ_add]
    simp only [published, bind_eq_ok, pure_eq_ok, ih]
    constructor
    · rintro ⟨record, hread, texts, htexts, _, ⟨first, rest, hfirst, hrest, rfl⟩, rfl⟩
      refine ⟨texts ++ first, rest, ⟨record, hread, texts, htexts, first, hfirst, rfl⟩, ?_, by simp⟩
      rwa [show after + (m + 1) = after + 1 + m by omega]
    · rintro ⟨_, rest, ⟨record, hread, texts, htexts, first, hfirst, rfl⟩, hrest, rfl⟩
      rw [show after + (m + 1) = after + 1 + m by omega] at hrest
      exact ⟨record, hread, texts, htexts, first ++ rest, ⟨first, rest, hfirst, hrest, rfl⟩, by simp⟩

/-- What was published stays published while the journal grows. -/
theorem Store.published_of_isPrefix {store store' : Store} {engineId : String}
    (h : store.records.entries <+: store'.records.entries) {after n : ℕ} {payloads : List String}
    (hpublished : store.published codec toJson engineId after n = .ok payloads) :
    store'.published codec toJson engineId after n = .ok payloads := by
  induction n generalizing after payloads with
  | zero => exact hpublished
  | succ n ih =>
    simp only [published, bind_eq_ok, pure_eq_ok] at hpublished ⊢
    obtain ⟨record, hread, texts, htexts, rest, hrest, rfl⟩ := hpublished
    exact ⟨record, read_of_isPrefix h hread, texts, htexts, rest, ih hrest, rfl⟩

/-- Every record of a published range can be read. -/
theorem Store.read_of_published {store : Store} {engineId : String} {after n : ℕ}
    {payloads : List String}
    (h : store.published codec toJson engineId after n = .ok payloads) {sequence : ℕ}
    (hlt : after < sequence) (hle : sequence ≤ after + n) :
    ∃ record, store.read codec sequence = .ok record := by
  induction n generalizing after payloads with
  | zero => omega
  | succ n ih =>
    simp only [published, bind_eq_ok, pure_eq_ok] at h
    obtain ⟨record, hread, texts, htexts, rest, hrest, rfl⟩ := h
    rcases Nat.lt_or_ge (after + 1) sequence with hmore | hfirst
    · exact ih hrest hmore (by omega)
    · obtain rfl : sequence = after + 1 := by
        omega
      exact ⟨record, hread⟩

end Published

/-! ### A deposit and its repetition -/

namespace Output

def sampleCredit : DepositCredit := ⟨0x00000000000040008000000000000002#128, 2, "USDT", Decimal.ONE⟩

/-- A deposit that was credited. -/
def sampleCredited : Record :=
  ⟨1, 0, .creditDeposit sampleCredit, .applied (some (.depositCredited sampleCredit))⟩

/-- The same deposit once more. -/
def sampleRepeated : Record := ⟨2, 0, .creditDeposit sampleCredit, .applied none⟩

def sampleCreditedText : String :=
  "\x7b\"sequence\":1,\"timestamp\":\"1970-01-01T00:00:00Z\",\"command\":\x7b\"CreditDeposit\":\x7b\"deposit_id\":\"00000000-0000-4000-8000-000000000002\",\"user_id\":2,\"asset\":\"USDT\",\"amount\":\"1\"\x7d\x7d,\"outcome\":\x7b\"Applied\":\x7b\"DepositCredited\":\x7b\"deposit_id\":\"00000000-0000-4000-8000-000000000002\",\"user_id\":2,\"asset\":\"USDT\",\"amount\":\"1\"\x7d\x7d\x7d\x7d"

def sampleRepeatedText : String :=
  "\x7b\"sequence\":2,\"timestamp\":\"1970-01-01T00:00:00Z\",\"command\":\x7b\"CreditDeposit\":\x7b\"deposit_id\":\"00000000-0000-4000-8000-000000000002\",\"user_id\":2,\"asset\":\"USDT\",\"amount\":\"1\"\x7d\x7d,\"outcome\":\x7b\"Applied\":null\x7d\x7d"

/-- The records with their texts. -/
def sampleRows : List Store.TableRow :=
  [ ⟨sampleCredited, sampleCreditedText,
      "\x7b\"Applied\":\x7b\"DepositCredited\":\x7b\"deposit_id\":\"00000000-0000-4000-8000-000000000002\",\"user_id\":2,\"asset\":\"USDT\",\"amount\":\"1\"\x7d\x7d\x7d",
      [128, 116, 157, 171, 178, 41, 15, 11, 67, 84, 180, 13, 76, 138, 12, 234, 110, 101, 138, 245, 144, 70,
        36, 34, 190, 178, 47, 191, 65, 68, 44, 15]⟩,
    ⟨sampleRepeated, sampleRepeatedText,
      "\x7b\"Applied\":null\x7d",
      [25, 153, 108, 214, 113, 42, 218, 88, 89, 82, 54, 210, 45, 195, 175, 156, 206, 206, 84, 25, 17, 165,
        112, 123, 152, 174, 189, 221, 175, 2, 47, 95]⟩]

/-- The encodings on them. -/
def sampleCodec : Codec String := Store.tableCodec sampleRows

def sampleEventText : String :=
  "\x7b\"amount\":\"1\",\"asset\":\"USDT\",\"deposit_id\":\"00000000-0000-4000-8000-000000000002\",\"engine_id\":\"00000000-0000-4000-8000-000000000001\",\"event_id\":\"00000000-0000-4000-8000-000000000001:1:0\",\"event_type\":\"deposit_credited\",\"timestamp\":\"1970-01-01T00:00:00Z\",\"user_id\":2\x7d"

def sampleEvent : FinancialEvent :=
  event ⟨Store.sampleGenesis.engineId, 1, 0⟩ 0 "deposit_credited"
    (.depositCredited sampleCredit.depositId sampleCredit.userId sampleCredit.asset
      sampleCredit.amount)

/-- The text of the event of the deposit. -/
def sampleJson (event : FinancialEvent) : Except String String :=
  if event.eventId = "00000000-0000-4000-8000-000000000001:1:0" then .ok sampleEventText else .error ""

theorem sampleJson_event : sampleJson sampleEvent = .ok sampleEventText := if_pos (by decide +kernel)

/-- The journal before these records. -/
def sampleStore : Store := { Store.fresh with
  genesis := some ⟨Store.sampleGenesisText, sampleCodec.digest Store.sampleGenesisText⟩ }

def samplePending : List Pending :=
  [⟨some (.creditDeposit sampleCredit), .applied (some (.depositCredited sampleCredit)), .unit 0⟩,
    ⟨some (.creditDeposit sampleCredit), .applied none, .unit 1⟩]

/-- The journal with the two records. -/
def sampleJournal : Store := Store.written sampleCodec sampleStore samplePending 0

theorem entries_sampleJournal : sampleJournal.records.entries =
    [sampleCredited, sampleRepeated].map (Store.rowOf sampleCodec) ∧
      sampleJournal.genesis = sampleStore.genesis := by
  obtain ⟨-, hentries, hgenesis, -⟩ := @Store.append_first sampleCodec sampleStore samplePending rfl
    (by decide)
  exact ⟨hentries, hgenesis⟩

end Output

end CexEngine
