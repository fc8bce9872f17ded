import CexEngine.Services.OrderReceipt

/-!
# Concurrent acceptance

What holds in every interleaving of the calls that accept an order, of their rollbacks and of the
changes of the platform.

No call sees a consistent picture of the database.  Each statement of a `READ COMMITTED` transaction
reads what is committed at that moment, so a call that finds no receipt may find the order filled or
gone a statement later, may lose the insertion to another call, and may be rolled back after it has
won it.  Which call creates the receipt is open until one of them commits.  What all calls can rely on
is smaller, and it is what the invariant says:

* a receipt is `Sound`: its compared fields (`Key`) are those of the submission that the platform
  stored for the order.  The platform moves an order on, but never changes these fields, so two
  receipts that are inserted at different times for one order would agree on them;
* a call in flight carries what it has already compared (`CallInv`): from the statement that read the
  original on, its request has the key of the submission, and the row it inserts has it too;
* at most one call has an insertion pending under an order id, and at most one has created a receipt
  that is committed.

The first two give the agreement of the calls: a call returns only what it has read or inserted, and
both are rows with the key of the submission and, once committed, the same row.  The same facts exclude
a wrong refusal.  A call is refused because a row it has read differs from its request, and that row
has the key of the receipt (`Step.refused`).

* `CallInv` is proved statement by statement (`callInv_lookup`, `callInv_readOriginal`,
  `callInv_insert`, …); a call that has neither inserted nor returned anything is `Quiet`.
* `OrderReceipt.Inv` is kept by every step (`Step.inv`), so it holds in every interleaving.
* `OrderReceipt.acceptance_agreement`: one call creates the receipt, all calls return it, and a request
  that equals it is not refused.
-/

namespace CexEngine

open Foundation Amount

namespace OrderReceipt

/-! ## The compared fields -/

/-- What is compared of a command. -/
structure Key where
  orderId : Option UInt64
  userId : UInt64
  orderType : String
  orderSide : String
  baseMint : String
  quoteMint : String
  price : Option ℤ
  amount : Option ℤ
  quoteAmount : Option ℤ

def StoredCommand.key (self : StoredCommand) : Key :=
  ⟨some self.orderId.toUInt64, self.userId.toUInt64, self.orderType, self.orderSide, self.baseMint,
    self.quoteMint, self.price.map Decimal.raw, self.amount.map Decimal.raw,
    self.quoteAmount.map Decimal.raw⟩

/-- The compared fields of a request. -/
def requestKey (request : CreateOrderRequest) : Key :=
  ⟨request.orderId, request.userId, request.orderType, request.orderSide, request.baseMint,
    request.quoteMint.getD "USDT", request.price.map Decimal.raw, request.amount.map Decimal.raw,
    request.quoteAmount.map Decimal.raw⟩

theorem matches_iff {self : StoredCommand} {request : CreateOrderRequest} :
    self.Matches request ↔ self.key = requestKey request := by
  simp only [StoredCommand.Matches, StoredCommand.key, requestKey, SameOption, Key.mk.injEq]

/-- The compared fields of a row.  The fee rate is not one of them. -/
def CommandRow.key? (row : CommandRow) : Option Key := do
  let price ← (readOptionalDecimal row.price "price").toOption
  let amount ← (readOptionalDecimal row.amount "amount").toOption
  let quoteAmount ← (readOptionalDecimal row.quoteAmount "quote_amount").toOption
  pure ⟨some row.orderId.toUInt64, row.userId.toUInt64, row.orderType, row.orderSide, row.baseMint,
    row.quoteMint, price.map Decimal.raw, amount.map Decimal.raw, quoteAmount.map Decimal.raw⟩

theorem CommandRow.decode_ok {row : CommandRow} {stored : StoredCommand}
    (h : row.decode = .ok stored) :
    row.key? = some stored.key ∧ stored.orderId = row.orderId ∧ stored.userId = row.userId := by
  simp only [CommandRow.decode, bind_eq_ok, orErr_eq_ok, pure_eq_ok] at h
  obtain ⟨_, -, _, -, price, hprice, amount, hamount, quoteAmount, hquote, rfl⟩ := h
  refine ⟨?_, rfl, rfl⟩
  rw [CommandRow.key?, hprice, hamount, hquote]
  rfl

theorem bigint_toUInt64 {id : Int64} (h : 0 < id) : bigint id.toUInt64 = some id := by
  have hpos : 0 < id.toInt := Int64.lt_iff_toInt_lt.mp h
  have hlt := id.toInt_lt
  have hnat : (id.toUInt64.toNat : ℤ) = id.toInt := by
    rw [Int64.toNat_toUInt64_of_le (Int64.le_of_lt h), Int64.toNatClampNeg,
      Int.toNat_of_nonneg hpos.le]
  have hrange : 0 < id.toUInt64 ∧ id.toUInt64 ≤ maxI64 := by
    rw [UInt64.lt_iff_toNat_lt, UInt64.le_iff_toNat_le, show maxI64.toNat = 9223372036854775807 from rfl,
      show (0 : UInt64).toNat = 0 from rfl]
    omega
  rw [bigint, if_pos hrange, Int64.toInt64_toUInt64]

/-! ## The invariant -/

/-- What holds of a receipt, committed or not: it is decoded, and its compared fields are
those of the submission. -/
structure Sound (tables : Tables) (orderId : Int64) (row : CommandRow) : Prop where
  id : row.orderId = orderId
  positive : 0 < orderId ∧ 0 < row.userId
  decodes : ∃ stored, row.decode = .ok stored
  submitted : ∃ s, tables.submissions orderId = some s ∧ s.key? = row.key?

/-- The identifiers of a request that passed the first checks. -/
def Identified (request : CreateOrderRequest) (orderId userId : Int64) : Prop :=
  request.orderId.bind bigint = some orderId ∧ bigint request.userId = some userId

/-- What holds of a call before its next statement. -/
def CallInv (tables : Tables) : Call → Prop
  | .idle => True
  | .begun request orderId userId => Identified request orderId userId
  | .absent request orderId userId => Identified request orderId userId
  | .vanished request orderId userId => Identified request orderId userId
  | .holding request orderId userId original => Identified request orderId userId ∧
      original.Matches request ∧
      ∃ s, tables.submissions orderId = some s ∧ s.key? = some original.key
  | .lost request orderId userId => Identified request orderId userId
  | .found request orderId stored (.own row) => request.orderId.bind bigint = some orderId ∧
      stored.Matches request ∧ row.decode = .ok stored ∧ tables.receipts orderId = none ∧
      Sound tables orderId row
  | .found request orderId stored _ => request.orderId.bind bigint = some orderId ∧
      stored.Matches request ∧ ∃ row, tables.receipts orderId = some row ∧ row.decode = .ok stored
  | .returned request result => ∃ orderId row stored created,
      request.orderId.bind bigint = some orderId ∧ tables.receipts orderId = some row ∧
      row.decode = .ok stored ∧ stored.Matches request ∧ result = stored.result created
  | .failed _ _ => True

structure Inv (w : World) : Prop where
  receipts : ∀ orderId row, w.tables.receipts orderId = some row → Sound w.tables orderId row
  submissions : ∀ orderId row, w.tables.submissions orderId = some row → row.orderId = orderId
  calls : ∀ c, CallInv w.tables (w.calls c)
  single : ∀ c d orderId, (w.calls c).inserts orderId → (w.calls d).inserts orderId → c = d
  created : ∀ c d request request' result result', w.calls c = .returned request result →
    w.calls d = .returned request' result' → request.orderId = request'.orderId →
    result.created = true → result'.created = true → c = d

/-! ## The statements -/

/-- A receipt that a query returned: the call goes on with it, or ends. -/
theorem checkReceipt_cases (request : CreateOrderRequest) (orderId : Int64) (row : CommandRow)
    (source : Source) :
    (∃ stored, row.decode = .ok stored ∧ stored.Matches request ∧
        checkReceipt request orderId row source = .found request orderId stored source) ∨
      (∃ stored, row.decode = .ok stored ∧ ¬ stored.Matches request ∧
        checkReceipt request orderId row source = .failed request .conflict) ∨
      checkReceipt request orderId row source = .failed request .database := by
  unfold checkReceipt
  cases hdecode : row.decode with
  | error e => exact .inr (.inr rfl)
  | ok stored =>
    by_cases hmatches : stored.Matches request
    · exact .inl ⟨stored, rfl, hmatches, if_pos hmatches⟩
    · exact .inr (.inl ⟨stored, rfl, hmatches, if_neg hmatches⟩)

/-- A committed receipt is good for a call. -/
theorem callInv_checkReceipt {tables : Tables} {request : CreateOrderRequest} {orderId : Int64}
    {row : CommandRow} {source : Source} (hid : request.orderId.bind bigint = some orderId)
    (hrow : tables.receipts orderId = some row) (hsource : source.created = false) :
    CallInv tables (checkReceipt request orderId row source) := by
  rcases checkReceipt_cases request orderId row source with
    ⟨stored, hdecode, hmatches, heq⟩ | ⟨stored, -, -, heq⟩ | heq
  · rw [heq]
    cases source with
    | own row => cases hsource
    | existing => exact ⟨hid, hmatches, row, hrow, hdecode⟩
    | winner => exact ⟨hid, hmatches, row, hrow, hdecode⟩
  · rw [heq]
    trivial
  · rw [heq]
    trivial

theorem original_submission {tables : Tables} {orderId userId : Int64} {row : CommandRow}
    (h : original tables orderId userId = some row) : tables.submissions orderId = some row := by
  unfold original at h
  split at h
  · next s o hs ho =>
    split at h
    · cases h
      exact hs
    · cases h
  · cases h

/-- The original: the call goes on with it, or ends. -/
theorem checkOriginal_cases (request : CreateOrderRequest) (orderId userId : Int64)
    (row : CommandRow) :
    (∃ original, row.decode = .ok original ∧ original.Matches request ∧
        checkOriginal request orderId userId row = .holding request orderId userId original) ∨
      (∃ original, row.decode = .ok original ∧ ¬ original.Matches request ∧
        checkOriginal request orderId userId row = .failed request .conflict) ∨
      checkOriginal request orderId userId row = .failed request .database ∨
      ∃ fault, checkOriginal request orderId userId row = .failed request (.fee fault) := by
  unfold checkOriginal
  cases hdecode : row.decode with
  | error e => exact .inr (.inr (.inl rfl))
  | ok original =>
    by_cases hmatches : original.Matches request
    · cases hfee : fee Decimal.ZERO original.feeRate with
      | ok value => exact .inl ⟨original, rfl, hmatches, by simp only [if_pos hmatches, hfee]⟩
      | error fault =>
        exact .inr (.inr (.inr ⟨fault, by simp only [if_pos hmatches, hfee]⟩))
    · exact .inr (.inl ⟨original, rfl, hmatches, if_neg hmatches⟩)

theorem callInv_readOriginal {tables : Tables} {request : CreateOrderRequest}
    {orderId userId : Int64} (h : Identified request orderId userId) :
    CallInv tables (readOriginal tables request orderId userId) := by
  unfold readOriginal
  cases horiginal : original tables orderId userId with
  | none => exact h
  | some row =>
    show CallInv tables (checkOriginal request orderId userId row)
    rcases checkOriginal_cases request orderId userId row with
      ⟨original, hdecode, hmatches, heq⟩ | ⟨original, -, -, heq⟩ | heq | ⟨fault, heq⟩
    · rw [heq]
      exact ⟨h, hmatches, row, original_submission horiginal, (CommandRow.decode_ok hdecode).1⟩
    · rw [heq]
      trivial
    · rw [heq]
      trivial
    · rw [heq]
      trivial

theorem callInv_begin (tables : Tables) (request : CreateOrderRequest) :
    CallInv tables (begin_ request) := by
  unfold begin_
  split
  · next hid huser => exact ⟨hid, huser⟩
  · trivial

theorem callInv_lookup {tables : Tables} {request : CreateOrderRequest} {orderId userId : Int64}
    (h : Identified request orderId userId) :
    CallInv tables (lookup tables request orderId userId) := by
  unfold lookup
  cases hrow : tables.receipts orderId with
  | none => exact h
  | some row => exact callInv_checkReceipt h.1 hrow rfl

theorem callInv_lookupAgain {tables : Tables} {request : CreateOrderRequest} {orderId : Int64}
    (h : request.orderId.bind bigint = some orderId) :
    CallInv tables (lookupAgain tables request orderId) := by
  unfold lookupAgain
  cases hrow : tables.receipts orderId with
  | none => trivial
  | some row => exact callInv_checkReceipt h hrow rfl

theorem callInv_readWinner {tables : Tables} {request : CreateOrderRequest} {orderId : Int64}
    (h : request.orderId.bind bigint = some orderId) :
    CallInv tables (readWinner tables request orderId) := by
  unfold readWinner
  cases hrow : tables.receipts orderId with
  | none => trivial
  | some row => exact callInv_checkReceipt h hrow rfl

/-- The columns of a new receipt. -/
theorem receiptRow_ok {numeric : ℕ → ℕ → Decimal → Option String} {orderId userId : Int64}
    {original : StoredCommand} {acceptedAt : Timestamp} {row : CommandRow}
    (h : receiptRow numeric orderId userId original acceptedAt = some row) :
    row.orderId = orderId ∧ row.userId = userId ∧ 0 < orderId ∧ 0 < userId := by
  simp only [receiptRow, Option.bind_eq_bind, Option.bind_eq_some_iff, Option.guard_eq_some',
    Option.pure_def, Option.some.injEq] at h
  obtain ⟨_, -, _, -, _, -, _, -, _, -, _, ⟨huser, -, -, -, -, hid⟩, rfl⟩ := h
  exact ⟨rfl, rfl, hid, huser⟩

/-- **A new receipt has the compared fields of the submission**: the row that was stored is
compared with the request once more, as the original was. -/
theorem callInv_insert {numeric : ℕ → ℕ → Decimal → Option String} {tables : Tables}
    {request : CreateOrderRequest} {orderId userId : Int64} {original : StoredCommand}
    {acceptedAt : Timestamp}
    (h : CallInv tables (.holding request orderId userId original)) :
    CallInv tables (insert numeric tables acceptedAt request orderId userId original) := by
  obtain ⟨hid, hmatches, s, hs, hkey⟩ := h
  unfold insert
  cases hreceipt : tables.receipts orderId with
  | some row => exact hid
  | none =>
    cases hrow : receiptRow numeric orderId userId original acceptedAt with
    | none => trivial
    | some row =>
      show CallInv tables (checkReceipt request orderId row (.own row))
      obtain ⟨hrowId, hrowUser, hpos, huser⟩ := receiptRow_ok hrow
      rcases checkReceipt_cases request orderId row (.own row) with
        ⟨stored, hdecode, hstored, heq⟩ | ⟨stored, -, -, heq⟩ | heq
      · rw [heq]
        refine ⟨hid.1, hstored, hdecode, hreceipt, hrowId, ⟨hpos, hrowUser ▸ huser⟩,
          ⟨stored, hdecode⟩, s, hs, ?_⟩
        rw [hkey, (CommandRow.decode_ok hdecode).1, matches_iff.mp hmatches,
          matches_iff.mp hstored]
      · rw [heq]
        trivial
      · rw [heq]
        trivial

/-- A call that has inserted nothing and returned nothing. -/
def Quiet (call : Call) : Prop :=
  (∀ orderId, ¬ call.inserts orderId) ∧ ∀ request result, call ≠ .returned request result

theorem quiet_failed (request : CreateOrderRequest) (refusal : Refusal) :
    Quiet (.failed request refusal) := by
  refine ⟨fun orderId h => ?_, fun _ _ h => by cases h⟩
  obtain ⟨_, _, _, heq⟩ := h
  cases heq

theorem quiet_checkReceipt (request : CreateOrderRequest) (orderId : Int64) (row : CommandRow)
    {source : Source} (hsource : source.created = false) :
    Quiet (checkReceipt request orderId row source) := by
  rcases checkReceipt_cases request orderId row source with ⟨_, -, -, heq⟩ | ⟨_, -, -, heq⟩ | heq
  · rw [heq]
    refine ⟨fun id h => ?_, fun _ _ h => by cases h⟩
    obtain ⟨_, _, _, h⟩ := h
    cases h
    cases hsource
  · rw [heq]
    exact quiet_failed ..
  · rw [heq]
    exact quiet_failed ..

theorem quiet_begin (request : CreateOrderRequest) : Quiet (begin_ request) := by
  unfold begin_
  split
  · refine ⟨fun id h => ?_, fun _ _ h => by cases h⟩
    obtain ⟨_, _, _, heq⟩ := h
    cases heq
  · exact quiet_failed ..

theorem quiet_lookup (tables : Tables) (request : CreateOrderRequest) (orderId userId : Int64) :
    Quiet (lookup tables request orderId userId) := by
  unfold lookup
  split
  · exact quiet_checkReceipt _ _ _ rfl
  · refine ⟨fun id h => ?_, fun _ _ h => by cases h⟩
    obtain ⟨_, _, _, heq⟩ := h
    cases heq

theorem quiet_readOriginal (tables : Tables) (request : CreateOrderRequest)
    (orderId userId : Int64) : Quiet (readOriginal tables request orderId userId) := by
  unfold readOriginal
  split
  · next row _ =>
    rcases checkOriginal_cases request orderId userId row with
      ⟨_, -, -, heq⟩ | ⟨_, -, -, heq⟩ | heq | ⟨_, heq⟩
    · rw [heq]
      refine ⟨fun id h => ?_, fun _ _ h => by cases h⟩
      obtain ⟨_, _, _, h⟩ := h
      cases h
    all_goals
      rw [heq]
      exact quiet_failed ..
  · refine ⟨fun id h => ?_, fun _ _ h => by cases h⟩
    obtain ⟨_, _, _, heq⟩ := h
    cases heq

theorem quiet_lookupAgain (tables : Tables) (request : CreateOrderRequest) (orderId : Int64) :
    Quiet (lookupAgain tables request orderId) := by
  unfold lookupAgain
  split
  · exact quiet_checkReceipt _ _ _ rfl
  · exact quiet_failed ..

theorem quiet_readWinner (tables : Tables) (request : CreateOrderRequest) (orderId : Int64) :
    Quiet (readWinner tables request orderId) := by
  unfold readWinner
  split
  · exact quiet_checkReceipt _ _ _ rfl
  · exact quiet_failed ..

/-- An insertion inserts its own key, or nothing. -/
theorem inserts_insert {numeric : ℕ → ℕ → Decimal → Option String} {tables : Tables}
    {acceptedAt : Timestamp} {request : CreateOrderRequest} {orderId userId : Int64}
    {original : StoredCommand} :
    (∀ id, (insert numeric tables acceptedAt request orderId userId original).inserts id →
        id = orderId) ∧
      ∀ r result, insert numeric tables acceptedAt request orderId userId original ≠
        .returned r result := by
  unfold insert
  split
  · refine ⟨fun id h => ?_, fun _ _ h => by cases h⟩
    obtain ⟨_, _, _, heq⟩ := h
    cases heq
  · split
    · next row _ =>
      rcases checkReceipt_cases request orderId row (.own row) with
        ⟨_, -, -, heq⟩ | ⟨_, -, -, heq⟩ | heq
      · rw [heq]
        refine ⟨fun id h => ?_, fun _ _ h => by cases h⟩
        obtain ⟨_, _, _, h⟩ := h
        cases h
        rfl
      all_goals
        rw [heq]
        exact ⟨fun id h => absurd h ((quiet_failed ..).1 id), (quiet_failed ..).2⟩
    · exact ⟨fun id h => absurd h ((quiet_failed ..).1 id), (quiet_failed ..).2⟩

/-! ## Steps -/

section Steps

variable {numeric : ℕ → ℕ → Decimal → Option String} {w : World}

@[simp] theorem World.set_tables (w : World) (c : ℕ) (call : Call) :
    (w.set c call).tables = w.tables := rfl

@[simp] theorem World.set_self (w : World) (c : ℕ) (call : Call) : (w.set c call).calls c = call :=
  Function.update_self ..

@[simp] theorem World.set_set (w : World) (c : ℕ) (call call' : Call) :
    (w.set c call).set c call' = w.set c call' := by
  simp only [World.set, Function.update_idem]

theorem World.set_of_ne (w : World) {c d : ℕ} (call : Call) (h : d ≠ c) :
    (w.set c call).calls d = w.calls d := Function.update_of_ne h ..

/-- One call changes and the rows do not. -/
theorem Inv.set (h : Inv w) {c : ℕ} {call : Call} (hcall : CallInv w.tables call)
    (hfree : ∀ orderId, call.inserts orderId → ∀ d, ¬ (w.calls d).inserts orderId)
    (hreturned : ∀ request result, call ≠ .returned request result) : Inv (w.set c call) := by
  refine ⟨h.receipts, h.submissions, fun d => ?_, fun d e orderId hd he => ?_,
    fun d e request request' result result' hd he hid hcreated hcreated' => ?_⟩
  · by_cases hdc : d = c
    · rw [hdc, World.set_self]
      exact hcall
    · rw [World.set_of_ne _ _ hdc]
      exact h.calls d
  · by_cases hdc : d = c
    · by_cases hec : e = c
      · rw [hdc, hec]
      · rw [hdc, World.set_self] at hd
        rw [World.set_of_ne _ _ hec] at he
        exact absurd he (hfree orderId hd e)
    · rw [World.set_of_ne _ _ hdc] at hd
      by_cases hec : e = c
      · rw [hec, World.set_self] at he
        exact absurd hd (hfree orderId he d)
      · rw [World.set_of_ne _ _ hec] at he
        exact h.single d e orderId hd he
  · by_cases hdc : d = c
    · rw [hdc, World.set_self] at hd
      exact absurd hd (hreturned _ _)
    · by_cases hec : e = c
      · rw [hec, World.set_self] at he
        exact absurd he (hreturned _ _)
      · rw [World.set_of_ne _ _ hdc] at hd
        rw [World.set_of_ne _ _ hec] at he
        exact h.created d e request request' result result' hd he hid hcreated hcreated'

theorem Inv.set_quiet (h : Inv w) {c : ℕ} {call : Call} (hcall : CallInv w.tables call)
    (hquiet : Quiet call) : Inv (w.set c call) :=
  h.set hcall (fun orderId hinserts => absurd hinserts (hquiet.1 orderId)) hquiet.2

/-- The platform keeps the compared fields of its submissions. -/
theorem Sound.mono {tables tables' : Tables} {orderId : Int64} {row : CommandRow}
    (h : Sound tables orderId row)
    (hsub : ∀ id s, tables.submissions id = some s →
      ∃ s', tables'.submissions id = some s' ∧ s'.key? = s.key?) : Sound tables' orderId row := by
  obtain ⟨s, hs, hkey⟩ := h.submitted
  obtain ⟨s', hs', hkey'⟩ := hsub orderId s hs
  exact ⟨h.id, h.positive, h.decodes, s', hs', hkey'.trans hkey⟩

theorem Inv.platform (h : Inv w) {tables : Tables} (hreceipts : tables.receipts = w.tables.receipts)
    (hsub : ∀ id s, w.tables.submissions id = some s →
      ∃ s', tables.submissions id = some s' ∧ s'.key? = s.key?)
    (hids : ∀ orderId row, tables.submissions orderId = some row → row.orderId = orderId) :
    Inv { w with tables } := by
  refine ⟨fun orderId row hrow => ?_, hids, fun c => ?_, h.single, h.created⟩
  · change tables.receipts orderId = some row at hrow
    rw [hreceipts] at hrow
    exact (h.receipts orderId row hrow).mono hsub
  · have hcall := h.calls c
    show CallInv tables (w.calls c)
    cases hc : w.calls c with
    | holding request orderId userId original =>
      rw [hc] at hcall
      obtain ⟨hid, hmatches, s, hs, hkey⟩ := hcall
      obtain ⟨s', hs', hkey'⟩ := hsub orderId s hs
      exact ⟨hid, hmatches, s', hs', hkey'.trans hkey⟩
    | found request orderId stored source =>
      rw [hc] at hcall
      cases source with
      | own row =>
        obtain ⟨hid, hmatches, hdecode, hnone, hsound⟩ := hcall
        exact ⟨hid, hmatches, hdecode, by rw [hreceipts]; exact hnone, hsound.mono hsub⟩
      | existing =>
        obtain ⟨hid, hmatches, row, hrow, hdecode⟩ := hcall
        exact ⟨hid, hmatches, row, by rw [hreceipts]; exact hrow, hdecode⟩
      | winner =>
        obtain ⟨hid, hmatches, row, hrow, hdecode⟩ := hcall
        exact ⟨hid, hmatches, row, by rw [hreceipts]; exact hrow, hdecode⟩
    | returned request result =>
      rw [hc] at hcall
      obtain ⟨orderId, row, stored, created, hid, hrow, hrest⟩ := hcall
      exact ⟨orderId, row, stored, created, hid, by rw [hreceipts]; exact hrow, hrest⟩
    | _ =>
      rw [hc] at hcall
      exact hcall

/-- A receipt that is new in the table, seen from a call that has not inserted it. -/
theorem CallInv.setReceipt {tables : Tables} {orderId : Int64} {row : CommandRow} {call : Call}
    (h : CallInv tables call) (hnone : tables.receipts orderId = none)
    (hother : ¬ call.inserts orderId) : CallInv (tables.setReceipt orderId row) call := by
  have hkeep : ∀ id row', tables.receipts id = some row' →
      (tables.setReceipt orderId row).receipts id = some row' := by
    intro id row' hrow
    have hne : id ≠ orderId := by
      rintro rfl
      rw [hnone] at hrow
      cases hrow
    exact (tables.setReceipt_of_ne row hne).trans hrow
  cases call with
  | found request id stored source =>
    cases source with
    | own row' =>
      obtain ⟨hid, hmatches, hdecode, hfree, hsound⟩ := h
      have hne : id ≠ orderId := by
        rintro rfl
        exact hother ⟨request, stored, row', rfl⟩
      exact ⟨hid, hmatches, hdecode, (tables.setReceipt_of_ne row hne).trans hfree,
        hsound.id, hsound.positive, hsound.decodes, hsound.submitted⟩
    | existing =>
      obtain ⟨hid, hmatches, row', hrow, hdecode⟩ := h
      exact ⟨hid, hmatches, row', hkeep id row' hrow, hdecode⟩
    | winner =>
      obtain ⟨hid, hmatches, row', hrow, hdecode⟩ := h
      exact ⟨hid, hmatches, row', hkeep id row' hrow, hdecode⟩
  | returned request result =>
    obtain ⟨id, row', stored, created, hid, hrow, hrest⟩ := h
    exact ⟨id, row', stored, created, hid, hkeep id row' hrow, hrest⟩
  | _ => exact h

/-- The end of a call that has inserted a receipt: it becomes visible. -/
theorem Inv.setReceipt (h : Inv w) {c : ℕ} {request : CreateOrderRequest} {orderId : Int64}
    {stored : StoredCommand} {row : CommandRow}
    (here : w.calls c = .found request orderId stored (.own row)) (refusal : Refusal) :
    Inv (World.set { w with tables := w.tables.setReceipt orderId row } c
      (.failed request refusal)) := by
  have hc := h.calls c
  rw [here] at hc
  obtain ⟨hid, hmatches, hdecode, hnone, hsound⟩ := hc
  have hinserts : (w.calls c).inserts orderId := ⟨request, stored, row, here⟩
  -- the other calls see a new receipt and nothing else
  have hothers : ∀ d, d ≠ c → CallInv (w.tables.setReceipt orderId row) (w.calls d) := by
    intro d hd
    exact (h.calls d).setReceipt hnone fun hdi => hd (h.single d c orderId hdi hinserts)
  refine ⟨fun id row' hrow => ?_, h.submissions, fun d => ?_, fun d e id hd he => ?_,
    fun d e r r' result result' hd he hr hcreated hcreated' => ?_⟩
  · by_cases hids : id = orderId
    · subst hids
      obtain rfl : row = row' := Option.some_inj.mp ((Tables.setReceipt_self ..).symm.trans hrow)
      exact ⟨hsound.id, hsound.positive, hsound.decodes, hsound.submitted⟩
    · have hold := h.receipts id row' ((w.tables.setReceipt_of_ne row hids).symm.trans hrow)
      exact ⟨hold.id, hold.positive, hold.decodes, hold.submitted⟩
  · by_cases hdc : d = c
    · rw [hdc, World.set_self]
      trivial
    · rw [World.set_of_ne _ _ hdc]
      exact hothers d hdc
  · by_cases hdc : d = c
    · rw [hdc, World.set_self] at hd
      exact absurd hd ((quiet_failed ..).1 id)
    · by_cases hec : e = c
      · rw [hec, World.set_self] at he
        exact absurd he ((quiet_failed ..).1 id)
      · rw [World.set_of_ne _ _ hdc] at hd
        rw [World.set_of_ne _ _ hec] at he
        exact h.single d e id hd he
  · by_cases hdc : d = c
    · rw [hdc, World.set_self] at hd
      cases hd
    · by_cases hec : e = c
      · rw [hec, World.set_self] at he
        cases he
      · rw [World.set_of_ne _ _ hdc] at hd
        rw [World.set_of_ne _ _ hec] at he
        exact h.created d e r r' result result' hd he hr hcreated hcreated'

/-- A call that has ended returns the receipt.  It may say that it has created it if no other
call has said so. -/
theorem Inv.returned (h : Inv w) {c : ℕ} {request : CreateOrderRequest} {orderId : Int64}
    {stored : StoredCommand} {row : CommandRow} {created : Bool}
    (hid : request.orderId.bind bigint = some orderId)
    (hrow : w.tables.receipts orderId = some row) (hdecode : row.decode = .ok stored)
    (hmatches : stored.Matches request)
    (hfirst : created = true → ∀ d, d ≠ c → ∀ r result, w.calls d = .returned r result →
      r.orderId = request.orderId → result.created = false) :
    Inv (w.set c (.returned request (stored.result created))) := by
  refine ⟨h.receipts, h.submissions, fun d => ?_, fun d e id hd he => ?_,
    fun d e r r' result result' hd he hr hcreated hcreated' => ?_⟩
  · by_cases hdc : d = c
    · rw [hdc, World.set_self]
      exact ⟨orderId, row, stored, created, hid, hrow, hdecode, hmatches, rfl⟩
    · rw [World.set_of_ne _ _ hdc]
      exact h.calls d
  · have hnot : ∀ d, (w.set c (.returned request (stored.result created))).calls d |>.inserts id →
        d ≠ c := by
      rintro d hd rfl
      rw [World.set_self] at hd
      obtain ⟨_, _, _, heq⟩ := hd
      cases heq
    have hdc := hnot d hd
    have hec := hnot e he
    rw [World.set_of_ne _ _ hdc] at hd
    rw [World.set_of_ne _ _ hec] at he
    exact h.single d e id hd he
  · by_cases hdc : d = c
    · by_cases hec : e = c
      · rw [hdc, hec]
      · rw [hdc, World.set_self] at hd
        cases hd
        rw [World.set_of_ne _ _ hec] at he
        rw [hfirst hcreated e hec r' result' he hr.symm] at hcreated'
        cases hcreated'
    · rw [World.set_of_ne _ _ hdc] at hd
      by_cases hec : e = c
      · rw [hec, World.set_self] at he
        cases he
        rw [hfirst hcreated' d hdc r result hd hr] at hcreated
        cases hcreated
      · rw [World.set_of_ne _ _ hec] at he
        exact h.created d e r r' result result' hd he hr hcreated hcreated'

/-- **Every step keeps the invariant.** -/
theorem Step.inv {w' : World} (step : Step numeric w w') (h : Inv w) : Inv w' := by
  cases step with
  | begin_ request here =>
    exact h.set_quiet (callInv_begin _ request) (quiet_begin request)
  | @lookup c request orderId userId here =>
    have hc := h.calls c
    rw [here] at hc
    exact h.set_quiet (callInv_lookup hc) (quiet_lookup ..)
  | @readOriginal c request orderId userId here =>
    have hc := h.calls c
    rw [here] at hc
    exact h.set_quiet (callInv_readOriginal hc) (quiet_readOriginal ..)
  | @lookupAgain c request orderId userId here =>
    have hc := h.calls c
    rw [here] at hc
    exact h.set_quiet (callInv_lookupAgain hc.1) (quiet_lookupAgain ..)
  | @insert c request orderId userId original acceptedAt here free =>
    have hc := h.calls c
    rw [here] at hc
    refine h.set (callInv_insert hc) (fun id hinserts => ?_) inserts_insert.2
    obtain rfl := inserts_insert.1 id hinserts
    exact free
  | @readWinner c request orderId userId here =>
    have hc := h.calls c
    rw [here] at hc
    exact h.set_quiet (callInv_readWinner hc.1) (quiet_readWinner ..)
  | @commit c request orderId stored source told here =>
    have hc := h.calls c
    rw [here] at hc
    cases source with
    | own row =>
      have hfailed := h.setReceipt here .database
      obtain ⟨hid, hmatches, hdecode, hnone, -⟩ := hc
      cases told with
      | false => exact hfailed
      | true =>
        -- no other call has returned a receipt of this order: there was none
        have hfirst : ∀ d, d ≠ c → ∀ r result,
            (World.set { w with tables := w.tables.setReceipt orderId row } c
              (.failed request .database)).calls d = .returned r result →
            r.orderId = request.orderId → result.created = false := by
          intro d hd r result hreturned hr
          rw [World.set_of_ne _ _ hd] at hreturned
          have hcall := h.calls d
          rw [show w.calls d = _ from hreturned] at hcall
          obtain ⟨id, row', -, -, hid', hrow', -⟩ := hcall
          rw [hr, hid, Option.some_inj] at hid'
          rw [← hid', hnone] at hrow'
          cases hrow'
        have hreturned : Inv ((World.set { w with tables := w.tables.setReceipt orderId row } c
            (.failed request .database)).set c (.returned request (stored.result true))) :=
          hfailed.returned hid (w.tables.setReceipt_self orderId row) hdecode hmatches fun _ => hfirst
        rwa [World.set_set] at hreturned
    | existing =>
      obtain ⟨hid, hmatches, row, hrow, hdecode⟩ := hc
      cases told with
      | false =>
        show Inv (w.set c (.failed request .database))
        exact h.set_quiet trivial (quiet_failed ..)
      | true => exact h.returned hid hrow hdecode hmatches fun hcreated => by cases hcreated
    | winner =>
      obtain ⟨hid, hmatches, row, hrow, hdecode⟩ := hc
      cases told with
      | false =>
        show Inv (w.set c (.failed request .database))
        exact h.set_quiet trivial (quiet_failed ..)
      | true => exact h.returned hid hrow hdecode hmatches fun hcreated => by cases hcreated
  | rollback running => exact h.set_quiet trivial (quiet_failed ..)
  | @submit orderId submission order new =>
    refine h.platform rfl (fun id s hs => ⟨s, ?_, rfl⟩) fun id row hrow => ?_
    · have hne : id ≠ orderId := by
        rintro rfl
        rw [new] at hs
        cases hs
      exact (w.tables.setSubmission_of_ne _ hne).trans hs
    · by_cases hid : id = orderId
      · subst hid
        obtain rfl := Option.some_inj.mp ((w.tables.setSubmission_self id _).symm.trans hrow)
        rfl
      · exact h.submissions id row ((w.tables.setSubmission_of_ne _ hid).symm.trans hrow)
  | progress order unlocked => exact h.platform rfl (fun id s hs => ⟨s, hs, rfl⟩) h.submissions
  | @reprice orderId submission feeRate stored unlocked =>
    refine h.platform rfl (fun id s hs => ?_) fun id row hrow => ?_
    · by_cases hid : id = orderId
      · subst hid
        rw [stored, Option.some_inj] at hs
        refine ⟨_, w.tables.setSubmission_self id _, ?_⟩
        rw [← hs]
        rfl
      · exact ⟨s, (w.tables.setSubmission_of_ne _ hid).trans hs, rfl⟩
    · by_cases hid : id = orderId
      · subst hid
        obtain rfl := Option.some_inj.mp ((w.tables.setSubmission_self id _).symm.trans hrow)
        exact h.submissions id submission stored
      · exact h.submissions id row ((w.tables.setSubmission_of_ne _ hid).symm.trans hrow)

theorem inv_of_initial (h : w.Initial) : Inv w := by
  refine ⟨fun id row hrow => ?_, h.submissions, fun c => ?_, fun c d id hc _ => ?_,
    fun c d r r' result result' hc => ?_⟩
  · rw [h.receipts] at hrow
    cases hrow
  · rw [h.idle]
    trivial
  · rw [h.idle] at hc
    obtain ⟨_, _, _, heq⟩ := hc
    cases heq
  · rw [h.idle] at hc
    cases hc

/-- **The invariant holds in every interleaving.** -/
theorem Reachable.inv {start : World} (h : Reachable numeric start w) (initial : start.Initial) :
    Inv w := by
  induction h with
  | start => exact inv_of_initial initial
  | step reached step ih => exact step.inv ih

/-! ## Refusals -/

/-- A receipt that equals a request is under the identifier of the request. -/
theorem Inv.identified (h : Inv w) {id : Int64} {row : CommandRow} {stored : StoredCommand}
    {request : CreateOrderRequest} (hrow : w.tables.receipts id = some row)
    (hdecode : row.decode = .ok stored) (hmatches : stored.Matches request) :
    request.orderId.bind bigint = some id ∧ ∃ userId, bigint request.userId = some userId := by
  have hsound := h.receipts id row hrow
  obtain ⟨-, hid, huser⟩ := CommandRow.decode_ok hdecode
  obtain ⟨horder, hrequester, -⟩ := hmatches
  refine ⟨?_, row.userId, ?_⟩
  · rw [← horder, hid, hsound.id, Option.bind_some]
    exact bigint_toUInt64 hsound.positive.1
  · rw [← hrequester, huser]
    exact bigint_toUInt64 hsound.positive.2

/-- The receipt of an order, if there is one, is not that of a request. -/
def Refuted (tables : Tables) (request : CreateOrderRequest) (orderId : Int64) : Prop :=
  ∀ row stored, tables.receipts orderId = some row → row.decode = .ok stored →
    ¬ stored.Matches request

/-- A refusal is an error other than one of the database. -/
def Refuses (call : Call) (request : CreateOrderRequest) : Prop :=
  call = .failed request .invalid ∨ call = .failed request .conflict

theorem refuted_of_none {tables : Tables} {request : CreateOrderRequest} {orderId : Int64}
    (h : tables.receipts orderId = none) : Refuted tables request orderId := by
  intro row stored hrow
  rw [h] at hrow
  cases hrow

/-- A call that ends at a receipt, because the receipt is another. -/
theorem checkReceipt_refuses {request r : CreateOrderRequest} {orderId : Int64} {row : CommandRow}
    {source : Source} (h : Refuses (checkReceipt request orderId row source) r) :
    r = request ∧ ∀ stored, row.decode = .ok stored → ¬ stored.Matches request := by
  rcases checkReceipt_cases request orderId row source with
    ⟨_, -, -, heq⟩ | ⟨existing, hexisting, hconflict, heq⟩ | heq
  · rw [heq] at h
    rcases h with h | h <;> cases h
  · rw [heq] at h
    rcases h with h | h
    · cases h
    · cases h
      refine ⟨rfl, fun stored hdecode => ?_⟩
      rw [hexisting, Except.ok.injEq] at hdecode
      rwa [← hdecode]
  · rw [heq] at h
    rcases h with h | h <;> cases h

theorem refuted_of_refuses {tables : Tables} {request r : CreateOrderRequest} {orderId : Int64}
    {row : CommandRow} {source : Source} (hrow : tables.receipts orderId = some row)
    (h : Refuses (checkReceipt request orderId row source) r) :
    r = request ∧ Refuted tables request orderId := by
  obtain ⟨rfl, hconflict⟩ := checkReceipt_refuses h
  refine ⟨rfl, fun row' stored hrow' hdecode => ?_⟩
  rw [hrow, Option.some_inj] at hrow'
  exact hconflict stored (hrow' ▸ hdecode)

theorem lookup_refuses {tables : Tables} {request r : CreateOrderRequest} {orderId userId : Int64}
    (h : Refuses (lookup tables request orderId userId) r) :
    r = request ∧ Refuted tables request orderId := by
  unfold lookup at h
  cases hrow : tables.receipts orderId with
  | some row =>
    rw [hrow] at h
    exact refuted_of_refuses hrow h
  | none =>
    rw [hrow] at h
    rcases h with h | h <;> cases h

/-- The receipt has the compared fields of the original, so a request that differs from one
differs from the other. -/
theorem readOriginal_refuses (hinv : Inv w) {request r : CreateOrderRequest}
    {orderId userId : Int64} (h : Refuses (readOriginal w.tables request orderId userId) r) :
    r = request ∧ Refuted w.tables request orderId := by
  unfold readOriginal at h
  cases horiginal : original w.tables orderId userId with
  | none =>
    rw [horiginal] at h
    rcases h with h | h <;> cases h
  | some s =>
    rw [horiginal] at h
    change Refuses (checkOriginal request orderId userId s) r at h
    rcases checkOriginal_cases request orderId userId s with
      ⟨_, -, -, heq⟩ | ⟨original, hdecode, hconflict, heq⟩ | heq | ⟨_, heq⟩
    · rw [heq] at h
      rcases h with h | h <;> cases h
    · rw [heq] at h
      rcases h with h | h
      · cases h
      · cases h
        refine ⟨rfl, fun row stored hrow hstored hmatches => hconflict ?_⟩
        obtain ⟨s', hs', hkey⟩ := (hinv.receipts orderId row hrow).submitted
        rw [original_submission horiginal, Option.some_inj] at hs'
        rw [← hs', (CommandRow.decode_ok hdecode).1, (CommandRow.decode_ok hstored).1,
          Option.some_inj] at hkey
        rw [matches_iff, hkey]
        exact matches_iff.mp hmatches
    · rw [heq] at h
      rcases h with h | h <;> cases h
    · rw [heq] at h
      rcases h with h | h <;> cases h

theorem lookupAgain_refuses {tables : Tables} {request r : CreateOrderRequest} {orderId : Int64}
    (h : Refuses (lookupAgain tables request orderId) r) :
    r = request ∧ Refuted tables request orderId := by
  unfold lookupAgain at h
  cases hrow : tables.receipts orderId with
  | some row =>
    rw [hrow] at h
    exact refuted_of_refuses hrow h
  | none =>
    rw [hrow] at h
    refine ⟨?_, refuted_of_none hrow⟩
    rcases h with h | h
    · cases h
      rfl
    · cases h

theorem insert_refuses {tables : Tables} {request r : CreateOrderRequest} {orderId userId : Int64}
    {original : StoredCommand} {acceptedAt : Timestamp}
    (h : Refuses (insert numeric tables acceptedAt request orderId userId original) r) :
    r = request ∧ Refuted tables request orderId := by
  unfold insert at h
  cases hrow : tables.receipts orderId with
  | some row =>
    rw [hrow] at h
    rcases h with h | h <;> cases h
  | none =>
    refine ⟨?_, refuted_of_none hrow⟩
    rw [hrow] at h
    cases hnew : receiptRow numeric orderId userId original acceptedAt with
    | none =>
      rw [hnew] at h
      rcases h with h | h <;> cases h
    | some row =>
      rw [hnew] at h
      exact (checkReceipt_refuses h).1

theorem readWinner_refuses {tables : Tables} {request r : CreateOrderRequest} {orderId : Int64}
    (h : Refuses (readWinner tables request orderId) r) :
    r = request ∧ Refuted tables request orderId := by
  unfold readWinner at h
  cases hrow : tables.receipts orderId with
  | some row =>
    rw [hrow] at h
    exact refuted_of_refuses hrow h
  | none =>
    rw [hrow] at h
    rcases h with h | h <;> cases h

theorem begin_refuses {request r : CreateOrderRequest} (h : Refuses (begin_ request) r) :
    r = request ∧ ¬ ∃ orderId userId, Identified request orderId userId := by
  unfold begin_ at h
  split at h
  · rcases h with h | h <;> cases h
  · next hnone =>
    refine ⟨?_, fun ⟨orderId, userId, hid, huser⟩ => hnone orderId userId hid huser⟩
    rcases h with h | h
    · cases h
      rfl
    · cases h

theorem World.eq_of_changed {w : World} {c d : ℕ} {call : Call}
    (h : (w.set d call).calls c ≠ w.calls c) : c = d := by
  by_contra hne
  exact h (World.set_of_ne w call hne)

/-- **A call is refused only while no receipt equals its request.** -/
theorem Step.refused {w' : World} {c : ℕ} {request : CreateOrderRequest}
    (step : Step numeric w w') (h : Inv w) (hchanged : w'.calls c ≠ w.calls c)
    (hrefuses : Refuses (w'.calls c) request) {id : Int64} {row : CommandRow}
    {stored : StoredCommand} (hrow : w.tables.receipts id = some row)
    (hdecode : row.decode = .ok stored) : ¬ stored.Matches request := by
  intro hmatches
  obtain ⟨hid, userId', huser⟩ := h.identified hrow hdecode hmatches
  -- the order of a refused call is that of the receipt
  have hcase : ∀ {r : CreateOrderRequest} {orderId : Int64},
      r.orderId.bind bigint = some orderId → request = r ∧ Refuted w.tables r orderId → False := by
    rintro r orderId hr ⟨rfl, hrefuted⟩
    have heq : id = orderId := Option.some_inj.mp (hid.symm.trans hr)
    exact hrefuted row stored (heq ▸ hrow) hdecode hmatches
  have hdatabase : ∀ r, ¬ Refuses (.failed r .database) request := by
    rintro r (hr | hr) <;> cases hr
  cases step with
  | @begin_ d r here =>
    obtain rfl := World.eq_of_changed hchanged
    rw [World.set_self] at hrefuses
    obtain ⟨rfl, hnone⟩ := begin_refuses hrefuses
    exact hnone ⟨id, userId', hid, huser⟩
  | @lookup d r orderId userId here =>
    obtain rfl := World.eq_of_changed hchanged
    have hc := h.calls c
    rw [here] at hc
    rw [World.set_self] at hrefuses
    exact hcase hc.1 (lookup_refuses hrefuses)
  | @readOriginal d r orderId userId here =>
    obtain rfl := World.eq_of_changed hchanged
    have hc := h.calls c
    rw [here] at hc
    rw [World.set_self] at hrefuses
    exact hcase hc.1 (readOriginal_refuses h hrefuses)
  | @lookupAgain d r orderId userId here =>
    obtain rfl := World.eq_of_changed hchanged
    have hc := h.calls c
    rw [here] at hc
    rw [World.set_self] at hrefuses
    exact hcase hc.1 (lookupAgain_refuses hrefuses)
  | @insert d r orderId userId original acceptedAt here free =>
    obtain rfl := World.eq_of_changed hchanged
    have hc := h.calls c
    rw [here] at hc
    rw [World.set_self] at hrefuses
    exact hcase hc.1.1 (insert_refuses hrefuses)
  | @readWinner d r orderId userId here =>
    obtain rfl := World.eq_of_changed hchanged
    have hc := h.calls c
    rw [here] at hc
    rw [World.set_self] at hrefuses
    exact hcase hc.1 (readWinner_refuses hrefuses)
  | @commit d r orderId found source told here =>
    obtain rfl : c = d := by
      by_contra hne
      exact hchanged (World.set_of_ne _ _ hne)
    rw [World.set_self] at hrefuses
    cases told with
    | false => exact hdatabase r hrefuses
    | true => rcases hrefuses with hr | hr <;> cases hr
  | @rollback d r running =>
    obtain rfl := World.eq_of_changed hchanged
    rw [World.set_self] at hrefuses
    exact hdatabase r hrefuses
  | submit submission order new => exact hchanged rfl
  | progress order unlocked => exact hchanged rfl
  | reprice feeRate submitted unlocked => exact hchanged rfl

theorem checkReceipt_ne_fee (request r : CreateOrderRequest) (orderId : Int64) (row : CommandRow)
    (source : Source) (fault : Fault) :
    checkReceipt request orderId row source ≠ .failed r (.fee fault) := by
  intro h
  rcases checkReceipt_cases request orderId row source with
    ⟨_, -, -, heq⟩ | ⟨_, -, -, heq⟩ | heq
  all_goals
    rw [heq] at h
    cases h

/-- The only statement that looks at the rate of the platform. -/
theorem checkOriginal_fee {request r : CreateOrderRequest} {orderId userId : Int64}
    {row : CommandRow} {fault : Fault}
    (h : checkOriginal request orderId userId row = .failed r (.fee fault)) :
    request = r ∧ ∃ original, row.decode = .ok original ∧
      fee Decimal.ZERO original.feeRate = .error fault := by
  unfold checkOriginal at h
  cases hdecode : row.decode with
  | error e =>
    rw [hdecode] at h
    cases h
  | ok original =>
    simp only [hdecode] at h
    split at h
    · cases hfee : fee Decimal.ZERO original.feeRate with
      | ok value =>
        rw [hfee] at h
        cases h
      | error fault' =>
        rw [hfee] at h
        cases h
        exact ⟨rfl, original, rfl, hfee⟩
    · cases h

/-- **The rate stops a call only if the platform has stored an inadmissible one.** -/
theorem Step.fee_refused {w' : World} {c : ℕ} {request : CreateOrderRequest} {fault : Fault}
    (step : Step numeric w w') (h : Inv w) (hchanged : w'.calls c ≠ w.calls c)
    (hfailed : w'.calls c = .failed request (.fee fault)) :
    ∃ id s original, request.orderId.bind bigint = some id ∧ w.tables.submissions id = some s ∧
      s.decode = .ok original ∧ fee Decimal.ZERO original.feeRate = .error fault := by
  cases step with
  | @readOriginal d r orderId userId here =>
    obtain rfl := World.eq_of_changed hchanged
    have hc := h.calls c
    rw [here] at hc
    rw [World.set_self, OrderReceipt.readOriginal] at hfailed
    cases horiginal : original w.tables orderId userId with
    | none =>
      rw [horiginal] at hfailed
      cases hfailed
    | some s =>
      rw [horiginal] at hfailed
      obtain ⟨rfl, original, hdecode, hfee⟩ := checkOriginal_fee hfailed
      exact ⟨orderId, s, original, hc.1, original_submission horiginal, hdecode, hfee⟩
  | @begin_ d r here =>
    obtain rfl := World.eq_of_changed hchanged
    rw [World.set_self, OrderReceipt.begin_] at hfailed
    split at hfailed <;> cases hfailed
  | @lookup d r orderId userId here =>
    obtain rfl := World.eq_of_changed hchanged
    rw [World.set_self, OrderReceipt.lookup] at hfailed
    split at hfailed
    · exact (checkReceipt_ne_fee _ _ _ _ _ _ hfailed).elim
    · cases hfailed
  | @lookupAgain d r orderId userId here =>
    obtain rfl := World.eq_of_changed hchanged
    rw [World.set_self, OrderReceipt.lookupAgain] at hfailed
    split at hfailed
    · exact (checkReceipt_ne_fee _ _ _ _ _ _ hfailed).elim
    · cases hfailed
  | @insert d r orderId userId original acceptedAt here free =>
    obtain rfl := World.eq_of_changed hchanged
    rw [World.set_self, OrderReceipt.insert] at hfailed
    split at hfailed
    · cases hfailed
    · split at hfailed
      · exact (checkReceipt_ne_fee _ _ _ _ _ _ hfailed).elim
      · cases hfailed
  | @readWinner d r orderId userId here =>
    obtain rfl := World.eq_of_changed hchanged
    rw [World.set_self, OrderReceipt.readWinner] at hfailed
    split at hfailed
    · exact (checkReceipt_ne_fee _ _ _ _ _ _ hfailed).elim
    · cases hfailed
  | @commit d r orderId found source told here =>
    obtain rfl : c = d := by
      by_contra hne
      exact hchanged (World.set_of_ne _ _ hne)
    rw [World.set_self] at hfailed
    cases told <;> cases hfailed
  | @rollback d r running =>
    obtain rfl := World.eq_of_changed hchanged
    rw [World.set_self] at hfailed
    cases hfailed
  | submit submission order new => exact absurd rfl hchanged
  | progress order unlocked => exact absurd rfl hchanged
  | reprice feeRate submitted unlocked => exact absurd rfl hchanged

/-! ## Acceptance -/

/-- The call has succeeded, or it has inserted a receipt. -/
def Accepts (call : Call) (request : CreateOrderRequest) : Prop :=
  (∃ result, call = .returned request result) ∨
    ∃ orderId stored row, call = .found request orderId stored (.own row)

/-- The receipt of a request that was accepted, or is about to be, and the original have the
same compared fields. -/
theorem Inv.accepts (h : Inv w) {c : ℕ} {request : CreateOrderRequest} {id : Int64}
    (haccepts : Accepts (w.calls c) request) (hid : request.orderId.bind bigint = some id) :
    (∀ row stored, w.tables.receipts id = some row → row.decode = .ok stored →
        stored.Matches request) ∧
      ∃ s, w.tables.submissions id = some s ∧ s.key? = some (requestKey request) := by
  have hc := h.calls c
  rcases haccepts with ⟨result, heq⟩ | ⟨orderId, stored, row, heq⟩
  · rw [heq] at hc
    obtain ⟨orderId, row, stored, created, horder, hrow, hdecode, hmatches, -⟩ := hc
    obtain rfl : id = orderId := Option.some_inj.mp (hid.symm.trans horder)
    refine ⟨fun row' stored' hrow' hdecode' => ?_, ?_⟩
    · rw [hrow, Option.some_inj] at hrow'
      rw [← hrow', hdecode, Except.ok.injEq] at hdecode'
      rwa [← hdecode']
    · obtain ⟨s, hs, hkey⟩ := (h.receipts id row hrow).submitted
      exact ⟨s, hs, by rw [hkey, (CommandRow.decode_ok hdecode).1, matches_iff.mp hmatches]⟩
  · rw [heq] at hc
    obtain ⟨horder, hmatches, hdecode, hnone, hsound⟩ := hc
    obtain rfl : id = orderId := Option.some_inj.mp (hid.symm.trans horder)
    refine ⟨fun row' stored' hrow' => ?_, ?_⟩
    · rw [hnone] at hrow'
      cases hrow'
    · obtain ⟨s, hs, hkey⟩ := hsound.submitted
      exact ⟨s, hs, by rw [hkey, (CommandRow.decode_ok hdecode).1, matches_iff.mp hmatches]⟩

/-- Two calls for one order that have succeeded return one receipt. -/
theorem Inv.same_receipt (h : Inv w) {c d : ℕ} {r r' : CreateOrderRequest}
    {result result' : AcceptanceResult} (hc : w.calls c = .returned r result)
    (hd : w.calls d = .returned r' result') (hr : r.orderId = r'.orderId) :
    result.feeRate = result'.feeRate ∧ result.receipt = result'.receipt := by
  have hcallc := h.calls c
  have hcalld := h.calls d
  rw [hc] at hcallc
  rw [hd] at hcalld
  obtain ⟨id, row, stored, created, hid, hrow, hdecode, -, rfl⟩ := hcallc
  obtain ⟨id', row', stored', created', hid', hrow', hdecode', -, rfl⟩ := hcalld
  rw [hr, hid', Option.some_inj] at hid
  subst hid
  rw [hrow', Option.some_inj] at hrow
  subst hrow
  rw [hdecode', Except.ok.injEq] at hdecode
  subst hdecode
  exact ⟨rfl, rfl⟩

/-- What the calls for an order have in common. -/
structure Agreement (numeric : ℕ → ℕ → Decimal → Option String) (w : World) : Prop where
  /-- One call creates the receipt. -/
  creator : ∀ c d r r' result result', w.calls c = .returned r result →
    w.calls d = .returned r' result' → r.orderId = r'.orderId →
    result.created = true → result'.created = true → c = d
  /-- All calls return the same rate and the same time. -/
  agreed : ∀ c d r r' result result', w.calls c = .returned r result →
    w.calls d = .returned r' result' → r.orderId = r'.orderId →
    result.feeRate = result'.feeRate ∧ result.receipt.acceptedAt = result'.receipt.acceptedAt
  /-- A request that has succeeded equals the receipt. -/
  stored : ∀ c r result, w.calls c = .returned r result → ∃ id row stored,
    r.orderId.bind bigint = some id ∧ w.tables.receipts id = some row ∧
    row.decode = .ok stored ∧ stored.Matches r ∧ result = stored.result result.created
  /-- A request that differs from the receipt or from the original does not succeed, and a
  call with it inserts nothing. -/
  differs : ∀ c r id row stored, r.orderId.bind bigint = some id →
    (w.tables.receipts id = some row ∨ w.tables.submissions id = some row) →
    row.decode = .ok stored → ¬ stored.Matches r → ¬ Accepts (w.calls c) r
  /-- A request that equals the receipt is not refused, whatever the order has become. -/
  refused : ∀ w' c r id row stored, Step numeric w w' → w'.calls c ≠ w.calls c →
    w.tables.receipts id = some row → row.decode = .ok stored → stored.Matches r →
    w'.calls c ≠ .failed r .invalid ∧ w'.calls c ≠ .failed r .conflict
  /-- A rate that is refused is one that the platform has stored. -/
  priced : ∀ w' c r fault, Step numeric w w' → w'.calls c ≠ w.calls c →
    w'.calls c = .failed r (.fee fault) → ∃ id s original, r.orderId.bind bigint = some id ∧
    w.tables.submissions id = some s ∧ s.decode = .ok original ∧
    fee Decimal.ZERO original.feeRate = .error fault

/-- **Concurrent calls agree on the receipt of an order**, in every interleaving of their
statements with each other, with rollbacks and with the changes of the platform. -/
theorem acceptance_agreement {start : World} (initial : start.Initial)
    (h : Reachable numeric start w) : Agreement numeric w := by
  have hinv := h.inv initial
  refine ⟨hinv.created, fun c d r r' result result' hc hd hr => ?_, fun c r result hc => ?_,
    fun c r id row stored hid hrow hdecode hdiffers haccepts => ?_,
    fun w' c r id row stored step hchanged hrow hdecode hmatches => ?_,
    fun w' c r fault step hchanged hfailed => step.fee_refused hinv hchanged hfailed⟩
  · obtain ⟨hrate, hreceipt⟩ := hinv.same_receipt hc hd hr
    exact ⟨hrate, by rw [hreceipt]⟩
  · have hcall := hinv.calls c
    rw [hc] at hcall
    obtain ⟨id, row, stored, created, hid, hrow, hdecode, hmatches, rfl⟩ := hcall
    exact ⟨id, row, stored, hid, hrow, hdecode, hmatches, rfl⟩
  · obtain ⟨hreceipt, s, hs, hkey⟩ := hinv.accepts haccepts hid
    rcases hrow with hrow | hrow
    · exact hdiffers (hreceipt row stored hrow hdecode)
    · rw [hrow, Option.some_inj] at hs
      rw [← hs, (CommandRow.decode_ok hdecode).1, Option.some_inj] at hkey
      exact hdiffers (matches_iff.mpr hkey)
  · exact ⟨fun hfailed => step.refused hinv hchanged (.inl hfailed) hrow hdecode hmatches,
      fun hfailed => step.refused hinv hchanged (.inr hfailed) hrow hdecode hmatches⟩

/-! ## A run -/

/-- A non-negative amount that fits the scale of its column, as the column shows it. -/
def sampleNumeric (_precision scale : ℕ) (value : Decimal) : Option String :=
  some (String.ofList (DigitText.pointText (value.mantissa * 10 ^ (scale - value.scale)) scale))

def sampleRequest : CreateOrderRequest :=
  ⟨some 1, 101, "buy", "limit", "SOL", some "USDT", some (.ofScaled 100 0),
    some (.ofScaled 2 0), none⟩

/-- A request for the same order with another amount. -/
def sampleOther : CreateOrderRequest := { sampleRequest with amount := some (.ofScaled 3 0) }

def sampleRow (acceptedAt : Timestamp) : CommandRow :=
  ⟨1, 101, "buy", "limit", "SOL", "USDT", some "100.000000000", some "2.000000000", none,
    some "0.000100", acceptedAt⟩

def sampleStored (acceptedAt : Timestamp) : StoredCommand :=
  ⟨.ofScaled 1 4, 1, 101, "buy", "limit", "SOL", "USDT", some (.ofScaled 100 0),
    some (.ofScaled 2 0), none, acceptedAt⟩

/-- One open order. -/
def sampleTables : Tables :=
  (Tables.setSubmission ⟨fun _ => none, fun _ => none, fun _ => none⟩ 1 (sampleRow 0)).setOrder 1
    ⟨101, "pending", 0⟩

/-- Three calls. -/
def sampleWorld (tables : Tables) (first second third : Call) : World :=
  ⟨tables, fun n => ([first, second, third][n]?).getD .idle⟩

def sampleStart : World := sampleWorld sampleTables .idle .idle .idle

/-- Two calls for the order, and one with another amount. -/
def sampleBegun : World :=
  sampleWorld sampleTables (.begun sampleRequest 1 101) (.begun sampleRequest 1 101)
    (.begun sampleOther 1 101)

/-- The calls have ended. -/
def sampleEnd : World :=
  sampleWorld (sampleTables.setReceipt 1 (sampleRow 7))
    (.returned sampleRequest ⟨⟨"1", "101", "accepted", 7⟩, true, .ofScaled 1 4⟩)
    (.returned sampleRequest ⟨⟨"1", "101", "accepted", 7⟩, false, .ofScaled 1 4⟩)
    (.failed sampleOther .conflict)

section Run

variable {tables : Tables} {first second third : Call}

theorem sampleWorld_set_zero (call : Call) : (sampleWorld tables first second third).set 0 call =
    sampleWorld tables call second third := by
  refine congrArg (World.mk tables) (funext fun n => ?_)
  rcases n with _ | _ | _ | n <;> rfl

theorem sampleWorld_set_one (call : Call) : (sampleWorld tables first second third).set 1 call =
    sampleWorld tables first call third := by
  refine congrArg (World.mk tables) (funext fun n => ?_)
  rcases n with _ | _ | _ | n <;> rfl

theorem sampleWorld_set_two (call : Call) : (sampleWorld tables first second third).set 2 call =
    sampleWorld tables first second call := by
  refine congrArg (World.mk tables) (funext fun n => ?_)
  rcases n with _ | _ | _ | n <;> rfl

/-- No key is inserted by three calls that insert none. -/
theorem sampleWorld_free (hfirst : ¬ first.inserts 1) (hsecond : ¬ second.inserts 1)
    (hthird : ¬ third.inserts 1) (d : ℕ) :
    ¬ ((sampleWorld tables first second third).calls d).inserts 1 := by
  rcases d with _ | _ | _ | d
  · exact hfirst
  · exact hsecond
  · exact hthird
  · rintro ⟨_, _, _, hd⟩
    cases hd

end Run

theorem sampleStart_initial : sampleStart.Initial := by
  refine ⟨fun _ => rfl, fun id row hrow => ?_, fun c => ?_⟩
  · by_cases hid : id = 1
    · subst hid
      have hrow' : some (sampleRow 0) = some row := hrow
      rw [← Option.some_inj.mp hrow']
      rfl
    · have hnone := (Tables.setSubmission_of_ne _ _ hid).symm.trans hrow
      cases hnone
  · rcases c with _ | _ | _ | c <;> rfl

theorem sampleRow_decode (acceptedAt : Timestamp) :
    (sampleRow acceptedAt).decode = .ok (sampleStored acceptedAt) := rfl

theorem sampleStored_matches (acceptedAt : Timestamp) :
    (sampleStored acceptedAt).Matches sampleRequest :=
  ⟨rfl, rfl, rfl, rfl, rfl, rfl, rfl, rfl, rfl⟩

theorem checkReceipt_sample (source : Source) (acceptedAt : Timestamp) :
    checkReceipt sampleRequest 1 (sampleRow acceptedAt) source =
      .found sampleRequest 1 (sampleStored acceptedAt) source := by
  rw [checkReceipt, sampleRow_decode]
  exact if_pos (sampleStored_matches acceptedAt)

theorem readOriginal_sample :
    readOriginal sampleTables sampleRequest 1 101 = .holding sampleRequest 1 101 (sampleStored 0) := by
  have horiginal : original sampleTables 1 101 = some (sampleRow 0) := by decide +kernel
  rw [readOriginal, horiginal]
  show checkOriginal sampleRequest 1 101 (sampleRow 0) = _
  have hfee : fee Decimal.ZERO (sampleStored 0).feeRate = .ok Decimal.ZERO := rfl
  rw [checkOriginal, sampleRow_decode]
  simp only [if_pos (sampleStored_matches 0), hfee]

theorem insert_sample :
    insert sampleNumeric sampleTables 7 sampleRequest 1 101 (sampleStored 0) =
      .found sampleRequest 1 (sampleStored 7) (.own (sampleRow 7)) := by
  have hrow : receiptRow sampleNumeric 1 101 (sampleStored 0) 7 = some (sampleRow 7) := by
    decide +kernel
  have hnone : sampleTables.receipts 1 = none := rfl
  rw [insert, hnone, hrow]
  exact checkReceipt_sample _ 7

section Stored

variable {tables : Tables}

theorem insert_lost (hrow : tables.receipts 1 = some (sampleRow 7)) :
    insert sampleNumeric tables 8 sampleRequest 1 101 (sampleStored 0) =
      .lost sampleRequest 1 101 := by
  rw [insert, hrow]

theorem readWinner_sample (hrow : tables.receipts 1 = some (sampleRow 7)) :
    readWinner tables sampleRequest 1 = .found sampleRequest 1 (sampleStored 7) .winner := by
  rw [readWinner, hrow]
  exact checkReceipt_sample _ 7

theorem lookup_other (hrow : tables.receipts 1 = some (sampleRow 7)) :
    lookup tables sampleOther 1 101 = .failed sampleOther .conflict := by
  have hdiffers : ¬ (sampleStored 7).Matches sampleOther := by decide +kernel
  rw [lookup, hrow]
  show checkReceipt sampleOther 1 (sampleRow 7) .existing = _
  rw [checkReceipt, sampleRow_decode]
  exact if_neg hdiffers

end Stored

/-- **Two calls race for the receipt of an order**, and a third one comes too late with another
amount.  No other call begins, and what the steps keep holds in the end. -/
theorem sample_run {P : World → Prop} (hstep : ∀ {w w' : World}, Step sampleNumeric w w' →
    (∀ k, w.calls k = .idle → w'.calls k = .idle) → P w → P w') (h : P sampleBegun) : P sampleEnd := by
  let r := sampleRequest
  let created := sampleTables.setReceipt 1 (sampleRow 7)
  let third : Call := .begun sampleOther 1 101
  let own : Call := .returned r ⟨⟨"1", "101", "accepted", 7⟩, true, .ofScaled 1 4⟩
  let same : Call := .returned r ⟨⟨"1", "101", "accepted", 7⟩, false, .ofScaled 1 4⟩
  -- one call goes on
  have hto : ∀ {tables tables' : Tables} {a b c a' b' c' : Call} {next : World},
      P (sampleWorld tables a b c) → (a ≠ .idle ∧ b ≠ .idle ∧ c ≠ .idle) →
      Step sampleNumeric (sampleWorld tables a b c) next → next = sampleWorld tables' a' b' c' →
      P (sampleWorld tables' a' b' c') := by
    rintro tables tables' a b c a' b' c' next hbefore ⟨ha, hb, hc⟩ step rfl
    refine hstep step (fun k hk => ?_) hbefore
    rcases k with _ | _ | _ | k
    · exact absurd hk ha
    · exact absurd hk hb
    · exact absurd hk hc
    · rfl
  have hrow : created.receipts 1 = some (sampleRow 7) := rfl
  have hholding : ¬ (Call.holding r 1 101 (sampleStored 0)).inserts 1 := by
    rintro ⟨_, _, _, heq⟩
    cases heq
  have hthird : ¬ (Call.begun sampleOther 1 101).inserts 1 := by
    rintro ⟨_, _, _, heq⟩
    cases heq
  have hended : ∀ result, ¬ (Call.returned r result).inserts 1 := by
    rintro result ⟨_, _, _, heq⟩
    cases heq
  -- both find no receipt, and lock the original
  have h1 : P
      (sampleWorld sampleTables (.absent r 1 101) (.begun r 1 101) third) :=
    hto h (by simp) (.lookup (c := 0) rfl) (sampleWorld_set_zero _)
  have h2 : P
      (sampleWorld sampleTables (.absent r 1 101) (.absent r 1 101) third) :=
    hto h1 (by simp) (.lookup (c := 1) rfl) (sampleWorld_set_one _)
  have h3 : P
      (sampleWorld sampleTables (.holding r 1 101 (sampleStored 0)) (.absent r 1 101) third) :=
    hto h2 (by simp) (.readOriginal (c := 0) rfl) (readOriginal_sample ▸ sampleWorld_set_zero _)
  have h4 : P (sampleWorld sampleTables
      (.holding r 1 101 (sampleStored 0)) (.holding r 1 101 (sampleStored 0)) third) :=
    hto h3 (by simp) (.readOriginal (c := 1) rfl) (readOriginal_sample ▸ sampleWorld_set_one _)
  -- the first one inserts the receipt and commits
  have h5 : P (sampleWorld sampleTables
      (.found r 1 (sampleStored 7) (.own (sampleRow 7))) (.holding r 1 101 (sampleStored 0)) third) :=
    hto h4 (by simp) (.insert 7 (c := 0) rfl (sampleWorld_free hholding hholding hthird))
      (insert_sample ▸ sampleWorld_set_zero _)
  have h6 : P
      (sampleWorld created own (.holding r 1 101 (sampleStored 0)) third) :=
    hto h5 (by simp) (.commit (c := 0) true rfl) (@sampleWorld_set_zero created _ _ _ _)
  -- the second one inserts nothing, and reads it
  have h7 : P (sampleWorld created own (.lost r 1 101) third) :=
    hto h6 (by simp) (.insert 8 (c := 1) rfl (sampleWorld_free (hended _) hholding hthird))
      (insert_lost hrow ▸ sampleWorld_set_one _)
  have h8 : P
      (sampleWorld created own (.found r 1 (sampleStored 7) .winner) third) :=
    hto h7 (by simp) (.readWinner (c := 1) rfl) (readWinner_sample hrow ▸ sampleWorld_set_one _)
  have h9 : P (sampleWorld created own same third) :=
    hto h8 (by simp) (.commit (c := 1) true rfl) (@sampleWorld_set_one created _ _ _ _)
  -- the third one finds it, and differs
  exact hto h9 (by simp) (.lookup (c := 2) rfl) (lookup_other hrow ▸ sampleWorld_set_two _)

/-- A step to a world that is known. -/
theorem Reachable.to {start w w' : World} (h : Reachable sampleNumeric start w) {next : World}
    (step : Step sampleNumeric w next) (heq : next = w') : Reachable sampleNumeric start w' :=
  heq ▸ h.step step

theorem sampleBegun_reachable : Reachable sampleNumeric sampleStart sampleBegun := by
  have h1 : Reachable sampleNumeric sampleStart
      (sampleWorld sampleTables (.begun sampleRequest 1 101) .idle .idle) :=
    Reachable.start.to (.begin_ (c := 0) sampleRequest rfl) (sampleWorld_set_zero _)
  have h2 : Reachable sampleNumeric sampleStart
      (sampleWorld sampleTables (.begun sampleRequest 1 101) (.begun sampleRequest 1 101) .idle) :=
    h1.to (.begin_ (c := 1) sampleRequest rfl) (sampleWorld_set_one _)
  exact h2.to (.begin_ (c := 2) sampleOther rfl) (sampleWorld_set_two _)

theorem sampleEnd_reachable : Reachable sampleNumeric sampleStart sampleEnd :=
  sample_run (fun step _ h => h.step step) sampleBegun_reachable

/-- One of the two calls creates the receipt, and both return it. -/
theorem acceptance_agreement_limitBuy :
    Agreement sampleNumeric sampleEnd ∧
      ∃ first second, sampleEnd.calls 0 = .returned sampleRequest first ∧ first.created = true ∧
        sampleEnd.calls 1 = .returned sampleRequest second ∧ second.created = false ∧
        sampleEnd.calls 2 = .failed sampleOther .conflict :=
  ⟨acceptance_agreement sampleStart_initial sampleEnd_reachable, _, _, rfl, rfl, rfl, rfl, rfl⟩

end Steps

end OrderReceipt

end CexEngine
