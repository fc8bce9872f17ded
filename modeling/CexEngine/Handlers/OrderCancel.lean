import CexEngine.Runtime.OrderHistory
import CexEngine.Runtime.Linearizable

/-!
# Cancelled for good

`cancel_order` of `order_handler.rs` and of `order_service.rs`, and `entry_to_order` of
`engine/mod.rs`.  The platform does not look at the order; what the core answers is what the caller
is told.

A cancelled order was taken from its book, so its amounts are those of a resting order at that time.
No later trade is made with it, so they stay what they are (`cancelled_final`).  Every other end
of the call, the lost answer of a cancellation included, is reported with one and the same text.

* `cancel_replies_final`: after the reply 200 the order is cancelled for good, with the amounts that
  were returned.
-/

namespace CexEngine

open Foundation Amount Pipeline

open Store (recordsOf rowOf TableRow tableCodec written append_first append_written)

namespace OrderCancel

/-! ## The reply -/

/-- An order as the callers see it. -/
structure Order where
  id : UInt64
  userId : UInt64
  orderType : String
  orderSide : String
  baseMint : String
  quoteMint : String
  price : Option Decimal
  amount : Decimal
  filledAmount : Decimal
  filledQuoteAmount : Decimal
  status : String
  createdAt : Timestamp
  updatedAt : Timestamp
  deriving DecidableEq

/-- `is_fully_filled`. -/
def IsFullyFilled (entry : OrderEntry) : Prop := entry.remainingAmount ≈ 0

instance (entry : OrderEntry) : Decidable (IsFullyFilled entry) := inferInstanceAs (Decidable (_ ≈ _))

def entryToOrder (now : Timestamp) (entry : OrderEntry) : Order :=
  let status := if entry.filledAmount ≈ 0 then "pending"
    else if IsFullyFilled entry then "filled"
    else "partial"
  { id := entry.id
    userId := entry.userId
    orderType := entry.orderType
    orderSide := entry.orderSide
    baseMint := entry.baseMint
    quoteMint := entry.quoteMint
    price := entry.price
    amount := entry.amount
    filledAmount := entry.filledAmount
    filledQuoteAmount := 0
    status
    createdAt := entry.createdAt
    updatedAt := now }

/-- `OrderService::cancel_order` after the call of the engine.  The reason of a failure is hidden
behind the context. -/
def cancelOrder (now : Timestamp) : Except String OrderEntry → Except String Order
  | .ok cancelled => .ok { entryToOrder now cancelled with status := "cancelled" }
  | .error _ => .error "Failed to cancel order in engine"

structure CancelOrderQuery where
  userId : UInt64
  baseMint : String
  quoteMint : String

inductive CancelReply where
  | ok (order : Order)
  | badRequest (error : String)
  deriving DecidableEq

def CancelReply.status : CancelReply → ℕ
  | ok _ => 200
  | badRequest _ => 400

/-- The handler up to the call of the engine, for a query that may be unreadable. -/
def admitCancel (orderId : UInt64) (n : ℕ) : Option CancelOrderQuery → Except CancelReply OrderCommand
  | none => .error (.badRequest
      "Invalid cancellation query: user_id, base_mint and quote_mint are required")
  | some query =>
    .ok (.cancelOrder orderId query.userId ⟨query.baseMint, query.quoteMint⟩ n)

/-- The handler after the call of the engine. -/
def cancelReply (now : Timestamp) (result : Except String OrderEntry) : CancelReply :=
  match cancelOrder now result with
  | .ok order => .ok order
  | .error e => .badRequest ("Failed to cancel order: " ++ e)

/-- What the channel of a cancellation carries. -/
def received : Except String Answer → Option (Except String OrderEntry)
  | .ok (.order entry) => some (.ok entry)
  | .error reason => some (.error reason)
  | .ok _ => none

/-! ## A cancelled order -/

/-- **A cancelled order**, seen after any history: it was cancelled once, its amounts say what was
traded of it, and it rests nowhere. -/
structure CancelledFor (history : List (Command × Outcome)) (s : EngineState) (orderId : UInt64)
    (o : OrderEntry) : Prop where
  id : o.id = orderId
  limit : o.orderSide = "limit"
  once : history.countP (cancels orderId) = 1
  filled : unitsOf o.filledAmount = filledOf orderId history
  left : filledOf orderId history < unitsOf o.amount
  submitted : ∃ original trades completion,
    (.submit original, .applied (some (.submitted orderId trades completion))) ∈ history ∧
      o.frame = original.frame ∧ unitsOf o.amount = unitsOf original.amount
  gone : s.Gone orderId

section History

variable {cache : BalanceCache} {history : List (Command × Outcome)} {s s' : EngineState} {id : UInt64}
  {o : OrderEntry}

theorem cancelOf_eq_some {e : Command × Outcome} (h : cancelOf id e = some o) :
    (∃ userId pair, e.1 = .cancel id userId pair) ∧ e.2 = .applied (some (.cancelled o)) := by
  unfold cancelOf at h
  split at h
  · next hid =>
    split at h
    · next heq =>
      cases h
      exact ⟨⟨_, _, by rw [← heq]⟩, rfl⟩
    · cases h
  · cases h

/-- Trades without an order fill nothing of it. -/
theorem filledOf_eq_zero (h : ∀ e ∈ history, ∀ t ∈ e.2.trades,
    t.trade.buyOrderId ≠ id ∧ t.trade.sellOrderId ≠ id) : filledOf id history = 0 := by
  refine List.sum_eq_zero fun x hx => ?_
  obtain ⟨e, he, rfl⟩ := List.mem_map.mp hx
  refine List.sum_eq_zero fun y hy => ?_
  obtain ⟨t, ht, rfl⟩ := List.mem_map.mp hy
  obtain ⟨hbuy, hsell⟩ := h e he t ht
  rw [TradeOutput.filledOf, if_neg hbuy, if_neg hsell, add_zero]

/-- A resting order that is taken from its book. -/
theorem amounts_of_mem (h : Run (.genesis cache) history s) (hcache : cache.Valid) {pair : TradingPair}
    {book : OrderBook} (hbook : s.orderbooks.lookup pair = some book) (ho : o ∈ book.flat) :
    o.pair = pair ∧ o.orderSide = "limit" ∧ unitsOf o.filledAmount = filledOf o.id history ∧
      filledOf o.id history < unitsOf o.amount ∧
      ∃ original, s.submissions.lookup o.id = some original ∧ o.frame = original.frame ∧
        unitsOf o.amount = unitsOf original.amount := by
  have hinv := h.inv (EngineState.inv_genesis hcache)
  obtain ⟨_, _, hrest⟩ := hinv.resting hbook ho
  obtain ⟨original, horiginal, hframe⟩ := hinv.submitted _ _ hbook o ho
  have hfilled := h.filledOf_resting hcache hbook ho horiginal hframe
  obtain ⟨buy, hside⟩ := OrderBook.mem_flat_iff.mp ho
  have hamount := (h.kept (EngineState.inv_genesis hcache) (EngineState.kept_genesis cache)).amount
    pair book hbook buy o hside original horiginal
  have hpos := hinv.remaining_pos hbook ho
  obtain ⟨-, -, p, a, f, r, hl⟩ := (validate_limit_iff hrest.limit).mp hrest.valid
  have hbalance := hl.balance
  rw [← unitsOf_eq hl.filled, ← unitsOf_eq hl.remaining, ← unitsOf_eq hl.amount] at hbalance
  exact ⟨hrest.pair, hrest.limit, by omega, by omega, original, horiginal, hframe, hamount⟩

/-- **A cancelled order stays what it was when it was cancelled.** -/
theorem cancelled_final (h : Run (.genesis cache) history s) (hcache : cache.Valid)
    (hcancel : s.cancellations.lookup id = some o) : CancelledFor history s id o := by
  have honce := h.onceOnly hcache
  have hfirst : history.findSome? (cancelOf id) = some o :=
    (h.index_eq (writes_cancellations id)).symm.trans hcancel
  obtain ⟨before, ⟨command, outcome⟩, after, hsplit, hentry, -⟩ := List.findSome?_eq_some_iff.mp hfirst
  obtain ⟨⟨userId, pair, rfl⟩, rfl⟩ := cancelOf_eq_some hentry
  have hrun := h
  rw [hsplit] at hrun
  obtain ⟨mid, hbefore, hrest⟩ := hrun.split
  have hmid := hbefore.inv (EngineState.inv_genesis hcache)
  cases hrest with
  | cons head tail =>
    cases Journal.apply_effect head with
    | cancelled hnone hcancelled =>
      obtain ⟨book, buy, level, queue, side', v, hc⟩ := Threads.cancelOrder_ok hcancelled
      obtain ⟨rfl, -, hflat, -, -⟩ := hc.book (hmid.books _ _ hc.lookup)
      have hmem : o ∈ book.flat := hflat.mem_iff.mpr (List.mem_cons_self ..)
      obtain ⟨-, hlimit, hfilled, hleft, original, horiginal, hframe, hamount⟩ :=
        amounts_of_mem hbefore hcache hc.lookup hmem
      have hcancels : cancels o.id (.cancel o.id userId pair, .applied (some (.cancelled o))) = true :=
        beq_self_eq_true o.id
      -- nothing is traded of it afterwards
      have hsame : filledOf o.id history = filledOf o.id before := by
        have hafter := filledOf_eq_zero (honce.untraded o.id before _ after hsplit hcancels)
        rw [filledOf] at hafter
        rw [hsplit, filledOf, filledOf, List.map_append, List.map_cons, List.sum_append, List.sum_cons,
          hafter]
        simp [Outcome.filledOf, Outcome.trades]
      obtain ⟨hid, hsubmitted⟩ := hbefore.submitted_entry hcache horiginal
      refine ⟨rfl, hlimit, ?_, hsame ▸ hfilled, hsame ▸ hleft, ?_, honce.gone o.id o hfirst⟩
      · refine le_antisymm (honce.cancelled o.id) (List.countP_pos_iff.mpr
          ⟨(.cancel o.id userId pair, .applied (some (.cancelled o))), ?_, hcancels⟩)
        rw [hsplit]
        exact List.mem_append_right _ (List.mem_cons_self ..)
      · rcases hsubmitted with ⟨reason, hrejected⟩ | ⟨trades, completion, hexecuted⟩
        · obtain ⟨-, hgone, -⟩ := (hbefore.accounted hcache).rejected original reason hrejected
          exact absurd hid.symm (hgone pair book hc.lookup o hmem)
        · refine ⟨original, trades, completion, ?_, hframe, hamount⟩
          rw [hsplit]
          exact List.mem_append_left _ hexecuted

/-- **A cancellation that is answered with an order**, now or again. -/
theorem cancelled_of_answer (hs : s.Inv) {userId : UInt64} {pair : TradingPair} {outcome : Outcome}
    {n : ℕ} (hrun : (Journal.apply (.cancel id userId pair)).run s = (.ok outcome, s'))
    (hanswer : Pending.answer ⟨some (.cancel id userId pair), outcome, .cancel n⟩ = (n, .order o)) :
    s'.cancellations.lookup id = some o ∧ o.userId = userId ∧ o.pair = pair := by
  cases hlookup : s.cancellations.lookup id with
  | some first =>
    have hagain : (Journal.apply (.cancel id userId pair)).run s = (.ok
        (if first.userId = userId ∧ first.baseMint = pair.baseMint ∧
            first.quoteMint = pair.quoteMint then .duplicateCancellation first
        else .failed "Unauthorized cancellation"), s) := apply_recancel hlookup
    rw [hrun, Prod.mk.injEq, Except.ok.injEq] at hagain
    obtain ⟨houtcome, rfl⟩ := hagain
    split at houtcome
    · next hcaller =>
      rw [houtcome] at hanswer
      obtain rfl : first = o := by simpa [Pending.answer] using hanswer
      obtain ⟨howner, hbase, hquote⟩ := hcaller
      refine ⟨hlookup, howner, ?_⟩
      rw [OrderEntry.pair, hbase, hquote]
    · rw [houtcome] at hanswer
      simp [Pending.answer] at hanswer
  | none =>
    cases Journal.apply_effect hrun with
    | failed => simp [Pending.answer] at hanswer
    | repeatedCancel hagain =>
      rw [hlookup] at hagain
      cases hagain
    | cancelled hnone hcancelled =>
      obtain ⟨book, buy, level, queue, side', v, hc⟩ := Threads.cancelOrder_ok hcancelled
      obtain ⟨-, -, hflat, -, -⟩ := hc.book (hs.books _ _ hc.lookup)
      obtain ⟨_, _, hrest⟩ := hs.resting hc.lookup (hflat.mem_iff.mpr (List.mem_cons_self ..))
      simp only [Pending.answer, Prod.mk.injEq, Answer.order.injEq, true_and] at hanswer
      subst hanswer
      exact ⟨Finmap.lookup_insert _, hc.owner, hrest.pair⟩

end History

/-! ## The reply is final -/

/-- The call number `n` of an execution was made for a request, and has returned. -/
structure Returned (c : Clients) (n : ℕ) (command : OrderCommand) (result : Except String OrderEntry) :
    Prop where
  ended : ∃ call callResult answer, c.calls[n]? = some call ∧ call.input = .order command ∧
    call.phase = .done callResult ∧ command.reported callResult = some answer ∧
      received answer = some result

/-- **What the reply 200 says**, from the records `D` on the disk and the state they lead to. -/
structure CancelFinal (orderId : UInt64) (query : CancelOrderQuery) (reply : CancelReply)
    (D : List (Command × Outcome)) (s : EngineState) : Prop where
  /-- The order of the caller, with the amounts it will always have. -/
  order : ∀ order, reply = .ok order → order.id = orderId ∧ order.userId = query.userId ∧
    order.baseMint = query.baseMint ∧ order.quoteMint = query.quoteMint ∧
    order.orderSide = "limit" ∧ order.status = "cancelled" ∧
    unitsOf order.filledAmount = filledOf orderId D ∧ filledOf orderId D < unitsOf order.amount
  once : reply.status = 200 → D.countP (cancels orderId) = 1 ∧ s.Gone orderId
  submitted : ∀ order, reply = .ok order → ∃ original trades completion,
    (.submit original, .applied (some (.submitted orderId trades completion))) ∈ D ∧
      order.price = original.price ∧ order.orderType = original.orderType ∧
      unitsOf order.amount = unitsOf original.amount

/-- **A cancellation that is repeated**, any number of times, by calls that are made after the reply:
whenever the core answers one, its reply is 200 again, with the same order. -/
def RepeatsGet (c c' : Clients) (orderId : UInt64) (query : CancelOrderQuery) (reply : CancelReply) :
    Prop :=
  ∀ order, reply = .ok order → ∀ m command result now, c.calls.length ≤ m →
    admitCancel orderId m (some query) = .ok command → Returned c' m command result →
    m ∈ c'.returned → cancelReply now result = .ok { order with updatedAt := now }

section Final

variable {Json : Type} [DecidableEq Json] {codec : Codec Json} {platform : Startup.Platform}
  {cache : BalanceCache} {engineId : String} {start c c' : Clients} {n : ℕ}

/-- A cancellation that returns an order was answered with it. -/
theorem answered_of_reported {command : OrderCommand} {callResult : CallResult}
    {answer : Except String Answer} {o : OrderEntry} (h : command.reported callResult = some answer)
    (horder : received answer = some (.ok o)) : callResult = .answered (.order o) := by
  cases callResult with
  | answered a =>
    cases a with
    | order other =>
      cases h
      cases horder
      rfl
    | _ =>
      cases h
      cases horder
  | severed => cases h
  | _ =>
    cases h
    cases horder

theorem execute_cancel {state state' : EngineState} {orderId userId : UInt64} {pair : TradingPair}
    {pending : Pending}
    (h : (Input.order (.cancelOrder orderId userId pair n)).execute state = .ok (pending, state')) :
    ∃ outcome, (Journal.apply (.cancel orderId userId pair)).run state = (.ok outcome, state') ∧
      pending = ⟨some (.cancel orderId userId pair), outcome, .cancel n⟩ := by
  simp only [Input.execute, Input.request, OrderCommand.request] at h
  rcases hrun : (Journal.apply (.cancel orderId userId pair)).run state with ⟨fault | outcome, t⟩
  · rw [hrun] at h
    cases h
  · rw [hrun] at h
    cases h
    exact ⟨outcome, rfl, rfl⟩

/-- The point at which a cancellation took effect that returned an order. -/
structure CancelledAt (cache : BalanceCache) (c : Clients) (orderId userId : UInt64) (pair : TradingPair)
    (o : OrderEntry) (D : List (Command × Outcome)) (item : Item) : Prop where
  sent : item ∈ c.world.sent
  cancelled : item.history.findSome? (cancelOf orderId) = some o
  onDisk : item.history <+: D
  owner : o.userId = userId ∧ o.pair = pair

omit [DecidableEq Json] in
theorem exists_cancelledAt {D : List (Command × Outcome)} (hvalid : cache.Valid)
    (htraced : Traced cache c) (hD : Trail.InvAt codec cache engineId c.world.trail D)
    {orderId userId : UInt64} {pair : TradingPair} {o : OrderEntry}
    (hreturned : Returned c n (.cancelOrder orderId userId pair n) (.ok o)) :
    ∃ item, item.sender = n ∧ CancelledAt cache c orderId userId pair o D item := by
  obtain ⟨call, callResult, answer, here, hinput, hdone, hreported, hreceived⟩ := hreturned.ended
  obtain rfl := answered_of_reported hreported hreceived
  obtain ⟨item, hitem, hanswer, ⟨before, state, state', hbefore, hexecute, hhistory, -⟩, hdisk⟩ :=
    htraced.point hD here (by rw [hdone]; rfl)
  rw [hinput] at hexecute
  obtain ⟨outcome, happly, hpending⟩ := execute_cancel hexecute
  have hsender : item.sender = n := congrArg Prod.fst hanswer
  rw [hpending] at hanswer hhistory
  obtain ⟨hentry, howner, hpair⟩ :=
    cancelled_of_answer (hbefore.inv (EngineState.inv_genesis hvalid)) happly hanswer
  refine ⟨item, hsender, hitem, ?_, hdisk, howner, hpair⟩
  rw [hhistory]
  exact ((hbefore.append (.cons happly (.nil _))).index_eq (writes_cancellations orderId)).symm.trans
    hentry

omit [DecidableEq Json] in
/-- **A repeated cancellation** finds the first one in the commands before it. -/
theorem repeated_answer {D : List (Command × Outcome)} (htraced : Traced cache c)
    (hD : Trail.InvAt codec cache engineId c.world.trail D) {orderId userId : UInt64}
    {pair : TradingPair} {o : OrderEntry} {first : Item}
    (hfirst : CancelledAt cache c orderId userId pair o D first) {m : ℕ} {call : Call} {answer : Answer}
    (here : c.calls[m]? = some call) (hinput : call.input = .order (.cancelOrder orderId userId pair m))
    (hdone : call.phase.answer = some answer) (hafter : first.sender ∈ call.after) :
    answer = .order o := by
  obtain ⟨item, -, hanswer, ⟨before, state, state', hbefore, hexecute, -, hearlier⟩, -⟩ :=
    htraced.point hD here hdone
  obtain ⟨earlier, hmem, hsender, hprefix⟩ := hearlier _ hafter
  -- a call has one point, so what it has seen is the first cancellation
  have hsame : earlier.history = first.history := by
    have hpoint := htraced.pointOf hmem
    rw [hsender, htraced.pointOf hfirst.sent] at hpoint
    exact (Option.some.inj hpoint).symm
  obtain ⟨between, hbetween⟩ := hprefix
  have hlookup : state.cancellations.lookup orderId = some o := by
    rw [hbefore.index_eq (writes_cancellations orderId), ← hbetween, hsame, List.findSome?_append,
      hfirst.cancelled]
    rfl
  rw [hinput] at hexecute
  obtain ⟨outcome, happly, hpending⟩ := execute_cancel hexecute
  obtain ⟨howner, hpair⟩ := hfirst.owner
  have hagain : (Journal.apply (.cancel orderId userId pair)).run state = (.ok
      (if o.userId = userId ∧ o.baseMint = pair.baseMint ∧ o.quoteMint = pair.quoteMint then
        .duplicateCancellation o
      else .failed "Unauthorized cancellation"), state) := apply_recancel hlookup
  rw [if_pos ⟨howner, congrArg TradingPair.baseMint hpair, congrArg TradingPair.quoteMint hpair⟩]
    at hagain
  rw [happly, Prod.mk.injEq, Except.ok.injEq] at hagain
  rw [hpending, hagain.1] at hanswer
  exact (congrArg Prod.snd hanswer).symm

/-- **The replies of `cancel_order` are final.** -/
theorem cancel_replies_final (hload : Startup.loadBalances platform = .ok cache)
    (hid : codec.isUuid engineId = true)
    (hgenesis : codec.parseGenesis (codec.genesisText ⟨4, engineId, cache.journalSeed⟩) =
      some ⟨4, engineId, cache.journalSeed⟩)
    (hstart : start.Initial codec cache engineId) (hreached : CallReachable codec start c)
    {orderId : UInt64} {query : CancelOrderQuery} {command : OrderCommand}
    (hadmitted : admitCancel orderId n (some query) = .ok command)
    {result : Except String OrderEntry} (hreturned : Returned c n command result)
    (hlater : CallReachable codec c c') (hrecords : Legible codec c'.world.store) (now : Timestamp) :
    (∃ D s, (∃ clock, c'.world.store.records.entries = (recordsOf clock 0 D).map (rowOf codec)) ∧
      Run (.genesis cache) D s ∧ CancelFinal orderId query (cancelReply now result) D s) ∧
    RepeatsGet c c' orderId query (cancelReply now result) := by
  have hcache := Startup.loadBalances_admissible hload
  have hvalid := Store.valid_of_admissible hcache
  have hreached' := hreached.trans hlater
  obtain ⟨⟨D, hD⟩, -⟩ := hreached'.world.inv hcache hid hgenesis hstart.world hrecords
  obtain ⟨htraced, -⟩ := hreached'.traced hcache hid hgenesis hstart hrecords
  obtain ⟨s, hrun⟩ := hD.run_durable
  cases result with
  | error reason =>
    exact ⟨⟨D, s, hD.records, hrun, fun order horder => (by cases horder), fun hstatus => (by cases hstatus),
      fun order horder => (by cases horder)⟩, fun order horder => (by cases horder)⟩
  | ok o =>
    obtain rfl := Except.ok.inj hadmitted
    obtain ⟨call, callResult, answer, here, hinput, hdone, hreported, hreceived⟩ := hreturned.ended
    have hlate : Returned c' n _ (.ok o) :=
      ⟨call, callResult, answer, hlater.ended here hdone, hinput, hdone, hreported, hreceived⟩
    obtain ⟨item, hsender, hfirst⟩ := exists_cancelledAt hvalid htraced hD hlate
    refine ⟨⟨D, s, hD.records, hrun, ?_⟩, ?_⟩
    · -- the entry is still there when the caller looks again
      have hlast : s.cancellations.lookup orderId = some o := by
        obtain ⟨rest, hdisk⟩ := hfirst.onDisk
        rw [hrun.index_eq (writes_cancellations orderId), ← hdisk, List.findSome?_append,
          hfirst.cancelled]
        rfl
      obtain ⟨howner, hpair⟩ := hfirst.owner
      have hfinal := cancelled_final hrun hvalid hlast
      obtain ⟨original, trades, completion, hsubmitted, hframe, hamount⟩ := hfinal.submitted
      refine ⟨fun order horder => ?_, fun _ => ⟨hfinal.once, hfinal.gone⟩, fun order horder => ?_⟩
      · obtain rfl := CancelReply.ok.inj horder
        exact ⟨hfinal.id, howner, congrArg TradingPair.baseMint hpair,
          congrArg TradingPair.quoteMint hpair, hfinal.limit, rfl, hfinal.filled, hfinal.left⟩
      · obtain rfl := CancelReply.ok.inj horder
        exact ⟨original, trades, completion, hsubmitted, OrderEntry.congr_frame OrderEntry.price hframe,
          OrderEntry.congr_frame OrderEntry.orderType hframe, hamount⟩
    · rintro order horder m command result' now' hm hadmitted' hagain hanswered
      obtain rfl := CancelReply.ok.inj horder
      obtain rfl := Except.ok.inj hadmitted'
      obtain rfl := answered_of_reported hreported hreceived
      obtain ⟨call', callResult', answer', here', hinput', hdone', hreported', hreceived'⟩ := hagain.ended
      obtain ⟨_, reply, hother, hreply⟩ := mem_returned_iff.mp hanswered
      obtain rfl := Option.some.inj (here'.symm.trans hother)
      -- the call was made when the first one had been answered
      have hafter : item.sender ∈ call'.after := by
        rw [hsender]
        exact hlater.seen here hdone hm here'
      obtain rfl := repeated_answer htraced hD hfirst here' hinput' hreply hafter
      rw [hdone'] at hreply
      cases callResult' <;> cases hreply
      cases hreported'
      cases hreceived'
      rfl

end Final

/-! ### An order that is cancelled -/

section Sample

def sampleOrder : OrderEntry := .limit 1 2 true Decimal.ONE Decimal.ONE

/-- The order when half of it is filled. -/
def sampleHalf : OrderEntry :=
  { sampleOrder with filledAmount := .ofScaled 5 1, remainingAmount := .ofScaled 5 1 }

def sampleSell : OrderEntry := .limit 2 1 false Decimal.ONE (.ofScaled 5 1)

def sampleTrade : TradeOutput :=
  ⟨⟨0, 0, 1, 2, 2, 1, Decimal.ONE, .ofScaled 5 1, "BTC", "USDT"⟩, 0, 0⟩

def sampleFunded : Record := ⟨1, 0, .balance 1 "BTC" Decimal.ONE, .applied none⟩

def sampleRested : Record := ⟨2, 0, .submit sampleOrder, .applied (some (.submitted 1 [] none))⟩

def sampleTaken : Record :=
  ⟨3, 0, .submit sampleSell, .applied (some (.submitted 2 [sampleTrade] none))⟩

def sampleCancelled : Record :=
  ⟨4, 0, .cancel 1 2 ⟨"BTC", "USDT"⟩, .applied (some (.cancelled sampleHalf))⟩

def sampleRepeated : Record :=
  ⟨5, 0, .cancel 1 2 ⟨"BTC", "USDT"⟩, .duplicateCancellation sampleHalf⟩

/-- The five records with their texts. -/
def cancelRows : List TableRow :=
  [ ⟨sampleFunded,
      "\x7b\"sequence\":1,\"timestamp\":\"1970-01-01T00:00:00Z\",\"command\":\x7b\"Balance\":\x7b\"user_id\":1,\"mint\":\"BTC\",\"delta\":\"1\"\x7d\x7d,\"outcome\":\x7b\"Applied\":null\x7d\x7d",
      "\x7b\"Applied\":null\x7d",
      [132, 85, 86, 58, 108, 101, 54, 121, 54, 146, 233, 171, 18, 35, 123, 71, 158, 8, 113, 22, 177, 22,
        113, 171, 196, 114, 170, 10, 32, 139, 120, 73]⟩,
    ⟨sampleRested,
      "\x7b\"sequence\":2,\"timestamp\":\"1970-01-01T00:00:00Z\",\"command\":\x7b\"Submit\":\x7b\"fee_rate\":\"0\",\"id\":1,\"user_id\":2,\"order_type\":\"buy\",\"order_side\":\"limit\",\"base_mint\":\"BTC\",\"quote_mint\":\"USDT\",\"price\":\"1\",\"amount\":\"1\",\"quote_amount\":null,\"filled_amount\":\"0\",\"remaining_amount\":\"1\",\"remaining_quote_amount\":null,\"created_at\":\"1970-01-01T00:00:00Z\"\x7d\x7d,\"outcome\":\x7b\"Applied\":\x7b\"Submitted\":\x7b\"order_id\":1,\"trades\":[],\"completion\":null\x7d\x7d\x7d\x7d",
      "\x7b\"Applied\":\x7b\"Submitted\":\x7b\"order_id\":1,\"trades\":[],\"completion\":null\x7d\x7d\x7d",
      [105, 34, 37, 143, 20, 172, 93, 75, 192, 202, 230, 114, 28, 245, 39, 221, 125, 26, 151, 66, 85, 100,
        109, 250, 103, 113, 16, 219, 41, 117, 17, 112]⟩,
    ⟨sampleTaken,
      "\x7b\"sequence\":3,\"timestamp\":\"1970-01-01T00:00:00Z\",\"command\":\x7b\"Submit\":\x7b\"fee_rate\":\"0\",\"id\":2,\"user_id\":1,\"order_type\":\"sell\",\"order_side\":\"limit\",\"base_mint\":\"BTC\",\"quote_mint\":\"USDT\",\"price\":\"1\",\"amount\":\"0.5\",\"quote_amount\":null,\"filled_amount\":\"0\",\"remaining_amount\":\"0.5\",\"remaining_quote_amount\":null,\"created_at\":\"1970-01-01T00:00:00Z\"\x7d\x7d,\"outcome\":\x7b\"Applied\":\x7b\"Submitted\":\x7b\"order_id\":2,\"trades\":[\x7b\"trade\":\x7b\"buyer_fee_rate\":\"0\",\"seller_fee_rate\":\"0\",\"buy_order_id\":1,\"sell_order_id\":2,\"buyer_id\":2,\"seller_id\":1,\"price\":\"1\",\"amount\":\"0.5\",\"base_mint\":\"BTC\",\"quote_mint\":\"USDT\"\x7d,\"buyer_fee\":\"0\",\"seller_fee\":\"0\"\x7d],\"completion\":null\x7d\x7d\x7d\x7d",
      "\x7b\"Applied\":\x7b\"Submitted\":\x7b\"order_id\":2,\"trades\":[\x7b\"trade\":\x7b\"buyer_fee_rate\":\"0\",\"seller_fee_rate\":\"0\",\"buy_order_id\":1,\"sell_order_id\":2,\"buyer_id\":2,\"seller_id\":1,\"price\":\"1\",\"amount\":\"0.5\",\"base_mint\":\"BTC\",\"quote_mint\":\"USDT\"\x7d,\"buyer_fee\":\"0\",\"seller_fee\":\"0\"\x7d],\"completion\":null\x7d\x7d\x7d",
      [97, 163, 111, 70, 16, 251, 244, 154, 234, 148, 65, 40, 137, 196, 85, 238, 183, 126, 153, 36, 253, 227,
        32, 143, 213, 117, 251, 211, 49, 29, 164, 2]⟩,
    ⟨sampleCancelled,
      "\x7b\"sequence\":4,\"timestamp\":\"1970-01-01T00:00:00Z\",\"command\":\x7b\"Cancel\":\x7b\"order_id\":1,\"user_id\":2,\"pair\":\x7b\"base_mint\":\"BTC\",\"quote_mint\":\"USDT\"\x7d\x7d\x7d,\"outcome\":\x7b\"Applied\":\x7b\"Cancelled\":\x7b\"fee_rate\":\"0\",\"id\":1,\"user_id\":2,\"order_type\":\"buy\",\"order_side\":\"limit\",\"base_mint\":\"BTC\",\"quote_mint\":\"USDT\",\"price\":\"1\",\"amount\":\"1\",\"quote_amount\":null,\"filled_amount\":\"0.5\",\"remaining_amount\":\"0.5\",\"remaining_quote_amount\":null,\"created_at\":\"1970-01-01T00:00:00Z\"\x7d\x7d\x7d\x7d",
      "\x7b\"Applied\":\x7b\"Cancelled\":\x7b\"fee_rate\":\"0\",\"id\":1,\"user_id\":2,\"order_type\":\"buy\",\"order_side\":\"limit\",\"base_mint\":\"BTC\",\"quote_mint\":\"USDT\",\"price\":\"1\",\"amount\":\"1\",\"quote_amount\":null,\"filled_amount\":\"0.5\",\"remaining_amount\":\"0.5\",\"remaining_quote_amount\":null,\"created_at\":\"1970-01-01T00:00:00Z\"\x7d\x7d\x7d",
      [162, 185, 198, 143, 153, 73, 230, 34, 238, 140, 220, 138, 13, 47, 238, 119, 90, 131, 52, 9, 102, 233,
        53, 98, 56, 154, 200, 19, 236, 104, 232, 217]⟩,
    ⟨sampleRepeated,
      "\x7b\"sequence\":5,\"timestamp\":\"1970-01-01T00:00:00Z\",\"command\":\x7b\"Cancel\":\x7b\"order_id\":1,\"user_id\":2,\"pair\":\x7b\"base_mint\":\"BTC\",\"quote_mint\":\"USDT\"\x7d\x7d\x7d,\"outcome\":\x7b\"DuplicateCancellation\":\x7b\"fee_rate\":\"0\",\"id\":1,\"user_id\":2,\"order_type\":\"buy\",\"order_side\":\"limit\",\"base_mint\":\"BTC\",\"quote_mint\":\"USDT\",\"price\":\"1\",\"amount\":\"1\",\"quote_amount\":null,\"filled_amount\":\"0.5\",\"remaining_amount\":\"0.5\",\"remaining_quote_amount\":null,\"created_at\":\"1970-01-01T00:00:00Z\"\x7d\x7d\x7d",
      "\x7b\"DuplicateCancellation\":\x7b\"fee_rate\":\"0\",\"id\":1,\"user_id\":2,\"order_type\":\"buy\",\"order_side\":\"limit\",\"base_mint\":\"BTC\",\"quote_mint\":\"USDT\",\"price\":\"1\",\"amount\":\"1\",\"quote_amount\":null,\"filled_amount\":\"0.5\",\"remaining_amount\":\"0.5\",\"remaining_quote_amount\":null,\"created_at\":\"1970-01-01T00:00:00Z\"\x7d\x7d",
      [224, 20, 220, 156, 66, 155, 6, 156, 2, 149, 211, 52, 156, 204, 70, 126, 255, 34, 45, 48, 189, 181,
        113, 197, 183, 220, 154, 48, 181, 110, 196, 60]⟩]

/-- The encodings on them. -/
def cancelCodec : Codec String := tableCodec cancelRows

/-- The requests of the first group. -/
def sampleGroup : List Pending :=
  [⟨some sampleFunded.command, sampleFunded.outcome, .unit 0⟩,
    ⟨some sampleRested.command, sampleRested.outcome, .submit 1⟩,
    ⟨some sampleTaken.command, sampleTaken.outcome, .submit 2⟩,
    ⟨some sampleCancelled.command, sampleCancelled.outcome, .cancel 3⟩]

/-- The journal with the cancelled order. -/
def cancelledStore : Store := written cancelCodec (recordStart cancelCodec).store sampleGroup 0

theorem append_cancelledStore :
    (recordStart cancelCodec).store.append cancelCodec (fun _ => 0) sampleGroup 0 =
        .ok (cancelledStore, 4) ∧
      cancelledStore.records.entries =
        [sampleFunded, sampleRested, sampleTaken, sampleCancelled].map (rowOf cancelCodec) := by
  obtain ⟨happend, hentries, -⟩ := @append_first cancelCodec (recordStart cancelCodec).store
    sampleGroup rfl (by decide)
  exact ⟨happend, hentries⟩

def sampleAgain : Pending := ⟨some sampleRepeated.command, sampleRepeated.outcome, .cancel 4⟩

/-- The journal with the repeated cancellation. -/
def repeatedStore : Store := written cancelCodec cancelledStore [sampleAgain] 4

theorem append_repeatedStore :
    cancelledStore.append cancelCodec (fun _ => 0) [sampleAgain] 4 = .ok (repeatedStore, 5) ∧
      repeatedStore.records.entries = (cancelRows.map TableRow.record).map (rowOf cancelCodec) := by
  obtain ⟨happend, hentries, -⟩ := @append_written cancelCodec cancelledStore _ [sampleAgain] 4
    append_cancelledStore.2 (by decide) (by decide)
  exact ⟨happend, hentries⟩

theorem legible_repeatedStore : Legible cancelCodec repeatedStore :=
  legible_record (by decide +kernel : Store.Distinct cancelRows) (List.Subset.refl _)
    append_repeatedStore.2

/-- A buyer and a seller are matched, the buyer cancels the rest and is answered; then the buyer
cancels again. -/
theorem exists_cancelled_calls : ∃ c c',
    CallReachable cancelCodec ⟨recordStart cancelCodec, [], []⟩ c ∧ CallReachable cancelCodec c c' ∧
    Legible cancelCodec c'.world.store ∧ c.calls.length = 4 ∧
    c.calls[3]? = some ⟨.order (.cancelOrder 1 2 ⟨"BTC", "USDT"⟩ 3),
      .done (.answered (.order sampleHalf)), []⟩ ∧
    c'.calls[4]? = some ⟨.order (.cancelOrder 1 2 ⟨"BTC", "USDT"⟩ 4),
      .done (.answered (.order sampleHalf)), c.returned⟩ := by
  obtain ⟨last, hrun⟩ := @exists_run
    [(sampleFunded.command, sampleFunded.outcome), (sampleRested.command, sampleRested.outcome),
      (sampleTaken.command, sampleTaken.outcome), (sampleCancelled.command, sampleCancelled.outcome),
      (sampleRepeated.command, sampleRepeated.outcome)] (by decide +kernel)
  obtain _ | ⟨hfunded, hrun⟩ := hrun
  obtain _ | ⟨hrested, hrun⟩ := hrun
  obtain _ | ⟨htaken, hrun⟩ := hrun
  obtain _ | ⟨hcancelled, hrun⟩ := hrun
  obtain _ | ⟨hrepeated, -⟩ := hrun
  have hinput : ∀ {n : ℕ}, n ≤ 4 → n < inputCapacity := fun h => lt_of_le_of_lt h (by decide)
  have hjournal : ∀ {n : ℕ}, n ≤ 4 → n < journalCapacity := fun h => lt_of_le_of_lt h (by decide)
  have hgroup : ∀ {n : ℕ}, n ≤ 4 → n ≤ groupSize := fun h => le_trans h (by decide)
  -- the process starts, and the first four requests are made
  have h0 : CallReachable cancelCodec ⟨recordStart cancelCodec, [], []⟩ _ := .start
  have h1 := h0.step (.engine (.boot ⟨rfl, rfl⟩ recover_record rfl) nofun
    ⟨Nat.zero_le _, Nat.zero_le _⟩)
  have h2 := @CallReachable.sendsBalance _ _ _ _ _ _ _ _ h1 ⟨rfl, ⟨rfl, rfl⟩, hjournal (Nat.zero_le _)⟩
    (.updateBalance 1 "BTC" Decimal.ONE 0) rfl (hinput (Nat.zero_le _))
  have h3 := @CallReachable.sendsOrder _ _ _ _ _ _ _ _ h2 ⟨rfl, ⟨rfl, rfl⟩, hjournal (Nat.zero_le _)⟩
    (.submitOrder sampleOrder 1) rfl (hinput (Nat.zero_le _))
  have h4 := @CallReachable.sendsOrder _ _ _ _ _ _ _ _ h3 ⟨rfl, ⟨rfl, rfl⟩, hjournal (Nat.zero_le _)⟩
    (.submitOrder sampleSell 2) rfl (hinput (by decide : 1 ≤ 4))
  have h5 := @CallReachable.sendsOrder _ _ _ _ _ _ _ _ h4 ⟨rfl, ⟨rfl, rfl⟩, hjournal (Nat.zero_le _)⟩
    (.cancelOrder 1 2 ⟨"BTC", "USDT"⟩ 3) rfl (hinput (by decide : 2 ≤ 4))
  -- the core executes them
  obtain ⟨_, h6⟩ := h5.serveBalance ⟨rfl, ⟨rfl, rfl⟩, hjournal (Nat.zero_le _)⟩ rfl
    (Input.execute_of_run rfl hfunded)
  obtain ⟨_, h7⟩ := h6.serveOrder ⟨rfl, ⟨rfl, rfl⟩, hjournal (by decide : 1 ≤ 4)⟩ rfl rfl
    (Input.execute_of_run rfl hrested)
  obtain ⟨_, h8⟩ := h7.serveOrder ⟨rfl, ⟨rfl, rfl⟩, hjournal (by decide : 2 ≤ 4)⟩ rfl rfl
    (Input.execute_of_run rfl htaken)
  obtain ⟨_, h9⟩ := h8.serveOrder ⟨rfl, ⟨rfl, rfl⟩, hjournal (by decide : 3 ≤ 4)⟩ rfl rfl
    (Input.execute_of_run rfl hcancelled)
  -- the worker records them in one group, and the cancellation is answered
  obtain ⟨_, h10⟩ := h9.starts nofun rfl rfl
  obtain ⟨_, h11⟩ := h10.records nofun rfl rfl (hgroup le_rfl) append_cancelledStore.1
  have h12 := h11.step (.answered (n := 3) rfl rfl (List.mem_append_right _ (List.mem_cons_of_mem _
    (List.mem_cons_of_mem _ (List.mem_cons_of_mem _ (List.mem_cons_self ..))))) rfl)
  -- the caller repeats it
  have g0 := h12.here
  have g1 := @CallReachable.sendsOrder _ _ _ _ _ _ _ _ g0 ⟨rfl, ⟨rfl, rfl⟩, hjournal (Nat.zero_le _)⟩
    (.cancelOrder 1 2 ⟨"BTC", "USDT"⟩ 4) rfl (hinput (Nat.zero_le _))
  obtain ⟨_, g2⟩ := g1.serveOrder ⟨rfl, ⟨rfl, rfl⟩, hjournal (Nat.zero_le _)⟩ rfl rfl
    (Input.execute_of_run rfl hrepeated)
  obtain ⟨_, g3⟩ := g2.records nofun rfl rfl (hgroup (by decide : 1 ≤ 4)) append_repeatedStore.1
  have g4 := g3.step (.answered (n := 4) rfl rfl (List.mem_append_right _ (List.mem_cons_self ..)) rfl)
  exact ⟨_, _, h12, g4, legible_repeatedStore, rfl, rfl, rfl⟩

/-- The two replies differ only in when they were made. -/
theorem cancel_replies_final_buy : ∃ c c' D s,
    CancelFinal 1 ⟨2, "BTC", "USDT"⟩ (cancelReply 7 (.ok sampleHalf)) D s ∧
      (cancelReply 7 (.ok sampleHalf)).status = 200 ∧ filledOf 1 D = 500000000 ∧
      RepeatsGet c c' 1 ⟨2, "BTC", "USDT"⟩ (cancelReply 7 (.ok sampleHalf)) ∧
      ∃ result, Returned c' 4 (.cancelOrder 1 2 ⟨"BTC", "USDT"⟩ 4) result ∧
        cancelReply 9 result =
          .ok { entryToOrder 9 sampleHalf with status := "cancelled" } := by
  obtain ⟨c, c', hreached, hlater, hlegible, hlength, hcall, hagain⟩ := exists_cancelled_calls
  have hreturned : Returned c 3 (.cancelOrder 1 2 ⟨"BTC", "USDT"⟩ 3) (.ok sampleHalf) :=
    ⟨_, _, _, hcall, rfl, rfl, rfl, rfl⟩
  have hrepeated : Returned c' 4 (.cancelOrder 1 2 ⟨"BTC", "USDT"⟩ 4) (.ok sampleHalf) :=
    ⟨_, _, _, hagain, rfl, rfl, rfl, rfl⟩
  have hadmitted : ∀ n, admitCancel 1 n (some ⟨2, "BTC", "USDT"⟩) =
      .ok (.cancelOrder 1 2 ⟨"BTC", "USDT"⟩ n) := fun _ => rfl
  obtain ⟨⟨D, s, -, -, hfinal⟩, hrepeats⟩ := cancel_replies_final Store.loadBalances_sample
    record_isUuid record_genesis initial_record hreached (hadmitted 3) hreturned hlater hlegible 7
  have hfilled := (hfinal.order _ rfl).2.2.2.2.2.2.1
  have hunits : unitsOf sampleHalf.filledAmount = 500000000 := by decide +kernel
  have hsame := hrepeats _ rfl 4 _ _ 9 (hlength ▸ le_rfl) (hadmitted 4) hrepeated
    (mem_returned_iff.mpr ⟨_, _, hagain, rfl⟩)
  exact ⟨c, c', D, s, hfinal, rfl, hfilled.symm.trans hunits, hrepeats, _, hrepeated, hsame⟩

end Sample

end OrderCancel

end CexEngine
