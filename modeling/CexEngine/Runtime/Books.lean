import CexEngine.Runtime.Reachable

/-!
# The order books of the reachable states

Two properties of the books that need more than one state.

* **Time priority.**  `Effect.queue_ids` says what a transition does to the ids of one
  queue: some of them leave, or the id of a first submission joins the end.  So the
  queues stay in the order in which their orders were first submitted
  (`Run.queued`), and `books_wellFormed` puts this together with the invariant.
* **No crossing.**  A remainder only rests once every order of another user inside its
  limit was used up (`Applied.not_crossing`), so two orders of different users never
  cross (`books_uncrossed`).
-/

namespace CexEngine

open Foundation Foundation.FiniteMap Foundation.Allocation Amount

/-! ## Queues -/

/-- The queue at a price, empty where there is none. -/
def OrderBookSide.queueAt (side : OrderBookSide) (p : Decimal) : List OrderEntry :=
  (side.orders.find? p).getD []

/-- The queue of a market at a side and a price. -/
def EngineState.queueAt (s : EngineState) (pair : TradingPair) (buy : Bool) (p : Decimal) :
    List OrderEntry :=
  ((s.orderbooks.lookup pair).map fun book => (book.side buy).queueAt p).getD []

theorem EngineState.queueAt_of_lookup {s : EngineState} {pair : TradingPair} {book : OrderBook}
    (h : s.orderbooks.lookup pair = some book) (buy : Bool) (p : Decimal) :
    s.queueAt pair buy p = (book.side buy).queueAt p := by
  rw [queueAt, h, Option.map_some, Option.getD_some]

theorem EngineState.queueAt_congr {s s' : EngineState} (h : s'.orderbooks = s.orderbooks)
    (pair : TradingPair) (buy : Bool) (p : Decimal) :
    s'.queueAt pair buy p = s.queueAt pair buy p := by
  rw [queueAt, h, queueAt]

/-- The queues of the book an order meets. -/
theorem EngineState.queueAt_bookOf (s : EngineState) (order : OrderEntry) (buy : Bool)
    (p : Decimal) : s.queueAt order.pair buy p =
      ((Submission.bookOf s.orderbooks order).side buy).queueAt p := by
  unfold Submission.bookOf queueAt
  cases hbook : s.orderbooks.lookup order.pair with
  | some book => rfl
  | none => cases buy <;> rfl

/-- An order of a queue is an order of the book. -/
theorem EngineState.mem_queueAt {s : EngineState} {pair : TradingPair} {buy : Bool} {p : Decimal}
    {o : OrderEntry} (h : o ∈ s.queueAt pair buy p) :
    ∃ book, s.orderbooks.lookup pair = some book ∧ o ∈ book.flat := by
  cases hbook : s.orderbooks.lookup pair with
  | none =>
    rw [queueAt, hbook] at h
    cases h
  | some book =>
    rw [queueAt_of_lookup hbook, OrderBookSide.queueAt] at h
    cases hqueue : (book.side buy).orders.find? p with
    | none =>
      rw [hqueue] at h
      cases h
    | some queue =>
      rw [hqueue] at h
      exact ⟨book, rfl, OrderBook.mem_flat_iff.mpr
        ⟨buy, OrderBookSide.mem_flat_iff.mpr ⟨p, queue, hqueue, h⟩⟩⟩

/-- What a commit does to the ids of one queue. -/
theorem Committed.queue_ids {book book' : OrderBook} {makerBuy : Bool} {fills : List Fill}
    {added : Option (Decimal × OrderEntry)} (h : Committed book book' makerBuy fills added)
    (hfills : FillsOf (book.side makerBuy) fills) (buy : Bool) (p : Decimal) :
    (((book'.side buy).queueAt p).map OrderEntry.id).Sublist
        (((book.side buy).queueAt p).map OrderEntry.id) ∨
      ∃ level o, added = some (level, o) ∧ ((book'.side buy).queueAt p).map OrderEntry.id =
        ((book.side buy).queueAt p).map OrderEntry.id ++ [o.id] := by
  by_cases hbuy : buy = makerBuy
  · left
    rw [hbuy, OrderBookSide.queueAt, h.makers_find, OrderBookSide.queueAt]
    cases hqueue : (book.side makerBuy).orders.find? p with
    | none => exact List.Sublist.refl _
    | some queue =>
      have hsub := hfills.keepsId.map_id_sublist queue
      rw [Option.bind_some, Option.getD_some, nonempty]
      split
      · exact List.nil_sublist _
      · exact hsub
  · rw [Bool.eq_not_of_ne hbuy, OrderBookSide.queueAt, h.taker_find, OrderBookSide.queueAt]
    cases added with
    | none => exact Or.inl (List.Sublist.refl _)
    | some e =>
      obtain ⟨level, o⟩ := e
      rw [withOrder]
      split
      · next hp =>
        right
        refine ⟨level, o, rfl, ?_⟩
        rw [Option.getD_some, List.map_append, SortedMap.find?_congr _ hp]
        rfl
      · exact Or.inl (List.Sublist.refl _)

/-- **What a transition does to the ids of a queue**: some of them leave, or the id of
a first submission joins the end. -/
theorem Effect.queue_ids {s s' : EngineState} {command : Command} {outcome : Outcome}
    (h : Effect s command outcome s') (hs : s.Inv) (pair : TradingPair) (buy : Bool) (p : Decimal) :
    ((s'.queueAt pair buy p).map OrderEntry.id).Sublist
        ((s.queueAt pair buy p).map OrderEntry.id) ∨
      ∃ order, command = .submit order ∧ s.submissions.lookup order.id = none ∧
        (s'.queueAt pair buy p).map OrderEntry.id =
          (s.queueAt pair buy p).map OrderEntry.id ++ [order.id] := by
  have hsame : s'.orderbooks = s.orderbooks → ((s'.queueAt pair buy p).map OrderEntry.id).Sublist
      ((s.queueAt pair buy p).map OrderEntry.id) := by
    intro hbooks
    rw [EngineState.queueAt_congr hbooks]
  cases h with
  | @submitted order applied books' executor' trades hnew hrun houtputs =>
    obtain ⟨book', plan, d, fills, δ, reserved, remaining, refund, happlied, -, hfills,
      hcommitted⟩ := hs.applied hnew hrun
    by_cases hpair : pair = order.pair
    · rw [hpair]
      have hbook : EngineState.queueAt { Journal.recorded order s with
          orderbooks := books', executor := executor' } order.pair buy p =
          (book'.side buy).queueAt p := by
        refine EngineState.queueAt_of_lookup ?_ buy p
        show books'.lookup order.pair = some book'
        rw [happlied.books_eq, Finmap.lookup_insert]
      rw [hbook, s.queueAt_bookOf order]
      rcases hcommitted.queue_ids hfills buy p with hsub | ⟨level, o, hadded, hids⟩
      · exact Or.inl hsub
      · right
        obtain ⟨rfl, -⟩ := MatchPlan.remainder_eq_some hadded
        refine ⟨order, rfl, hnew, ?_⟩
        rw [hids, OrderEntry.congr_frame OrderEntry.id happlied.advance.frame]
        rfl
    · left
      have hbook : EngineState.queueAt { Journal.recorded order s with
          orderbooks := books', executor := executor' } pair buy p = s.queueAt pair buy p := by
        unfold EngineState.queueAt
        show ((books'.lookup pair).map _).getD [] = _
        rw [happlied.books_eq, Finmap.lookup_insert_of_ne _ hpair]
      rw [hbook]
  | @cancelled orderId userId pair' order books' executor' _ hrun =>
    obtain ⟨book, side, level, queue, side', v, hc⟩ := Threads.cancelOrder_ok hrun
    obtain ⟨-, -, -, -, hfind⟩ := hc.book (hs.books _ _ hc.lookup)
    left
    by_cases hpair : pair = pair'
    · rw [hpair, EngineState.queueAt_of_lookup hc.lookup]
      have hbook : EngineState.queueAt { s with
          cancellations := s.cancellations.insert orderId order
          orderbooks := books'
          executor := executor' } pair' buy p = ((book.setSide side side').side buy).queueAt p := by
        refine EngineState.queueAt_of_lookup ?_ buy p
        show books'.lookup pair' = some _
        rw [hc.books_eq, Finmap.lookup_insert]
      rw [hbook]
      by_cases hside : buy = side
      · rw [hside, OrderBook.side_setSide_same, OrderBookSide.queueAt, hfind]
        split
        · next hp =>
          rw [OrderBookSide.queueAt, SortedMap.find?_congr _ hp, hc.queue_eq, Option.getD_some]
          split
          · exact List.nil_sublist _
          · exact (List.eraseP_sublist).map _
        · exact List.Sublist.refl _
      · rw [Bool.eq_not_of_ne hside, OrderBook.side_setSide_not]
    · have hbook : EngineState.queueAt { s with
          cancellations := s.cancellations.insert orderId order
          orderbooks := books'
          executor := executor' } pair buy p = s.queueAt pair buy p := by
        unfold EngineState.queueAt
        show ((books'.lookup pair).map _).getD [] = _
        rw [hc.books_eq, Finmap.lookup_insert_of_ne _ hpair]
      rw [hbook]
  | withdrawal step => exact Or.inl (hsame (by cases step <;> rfl))
  | deposit step => exact Or.inl (hsame (by cases step <;> rfl))
  | depositFailed step => exact Or.inl (hsame (by cases step <;> rfl))
  | _ => exact Or.inl (hsame rfl)

/-! ## Time priority -/

/-- The ids of the submissions of a sequence of commands, in order. -/
def submittedIds (commands : List Command) : List UInt64 :=
  commands.filterMap fun command =>
    match command with
    | .submit order => some order.id
    | _ => none

/-- The queues are in the order of `ids`, which lists the ids submitted so far. -/
structure EngineState.Queued (s : EngineState) (ids : List UInt64) : Prop where
  mem_iff : ∀ id, id ∈ ids ↔ s.submissions.lookup id ≠ none
  order : ∀ pair buy p, ((s.queueAt pair buy p).map OrderEntry.id).Pairwise fun a b =>
    ids.idxOf a < ids.idxOf b

/-- The ids after one more command. -/
theorem mem_submittedIds_step {s s' : EngineState} {command : Command} {outcome : Outcome}
    (h : (Journal.apply command).run s = (.ok outcome, s')) (id : UInt64) :
    s'.submissions.lookup id ≠ none ↔
      s.submissions.lookup id ≠ none ∨ id ∈ submittedIds [command] := by
  have heffect := Journal.apply_effect h
  constructor
  · intro hid
    rcases heffect.submissions_cases with heq | ⟨order, rfl, -, heq⟩
    · rw [heq] at hid
      exact Or.inl hid
    · rw [heq, lookup_insert_eq] at hid
      split at hid
      · next heq => exact Or.inr (List.mem_singleton.mpr heq)
      · exact Or.inl hid
  · rintro (hid | hid)
    · obtain ⟨original, horiginal⟩ := Option.ne_none_iff_exists'.mp hid
      rw [heffect.submissions_mono horiginal]
      exact Option.some_ne_none _
    · cases command with
      | submit order =>
        obtain rfl : id = order.id := List.mem_singleton.mp hid
        cases hlookup : s.submissions.lookup order.id with
        | some original =>
          rw [heffect.submissions_mono hlookup]
          exact Option.some_ne_none _
        | none =>
          rw [(Journal.apply_first_submit h hlookup).1, Finmap.lookup_insert]
          exact Option.some_ne_none _
      | _ => cases hid

/-- **One command** keeps the queues in order. -/
theorem EngineState.Queued.step {s s' : EngineState} {ids : List UInt64} {command : Command}
    {outcome : Outcome} (hq : s.Queued ids) (hs : s.Inv)
    (h : (Journal.apply command).run s = (.ok outcome, s')) :
    s'.Queued (ids ++ submittedIds [command]) where
  mem_iff := fun id => by
    rw [List.mem_append, hq.mem_iff, mem_submittedIds_step h]
  order := fun pair buy p => by
    -- the ids in the books were all submitted, so they keep their places
    have hmem : ∀ id ∈ (s.queueAt pair buy p).map OrderEntry.id, id ∈ ids := by
      intro id hid
      obtain ⟨o, ho, rfl⟩ := List.mem_map.mp hid
      obtain ⟨book, hbook, hflat⟩ := EngineState.mem_queueAt ho
      obtain ⟨original, horiginal, -⟩ := hs.submitted _ _ hbook o hflat
      rw [hq.mem_iff, horiginal]
      exact Option.some_ne_none _
    have hold : ((s.queueAt pair buy p).map OrderEntry.id).Pairwise fun a b =>
        (ids ++ submittedIds [command]).idxOf a < (ids ++ submittedIds [command]).idxOf b := by
      refine (hq.order pair buy p).imp_of_mem fun {a b} ha hb hlt => ?_
      rw [List.idxOf_append_of_mem (hmem a ha), List.idxOf_append_of_mem (hmem b hb)]
      exact hlt
    rcases (Journal.apply_effect h).queue_ids hs pair buy p with hsub | ⟨order, rfl, hnew, hids⟩
    · exact hold.sublist hsub
    · rw [hids, List.pairwise_append]
      refine ⟨hold, List.pairwise_singleton _ _, fun a ha b hb => ?_⟩
      obtain rfl := List.mem_singleton.mp hb
      have hfresh : order.id ∉ ids := fun hin => (hq.mem_iff _).mp hin hnew
      rw [List.idxOf_append_of_mem (hmem a ha), List.idxOf_append_of_notMem hfresh]
      have hlt := List.idxOf_lt_length_of_mem (hmem a ha)
      omega

/-- **A whole run** keeps the queues in order. -/
theorem Run.queued {s s' : EngineState} {history : List (Command × Outcome)}
    (h : Run s history s') {ids : List UInt64} (hs : s.Inv) (hq : s.Queued ids) :
    s'.Queued (ids ++ submittedIds (history.map Prod.fst)) := by
  induction h generalizing ids with
  | nil => rwa [List.map_nil, submittedIds, List.filterMap_nil, List.append_nil]
  | @cons s mid s' command outcome history head _ ih =>
    have hrest := ih ((Journal.apply_effect head).inv hs) (hq.step hs head)
    have hsplit : submittedIds (((command, outcome) :: history).map Prod.fst) =
        submittedIds [command] ++ submittedIds (history.map Prod.fst) := by
      rw [submittedIds, submittedIds, submittedIds, ← List.filterMap_append]
      rfl
    rw [hsplit, ← List.append_assoc]
    exact hrest

/-! ## The representation -/

/-- **What holds of the books** after the commands of `ids` were submitted. -/
structure EngineState.WellFormed (s : EngineState) (ids : List UInt64) : Prop where
  nonempty : ∀ pair book buy p queue, s.orderbooks.lookup pair = some book →
    (book.side buy).orders.find? p = some queue → queue ≠ []
  counter : ∀ pair book buy, s.orderbooks.lookup pair = some book →
    (book.side buy).totalOrders = ((book.side buy).orders.entries.map fun e => e.2.length).sum
  placed : ∀ pair book buy p queue, s.orderbooks.lookup pair = some book →
    (book.side buy).orders.find? p = some queue → ∀ o ∈ queue,
      o.orderSide = "limit" ∧ o.orderType = (if buy then "buy" else "sell") ∧
      (∃ q, o.price = some q ∧ q ≈ p) ∧ o.baseMint = pair.baseMint ∧ o.quoteMint = pair.quoteMint ∧
      0 < o.remainingAmount ∧ o.filledAmount.raw + o.remainingAmount.raw = o.amount.raw
  /-- Within a book no id occurs twice, and across books none occurs in two. -/
  once : ∀ pair book, s.orderbooks.lookup pair = some book → (book.flat.map OrderEntry.id).Nodup
  onceOver : ∀ pair book pair' book', s.orderbooks.lookup pair = some book →
    s.orderbooks.lookup pair' = some book' → ∀ o ∈ book.flat, ∀ o' ∈ book'.flat, o.id = o'.id →
      pair = pair'
  submitted : ∀ pair book, s.orderbooks.lookup pair = some book → ∀ o ∈ book.flat,
    o.id ∈ s.submissions ∧ o.id ∉ s.cancellations
  /-- The queues are in the order of the first submissions. -/
  fifo : ∀ pair book buy p queue, s.orderbooks.lookup pair = some book →
    (book.side buy).orders.find? p = some queue →
      queue.Pairwise fun o o' => ids.idxOf o.id < ids.idxOf o'.id

theorem Resting.placed {pair : TradingPair} {buy : Bool} {p : Decimal} {o : OrderEntry}
    (h : Resting pair buy p o) :
    o.orderSide = "limit" ∧ o.orderType = (if buy then "buy" else "sell") ∧
      (∃ q, o.price = some q ∧ q ≈ p) ∧ o.baseMint = pair.baseMint ∧ o.quoteMint = pair.quoteMint ∧
      0 < o.remainingAmount ∧ o.filledAmount.raw + o.remainingAmount.raw = o.amount.raw := by
  obtain ⟨-, -, x, a, f, r, hl⟩ := (validate_limit_iff h.limit).mp h.valid
  obtain ⟨d, hd, -, -⟩ := hl.price
  have hlevel := h.price
  rw [hd] at hlevel
  refine ⟨h.limit, h.side, ⟨d, hd, Option.some.inj hlevel⟩, congrArg TradingPair.baseMint h.pair,
    congrArg TradingPair.quoteMint h.pair, (pos_iff_units hl.remaining).mpr hl.remaining_pos, ?_⟩
  rw [raw_eq_of_units hl.filled, raw_eq_of_units hl.remaining, raw_eq_of_units hl.amount,
    ← hl.balance, add_mul]

theorem EngineState.Inv.wellFormed {s : EngineState} {ids : List UInt64} (hs : s.Inv)
    (hq : s.Queued ids) : s.WellFormed ids where
  nonempty := fun pair book buy p queue hbook => ((hs.books _ _ hbook).side buy).nonempty p queue
  counter := fun pair book buy hbook => by
    rw [((hs.books _ _ hbook).side buy).counter, OrderBookSide.flat, List.length_flatMap]
  placed := fun pair book buy p queue hbook hqueue o ho =>
    (((hs.books _ _ hbook).side buy).resting p queue hqueue o ho).placed
  once := fun pair book hbook => (hs.books _ _ hbook).ids
  onceOver := fun pair book pair' book' hbook hbook' o ho o' ho' hid =>
    hs.pair_eq hbook hbook' ho ho' hid
  submitted := fun pair book hbook o ho => by
    obtain ⟨original, horiginal, -⟩ := hs.submitted _ _ hbook o ho
    exact ⟨Finmap.mem_of_lookup_eq_some horiginal,
      Finmap.lookup_eq_none.mp (hs.live _ _ hbook o ho)⟩
  fifo := fun pair book buy p queue hbook hqueue => by
    have horder := hq.order pair buy p
    rw [EngineState.queueAt_of_lookup hbook, OrderBookSide.queueAt, hqueue, Option.getD_some,
      List.pairwise_map] at horder
    exact horder

/-- **The representation invariant of the books.**  From every genesis every sequence
of commands runs to its end and leaves well-formed books. -/
theorem books_wellFormed {cache : BalanceCache} (hcache : cache.Valid) (commands : List Command) :
    ∃ outcomes s', (Journal.applyAll commands).run (.genesis cache) = (.ok outcomes, s') ∧
      outcomes.length = commands.length ∧ s'.WellFormed (submittedIds commands) := by
  have hinv := EngineState.inv_genesis hcache
  obtain ⟨outcomes, s', hrun, hlength, hhistory⟩ := Journal.applyAll_total hinv commands
  have hstart : (EngineState.genesis cache).Queued [] := by
    refine ⟨fun id => ⟨fun hid => (by cases hid), fun hid => ?_⟩, fun pair buy p => ?_⟩
    · exact absurd (Finmap.lookup_empty id) hid
    · rw [EngineState.queueAt]
      show ((((∅ : Books).lookup pair).map _).getD []).map OrderEntry.id |>.Pairwise _
      rw [Finmap.lookup_empty]
      exact List.Pairwise.nil
  have hqueued := hhistory.queued hinv hstart
  rw [List.nil_append, List.map_fst_zip hlength.ge] at hqueued
  exact ⟨outcomes, s', hrun, hlength, (hhistory.inv hinv).wellFormed hqueued⟩

/-- Two bids at one price, the first of them partly filled. -/
theorem books_wellFormed_twoBids :
    ∃ outcomes s', (Journal.applyAll
        [.submit (.limit 1 2 true Decimal.ONE (.ofScaled 2 0)),
          .submit (.limit 2 2 true Decimal.ONE Decimal.ONE),
          .submit (.limit 3 1 false Decimal.ONE Decimal.ONE)]).run
        (.genesis (EngineState.funded Decimal.ONE (.ofScaled 3 0))) = (.ok outcomes, s') ∧
      s'.WellFormed [1, 2, 3] := by
  have hone : units Decimal.ONE = .ok 1000000000 := rfl
  have hthree : units (.ofScaled 3 0) = .ok 3000000000 := rfl
  obtain ⟨outcomes, s', hrun, -, hwell⟩ := books_wellFormed (EngineState.valid_funded hone hthree)
    [.submit (.limit 1 2 true Decimal.ONE (.ofScaled 2 0)),
      .submit (.limit 2 2 true Decimal.ONE Decimal.ONE),
      .submit (.limit 3 1 false Decimal.ONE Decimal.ONE)]
  exact ⟨outcomes, s', hrun, hwell⟩

/-! ## No crossing -/

/-- A bid and an ask that could trade. -/
def Crossing (bid ask : OrderEntry) : Prop :=
  ∃ p q, bid.price = some p ∧ ask.price = some q ∧ q ≤ p

/-- Orders on both sides of a book cross only within one user. -/
def OrderBook.Uncrossed (book : OrderBook) : Prop :=
  ∀ bid ∈ book.buyOrders.flat, ∀ ask ∈ book.sellOrders.flat, Crossing bid ask →
    bid.userId = ask.userId

/-- `Uncrossed` with the sides named by a flag. -/
theorem OrderBook.uncrossed_iff {book : OrderBook} (buy : Bool) :
    book.Uncrossed ↔ ∀ o ∈ (book.side buy).flat, ∀ o' ∈ (book.side !buy).flat,
      (if buy then Crossing o o' else Crossing o' o) → o.userId = o'.userId := by
  cases buy with
  | true => exact Iff.rfl
  | false =>
    exact ⟨fun h o ho o' ho' hcross => (h o' ho' o ho hcross).symm,
      fun h bid hbid ask hask hcross => (h ask hask bid hbid hcross).symm⟩

/-- Crossing is read off the frames. -/
theorem Crossing.congr {bid bid' ask ask' : OrderEntry} (hb : bid'.frame = bid.frame)
    (ha : ask'.frame = ask.frame) (h : Crossing bid' ask') : Crossing bid ask := by
  rw [Crossing, ← OrderEntry.congr_frame OrderEntry.price hb,
    ← OrderEntry.congr_frame OrderEntry.price ha]
  exact h

section Remainder

variable {books books' : Books} {cache cache' : BalanceCache} {order : OrderEntry}
  {applied : AppliedSubmission} {book' : OrderBook} {plan : MatchPlan} {d : Demand}
  {fills : List Fill} {δ : Ledger} {reserved remaining refund : ℤ}

/-- A maker that crosses the remainder is inside the limit of the order. -/
theorem inside_of_crossing {p level : Decimal} {maker : OrderEntry} {makerBuy : Bool}
    (hbuy : makerBuy = (MatchPlan.start order).makerBuy) (hprice : order.price = some p)
    (hlevel : SameOption maker.price (some level))
    (hcross : if makerBuy then Crossing maker order else Crossing order maker) :
    (MatchPlan.start order).outsideLimit level = false := by
  have hraw : ∀ q, maker.price = some q → q.raw = level.raw := fun q hq => by
    rw [hq] at hlevel
    exact Option.some.inj hlevel
  have hlimit : (MatchPlan.start order).order.price = some p := hprice
  unfold MatchPlan.outsideLimit
  rw [hlimit, ← hbuy]
  cases makerBuy with
  | true =>
    obtain ⟨x, y, hx, hy, hle⟩ := hcross
    obtain rfl := Option.some.inj (hprice.symm.trans hy)
    rw [Decimal.le_def, hraw x hx] at hle
    simpa [Decimal.lt_def] using hle
  | false =>
    obtain ⟨x, y, hx, hy, hle⟩ := hcross
    obtain rfl := Option.some.inj (hprice.symm.trans hx)
    rw [Decimal.le_def, hraw y hy] at hle
    simpa [Decimal.lt_def] using hle

/-- **The remainder of a submission crosses nobody else.**  Every maker of another
user inside the limit was used up. -/
theorem Submission.Applied.not_crossing
    (h : Applied books cache order applied books' cache' book' plan d fills δ reserved remaining
      refund) (hbook : (bookOf books order).Inv order.pair)
    (hcommitted : Committed (bookOf books order) book' plan.makerBuy fills plan.remainder)
    {p : Decimal} (hremainder : plan.remainder = some (p, plan.order)) {maker : OrderEntry}
    (hmaker : maker ∈ (book'.side plan.makerBuy).flat)
    (hcross : if plan.makerBuy then Crossing maker plan.order else Crossing plan.order maker) :
    maker.userId = plan.order.userId := by
  have hframe : plan.order.frame = order.frame := h.advance.frame
  have hfills := h.advance.fillsOf hbook
  obtain ⟨-, hprice, hside, hpos⟩ := MatchPlan.remainder_eq_some hremainder
  have hlimit : order.orderSide = "limit" :=
    (OrderEntry.congr_frame OrderEntry.orderSide hframe).symm.trans hside
  rw [OrderEntry.congr_frame OrderEntry.price hframe] at hprice
  obtain ⟨-, -, x, a, f, r, hl⟩ := (validate_limit_iff hlimit).mp h.valid
  rw [hcommitted.makers_flat, List.mem_filterMap] at hmaker
  obtain ⟨old, hold, hreplace⟩ := hmaker
  have hmakerFrame : maker.frame = old.frame :=
    hfills.frame_of_replace (hbook.side_ids plan.makerBuy) hold hreplace
  rw [OrderEntry.congr_frame OrderEntry.userId hmakerFrame,
    OrderEntry.congr_frame OrderEntry.userId hframe]
  by_contra hother
  -- the old order is a maker inside the limit, so the plan visited it
  obtain ⟨level, queue, hqueue, hmem⟩ := OrderBookSide.mem_flat_iff.mp hold
  obtain ⟨k, hk, hentry⟩ := SortedMap.find?_eq_some_iff.mp hqueue
  have hrest := ((hbook.side plan.makerBuy).resting _ _ hqueue _ hmem).congr hk
  have hcross' : if plan.makerBuy then Crossing old order else Crossing order old := by
    split
    · next hb =>
      rw [if_pos hb] at hcross
      exact hcross.congr hmakerFrame hframe
    · next hb =>
      rw [if_neg hb] at hcross
      exact hcross.congr hframe hmakerFrame
  have hinside := inside_of_crossing h.advance.makerBuy hprice hrest.price hcross'
  rw [h.advance.makerBuy] at hentry
  have hvisit := mem_visits_of_inside hentry hmem hinside
  have hoffer : (k, old) ∈ offers order.userId (visits order (bookOf books order)) :=
    List.mem_filter.mpr ⟨hvisit, decide_eq_true hother⟩
  -- something is left of the order, so the maker was used up
  have hgood : ∀ v ∈ offers order.userId (visits order (bookOf books order)), terms.Good v :=
    fun v hv => good_of_mem_visits hbook (List.mem_of_mem_filter hv)
  have hall := (maximal_quantity h.denotes hgood h.advance hl.noBudget.2).resolve_left
    fun hzero => by
      have hpos' := (pos_iff_units hzero).mp hpos
      exact lt_irrefl _ hpos'
  rw [← map_fst_allocate (t := terms) d
    (offers order.userId (visits order (bookOf books order))), List.mem_map] at hoffer
  obtain ⟨e, he, hfst⟩ := hoffer
  have hfull := hall e he
  rw [FilledUp, hfst] at hfull
  obtain ⟨-, -, x', a', f', r', hl'⟩ := (validate_limit_iff hrest.limit).mp hrest.valid
  have hne : e.2 ≠ 0 := by
    rw [hfull, unitsOf_eq hl'.remaining]
    exact hl'.remaining_pos.ne'
  have hfill : e ∈ fills.map Fill.entry := by
    rw [h.advance.entries]
    exact List.mem_filter.mpr ⟨he, decide_eq_true hne⟩
  obtain ⟨g, hg, hge⟩ := List.mem_map.mp hfill
  have hgmaker : g.maker = old := congrArg (fun e : Visit × ℤ => e.1.2) hge |>.trans
    (congrArg Prod.snd hfst)
  have hgq : unitsOf g.quantity = unitsOf old.remainingAmount :=
    (congrArg Prod.snd hge).trans hfull
  have hchanged : changedBy fills old.id = some g.rest :=
    hfills.changedBy_eq_some.mpr ⟨g, hg, congrArg OrderEntry.id hgmaker, rfl⟩
  rcases replace_eq_some.mp hreplace with ⟨hnone, -⟩ | ⟨hsome, hleft⟩
  · rw [hnone] at hchanged
    cases hchanged
  · obtain rfl := Option.some.inj (hchanged.symm.trans hsome)
    obtain ⟨q, r'', f'', hq, hr, -, hzero, -⟩ := Fill.filledMaker_ok (hfills.ok g hg).rest
    rw [hgmaker] at hr
    have hqr : q = r'' := by
      rw [← unitsOf_eq hq, hgq, unitsOf_eq hr]
    rw [hqr, sub_self] at hzero
    exact lt_irrefl _ ((pos_iff_units hzero).mp hleft)

end Remainder

/-- **One transition** keeps the books uncrossed. -/
theorem Effect.uncrossed {s s' : EngineState} {command : Command} {outcome : Outcome}
    (h : Effect s command outcome s') (hs : s.Inv)
    (hbooks : ∀ pair book, s.orderbooks.lookup pair = some book → book.Uncrossed) :
    ∀ pair book, s'.orderbooks.lookup pair = some book → book.Uncrossed := by
  cases h with
  | @submitted order applied books' executor' trades hnew hrun houtputs =>
    obtain ⟨book', plan, d, fills, δ, reserved, remaining, refund, happlied, -, hfills,
      hcommitted⟩ := hs.applied hnew hrun
    intro pair book hbook
    change books'.lookup pair = some book at hbook
    rw [happlied.books_eq, lookup_insert_eq] at hbook
    split at hbook
    · cases hbook
      have hold : (Submission.bookOf s.orderbooks order).Uncrossed := by
        unfold Submission.bookOf
        cases hlookup : s.orderbooks.lookup order.pair with
        | some book => exact hbooks _ _ hlookup
        | none => exact fun bid hbid => (by cases hbid)
      rw [OrderBook.uncrossed_iff plan.makerBuy] at hold ⊢
      intro maker hmaker o ho hcross
      rcases List.mem_append.mp (hcommitted.taker_flat.mem_iff.mp ho) with hadded | hstayed
      · obtain ⟨⟨p, o'⟩, hp, rfl⟩ := List.mem_map.mp hadded
        have hremainder := Option.mem_toList.mp hp
        obtain ⟨rfl, -⟩ := MatchPlan.remainder_eq_some hremainder
        exact happlied.not_crossing (hs.bookOf order) hcommitted hremainder hmaker hcross
      · have hmaker' := hmaker
        rw [hcommitted.makers_flat, List.mem_filterMap] at hmaker'
        obtain ⟨old, hmem, hreplace⟩ := hmaker'
        have hframe : maker.frame = old.frame := 
          hfills.frame_of_replace ((hs.bookOf order).side_ids _) hmem hreplace
        rw [OrderEntry.congr_frame OrderEntry.userId hframe]
        refine hold old hmem o hstayed ?_
        split
        · next hb =>
          rw [if_pos hb] at hcross
          exact hcross.congr hframe rfl
        · next hb =>
          rw [if_neg hb] at hcross
          exact hcross.congr rfl hframe
    · exact hbooks _ _ hbook
  | @cancelled orderId userId pair order books' executor' _ hrun =>
    obtain ⟨book, buy, level, queue, side', v, hc⟩ := Threads.cancelOrder_ok hrun
    obtain ⟨-, hperm, -, -, -⟩ := hc.book (hs.books _ _ hc.lookup)
    intro pair' book' hbook'
    change books'.lookup pair' = some book' at hbook'
    rw [hc.books_eq, lookup_insert_eq] at hbook'
    split at hbook'
    · cases hbook'
      have hold := (OrderBook.uncrossed_iff buy).mp (hbooks _ _ hc.lookup)
      rw [OrderBook.uncrossed_iff buy, OrderBook.side_setSide_same, OrderBook.side_setSide_not]
      intro o ho o' ho'
      exact hold o (hperm.mem_iff.mpr (List.mem_cons_of_mem _ ho)) o' ho'
    · exact hbooks _ _ hbook'
  | withdrawal step => cases step <;> exact hbooks
  | deposit step => cases step <;> exact hbooks
  | depositFailed step => cases step <;> exact hbooks
  | _ => exact hbooks

theorem Run.uncrossed {s s' : EngineState} {history : List (Command × Outcome)}
    (h : Run s history s') (hs : s.Inv)
    (hbooks : ∀ pair book, s.orderbooks.lookup pair = some book → book.Uncrossed) :
    ∀ pair book, s'.orderbooks.lookup pair = some book → book.Uncrossed := by
  induction h with
  | nil => exact hbooks
  | cons head _ ih =>
    have heffect := Journal.apply_effect head
    exact ih (heffect.inv hs) (heffect.uncrossed hs hbooks)

/-- **Books never stay crossed between different users.** -/
theorem books_uncrossed {cache : BalanceCache} (hcache : cache.Valid) (commands : List Command) :
    ∃ outcomes s', (Journal.applyAll commands).run (.genesis cache) = (.ok outcomes, s') ∧
      outcomes.length = commands.length ∧
      ∀ pair book, s'.orderbooks.lookup pair = some book →
        ∀ bid ∈ book.buyOrders.flat, ∀ ask ∈ book.sellOrders.flat, ∀ p q, bid.price = some p →
          ask.price = some q → q ≤ p → bid.userId = ask.userId := by
  have hinv := EngineState.inv_genesis hcache
  obtain ⟨outcomes, s', hrun, hlength, hhistory⟩ := Journal.applyAll_total hinv commands
  refine ⟨outcomes, s', hrun, hlength, fun pair book hbook bid hbid ask hask p q hp hq hle => ?_⟩
  refine hhistory.uncrossed hinv (fun pair book hbook => ?_) pair book hbook bid hbid ask hask
    ⟨p, q, hp, hq, hle⟩
  change Finmap.lookup pair (∅ : Books) = some book at hbook
  rw [Finmap.lookup_empty] at hbook
  cases hbook

/-- A user whose own bid and ask cross. -/
theorem books_uncrossed_selfOrders :
    ∃ outcomes s', (Journal.applyAll
        [.balance 2 "BTC" Decimal.ONE, .submit (.limit 1 2 true Decimal.ONE Decimal.ONE),
          .submit (.limit 2 2 false Decimal.ONE Decimal.ONE)]).run
        (.genesis (EngineState.funded Decimal.ONE Decimal.ONE)) = (.ok outcomes, s') ∧
      ∀ pair book, s'.orderbooks.lookup pair = some book →
        ∀ bid ∈ book.buyOrders.flat, ∀ ask ∈ book.sellOrders.flat, ∀ p q, bid.price = some p →
          ask.price = some q → q ≤ p → bid.userId = ask.userId := by
  have hone : units Decimal.ONE = .ok 1000000000 := rfl
  obtain ⟨outcomes, s', hrun, -, huncrossed⟩ :=
    books_uncrossed (EngineState.valid_funded hone hone)
      [.balance 2 "BTC" Decimal.ONE, .submit (.limit 1 2 true Decimal.ONE Decimal.ONE),
        .submit (.limit 2 2 false Decimal.ONE Decimal.ONE)]
  exact ⟨outcomes, s', hrun, huncrossed⟩

end CexEngine
