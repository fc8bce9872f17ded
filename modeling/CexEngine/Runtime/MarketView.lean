import CexEngine.Runtime.Books
import CexEngine.Runtime.Coverage
import CexEngine.Runtime.MarketIndex
import CexEngine.Runtime.Recovery

/-!
# The public market refines the order books

The core publishes no books.  The projection of `market.rs` rebuilds them from the records: it knows
of an order what its submission said and what the trades took from it since, and it keeps the levels
as sums of its own.  That these are the books of the core is a refinement: `flatOf s` lists the resting
orders of the state `s`, market by market, and `Shows P (flatOf s)` is the relation between the two.

The relation is kept record by record.  Three kinds of records touch it:

* an executed submission (`Shows.submitted`).  Its trades reduce the makers one after the other and its
  remainder is added; the core does the same to its queues at once, from the plan.  Both ends are lists
  of orders, and `flatOf_committed` says that the two lists are permutations of each other.  The new id
  is in no list before (`ne_of_new`), also after the makers have given up their fills
  (`ne_of_filled`), so the index is extended and never overwritten;
* a cancellation (`Shows.cancelled`), which takes one order out;
* every other record, which is about no market (`apply_quiet`).

`Shows.step` puts them together, and in passing shows that the projection returns no error and does not
panic on a record of the core: each lookup it makes finds the order, and no level falls below zero.
`Shows.run` is the induction over a history, from the empty projection and any genesis.

A snapshot is read from the view alone, when the record has been taken.  By `Shows.entries` the levels
of the view are the queues of the core with their sums, in the same order, so `Shows.snapshot` can say
that the texts of a snapshot denote the best levels of the core; and its `previous_sequence` is the
record before it about the same market (`lastSequence`).
-/

namespace CexEngine

open Foundation Foundation.FiniteMap Foundation.DigitText Amount

namespace Market

/-! ## The books of the core -/

/-- A side of a market, empty where there is no book. -/
def sideOf (s : EngineState) (pair : TradingPair) (buy : Bool) : OrderBookSide :=
  ((s.orderbooks.lookup pair).map fun book => book.side buy).getD OrderBookSide.new

/-- The resting orders of the core. -/
def flatOf (s : EngineState) : Flat := fun pair buy => (sideOf s pair buy).flat

/-- The units of a queue. -/
def queueUnits (queue : List OrderEntry) : ℤ := (queue.map fun o => unitsOf o.remainingAmount).sum

theorem sideOf_of_lookup {s : EngineState} {pair : TradingPair} {book : OrderBook}
    (h : s.orderbooks.lookup pair = some book) (buy : Bool) : sideOf s pair buy = book.side buy := by
  rw [sideOf, h, Option.map_some, Option.getD_some]

theorem sideOf_bookOf (s : EngineState) (order : OrderEntry) (buy : Bool) :
    sideOf s order.pair buy = (Submission.bookOf s.orderbooks order).side buy := by
  unfold Submission.bookOf sideOf
  cases hbook : s.orderbooks.lookup order.pair with
  | some book => rfl
  | none => cases buy <;> rfl

theorem sideOf_inv {s : EngineState} (hs : s.Inv) (pair : TradingPair) (buy : Bool) :
    (sideOf s pair buy).Inv pair buy := by
  cases hbook : s.orderbooks.lookup pair with
  | some book =>
    rw [sideOf_of_lookup hbook]
    exact (hs.books _ _ hbook).side buy
  | none =>
    rw [sideOf, hbook]
    have hnew := (OrderBook.inv_new pair).side buy
    cases buy <;> exact hnew

theorem queueAt_sideOf (s : EngineState) (pair : TradingPair) (buy : Bool) (p : Decimal) :
    (sideOf s pair buy).queueAt p = s.queueAt pair buy p := by
  unfold sideOf EngineState.queueAt
  cases s.orderbooks.lookup pair <;> rfl

section Side

variable {pair : TradingPair} {buy : Bool} {side : OrderBookSide}

theorem resting_units {p : Decimal} {o : OrderEntry} (h : CexEngine.Resting pair buy p o) :
    units o.remainingAmount = .ok (unitsOf o.remainingAmount) ∧ 0 < unitsOf o.remainingAmount ∧
      SameOption o.price (some p) ∧ 0 < p := by
  obtain ⟨-, -, x, a, f, r, hl⟩ := (validate_limit_iff h.limit).mp h.valid
  obtain ⟨d, hd, hdu, -⟩ := hl.price
  have hlevel := h.price
  rw [unitsOf_eq hl.remaining]
  refine ⟨hl.remaining, hl.remaining_pos, hlevel, ?_⟩
  rw [hd] at hlevel
  have hraw : d.raw = p.raw := Option.some.inj hlevel
  show 0 < p.raw
  rw [← hraw]
  exact (pos_iff_units hdu).mpr hl.price_pos

/-- Orders that rest at other prices add nothing. -/
theorem levelAt_eq_zero {p : Decimal} {os : List OrderEntry}
    (h : ∀ o ∈ os, ∃ p', SameOption o.price (some p') ∧ p.raw ≠ p'.raw) : levelAt p os = 0 := by
  refine List.sum_eq_zero fun n hn => ?_
  obtain ⟨o, ho, rfl⟩ := List.mem_map.mp hn
  obtain ⟨p', hp', hne⟩ := h o ho
  exact shareAt_of_ne hp' hne

/-- **The level of a price is its queue.** -/
theorem level_queue (h : side.Inv pair buy) (p : Decimal) :
    (side.orders.find? p).map queueUnits = nonzero (levelAt p side.flat) := by
  cases hfind : side.orders.find? p with
  | none =>
    have hzero : levelAt p side.flat = 0 := by
      refine levelAt_eq_zero fun o ho => ?_
      obtain ⟨p', queue, hqueue, hmem⟩ := OrderBookSide.mem_flat_iff.mp ho
      refine ⟨p', (h.resting p' queue hqueue o hmem).price, fun heq => ?_⟩
      rw [SortedMap.find?_congr _ heq, hqueue] at hfind
      cases hfind
    rw [hzero]
    rfl
  | some queue =>
    obtain ⟨A, B, hflat, hset⟩ := OrderBookSide.setQueue_split hfind
    -- the side without the queue
    have hothers : levelAt p (A ++ B) = 0 := by
      refine levelAt_eq_zero fun o ho => ?_
      have hmem : o ∈ OrderBookSide.flat ⟨OrderBookSide.setQueue side.orders p [], 0⟩ := by
        rw [hset, List.append_nil]
        exact ho
      obtain ⟨p', queue', hqueue', ho'⟩ := OrderBookSide.mem_flat_iff.mp hmem
      rw [OrderBookSide.find?_setQueue] at hqueue'
      split at hqueue'
      · cases hqueue'
      · next hne => exact ⟨p', (h.resting p' queue' hqueue' o ho').price, Ne.symm hne⟩
    have hqueue : levelAt p queue = queueUnits queue := by
      rw [levelAt, queueUnits]
      exact congrArg List.sum (List.map_congr_left fun o ho =>
        if_pos (resting_units (h.resting p queue hfind o ho)).2.2.1)
    have hlevel : levelAt p side.flat = queueUnits queue := by
      rw [hflat, ← hqueue, List.append_assoc]
      unfold levelAt at hothers ⊢
      simp only [List.map_append, List.sum_append] at hothers ⊢
      omega
    have hpos : 0 < queueUnits queue := by
      refine List.sum_pos _ (fun n hn => ?_) ?_
      · obtain ⟨o, ho, rfl⟩ := List.mem_map.mp hn
        exact (resting_units (h.resting p queue hfind o ho)).2.1
      · rw [Ne, List.map_eq_nil_iff]
        exact h.nonempty p queue hfind
    rw [hlevel, nonzero, if_neg hpos.ne', Option.map_some]

end Side

/-! ## One record -/

/-- The market a record is about: that of an executed submission or a cancellation. -/
def marketPair (record : Record) : Option TradingPair :=
  match record.command, record.outcome with
  | .submit order, .applied (some (.submitted _ _ _)) => some order.pair
  | _, .applied (some (.cancelled order)) => some order.pair
  | _, _ => none

/-- The sequence of the last record about a market. -/
def lastSequence (pair : TradingPair) (records : List Record) : ℕ :=
  records.foldl (fun n record => if marketPair record = some pair then record.sequence else n) 0

theorem lastSequence_concat (pair : TradingPair) (records : List Record) (record : Record) :
    lastSequence pair (records ++ [record]) =
      if marketPair record = some pair then record.sequence else lastSequence pair records := by
  rw [lastSequence, List.foldl_append, List.foldl_cons, List.foldl_nil]
  rfl

/-- A published level: the text of a price, and the text of what rests there. -/
def Shown (text : String × String) (level : Decimal × List OrderEntry) : Prop :=
  DigitText.Denotes text.1.toList ((level.1.raw : ℚ) / 10 ^ 28) ∧
    DigitText.Denotes text.2.toList ((queueUnits level.2 : ℚ) / 10 ^ 9)

/-- **What a snapshot publishes**: the best levels of the core after its record. -/
structure Published (before : List Record) (record : Record) (pair : TradingPair)
    (s : EngineState) (event : MarketSnapshot) : Prop where
  market : event.baseMint = pair.baseMint ∧ event.quoteMint = pair.quoteMint
  sequence : event.sequence = toString record.sequence
  previous : event.previousSequence = toString (lastSequence pair before)
  bids : List.Forall₂ Shown event.bids ((sideOf s pair true).orders.entries.reverse.take 20)
  asks : List.Forall₂ Shown event.asks ((sideOf s pair false).orders.entries.take 20)

/-- **What a record does**, after the records `before` and with the core in `s`: the view
shows the core again, and it publishes a snapshot if the record is about a market. -/
structure Followed (before : List Record) (record : Record) (s : EngineState)
    (event : Option MarketSnapshot) (P : Projection) : Prop where
  emitted : event = none ↔ marketPair record = none
  published : ∀ snapshot, event = some snapshot → ∃ pair, marketPair record = some pair ∧
    Published before record pair s snapshot
  shows : Shows P (flatOf s)
  last : ∀ pair, (P.bookEntry pair).sequence = lastSequence pair (before ++ [record])

section Record

variable {P : Projection} {flat : Flat} {s s' : EngineState}

/-- The levels of the view are the queues of the core. -/
theorem Shows.entries (h : Shows P (flatOf s)) (hs : s.Inv) (pair : TradingPair) (buy : Bool) :
    List.Forall₂ (fun (a : Decimal × ℤ) (b : Decimal × List OrderEntry) =>
        a.1.raw = b.1.raw ∧ a.2 = queueUnits b.2)
      ((P.bookEntry pair).levels buy).entries (sideOf s pair buy).orders.entries := by
  have hfind : ∀ p, ((P.bookEntry pair).levels buy).find? p =
      ((sideOf s pair buy).orders.mapVals queueUnits).find? p := fun p => by
    rw [h.level, SortedMap.find?_mapVals, level_queue (sideOf_inv hs pair buy)]
    rfl
  have hmap := SortedMap.ext_find? hfind
  rw [SortedMap.mapVals, List.map_map] at hmap
  have hall := List.forall₂_eq_eq_eq.symm ▸ hmap
  rw [List.forall₂_map_left_iff, List.forall₂_map_right_iff] at hall
  exact hall.imp fun a b hab => Prod.mk.inj hab

theorem shown_of_entries {levels : List (Decimal × ℤ)} {entries : List (Decimal × List OrderEntry)}
    (h : List.Forall₂ (fun (a : Decimal × ℤ) (b : Decimal × List OrderEntry) =>
      a.1.raw = b.1.raw ∧ a.2 = queueUnits b.2) levels entries)
    (hpos : ∀ e ∈ entries, 0 < e.1 ∧ 0 ≤ queueUnits e.2) :
    List.Forall₂ Shown (levelTexts levels) (entries.take 20) := by
  have hboth := ((List.forall₂_and_left entries levels).mpr ⟨hpos, h.flip⟩).flip
  rw [levelTexts, List.forall₂_map_left_iff]
  refine (List.forall₂_take 20 hboth).imp ?_
  rintro ⟨price, units⟩ ⟨level, queue⟩ ⟨⟨hlevel, hqueue⟩, hraw, hunits⟩
  replace hraw : price.raw = level.raw := hraw
  obtain rfl : units = queueUnits queue := hunits
  have hprice : (0 : ℤ) < price.raw := hraw ▸ hlevel
  refine ⟨?_, denotes_quantityText hqueue⟩
  show DigitText.Denotes (decimalText price).toList ((level.raw : ℚ) / 10 ^ 28)
  rw [← hraw]
  exact denotes_decimalText hprice

theorem entries_pos (hs : s.Inv) (pair : TradingPair) (buy : Bool) :
    ∀ e ∈ (sideOf s pair buy).orders.entries, 0 < e.1 ∧ 0 ≤ queueUnits e.2 := by
  intro e he
  have hinv := sideOf_inv hs pair buy
  have hfind := SortedMap.find?_of_mem he
  have hrest : ∀ o ∈ e.2, CexEngine.Resting pair buy e.1 o := hinv.resting _ _ hfind
  obtain ⟨o, queue, hqueue⟩ := List.exists_cons_of_ne_nil (hinv.nonempty _ _ hfind)
  refine ⟨(resting_units (hrest o (by rw [hqueue]; exact List.mem_cons_self ..))).2.2.2, ?_⟩
  refine List.sum_nonneg fun n hn => ?_
  obtain ⟨o', ho', rfl⟩ := List.mem_map.mp hn
  exact (resting_units (hrest o' ho')).2.1.le

/-- **A snapshot** publishes the levels and changes none. -/
theorem Shows.snapshot (h : Shows P (flatOf s)) (hs : s.Inv) {before : List Record}
    (hseq : ∀ pair, (P.bookEntry pair).sequence = lastSequence pair before) {record : Record}
    {pair : TradingPair} (hpair : marketPair record = some pair) (engineId : String)
    (trades : List MarketTrade) :
    ∃ event P', (Projection.snapshot record engineId pair trades).run P = (.ok event, P') ∧
      Followed before record s event P' := by
  refine ⟨_, _, rfl, ⟨nofun, fun hnone => ?_⟩, ?_, ⟨h.ids, h.pos, h.index, h.only, ?_⟩, ?_⟩
  · rw [hpair] at hnone
    cases hnone
  · rintro snapshot ⟨⟩
    refine ⟨pair, hpair, ⟨rfl, rfl⟩, rfl, ?_, ?_, ?_⟩
    · exact congrArg toString (hseq pair)
    · have hentries := h.entries hs pair true
      exact shown_of_entries (List.rel_reverse hentries) fun e he =>
        entries_pos hs pair true e (List.mem_reverse.mp he)
    · exact shown_of_entries (h.entries hs pair false) (entries_pos hs pair false)
  · intro pair' buy p
    rw [← h.level]
    show (((P.setBook pair { P.bookEntry pair with sequence := record.sequence }).bookEntry pair').levels
      buy).find? p = _
    rw [bookEntry_setBook]
    split
    · next heq =>
      rw [heq]
      cases buy <;> rfl
    · rfl
  · intro pair'
    show ((P.setBook pair { P.bookEntry pair with sequence := record.sequence }).bookEntry
      pair').sequence = _
    rw [bookEntry_setBook, lastSequence_concat, hpair]
    by_cases heq : pair' = pair
    · rw [if_pos heq, if_pos (congrArg some heq.symm)]
    · rw [if_neg heq, if_neg fun h => heq (Option.some.inj h).symm]
      exact hseq pair'

/-- A record about no market. -/
theorem apply_quiet {record : Record} (h : marketPair record = none) (engineId : String) :
    (Projection.apply record engineId).run P = (.ok none, P) := by
  unfold marketPair at h
  unfold Projection.apply
  split
  · next hc ho =>
    rw [hc, ho] at h
    cases h
  · next order ho =>
    rw [ho] at h
    split at h
    · cases h
    · cases h
    · next hne _ => exact absurd rfl (hne order)
  · rfl

/-- The flat lists after a write to one market. -/
theorem flatOf_insert {pair : TradingPair} {book' : OrderBook}
    (h : s'.orderbooks = s.orderbooks.insert pair book') (pair' : TradingPair) (buy : Bool) :
    flatOf s' pair' buy = if pair' = pair then (book'.side buy).flat else flatOf s pair' buy := by
  unfold flatOf sideOf
  rw [h, lookup_insert_eq]
  split <;> rfl

theorem mem_flatOf {pair : TradingPair} {buy : Bool} {o : OrderEntry}
    (ho : o ∈ flatOf s pair buy) : ∃ book, s.orderbooks.lookup pair = some book ∧ o ∈ book.flat := by
  unfold flatOf sideOf at ho
  cases hbook : s.orderbooks.lookup pair with
  | some book =>
    rw [hbook, Option.map_some, Option.getD_some] at ho
    exact ⟨book, rfl, OrderBook.mem_flat_iff.mpr ⟨buy, ho⟩⟩
  | none =>
    rw [hbook] at ho
    cases ho

/-- **The remainder of a limit order.** -/
theorem Shows.addRemainder (h : Shows P flat) {order : OrderEntry} {book : OrderBook}
    {plan : MatchPlan} (hplan : planOrder order book = .ok plan)
    (hfresh : ∀ pair buy, ∀ o ∈ flat pair buy, o.id ≠ order.id) :
    ∃ P', (Projection.addRemainder order plan.totalAmount).run P = (.ok (), P') ∧
      Shows P' (plan.remainder.elim flat fun a =>
        setFlat flat order.pair (decide (order.orderType = "buy"))
          (a.2 :: flat order.pair (decide (order.orderType = "buy")))) ∧
      ∀ pair, (P'.bookEntry pair).sequence = (P.bookEntry pair).sequence := by
  obtain ⟨d, os, fills, hp⟩ := Submission.planned hplan
  have hframe : plan.order.frame = order.frame := hp.advance.frame
  have hside : plan.order.orderSide = order.orderSide := OrderEntry.congr_frame OrderEntry.orderSide hframe
  rw [Projection.addRemainder]
  by_cases hlimit : order.orderSide = "limit"
  · obtain ⟨-, -, p, a, f, r, hl⟩ := (validate_limit_iff hlimit).mp hp.valid
    obtain ⟨price, hprice, -⟩ := hl.price
    obtain ⟨-, hleft⟩ := hp.remaining hl.noBudget.2
    rw [unitsOf_eq hl.amount] at hleft
    obtain ⟨remaining, hsub, hunits⟩ := exists_subtract hl.amount hp.totals.1 ⟨_, hleft⟩
    have hplanPrice : plan.order.price = some price :=
      (OrderEntry.congr_frame OrderEntry.price hframe).trans hprice
    simp only [if_pos hlimit, Mut.run_bind, Mut.run_lift, hsub]
    by_cases hpos : 0 < remaining
    · have hunitsPos := (pos_iff_units hunits).mp hpos
      have hremainder : plan.remainder = some (price, plan.order) := by
        rw [MatchPlan.remainder, if_pos ⟨hside.trans hlimit, (pos_iff_units hleft).mpr hunitsPos⟩,
          hplanPrice, Option.map_some]
      obtain ⟨P', hrun, hshows, hseq⟩ := h.rest hunits hunitsPos hleft
        (OrderEntry.congr_frame OrderEntry.id hframe)
        (show SameOption plan.order.price (some price) by rw [hplanPrice]; rfl) hfresh
      refine ⟨P', ?_, ?_, hseq⟩
      · rw [if_pos hpos, hprice]
        exact hrun
      · rw [hremainder]
        exact hshows
    · have hremainder : plan.remainder = none := by
        rw [MatchPlan.remainder, if_neg]
        rintro ⟨-, hrest⟩
        exact hpos ((pos_iff_units hunits).mpr ((pos_iff_units hleft).mp hrest))
      rw [if_neg hpos, hremainder]
      exact ⟨P, rfl, h, fun _ => rfl⟩
  · have hremainder : plan.remainder = none := by
      rw [MatchPlan.remainder, if_neg fun hcond => hlimit (hside.symm.trans hcond.1)]
    rw [if_neg hlimit, hremainder]
    exact ⟨P, rfl, h, fun _ => rfl⟩

section Submitted

variable {order : OrderEntry} {makerBuy : Bool} {fills : List Fill} {others : List OrderEntry}

/-- A new order is not among the resting ones. -/
theorem ne_of_new (hs : s.Inv) (hnew : s.submissions.lookup order.id = none) {pair : TradingPair}
    {buy : Bool} {o : OrderEntry} (ho : o ∈ flatOf s pair buy) : o.id ≠ order.id := by
  intro hid
  obtain ⟨book, hbook, hmem⟩ := mem_flatOf ho
  obtain ⟨original, horiginal, -⟩ := hs.submitted _ _ hbook o hmem
  rw [hid, hnew] at horiginal
  cases horiginal

/-- Nor is it when the makers have given up their fills. -/
theorem ne_of_filled (hs : s.Inv) (hnew : s.submissions.lookup order.id = none)
    (hfills : FillsOf ((Submission.bookOf s.orderbooks order).side makerBuy) fills)
    (hafter : (((Submission.bookOf s.orderbooks order).side makerBuy).flat.filterMap
      (replace (changedBy fills))).Perm (fills.filterMap (fun f => kept f.rest) ++ others))
    {pair : TradingPair} {buy : Bool} {o : OrderEntry} (ho : o ∈ setFlat (flatOf s) order.pair makerBuy
      (fills.filterMap (fun f => kept f.rest) ++ others) pair buy) : o.id ≠ order.id := by
  by_cases hat : pair = order.pair ∧ buy = makerBuy
  · rw [hat.1, hat.2, setFlat_same] at ho
    obtain ⟨o', ho', hreplace⟩ := List.mem_filterMap.mp (hafter.mem_iff.mpr ho)
    rw [OrderEntry.congr_frame OrderEntry.id
      (hfills.frame_of_replace ((hs.bookOf order).side_ids makerBuy) ho' hreplace)]
    have hbefore : o' ∈ flatOf s order.pair makerBuy := by
      rwa [flatOf, sideOf_bookOf]
    exact ne_of_new hs hnew hbefore
  · rw [setFlat_ne hat] at ho
    exact ne_of_new hs hnew ho

/-- **The lists after the fills and with the remainder are those of the core.** -/
theorem flatOf_committed {book' : OrderBook} {added : Option (Decimal × OrderEntry)}
    (hbooks : s'.orderbooks = s.orderbooks.insert order.pair book')
    (hcommitted : Committed (Submission.bookOf s.orderbooks order) book' makerBuy fills added)
    (hafter : (((Submission.bookOf s.orderbooks order).side makerBuy).flat.filterMap
      (replace (changedBy fills))).Perm (fills.filterMap (fun f => kept f.rest) ++ others))
    (pair : TradingPair) (buy : Bool) :
    let filled := setFlat (flatOf s) order.pair makerBuy
      (fills.filterMap (fun f => kept f.rest) ++ others)
    ((added.elim filled fun a =>
      setFlat filled order.pair (!makerBuy) (a.2 :: filled order.pair !makerBuy)) pair buy).Perm
        (flatOf s' pair buy) := by
  intro filled
  have hmakers : filled order.pair makerBuy = fills.filterMap (fun f => kept f.rest) ++ others :=
    setFlat_same ..
  have hold : ∀ {pair : TradingPair} {buy : Bool}, ¬ (pair = order.pair ∧ buy = makerBuy) →
      filled pair buy = flatOf s pair buy := fun hat => setFlat_ne hat
  have htaker := hcommitted.taker_flat
  rw [← sideOf_bookOf] at htaker
  have hnot : ¬ (order.pair = order.pair ∧ (!makerBuy) = makerBuy) := fun hat => by simp at hat
  rw [flatOf_insert hbooks]
  by_cases hpair : pair = order.pair
  · rw [if_pos hpair, hpair]
    by_cases hmaker : buy = makerBuy
    · rw [hmaker, hcommitted.makers_flat]
      cases added with
      | none =>
        rw [Option.elim_none, hmakers]
        exact hafter.symm
      | some a =>
        rw [Option.elim_some, setFlat_ne fun hat => by simp at hat, hmakers]
        exact hafter.symm
    · rw [Bool.eq_not_of_ne hmaker]
      refine List.Perm.trans ?_ htaker.symm
      cases added with
      | none =>
        rw [Option.elim_none, hold hnot]
        exact List.Perm.refl _
      | some a =>
        rw [Option.elim_some, setFlat_same, hold hnot]
        exact List.Perm.refl _
  · rw [if_neg hpair]
    cases added with
    | none =>
      rw [Option.elim_none, hold fun hat => hpair hat.1]
    | some a =>
      rw [Option.elim_some, setFlat_ne fun hat => hpair hat.1, hold fun hat => hpair hat.1]

end Submitted

/-- **The record of an executed submission.** -/
theorem Shows.submitted (h : Shows P (flatOf s)) (hs : s.Inv) {before : List Record}
    (hseq : ∀ pair, (P.bookEntry pair).sequence = lastSequence pair before)
    {order : OrderEntry} {applied : AppliedSubmission} {books' : Books} {executor' : Executor}
    {outputs : List TradeOutput} (hnew : s.submissions.lookup order.id = none)
    (hrun : (Submission.apply order).run (s.orderbooks, s.executor) =
      (.ok applied, (books', executor')))
    (houtputs : tradeOutputs applied.matchList = .ok outputs) (sequence : ℕ) (timestamp : Timestamp)
    (engineId : String) :
    ∃ event P', (Projection.apply ⟨sequence, timestamp, .submit order,
        .applied (some (.submitted applied.orderId outputs applied.completion))⟩ engineId).run P =
        (.ok event, P') ∧
      Followed before ⟨sequence, timestamp, .submit order,
        .applied (some (.submitted applied.orderId outputs applied.completion))⟩
        { Journal.recorded order s with orderbooks := books', executor := executor' } event P' := by
  set s' : EngineState :=
    { Journal.recorded order s with orderbooks := books', executor := executor' } with hs'
  have hinv : s'.Inv := hs.submit hnew hrun
  obtain ⟨book', plan, d, fills, δ, reserved, remaining, refund, happlied, hbook', hfills,
    hcommitted⟩ := hs.applied hnew hrun
  have hbuy : plan.makerBuy = !decide (order.orderType = "buy") := by
    rw [← happlied.advance.not_makerBuy happlied.valid, Bool.not_not]
  have hmatch : applied.matchList = fills.map (Fill.trade plan.makerBuy order) := by
    rw [happlied.matchList, happlied.advance.matchList, happlied.advance.makerBuy]
    rfl
  obtain ⟨outputs', hout, htrades, -⟩ := tradeOutputs_ok (happlied.matchList ▸ happlied.settles)
  obtain rfl : outputs = outputs' := Except.ok.inj (houtputs.symm.trans hout)
  -- the makers
  have hflat : flatOf s order.pair plan.makerBuy =
      ((Submission.bookOf s.orderbooks order).side plan.makerBuy).flat := by
    rw [flatOf, sideOf_bookOf]
  obtain ⟨others, hbefore, hafter⟩ := hfills.flat_perm ((hs.bookOf order).side_ids plan.makerBuy)
  have htotal := planOrder_totals happlied.planned
  rw [Totals, ← happlied.matchList, ← htrades] at htotal
  obtain ⟨P₁, trades, hfill, hshows, hseq₁⟩ := h.fill hbuy (hflat ▸ hbefore) hfills.ok
    (htrades.trans hmatch) htotal sequence engineId 0 []
  obtain ⟨P₂, hrest, hshows₂, hseq₂⟩ := hshows.addRemainder happlied.planned
    fun pair buy o ho => ne_of_filled hs hnew hfills hafter ho
  have hshows' : Shows P₂ (flatOf s') := by
    rw [← happlied.advance.not_makerBuy happlied.valid] at hshows₂
    exact hshows₂.perm (flatOf_committed happlied.books_eq hcommitted hafter)
  have hseq' : ∀ pair, (P₂.bookEntry pair).sequence = lastSequence pair before := fun pair =>
    ((hseq₂ pair).trans (hseq₁ pair)).trans (hseq pair)
  have hmarket : marketPair ⟨sequence, timestamp, .submit order,
      .applied (some (.submitted applied.orderId outputs applied.completion))⟩ = some order.pair := rfl
  obtain ⟨event, P', hsnap, hfollowed⟩ := hshows'.snapshot hinv hseq' hmarket engineId trades
  refine ⟨event, P', ?_, hfollowed⟩
  rw [Projection.apply]
  simp only [Mut.run_bind, hfill, hrest, hsnap]

/-- **The record of a cancellation.** -/
theorem Shows.cancelled (h : Shows P (flatOf s)) (hs : s.Inv) {before : List Record}
    (hseq : ∀ pair, (P.bookEntry pair).sequence = lastSequence pair before)
    {orderId userId : UInt64} {pair : TradingPair} {order : OrderEntry} {books' : Books}
    {executor' : Executor}
    (hrun : (Threads.cancelOrder orderId userId pair).run (s.orderbooks, s.executor) =
      (.ok order, (books', executor'))) (sequence : ℕ) (timestamp : Timestamp) (engineId : String) :
    ∃ event P', (Projection.apply ⟨sequence, timestamp, .cancel orderId userId pair,
        .applied (some (.cancelled order))⟩ engineId).run P = (.ok event, P') ∧
      Followed before ⟨sequence, timestamp, .cancel orderId userId pair,
        .applied (some (.cancelled order))⟩
        { s with
          cancellations := s.cancellations.insert orderId order
          orderbooks := books'
          executor := executor' } event P' := by
  set s' : EngineState := { s with
    cancellations := s.cancellations.insert orderId order
    orderbooks := books'
    executor := executor' } with hs'
  have hinv : s'.Inv := hs.cancelOrder hrun
  obtain ⟨book, buy, level, queue, side', v, hc⟩ := Threads.cancelOrder_ok hrun
  obtain ⟨rfl, hperm, -⟩ := hc.book (hs.books _ _ hc.lookup)
  have hresting := ((hs.books _ _ hc.lookup).side buy).resting _ _ hc.queue_eq order
    (List.mem_of_find?_eq_some hc.found_eq)
  obtain ⟨hunits, -, -, -⟩ := resting_units hresting
  -- a cancellation takes all that is left
  have hzero : units ({ order with remainingAmount := 0 } : OrderEntry).remainingAmount =
      .ok (unitsOf order.remainingAmount - unitsOf order.remainingAmount) := by
    rw [sub_self]
    exact units_zero
  have hflat : (flatOf s pair buy).Perm (order :: side'.flat) := by
    rw [flatOf, sideOf_of_lookup hc.lookup]
    exact hperm
  obtain ⟨P₁, hreduce, hshows, hseq₁⟩ := h.reduce hflat hunits hzero rfl rfl
  have hgone : kept { order with remainingAmount := 0 } = none := by
    rw [sub_self] at hzero
    exact (kept_eq_none hzero).mpr rfl
  rw [hgone, Option.toList_none, List.nil_append] at hshows
  have hshows' : Shows P₁ (flatOf s') := by
    refine hshows.perm fun pair' buy' => ?_
    rw [flatOf_insert (show s'.orderbooks = s.orderbooks.insert pair (book.setSide buy side') from
      hc.books_eq)]
    by_cases hpair : pair' = pair
    · rw [if_pos hpair, hpair]
      by_cases hbuy : buy' = buy
      · rw [hbuy, setFlat_same, OrderBook.side_setSide_same]
      · rw [setFlat_ne fun hat => hbuy hat.2, Bool.eq_not_of_ne hbuy, OrderBook.side_setSide_not,
          flatOf, sideOf_of_lookup hc.lookup]
    · rw [if_neg hpair, setFlat_ne fun hat => hpair hat.1]
  have hseq' : ∀ pair, (P₁.bookEntry pair).sequence = lastSequence pair before := fun pair =>
    (hseq₁ pair).trans (hseq pair)
  have hmarket : marketPair ⟨sequence, timestamp, .cancel order.id userId pair,
      .applied (some (.cancelled order))⟩ = some order.pair := rfl
  obtain ⟨event, P', hsnap, hfollowed⟩ := hshows'.snapshot hinv hseq' hmarket engineId []
  refine ⟨event, P', ?_, hfollowed⟩
  rw [Projection.apply]
  simp only [Mut.run_bind, hreduce, hsnap]

/-- **One record**, of any command. -/
theorem Shows.step (h : Shows P (flatOf s)) (hs : s.Inv) {before : List Record}
    (hseq : ∀ pair, (P.bookEntry pair).sequence = lastSequence pair before) {command : Command}
    {outcome : Outcome} (hrun : (Journal.apply command).run s = (.ok outcome, s')) (sequence : ℕ)
    (timestamp : Timestamp) (engineId : String) :
    ∃ event P', (Projection.apply ⟨sequence, timestamp, command, outcome⟩ engineId).run P =
        (.ok event, P') ∧
      Followed before ⟨sequence, timestamp, command, outcome⟩ s' event P' := by
  -- a record about no market leaves everything as it is
  have hquiet : marketPair ⟨sequence, timestamp, command, outcome⟩ = none →
      s'.orderbooks = s.orderbooks →
      ∃ event P', (Projection.apply ⟨sequence, timestamp, command, outcome⟩ engineId).run P =
        (.ok event, P') ∧
      Followed before ⟨sequence, timestamp, command, outcome⟩ s' event P' := by
    intro hpair hbooks
    refine ⟨none, P, apply_quiet hpair engineId, ⟨fun _ => hpair, fun _ => rfl⟩, nofun, ?_, ?_⟩
    · have hflat : flatOf s' = flatOf s := by
        unfold flatOf sideOf
        rw [hbooks]
      rw [hflat]
      exact h
    · intro pair
      rw [lastSequence_concat, hpair, if_neg nofun]
      exact hseq pair
  cases Journal.apply_effect hrun with
  | submitted hnew hsubmit houtputs =>
    exact h.submitted hs hseq hnew hsubmit houtputs sequence timestamp engineId
  | cancelled hnew hcancel => exact h.cancelled hs hseq hcancel sequence timestamp engineId
  | failed => exact hquiet (by cases command <;> rfl) rfl
  | withdrawal step =>
    refine hquiet ?_ (by cases step <;> rfl)
    rcases step.output_cases with rfl | ⟨reason, rfl⟩ | rfl <;> rfl
  | deposit step =>
    refine hquiet ?_ (by cases step <;> rfl)
    rcases step.output_cases with rfl | ⟨rfl, -⟩ <;> rfl
  | depositFailed step => exact hquiet rfl (by cases step <;> rfl)
  | _ => exact hquiet rfl rfl

/-- **The records of a run.** -/
theorem Shows.run {history : List (Command × Outcome)} (hrun : Run s history s') (hs : s.Inv)
    (h : Shows P (flatOf s)) {before : List Record}
    (hseq : ∀ pair, (P.bookEntry pair).sequence = lastSequence pair before) (clock : ℕ → Timestamp)
    (sequence : ℕ) (engineId : String) :
    ∃ events P', (Projection.applyAll engineId (Store.recordsOf clock sequence history)).run P =
        (.ok events, P') ∧
      Shows P' (flatOf s') ∧ ∀ pair, (P'.bookEntry pair).sequence =
        lastSequence pair (before ++ Store.recordsOf clock sequence history) := by
  induction hrun generalizing P before sequence with
  | nil =>
    refine ⟨[], P, rfl, h, fun pair => ?_⟩
    rw [Store.recordsOf, List.append_nil]
    exact hseq pair
  | @cons s mid s' command outcome history head _ ih =>
    obtain ⟨event, P₁, happly, hfollowed⟩ := h.step hs hseq head (sequence + 1) (clock (sequence + 1))
      engineId
    obtain ⟨events, P', hrest, hshows, hlast⟩ := ih ((Journal.apply_effect head).inv hs)
      hfollowed.shows hfollowed.last (sequence + 1)
    refine ⟨event :: events, P', ?_, hshows, fun pair => ?_⟩
    · rw [Store.recordsOf, Projection.applyAll]
      simp only [Mut.run_bind, happly, hrest, Mut.run_pure]
    · rw [hlast, Store.recordsOf, List.append_assoc, List.singleton_append]

end Record

/-- The outcomes that are about a market: executed submissions and cancellations. -/
def OnMarket : Outcome → Prop
  | .applied (some (.submitted _ _ _)) => True
  | .applied (some (.cancelled _)) => True
  | _ => False

/-- Records of the core are about a market exactly when their outcome is. -/
theorem marketPair_ne_none {s s' : EngineState} {command : Command} {outcome : Outcome}
    (h : (Journal.apply command).run s = (.ok outcome, s')) (sequence : ℕ) (timestamp : Timestamp) :
    marketPair ⟨sequence, timestamp, command, outcome⟩ ≠ none ↔ OnMarket outcome := by
  cases Journal.apply_effect h with
  | failed => cases command <;> exact ⟨fun h => absurd rfl h, fun h => h.elim⟩
  | submitted => exact ⟨fun _ => trivial, fun _ => nofun⟩
  | cancelled => exact ⟨fun _ => trivial, fun _ => nofun⟩
  | withdrawal step =>
    rcases step.output_cases with rfl | ⟨reason, rfl⟩ | rfl <;>
      exact ⟨fun h => absurd rfl h, fun h => h.elim⟩
  | deposit step =>
    rcases step.output_cases with rfl | ⟨rfl, -⟩ <;>
      exact ⟨fun h => absurd rfl h, fun h => h.elim⟩
  | _ => exact ⟨fun h => absurd rfl h, fun h => h.elim⟩

theorem shows_new (cache : BalanceCache) : Shows Projection.new (flatOf (.genesis cache)) where
  ids := fun _ buy => by cases buy <;> exact List.nodup_nil
  pos := fun _ buy o ho => by cases buy <;> cases ho
  index := fun _ buy o ho => by cases buy <;> cases ho
  only := fun id r hr => by
    rw [Projection.new, Finmap.lookup_empty] at hr
    cases hr
  level := fun _ buy p => by cases buy <;> rfl

/-- The levels of the view, in the words of the core. -/
theorem Shows.level_eq {P : Projection} {s : EngineState} (h : Shows P (flatOf s)) (hs : s.Inv)
    (pair : TradingPair) (buy : Bool) (p : Decimal) :
    ((P.bookEntry pair).levels buy).find? p =
      if s.queueAt pair buy p = [] then none else some (queueUnits (s.queueAt pair buy p)) := by
  have hinv := sideOf_inv hs pair buy
  rw [h.level, flatOf, ← level_queue hinv, ← queueAt_sideOf, OrderBookSide.queueAt]
  cases hqueue : (sideOf s pair buy).orders.find? p with
  | none => rfl
  | some queue => rw [Option.getD_some, if_neg (hinv.nonempty p queue hqueue), Option.map_some]

/-- **The public market refines the books of the core.**  The records of every run are
taken without an error or a panic; the levels are then the queues of the core, with their
sums; and one more record publishes a snapshot exactly if it is an executed submission or
a cancellation, with the best twenty levels of the core and the sequence of the snapshot
before it. -/
theorem market_refines {cache : BalanceCache} (hcache : cache.Valid)
    {history : List (Command × Outcome)} {s : EngineState} (h : Run (.genesis cache) history s)
    (clock : ℕ → Timestamp) (engineId : String) :
    ∃ events P, (Projection.applyAll engineId (Store.recordsOf clock 0 history)).run Projection.new =
        (.ok events, P) ∧
      (∀ pair buy p, ((P.bookEntry pair).levels buy).find? p =
        if s.queueAt pair buy p = [] then none else some (queueUnits (s.queueAt pair buy p))) ∧
      ∀ command outcome s', (Journal.apply command).run s = (.ok outcome, s') →
        ∃ event P', (Projection.apply ⟨history.length + 1, clock (history.length + 1), command,
            outcome⟩ engineId).run P = (.ok event, P') ∧
          (∀ pair buy p, ((P'.bookEntry pair).levels buy).find? p =
            if s'.queueAt pair buy p = [] then none
            else some (queueUnits (s'.queueAt pair buy p))) ∧
          (event ≠ none ↔ OnMarket outcome) ∧
          ∀ snapshot, event = some snapshot → ∃ pair,
            marketPair ⟨history.length + 1, clock (history.length + 1), command, outcome⟩ =
              some pair ∧
            Published (Store.recordsOf clock 0 history) ⟨history.length + 1,
              clock (history.length + 1), command, outcome⟩ pair s' snapshot := by
  have hgenesis := EngineState.inv_genesis hcache
  have hs := h.inv hgenesis
  have hnone : ∀ pair, (Projection.new.bookEntry pair).sequence = lastSequence pair [] := fun _ => rfl
  obtain ⟨events, P, hrun, hshows, hseq⟩ :=
    Shows.run h hgenesis (shows_new cache) hnone clock 0 engineId
  rw [List.nil_append] at hseq
  refine ⟨events, P, hrun, hshows.level_eq hs, fun command outcome s' hstep => ?_⟩
  obtain ⟨event, P', happly, hfollowed⟩ := hshows.step hs hseq hstep (history.length + 1)
    (clock (history.length + 1)) engineId
  refine ⟨event, P', happly, hfollowed.shows.level_eq ((Journal.apply_effect hstep).inv hs), ?_,
    hfollowed.published⟩
  rw [← marketPair_ne_none hstep, Ne, hfollowed.emitted]

/-- A sell that rests and a buy that takes it. -/
theorem market_refines_trade :
    ∃ outcomes s events P, (Journal.applyAll [.submit (.limit 1 1 false Decimal.ONE Decimal.ONE),
        .submit (.limit 2 2 true Decimal.ONE Decimal.ONE)]).run
          (.genesis (EngineState.funded Decimal.ONE Decimal.ONE)) = (.ok outcomes, s) ∧
      (Projection.applyAll "engine" (Store.recordsOf (fun _ => 0) 0
        ([.submit (.limit 1 1 false Decimal.ONE Decimal.ONE),
          .submit (.limit 2 2 true Decimal.ONE Decimal.ONE)].zip outcomes))).run Projection.new =
        (.ok events, P) := by
  have hone : units Decimal.ONE = .ok 1000000000 := rfl
  have hcache := EngineState.valid_funded hone hone
  obtain ⟨outcomes, s, hrun, -, hhistory⟩ := Journal.applyAll_total
    (EngineState.inv_genesis hcache) [.submit (.limit 1 1 false Decimal.ONE Decimal.ONE),
      .submit (.limit 2 2 true Decimal.ONE Decimal.ONE)]
  obtain ⟨events, P, hview, -⟩ := market_refines hcache hhistory (fun _ => 0) "engine"
  exact ⟨outcomes, s, events, P, hrun, hview⟩

end Market

end CexEngine
