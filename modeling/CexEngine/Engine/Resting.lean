import CexEngine.Engine.Matcher

/-!
# Resting orders and the book invariant

What the matcher checks of an order, read backwards, and the invariant of a book.

The checks of `validate` split into those on the parts of an order that no fill
touches (`Shape`), and an account of its quantities in units.  `Limit o p a f r`
is that account for a limit order: price `p`, amount `a`, filled `f` and
remaining `r`.  `validate_limit_iff` says that a limit order is valid exactly
when it has the shape and such an account, which is how validity is re-established
after a fill.

`OrderBook.Inv pair book` says of a book: every queue is non-empty, every order in it
is a valid limit order of that market, side and price, the counters count, and no
id occurs twice.
-/

namespace CexEngine

open Foundation Amount

namespace OrderEntry

/-- The parts of an order that fills do not touch. -/
def frame (o : OrderEntry) : OrderEntry :=
  { o with amount := 0, filledAmount := 0, remainingAmount := 0, remainingQuoteAmount := none }

/-- Orders with the same frame agree on everything that is read off the frame. -/
theorem congr_frame {α : Type} (g : OrderEntry → α) {o o' : OrderEntry} (h : o'.frame = o.frame)
    (hg : ∀ o, g o.frame = g o := by exact fun _ => rfl) : g o' = g o := by
  rw [← hg o', h, hg]

/-- The checks on the parts that fills do not touch. -/
structure Shape (o : OrderEntry) : Prop where
  fee : ∃ z, fee 0 o.feeRate = .ok z
  identity : 0 < o.id ∧ o.id ≤ maxI64 ∧ 0 < o.userId ∧ o.userId ≤ maxI64
  kind : (o.orderType = "buy" ∨ o.orderType = "sell") ∧
    (o.orderSide = "limit" ∨ o.orderSide = "market")
  base : ValidAsset o.baseMint
  quote : ValidAsset o.quoteMint
  assets_ne : o.baseMint ≠ o.quoteMint

/-- The shape is read off the frame. -/
theorem Shape.of_frame {o o' : OrderEntry} (h : o.Shape) (heq : o'.frame = o.frame) : o'.Shape := by
  have hfee : o'.feeRate = o.feeRate := congr_frame feeRate heq
  have hid : o'.id = o.id := congr_frame id heq
  have huser : o'.userId = o.userId := congr_frame userId heq
  have htype : o'.orderType = o.orderType := congr_frame orderType heq
  have hside : o'.orderSide = o.orderSide := congr_frame orderSide heq
  have hbase : o'.baseMint = o.baseMint := congr_frame baseMint heq
  have hquote : o'.quoteMint = o.quoteMint := congr_frame quoteMint heq
  constructor
  · rw [hfee]
    exact h.fee
  · rw [hid, huser]
    exact h.identity
  · rw [htype, hside]
    exact h.kind
  · rw [hbase]
    exact h.base
  · rw [hquote]
    exact h.quote
  · rw [hbase, hquote]
    exact h.assets_ne

/-- The account of a limit order in units: price, amount, filled, remaining. -/
structure Limit (o : OrderEntry) (p a f r : ℤ) : Prop where
  price : ∃ d, o.price = some d ∧ units d = .ok p ∧ ∃ q, Amount.quote d o.amount = .ok q
  price_pos : 0 < p
  amount : units o.amount = .ok a
  filled : units o.filledAmount = .ok f
  remaining : units o.remainingAmount = .ok r
  remaining_pos : 0 < r
  balance : f + r = a
  noBudget : o.quoteAmount = none ∧ o.remainingQuoteAmount = none

/-- The account of a market sell in units. -/
structure MarketSell (o : OrderEntry) (a f r : ℤ) : Prop where
  price : o.price = none
  amount : units o.amount = .ok a
  filled : units o.filledAmount = .ok f
  remaining : units o.remainingAmount = .ok r
  remaining_pos : 0 < r
  balance : f + r = a
  noBudget : o.quoteAmount = none ∧ o.remainingQuoteAmount = none

/-- The account of a market buy in units: its budget. -/
structure MarketBuy (o : OrderEntry) (b : ℤ) : Prop where
  price : o.price = none
  budget : ∃ d, o.quoteAmount = some d ∧ units d = .ok b
  remaining : ∃ d, o.remainingQuoteAmount = some d ∧ units d = .ok b
  budget_pos : 0 < b
  amount : o.amount ≈ 0
  remainingAmount : o.remainingAmount ≈ 0

end OrderEntry

open OrderEntry

/-- The common part of the checks. -/
theorem validate_ok {o : OrderEntry} {incoming : Bool} (h : validate o incoming = .ok ()) :
    o.Shape ∧ (incoming = true → o.filledAmount ≈ 0) := by
  simp only [validate, bind_eq_ok, ensure_eq_ok, exists_const] at h
  obtain ⟨z, hfee, hid, hkind, hbase, hquote, hne, hfresh, -⟩ := h
  exact ⟨⟨⟨z, hfee⟩, hid, hkind, hbase, hquote, hne⟩, hfresh⟩

theorem sum_equiv_iff {o : OrderEntry} {sum : Decimal} {f r : ℤ}
    (hsum : units sum = .ok (f + r)) : sum ≈ o.amount ↔ units o.amount = .ok (f + r) :=
  ⟨fun h => (units_congr h).mp hsum, fun h => units_inj hsum h⟩

/-- **A limit order is valid exactly when it has the shape and an account.** -/
theorem validate_limit_iff {o : OrderEntry} {incoming : Bool} (hside : o.orderSide = "limit") :
    validate o incoming = .ok () ↔
      o.Shape ∧ (incoming = true → o.filledAmount ≈ 0) ∧ ∃ p a f r, o.Limit p a f r := by
  have hnotMarket : ¬ (o.orderSide = "market" ∧ o.orderType = "buy") := fun hm =>
    absurd (hside.symm.trans hm.1) (by decide)
  constructor
  · intro h
    refine ⟨(validate_ok h).1, (validate_ok h).2, ?_⟩
    simp only [validate, bind_eq_ok, ensure_eq_ok, exists_const] at h
    obtain ⟨-, -, -, -, -, -, -, -, h⟩ := h
    rw [if_neg hnotMarket] at h
    simp only [bind_eq_ok, ensure_eq_ok, exists_const, orErr_eq_ok, pure_eq_ok, if_pos hside] at h
    obtain ⟨⟨ha, hr, hq, hrq⟩, sum, hsum, heq, d, hd, hdpos, q, hquote, -⟩ := h
    obtain ⟨f, r, huf, hur, hus⟩ := add_ok hsum
    obtain ⟨p, a, z, hup, hua, -, -⟩ := quote_ok hquote
    have hua' := (sum_equiv_iff hus).mp heq
    obtain rfl : f + r = a := Except.ok.inj (hua'.symm.trans hua)
    exact ⟨p, f + r, f, r, ⟨d, hd, hup, q, hquote⟩, (pos_iff_units hup).mp hdpos, hua, huf, hur,
      (pos_iff_units hur).mp hr, rfl, hq, hrq⟩
  · rintro ⟨hshape, hfresh, p, a, f, r, hl⟩
    obtain ⟨z, hfee⟩ := hshape.fee
    obtain ⟨d, hd, hup, q, hquote⟩ := hl.price
    have hf0 := units_nonneg hl.filled
    have hr0 := hl.remaining_pos
    have hbal := hl.balance
    obtain ⟨sum, hsum, hus⟩ := exists_add hl.filled hl.remaining
      ⟨o.amount, by rw [hl.balance]; exact hl.amount⟩
    simp only [validate, bind_eq_ok, ensure_eq_ok, exists_const]
    refine ⟨z, hfee, hshape.identity, hshape.kind, hshape.base, hshape.quote, hshape.assets_ne,
      hfresh, ?_⟩
    rw [if_neg hnotMarket]
    simp only [bind_eq_ok, ensure_eq_ok, exists_const, orErr_eq_ok, pure_eq_ok, if_pos hside]
    refine ⟨⟨?_, ?_, hl.noBudget.1, hl.noBudget.2⟩, sum, hsum, ?_, d, hd, ?_, q, hquote, trivial⟩
    · exact (pos_iff_units hl.amount).mpr (by omega)
    · exact (pos_iff_units hl.remaining).mpr hr0
    · exact (sum_equiv_iff hus).mpr (by rw [hl.balance]; exact hl.amount)
    · exact (pos_iff_units hup).mpr hl.price_pos

theorem validate_marketSell {o : OrderEntry} {incoming : Bool} (hside : o.orderSide = "market")
    (htype : o.orderType ≠ "buy") (h : validate o incoming = .ok ()) :
    ∃ a f r, o.MarketSell a f r := by
  have hnotLimit : o.orderSide ≠ "limit" := fun hl => absurd (hside.symm.trans hl) (by decide)
  simp only [validate, bind_eq_ok, ensure_eq_ok, exists_const] at h
  obtain ⟨-, -, -, -, -, -, -, -, h⟩ := h
  rw [if_neg (fun hm => htype hm.2)] at h
  simp only [bind_eq_ok, ensure_eq_ok, exists_const, if_neg hnotLimit] at h
  obtain ⟨⟨ha, hr, hq, hrq⟩, sum, hsum, heq, h⟩ := h
  obtain ⟨f, r, huf, hur, hus⟩ := add_ok hsum
  exact ⟨f + r, f, r, h, (sum_equiv_iff hus).mp heq, huf, hur,
    (pos_iff_units hur).mp hr, rfl, hq, hrq⟩

theorem validate_marketBuy {o : OrderEntry} {incoming : Bool} (hside : o.orderSide = "market")
    (htype : o.orderType = "buy") (h : validate o incoming = .ok ()) : ∃ b, o.MarketBuy b := by
  simp only [validate, bind_eq_ok, ensure_eq_ok, exists_const] at h
  obtain ⟨-, -, -, -, -, -, -, -, h⟩ := h
  rw [if_pos ⟨hside, htype⟩] at h
  simp only [bind_eq_ok, ensure_eq_ok, exists_const, orErr_eq_ok, pure_eq_ok] at h
  obtain ⟨budget, hbudget, ⟨hpos, hprice, hamount, hremaining, hsame⟩, b, hb, -⟩ := h
  obtain ⟨rq, hrq, hraw⟩ : ∃ rq, o.remainingQuoteAmount = some rq ∧ rq ≈ budget := by
    unfold SameOption at hsame
    cases hrq : o.remainingQuoteAmount with
    | none =>
      rw [hrq] at hsame
      cases hsame
    | some rq =>
      rw [hrq] at hsame
      exact ⟨rq, rfl, Option.some.inj hsame⟩
  exact ⟨b, hprice, ⟨budget, hbudget, hb⟩, ⟨rq, hrq, (units_congr hraw).mpr hb⟩,
    (pos_iff_units hb).mp hpos, hamount, hremaining⟩

/-! ## The book invariant -/

/-- An order where it belongs: on the side and the price of its own. -/
structure Resting (pair : TradingPair) (buy : Bool) (level : Decimal) (o : OrderEntry) : Prop where
  valid : validate o false = .ok ()
  limit : o.orderSide = "limit"
  side : o.orderType = if buy then "buy" else "sell"
  price : SameOption o.price (some level)
  pair : o.pair = pair

/-- A level is named by any decimal of its value. -/
theorem Resting.congr {pair : TradingPair} {buy : Bool} {p p' : Decimal} {o : OrderEntry}
    (h : Resting pair buy p o) (hp : p'.raw = p.raw) : Resting pair buy p' o :=
  { h with price := h.price.trans (congrArg some hp.symm) }

namespace OrderBookSide

/-- All orders of a side, in price order and then in queue order. -/
def flat (s : OrderBookSide) : List OrderEntry := s.orders.entries.flatMap Prod.snd

structure Inv (pair : TradingPair) (buy : Bool) (s : OrderBookSide) : Prop where
  nonempty : ∀ p queue, s.orders.find? p = some queue → queue ≠ []
  resting : ∀ p queue, s.orders.find? p = some queue → ∀ o ∈ queue, Resting pair buy p o
  counter : s.totalOrders = s.flat.length

theorem mem_flat_iff {s : OrderBookSide} {o : OrderEntry} :
    o ∈ s.flat ↔ ∃ p queue, s.orders.find? p = some queue ∧ o ∈ queue := by
  rw [flat, List.mem_flatMap]
  constructor
  · rintro ⟨e, he, ho⟩
    exact ⟨e.1, e.2, SortedMap.find?_of_mem he, ho⟩
  · rintro ⟨p, queue, hp, ho⟩
    obtain ⟨k, -, hk⟩ := SortedMap.find?_eq_some_iff.mp hp
    exact ⟨(k, queue), hk, ho⟩

/-- Writing one queue rewrites one stretch of the side. -/
theorem setQueue_split {s : OrderBookSide} {p : Decimal} {queue : List OrderEntry}
    (h : s.orders.find? p = some queue) :
    ∃ A B, s.flat = A ++ queue ++ B ∧
      ∀ queue' n, flat ⟨setQueue s.orders p queue', n⟩ = A ++ queue' ++ B := by
  obtain ⟨pre, k, post, -, hentries, -, hup, herase⟩ := SortedMap.entries_split h
  refine ⟨pre.flatMap Prod.snd, post.flatMap Prod.snd, ?_, fun queue' n => ?_⟩
  · rw [flat, hentries, List.flatMap_append, List.flatMap_cons, List.append_assoc]
  · unfold flat setQueue
    cases queue' with
    | nil =>
      show (s.orders.erase p).entries.flatMap Prod.snd = _
      rw [herase, List.flatMap_append, List.append_nil]
    | cons o queue' =>
      show (s.orders.upsert p fun _ => o :: queue').entries.flatMap Prod.snd = _
      rw [hup, List.flatMap_append, List.flatMap_cons, List.append_assoc]

theorem find?_setQueue (orders : PriceMap (List OrderEntry)) (p p' : Decimal)
    (queue : List OrderEntry) :
    (setQueue orders p queue).find? p' =
      if p'.raw = p.raw then (if queue = [] then none else some queue) else orders.find? p' := by
  unfold setQueue
  cases queue with
  | nil =>
    show (orders.erase p).find? p' = _
    rw [SortedMap.find?_erase, if_pos rfl]
  | cons o queue =>
    show (orders.upsert p fun _ => o :: queue).find? p' = _
    rw [SortedMap.find?_upsert, if_neg (List.cons_ne_nil _ _)]

variable {pair : TradingPair} {buy : Bool} {s : OrderBookSide}

/-- Writing a queue of orders that belong to its level keeps the invariant, once
the counter is right. -/
theorem Inv.setQueue (hs : s.Inv pair buy) {p : Decimal} {queue : List OrderEntry} {n : ℕ}
    (hqueue : ∀ o ∈ queue, Resting pair buy p o)
    (hn : n = (flat ⟨setQueue s.orders p queue, n⟩).length) :
    Inv pair buy ⟨OrderBookSide.setQueue s.orders p queue, n⟩ where
  nonempty := by
    intro p' queue' h
    rw [find?_setQueue] at h
    split at h
    · split at h
      · cases h
      · next hne =>
        cases h
        exact hne
    · exact hs.nonempty p' queue' h
  resting := by
    intro p' queue' h o ho
    rw [find?_setQueue] at h
    split at h
    · next hp =>
      split at h
      · cases h
      · cases h
        exact (hqueue o ho).congr hp
    · exact hs.resting p' queue' h o ho
  counter := hn

/-- The invariant, level by level. -/
theorem inv_of_levels (hlevels : ∀ e ∈ s.orders.entries, e.2 ≠ [] ∧ ∀ o ∈ e.2, Resting pair buy e.1 o)
    (hcounter : s.totalOrders = s.flat.length) : s.Inv pair buy where
  nonempty p queue h := by
    obtain ⟨k, -, hmem⟩ := SortedMap.find?_eq_some_iff.mp h
    exact (hlevels _ hmem).1
  resting p queue h o ho := by
    obtain ⟨k, hk, hmem⟩ := SortedMap.find?_eq_some_iff.mp h
    exact ((hlevels _ hmem).2 o ho).congr hk.symm
  counter := hcounter

/-! ### Appending and removing one order -/

/-- **Appending.**  The order joins the end of its queue. -/
theorem addOrder_ok {o : OrderEntry} {p : Decimal} (hp : o.price = some p) (s : OrderBookSide) :
    ∃ s', s.addOrder o = .ok s' ∧ s'.flat.Perm (o :: s.flat) ∧
      (∀ p', s'.orders.find? p' =
        if p'.raw = p.raw then some ((s.orders.find? p).getD [] ++ [o]) else s.orders.find? p') ∧
      ∀ pair buy, s.Inv pair buy → Resting pair buy p o → s'.Inv pair buy := by
  have hperm : (flat ⟨s.orders.upsert p fun queue => queue.getD [] ++ [o],
      s.totalOrders + 1⟩).Perm (o :: s.flat) := by
    unfold flat
    cases hfind : s.orders.find? p with
    | some queue =>
      obtain ⟨pre, k, post, -, hentries, -, hup, -⟩ := SortedMap.entries_split hfind
      rw [hup, hentries, List.flatMap_append, List.flatMap_append, List.flatMap_cons,
        List.flatMap_cons, Option.getD_some, List.append_assoc, List.singleton_append]
      exact (List.Perm.append_left _ List.perm_middle).trans List.perm_middle
    | none =>
      obtain ⟨pre, post, hentries, hup⟩ := SortedMap.entries_split_none hfind
      rw [hup, hentries, List.flatMap_append, List.flatMap_append, List.flatMap_cons]
      exact List.perm_middle
  have hfind : ∀ p', (s.orders.upsert p fun queue => queue.getD [] ++ [o]).find? p' =
      if p'.raw = p.raw then some ((s.orders.find? p).getD [] ++ [o]) else s.orders.find? p' :=
    fun p' => SortedMap.find?_upsert ..
  refine ⟨⟨s.orders.upsert p fun queue => queue.getD [] ++ [o], s.totalOrders + 1⟩, ?_, hperm,
    hfind, ?_⟩
  · rw [addOrder, hp]
    rfl
  · intro pair buy hs ho
    refine ⟨?_, ?_, ?_⟩
    · intro p' queue h
      rw [hfind] at h
      split at h
      · cases h
        simp
      · exact hs.nonempty p' queue h
    · intro p' queue h o' ho'
      rw [hfind] at h
      split at h
      · next hp' =>
        cases h
        rcases List.mem_append.mp ho' with ho' | ho'
        · cases hq : s.orders.find? p with
          | none =>
            rw [hq] at ho'
            cases ho'
          | some queue =>
            rw [hq] at ho'
            exact (hs.resting p queue hq o' ho').congr hp'
        · obtain rfl := List.mem_singleton.mp ho'
          exact ho.congr hp'
      · exact hs.resting p' queue h o' ho'
    · rw [hperm.length_eq, List.length_cons, ← hs.counter]

/-- **Removing.**  An order found in a queue leaves it; the counter never runs
below zero. -/
theorem removeOrder_ok (hs : s.Inv pair buy) {p : Decimal} {queue : List OrderEntry}
    {orderId : UInt64} {o : OrderEntry} (hqueue : s.orders.find? p = some queue)
    (ho : queue.find? (fun order => order.id == orderId) = some o) :
    ∃ s', s.removeOrder orderId p = .ok (some o, s') ∧ s.flat.Perm (o :: s'.flat) ∧
      (∀ p', s'.orders.find? p' =
        if p'.raw = p.raw then
          (if queue.eraseP (fun order => order.id == orderId) = [] then none
            else some (queue.eraseP fun order => order.id == orderId))
        else s.orders.find? p') ∧ s'.Inv pair buy := by
  obtain ⟨A, B, hflat, hset⟩ := setQueue_split hqueue
  obtain ⟨hid, pre, post, hsplit, hpre⟩ := List.find?_eq_some_iff_append.mp ho
  have herase : queue.eraseP (fun order => order.id == orderId) = pre ++ post := by
    rw [hsplit, List.eraseP_append_right _ (fun b hb => by simpa using hpre b hb), List.eraseP_cons,
      hid]
    rfl
  have hperm : s.flat.Perm (o :: (A ++ (pre ++ post) ++ B)) := by
    rw [hflat, hsplit]
    refine ((List.perm_middle.append_left A).append_right B).trans ?_
    rw [List.append_assoc, List.append_assoc]
    exact List.perm_middle
  have hcount : s.totalOrders = (A ++ (pre ++ post) ++ B).length + 1 := by
    rw [hs.counter, hperm.length_eq, List.length_cons]
  refine ⟨⟨OrderBookSide.setQueue s.orders p (queue.eraseP fun order => order.id == orderId),
    s.totalOrders - 1⟩, ?_, ?_, fun p' => find?_setQueue .., ?_⟩
  · simp only [removeOrder, hqueue, ho, checkedSub]
    rw [if_pos (by omega)]
    rfl
  · rw [hset, herase]
    exact hperm
  · refine hs.setQueue (fun o' ho' => hs.resting p queue hqueue o' (List.mem_of_mem_eraseP ho')) ?_
    rw [hset, herase, hcount, Nat.add_sub_cancel]

end OrderBookSide

namespace OrderBook

/-- All orders of a book. -/
def flat (b : OrderBook) : List OrderEntry := b.buyOrders.flat ++ b.sellOrders.flat

structure Inv (pair : TradingPair) (b : OrderBook) : Prop where
  tradingPair : b.tradingPair = pair
  side : ∀ buy, (b.side buy).Inv pair buy
  ids : (b.flat.map OrderEntry.id).Nodup

theorem mem_flat_iff {b : OrderBook} {o : OrderEntry} : o ∈ b.flat ↔ ∃ buy, o ∈ (b.side buy).flat := by
  rw [flat, List.mem_append]
  constructor
  · rintro (h | h)
    · exact ⟨true, h⟩
    · exact ⟨false, h⟩
  · rintro ⟨_ | _, h⟩
    · exact Or.inr h
    · exact Or.inl h

theorem inv_new (pair : TradingPair) : (new pair).Inv pair where
  tradingPair := rfl
  side := by
    rintro (_ | _)
    all_goals exact ⟨fun _ _ h => (by cases h), fun _ _ h => (by cases h), rfl⟩
  ids := List.nodup_nil

end OrderBook

end CexEngine
