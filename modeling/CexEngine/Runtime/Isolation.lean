import CexEngine.Runtime.Accounting
import CexEngine.Runtime.Reachable

/-!
# Markets are isolated

All markets share one balance cache, one index of submissions and one of cancellations.  A submission
or a cancellation on a market still reads and writes only the book of its market, the balances in its
two assets, and what is remembered under its order id: it is a `Local` program (`submit_local`,
`cancel_local`).  Two of them with different ids and no common asset commute.

The state is cut into places (`Place`): the accounts, the books, and what is remembered under an id.  The
`footprint` of a command is the set of places it may touch, and `Local` says two things of a program and
a set: it leaves every other place as it is, and from two states that agree on the set it ends the same
way and leaves states that agree on it.  Commutation is then a fact about places and no longer about
orders: disjoint footprints give it, in `CexEngine.Foundation.Footprint`.

The second half of `Local` is where the work is.  A submission is executed on a copy of the accounts
that are involved, and the copy is merged back; which accounts are involved depends on the plan, and the
plan on the book.  So two states are compared through the whole computation (`prepare_congr`), and the
accounts it touches are shown to be in the two assets (`involved_assets`).

That a command changes nothing of users who have no order in its market and take no part in its trades is
`users_isolated`; `isolated` adds the other markets and assets.
-/

namespace CexEngine

open Foundation Foundation.FiniteMap Amount

/-! ## Places -/

/-- A place of the engine state. -/
inductive Place where
  | balance (account : Account)
  | book (pair : TradingPair)
  | submission (id : UInt64)
  | cancellation (id : UInt64)
  | withdrawal (id : Uuid)
  | deposit (id : Uuid)

/-- What can be stored at a place. -/
def Place.Content : Place → Type
  | balance _ => Balance
  | book _ => OrderBook
  | submission _ => OrderEntry
  | cancellation _ => OrderEntry
  | withdrawal _ => WithdrawalReceipt
  | deposit _ => DepositReceipt

/-- What is stored at a place. -/
def EngineState.read : (k : Place) → EngineState → Option k.Content
  | .balance account, s => s.cache.balances.lookup account
  | .book pair, s => s.orderbooks.lookup pair
  | .submission id, s => s.submissions.lookup id
  | .cancellation id, s => s.cancellations.lookup id
  | .withdrawal id, s => s.withdrawalReceipts.lookup id
  | .deposit id, s => s.depositReceipts.lookup id

/-- A state is what is stored at its places. -/
theorem EngineState.ext_read {s t : EngineState} (h : ∀ k, s.read k = t.read k) : s = t := by
  obtain ⟨w, d, sub, can, books, ⟨⟨cache⟩⟩⟩ := s
  obtain ⟨w', d', sub', can', books', ⟨⟨cache'⟩⟩⟩ := t
  obtain rfl : w = w' := Finmap.ext_lookup fun id => h (.withdrawal id)
  obtain rfl : d = d' := Finmap.ext_lookup fun id => h (.deposit id)
  obtain rfl : sub = sub' := Finmap.ext_lookup fun id => h (.submission id)
  obtain rfl : can = can' := Finmap.ext_lookup fun id => h (.cancellation id)
  obtain rfl : books = books' := Finmap.ext_lookup fun pair => h (.book pair)
  obtain rfl : cache = cache' := Finmap.ext_lookup fun account => h (.balance account)
  rfl

/-- The two assets of a market. -/
def TradingPair.assets (pair : TradingPair) : Set String := {pair.baseMint, pair.quoteMint}

/-- The places of a command with an order id on a market. -/
def footprint (id : UInt64) (pair : TradingPair) : Set Place := fun k =>
  match k with
  | .balance account => account.2 ∈ pair.assets
  | .book pair' => pair' = pair
  | .submission id' => id' = id
  | .cancellation id' => id' = id
  | .withdrawal _ => False
  | .deposit _ => False

theorem disjoint_footprint {id id' : UInt64} {pair pair' : TradingPair} (hid : id ≠ id')
    (hassets : Disjoint pair.assets pair'.assets) :
    Disjoint (footprint id pair) (footprint id' pair') := by
  refine Set.disjoint_left.mpr fun k hk hk' => ?_
  cases k with
  | balance account => exact Set.disjoint_left.mp hassets hk hk'
  | book p =>
    obtain rfl : p = pair := hk
    obtain rfl : p = pair' := hk'
    exact Set.disjoint_left.mp hassets (Set.mem_insert ..) (Set.mem_insert ..)
  | submission i => exact hid ((show i = id from hk).symm.trans hk')
  | cancellation i => exact hid ((show i = id from hk).symm.trans hk')
  | withdrawal i => exact hk
  | deposit i => exact hk

/-- The same change of the market in two states. -/
theorem market_parallel {s t : EngineState} {id : UInt64} {pair : TradingPair}
    (h : Agree EngineState.read (footprint id pair) s t) {m n : Books × Executor}
    (hbooks : FiniteMap.Twin {p | p = pair} s.orderbooks t.orderbooks m.1 n.1)
    (hcache : BalanceCache.Twin {account | account.2 ∈ pair.assets} s.cache t.cache
      m.2.balanceCache n.2.balanceCache) :
    Parallel EngineState.read (footprint id pair) s t
      { s with orderbooks := m.1, executor := m.2 } { t with orderbooks := n.1, executor := n.2 } := by
  refine ⟨fun k hk => ?_, fun k hk => ?_, fun k hk => ?_⟩
  · cases k with
    | balance account => exact hcache.agree account hk
    | book p => exact hbooks.agree p hk
    | _ => exact h _ hk
  · cases k with
    | balance account => exact hcache.left account hk
    | book p => exact hbooks.left p hk
    | _ => rfl
  · cases k with
    | balance account => exact hcache.right account hk
    | book p => exact hbooks.right p hk
    | _ => rfl

section Start

variable {s t : EngineState} {id : UInt64} {pair : TradingPair}

/-- The books and the balances of states that agree. -/
theorem books_twin (h : Agree EngineState.read (footprint id pair) s t) :
    FiniteMap.Twin {p | p = pair} s.orderbooks t.orderbooks s.orderbooks t.orderbooks :=
  FiniteMap.Twin.refl fun p hp => h (.book p) hp

theorem cache_twin (h : Agree EngineState.read (footprint id pair) s t) :
    BalanceCache.Twin {account | account.2 ∈ pair.assets} s.cache t.cache s.cache t.cache :=
  FiniteMap.Twin.refl fun account haccount => h (.balance account) haccount

end Start

/-! ## Submissions -/

namespace Submission

/-- A submission involves accounts in the two assets of its market. -/
theorem involved_assets {order : OrderEntry} {book : OrderBook} {plan : MatchPlan}
    (hplan : planOrder order book = .ok plan) {account : Account}
    (h : account ∈ involved order plan) : account.2 ∈ order.pair.assets := by
  obtain ⟨d, os, fills, hplanned⟩ := planned hplan
  rcases List.mem_cons.mp h with rfl | h
  · show refundMint order ∈ order.pair.assets
    unfold refundMint
    split
    · exact Or.inr rfl
    · exact Or.inl rfl
  · obtain ⟨t, ht, hacc⟩ := List.mem_flatMap.mp h
    have hmint : t.baseMint = order.baseMint ∧ t.quoteMint = order.quoteMint :=
      (hplanned.takenBy t ht).2
    simp only [tradeAccounts, List.mem_cons, List.not_mem_nil, or_false] at hacc
    rcases hacc with rfl | rfl | rfl | rfl
    · exact Or.inl hmint.1
    · exact Or.inr hmint.2
    · exact Or.inl hmint.1
    · exact Or.inr hmint.2

/-- The read-only part depends on the book and on the accounts involved. -/
theorem prepare_congr {order : OrderEntry} {books books' : Books} {c c' : BalanceCache}
    (hbook : bookOf books order = bookOf books' order)
    (hcache : ∀ account : Account, account.2 ∈ order.pair.assets →
      c.balances.lookup account = c'.balances.lookup account) :
    prepare order books ⟨c⟩ = prepare order books' ⟨c'⟩ := by
  rw [prepare, prepare, hbook]
  refine bind_congr_ok fun plan hplan => ?_
  have hlookup : ∀ account, (copyAccounts c (involved order plan)).balances.lookup account =
      (copyAccounts c' (involved order plan)).balances.lookup account := by
    intro account
    rw [copyAccounts_lookup, copyAccounts_lookup]
    split
    · next h => exact hcache account (involved_assets hplan h)
    · rfl
  have hcopy : copyAccounts c (involved order plan) = copyAccounts c' (involved order plan) :=
    congrArg BalanceCache.mk (Finmap.ext_lookup hlookup)
  unfold involved at hcopy
  simp only [hcopy]

/-- What was prepared holds accounts involved only. -/
theorem prepare_frame {order : OrderEntry} {books : Books} {executor : Executor} {plan : MatchPlan}
    {prepared : BalanceCache} {completion : Option MarketCompletion}
    (h : prepare order books executor = .ok (plan, prepared, completion)) {account : Account}
    (haccount : account ∉ involved order plan) : prepared.balances.lookup account = none := by
  have hprepared : settleOn order plan
      (copyAccounts executor.balanceCache (involved order plan)) = .ok prepared := by
    rw [← prepare_eq (prepare_ok h).1, h]
    rfl
  have hstart : BalanceCache.Twin {k | k ∈ involved order plan}
      (copyAccounts executor.balanceCache (involved order plan))
      (copyAccounts executor.balanceCache (involved order plan))
      (copyAccounts executor.balanceCache (involved order plan))
      (copyAccounts executor.balanceCache (involved order plan)) :=
    FiniteMap.Twin.refl fun _ _ => rfl
  have hend := settleOn_twin (fun _ hk => hk) hstart
  obtain ⟨c', hc', htwin⟩ := hend.exists_right hprepared
  rw [htwin.left account haccount, copyAccounts_lookup, if_neg haccount]

end Submission

/-- The market part of a submission. -/
theorem onMarket_submit_alike {s t : EngineState} {order : OrderEntry}
    (h : Agree EngineState.read (footprint order.id order.pair) s t) :
    Mut.Alike (Parallel EngineState.read (footprint order.id order.pair) s t)
      (EngineState.onMarket (Submission.apply order)) (EngineState.onMarket (Submission.apply order))
      s t := by
  have hrefl : Parallel EngineState.read (footprint order.id order.pair) s t s t := .refl h
  have hbook : Submission.bookOf s.orderbooks order = Submission.bookOf t.orderbooks order :=
    congrArg (Option.getD · _) (h (.book order.pair) rfl)
  have hprepare : Submission.prepare order s.orderbooks s.executor =
      Submission.prepare order t.orderbooks t.executor :=
    Submission.prepare_congr hbook fun account haccount => h (.balance account) haccount
  refine .zoom (.get_bind ?_)
  dsimp only
  rw [hprepare, hbook]
  refine .lift_bind _ hrefl fun r hr => ?_
  obtain ⟨plan, prepared, completion⟩ := r
  refine .lift_bind _ hrefl fun book _ => .bind (.put (market_parallel h ?_ ?_)) fun _ _ _ h =>
    .pure _ h
  · exact (books_twin h).insert rfl book
  · refine FiniteMap.Twin.union (cache_twin h) fun account haccount => ?_
    refine Submission.prepare_frame hr fun hin => haccount ?_
    exact Submission.involved_assets (Submission.prepare_ok hr).1 hin

theorem recorded_parallel {s t : EngineState} {order : OrderEntry}
    (h : Agree EngineState.read (footprint order.id order.pair) s t) :
    Parallel EngineState.read (footprint order.id order.pair) s t (Journal.recorded order s)
      (Journal.recorded order t) := by
  have hframe : ∀ (u : EngineState) (k : Place), k ∉ footprint order.id order.pair →
      (Journal.recorded order u).read k = u.read k := by
    intro u k hk
    cases k with
    | submission i => exact Finmap.lookup_insert_of_ne _ hk
    | _ => rfl
  refine ⟨fun k hk => ?_, hframe s, hframe t⟩
  cases k with
  | submission i =>
    obtain rfl : i = order.id := hk
    show (s.submissions.insert _ _).lookup _ = (t.submissions.insert _ _).lookup _
    rw [Finmap.lookup_insert, Finmap.lookup_insert]
  | _ => exact h _ hk

/-- **A submission is local to its market.** -/
theorem submit_local (order : OrderEntry) :
    Local EngineState.read (footprint order.id order.pair) (Journal.apply (.submit order)) := by
  intro s t h
  have hrefl : Parallel EngineState.read (footprint order.id order.pair) s t s t := .refl h
  have hlookup : s.submissions.lookup order.id = t.submissions.lookup order.id :=
    h (.submission order.id) rfl
  refine .get_bind (.bind (.attempt (.get_bind ?_)) fun r s' t' h' => ?_)
  · rw [hlookup]
    cases t.submissions.lookup order.id with
    | some original => exact .lift _ hrefl
    | none =>
      refine .bind (.write (recorded_parallel h)) fun _ s' t' h' => ?_
      refine .bind (.attempt ?_) fun r s' t' h' => ?_
      · exact (onMarket_submit_alike h'.agree).mono fun _ _ => h'.trans
      · cases r with
        | ok applied => exact .lift_bind _ h' fun _ _ => .pure _ h'
        | error reason => exact .pure _ h'
  · cases r with
    | ok output => exact .pure _ h'
    | error reason => exact .pure _ h'

/-! ## Cancellations -/

theorem cancelled_parallel {s t : EngineState} {id : UInt64} {pair : TradingPair}
    (h : Agree EngineState.read (footprint id pair) s t) (order : OrderEntry) :
    Parallel EngineState.read (footprint id pair) s t
      { s with cancellations := s.cancellations.insert id order }
      { t with cancellations := t.cancellations.insert id order } := by
  have hframe : ∀ (u : EngineState) (k : Place), k ∉ footprint id pair →
      ({ u with cancellations := u.cancellations.insert id order } : EngineState).read k =
        u.read k := by
    intro u k hk
    cases k with
    | cancellation i => exact Finmap.lookup_insert_of_ne _ hk
    | _ => rfl
  refine ⟨fun k hk => ?_, hframe s, hframe t⟩
  cases k with
  | cancellation i =>
    obtain rfl : i = id := hk
    show (s.cancellations.insert _ _).lookup _ = (t.cancellations.insert _ _).lookup _
    rw [Finmap.lookup_insert, Finmap.lookup_insert]
  | _ => exact h _ hk

/-- A cancellation unlocks in an asset of its market. -/
theorem Threads.prepareCancel_asset {orderId userId : UInt64} {pair : TradingPair} {books : Books}
    {book : OrderBook} {level : Decimal} {buy : Bool} {found : OrderEntry} {unlock : Decimal}
    (h : prepareCancel orderId userId pair books = .ok (book, level, buy, found, unlock)) :
    (if buy then found.quoteMint else found.baseMint) ∈ pair.assets := by
  obtain ⟨-, -, hcheck, -⟩ := prepareCancel_ok h
  rw [← (checkCancel_ok hcheck).2]
  split
  · exact Or.inr rfl
  · exact Or.inl rfl

/-- The market part of a cancellation. -/
theorem onMarket_cancel_alike {s t : EngineState} {orderId : UInt64} (userId : UInt64)
    {pair : TradingPair} (h : Agree EngineState.read (footprint orderId pair) s t) :
    Mut.Alike (Parallel EngineState.read (footprint orderId pair) s t)
      (EngineState.onMarket (Threads.cancelOrder orderId userId pair))
      (EngineState.onMarket (Threads.cancelOrder orderId userId pair)) s t := by
  have hrefl : Parallel EngineState.read (footprint orderId pair) s t s t := .refl h
  have hprepare : Threads.prepareCancel orderId userId pair s.orderbooks =
      Threads.prepareCancel orderId userId pair t.orderbooks := by
    rw [Threads.prepareCancel, Threads.prepareCancel,
      show s.orderbooks.lookup pair = t.orderbooks.lookup pair from h (.book pair) rfl]
  refine .zoom (.get_bind ?_)
  rw [hprepare]
  refine .lift_bind _ hrefl fun r hr => ?_
  obtain ⟨book, level, buy, found, unlock⟩ := r
  refine .bind (.zoom ?_) fun _ m n hmn => ?_
  · -- the books are still the old ones when the balance has been unlocked
    have hunlock := BalanceCache.changeReservation_alike (cache_twin h)
      (Threads.prepareCancel_asset hr : (userId, _) ∈ _) unlock false
    unfold Executor.unlockBalanceForCancel Executor.onCache
    refine .context (.zoom ?_) _
    refine hunlock.mono fun c d hcd => ?_
    exact market_parallel h (m := (s.orderbooks, ⟨c⟩)) (n := (t.orderbooks, ⟨d⟩)) (books_twin h) hcd
  · refine .lift_bind _ hmn fun r _ => ?_
    obtain ⟨removed, side⟩ := r
    refine .lift_bind _ hmn fun _ _ => .bind (.write ?_) fun _ _ _ h' => .pure _ h'
    exact hmn.trans (market_parallel hmn.agree (m := (m.1.insert pair _, m.2))
      (n := (n.1.insert pair _, n.2)) ((books_twin hmn.agree).insert rfl _) (cache_twin hmn.agree))

/-- **A cancellation is local to its market.** -/
theorem cancel_local (orderId userId : UInt64) (pair : TradingPair) :
    Local EngineState.read (footprint orderId pair) (Journal.apply (.cancel orderId userId pair)) := by
  intro s t h
  have hrefl : Parallel EngineState.read (footprint orderId pair) s t s t := .refl h
  have hrep : Journal.repeatedCancel s (.cancel orderId userId pair) =
      Journal.repeatedCancel t (.cancel orderId userId pair) :=
    congrArg (Option.map _) (h (.cancellation orderId) rfl)
  refine .get_bind ?_
  rw [hrep]
  cases Journal.repeatedCancel t (.cancel orderId userId pair) with
  | some outcome => exact .pure _ hrefl
  | none =>
    refine .bind (.attempt (.bind (onMarket_cancel_alike userId h) fun order s' t' h' => ?_))
      fun r s' t' h' => ?_
    · exact .bind (.write (h'.trans (cancelled_parallel h'.agree order))) fun _ _ _ h' => .pure _ h'
    · cases r with
      | ok output => exact .pure _ h'
      | error reason => exact .pure _ h'

/-! ## Other users -/

/-- The users of the accounts a submission involves are its own user and those of its
trades. -/
theorem Submission.involved_users {order : OrderEntry} {plan : MatchPlan} {account : Account}
    (h : account ∈ involved order plan) :
    account.1 = order.userId ∨
      ∃ t ∈ plan.matchList, account.1 = t.buyerId ∨ account.1 = t.sellerId := by
  rcases List.mem_cons.mp h with rfl | h
  · exact Or.inl rfl
  · obtain ⟨t, ht, hacc⟩ := List.mem_flatMap.mp h
    refine Or.inr ⟨t, ht, ?_⟩
    simp only [tradeAccounts, List.mem_cons, List.not_mem_nil, or_false] at hacc
    rcases hacc with rfl | rfl | rfl | rfl
    · exact Or.inl rfl
    · exact Or.inl rfl
    · exact Or.inr rfl
    · exact Or.inr rfl

/-- The trades are published as they are. -/
theorem tradeOutputs_trades {trades : List MatchResult} {outputs : List TradeOutput}
    (h : tradeOutputs trades = .ok outputs) : outputs.map TradeOutput.trade = trades := by
  induction trades generalizing outputs with
  | nil =>
    obtain rfl := pure_eq_ok.mp h
    rfl
  | cons trade trades ih =>
    simp only [tradeOutputs, tradeOutput, bind_eq_ok, pure_eq_ok] at h
    obtain ⟨output, ⟨b, -, v, -, s, -, rfl⟩, rest, hrest, rfl⟩ := h
    rw [List.map_cons, ih hrest]

/-- A cancellation changes the balance of one account of its user. -/
theorem Threads.cancelOrder_frame {books books' : Books} {executor executor' : Executor}
    {orderId userId : UInt64} {pair : TradingPair} {found : OrderEntry}
    (h : (cancelOrder orderId userId pair).run (books, executor) = (.ok found, (books', executor')))
    {account : Account} (haccount : account.1 ≠ userId) :
    executor'.balanceCache.balances.lookup account = executor.balanceCache.balances.lookup account := by
  obtain ⟨book, level, buy, unlock, removed, side', -, hrun, -⟩ := cancelOrder_parts h
  exact BalanceCache.changeReservation_frame hrun fun heq => haccount (congrArg Prod.fst heq)

/-! ## The result -/

/-- The order id, the user and the market of a submission or a cancellation. -/
def Command.market : Command → Option (UInt64 × UInt64 × TradingPair)
  | .submit order => some (order.id, order.userId, order.pair)
  | .cancel orderId userId pair => some (orderId, userId, pair)
  | _ => none

section Market

variable {command : Command} {id user : UInt64} {pair : TradingPair}

theorem Command.cases_market (h : command.market = some (id, user, pair)) :
    (∃ order : OrderEntry, command = .submit order ∧ order.id = id ∧ order.userId = user ∧
      order.pair = pair) ∨ command = .cancel id user pair := by
  cases command with
  | submit order =>
    cases h
    exact Or.inl ⟨order, rfl, rfl, rfl, rfl⟩
  | cancel orderId userId pair' =>
    cases h
    exact Or.inr rfl
  | _ => cases h

/-- **A command on a market is local to it.** -/
theorem market_local (h : command.market = some (id, user, pair)) :
    Local EngineState.read (footprint id pair) (Journal.apply command) := by
  obtain ⟨order, rfl, rfl, rfl, rfl⟩ | rfl := Command.cases_market h
  · exact submit_local order
  · exact cancel_local id user pair

/-- What a command of a user on a market leaves alone. -/
structure Isolated (s : EngineState) (user : UInt64) (pair : TradingPair) (outcome : Outcome)
    (s' : EngineState) : Prop where
  books : ∀ pair', pair' ≠ pair → s'.orderbooks.lookup pair' = s.orderbooks.lookup pair'
  assets : ∀ account : Account, account.2 ≠ pair.baseMint → account.2 ≠ pair.quoteMint →
    s'.cache.balances.lookup account = s.cache.balances.lookup account
  users : ∀ account : Account, account.1 ≠ user →
    (∀ t ∈ outcome.trades, account.1 ≠ t.trade.buyerId ∧ account.1 ≠ t.trade.sellerId) →
    s'.cache.balances.lookup account = s.cache.balances.lookup account

/-- The users a command concerns are its own and those of its trades. -/
theorem users_isolated (h : command.market = some (id, user, pair)) {s s' : EngineState}
    {outcome : Outcome} (heffect : Effect s command outcome s') {account : Account}
    (huser : account.1 ≠ user)
    (hother : ∀ t ∈ outcome.trades, account.1 ≠ t.trade.buyerId ∧ account.1 ≠ t.trade.sellerId) :
    s'.cache.balances.lookup account = s.cache.balances.lookup account := by
  cases heffect with
  | failed => rfl
  | repeatedCancel => rfl
  | resubmitted => rfl
  | rejected => rfl
  | @submitted order applied books' executor' trades hnew hrun houtputs =>
    cases h
    obtain ⟨plan, prepared, completion, book', hprep, -, rfl, -, rfl⟩ :=
      Submission.apply_prepared hrun
    have htrades : trades.map TradeOutput.trade = plan.matchList := tradeOutputs_trades houtputs
    have hnone : prepared.balances.lookup account = none := by
      refine Submission.prepare_frame hprep fun hin => ?_
      rcases Submission.involved_users hin with howner | ⟨t, ht, hparty⟩
      · exact huser howner
      · rw [← htrades] at ht
        obtain ⟨output, houtput, rfl⟩ := List.mem_map.mp ht
        obtain ⟨hbuyer, hseller⟩ := hother output houtput
        exact hparty.elim hbuyer hseller
    show (prepared.balances ∪ s.cache.balances).lookup account = _
    rw [lookup_union_eq, hnone, Option.none_or]
  | cancelled hnew hrun =>
    cases h
    exact Threads.cancelOrder_frame hrun huser
  | withdrawal => cases h
  | deposit => cases h
  | depositFailed => cases h
  | balance => cases h
  | locked => cases h
  | unlocked => cases h

theorem isolated (h : command.market = some (id, user, pair)) {s s' : EngineState}
    {outcome : Outcome} (hrun : (Journal.apply command).run s = (.ok outcome, s')) :
    Isolated s user pair outcome s' := by
  have hframe := (market_local h).frame s
  rw [hrun] at hframe
  refine ⟨fun pair' hne => hframe (.book pair') hne, fun account hbase hquote => ?_,
    fun account huser hother => users_isolated h (Journal.apply_effect hrun) huser hother⟩
  exact hframe (.balance account) fun hin => hin.elim hbase hquote

end Market

/-- **Markets are isolated.**  In every reachable state, a submission or a cancellation
touches the book of its market, balances in its two assets, and balances of its user and
of the parties of its trades only.  Two such commands with different order ids on
markets without a common asset have the same outcomes and lead to the same state in both
orders. -/
theorem markets_isolated {cache : BalanceCache} (hcache : cache.Valid)
    {history : List (Command × Outcome)} {s : EngineState}
    (hs : Run (EngineState.genesis cache) history s) :
    (∀ command id user pair, command.market = some (id, user, pair) →
      ∃ outcome s', (Journal.apply command).run s = (.ok outcome, s') ∧
        Isolated s user pair outcome s') ∧
    ∀ command₁ id₁ user₁ pair₁ command₂ id₂ user₂ pair₂,
      command₁.market = some (id₁, user₁, pair₁) → command₂.market = some (id₂, user₂, pair₂) →
      id₁ ≠ id₂ → Disjoint pair₁.assets pair₂.assets →
      ∃ outcome₁ outcome₂ s₁ s₂ s',
        (Journal.apply command₁).run s = (.ok outcome₁, s₁) ∧
        (Journal.apply command₂).run s₁ = (.ok outcome₂, s') ∧
        (Journal.apply command₂).run s = (.ok outcome₂, s₂) ∧
        (Journal.apply command₁).run s₂ = (.ok outcome₁, s') := by
  have hinv : s.Inv := hs.inv (EngineState.inv_genesis hcache)
  refine ⟨fun command id user pair h => ?_, ?_⟩
  · obtain ⟨outcome, s', hrun⟩ := Journal.apply_total hinv command
    exact ⟨outcome, s', hrun, isolated h hrun⟩
  · intro command₁ id₁ user₁ pair₁ command₂ id₂ user₂ pair₂ h₁ h₂ hid hassets
    obtain ⟨outcome₁, s₁, hrun₁⟩ := Journal.apply_total hinv command₁
    obtain ⟨outcome₂, s₂, hrun₂⟩ := Journal.apply_total hinv command₂
    obtain ⟨hsame₁, hsame₂, hstate⟩ := (market_local h₁).comm (fun _ _ => EngineState.ext_read)
      (market_local h₂) (disjoint_footprint hid hassets) s
    rw [hrun₁, hrun₂] at hsame₁ hsame₂ hstate
    have hsecond : (Journal.apply command₂).run s₁ =
        (.ok outcome₂, ((Journal.apply command₂).run s₁).2) := Prod.ext hsame₂ rfl
    exact ⟨outcome₁, outcome₂, s₁, s₂, _, hrun₁, hsecond, hrun₂, Prod.ext hsame₁ hstate⟩

/-- An order on a market that shares no asset with the market of the other runs. -/
def otherMarket (id userId : UInt64) (buy : Bool) : OrderEntry :=
  { OrderEntry.limit id userId buy Decimal.ONE Decimal.ONE with baseMint := "ETH", quoteMint := "KRW" }

/-- Two markets with one sell each, and the funds to buy both. -/
def twoMarkets : List (Command × Outcome) :=
  [(.balance 3 "ETH" Decimal.ONE, .applied none), (.balance 4 "KRW" Decimal.ONE, .applied none),
    (.submit (.limit 1 1 false Decimal.ONE Decimal.ONE), .applied (some (.submitted 1 [] none))),
    (.submit (otherMarket 2 3 false), .applied (some (.submitted 2 [] none)))]

/-- Both sells are bought, in either order. -/
theorem markets_isolated_twoMarkets : ∃ s,
    Run (.genesis (EngineState.funded Decimal.ONE Decimal.ONE)) twoMarkets s ∧
      ∃ outcome₁ outcome₂ s₁ s₂ s',
        outcome₁.trades.length = 1 ∧ outcome₂.trades.length = 1 ∧
        (Journal.apply (.submit (.limit 3 2 true Decimal.ONE Decimal.ONE))).run s = (.ok outcome₁, s₁) ∧
        (Journal.apply (.submit (otherMarket 4 4 true))).run s₁ = (.ok outcome₂, s') ∧
        (Journal.apply (.submit (otherMarket 4 4 true))).run s = (.ok outcome₂, s₂) ∧
        (Journal.apply (.submit (.limit 3 2 true Decimal.ONE Decimal.ONE))).run s₂ =
          (.ok outcome₁, s') := by
  have hone : units Decimal.ONE = .ok (10 ^ 9) := rfl
  have hcache := EngineState.valid_funded hone hone
  have hassets : Disjoint (TradingPair.mk "BTC" "USDT").assets
      (TradingPair.mk "ETH" "KRW").assets := by
    refine Set.disjoint_left.mpr fun asset h h' => ?_
    rcases h with rfl | rfl <;> rcases h' with h' | h' <;> exact absurd h' (by decide)
  obtain ⟨s, hrun⟩ := @Journal.run_of_outcomes _ (EngineState.inv_genesis hcache) twoMarkets
    (by decide +kernel)
  obtain ⟨outcome₁, outcome₂, s₁, s₂, s', hfirst, hsecond, hother, hlast⟩ :=
    (markets_isolated hcache hrun).2 (.submit (.limit 3 2 true Decimal.ONE Decimal.ONE)) 3 2 _
      (.submit (otherMarket 4 4 true)) 4 4 _ rfl rfl (by decide) hassets
  have hevaluated : ∀ command ∈ [Command.submit (.limit 3 2 true Decimal.ONE Decimal.ONE),
      .submit (otherMarket 4 4 true)],
      (((Journal.applyAll (twoMarkets.map Prod.fst ++ [command])).run
        (.genesis (EngineState.funded Decimal.ONE Decimal.ONE))).1.toOption.bind List.getLast?).map
          (fun outcome => outcome.trades.length) = some 1 := by
    decide +kernel
  have h₁ := hevaluated _ List.mem_cons_self
  have h₂ := hevaluated _ (List.mem_cons_of_mem _ List.mem_cons_self)
  rw [Journal.last_outcome hrun hfirst] at h₁
  rw [Journal.last_outcome hrun hother] at h₂
  exact ⟨s, hrun, outcome₁, outcome₂, s₁, s₂, s', Option.some.inj h₁, Option.some.inj h₂, hfirst,
    hsecond, hother, hlast⟩

end CexEngine
