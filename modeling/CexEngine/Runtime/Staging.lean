import CexEngine.Engine.Priority
import CexEngine.Foundation.Footprint
import CexEngine.Runtime.Settlement

/-!
# The working copy is as good as the cache

A submission moves its balances on a copy of the accounts it involves.  Every call it
makes reads and writes only accounts that were copied, so the same calls on the cache
itself end the same way (`settleOn_twin`), and writing the copy back gives the cache
they leave (`staged_eq_inPlace`).
-/

namespace CexEngine

open Foundation Foundation.FiniteMap Amount

namespace BalanceCache

/-! ## The calls on a cache -/

/-- Two caches changed from `c₀` and `d₀` in the same way, and only at accounts of
`K`. -/
def Twin (K : Set Account) (c₀ d₀ c d : BalanceCache) : Prop :=
  FiniteMap.Twin K c₀.balances d₀.balances c.balances d.balances

variable {K : Set Account} {c₀ d₀ c d : BalanceCache}

theorem Twin.setBalance (h : Twin K c₀ d₀ c d) {userId : UInt64} {mint : String}
    (hk : (userId, mint) ∈ K) (available locked : Decimal) :
    Twin K c₀ d₀ (c.setBalance userId mint available locked)
      (d.setBalance userId mint available locked) := FiniteMap.Twin.insert h hk _

/-- A reservation reads and writes its account only. -/
theorem changeReservation_alike (h : Twin K c₀ d₀ c d) {userId : UInt64} {mint : String}
    (hk : (userId, mint) ∈ K) (value : Decimal) (lock : Bool) :
    Mut.Alike (Twin K c₀ d₀) (changeReservation userId mint value lock)
      (changeReservation userId mint value lock) c d := by
  have hget : c.getBalance userId mint = d.getBalance userId mint := h.agree _ hk
  refine .lift_bind _ h fun _ _ => .lift_bind _ h fun _ _ => .get_bind ?_
  rw [hget]
  refine .lift_bind _ h fun balance _ => ?_
  cases lock with
  | true =>
    exact .lift_bind _ h fun _ _ => .lift_bind _ h fun _ _ => .write (h.setBalance hk _ _)
  | false =>
    exact .lift_bind _ h fun _ _ => .lift_bind _ h fun _ _ => .write (h.setBalance hk _ _)

theorem changeReservation_twin (h : Twin K c₀ d₀ c d) {userId : UInt64} {mint : String}
    (hk : (userId, mint) ∈ K) (value : Decimal) (lock : Bool) :
    SameEnd (Twin K c₀ d₀) ((changeReservation userId mint value lock).exec c)
      ((changeReservation userId mint value lock).exec d) :=
  (changeReservation_alike h hk value lock).sameEnd

theorem changeReservation_frame {userId : UInt64} {mint : String} {value : Decimal} {lock : Bool}
    {result : Except Fault Unit} {c' : BalanceCache}
    (h : (changeReservation userId mint value lock).run c = (result, c')) {account : Account}
    (haccount : account ≠ (userId, mint)) : c'.balances.lookup account = c.balances.lookup account := by
  have hrefl : Twin {account | account = (userId, mint)} c c c c :=
    FiniteMap.Twin.refl fun _ _ => rfl
  have halike := changeReservation_alike hrefl rfl value lock
  rw [Mut.Alike, h] at halike
  exact halike.2.left account haccount

/-- The staging loop reads the accounts of its changes only. -/
theorem stageChanges_congr {changes : List Change}
    (h : ∀ change ∈ changes, c.balances.lookup change.account = d.balances.lookup change.account)
    (staged : Staged) : stageChanges c staged changes = stageChanges d staged changes := by
  induction changes generalizing staged with
  | nil => rfl
  | cons change changes ih =>
    have hhead : stageChange c staged change = stageChange d staged change := by
      have hlookup : c.balances.lookup (change.user, change.asset) =
          d.balances.lookup (change.user, change.asset) := h change (List.mem_cons_self ..)
      simp only [stageChange, stageAccount, hlookup]
    rw [stageChanges, stageChanges, hhead]
    exact bind_congr fun staged => ih (fun change hc => h change (List.mem_cons_of_mem _ hc)) staged

theorem prepareStaged_keys {entries : List (Σ _ : Account, ℤ × ℤ)}
    {prepared : List (Account × Balance)} (h : prepareStaged entries = .ok prepared) :
    prepared.map Prod.fst = entries.map Sigma.fst := by
  induction entries generalizing prepared with
  | nil =>
    obtain rfl := pure_eq_ok.mp h
    rfl
  | cons e entries ih =>
    obtain ⟨key, x⟩ := e
    simp only [prepareStaged, bind_eq_ok, pure_eq_ok] at h
    obtain ⟨a, -, l, -, rest, hrest, rfl⟩ := h
    rw [List.map_cons, List.map_cons, ih hrest]

/-- The accounts of the changes of a trade. -/
theorem mem_tradeAccounts_of_change {trade : MatchResult} {amount value buyerFee sellerFee : ℤ}
    {change : Change} (h : change ∈ tradeChanges trade amount value buyerFee sellerFee) :
    change.account ∈ Submission.tradeAccounts trade := by
  simp only [tradeChanges, List.mem_cons, List.not_mem_nil, or_false] at h
  rcases h with rfl | rfl | rfl | rfl <;> simp [Change.account, Submission.tradeAccounts]

/-- A settlement reads and writes the accounts of its trade only. -/
theorem settleTrade_twin (h : Twin K c₀ d₀ c d) {trade : MatchResult}
    (hk : ∀ account ∈ Submission.tradeAccounts trade, account ∈ K) :
    SameEnd (Twin K c₀ d₀) ((settleTrade trade).exec c) ((settleTrade trade).exec d) := by
  simp only [settleTrade, Mut.exec_bind_lift, Mut.exec_bind_get]
  refine .bind_same _ fun _ _ => .bind_same _ fun _ _ => .bind_same _ fun _ _ => .bind_same _
    fun _ _ => .bind_same _ fun _ _ => .bind_same _ fun _ _ => .bind_same _ fun units _ => ?_
  obtain ⟨amount, value, buyerFee, sellerFee⟩ := units
  have hstage : stageChanges c ∅ (tradeChanges trade amount value buyerFee sellerFee) =
      stageChanges d ∅ (tradeChanges trade amount value buyerFee sellerFee) :=
    stageChanges_congr (fun change hc => h.agree _ (hk _ (mem_tradeAccounts_of_change hc))) ∅
  simp only [hstage]
  refine .bind_same _ fun staged hstaged => .bind_same _ fun prepared hprepared => ?_
  refine .ok (FiniteMap.Twin.insertAll h fun e he => ?_)
  -- only accounts that were staged are written
  have hkey : e.1 ∈ staged.entries.map Sigma.fst := by
    rw [← prepareStaged_keys hprepared]
    exact List.mem_map_of_mem he
  obtain ⟨-, -, hmem⟩ := stageChanges_ok hstaged
  rcases (hmem e.1).mp hkey with hchange | hempty
  · obtain ⟨change, hc, heq⟩ := List.mem_map.mp hchange
    rw [← heq]
    exact hk _ (mem_tradeAccounts_of_change hc)
  · exact absurd hempty (AList.notMem_empty e.1)

end BalanceCache

namespace Submission

open BalanceCache

/-! ## The movements of a submission -/

/-- The movements of a submission on a cache: the reservation, the trades in order, and
the refund. -/
def settleOn (order : OrderEntry) (plan : MatchPlan) (cache : BalanceCache) :
    Except Fault BalanceCache := do
  let reserved ← reservedAmount order
  let cache ← (BalanceCache.lockBalance order.userId (refundMint order) reserved).exec cache
  let cache ← settleAll plan.matchList cache
  let remaining ← remainingReserve order plan.order.remainingAmount
  let used := if order.orderType = "buy" then plan.totalQuote else plan.totalAmount
  let refund ← subtract (← subtract reserved used) remaining
  if 0 < refund then
    (BalanceCache.unlockBalance order.userId (refundMint order) refund).exec cache
  else pure cache

/-- The accounts a submission copies. -/
def involved (order : OrderEntry) (plan : MatchPlan) : List Account :=
  (order.userId, refundMint order) :: plan.matchList.flatMap tradeAccounts

theorem settleAll_twin {K : Set Account} {c₀ d₀ c d : BalanceCache} (h : Twin K c₀ d₀ c d)
    {trades : List MatchResult} (hk : ∀ account ∈ trades.flatMap tradeAccounts, account ∈ K) :
    SameEnd (Twin K c₀ d₀) (settleAll trades c) (settleAll trades d) := by
  induction trades generalizing c d with
  | nil => exact .ok h
  | cons trade trades ih =>
    rw [List.flatMap_cons] at hk
    refine (settleTrade_twin h fun account ha => hk account (List.mem_append_left _ ha)).bind
      fun c' d' h' => ?_
    exact ih h' fun account ha => hk account (List.mem_append_right _ ha)

/-- **The movements read and write the accounts involved only.** -/
theorem settleOn_twin {order : OrderEntry} {plan : MatchPlan} {K : Set Account}
    (hK : ∀ account ∈ involved order plan, account ∈ K) {c₀ d₀ c d : BalanceCache}
    (h : Twin K c₀ d₀ c d) :
    SameEnd (Twin K c₀ d₀) (settleOn order plan c) (settleOn order plan d) := by
  have howner : (order.userId, refundMint order) ∈ K := hK _ (List.mem_cons_self ..)
  refine .bind_same _ fun reserved _ => ?_
  refine (changeReservation_twin h howner reserved true).bind fun c d h => ?_
  refine (settleAll_twin h fun account ha => hK _ (List.mem_cons_of_mem _ ha)).bind fun c d h => ?_
  refine .bind_same _ fun remaining _ => .bind_same _ fun net _ => .bind_same _ fun refund _ => ?_
  split
  · exact changeReservation_twin h howner refund false
  · exact .ok h

/-- The read-only part of a submission is the plan and the movements on the copy. -/
theorem prepare_eq {books : Books} {executor : Executor} {order : OrderEntry} {plan : MatchPlan}
    (hplan : planOrder order (bookOf books order) = .ok plan) :
    (prepare order books executor).map (fun r => r.2.1) =
      settleOn order plan (copyAccounts executor.balanceCache (involved order plan)) := by
  have hmap : ∀ {α β γ : Type} (x : Except Fault α) (f : α → Except Fault β) (g : β → γ),
      (x >>= f).map g = x >>= fun a => (f a).map g := by
    intro α β γ x f g
    cases x <;> rfl
  rw [prepare, hplan]
  refine (hmap (reservedAmount order) _ _).trans (bind_congr (m := Except Fault) fun reserved => ?_)
  refine (hmap _ _ _).trans (bind_congr (m := Except Fault) fun locked => ?_)
  refine (hmap _ _ _).trans (bind_congr (m := Except Fault) fun settled => ?_)
  refine (hmap _ _ _).trans (bind_congr (m := Except Fault) fun remaining => ?_)
  refine (hmap _ _ _).trans (bind_congr (m := Except Fault) fun net => ?_)
  refine (hmap _ _ _).trans (bind_congr (m := Except Fault) fun refund => ?_)
  dsimp only
  split
  · exact (hmap _ _ _).trans (bind_pure _)
  · rfl

/-- **Working on the copy is working in place.**  With the plan given, preparing on the
copied accounts and writing them back succeeds exactly when the same movements succeed
on the whole cache, fails in the same way, and leaves the same cache. -/
theorem staged_eq_inPlace (cache : BalanceCache) (books : Books) (order : OrderEntry)
    {plan : MatchPlan} (hplan : planOrder order (bookOf books order) = .ok plan) :
    (prepare order books ⟨cache⟩).map (fun r => cache.commitPrepared r.2.1) =
      settleOn order plan cache := by
  have hstart : Twin {k | k ∈ involved order plan} (copyAccounts cache (involved order plan)) cache
      (copyAccounts cache (involved order plan)) cache := by
    refine FiniteMap.Twin.refl fun k hk => ?_
    have hmem : k ∈ involved order plan := hk
    rw [copyAccounts_lookup, if_pos hmem]
  have hend := settleOn_twin (K := {k | k ∈ involved order plan}) (fun _ hk => hk) hstart
  have hsplit : (prepare order books ⟨cache⟩).map (fun r => cache.commitPrepared r.2.1) =
      ((prepare order books ⟨cache⟩).map fun r => r.2.1).map cache.commitPrepared := by
    cases prepare order books ⟨cache⟩ <;> rfl
  rw [hsplit, prepare_eq hplan]
  refine hend.map_eq fun prepared cache' htwin => ?_
  have hlookup : ∀ k, (prepared.balances ∪ cache.balances).lookup k = cache'.balances.lookup k := by
    intro k
    rw [lookup_union_eq]
    by_cases hk : k ∈ involved order plan
    · rw [htwin.agree k hk]
      cases hnone : cache'.balances.lookup k with
      | some b => rfl
      | none =>
        have hcopy := htwin.mono k hk ((htwin.agree k hk).trans hnone)
        rw [copyAccounts_lookup, if_pos hk] at hcopy
        rw [hcopy]
        rfl
    · rw [htwin.left k hk, copyAccounts_lookup, if_neg hk, htwin.right k hk, Option.none_or]
  cases cache' with
  | mk balances => exact congrArg BalanceCache.mk (Finmap.ext_lookup hlookup)

/-- The balances and the books of a trade: user 1 sells what it has locked. -/
def lockedSeller : BalanceCache :=
  ⟨((∅ : Finmap fun _ : Account => Balance).insert (1, "BTC") ⟨0, Decimal.ONE⟩).insert (2, "USDT")
    ⟨Decimal.ONE, 0⟩⟩

/-- A book with one sell. -/
def bookWithSell : OrderBook :=
  ⟨⟨"BTC", "USDT"⟩, OrderBookSide.new,
    ⟨⟨[(Decimal.ONE, [.limit 1 1 false Decimal.ONE Decimal.ONE])], List.pairwise_singleton _ _⟩, 1⟩⟩

def booksWithSell : Books := (∅ : Books).insert ⟨"BTC", "USDT"⟩ bookWithSell

theorem staged_eq_inPlace_trade :
    ∃ plan, planOrder (.limit 2 2 true Decimal.ONE Decimal.ONE)
        (bookOf booksWithSell (.limit 2 2 true Decimal.ONE Decimal.ONE)) = .ok plan ∧
      (prepare (.limit 2 2 true Decimal.ONE Decimal.ONE) booksWithSell ⟨lockedSeller⟩).isOk = true ∧
      (prepare (.limit 2 2 true Decimal.ONE Decimal.ONE) booksWithSell ⟨lockedSeller⟩).map
          (fun r => lockedSeller.commitPrepared r.2.1) =
        settleOn (.limit 2 2 true Decimal.ONE Decimal.ONE) plan lockedSeller := by
  have hok : (planOrder (.limit 2 2 true Decimal.ONE Decimal.ONE)
      (bookOf booksWithSell (.limit 2 2 true Decimal.ONE Decimal.ONE))).isOk = true := by
    decide +kernel
  cases hplan : planOrder (.limit 2 2 true Decimal.ONE Decimal.ONE)
      (bookOf booksWithSell (.limit 2 2 true Decimal.ONE Decimal.ONE)) with
  | error e =>
    rw [hplan] at hok
    cases hok
  | ok plan =>
    exact ⟨plan, rfl, by decide +kernel, staged_eq_inPlace lockedSeller booksWithSell _ hplan⟩

end Submission

end CexEngine
