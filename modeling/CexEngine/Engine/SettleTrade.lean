import CexEngine.Engine.Ledger

/-!
# What settling a trade does

`settle_trade` stages four changes over up to four accounts, two of which are one account when
the buyer is the seller, and writes them when all have been checked.  Here is what it does, in
terms of the units of the accounts:

* `Settles c trade amount value buyerFee sellerFee` says that the trade can be settled;
* `Settled` says what the cache is afterwards;
* `settleTrade_spec`: the call succeeds exactly when the trade can be settled, with that effect,
  and leaves the cache as it was otherwise.
-/

namespace CexEngine

open Foundation Foundation.FiniteMap Amount

namespace BalanceCache

/-! ## The specification -/

/-- Both amounts of an account are in range. -/
def InRange (x : ℤ × ℤ) : Prop := (0 ≤ x.1 ∧ x.1 ≤ maxUnits) ∧ 0 ≤ x.2 ∧ x.2 ≤ maxUnits

/-- The balance of an account, or the zero balance if there is none, is a number of units. -/
def Readable (c : BalanceCache) (account : Account) : Prop :=
  (∃ x, units (c.balanceAt account).available = .ok x) ∧
    ∃ y, units (c.balanceAt account).locked = .ok y

/-- The accounts of a trade. -/
def touched (trade : MatchResult) : List Account :=
  [(trade.buyerId, trade.quoteMint), (trade.sellerId, trade.quoteMint),
    (trade.sellerId, trade.baseMint), (trade.buyerId, trade.baseMint)]

/-- The four movements of a trade, in the order in which they are checked.  Movements of one
account add up. -/
noncomputable def movements (trade : MatchResult) (amount value buyerFee sellerFee : ℤ) :
    List Ledger :=
  [Finsupp.single (trade.buyerId, trade.quoteMint) (0, -value),
    Finsupp.single (trade.sellerId, trade.quoteMint) (value - sellerFee, 0),
    Finsupp.single (trade.sellerId, trade.baseMint) (0, -amount),
    Finsupp.single (trade.buyerId, trade.baseMint) (amount - buyerFee, 0)]

/-- The units of an account after the first `n` movements. -/
noncomputable def unitsAfter (c : BalanceCache) (moves : List Ledger) (n : ℕ) (account : Account) :
    ℤ × ℤ :=
  c.ledger account + ((moves.take n).sum : Ledger) account

/-- The trade can be settled: it has this amount, price and fees, and the accounts allow it. -/
structure Settles (c : BalanceCache) (trade : MatchResult)
    (amount value buyerFee sellerFee : ℤ) : Prop where
  users : 0 < trade.buyerId ∧ 0 < trade.sellerId
  orders : 0 < trade.buyOrderId ∧ 0 < trade.sellOrderId ∧ trade.buyOrderId ≠ trade.sellOrderId
  assets : ValidAsset trade.baseMint ∧ ValidAsset trade.quoteMint ∧
    trade.baseMint ≠ trade.quoteMint
  positive : 0 < trade.price ∧ 0 < trade.amount
  amount_eq : units trade.amount = .ok amount
  value_eq : ∃ price, units trade.price = .ok price ∧ price * amount = value * 10 ^ 9 ∧
    Representable value
  buyerFee_eq : ∃ charged, fee trade.amount trade.buyerFeeRate = .ok charged ∧
    units charged = .ok buyerFee
  sellerFee_eq : ∃ received charged, units received = .ok value ∧
    fee received trade.sellerFeeRate = .ok charged ∧ units charged = .ok sellerFee
  readable : ∀ account ∈ touched trade, c.Readable account
  /-- The reservations cover what is given. -/
  covered : value ≤ (c.ledger (trade.buyerId, trade.quoteMint)).2 ∧
    amount ≤ (c.ledger (trade.sellerId, trade.baseMint)).2
  inRange : ∀ n ≤ 4, ∀ account ∈ touched trade,
    InRange (c.unitsAfter (movements trade amount value buyerFee sellerFee) n account)
  representable : ∀ account ∈ touched trade,
    Representable (c.unitsAfter (movements trade amount value buyerFee sellerFee) 4 account).1 ∧
      Representable (c.unitsAfter (movements trade amount value buyerFee sellerFee) 4 account).2

/-- The cache after the trade: its accounts exist and have moved, all others are as before. -/
structure Settled (c c' : BalanceCache) (trade : MatchResult)
    (amount value buyerFee sellerFee : ℤ) : Prop where
  moved : ∀ account ∈ touched trade, ∃ b, c'.balances.lookup account = some b ∧
    units b.available =
      .ok (c.unitsAfter (movements trade amount value buyerFee sellerFee) 4 account).1 ∧
    units b.locked =
      .ok (c.unitsAfter (movements trade amount value buyerFee sellerFee) 4 account).2
  unchanged : ∀ account, account ∉ touched trade →
    c'.balances.lookup account = c.balances.lookup account

/-! ## Staging -/

section Staging

variable {c : BalanceCache} {staged : Staged}

theorem readable_iff {account : Account} :
    c.Readable account ↔ units (c.balanceAt account).available = .ok (c.ledger account).1 ∧
      units (c.balanceAt account).locked = .ok (c.ledger account).2 := by
  rw [ledger_apply, unitsPair]
  constructor
  · rintro ⟨⟨x, hx⟩, y, hy⟩
    rw [unitsOf_eq hx, unitsOf_eq hy]
    exact ⟨hx, hy⟩
  · rintro ⟨hx, hy⟩
    exact ⟨⟨_, hx⟩, _, hy⟩

theorem Readable.inRange {account : Account} (h : c.Readable account) :
    InRange (c.ledger account) := by
  obtain ⟨hx, hy⟩ := readable_iff.mp h
  exact ⟨⟨units_nonneg hx, units_le hx⟩, units_nonneg hy, units_le hy⟩

theorem InRange.fitsI128 {x : ℤ × ℤ} (h : InRange x) : FitsI128 x.1 ∧ FitsI128 x.2 :=
  ⟨fitsI128_of_le h.1.1 (h.1.2.trans (by norm_num [maxUnits])),
    fitsI128_of_le h.2.1 (h.2.2.trans (by norm_num [maxUnits]))⟩

/-- An account is staged unless its balance cannot be read. -/
theorem stageAccount_isOk_iff {account : Account} :
    (∃ staged', stageAccount c staged account = .ok staged') ↔
      account ∈ staged ∨ c.Readable account := by
  unfold stageAccount
  cases hlookup : staged.lookup account with
  | some x =>
    have hmem : account ∈ staged := AList.lookup_isSome.mp (by rw [hlookup]; rfl)
    exact ⟨fun _ => .inl hmem, fun _ => ⟨staged, rfl⟩⟩
  | none =>
    have hmem : account ∉ staged := AList.lookup_eq_none.mp hlookup
    simp only [bind_eq_ok, pure_eq_ok]
    constructor
    · rintro ⟨_, x, hx, y, hy, -⟩
      exact .inr ⟨⟨x, hx⟩, y, hy⟩
    · rintro (h | ⟨⟨x, hx⟩, y, hy⟩)
      · exact absurd h hmem
      · exact ⟨_, x, hx, y, hy, rfl⟩

/-- A change is staged exactly when its account can be read and stays in range. -/
theorem stageChange_isOk_iff {change : Change} :
    (∃ staged', stageChange c staged change = .ok staged') ↔
      (change.account ∈ staged ∨ c.Readable change.account) ∧
        InRange (stagedAt c staged change.account + change.delta change.account) := by
  have hdelta : change.delta change.account = (change.availableDelta, change.lockedDelta) :=
    Finsupp.single_eq_same
  rw [← stageAccount_isOk_iff, hdelta]
  simp only [stageChange, bind_eq_ok, pure_eq_ok, orErr_eq_ok, expect_eq_ok, ensure_eq_ok,
    checkedI128_eq_some, exists_const]
  constructor
  · rintro ⟨_, mid, hmid, x, hx, _, ⟨-, rfl⟩, _, ⟨-, rfl⟩, hpos, hmax, -⟩
    have hat : stagedAt c staged change.account = x := by
      rw [← (stageAccount_ok hmid).1, stagedAt]
      exact congrArg (Option.getD · _) hx
    rw [hat]
    exact ⟨⟨mid, hmid⟩, ⟨hpos.1, hmax.1⟩, hpos.2, hmax.2⟩
  · rintro ⟨⟨mid, hmid⟩, hrange⟩
    obtain ⟨hview, -, hmem⟩ := stageAccount_ok hmid
    obtain ⟨x, hx⟩ := Option.isSome_iff_exists.mp
      (AList.lookup_isSome.mpr ((hmem change.account).mpr (.inl rfl)))
    have hat : stagedAt c staged change.account = x := by
      rw [← hview, stagedAt]
      exact congrArg (Option.getD · _) hx
    rw [hat] at hrange
    obtain ⟨hfit1, hfit2⟩ := hrange.fitsI128
    exact ⟨_, mid, hmid, x, hx, _, ⟨hfit1, rfl⟩, _, ⟨hfit2, rfl⟩, ⟨hrange.1.1, hrange.2.1⟩,
      ⟨hrange.1.2, hrange.2.2⟩, rfl⟩

/-- **The staging loop** succeeds exactly when every account can be read and is in range right
after each of its changes. -/
theorem stageChanges_isOk_iff {changes : List Change} :
    (∃ staged', stageChanges c staged changes = .ok staged') ↔
      (∀ change ∈ changes, change.account ∈ staged ∨ c.Readable change.account) ∧
        ∀ before change after, changes = before ++ change :: after →
          InRange (stagedAt c staged change.account +
            (((before ++ [change]).map Change.delta).sum : Ledger) change.account) := by
  induction changes generalizing staged with
  | nil =>
    refine ⟨fun _ => ⟨fun change h => absurd h List.not_mem_nil, fun before change after h => ?_⟩,
      fun _ => ⟨staged, rfl⟩⟩
    cases before <;> cases h
  | cons first changes ih =>
    simp only [stageChanges, bind_eq_ok]
    constructor
    · rintro ⟨staged', mid, hmid, hrest⟩
      obtain ⟨hview, -, hmem⟩ := stageChange_ok hmid
      obtain ⟨hread, hrange⟩ := stageChange_isOk_iff.mp ⟨mid, hmid⟩
      obtain ⟨hreads, hranges⟩ := ih.mp ⟨staged', hrest⟩
      refine ⟨fun change hchange => ?_, fun before change after heq => ?_⟩
      · rcases List.mem_cons.mp hchange with rfl | hchange
        · exact hread
        · rcases hreads change hchange with hin | hin
          · rcases (hmem _).mp hin with hsame | hin
            · rw [hsame]
              exact hread
            · exact .inl hin
          · exact .inr hin
      · cases before with
        | nil =>
          cases heq
          simpa using hrange
        | cons head before =>
          cases heq
          have hnext := hranges before change after rfl
          rw [hview, add_assoc, ← Finsupp.add_apply] at hnext
          simpa using hnext
    · rintro ⟨hreads, hranges⟩
      obtain ⟨mid, hmid⟩ := stageChange_isOk_iff.mpr
        ⟨hreads first (List.mem_cons_self ..), by simpa using hranges [] first changes rfl⟩
      obtain ⟨hview, -, hmem⟩ := stageChange_ok hmid
      have hrest : ∃ staged', stageChanges c mid changes = .ok staged' := by
        refine ih.mpr ⟨fun change hchange => ?_, fun before change after heq => ?_⟩
        · rcases hreads change (List.mem_cons_of_mem _ hchange) with hin | hin
          · exact .inl ((hmem _).mpr (.inr hin))
          · exact .inr hin
        · have hnext := hranges (first :: before) change after (by rw [heq]; rfl)
          rw [hview, add_assoc, ← Finsupp.add_apply]
          simpa using hnext
      obtain ⟨staged', hrest⟩ := hrest
      exact ⟨staged', mid, hmid, hrest⟩

/-- After a change that is not its own an account is as before, so it is in range all the time if
it is after each of its own. -/
theorem inRange_take {changes : List Change} {account : Account} (hread : c.Readable account)
    (hranges : ∀ before change after, changes = before ++ change :: after →
      InRange (c.ledger change.account +
        (((before ++ [change]).map Change.delta).sum : Ledger) change.account)) (n : ℕ) :
    InRange (c.unitsAfter (changes.map Change.delta) n account) := by
  unfold unitsAfter
  induction n with
  | zero => simpa using hread.inRange
  | succ n ih =>
    rw [← List.map_take] at ih ⊢
    by_cases hn : n < changes.length
    · rw [List.take_succ_eq_append_getElem hn]
      by_cases hsame : changes[n].account = account
      · have hown := hranges (changes.take n) changes[n] (changes.drop (n + 1))
          (by rw [List.getElem_cons_drop, List.take_append_drop])
        rwa [hsame] at hown
      · have hzero : changes[n].delta account = 0 := Finsupp.single_eq_of_ne (Ne.symm hsame)
        rw [List.map_append, List.sum_append, Finsupp.add_apply]
        simpa [hzero] using ih
    · rw [List.take_of_length_le (by omega)] at ih ⊢
      exact ih

end Staging

/-! ## Converting and writing -/

/-- The units are converted exactly when they are representable. -/
theorem prepareStaged_isOk_iff {entries : List (Σ _ : Account, ℤ × ℤ)}
    (hrange : ∀ e ∈ entries, InRange e.2) :
    (∃ prepared, prepareStaged entries = .ok prepared) ↔
      ∀ e ∈ entries, Representable e.2.1 ∧ Representable e.2.2 := by
  induction entries with
  | nil => exact ⟨fun _ e he => absurd he List.not_mem_nil, fun _ => ⟨[], rfl⟩⟩
  | cons e entries ih =>
    obtain ⟨key, x⟩ := e
    have ih := ih fun e he => hrange e (List.mem_cons_of_mem _ he)
    obtain ⟨⟨h1, h2⟩, h3, h4⟩ := hrange _ (List.mem_cons_self ..)
    simp only [prepareStaged, bind_eq_ok, pure_eq_ok, List.forall_mem_cons]
    rw [← ih]
    constructor
    · rintro ⟨_, a, ha, l, hl, rest, hrest, -⟩
      exact ⟨⟨⟨a, units_decimal h1 h2 ha⟩, l, units_decimal h3 h4 hl⟩, rest, hrest⟩
    · rintro ⟨⟨havailable, hlocked⟩, rest, hrest⟩
      obtain ⟨a, ha⟩ := exists_decimal havailable
      obtain ⟨l, hl⟩ := exists_decimal hlocked
      exact ⟨_, a, ha, l, hl, rest, hrest, rfl⟩

/-- What the write-back leaves in each account. -/
theorem writePrepared_lookup {entries : List (Σ _ : Account, ℤ × ℤ)}
    {prepared : List (Account × Balance)} (h : prepareStaged entries = .ok prepared)
    (hnodup : entries.NodupKeys) (hrange : ∀ e ∈ entries, InRange e.2) (c : BalanceCache) :
    (∀ e ∈ entries, ∃ b, (writePrepared c prepared).balances.lookup e.1 = some b ∧
        units b.available = .ok e.2.1 ∧ units b.locked = .ok e.2.2) ∧
      ∀ k, k ∉ entries.keys →
        (writePrepared c prepared).balances.lookup k = c.balances.lookup k := by
  induction entries generalizing c prepared with
  | nil =>
    obtain rfl := pure_eq_ok.mp h
    exact ⟨fun e he => absurd he List.not_mem_nil, fun _ _ => rfl⟩
  | cons e entries ih =>
    obtain ⟨key, x⟩ := e
    simp only [prepareStaged, bind_eq_ok, pure_eq_ok] at h
    obtain ⟨a, ha, l, hl, rest, hrest, rfl⟩ := h
    rw [List.nodupKeys_cons] at hnodup
    obtain ⟨⟨h1, h2⟩, h3, h4⟩ := hrange _ (List.mem_cons_self ..)
    obtain ⟨hentries, hothers⟩ := ih hrest hnodup.2
      (fun e he => hrange e (List.mem_cons_of_mem _ he)) ⟨c.balances.insert key ⟨a, l⟩⟩
    refine ⟨fun e he => ?_, fun k hk => ?_⟩
    · rcases List.mem_cons.mp he with rfl | he
      · refine ⟨⟨a, l⟩, (hothers key hnodup.1).trans (Finmap.lookup_insert _), ?_, ?_⟩
        · exact units_decimal h1 h2 ha
        · exact units_decimal h3 h4 hl
      · exact hentries e he
    · rw [List.keys_cons, List.mem_cons, not_or] at hk
      exact (hothers k hk.2).trans (Finmap.lookup_insert_of_ne _ hk.1)

/-! ## The amounts of a trade -/

/-- The fee depends on the units that were received. -/
theorem fee_congr_units {received received' rate : Decimal} {x : ℤ}
    (h : units received = .ok x) (h' : units received' = .ok x) :
    fee received rate = fee received' rate := by
  simp only [fee, h, h']

/-- The units of a trade, without the calls that compute them. -/
theorem tradeUnits_iff {trade : MatchResult} {amount value buyerFee sellerFee : ℤ} :
    tradeUnits trade = .ok (amount, value, buyerFee, sellerFee) ↔
      units trade.amount = .ok amount ∧
        (∃ price, units trade.price = .ok price ∧ price * amount = value * 10 ^ 9 ∧
          Representable value) ∧
        (∃ charged, fee trade.amount trade.buyerFeeRate = .ok charged ∧
          units charged = .ok buyerFee) ∧
        ∃ received charged, units received = .ok value ∧
          fee received trade.sellerFeeRate = .ok charged ∧ units charged = .ok sellerFee := by
  simp only [tradeUnits, bind_eq_ok, pure_eq_ok, Prod.mk.injEq]
  constructor
  · rintro ⟨a, ha, q, hq, v, hv, f, hf, bf, hbf, q', hq', g, hg, sf, hsf, rfl, rfl, rfl, rfl⟩
    obtain rfl : q = q' := Except.ok.inj (hq.symm.trans hq')
    obtain ⟨p, a', v', hp, ha', hv', hprice⟩ := quote_ok hq
    obtain rfl : a = a' := Except.ok.inj (ha.symm.trans ha')
    obtain rfl : v = v' := Except.ok.inj (hv.symm.trans hv')
    exact ⟨ha, ⟨p, hp, hprice, q, hv⟩, ⟨f, hf, hbf⟩, q, g, hv, hg, hsf⟩
  · rintro ⟨ha, ⟨p, hp, hprice, hvalue⟩, ⟨f, hf, hbf⟩, received, g, hreceived, hg, hsf⟩
    obtain ⟨q, hq, hv⟩ := exists_quote hp ha hvalue hprice
    rw [fee_congr_units hreceived hv] at hg
    exact ⟨amount, ha, q, hq, value, hv, f, hf, buyerFee, hbf, q, hq, g, hg, sellerFee, hsf,
      rfl, rfl, rfl, rfl⟩

/-! ## Settlement -/

theorem settleTrade_traceless (trade : MatchResult) : Mut.Traceless (settleTrade trade) :=
  Mut.traceless_lift_bind fun _ => Mut.traceless_lift_bind fun _ => Mut.traceless_lift_bind
    fun _ => Mut.traceless_lift_bind fun _ => Mut.traceless_lift_bind fun _ =>
    Mut.traceless_lift_bind fun _ => Mut.traceless_lift_bind fun _ => Mut.traceless_get_bind
    fun _ => Mut.traceless_lift_bind fun _ => Mut.traceless_lift_bind fun _ =>
    Mut.traceless_modify _

/-- A finished settlement, read backwards. -/
theorem settleTrade_run_iff {c c' : BalanceCache} {trade : MatchResult} :
    (settleTrade trade).run c = (.ok (), c') ↔
      (0 < trade.buyerId ∧ 0 < trade.sellerId) ∧
        (0 < trade.buyOrderId ∧ 0 < trade.sellOrderId ∧ trade.buyOrderId ≠ trade.sellOrderId) ∧
        ValidAsset trade.baseMint ∧ ValidAsset trade.quoteMint ∧
        trade.baseMint ≠ trade.quoteMint ∧ (0 < trade.price ∧ 0 < trade.amount) ∧
        ∃ amount value buyerFee sellerFee,
          tradeUnits trade = .ok (amount, value, buyerFee, sellerFee) ∧
          ∃ staged, stageChanges c ∅ (tradeChanges trade amount value buyerFee sellerFee) =
            .ok staged ∧
          ∃ prepared, prepareStaged staged.entries = .ok prepared ∧
            writePrepared c prepared = c' := by
  simp [settleTrade, Mut.run_bind_ok_iff, writePrepared]

section Trade

variable {c c' : BalanceCache} {trade : MatchResult} {amount value buyerFee sellerFee : ℤ}

theorem stagedAt_empty (account : Account) : stagedAt c ∅ account = c.ledger account := by
  rw [stagedAt, AList.lookup_empty, Option.getD_none]

/-- The four changes are staged exactly when the accounts can be read and are in range all the
time. -/
theorem stageTrade_isOk_iff :
    (∃ staged, stageChanges c ∅ (tradeChanges trade amount value buyerFee sellerFee) =
        .ok staged) ↔
      (∀ account ∈ touched trade, c.Readable account) ∧
        ∀ n ≤ 4, ∀ account ∈ touched trade,
          InRange (c.unitsAfter (movements trade amount value buyerFee sellerFee) n account) := by
  have haccounts : (tradeChanges trade amount value buyerFee sellerFee).map Change.account =
      touched trade := rfl
  rw [stageChanges_isOk_iff]
  simp only [stagedAt_empty]
  constructor
  · rintro ⟨hreads, hranges⟩
    have hread : ∀ account ∈ touched trade, c.Readable account := by
      intro account haccount
      rw [← haccounts] at haccount
      obtain ⟨change, hchange, rfl⟩ := List.mem_map.mp haccount
      exact (hreads change hchange).resolve_left (AList.notMem_empty _)
    exact ⟨hread, fun n _ account haccount => inRange_take (hread account haccount) hranges n⟩
  · rintro ⟨hread, hranges⟩
    have hmem : ∀ change ∈ tradeChanges trade amount value buyerFee sellerFee,
        change.account ∈ touched trade := fun change hchange =>
      haccounts ▸ List.mem_map_of_mem hchange
    refine ⟨fun change hchange => .inr (hread _ (hmem change hchange)),
      fun before change after heq => ?_⟩
    have hlength : before.length + 1 ≤ 4 := by
      have := congrArg List.length heq
      rw [List.length_append, List.length_cons] at this
      change 4 = _ at this
      omega
    have hown := hranges (before.length + 1) hlength change.account
      (hmem change (heq ▸ List.mem_append_right _ (List.mem_cons_self ..)))
    have htake : (tradeChanges trade amount value buyerFee sellerFee).take (before.length + 1) =
        before ++ [change] := by
      rw [heq, List.take_length_add_append]
      rfl
    rw [← htake, List.map_take]
    exact hown

/-- What is staged after the four changes. -/
theorem stageTrade_entries {staged : Staged}
    (h : stageChanges c ∅ (tradeChanges trade amount value buyerFee sellerFee) = .ok staged)
    (account : Account) (x : ℤ × ℤ) :
    ⟨account, x⟩ ∈ staged.entries ↔ account ∈ touched trade ∧
      x = c.unitsAfter (movements trade amount value buyerFee sellerFee) 4 account := by
  obtain ⟨hview, -, hmem⟩ := stageChanges_ok h
  have hat : stagedAt c staged account =
      c.unitsAfter (movements trade amount value buyerFee sellerFee) 4 account := by
    rw [hview, stagedAt_empty]
    rfl
  have hkeys : account ∈ staged ↔ account ∈ touched trade := by
    rw [hmem]
    exact or_iff_left (AList.notMem_empty account)
  rw [← AList.mem_lookup_iff, Option.mem_def, ← hkeys, ← hat, stagedAt]
  constructor
  · intro hx
    exact ⟨AList.lookup_isSome.mp (by rw [hx]; rfl), by rw [hx, Option.getD_some]⟩
  · rintro ⟨hin, rfl⟩
    obtain ⟨x, hx⟩ := Option.isSome_iff_exists.mp (AList.lookup_isSome.mpr hin)
    rw [hx, Option.getD_some]

theorem keys_stageTrade {staged : Staged}
    (h : stageChanges c ∅ (tradeChanges trade amount value buyerFee sellerFee) = .ok staged)
    {account : Account} (ha : account ∉ touched trade) : account ∉ staged.entries.keys := by
  intro hkey
  obtain ⟨x, hx⟩ := List.exists_of_mem_keys hkey
  exact ha ((stageTrade_entries h account x).mp hx).1

/-- Who gives has it reserved, when all accounts are in range all the time. -/
theorem covered_of_inRange (hassets : trade.baseMint ≠ trade.quoteMint)
    (hrange : ∀ n ≤ 4, ∀ account ∈ touched trade,
      InRange (c.unitsAfter (movements trade amount value buyerFee sellerFee) n account)) :
    value ≤ (c.ledger (trade.buyerId, trade.quoteMint)).2 ∧
      amount ≤ (c.ledger (trade.sellerId, trade.baseMint)).2 := by
  have hquote := hrange 1 (by norm_num) (trade.buyerId, trade.quoteMint) (by simp [touched])
  have hbase := hrange 3 (by norm_num) (trade.sellerId, trade.baseMint) (by simp [touched])
  constructor
  · have hsum : ((movements trade amount value buyerFee sellerFee).take 1).sum
        (trade.buyerId, trade.quoteMint) = (0, -value) := by
      simp [movements]
    rw [unitsAfter, hsum] at hquote
    have := hquote.2.1
    simp only [Prod.snd_add] at this
    omega
  · have hsum : ((movements trade amount value buyerFee sellerFee).take 3).sum
        (trade.sellerId, trade.baseMint) = (0, -amount) := by
      simp [movements, hassets.symm]
    rw [unitsAfter, hsum] at hbase
    have := hbase.2.1
    simp only [Prod.snd_add] at this
    omega

/-- A settlement that succeeds. -/
theorem settles_of_run (h : (settleTrade trade).run c = (.ok (), c')) :
    ∃ amount value buyerFee sellerFee, Settles c trade amount value buyerFee sellerFee ∧
      Settled c c' trade amount value buyerFee sellerFee := by
  obtain ⟨husers, horders, hbase, hquote, hassets, hpositive, amount, value, buyerFee, sellerFee,
    hunits, staged, hstaged, prepared, hprepared, rfl⟩ := settleTrade_run_iff.mp h
  obtain ⟨hamount, hvalue, hbuyer, hseller⟩ := tradeUnits_iff.mp hunits
  obtain ⟨hread, hrange⟩ := stageTrade_isOk_iff.mp ⟨staged, hstaged⟩
  have hentries : ∀ e ∈ staged.entries, InRange e.2 := by
    rintro ⟨account, x⟩ he
    obtain ⟨haccount, rfl⟩ := (stageTrade_entries hstaged account x).mp he
    exact hrange 4 le_rfl account haccount
  have hrepresentable := (prepareStaged_isOk_iff hentries).mp ⟨prepared, hprepared⟩
  obtain ⟨hmoved, hothers⟩ := writePrepared_lookup hprepared staged.nodupKeys hentries c
  refine ⟨amount, value, buyerFee, sellerFee, ⟨husers, horders, ⟨hbase, hquote, hassets⟩,
    hpositive, hamount, hvalue, hbuyer, hseller, hread, covered_of_inRange hassets hrange, hrange,
    fun account haccount => ?_⟩, fun account haccount => ?_, fun account haccount => ?_⟩
  · exact hrepresentable _ ((stageTrade_entries hstaged account _).mpr ⟨haccount, rfl⟩)
  · exact hmoved _ ((stageTrade_entries hstaged account _).mpr ⟨haccount, rfl⟩)
  · exact hothers account (keys_stageTrade hstaged haccount)

/-- A settlement that is possible succeeds. -/
theorem Settles.run (h : Settles c trade amount value buyerFee sellerFee) :
    ∃ c', (settleTrade trade).run c = (.ok (), c') := by
  have hunits := tradeUnits_iff.mpr ⟨h.amount_eq, h.value_eq, h.buyerFee_eq, h.sellerFee_eq⟩
  obtain ⟨staged, hstaged⟩ := stageTrade_isOk_iff.mpr ⟨h.readable, h.inRange⟩
  have hentries : ∀ e ∈ staged.entries, InRange e.2 := by
    rintro ⟨account, x⟩ he
    obtain ⟨haccount, rfl⟩ := (stageTrade_entries hstaged account x).mp he
    exact h.inRange 4 le_rfl account haccount
  obtain ⟨prepared, hprepared⟩ : ∃ prepared, prepareStaged staged.entries = .ok prepared := by
    refine (prepareStaged_isOk_iff hentries).mpr ?_
    rintro ⟨account, x⟩ he
    obtain ⟨haccount, rfl⟩ := (stageTrade_entries hstaged account x).mp he
    exact h.representable account haccount
  exact ⟨_, settleTrade_run_iff.mpr ⟨h.users, h.orders, h.assets.1, h.assets.2.1, h.assets.2.2,
    h.positive, amount, value, buyerFee, sellerFee, hunits, staged, hstaged, prepared, hprepared,
    rfl⟩⟩

end Trade

/-- **What settling a trade does**, for every cache and every trade, also when the buyer is the
seller. -/
theorem settleTrade_spec (c : BalanceCache) (trade : MatchResult) :
    ((∃ c', (settleTrade trade).run c = (.ok (), c')) ↔
        ∃ amount value buyerFee sellerFee, Settles c trade amount value buyerFee sellerFee) ∧
      (∀ c', (settleTrade trade).run c = (.ok (), c') →
        ∃ amount value buyerFee sellerFee, Settles c trade amount value buyerFee sellerFee ∧
          Settled c c' trade amount value buyerFee sellerFee) ∧
      ∀ fault c', (settleTrade trade).run c = (.error fault, c') → c' = c := by
  refine ⟨⟨fun ⟨c', hrun⟩ => ?_, fun ⟨_, _, _, _, h⟩ => h.run⟩, fun c' => settles_of_run,
    fun fault c' => settleTrade_traceless trade c fault c'⟩
  obtain ⟨amount, value, buyerFee, sellerFee, hsettles, -⟩ := settles_of_run hrun
  exact ⟨amount, value, buyerFee, sellerFee, hsettles⟩

end BalanceCache
end CexEngine
