import CexEngine.Engine.BalanceCache
import CexEngine.Foundation.FiniteMap

/-!
# Balances as a ledger

The abstract model of the balance cache: a `Ledger` gives every account its
available and its locked units, and is zero at all but finitely many accounts.
Ledgers form a group, so a movement of money is the addition of a ledger, and the
two questions later modules ask are additive maps of it: the total of an asset
(`assetTotal`), and what one account has locked.

`Moves c c' δ touched` connects the layers: the cache `c'` is `c` with the
movement `δ`, and no account was created outside `touched`.  There is one lemma
per operation of the cache,

* `changeReservation_moves`: locking and unlocking;
* `settleTrade_moves`: the four changes of a trade;
* `setAvailable_moves`, `setLocked_moves`: a single write,

and `Moves.trans` composes them.
-/

namespace CexEngine

open Foundation Foundation.FiniteMap Amount

/-! ## Ledgers -/

/-- The available and the locked units of every account. -/
abbrev Ledger := Account →₀ ℤ × ℤ

namespace Ledger

/-- The total of an asset, available and locked, over all users. -/
noncomputable def assetTotal (asset : String) : Ledger →+ ℤ :=
  Finsupp.liftAddHom fun account =>
    if account.2 = asset then AddMonoidHom.fst ℤ ℤ + AddMonoidHom.snd ℤ ℤ else 0

/-- What an account has locked. -/
noncomputable def lockedAt (account : Account) : Ledger →+ ℤ :=
  (AddMonoidHom.snd ℤ ℤ).comp (Finsupp.applyAddHom account)

@[simp] theorem assetTotal_single (asset : String) (account : Account) (x : ℤ × ℤ) :
    assetTotal asset (Finsupp.single account x) = if account.2 = asset then x.1 + x.2 else 0 := by
  rw [assetTotal, Finsupp.liftAddHom_apply_single]
  split <;> rfl

theorem assetTotal_apply (asset : String) (l : Ledger) :
    assetTotal asset l = l.sum fun account x => if account.2 = asset then x.1 + x.2 else 0 := by
  rw [assetTotal, Finsupp.liftAddHom_apply]
  refine Finsupp.sum_congr fun account _ => ?_
  split <;> rfl

theorem lockedAt_apply (account : Account) (l : Ledger) : lockedAt account l = (l account).2 := rfl

@[simp] theorem lockedAt_single (account account' : Account) (x : ℤ × ℤ) :
    lockedAt account (Finsupp.single account' x) = if account' = account then x.2 else 0 := by
  rw [lockedAt_apply, Finsupp.single_apply]
  split <;> rfl

end Ledger

namespace BalanceCache

/-! ## The ledger of a cache -/

/-- The units of a balance. -/
def unitsPair (b : Balance) : ℤ × ℤ := (unitsOf b.available, unitsOf b.locked)

noncomputable def ledger (c : BalanceCache) : Ledger := weights unitsPair c.balances

/-- Every balance is a non-negative whole number of units in range. -/
def Valid (c : BalanceCache) : Prop :=
  ∀ account b, c.balances.lookup account = some b →
    (∃ x, units b.available = .ok x) ∧ ∃ y, units b.locked = .ok y

theorem ledger_insert (c : BalanceCache) (account : Account) (b : Balance) :
    ledger ⟨c.balances.insert account b⟩ =
      c.ledger + Finsupp.single account (unitsPair b - c.ledger account) :=
  weights_insert unitsPair c.balances account b

theorem Valid.insert {c : BalanceCache} (hc : c.Valid) {account : Account} {b : Balance} {x y : ℤ}
    (hx : units b.available = .ok x) (hy : units b.locked = .ok y) :
    Valid ⟨c.balances.insert account b⟩ := by
  intro account' b' h
  rw [lookup_insert_eq] at h
  split at h
  · cases h
    exact ⟨⟨x, hx⟩, y, hy⟩
  · exact hc account' b' h

/-- The stored balance of an account, or the zero balance. -/
def balanceAt (c : BalanceCache) (account : Account) : Balance :=
  (c.balances.lookup account).getD Balance.new

theorem ledger_apply (c : BalanceCache) (account : Account) :
    c.ledger account = unitsPair (c.balanceAt account) := by
  rw [ledger, weights_apply, balanceAt]
  cases c.balances.lookup account <;> rfl

theorem Valid.balanceAt {c : BalanceCache} (hc : c.Valid) (account : Account) :
    (∃ x, units (c.balanceAt account).available = .ok x) ∧
      ∃ y, units (c.balanceAt account).locked = .ok y := by
  unfold BalanceCache.balanceAt
  cases h : c.balances.lookup account with
  | none => exact ⟨⟨0, units_zero⟩, 0, units_zero⟩
  | some b => exact hc account b h

/-! ## Movements -/

/-- `c'` is `c` after the movement `δ`; only accounts of `touched` were created. -/
structure Moves (c c' : BalanceCache) (δ : Ledger) (touched : List Account) : Prop where
  ledger_eq : c'.ledger = c.ledger + δ
  valid : c.Valid → c'.Valid
  mono : ∀ account, account ∈ c.balances → account ∈ c'.balances
  created : ∀ account, account ∈ c'.balances → account ∈ c.balances ∨ account ∈ touched

namespace Moves

variable {c c' c'' : BalanceCache} {δ δ' : Ledger} {touched touched' : List Account}

theorem refl (c : BalanceCache) : Moves c c 0 [] :=
  ⟨(add_zero _).symm, id, fun _ => id, fun _ => Or.inl⟩

theorem trans (h : Moves c c' δ touched) (h' : Moves c' c'' δ' touched') :
    Moves c c'' (δ + δ') (touched ++ touched') where
  ledger_eq := by rw [h'.ledger_eq, h.ledger_eq, add_assoc]
  valid := fun hc => h'.valid (h.valid hc)
  mono := fun account ha => h'.mono account (h.mono account ha)
  created := fun account ha => by
    rw [List.mem_append]
    rcases h'.created account ha with ha | ha
    · exact (h.created account ha).imp_right Or.inl
    · exact Or.inr (Or.inr ha)

end Moves

/-- Writing one account. -/
theorem insert_moves (c : BalanceCache) (account : Account) {b : Balance}
    (hb : c.Valid → (∃ x, units b.available = .ok x) ∧ ∃ y, units b.locked = .ok y) :
    Moves c ⟨c.balances.insert account b⟩
      (Finsupp.single account (unitsPair b - unitsPair (c.balanceAt account))) [account] where
  ledger_eq := by rw [ledger_insert, ledger_apply]
  valid := fun hc => by
    obtain ⟨⟨x, hx⟩, y, hy⟩ := hb hc
    exact hc.insert hx hy
  mono := fun account' h => Finmap.mem_insert.mpr (Or.inr h)
  created := fun account' h => by
    rcases Finmap.mem_insert.mp h with h | h
    · exact Or.inr (by rw [h]; exact List.mem_singleton_self _)
    · exact Or.inl h

/-- Writing the available amount of an account. -/
theorem setAvailable_moves (c : BalanceCache) (userId : UInt64) (mint : String) {next : Decimal}
    {x : ℤ} (hx : units next = .ok x) :
    Moves c (c.getBalanceMut userId mint fun b => { b with available := next })
      (Finsupp.single (userId, mint) (x - unitsOf (c.balanceAt (userId, mint)).available, 0))
      [(userId, mint)] := by
  have hmove := insert_moves c (userId, mint)
    (b := { c.balanceAt (userId, mint) with available := next })
    fun hc => ⟨⟨x, hx⟩, (hc.balanceAt _).2⟩
  rw [unitsPair, unitsPair, unitsOf_eq hx, Prod.mk_sub_mk, sub_self] at hmove
  exact hmove

/-- Writing the locked amount of an account. -/
theorem setLocked_moves (c : BalanceCache) (userId : UInt64) (mint : String) {next : Decimal}
    {x : ℤ} (hx : units next = .ok x) :
    Moves c (c.getBalanceMut userId mint fun b => { b with locked := next })
      (Finsupp.single (userId, mint) (0, x - unitsOf (c.balanceAt (userId, mint)).locked))
      [(userId, mint)] := by
  have hmove := insert_moves c (userId, mint)
    (b := { c.balanceAt (userId, mint) with locked := next })
    fun hc => ⟨(hc.balanceAt _).1, x, hx⟩
  rw [unitsPair, unitsPair, unitsOf_eq hx, Prod.mk_sub_mk, sub_self] at hmove
  exact hmove

theorem balanceAt_of_getBalance {c : BalanceCache} {userId : UInt64} {mint : String} {b : Balance}
    (h : c.getBalance userId mint = some b) : c.balanceAt (userId, mint) = b :=
  congrArg (Option.getD · _) h

/-! ## Reservations -/

/-- The movement of a reservation: from available to locked, or back. -/
noncomputable def reservation (account : Account) (lock : Bool) (v : ℤ) : Ledger :=
  Finsupp.single account (if lock then (-v, v) else (v, -v))

/-- Writing both amounts of an account that exists. -/
theorem setBalance_moves {c : BalanceCache} {userId : UInt64} {mint : String} {b : Balance}
    {available locked : Decimal} {x y x' y' : ℤ} (hb : c.getBalance userId mint = some b)
    (hx : units b.available = .ok x) (hy : units b.locked = .ok y)
    (hx' : units available = .ok x') (hy' : units locked = .ok y') :
    Moves c (c.setBalance userId mint available locked)
      (Finsupp.single (userId, mint) (x' - x, y' - y)) [(userId, mint)] := by
  have hmove := insert_moves c (userId, mint) (b := ⟨available, locked⟩)
    fun _ => ⟨⟨x', hx'⟩, y', hy'⟩
  rw [balanceAt_of_getBalance hb, unitsPair, unitsPair, unitsOf_eq hx, unitsOf_eq hy,
    unitsOf_eq hx', unitsOf_eq hy', Prod.mk_sub_mk] at hmove
  exact hmove

/-- **Locking and unlocking.** -/
theorem changeReservation_moves {c c' : BalanceCache} {userId : UInt64} {mint : String}
    {value : Decimal} {lock : Bool}
    (h : (changeReservation userId mint value lock).run c = (.ok (), c')) :
    ∃ v, units value = .ok v ∧ 0 < v ∧
      Moves c c' (reservation (userId, mint) lock v) [(userId, mint)] := by
  cases lock with
  | false =>
    simp [changeReservation, Mut.run_bind_ok_iff] at h
    obtain ⟨hpos, ⟨v, hv⟩, b, hb, a, ha, l, hl, rfl⟩ := h
    obtain ⟨x, y, hx, hy, hxy⟩ := add_ok ha
    obtain ⟨z, w, hz, hw, hzw⟩ := subtract_ok hl
    obtain rfl : v = y := Except.ok.inj (hv.symm.trans hy)
    obtain rfl : v = w := Except.ok.inj (hv.symm.trans hw)
    have hmove := setBalance_moves hb hx hz hxy hzw
    rw [add_sub_cancel_left, sub_sub_cancel_left] at hmove
    exact ⟨v, hv, (pos_iff_units hv).mp hpos, hmove⟩
  | true =>
    simp [changeReservation, Mut.run_bind_ok_iff] at h
    obtain ⟨hpos, ⟨v, hv⟩, b, hb, a, ha, l, hl, rfl⟩ := h
    obtain ⟨x, y, hx, hy, hxy⟩ := subtract_ok ha
    obtain ⟨z, w, hz, hw, hzw⟩ := add_ok hl
    obtain rfl : v = y := Except.ok.inj (hv.symm.trans hy)
    obtain rfl : v = w := Except.ok.inj (hv.symm.trans hw)
    have hmove := setBalance_moves hb hx hz hxy hzw
    rw [add_sub_cancel_left, sub_sub_cancel_left] at hmove
    exact ⟨v, hv, (pos_iff_units hv).mp hpos, hmove⟩

/-! ## Settlement -/

/-- The units of an account as the staging loop sees them. -/
noncomputable def stagedAt (c : BalanceCache) (staged : Staged) (account : Account) : ℤ × ℤ :=
  (staged.lookup account).getD (c.ledger account)

/-- Staged units are in range. -/
def Staged.InRange (staged : Staged) : Prop :=
  ∀ account x, staged.lookup account = some x →
    0 ≤ x.1 ∧ x.1 ≤ maxUnits ∧ 0 ≤ x.2 ∧ x.2 ≤ maxUnits

/-- The movement of a single change. -/
noncomputable def Change.delta (change : Change) : Ledger :=
  Finsupp.single (change.user, change.asset) (change.availableDelta, change.lockedDelta)

/-- The account of a change. -/
def Change.account (change : Change) : Account := (change.user, change.asset)

/-- Reading an account into the staging area changes nothing the loop sees. -/
theorem stagedAt_insert_self {c : BalanceCache} {staged : Staged} {account : Account}
    (h : staged.lookup account = none) (k : Account) :
    stagedAt c (staged.insert account (c.ledger account)) k = stagedAt c staged k := by
  unfold stagedAt
  by_cases hk : k = account
  · rw [hk, AList.lookup_insert, h, Option.getD_some, Option.getD_none]
  · rw [AList.lookup_insert_ne hk]

/-- Writing a staged account. -/
theorem stagedAt_insert {c : BalanceCache} {staged : Staged} {account : Account} (x : ℤ × ℤ)
    (k : Account) :
    stagedAt c (staged.insert account (stagedAt c staged account + x)) k =
      stagedAt c staged k + (Finsupp.single account x : Ledger) k := by
  by_cases hk : k = account
  · rw [hk, Finsupp.single_eq_same, stagedAt, AList.lookup_insert, Option.getD_some]
  · rw [Finsupp.single_eq_of_ne hk, add_zero, stagedAt, AList.lookup_insert_ne hk, stagedAt]

/-- Reading an account on its first use. -/
theorem stageAccount_ok {c : BalanceCache} {staged staged' : Staged} {account : Account}
    (h : stageAccount c staged account = .ok staged') :
    (∀ k, stagedAt c staged' k = stagedAt c staged k) ∧
      (∀ k, k ≠ account → staged'.lookup k = staged.lookup k) ∧
      ∀ k, k ∈ staged' ↔ k = account ∨ k ∈ staged := by
  unfold stageAccount at h
  cases hl : staged.lookup account with
  | some x =>
    rw [hl] at h
    obtain rfl := pure_eq_ok.mp h
    refine ⟨fun _ => rfl, fun _ _ => rfl, fun k => ⟨Or.inr, ?_⟩⟩
    rintro (rfl | hk)
    · exact AList.lookup_isSome.mp (by rw [hl]; rfl)
    · exact hk
  | none =>
    rw [hl] at h
    simp only [bind_eq_ok, pure_eq_ok] at h
    obtain ⟨a, ha, b, hb, rfl⟩ := h
    have hold : (a, b) = c.ledger account := by
      rw [ledger_apply, unitsPair]
      exact Prod.ext (unitsOf_eq ha).symm (unitsOf_eq hb).symm
    refine ⟨fun k => ?_, fun k hk => AList.lookup_insert_ne hk, fun k => AList.mem_insert _⟩
    rw [hold]
    exact stagedAt_insert_self hl k

/-- **One round of the staging loop.** -/
theorem stageChange_ok {c : BalanceCache} {staged staged' : Staged} {change : Change}
    (h : stageChange c staged change = .ok staged') :
    (∀ k, stagedAt c staged' k = stagedAt c staged k + change.delta k) ∧
      (staged.InRange → staged'.InRange) ∧
      ∀ k, k ∈ staged' ↔ k = change.account ∨ k ∈ staged := by
  simp only [stageChange, bind_eq_ok, pure_eq_ok, orErr_eq_ok, expect_eq_ok, ensure_eq_ok,
    checkedI128_eq_some, exists_const] at h
  obtain ⟨mid, hmid, x, hx, _, ⟨-, rfl⟩, _, ⟨-, rfl⟩, hpos, hmax, rfl⟩ := h
  obtain ⟨hview, hother, hmem⟩ := stageAccount_ok hmid
  refine ⟨fun k => ?_, fun hr k y hy => ?_, fun k => ?_⟩
  · have hat : stagedAt c mid change.account = x := by
      rw [stagedAt]
      exact congrArg (Option.getD · _) hx
    have hsum : (x.1 + change.availableDelta, x.2 + change.lockedDelta) =
        stagedAt c mid change.account + (change.availableDelta, change.lockedDelta) := by
      rw [hat]
      rfl
    rw [hsum, ← hview k]
    exact stagedAt_insert _ k
  · by_cases hk : k = change.account
    · rw [hk] at hy
      obtain rfl := Option.some.inj ((AList.lookup_insert mid).symm.trans hy)
      exact ⟨hpos.1, hmax.1, hpos.2, hmax.2⟩
    · exact hr k y ((hother k hk).symm.trans ((AList.lookup_insert_ne hk).symm.trans hy))
  · rw [AList.mem_insert, hmem]
    exact ⟨fun h => h.elim Or.inl id, Or.inr⟩

/-- The staging loop. -/
theorem stageChanges_ok {c : BalanceCache} {changes : List Change} {staged staged' : Staged}
    (h : stageChanges c staged changes = .ok staged') :
    (∀ k, stagedAt c staged' k = stagedAt c staged k + ((changes.map Change.delta).sum : Ledger) k) ∧
      (staged.InRange → staged'.InRange) ∧
      ∀ k, k ∈ staged' ↔ k ∈ changes.map Change.account ∨ k ∈ staged := by
  induction changes generalizing staged with
  | nil =>
    obtain rfl := pure_eq_ok.mp h
    simp
  | cons change changes ih =>
    obtain ⟨mid, hmid, hrest⟩ := bind_eq_ok.mp h
    obtain ⟨hview, hrange, hmem⟩ := stageChange_ok hmid
    obtain ⟨hview', hrange', hmem'⟩ := ih hrest
    refine ⟨fun k => ?_, fun hr => hrange' (hrange hr), fun k => ?_⟩
    · rw [hview', hview, List.map_cons, List.sum_cons, Finsupp.add_apply, add_assoc]
    · rw [hmem', hmem, List.map_cons, List.mem_cons]
      tauto

/-- Write prepared balances to the cache. -/
def writePrepared (c : BalanceCache) (prepared : List (Account × Balance)) : BalanceCache :=
  ⟨prepared.foldl (fun balances entry => balances.insert entry.1 entry.2) c.balances⟩

/-- **The conversion and the write-back.**  The accounts staged get the staged
units, and all others keep theirs. -/
theorem writePrepared_ok {entries : List (Σ _ : Account, ℤ × ℤ)}
    {prepared : List (Account × Balance)} (h : prepareStaged entries = .ok prepared)
    (hnodup : entries.NodupKeys)
    (hrange : ∀ e ∈ entries, 0 ≤ e.2.1 ∧ e.2.1 ≤ maxUnits ∧ 0 ≤ e.2.2 ∧ e.2.2 ≤ maxUnits)
    (c : BalanceCache) :
    (∀ k, (writePrepared c prepared).ledger k = (entries.dlookup k).getD (c.ledger k)) ∧
      (c.Valid → (writePrepared c prepared).Valid) ∧
      ∀ k, k ∈ (writePrepared c prepared).balances ↔ k ∈ entries.keys ∨ k ∈ c.balances := by
  induction entries generalizing c prepared with
  | nil =>
    obtain rfl := pure_eq_ok.mp h
    refine ⟨fun k => rfl, id, fun k => ?_⟩
    simp [writePrepared]
  | cons e entries ih =>
    obtain ⟨key, x⟩ := e
    simp only [prepareStaged, bind_eq_ok, pure_eq_ok] at h
    obtain ⟨a, ha, l, hl, rest, hrest, rfl⟩ := h
    rw [List.nodupKeys_cons] at hnodup
    obtain ⟨h1, h2, h3, h4⟩ := hrange _ (List.mem_cons_self ..)
    have hua := units_decimal h1 h2 ha
    have hul := units_decimal h3 h4 hl
    obtain ⟨hled, hval, hkeys⟩ := ih hrest hnodup.2
      (fun e he => hrange e (List.mem_cons_of_mem _ he)) ⟨c.balances.insert key ⟨a, l⟩⟩
    refine ⟨fun k => ?_, fun hc => hval (hc.insert hua hul), fun k => ?_⟩
    · refine (hled k).trans ?_
      by_cases hk : k = key
      · have hnone : entries.dlookup key = none := List.dlookup_eq_none.mpr hnodup.1
        rw [hk, hnone, Option.getD_none, List.dlookup_cons_eq, Option.getD_some, ledger,
          weights_apply, Finmap.lookup_insert, Option.elim_some, unitsPair, unitsOf_eq hua,
          unitsOf_eq hul]
      · rw [List.dlookup_cons_ne _ _ hk]
        refine congrArg _ ?_
        rw [ledger, weights_apply, Finmap.lookup_insert_of_ne _ hk]
        rfl
    · refine (hkeys k).trans ?_
      rw [Finmap.mem_insert, List.keys_cons, List.mem_cons]
      tauto

/-- The movement of a trade.  The two fees are in neither account. -/
noncomputable def tradeDelta (trade : MatchResult) (amount value buyerFee sellerFee : ℤ) : Ledger :=
  ((tradeChanges trade amount value buyerFee sellerFee).map Change.delta).sum

/-- What the checks of a settlement establish. -/
structure Settleable (trade : MatchResult) (amount value buyerFee sellerFee : ℤ) : Prop where
  units_eq : tradeUnits trade = .ok (amount, value, buyerFee, sellerFee)
  assets_ne : trade.baseMint ≠ trade.quoteMint

/-- **Settling a trade.** -/
theorem settleTrade_moves {c c' : BalanceCache} {trade : MatchResult}
    (h : (settleTrade trade).run c = (.ok (), c')) :
    ∃ amount value buyerFee sellerFee, Settleable trade amount value buyerFee sellerFee ∧
      Moves c c' (tradeDelta trade amount value buyerFee sellerFee)
        [(trade.buyerId, trade.quoteMint), (trade.sellerId, trade.quoteMint),
          (trade.sellerId, trade.baseMint), (trade.buyerId, trade.baseMint)] := by
  simp [settleTrade, Mut.run_bind_ok_iff] at h
  obtain ⟨-, -, -, -, hne, -, amount, value, buyerFee, sellerFee, hunits, staged, hstaged,
    prepared, hprepared, rfl⟩ := h
  obtain ⟨hview, hrange, hmem⟩ := stageChanges_ok hstaged
  have hempty : Staged.InRange ∅ := fun account x hx => by
    rw [AList.lookup_empty] at hx
    cases hx
  have hentries : ∀ e ∈ staged.entries,
      0 ≤ e.2.1 ∧ e.2.1 ≤ maxUnits ∧ 0 ≤ e.2.2 ∧ e.2.2 ≤ maxUnits := fun e he =>
    hrange hempty e.1 e.2 (AList.mem_lookup_iff.mpr he)
  obtain ⟨hled, hval, hkeys⟩ := writePrepared_ok hprepared staged.nodupKeys hentries c
  refine ⟨amount, value, buyerFee, sellerFee, ⟨hunits, hne⟩, ?_, hval, ?_, ?_⟩
  · ext1 k
    refine (hled k).trans ((hview k).trans ?_)
    rw [stagedAt, AList.lookup_empty, Option.getD_none]
    rfl
  · exact fun k hk => (hkeys k).mpr (Or.inr hk)
  · intro k hk
    rcases (hkeys k).mp hk with hk | hk
    · rcases (hmem k).mp hk with hk | hk
      · exact Or.inr hk
      · exact absurd hk (AList.notMem_empty k)
    · exact Or.inl hk

/-! ## Working copies -/

theorem copyAccountFrom_lookup {source p : BalanceCache} (account : Account)
    (hp : ∀ k b, p.balances.lookup k = some b → source.balances.lookup k = some b) (k : Account) :
    (p.copyAccountFrom source account.1 account.2).balances.lookup k =
      if k = account then source.balances.lookup k else p.balances.lookup k := by
  by_cases hk : k = account
  · rw [if_pos hk, hk]
    simp only [copyAccountFrom, getBalance]
    cases hself : p.balances.lookup account with
    | some b => exact hself.trans (hp _ _ hself).symm
    | none =>
      cases hsource : source.balances.lookup account with
      | some b => exact Finmap.lookup_insert _
      | none => exact hself
  · rw [if_neg hk]
    simp only [copyAccountFrom, getBalance]
    cases p.balances.lookup account with
    | some b => rfl
    | none =>
      cases source.balances.lookup account with
      | some b => exact Finmap.lookup_insert_of_ne _ hk
      | none => rfl

end BalanceCache
end CexEngine
