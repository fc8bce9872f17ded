import CexEngine.Runtime.Conservation
import CexEngine.Runtime.OrderHistory

/-!
# The history of an account

What an account is worth, available and locked together, can be read off the published records
alone: the trades with the fees they publish, the credited deposits, the completed withdrawals
and the balance changes.  Submissions, cancellations, and reserved or released withdrawals only
move money inside an account.

`Effect.worth` is this for one transition, and `accounts_reconstructed` for a whole life of the
engine, restarts included.
-/

namespace CexEngine

open Foundation Foundation.FiniteMap Amount

/-! ## What an account is worth -/

/-- What an account has, available and locked. -/
noncomputable def Ledger.worthAt (account : Account) : Ledger →+ ℤ :=
  (AddMonoidHom.fst ℤ ℤ + AddMonoidHom.snd ℤ ℤ).comp (Finsupp.applyAddHom account)

theorem Ledger.worthAt_apply (account : Account) (l : Ledger) :
    worthAt account l = (l account).1 + (l account).2 := rfl

@[simp] theorem Ledger.worthAt_single (account account' : Account) (x : ℤ × ℤ) :
    worthAt account (Finsupp.single account' x) = if account' = account then x.1 + x.2 else 0 := by
  rw [worthAt_apply, Finsupp.single_apply]
  split <;> rfl

theorem Ledger.worthAt_reservation (account account' : Account) (lock : Bool) (v : ℤ) :
    Ledger.worthAt account (BalanceCache.reservation account' lock v) = 0 := by
  rw [BalanceCache.reservation, Ledger.worthAt_single]
  cases lock <;> simp

/-- The units of an account, available and locked together. -/
def BalanceCache.worthOf (account : Account) (c : BalanceCache) : ℤ :=
  unitsOf (c.balanceAt account).available + unitsOf (c.balanceAt account).locked

theorem BalanceCache.Moves.worthOf {c c' : BalanceCache} {δ : Ledger} {touched : List Account}
    (h : BalanceCache.Moves c c' δ touched) (account : Account) :
    c'.worthOf account = c.worthOf account + Ledger.worthAt account δ := by
  have hworth : ∀ c : BalanceCache, c.worthOf account = Ledger.worthAt account c.ledger := by
    intro c
    rw [Ledger.worthAt_apply, BalanceCache.ledger_apply]
    rfl
  rw [hworth, hworth, h.ledger_eq, map_add]

/-! ## What the records say -/

/-- What a published trade brings to an account: the buyer gets the amount less its fee and pays
the price, the seller gets the price less its fee and pays the amount. -/
def TradeOutput.movedAt (account : Account) (output : TradeOutput) : ℤ :=
  let t := output.trade
  let value := unitsOf t.price * unitsOf t.amount / FACTOR
  (if (t.buyerId, t.baseMint) = account then unitsOf t.amount - unitsOf output.buyerFee else 0) -
    (if (t.buyerId, t.quoteMint) = account then value else 0) +
    (if (t.sellerId, t.quoteMint) = account then value - unitsOf output.sellerFee else 0) -
    (if (t.sellerId, t.baseMint) = account then unitsOf t.amount else 0)

/-- What a record brings to an account. -/
def movedAt (account : Account) : Command × Outcome → ℤ
  | (_, .applied (some (.submitted _ trades _))) => (trades.map (TradeOutput.movedAt account)).sum
  | (_, .applied (some (.depositCredited credit))) =>
    if (credit.userId, credit.asset) = account then unitsOf credit.amount else 0
  | (_, .applied (some (.withdrawalChanged command))) =>
    if command.action = .complete ∧ (command.funds.userId, command.funds.asset) = account then
      -unitsOf command.funds.amount
    else 0
  | (.balance userId mint delta, .applied _) =>
    if (userId, mint) = account then unitsOf delta else 0
  | _ => 0

/-! ## One transition -/

/-- The trades of a submission, by what they publish. -/
theorem worthAt_settles {trades : List MatchResult} {δ : Ledger}
    (h : Submission.Settles trades δ) {outputs : List TradeOutput}
    (houtputs : tradeOutputs trades = .ok outputs) (account : Account) :
    Ledger.worthAt account δ = (outputs.map (TradeOutput.movedAt account)).sum := by
  induction h generalizing outputs with
  | nil =>
    obtain rfl := pure_eq_ok.mp houtputs
    rw [map_zero, List.map_nil, List.sum_nil]
  | @cons trade trades δ amount value buyerFee sellerFee head tail ih =>
    simp only [tradeOutputs, tradeOutput, bind_eq_ok, expectOk_eq_ok, pure_eq_ok] at houtputs
    obtain ⟨_, ⟨b, hb, v, hv, f, hf, rfl⟩, outputs', houtputs', rfl⟩ := houtputs
    obtain ⟨ha, v', b', f', hv', hw, hb', hbf, hf', hsf⟩ := tradeUnits_ok head.units_eq
    obtain rfl : v = v' := Except.ok.inj (hv.symm.trans hv')
    obtain rfl : b = b' := Except.ok.inj (hb.symm.trans hb')
    obtain rfl : f = f' := Except.ok.inj (hf.symm.trans hf')
    obtain ⟨x, y, z, hx, hy, hz, hxyz⟩ := quote_ok hv
    have hvalue : unitsOf trade.price * unitsOf trade.amount / FACTOR = value := by
      rw [unitsOf_eq hx, unitsOf_eq hy, hxyz, Except.ok.inj (hw.symm.trans hz)]
      exact Int.mul_ediv_cancel _ (by decide)
    rw [unitsOf_eq ha] at hvalue
    have htrade : Ledger.worthAt account
        (BalanceCache.tradeDelta trade amount value buyerFee sellerFee) =
        TradeOutput.movedAt account ⟨trade, b, f⟩ := by
      simp only [TradeOutput.movedAt, hvalue, unitsOf_eq ha, unitsOf_eq hbf, unitsOf_eq hsf,
        BalanceCache.tradeDelta, BalanceCache.tradeChanges, BalanceCache.Change.delta,
        List.map_cons, List.map_nil, List.sum_cons, List.sum_nil, map_add, map_zero,
        Ledger.worthAt_single]
      split_ifs <;> ring
    rw [map_add, htrade, ih houtputs', List.map_cons, List.sum_cons]

/-- Only a completed withdrawal leaves an account. -/
theorem worthAt_stepDelta {command : WithdrawalCommand} {v : ℤ} (account : Account)
    (hv : units command.funds.amount = .ok v) :
    Ledger.worthAt account (Withdrawal.stepDelta command v) =
      if command.action = .complete ∧ (command.funds.userId, command.funds.asset) = account then
        -unitsOf command.funds.amount
      else 0 := by
  unfold Withdrawal.stepDelta
  cases command.action with
  | reserve => simp [Ledger.worthAt_reservation]
  | release => simp [Ledger.worthAt_reservation]
  | complete => simp [Ledger.worthAt_single, unitsOf_eq hv]

/-- **One transition** brings to an account what its record says. -/
theorem Effect.worth {s s' : EngineState} {command : Command} {outcome : Outcome}
    (h : Effect s command outcome s') (hs : s.Inv) (account : Account) :
    s'.cache.worthOf account = s.cache.worthOf account + movedAt account (command, outcome) := by
  have hmoved : ∀ {δ : Ledger} {touched : List Account},
      BalanceCache.Moves s.cache s'.cache δ touched →
      Ledger.worthAt account δ = movedAt account (command, outcome) →
      s'.cache.worthOf account = s.cache.worthOf account + movedAt account (command, outcome) := by
    intro δ touched hmoves hδ
    rw [hmoves.worthOf, hδ]
  have hquiet : s'.cache = s.cache → movedAt account (command, outcome) = 0 →
      s'.cache.worthOf account = s.cache.worthOf account + movedAt account (command, outcome) := by
    intro hcache hzero
    rw [hcache, hzero, add_zero]
  cases h with
  | failed =>
    refine hquiet rfl ?_
    cases command <;> rfl
  | repeatedCancel => exact hquiet rfl rfl
  | resubmitted => exact hquiet rfl rfl
  | rejected => exact hquiet rfl rfl
  | submitted hnew hrun houtputs =>
    obtain ⟨book', plan, d, fills, δ, reserved, remaining, refund, happlied, -, -, -⟩ :=
      hs.applied hnew hrun
    obtain ⟨touched, hmoves⟩ := happlied.moves
    rw [happlied.matchList] at houtputs
    refine hmoved hmoves ?_
    rw [map_add, map_add, Ledger.worthAt_reservation, Ledger.worthAt_reservation, zero_add,
      add_zero]
    exact worthAt_settles happlied.settles houtputs account
  | cancelled _ hrun =>
    obtain ⟨book, buy, level, queue, side', v, hc⟩ := Threads.cancelOrder_ok hrun
    exact hmoved hc.moves (Ledger.worthAt_reservation ..)
  | @withdrawal command output s' step =>
    cases step with
    | repeated => exact hquiet rfl rfl
    | rejected => exact hquiet rfl rfl
    | performed _ _ hstep =>
      obtain ⟨v, hv, hmoves⟩ := Withdrawal.balanceStep_moves hstep
      exact hmoved hmoves (worthAt_stepDelta account hv)
  | deposit step =>
    cases step with
    | repeatedCredit => exact hquiet rfl rfl
    | credited _ _ hrun =>
      obtain ⟨-, v, hv, hmoves⟩ := Deposit.creditBalance_moves hrun
      refine hmoved hmoves ?_
      rw [Ledger.worthAt_single, add_zero, movedAt, unitsOf_eq hv]
  | depositFailed step => cases step <;> exact hquiet rfl rfl
  | balance hrun =>
    refine hmoved (Journal.changeBalance_moves hrun).2 ?_
    rw [Ledger.worthAt_single, add_zero]
    rfl
  | locked hrun =>
    obtain ⟨v, -, -, hmoves⟩ := BalanceCache.changeReservation_moves hrun
    exact hmoved hmoves (Ledger.worthAt_reservation ..)
  | unlocked hrun =>
    obtain ⟨v, -, -, hmoves⟩ := BalanceCache.changeReservation_moves hrun
    exact hmoved hmoves (Ledger.worthAt_reservation ..)

/-! ## Whole lives -/

theorem Run.worth {s s' : EngineState} {history : List (Command × Outcome)}
    (h : Run s history s') (hs : s.Inv) (account : Account) :
    s'.cache.worthOf account = s.cache.worthOf account + (history.map (movedAt account)).sum := by
  induction h with
  | nil => rw [List.map_nil, List.sum_nil, add_zero]
  | cons head _ ih =>
    rw [ih ((Journal.apply_effect head).inv hs), (Journal.apply_effect head).worth hs account,
      List.map_cons, List.sum_cons, add_assoc]

section Lives

variable {Json : Type} [DecidableEq Json] {codec : Codec Json} {cache : BalanceCache}
  {history : List (Command × Outcome)} {s : EngineState}

/-- **Accounts can be reconstructed from the records.**  After a whole life of the engine every
account is worth what it had in the genesis and what the records brought to it. -/
theorem accounts_reconstructed (hcache : ∀ account b, cache.balances.lookup account = some b →
    Startup.Admissible account b) (h : Lifetime codec cache history s) (account : Account) :
    s.cache.worthOf account = cache.worthOf account + (history.map (movedAt account)).sum :=
  (h.run hcache).worth (EngineState.inv_genesis (Store.valid_of_admissible hcache)) account

/-- The base asset of the buyer, after a sale. -/
theorem accounts_reconstructed_sale :
    ∃ first second, ∃ s : EngineState, s.cache.worthOf (2, "BTC") =
      (EngineState.funded Decimal.ONE Decimal.ONE).worthOf (2, "BTC") +
        (([(.submit (.limit 1 1 false Decimal.ONE Decimal.ONE), first),
          (.submit (.limit 2 2 true Decimal.ONE Decimal.ONE), second)] :
            List (Command × Outcome)).map (movedAt (2, "BTC"))).sum := by
  obtain ⟨first, second, -, s, hlife, -⟩ := exists_traded_life Store.sampleCodec
  exact ⟨first, second, s, accounts_reconstructed admissible_funded hlife (2, "BTC")⟩

end Lives

end CexEngine
