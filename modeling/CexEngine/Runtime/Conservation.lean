import CexEngine.Runtime.Reachable

/-!
# Conservation of funds

Money enters the engine by deposits and balance changes and leaves it by completed
withdrawals and by fees, and by nothing else.  `conservation` is this equation for
every asset, over every run from a genesis, in integers of the smallest unit.

One transition changes the total of an asset, with the completed withdrawals added
back, by what its command and outcome say (`Effect.conserves`); the run is the sum.
-/

namespace CexEngine

open Foundation Foundation.FiniteMap Amount

/-! ## The totals of a state -/

/-- The sum of an asset over all users, available and locked. -/
def BalanceCache.totalOf (asset : String) (c : BalanceCache) : ℤ :=
  ∑ account ∈ c.balances.keys with account.2 = asset,
    (c.balances.lookup account).elim 0 fun b => unitsOf b.available + unitsOf b.locked

theorem BalanceCache.totalOf_eq (asset : String) (c : BalanceCache) :
    c.totalOf asset = Ledger.assetTotal asset c.ledger := by
  have hsum : (c.ledger.sum fun account x => if account.2 = asset then x.1 + x.2 else 0) =
      ∑ account ∈ c.balances.keys, if account.2 = asset then
        ((c.balances.lookup account).elim 0 unitsPair).1 +
          ((c.balances.lookup account).elim 0 unitsPair).2 else 0 := by
    unfold ledger weights
    refine Finsupp.onFinset_sum _ fun account => ?_
    split <;> rfl
  rw [Ledger.assetTotal_apply, hsum, BalanceCache.totalOf, Finset.sum_filter]
  refine Finset.sum_congr rfl fun account _ => ?_
  cases c.balances.lookup account <;> rfl

/-- The amount of a withdrawal in an asset, once it is completed. -/
def WithdrawalReceipt.completedIn (asset : String) (r : WithdrawalReceipt) : ℤ :=
  if r.status = .completed ∧ r.original.asset = asset then unitsOf r.original.amount else 0

/-- The sum of the completed withdrawals of an asset. -/
noncomputable def EngineState.completedIn (asset : String) (s : EngineState) : ℤ :=
  total (WithdrawalReceipt.completedIn asset) s.withdrawalReceipts

/-! ## What commands and outcomes say -/

/-- The fees in an asset that an outcome publishes. -/
def Outcome.feesIn (asset : String) : Outcome → ℤ
  | .applied (some (.submitted _ trades _)) => (trades.map (TradeOutput.feeIn asset)).sum
  | _ => 0

/-- The amount of an asset that an outcome credits as a deposit. -/
def Outcome.depositedIn (asset : String) : Outcome → ℤ
  | .applied (some (.depositCredited credit)) =>
    if credit.asset = asset then unitsOf credit.amount else 0
  | _ => 0

/-- The delta of a balance command that succeeded. -/
def adjustedIn (asset : String) : Command × Outcome → ℤ
  | (.balance _ mint delta, .applied _) => if mint = asset then unitsOf delta else 0
  | _ => 0

/-- The amounts that a command and its outcome contribute. -/
def amounts : Command × Outcome → List Decimal
  | (_, .applied (some (.submitted _ trades _))) =>
    trades.flatMap fun output => [output.buyerFee, output.sellerFee]
  | (_, .applied (some (.depositCredited credit))) => [credit.amount]
  | (_, .applied (some (.withdrawalChanged command))) => [command.funds.amount]
  | (.balance _ _ delta, .applied _) => [delta]
  | _ => []

/-! ## One transition -/

/-- Money moved between available and locked is money that stays. -/
theorem Ledger.assetTotal_reservation (asset : String) (account : Account) (lock : Bool) (v : ℤ) :
    Ledger.assetTotal asset (BalanceCache.reservation account lock v) = 0 := by
  rw [BalanceCache.reservation, Ledger.assetTotal_single]
  cases lock <;> simp

theorem BalanceCache.Moves.totalOf {c c' : BalanceCache} {δ : Ledger} {touched : List Account}
    (h : BalanceCache.Moves c c' δ touched) (asset : String) :
    c'.totalOf asset = c.totalOf asset + Ledger.assetTotal asset δ := by
  rw [BalanceCache.totalOf_eq, BalanceCache.totalOf_eq, h.ledger_eq, map_add]

theorem completedIn_putReceipt (asset : String) (funds : WithdrawalFunds) (status : Status)
    (s : EngineState) :
    (Withdrawal.putReceipt funds status s).completedIn asset = s.completedIn asset +
      (WithdrawalReceipt.completedIn asset ⟨funds, status⟩ -
        weights (WithdrawalReceipt.completedIn asset) s.withdrawalReceipts funds.withdrawalId) :=
  total_insert ..

/-- A receipt that a command may still change counts for nothing. -/
theorem weights_completedIn {s : EngineState} {command : WithdrawalCommand} (asset : String)
    (h : Withdrawal.checkReceipt (s.withdrawalReceipts.lookup command.funds.withdrawalId) command =
      .ok none) :
    weights (WithdrawalReceipt.completedIn asset) s.withdrawalReceipts command.funds.withdrawalId =
      0 := by
  rcases Withdrawal.checkReceipt_eq_none.mp h with ⟨hnone, -⟩ | ⟨r, hr, -, hstatus, -⟩
  · exact weights_apply_none hnone
  · rw [weights_apply_some hr, WithdrawalReceipt.completedIn, hstatus, if_neg]
    exact fun h => absurd h.1 (by decide)

/-- The account a withdrawal command balances: what leaves the cache is what the
receipt shows as completed. -/
theorem assetTotal_stepDelta {command : WithdrawalCommand} {v : ℤ} (asset : String)
    (hv : units command.funds.amount = .ok v) :
    Ledger.assetTotal asset (Withdrawal.stepDelta command v) +
      WithdrawalReceipt.completedIn asset ⟨command.funds, Withdrawal.nextStatus command.action⟩ =
        0 := by
  unfold Withdrawal.stepDelta WithdrawalReceipt.completedIn
  cases command.action with
  | reserve => simp [Withdrawal.nextStatus, Ledger.assetTotal_reservation]
  | release => simp [Withdrawal.nextStatus, Ledger.assetTotal_reservation]
  | complete =>
    rw [Ledger.assetTotal_single, unitsOf_eq hv]
    by_cases hasset : command.funds.asset = asset <;> simp [Withdrawal.nextStatus, hasset]

/-- The fees of a published trade are whole. -/
theorem whole_fees {trades : List MatchResult} {outputs : List TradeOutput}
    (h : tradeOutputs trades = .ok outputs) :
    ∀ output ∈ outputs, Whole output.buyerFee ∧ Whole output.sellerFee := by
  induction trades generalizing outputs with
  | nil =>
    obtain rfl := pure_eq_ok.mp h
    exact fun output houtput => absurd houtput List.not_mem_nil
  | cons trade trades ih =>
    simp only [tradeOutputs, tradeOutput, bind_eq_ok, expectOk_eq_ok, pure_eq_ok] at h
    obtain ⟨_, ⟨b, hb, v, -, f, hf, rfl⟩, outputs', houtputs, rfl⟩ := h
    obtain ⟨-, -, x, -, -, hx, -⟩ := fee_ok hb
    obtain ⟨-, -, y, -, -, hy, -⟩ := fee_ok hf
    intro output houtput
    rcases List.mem_cons.mp houtput with rfl | houtput
    · exact ⟨whole_of_units hx, whole_of_units hy⟩
    · exact ih houtputs output houtput

/-- A transition that touches no withdrawal receipt, but for its movement. -/
theorem conserves_of_moves {s s' : EngineState} {δ : Ledger} {touched : List Account}
    (hmoves : BalanceCache.Moves s.cache s'.cache δ touched)
    (hreceipts : s'.withdrawalReceipts = s.withdrawalReceipts) {asset : String} {fees credit adjusted : ℤ}
    (h : Ledger.assetTotal asset δ + fees = credit + adjusted) :
    s'.cache.totalOf asset + s'.completedIn asset + fees =
      s.cache.totalOf asset + s.completedIn asset + credit + adjusted := by
  rw [hmoves.totalOf asset, EngineState.completedIn, hreceipts, ← EngineState.completedIn]
  linarith

/-- **One transition conserves funds.** -/
theorem Effect.conserves {s s' : EngineState} {command : Command} {outcome : Outcome}
    (h : Effect s command outcome s') (hs : s.Inv) (asset : String) :
    s'.cache.totalOf asset + s'.completedIn asset + outcome.feesIn asset =
      s.cache.totalOf asset + s.completedIn asset + outcome.depositedIn asset +
        adjustedIn asset (command, outcome) := by
  have hquiet : Ledger.assetTotal asset 0 + 0 = (0 : ℤ) + 0 := by rw [map_zero]
  have hreserve : ∀ account lock v,
      Ledger.assetTotal asset (BalanceCache.reservation account lock v) + 0 = (0 : ℤ) + 0 := by
    intro account lock v
    rw [Ledger.assetTotal_reservation]
  cases h with
  | failed =>
    refine conserves_of_moves (.refl _) (by rfl) ?_
    cases command <;> exact hquiet
  | repeatedCancel => exact conserves_of_moves (.refl _) (by rfl) hquiet
  | resubmitted => exact conserves_of_moves (.refl _) (by rfl) hquiet
  | rejected => exact conserves_of_moves (.refl _) (by rfl) hquiet
  | submitted hnew hrun houtputs =>
    obtain ⟨book', plan, d, fills, δ, reserved, remaining, refund, happlied, -, -, -⟩ :=
      hs.applied hnew hrun
    obtain ⟨touched, hmoves⟩ := happlied.moves
    -- the published fees are recomputed from the same trades
    obtain ⟨outputs, houtputs', -, hfees⟩ := tradeOutputs_ok happlied.settles
    rw [← happlied.matchList] at houtputs'
    obtain rfl := Except.ok.inj (houtputs.symm.trans houtputs')
    refine conserves_of_moves hmoves (by rfl) ?_
    rw [map_add, map_add, Ledger.assetTotal_reservation, Ledger.assetTotal_reservation, zero_add,
      add_zero, hfees]
    exact neg_add_cancel _
  | cancelled _ hrun =>
    obtain ⟨book, buy, level, queue, side', v, hc⟩ := Threads.cancelOrder_ok hrun
    have hmoves : BalanceCache.Moves s.cache _ _ _ := hc.moves
    exact conserves_of_moves hmoves (by rfl) (hreserve _ _ _)
  | @withdrawal command output s' step =>
    cases step with
    | repeated => exact conserves_of_moves (.refl _) (by rfl) hquiet
    | @rejected reason _ hnone =>
      have hcount : WithdrawalReceipt.completedIn asset ⟨command.funds, .rejected reason⟩ = 0 :=
        if_neg fun h => absurd h.1 (by simp)
      rw [completedIn_putReceipt, weights_apply_none hnone, hcount, sub_zero, add_zero]
      show s.cache.totalOf asset + s.completedIn asset + 0 = _ + _ + 0 + 0
      ring
    | @performed c' _ hreceipt hstep =>
      obtain ⟨v, hv, hmoves⟩ := Withdrawal.balanceStep_moves hstep
      have htotal : c'.totalOf asset = _ := hmoves.totalOf asset
      have hbalance := assetTotal_stepDelta asset hv
      have hcompleted := completedIn_putReceipt asset command.funds
        (Withdrawal.nextStatus command.action) (s.setCache c')
      have hzero := weights_completedIn asset hreceipt
      have hsame : (s.setCache c').withdrawalReceipts = s.withdrawalReceipts := rfl
      rw [hsame, hzero] at hcompleted
      show c'.totalOf asset + _ + 0 = s.cache.totalOf asset + s.completedIn asset + 0 + 0
      rw [hcompleted, htotal]
      show _ + (s.completedIn asset + _) + 0 = _
      linarith
  | deposit step =>
    cases step with
    | repeatedCredit => exact conserves_of_moves (.refl _) (by rfl) hquiet
    | credited _ _ hrun =>
      obtain ⟨-, v, hv, hmoves⟩ := Deposit.creditBalance_moves hrun
      refine conserves_of_moves hmoves (by rfl) ?_
      rw [Ledger.assetTotal_single, Outcome.depositedIn, unitsOf_eq hv, add_zero]
      rfl
  | depositFailed step =>
    cases step <;> exact conserves_of_moves (.refl _) (by rfl) hquiet
  | balance hrun =>
    refine conserves_of_moves (Journal.changeBalance_moves hrun).2 (by rfl) ?_
    rw [Ledger.assetTotal_single, add_zero]
    exact (add_zero _).trans (zero_add _).symm
  | locked hrun =>
    obtain ⟨v, -, -, hmoves⟩ := BalanceCache.changeReservation_moves hrun
    exact conserves_of_moves hmoves (by rfl) (hreserve _ _ _)
  | unlocked hrun =>
    obtain ⟨v, -, -, hmoves⟩ := BalanceCache.changeReservation_moves hrun
    exact conserves_of_moves hmoves (by rfl) (hreserve _ _ _)

/-- Every amount that counts is whole. -/
theorem Effect.whole {s s' : EngineState} {command : Command} {outcome : Outcome}
    (h : Effect s command outcome s') : ∀ d ∈ amounts (command, outcome), Whole d := by
  cases h with
  | submitted _ _ houtputs =>
    intro d hd
    obtain ⟨output, houtput, hd⟩ := List.mem_flatMap.mp hd
    obtain ⟨hbuyer, hseller⟩ := whole_fees houtputs output houtput
    simp only [List.mem_cons, List.not_mem_nil, or_false] at hd
    rcases hd with rfl | rfl
    · exact hbuyer
    · exact hseller
  | @withdrawal command output s' step =>
    cases step with
    | performed _ _ hstep =>
      obtain ⟨v, hv, -⟩ := Withdrawal.balanceStep_moves hstep
      exact fun d hd => List.mem_singleton.mp hd ▸ whole_of_units hv
    | _ => exact fun d hd => absurd hd List.not_mem_nil
  | deposit step =>
    cases step with
    | credited _ _ hrun =>
      obtain ⟨-, v, hv, -⟩ := Deposit.creditBalance_moves hrun
      exact fun d hd => List.mem_singleton.mp hd ▸ whole_of_units hv
    | repeatedCredit => exact fun d hd => absurd hd List.not_mem_nil
  | balance hrun => exact fun d hd => List.mem_singleton.mp hd ▸ (Journal.changeBalance_moves hrun).1
  | failed => cases command <;> exact fun d hd => absurd hd List.not_mem_nil
  | _ => exact fun d hd => absurd hd List.not_mem_nil

/-! ## Whole runs -/

theorem Run.conserves {s s' : EngineState} {history : List (Command × Outcome)}
    (h : Run s history s') (hs : s.Inv) (asset : String) :
    s'.cache.totalOf asset + s'.completedIn asset + (history.map fun e => e.2.feesIn asset).sum =
      s.cache.totalOf asset + s.completedIn asset +
        (history.map fun e => e.2.depositedIn asset).sum + (history.map (adjustedIn asset)).sum := by
  induction h with
  | nil => simp
  | cons head _ ih =>
    have heffect := Journal.apply_effect head
    have hstep := heffect.conserves hs asset
    have hrest := ih (heffect.inv hs)
    simp only [List.map_cons, List.sum_cons]
    linarith

theorem Run.whole {s s' : EngineState} {history : List (Command × Outcome)}
    (h : Run s history s') : ∀ e ∈ history, ∀ d ∈ amounts e, Whole d := by
  induction h with
  | nil => exact fun e he => absurd he List.not_mem_nil
  | cons head _ ih =>
    intro e he
    rcases List.mem_cons.mp he with rfl | he
    · exact (Journal.apply_effect head).whole
    · exact ih e he

/-- **Conservation of funds.**  From every genesis every sequence of commands runs
to its end, and in every asset the accounts and the published fees together are the
genesis, the deposits and the balance changes, less the completed withdrawals. -/
theorem conservation {cache : BalanceCache} (hcache : cache.Valid) (commands : List Command) :
    ∃ outcomes s', (Journal.applyAll commands).run (.genesis cache) = (.ok outcomes, s') ∧
      outcomes.length = commands.length ∧
      (∀ asset, s'.cache.totalOf asset + (outcomes.map (Outcome.feesIn asset)).sum =
        cache.totalOf asset + (outcomes.map (Outcome.depositedIn asset)).sum +
          ((commands.zip outcomes).map (adjustedIn asset)).sum - s'.completedIn asset) ∧
      s'.cache.Valid ∧ ∀ e ∈ commands.zip outcomes, ∀ d ∈ amounts e, Whole d := by
  have hinv := EngineState.inv_genesis hcache
  obtain ⟨outcomes, s', hrun, hlength, hhistory⟩ := Journal.applyAll_total hinv commands
  refine ⟨outcomes, s', hrun, hlength, fun asset => ?_, (hhistory.inv hinv).balances,
    hhistory.whole⟩
  have hsum := hhistory.conserves hinv asset
  have houtcomes : ∀ g : Outcome → ℤ,
      ((commands.zip outcomes).map fun e => g e.2) = outcomes.map g := by
    intro g
    have hsnd : (commands.zip outcomes).map Prod.snd = outcomes := List.map_snd_zip hlength.le
    conv_rhs => rw [← hsnd, List.map_map]
    rfl
  rw [houtcomes, houtcomes] at hsum
  have hgenesis : (EngineState.genesis cache).completedIn asset = 0 := total_empty _
  rw [hgenesis] at hsum
  have hcacheEq : (EngineState.genesis cache).cache = cache := rfl
  rw [hcacheEq] at hsum
  linarith

/-- A run with a trade and a deposit. -/
theorem conservation_trade :
    ∃ outcomes s', (Journal.applyAll
        [.submit (.limit 1 2 true Decimal.ONE Decimal.ONE),
          .submit (.limit 2 1 false Decimal.ONE Decimal.ONE),
          .creditDeposit ⟨1, 2, "BTC", Decimal.ONE⟩]).run
        (.genesis (EngineState.funded Decimal.ONE Decimal.ONE)) = (.ok outcomes, s') ∧
      s'.cache.totalOf "BTC" + (outcomes.map (Outcome.feesIn "BTC")).sum =
        (EngineState.funded Decimal.ONE Decimal.ONE).totalOf "BTC" +
          (outcomes.map (Outcome.depositedIn "BTC")).sum +
          (([.submit (.limit 1 2 true Decimal.ONE Decimal.ONE),
            .submit (.limit 2 1 false Decimal.ONE Decimal.ONE),
            .creditDeposit ⟨1, 2, "BTC", Decimal.ONE⟩].zip outcomes).map (adjustedIn "BTC")).sum -
          s'.completedIn "BTC" := by
  have hone : units Decimal.ONE = .ok 1000000000 := rfl
  obtain ⟨outcomes, s', hrun, -, hsum, -⟩ := conservation (EngineState.valid_funded hone hone)
    [.submit (.limit 1 2 true Decimal.ONE Decimal.ONE),
      .submit (.limit 2 1 false Decimal.ONE Decimal.ONE),
      .creditDeposit ⟨1, 2, "BTC", Decimal.ONE⟩]
  exact ⟨outcomes, s', hrun, hsum "BTC"⟩

end CexEngine
