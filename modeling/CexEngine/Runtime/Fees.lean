import CexEngine.Amount.Exact
import CexEngine.Engine.SettleTrade
import CexEngine.Runtime.Journal
import CexEngine.Runtime.SubmissionSpec
import Mathlib.Data.Rat.Floor

/-!
# Fees

A fee is floored to units, for each trade on its own.  So it is less than what was received, and
an order that is filled in parts pays at most what it would pay in one, less one unit for every
further part (`Splits`).

The fee is computed twice, when a trade is settled and when it is published.  `Deducts` relates
the published trades of a submission to the settlements of its trades, and
`Submission.apply_deducts` says that the two fees are one.

`FeeBounds` collects the results (`feeBounds`).
-/

namespace CexEngine

open Foundation Amount

namespace Amount

/-! ## Sums of floors -/

theorem add_ediv_bounds {F a b : ℤ} (hF : 0 < F) :
    a / F + b / F ≤ (a + b) / F ∧ (a + b) / F ≤ a / F + b / F + 1 := by
  have ha := Int.ediv_mul_le a hF.ne'
  have hb := Int.ediv_mul_le b hF.ne'
  have ha' := Int.lt_ediv_add_one_mul_self a hF
  have hb' := Int.lt_ediv_add_one_mul_self b hF
  constructor
  · refine Int.le_ediv_of_mul_le hF ?_
    rw [add_mul]
    omega
  · have hlt : (a + b) / F < a / F + b / F + 2 := by
      refine Int.ediv_lt_of_lt_mul hF ?_
      calc a + b < (a / F + 1) * F + (b / F + 1) * F := by omega
        _ = (a / F + b / F + 2) * F := by ring
    omega

/-- **Parts are floored on their own**: together they lose less than one for each part. -/
theorem sum_ediv_bounds {F : ℤ} (hF : 0 < F) {xs : List ℤ} (hne : xs ≠ []) :
    (xs.map (· / F)).sum ≤ xs.sum / F ∧
      xs.sum / F ≤ (xs.map (· / F)).sum + ((xs.length : ℤ) - 1) := by
  induction xs with
  | nil => exact absurd rfl hne
  | cons x xs ih =>
    by_cases hxs : xs = []
    · simp [hxs]
    · obtain ⟨hlow, hhigh⟩ := ih hxs
      obtain ⟨hlow', hhigh'⟩ := add_ediv_bounds (a := x) (b := xs.sum) hF
      rw [List.map_cons, List.sum_cons, List.sum_cons, List.length_cons]
      push_cast
      omega

/-! ## The fee on an amount -/

/-- The fee in units. -/
theorem fee_units {received rate charged : Decimal} (h : fee received rate = .ok charged) :
    ∃ x r : ℤ, units received = .ok x ∧ units rate = .ok r ∧ 0 ≤ r ∧ r < FACTOR ∧
      units charged = .ok (x * r / FACTOR) := by
  obtain ⟨x, r, z, hx, hr, hz, rfl, hlt⟩ := fee_ok h
  exact ⟨x, r, hx, hr, units_nonneg hr, hlt, hz⟩

theorem fee_admitted {received rate charged : Decimal} (h : fee received rate = .ok charged) :
    0 ≤ rate.toRat ∧ rate.toRat < 1 ∧ ∃ k : ℤ, rate.toRat * 10 ^ 6 = k := by
  simp only [fee, bind_eq_ok, ensure_eq_ok, exists_const] at h
  obtain ⟨⟨hone, hscale⟩, -, -, r, hr, -⟩ := h
  have hrat := Decimal.toRat_eq rate
  refine ⟨toRat_nonneg hr, ?_, ?_⟩
  · rw [Decimal.lt_def, Decimal.raw_ONE] at hone
    rw [hrat, div_lt_one (by norm_num)]
    exact_mod_cast hone
  · obtain ⟨k, hk⟩ := (rate.normalize_scale_le_iff (by norm_num)).mp hscale
    refine ⟨k, ?_⟩
    rw [hrat, hk]
    push_cast
    ring

theorem fee_floor {received rate charged : Decimal} (h : fee received rate = .ok charged) :
    charged.toRat * 10 ^ 9 = ⌊received.toRat * rate.toRat * 10 ^ 9⌋ := by
  obtain ⟨x, r, hx, hr, -, -, hz⟩ := fee_units h
  have hexact : received.toRat * rate.toRat * 10 ^ 9 = ((x * r : ℤ) : ℚ) / (10 ^ 9 : ℕ) := by
    rw [Int.cast_mul, ← toRat_of_units hx, ← toRat_of_units hr]
    push_cast
    ring
  rw [toRat_of_units hz, hexact, Rat.floor_intCast_div_natCast]
  rfl

theorem fee_mono {x y rate c d : Decimal} (hle : x ≤ y) (hx : fee x rate = .ok c)
    (hy : fee y rate = .ok d) : c ≤ d := by
  obtain ⟨u, r, hu, hr, hr0, -, hc⟩ := fee_units hx
  obtain ⟨v, r', hv, hr', -, -, hd⟩ := fee_units hy
  obtain rfl : r = r' := Except.ok.inj (hr.symm.trans hr')
  rw [le_iff_units hc hd]
  exact Int.ediv_le_ediv factor_pos
    (mul_le_mul_of_nonneg_right ((le_iff_units hu hv).mp hle) hr0)

/-- What is left of a positive amount after the fee, in units. -/
theorem fee_units_lt {received rate charged : Decimal} {x z : ℤ}
    (h : fee received rate = .ok charged) (hx : units received = .ok x)
    (hz : units charged = .ok z) (hpos : 0 < x) : z < x := by
  obtain ⟨x', r, hx', hr, hr0, hlt, hz'⟩ := fee_units h
  obtain rfl : x = x' := Except.ok.inj (hx.symm.trans hx')
  obtain rfl : z = x * r / FACTOR := Except.ok.inj (hz.symm.trans hz')
  exact Int.ediv_lt_of_lt_mul factor_pos (mul_lt_mul_of_pos_left hlt hpos)

/-! ## Splitting an order -/

/-- The fills of an order and the fee of each. -/
def Splits (rate : Decimal) (fills : List (Decimal × Decimal)) : Prop :=
  ∀ fill ∈ fills, fee fill.1 rate = .ok fill.2

/-- The fills and their fees in units, at a rate of `r` units. -/
theorem Splits.units {rate : Decimal} {r : ℤ} (hr : units rate = .ok r)
    {fills : List (Decimal × Decimal)} (h : Splits rate fills) :
    ∃ xs : List ℤ, xs.length = fills.length ∧
      (fills.map (·.1.toRat)).sum * 10 ^ 9 = (xs.sum : ℤ) ∧
      (fills.map (·.2.toRat)).sum * 10 ^ 9 = (((xs.map (· * r)).map (· / FACTOR)).sum : ℤ) := by
  induction fills with
  | nil => exact ⟨[], rfl, by simp, by simp⟩
  | cons fill fills ih =>
    obtain ⟨xs, hlength, hreceived, hcharged⟩ :=
      ih fun fill hfill => h fill (List.mem_cons_of_mem _ hfill)
    obtain ⟨x, r', hx, hr', -, -, hz⟩ := fee_units (h fill (List.mem_cons_self ..))
    obtain rfl : r = r' := Except.ok.inj (hr.symm.trans hr')
    refine ⟨x :: xs, by rw [List.length_cons, List.length_cons, hlength], ?_, ?_⟩
    · rw [List.map_cons, List.sum_cons, List.sum_cons, add_mul, hreceived, toRat_of_units hx,
        Int.cast_add]
    · rw [List.map_cons, List.sum_cons, add_mul, hcharged, toRat_of_units hz, ← Int.cast_add]
      rfl

/-- **Splitting an order** charges at most the fee of the whole, and less than that by at most
one unit for every fill but the first. -/
theorem Splits.bounds {rate total charged : Decimal} {fills : List (Decimal × Decimal)}
    (h : Splits rate fills) (hne : fills ≠ [])
    (htotal : total.toRat = (fills.map (·.1.toRat)).sum) (hfee : fee total rate = .ok charged) :
    (fills.map (·.2.toRat)).sum ≤ charged.toRat ∧
      charged.toRat ≤ (fills.map (·.2.toRat)).sum + ((fills.length : ℚ) - 1) / 10 ^ 9 := by
  obtain ⟨x, r, hx, hr, -, -, hz⟩ := fee_units hfee
  obtain ⟨xs, hlength, hreceived, hcharged⟩ := h.units hr
  have hsum : xs.sum = x := by
    rw [← htotal, toRat_of_units hx] at hreceived
    exact_mod_cast hreceived.symm
  have hmul : (xs.map (· * r)).sum = x * r := by rw [List.sum_map_mul_right, List.map_id', hsum]
  have hne' : xs.map (· * r) ≠ [] := by
    intro hnil
    have := congrArg List.length hnil
    rw [List.length_map, hlength, List.length_nil, List.length_eq_zero_iff] at this
    exact hne this
  obtain ⟨hlow, hhigh⟩ := sum_ediv_bounds factor_pos hne'
  rw [hmul, List.length_map, hlength] at hhigh
  rw [hmul] at hlow
  have hlowQ : (fills.map (·.2.toRat)).sum * 10 ^ 9 ≤ charged.toRat * 10 ^ 9 := by
    rw [hcharged, toRat_of_units hz]
    exact_mod_cast hlow
  have hhighQ : charged.toRat * 10 ^ 9 ≤
      (fills.map (·.2.toRat)).sum * 10 ^ 9 + ((fills.length : ℚ) - 1) := by
    rw [hcharged, toRat_of_units hz]
    exact_mod_cast hhigh
  constructor
  · linarith
  · linarith

end Amount

/-! ## Settled and published fees -/

/-- The published trades are those that were settled on the way from one cache to another, each
with the fees that its settlement has deducted. -/
inductive Deducts : List MatchResult → List TradeOutput → BalanceCache → BalanceCache → Prop
  | nil (c : BalanceCache) : Deducts [] [] c c
  | cons {trade : MatchResult} {trades : List MatchResult} {buyerFee sellerFee : Decimal}
      {outputs : List TradeOutput} {c mid c' : BalanceCache} {amount value buyer seller : ℤ}
      (run : (BalanceCache.settleTrade trade).run c = (.ok (), mid))
      (settled : BalanceCache.Settled c mid trade amount value buyer seller)
      (buyer_eq : units buyerFee = .ok buyer) (seller_eq : units sellerFee = .ok seller)
      (rest : Deducts trades outputs mid c') :
      Deducts (trade :: trades) (⟨trade, buyerFee, sellerFee⟩ :: outputs) c c'

/-- A trade that can be settled is published, with the same fees. -/
theorem tradeOutput_of_settles {c : BalanceCache} {trade : MatchResult}
    {amount value buyer seller : ℤ}
    (h : BalanceCache.Settles c trade amount value buyer seller) :
    ∃ buyerFee sellerFee, tradeOutput trade = .ok ⟨trade, buyerFee, sellerFee⟩ ∧
      units buyerFee = .ok buyer ∧ units sellerFee = .ok seller := by
  obtain ⟨price, hprice, hexact, hvalue⟩ := h.value_eq
  obtain ⟨buyerFee, hbuyer, hbuyer'⟩ := h.buyerFee_eq
  obtain ⟨received, sellerFee, hreceived, hseller, hseller'⟩ := h.sellerFee_eq
  obtain ⟨q, hq, hunits⟩ := exists_quote hprice h.amount_eq hvalue hexact
  rw [BalanceCache.fee_congr_units hreceived hunits] at hseller
  refine ⟨buyerFee, sellerFee, ?_, hbuyer', hseller'⟩
  simp only [tradeOutput, bind_eq_ok, expectOk_eq_ok, pure_eq_ok]
  exact ⟨buyerFee, hbuyer, q, hq, sellerFee, hseller, rfl⟩

/-- **The trades that are settled are published with the fees that were deducted.** -/
theorem Submission.settleAll_deducts {trades : List MatchResult} {c c' : BalanceCache}
    (h : settleAll trades c = .ok c') :
    ∃ outputs, tradeOutputs trades = .ok outputs ∧ Deducts trades outputs c c' := by
  induction trades generalizing c with
  | nil =>
    obtain rfl := pure_eq_ok.mp h
    exact ⟨[], rfl, .nil c⟩
  | cons trade trades ih =>
    obtain ⟨mid, hmid, hrest⟩ := bind_eq_ok.mp h
    obtain ⟨u, hrun⟩ := Mut.exec_eq_ok_iff.mp hmid
    obtain ⟨amount, value, buyer, seller, hsettles, hsettled⟩ := BalanceCache.settles_of_run hrun
    obtain ⟨buyerFee, sellerFee, houtput, hbuyer, hseller⟩ := tradeOutput_of_settles hsettles
    obtain ⟨outputs, houtputs, hdeducts⟩ := ih hrest
    refine ⟨_, ?_, .cons hrun hsettled hbuyer hseller hdeducts⟩
    simp only [tradeOutputs, bind_eq_ok, pure_eq_ok]
    exact ⟨_, houtput, outputs, houtputs, rfl⟩

/-- The working copy on which the trades of a submission are settled. -/
def Submission.WorkingCopy (order : OrderEntry) (executor : Executor) (trades : List MatchResult)
    (c : BalanceCache) : Prop :=
  ∃ reserved, reservedAmount order = .ok reserved ∧
    (BalanceCache.lockBalance order.userId (refundMint order) reserved).exec
      (copyAccounts executor.balanceCache
        ((order.userId, refundMint order) :: trades.flatMap tradeAccounts)) = .ok c

theorem Submission.apply_deducts {order : OrderEntry} {books books' : Books}
    {executor executor' : Executor} {applied : AppliedSubmission}
    (h : (Submission.apply order).run (books, executor) = (.ok applied, books', executor')) :
    ∃ outputs c c', OutputBatch.ofSubmission applied =
        .ok (.submitted applied.orderId outputs applied.completion) ∧
      WorkingCopy order executor applied.matchList c ∧ settleAll applied.matchList c = .ok c' ∧
      Deducts applied.matchList outputs c c' := by
  obtain ⟨plan, prepared, completion, book', hprepare, -, rfl, -, -⟩ := apply_prepared h
  simp only [prepare, bind_eq_ok] at hprepare
  obtain ⟨plan', -, reserved, hreserved, c, hlocked, c', hsettled, _, -, _, -, refund, -, hend⟩ :=
    hprepare
  obtain rfl : plan' = plan := by
    split at hend
    · obtain ⟨_, -, hend⟩ := bind_eq_ok.mp hend
      exact congrArg Prod.fst (pure_eq_ok.mp hend)
    · exact congrArg Prod.fst (pure_eq_ok.mp hend)
  obtain ⟨outputs, houtputs, hdeducts⟩ := settleAll_deducts hsettled
  refine ⟨outputs, c, c', ?_, ⟨reserved, hreserved, hlocked⟩, hsettled, hdeducts⟩
  simp only [OutputBatch.ofSubmission, bind_eq_ok, pure_eq_ok]
  exact ⟨outputs, houtputs, rfl⟩

/-! ## The results -/

/-- What holds of fees. -/
structure FeeBounds : Prop where
  /-- Only an admitted rate has fees. -/
  admitted : ∀ received rate charged, fee received rate = .ok charged →
    0 ≤ rate.toRat ∧ rate.toRat < 1 ∧ ∃ k : ℤ, rate.toRat * 10 ^ 6 = k
  floor : ∀ received rate charged, fee received rate = .ok charged →
    charged.toRat * 10 ^ 9 = ⌊received.toRat * rate.toRat * 10 ^ 9⌋
  mono : ∀ x y rate c d, x ≤ y → fee x rate = .ok c → fee y rate = .ok d → c ≤ d
  lt : ∀ received rate charged, 0 < received → fee received rate = .ok charged →
    charged < received
  /-- Both sides of a settled trade receive something. -/
  net : ∀ c c' trade, (BalanceCache.settleTrade trade).run c = (.ok (), c') →
    ∃ amount value buyer seller, BalanceCache.Settled c c' trade amount value buyer seller ∧
      0 < amount - buyer ∧ 0 < value - seller
  /-- Fills of one rate and their fees, against the fee on the total. -/
  split : ∀ rate fills total charged, fills ≠ [] → Splits rate fills →
    total.toRat = (fills.map (·.1.toRat)).sum → fee total rate = .ok charged →
    (fills.map (·.2.toRat)).sum ≤ charged.toRat ∧
      charged.toRat ≤ (fills.map (·.2.toRat)).sum + ((fills.length : ℚ) - 1) / 10 ^ 9
  /-- The fees that a submission publishes are those that it has deducted. -/
  published : ∀ order books executor applied books' executor',
    (Submission.apply order).run (books, executor) = (.ok applied, books', executor') →
    ∃ outputs c c', OutputBatch.ofSubmission applied =
        .ok (.submitted applied.orderId outputs applied.completion) ∧
      Submission.WorkingCopy order executor applied.matchList c ∧
      Submission.settleAll applied.matchList c = .ok c' ∧
      Deducts applied.matchList outputs c c'

/-- Both sides of a trade that can be settled receive something. -/
theorem BalanceCache.Settles.net {c : BalanceCache} {trade : MatchResult}
    {amount value buyer seller : ℤ}
    (h : BalanceCache.Settles c trade amount value buyer seller) :
    0 < amount - buyer ∧ 0 < value - seller := by
  obtain ⟨price, hprice, hexact, -⟩ := h.value_eq
  obtain ⟨buyerFee, hbuyer, hbuyer'⟩ := h.buyerFee_eq
  obtain ⟨received, sellerFee, hreceived, hseller, hseller'⟩ := h.sellerFee_eq
  have hamount : 0 < amount := (pos_iff_units h.amount_eq).mp h.positive.2
  have hvalue : 0 < value := by
    have hprice0 : 0 < price := (pos_iff_units hprice).mp h.positive.1
    have hproduct := mul_pos hprice0 hamount
    rw [hexact] at hproduct
    exact pos_of_mul_pos_left hproduct (by norm_num)
  have hbuyer0 := fee_units_lt hbuyer h.amount_eq hbuyer' hamount
  have hseller0 := fee_units_lt hseller hreceived hseller' hvalue
  omega

/-- **Fees are floored for each fill, and published as they were deducted.** -/
theorem feeBounds : FeeBounds where
  admitted _ _ _ h := fee_admitted h
  floor _ _ _ h := fee_floor h
  mono _ _ _ _ _ hle hx hy := fee_mono hle hx hy
  lt received rate charged hpos h := by
    obtain ⟨x, r, hx, -, -, -, hz⟩ := fee_units h
    exact (lt_iff_units hz hx).mpr (fee_units_lt h hx hz ((pos_iff_units hx).mp hpos))
  net c c' trade h := by
    obtain ⟨amount, value, buyer, seller, hsettles, hsettled⟩ := BalanceCache.settles_of_run h
    exact ⟨amount, value, buyer, seller, hsettled, hsettles.net⟩
  split _ _ _ _ hne hsplits htotal h := hsplits.bounds hne htotal h
  published _ _ _ _ _ _ h := Submission.apply_deducts h

end CexEngine
