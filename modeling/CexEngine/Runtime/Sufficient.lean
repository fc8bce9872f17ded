import CexEngine.Runtime.Accounting
import CexEngine.Runtime.Coverage

/-!
# A settlement finds enough locked

The trades of a plan are settled one by one.  When the makers have locked the backing of their orders
and the taker what it pays in all (`Funded`), the same holds of the trades that are left after each
settlement (`Funded.step`), so no settlement is refused because too little is locked
(`settleAll_sufficient`), and the backing of a filled maker stays a number of units that a decimal
denotes (`Funded.representable_rest`).

The makers of one plan may belong to one user, and the taker may hold other orders in the same asset, so
`Funded` is about sums: an account has locked at least what all its makers among the remaining fills
hold.  A settled fill leaves the sum with the whole backing of its maker, and takes no more than that
from the locked balance, which is why the inequality survives.

A call returns an error in many places.  Two of the errors speak of amounts, `insufficient` and
`inexact` (`Telling`), and that a call does not return one of these is `Avoids`, proved function by
function in the first part: most functions never mention them, and the rest of the module is about the
calls that do.
-/

namespace CexEngine

open Foundation Foundation.FiniteMap Foundation.Allocation Amount

/-! ## The errors that speak of the amounts -/

/-- The error of a settlement that finds too little. -/
def insufficient : Fault := .err "Insufficient settlement balance"

/-- The error of a quote that is not a whole number of units. -/
def inexact : Fault := .err "Quote value requires rounding"

/-- Either of the two.  All other errors say that an amount is out of range. -/
class Telling (e : Fault) : Prop where
  eq : e = insufficient ∨ e = inexact

instance : Telling insufficient := ⟨.inl rfl⟩

instance : Telling inexact := ⟨.inr rfl⟩

theorem telling_ne {e : Fault} [he : Telling e] {text : String}
    (h : Fault.err text ≠ insufficient ∧ Fault.err text ≠ inexact) : Fault.err text ≠ e := by
  rcases he.eq with rfl | rfl
  · exact h.1
  · exact h.2

/-! ### Calls that return neither -/

section Telling

variable {e : Fault} [Telling e]

theorem avoids_units (d : Decimal) : Avoids e (units d) :=
  (avoids_ensure (telling_ne (by decide))).bind fun _ _ =>
    (avoids_orErr (telling_ne (by decide))).bind fun _ _ =>
    (avoids_ensure (telling_ne (by decide))).bind fun _ _ => avoids_ok _

theorem avoids_decimal (u : ℤ) : Avoids e (decimal u) := avoids_orErr (telling_ne (by decide))

theorem avoids_add (a b : Decimal) : Avoids e (add a b) :=
  (avoids_units _).bind fun _ _ => (avoids_units _).bind fun _ _ =>
    (avoids_orErr (telling_ne (by decide))).bind fun _ _ =>
    (avoids_ensure (telling_ne (by decide))).bind fun _ _ => avoids_decimal _

theorem avoids_subtract (a b : Decimal) : Avoids e (subtract a b) :=
  (avoids_units _).bind fun _ _ => (avoids_units _).bind fun _ _ =>
    (avoids_ensure (telling_ne (by decide))).bind fun _ _ => avoids_decimal _

theorem avoids_fee (received rate : Decimal) : Avoids e (fee received rate) :=
  (avoids_ensure (telling_ne (by decide))).bind fun _ _ => (avoids_units _).bind fun _ _ =>
    (avoids_units _).bind fun _ _ => (avoids_orErr (telling_ne (by decide))).bind
    fun _ _ => avoids_decimal _

namespace MatchPlan

theorem avoids_filledMaker (original : OrderEntry) (quantity : Decimal) :
    Avoids e (filledMaker original quantity) :=
  (avoids_subtract _ _).bind fun _ _ => (avoids_add _ _).bind fun _ _ => avoids_ok _

theorem avoids_filledTaker (order : OrderEntry) (quantity value : Decimal) :
    Avoids e (filledTaker order quantity value) := by
  unfold filledTaker
  cases order.remainingQuoteAmount with
  | some budget =>
    exact (avoids_subtract _ _).bind fun _ _ => (avoids_add _ _).bind fun _ _ =>
      (avoids_ok _).bind fun _ _ => (avoids_add _ _).bind fun _ _ => avoids_ok _
  | none =>
    exact (avoids_subtract _ _).bind fun _ _ => (avoids_ok _).bind fun _ _ =>
      (avoids_add _ _).bind fun _ _ => avoids_ok _

end MatchPlan

namespace BalanceCache

theorem avoids_changeReservation (userId : UInt64) (mint : String) (value : Decimal) (lock : Bool)
    (c : BalanceCache) : Avoids e ((changeReservation userId mint value lock).exec c) := by
  cases lock with
  | true =>
    simp only [changeReservation, if_true, pure_bind, Mut.exec_bind_lift, Mut.exec_bind_get,
      Mut.exec_modify]
    exact (avoids_ensure (telling_ne (by decide))).bind fun _ _ => (avoids_units _).bind
      fun _ _ => (avoids_orErr (telling_ne (by decide))).bind fun _ _ =>
      (avoids_subtract _ _).bind fun _ _ => (avoids_add _ _).bind fun _ _ => avoids_ok _
  | false =>
    simp only [changeReservation, Bool.false_eq_true, if_false, pure_bind, Mut.exec_bind_lift,
      Mut.exec_bind_get, Mut.exec_modify]
    exact (avoids_ensure (telling_ne (by decide))).bind fun _ _ => (avoids_units _).bind
      fun _ _ => (avoids_orErr (telling_ne (by decide))).bind fun _ _ =>
      (avoids_add _ _).bind fun _ _ => (avoids_subtract _ _).bind fun _ _ => avoids_ok _

theorem avoids_stageAccount (c : BalanceCache) (staged : Staged) (account : Account) :
    Avoids e (stageAccount c staged account) := by
  unfold stageAccount
  split
  · exact avoids_ok _
  · exact (avoids_units _).bind fun _ _ => (avoids_units _).bind fun _ _ => avoids_ok _

theorem avoids_prepareStaged (entries : List (Σ _ : Account, ℤ × ℤ)) :
    Avoids e (prepareStaged entries) := by
  induction entries with
  | nil => exact avoids_ok _
  | cons entry entries ih =>
    exact (avoids_decimal _).bind fun _ _ => (avoids_decimal _).bind fun _ _ => ih.bind
      fun _ _ => avoids_ok _

/-- A settlement whose price has a quote is refused as its changes are. -/
theorem avoids_settleTrade {trade : MatchResult} (c : BalanceCache)
    (hquote : Avoids e (quote trade.price trade.amount))
    (hstage : ∀ amount value buyerFee sellerFee,
      tradeUnits trade = .ok (amount, value, buyerFee, sellerFee) →
      trade.baseMint ≠ trade.quoteMint →
      Avoids e (stageChanges c ∅ (tradeChanges trade amount value buyerFee sellerFee))) :
    Avoids e ((settleTrade trade).exec c) := by
  simp only [settleTrade, Mut.exec_bind_lift, Mut.exec_bind_get, Mut.exec_modify]
  refine (avoids_ensure (telling_ne (by decide))).bind fun _ _ =>
    (avoids_ensure (telling_ne (by decide))).bind fun _ _ =>
    (avoids_ensure (telling_ne (by decide))).bind fun _ _ =>
    (avoids_ensure (telling_ne (by decide))).bind fun _ _ =>
    (avoids_ensure (telling_ne (by decide))).bind fun _ hmints =>
    (avoids_ensure (telling_ne (by decide))).bind fun _ _ => ?_
  have hunits : Avoids e (tradeUnits trade) :=
    (avoids_units _).bind fun _ _ => hquote.bind fun _ _ => (avoids_units _).bind
      fun _ _ => (avoids_fee _ _).bind fun _ _ => (avoids_units _).bind fun _ _ =>
      hquote.bind fun _ _ => (avoids_fee _ _).bind fun _ _ => (avoids_units _).bind
      fun _ _ => avoids_ok _
  refine hunits.bind fun r hr => ?_
  obtain ⟨amount, value, buyerFee, sellerFee⟩ := r
  exact (hstage amount value buyerFee sellerFee hr (ensure_eq_ok.mp hmints)).bind fun staged _ =>
    (avoids_prepareStaged _).bind fun _ _ => avoids_ok _

end BalanceCache

end Telling

/-! ### Calls that do not find too little -/

theorem avoids_quote (p a : Decimal) : Avoids insufficient (quote p a) :=
  (avoids_units _).bind fun _ _ => (avoids_units _).bind fun _ _ => (avoids_ensure (by decide)).bind
    fun _ _ => (avoids_orErr (by decide)).bind fun _ _ => (avoids_ensure (by decide)).bind
    fun _ _ => avoids_decimal _

theorem avoids_quantityForBudget (budget price remaining : Decimal) :
    Avoids insufficient (quantityForBudget budget price remaining) :=
  (avoids_units _).bind fun _ _ => (avoids_ensure (by decide)).bind fun _ _ =>
    (avoids_units _).bind fun _ _ => (avoids_units _).bind fun _ _ =>
    (avoids_orErr (by decide)).bind fun _ _ => avoids_decimal _

theorem avoids_validate (o : OrderEntry) (incoming : Bool) :
    Avoids insufficient (validate o incoming) := by
  refine (avoids_fee _ _).bind fun _ _ => (avoids_ensure (by decide)).bind fun _ _ =>
    (avoids_ensure (by decide)).bind fun _ _ => (avoids_ensure (by decide)).bind fun _ _ =>
    (avoids_ensure (by decide)).bind fun _ _ => (avoids_ensure (by decide)).bind fun _ _ =>
    (avoids_ensure (by decide)).bind fun _ _ => ?_
  split
  · exact (avoids_orErr (by decide)).bind fun _ _ => (avoids_ensure (by decide)).bind fun _ _ =>
      (avoids_units _).bind fun _ _ => avoids_ok _
  · refine (avoids_ensure (by decide)).bind fun _ _ => (avoids_add _ _).bind fun _ _ =>
      (avoids_ensure (by decide)).bind fun _ _ => ?_
    split
    · exact (avoids_orErr (by decide)).bind fun _ _ => (avoids_ensure (by decide)).bind fun _ _ =>
        (avoids_quote _ _).bind fun _ _ => avoids_ok _
    · exact avoids_ensure (by decide)

namespace MatchPlan

theorem avoids_planMaker (plan : MatchPlan) (price : Decimal) (original : OrderEntry) :
    Avoids insufficient (plan.planMaker price original) := by
  refine (avoids_validate _ _).bind fun _ _ => (avoids_ensure (by decide)).bind fun _ _ =>
    (avoids_ensure (by decide)).bind fun _ _ => ?_
  split
  · exact avoids_ok _
  · have hquantity : Avoids insufficient (makerQuantity plan.order price original) := by
      unfold makerQuantity
      split
      · exact avoids_quantityForBudget _ _ _
      · exact avoids_ok _
    refine hquantity.bind fun quantity _ => ?_
    split
    · exact avoids_ok _
    · refine (avoids_quote _ _).bind fun _ _ => ?_
      exact (avoids_filledMaker _ _).bind fun _ _ => (avoids_filledTaker _ _ _).bind fun _ _ => (avoids_add _ _).bind fun _ _ =>
        (avoids_add _ _).bind fun _ _ => (avoids_ensure (by decide)).bind fun _ _ => avoids_ok _

theorem avoids_planQueue (price : Decimal) (plan : MatchPlan) (queue : List OrderEntry) :
    Avoids insufficient (planQueue price plan queue) := by
  induction queue generalizing plan with
  | nil => exact avoids_ok _
  | cons original queue ih =>
    rw [planQueue]
    split
    · exact avoids_ok _
    · exact (avoids_planMaker plan _ _).bind fun plan _ => ih plan

theorem avoids_planLevels (plan : MatchPlan) (levels : List (Decimal × List OrderEntry)) :
    Avoids insufficient (plan.planLevels levels) := by
  induction levels generalizing plan with
  | nil => exact avoids_ok _
  | cons level levels ih =>
    obtain ⟨price, queue⟩ := level
    rw [planLevels]
    split
    · exact avoids_ok _
    · refine (avoids_planQueue price plan queue).bind fun r _ => ?_
      obtain ⟨plan, returned⟩ := r
      dsimp only
      split
      · exact avoids_ok _
      · exact ih plan

end MatchPlan

theorem avoids_planOrder (incoming : OrderEntry) (book : OrderBook) :
    Avoids insufficient (planOrder incoming book) :=
  (avoids_validate _ _).bind fun _ _ => MatchPlan.avoids_planLevels _ _

namespace BalanceCache

/-! ### One settlement -/

/-- A change of an account that holds enough. -/
theorem stageChange_sufficient {c : BalanceCache} {staged : Staged} {change : Change}
    (hpos : 0 ≤ (stagedAt c staged change.account).1 + change.availableDelta ∧
      0 ≤ (stagedAt c staged change.account).2 + change.lockedDelta) :
    Avoids insufficient (stageChange c staged change) := by
  refine (avoids_stageAccount c staged change.account).bind fun mid hmid => (avoids_expect (by decide)).bind fun x hx => ?_
  obtain ⟨hview, -, -⟩ := stageAccount_ok hmid
  have hat : stagedAt c staged change.account = x := by
    rw [← hview, stagedAt]
    exact congrArg (Option.getD · _) (expect_eq_ok.mp hx)
  rw [hat] at hpos
  refine (avoids_orErr (by decide)).bind fun a ha => (avoids_orErr (by decide)).bind fun l hl => ?_
  obtain ⟨-, rfl⟩ := checkedI128_eq_some.mp (orErr_eq_ok.mp ha)
  obtain ⟨-, rfl⟩ := checkedI128_eq_some.mp (orErr_eq_ok.mp hl)
  exact (avoids_ensure_of hpos).bind fun _ _ => (avoids_ensure (by decide)).bind fun _ _ =>
    avoids_ok _

/-- Changes of different accounts that hold enough. -/
theorem stageChanges_sufficient {c : BalanceCache} {changes : List Change} {staged : Staged}
    (hnodup : (changes.map Change.account).Nodup)
    (hpos : ∀ change ∈ changes, 0 ≤ (stagedAt c staged change.account).1 + change.availableDelta ∧
      0 ≤ (stagedAt c staged change.account).2 + change.lockedDelta) :
    Avoids insufficient (stageChanges c staged changes) := by
  induction changes generalizing staged with
  | nil => exact avoids_ok _
  | cons change changes ih =>
    rw [List.map_cons, List.nodup_cons] at hnodup
    refine (stageChange_sufficient (hpos change (List.mem_cons_self ..))).bind fun staged' h => ?_
    refine ih hnodup.2 fun other hother => ?_
    have hne : other.account ≠ change.account := fun heq =>
      hnodup.1 (heq ▸ List.mem_map_of_mem hother)
    have hzero : change.delta other.account = 0 := Finsupp.single_eq_of_ne hne
    rw [(stageChange_ok h).1, hzero, add_zero]
    exact hpos other (List.mem_cons_of_mem _ hother)

/-- **A settlement between two users who have locked enough.** -/
theorem settleTrade_sufficient {c : BalanceCache} {trade : MatchResult} (hvalid : c.Valid)
    (husers : trade.buyerId ≠ trade.sellerId)
    (hbuyer : ∀ v value, quote trade.price trade.amount = .ok v → units v = .ok value →
      value ≤ unitsOf (c.balanceAt (trade.buyerId, trade.quoteMint)).locked)
    (hseller : ∀ amount, units trade.amount = .ok amount →
      amount ≤ unitsOf (c.balanceAt (trade.sellerId, trade.baseMint)).locked) :
    Avoids insufficient ((settleTrade trade).exec c) := by
  refine avoids_settleTrade c (avoids_quote _ _) fun amount value buyerFee sellerFee hr hmints => ?_
  obtain ⟨hamount, v, b, s, hv, hvalue, hb, hbf, hs, hsf⟩ := tradeUnits_ok hr
  refine stageChanges_sufficient ?_ fun change hchange => ?_
  · simp [tradeChanges, Change.account, husers, husers.symm, hmints.symm]
  · have hat : ∀ account, stagedAt c ∅ account = c.ledger account := by
      intro account
      rw [stagedAt, AList.lookup_empty, Option.getD_none]
    have hledger : ∀ account, 0 ≤ (c.ledger account).1 ∧ 0 ≤ (c.ledger account).2 := by
      intro account
      obtain ⟨⟨x, hx⟩, y, hy⟩ := hvalid.balanceAt account
      rw [ledger_apply, unitsPair, unitsOf_eq hx, unitsOf_eq hy]
      exact ⟨units_nonneg hx, units_nonneg hy⟩
    have hlocked : ∀ account, (c.ledger account).2 = unitsOf (c.balanceAt account).locked := by
      intro account
      rw [ledger_apply]
      rfl
    rw [hat]
    have hbase := hledger change.account
    have hfee := fee_le hb hamount hbf
    have hfee' := fee_le hs hvalue hsf
    have hb' := hbuyer v value hv hvalue
    have hs' := hseller amount hamount
    rw [← hlocked] at hb' hs'
    simp only [tradeChanges, List.mem_cons, List.not_mem_nil, or_false] at hchange
    rcases hchange with rfl | rfl | rfl | rfl <;> simp only [Change.account] at hbase ⊢ <;> omega

end BalanceCache

/-! ## The trades of a plan -/

/-- A fill of an incoming order with the resting order of another user. -/
structure Fill.Against (order : OrderEntry) (makerBuy : Bool) (f : Fill) : Prop where
  ok : f.Ok
  resting : Resting order.pair makerBuy f.price f.maker
  other : f.maker.userId ≠ order.userId

section Against

variable {order : OrderEntry} {makerBuy : Bool} {f : Fill}

theorem Fill.Ok.value_nonneg (h : f.Ok) : 0 ≤ unitsOf f.value := by
  obtain ⟨x, y, z, -, -, hz, -⟩ := quote_ok h.value
  rw [unitsOf_eq hz]
  exact units_nonneg hz

theorem Fill.Ok.taken_nonneg (h : f.Ok) (buy : Bool) : 0 ≤ f.taken buy := by
  unfold Fill.taken
  split
  · exact h.value_nonneg
  · exact h.pos.le

/-- A fill takes no more than the backing. -/
theorem Fill.Against.taken_le (h : f.Against order makerBuy) :
    f.taken makerBuy ≤ f.maker.backing makerBuy := by
  obtain ⟨-, -, p, a, fa, r, hl⟩ := (validate_limit_iff h.resting.limit).mp h.resting.valid
  obtain ⟨q, r', -, hq, hr', -, hrq, -, -⟩ := Fill.filledMaker_ok h.ok.rest
  obtain ⟨d, hd, hup, -⟩ := hl.price
  have hrest : 0 ≤ f.rest.backing makerBuy := by
    unfold OrderEntry.backing
    split
    · have hprice : f.rest.priceUnits = p := by
        rw [OrderEntry.congr_frame OrderEntry.priceUnits h.ok.frame, OrderEntry.priceUnits, hd,
          Option.elim_some, unitsOf_eq hup]
      rw [OrderEntry.product, hprice, unitsOf_eq hrq]
      exact Int.ediv_nonneg (mul_nonneg hl.price_pos.le (units_nonneg hrq)) factor_pos.le
    · rw [unitsOf_eq hrq]
      exact units_nonneg hrq
  rw [h.ok.backing_rest h.resting] at hrest
  omega

/-- What the trade of a fill takes from what an account has locked: the maker's part and
the taker's. -/
theorem Fill.Against.settled (h : f.Against order makerBuy) {c c' : BalanceCache}
    (hrun : (BalanceCache.settleTrade (f.trade makerBuy order)).exec c = .ok c') :
    (c.Valid → c'.Valid) ∧ ∀ account, unitsOf (c'.balanceAt account).locked =
      unitsOf (c.balanceAt account).locked -
        ((if f.maker.account makerBuy = account then f.taken makerBuy else 0) +
          if order.account (!makerBuy) = account then f.taken (!makerBuy) else 0) := by
  obtain ⟨u, hu⟩ := Mut.exec_eq_ok_iff.mp hrun
  obtain ⟨amount, value, buyerFee, sellerFee, hsettle, hmoves⟩ := BalanceCache.settleTrade_moves hu
  obtain ⟨hamount, v, b, s, hv, hvalue, -⟩ := tradeUnits_ok hsettle.units_eq
  obtain rfl : f.value = v := Except.ok.inj (h.ok.value.symm.trans hv)
  have hamount' : unitsOf f.quantity = amount := unitsOf_eq hamount
  have hbase : f.maker.baseMint = order.baseMint := congrArg TradingPair.baseMint h.resting.pair
  have hquote : f.maker.quoteMint = order.quoteMint := congrArg TradingPair.quoteMint h.resting.pair
  refine ⟨hmoves.valid, fun account => ?_⟩
  rw [hmoves.locked account, lockedAt_tradeDelta, ← hamount', ← unitsOf_eq hvalue]
  unfold OrderEntry.account Fill.taken
  cases makerBuy with
  | true =>
    rw [hquote]
    exact (sub_eq_add_neg _ _).symm
  | false =>
    rw [hbase, ← sub_eq_add_neg]
    exact congrArg (_ - ·) (add_comm _ _)

/-- The shares of makers are not negative. -/
theorem Fill.sum_hold_nonneg {fills : List Fill} (hfills : ∀ f ∈ fills, f.Against order makerBuy)
    (account : Account) : 0 ≤ (fills.map fun f => f.maker.hold account makerBuy).sum := by
  refine List.sum_nonneg fun x hx => ?_
  obtain ⟨f, hf, rfl⟩ := List.mem_map.mp hx
  unfold OrderEntry.hold
  split
  · exact ((hfills f hf).ok.taken_nonneg makerBuy).trans (hfills f hf).taken_le
  · exact le_rfl

/-- A settlement between a maker and a taker who have locked enough. -/
theorem Fill.Against.sufficient (h : f.Against order makerBuy) {c : BalanceCache} (hvalid : c.Valid)
    (hmaker : f.taken makerBuy ≤ unitsOf (c.balanceAt (f.maker.account makerBuy)).locked)
    (htaker : f.taken (!makerBuy) ≤ unitsOf (c.balanceAt (order.account !makerBuy)).locked) :
    Avoids insufficient ((BalanceCache.settleTrade (f.trade makerBuy order)).exec c) := by
  have hbase : f.maker.baseMint = order.baseMint := congrArg TradingPair.baseMint h.resting.pair
  have hquote : f.maker.quoteMint = order.quoteMint := congrArg TradingPair.quoteMint h.resting.pair
  have hvalue : ∀ v value, quote f.price f.quantity = .ok v → units v = .ok value →
      unitsOf f.value = value := by
    intro v value hv hu
    obtain rfl : f.value = v := Except.ok.inj (h.ok.value.symm.trans hv)
    exact unitsOf_eq hu
  have hquantity : ∀ amount, units f.quantity = .ok amount → unitsOf f.quantity = amount :=
    fun amount => unitsOf_eq
  unfold OrderEntry.account Fill.taken at hmaker htaker
  cases makerBuy with
  | true =>
    rw [hquote] at hmaker
    refine BalanceCache.settleTrade_sufficient hvalid h.other (fun v value hv hu => ?_)
      fun amount hu => ?_
    · rw [← hvalue v value hv hu]
      exact hmaker
    · rw [← hquantity amount hu]
      exact htaker
  | false =>
    rw [hbase] at hmaker
    refine BalanceCache.settleTrade_sufficient hvalid h.other.symm (fun v value hv hu => ?_)
      fun amount hu => ?_
    · rw [← hvalue v value hv hu]
      exact htaker
    · rw [← hquantity amount hu]
      exact hmaker

end Against

/-- **Enough is locked for the fills of an order**: other users have locked the backing of
their makers, and the user of the order what it pays in all. -/
structure Funded (order : OrderEntry) (makerBuy : Bool) (fills : List Fill) (c : BalanceCache) :
    Prop where
  valid : c.Valid
  makers : ∀ account : Account, account.1 ≠ order.userId →
    (fills.map fun f => f.maker.hold account makerBuy).sum ≤ unitsOf (c.balanceAt account).locked
  taker : (fills.map (Fill.taken !makerBuy)).sum ≤
    unitsOf (c.balanceAt (order.account !makerBuy)).locked

namespace Funded

variable {order : OrderEntry} {makerBuy : Bool} {f : Fill} {fills : List Fill} {c c' : BalanceCache}

/-- The maker of the next fill has locked the backing of its order. -/
theorem maker_le (h : Funded order makerBuy (f :: fills) c)
    (hfills : ∀ g ∈ f :: fills, g.Against order makerBuy) :
    f.maker.backing makerBuy ≤ unitsOf (c.balanceAt (f.maker.account makerBuy)).locked := by
  have hmakers := h.makers (f.maker.account makerBuy) (hfills f (List.mem_cons_self ..)).other
  have hself : f.maker.hold (f.maker.account makerBuy) makerBuy = f.maker.backing makerBuy :=
    if_pos rfl
  rw [List.map_cons, List.sum_cons, hself] at hmakers
  have hrest := Fill.sum_hold_nonneg (fun g hg => hfills g (List.mem_cons_of_mem _ hg))
    (f.maker.account makerBuy)
  omega

/-- The taker has locked what it pays for the next fill. -/
theorem taker_le (h : Funded order makerBuy (f :: fills) c)
    (hfills : ∀ g ∈ f :: fills, g.Against order makerBuy) :
    f.taken (!makerBuy) ≤ unitsOf (c.balanceAt (order.account !makerBuy)).locked := by
  have htaker := h.taker
  rw [List.map_cons, List.sum_cons] at htaker
  have hrest : 0 ≤ (fills.map (Fill.taken !makerBuy)).sum := by
    refine List.sum_nonneg fun x hx => ?_
    obtain ⟨g, hg, rfl⟩ := List.mem_map.mp hx
    exact (hfills g (List.mem_cons_of_mem _ hg)).ok.taken_nonneg _
  omega

/-- **One settlement** leaves enough for the rest. -/
theorem step (h : Funded order makerBuy (f :: fills) c) (hf : f.Against order makerBuy)
    (hrun : (BalanceCache.settleTrade (f.trade makerBuy order)).exec c = .ok c') :
    Funded order makerBuy fills c' := by
  obtain ⟨hvalid, hlocked⟩ := hf.settled hrun
  refine ⟨hvalid h.valid, fun account hother => ?_, ?_⟩
  · have hmakers := h.makers account hother
    rw [List.map_cons, List.sum_cons] at hmakers
    have htaker : order.account (!makerBuy) ≠ account := fun heq =>
      hother (congrArg Prod.fst heq).symm
    rw [hlocked, if_neg htaker, add_zero]
    have hhold : f.maker.hold account makerBuy =
        if f.maker.account makerBuy = account then f.maker.backing makerBuy else 0 := rfl
    rw [hhold] at hmakers
    have htaken := hf.taken_le
    split at hmakers
    · next heq =>
      rw [if_pos heq]
      omega
    · next hne =>
      rw [if_neg hne]
      omega
  · have htaker := h.taker
    rw [List.map_cons, List.sum_cons] at htaker
    have hmaker : f.maker.account makerBuy ≠ order.account !makerBuy := fun heq =>
      hf.other (congrArg Prod.fst heq)
    rw [hlocked, if_neg hmaker, if_pos rfl]
    omega

/-- **No settlement of the plan is refused for too little.** -/
theorem settleAll_sufficient (h : Funded order makerBuy fills c)
    (hfills : ∀ f ∈ fills, f.Against order makerBuy) :
    Avoids insufficient (Submission.settleAll (fills.map (Fill.trade makerBuy order)) c) := by
  induction fills generalizing c with
  | nil => exact avoids_ok _
  | cons f fills ih =>
    have hf := hfills f (List.mem_cons_self ..)
    have hmaker := hf.taken_le.trans (h.maker_le hfills)
    exact (hf.sufficient h.valid hmaker (h.taker_le hfills)).bind fun c' hc' =>
      ih (h.step hf hc') fun g hg => hfills g (List.mem_cons_of_mem _ hg)

/-- **The backing of a filled maker** is a number of units that a decimal denotes. -/
theorem representable_rest (h : Funded order makerBuy fills c)
    (hfills : ∀ f ∈ fills, f.Against order makerBuy)
    (hrun : Submission.settleAll (fills.map (Fill.trade makerBuy order)) c = .ok c')
    (hf : f ∈ fills) (hmaker : Representable (f.maker.backing makerBuy)) :
    Representable (f.rest.backing makerBuy) := by
  induction fills generalizing c with
  | nil => cases hf
  | cons g fills ih =>
    obtain ⟨mid, hmid, hrest⟩ := bind_eq_ok.mp hrun
    have hg := hfills g (List.mem_cons_self ..)
    have hstep := h.step hg hmid
    rcases List.mem_cons.mp hf with rfl | hf
    · -- the locked balance is the pool: it holds the backing, and is valid before and after
      obtain ⟨-, hlocked⟩ := hg.settled hmid
      have htaker : order.account (!makerBuy) ≠ f.maker.account makerBuy := fun heq =>
        hg.other (congrArg Prod.fst heq).symm
      have hpool : ∀ {c : BalanceCache}, c.Valid →
          Representable (unitsOf (c.balanceAt (f.maker.account makerBuy)).locked) := by
        intro c hvalid
        obtain ⟨-, y, hy⟩ := hvalid.balanceAt (f.maker.account makerBuy)
        rw [unitsOf_eq hy]
        exact ⟨_, hy⟩
      have hafter := hpool hstep.valid
      rw [hlocked, if_pos rfl, if_neg htaker, add_zero] at hafter
      rw [hg.ok.backing_rest hg.resting]
      exact (hpool h.valid).sub_of_pool hafter hmaker (hg.ok.taken_nonneg _) hg.taken_le
        (h.maker_le hfills)
    · exact ih hstep (fun g hg => hfills g (List.mem_cons_of_mem _ hg)) hrest hf

end Funded

/-! ## The fills of a plan -/

namespace Submission

/-- **What an order pays is what it reserved at most.** -/
theorem Planned.used_le {order : OrderEntry} {plan : MatchPlan} {d : Demand} {os : List Visit}
    {fills : List Fill} {x : Decimal} {reserved : ℤ} (h : Planned order plan d os fills)
    (hx : reservedAmount order = .ok x) (hux : units x = .ok reserved) :
    usedBy order plan.matchList ≤ reserved := by
  have hshape := (validate_ok h.valid).1
  rw [usedBy_eq]
  by_cases hbuy : order.orderType = "buy"
  · rw [reservedAmount, if_pos hbuy] at hx
    rw [if_pos hbuy]
    rcases hshape.kind.2 with hl | hm
    · obtain ⟨-, -, p, a, f, r, hlim⟩ := (validate_limit_iff hl).mp h.valid
      obtain ⟨limit, hlimit, hup, -⟩ := hlim.price
      rw [hlimit] at hx
      obtain ⟨x1, x2, x3, hx1, hx2, hx3, hxe⟩ := quote_ok hx
      obtain rfl : reserved = x3 := Except.ok.inj (hux.symm.trans hx3)
      obtain rfl : p = x1 := Except.ok.inj (hup.symm.trans hx1)
      have hvalue := h.value_le hbuy hlimit hup
      have hamount := (h.remaining hlim.noBudget.2).1
      rw [unitsOf_eq hx2] at hamount
      refine le_of_mul_le_mul_right (hvalue.trans ?_) factor_pos
      rw [← hxe]
      exact mul_le_mul_of_nonneg_left hamount hlim.price_pos.le
    · obtain ⟨n, hmb⟩ := validate_marketBuy hm hbuy h.valid
      obtain ⟨b, hb, hu⟩ := hmb.budget
      obtain ⟨r, hr, hur⟩ := hmb.remaining
      rw [hmb.price, hb, expect_eq_ok] at hx
      obtain rfl := Option.some.inj hx
      obtain rfl : n = reserved := Except.ok.inj (hu.symm.trans hux)
      exact h.budget hr hur
  · rw [reservedAmount, if_neg hbuy] at hx
    obtain rfl := pure_eq_ok.mp hx
    rw [if_neg hbuy, ← unitsOf_eq hux]
    rcases hshape.kind.2 with hl | hm
    · obtain ⟨-, -, p, a, f, r, hlim⟩ := (validate_limit_iff hl).mp h.valid
      exact (h.remaining hlim.noBudget.2).1
    · obtain ⟨a, f, r, hms⟩ := validate_marketSell hm hbuy h.valid
      exact (h.remaining hms.noBudget.2).1

/-- **The fills of a plan** on a book with the invariant: orders of other users that rest
there. -/
theorem exists_fills {order : OrderEntry} {book : OrderBook} {plan : MatchPlan}
    (hbook : book.Inv order.pair) (hplan : planOrder order book = .ok plan) :
    ∃ fills, plan.matchList = fills.map (Fill.trade plan.makerBuy order) ∧
      FillsOf (book.side plan.makerBuy) fills ∧ ∀ f ∈ fills, f.Against order plan.makerBuy := by
  obtain ⟨-, d, fills, -, hadv⟩ := planOrder_advance hbook hplan
  have hfills := hadv.fillsOf hbook
  refine ⟨fills, ?_, hfills, fun f hf => ⟨hadv.ok f hf, ?_, ?_⟩⟩
  · rw [hadv.matchList, hadv.makerBuy]
    rfl
  · obtain ⟨queue, hqueue, hmem⟩ := hfills.mem f hf
    exact (hbook.side _).resting _ _ hqueue _ hmem
  · exact of_decide_eq_true (List.mem_filter.mp (hadv.mem_offers hf).2).2

/-- The taker pays on its own side. -/
theorem taken_eq_paidFor {order : OrderEntry} {makerBuy : Bool} {f : Fill} (hf : f.Ok)
    (hside : (!makerBuy) = decide (order.orderType = "buy")) :
    f.taken (!makerBuy) = paidFor order (f.trade makerBuy order) := by
  unfold Fill.taken paidFor
  rw [hside]
  by_cases hbuy : order.orderType = "buy"
  · rw [decide_eq_true hbuy, if_pos rfl, if_pos hbuy]
    exact hf.value_eq.symm
  · rw [decide_eq_false hbuy, if_neg Bool.false_ne_true, if_neg hbuy]
    rfl

end Submission

end CexEngine
