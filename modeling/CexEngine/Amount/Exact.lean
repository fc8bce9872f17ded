import CexEngine.Amount.Units

/-!
# Amounts as rational numbers

`CexEngine.Amount.Units` says what the operations of `amount.rs` do in units.  Here they are
compared with the arithmetic of the rational numbers that the decimals denote (`toRat`):

* `ExactArithmetic` collects when `units`, `decimal`, `add`, `subtract` and `quote` succeed, and
  with which value (`exactArithmetic`);
* `Optimal` is the quantity that a budget buys (`quantityForBudget_optimal`).

A value is an *amount* if it is a whole number of units in range (`IsAmount`), and *storable* if
some decimal denotes it.
-/

namespace CexEngine

/-- The number a decimal denotes. -/
def Decimal.toRat (d : Decimal) : ℚ := d.signedMantissa / 10 ^ d.scale

theorem Decimal.toRat_eq (d : Decimal) : d.toRat = d.raw / 10 ^ 28 := by
  have hsplit : (10 : ℚ) ^ 28 = 10 ^ (28 - d.scale) * 10 ^ d.scale := by
    rw [← pow_add, Nat.sub_add_cancel d.scale_le]
  rw [toRat, raw, hsplit]
  push_cast
  rw [mul_comm (d.signedMantissa : ℚ), mul_div_mul_left _ _ (by positivity)]

theorem Decimal.toRat_inj {d e : Decimal} : d.toRat = e.toRat ↔ d ≈ e := by
  rw [toRat_eq, toRat_eq, equiv_def, div_left_inj' (by norm_num), Int.cast_inj]

namespace Amount

open Foundation Foundation.DigitText

/-- A whole number of units in the range of `NUMERIC(30,9)`. -/
def IsAmount (v : ℚ) : Prop := ∃ u : ℤ, 0 ≤ u ∧ u ≤ maxUnits ∧ v * 10 ^ 9 = u

/-- Some decimal denotes the value. -/
def Storable (v : ℚ) : Prop := ∃ d : Decimal, d.toRat = v

/-! ## Units -/

theorem toRat_eq_iff {d : Decimal} {u : ℤ} : d.toRat * 10 ^ 9 = u ↔ d.raw = u * 10 ^ 19 := by
  have hsplit : (10 : ℚ) ^ 28 = 10 ^ 19 * 10 ^ 9 := by norm_num
  rw [Decimal.toRat_eq, hsplit, div_mul_eq_mul_div, mul_div_mul_right _ _ (by norm_num),
    div_eq_iff (by norm_num)]
  exact_mod_cast Iff.rfl

theorem toRat_of_units {d : Decimal} {u : ℤ} (h : units d = .ok u) : d.toRat * 10 ^ 9 = u :=
  toRat_eq_iff.mpr (raw_eq_of_units h)

theorem units_iff {d : Decimal} {u : ℤ} :
    units d = .ok u ↔ 0 ≤ u ∧ u ≤ maxUnits ∧ d.toRat * 10 ^ 9 = u := by
  rw [units_eq_ok_iff, toRat_eq_iff]

theorem toRat_nonneg {d : Decimal} {u : ℤ} (h : units d = .ok u) : 0 ≤ d.toRat := by
  have hnonneg : (0 : ℚ) ≤ d.toRat * 10 ^ 9 := by
    rw [toRat_of_units h]
    exact_mod_cast units_nonneg h
  exact nonneg_of_mul_nonneg_left hnonneg (by norm_num)

theorem isAmount_iff {d : Decimal} : IsAmount d.toRat ↔ ∃ u, units d = .ok u := by
  simp only [IsAmount, units_iff]

/-- The representable numbers of units are those of the storable amounts. -/
theorem representable_iff_storable {u : ℤ} {v : ℚ} (h : v * 10 ^ 9 = u) :
    Representable u ↔ IsAmount v ∧ Storable v := by
  constructor
  · rintro ⟨d, hd⟩
    have hv : d.toRat = v := mul_right_cancel₀ (by norm_num) ((toRat_of_units hd).trans h.symm)
    rw [← hv]
    exact ⟨isAmount_iff.mpr ⟨u, hd⟩, d, rfl⟩
  · rintro ⟨⟨u', h0, hle, hu'⟩, d, rfl⟩
    obtain rfl : u' = u := by exact_mod_cast hu'.symm.trans h
    exact ⟨d, units_iff.mpr ⟨h0, hle, h⟩⟩

/-- The mantissa has 96 bits, so nine more digits fit into 128. -/
theorem fitsI128_mantissa (d : Decimal) {k : ℕ} (hk : k ≤ 9) :
    FitsI128 (d.signedMantissa * 10 ^ k) := by
  have hm : (d.mantissa : ℤ) < 2 ^ 96 := by exact_mod_cast d.mantissa_lt
  have hpow : (10 : ℤ) ^ k ≤ 10 ^ 9 := pow_le_pow_right₀ (by norm_num) hk
  have hlt : (d.mantissa : ℤ) * 10 ^ k < 2 ^ 127 := by
    calc (d.mantissa : ℤ) * 10 ^ k ≤ d.mantissa * 10 ^ 9 := by gcongr
      _ < 2 ^ 96 * 10 ^ 9 := by gcongr
      _ < 2 ^ 127 := by norm_num
  have h0 : (0 : ℤ) ≤ d.mantissa * 10 ^ k := by positivity
  unfold Decimal.signedMantissa FitsI128
  split
  · rw [neg_mul]
    omega
  · omega

/-- A number of units is converted exactly when its digits without the zeros at the end fit. -/
theorem decimal_isOk_iff {u : ℤ} (hu : 0 ≤ u) (hle : u ≤ maxUnits) :
    (∃ d, decimal u = .ok d) ↔ ∃ m k : ℕ, m < 2 ^ 96 ∧ k ≤ 9 ∧ u = m * 10 ^ k := by
  constructor
  · rintro ⟨d, hd⟩
    exact Representable.exists_mantissa ⟨d, units_decimal hu hle hd⟩
  · rintro ⟨m, k, hm, hk, rfl⟩
    exact exists_decimal (representable_of_mantissa hm hk hle)

/-! ## Sums, differences and products -/

/-- The operation computes a function of the rational numbers, or fails: it succeeds exactly when
its arguments are amounts and the value is a storable amount. -/
def Computes (op : Decimal → Decimal → Except Fault Decimal) (value : ℚ → ℚ → ℚ) : Prop :=
  ∀ a b, ((∃ c, op a b = .ok c) ↔ IsAmount a.toRat ∧ IsAmount b.toRat ∧
      IsAmount (value a.toRat b.toRat) ∧ Storable (value a.toRat b.toRat)) ∧
    ∀ c, op a b = .ok c → c.toRat = value a.toRat b.toRat

/-- An operation computes a function if it does so on units. -/
theorem computes_of_units {op : Decimal → Decimal → Except Fault Decimal} {value : ℚ → ℚ → ℚ}
    (hok : ∀ {a b c}, op a b = .ok c → ∃ x y z : ℤ, units a = .ok x ∧ units b = .ok y ∧
      units c = .ok z ∧ value a.toRat b.toRat * 10 ^ 9 = z)
    (hexists : ∀ {a b} {x y z : ℤ}, units a = .ok x → units b = .ok y → Representable z →
      value a.toRat b.toRat * 10 ^ 9 = z → ∃ c, op a b = .ok c) : Computes op value := by
  refine fun a b => ⟨⟨?_, ?_⟩, fun c hc => ?_⟩
  · rintro ⟨c, hc⟩
    obtain ⟨x, y, z, hx, hy, hz, hvalue⟩ := hok hc
    exact ⟨isAmount_iff.mpr ⟨x, hx⟩, isAmount_iff.mpr ⟨y, hy⟩,
      (representable_iff_storable hvalue).mp ⟨c, hz⟩⟩
  · rintro ⟨ha, hb, hamount, hstorable⟩
    obtain ⟨x, hx⟩ := isAmount_iff.mp ha
    obtain ⟨y, hy⟩ := isAmount_iff.mp hb
    obtain ⟨z, -, -, hvalue⟩ := id hamount
    exact hexists hx hy ((representable_iff_storable hvalue).mpr ⟨hamount, hstorable⟩) hvalue
  · obtain ⟨x, y, z, hx, hy, hz, hvalue⟩ := hok hc
    exact mul_right_cancel₀ (by norm_num) ((toRat_of_units hz).trans hvalue.symm)

theorem add_computes : Computes add (· + ·) := by
  refine computes_of_units (fun h => ?_) fun {a b x y z} hx hy hz hvalue => ?_
  · obtain ⟨x, y, hx, hy, hz⟩ := add_ok h
    refine ⟨x, y, x + y, hx, hy, hz, ?_⟩
    rw [add_mul, toRat_of_units hx, toRat_of_units hy, Int.cast_add]
  · obtain rfl : x + y = z := by
      rw [add_mul, toRat_of_units hx, toRat_of_units hy] at hvalue
      exact_mod_cast hvalue
    obtain ⟨c, hc, -⟩ := exists_add hx hy hz
    exact ⟨c, hc⟩

theorem subtract_computes : Computes subtract (· - ·) := by
  refine computes_of_units (fun h => ?_) fun {a b x y z} hx hy hz hvalue => ?_
  · obtain ⟨x, y, hx, hy, hz⟩ := subtract_ok h
    refine ⟨x, y, x - y, hx, hy, hz, ?_⟩
    rw [sub_mul, toRat_of_units hx, toRat_of_units hy, Int.cast_sub]
  · obtain rfl : x - y = z := by
      rw [sub_mul, toRat_of_units hx, toRat_of_units hy] at hvalue
      exact_mod_cast hvalue
    obtain ⟨c, hc, -⟩ := exists_subtract hx hy hz
    exact ⟨c, hc⟩

/-- The price of an amount, in units. -/
theorem toRat_mul_of_units {a b : Decimal} {x y : ℤ} (hx : units a = .ok x)
    (hy : units b = .ok y) : a.toRat * b.toRat * 10 ^ 9 * FACTOR = x * y := by
  rw [← toRat_of_units hx, ← toRat_of_units hy, FACTOR]
  push_cast
  ring

theorem quote_computes : Computes quote (· * ·) := by
  have hfactor : (FACTOR : ℚ) ≠ 0 := by norm_num [FACTOR]
  refine computes_of_units (fun h => ?_) fun {a b x y z} hx hy hz hvalue => ?_
  · obtain ⟨x, y, z, hx, hy, hz, hxyz⟩ := quote_ok h
    refine ⟨x, y, z, hx, hy, hz, mul_right_cancel₀ hfactor ?_⟩
    rw [toRat_mul_of_units hx hy]
    exact_mod_cast hxyz
  · have hxyz : x * y = z * FACTOR := by
      have hmul := toRat_mul_of_units hx hy
      rw [hvalue] at hmul
      exact_mod_cast hmul.symm
    obtain ⟨c, hc, -⟩ := exists_quote hx hy hz hxyz
    exact ⟨c, hc⟩

/-- What the arithmetic of amounts does, for every argument. -/
structure ExactArithmetic : Prop where
  /-- A decimal has units exactly when it is a non-negative multiple of `10 ^ -9` in range. -/
  units_iff : ∀ (d : Decimal) (u : ℤ), units d = .ok u ↔
    0 ≤ d.toRat ∧ d.toRat * 10 ^ 9 ≤ maxUnits ∧ d.toRat * 10 ^ 9 = u
  /-- The multiplication in `units` does not overflow. -/
  units_checked : ∀ d : Decimal, d.normalize.scale ≤ SCALE →
    FitsI128 (d.normalize.signedMantissa * 10 ^ (SCALE - d.normalize.scale))
  /-- The numbers of units that are converted to a decimal. -/
  decimal_iff : ∀ u : ℤ, 0 ≤ u → u ≤ maxUnits →
    ((∃ d, decimal u = .ok d) ↔ ∃ m k : ℕ, m < 2 ^ 96 ∧ k ≤ 9 ∧ u = m * 10 ^ k)
  units_decimal : ∀ (u : ℤ) (d : Decimal), 0 ≤ u → u ≤ maxUnits → decimal u = .ok d →
    units d = .ok u
  decimal_units : ∀ (d : Decimal) (u : ℤ), units d = .ok u →
    ∃ e, decimal u = .ok e ∧ e.toRat = d.toRat
  add : Computes add (· + ·)
  subtract : Computes subtract (· - ·)
  quote : Computes quote (· * ·)
  /-- The one unchecked operation on `i128` does not overflow. -/
  subtract_unchecked : ∀ (a b : Decimal) (x y : ℤ), units a = .ok x → units b = .ok y →
    FitsI128 (x - y)
  noPanic : (∀ d, NoPanic (units d)) ∧ (∀ u, NoPanic (decimal u)) ∧
    (∀ a b, NoPanic (Amount.add a b)) ∧ (∀ a b, NoPanic (Amount.subtract a b)) ∧
    ∀ a b, NoPanic (Amount.quote a b)

/-- **Amount arithmetic is exact, and fails only when it has to.** -/
theorem exactArithmetic : ExactArithmetic where
  units_iff d u := by
    constructor
    · intro h
      have hrat := toRat_of_units h
      refine ⟨toRat_nonneg h, ?_, hrat⟩
      rw [hrat]
      exact_mod_cast units_le h
    · rintro ⟨h0, hle, h⟩
      rw [h] at hle
      refine units_iff.mpr ⟨?_, by exact_mod_cast hle, h⟩
      have hnonneg : (0 : ℚ) ≤ u := by
        rw [← h]
        positivity
      exact_mod_cast hnonneg
  units_checked d _ := fitsI128_mantissa _ (Nat.sub_le ..)
  decimal_iff u hu hle := decimal_isOk_iff hu hle
  units_decimal u d hu hle h := units_decimal hu hle h
  decimal_units d u h := by
    obtain ⟨e, he⟩ := exists_decimal ⟨d, h⟩
    have hunits := units_decimal (units_nonneg h) (units_le h) he
    exact ⟨e, he, Decimal.toRat_inj.mpr (units_inj hunits h)⟩
  add := add_computes
  subtract := subtract_computes
  quote := quote_computes
  subtract_unchecked a b x y hx hy := by
    have hx0 := units_nonneg hx
    have hy0 := units_nonneg hy
    have hxle := units_le hx
    have hyle := units_le hy
    unfold maxUnits at hxle hyle
    exact ⟨by omega, by omega⟩
  noPanic := ⟨noPanic_units, noPanic_decimal, noPanic_add, noPanic_subtract, noPanic_quote⟩

/-! ## The quantity of a budget -/

/-- One round of the loop of Euclid's algorithm. -/
def euclidRound (state : ℤ × ℤ) : ℤ × ℤ := (state.2 % state.1, state.1)

/-- **The loop ends, with the greatest common divisor.**  The first number is not zero in any
round before the last. -/
theorem euclidRound_terminates {a b : ℤ} (ha : 0 ≤ a) (hb : 0 ≤ b) :
    ∃ n, (∀ i < n, (euclidRound^[i] (a, b)).1 ≠ 0) ∧
      euclidRound^[n] (a, b) = (0, (Int.gcd a b : ℤ)) := by
  induction hn : a.toNat using Nat.strong_induction_on generalizing a b with
  | _ k ih =>
    by_cases h0 : a = 0
    · refine ⟨0, fun i hi => absurd hi (Nat.not_lt_zero i), ?_⟩
      rw [h0, Int.gcd_zero_left]
      exact Prod.ext rfl (Int.natAbs_of_nonneg hb).symm
    · have hpos : 0 < a := lt_of_le_of_ne ha (Ne.symm h0)
      have hlt := Int.emod_lt_of_pos b hpos
      have hnn := Int.emod_nonneg b h0
      obtain ⟨n, hbefore, hend⟩ := ih (b % a).toNat (by omega) hnn ha rfl
      refine ⟨n + 1, fun i hi => ?_, ?_⟩
      · cases i with
        | zero => exact h0
        | succ i => exact hbefore i (by omega)
      · rw [Function.iterate_succ_apply, euclidRound, hend, Int.gcd_emod, Int.gcd_comm]

/-- The quantities of a remainder that have an exact price within a budget, in units. -/
def Buyable (budget price remaining : ℤ) : Set ℤ :=
  {a | a ≤ remaining ∧ 10 ^ 9 ∣ price * a ∧ price * a / 10 ^ 9 ≤ budget}

theorem isGreatest_largest {b p r : ℤ} (hb : 0 ≤ b) (hp : 0 < p) (hr : 0 ≤ r) :
    IsGreatest (Buyable b p r) (Allocation.largest FACTOR b p r) := by
  have hdvd : FACTOR ∣ p * Allocation.largest FACTOR b p r := Allocation.dvd_mul_largest factor_pos
  refine ⟨⟨Allocation.largest_le factor_pos, hdvd, ?_⟩, fun a ⟨hle, hexact, hpay⟩ => ?_⟩
  · exact Int.ediv_le_of_le_mul (by norm_num) (Allocation.mul_largest_le factor_pos hp)
  · by_cases ha : 0 < a
    · have hmul : p * a ≤ b * FACTOR := by
        rw [← Int.ediv_mul_cancel hexact]
        exact mul_le_mul_of_nonneg_right hpay (by norm_num [FACTOR])
      exact Allocation.le_largest factor_pos hp ⟨ha, hle, hexact, hmul⟩
    · exact (not_lt.mp ha).trans (Allocation.largest_nonneg factor_pos hp hb hr)

theorem fitsI128_bound {budget remaining : Decimal} {b p r : ℤ} (hb : units budget = .ok b)
    (hr : units remaining = .ok r) (hpos : 0 < p) : FitsI128 (min (b * FACTOR / p) r) := by
  have h0 : 0 ≤ min (b * FACTOR / p) r :=
    le_min (Int.ediv_nonneg (mul_nonneg (units_nonneg hb) factor_pos.le) hpos.le) (units_nonneg hr)
  have hle : min (b * FACTOR / p) r ≤ maxUnits := (min_le_right _ _).trans (units_le hr)
  exact fitsI128_of_le h0 (hle.trans (by norm_num [maxUnits]))

/-- The function converts the largest quantity, and does nothing else that can fail. -/
theorem quantityForBudget_eq {budget price remaining : Decimal} {b p r : ℤ}
    (hb : units budget = .ok b) (hp : units price = .ok p) (hr : units remaining = .ok r)
    (hpos : 0 < p) :
    quantityForBudget budget price remaining = decimal (Allocation.largest FACTOR b p r) := by
  have hgcd : euclid ((p % FACTOR).toNat + 1) (p % FACTOR) FACTOR = Int.gcd p FACTOR := by
    rw [euclid_eq_gcd (Int.emod_nonneg p factor_pos.ne') factor_pos.le (Nat.lt_succ_self _),
      Int.gcd_emod]
  have hfit : FitsI128 (min (b * FACTOR / p) r) := fitsI128_bound hb hr hpos
  have hchecked : checkedI128 (min (b * FACTOR / p) r) = some (min (b * FACTOR / p) r) :=
    checkedI128_eq_some.mpr ⟨hfit, rfl⟩
  simp only [quantityForBudget, hp, hb, hr, ok_bind, ensure_of hpos, hchecked, orErr, hgcd]
  rfl

/-- The quantity bought has an exact price, which the budget covers. -/
theorem quote_of_isGreatest {price q : Decimal} {b p r a : ℤ} (hb : b ≤ maxUnits)
    (hp : units price = .ok p) (hq : units q = .ok a) (ha : IsGreatest (Buyable b p r) a) :
    ∃ z, z ≤ b ∧ p * a = z * 10 ^ 9 ∧ quote price q = decimal z := by
  obtain ⟨-, hexact, hpay⟩ := ha.1
  have hmod : p * a % FACTOR = 0 := Int.emod_eq_zero_of_dvd hexact
  have hnonneg : 0 ≤ p * a / FACTOR :=
    Int.ediv_nonneg (mul_nonneg (units_nonneg hp) (units_nonneg hq)) factor_pos.le
  have hle : p * a / FACTOR ≤ maxUnits := hpay.trans hb
  have hfit : FitsI128 (p * a / FACTOR) :=
    fitsI128_of_le hnonneg (hle.trans (by norm_num [maxUnits]))
  have hchecked : checkedI128 (p * a / FACTOR) = some (p * a / FACTOR) :=
    checkedI128_eq_some.mpr ⟨hfit, rfl⟩
  refine ⟨p * a / FACTOR, hpay, (Int.ediv_mul_cancel hexact).symm, ?_⟩
  simp only [quote, hp, hq, ok_bind, ensure_of hmod, hchecked, orErr, ensure_of hle]

/-- What a budget buys of a remainder at a price, all three given in units. -/
structure Optimal (budget price remaining : Decimal) (b p r : ℤ) : Prop where
  /-- The loop ends with the greatest common divisor, also when the price is a whole number. -/
  loop : ∃ n, (∀ i < n, (euclidRound^[i] (p % FACTOR, FACTOR)).1 ≠ 0) ∧
    euclidRound^[n] (p % FACTOR, FACTOR) = (0, (Int.gcd p FACTOR : ℤ))
  /-- The conversion of the bound does not fail. -/
  bound : FitsI128 (min (b * FACTOR / p) r)
  largest : ∀ q, quantityForBudget budget price remaining = .ok q →
    ∃ a, units q = .ok a ∧ IsGreatest (Buyable b p r) a
  /-- The price of the quantity is exact and within the budget. -/
  quoted : ∀ q a, quantityForBudget budget price remaining = .ok q → units q = .ok a → 0 < a →
    ∃ z, z ≤ b ∧ p * a = z * 10 ^ 9 ∧ quote price q = decimal z
  /-- The only error is that the quantity is not storable. -/
  refused : ∀ fault, quantityForBudget budget price remaining = .error fault →
    fault = .err "Settlement balance is not exactly representable as Decimal" ∧
    ∃ a, IsGreatest (Buyable b p r) a ∧ ¬ ∃ d, units d = .ok a

/-- **The quantity for a budget is optimal.** -/
theorem quantityForBudget_optimal {budget price remaining : Decimal} {b p r : ℤ}
    (hb : units budget = .ok b) (hp : units price = .ok p) (hr : units remaining = .ok r)
    (hpos : 0 < price) : Optimal budget price remaining b p r := by
  have hp0 : 0 < p := (pos_iff_units hp).mp hpos
  have heq := quantityForBudget_eq hb hp hr hp0
  have hgreatest := isGreatest_largest (units_nonneg hb) hp0 (units_nonneg hr)
  have hnonneg := Allocation.largest_nonneg factor_pos hp0 (units_nonneg hb) (units_nonneg hr)
  have hle : Allocation.largest FACTOR b p r ≤ maxUnits :=
    (Allocation.largest_le factor_pos).trans (units_le hr)
  refine ⟨?_, fitsI128_bound hb hr hp0, fun q hq => ?_, fun q a hq ha _ => ?_, fun fault hfault => ?_⟩
  · obtain ⟨n, hbefore, hend⟩ :=
      euclidRound_terminates (Int.emod_nonneg p factor_pos.ne') factor_pos.le
    rw [Int.gcd_emod] at hend
    exact ⟨n, hbefore, hend⟩
  · exact ⟨_, units_decimal hnonneg hle (heq.symm.trans hq), hgreatest⟩
  · have hlargest := units_decimal hnonneg hle (heq.symm.trans hq)
    obtain rfl : _ = a := Except.ok.inj (hlargest.symm.trans ha)
    exact quote_of_isGreatest (units_le hb) hp ha hgreatest
  · rw [heq] at hfault
    refine ⟨?_, _, hgreatest, fun hrepresentable => ?_⟩
    · exact (orErr_eq_error.mp hfault).2
    · obtain ⟨d, hd⟩ := exists_decimal hrepresentable
      rw [hd] at hfault
      cases hfault

/-- A budget of 10 at the price 3. -/
theorem quantityForBudget_optimal_three :
    Optimal (.ofScaled 10 0) (.ofScaled 3 0) (.ofScaled 5 0) 10000000000 3000000000 5000000000 ∧
      quantityForBudget (.ofScaled 10 0) (.ofScaled 3 0) (.ofScaled 5 0) =
        .ok (.ofScaled 3333333333 9) :=
  ⟨quantityForBudget_optimal rfl rfl rfl (by decide), rfl⟩

end Amount
end CexEngine
