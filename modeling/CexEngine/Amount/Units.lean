import CexEngine.Foundation.Fallible
import CexEngine.Foundation.Allocation
import CexEngine.Amount.Decimal

/-!
# Exact amount arithmetic

The arithmetic of `amount.rs`.  An amount is a `Decimal`; every operation works
on integers counted in `10 ^ -9` (*units*) and converts back only when the exact
result is representable.  Nothing is rounded except the fee, which is floored.

The definitions follow the source.  Below them is the one fact every later
module uses instead of the definitions: `units d = .ok u` says that `d` denotes
`u` units, and it holds exactly when the exact value of `d` is `u * 10 ^ -9` with
`0 ≤ u ≤ maxUnits` (`units_eq_ok_iff`).  Each operation then has two lemmas, one
that reads a successful call and one that gives success:

* `units_decimal` and `exists_decimal`;
* `add_ok` and `exists_add`, `subtract_ok` and `exists_subtract`, `quote_ok` and `exists_quote`.

The fee and the quantity for a budget have one each, `fee_ok` and `quantityForBudget_ok`.

`Representable u` says that some amount denotes `u` units; it is the only reason
an in-range result is refused.
-/

namespace CexEngine
namespace Amount

open Foundation Foundation.DigitText

/-! ## 128-bit integers -/

/-- The range of `i128`. -/
def FitsI128 (n : ℤ) : Prop := -2 ^ 127 ≤ n ∧ n < 2 ^ 127

instance (n : ℤ) : Decidable (FitsI128 n) := inferInstanceAs (Decidable (_ ∧ _))

/-- A result of checked `i128` arithmetic, or of a conversion to `i128`. -/
def checkedI128 (n : ℤ) : Option ℤ := if FitsI128 n then some n else none

theorem checkedI128_eq_some {n m : ℤ} : checkedI128 n = some m ↔ FitsI128 n ∧ n = m := by
  unfold checkedI128
  split <;> simp_all

/-! ## The operations -/

def SCALE : ℕ := 9

def FACTOR : ℤ := 1000000000

/-- The largest value of `NUMERIC(30,9)`, in units. -/
def maxUnits : ℤ := 999999999999999999999999999999

/-- The units of a value, when it is a non-negative multiple of `10 ^ -9` in
range. -/
def units (value : Decimal) : Except Fault ℤ := do
  let value := value.normalize
  ensure (0 ≤ value ∧ value.scale ≤ SCALE) "Invalid settlement precision or negative balance"
  let amount ← orErr (checkedI128 (value.signedMantissa * 10 ^ (SCALE - value.scale)))
    "Settlement value exceeds integer range"
  ensure (amount ≤ maxUnits) "Settlement value exceeds NUMERIC(30,9)"
  pure amount

/-- The text of an integer, as the format `{}` writes it. -/
def formatInt : ℤ → List Char
  | .ofNat n => Nat.toDigits 10 n
  | .negSucc n => '-' :: Nat.toDigits 10 (n + 1)

/-- The text of an integer padded with zeros to a width, as the format `{:0w}`
writes it: the sign counts towards the width. -/
def formatPadded (w : ℕ) : ℤ → List Char
  | .ofNat n => (Nat.toDigits 10 n).leftpad w '0'
  | .negSucc n => '-' :: (Nat.toDigits 10 (n + 1)).leftpad (w - 1) '0'

/-- The decimal of a number of units, when it is exactly representable. -/
def decimal (amount : ℤ) : Except Fault Decimal :=
  let text := formatInt (amount.tdiv FACTOR) ++ '.' :: formatPadded SCALE (amount.tmod FACTOR)
  orErr (Decimal.fromStrExact (trimText text))
    "Settlement balance is not exactly representable as Decimal"

/-- The exact price of a trade. -/
def quote (price amount : Decimal) : Except Fault Decimal := do
  let product := (← units price) * (← units amount)
  ensure (product % FACTOR = 0) "Quote value requires rounding"
  let value ← orErr (checkedI128 (product / FACTOR)) "Quote value exceeds settlement range"
  ensure (value ≤ maxUnits) "Quote exceeds NUMERIC(30,9)"
  decimal value

def add (left right : Decimal) : Except Fault Decimal := do
  let value ← orErr (checkedI128 ((← units left) + (← units right))) "Amount addition overflow"
  ensure (value ≤ maxUnits) "Amount exceeds NUMERIC(30,9)"
  decimal value

def subtract (left right : Decimal) : Except Fault Decimal := do
  let value := (← units left) - (← units right)
  ensure (0 ≤ value) "Amount would become negative"
  decimal value

/-- The loop of Euclid's algorithm.  The first number decreases in every round,
so `a + 1` rounds are enough. -/
def euclid : ℕ → ℤ → ℤ → ℤ
  | 0, _, b => b
  | rounds + 1, a, b => if a = 0 then b else euclid rounds (b % a) a

/-- The largest quantity within a budget and a remainder whose price is exact. -/
def quantityForBudget (budget price remaining : Decimal) : Except Fault Decimal := do
  let price ← units price
  ensure (0 < price) "Invalid maker price"
  let maximum := min ((← units budget) * FACTOR / price) (← units remaining)
  let maximum ← orErr (checkedI128 maximum) "out of range conversion regarding big integer attempted"
  let b := euclid ((price % FACTOR).toNat + 1) (price % FACTOR) FACTOR
  let step := FACTOR / b
  decimal (maximum / step * step)

/-- The fee on a received amount, floored to units. -/
def fee (received rate : Decimal) : Except Fault Decimal := do
  ensure (rate < Decimal.ONE ∧ rate.normalize.scale ≤ 6) "Invalid fee rate"
  let value := (← units received) * (← units rate) / FACTOR
  decimal (← orErr (checkedI128 value) "out of range conversion regarding big integer attempted")

/-! ## What an amount denotes -/

/-- The value of an amount in units, rounded down when it is not a whole number
of them. -/
def unitsOf (d : Decimal) : ℤ := d.raw / 10 ^ 19

/-- **`d` denotes `u` units.**  The call succeeds exactly when the exact value is
that many units and in range. -/
theorem units_eq_ok_iff {d : Decimal} {u : ℤ} :
    units d = .ok u ↔ 0 ≤ u ∧ u ≤ maxUnits ∧ d.raw = u * 10 ^ 19 := by
  have hscale : d.normalize.scale ≤ SCALE ↔ (10 : ℤ) ^ 19 ∣ d.raw :=
    d.normalize_scale_le_iff (by norm_num [SCALE])
  have hraw : d.normalize.scale ≤ SCALE → d.raw =
      d.normalize.signedMantissa * 10 ^ (SCALE - d.normalize.scale) * 10 ^ 19 := by
    intro h
    have hexp : 28 - d.normalize.scale = SCALE - d.normalize.scale + 19 := by
      unfold SCALE at h ⊢
      omega
    rw [← Decimal.raw_normalize, Decimal.raw, hexp, pow_add, mul_assoc]
  simp only [units, bind_eq_ok, ensure_eq_ok, orErr_eq_ok, checkedI128_eq_some, pure_eq_ok,
    exists_const, Decimal.le_def, Decimal.raw_zero, Decimal.raw_normalize]
  constructor
  · rintro ⟨⟨hpos, hs⟩, a, ⟨-, rfl⟩, hle, rfl⟩
    have hr := hraw hs
    refine ⟨?_, hle, hr⟩
    rw [hr] at hpos
    exact nonneg_of_mul_nonneg_left hpos (by norm_num)
  · rintro ⟨hu, hle, hr⟩
    have hs : d.normalize.scale ≤ SCALE := hscale.mpr ⟨u, by rw [hr, mul_comm]⟩
    have hu' : d.normalize.signedMantissa * 10 ^ (SCALE - d.normalize.scale) = u :=
      mul_right_cancel₀ (by norm_num : (10 : ℤ) ^ 19 ≠ 0) ((hraw hs).symm.trans hr)
    refine ⟨⟨by rw [hr]; positivity, hs⟩, u, ⟨?_, hu'⟩, hle, rfl⟩
    rw [hu']
    unfold maxUnits at hle
    exact ⟨by omega, by omega⟩

theorem units_nonneg {d : Decimal} {u : ℤ} (h : units d = .ok u) : 0 ≤ u :=
  (units_eq_ok_iff.mp h).1

theorem units_le {d : Decimal} {u : ℤ} (h : units d = .ok u) : u ≤ maxUnits :=
  (units_eq_ok_iff.mp h).2.1

theorem raw_eq_of_units {d : Decimal} {u : ℤ} (h : units d = .ok u) : d.raw = u * 10 ^ 19 :=
  (units_eq_ok_iff.mp h).2.2

theorem unitsOf_eq {d : Decimal} {u : ℤ} (h : units d = .ok u) : unitsOf d = u := by
  rw [unitsOf, raw_eq_of_units h, Int.mul_ediv_cancel _ (by norm_num)]

/-- The value is a whole number of units, the one `unitsOf` reads. -/
def Whole (d : Decimal) : Prop := d.raw = unitsOf d * 10 ^ 19

theorem whole_of_units {d : Decimal} {u : ℤ} (h : units d = .ok u) : Whole d := by
  rw [Whole, unitsOf_eq h]
  exact raw_eq_of_units h

/-- The units of a value depend on the value only. -/
theorem units_congr {d e : Decimal} (h : d ≈ e) {u : ℤ} : units d = .ok u ↔ units e = .ok u := by
  rw [units_eq_ok_iff, units_eq_ok_iff, Decimal.equiv_def.mp h]

theorem units_inj {d e : Decimal} {u : ℤ} (hd : units d = .ok u) (he : units e = .ok u) :
    d ≈ e := by
  rw [Decimal.equiv_def, raw_eq_of_units hd, raw_eq_of_units he]

@[simp] theorem units_zero : units 0 = .ok 0 := by
  rw [units_eq_ok_iff]
  exact ⟨le_rfl, by norm_num [maxUnits], by rw [Decimal.raw_zero, zero_mul]⟩

section Comparison

variable {d e : Decimal} {u v : ℤ}

theorem lt_iff_units (hd : units d = .ok u) (he : units e = .ok v) : d < e ↔ u < v := by
  rw [Decimal.lt_def, raw_eq_of_units hd, raw_eq_of_units he]
  exact mul_lt_mul_iff_left₀ (by norm_num)

theorem le_iff_units (hd : units d = .ok u) (he : units e = .ok v) : d ≤ e ↔ u ≤ v := by
  rw [Decimal.le_def, raw_eq_of_units hd, raw_eq_of_units he]
  exact mul_le_mul_iff_left₀ (by norm_num)

theorem equiv_iff_units (hd : units d = .ok u) (he : units e = .ok v) : d ≈ e ↔ u = v := by
  rw [Decimal.equiv_def, raw_eq_of_units hd, raw_eq_of_units he]
  exact mul_left_inj' (by norm_num)

theorem pos_iff_units (hd : units d = .ok u) : 0 < d ↔ 0 < u :=
  lt_iff_units units_zero hd

theorem equiv_zero_iff_units (hd : units d = .ok u) : d ≈ 0 ↔ u = 0 :=
  equiv_iff_units hd units_zero

theorem units_min (hd : units d = .ok u) (he : units e = .ok v) :
    units (Decimal.min d e) = .ok (min u v) := by
  unfold Decimal.min
  split
  · next h =>
    rw [min_eq_right (le_of_lt ((lt_iff_units he hd).mp h))]
    exact he
  · next h =>
    rw [min_eq_left (not_lt.mp (fun hlt => h ((lt_iff_units he hd).mpr hlt)))]
    exact hd

end Comparison

/-! ## Converting back -/

/-- Some amount denotes `u` units. -/
def Representable (u : ℤ) : Prop := ∃ d, units d = .ok u

theorem decimal_natCast (u : ℕ) :
    decimal (u : ℤ) =
      orErr (Decimal.fromParts false (stripZeros u 9).1 (stripZeros u 9).2)
        "Settlement balance is not exactly representable as Decimal" := by
  have hdiv : (u : ℤ).tdiv FACTOR = ((u / 10 ^ 9 : ℕ) : ℤ) := rfl
  have hmod : (u : ℤ).tmod FACTOR = ((u % 10 ^ 9 : ℕ) : ℤ) := rfl
  have htext : formatInt ((u : ℤ).tdiv FACTOR) ++ '.' :: formatPadded SCALE ((u : ℤ).tmod FACTOR) =
      pointText u 9 := by
    rw [hdiv, hmod, pointText, ← fixedDigits_mod 9 u,
      ← leftpad_toDigits (by omega) (Nat.mod_lt u (by norm_num : 0 < 10 ^ 9))]
    rfl
  rw [decimal, htext, Decimal.fromStrExact_trimText]

/-- A converted amount denotes the units it was converted from. -/
theorem raw_decimal {u : ℤ} {d : Decimal} (hu : 0 ≤ u) (h : decimal u = .ok d) :
    d.raw = u * 10 ^ 19 := by
  obtain ⟨n, rfl⟩ := Int.eq_ofNat_of_zero_le hu
  rw [decimal_natCast, orErr_eq_ok, Decimal.fromParts] at h
  split at h
  · next hfit =>
    have hd := Option.some.inj h
    have hle := stripZeros_scale_le n 9
    have hexp : 28 - (stripZeros n 9).2 = 9 - (stripZeros n 9).2 + 19 := by omega
    have hmul : ((stripZeros n 9).1 : ℤ) * 10 ^ (9 - (stripZeros n 9).2) = n := by
      exact_mod_cast stripZeros_mul n 9
    rw [← hd, Decimal.raw, Decimal.signedMantissa, Bool.false_and, if_neg Bool.false_ne_true]
    dsimp only
    rw [hexp, pow_add, ← mul_assoc, hmul]
  · cases h

theorem units_decimal {u : ℤ} {d : Decimal} (hu : 0 ≤ u) (hle : u ≤ maxUnits)
    (h : decimal u = .ok d) : units d = .ok u :=
  units_eq_ok_iff.mpr ⟨hu, hle, raw_decimal hu h⟩

/-- What fits the mantissa is representable. -/
theorem representable_of_lt {u : ℤ} (hu : 0 ≤ u) (hlt : u < 2 ^ 96) : Representable u := by
  obtain ⟨n, rfl⟩ := Int.eq_ofNat_of_zero_le hu
  refine ⟨⟨false, n, 9, by exact_mod_cast hlt, by norm_num⟩, units_eq_ok_iff.mpr ⟨hu, ?_, ?_⟩⟩
  · unfold maxUnits
    omega
  · rfl

/-- A representable number of units is a mantissa with zeros appended. -/
theorem Representable.exists_mantissa {u : ℤ} (h : Representable u) :
    ∃ m k : ℕ, m < 2 ^ 96 ∧ k ≤ 9 ∧ u = m * 10 ^ k := by
  obtain ⟨d, hd⟩ := h
  obtain ⟨hu, hle, hraw⟩ := units_eq_ok_iff.mp hd
  have hscale : d.normalize.scale ≤ 9 :=
    (d.normalize_scale_le_iff (by norm_num)).mpr ⟨u, by rw [hraw, mul_comm]⟩
  refine ⟨d.normalize.mantissa, 9 - d.normalize.scale, d.normalize.mantissa_lt, by omega, ?_⟩
  have hexp : 28 - d.normalize.scale = 9 - d.normalize.scale + 19 := by omega
  have hr : d.normalize.signedMantissa * 10 ^ (9 - d.normalize.scale) = u := by
    rw [← Decimal.raw_normalize, Decimal.raw, hexp, pow_add, ← mul_assoc] at hraw
    exact mul_right_cancel₀ (by norm_num : (10 : ℤ) ^ 19 ≠ 0) hraw
  rw [Decimal.signedMantissa] at hr
  split at hr
  · have hz : (0 : ℤ) ≤ d.normalize.mantissa * 10 ^ (9 - d.normalize.scale) := by positivity
    rw [neg_mul] at hr
    omega
  · exact hr.symm

theorem representable_of_mantissa {m k : ℕ} (hm : m < 2 ^ 96) (hk : k ≤ 9)
    (hle : (m : ℤ) * 10 ^ k ≤ maxUnits) : Representable (m * 10 ^ k) := by
  refine ⟨⟨false, m, 9 - k, hm, by omega⟩, units_eq_ok_iff.mpr ⟨by positivity, hle, ?_⟩⟩
  have hexp : 28 - (9 - k) = k + 19 := by omega
  show (m : ℤ) * 10 ^ (28 - (9 - k)) = m * 10 ^ k * 10 ^ 19
  rw [hexp, pow_add, mul_assoc]

/-- **What a decimal can denote**: a number of units needs a zero at its end for every
digit it is too long for the mantissa. -/
theorem representable_iff {u : ℤ} :
    Representable u ↔ 0 ≤ u ∧ u ≤ maxUnits ∧ ∀ j : ℕ, 10 ^ j * 2 ^ 96 ≤ u → 10 ^ (j + 1) ∣ u := by
  constructor
  · intro h
    obtain ⟨m, k, hm, -, rfl⟩ := h.exists_mantissa
    obtain ⟨d, hd⟩ := h
    refine ⟨units_nonneg hd, units_le hd, fun j hj => ?_⟩
    have hlt : 10 ^ j * 2 ^ 96 < 10 ^ k * 2 ^ 96 := by
      have hmk : (m : ℤ) * 10 ^ k < 2 ^ 96 * 10 ^ k :=
        mul_lt_mul_of_pos_right (by exact_mod_cast hm) (by positivity)
      have hcast : (10 ^ j * 2 ^ 96 : ℤ) < 10 ^ k * 2 ^ 96 := by linarith
      exact_mod_cast hcast
    have hjk : j < k := (Nat.pow_lt_pow_iff_right (by norm_num)).mp (Nat.lt_of_mul_lt_mul_right hlt)
    exact Dvd.dvd.mul_left (pow_dvd_pow 10 hjk) _
  · rintro ⟨hu, hle, hzeros⟩
    obtain ⟨n, rfl⟩ := Int.eq_ofNat_of_zero_le hu
    -- at most two digits are too many
    by_cases h1 : (10 ^ 0 * 2 ^ 96 : ℤ) ≤ n
    · by_cases h2 : (10 ^ 1 * 2 ^ 96 : ℤ) ≤ n
      · obtain ⟨m, hm⟩ := hzeros 1 h2
        have hm0 : 0 ≤ m := by omega
        obtain ⟨m, rfl⟩ := Int.eq_ofNat_of_zero_le hm0
        have hlt : m < 2 ^ 96 := by
          unfold maxUnits at hle
          omega
        rw [hm, mul_comm] at hle ⊢
        exact representable_of_mantissa hlt (by norm_num) hle
      · obtain ⟨m, hm⟩ := hzeros 0 h1
        have hm0 : 0 ≤ m := by omega
        obtain ⟨m, rfl⟩ := Int.eq_ofNat_of_zero_le hm0
        have hlt : m < 2 ^ 96 := by omega
        rw [hm, mul_comm] at hle ⊢
        exact representable_of_mantissa hlt (by norm_num) hle
    · exact representable_of_lt hu (by omega)

/-- **A part of a pool.**  Where an amount is taken from a pool and from a part of it, and
the pool is representable before and after, the rest of the part is. -/
theorem Representable.sub_of_pool {pool part taken : ℤ} (hpool : Representable pool)
    (hpool' : Representable (pool - taken)) (hpart : Representable part) (htaken : 0 ≤ taken)
    (hrest : taken ≤ part) (hle : part ≤ pool) : Representable (part - taken) := by
  rw [representable_iff] at hpool hpool' hpart ⊢
  refine ⟨by omega, by omega, fun j hj => ?_⟩
  have h1 := hpool.2.2 j (by omega)
  have h2 := hpool'.2.2 j (by omega)
  have h3 := hpart.2.2 j (by omega)
  have htaken' : (10 : ℤ) ^ (j + 1) ∣ taken := by
    have := dvd_sub h1 h2
    rwa [sub_sub_cancel] at this
  exact dvd_sub h3 htaken'

/-- A representable number of units is converted: the stripped mantissa is the
smallest one that denotes it. -/
theorem exists_decimal {u : ℤ} (h : Representable u) : ∃ d, decimal u = .ok d := by
  obtain ⟨m, k, hm, hk, rfl⟩ := h.exists_mantissa
  obtain ⟨n, hn⟩ : ∃ n : ℕ, n = m * 10 ^ k := ⟨_, rfl⟩
  have hcast : (m : ℤ) * 10 ^ k = (n : ℕ) := by
    rw [hn]
    push_cast
    rfl
  have hmul := stripZeros_mul n 9
  have hle9 := stripZeros_scale_le n 9
  have hs : (stripZeros n 9).2 ≤ 9 - k := by
    by_contra hlt
    rcases stripZeros_last n 9 with h0 | hlast
    · omega
    · apply hlast
      have hexp : k = (stripZeros n 9).2 - (9 - k) + (9 - (stripZeros n 9).2) := by omega
      have hstrip : (stripZeros n 9).1 = m * 10 ^ ((stripZeros n 9).2 - (9 - k)) := by
        have heq : (stripZeros n 9).1 * 10 ^ (9 - (stripZeros n 9).2) =
            m * 10 ^ ((stripZeros n 9).2 - (9 - k)) * 10 ^ (9 - (stripZeros n 9).2) := by
          rw [hmul, mul_assoc, ← pow_add, ← hexp]
          exact hn
        exact Nat.eq_of_mul_eq_mul_right (by positivity) heq
      rw [hstrip]
      exact Nat.mod_eq_zero_of_dvd (Dvd.dvd.mul_left (dvd_pow_self 10 (by omega)) _)
  have hmant : (stripZeros n 9).1 ≤ m := by
    have hpow : 10 ^ k ≤ 10 ^ (9 - (stripZeros n 9).2) := Nat.pow_le_pow_right (by omega) (by omega)
    have hle' : (stripZeros n 9).1 * 10 ^ k ≤ m * 10 ^ k :=
      calc (stripZeros n 9).1 * 10 ^ k
          ≤ (stripZeros n 9).1 * 10 ^ (9 - (stripZeros n 9).2) := Nat.mul_le_mul_left _ hpow
        _ = m * 10 ^ k := by rw [hmul, ← hn]
    exact Nat.le_of_mul_le_mul_right hle' (by positivity)
  have hfit : (stripZeros n 9).1 < 2 ^ 96 ∧ (stripZeros n 9).2 ≤ 28 :=
    ⟨hmant.trans_lt hm, by omega⟩
  rw [hcast, decimal_natCast, Decimal.fromParts, dif_pos hfit]
  exact ⟨_, rfl⟩

/-! ## The operations on denoted units -/

theorem fitsI128_of_le {n : ℤ} (h0 : 0 ≤ n) (h : n ≤ 2 * maxUnits) : FitsI128 n := by
  unfold maxUnits at h
  exact ⟨by omega, by omega⟩

theorem add_ok {a b c : Decimal} (h : add a b = .ok c) :
    ∃ x y, units a = .ok x ∧ units b = .ok y ∧ units c = .ok (x + y) := by
  simp only [add, bind_eq_ok, orErr_eq_ok, ensure_eq_ok, checkedI128_eq_some,
    exists_const] at h
  obtain ⟨x, hx, y, hy, v, ⟨-, rfl⟩, hle, hd⟩ := h
  exact ⟨x, y, hx, hy, units_decimal (add_nonneg (units_nonneg hx) (units_nonneg hy)) hle hd⟩

theorem exists_add {a b : Decimal} {x y : ℤ} (ha : units a = .ok x) (hb : units b = .ok y)
    (hr : Representable (x + y)) : ∃ c, add a b = .ok c ∧ units c = .ok (x + y) := by
  obtain ⟨e, he⟩ := hr
  obtain ⟨c, hc⟩ := exists_decimal ⟨e, he⟩
  have hle := units_le he
  have hfit : FitsI128 (x + y) :=
    fitsI128_of_le (units_nonneg he) (hle.trans (by norm_num [maxUnits]))
  refine ⟨c, ?_, units_decimal (units_nonneg he) hle hc⟩
  simp only [add, bind_eq_ok, orErr_eq_ok, ensure_eq_ok, checkedI128_eq_some, exists_const]
  exact ⟨x, ha, y, hb, x + y, ⟨hfit, rfl⟩, hle, hc⟩

theorem subtract_ok {a b c : Decimal} (h : subtract a b = .ok c) :
    ∃ x y, units a = .ok x ∧ units b = .ok y ∧ units c = .ok (x - y) := by
  simp only [subtract, bind_eq_ok, ensure_eq_ok, exists_const] at h
  obtain ⟨x, hx, y, hy, hle, hd⟩ := h
  have hmax : x - y ≤ maxUnits := by
    have := units_le hx
    have := units_nonneg hy
    omega
  exact ⟨x, y, hx, hy, units_decimal hle hmax hd⟩

theorem exists_subtract {a b : Decimal} {x y : ℤ} (ha : units a = .ok x) (hb : units b = .ok y)
    (hr : Representable (x - y)) : ∃ c, subtract a b = .ok c ∧ units c = .ok (x - y) := by
  obtain ⟨e, he⟩ := hr
  obtain ⟨c, hc⟩ := exists_decimal ⟨e, he⟩
  refine ⟨c, ?_, units_decimal (units_nonneg he) (units_le he) hc⟩
  simp only [subtract, bind_eq_ok, ensure_eq_ok, exists_const]
  exact ⟨x, ha, y, hb, units_nonneg he, hc⟩

theorem factor_pos : 0 < FACTOR := by norm_num [FACTOR]

theorem quote_ok {p a q : Decimal} (h : quote p a = .ok q) :
    ∃ x y z, units p = .ok x ∧ units a = .ok y ∧ units q = .ok z ∧ x * y = z * FACTOR := by
  simp only [quote, bind_eq_ok, orErr_eq_ok, ensure_eq_ok, checkedI128_eq_some,
    exists_const] at h
  obtain ⟨x, hx, y, hy, hmod, v, ⟨-, rfl⟩, hle, hd⟩ := h
  have hnn : 0 ≤ x * y / FACTOR :=
    Int.ediv_nonneg (mul_nonneg (units_nonneg hx) (units_nonneg hy)) factor_pos.le
  exact ⟨x, y, x * y / FACTOR, hx, hy, units_decimal hnn hle hd,
    (Int.ediv_mul_cancel (Int.dvd_of_emod_eq_zero hmod)).symm⟩

theorem exists_quote {p a : Decimal} {x y z : ℤ} (hp : units p = .ok x) (ha : units a = .ok y)
    (hr : Representable z) (hz : x * y = z * FACTOR) :
    ∃ q, quote p a = .ok q ∧ units q = .ok z := by
  obtain ⟨e, he⟩ := hr
  obtain ⟨q, hq⟩ := exists_decimal ⟨e, he⟩
  have hle := units_le he
  have hdiv : x * y / FACTOR = z := by
    rw [hz, Int.mul_ediv_cancel _ factor_pos.ne']
  have hfit : FitsI128 (x * y / FACTOR) := by
    rw [hdiv]
    exact fitsI128_of_le (units_nonneg he) (hle.trans (by norm_num [maxUnits]))
  refine ⟨q, ?_, units_decimal (units_nonneg he) hle hq⟩
  simp only [quote, bind_eq_ok, orErr_eq_ok, ensure_eq_ok, checkedI128_eq_some, exists_const]
  refine ⟨x, hp, y, ha, ?_, x * y / FACTOR, ⟨hfit, rfl⟩, by rw [hdiv]; exact hle, by rw [hdiv]; exact hq⟩
  rw [hz]
  exact Int.mul_emod_left z FACTOR

theorem fee_ok {received rate charged : Decimal} (h : fee received rate = .ok charged) :
    ∃ x r z, units received = .ok x ∧ units rate = .ok r ∧ units charged = .ok z ∧
      z = x * r / FACTOR ∧ r < FACTOR := by
  simp only [fee, bind_eq_ok, orErr_eq_ok, ensure_eq_ok, checkedI128_eq_some,
    exists_const] at h
  obtain ⟨⟨hone, -⟩, x, hx, r, hr, v, ⟨-, rfl⟩, hd⟩ := h
  have hx0 := units_nonneg hx
  have hr0 := units_nonneg hr
  have hlt : r < FACTOR := by
    rw [Decimal.lt_def, Decimal.raw_ONE, raw_eq_of_units hr] at hone
    unfold FACTOR
    omega
  have hnn : 0 ≤ x * r / FACTOR := Int.ediv_nonneg (mul_nonneg hx0 hr0) factor_pos.le
  have hle : x * r / FACTOR ≤ maxUnits := by
    have hxr : x * r ≤ x * FACTOR := mul_le_mul_of_nonneg_left hlt.le hx0
    have := Int.ediv_le_ediv factor_pos hxr
    rw [Int.mul_ediv_cancel _ factor_pos.ne'] at this
    exact this.trans (units_le hx)
  exact ⟨x, r, x * r / FACTOR, hx, hr, units_decimal hnn hle hd, rfl, hlt⟩

/-- A fee is at most what was received. -/
theorem fee_le {received rate charged : Decimal} {x z : ℤ} (h : fee received rate = .ok charged)
    (hx : units received = .ok x) (hz : units charged = .ok z) : z ≤ x := by
  obtain ⟨x', r, z', hx', hr, hz', hzr, hlt⟩ := fee_ok h
  obtain rfl : x' = x := Except.ok.inj (hx'.symm.trans hx)
  obtain rfl : z' = z := Except.ok.inj (hz'.symm.trans hz)
  rw [hzr]
  have hxr : x' * r ≤ x' * FACTOR := mul_le_mul_of_nonneg_left hlt.le (units_nonneg hx)
  have := Int.ediv_le_ediv factor_pos hxr
  rwa [Int.mul_ediv_cancel _ factor_pos.ne'] at this

/-! ## Budgets -/

/-- With enough rounds the loop ends in the greatest common divisor. -/
theorem euclid_eq_gcd {rounds : ℕ} {a b : ℤ} (ha : 0 ≤ a) (hb : 0 ≤ b) (h : a.toNat < rounds) :
    euclid rounds a b = Int.gcd a b := by
  induction rounds generalizing a b with
  | zero => omega
  | succ rounds ih =>
    rw [euclid]
    split
    · next h0 =>
      rw [h0, Int.gcd_zero_left]
      omega
    · next h0 =>
      have hpos : 0 < a := lt_of_le_of_ne ha (Ne.symm h0)
      have hlt := Int.emod_lt_of_pos b hpos
      have hnn := Int.emod_nonneg b h0
      rw [ih hnn ha (by omega), Int.gcd_emod, Int.gcd_comm]

/-- **The budget quantity.**  It is the largest exact quantity within the budget
and the remainder. -/
theorem quantityForBudget_ok {budget price remaining q : Decimal}
    (h : quantityForBudget budget price remaining = .ok q) :
    ∃ b p r, units budget = .ok b ∧ units price = .ok p ∧ units remaining = .ok r ∧ 0 < p ∧
      units q = .ok (Allocation.largest FACTOR b p r) := by
  simp only [quantityForBudget, bind_eq_ok, orErr_eq_ok, ensure_eq_ok, checkedI128_eq_some,
    exists_const] at h
  obtain ⟨p, hp, hpos, b, hb, r, hr, m, ⟨-, rfl⟩, hd⟩ := h
  have hgcd : euclid ((p % FACTOR).toNat + 1) (p % FACTOR) FACTOR = Int.gcd p FACTOR := by
    rw [euclid_eq_gcd (Int.emod_nonneg p factor_pos.ne') factor_pos.le (Nat.lt_succ_self _),
      Int.gcd_emod]
  rw [hgcd] at hd
  have hnn : 0 ≤ Allocation.largest FACTOR b p r :=
    Allocation.largest_nonneg factor_pos hpos (units_nonneg hb) (units_nonneg hr)
  have hle : Allocation.largest FACTOR b p r ≤ maxUnits :=
    (Allocation.largest_le factor_pos).trans (units_le hr)
  exact ⟨b, p, r, hb, hp, hr, hpos, units_decimal hnn hle hd⟩

/-! ## No panics -/

theorem noPanic_units (d : Decimal) : NoPanic (units d) :=
  noPanic_ensure.bind fun _ _ => noPanic_orErr.bind fun _ _ => noPanic_ensure.bind fun _ _ =>
    noPanic_ok _

theorem noPanic_decimal (u : ℤ) : NoPanic (decimal u) := noPanic_orErr

theorem noPanic_quote (p a : Decimal) : NoPanic (quote p a) :=
  (noPanic_units p).bind fun _ _ => (noPanic_units a).bind fun _ _ => noPanic_ensure.bind fun _ _ =>
    noPanic_orErr.bind fun _ _ => noPanic_ensure.bind fun _ _ => noPanic_decimal _

theorem noPanic_add (a b : Decimal) : NoPanic (add a b) :=
  (noPanic_units a).bind fun _ _ => (noPanic_units b).bind fun _ _ => noPanic_orErr.bind fun _ _ =>
    noPanic_ensure.bind fun _ _ => noPanic_decimal _

theorem noPanic_subtract (a b : Decimal) : NoPanic (subtract a b) :=
  (noPanic_units a).bind fun _ _ => (noPanic_units b).bind fun _ _ => noPanic_ensure.bind fun _ _ =>
    noPanic_decimal _

theorem noPanic_fee (received rate : Decimal) : NoPanic (fee received rate) :=
  noPanic_ensure.bind fun _ _ => (noPanic_units received).bind fun _ _ =>
    (noPanic_units rate).bind fun _ _ => noPanic_orErr.bind fun _ _ => noPanic_decimal _

theorem noPanic_quantityForBudget (budget price remaining : Decimal) :
    NoPanic (quantityForBudget budget price remaining) :=
  (noPanic_units price).bind fun _ _ => noPanic_ensure.bind fun _ _ =>
    (noPanic_units budget).bind fun _ _ => (noPanic_units remaining).bind fun _ _ =>
    noPanic_orErr.bind fun _ _ => noPanic_decimal _

end Amount
end CexEngine
