import CexEngine.Foundation.DigitText

/-!
# Exact decimal values

The `Decimal` of the `rust_decimal` crate, as far as the engine uses it: a sign,
a mantissa below `2 ^ 96` and a scale of at most 28 fraction digits.  Two
decimals that differ only in trailing zeros are different representations of one
value, and the source's `==`, `<` and `≤` are about values.  Everything is
therefore compared through `raw`, the exact value counted in `10 ^ -28`:

* `a ≈ b` is the source's `==`;
* `a ≤ b`, `a < b` are the comparisons of `raw`;
* `normalize` changes the representation and not `raw` (`raw_normalize`).

`fromStrExact` is the exact parser: an optional sign, digits with separators and
at most one point, refused when the mantissa or the scale does not fit.
`fromStrExact_trimText` is its value on the texts the engine builds.
-/

namespace CexEngine

open Foundation.DigitText

/-- A sign, a 96-bit mantissa and a scale. -/
structure Decimal where
  negative : Bool
  mantissa : ℕ
  scale : ℕ
  mantissa_lt : mantissa < 2 ^ 96
  scale_le : scale ≤ 28
  deriving DecidableEq

namespace Decimal

/-- A decimal from its parts, when they fit.  There is no negative zero. -/
def fromParts (negative : Bool) (mantissa scale : ℕ) : Option Decimal :=
  if h : mantissa < 2 ^ 96 ∧ scale ≤ 28 then
    some ⟨negative && mantissa != 0, mantissa, scale, h.1, h.2⟩
  else none

def ZERO : Decimal := ⟨false, 0, 0, by norm_num, by norm_num⟩

def ONE : Decimal := ⟨false, 1, 0, by norm_num, by norm_num⟩

/-- The value `mantissa / 10 ^ scale`, for a mantissa and a scale that fit. -/
def ofScaled (mantissa scale : ℕ) : Decimal :=
  if h : mantissa < 2 ^ 96 ∧ scale ≤ 28 then ⟨false, mantissa, scale, h.1, h.2⟩ else ZERO

instance : Zero Decimal := ⟨ZERO⟩

instance : Inhabited Decimal := ⟨ZERO⟩

/-- The mantissa with its sign. -/
def signedMantissa (d : Decimal) : ℤ := if d.negative then -(d.mantissa : ℤ) else d.mantissa

/-- The exact value, counted in `10 ^ -28`. -/
def raw (d : Decimal) : ℤ := d.signedMantissa * 10 ^ (28 - d.scale)

@[simp] theorem raw_zero : (0 : Decimal).raw = 0 := rfl

@[simp] theorem raw_ONE : ONE.raw = 10 ^ 28 := rfl

/-! ## Comparison -/

instance : LE Decimal := ⟨fun a b => a.raw ≤ b.raw⟩

instance : LT Decimal := ⟨fun a b => a.raw < b.raw⟩

/-- Equality of values: the source's `==`. -/
instance instSetoid : Setoid Decimal := ⟨fun a b => a.raw = b.raw,
  ⟨fun _ => rfl, Eq.symm, Eq.trans⟩⟩

theorem le_def {a b : Decimal} : a ≤ b ↔ a.raw ≤ b.raw := Iff.rfl

theorem lt_def {a b : Decimal} : a < b ↔ a.raw < b.raw := Iff.rfl

theorem equiv_def {a b : Decimal} : a ≈ b ↔ a.raw = b.raw := Iff.rfl

instance (a b : Decimal) : Decidable (a ≤ b) := inferInstanceAs (Decidable (a.raw ≤ b.raw))

instance (a b : Decimal) : Decidable (a < b) := inferInstanceAs (Decidable (a.raw < b.raw))

instance (a b : Decimal) : Decidable (a ≈ b) := inferInstanceAs (Decidable (a.raw = b.raw))

/-- The smaller of two values; the first one when they are equal. -/
def min (a b : Decimal) : Decimal := if b < a then b else a

def isZero (d : Decimal) : Bool := d.mantissa == 0

def abs (d : Decimal) : Decimal := { d with negative := false }

theorem raw_abs_of_nonpos {d : Decimal} (h : d < 0) : d.abs.raw = -d.raw := by
  have hneg : d.negative = true := by
    by_contra hn
    rw [lt_def, raw_zero, raw, signedMantissa, if_neg hn] at h
    have : (0 : ℤ) ≤ d.mantissa * 10 ^ (28 - d.scale) := by positivity
    omega
  rw [raw, raw, signedMantissa, signedMantissa, abs, if_neg (by simp), if_pos hneg]
  ring

theorem isZero_iff (d : Decimal) : d.isZero = true ↔ d.raw = 0 := by
  rw [isZero, beq_iff_eq, raw, mul_eq_zero, or_iff_left (by positivity), signedMantissa]
  split <;> simp

/-! ## Normalization -/

/-- Strip the trailing zeros of the fraction, and turn every zero into `ZERO`. -/
def normalize (d : Decimal) : Decimal :=
  if d.mantissa = 0 then ZERO
  else
    { negative := d.negative
      mantissa := (stripZeros d.mantissa d.scale).1
      scale := (stripZeros d.mantissa d.scale).2
      mantissa_lt := (stripZeros_fst_le _ _).trans_lt d.mantissa_lt
      scale_le := (stripZeros_scale_le _ _).trans d.scale_le }

@[simp] theorem raw_normalize (d : Decimal) : d.normalize.raw = d.raw := by
  unfold normalize
  split
  · next h =>
    have h0 : d.signedMantissa = 0 := by
      rw [signedMantissa, h]
      split <;> rfl
    have hd : d.raw = 0 := by rw [raw, h0, zero_mul]
    rw [hd]
    rfl
  · have hmul : ((stripZeros d.mantissa d.scale).1 : ℤ) *
        10 ^ (28 - (stripZeros d.mantissa d.scale).2) = d.mantissa * 10 ^ (28 - d.scale) := by
      have hle := stripZeros_scale_le d.mantissa d.scale
      have hd := d.scale_le
      have hm : ((stripZeros d.mantissa d.scale).1 : ℤ) *
          10 ^ (d.scale - (stripZeros d.mantissa d.scale).2) = d.mantissa := by
        exact_mod_cast stripZeros_mul d.mantissa d.scale
      have hexp : 28 - (stripZeros d.mantissa d.scale).2 =
          d.scale - (stripZeros d.mantissa d.scale).2 + (28 - d.scale) := by omega
      rw [hexp, pow_add, ← mul_assoc, hm]
    rw [raw, raw, signedMantissa, signedMantissa]
    dsimp only
    split
    · rw [neg_mul, neg_mul, hmul]
    · rw [hmul]

/-- A normalized fraction does not end in zero. -/
theorem normalize_last (d : Decimal) :
    d.normalize.scale = 0 ∨ d.normalize.mantissa % 10 ≠ 0 := by
  unfold normalize
  split
  · exact Or.inl rfl
  · exact stripZeros_last d.mantissa d.scale

/-- The normalized scale counts the fraction digits the value needs: it is at
most `k` exactly when the value is a multiple of `10 ^ -k`. -/
theorem normalize_scale_le_iff (d : Decimal) {k : ℕ} (hk : k ≤ 28) :
    d.normalize.scale ≤ k ↔ (10 : ℤ) ^ (28 - k) ∣ d.raw := by
  have hraw : d.raw = d.normalize.signedMantissa * 10 ^ (28 - d.normalize.scale) := by
    rw [← raw_normalize]
    rfl
  constructor
  · intro h
    rw [hraw]
    exact Dvd.dvd.mul_left (pow_dvd_pow 10 (by omega)) _
  · intro h
    by_contra hlt
    have hle := d.normalize.scale_le
    rcases normalize_last d with h0 | hlast
    · omega
    · apply hlast
      have hexp : 28 - k = (d.normalize.scale - k) + (28 - d.normalize.scale) := by omega
      rw [hraw, hexp, pow_add] at h
      have hdvd : (10 : ℤ) ^ (d.normalize.scale - k) ∣ d.normalize.signedMantissa :=
        Int.dvd_of_mul_dvd_mul_right (by positivity) h
      have hten : (10 : ℤ) ∣ d.normalize.signedMantissa :=
        (dvd_pow_self 10 (by omega)).trans hdvd
      have habs : (10 : ℤ) ∣ d.normalize.mantissa := by
        rw [signedMantissa] at hten
        split at hten
        · exact (dvd_neg).mp hten
        · exact hten
      exact Nat.mod_eq_zero_of_dvd (by exact_mod_cast habs)

/-! ## Text -/

/-- The scanner of the exact parser.  `point` and `has` record whether a point and a digit were seen.

An underscore behind a digit is skipped wherever it stands.  The exact parser of `rust_decimal` does
this only as far as the 28th digit of the fraction and refuses an underscore behind it; on such a
text the scanner returns the number that the text denotes without it. -/
def scan (negative : Bool) : Bool → Bool → ℕ → ℕ → List Char → Option Decimal
  | _, has, data, scale, [] => if has then fromParts negative data scale else none
  | point, has, data, scale, c :: rest =>
    if c.isDigit then
      scan negative point true (10 * data + (c.toNat - '0'.toNat))
        (if point then scale + 1 else scale) rest
    else if c = '.' ∧ point = false then scan negative true has data scale rest
    else if c = '_' ∧ has = true then scan negative point has data scale rest
    else none

/-- Parse a literal exactly, or refuse it. -/
def fromStrExact : List Char → Option Decimal
  | '-' :: rest => scan true false false 0 0 rest
  | '+' :: rest => scan false false false 0 0 rest
  | text => scan false false false 0 0 text

/-- The text of a decimal, with all its fraction digits. -/
def toText (d : Decimal) : List Char :=
  (if d.negative then ['-'] else []) ++
    (if d.scale = 0 then Nat.toDigits 10 d.mantissa else pointText d.mantissa d.scale)

theorem scan_digits (negative point has : Bool) (data scale : ℕ) {digits : List Char}
    (rest : List Char) (hd : ∀ c ∈ digits, c.isDigit = true) :
    scan negative point has data scale (digits ++ rest) =
      scan negative point (has || !digits.isEmpty) (Nat.ofDigitChars 10 digits data)
        (if point then scale + digits.length else scale) rest := by
  induction digits generalizing has data scale with
  | nil => simp
  | cons c digits ih =>
    have hc : c.isDigit = true := hd c (List.mem_cons_self ..)
    have hrest : ∀ c ∈ digits, c.isDigit = true := fun x hx => hd x (List.mem_cons_of_mem _ hx)
    rw [List.cons_append, scan, if_pos hc, ih _ _ _ hrest, Nat.ofDigitChars_cons]
    cases point <;> simp [Nat.add_assoc, Nat.add_comm 1]

/-- A text that starts with a digit has no sign. -/
theorem fromStrExact_of_isDigit {c : Char} {rest : List Char} (hc : c.isDigit = true) :
    fromStrExact (c :: rest) = scan false false false 0 0 (c :: rest) := by
  unfold fromStrExact
  split
  · next h =>
    have : c = '-' := (List.cons.inj h).1
    rw [this] at hc
    exact absurd hc (by decide)
  · next h =>
    have : c = '+' := (List.cons.inj h).1
    rw [this] at hc
    exact absurd hc (by decide)
  · rfl

theorem fromStrExact_toDigits_append (n : ℕ) (rest : List Char) :
    fromStrExact (Nat.toDigits 10 n ++ rest) = scan false false true n 0 rest := by
  obtain ⟨c, cs, hcs⟩ := List.exists_cons_of_ne_nil (Nat.toDigits_ne_nil (b := 10) (n := n))
  have hdigits : ∀ x ∈ Nat.toDigits 10 n, x.isDigit = true :=
    fun x hx => isDigit_of_mem_toDigits_ten hx
  have hc : c.isDigit = true := hdigits c (by rw [hcs]; exact List.mem_cons_self ..)
  have hscan := scan_digits false false false 0 0 rest hdigits
  rw [Nat.ofDigitChars_ten_toDigits] at hscan
  rw [hcs, List.cons_append, fromStrExact_of_isDigit hc, ← List.cons_append, ← hcs, hscan, hcs]
  rfl

/-- Parsing the text of a natural number. -/
theorem fromStrExact_toDigits (n : ℕ) :
    fromStrExact (Nat.toDigits 10 n) = fromParts false n 0 := by
  have h := fromStrExact_toDigits_append n []
  rw [List.append_nil] at h
  rw [h, scan, if_pos rfl]

/-- Parsing the text of a number with `w` fraction digits. -/
theorem fromStrExact_pointText (u w : ℕ) :
    fromStrExact (pointText u w) = fromParts false u w := by
  have hdigits : ∀ x ∈ fixedDigits w u, x.isDigit = true :=
    fun x hx => isDigit_of_mem_fixedDigits hx
  have hscan := scan_digits false true true (u / 10 ^ w) 0 [] hdigits
  rw [List.append_nil, ofDigitChars_fixedDigits, Nat.div_add_mod', length_fixedDigits] at hscan
  rw [pointText, fromStrExact_toDigits_append, scan, if_neg (by decide),
    if_pos ⟨rfl, rfl⟩, hscan, Bool.true_or, scan, if_pos rfl, if_pos rfl, Nat.zero_add]

/-- Parsing the trimmed text of `u` units of `10 ^ -w` strips the zeros of `u`. -/
theorem fromStrExact_trimText (u w : ℕ) :
    fromStrExact (trimText (pointText u w)) =
      fromParts false (stripZeros u w).1 (stripZeros u w).2 := by
  rw [trimText_pointText]
  split
  · next h => rw [fromStrExact_toDigits, h]
  · exact fromStrExact_pointText _ _

end Decimal
end CexEngine
