import Mathlib.Data.List.DropRight
import Mathlib.Algebra.Order.Field.Rat
import Mathlib.Tactic

/-!
# Decimal digit strings

The text side of fixed-point numbers: a natural number `u` counted in units of
`10 ^ -w` is written as the digits of `u / 10 ^ w`, a point, and the last `w`
digits of `u` (`pointText`).  Texts are lists of characters.

* `fixedDigits w n`: the last `w` digits of `n`, leading zeros included.  It is
  the zero-padded text of `n` when `n` fits (`leftpad_toDigits`), and the tail of
  the plain text of `n` when it does not (`toDigits_eq_append_fixedDigits`).
* `stripZeros m s`: remove decimal zeros from the end of a mantissa `m` with `s`
  fraction digits.
* `trimText`: the text with its trailing zeros, and then its trailing points,
  removed.  `trimText_pointText` says that trimming the text of a number is
  stripping the zeros of the number.
* `Denotes text v`: the text is a plain decimal literal of value `v`.
-/

namespace Foundation
namespace DigitText

/-! ## Fixed-width digits -/

/-- The last `w` digits of `n`. -/
def fixedDigits : ℕ → ℕ → List Char
  | 0, _ => []
  | w + 1, n => fixedDigits w (n / 10) ++ [(n % 10).digitChar]

@[simp] theorem fixedDigits_zero (n : ℕ) : fixedDigits 0 n = [] := rfl

theorem fixedDigits_succ (w n : ℕ) :
    fixedDigits (w + 1) n = fixedDigits w (n / 10) ++ [(n % 10).digitChar] := rfl

@[simp] theorem length_fixedDigits (w n : ℕ) : (fixedDigits w n).length = w := by
  induction w generalizing n with
  | zero => rfl
  | succ w ih => rw [fixedDigits_succ, List.length_append, ih, List.length_singleton]

theorem fixedDigits_of_eq_zero (w : ℕ) : fixedDigits w 0 = List.replicate w '0' := by
  induction w with
  | zero => rfl
  | succ w ih => rw [fixedDigits_succ, Nat.zero_div, ih, List.replicate_succ']; rfl

/-- Only the last `w` digits are read. -/
theorem fixedDigits_mod (w n : ℕ) : fixedDigits w (n % 10 ^ w) = fixedDigits w n := by
  induction w generalizing n with
  | zero => rfl
  | succ w ih =>
    have hdiv : n % 10 ^ (w + 1) / 10 = n / 10 % 10 ^ w := by
      rw [pow_succ', Nat.mod_mul_right_div_self]
    have hmod : n % 10 ^ (w + 1) % 10 = n % 10 :=
      Nat.mod_mod_of_dvd n (dvd_pow_self 10 (Nat.succ_ne_zero w))
    rw [fixedDigits_succ, fixedDigits_succ, hdiv, hmod, ih]

theorem isDigit_digitChar_mod (n : ℕ) : (n % 10).digitChar.isDigit = true := by
  have hlt : n % 10 < 10 := Nat.mod_lt n (by omega)
  interval_cases n % 10 <;> decide

theorem isDigit_of_mem_fixedDigits {w n : ℕ} {c : Char} (h : c ∈ fixedDigits w n) :
    c.isDigit = true := by
  induction w generalizing n with
  | zero => simp at h
  | succ w ih =>
    rw [fixedDigits_succ, List.mem_append, List.mem_singleton] at h
    rcases h with h | rfl
    · exact ih h
    · exact isDigit_digitChar_mod n

theorem isDigit_of_mem_toDigits_ten {n : ℕ} {c : Char} (h : c ∈ Nat.toDigits 10 n) :
    c.isDigit = true :=
  Nat.isDigit_of_mem_toDigits (by omega) (by omega) h

/-- Reading the last `w` digits after a number `init`. -/
theorem ofDigitChars_fixedDigits (w n init : ℕ) :
    Nat.ofDigitChars 10 (fixedDigits w n) init = init * 10 ^ w + n % 10 ^ w := by
  induction w generalizing n with
  | zero => simp [Nat.mod_one]
  | succ w ih =>
    have hsplit : n % 10 ^ (w + 1) = 10 * (n / 10 % 10 ^ w) + n % 10 := by
      rw [pow_succ', Nat.mod_mul]
      omega
    rw [fixedDigits_succ, Nat.ofDigitChars_append, ih,
      Nat.ofDigitChars_cons_digitChar_of_lt_ten (Nat.mod_lt n (by omega)),
      Nat.ofDigitChars_nil, hsplit, pow_succ]
    ring

/-- The zero-padded text of a number that fits in the width. -/
theorem leftpad_toDigits {w n : ℕ} (hw : 0 < w) (hn : n < 10 ^ w) :
    (Nat.toDigits 10 n).leftpad w '0' = fixedDigits w n := by
  induction w generalizing n with
  | zero => omega
  | succ w ih =>
    by_cases h10 : n < 10
    · have hdiv : n / 10 = 0 := Nat.div_eq_of_lt h10
      rw [Nat.toDigits_of_lt_base h10, fixedDigits_succ, hdiv, fixedDigits_of_eq_zero,
        Nat.mod_eq_of_lt h10]
      rfl
    · have hw' : 0 < w := by
        rcases Nat.eq_zero_or_pos w with rfl | h
        · omega
        · exact h
      have hlt : n / 10 < 10 ^ w := by
        rw [Nat.div_lt_iff_lt_mul (by omega), ← pow_succ]
        exact hn
      rw [Nat.toDigits_of_base_le (by omega) (by omega), fixedDigits_succ, ← ih hw' hlt]
      simp [List.leftpad]

/-- A number too wide for the width: its text ends in its last `w` digits. -/
theorem toDigits_eq_append_fixedDigits {w n : ℕ} (hn : 10 ^ w ≤ n) :
    Nat.toDigits 10 n = Nat.toDigits 10 (n / 10 ^ w) ++ fixedDigits w n := by
  induction w generalizing n with
  | zero => simp
  | succ w ih =>
    have h10 : 10 ≤ n := by
      have : 10 ^ 1 ≤ 10 ^ (w + 1) := Nat.pow_le_pow_right (by omega) (by omega)
      omega
    have hle : 10 ^ w ≤ n / 10 := by
      rw [Nat.le_div_iff_mul_le (by omega), ← pow_succ]
      exact hn
    have hdiv : n / 10 / 10 ^ w = n / 10 ^ (w + 1) := by
      rw [Nat.div_div_eq_div_mul, pow_succ']
    rw [Nat.toDigits_of_base_le (by omega) h10, ih hle, hdiv, fixedDigits_succ,
      List.append_assoc]

/-! ## Trailing zeros of a number -/

/-- Strip decimal zeros from the end of a mantissa with `s` fraction digits. -/
def stripZeros (m : ℕ) : ℕ → ℕ × ℕ
  | 0 => (m, 0)
  | s + 1 => if m % 10 = 0 then stripZeros (m / 10) s else (m, s + 1)

theorem stripZeros_scale_le (m s : ℕ) : (stripZeros m s).2 ≤ s := by
  induction s generalizing m with
  | zero => exact le_rfl
  | succ s ih =>
    rw [stripZeros]
    split
    · exact (ih _).trans (Nat.le_succ s)
    · exact le_rfl

/-- The stripped mantissa denotes the same number. -/
theorem stripZeros_mul (m s : ℕ) :
    (stripZeros m s).1 * 10 ^ (s - (stripZeros m s).2) = m := by
  induction s generalizing m with
  | zero => simp [stripZeros]
  | succ s ih =>
    rw [stripZeros]
    split
    · next h =>
      have hle := stripZeros_scale_le (m / 10) s
      have hsub : s + 1 - (stripZeros (m / 10) s).2 = s - (stripZeros (m / 10) s).2 + 1 := by
        omega
      rw [hsub, pow_succ, ← mul_assoc, ih]
      omega
    · simp

theorem stripZeros_fst_le (m s : ℕ) : (stripZeros m s).1 ≤ m := by
  have h := stripZeros_mul m s
  calc (stripZeros m s).1 ≤ (stripZeros m s).1 * 10 ^ (s - (stripZeros m s).2) :=
        Nat.le_mul_of_pos_right _ (by positivity)
    _ = m := h

/-- After stripping, a remaining fraction does not end in zero. -/
theorem stripZeros_last (m s : ℕ) :
    (stripZeros m s).2 = 0 ∨ (stripZeros m s).1 % 10 ≠ 0 := by
  induction s generalizing m with
  | zero => exact Or.inl rfl
  | succ s ih =>
    rw [stripZeros]
    split
    · exact ih _
    · next h => exact Or.inr h

/-! ## Numbers as text -/

/-- `u` units of `10 ^ -w`, written out with all `w` fraction digits. -/
def pointText (u w : ℕ) : List Char := Nat.toDigits 10 (u / 10 ^ w) ++ '.' :: fixedDigits w u

/-- Remove the zeros at the end of a text, then the points at its end. -/
def trimText (text : List Char) : List Char :=
  (text.rdropWhile (· == '0')).rdropWhile (· == '.')

theorem ne_point_of_isDigit {c : Char} (h : c.isDigit = true) : (c == '.') = false := by
  by_contra hc
  rw [Bool.not_eq_false, beq_iff_eq] at hc
  rw [hc] at h
  exact absurd h (by decide)

/-- Trimming the zeros of the text strips the zeros of the number. -/
theorem rdropWhile_zero_pointText (u w : ℕ) :
    (pointText u w).rdropWhile (· == '0') =
      pointText (stripZeros u w).1 (stripZeros u w).2 := by
  induction w generalizing u with
  | zero =>
    rw [stripZeros, pointText, fixedDigits_zero,
      List.rdropWhile_concat_neg _ _ _ (by decide)]
  | succ w ih =>
    have hdiv : u / 10 / 10 ^ w = u / 10 ^ (w + 1) := by
      rw [Nat.div_div_eq_div_mul, pow_succ']
    have htext : pointText u (w + 1) = pointText (u / 10) w ++ [(u % 10).digitChar] := by
      rw [pointText, pointText, fixedDigits_succ, hdiv, List.append_assoc, List.cons_append]
    rw [stripZeros, htext]
    split
    · next h =>
      rw [h, List.rdropWhile_concat_pos _ _ _ (by decide), ih]
    · next h =>
      have hne : ¬ ((u % 10).digitChar == '0') = true := by
        have hlt : u % 10 < 10 := Nat.mod_lt u (by omega)
        interval_cases u % 10 <;> first | exact absurd rfl h | decide
      rw [List.rdropWhile_concat_neg (· == '0') _ _ hne, htext]

/-- The trimmed text of a number: the text of the stripped number, without a
point when no fraction is left. -/
theorem trimText_pointText (u w : ℕ) :
    trimText (pointText u w) =
      if (stripZeros u w).2 = 0 then Nat.toDigits 10 (stripZeros u w).1
      else pointText (stripZeros u w).1 (stripZeros u w).2 := by
  rw [trimText, rdropWhile_zero_pointText]
  obtain ⟨m, s⟩ := stripZeros u w
  cases s with
  | zero =>
    rw [if_pos rfl, pointText, fixedDigits_zero, pow_zero, Nat.div_one,
      List.rdropWhile_concat_pos _ _ _ (by decide), List.rdropWhile_eq_self_iff]
    intro hne
    rw [Bool.not_eq_true]
    exact ne_point_of_isDigit (isDigit_of_mem_toDigits_ten (List.getLast_mem hne))
  | succ s =>
    have hne : ¬ ((m % 10).digitChar == '.') = true := by
      rw [Bool.not_eq_true]
      exact ne_point_of_isDigit (isDigit_digitChar_mod m)
    rw [if_neg (Nat.succ_ne_zero s), pointText, fixedDigits_succ, ← List.cons_append,
      ← List.append_assoc, List.rdropWhile_concat_neg (· == '.') _ _ hne]

/-! ## What a text denotes -/

/-- The text is a plain decimal literal, digits with at most one inner point,
and its exact value is `v`. -/
def Denotes (text : List Char) (v : ℚ) : Prop :=
  ∃ int frac : List Char, int ≠ [] ∧ (∀ c ∈ int ++ frac, c.isDigit = true) ∧
    text = int ++ (if frac = [] then [] else '.' :: frac) ∧
    v = (Nat.ofDigitChars 10 (int ++ frac) 0 : ℚ) / 10 ^ frac.length

/-- The text with `w` fraction digits denotes `u` units of `10 ^ -w`. -/
theorem denotes_pointText {u w : ℕ} (hw : w ≠ 0) :
    Denotes (pointText u w) ((u : ℚ) / 10 ^ w) := by
  have hne : fixedDigits w u ≠ [] := by
    intro h
    have := congrArg List.length h
    rw [length_fixedDigits, List.length_nil] at this
    exact hw this
  refine ⟨Nat.toDigits 10 (u / 10 ^ w), fixedDigits w u, Nat.toDigits_ne_nil, ?_, ?_, ?_⟩
  · intro c hc
    rcases List.mem_append.mp hc with hc | hc
    · exact isDigit_of_mem_toDigits_ten hc
    · exact isDigit_of_mem_fixedDigits hc
  · rw [if_neg hne, pointText]
  · rw [Nat.ofDigitChars_append, Nat.ofDigitChars_ten_toDigits, ofDigitChars_fixedDigits,
      length_fixedDigits, Nat.div_add_mod']

theorem denotes_toDigits (n : ℕ) : Denotes (Nat.toDigits 10 n) n := by
  refine ⟨Nat.toDigits 10 n, [], Nat.toDigits_ne_nil, ?_, ?_, ?_⟩
  · intro c hc
    rw [List.append_nil] at hc
    exact isDigit_of_mem_toDigits_ten hc
  · simp
  · simp

/-- The trimmed text denotes the same number. -/
theorem denotes_trimText_pointText (u w : ℕ) :
    Denotes (trimText (pointText u w)) ((u : ℚ) / 10 ^ w) := by
  have hval : (u : ℚ) / 10 ^ w =
      ((stripZeros u w).1 : ℚ) / 10 ^ (stripZeros u w).2 := by
    have hle := stripZeros_scale_le u w
    have hmul := stripZeros_mul u w
    rw [div_eq_div_iff (by positivity) (by positivity)]
    have hpow : (10 : ℚ) ^ w = 10 ^ (w - (stripZeros u w).2) * 10 ^ (stripZeros u w).2 := by
      rw [← pow_add, Nat.sub_add_cancel hle]
    have hu : (u : ℚ) = ((stripZeros u w).1 : ℚ) * 10 ^ (w - (stripZeros u w).2) := by
      exact_mod_cast hmul.symm
    rw [hpow, hu]
    ring
  rw [trimText_pointText, hval]
  split
  · next h =>
    rw [h, pow_zero, div_one]
    exact denotes_toDigits _
  · next h => exact denotes_pointText h

end DigitText
end Foundation
