import CexEngine.Foundation.DigitText

/-!
# Decimal literals

A literal is an optional sign, digits and at most one point.  Digits may be grouped with
underscores, after the first digit.  `Literal` holds the parts of a literal, `text` writes them
down and `value` is the number that is meant.

A literal with a point may be written without the zeros at the end of its fraction, and without
the point when no fraction is left (`normal`).  This changes the text and not the value
(`value_normal`), and it is what `trimText` does to a text with one point
(`trimText_point`, `trimText_text`).  On a text with more than one point `trimText` does more:
`exists_eq_trimText_append` and `trimText_eq_of_append` say what it drops.
-/

namespace Foundation

open DigitText

inductive Sign where
  | unsigned
  | plus
  | minus
  deriving DecidableEq

namespace Sign

def text : Sign → List Char
  | unsigned => []
  | plus => ['+']
  | minus => ['-']

def negative : Sign → Bool
  | minus => true
  | _ => false

theorem point_notMem_text (sign : Sign) : '.' ∉ sign.text := by
  cases sign <;> decide

end Sign

/-- A text ends in the characters that are dropped from its end. -/
theorem DigitText.exists_eq_rdropWhile_append (text : List Char) (c : Char) :
    ∃ k, text = text.rdropWhile (· == c) ++ List.replicate k c := by
  refine ⟨(text.rtakeWhile (· == c)).length, ?_⟩
  have hsame : text.rtakeWhile (· == c) =
      List.replicate (text.rtakeWhile (· == c)).length c := by
    refine List.eq_replicate_of_mem fun x hx => ?_
    have hdropped := List.mem_rtakeWhile_imp hx
    exact beq_iff_eq.mp hdropped
  rw [← hsame, List.rdropWhile_append_rtakeWhile]

/-- A digit, or an underscore between digits. -/
def IsGrouped (c : Char) : Prop := c.isDigit = true ∨ c = '_'

theorem IsGrouped.ne_point {c : Char} (h : IsGrouped c) : c ≠ '.' := by
  rintro rfl
  rcases h with h | h
  · exact absurd h (by decide)
  · exact absurd h (by decide)

/-- The parts of a literal. -/
structure Literal where
  sign : Sign
  whole : List Char
  fraction : Option (List Char)

namespace Literal

/-- The digits on both sides of the point. -/
def digits (l : Literal) : List Char := l.whole ++ l.fraction.getD []

def text (l : Literal) : List Char :=
  l.sign.text ++ l.whole ++
    match l.fraction with
    | none => []
    | some fraction => '.' :: fraction

/-- There is a digit, and underscores only come after one. -/
structure Valid (l : Literal) : Prop where
  grouped : ∀ c ∈ l.digits, IsGrouped c
  first : ∃ c rest, l.digits = c :: rest ∧ c.isDigit = true

def mantissa (l : Literal) : ℕ := Nat.ofDigitChars 10 (l.digits.filter Char.isDigit) 0

def scale (l : Literal) : ℕ := ((l.fraction.getD []).filter Char.isDigit).length

/-- The number that is meant. -/
def value (l : Literal) : ℚ := (if l.sign.negative then -1 else 1) * l.mantissa / 10 ^ l.scale

/-- Without the zeros at the end of the fraction. -/
def normal (l : Literal) : Literal :=
  match l.fraction with
  | none => l
  | some fraction =>
    match fraction.rdropWhile (· == '0') with
    | [] => { l with fraction := none }
    | c :: rest => { l with fraction := some (c :: rest) }

theorem normal_of_none {l : Literal} (h : l.fraction = none) : l.normal = l := by
  unfold normal
  rw [h]

theorem fraction_normal {l : Literal} {fraction : List Char} (h : l.fraction = some fraction) :
    l.normal.fraction.getD [] = fraction.rdropWhile (· == '0') := by
  unfold normal
  rw [h]
  cases hdrop : fraction.rdropWhile (· == '0') with
  | nil => simp [hdrop]
  | cons c rest => simp [hdrop]

@[simp] theorem sign_normal (l : Literal) : l.normal.sign = l.sign := by
  unfold normal
  split
  · rfl
  · split <;> rfl

@[simp] theorem whole_normal (l : Literal) : l.normal.whole = l.whole := by
  unfold normal
  split
  · rfl
  · split <;> rfl

/-- **The zeros that are dropped do not count.** -/
theorem value_normal (l : Literal) : l.normal.value = l.value := by
  cases hfraction : l.fraction with
  | none => rw [normal_of_none hfraction]
  | some fraction =>
    obtain ⟨k, hk⟩ := exists_eq_rdropWhile_append fraction '0'
    have hfilter : (List.replicate k '0').filter Char.isDigit = List.replicate k '0' := by
      rw [List.filter_eq_self]
      intro c hc
      rw [List.eq_of_mem_replicate hc]
      decide
    have hgetD : l.fraction.getD [] = l.normal.fraction.getD [] ++ List.replicate k '0' := by
      rw [fraction_normal hfraction, ← hk, hfraction, Option.getD_some]
    have hmantissa : l.mantissa = 10 ^ k * l.normal.mantissa := by
      rw [mantissa, digits, hgetD, ← List.append_assoc, List.filter_append, hfilter,
        Nat.ofDigitChars_append, Nat.ofDigitChars_replicate_zero, mantissa, digits, whole_normal]
    have hscale : l.scale = l.normal.scale + k := by
      rw [scale, hgetD, List.filter_append, hfilter, List.length_append, List.length_replicate,
        scale]
    rw [value, value, hmantissa, hscale, pow_add, sign_normal]
    push_cast
    field_simp

theorem digits_normal_le (l : Literal) : l.normal.digits <+: l.digits := by
  rw [digits, digits, whole_normal]
  cases hfraction : l.fraction with
  | none => rw [normal_of_none hfraction, hfraction]
  | some fraction =>
    rw [fraction_normal hfraction, Option.getD_some]
    exact List.prefix_append_right_inj _ |>.mpr ( List.rdropWhile_prefix _ _)

/-- The normal form of a literal is one, unless it has lost all digits. -/
theorem Valid.normal {l : Literal} (h : l.Valid) : l.normal.Valid ∨ l.normal.digits = [] := by
  have hle := l.digits_normal_le
  cases hdigits : l.normal.digits with
  | nil => exact .inr rfl
  | cons c rest =>
    rw [hdigits] at hle
    obtain ⟨c', rest', hfirst, hdigit⟩ := h.first
    rw [hfirst, List.cons_prefix_cons] at hle
    refine .inl ⟨fun x hx => h.grouped x (l.digits_normal_le.subset hx), c, rest, hdigits, ?_⟩
    rw [hle.1]
    exact hdigit

/-- A literal may be written with more zeros. -/
theorem valid_of_normal {l : Literal} (h : l.normal.Valid) : l.Valid := by
  refine ⟨fun c hc => ?_, ?_⟩
  · rcases List.mem_append.mp hc with hc | hc
    · exact h.grouped c (List.mem_append_left _ (by rwa [whole_normal]))
    · cases hfraction : l.fraction with
      | none =>
        rw [hfraction] at hc
        cases hc
      | some fraction =>
        obtain ⟨k, hk⟩ := exists_eq_rdropWhile_append fraction '0'
        rw [hfraction, Option.getD_some, hk, ← fraction_normal hfraction, List.mem_append] at hc
        rcases hc with hc | hc
        · exact h.grouped c (List.mem_append_right _ hc)
        · rw [List.eq_of_mem_replicate hc]
          exact .inl (by decide)
  · obtain ⟨c, rest, hfirst, hdigit⟩ := h.first
    obtain ⟨tail, htail⟩ := l.digits_normal_le
    rw [hfirst] at htail
    exact ⟨c, rest ++ tail, htail.symm, hdigit⟩

/-! ## Plain literals -/

/-- Digits, and a point if there is a fraction. -/
def plain (whole fraction : List Char) : Literal :=
  ⟨.unsigned, whole, if fraction = [] then none else some fraction⟩

section Plain

variable {whole fraction : List Char}

theorem getD_fraction_plain : (plain whole fraction).fraction.getD [] = fraction := by
  by_cases h : fraction = []
  · rw [plain, if_pos h, Option.getD_none, h]
  · rw [plain, if_neg h, Option.getD_some]

theorem digits_plain : (plain whole fraction).digits = whole ++ fraction := by
  rw [digits, getD_fraction_plain]
  rfl

theorem text_plain : (plain whole fraction).text =
    whole ++ (if fraction = [] then [] else '.' :: fraction) := by
  by_cases h : fraction = []
  · simp only [text, plain, if_pos h, Sign.text, List.nil_append]
  · simp only [text, plain, if_neg h, Sign.text, List.nil_append]

theorem valid_plain (hne : whole ≠ []) (h : ∀ c ∈ whole ++ fraction, c.isDigit = true) :
    (plain whole fraction).Valid := by
  rw [← digits_plain] at h
  obtain ⟨c, rest, rfl⟩ := List.exists_cons_of_ne_nil hne
  refine ⟨fun x hx => .inl (h x hx), c, rest ++ fraction, digits_plain, h c ?_⟩
  rw [digits_plain]
  exact List.mem_cons_self ..

theorem value_plain (h : ∀ c ∈ whole ++ fraction, c.isDigit = true) :
    (plain whole fraction).value =
      (Nat.ofDigitChars 10 (whole ++ fraction) 0 : ℚ) / 10 ^ fraction.length := by
  have hall : (whole ++ fraction).filter Char.isDigit = whole ++ fraction :=
    List.filter_eq_self.mpr h
  have hfraction : fraction.filter Char.isDigit = fraction :=
    List.filter_eq_self.mpr fun c hc => h c (List.mem_append_right _ hc)
  have hsign : (plain whole fraction).sign.negative = false := rfl
  rw [value, mantissa, scale, digits_plain, getD_fraction_plain, hall, hfraction, hsign,
    if_neg Bool.false_ne_true, one_mul]

end Plain

/-! ## Points -/

section Points

variable {l : Literal}

theorem point_notMem_whole (h : ∀ c ∈ l.digits, IsGrouped c) : '.' ∉ l.sign.text ++ l.whole := by
  rw [List.mem_append, not_or]
  exact ⟨l.sign.point_notMem_text, fun hmem =>
    (h _ (List.mem_append_left _ hmem)).ne_point rfl⟩

theorem point_notMem_fraction (h : ∀ c ∈ l.digits, IsGrouped c) : '.' ∉ l.fraction.getD [] :=
  fun hmem => (h _ (List.mem_append_right _ hmem)).ne_point rfl

theorem text_of_none (h : l.fraction = none) : l.text = l.sign.text ++ l.whole := by
  rw [text, h, List.append_nil]

theorem text_of_some {fraction : List Char} (h : l.fraction = some fraction) :
    l.text = l.sign.text ++ l.whole ++ '.' :: fraction := by
  rw [text, h]

/-- The digits of a text are those of the literal. -/
theorem mem_digits_iff {c : Char} (hc : c.isDigit = true) : c ∈ l.digits ↔ c ∈ l.text := by
  have hsign : c ∉ l.sign.text := by
    intro hmem
    cases hs : l.sign with
    | unsigned =>
      rw [hs] at hmem
      cases hmem
    | plus =>
      rw [hs] at hmem
      obtain rfl := List.mem_singleton.mp hmem
      exact absurd hc (by decide)
    | minus =>
      rw [hs] at hmem
      obtain rfl := List.mem_singleton.mp hmem
      exact absurd hc (by decide)
  have hpoint : c ≠ '.' := IsGrouped.ne_point (.inl hc)
  cases hfraction : l.fraction with
  | none => simp [digits, text_of_none hfraction, hfraction, hsign]
  | some fraction => simp [digits, text_of_some hfraction, hfraction, hsign, hpoint]

/-- A literal has at most one point. -/
theorem count_point_text (h : ∀ c ∈ l.digits, IsGrouped c) : l.text.count '.' ≤ 1 := by
  have hwhole := List.count_eq_zero.mpr (point_notMem_whole h)
  cases hfraction : l.fraction with
  | none =>
    rw [text_of_none hfraction, hwhole]
    exact Nat.zero_le 1
  | some fraction =>
    have hnot := point_notMem_fraction h
    rw [hfraction, Option.getD_some] at hnot
    rw [text_of_some hfraction, List.count_append, hwhole, List.count_cons_self,
      List.count_eq_zero.mpr hnot]

theorem point_mem_text_iff (h : ∀ c ∈ l.digits, IsGrouped c) :
    '.' ∈ l.text ↔ l.fraction ≠ none := by
  cases hfraction : l.fraction with
  | none =>
    rw [text_of_none hfraction]
    exact iff_of_false (point_notMem_whole h) (not_not.mpr rfl)
  | some fraction =>
    rw [text_of_some hfraction]
    exact iff_of_true (List.mem_append_right _ (List.mem_cons_self ..)) (Option.some_ne_none _)

end Points

end Literal

/-! ## Trimming -/

namespace DigitText

theorem rdropWhile_of_notMem {text : List Char} (h : '.' ∉ text) :
    text.rdropWhile (· == '.') = text := by
  rw [List.rdropWhile_eq_self_iff]
  intro hne hlast
  exact h (beq_iff_eq.mp hlast ▸ List.getLast_mem hne)

theorem rdropWhile_append_replicate {p : Char → Bool} (text : List Char) (n : ℕ) {c : Char}
    (hc : p c = true) : (text ++ List.replicate n c).rdropWhile p = text.rdropWhile p := by
  induction n with
  | zero => rw [List.replicate_zero, List.append_nil]
  | succ n ih =>
    rw [List.replicate_succ', ← List.append_assoc, List.rdropWhile_concat_pos _ _ _ hc, ih]

/-- **Trimming a text with one point.** -/
theorem trimText_point {whole fraction : List Char} (hwhole : '.' ∉ whole)
    (hfraction : '.' ∉ fraction) :
    trimText (whole ++ '.' :: fraction) = whole ++
      match fraction.rdropWhile (· == '0') with
      | [] => []
      | c :: rest => '.' :: c :: rest := by
  obtain ⟨k, hk⟩ := exists_eq_rdropWhile_append fraction '0'
  have hzeros : (whole ++ '.' :: fraction).rdropWhile (· == '0') =
      whole ++ '.' :: fraction.rdropWhile (· == '0') := by
    nth_rewrite 1 [hk]
    rw [← List.cons_append, ← List.append_assoc, rdropWhile_append_replicate _ _ rfl,
      List.rdropWhile_eq_self_iff]
    intro hne
    rw [List.getLast_append_of_ne_nil _ (List.cons_ne_nil _ _)]
    by_cases hnil : fraction.rdropWhile (· == '0') = []
    · simp [hnil]
    · rw [List.getLast_cons hnil]
      exact List.rdropWhile_last_not _ _ hnil
  rw [trimText, hzeros]
  cases hdrop : fraction.rdropWhile (· == '0') with
  | nil =>
    rw [List.rdropWhile_concat_pos _ _ _ rfl, rdropWhile_of_notMem hwhole, List.append_nil]
  | cons c rest =>
    rw [List.rdropWhile_eq_self_iff]
    intro hne hlast
    rw [List.getLast_append_of_ne_nil _ (List.cons_ne_nil _ _),
      List.getLast_cons (List.cons_ne_nil _ _), beq_iff_eq] at hlast
    have hmem : '.' ∈ fraction.rdropWhile (· == '0') := by
      rw [hdrop, ← hlast]
      exact List.getLast_mem _
    exact hfraction (( List.rdropWhile_prefix _ _).subset hmem)

/-- What is dropped: zeros, and points before them. -/
theorem exists_eq_trimText_append (text : List Char) :
    ∃ n m, text = trimText text ++ List.replicate n '.' ++ List.replicate m '0' := by
  obtain ⟨m, hm⟩ := exists_eq_rdropWhile_append text '0'
  obtain ⟨n, hn⟩ := exists_eq_rdropWhile_append (text.rdropWhile (· == '0')) '.'
  refine ⟨n, m, ?_⟩
  rw [trimText, ← hn]
  exact hm

theorem getLast?_trimText (text : List Char) : (trimText text).getLast? ≠ some '.' := by
  intro hlast
  have hne : trimText text ≠ [] := by
    intro hnil
    rw [hnil] at hlast
    cases hlast
  rw [List.getLast?_eq_some_getLast hne, Option.some_inj] at hlast
  exact List.rdropWhile_last_not _ _ hne (beq_iff_eq.mpr hlast)

/-- All points before the zeros are dropped. -/
theorem trimText_eq_of_append {text : List Char} {n m : ℕ} (hn : 0 < n)
    (hlast : text.getLast? ≠ some '.') :
    trimText (text ++ List.replicate n '.' ++ List.replicate m '0') = text := by
  obtain ⟨n, rfl⟩ := Nat.exists_eq_succ_of_ne_zero hn.ne'
  have hpoints : (text ++ List.replicate (n + 1) '.').rdropWhile (· == '0') =
      text ++ List.replicate (n + 1) '.' := by
    rw [List.replicate_succ', ← List.append_assoc,
      List.rdropWhile_concat_neg (· == '0') _ _ (by decide)]
  rw [trimText, rdropWhile_append_replicate _ _ rfl, hpoints, rdropWhile_append_replicate _ _ rfl,
    List.rdropWhile_eq_self_iff]
  intro hne hpoint
  rw [List.getLast?_eq_some_getLast hne, beq_iff_eq.mp hpoint] at hlast
  exact hlast rfl

end DigitText

/-- Trimming the text of a literal with a point writes its normal form. -/
theorem Literal.trimText_text {l : Literal} (h : ∀ c ∈ l.digits, IsGrouped c)
    (hfraction : l.fraction ≠ none) : trimText l.text = l.normal.text := by
  obtain ⟨fraction, hsome⟩ := Option.ne_none_iff_exists'.mp hfraction
  have hnot := point_notMem_fraction h
  rw [hsome, Option.getD_some] at hnot
  rw [text_of_some hsome, trimText_point (point_notMem_whole h) hnot, normal, hsome]
  cases hdrop : fraction.rdropWhile (· == '0') with
  | nil => simp only [hdrop, text]
  | cons c rest => simp only [hdrop, text]

end Foundation
