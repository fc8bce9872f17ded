import CexEngine.Amount.Exact
import CexEngine.Foundation.Literal
import CexEngine.Runtime.Store

/-!
# Reading amounts from text

`deserialize_exact_optional_decimal` of `models/order.rs` reads the amounts of a request, and
`parse` of `exact_decimal.rs` (`Startup.readDecimal`) those of a database row.  Both drop the
zeros at the end of a text with a point, and the points before them, and give the rest to the
exact parser.

* `Decimal.fromStrExact_text`, `Decimal.exists_literal`: the exact parser accepts literals only,
  and returns their value.
* `ExactAt accepts text`: what a reader owes for one text.  It accepts nothing but a literal,
  with the value that is meant, and every literal whose normal form the exact parser accepts.
* `Overpointed`: a literal that is followed by points and zeros, with more than one point in all.
  `exactAt_iff` says that these are the texts for which the readers do not do this.
-/

namespace CexEngine

open Foundation DigitText

namespace Decimal

/-! ## The exact parser -/

/-- Scanning grouped digits.  An underscore needs a digit before it. -/
theorem scan_grouped (negative point has : Bool) (data scale : ℕ) {digits : List Char}
    (rest : List Char) (hgrouped : ∀ c ∈ digits, IsGrouped c)
    (hfirst : has = true ∨ ∀ c ∈ digits.head?, c.isDigit = true) :
    scan negative point has data scale (digits ++ rest) =
      scan negative point (has || !digits.isEmpty)
        (Nat.ofDigitChars 10 (digits.filter Char.isDigit) data)
        (if point then scale + (digits.filter Char.isDigit).length else scale) rest := by
  induction digits generalizing has data scale with
  | nil => simp
  | cons c digits ih =>
    have htail : ∀ x ∈ digits, IsGrouped x := fun x hx => hgrouped x (List.mem_cons_of_mem _ hx)
    rw [List.cons_append, scan]
    by_cases hdigit : c.isDigit = true
    · rw [if_pos hdigit, ih _ _ _ htail (.inl rfl), List.filter_cons_of_pos hdigit,
        Nat.ofDigitChars_cons]
      cases point <;> simp [Nat.add_assoc, Nat.add_comm 1]
    · have hunderscore : c = '_' := (hgrouped c (List.mem_cons_self ..)).resolve_left hdigit
      have hhas : has = true := hfirst.resolve_right fun h => hdigit (h c rfl)
      rw [if_neg hdigit, hunderscore, if_neg (by simp), if_pos ⟨rfl, hhas⟩, hhas,
        ih _ _ _ htail (.inl rfl), List.filter_cons_of_neg (by decide)]
      simp

/-- A text without a sign. -/
theorem fromStrExact_unsigned {text : List Char} (hminus : text.head? ≠ some '-')
    (hplus : text.head? ≠ some '+') : fromStrExact text = scan false false false 0 0 text := by
  unfold fromStrExact
  split
  · exact absurd rfl hminus
  · exact absurd rfl hplus
  · rfl

/-- The sign is read first. -/
theorem fromStrExact_sign (sign : Sign) {body : List Char} (hminus : body.head? ≠ some '-')
    (hplus : body.head? ≠ some '+') :
    fromStrExact (sign.text ++ body) = scan sign.negative false false 0 0 body := by
  cases sign with
  | unsigned => exact fromStrExact_unsigned hminus hplus
  | plus => rfl
  | minus => rfl

theorem head?_grouped {text : List Char} (hgrouped : ∀ c ∈ text, IsGrouped c) (rest : List Char) :
    (text ++ '.' :: rest).head? ≠ some '-' ∧ (text ++ '.' :: rest).head? ≠ some '+' ∧
      text.head? ≠ some '-' ∧ text.head? ≠ some '+' := by
  cases text with
  | nil => exact ⟨by simp, by simp, by simp, by simp⟩
  | cons c text =>
    have hc := hgrouped c (List.mem_cons_self ..)
    have hminus : c ≠ '-' := by
      rintro rfl
      rcases hc with h | h <;> exact absurd h (by decide)
    have hplus : c ≠ '+' := by
      rintro rfl
      rcases hc with h | h <;> exact absurd h (by decide)
    simp [hminus, hplus]

/-- **A literal is read as it is meant**, if its parts fit. -/
theorem fromStrExact_text {l : Literal} (h : l.Valid) :
    fromStrExact l.text = fromParts l.sign.negative l.mantissa l.scale := by
  obtain ⟨c, tail, hfirst, hdigit⟩ := h.first
  have hwhole : ∀ x ∈ l.whole, IsGrouped x := fun x hx =>
    h.grouped x (List.mem_append_left _ hx)
  have hhead : ∀ x ∈ l.whole.head?, x.isDigit = true := by
    intro x hx
    cases hl : l.whole with
    | nil =>
      rw [hl] at hx
      cases hx
    | cons y ys =>
      rw [hl] at hx
      rw [Literal.digits, hl, List.cons_append] at hfirst
      cases hx
      rw [(List.cons.inj hfirst).1]
      exact hdigit
  cases hfraction : l.fraction with
  | none =>
    have hdigits : l.digits = l.whole := by
      rw [Literal.digits, hfraction, Option.getD_none, List.append_nil]
    obtain ⟨-, -, hminus, hplus⟩ := head?_grouped hwhole []
    have hscan := scan_grouped l.sign.negative false false 0 0 [] hwhole (.inr hhead)
    rw [List.append_nil] at hscan
    have hne : (!l.whole.isEmpty) = true := by
      rw [← hdigits, hfirst]
      rfl
    rw [Literal.text_of_none hfraction, fromStrExact_sign l.sign hminus hplus, hscan, hne, scan,
      Literal.mantissa, Literal.scale, hdigits, hfraction]
    rfl
  | some fraction =>
    have hdigits : l.digits = l.whole ++ fraction := by
      rw [Literal.digits, hfraction, Option.getD_some]
    have hgrouped : ∀ x ∈ fraction, IsGrouped x := fun x hx =>
      h.grouped x (by rw [hdigits]; exact List.mem_append_right _ hx)
    obtain ⟨hminus, hplus, -, -⟩ := head?_grouped hwhole fraction
    have hscan := scan_grouped l.sign.negative false false 0 0 ('.' :: fraction) hwhole (.inr hhead)
    have hhas : (false || !l.whole.isEmpty) = true ∨ ∀ x ∈ fraction.head?, x.isDigit = true := by
      cases hl : l.whole with
      | nil =>
        refine .inr fun x hx => ?_
        rw [hdigits, hl, List.nil_append] at hfirst
        rw [hfirst] at hx
        cases hx
        exact hdigit
      | cons y ys => exact .inl rfl
    have hscan' := scan_grouped l.sign.negative true (false || !l.whole.isEmpty)
      (Nat.ofDigitChars 10 (l.whole.filter Char.isDigit) 0) 0 [] hgrouped hhas
    rw [List.append_nil] at hscan'
    have hne : (false || !l.whole.isEmpty || !fraction.isEmpty) = true := by
      cases hl : l.whole with
      | nil =>
        rw [hdigits, hl, List.nil_append] at hfirst
        rw [hfirst]
        rfl
      | cons y ys => rfl
    rw [Literal.text_of_some hfraction, List.append_assoc, fromStrExact_sign l.sign hminus hplus,
      hscan, scan, if_neg (by decide), if_pos ⟨rfl, rfl⟩]
    rw [if_neg Bool.false_ne_true, hscan', hne, scan, if_pos rfl, if_pos rfl, Literal.mantissa,
      Literal.scale, hdigits, hfraction, List.filter_append, Nat.ofDigitChars_append,
      Nat.zero_add]
    rfl

/-- Behind the point only digits are accepted, and there has to be one. -/
theorem scan_point_some {negative has : Bool} {data scale : ℕ} {text : List Char} {d : Decimal}
    (h : scan negative true has data scale text = some d) :
    (∀ c ∈ text, IsGrouped c) ∧
      (has = false → ∃ c rest, text = c :: rest ∧ c.isDigit = true) := by
  induction text generalizing has data scale with
  | nil =>
    refine ⟨fun c hc => absurd hc List.not_mem_nil, fun hhas => ?_⟩
    rw [scan, hhas] at h
    cases h
  | cons c text ih =>
    rw [scan] at h
    split at h
    · next hdigit =>
      exact ⟨List.forall_mem_cons.mpr ⟨.inl hdigit, (ih h).1⟩, fun _ => ⟨c, text, rfl, hdigit⟩⟩
    · split at h
      · next hpoint => cases hpoint.2
      · split at h
        · next hunderscore =>
          refine ⟨List.forall_mem_cons.mpr ⟨.inr hunderscore.1, (ih h).1⟩, fun hhas => ?_⟩
          rw [hhas] at hunderscore
          cases hunderscore.2
        · cases h

/-- What is accepted before the point and behind it. -/
theorem scan_some {negative has : Bool} {data scale : ℕ} {text : List Char} {d : Decimal}
    (h : scan negative false has data scale text = some d) :
    ∃ whole fraction, text = (Literal.mk .unsigned whole fraction).text ∧
      (∀ c ∈ whole ++ fraction.getD [], IsGrouped c) ∧
      (has = false → ∃ c rest, whole ++ fraction.getD [] = c :: rest ∧ c.isDigit = true) := by
  induction text generalizing has data scale with
  | nil =>
    refine ⟨[], none, rfl, fun c hc => absurd hc List.not_mem_nil, fun hhas => ?_⟩
    rw [scan, hhas] at h
    cases h
  | cons c text ih =>
    rw [scan] at h
    split at h
    · next hdigit =>
      obtain ⟨whole, fraction, rfl, hgrouped, -⟩ := ih h
      exact ⟨c :: whole, fraction, rfl, List.forall_mem_cons.mpr ⟨.inl hdigit, hgrouped⟩,
        fun _ => ⟨c, _, rfl, hdigit⟩⟩
    · split at h
      · next hpoint =>
        obtain ⟨hgrouped, hfirst⟩ := scan_point_some h
        exact ⟨[], some text, by rw [hpoint.1]; rfl, hgrouped, hfirst⟩
      · split at h
        · next hunderscore =>
          obtain ⟨whole, fraction, rfl, hgrouped, -⟩ := ih h
          refine ⟨c :: whole, fraction, rfl,
            List.forall_mem_cons.mpr ⟨.inr hunderscore.1, hgrouped⟩, fun hhas => ?_⟩
          rw [hhas] at hunderscore
          cases hunderscore.2
        · cases h

/-- **Only literals are accepted.** -/
theorem exists_literal {text : List Char} {d : Decimal} (h : fromStrExact text = some d) :
    ∃ l : Literal, l.Valid ∧ l.text = text := by
  unfold fromStrExact at h
  split at h
  · obtain ⟨whole, fraction, rfl, hgrouped, hfirst⟩ := scan_some h
    exact ⟨⟨.minus, whole, fraction⟩, ⟨hgrouped, hfirst rfl⟩, rfl⟩
  · obtain ⟨whole, fraction, rfl, hgrouped, hfirst⟩ := scan_some h
    exact ⟨⟨.plus, whole, fraction⟩, ⟨hgrouped, hfirst rfl⟩, rfl⟩
  · obtain ⟨whole, fraction, rfl, hgrouped, hfirst⟩ := scan_some h
    exact ⟨⟨.unsigned, whole, fraction⟩, ⟨hgrouped, hfirst rfl⟩, rfl⟩

theorem toRat_fromParts {negative : Bool} {mantissa scale : ℕ} {d : Decimal}
    (h : fromParts negative mantissa scale = some d) :
    d.toRat = (if negative then -1 else 1) * mantissa / 10 ^ scale := by
  unfold fromParts at h
  split at h
  · cases h
    rw [toRat, signedMantissa]
    by_cases hzero : mantissa = 0
    · simp [hzero]
    · cases negative <;> simp [hzero]
  · cases h

/-- **The value of a literal.** -/
theorem toRat_fromStrExact {l : Literal} (h : l.Valid) {d : Decimal}
    (hd : fromStrExact l.text = some d) : d.toRat = l.value := by
  rw [fromStrExact_text h] at hd
  exact toRat_fromParts hd

end Decimal

/-! ## The readers -/

/-- What the exact parser is given. -/
def normalizedText (value : List Char) : List Char :=
  if value.contains '.' then trimText value else value

/-- Read an amount of a request.  A missing amount is `none`. -/
def deserializeExactOptionalDecimal (value : Option String) : Option (Option Decimal) :=
  match value with
  | none => some none
  | some value =>
    match Decimal.fromStrExact (normalizedText value.toList) with
    | some amount => some (some amount)
    | none => none

theorem deserialize_eq_some_iff {text : String} {d : Decimal} :
    deserializeExactOptionalDecimal (some text) = some (some d) ↔
      Decimal.fromStrExact (normalizedText text.toList) = some d := by
  rw [deserializeExactOptionalDecimal]
  split
  · next heq => simp [heq]
  · next heq => simp [heq]

theorem readDecimal_eq_ok_iff {text column : String} {d : Decimal} :
    Startup.readDecimal text column = .ok d ↔
      Decimal.fromStrExact (normalizedText text.toList) = some d := by
  rw [Startup.readDecimal, orErr_eq_ok]
  rfl

/-- What a reader owes for a text: it accepts a literal only, with the value that is meant, and
every literal whose normal form the exact parser accepts. -/
def ExactAt (accepts : String → Decimal → Prop) (text : String) : Prop :=
  (∀ d, accepts text d → ∃ l : Literal, l.Valid ∧ l.text = text.toList ∧ d.toRat = l.value) ∧
    ∀ (l : Literal) (d : Decimal), l.Valid → l.text = text.toList →
      Decimal.fromStrExact l.normal.text = some d → accepts text d ∧ d.toRat = l.value

/-- Points and zeros follow a literal that the exact parser accepts, and the text has more than
one point. -/
def Overpointed (text : List Char) : Prop :=
  2 ≤ text.count '.' ∧ ∃ (literal : List Char) (n m : ℕ), 0 < n ∧ literal.getLast? ≠ some '.' ∧
    text = literal ++ List.replicate n '.' ++ List.replicate m '0' ∧
    (Decimal.fromStrExact literal).isSome

/-- A text with one point that is accepted is a literal: it is one without the zeros. -/
theorem exists_literal_of_point {whole fraction : List Char} (hwhole : '.' ∉ whole)
    (hfraction : '.' ∉ fraction) {d : Decimal}
    (h : Decimal.fromStrExact (trimText (whole ++ '.' :: fraction)) = some d) :
    ∃ l : Literal, l.Valid ∧ l.text = whole ++ '.' :: fraction ∧ d.toRat = l.value := by
  obtain ⟨l, hvalid, htext⟩ := Decimal.exists_literal h
  rw [← htext] at h
  have hvalue := Decimal.toRat_fromStrExact hvalid h
  rw [trimText_point hwhole hfraction] at htext
  -- the literal with the whole fraction has the accepted one as its normal form
  have hmore : ∀ (hparts : l.sign.text ++ l.whole = whole)
      (hnormal : ({ l with fraction := some fraction } : Literal).normal = l),
      ∃ l : Literal, l.Valid ∧ l.text = whole ++ '.' :: fraction ∧ d.toRat = l.value := by
    intro hparts hnormal
    refine ⟨{ l with fraction := some fraction }, ?_, ?_, ?_⟩
    · exact Literal.valid_of_normal (by rwa [hnormal])
    · rw [Literal.text, ← hparts]
    · rw [hvalue, ← Literal.value_normal { l with fraction := some fraction }, hnormal]
  cases hdrop : fraction.rdropWhile (· == '0') with
  | nil =>
    simp only [hdrop, List.append_nil] at htext
    have hnone : l.fraction = none := by
      by_contra hne
      rw [← htext] at hwhole
      exact hwhole ((Literal.point_mem_text_iff hvalid.grouped).mpr hne)
    refine hmore ((Literal.text_of_none hnone).symm.trans htext) ?_
    simp only [Literal.normal, hdrop, ← hnone]
  | cons c rest =>
    simp only [hdrop] at htext
    have hpoint : '.' ∈ l.text := by
      rw [htext]
      exact List.mem_append_right _ (List.mem_cons_self ..)
    obtain ⟨kept, hkept⟩ := Option.ne_none_iff_exists'.mp
      ((Literal.point_mem_text_iff hvalid.grouped).mp hpoint)
    have hnot := Literal.point_notMem_fraction hvalid.grouped
    rw [hkept, Option.getD_some] at hnot
    rw [Literal.text_of_some hkept, List.append_cons_inj_of_notMem
      (Literal.point_notMem_whole hvalid.grouped) hnot] at htext
    obtain ⟨hparts, -, rfl⟩ := htext
    refine hmore hparts ?_
    simp only [Literal.normal, hdrop, ← hkept]

/-- A text with at most one point is read exactly. -/
theorem exists_literal_of_count {text : List Char} (hcount : text.count '.' ≤ 1) {d : Decimal}
    (h : Decimal.fromStrExact (normalizedText text) = some d) :
    ∃ l : Literal, l.Valid ∧ l.text = text ∧ d.toRat = l.value := by
  unfold normalizedText at h
  split at h
  · next hcontains =>
    obtain ⟨whole, fraction, rfl, hwhole⟩ :=
      List.eq_append_cons_of_mem (List.contains_iff_mem.mp hcontains)
    rw [List.count_append, List.count_cons_self] at hcount
    exact exists_literal_of_point hwhole (List.count_eq_zero.mp (by omega)) h
  · obtain ⟨l, hvalid, rfl⟩ := Decimal.exists_literal h
    exact ⟨l, hvalid, rfl, Decimal.toRat_fromStrExact hvalid h⟩

/-- A text with more points is accepted only if it is a literal with points and zeros behind. -/
theorem overpointed_of_accepted {text : List Char} (hcount : 2 ≤ text.count '.') {d : Decimal}
    (h : Decimal.fromStrExact (normalizedText text) = some d) : Overpointed text := by
  have hcontains : text.contains '.' = true :=
    List.contains_iff_mem.mpr (List.count_pos_iff.mp (by omega))
  rw [normalizedText, if_pos hcontains] at h
  obtain ⟨n, m, htext⟩ := exists_eq_trimText_append text
  refine ⟨hcount, trimText text, n, m, Nat.pos_of_ne_zero fun hn => ?_, getLast?_trimText text,
    htext, by rw [h]; rfl⟩
  -- otherwise no point was dropped, and a literal has at most one
  obtain ⟨l, hvalid, hl⟩ := Decimal.exists_literal h
  have hone := Literal.count_point_text hvalid.grouped
  have hzeros : (List.replicate m '0').count '.' = 0 := by
    rw [List.count_replicate]
    rfl
  rw [hl] at hone
  rw [htext, hn, List.replicate_zero, List.append_nil, List.count_append, hzeros] at hcount
  omega

theorem Overpointed.accepted {text : List Char} (h : Overpointed text) :
    ∃ d, Decimal.fromStrExact (normalizedText text) = some d := by
  obtain ⟨hcount, literal, n, m, hn, hlast, rfl, hsome⟩ := h
  have hcontains := List.contains_iff_mem.mpr
    (List.count_pos_iff.mp (Nat.lt_of_lt_of_le two_pos hcount))
  rw [normalizedText, if_pos hcontains, trimText_eq_of_append hn hlast]
  exact Option.isSome_iff_exists.mp hsome

/-- A literal is accepted if its normal form is, with the value that is meant. -/
theorem accepted_of_normal {l : Literal} (hvalid : l.Valid) {d : Decimal}
    (h : Decimal.fromStrExact l.normal.text = some d) :
    Decimal.fromStrExact (normalizedText l.text) = some d ∧ d.toRat = l.value := by
  constructor
  · by_cases hnone : l.fraction = none
    · have hpoint : ¬ l.text.contains '.' = true := by
        rw [List.contains_iff_mem, Literal.point_mem_text_iff hvalid.grouped]
        exact not_not.mpr hnone
      rw [normalizedText, if_neg hpoint]
      rwa [Literal.normal_of_none hnone] at h
    · have hpoint : l.text.contains '.' = true := by
        rw [List.contains_iff_mem, Literal.point_mem_text_iff hvalid.grouped]
        exact hnone
      rw [normalizedText, if_pos hpoint, Literal.trimText_text hvalid.grouped hnone]
      exact h
  · rcases hvalid.normal with hnormal | hnil
    · rw [Decimal.toRat_fromStrExact hnormal h, Literal.value_normal]
    · -- without a digit nothing is accepted
      obtain ⟨l', hvalid', htext⟩ := Decimal.exists_literal h
      obtain ⟨c, rest, hfirst, hdigit⟩ := hvalid'.first
      have hmem : c ∈ l'.digits := by
        rw [hfirst]
        exact List.mem_cons_self ..
      rw [Literal.mem_digits_iff hdigit, htext, ← Literal.mem_digits_iff hdigit, hnil] at hmem
      cases hmem

/-- **The texts that are read exactly.** -/
theorem exactAt_iff {accepts : String → Decimal → Prop}
    (haccepts : ∀ text d, accepts text d ↔
      Decimal.fromStrExact (normalizedText text.toList) = some d) (text : String) :
    ExactAt accepts text ↔ ¬ Overpointed text.toList := by
  constructor
  · rintro ⟨hsound, -⟩ hover
    obtain ⟨d, hd⟩ := hover.accepted
    obtain ⟨l, hvalid, htext, -⟩ := hsound d ((haccepts text d).mpr hd)
    have hone := Literal.count_point_text hvalid.grouped
    rw [htext] at hone
    have := hover.1
    omega
  · intro hnot
    refine ⟨fun d hd => ?_, fun l d hvalid htext hd => ?_⟩
    · rw [haccepts] at hd
      by_cases hcount : text.toList.count '.' ≤ 1
      · exact exists_literal_of_count hcount hd
      · exact absurd (overpointed_of_accepted (by omega) hd) hnot
    · rw [haccepts, ← htext]
      exact accepted_of_normal hvalid hd

/-- **When amounts are read exactly**, from a request and from a row: unless points and zeros
follow a literal, with more than one point in all. -/
theorem amounts_read_exactly (text column : String) :
    (ExactAt (fun text d => deserializeExactOptionalDecimal (some text) = some (some d)) text ↔
        ¬ Overpointed text.toList) ∧
      (ExactAt (fun text d => Startup.readDecimal text column = .ok d) text ↔
        ¬ Overpointed text.toList) :=
  ⟨exactAt_iff (fun _ _ => deserialize_eq_some_iff) text,
    exactAt_iff (fun _ _ => readDecimal_eq_ok_iff) text⟩

/-- A text with two points is read as a number. -/
theorem amounts_read_twoPoints :
    (deserializeExactOptionalDecimal (some "1.5.0") = some (some (.ofScaled 15 1)) ∧
        ¬ ExactAt (fun text d => deserializeExactOptionalDecimal (some text) = some (some d))
          "1.5.0") ∧
      Startup.readDecimal "1.5.0" "price" = .ok (.ofScaled 15 1) ∧
        ¬ ExactAt (fun text d => Startup.readDecimal text "price" = .ok d) "1.5.0" := by
  have hliteral : ¬ ∃ l : Literal, l.Valid ∧ l.text = "1.5.0".toList := by
    rintro ⟨l, hvalid, htext⟩
    have hone := Literal.count_point_text hvalid.grouped
    rw [htext] at hone
    exact absurd hone (by decide)
  have hrequest : deserializeExactOptionalDecimal (some "1.5.0") = some (some (.ofScaled 15 1)) := by
    decide +kernel
  have hrow : Startup.readDecimal "1.5.0" "price" = .ok (.ofScaled 15 1) := by decide +kernel
  refine ⟨⟨hrequest, fun h => ?_⟩, hrow, fun h => ?_⟩
  · obtain ⟨l, hvalid, htext, -⟩ := h.1 _ hrequest
    exact hliteral ⟨l, hvalid, htext⟩
  · obtain ⟨l, hvalid, htext, -⟩ := h.1 _ hrow
    exact hliteral ⟨l, hvalid, htext⟩

end CexEngine
