import CexEngine.Runtime.Accounting
import CexEngine.Runtime.Market

/-!
# The index of the projection

The projection keeps an index of its own, by order id, and integers of its own, by price.
`Shows P flat` says that they are those of the orders `flat`, listed by market and side;
the order within a list does not matter, so one resting order can be moved to the front
before it is reduced.

A submission reduces its makers one by one, through views that no state of the core has,
while the core writes them all at once.  That is why the relation is about lists of orders
and not about states: `Shows.fill` follows the loop over the trades, and `Shows.rest` adds
what is left of the incoming order.
-/

namespace CexEngine

open Foundation Foundation.FiniteMap Foundation.DigitText Amount

namespace Market

/-! ## Texts -/

theorem quantityText_natCast (n : ℕ) : quantityText n = String.ofList (trimText (pointText n 9)) := by
  have htext : formatInt n = Nat.toDigits 10 n := rfl
  rw [quantityText, htext]
  by_cases hshort : (Nat.toDigits 10 n).length ≤ 9
  · -- one zero before the nine digits of the fraction
    have hlt : n < 10 ^ 9 := (Nat.length_toDigits_le_iff (by omega) (by omega)).mp hshort
    have hpad : (Nat.toDigits 10 n).leftpad 10 '0' = '0' :: fixedDigits 9 n := by
      rw [← leftpad_toDigits (by omega) hlt, List.leftpad, List.leftpad,
        show 10 - (Nat.toDigits 10 n).length = 9 - (Nat.toDigits 10 n).length + 1 by omega,
        List.replicate_succ, List.cons_append]
    have hzero : n / 10 ^ 9 = 0 := Nat.div_eq_of_lt hlt
    simp only [if_pos hshort, hpad, List.length_cons, length_fixedDigits, pointText, hzero]
    rfl
  · have hle : 10 ^ 9 ≤ n := by
      by_contra hlt
      exact hshort ((Nat.length_toDigits_le_iff (by omega) (by omega)).mpr (not_le.mp hlt))
    have hsplit := toDigits_eq_append_fixedDigits hle
    have hlen : (Nat.toDigits 10 n).length - 9 = (Nat.toDigits 10 (n / 10 ^ 9)).length := by
      rw [hsplit, List.length_append, length_fixedDigits]
      omega
    simp only [if_neg hshort, hlen]
    rw [hsplit, List.take_left, List.drop_left, pointText]

/-- The text of a level denotes its units. -/
theorem denotes_quantityText {u : ℤ} (hu : 0 ≤ u) :
    DigitText.Denotes (quantityText u).toList ((u : ℚ) / 10 ^ 9) := by
  obtain ⟨n, rfl⟩ := Int.eq_ofNat_of_zero_le hu
  rw [quantityText_natCast, String.toList_ofList, Int.cast_natCast]
  exact denotes_trimText_pointText n 9

/-- The text of a positive price denotes it. -/
theorem denotes_decimalText {d : Decimal} (hd : 0 < d) :
    DigitText.Denotes (decimalText d).toList ((d.raw : ℚ) / 10 ^ 28) := by
  have hsign : d.negative = false := by
    by_contra h
    rw [Bool.not_eq_false] at h
    have hraw : (0 : ℤ) < d.raw := hd
    rw [Decimal.raw, Decimal.signedMantissa, if_pos h, neg_mul] at hraw
    have : (0 : ℤ) ≤ d.mantissa * 10 ^ (28 - d.scale) := by positivity
    omega
  have hscale := d.scale_le
  have hval : (d.raw : ℚ) / 10 ^ 28 = (d.mantissa : ℚ) / 10 ^ d.scale := by
    have hpow : (10 : ℚ) ^ 28 = 10 ^ (28 - d.scale) * 10 ^ d.scale := by
      rw [← pow_add, Nat.sub_add_cancel hscale]
    rw [Decimal.raw, Decimal.signedMantissa, hsign, hpow]
    push_cast
    field_simp
  rw [hval, decimalText, String.toList_ofList, Decimal.toText, hsign]
  by_cases hzero : d.scale = 0
  · rw [if_pos hzero, hzero, pow_zero, div_one]
    exact denotes_toDigits _
  · rw [if_neg hzero]
    exact denotes_pointText hzero

/-! ## The view -/

/-- Lists of resting orders, by market and side. -/
abbrev Flat := TradingPair → Bool → List OrderEntry

def setFlat (flat : Flat) (pair : TradingPair) (buy : Bool) (os : List OrderEntry) : Flat :=
  fun pair' buy' => if pair' = pair ∧ buy' = buy then os else flat pair' buy'

theorem setFlat_same (flat : Flat) (pair : TradingPair) (buy : Bool) (os : List OrderEntry) :
    setFlat flat pair buy os pair buy = os := if_pos ⟨rfl, rfl⟩

theorem setFlat_ne {flat : Flat} {pair pair' : TradingPair} {buy buy' : Bool} {os : List OrderEntry}
    (h : ¬ (pair' = pair ∧ buy' = buy)) : setFlat flat pair buy os pair' buy' = flat pair' buy' :=
  if_neg h

/-- What an order adds to the level of a price. -/
def shareAt (p : Decimal) (o : OrderEntry) : ℤ :=
  if SameOption o.price (some p) then unitsOf o.remainingAmount else 0

/-- The units that rest at a price. -/
def levelAt (p : Decimal) (os : List OrderEntry) : ℤ := (os.map (shareAt p)).sum

theorem levelAt_perm (p : Decimal) {os os' : List OrderEntry} (h : os.Perm os') :
    levelAt p os = levelAt p os' := (h.map _).sum_eq

@[simp] theorem levelAt_cons (p : Decimal) (o : OrderEntry) (os : List OrderEntry) :
    levelAt p (o :: os) = shareAt p o + levelAt p os := List.sum_cons

theorem levelAt_congr {p p' : Decimal} (h : p.raw = p'.raw) (os : List OrderEntry) :
    levelAt p os = levelAt p' os := by
  have hshare : ∀ o, shareAt p o = shareAt p' o := fun o => by
    have hiff : SameOption o.price (some p) ↔ SameOption o.price (some p') := by
      rw [SameOption, SameOption, Option.map_some, Option.map_some, h]
    simp only [shareAt, hiff]
  rw [levelAt, levelAt, List.map_congr_left fun o _ => hshare o]

theorem shareAt_of_ne {p p' : Decimal} {o : OrderEntry} (ho : SameOption o.price (some p'))
    (h : p.raw ≠ p'.raw) : shareAt p o = 0 :=
  if_neg fun heq => h (Option.some.inj (heq.symm.trans ho))

/-- There is no level of nothing. -/
def nonzero (n : ℤ) : Option ℤ := if n = 0 then none else some n

/-- The entry of an order in the index of the projection. -/
structure Indexed (pair : TradingPair) (buy : Bool) (o : OrderEntry) (r : Resting) : Prop where
  pair_eq : r.pair = pair
  buy_eq : r.buy = buy
  price : SameOption o.price (some r.price)
  remaining : units r.remaining = .ok (unitsOf o.remainingAmount)

/-- **The projection shows the orders** `flat`. -/
structure Shows (P : Projection) (flat : Flat) : Prop where
  ids : ∀ pair buy, ((flat pair buy).map OrderEntry.id).Nodup
  pos : ∀ pair buy, ∀ o ∈ flat pair buy,
    units o.remainingAmount = .ok (unitsOf o.remainingAmount) ∧ 0 < unitsOf o.remainingAmount
  index : ∀ pair buy, ∀ o ∈ flat pair buy, ∃ r, P.orders.lookup o.id = some r ∧ Indexed pair buy o r
  only : ∀ id r, P.orders.lookup id = some r → ∃ o ∈ flat r.pair r.buy, o.id = id
  level : ∀ pair buy p, ((P.bookEntry pair).levels buy).find? p = nonzero (levelAt p (flat pair buy))

section View

variable {P : Projection} {flat flat' : Flat}

theorem Shows.perm (h : Shows P flat) (hperm : ∀ pair buy, (flat pair buy).Perm (flat' pair buy)) :
    Shows P flat' where
  ids := fun pair buy => ((hperm pair buy).map _).nodup_iff.mp (h.ids pair buy)
  pos := fun pair buy o ho => h.pos pair buy o ((hperm pair buy).mem_iff.mpr ho)
  index := fun pair buy o ho => h.index pair buy o ((hperm pair buy).mem_iff.mpr ho)
  only := fun id r hr => by
    obtain ⟨o, ho, hid⟩ := h.only id r hr
    exact ⟨o, (hperm _ _).mem_iff.mp ho, hid⟩
  level := fun pair buy p => by rw [h.level, levelAt_perm p (hperm pair buy)]

/-- An id is in one list. -/
theorem Shows.once (h : Shows P flat) {pair pair' : TradingPair} {buy buy' : Bool}
    {o o' : OrderEntry} (ho : o ∈ flat pair buy) (ho' : o' ∈ flat pair' buy') (hid : o.id = o'.id) :
    pair' = pair ∧ buy' = buy := by
  obtain ⟨r, hr, hi⟩ := h.index _ _ o ho
  obtain ⟨r', hr', hi'⟩ := h.index _ _ o' ho'
  obtain rfl : r = r' := Option.some.inj (hr.symm.trans (hid ▸ hr'))
  exact ⟨hi'.pair_eq.symm.trans hi.pair_eq, hi'.buy_eq.symm.trans hi.buy_eq⟩

theorem shareAt_nonneg {p : Decimal} {o : OrderEntry} (h : 0 < unitsOf o.remainingAmount) :
    0 ≤ shareAt p o := by
  unfold shareAt
  split <;> omega

theorem levelAt_nonneg {p : Decimal} {os : List OrderEntry}
    (h : ∀ o ∈ os, 0 < unitsOf o.remainingAmount) : 0 ≤ levelAt p os := by
  refine List.sum_nonneg fun n hn => ?_
  obtain ⟨o, ho, rfl⟩ := List.mem_map.mp hn
  exact shareAt_nonneg (h o ho)

/-! ### The parts of the projection -/

theorem bookEntry_setBook (P : Projection) (pair pair' : TradingPair) (book : Book) :
    (P.setBook pair book).bookEntry pair' = if pair' = pair then book else P.bookEntry pair' := by
  rw [Projection.bookEntry, Projection.setBook, lookup_insert_eq]
  split <;> rfl

theorem bookEntry_of_lookup {pair : TradingPair} {book : Book} (h : P.books.lookup pair = some book) :
    P.bookEntry pair = book := by
  rw [Projection.bookEntry, h, Option.getD_some]

@[simp] theorem levels_setLevels (book : Book) (buy buy' : Bool) (levels : PriceMap ℤ) :
    (book.setLevels buy levels).levels buy' = if buy' = buy then levels else book.levels buy' := by
  cases buy <;> cases buy' <;> rfl

@[simp] theorem sequence_setLevels (book : Book) (buy : Bool) (levels : PriceMap ℤ) :
    (book.setLevels buy levels).sequence = book.sequence := by
  cases buy <;> rfl

/-! ### One reduction -/

/-- The view after a reduction that takes `change` from a level of `level`. -/
def reduced (P : Projection) (id : UInt64) (order : Resting) (remaining : Decimal) (book : Book)
    (level change : ℤ) : Projection :=
  let levels := (book.levels order.buy).upsert order.price fun _ => level - change
  let P := (P.setOrder id { order with remaining }).setBook order.pair (book.setLevels order.buy
    (if level - change = 0 then levels.erase order.price else levels))
  if remaining.isZero then P.removeOrder id else P

theorem run_reduce {id : UInt64} {quantity remaining : Decimal} {order : Resting} {book : Book}
    {level change : ℤ} (horder : P.orders.lookup id = some order)
    (hremaining : subtract order.remaining quantity = .ok remaining)
    (hbook : P.books.lookup order.pair = some book)
    (hlevel : (book.levels order.buy).find? order.price = some level)
    (hchange : units quantity = .ok change) (hle : change ≤ level) :
    (Projection.reduce id quantity).run P =
      (.ok (), reduced P id order remaining book level change) := by
  have hens : ensure (change ≤ level) "Negative public price level" = .ok () := ensure_eq_ok.mpr hle
  have hbook' : (P.setOrder id { order with remaining }).books.lookup order.pair = some book := hbook
  simp only [Projection.reduce, Mut.run_bind, Mut.run_get, Mut.run_lift, horder, orErr, hremaining,
    Mut.run_modify, hbook', expect, hlevel, hchange, hens]
  unfold reduced
  split <;> rfl

theorem bookEntry_reduced (P : Projection) (id : UInt64) (order : Resting) (remaining : Decimal)
    (book : Book) (level change : ℤ) (pair : TradingPair) :
    (reduced P id order remaining book level change).bookEntry pair =
      if pair = order.pair then book.setLevels order.buy (if level - change = 0 then
        ((book.levels order.buy).upsert order.price fun _ => level - change).erase order.price
        else (book.levels order.buy).upsert order.price fun _ => level - change)
      else P.bookEntry pair := by
  rw [reduced]
  by_cases hzero : remaining.isZero = true
  · simp only [if_pos hzero]
    exact bookEntry_setBook _ _ _ _
  · simp only [if_neg hzero]
    exact bookEntry_setBook _ _ _ _

theorem orders_reduced (P : Projection) (id : UInt64) (order : Resting) (remaining : Decimal)
    (book : Book) (level change : ℤ) (id' : UInt64) :
    (reduced P id order remaining book level change).orders.lookup id' =
      if id' = id then (if remaining.isZero then none else some { order with remaining })
      else P.orders.lookup id' := by
  unfold reduced
  by_cases hzero : remaining.isZero = true
  · rw [if_pos hzero, if_pos hzero]
    show ((P.orders.insert id _).erase id).lookup id' = _
    split
    · next h => rw [h, Finmap.lookup_erase]
    · next h => rw [Finmap.lookup_erase_ne h, Finmap.lookup_insert_of_ne _ h]
  · rw [if_neg hzero, if_neg hzero]
    exact lookup_insert_eq ..

/-- The level after a reduction. -/
theorem find?_reduced (levels : PriceMap ℤ) (price p : Decimal) (n : ℤ) :
    (if n = 0 then (levels.upsert price fun _ => n).erase price
      else levels.upsert price fun _ => n).find? p =
      if p.raw = price.raw then nonzero n else levels.find? p := by
  unfold nonzero
  split
  · rw [SortedMap.find?_erase, SortedMap.find?_upsert]
    split <;> rfl
  · exact SortedMap.find?_upsert ..

theorem kept_eq_none {o : OrderEntry} {u : ℤ} (hu : units o.remainingAmount = .ok u) :
    kept o = none ↔ u = 0 := by
  have hnonneg := units_nonneg hu
  rw [kept, ite_eq_right_iff]
  simp only [reduceCtorEq, imp_false, pos_iff_units hu]
  omega

theorem isZero_iff_units {d : Decimal} {u : ℤ} (hu : units d = .ok u) : d.isZero = true ↔ u = 0 := by
  rw [Decimal.isZero_iff, raw_eq_of_units hu]
  constructor
  · intro h
    exact (mul_eq_zero.mp h).resolve_right (by norm_num)
  · rintro rfl
    rfl

/-- The share of an order that is kept, or of nothing. -/
theorem levelAt_kept (p : Decimal) {o : OrderEntry} {u : ℤ} (hu : units o.remainingAmount = .ok u)
    (os : List OrderEntry) : levelAt p ((kept o).toList ++ os) = shareAt p o + levelAt p os := by
  by_cases hkept : kept o = none
  · have hzero := (kept_eq_none hu).mp hkept
    have hshare : shareAt p o = 0 := by
      rw [shareAt, unitsOf_eq hu, hzero, ite_self]
    rw [hkept, hshare, zero_add, Option.toList_none, List.nil_append]
  · have hsome : kept o = some o := by
      unfold kept at hkept ⊢
      split
      · rfl
      · next h => exact absurd (if_neg h) hkept
    rw [hsome, Option.toList_some, List.singleton_append, levelAt_cons]

theorem mem_kept {o o' : OrderEntry} (h : o' ∈ (kept o).toList) : o' = o ∧ 0 < o.remainingAmount := by
  rw [Option.mem_toList, kept] at h
  split at h
  · next hpos =>
    cases h
    exact ⟨rfl, hpos⟩
  · cases h

/-- An order of the lists, its entry in the index, and the same order with a quantity taken from
it. -/
structure Reducing (P : Projection) (flat : Flat) (o new : OrderEntry) (others : List OrderEntry)
    (r : Resting) (remaining : Decimal) (book : Book) (x : ℤ) : Prop where
  shown : Shows P flat
  perm : (flat r.pair r.buy).Perm (o :: others)
  entry : P.orders.lookup o.id = some r
  price : SameOption o.price (some r.price)
  book : P.books.lookup r.pair = some book
  amount : units new.remainingAmount = .ok (unitsOf o.remainingAmount - x)
  remaining : units remaining = .ok (unitsOf o.remainingAmount - x)
  id : new.id = o.id
  same : new.price = o.price

namespace Reducing

variable {o new : OrderEntry} {others : List OrderEntry} {r : Resting} {remaining : Decimal}
  {book : Book} {x : ℤ}

theorem mem (h : Reducing P flat o new others r remaining book x) : o ∈ flat r.pair r.buy :=
  h.perm.mem_iff.mpr (List.mem_cons_self ..)

theorem other_mem (h : Reducing P flat o new others r remaining book x) {o' : OrderEntry}
    (ho' : o' ∈ others) : o' ∈ flat r.pair r.buy := h.perm.mem_iff.mpr (List.mem_cons_of_mem _ ho')

theorem nodup (h : Reducing P flat o new others r remaining book x) :
    o.id ∉ others.map OrderEntry.id ∧ (others.map OrderEntry.id).Nodup := by
  have hids := (h.perm.map OrderEntry.id).nodup_iff.mp (h.shown.ids r.pair r.buy)
  rwa [List.map_cons, List.nodup_cons] at hids

/-- The price of the order, before and after. -/
theorem new_price (h : Reducing P flat o new others r remaining book x) :
    SameOption new.price (some r.price) := by
  rw [h.same]
  exact h.price

/-- The level is what the order has and what the others have. -/
theorem level_eq (h : Reducing P flat o new others r remaining book x) (p : Decimal) :
    levelAt p (flat r.pair r.buy) = shareAt p o + levelAt p others := by
  rw [levelAt_perm _ h.perm, levelAt_cons]

/-- The orders after the reduction: the new one if something is left of it, and the others. -/
theorem cases_mem (h : Reducing P flat o new others r remaining book x) {pair : TradingPair}
    {buy : Bool} {o' : OrderEntry}
    (ho' : o' ∈ setFlat flat r.pair r.buy ((kept new).toList ++ others) pair buy) :
    (o' = new ∧ 0 < new.remainingAmount ∧ pair = r.pair ∧ buy = r.buy) ∨
      (o'.id ≠ o.id ∧ o' ∈ flat pair buy) := by
  by_cases hat : pair = r.pair ∧ buy = r.buy
  · obtain ⟨rfl, rfl⟩ := hat
    rw [setFlat_same, List.mem_append] at ho'
    rcases ho' with ho' | ho'
    · obtain ⟨rfl, hpos⟩ := mem_kept ho'
      exact Or.inl ⟨rfl, hpos, rfl, rfl⟩
    · exact Or.inr ⟨fun heq => h.nodup.1 (heq ▸ List.mem_map_of_mem ho'), h.other_mem ho'⟩
  · rw [setFlat_ne hat] at ho'
    exact Or.inr ⟨fun heq => hat (h.shown.once h.mem ho' heq.symm), ho'⟩

theorem ids (h : Reducing P flat o new others r remaining book x) (pair : TradingPair) (buy : Bool) :
    ((setFlat flat r.pair r.buy ((kept new).toList ++ others) pair buy).map OrderEntry.id).Nodup := by
  by_cases hat : pair = r.pair ∧ buy = r.buy
  · obtain ⟨rfl, rfl⟩ := hat
    rw [setFlat_same]
    cases hkept : kept new with
    | none => exact h.nodup.2
    | some new' =>
      obtain ⟨rfl, -⟩ := mem_kept (Option.mem_toList.mpr hkept)
      rw [Option.toList_some, List.singleton_append, List.map_cons, h.id, List.nodup_cons]
      exact h.nodup
  · rw [setFlat_ne hat]
    exact h.shown.ids pair buy

theorem pos (h : Reducing P flat o new others r remaining book x) {pair : TradingPair} {buy : Bool}
    {o' : OrderEntry} (ho' : o' ∈ setFlat flat r.pair r.buy ((kept new).toList ++ others) pair buy) :
    units o'.remainingAmount = .ok (unitsOf o'.remainingAmount) ∧ 0 < unitsOf o'.remainingAmount := by
  rcases h.cases_mem ho' with ⟨rfl, hpos, -⟩ | ⟨-, ho'⟩
  · rw [unitsOf_eq h.amount]
    exact ⟨h.amount, (pos_iff_units h.amount).mp hpos⟩
  · exact h.shown.pos pair buy o' ho'

theorem index (h : Reducing P flat o new others r remaining book x) (level : ℤ) {pair : TradingPair}
    {buy : Bool} {o' : OrderEntry}
    (ho' : o' ∈ setFlat flat r.pair r.buy ((kept new).toList ++ others) pair buy) :
    ∃ r', (reduced P o.id r remaining book level x).orders.lookup o'.id = some r' ∧
      Indexed pair buy o' r' := by
  rw [orders_reduced]
  rcases h.cases_mem ho' with ⟨rfl, hpos, rfl, rfl⟩ | ⟨hne, ho'⟩
  · have hnonzero : ¬ remaining.isZero = true := by
      rw [isZero_iff_units h.remaining]
      exact ((pos_iff_units h.amount).mp hpos).ne'
    rw [if_pos h.id, if_neg hnonzero]
    exact ⟨_, rfl, rfl, rfl, h.new_price, by rw [unitsOf_eq h.amount]; exact h.remaining⟩
  · rw [if_neg hne]
    exact h.shown.index pair buy o' ho'

theorem only (h : Reducing P flat o new others r remaining book x) (level : ℤ) {id : UInt64}
    {r' : Resting} (hr' : (reduced P o.id r remaining book level x).orders.lookup id = some r') :
    ∃ o' ∈ setFlat flat r.pair r.buy ((kept new).toList ++ others) r'.pair r'.buy, o'.id = id := by
  rw [orders_reduced] at hr'
  split at hr'
  · next hid =>
    split at hr'
    · cases hr'
    · next hnonzero =>
      cases hr'
      rw [isZero_iff_units h.remaining, ← kept_eq_none h.amount] at hnonzero
      obtain ⟨new', hkept⟩ := Option.ne_none_iff_exists'.mp hnonzero
      obtain ⟨rfl, -⟩ := mem_kept (Option.mem_toList.mpr hkept)
      refine ⟨new', ?_, h.id.trans hid.symm⟩
      rw [setFlat_same, hkept]
      exact List.mem_cons_self ..
  · next hid =>
    obtain ⟨o', ho', hoid⟩ := h.shown.only id r' hr'
    refine ⟨o', ?_, hoid⟩
    by_cases hat : r'.pair = r.pair ∧ r'.buy = r.buy
    · rw [hat.1, hat.2] at ho' ⊢
      rw [setFlat_same]
      rcases List.mem_cons.mp (h.perm.mem_iff.mp ho') with rfl | ho'
      · exact absurd hoid.symm hid
      · exact List.mem_append_right _ ho'
    · rw [setFlat_ne hat]
      exact ho'

theorem level (h : Reducing P flat o new others r remaining book x) (pair : TradingPair) (buy : Bool)
    (p : Decimal) :
    (((reduced P o.id r remaining book (unitsOf o.remainingAmount + levelAt r.price others)
        x).bookEntry pair).levels buy).find? p =
      nonzero (levelAt p (setFlat flat r.pair r.buy ((kept new).toList ++ others) pair buy)) := by
  rw [bookEntry_reduced]
  by_cases hpair : pair = r.pair
  · rw [if_pos hpair, levels_setLevels]
    by_cases hbuy : buy = r.buy
    · rw [if_pos hbuy, hpair, hbuy, setFlat_same, find?_reduced, levelAt_kept p h.amount]
      split
      · next hp =>
        have hat : SameOption new.price (some p) := h.new_price.trans (congrArg some hp.symm)
        rw [shareAt, if_pos hat, unitsOf_eq h.amount, levelAt_congr hp]
        congr 1
        omega
      · next hp =>
        rw [← bookEntry_of_lookup h.book, h.shown.level, h.level_eq, shareAt_of_ne h.new_price hp,
          shareAt_of_ne h.price hp]
    · rw [if_neg hbuy, setFlat_ne fun hat => hbuy hat.2, hpair, ← bookEntry_of_lookup h.book]
      exact h.shown.level r.pair buy p
  · rw [if_neg hpair, setFlat_ne fun hat => hpair hat.1]
    exact h.shown.level pair buy p

/-- **The view after the reduction shows the orders after it.** -/
theorem shows (h : Reducing P flat o new others r remaining book x) :
    Shows (reduced P o.id r remaining book (unitsOf o.remainingAmount + levelAt r.price others) x)
      (setFlat flat r.pair r.buy ((kept new).toList ++ others)) where
  ids := h.ids
  pos := fun _ _ _ ho' => h.pos ho'
  index := fun _ _ _ ho' => h.index _ ho'
  only := fun _ _ hr' => h.only _ hr'
  level := h.level

end Reducing

/-- **One reduction.**  An order at the front gives up a quantity, and it leaves when
nothing is left of it. -/
theorem Shows.reduce (h : Shows P flat) {pair : TradingPair} {buy : Bool} {o new : OrderEntry}
    {others : List OrderEntry} {quantity : Decimal} {x : ℤ}
    (hperm : (flat pair buy).Perm (o :: others)) (hx : units quantity = .ok x)
    (hnew : units new.remainingAmount = .ok (unitsOf o.remainingAmount - x))
    (hid : new.id = o.id) (hprice : new.price = o.price) :
    ∃ P', (Projection.reduce o.id quantity).run P = (.ok (), P') ∧
      Shows P' (setFlat flat pair buy ((kept new).toList ++ others)) ∧
      ∀ pair, (P'.bookEntry pair).sequence = (P.bookEntry pair).sequence := by
  have ho : o ∈ flat pair buy := hperm.mem_iff.mpr (List.mem_cons_self ..)
  obtain ⟨r, hr, rfl, rfl, hrprice, hrrem⟩ := h.index _ _ o ho
  obtain ⟨hou, hopos⟩ := h.pos _ _ o ho
  obtain ⟨remaining, hsub, hrem⟩ := exists_subtract hrrem hx ⟨_, hnew⟩
  -- the level of the order holds its amount
  have hshare : shareAt r.price o = unitsOf o.remainingAmount := if_pos hrprice
  have hothersPos : 0 ≤ levelAt r.price others := levelAt_nonneg fun o' ho' =>
    (h.pos _ _ o' (hperm.mem_iff.mpr (List.mem_cons_of_mem _ ho'))).2
  have hxle : x ≤ unitsOf o.remainingAmount := by
    have := units_nonneg hnew
    omega
  have hlevel := h.level r.pair r.buy r.price
  rw [levelAt_perm _ hperm, levelAt_cons, hshare, nonzero, if_neg (by omega)] at hlevel
  obtain ⟨book, hbook⟩ : ∃ book, P.books.lookup r.pair = some book := by
    cases hbook : P.books.lookup r.pair with
    | some book => exact ⟨book, rfl⟩
    | none =>
      rw [Projection.bookEntry, hbook] at hlevel
      cases hbuy : r.buy <;> rw [hbuy] at hlevel <;> cases hlevel
  have hentry := bookEntry_of_lookup hbook
  rw [hentry] at hlevel
  have hreducing : Reducing P flat o new others r remaining book x :=
    ⟨h, hperm, hr, hrprice, hbook, hnew, hrem, hid, hprice⟩
  refine ⟨_, run_reduce hr hsub hbook hlevel hx (by omega), hreducing.shows, fun pair => ?_⟩
  rw [bookEntry_reduced]
  split
  · next hp => rw [sequence_setLevels, hp, hentry]
  · rfl

/-! ### One more order -/

/-- The view with one more order. -/
def joined (P : Projection) (pair : TradingPair) (order : OrderEntry) (price remaining : Decimal)
    (change : ℤ) : Projection :=
  let buy := decide (order.orderType = "buy")
  let book := P.bookEntry pair
  let P := P.setBook pair (book.setLevels buy ((book.levels buy).upsert price fun level => level.getD 0))
  let book := P.bookEntry pair
  (P.setBook pair
    (book.setLevels buy ((book.levels buy).upsert price fun level => level.getD 0 + change))).setOrder
      order.id ⟨pair, buy, price, remaining⟩

theorem run_rest {pair : TradingPair} {order : OrderEntry} {price remaining : Decimal} {change : ℤ}
    (hchange : units remaining = .ok change) (hnew : P.orders.lookup order.id = none) :
    (Projection.rest pair order price remaining).run P =
      (.ok (), joined P pair order price remaining change) := by
  have hens : ensure ((P.orders.lookup order.id).isNone = true) "Duplicate resting order" = .ok () := by
    rw [hnew]
    rfl
  have hold : ∀ (Q : Projection) book, (Q.setBook pair book).orders = Q.orders := fun _ _ => rfl
  simp only [Projection.rest, Mut.run_bind, Mut.run_get, Mut.run_modify, hchange, Mut.run_lift]
  rw [hold, hold, hens]
  rfl

theorem bookEntry_joined (P : Projection) (pair : TradingPair) (order : OrderEntry)
    (price remaining : Decimal) (change : ℤ) (pair' : TradingPair) (buy' : Bool) (p : Decimal) :
    (((joined P pair order price remaining change).bookEntry pair').levels buy').find? p =
      (if pair' = pair ∧ buy' = decide (order.orderType = "buy") ∧ p.raw = price.raw then
        some ((((P.bookEntry pair).levels buy').find? price).getD 0 + change)
      else ((P.bookEntry pair').levels buy').find? p) ∧
    ((joined P pair order price remaining change).bookEntry pair').sequence =
      (P.bookEntry pair').sequence := by
  set buy := decide (order.orderType = "buy") with hbuy
  set book := P.bookEntry pair with hbook
  set first := book.setLevels buy ((book.levels buy).upsert price fun level => level.getD 0) with hfirst
  have hentry : (joined P pair order price remaining change).bookEntry pair' =
      if pair' = pair then first.setLevels buy
        ((first.levels buy).upsert price fun level => level.getD 0 + change)
      else P.bookEntry pair' := by
    show ((Projection.setBook pair _ (Projection.setBook pair _ P)).bookEntry pair') = _
    rw [bookEntry_setBook, bookEntry_setBook, if_pos rfl, bookEntry_setBook]
    split <;> rfl
  rw [hentry]
  by_cases hpair : pair' = pair
  · rw [if_pos hpair]
    refine ⟨?_, by rw [sequence_setLevels, hfirst, sequence_setLevels, hbook, hpair]⟩
    rw [levels_setLevels, hfirst]
    by_cases hb : buy' = buy
    · rw [if_pos hb, SortedMap.find?_upsert, levels_setLevels, if_pos rfl, SortedMap.find?_upsert,
        if_pos rfl, SortedMap.find?_upsert, hb, hpair]
      by_cases hp : p.raw = price.raw
      · rw [if_pos hp, if_pos ⟨rfl, rfl, hp⟩, Option.getD_some]
      · rw [if_neg hp, if_neg hp, if_neg fun h => hp h.2.2]
    · rw [if_neg hb, levels_setLevels, if_neg hb, if_neg fun h => hb h.2.1, hpair]
  · rw [if_neg hpair, if_neg fun h => hpair h.1]
    exact ⟨rfl, rfl⟩

/-- **One more order.** -/
theorem Shows.rest (h : Shows P flat) {pair : TradingPair} {order o : OrderEntry}
    {price remaining : Decimal} {u : ℤ} (hu : units remaining = .ok u) (hpos : 0 < u)
    (ho : units o.remainingAmount = .ok u) (hid : o.id = order.id)
    (hprice : SameOption o.price (some price))
    (hfresh : ∀ pair buy, ∀ o' ∈ flat pair buy, o'.id ≠ order.id) :
    ∃ P', (Projection.rest pair order price remaining).run P = (.ok (), P') ∧
      Shows P' (setFlat flat pair (decide (order.orderType = "buy"))
        (o :: flat pair (decide (order.orderType = "buy")))) ∧
      ∀ pair, (P'.bookEntry pair).sequence = (P.bookEntry pair).sequence := by
  set buy := decide (order.orderType = "buy") with hbuy
  have hnew : P.orders.lookup order.id = none := by
    cases hlookup : P.orders.lookup order.id with
    | none => rfl
    | some r =>
      obtain ⟨o', ho', hoid⟩ := h.only _ _ hlookup
      exact absurd hoid (hfresh _ _ o' ho')
  have horders : ∀ id, (joined P pair order price remaining u).orders.lookup id =
      if id = order.id then some ⟨pair, buy, price, remaining⟩ else P.orders.lookup id := fun id =>
    lookup_insert_eq ..
  have hmem : ∀ {pair' buy' o'}, o' ∈ setFlat flat pair buy (o :: flat pair buy) pair' buy' →
      (o' = o ∧ pair' = pair ∧ buy' = buy) ∨ o' ∈ flat pair' buy' := by
    intro pair' buy' o' ho'
    by_cases hat : pair' = pair ∧ buy' = buy
    · obtain ⟨rfl, rfl⟩ := hat
      rw [setFlat_same] at ho'
      rcases List.mem_cons.mp ho' with rfl | ho'
      · exact Or.inl ⟨rfl, rfl, rfl⟩
      · exact Or.inr ho'
    · rw [setFlat_ne hat] at ho'
      exact Or.inr ho'
  refine ⟨_, run_rest hu hnew, ⟨?_, ?_, ?_, ?_, ?_⟩, fun pair' =>
    (bookEntry_joined P pair order price remaining u pair' buy price).2⟩
  · intro pair' buy'
    by_cases hat : pair' = pair ∧ buy' = buy
    · obtain ⟨rfl, rfl⟩ := hat
      rw [setFlat_same, List.map_cons, List.nodup_cons]
      refine ⟨fun hin => ?_, h.ids pair' buy⟩
      obtain ⟨o', ho', hoid⟩ := List.mem_map.mp hin
      exact hfresh _ _ o' ho' (hoid.trans hid)
    · rw [setFlat_ne hat]
      exact h.ids pair' buy'
  · intro pair' buy' o' ho'
    rcases hmem ho' with ⟨rfl, -⟩ | ho'
    · rw [unitsOf_eq ho]
      exact ⟨ho, hpos⟩
    · exact h.pos pair' buy' o' ho'
  · intro pair' buy' o' ho'
    rw [horders]
    rcases hmem ho' with ⟨rfl, rfl, rfl⟩ | ho'
    · rw [if_pos hid]
      exact ⟨_, rfl, rfl, rfl, hprice, by rw [unitsOf_eq ho]; exact hu⟩
    · rw [if_neg (hfresh _ _ o' ho')]
      exact h.index pair' buy' o' ho'
  · intro id r hr
    rw [horders] at hr
    split at hr
    · next hid' =>
      cases hr
      exact ⟨o, by rw [setFlat_same]; exact List.mem_cons_self .., hid.trans hid'.symm⟩
    · obtain ⟨o', ho', hoid⟩ := h.only id r hr
      refine ⟨o', ?_, hoid⟩
      by_cases hat : r.pair = pair ∧ r.buy = buy
      · rw [hat.1, hat.2] at ho' ⊢
        rw [setFlat_same]
        exact List.mem_cons_of_mem _ ho'
      · rw [setFlat_ne hat]
        exact ho'
  · intro pair' buy' p
    rw [(bookEntry_joined P pair order price remaining u pair' buy' p).1, ← hbuy]
    by_cases hat : pair' = pair ∧ buy' = buy
    · obtain ⟨rfl, rfl⟩ := hat
      rw [setFlat_same, levelAt_cons]
      by_cases hp : p.raw = price.raw
      · have hsum : 0 ≤ levelAt p (flat pair' buy) :=
          levelAt_nonneg fun o' ho' => (h.pos _ _ o' ho').2
        have hat : SameOption o.price (some p) := hprice.trans (congrArg some hp.symm)
        have hshare : shareAt p o = u := by rw [shareAt, if_pos hat, unitsOf_eq ho]
        have hold : (((P.bookEntry pair').levels buy).find? price).getD 0 =
            levelAt p (flat pair' buy) := by
          rw [h.level, levelAt_congr hp.symm, nonzero]
          split
          · next hzero => exact hzero.symm
          · rfl
        rw [if_pos ⟨rfl, rfl, hp⟩, hold, hshare, nonzero, if_neg (by omega), add_comm]
      · rw [if_neg fun h => hp h.2.2, shareAt_of_ne hprice hp, zero_add]
        exact h.level pair' buy p
    · rw [if_neg fun h => hat ⟨h.1, h.2.1⟩, setFlat_ne hat]
      exact h.level pair' buy' p

/-! ### The loop over the trades -/

theorem setFlat_setFlat (flat : Flat) (pair : TradingPair) (buy : Bool) (os os' : List OrderEntry) :
    setFlat (setFlat flat pair buy os) pair buy os' = setFlat flat pair buy os' := by
  funext pair' buy'
  unfold setFlat
  split <;> rfl

theorem setFlat_perm {flat : Flat} {pair : TradingPair} {buy : Bool} {os os' : List OrderEntry}
    (h : os.Perm os') (pair' : TradingPair) (buy' : Bool) :
    (setFlat flat pair buy os pair' buy').Perm (setFlat flat pair buy os' pair' buy') := by
  unfold setFlat
  split
  · exact h
  · exact List.Perm.refl _

theorem makerId_trade {order : OrderEntry} {makerBuy : Bool}
    (hbuy : makerBuy = !decide (order.orderType = "buy")) (f : Fill) :
    Projection.makerId order (f.trade makerBuy order) = f.maker.id := by
  unfold Projection.makerId
  by_cases h : order.orderType = "buy"
  · rw [if_pos h, hbuy, decide_eq_true h]
    rfl
  · rw [if_neg h, hbuy, decide_eq_false h]
    rfl

/-- **The loop over the trades.**  Every maker is reduced by its fill. -/
theorem Shows.fill (h : Shows P flat) {pair : TradingPair} {makerBuy : Bool} {order : OrderEntry}
    {fills : List Fill} {others : List OrderEntry} {outputs : List TradeOutput}
    (hbuy : makerBuy = !decide (order.orderType = "buy"))
    (hperm : (flat pair makerBuy).Perm (fills.map Fill.maker ++ others))
    (hok : ∀ f ∈ fills, f.Ok)
    (hout : outputs.map TradeOutput.trade = fills.map (Fill.trade makerBuy order))
    {filled total : Decimal}
    (htotal : (outputs.map TradeOutput.trade).foldlM (fun total t => add total t.amount) filled =
      .ok total) (sequence : ℕ) (engineId : String) (index : ℕ) (trades : List MarketTrade) :
    ∃ P' trades', (Projection.fill order sequence engineId outputs index filled trades).run P =
        (.ok (total, trades'), P') ∧
      Shows P' (setFlat flat pair makerBuy (fills.filterMap (fun f => kept f.rest) ++ others)) ∧
      ∀ pair, (P'.bookEntry pair).sequence = (P.bookEntry pair).sequence := by
  induction fills generalizing P flat outputs filled index trades others with
  | nil =>
    obtain rfl := List.map_eq_nil_iff.mp hout
    obtain rfl := pure_eq_ok.mp htotal
    refine ⟨P, trades, rfl, h.perm fun pair' buy' => ?_, fun _ => rfl⟩
    unfold setFlat
    split
    · next hat => rw [hat.1, hat.2]; exact hperm
    · exact List.Perm.refl _
  | cons f fills ih =>
    obtain ⟨output, outputs, rfl, houtput, houtputs⟩ := List.map_eq_cons_iff.mp hout
    have hf := hok f (List.mem_cons_self ..)
    obtain ⟨q, r, -, hq, hr, -, hrest, -, -⟩ := Fill.filledMaker_ok hf.rest
    rw [List.map_cons, List.foldlM_cons] at htotal
    obtain ⟨next, hnext, htotal⟩ := bind_eq_ok.mp htotal
    rw [← unitsOf_eq hr] at hrest
    obtain ⟨P₁, hrun, hshows, hseq⟩ := h.reduce hperm hq hrest
      (OrderEntry.congr_frame OrderEntry.id hf.frame) (OrderEntry.congr_frame OrderEntry.price hf.frame)
    have hperm₁ : (setFlat flat pair makerBuy ((kept f.rest).toList ++ (fills.map Fill.maker ++ others))
        pair makerBuy).Perm (fills.map Fill.maker ++ ((kept f.rest).toList ++ others)) := by
      rw [setFlat_same, ← List.append_assoc, ← List.append_assoc]
      exact List.perm_append_comm.append_right _
    obtain ⟨P', trades', hrun', hshows', hseq'⟩ := ih hshows hperm₁
      (fun g hg => hok g (List.mem_cons_of_mem _ hg)) houtputs htotal (index + 1)
      (trades ++ [⟨s!"{engineId}:{sequence}:{index}", decimalText output.trade.price,
        decimalText output.trade.amount, order.orderType⟩])
    refine ⟨P', trades', ?_, ?_, fun pair => (hseq' pair).trans (hseq pair)⟩
    · have hreduce : (Projection.reduce (Projection.makerId order output.trade)
          output.trade.amount).run P = (.ok (), P₁) := by
        rw [houtput, makerId_trade hbuy]
        exact hrun
      rw [Projection.fill]
      simp only [Mut.run_bind, hreduce, Mut.run_lift, hnext]
      exact hrun'
    · rw [setFlat_setFlat] at hshows'
      refine hshows'.perm (setFlat_perm ?_)
      rw [List.filterMap_cons]
      cases kept f.rest with
      | none => exact List.Perm.refl _
      | some o => exact List.perm_middle

end View

/-- The amounts of a plan add up to its total, one after the other. -/
def Totals (plan : MatchPlan) : Prop :=
  plan.matchList.foldlM (fun total t => add total t.amount) Decimal.ZERO = .ok plan.totalAmount

theorem Totals.fillMaker {plan plan' : MatchPlan} {price quantity : Decimal} {original : OrderEntry}
    (h : Totals plan) (hfill : plan.fillMaker price original quantity = .ok plan') : Totals plan' := by
  simp only [MatchPlan.fillMaker, bind_eq_ok, pure_eq_ok, ensure_eq_ok, exists_const] at hfill
  obtain ⟨value, -, rest, -, order, -, total, htotal, _, -, -, rfl⟩ := hfill
  rw [Totals, List.foldlM_append, bind_eq_ok]
  refine ⟨plan.totalAmount, h, ?_⟩
  rw [List.foldlM_cons, bind_eq_ok]
  exact ⟨total, htotal, rfl⟩

theorem Totals.planMaker {plan plan' : MatchPlan} {price : Decimal} {original : OrderEntry}
    (h : Totals plan) (hplan : plan.planMaker price original = .ok plan') : Totals plan' := by
  simp only [MatchPlan.planMaker, bind_eq_ok, ensure_eq_ok, exists_const] at hplan
  obtain ⟨_, -, -, -, hplan⟩ := hplan
  split at hplan
  · obtain rfl := pure_eq_ok.mp hplan
    exact h
  · obtain ⟨quantity, -, hplan⟩ := bind_eq_ok.mp hplan
    split at hplan
    · obtain rfl := pure_eq_ok.mp hplan
      exact h
    · exact h.fillMaker hplan

theorem Totals.planQueue {price : Decimal} {queue : List OrderEntry} {plan plan' : MatchPlan}
    {returned : Bool} (h : Totals plan)
    (hplan : MatchPlan.planQueue price plan queue = .ok (plan', returned)) : Totals plan' := by
  induction queue generalizing plan with
  | nil =>
    obtain ⟨rfl, -⟩ := Prod.mk.inj (pure_eq_ok.mp hplan)
    exact h
  | cons original queue ih =>
    rw [MatchPlan.planQueue] at hplan
    split at hplan
    · obtain ⟨rfl, -⟩ := Prod.mk.inj (pure_eq_ok.mp hplan)
      exact h
    · obtain ⟨next, hnext, hplan⟩ := bind_eq_ok.mp hplan
      exact ih (h.planMaker hnext) hplan

theorem Totals.planLevels {levels : List (Decimal × List OrderEntry)} {plan plan' : MatchPlan}
    (h : Totals plan) (hplan : plan.planLevels levels = .ok plan') : Totals plan' := by
  induction levels generalizing plan with
  | nil =>
    obtain rfl := pure_eq_ok.mp hplan
    exact h
  | cons level levels ih =>
    obtain ⟨price, queue⟩ := level
    rw [MatchPlan.planLevels] at hplan
    split at hplan
    · obtain rfl := pure_eq_ok.mp hplan
      exact h
    · obtain ⟨⟨next, returned⟩, hnext, hplan⟩ := bind_eq_ok.mp hplan
      have hnext' := h.planQueue hnext
      cases returned with
      | true =>
        obtain rfl := pure_eq_ok.mp hplan
        exact hnext'
      | false => exact ih hnext' hplan

theorem planOrder_totals {order : OrderEntry} {book : OrderBook} {plan : MatchPlan}
    (h : planOrder order book = .ok plan) : Totals plan := by
  obtain ⟨_, -, h⟩ := bind_eq_ok.mp h
  have hstart : Totals (MatchPlan.start order) := rfl
  exact hstart.planLevels h

end Market

end CexEngine
