import Mathlib.Data.Int.GCD
import Mathlib.RingTheory.Coprime.Lemmas
import Mathlib.Algebra.BigOperators.Group.List.Basic
import Mathlib.Tactic

/-!
# Greedy allocation

A demand is filled from a list of offers, in the order of the list: each offer
gives as much as the demand can take, and the rest of the list sees the demand
that is left.  `allocate` is the list of what was taken, with one entry per
offer, and `residual` the demand at the end.

A demand is a *quantity*, or a *budget* that pays `price * a / F` for an amount
`a`.  A budget only pays exact prices, so it takes the largest amount `a` with
`F ∣ price * a` that it covers (`largest`).

What greediness means is `Spent`: an offer has given all it has, or the demand
can take no more of it.  An offer is spent once it was visited (`spent_take`),
and stays so while the demand shrinks (`Spent.left`), hence

* `spent_residual`: at the end every offer is spent;
* `spent_before`: when an offer is visited every earlier one is.
-/

namespace Foundation
namespace Allocation

/-! ## Exact amounts within a budget -/

section Exact

variable {F budget price size a : ℤ}

/-- The smallest amount whose price is exact. -/
def step (F price : ℤ) : ℤ := F / (Int.gcd price F : ℤ)

/-- The amounts that can be bought: positive, within the offer, with an exact
price that the budget covers. -/
def Affordable (F budget price size a : ℤ) : Prop :=
  0 < a ∧ a ≤ size ∧ F ∣ price * a ∧ price * a ≤ budget * F

/-- The largest exact amount within a budget and an offer. -/
def largest (F budget price size : ℤ) : ℤ :=
  min (budget * F / price) size / step F price * step F price

theorem gcd_pos (hF : 0 < F) : (0 : ℤ) < Int.gcd price F := by
  exact_mod_cast Int.gcd_pos_of_ne_zero_right price hF.ne'

theorem step_pos (hF : 0 < F) : 0 < step F price :=
  Int.ediv_pos_of_pos_of_dvd hF (gcd_pos hF).le (Int.gcd_dvd_right ..)

/-- An amount has an exact price when it is a multiple of the step. -/
theorem dvd_mul_iff_step_dvd (hF : 0 < F) : F ∣ price * a ↔ step F price ∣ a := by
  have hg : (Int.gcd price F : ℤ) ≠ 0 := (gcd_pos hF).ne'
  have hsplit : F = Int.gcd price F * step F price :=
    (Int.mul_ediv_cancel' (Int.gcd_dvd_right ..)).symm
  have hp : price = Int.gcd price F * (price / Int.gcd price F) :=
    (Int.mul_ediv_cancel' (Int.gcd_dvd_left ..)).symm
  have hcop : IsCoprime (step F price) (price / Int.gcd price F) := by
    rw [Int.isCoprime_iff_gcd_eq_one, Int.gcd_comm]
    exact Int.gcd_ediv_gcd_ediv_gcd (Int.gcd_pos_of_ne_zero_right price hF.ne')
  constructor
  · intro h
    have h' : (Int.gcd price F : ℤ) * step F price ∣
        Int.gcd price F * (price / Int.gcd price F * a) := by
      rw [← mul_assoc, ← hsplit, ← hp]
      exact h
    exact hcop.dvd_of_dvd_mul_left (Int.dvd_of_mul_dvd_mul_left hg h')
  · intro h
    have h' : (Int.gcd price F : ℤ) * step F price ∣
        Int.gcd price F * (price / Int.gcd price F) * a := by
      rw [mul_assoc]
      exact mul_dvd_mul_left _ (h.mul_left _)
    rwa [← hsplit, ← hp] at h'

theorem largest_nonneg (hF : 0 < F) (hp : 0 < price) (hb : 0 ≤ budget) (hs : 0 ≤ size) :
    0 ≤ largest F budget price size := by
  have hmin : 0 ≤ min (budget * F / price) size :=
    le_min (Int.ediv_nonneg (mul_nonneg hb hF.le) hp.le) hs
  exact mul_nonneg (Int.ediv_nonneg hmin (step_pos hF).le) (step_pos hF).le

theorem largest_le_min (hF : 0 < F) :
    largest F budget price size ≤ min (budget * F / price) size :=
  Int.ediv_mul_le _ (step_pos hF).ne'

theorem largest_le (hF : 0 < F) : largest F budget price size ≤ size :=
  (largest_le_min hF).trans (min_le_right _ _)

theorem dvd_mul_largest (hF : 0 < F) : F ∣ price * largest F budget price size :=
  (dvd_mul_iff_step_dvd hF).mpr (Dvd.intro_left _ rfl)

theorem mul_largest_le (hF : 0 < F) (hp : 0 < price) :
    price * largest F budget price size ≤ budget * F := by
  rw [mul_comm]
  exact (Int.le_ediv_iff_mul_le hp).mp ((largest_le_min hF).trans (min_le_left _ _))

/-- Nothing larger is affordable. -/
theorem le_largest (hF : 0 < F) (hp : 0 < price) (h : Affordable F budget price size a) :
    a ≤ largest F budget price size := by
  obtain ⟨-, hsize, hdvd, hpay⟩ := h
  obtain ⟨k, rfl⟩ := (dvd_mul_iff_step_dvd hF).mp hdvd
  have hbudget : step F price * k ≤ budget * F / price :=
    (Int.le_ediv_iff_mul_le hp).mpr (by rw [mul_comm]; exact hpay)
  have hk : k ≤ min (budget * F / price) size / step F price :=
    (Int.le_ediv_iff_mul_le (step_pos hF)).mpr (by rw [mul_comm]; exact le_min hbudget hsize)
  rw [mul_comm]
  exact mul_le_mul_of_nonneg_right hk (step_pos hF).le

/-- After the largest amount was bought, the rest of the offer is out of reach of
the rest of the budget. -/
theorem not_affordable_after (hF : 0 < F) (hp : 0 < price) (hb : 0 ≤ budget) (hs : 0 ≤ size) :
    ¬ Affordable F (budget - price * largest F budget price size / F) price
      (size - largest F budget price size) a := by
  set q := largest F budget price size with hq
  rintro ⟨hpos, hsize, hdvd, hpay⟩
  have hexact : price * q / F * F = price * q := Int.ediv_mul_cancel (dvd_mul_largest hF)
  have hq0 : 0 ≤ q := largest_nonneg hF hp hb hs
  -- together with what was bought it would be a larger affordable amount
  have hmore : Affordable F budget price size (q + a) := by
    refine ⟨by omega, by omega, ?_, ?_⟩
    · rw [mul_add]
      exact dvd_add (dvd_mul_largest hF) hdvd
    · rw [sub_mul, hexact] at hpay
      rw [mul_add]
      linarith
  have := le_largest hF hp hmore
  omega

/-- A smaller budget affords no more. -/
theorem Affordable.mono {budget' : ℤ} (hF : 0 < F) (h : Affordable F budget price size a)
    (hle : budget ≤ budget') : Affordable F budget' price size a :=
  ⟨h.1, h.2.1, h.2.2.1, h.2.2.2.trans (mul_le_mul_of_nonneg_right hle hF.le)⟩

end Exact

/-! ## Demands -/

/-- How offers are read: their price, their size, and the unit in which prices
are exact. -/
structure Terms (ω : Type*) where
  F : ℤ
  price : ω → ℤ
  size : ω → ℤ
  F_pos : 0 < F

/-- An offer one can buy from. -/
structure Terms.Good {ω : Type*} (t : Terms ω) (o : ω) : Prop where
  price_pos : 0 < t.price o
  size_nonneg : 0 ≤ t.size o

/-- The price of an amount of an offer. -/
def Terms.value {ω : Type*} (t : Terms ω) (o : ω) (a : ℤ) : ℤ := t.price o * a / t.F

/-- What is still wanted: an amount, or anything that a budget can pay. -/
inductive Demand where
  | quantity (left : ℤ)
  | budget (left : ℤ)
  deriving DecidableEq

variable {ω : Type*} (t : Terms ω)

namespace Demand

def amount : Demand → ℤ
  | quantity left => left
  | budget left => left

/-- What a demand takes of an offer. -/
def take : Demand → ω → ℤ
  | quantity left, o => min left (t.size o)
  | budget left, o => largest t.F left (t.price o) (t.size o)

/-- The demand after an offer. -/
def left : Demand → ω → Demand
  | quantity left, o => quantity (left - take t (quantity left) o)
  | budget left, o => budget (left - t.value o (take t (budget left) o))

/-- An offer of which `a` was taken has nothing more for the demand. -/
def Spent : Demand → ω → ℤ → Prop
  | quantity left, o, a => left = 0 ∨ a = t.size o
  | budget left, o, a => ∀ x, ¬ Affordable t.F left (t.price o) (t.size o - a) x

variable {t} {d : Demand} {o o' : ω} {a : ℤ}

theorem take_nonneg (hd : 0 ≤ d.amount) (ho : t.Good o) : 0 ≤ d.take t o := by
  cases d with
  | quantity n => exact le_min hd ho.size_nonneg
  | budget b => exact largest_nonneg t.F_pos ho.price_pos hd ho.size_nonneg

theorem value_take_nonneg (hd : 0 ≤ d.amount) (ho : t.Good o) : 0 ≤ t.value o (d.take t o) :=
  Int.ediv_nonneg (mul_nonneg ho.price_pos.le (take_nonneg hd ho)) t.F_pos.le

theorem left_nonneg (hd : 0 ≤ d.amount) (ho : t.Good o) : 0 ≤ (d.left t o).amount := by
  cases d with
  | quantity n => exact sub_nonneg.mpr (min_le_left _ _)
  | budget b =>
    have hpay : t.price o * take t (budget b) o ≤ b * t.F := mul_largest_le t.F_pos ho.price_pos
    have hle : t.value o (take t (budget b) o) ≤ b :=
      (Int.ediv_le_ediv t.F_pos hpay).trans (Int.mul_ediv_cancel _ t.F_pos.ne').le
    exact sub_nonneg.mpr hle

/-- A demand of nothing takes nothing. -/
theorem take_of_amount_eq_zero (hd : d.amount = 0) (ho : t.Good o) : d.take t o = 0 := by
  cases d with
  | quantity n =>
    obtain rfl : n = 0 := hd
    exact min_eq_left ho.size_nonneg
  | budget b =>
    obtain rfl : b = 0 := hd
    have hpay : t.price o * take t (budget 0) o ≤ 0 * t.F := mul_largest_le t.F_pos ho.price_pos
    rw [zero_mul] at hpay
    exact le_antisymm (nonpos_of_mul_nonpos_right hpay ho.price_pos) (take_nonneg le_rfl ho)

theorem left_of_take_eq_zero (h : d.take t o = 0) : d.left t o = d := by
  cases d with
  | quantity n => rw [left, h, sub_zero]
  | budget b => rw [left, h, Terms.value, mul_zero, Int.zero_ediv, sub_zero]

/-- **Visiting an offer spends it.** -/
theorem spent_take (hd : 0 ≤ d.amount) (ho : t.Good o) :
    Spent t (d.left t o) o (d.take t o) := by
  cases d with
  | quantity n =>
    show n - min n (t.size o) = 0 ∨ min n (t.size o) = t.size o
    omega
  | budget b =>
    intro x
    exact not_affordable_after t.F_pos ho.price_pos hd ho.size_nonneg

/-- A spent offer stays spent while the demand is filled from others. -/
theorem Spent.left (hd : 0 ≤ d.amount) (ho' : t.Good o') (h : Spent t d o a) :
    Spent t (d.left t o') o a := by
  cases d with
  | quantity n =>
    rcases h with rfl | h
    · left
      rw [take_of_amount_eq_zero rfl ho', sub_zero]
    · exact Or.inr h
  | budget b =>
    intro x hx
    have hle : b - t.value o' (take t (budget b) o') ≤ b :=
      sub_le_self _ (value_take_nonneg hd ho')
    exact h x (hx.mono t.F_pos hle)

end Demand

/-! ## The allocation -/

/-- What is taken of every offer, in order. -/
def allocate : Demand → List ω → List (ω × ℤ)
  | _, [] => []
  | d, o :: os => (o, d.take t o) :: allocate (d.left t o) os

/-- The demand after all offers. -/
def residual : Demand → List ω → Demand
  | d, [] => d
  | d, o :: os => residual (d.left t o) os

variable {t} {d : Demand} {os os' : List ω}

theorem map_fst_allocate (d : Demand) (os : List ω) : (allocate t d os).map Prod.fst = os := by
  induction os generalizing d with
  | nil => rfl
  | cons o os ih => rw [allocate, List.map_cons, ih]

theorem allocate_append (d : Demand) (os os' : List ω) :
    allocate t d (os ++ os') = allocate t d os ++ allocate t (residual t d os) os' := by
  induction os generalizing d with
  | nil => rfl
  | cons o os ih => rw [List.cons_append, allocate, allocate, residual, ih, List.cons_append]

theorem residual_append (d : Demand) (os os' : List ω) :
    residual t d (os ++ os') = residual t (residual t d os) os' := by
  induction os generalizing d with
  | nil => rfl
  | cons o os ih => rw [List.cons_append, residual, residual, ih]

/-- A demand of nothing is filled by nothing. -/
theorem allocate_of_amount_eq_zero (hd : d.amount = 0) (hos : ∀ o ∈ os, t.Good o) :
    allocate t d os = os.map (fun o => (o, 0)) ∧ residual t d os = d := by
  induction os with
  | nil => exact ⟨rfl, rfl⟩
  | cons o os ih =>
    have htake := Demand.take_of_amount_eq_zero hd (hos o (List.mem_cons_self ..))
    obtain ⟨hall, hres⟩ := ih fun o' ho' => hos o' (List.mem_cons_of_mem _ ho')
    rw [allocate, residual, htake, Demand.left_of_take_eq_zero htake, hall, hres, List.map_cons]
    exact ⟨rfl, rfl⟩

theorem residual_nonneg (hd : 0 ≤ d.amount) (hos : ∀ o ∈ os, t.Good o) :
    0 ≤ (residual t d os).amount := by
  induction os generalizing d with
  | nil => exact hd
  | cons o os ih =>
    exact ih (Demand.left_nonneg hd (hos o (List.mem_cons_self ..)))
      fun o' ho' => hos o' (List.mem_cons_of_mem _ ho')

/-- A quantity shrinks by what was taken. -/
theorem residual_quantity (n : ℤ) (os : List ω) :
    residual t (.quantity n) os =
      .quantity (n - ((allocate t (.quantity n) os).map Prod.snd).sum) := by
  induction os generalizing n with
  | nil => simp [residual, allocate]
  | cons o os ih =>
    rw [residual, allocate, Demand.left, ih, List.map_cons, List.sum_cons]
    congr 1
    ring

/-- A budget shrinks by the price of what was taken. -/
theorem residual_budget (b : ℤ) (os : List ω) :
    residual t (.budget b) os =
      .budget (b - ((allocate t (.budget b) os).map fun e => t.value e.1 e.2).sum) := by
  induction os generalizing b with
  | nil => simp [residual, allocate]
  | cons o os ih =>
    rw [residual, allocate, Demand.left, ih, List.map_cons, List.sum_cons]
    congr 1
    ring

theorem Demand.Spent.residual (hd : 0 ≤ d.amount) (hos : ∀ o ∈ os, t.Good o) {o : ω} {a : ℤ}
    (h : Spent t d o a) : Spent t (residual t d os) o a := by
  induction os generalizing d with
  | nil => exact h
  | cons o' os ih =>
    have ho' := hos o' (List.mem_cons_self ..)
    exact ih (Demand.left_nonneg hd ho') (fun o'' h'' => hos o'' (List.mem_cons_of_mem _ h''))
      (h.left hd ho')

/-- **At the end every offer is spent.** -/
theorem spent_residual (hd : 0 ≤ d.amount) (hos : ∀ o ∈ os, t.Good o) {e : ω × ℤ}
    (he : e ∈ allocate t d os) : (residual t d os).Spent t e.1 e.2 := by
  induction os generalizing d with
  | nil => cases he
  | cons o os ih =>
    have ho := hos o (List.mem_cons_self ..)
    have hrest : ∀ o' ∈ os, t.Good o' := fun o' ho' => hos o' (List.mem_cons_of_mem _ ho')
    rcases List.mem_cons.mp he with rfl | he
    · exact (Demand.spent_take hd ho).residual (Demand.left_nonneg hd ho) hrest
    · exact ih (Demand.left_nonneg hd ho) hrest he

/-- The first entries are the allocation of the first offers. -/
theorem allocate_map_fst {pre post : List (ω × ℤ)} (h : allocate t d os = pre ++ post) :
    os = pre.map Prod.fst ++ post.map Prod.fst ∧ allocate t d (pre.map Prod.fst) = pre := by
  have hsplit : os = pre.map Prod.fst ++ post.map Prod.fst := by
    rw [← List.map_append, ← h, map_fst_allocate]
  refine ⟨hsplit, ?_⟩
  rw [hsplit, allocate_append] at h
  refine List.append_inj_left h ?_
  rw [← List.length_map Prod.fst, map_fst_allocate, List.length_map]

/-- An entry is what the demand of the moment takes. -/
theorem snd_eq_take {pre post : List (ω × ℤ)} {e : ω × ℤ}
    (h : allocate t d os = pre ++ e :: post) :
    e.2 = (residual t d (pre.map Prod.fst)).take t e.1 := by
  obtain ⟨hsplit, hpre⟩ := allocate_map_fst h
  rw [hsplit, allocate_append, hpre, List.append_cancel_left_eq, List.map_cons, allocate,
    List.cons.injEq] at h
  exact (congrArg Prod.snd h.1).symm

/-- **When an offer is visited, every earlier one is spent.** -/
theorem spent_before (hd : 0 ≤ d.amount) (hos : ∀ o ∈ os, t.Good o) {pre post : List (ω × ℤ)}
    (h : allocate t d os = pre ++ post) {e : ω × ℤ} (he : e ∈ pre) :
    (residual t d (pre.map Prod.fst)).Spent t e.1 e.2 := by
  obtain ⟨hsplit, hpre⟩ := allocate_map_fst h
  rw [← hpre] at he
  refine spent_residual hd (fun o ho => hos o ?_) he
  rw [hsplit]
  exact List.mem_append_left _ ho

/-! ## Where a quantity ends -/

/-- All that is offered. -/
def offered (t : Terms ω) (os : List ω) : ℤ := (os.map t.size).sum

/-- What is left of a quantity is what it exceeds the offers by. -/
theorem residual_quantity_eq {n : ℤ} (hn : 0 ≤ n) (hos : ∀ o ∈ os, t.Good o) :
    residual t (.quantity n) os = .quantity (max 0 (n - offered t os)) := by
  induction os generalizing n with
  | nil => simp [residual, offered, hn]
  | cons o os ih =>
    have hrest : ∀ o' ∈ os, t.Good o' := fun o' ho' => hos o' (List.mem_cons_of_mem _ ho')
    have hsize := (hos o (List.mem_cons_self ..)).size_nonneg
    have hoffered : 0 ≤ offered t os := by
      refine List.sum_nonneg fun x hx => ?_
      obtain ⟨o', ho', rfl⟩ := List.mem_map.mp hx
      exact (hrest o' ho').size_nonneg
    have hcons : offered t (o :: os) = t.size o + offered t os := by
      rw [offered, List.map_cons, List.sum_cons, offered]
    have htake : Demand.take t (.quantity n) o = min n (t.size o) := rfl
    rw [residual, Demand.left, htake, ih (by omega) hrest, hcons]
    congr 1
    omega

/-- The offer in which a quantity ends, and the part of it that is taken: the offers
before it are taken whole. -/
def endsIn (t : Terms ω) : ℤ → List ω → Option (ω × ℤ)
  | _, [] => none
  | n, o :: os =>
    if t.size o ≤ n then endsIn t (n - t.size o) os else if 0 < n then some (o, n) else none

/-- A quantity ends in an offer of which it does not have all. -/
theorem endsIn_eq_some {n : ℤ} {e : ω × ℤ} (h : endsIn t n os = some e) :
    e.1 ∈ os ∧ 0 < e.2 ∧ e.2 < t.size e.1 := by
  induction os generalizing n with
  | nil => cases h
  | cons o os ih =>
    rw [endsIn] at h
    split at h
    · obtain ⟨hmem, hpart⟩ := ih h
      exact ⟨List.mem_cons_of_mem _ hmem, hpart⟩
    · next hlt =>
      split at h
      · next hpos =>
        cases h
        exact ⟨List.mem_cons_self .., hpos, not_le.mp hlt⟩
      · cases h

/-- **A quantity takes nothing of an offer, all of it, or ends in it.** -/
theorem endsIn_of_mem {n : ℤ} (hn : 0 ≤ n) (hos : ∀ o ∈ os, t.Good o) {e : ω × ℤ}
    (he : e ∈ allocate t (.quantity n) os) :
    e.2 = 0 ∨ e.2 = t.size e.1 ∨ endsIn t n os = some e := by
  induction os generalizing n with
  | nil => cases he
  | cons o os ih =>
    have hrest : ∀ o' ∈ os, t.Good o' := fun o' ho' => hos o' (List.mem_cons_of_mem _ ho')
    rcases le_or_gt (t.size o) n with hle | hlt
    · have htake : Demand.take t (.quantity n) o = t.size o := min_eq_right hle
      rw [allocate, htake] at he
      rw [endsIn, if_pos hle]
      rcases List.mem_cons.mp he with rfl | he
      · exact Or.inr (Or.inl rfl)
      · rw [Demand.left, htake] at he
        exact ih (sub_nonneg.mpr hle) hrest he
    · have htake : Demand.take t (.quantity n) o = n := min_eq_left hlt.le
      rw [allocate, htake] at he
      rw [endsIn, if_neg (not_le.mpr hlt)]
      rcases List.mem_cons.mp he with rfl | he
      · rcases hn.eq_or_lt with rfl | hpos
        · exact Or.inl rfl
        · exact Or.inr (Or.inr (if_pos hpos))
      · -- the quantity has ended, so nothing is taken of the others
        rw [Demand.left, htake, sub_self] at he
        rw [(allocate_of_amount_eq_zero rfl hrest).1] at he
        obtain ⟨o', -, rfl⟩ := List.mem_map.mp he
        exact Or.inl rfl

end Allocation
end Foundation
