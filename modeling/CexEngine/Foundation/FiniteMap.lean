import Mathlib.Data.Finmap
import Mathlib.Algebra.BigOperators.Finsupp.Basic
import Mathlib.Tactic

/-!
# Finite maps as finitely supported functions

Hash maps are modelled by Mathlib's `Finmap`: two maps are equal exactly when all
their lookups are.  What a development proves about the *contents* of a map is
usually additive: a total over all entries, or what is due under one key.  This
file reads a map through a valuation of its values,

    weights f m : α →₀ M,        weights f m k = f v   when `m` holds `v` at `k`,

so that an insertion is the addition of a single weight (`weights_insert`), and
any additive functional of the map follows.

`lookup_insert_eq` is lookup after insertion as one equation, and
`lookup_union_eq` the same for a left-biased union.
-/

namespace Foundation
namespace FiniteMap

variable {α β M : Type*} [DecidableEq α]

/-! ## Lookup -/

theorem lookup_insert_eq (m : Finmap fun _ : α => β) (k k' : α) (v : β) :
    (m.insert k v).lookup k' = if k' = k then some v else m.lookup k' := by
  split
  · next h => rw [h, Finmap.lookup_insert]
  · next h => exact Finmap.lookup_insert_of_ne m h

theorem lookup_union_eq (m n : Finmap fun _ : α => β) (k : α) :
    (m ∪ n).lookup k = (m.lookup k).or (n.lookup k) := by
  by_cases h : k ∈ m
  · obtain ⟨v, hv⟩ := Finmap.mem_iff.mp h
    rw [Finmap.lookup_union_left h, hv, Option.some_or]
  · rw [Finmap.lookup_union_right h, Finmap.lookup_eq_none.mpr h, Option.none_or]

/-! ## Weights -/

/-- The weight of every key: the valuation of what is stored there, and zero
where nothing is. -/
noncomputable def weights [Zero M] (f : β → M) (m : Finmap fun _ : α => β) : α →₀ M :=
  Finsupp.onFinset m.keys (fun k => (m.lookup k).elim 0 f) fun k hk => by
    rw [Finmap.mem_keys]
    by_contra h
    rw [Finmap.lookup_eq_none.mpr h] at hk
    exact hk rfl

theorem weights_apply [Zero M] (f : β → M) (m : Finmap fun _ : α => β) (k : α) :
    weights f m k = (m.lookup k).elim 0 f := rfl

theorem weights_apply_some [Zero M] {f : β → M} {m : Finmap fun _ : α => β} {k : α} {v : β}
    (h : m.lookup k = some v) : weights f m k = f v := by
  rw [weights_apply, h, Option.elim_some]

theorem weights_apply_none [Zero M] {f : β → M} {m : Finmap fun _ : α => β} {k : α}
    (h : m.lookup k = none) : weights f m k = 0 := by
  rw [weights_apply, h, Option.elim_none]

@[simp] theorem weights_empty [Zero M] (f : β → M) :
    weights f (∅ : Finmap fun _ : α => β) = 0 := by
  ext k
  rw [weights_apply, Finmap.lookup_empty, Option.elim_none, Finsupp.zero_apply]

/-- An insertion adds one weight: the new value's minus the old one's. -/
theorem weights_insert [AddCommGroup M] (f : β → M) (m : Finmap fun _ : α => β) (k : α) (v : β) :
    weights f (m.insert k v) = weights f m + Finsupp.single k (f v - weights f m k) := by
  ext k'
  rw [Finsupp.add_apply, weights_apply, lookup_insert_eq]
  by_cases h : k' = k
  · rw [if_pos h, h, Option.elim_some, Finsupp.single_eq_same, add_sub_cancel]
  · rw [if_neg h, Finsupp.single_eq_of_ne h, add_zero, weights_apply]

/-- The total weight of a map, over all keys. -/
noncomputable def total [AddCommMonoid M] (f : β → M) (m : Finmap fun _ : α => β) : M :=
  (weights f m).sum fun _ x => x

@[simp] theorem total_empty [AddCommMonoid M] (f : β → M) :
    total f (∅ : Finmap fun _ : α => β) = 0 := by
  rw [total, weights_empty, Finsupp.sum_zero_index]

theorem total_insert [AddCommGroup M] (f : β → M) (m : Finmap fun _ : α => β) (k : α) (v : β) :
    total f (m.insert k v) = total f m + (f v - weights f m k) := by
  rw [total, weights_insert, Finsupp.sum_add_index' (fun _ => rfl) (fun _ _ _ => rfl),
    Finsupp.sum_single_index rfl, total]

/-- A map with no weight. -/
theorem total_eq_zero [AddCommMonoid M] {f : β → M} {m : Finmap fun _ : α => β}
    (h : ∀ k v, m.lookup k = some v → f v = 0) : total f m = 0 :=
  Finset.sum_eq_zero fun k _ => by
    cases hk : m.lookup k with
    | none => exact weights_apply_none hk
    | some v => rw [weights_apply_some hk, h k v hk]

/-- A map with the weight of one entry. -/
theorem total_eq_single [AddCommMonoid M] {f : β → M} {m : Finmap fun _ : α => β} {k : α} {v : β}
    (hk : m.lookup k = some v) (h : ∀ k' v', m.lookup k' = some v' → k' ≠ k → f v' = 0) :
    total f m = f v := by
  rw [← weights_apply_some (f := f) hk]
  refine Finset.sum_eq_single k (fun k' _ hne => ?_) fun hmem => Finsupp.notMem_support_iff.mp hmem
  cases hk' : m.lookup k' with
  | none => exact weights_apply_none hk'
  | some v' => rw [weights_apply_some hk', h k' v' hk' hne]

section Order

variable {f : β → ℤ} {m : Finmap fun _ : α => β}

/-- Where no entry weighs less than nothing, neither does any key. -/
theorem weights_nonneg (h : ∀ k v, m.lookup k = some v → 0 ≤ f v) (k : α) : 0 ≤ weights f m k := by
  cases hk : m.lookup k with
  | none => exact (weights_apply_none hk).ge
  | some v =>
    rw [weights_apply_some hk]
    exact h k v hk

theorem total_nonneg (h : ∀ k v, m.lookup k = some v → 0 ≤ f v) : 0 ≤ total f m :=
  Finset.sum_nonneg fun k _ => weights_nonneg h k

/-- One entry weighs at most the total. -/
theorem le_total (h : ∀ k v, m.lookup k = some v → 0 ≤ f v) {k : α} {v : β}
    (hk : m.lookup k = some v) : f v ≤ total f m := by
  rw [← weights_apply_some (f := f) hk]
  by_cases hmem : k ∈ (weights f m).support
  · exact Finset.single_le_sum (fun k _ => weights_nonneg h k) hmem
  · rw [Finsupp.notMem_support_iff.mp hmem]
    exact total_nonneg h

end Order

end FiniteMap
end Foundation
