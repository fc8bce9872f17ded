import CexEngine.Foundation.Fallible
import CexEngine.Foundation.FiniteMap
import Mathlib.Order.CompletePartialOrder

/-!
# What a call depends on

Two runs of the same call, on two maps that agree on a set of keys.  If the call reads
and writes only there, the runs end the same way and the maps still agree, while each
keeps its own contents elsewhere.

* `SameEnd R x y`: both calls finish, with results related by `R`, or both fail in the
  same way.
* `Twin K m₀ n₀ m n`: what holds of the two maps on the way.  It is kept when the same
  value is written to both at a key of `K` (`Twin.insert`).

* `Mut.Alike R x y s t`: the same for two runs of a program, with rules for its steps.

A state read place by place has *local* programs, which read and write only the places of
a set: `Local read K x`.  Local programs with disjoint places commute (`Local.comm`).
-/

namespace Foundation

/-! ## Ending the same way -/

/-- Two calls that both finish, with related results, or both fail alike. -/
inductive SameEnd {α β : Type} (R : α → β → Prop) : Except Fault α → Except Fault β → Prop
  | ok {a : α} {b : β} (h : R a b) : SameEnd R (.ok a) (.ok b)
  | error (e : Fault) : SameEnd R (.error e) (.error e)

namespace SameEnd

variable {α β γ δ : Type} {R : α → β → Prop} {S : γ → δ → Prop}

theorem bind {x : Except Fault α} {y : Except Fault β} {f : α → Except Fault γ}
    {g : β → Except Fault δ} (h : SameEnd R x y) (hfg : ∀ a b, R a b → SameEnd S (f a) (g b)) :
    SameEnd S (x >>= f) (y >>= g) := by
  cases h with
  | ok hab => exact hfg _ _ hab
  | error e => exact .error e

/-- The same call first, on both sides. -/
theorem bind_same (x : Except Fault α) {f : α → Except Fault γ} {g : α → Except Fault δ}
    (hfg : ∀ a, x = .ok a → SameEnd S (f a) (g a)) : SameEnd S (x >>= f) (x >>= g) := by
  cases x with
  | error e => exact .error e
  | ok a => exact hfg a rfl

theorem exists_right {x : Except Fault α} {y : Except Fault β} (h : SameEnd R x y) {a : α}
    (hx : x = .ok a) : ∃ b, y = .ok b ∧ R a b := by
  cases h with
  | ok hab =>
    cases hx
    exact ⟨_, rfl, hab⟩
  | error e => cases hx

/-- Calls whose related results a function identifies. -/
theorem map_eq {x : Except Fault α} {y : Except Fault γ} {S : α → γ → Prop} (h : SameEnd S x y)
    {f : α → γ} (hf : ∀ a c, S a c → f a = c) : x.map f = y := by
  cases h with
  | ok hac => exact congrArg Except.ok (hf _ _ hac)
  | error e => rfl

end SameEnd

/-! ## Two maps that agree on a set of keys -/

namespace FiniteMap

variable {α β : Type*} [DecidableEq α]

/-- Two maps `m` and `n`, changed from `m₀` and `n₀` in the same way and only at keys of
`K`. -/
structure Twin (K : Set α) (m₀ n₀ m n : Finmap fun _ : α => β) : Prop where
  agree : ∀ k ∈ K, m.lookup k = n.lookup k
  left : ∀ k ∉ K, m.lookup k = m₀.lookup k
  right : ∀ k ∉ K, n.lookup k = n₀.lookup k
  mono : ∀ k ∈ K, m.lookup k = none → m₀.lookup k = none

namespace Twin

variable {K : Set α} {m₀ n₀ m n : Finmap fun _ : α => β}

theorem refl (h : ∀ k ∈ K, m₀.lookup k = n₀.lookup k) : Twin K m₀ n₀ m₀ n₀ :=
  ⟨h, fun _ _ => rfl, fun _ _ => rfl, fun _ _ => id⟩

/-- Writing the same value to both. -/
theorem insert (h : Twin K m₀ n₀ m n) {k : α} (hk : k ∈ K) (v : β) :
    Twin K m₀ n₀ (m.insert k v) (n.insert k v) where
  agree := fun k' hk' => by rw [lookup_insert_eq, lookup_insert_eq, h.agree k' hk']
  left := fun k' hk' => by
    rw [Finmap.lookup_insert_of_ne _ (ne_of_mem_of_not_mem hk hk').symm]
    exact h.left k' hk'
  right := fun k' hk' => by
    rw [Finmap.lookup_insert_of_ne _ (ne_of_mem_of_not_mem hk hk').symm]
    exact h.right k' hk'
  mono := fun k' hk' hnone => by
    rw [lookup_insert_eq] at hnone
    split at hnone
    · cases hnone
    · exact h.mono k' hk' hnone

/-- Writing the same list of values to both. -/
theorem insertAll (h : Twin K m₀ n₀ m n) {entries : List (α × β)} (hk : ∀ e ∈ entries, e.1 ∈ K) :
    Twin K m₀ n₀ (entries.foldl (fun m e => m.insert e.1 e.2) m)
      (entries.foldl (fun n e => n.insert e.1 e.2) n) := by
  induction entries generalizing m n with
  | nil => exact h
  | cons e entries ih =>
    exact ih (h.insert (hk e (List.mem_cons_self ..)) e.2) fun e he =>
      hk e (List.mem_cons_of_mem _ he)

/-- Writing the same map to both. -/
theorem union (h : Twin K m₀ n₀ m n) {p : Finmap fun _ : α => β}
    (hp : ∀ k ∉ K, p.lookup k = none) : Twin K m₀ n₀ (p ∪ m) (p ∪ n) where
  agree := fun k hk => by rw [lookup_union_eq, lookup_union_eq, h.agree k hk]
  left := fun k hk => by
    rw [lookup_union_eq, hp k hk]
    exact h.left k hk
  right := fun k hk => by
    rw [lookup_union_eq, hp k hk]
    exact h.right k hk
  mono := fun k hk hnone => by
    rw [lookup_union_eq, Option.or_eq_none_iff] at hnone
    exact h.mono k hk hnone.2

end Twin

end FiniteMap

/-! ## Two runs of a program -/

namespace Mut

variable {σ τ α β : Type} {R : σ → σ → Prop} {s t : σ}

/-- Two runs that end alike: with the same result, and in related states. -/
def Alike (R : σ → σ → Prop) (x y : Mut σ α) (s t : σ) : Prop :=
  (x.run s).1 = (y.run t).1 ∧ R (x.run s).2 (y.run t).2

namespace Alike

variable {x y : Mut σ α} {f g : α → Mut σ β}

theorem pure (a : α) (h : R s t) : Alike R (Pure.pure a) (Pure.pure a) s t := ⟨rfl, h⟩

theorem mono {R' : σ → σ → Prop} (hx : Alike R x y s t) (h : ∀ s' t', R s' t' → R' s' t') :
    Alike R' x y s t := ⟨hx.1, h _ _ hx.2⟩

theorem bind (hx : Alike R x y s t) (hf : ∀ a s' t', R s' t' → Alike R (f a) (g a) s' t') :
    Alike R (x >>= f) (y >>= g) s t := by
  rcases hrun : x.run s with ⟨e | a, s'⟩
  · rcases hrun' : y.run t with ⟨e' | a', t'⟩
    · simp only [Alike, hrun, hrun', Mut.run_bind] at hx ⊢
      cases hx.1
      exact ⟨rfl, hx.2⟩
    · simp only [Alike, hrun, hrun', reduceCtorEq, false_and] at hx
  · rcases hrun' : y.run t with ⟨e' | a', t'⟩
    · simp only [Alike, hrun, hrun', reduceCtorEq, false_and] at hx
    · simp only [Alike, hrun, hrun', Mut.run_bind] at hx ⊢
      cases hx.1
      exact hf a s' t' hx.2

/-- A call that reads nothing, on both sides. -/
theorem lift_bind (x : Except Fault α) (h : R s t)
    (hf : ∀ a, x = .ok a → Alike R (f a) (g a) s t) :
    Alike R ((liftM x : Mut σ α) >>= f) ((liftM x : Mut σ α) >>= g) s t := by
  cases x with
  | error e => exact ⟨rfl, h⟩
  | ok a => exact hf a rfl

theorem lift (x : Except Fault α) (h : R s t) : Alike R (liftM x : Mut σ α) (liftM x) s t := ⟨rfl, h⟩

theorem get_bind {f g : σ → Mut σ β} (h : Alike R (f s) (g t) s t) :
    Alike R (get >>= f) (get >>= g) s t := h

theorem write {f g : σ → σ} (h : R (f s) (g t)) :
    Alike R (modify f : Mut σ PUnit) (modify g) s t := ⟨rfl, h⟩

theorem put {s' t' : σ} (h : R s' t') : Alike R (set s' : Mut σ PUnit) (set t') s t := ⟨rfl, h⟩

theorem attempt (h : Alike R x y s t) : Alike R x.attempt y.attempt s t := by
  rcases hrun : x.run s with ⟨(message | site) | a, s'⟩ <;>
    rcases hrun' : y.run t with ⟨(message' | site') | a', t'⟩ <;>
    simp only [Alike, hrun, hrun', reduceCtorEq, Except.error.injEq, Fault.err.injEq,
      Fault.panic.injEq, Except.ok.injEq, false_and] at h
  · rw [Alike, run_attempt_err hrun, run_attempt_err hrun', h.1]
    exact ⟨rfl, h.2⟩
  · rw [Alike, run_attempt_panic hrun, run_attempt_panic hrun', h.1]
    exact ⟨rfl, h.2⟩
  · rw [Alike, run_attempt_ok hrun, run_attempt_ok hrun', h.1]
    exact ⟨rfl, h.2⟩

theorem context (h : Alike R x y s t) (message : String) :
    Alike R (x.context message) (y.context message) s t := by
  rw [Alike, run_context, run_context, h.1]
  exact ⟨rfl, h.2⟩

/-- A call on a part of the state. -/
theorem zoom {get : τ → σ} {put : σ → τ → τ} {S : τ → τ → Prop} {u v : τ}
    (h : Alike (fun m n => S (put m u) (put n v)) x y (get u) (get v)) :
    Alike S (Mut.zoom get put x) (Mut.zoom get put y) u v := h

/-- What is left of a run that ended. -/
theorem sameEnd (h : Alike R x y s t) : SameEnd R (x.exec s) (y.exec t) := by
  rcases hrun : x.run s with ⟨e | a, s'⟩
  · rcases hrun' : y.run t with ⟨e' | a', t'⟩
    · simp only [Alike, hrun, hrun'] at h
      cases h.1
      simp only [exec, hrun, hrun']
      exact .error e
    · simp only [Alike, hrun, hrun', reduceCtorEq, false_and] at h
  · rcases hrun' : y.run t with ⟨e' | a', t'⟩
    · simp only [Alike, hrun, hrun', reduceCtorEq, false_and] at h
    · simp only [Alike, hrun, hrun'] at h
      simp only [exec, hrun, hrun']
      exact .ok h.2

end Alike

end Mut

/-! ## Calls on a part of the state -/

section Local

variable {κ σ : Type} {β : κ → Type} (read : (k : κ) → σ → β k)

/-- Two states with the same contents at the places of `K`. -/
def Agree (K : Set κ) (s t : σ) : Prop := ∀ k ∈ K, read k s = read k t

/-- Two states `s` and `t`, changed from `s₀` and `t₀` in the same way and only at places
of `K`. -/
structure Parallel (K : Set κ) (s₀ t₀ s t : σ) : Prop where
  agree : Agree read K s t
  left : Agree read Kᶜ s s₀
  right : Agree read Kᶜ t t₀

/-- A program that reads and writes the places of `K` only. -/
def Local {α : Type} (K : Set κ) (x : Mut σ α) : Prop :=
  ∀ s t, Agree read K s t → Mut.Alike (Parallel read K s t) x x s t

namespace Parallel

variable {read} {K : Set κ} {s₀ t₀ s t s' t' : σ}

theorem refl (h : Agree read K s t) : Parallel read K s t s t :=
  ⟨h, fun _ _ => rfl, fun _ _ => rfl⟩

/-- A further change of both. -/
theorem trans (h : Parallel read K s₀ t₀ s t) (h' : Parallel read K s t s' t') :
    Parallel read K s₀ t₀ s' t' :=
  ⟨h'.agree, fun k hk => (h'.left k hk).trans (h.left k hk),
    fun k hk => (h'.right k hk).trans (h.right k hk)⟩

end Parallel

namespace Local

variable {read} {α β' : Type} {K L : Set κ} {x : Mut σ α} {y : Mut σ β'}

theorem frame (hx : Local read K x) (s : σ) : Agree read Kᶜ (x.run s).2 s :=
  (hx s s fun _ _ => rfl).2.left

/-- After a program with other places, a program ends the same way. -/
theorem same_after (hx : Local read K x) (hy : Local read L y) (hKL : Disjoint K L) (s : σ) :
    (x.run (y.run s).2).1 = (x.run s).1 ∧ Agree read K (x.run (y.run s).2).2 (x.run s).2 := by
  have hagree : Agree read K (y.run s).2 s := fun k hk =>
    hy.frame s k (Set.disjoint_left.mp hKL hk)
  exact ⟨(hx _ _ hagree).1, (hx _ _ hagree).2.agree⟩

/-- **Programs with disjoint places commute.** -/
theorem comm (hread : ∀ s t, (∀ k, read k s = read k t) → s = t) (hx : Local read K x)
    (hy : Local read L y) (hKL : Disjoint K L) (s : σ) :
    (x.run (y.run s).2).1 = (x.run s).1 ∧ (y.run (x.run s).2).1 = (y.run s).1 ∧
      (x.run (y.run s).2).2 = (y.run (x.run s).2).2 := by
  obtain ⟨hxr, hxs⟩ := hx.same_after hy hKL s
  obtain ⟨hyr, hys⟩ := hy.same_after hx hKL.symm s
  refine ⟨hxr, hyr, hread _ _ fun k => ?_⟩
  by_cases hk : k ∈ K
  · exact (hxs k hk).trans (hy.frame _ k (Set.disjoint_left.mp hKL hk)).symm
  · rw [hx.frame _ k hk]
    by_cases hl : k ∈ L
    · exact (hys k hl).symm
    · rw [hy.frame _ k hl, hy.frame _ k hl, hx.frame _ k hk]

end Local

end Local

end Foundation
