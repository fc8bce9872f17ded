import Mathlib.Order.WellFounded
import Mathlib.Data.Nat.Basic
import Mathlib.Tactic.Common

/-!
# Progress under fair schedules

Threads take turns for ever.  A thread is scheduled fairly if again and again it moves or has to
wait, so a thread that need not wait moves at some time.

* `Fair`: every thread is scheduled fairly.
* `LeadsTo`: whenever the first property holds, the second one holds then or later.
* `Fair.leadsTo`: the rule of a measure and a helpful thread.  In every state one thread is named
  that need not wait.  Its moves bring the goal or lower the measure; the moves of the others do so
  too, or change neither the measure nor the name.
-/

namespace Foundation

/-- Whenever `P` holds, `Q` holds then or later. -/
def LeadsTo (P Q : ℕ → Prop) : Prop := ∀ i, P i → ∃ j, i ≤ j ∧ Q j

theorem LeadsTo.trans {P Q R : ℕ → Prop} (h : LeadsTo P Q) (h' : LeadsTo Q R) : LeadsTo P R := by
  intro i hi
  obtain ⟨j, hij, hj⟩ := h i hi
  obtain ⟨k, hjk, hk⟩ := h' j hj
  exact ⟨k, hij.trans hjk, hk⟩

variable {τ α : Type*} {moves waits : τ → ℕ → Prop}

/-- Every thread moves or waits, again and again. -/
def Fair (moves waits : τ → ℕ → Prop) : Prop := ∀ t i, ∃ j, i ≤ j ∧ (moves t j ∨ waits t j)

section Rule

variable [LT α] {P : α → τ → ℕ → Prop} {Q : ℕ → Prop}

/-- One step of the rule: the goal, a smaller measure, or nothing new and no move of the helpful
thread. -/
def Advances (moves : τ → ℕ → Prop) (P : α → τ → ℕ → Prop) (Q : ℕ → Prop) (a : α) (t : τ) (i : ℕ) :
    Prop :=
  Q (i + 1) ∨ (∃ b u, b < a ∧ P b u (i + 1)) ∨ (P a t (i + 1) ∧ ¬ moves t i)

/-- Up to any later time, the goal was met, or the measure was lowered, or nothing is new. -/
theorem advances_upto (hstep : ∀ a t i, P a t i → Advances moves P Q a t i) {a : α} {t : τ} {i : ℕ}
    (h : P a t i) {j : ℕ} (hij : i ≤ j) :
    (∃ k, i ≤ k ∧ Q k) ∨ (∃ k b u, i ≤ k ∧ b < a ∧ P b u k) ∨ P a t j := by
  induction j, hij using Nat.le_induction with
  | base => exact .inr (.inr h)
  | succ j hij ih =>
    rcases ih with hgoal | hlower | hsame
    · exact .inl hgoal
    · exact .inr (.inl hlower)
    · rcases hstep a t j hsame with hgoal | ⟨b, u, hb, hnext⟩ | ⟨hnext, -⟩
      · exact .inl ⟨j + 1, hij.trans j.le_succ, hgoal⟩
      · exact .inr (.inl ⟨j + 1, b, u, hij.trans j.le_succ, hb, hnext⟩)
      · exact .inr (.inr hnext)

/-- **Fair threads reach the goal**, if the helpful one need not wait. -/
theorem Fair.leadsTo [WellFoundedLT α] (hfair : Fair moves waits)
    (hready : ∀ a t i, P a t i → ¬ waits t i) (hstep : ∀ a t i, P a t i → Advances moves P Q a t i) :
    LeadsTo (fun i => ∃ a t, P a t i) Q := by
  rintro i ⟨a, t, h⟩
  induction a using WellFoundedLT.induction generalizing t i with
  | ind a ih =>
    have hlower : ∀ k b u, i ≤ k → b < a → P b u k → ∃ j, i ≤ j ∧ Q j := by
      intro k b u hik hb hk
      obtain ⟨j, hkj, hj⟩ := ih b hb k u hk
      exact ⟨j, hik.trans hkj, hj⟩
    obtain ⟨j, hij, hturn⟩ := hfair t i
    rcases advances_upto hstep h hij with hgoal | ⟨k, b, u, hik, hb, hk⟩ | hsame
    · exact hgoal
    · exact hlower k b u hik hb hk
    · have hmoves := hturn.resolve_right (hready a t j hsame)
      rcases hstep a t j hsame with hgoal | ⟨b, u, hb, hnext⟩ | ⟨-, hstill⟩
      · exact ⟨j + 1, hij.trans j.le_succ, hgoal⟩
      · exact hlower (j + 1) b u (hij.trans j.le_succ) hb hnext
      · exact absurd hmoves hstill

end Rule

end Foundation
