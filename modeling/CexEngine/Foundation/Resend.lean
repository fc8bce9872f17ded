import Mathlib.Data.List.Basic
import Mathlib.Data.List.Nodup
import Mathlib.Order.Basic
import Mathlib.Order.Lattice
import Mathlib.Data.Nat.Basic
import Mathlib.Tactic.Common

/-!
# Streams that are sent again

A sender reads a log from a position on, and may go back to an earlier position at any
time.  A receiver that drops every entry whose key it has seen before is left with a
prefix of the log.

* `firsts`: a stream without the entries whose key occurred before.
* `Resends`: the stream so far is a prefix of the log with repetitions.  It is kept when
  the next entry is sent (`Resends.send`), when the sender goes back (`Resends.rewind`)
  and when the log grows (`Resends.grow`).
* `exists_blocks_of_take`: a prefix of a log of blocks is some whole blocks and a proper
  prefix of the next.
-/

namespace Foundation

variable {α κ : Type*} [DecidableEq κ] {key : α → κ}

variable (key) in
/-- The entries of a stream whose key has not occurred before. -/
def firsts : List κ → List α → List α
  | _, [] => []
  | seen, a :: stream =>
    if key a ∈ seen then firsts seen stream else a :: firsts (key a :: seen) stream

theorem firsts_append_singleton (seen : List κ) (stream : List α) (a : α) :
    firsts key seen (stream ++ [a]) =
      firsts key seen stream ++ if key a ∈ seen ∨ key a ∈ stream.map key then [] else [a] := by
  induction stream generalizing seen with
  | nil => simp [firsts]
  | cons b stream ih =>
    rw [List.cons_append, firsts, firsts]
    by_cases hb : key b ∈ seen
    · rw [if_pos hb, if_pos hb, ih]
      congr 2
      simp only [List.map_cons, List.mem_cons, eq_iff_iff]
      constructor
      · rintro (h | h)
        · exact .inl h
        · exact .inr (.inr h)
      · rintro (h | h | h)
        · exact .inl h
        · exact .inl (h ▸ hb)
        · exact .inr h
    · rw [if_neg hb, if_neg hb, ih, List.cons_append]
      congr 3
      simp only [List.map_cons, List.mem_cons, eq_iff_iff]
      tauto

theorem map_firsts {β : Type*} {f : β → α} (seen : List κ) (stream : List β) :
    (firsts (key ∘ f) seen stream).map f = firsts key seen (stream.map f) := by
  induction stream generalizing seen with
  | nil => rfl
  | cons b stream ih =>
    rw [List.map_cons, firsts, firsts, Function.comp_apply]
    by_cases h : key (f b) ∈ seen
    · rw [if_pos h, if_pos h, ih]
    · rw [if_neg h, if_neg h, List.map_cons, ih]

theorem mem_of_mem_firsts {seen : List κ} {stream : List α} {a : α}
    (h : a ∈ firsts key seen stream) : a ∈ stream := by
  induction stream generalizing seen with
  | nil => cases h
  | cons b stream ih =>
    rw [firsts] at h
    split at h
    · exact List.mem_cons_of_mem _ (ih h)
    · rcases List.mem_cons.mp h with rfl | h
      · exact List.mem_cons_self ..
      · exact List.mem_cons_of_mem _ (ih h)

/-- No key is lost. -/
theorem mem_map_firsts {stream : List α} {k : κ} :
    k ∈ (firsts key [] stream).map key ↔ k ∈ stream.map key := by
  have hall : ∀ (seen : List κ) (stream : List α), k ∉ seen →
      (k ∈ (firsts key seen stream).map key ↔ k ∈ stream.map key) := by
    intro seen stream hseen
    induction stream generalizing seen with
    | nil => simp [firsts]
    | cons a stream ih =>
      rw [firsts]
      by_cases ha : key a ∈ seen
      · rw [if_pos ha, ih seen hseen, List.map_cons, List.mem_cons]
        constructor
        · exact .inr
        · rintro (rfl | h)
          · exact absurd ha hseen
          · exact h
      · rw [if_neg ha, List.map_cons, List.map_cons, List.mem_cons, List.mem_cons]
        by_cases hk : k = key a
        · simp [hk]
        · rw [ih (key a :: seen) (by simp [hk, hseen])]
  exact hall [] stream List.not_mem_nil

/-- A stream that repeats parts of a log: without the repetitions it is the log up to
`reach`, and the sender stands at `position`. -/
structure Resends (key : α → κ) (log : List α) (position reach : ℕ) (stream : List α) : Prop where
  first : firsts key [] stream = log.take reach
  position_le : position ≤ reach
  reach_le : reach ≤ log.length

namespace Resends

variable {log log' stream : List α} {position reach : ℕ}

theorem nil (log : List α) : Resends key log 0 0 [] := ⟨rfl, le_rfl, Nat.zero_le _⟩

theorem rewind (h : Resends key log position reach stream) {position' : ℕ}
    (hle : position' ≤ reach) : Resends key log position' reach stream :=
  ⟨h.first, hle, h.reach_le⟩

theorem grow (h : Resends key log position reach stream) (hlog : log <+: log') :
    Resends key log' position reach stream := by
  obtain ⟨rest, rfl⟩ := hlog
  refine ⟨?_, h.position_le, ?_⟩
  · rw [h.first, List.take_append_of_le_length h.reach_le]
  · rw [List.length_append]
    exact h.reach_le.trans (Nat.le_add_right ..)

/-- **The next entry of the log is sent**, for the first time or once more. -/
theorem send (h : Resends key log position reach stream) (hkeys : (log.map key).Nodup) {a : α}
    (ha : log[position]? = some a) :
    Resends key log (position + 1) (max reach (position + 1)) (stream ++ [a]) := by
  obtain ⟨hlt, hget⟩ := List.getElem?_eq_some_iff.mp ha
  refine ⟨?_, le_max_right .., max_le h.reach_le hlt⟩
  rw [firsts_append_singleton]
  rcases Nat.lt_or_ge position reach with hold | hnew
  · -- the entry was sent before
    have hmem : key a ∈ stream.map key := by
      rw [← mem_map_firsts, h.first]
      refine List.mem_map_of_mem ?_
      rw [← hget, List.mem_take_iff_getElem]
      exact ⟨position, by omega, rfl⟩
    rw [if_pos (.inr hmem), List.append_nil, h.first, max_eq_left hold]
  · obtain rfl : position = reach := le_antisymm h.position_le hnew
    have hmem : ¬ (key a ∈ ([] : List κ) ∨ key a ∈ stream.map key) := by
      rintro (hnil | hmem)
      · cases hnil
      · rw [← mem_map_firsts, h.first, List.map_take, List.mem_take_iff_getElem] at hmem
        obtain ⟨i, hi, heq⟩ := hmem
        have hi' : i < (log.map key).length := by omega
        have hpos : position < (log.map key).length := by rwa [List.length_map]
        have hsame : (log.map key)[i] = (log.map key)[position] := by
          rw [heq, List.getElem_map, hget]
        have := (List.Nodup.getElem_inj_iff hkeys).mp hsame
        omega
    rw [if_neg hmem, h.first, max_eq_right (Nat.le_succ _), List.take_add_one, ha]
    rfl

end Resends

/-- **A prefix of a log of blocks** is as many whole blocks as fit, and a part of the next. -/
theorem exists_blocks_of_take {blocks : List (List α)} {n : ℕ} (h : n ≤ blocks.flatten.length) :
    ∃ k ≤ blocks.length, ∃ rest, blocks.flatten.take n = (blocks.take k).flatten ++ rest ∧
      (rest = [] ∨ ∃ block, blocks[k]? = some block ∧ rest <+: block ∧ rest ≠ block) ∧
      ∀ j ≤ blocks.length, (blocks.take j).flatten.length ≤ n → j ≤ k := by
  induction blocks generalizing n with
  | nil => exact ⟨0, le_rfl, [], by simp, .inl rfl, fun j hj _ => hj⟩
  | cons block blocks ih =>
    rw [List.flatten_cons, List.length_append] at h
    rcases Nat.lt_or_ge n block.length with hlt | hge
    · refine ⟨0, Nat.zero_le _, block.take n, ?_, ?_, fun j _ hj => ?_⟩
      · rw [List.flatten_cons, List.take_append_of_le_length hlt.le]
        rfl
      · refine .inr ⟨block, rfl, List.take_prefix .., fun heq => ?_⟩
        have := congrArg List.length heq
        rw [List.length_take] at this
        omega
      · cases j with
        | zero => exact le_rfl
        | succ j =>
          rw [List.take_succ_cons, List.flatten_cons, List.length_append] at hj
          omega
    · obtain ⟨k, hk, rest, htake, hrest, hmax⟩ := ih (n := n - block.length) (by omega)
      refine ⟨k + 1, Nat.succ_le_succ hk, rest, ?_, ?_, fun j hj hn => ?_⟩
      · rw [List.flatten_cons, List.take_append, List.take_of_length_le hge, htake,
          List.take_succ_cons, List.flatten_cons, List.append_assoc]
      · rwa [List.getElem?_cons_succ]
      · cases j with
        | zero => exact Nat.zero_le _
        | succ j =>
          rw [List.take_succ_cons, List.flatten_cons, List.length_append] at hn
          exact Nat.succ_le_succ (hmax j (Nat.le_of_succ_le_succ hj) (by omega))

end Foundation
