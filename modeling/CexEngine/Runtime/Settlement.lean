import CexEngine.Engine.Ledger
import CexEngine.Runtime.Submission

/-!
# Balances on a working copy

A submission computes its balances on a copy of the accounts it involves and
writes the copy back at the end.  `commitPrepared_moves` is the reason this is
the same as working on the cache itself: a movement of the copy is a movement of
the source, as long as it creates no account that was not asked for.

`settleAll_moves` adds up the trades of one submission.
-/

namespace CexEngine

open Foundation Foundation.FiniteMap Amount

namespace Submission

/-! ## Copying and writing back -/

/-- **The working copy.**  It holds the accounts asked for, as the source has
them. -/
theorem copyAccounts_lookup (source : BalanceCache) (accounts : List Account) (k : Account) :
    (copyAccounts source accounts).balances.lookup k =
      if k ∈ accounts then source.balances.lookup k else none := by
  have hfold : ∀ (accounts : List Account) (p : BalanceCache),
      (∀ k b, p.balances.lookup k = some b → source.balances.lookup k = some b) →
      ((accounts.foldl (fun p account => p.copyAccountFrom source account.1 account.2) p).balances.lookup
        k) = if k ∈ accounts then source.balances.lookup k else p.balances.lookup k := by
    intro accounts
    induction accounts with
    | nil => exact fun p _ => by simp
    | cons account accounts ih =>
      intro p hp
      have hcopy := BalanceCache.copyAccountFrom_lookup account hp
      rw [List.foldl_cons, ih, hcopy]
      · by_cases hk : k ∈ accounts
        · simp [hk]
        · by_cases hk' : k = account <;> simp [hk, hk']
      · intro k' b hb
        rw [hcopy] at hb
        split at hb
        · exact hb
        · exact hp k' b hb
  refine (hfold accounts BalanceCache.new fun k b hb => ?_).trans ?_
  · rw [BalanceCache.new, Finmap.lookup_empty] at hb
    cases hb
  · rw [BalanceCache.new, Finmap.lookup_empty]

/-- **Writing a working copy back.**  A movement that only creates accounts that
were copied is the same movement of the source. -/
theorem commitPrepared_moves {source prepared : BalanceCache} {accounts touched : List Account}
    {δ : Ledger} (h : BalanceCache.Moves (copyAccounts source accounts) prepared δ touched)
    (htouched : ∀ k ∈ touched, k ∈ accounts) :
    BalanceCache.Moves source (source.commitPrepared prepared) δ touched where
  ledger_eq := by
    ext1 k
    have hδ := congrFun (congrArg DFunLike.coe h.ledger_eq) k
    rw [Finsupp.add_apply] at hδ ⊢
    by_cases hk : k ∈ prepared.balances
    · have hacc : k ∈ accounts := by
        rcases h.created k hk with hk | hk
        · by_contra hne
          have := copyAccounts_lookup source accounts k
          rw [if_neg hne] at this
          exact Finmap.lookup_eq_none.mp this hk
        · exact htouched k hk
      have hsame : (copyAccounts source accounts).ledger k = source.ledger k := by
        rw [BalanceCache.ledger, weights_apply, copyAccounts_lookup, if_pos hacc]
        rfl
      rw [← hsame, ← hδ, BalanceCache.ledger, weights_apply]
      exact congrArg (Option.elim · _ _) (Finmap.lookup_union_left hk)
    · have hcopy : k ∉ (copyAccounts source accounts).balances := fun hmem => hk (h.mono k hmem)
      rw [BalanceCache.ledger, BalanceCache.ledger,
        weights_apply_none (Finmap.lookup_eq_none.mpr hk),
        weights_apply_none (Finmap.lookup_eq_none.mpr hcopy), zero_add] at hδ
      rw [← hδ, add_zero, BalanceCache.ledger, weights_apply]
      exact congrArg (Option.elim · _ _) (Finmap.lookup_union_right hk)
  valid := fun hvalid k b hb => by
    have hcopy : (copyAccounts source accounts).Valid := fun k b hb => by
      rw [copyAccounts_lookup] at hb
      split at hb
      · exact hvalid k b hb
      · cases hb
    change (prepared.balances ∪ source.balances).lookup k = some b at hb
    rw [lookup_union_eq] at hb
    rcases Option.or_eq_some_iff.mp hb with hb | ⟨-, hb⟩
    · exact h.valid hcopy k b hb
    · exact hvalid k b hb
  mono := fun k hk => Finmap.mem_union.mpr (Or.inr hk)
  created := fun k hk => by
    rcases Finmap.mem_union.mp hk with hk | hk
    · rcases h.created k hk with hk | hk
      · left
        by_contra hne
        have hnone := copyAccounts_lookup source accounts k
        rw [Finmap.lookup_eq_none.mpr hne, ite_self] at hnone
        exact Finmap.lookup_eq_none.mp hnone hk
      · exact Or.inr hk
    · exact Or.inl hk

/-! ## The trades of a submission -/

/-- The sum of what trades move, each in units. -/
inductive Settles : List MatchResult → Ledger → Prop
  | nil : Settles [] 0
  | cons {trade : MatchResult} {trades : List MatchResult} {δ : Ledger}
      {amount value buyerFee sellerFee : ℤ}
      (head : BalanceCache.Settleable trade amount value buyerFee sellerFee)
      (tail : Settles trades δ) :
      Settles (trade :: trades)
        (BalanceCache.tradeDelta trade amount value buyerFee sellerFee + δ)

/-- **Settling all trades.** -/
theorem settleAll_moves {trades : List MatchResult} {c c' : BalanceCache}
    (h : settleAll trades c = .ok c') :
    ∃ δ touched, Settles trades δ ∧ BalanceCache.Moves c c' δ touched ∧
      ∀ k ∈ touched, k ∈ trades.flatMap tradeAccounts := by
  induction trades generalizing c with
  | nil =>
    obtain rfl := pure_eq_ok.mp h
    exact ⟨0, [], .nil, .refl c, fun k hk => hk⟩
  | cons trade trades ih =>
    obtain ⟨mid, hmid, hrest⟩ := bind_eq_ok.mp h
    obtain ⟨u, hu⟩ := Mut.exec_eq_ok_iff.mp hmid
    obtain ⟨amount, value, buyerFee, sellerFee, hsettle, hmove⟩ :=
      BalanceCache.settleTrade_moves hu
    obtain ⟨δ, touched, hδ, hmoves, htouched⟩ := ih hrest
    refine ⟨_, _, .cons hsettle hδ, hmove.trans hmoves, fun k hk => ?_⟩
    rw [List.flatMap_cons, List.mem_append]
    rcases List.mem_append.mp hk with hk | hk
    · left
      simp only [tradeAccounts, List.mem_cons, List.not_mem_nil, or_false] at hk ⊢
      tauto
    · exact Or.inr (htouched k hk)

end Submission
end CexEngine
