import CexEngine.Engine.BookCommit

/-!
# The plain commit

`apply_prepared_orders` as it could be written without care for its cost: every level is
looked up in the changes, every order of a changed level is replaced or dropped, and the
orders that are left are counted.

* `plainOrders`, `plainCommit`: the levels, and the side.
* `applyLevels_plain`: what the rounds over a list of changes leave, level by level.
* `applyPreparedOrders_eq_plainCommit`: the loops of the source compute the plain commit.  The
  changes need not keep ids, and the ids of different levels need not differ.
-/

namespace CexEngine

open Foundation Foundation.FiniteMap

namespace OrderBookSide

/-! ## The plain commit -/

/-- A queue after the changes of its level.  A level without changes stays as it is. -/
def plainQueue (changed : Option (Finmap fun _ : UInt64 => OrderEntry))
    (queue : List OrderEntry) : Option (List OrderEntry) :=
  match changed with
  | none => some queue
  | some changed => nonempty (queue.filterMap (replace fun id => changed.lookup id))

/-- A level with a new queue, if there is one. -/
def plainLevel (f : Decimal → List OrderEntry → Option (List OrderEntry))
    (level : Decimal × List OrderEntry) : Option (Decimal × List OrderEntry) :=
  (f level.1 level.2).map fun queue => (level.1, queue)

theorem fst_of_plainLevel {f : Decimal → List OrderEntry → Option (List OrderEntry)}
    {level level' : Decimal × List OrderEntry} (h : plainLevel f level = some level') :
    level'.1 = level.1 := by
  obtain ⟨queue, -, rfl⟩ := Option.map_eq_some_iff.mp h
  rfl

/-- The levels of a side after a set of changes. -/
def plainOrders (orders : PriceMap (List OrderEntry))
    (changes : PriceMap (Finmap fun _ : UInt64 => OrderEntry)) : PriceMap (List OrderEntry) where
  entries := orders.entries.filterMap (plainLevel fun p => plainQueue (changes.find? p))
  sorted := orders.sorted.filterMap _ fun a b hab a' ha b' hb => by
    rw [fst_of_plainLevel ha, fst_of_plainLevel hb]
    exact hab

/-- The number of orders of a map of queues. -/
def countOrders (orders : PriceMap (List OrderEntry)) : ℕ :=
  (orders.entries.map fun level => level.2.length).sum

/-- The plain commit: every level is rewritten, and the orders are counted. -/
def plainCommit (s : OrderBookSide) (changes : PriceMap (Finmap fun _ : UInt64 => OrderEntry)) :
    OrderBookSide :=
  ⟨plainOrders s.orders changes, countOrders (plainOrders s.orders changes)⟩

theorem countOrders_eq (s : OrderBookSide) : countOrders s.orders = s.flat.length := by
  rw [countOrders, flat, List.length_flatMap]

/-! ## The loops compute it -/

/-- Writing one queue, as a rewriting of all levels. -/
theorem entries_setQueue {orders : PriceMap (List OrderEntry)} {p : Decimal}
    {queue : List OrderEntry} (h : orders.find? p = some queue)
    (g : List OrderEntry → List OrderEntry) :
    (setQueue orders p (g queue)).entries = orders.entries.filterMap
      (plainLevel fun p' q => if p'.raw = p.raw then nonempty (g q) else some q) := by
  obtain ⟨pre, k, post, hk, hentries, hother, hup, herase⟩ := SortedMap.entries_split h
  have hsame : ∀ levels : List (Decimal × List OrderEntry), (∀ e ∈ levels, e.1.raw ≠ p.raw) →
      levels.filterMap (plainLevel fun p' q => if p'.raw = p.raw then nonempty (g q) else some q) =
        levels := by
    intro levels hlevels
    have hsome : ∀ e ∈ levels,
        plainLevel (fun p' q => if p'.raw = p.raw then nonempty (g q) else some q) e = some e := by
      intro e he
      simp only [plainLevel, if_neg (hlevels e he), Option.map_some]
    rw [List.filterMap_congr hsome, List.filterMap_some]
  rw [hentries, List.filterMap_append, hsame pre fun e he => hother e (List.mem_append_left _ he),
    List.filterMap_cons, hsame post fun e he => hother e (List.mem_append_right _ he)]
  simp only [plainLevel, hk, if_true]
  unfold setQueue nonempty
  cases g queue with
  | nil => exact herase
  | cons o queue' => exact hup _

/-- The changes of a level, in a list of changes. -/
abbrev changesAt (changes : List (Decimal × Finmap fun _ : UInt64 => OrderEntry)) (p : Decimal) :
    Option (Finmap fun _ : UInt64 => OrderEntry) :=
  SortedMap.findEntries Decimal.raw p changes

/-- **The rounds over a list of changes.** -/
theorem applyLevels_plain {changes : List (Decimal × Finmap fun _ : UInt64 => OrderEntry)}
    {s : OrderBookSide} (hsorted : changes.Pairwise fun a b => a.1.raw < b.1.raw)
    (hcount : s.totalOrders = s.flat.length)
    (hmem : ∀ level ∈ changes, ∃ queue, s.orders.find? level.1 = some queue ∧
      (queue.map OrderEntry.id).Nodup ∧
      ∀ id next, level.2.lookup id = some next → ∃ o ∈ queue, o.id = id) :
    ∃ s', s.applyLevels changes = .ok s' ∧ s'.totalOrders = s'.flat.length ∧
      s'.orders.entries =
        s.orders.entries.filterMap (plainLevel fun p => plainQueue (changesAt changes p)) := by
  induction changes generalizing s with
  | nil =>
    refine ⟨s, rfl, hcount, ?_⟩
    exact (List.filterMap_some (l := s.orders.entries)).symm
  | cons level changes ih =>
    obtain ⟨p, changed⟩ := level
    obtain ⟨queue, hqueue, hids, hin⟩ := hmem _ (List.mem_cons_self ..)
    obtain ⟨A, B, hflat, hset⟩ := setQueue_split hqueue
    have hlater : ∀ level ∈ changes, level.1.raw ≠ p.raw := fun level hl =>
      (List.rel_of_pairwise_cons hsorted hl).ne'
    have hlen : (queue.filterMap (replace fun id => changed.lookup id)).length ≤ queue.length :=
      List.length_filterMap_le _ _
    have hbefore : s.totalOrders = A.length + queue.length + B.length := by
      rw [hcount, hflat, List.length_append, List.length_append]
    have happly := applyLevel_eq hqueue hids hin (by omega)
    set s₁ : OrderBookSide :=
      ⟨setQueue s.orders p (queue.filterMap (replace fun id => changed.lookup id)),
        s.totalOrders - (queue.length -
          (queue.filterMap (replace fun id => changed.lookup id)).length)⟩ with hs₁
    have hcount₁ : s₁.totalOrders = s₁.flat.length := by
      rw [hs₁, hset, List.length_append, List.length_append]
      show s.totalOrders - _ = _
      omega
    obtain ⟨s', hs', hcount', hentries'⟩ := ih hsorted.of_cons hcount₁ fun level hl => by
      obtain ⟨q, hq, hrest⟩ := hmem level (List.mem_cons_of_mem _ hl)
      refine ⟨q, ?_, hrest⟩
      rw [hs₁, find?_setQueue, if_neg (hlater level hl)]
      exact hq
    refine ⟨s', ?_, hcount', ?_⟩
    · rw [applyLevels, happly]
      exact hs'
    · -- a level is rewritten by this round or by the later ones, not by both
      have hstart := entries_setQueue hqueue fun q =>
        q.filterMap (replace fun id => changed.lookup id)
      rw [hentries', hs₁, hstart, List.filterMap_filterMap]
      refine List.filterMap_congr fun e _ => ?_
      obtain ⟨p', q⟩ := e
      simp only [plainLevel, changesAt, SortedMap.findEntries_cons]
      by_cases hp : p'.raw = p.raw
      · have hnone : SortedMap.findEntries Decimal.raw p' changes = none :=
          SortedMap.findEntries_eq_none fun level hl => hp ▸ hlater level hl
        rw [if_pos hp, if_pos hp.symm]
        show _ = (nonempty (q.filterMap (replace fun id => changed.lookup id))).map _
        cases nonempty (q.filterMap (replace fun id => changed.lookup id)) with
        | none => rfl
        | some q' =>
          show (plainQueue (SortedMap.findEntries Decimal.raw p' changes) q').map _ = _
          rw [hnone]
          rfl
      · rw [if_neg hp, if_neg (Ne.symm hp)]
        rfl

/-- **The commit is the plain one.**  On a side whose queues have distinct ids and whose counter
is right, with changes that concern levels of the side and orders of their queues, the loops
neither fail nor panic, and what they leave is the plain commit. -/
theorem applyPreparedOrders_eq_plainCommit {s : OrderBookSide}
    {changes : PriceMap (Finmap fun _ : UInt64 => OrderEntry)}
    (hids : ∀ p queue, s.orders.find? p = some queue → (queue.map OrderEntry.id).Nodup)
    (hcount : s.totalOrders = countOrders s.orders)
    (hchanges : ∀ p changed, changes.find? p = some changed →
      ∃ queue, s.orders.find? p = some queue ∧
        ∀ id next, changed.lookup id = some next → ∃ o ∈ queue, o.id = id) :
    s.applyPreparedOrders changes = .ok (s.plainCommit changes) := by
  obtain ⟨s', hs', hcount', hentries⟩ := applyLevels_plain changes.sorted
    (hcount.trans (countOrders_eq s)) fun level hl => by
      obtain ⟨queue, hqueue, hin⟩ := hchanges level.1 level.2 (SortedMap.find?_of_mem hl)
      exact ⟨queue, hqueue, hids _ _ hqueue, hin⟩
  have horders : s'.orders = plainOrders s.orders changes := SortedMap.ext hentries
  rw [applyPreparedOrders, hs', plainCommit, ← horders, countOrders_eq, ← hcount']

/-- Three sells at one price: the first is used up, the second is passed over, and the third
is partly filled. -/
def sideWithThree : OrderBookSide :=
  ⟨⟨[(Decimal.ONE, [.limit 1 1 false Decimal.ONE Decimal.ONE, .limit 2 2 false Decimal.ONE
    Decimal.ONE, .limit 3 3 false Decimal.ONE (.ofScaled 2 0)])], List.pairwise_singleton _ _⟩, 3⟩

def firstAndThird : PriceMap (Finmap fun _ : UInt64 => OrderEntry) :=
  ⟨[(Decimal.ONE, ((∅ : Finmap fun _ : UInt64 => OrderEntry).insert 1
    (.limit 1 1 false Decimal.ONE 0)).insert 3 (.limit 3 3 false Decimal.ONE Decimal.ONE))],
    List.pairwise_singleton _ _⟩

theorem applyPreparedOrders_eq_plainCommit_three :
    (sideWithThree.plainCommit firstAndThird).orders.entries = [(Decimal.ONE,
        [.limit 2 2 false Decimal.ONE Decimal.ONE, .limit 3 3 false Decimal.ONE Decimal.ONE])] ∧
      sideWithThree.applyPreparedOrders firstAndThird =
        .ok (sideWithThree.plainCommit firstAndThird) := by
  refine ⟨by decide +kernel, applyPreparedOrders_eq_plainCommit ?_ rfl ?_⟩
  · intro p queue h
    obtain ⟨k, hk, hmem⟩ := SortedMap.find?_eq_some_iff.mp h
    cases List.mem_singleton.mp hmem
    decide +kernel
  · intro p changed h
    obtain ⟨k, hk, hmem⟩ := SortedMap.find?_eq_some_iff.mp h
    cases List.mem_singleton.mp hmem
    refine ⟨_, SortedMap.find?_eq_some_iff.mpr ⟨_, hk, List.mem_singleton_self _⟩, ?_⟩
    intro id next hnext
    rw [lookup_insert_eq, lookup_insert_eq] at hnext
    by_cases hthree : id = 3
    · exact ⟨.limit 3 3 false Decimal.ONE (.ofScaled 2 0), by simp, hthree.symm⟩
    · rw [if_neg hthree] at hnext
      by_cases hone : id = 1
      · exact ⟨.limit 1 1 false Decimal.ONE Decimal.ONE, by simp, hone.symm⟩
      · rw [if_neg hone, Finmap.lookup_empty] at hnext
        cases hnext

end OrderBookSide

end CexEngine
