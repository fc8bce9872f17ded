import CexEngine.Engine.Matching
import CexEngine.Foundation.FiniteMap

/-!
# Writing a plan to the book

`apply_prepared_orders` pops each affected queue until the last changed order has
been seen.  What it computes is much simpler than how: every order of the side is
replaced by its planned successor, or dropped when that has nothing left, and
everything else keeps its place.

    flat side' = (flat side).filterMap (replace changed)

`popChanged_ok` is that statement for one queue, with the loop's accumulator,
`applyLevels_ok` for all price levels, and `applyPreparedOrders_ok` says it for
the makers a list of fills leaves behind.  All of them also say that the call does
not panic, which is where the book invariant is needed: a planned maker is found
where the plan saw it.
-/

namespace CexEngine

open Foundation Foundation.FiniteMap Amount

/-! ## Replacing orders -/

/-- The order that stays in the book, if any. -/
def kept (o : OrderEntry) : Option OrderEntry := if 0 < o.remainingAmount then some o else none

/-- An order after a set of changes, given by id. -/
def replace (changed : UInt64 → Option OrderEntry) (o : OrderEntry) : Option OrderEntry :=
  match changed o.id with
  | some next => kept next
  | none => some o

theorem replace_of_none {changed : UInt64 → Option OrderEntry} {o : OrderEntry}
    (h : changed o.id = none) : replace changed o = some o := by
  rw [replace, h]

theorem replace_of_some {changed : UInt64 → Option OrderEntry} {o next : OrderEntry}
    (h : changed o.id = some next) : replace changed o = kept next := by
  rw [replace, h]

theorem kept_eq_some {o o' : OrderEntry} : kept o = some o' ↔ 0 < o.remainingAmount ∧ o = o' := by
  unfold kept
  split <;> simp_all

/-- What is in the book afterwards: an order without a change, or a change with
something left. -/
theorem replace_eq_some {changed : UInt64 → Option OrderEntry} {o o' : OrderEntry} :
    replace changed o = some o' ↔
      (changed o.id = none ∧ o = o') ∨ (changed o.id = some o' ∧ 0 < o'.remainingAmount) := by
  unfold replace
  cases changed o.id with
  | none => simp
  | some next =>
    simp only [kept_eq_some, reduceCtorEq, false_and, false_or, Option.some.injEq]
    constructor
    · rintro ⟨hpos, rfl⟩
      exact ⟨rfl, hpos⟩
    · rintro ⟨rfl, hpos⟩
      exact ⟨hpos, rfl⟩

/-- Changes that concern no order of a list leave it as it is. -/
theorem filterMap_replace_of_none {changed : UInt64 → Option OrderEntry} {os : List OrderEntry}
    (h : ∀ o ∈ os, changed o.id = none) : os.filterMap (replace changed) = os := by
  rw [List.filterMap_congr fun o ho => replace_of_none (h o ho), List.filterMap_some]

/-- Changes keep ids. -/
def KeepsId (changed : UInt64 → Option OrderEntry) : Prop :=
  ∀ id next, changed id = some next → next.id = id

theorem KeepsId.id_eq {changed : UInt64 → Option OrderEntry} (h : KeepsId changed)
    {o o' : OrderEntry} (ho : replace changed o = some o') : o'.id = o.id := by
  rcases replace_eq_some.mp ho with ⟨-, rfl⟩ | ⟨hc, -⟩
  · rfl
  · exact h _ _ hc

theorem KeepsId.map_id_sublist {changed : UInt64 → Option OrderEntry} (h : KeepsId changed)
    (os : List OrderEntry) :
    ((os.filterMap (replace changed)).map OrderEntry.id).Sublist (os.map OrderEntry.id) := by
  induction os with
  | nil => exact List.Sublist.refl _
  | cons o os ih =>
    rw [List.filterMap_cons]
    cases ho : replace changed o with
    | none => exact ih.cons _
    | some o' =>
      rw [List.map_cons, List.map_cons, h.id_eq ho]
      exact ih.cons_cons _

/-- A queue that is written back, unless it is empty. -/
def nonempty (queue : List OrderEntry) : Option (List OrderEntry) :=
  if queue = [] then none else some queue

namespace OrderBookSide

/-! ## One queue -/

theorem pushBack_eq (aside queue : List OrderEntry) : pushBack aside queue = aside ++ queue := by
  induction aside with
  | nil => rfl
  | cons o aside ih =>
    show o :: pushBack aside queue = _
    rw [ih, List.cons_append]

/-- **The popping loop.**  It finds every changed order, and with the orders put
aside back in front the queue is the replaced one. -/
theorem popChanged_ok {queue : List OrderEntry} {changed : Finmap fun _ : UInt64 => OrderEntry}
    (aside : List OrderEntry) (hids : (queue.map OrderEntry.id).Nodup)
    (hmem : ∀ id next, changed.lookup id = some next → ∃ o ∈ queue, o.id = id) :
    ∃ r, popChanged queue changed aside = .ok r ∧
      pushBack r.2 r.1 = aside ++ queue.filterMap (replace fun id => changed.lookup id) := by
  induction queue generalizing changed aside with
  | nil =>
    have hempty : changed.keys = ∅ := by
      refine Finset.eq_empty_iff_forall_notMem.mpr fun id hid => ?_
      obtain ⟨next, hnext⟩ := Finmap.mem_iff.mp (Finmap.mem_keys.mp hid)
      obtain ⟨o, ho, -⟩ := hmem id next hnext
      cases ho
    refine ⟨([], aside), ?_, pushBack_eq aside []⟩
    unfold popChanged
    rw [if_pos hempty]
    rfl
  | cons o queue ih =>
    rw [List.map_cons, List.nodup_cons] at hids
    by_cases hempty : changed.keys = ∅
    · refine ⟨(o :: queue, aside), ?_, ?_⟩
      · unfold popChanged
        rw [if_pos hempty]
        rfl
      · rw [filterMap_replace_of_none fun o' _ => ?_, pushBack_eq]
        refine Finmap.lookup_eq_none.mpr fun hin => ?_
        rw [← Finmap.mem_keys, hempty] at hin
        cases hin
    · cases hl : changed.lookup o.id with
      | some next =>
        -- the change is used up; the rest of the queue has other ids
        have hother : ∀ o' ∈ queue, (changed.erase o.id).lookup o'.id = changed.lookup o'.id := by
          intro o' ho'
          refine Finmap.lookup_erase_ne fun heq => hids.1 ?_
          rw [← heq]
          exact List.mem_map_of_mem ho'
        have hmem' : ∀ id next, (changed.erase o.id).lookup id = some next →
            ∃ o' ∈ queue, o'.id = id := by
          intro id next' hnext
          have hne : id ≠ o.id := by
            rintro rfl
            rw [Finmap.lookup_erase] at hnext
            cases hnext
          rw [Finmap.lookup_erase_ne hne] at hnext
          obtain ⟨o', ho', rfl⟩ := hmem id next' hnext
          rcases List.mem_cons.mp ho' with rfl | ho'
          · exact absurd rfl hne
          · exact ⟨o', ho', rfl⟩
        have hrest : queue.filterMap (replace fun id => (changed.erase o.id).lookup id) =
            queue.filterMap (replace fun id => changed.lookup id) := by
          refine List.filterMap_congr fun o' ho' => ?_
          rw [replace, hother o' ho']
          rfl
        have hfirst : replace (fun id => changed.lookup id) o = kept next := replace_of_some hl
        by_cases hpos : 0 < next.remainingAmount
        · obtain ⟨r, hr, hback⟩ := ih (aside ++ [next]) hids.2 hmem'
          refine ⟨r, ?_, ?_⟩
          · rw [popChanged, if_neg hempty]
            simp only [hl, if_pos hpos]
            exact hr
          · rw [hback, hrest, List.filterMap_cons_some (hfirst.trans (kept_eq_some.mpr ⟨hpos, rfl⟩)),
              List.append_assoc, List.singleton_append]
        · obtain ⟨r, hr, hback⟩ := ih aside hids.2 hmem'
          refine ⟨r, ?_, ?_⟩
          · rw [popChanged, if_neg hempty]
            simp only [hl, if_neg hpos]
            exact hr
          · rw [hback, hrest, List.filterMap_cons_none (hfirst.trans (if_neg hpos))]
      | none =>
        obtain ⟨r, hr, hback⟩ := ih (aside ++ [o]) hids.2 fun id next hnext => by
          obtain ⟨o', ho', rfl⟩ := hmem id next hnext
          rcases List.mem_cons.mp ho' with rfl | ho'
          · rw [hl] at hnext
            cases hnext
          · exact ⟨o', ho', rfl⟩
        refine ⟨r, ?_, ?_⟩
        · rw [popChanged, if_neg hempty]
          simp only [hl]
          exact hr
        · rw [hback, List.filterMap_cons_some (replace_of_none hl), List.append_assoc,
            List.singleton_append]

/-! ## One price level -/

variable {pair : TradingPair} {buy : Bool} {s : OrderBookSide}

/-- The changes of a level belong to it: they keep ids, concern orders of its
queue, and what they keep may rest there. -/
structure Fits (pair : TradingPair) (buy : Bool) (p : Decimal) (queue : List OrderEntry)
    (changed : Finmap fun _ : UInt64 => OrderEntry) : Prop where
  keepsId : KeepsId fun id => changed.lookup id
  mem : ∀ id next, changed.lookup id = some next → ∃ o ∈ queue, o.id = id
  resting : ∀ id next, changed.lookup id = some next → 0 < next.remainingAmount →
    Resting pair buy p next

/-- Two orders of a side with one id rest at one price. -/
theorem Inv.price_unique (hs : s.Inv pair buy) (hids : (s.flat.map OrderEntry.id).Nodup)
    {p p' : Decimal} {queue queue' : List OrderEntry} {o o' : OrderEntry}
    (hq : s.orders.find? p = some queue) (hq' : s.orders.find? p' = some queue')
    (ho : o ∈ queue) (ho' : o' ∈ queue') (hid : o.id = o'.id) : p.raw = p'.raw := by
  have heq : o = o' := List.inj_on_of_nodup_map hids (mem_flat_iff.mpr ⟨p, queue, hq, ho⟩)
    (mem_flat_iff.mpr ⟨p', queue', hq', ho'⟩) hid
  have h : o.price.map Decimal.raw = some p.raw := (hs.resting p queue hq o ho).price
  have h' : o'.price.map Decimal.raw = some p'.raw := (hs.resting p' queue' hq' o' ho').price
  rw [heq] at h
  exact Option.some.inj (h.symm.trans h')

/-- One level, for any queue with distinct ids: its orders are replaced, in place, and the
counter goes down by the orders that are gone. -/
theorem applyLevel_eq {p : Decimal} {queue : List OrderEntry}
    {changed : Finmap fun _ : UInt64 => OrderEntry} (hqueue : s.orders.find? p = some queue)
    (hids : (queue.map OrderEntry.id).Nodup)
    (hmem : ∀ id next, changed.lookup id = some next → ∃ o ∈ queue, o.id = id)
    (hcount : queue.length ≤ s.totalOrders) :
    s.applyLevel p changed =
      .ok ⟨setQueue s.orders p (queue.filterMap (replace fun id => changed.lookup id)),
        s.totalOrders - (queue.length -
          (queue.filterMap (replace fun id => changed.lookup id)).length)⟩ := by
  obtain ⟨⟨rest, aside⟩, hpop, hback⟩ := popChanged_ok [] hids hmem
  rw [List.nil_append] at hback
  have hlen : (queue.filterMap (replace fun id => changed.lookup id)).length ≤ queue.length :=
    List.length_filterMap_le _ _
  simp only [applyLevel, hqueue, expect, hpop, bind, Except.bind, pure, Except.pure, hback,
    checkedSub]
  rw [if_pos hlen]
  simp only []
  rw [if_pos (by omega)]

/-- **One level.**  The orders of its queue are replaced, in place. -/
theorem applyLevel_ok (hs : s.Inv pair buy) (hids : (s.flat.map OrderEntry.id).Nodup)
    {p : Decimal} {queue : List OrderEntry} {changed : Finmap fun _ : UInt64 => OrderEntry}
    (hqueue : s.orders.find? p = some queue) (hfit : Fits pair buy p queue changed) :
    ∃ s', s.applyLevel p changed = .ok s' ∧ s'.Inv pair buy ∧
      s'.flat = s.flat.filterMap (replace fun id => changed.lookup id) ∧
      ∀ p', s'.orders.find? p' = if p'.raw = p.raw then
        nonempty (queue.filterMap (replace fun id => changed.lookup id)) else s.orders.find? p' := by
  obtain ⟨A, B, hflat, hset⟩ := setQueue_split hqueue
  have hnodup := hids
  rw [hflat, List.map_append, List.map_append] at hnodup
  have hqids : (queue.map OrderEntry.id).Nodup := (List.nodup_append.mp
    (List.nodup_append.mp hnodup).1).2.1
  -- the ids of the level occur nowhere else on the side
  have hnone : ∀ o ∈ A ++ B, changed.lookup o.id = none := by
    intro o ho
    cases hl : changed.lookup o.id with
    | none => rfl
    | some next =>
      obtain ⟨o', ho', hid⟩ := hfit.mem _ _ hl
      have hA := (List.nodup_append.mp (List.nodup_append.mp hnodup).1).2.2
      have hB := (List.nodup_append.mp hnodup).2.2
      rcases List.mem_append.mp ho with ho | ho
      · exact absurd hid.symm (hA _ (List.mem_map_of_mem ho) _ (List.mem_map_of_mem ho'))
      · refine absurd hid (hB _ ?_ _ (List.mem_map_of_mem ho))
        exact List.mem_append_right _ (List.mem_map_of_mem ho')
  have hnewflat : A ++ queue.filterMap (replace fun id => changed.lookup id) ++ B =
      s.flat.filterMap (replace fun id => changed.lookup id) := by
    rw [hflat, List.filterMap_append, List.filterMap_append,
      filterMap_replace_of_none fun o ho => hnone o (List.mem_append_left _ ho),
      filterMap_replace_of_none fun o ho => hnone o (List.mem_append_right _ ho)]
  have hlen : (queue.filterMap (replace fun id => changed.lookup id)).length ≤ queue.length :=
    List.length_filterMap_le _ _
  have hcount : s.totalOrders = A.length + queue.length + B.length := by
    rw [hs.counter, hflat, List.length_append, List.length_append]
  refine ⟨_, applyLevel_eq hqueue hqids hfit.mem (by omega), ?_, ?_, ?_⟩
  · refine hs.setQueue (fun o ho => ?_) ?_
    · obtain ⟨o', ho', hrep⟩ := List.mem_filterMap.mp ho
      rcases replace_eq_some.mp hrep with ⟨-, rfl⟩ | ⟨hl, hpos⟩
      · exact hs.resting p queue hqueue _ ho'
      · exact hfit.resting _ _ hl hpos
    · rw [hset, List.length_append, List.length_append]
      omega
  · rw [hset, hnewflat]
  · intro p'
    exact find?_setQueue ..

/-! ## All price levels -/

/-- The change of an id, over all levels. -/
def lookAll (changes : List (Decimal × Finmap fun _ : UInt64 => OrderEntry)) (id : UInt64) :
    Option OrderEntry :=
  changes.findSome? fun level => level.2.lookup id

theorem nonempty_bind (queue : List OrderEntry) (g : OrderEntry → Option OrderEntry) :
    ((nonempty queue).bind fun queue => nonempty (queue.filterMap g)) =
      nonempty (queue.filterMap g) := by
  unfold nonempty
  cases queue with
  | nil => rfl
  | cons o queue => rw [if_neg (List.cons_ne_nil _ _), Option.bind_some]

/-- **All levels.** -/
theorem applyLevels_ok {changes : List (Decimal × Finmap fun _ : UInt64 => OrderEntry)}
    (hs : s.Inv pair buy) (hids : (s.flat.map OrderEntry.id).Nodup)
    (hdistinct : changes.Pairwise fun a b => a.1.raw < b.1.raw)
    (hfit : ∀ level ∈ changes, ∃ queue, s.orders.find? level.1 = some queue ∧
      Fits pair buy level.1 queue level.2) :
    ∃ s', s.applyLevels changes = .ok s' ∧ s'.Inv pair buy ∧
      s'.flat = s.flat.filterMap (replace (lookAll changes)) ∧
      ∀ p, s'.orders.find? p = (s.orders.find? p).bind fun queue =>
        nonempty (queue.filterMap (replace (lookAll changes))) := by
  induction changes generalizing s with
  | nil =>
    have hid : ∀ os : List OrderEntry, os.filterMap (replace (lookAll [])) = os :=
      fun os => filterMap_replace_of_none fun _ _ => rfl
    refine ⟨s, rfl, hs, (hid _).symm, fun p => ?_⟩
    cases hp : s.orders.find? p with
    | none => rfl
    | some queue => rw [Option.bind_some, hid, nonempty, if_neg (hs.nonempty p queue hp)]
  | cons level changes ih =>
    obtain ⟨p, changed⟩ := level
    obtain ⟨queue, hqueue, hfits⟩ := hfit _ (List.mem_cons_self ..)
    obtain ⟨s₁, happly, hs₁, hflat₁, hfind₁⟩ := applyLevel_ok hs hids hqueue hfits
    have hlater : ∀ level ∈ changes, level.1.raw ≠ p.raw := fun level hl =>
      (List.rel_of_pairwise_cons hdistinct hl).ne'
    have hids₁ : (s₁.flat.map OrderEntry.id).Nodup := by
      rw [hflat₁]
      exact hids.sublist (hfits.keepsId.map_id_sublist _)
    obtain ⟨s', hs', hinv', hflat', hfind'⟩ := ih hs₁ hids₁ hdistinct.of_cons fun level hl => by
      obtain ⟨q, hq, hf⟩ := hfit level (List.mem_cons_of_mem _ hl)
      exact ⟨q, by rw [hfind₁, if_neg (hlater level hl)]; exact hq, hf⟩
    -- an id changed at this level is changed at no other
    have hdisjoint : ∀ id next, changed.lookup id = some next → lookAll changes id = none := by
      intro id next hnext
      refine List.findSome?_eq_none_iff.mpr fun level hl => ?_
      cases hl' : level.2.lookup id with
      | none => rfl
      | some next' =>
        obtain ⟨q, hq, hf⟩ := hfit level (List.mem_cons_of_mem _ hl)
        obtain ⟨o, ho, hoid⟩ := hfits.mem id next hnext
        obtain ⟨o', ho', hoid'⟩ := hf.mem id next' hl'
        exact absurd (hs.price_unique hids hq hqueue ho' ho (hoid'.trans hoid.symm)) (hlater level hl)
    have hcomp : ∀ o : OrderEntry, ((replace (fun id => changed.lookup id) o).bind
        (replace (lookAll changes))) = replace (lookAll ((p, changed) :: changes)) o := by
      intro o
      cases hl : changed.lookup o.id with
      | none =>
        rw [replace_of_none hl, Option.bind_some, replace, replace, lookAll, lookAll,
          List.findSome?_cons, hl]
      | some next =>
        have hall : lookAll ((p, changed) :: changes) o.id = some next := by
          rw [lookAll, List.findSome?_cons, hl]
        rw [replace_of_some hl, replace_of_some hall]
        cases hk : kept next with
        | none => rfl
        | some o' =>
          obtain ⟨-, rfl⟩ := kept_eq_some.mp hk
          have hid := hfits.keepsId _ _ hl
          rw [Option.bind_some, replace_of_none]
          rw [hid]
          exact hdisjoint _ _ hl
    have hcomp' : ∀ os : List OrderEntry,
        (os.filterMap (replace fun id => changed.lookup id)).filterMap (replace (lookAll changes)) =
          os.filterMap (replace (lookAll ((p, changed) :: changes))) := by
      intro os
      rw [List.filterMap_filterMap]
      exact List.filterMap_congr fun o _ => hcomp o
    refine ⟨s', ?_, hinv', ?_, fun p' => ?_⟩
    · rw [applyLevels, happly]
      exact hs'
    · rw [hflat', hflat₁, hcomp']
    · rw [hfind', hfind₁]
      by_cases hp : p'.raw = p.raw
      · have hq' : s.orders.find? p' = some queue := (SortedMap.find?_congr _ hp).trans hqueue
        rw [if_pos hp, nonempty_bind, hcomp', hq', Option.bind_some]
      · rw [if_neg hp]
        cases hq' : s.orders.find? p' with
        | none => rfl
        | some queue' =>
          have hsame : queue'.filterMap (replace fun id => changed.lookup id) = queue' := by
            refine filterMap_replace_of_none fun o ho => ?_
            cases hl : changed.lookup o.id with
            | none => rfl
            | some next =>
              obtain ⟨o', ho', hid⟩ := hfits.mem _ _ hl
              exact absurd (hs.price_unique hids hq' hqueue ho ho' hid.symm) hp
          rw [Option.bind_some, Option.bind_some, ← hcomp', hsame]

end OrderBookSide

/-! ## The makers of a plan -/

/-- The fills of a plan: each of an order that rests on the side, and no order
twice. -/
structure FillsOf (s : OrderBookSide) (fills : List Fill) : Prop where
  ok : ∀ f ∈ fills, f.Ok
  mem : ∀ f ∈ fills, ∃ queue, s.orders.find? f.price = some queue ∧ f.maker ∈ queue
  ids : (fills.map fun f => f.maker.id).Nodup

/-- The maker with an id after its fill. -/
def changedBy (fills : List Fill) (id : UInt64) : Option OrderEntry :=
  (fills.find? fun f => f.maker.id == id).map Fill.rest

section Fills

variable {s : OrderBookSide} {fills : List Fill} {pair : TradingPair} {buy : Bool}

theorem FillsOf.eq_of_id (h : FillsOf s fills) {f g : Fill} (hf : f ∈ fills) (hg : g ∈ fills)
    (hid : f.maker.id = g.maker.id) : f = g :=
  List.inj_on_of_nodup_map h.ids hf hg hid

theorem FillsOf.changedBy_eq_some (h : FillsOf s fills) {id : UInt64} {m : OrderEntry} :
    changedBy fills id = some m ↔ ∃ f ∈ fills, f.maker.id = id ∧ f.rest = m := by
  rw [changedBy, Option.map_eq_some_iff]
  constructor
  · rintro ⟨f, hf, rfl⟩
    exact ⟨f, List.mem_of_find?_eq_some hf, by simpa using List.find?_some hf, rfl⟩
  · rintro ⟨f, hf, rfl, rfl⟩
    refine ⟨f, ?_, rfl⟩
    cases hg : fills.find? fun g => g.maker.id == f.maker.id with
    | none => exact absurd (List.find?_eq_none.mp hg f hf) (by simp)
    | some g =>
      have hid : g.maker.id = f.maker.id := by simpa using List.find?_some hg
      rw [h.eq_of_id (List.mem_of_find?_eq_some hg) hf hid]

theorem FillsOf.keepsId (h : FillsOf s fills) : KeepsId (changedBy fills) := by
  intro id next hnext
  obtain ⟨f, hf, rfl, rfl⟩ := h.changedBy_eq_some.mp hnext
  exact (h.ok f hf).id

/-- A replaced order keeps its frame. -/
theorem FillsOf.frame_of_replace (h : FillsOf s fills) (hids : (s.flat.map OrderEntry.id).Nodup)
    {o o' : OrderEntry} (ho : o ∈ s.flat) (hreplace : replace (changedBy fills) o = some o') :
    o'.frame = o.frame := by
  rcases replace_eq_some.mp hreplace with ⟨-, rfl⟩ | ⟨hchanged, -⟩
  · rfl
  · obtain ⟨f, hf, hid, rfl⟩ := h.changedBy_eq_some.mp hchanged
    obtain ⟨queue, hqueue, hmem⟩ := h.mem f hf
    have hmaker : f.maker ∈ s.flat := OrderBookSide.mem_flat_iff.mpr ⟨_, _, hqueue, hmem⟩
    rw [← List.inj_on_of_nodup_map hids hmaker ho hid]
    exact (h.ok f hf).frame

/-- **The makers of a side and its other orders.**  Applying the fills changes the
makers only. -/
theorem FillsOf.flat_perm (h : FillsOf s fills) (hids : (s.flat.map OrderEntry.id).Nodup) :
    ∃ others, s.flat.Perm (fills.map Fill.maker ++ others) ∧
      (s.flat.filterMap (replace (changedBy fills))).Perm
        (fills.filterMap (fun f => kept f.rest) ++ others) := by
  have hmem : ∀ f ∈ fills, f.maker ∈ s.flat := by
    intro f hf
    obtain ⟨queue, hqueue, hmem⟩ := h.mem f hf
    exact OrderBookSide.mem_flat_iff.mpr ⟨_, _, hqueue, hmem⟩
  have hmakers : (s.flat.filter fun o => (changedBy fills o.id).isSome).Perm
      (fills.map Fill.maker) := by
    have hnodup : (fills.map Fill.maker).Nodup := by
      refine List.Nodup.of_map OrderEntry.id ?_
      rw [List.map_map]
      exact h.ids
    refine (List.perm_ext_iff_of_nodup ((List.Nodup.of_map _ hids).filter _) hnodup).mpr fun o => ?_
    rw [List.mem_filter, List.mem_map]
    constructor
    · rintro ⟨ho, hsome⟩
      obtain ⟨m, hm⟩ := Option.isSome_iff_exists.mp hsome
      obtain ⟨f, hf, hid, -⟩ := h.changedBy_eq_some.mp hm
      exact ⟨f, hf, List.inj_on_of_nodup_map hids (hmem f hf) ho hid⟩
    · rintro ⟨f, hf, rfl⟩
      refine ⟨hmem f hf, ?_⟩
      rw [h.changedBy_eq_some.mpr ⟨f, hf, rfl, rfl⟩]
      rfl
  have hperm : s.flat.Perm (fills.map Fill.maker ++
      s.flat.filter fun o => !(changedBy fills o.id).isSome) :=
    (List.filter_append_perm _ _).symm.trans (hmakers.append_right _)
  refine ⟨_, hperm, (hperm.filterMap _).trans ?_⟩
  rw [List.filterMap_append, List.filterMap_map]
  refine List.Perm.of_eq (congrArg₂ _ ?_ ?_)
  · refine List.filterMap_congr fun f hf => ?_
    exact replace_of_some (h.changedBy_eq_some.mpr ⟨f, hf, rfl, rfl⟩)
  · have hnone : ∀ o ∈ s.flat.filter (fun o => !(changedBy fills o.id).isSome),
        replace (changedBy fills) o = some o := by
      intro o ho
      refine replace_of_none ?_
      simpa using (List.mem_filter.mp ho).2
    rw [List.filterMap_congr hnone, List.filterMap_some]

/-- **What a side loses by fills**: the sum over the fills. -/
theorem FillsOf.sum_flat (h : FillsOf s fills) (hids : (s.flat.map OrderEntry.id).Nodup)
    (w : OrderEntry → ℤ) :
    ((s.flat.filterMap (replace (changedBy fills))).map w).sum =
      (s.flat.map w).sum - (fills.map fun f => w f.maker - (kept f.rest).elim 0 w).sum := by
  obtain ⟨others, hbefore, hafter⟩ := h.flat_perm hids
  have hkept : ((fills.filterMap fun f => kept f.rest).map w).sum =
      ((fills.map Fill.maker).map w).sum -
        (fills.map fun f => w f.maker - (kept f.rest).elim 0 w).sum := by
    clear hbefore hafter h
    induction fills with
    | nil => rfl
    | cons f fills ih =>
      rw [List.filterMap_cons]
      simp only [List.map_cons, List.sum_cons]
      cases kept f.rest with
      | none =>
        rw [Option.elim_none, ih]
        omega
      | some o =>
        simp only [List.map_cons, List.sum_cons, Option.elim_some, ih]
        omega
  rw [(hbefore.map w).sum_eq, (hafter.map w).sum_eq, List.map_append, List.map_append,
    List.sum_append, List.sum_append, hkept]
  omega

/-- A maker that is not used up may rest where it was. -/
theorem Fill.Ok.resting {f : Fill} (h : f.Ok) (hrest : Resting pair buy f.price f.maker)
    (hpos : 0 < f.rest.remainingAmount) : Resting pair buy f.price f.rest := by
  obtain ⟨hshape, -, p, a, fi, r, hl⟩ := (validate_limit_iff hrest.limit).mp hrest.valid
  obtain ⟨q, r', fi', hq, hr', hfi', hrq, hfq, heq⟩ := Fill.filledMaker_ok h.rest
  obtain rfl : r = r' := Except.ok.inj (hl.remaining.symm.trans hr')
  obtain rfl : fi = fi' := Except.ok.inj (hl.filled.symm.trans hfi')
  have hlimit : f.rest.orderSide = "limit" :=
    (OrderEntry.congr_frame OrderEntry.orderSide h.frame).trans hrest.limit
  refine ⟨(validate_limit_iff hlimit).mpr ⟨hshape.of_frame h.frame, fun hf => (by cases hf), p, a,
    fi + q, r - q, ?_⟩, hlimit, ?_, ?_, ?_⟩
  · have hprice : f.rest.price = f.maker.price := OrderEntry.congr_frame OrderEntry.price h.frame
    have hamount : f.rest.amount = f.maker.amount := by rw [heq]
    have hquote : f.rest.remainingQuoteAmount = f.maker.remainingQuoteAmount := by rw [heq]
    refine ⟨?_, hl.price_pos, ?_, hfq, hrq, (pos_iff_units hrq).mp hpos, ?_, ?_, ?_⟩
    · rw [hprice, hamount]
      exact hl.price
    · rw [hamount]
      exact hl.amount
    · rw [← hl.balance]
      ring
    · exact (OrderEntry.congr_frame OrderEntry.quoteAmount h.frame).trans hl.noBudget.1
    · exact hquote.trans hl.noBudget.2
  · exact (OrderEntry.congr_frame OrderEntry.orderType h.frame).trans hrest.side
  · rw [OrderEntry.congr_frame OrderEntry.price h.frame]
    exact hrest.price
  · exact (OrderEntry.congr_frame OrderEntry.pair h.frame).trans hrest.pair

/-- The changed maker under a price and an id. -/
def changedAt (makers : PriceMap (Finmap fun _ : UInt64 => OrderEntry)) (p : Decimal)
    (id : UInt64) : Option OrderEntry :=
  (makers.find? p).bind fun changed => changed.lookup id

theorem changedAt_addMaker (makers : PriceMap (Finmap fun _ : UInt64 => OrderEntry)) (f : Fill)
    (p : Decimal) (id : UInt64) :
    changedAt (addMaker makers f) p id =
      if p.raw = f.price.raw ∧ id = f.rest.id then some f.rest else changedAt makers p id := by
  rw [changedAt, addMaker, SortedMap.find?_upsert]
  by_cases hp : p.raw = f.price.raw
  · rw [if_pos hp, Option.bind_some, lookup_insert_eq]
    by_cases hid : id = f.rest.id
    · rw [if_pos hid, if_pos ⟨hp, hid⟩]
    · rw [if_neg hid, if_neg fun h => hid h.2, changedAt, SortedMap.find?_congr makers hp]
      cases makers.find? f.price with
      | none => exact Finmap.lookup_empty id
      | some changed => rfl
  · rw [if_neg hp, if_neg fun h => hp h.1, changedAt]

/-- The makers of a plan are what its fills left behind. -/
theorem changedAt_foldl {fills : List Fill} (hids : (fills.map fun f => f.rest.id).Nodup)
    {p : Decimal} {id : UInt64} {m : OrderEntry} :
    changedAt (fills.foldl addMaker SortedMap.empty) p id = some m ↔
      ∃ f ∈ fills, p.raw = f.price.raw ∧ f.rest.id = id ∧ f.rest = m := by
  induction fills using List.reverseRecOn with
  | nil =>
    constructor
    · intro h
      cases h
    · rintro ⟨f, hf, -⟩
      cases hf
  | append_singleton fills f ih =>
    rw [List.map_append, List.nodup_append] at hids
    obtain ⟨hids, -, hlast⟩ := hids
    rw [List.foldl_append, List.foldl_cons, List.foldl_nil, changedAt_addMaker]
    by_cases hf : p.raw = f.price.raw ∧ id = f.rest.id
    · rw [if_pos hf]
      constructor
      · intro h
        exact ⟨f, by simp, hf.1, hf.2.symm, Option.some.inj h⟩
      · rintro ⟨g, hg, -, hid, rfl⟩
        rcases List.mem_append.mp hg with hg | hg
        · exact absurd (hid.trans hf.2) (hlast _ (List.mem_map_of_mem hg) _ (by simp))
        · rw [List.mem_singleton.mp hg]
    · rw [if_neg hf, ih hids]
      constructor
      · rintro ⟨g, hg, h⟩
        exact ⟨g, List.mem_append_left _ hg, h⟩
      · rintro ⟨g, hg, hp, hid, hm⟩
        rcases List.mem_append.mp hg with hg | hg
        · exact ⟨g, hg, hp, hid, hm⟩
        · rw [List.mem_singleton.mp hg] at hp hid
          exact absurd ⟨hp, hid.symm⟩ hf

theorem FillsOf.rest_ids (h : FillsOf s fills) : (fills.map fun f => f.rest.id).Nodup := by
  rw [List.map_congr_left fun f hf => (h.ok f hf).id]
  exact h.ids

theorem FillsOf.lookAll_eq (h : FillsOf s fills) :
    OrderBookSide.lookAll (fills.foldl addMaker SortedMap.empty).entries = changedBy fills := by
  have hsome : ∀ id m, OrderBookSide.lookAll (fills.foldl addMaker SortedMap.empty).entries id =
      some m → changedBy fills id = some m := by
    intro id m hm
    obtain ⟨level, hlevel, hl⟩ := List.exists_of_findSome?_eq_some hm
    have hat : changedAt (fills.foldl addMaker SortedMap.empty) level.1 id = some m := by
      rw [changedAt, SortedMap.find?_of_mem hlevel]
      exact hl
    obtain ⟨f, hf, -, hid, hrest⟩ := (changedAt_foldl h.rest_ids).mp hat
    exact h.changedBy_eq_some.mpr ⟨f, hf, (h.ok f hf).id.symm.trans hid, hrest⟩
  funext id
  cases hall : OrderBookSide.lookAll (fills.foldl addMaker SortedMap.empty).entries id with
  | some m => exact (hsome id m hall).symm
  | none =>
    cases hby : changedBy fills id with
    | none => rfl
    | some m =>
      obtain ⟨f, hf, hid, hrest⟩ := h.changedBy_eq_some.mp hby
      have hat := (changedAt_foldl h.rest_ids).mpr
        ⟨f, hf, rfl, (h.ok f hf).id.trans hid, hrest⟩
      obtain ⟨changed, hfind, hl⟩ := Option.bind_eq_some_iff.mp hat
      obtain ⟨k, -, hk⟩ := SortedMap.find?_eq_some_iff.mp hfind
      have := List.findSome?_eq_none_iff.mp hall (k, changed) hk
      rw [hl] at this
      cases this

/-- A level of the plan is the level of a fill. -/
theorem exists_fill_of_find? {fills : List Fill} {p : Decimal}
    {changed : Finmap fun _ : UInt64 => OrderEntry}
    (h : (fills.foldl addMaker SortedMap.empty).find? p = some changed) :
    ∃ f ∈ fills, p.raw = f.price.raw := by
  induction fills using List.reverseRecOn generalizing changed with
  | nil => cases h
  | append_singleton fills f ih =>
    rw [List.foldl_append, List.foldl_cons, List.foldl_nil, addMaker, SortedMap.find?_upsert] at h
    split at h
    · next hp => exact ⟨f, by simp, hp⟩
    · obtain ⟨g, hg, hp⟩ := ih h
      exact ⟨g, List.mem_append_left _ hg, hp⟩

/-- **Applying the makers of a plan.** -/
theorem applyPreparedOrders_ok (hs : s.Inv pair buy) (hids : (s.flat.map OrderEntry.id).Nodup)
    (h : FillsOf s fills) :
    ∃ s', s.applyPreparedOrders (fills.foldl addMaker SortedMap.empty) = .ok s' ∧
      s'.Inv pair buy ∧ s'.flat = s.flat.filterMap (replace (changedBy fills)) ∧
      ∀ p, s'.orders.find? p = (s.orders.find? p).bind fun queue =>
        nonempty (queue.filterMap (replace (changedBy fills))) := by
  rw [← h.lookAll_eq]
  refine OrderBookSide.applyLevels_ok hs hids (SortedMap.sorted _) fun level hlevel => ?_
  obtain ⟨f, hf, hp⟩ := exists_fill_of_find? (SortedMap.find?_of_mem hlevel)
  obtain ⟨queue, hqueue, -⟩ := h.mem f hf
  -- every maker of the level rests in the queue of the level
  have hat : ∀ {id m}, level.2.lookup id = some m →
      ∃ g ∈ fills, level.1.raw = g.price.raw ∧ g.rest.id = id ∧ g.rest = m ∧ g.maker ∈ queue := by
    intro id m hm
    have hat' : changedAt (fills.foldl addMaker SortedMap.empty) level.1 id = some m := by
      rw [changedAt, SortedMap.find?_of_mem hlevel]
      exact hm
    obtain ⟨g, hg, hgp, hid, hrest⟩ := (changedAt_foldl h.rest_ids).mp hat'
    obtain ⟨queue', hqueue', hmem⟩ := h.mem g hg
    rw [SortedMap.find?_congr _ (hgp.symm.trans hp), hqueue] at hqueue'
    cases hqueue'
    exact ⟨g, hg, hgp, hid, hrest, hmem⟩
  refine ⟨queue, (SortedMap.find?_congr _ hp).trans hqueue, ?_, ?_, ?_⟩
  · intro id next hnext
    obtain ⟨g, -, -, hid, rfl, -⟩ := hat hnext
    exact hid
  · intro id next hnext
    obtain ⟨g, hg, -, hid, -, hmem⟩ := hat hnext
    exact ⟨g.maker, hmem, (h.ok g hg).id.symm.trans hid⟩
  · intro id next hnext hpos
    obtain ⟨g, hg, hgp, -, rfl, hmem⟩ := hat hnext
    have hrest : Resting pair buy g.price g.maker :=
      (hs.resting _ _ ((SortedMap.find?_congr _ (hgp.symm.trans hp)).trans hqueue) _ hmem)
    exact ((h.ok g hg).resting hrest hpos).congr hgp

end Fills

/-! ## The whole commit -/

namespace OrderBook

variable {pair : TradingPair} {b : OrderBook}

theorem flat_perm (b : OrderBook) (buy : Bool) :
    b.flat.Perm ((b.side buy).flat ++ (b.side !buy).flat) := by
  cases buy with
  | true => exact List.Perm.refl _
  | false => exact List.perm_append_comm

theorem flat_setSide_perm (b : OrderBook) (buy : Bool) (s : OrderBookSide) :
    (b.setSide buy s).flat.Perm (s.flat ++ (b.side !buy).flat) := by
  have h := (b.setSide buy s).flat_perm buy
  rwa [side_setSide_same, side_setSide_not] at h

theorem Inv.ids_append (h : b.Inv pair) (buy : Bool) :
    (((b.side buy).flat ++ (b.side !buy).flat).map OrderEntry.id).Nodup :=
  ((b.flat_perm buy).map OrderEntry.id).nodup_iff.mp h.ids

theorem Inv.side_ids (h : b.Inv pair) (buy : Bool) : ((b.side buy).flat.map OrderEntry.id).Nodup := by
  have hids := h.ids_append buy
  rw [List.map_append] at hids
  exact (List.nodup_append.mp hids).1

/-- Writing one side. -/
theorem Inv.setSide (h : b.Inv pair) {buy : Bool} {s : OrderBookSide} (hs : s.Inv pair buy)
    (hids : ((s.flat ++ (b.side !buy).flat).map OrderEntry.id).Nodup) :
    (b.setSide buy s).Inv pair where
  tradingPair := by
    rw [tradingPair_setSide]
    exact h.tradingPair
  side := fun buy' => by
    by_cases hb : buy' = buy
    · rw [hb, side_setSide_same]
      exact hs
    · rw [show buy' = !buy from Bool.eq_not_of_ne hb, side_setSide_not]
      exact h.side _
  ids := ((b.flat_setSide_perm buy s).map OrderEntry.id).nodup_iff.mpr hids

theorem addOrder_eq {o : OrderEntry} {buy : Bool} (h : o.orderType = if buy then "buy" else "sell") :
    b.addOrder o = (b.side buy).addOrder o >>= fun s => pure (b.setSide buy s) := by
  cases buy with
  | true =>
    have hbuy : o.orderType = "buy" := h
    rw [addOrder, if_pos hbuy]
    rfl
  | false =>
    have hsell : o.orderType = "sell" := h
    have hne : o.orderType ≠ "buy" := by
      rw [hsell]
      decide
    rw [addOrder, if_neg hne, if_pos hsell]
    rfl

end OrderBook

/-- The queue of a price after an order was appended to its level. -/
def withOrder (orders : PriceMap (List OrderEntry)) (added : Option (Decimal × OrderEntry))
    (p : Decimal) : Option (List OrderEntry) :=
  match added with
  | none => orders.find? p
  | some (level, o) =>
    if p.raw = level.raw then some ((orders.find? level).getD [] ++ [o]) else orders.find? p

/-- **What a commit did.**  The makers were replaced in place, and the remainder
of the incoming order, if any, joined the end of its own queue. -/
structure Committed (book book' : OrderBook) (makerBuy : Bool) (fills : List Fill)
    (added : Option (Decimal × OrderEntry)) : Prop where
  makers_flat : (book'.side makerBuy).flat =
    (book.side makerBuy).flat.filterMap (replace (changedBy fills))
  makers_find : ∀ p, (book'.side makerBuy).orders.find? p =
    ((book.side makerBuy).orders.find? p).bind fun queue =>
      nonempty (queue.filterMap (replace (changedBy fills)))
  taker_flat : (book'.side !makerBuy).flat.Perm
    (added.toList.map Prod.snd ++ (book.side !makerBuy).flat)
  taker_find : ∀ p, (book'.side !makerBuy).orders.find? p =
    withOrder (book.side !makerBuy).orders added p

/-- The remainder of the incoming order that stays in the book, with its level. -/
def MatchPlan.remainder (plan : MatchPlan) : Option (Decimal × OrderEntry) :=
  if plan.order.orderSide = "limit" ∧ 0 < plan.order.remainingAmount then
    plan.order.price.map fun p => (p, plan.order)
  else none

/-- **The commit never panics, and keeps the invariant.** -/
theorem commitBook_ok {plan : MatchPlan} {book : OrderBook} {pair : TradingPair}
    {fills : List Fill} (hbook : book.Inv pair) (hfills : FillsOf (book.side plan.makerBuy) fills)
    (hmakers : plan.makers = fills.foldl addMaker SortedMap.empty)
    (hrests : plan.order.orderSide = "limit" → 0 < plan.order.remainingAmount →
      ∃ p, plan.order.price = some p ∧ Resting pair (!plan.makerBuy) p plan.order)
    (hfresh : ∀ o ∈ book.flat, o.id ≠ plan.order.id) :
    ∃ book', plan.commitBook book = .ok book' ∧ book'.Inv pair ∧
      Committed book book' plan.makerBuy fills plan.remainder := by
  obtain ⟨s, happly, hs, hflat, hfind⟩ :=
    applyPreparedOrders_ok (hbook.side plan.makerBuy) (hbook.side_ids _) hfills
  have hsub : ((s.flat ++ (book.side !plan.makerBuy).flat).map OrderEntry.id).Sublist
      (((book.side plan.makerBuy).flat ++ (book.side !plan.makerBuy).flat).map OrderEntry.id) := by
    rw [hflat, List.map_append, List.map_append]
    exact (hfills.keepsId.map_id_sublist _).append_right _
  have hmid : (book.setSide plan.makerBuy s).Inv pair :=
    hbook.setSide hs ((hbook.ids_append _).sublist hsub)
  by_cases hadd : plan.order.orderSide = "limit" ∧ 0 < plan.order.remainingAmount
  · obtain ⟨p, hp, hrest⟩ := hrests hadd.1 hadd.2
    obtain ⟨t, ht, htflat, htfind, htinv⟩ :=
      OrderBookSide.addOrder_ok hp (book.side !plan.makerBuy)
    have hrem : plan.remainder = some (p, plan.order) := by
      rw [MatchPlan.remainder, if_pos hadd, hp]
      rfl
    refine ⟨(book.setSide plan.makerBuy s).setSide (!plan.makerBuy) t, ?_, ?_, ?_⟩
    · rw [MatchPlan.commitBook, hmakers, happly]
      show (if plan.order.orderSide = "limit" ∧ 0 < plan.order.remainingAmount then
        (book.setSide plan.makerBuy s).addOrder plan.order else pure _) = _
      rw [if_pos hadd, OrderBook.addOrder_eq hrest.side, OrderBook.side_setSide_not, ht]
      rfl
    · refine hmid.setSide (htinv pair _ (hbook.side _) hrest) ?_
      rw [Bool.not_not, OrderBook.side_setSide_same,
        ((htflat.append_right s.flat).map OrderEntry.id).nodup_iff, List.cons_append,
        List.map_cons, List.nodup_cons]
      constructor
      · intro hmem
        obtain ⟨o, ho, hid⟩ := List.mem_map.mp hmem
        have hmem' : o.id ∈ ((book.side plan.makerBuy).flat ++
            (book.side !plan.makerBuy).flat).map OrderEntry.id :=
          hsub.subset (List.mem_map_of_mem (List.perm_append_comm.mem_iff.mp ho))
        obtain ⟨o', ho', hid'⟩ := List.mem_map.mp hmem'
        exact hfresh o' ((book.flat_perm _).mem_iff.mpr ho') (hid'.trans hid)
      · rw [(List.perm_append_comm.map OrderEntry.id).nodup_iff]
        exact (hbook.ids_append _).sublist hsub
    · rw [hrem]
      refine ⟨?_, fun p' => ?_, ?_, fun p' => ?_⟩
      · have h := (book.setSide plan.makerBuy s).side_setSide_not (!plan.makerBuy) t
        rw [Bool.not_not] at h
        rw [h, OrderBook.side_setSide_same, hflat]
      · have h := (book.setSide plan.makerBuy s).side_setSide_not (!plan.makerBuy) t
        rw [Bool.not_not] at h
        rw [h, OrderBook.side_setSide_same, hfind]
      · rw [OrderBook.side_setSide_same]
        exact htflat
      · rw [OrderBook.side_setSide_same]
        exact htfind p'
  · refine ⟨book.setSide plan.makerBuy s, ?_, hmid, ?_⟩
    · rw [MatchPlan.commitBook, hmakers, happly]
      show (if plan.order.orderSide = "limit" ∧ 0 < plan.order.remainingAmount then
        (book.setSide plan.makerBuy s).addOrder plan.order else pure _) = _
      rw [if_neg hadd]
      rfl
    · have hrem : plan.remainder = none := if_neg hadd
      rw [hrem]
      refine ⟨?_, fun p => ?_, ?_, fun p => ?_⟩
      · rw [OrderBook.side_setSide_same, hflat]
      · rw [OrderBook.side_setSide_same, hfind]
      · rw [OrderBook.side_setSide_not]
        exact List.Perm.refl _
      · rw [OrderBook.side_setSide_not]
        rfl

end CexEngine
