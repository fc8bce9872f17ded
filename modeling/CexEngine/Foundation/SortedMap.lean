import Mathlib.Order.Basic
import Mathlib.Data.List.Pairwise
import Mathlib.Tactic

/-!
# Ordered maps

B-tree maps, as their entries in key order.  Keys are compared through a
projection `ord` to a linear order, so two keys may be different and still name
the same entry; as in a B-tree map, an update of an existing entry keeps the key
it was created with.

The order of the entries is a field of `SortedMap`, so every operation returns an
ordered map and no lemma carries an ordering hypothesis.

* `find?`, `upsert`, `erase`: lookup, the entry interface, removal;
* `find?_upsert`, `find?_erase`: what they do to lookups;
* `ext_find?`: equal lookups give equal entries, up to the choice of keys;
* `entries_split`, `entries_split_none`: the one entry an update rewrites or adds.
-/

namespace Foundation

universe u v w

/-- The entries of a B-tree map in strictly increasing key order. -/
structure SortedMap {κ : Type u} {ι : Type w} [LinearOrder ι] (ord : κ → ι) (ν : Type v) where
  entries : List (κ × ν)
  sorted : entries.Pairwise fun a b => ord a.1 < ord b.1

namespace SortedMap

variable {κ : Type u} {ι : Type w} [LinearOrder ι] {ord : κ → ι} {ν : Type v}

@[ext] theorem ext {m n : SortedMap ord ν} (h : m.entries = n.entries) : m = n := by
  cases m
  cases n
  cases h
  rfl

def empty : SortedMap ord ν := ⟨[], List.Pairwise.nil⟩

instance : Inhabited (SortedMap ord ν) := ⟨empty⟩

/-! ## The operations on entry lists -/

/-- Replace the value at a key, or insert one in order. -/
def upsertEntries (ord : κ → ι) (k : κ) (f : Option ν → ν) : List (κ × ν) → List (κ × ν)
  | [] => [(k, f none)]
  | e :: es =>
    if ord k < ord e.1 then (k, f none) :: e :: es
    else if ord e.1 < ord k then e :: upsertEntries ord k f es
    else (e.1, f (some e.2)) :: es

def findEntries (ord : κ → ι) (k : κ) : List (κ × ν) → Option ν
  | [] => none
  | e :: es => if ord e.1 = ord k then some e.2 else findEntries ord k es

theorem findEntries_cons (k : κ) (e : κ × ν) (es : List (κ × ν)) :
    findEntries ord k (e :: es) = if ord e.1 = ord k then some e.2 else findEntries ord k es := rfl

theorem ord_mem_upsertEntries {k : κ} {f : Option ν → ν} {es : List (κ × ν)} {a : κ × ν}
    (ha : a ∈ upsertEntries ord k f es) : ord a.1 = ord k ∨ a ∈ es := by
  induction es with
  | nil =>
    rw [upsertEntries, List.mem_singleton] at ha
    rw [ha]
    exact Or.inl rfl
  | cons e es ih =>
    rw [upsertEntries] at ha
    split at ha
    · rcases List.mem_cons.mp ha with rfl | ha
      · exact Or.inl rfl
      · exact Or.inr ha
    · next hlt =>
      split at ha
      · rcases List.mem_cons.mp ha with rfl | ha
        · exact Or.inr (List.mem_cons_self ..)
        · exact (ih ha).imp_right (List.mem_cons_of_mem _)
      · next hgt =>
        rcases List.mem_cons.mp ha with rfl | ha
        · exact Or.inl (le_antisymm (not_lt.mp hlt) (not_lt.mp hgt))
        · exact Or.inr (List.mem_cons_of_mem _ ha)

theorem sorted_upsertEntries (k : κ) (f : Option ν → ν) {es : List (κ × ν)}
    (h : es.Pairwise fun a b => ord a.1 < ord b.1) :
    (upsertEntries ord k f es).Pairwise fun a b => ord a.1 < ord b.1 := by
  induction es with
  | nil => exact List.pairwise_singleton _ _
  | cons e es ih =>
    have he : ∀ {a}, a ∈ es → ord e.1 < ord a.1 := fun ha => List.rel_of_pairwise_cons h ha
    rw [upsertEntries]
    split
    · next hlt =>
      refine h.cons fun a ha => ?_
      rcases List.mem_cons.mp ha with rfl | ha
      · exact hlt
      · exact hlt.trans (he ha)
    · split
      · next hgt =>
        refine (ih h.of_cons).cons fun a ha => ?_
        rcases ord_mem_upsertEntries ha with hk | ha
        · rw [hk]
          exact hgt
        · exact he ha
      · exact h.of_cons.cons fun a ha => he ha

/-- A key below all entries is not found. -/
theorem findEntries_eq_none {k : κ} {es : List (κ × ν)} (h : ∀ e ∈ es, ord e.1 ≠ ord k) :
    findEntries ord k es = none := by
  induction es with
  | nil => rfl
  | cons e es ih =>
    rw [findEntries, if_neg (h e (List.mem_cons_self ..))]
    exact ih fun a ha => h a (List.mem_cons_of_mem _ ha)

theorem findEntries_eq_some_iff {k : κ} {v : ν} {es : List (κ × ν)}
    (h : es.Pairwise fun a b => ord a.1 < ord b.1) :
    findEntries ord k es = some v ↔ ∃ k', ord k' = ord k ∧ (k', v) ∈ es := by
  induction es with
  | nil => simp [findEntries]
  | cons e es ih =>
    rw [findEntries]
    split
    · next hk =>
      rw [Option.some_inj]
      constructor
      · rintro rfl
        exact ⟨e.1, hk, List.mem_cons_self ..⟩
      · rintro ⟨k', hk', hmem⟩
        rcases List.mem_cons.mp hmem with rfl | hmem
        · rfl
        · have := List.rel_of_pairwise_cons h hmem
          rw [hk, hk'] at this
          exact absurd this (lt_irrefl _)
    · next hk =>
      rw [ih h.of_cons]
      constructor
      · rintro ⟨k', hk', hmem⟩
        exact ⟨k', hk', List.mem_cons_of_mem _ hmem⟩
      · rintro ⟨k', hk', hmem⟩
        rcases List.mem_cons.mp hmem with rfl | hmem
        · exact absurd hk' hk
        · exact ⟨k', hk', hmem⟩

theorem findEntries_upsertEntries_same {k k' : κ} (f : Option ν → ν) {es : List (κ × ν)}
    (h : es.Pairwise fun a b => ord a.1 < ord b.1) (hk : ord k' = ord k) :
    findEntries ord k' (upsertEntries ord k f es) = some (f (findEntries ord k es)) := by
  induction es with
  | nil => exact (findEntries_cons k' (k, f none) []).trans (if_pos hk.symm)
  | cons e es ih =>
    rw [upsertEntries]
    split
    · next hlt =>
      have hnone : findEntries ord k (e :: es) = none := findEntries_eq_none fun a ha => by
        rcases List.mem_cons.mp ha with rfl | ha
        · exact hlt.ne'
        · exact (hlt.trans (List.rel_of_pairwise_cons h ha)).ne'
      rw [findEntries, if_pos hk.symm, hnone]
    · next hlt =>
      split
      · next hgt =>
        rw [findEntries, if_neg (by rw [hk]; exact hgt.ne), ih h.of_cons, findEntries,
          if_neg hgt.ne]
      · next hgt =>
        have heq : ord e.1 = ord k := le_antisymm (not_lt.mp hlt) (not_lt.mp hgt)
        rw [findEntries, if_pos (by rw [heq, hk]), findEntries, if_pos heq]

theorem findEntries_upsertEntries_ne {k k' : κ} (f : Option ν → ν) {es : List (κ × ν)}
    (hk : ord k' ≠ ord k) :
    findEntries ord k' (upsertEntries ord k f es) = findEntries ord k' es := by
  induction es with
  | nil => exact (findEntries_cons k' (k, f none) []).trans (if_neg hk.symm)
  | cons e es ih =>
    rw [upsertEntries]
    split
    · rw [findEntries, if_neg hk.symm]
    · split
      · rw [findEntries, findEntries, ih]
      · rw [findEntries, findEntries]
        split
        · next hlt hgt heq =>
          exact absurd (heq.symm.trans (le_antisymm (not_lt.mp hlt) (not_lt.mp hgt))) hk
        · rfl

theorem findEntries_filter_ne {k k' : κ} {es : List (κ × ν)} :
    findEntries ord k' (es.filter fun e => decide (ord e.1 ≠ ord k)) =
      if ord k' = ord k then none else findEntries ord k' es := by
  induction es with
  | nil => simp [findEntries]
  | cons e es ih =>
    rw [List.filter_cons]
    split
    · next he =>
      have he' : ord e.1 ≠ ord k := of_decide_eq_true he
      rw [findEntries_cons, ih, findEntries_cons]
      by_cases hk : ord k' = ord k
      · rw [if_pos hk, if_pos hk, if_neg (by rw [hk]; exact he')]
      · rw [if_neg hk, if_neg hk]
    · next he =>
      have he' : ord e.1 = ord k := by
        by_contra hne
        exact he (decide_eq_true hne)
      rw [ih, findEntries]
      by_cases hk : ord k' = ord k
      · rw [if_pos hk]
        simp [hk]
      · rw [if_neg hk, if_neg hk, if_neg (by rw [he']; exact Ne.symm hk)]

/-! ## The operations -/

/-- The value at a key. -/
def find? (m : SortedMap ord ν) (k : κ) : Option ν := findEntries ord k m.entries

/-- The entry interface: compute the new value at a key from the old one. -/
def upsert (m : SortedMap ord ν) (k : κ) (f : Option ν → ν) : SortedMap ord ν :=
  ⟨upsertEntries ord k f m.entries, sorted_upsertEntries k f m.sorted⟩

/-- Remove the entry at a key. -/
def erase (m : SortedMap ord ν) (k : κ) : SortedMap ord ν :=
  ⟨m.entries.filter fun e => decide (ord e.1 ≠ ord k), m.sorted.filter _⟩

theorem find?_eq_some_iff {m : SortedMap ord ν} {k : κ} {v : ν} :
    m.find? k = some v ↔ ∃ k', ord k' = ord k ∧ (k', v) ∈ m.entries :=
  findEntries_eq_some_iff m.sorted

theorem find?_of_mem {m : SortedMap ord ν} {e : κ × ν} (h : e ∈ m.entries) :
    m.find? e.1 = some e.2 := find?_eq_some_iff.mpr ⟨e.1, rfl, h⟩

/-- The entry found at a key, with the key it is stored under. -/
theorem exists_mem_of_find? {m : SortedMap ord ν} {k : κ} {v : ν} (h : m.find? k = some v) :
    ∃ k', ord k' = ord k ∧ (k', v) ∈ m.entries := find?_eq_some_iff.mp h

theorem find?_congr (m : SortedMap ord ν) {k k' : κ} (h : ord k = ord k') :
    m.find? k = m.find? k' := by
  ext v
  rw [find?_eq_some_iff, find?_eq_some_iff, h]

theorem find?_upsert (m : SortedMap ord ν) (k k' : κ) (f : Option ν → ν) :
    (m.upsert k f).find? k' = if ord k' = ord k then some (f (m.find? k)) else m.find? k' := by
  split
  · next h => exact findEntries_upsertEntries_same f m.sorted h
  · next h => exact findEntries_upsertEntries_ne f h

theorem find?_erase (m : SortedMap ord ν) (k k' : κ) :
    (m.erase k).find? k' = if ord k' = ord k then none else m.find? k' :=
  findEntries_filter_ne

/-- Two maps with the same lookups have the same entries, up to the keys chosen
for them. -/
theorem ext_find? {m n : SortedMap ord ν} (h : ∀ k, m.find? k = n.find? k) :
    m.entries.map (fun e => (ord e.1, e.2)) = n.entries.map (fun e => (ord e.1, e.2)) := by
  have hsub : ∀ {a b : SortedMap ord ν}, (∀ k, a.find? k = b.find? k) →
      ∀ x ∈ a.entries.map (fun e => (ord e.1, e.2)), x ∈ b.entries.map (fun e => (ord e.1, e.2)) := by
    intro a b hab x hx
    obtain ⟨e, he, rfl⟩ := List.mem_map.mp hx
    have hb : b.find? e.1 = some e.2 := (hab e.1).symm.trans (find?_of_mem he)
    obtain ⟨k', hk', hmem⟩ := find?_eq_some_iff.mp hb
    exact List.mem_map.mpr ⟨(k', e.2), hmem, by rw [hk']⟩
  have hpair : ∀ a : SortedMap ord ν,
      (a.entries.map (fun e => (ord e.1, e.2))).Pairwise fun x y => x.1 < y.1 := by
    intro a
    rw [List.pairwise_map]
    exact a.sorted
  have hnodup : ∀ a : SortedMap ord ν, (a.entries.map (fun e => (ord e.1, e.2))).Nodup :=
    fun a => (hpair a).imp fun hlt heq => hlt.ne (congrArg Prod.fst heq)
  have hperm : (m.entries.map (fun e => (ord e.1, e.2))).Perm
      (n.entries.map (fun e => (ord e.1, e.2))) :=
    (List.perm_ext_iff_of_nodup (hnodup m) (hnodup n)).mpr fun x =>
      ⟨hsub h x, hsub (fun k => (h k).symm) x⟩
  exact hperm.eq_of_pairwise
    (fun a b _ _ hab hba => absurd (hab.trans hba) (lt_irrefl _)) (hpair m) (hpair n)

/-! ## Where an update happens -/

/-- A map with its values replaced. -/
def mapVals {μ : Type*} (m : SortedMap ord ν) (f : ν → μ) : SortedMap ord μ :=
  ⟨m.entries.map fun e => (e.1, f e.2), List.pairwise_map.mpr m.sorted⟩

theorem find?_mapVals {μ : Type*} (m : SortedMap ord ν) (f : ν → μ) (k : κ) :
    (m.mapVals f).find? k = (m.find? k).map f := by
  show findEntries ord k (m.entries.map fun e => (e.1, f e.2)) = (findEntries ord k m.entries).map f
  induction m.entries with
  | nil => rfl
  | cons e es ih =>
    rw [List.map_cons, findEntries, findEntries]
    split
    · rfl
    · exact ih

theorem upsertEntries_append {k k' : κ} {v : ν} (f : Option ν → ν) {pre post : List (κ × ν)}
    (hk : ord k' = ord k) (hpre : ∀ e ∈ pre, ord e.1 < ord k) :
    upsertEntries ord k f (pre ++ (k', v) :: post) = pre ++ (k', f (some v)) :: post := by
  induction pre with
  | nil => rw [List.nil_append, upsertEntries, hk, if_neg (lt_irrefl _), if_neg (lt_irrefl _),
      List.nil_append]
  | cons e pre ih =>
    have he := hpre e (List.mem_cons_self ..)
    rw [List.cons_append, upsertEntries, if_neg he.asymm, if_pos he,
      ih fun a ha => hpre a (List.mem_cons_of_mem _ ha), List.cons_append]

/-- A present key: the update and the removal rewrite one entry and keep the
others. -/
theorem entries_split {m : SortedMap ord ν} {k : κ} {v : ν} (h : m.find? k = some v) :
    ∃ pre k' post, ord k' = ord k ∧ m.entries = pre ++ (k', v) :: post ∧
      (∀ e ∈ pre ++ post, ord e.1 ≠ ord k) ∧
      (∀ f, (m.upsert k f).entries = pre ++ (k', f (some v)) :: post) ∧
      (m.erase k).entries = pre ++ post := by
  obtain ⟨k', hk, hmem⟩ := find?_eq_some_iff.mp h
  obtain ⟨pre, post, hsplit⟩ := List.append_of_mem hmem
  have hsorted := m.sorted
  rw [hsplit, List.pairwise_append] at hsorted
  obtain ⟨-, hpost, hcross⟩ := hsorted
  have hlt : ∀ e ∈ pre, ord e.1 < ord k := fun e he => by
    rw [← hk]
    exact hcross e he _ (List.mem_cons_self ..)
  have hgt : ∀ e ∈ post, ord k < ord e.1 := fun e he => by
    rw [← hk]
    exact List.rel_of_pairwise_cons hpost he
  have hne : ∀ e ∈ pre ++ post, ord e.1 ≠ ord k := fun e he => by
    rcases List.mem_append.mp he with he | he
    · exact (hlt e he).ne
    · exact (hgt e he).ne'
  refine ⟨pre, k', post, hk, hsplit, hne, fun f => ?_, ?_⟩
  · show upsertEntries ord k f m.entries = _
    rw [hsplit]
    exact upsertEntries_append f hk hlt
  · show m.entries.filter (fun e => decide (ord e.1 ≠ ord k)) = pre ++ post
    rw [hsplit, List.filter_append, List.filter_cons, if_neg (by simp [hk]), ← List.filter_append]
    exact List.filter_eq_self.mpr fun e he => decide_eq_true (hne e he)

/-- An absent key: the update adds one entry. -/
theorem entries_split_none {m : SortedMap ord ν} {k : κ} (h : m.find? k = none) :
    ∃ pre post, m.entries = pre ++ post ∧
      ∀ f, (m.upsert k f).entries = pre ++ (k, f none) :: post := by
  have hentries : ∀ es : List (κ × ν), findEntries ord k es = none →
      ∃ pre post, es = pre ++ post ∧ ∀ f, upsertEntries ord k f es = pre ++ (k, f none) :: post := by
    intro es
    induction es with
    | nil => exact fun _ => ⟨[], [], rfl, fun f => rfl⟩
    | cons e es ih =>
      intro hnone
      rw [findEntries_cons] at hnone
      by_cases hlt : ord k < ord e.1
      · exact ⟨[], e :: es, rfl, fun f => by rw [upsertEntries, if_pos hlt, List.nil_append]⟩
      · by_cases heq : ord e.1 = ord k
        · rw [if_pos heq] at hnone
          cases hnone
        · rw [if_neg heq] at hnone
          have hgt : ord e.1 < ord k := lt_of_le_of_ne (not_lt.mp hlt) heq
          obtain ⟨pre, post, hes, hup⟩ := ih hnone
          refine ⟨e :: pre, post, by rw [hes, List.cons_append], fun f => ?_⟩
          rw [upsertEntries, if_neg hlt, if_pos hgt, hup, List.cons_append]
  exact hentries m.entries h

/-- A key after all others is added at the end. -/
theorem entries_upsert_of_lt {m : SortedMap ord ν} {k : κ} (f : Option ν → ν)
    (h : ∀ e ∈ m.entries, ord e.1 < ord k) :
    (m.upsert k f).entries = m.entries ++ [(k, f none)] := by
  have hentries : ∀ es : List (κ × ν), (∀ e ∈ es, ord e.1 < ord k) →
      upsertEntries ord k f es = es ++ [(k, f none)] := by
    intro es
    induction es with
    | nil => exact fun _ => rfl
    | cons e es ih =>
      intro hlt
      have he := hlt e (List.mem_cons_self ..)
      rw [upsertEntries, if_neg he.asymm, if_pos he,
        ih fun a ha => hlt a (List.mem_cons_of_mem _ ha), List.cons_append]
  exact hentries m.entries h

end SortedMap
end Foundation
