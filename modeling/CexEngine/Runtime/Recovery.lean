import CexEngine.Runtime.Reachable
import CexEngine.Runtime.Store

/-!
# Recovery

A journal that was written by the core gives the state of the core back, and a journal that is accepted
is one the core could have written.

The journal keeps no state, only the genesis, the commands and their outcomes.  Recovery executes the
commands again and compares the outcomes.  That it gives the state back therefore rests on one thing,
that the core is a function of its state and the command, which holds of `Journal.apply` by its type;
what is to be proved is that nothing is lost on the way to the disk and back.

* `Store.appendGroups_ok`: after any sequence of appends the records are those of the executed commands,
  in order, under the sequences that follow.  A group may contain queries, which have no command and
  leave no record.
* `Store.replay_recordsOf`, `Store.replay_ok`: the replay of such records is the run, and a replay that
  succeeds is a run of the commands in the records.  The second direction assumes nothing of the tables:
  the sequences, the checksums and the outcomes are all checked.
* `Store.restore_journalSeed`, `Store.restore_ok`: the same for the genesis.  The balances are written
  sorted by account and read back into an empty cache, and the cache they give is the one they were taken
  from, since a map does not remember the order of its insertions.

A codec stands for the serialisation and the digest.  That a text is read back as the record it was
written for is an assumption on the records in question, and appears in the statements.
-/

namespace CexEngine

open Foundation Foundation.FiniteMap Amount

/-! ## The genesis -/

namespace Startup

/-- What a journal accepts as an account of its genesis. -/
def Admissible (account : Account) (b : Balance) : Prop :=
  0 < account.1 ∧ account.2 ≠ "" ∧ trim account.2 = account.2 ∧ b.locked ≈ 0 ∧
    ∃ x, units b.available = .ok x

theorem loadRow_ok {balances cache : BalanceCache} {row : BalanceRow}
    (h : loadRow balances row = .ok cache) :
    ∃ account b, Admissible account b ∧ cache = ⟨balances.balances.insert account b⟩ := by
  simp only [loadRow, bind_eq_ok, ensure_eq_ok, pure_eq_ok, exists_const] at h
  obtain ⟨huser, available, -, locked, -, hmint, hpos, ⟨hbound, hscale⟩, hlocked, -, rfl⟩ := h
  refine ⟨(row.userId.toUInt64, row.mintAddress), ⟨available, locked⟩,
    ⟨?_, hmint.1, hmint.2, hlocked, unitsOf available, ?_⟩, rfl⟩
  · refine UInt64.lt_iff_toNat_lt.mpr (Nat.pos_of_ne_zero fun hzero => ?_)
    have hid : row.userId = 0 := congrArg Int64.ofUInt64 (UInt64.toNat_inj.mp hzero)
    rw [hid] at huser
    exact absurd huser (by decide)
  · -- the bound and the scale are those of `units`
    obtain ⟨u, hu⟩ := (available.normalize_scale_le_iff (by norm_num)).mp hscale
    have hraw : available.raw = u * 10 ^ 19 := by
      rw [hu, mul_comm]
    rw [unitsOf, hraw, Int.mul_ediv_cancel _ (by norm_num), units_eq_ok_iff]
    have hle : 0 ≤ available.raw := hpos.1
    have hlt : available.raw < (Decimal.ofScaled 1000000000000000000000 0).raw := hbound
    have hval : (Decimal.ofScaled 1000000000000000000000 0).raw = 10 ^ 49 := by decide
    rw [hval] at hlt
    unfold maxUnits
    refine ⟨by omega, by omega, hraw⟩

theorem loadRows_admissible {rows : List BalanceRow} {balances cache : BalanceCache}
    (h : loadRows rows balances = .ok cache)
    (hbalances : ∀ account b, balances.balances.lookup account = some b → Admissible account b) :
    ∀ account b, cache.balances.lookup account = some b → Admissible account b := by
  induction rows generalizing balances with
  | nil =>
    cases h
    exact hbalances
  | cons row rows ih =>
    obtain ⟨next, hrow, hrows⟩ := bind_eq_ok.mp h
    obtain ⟨account, b, hok, rfl⟩ := loadRow_ok hrow
    refine ih hrows fun account' b' hb' => ?_
    rw [lookup_insert_eq] at hb'
    split at hb'
    · next heq =>
      cases hb'
      rw [heq]
      exact hok
    · exact hbalances account' b' hb'

theorem loadBalances_rows {platform : Platform} {cache : BalanceCache}
    (h : loadBalances platform = .ok cache) :
    loadRows platform.userBalances BalanceCache.new = .ok cache := by
  simp only [loadBalances] at h
  cases hreceipt : platform.receipt with
  | some id =>
    rw [hreceipt] at h
    cases h
  | none =>
    cases horder : platform.unresolvedOrder with
    | some order =>
      simp only [hreceipt, horder, bind_eq_ok, ensure_eq_ok, exists_const] at h
      obtain ⟨-, -, -, -, _, hthrow, -⟩ := h
      cases hthrow
    | none =>
      simp only [hreceipt, horder, bind_eq_ok, ensure_eq_ok, exists_const] at h
      exact h.2.2.2.2

/-- **Every balance the startup loads is one a genesis accepts.** -/
theorem loadBalances_admissible {platform : Platform} {cache : BalanceCache}
    (h : loadBalances platform = .ok cache) :
    ∀ account b, cache.balances.lookup account = some b → Admissible account b := by
  refine loadRows_admissible (loadBalances_rows h) fun account b hb => ?_
  rw [BalanceCache.new, Finmap.lookup_empty] at hb
  cases hb

end Startup

/-! ### Writing and reading the accounts -/

/-- The account and the balance of a row of the genesis. -/
def Genesis.account (row : UInt64 × String × Decimal × Decimal) : Account := (row.1, row.2.1)

def Genesis.balance (row : UInt64 × String × Decimal × Decimal) : Balance :=
  ⟨row.2.2.1, row.2.2.2⟩

namespace BalanceCache

/-- A row of the seed is an account of the cache. -/
theorem mem_journalSeed {cache : BalanceCache} {row : UInt64 × String × Decimal × Decimal}
    (h : row ∈ cache.journalSeed) :
    cache.balances.lookup (Genesis.account row) = some (Genesis.balance row) := by
  obtain ⟨account, -, hrow⟩ := List.mem_filterMap.mp h
  obtain ⟨b, hb, rfl⟩ := Option.map_eq_some_iff.mp hrow
  exact hb

/-- Every account of the cache has a row, and none has two. -/
theorem map_account_journalSeed (cache : BalanceCache) :
    cache.journalSeed.map Genesis.account = cache.balances.keys.sort AccountLe := by
  have hall : ∀ accounts : List Account, (∀ account ∈ accounts, account ∈ cache.balances) →
      (accounts.filterMap fun account => (cache.balances.lookup account).map fun b =>
        (account.1, account.2, b.available, b.locked)).map Genesis.account = accounts := by
    intro accounts
    induction accounts with
    | nil => exact fun _ => rfl
    | cons account accounts ih =>
      intro hmem
      obtain ⟨b, hb⟩ := Finmap.mem_iff.mp (hmem account (List.mem_cons_self ..))
      rw [List.filterMap_cons, hb, Option.map_some, List.map_cons,
        ih fun a ha => hmem a (List.mem_cons_of_mem _ ha)]
      rfl
  exact hall _ fun account ha => Finmap.mem_keys.mp ((Finset.mem_sort AccountLe).mp ha)

end BalanceCache

namespace Store

/-- **Restoring accounts**, one after the other, into a state that has none of them. -/
theorem restore_of_admissible {rows : List (UInt64 × String × Decimal × Decimal)}
    {state : EngineState} (hids : (rows.map Genesis.account).Nodup)
    (hrows : ∀ row ∈ rows, Startup.Admissible (Genesis.account row) (Genesis.balance row))
    (hnew : ∀ row ∈ rows, state.cache.balances.lookup (Genesis.account row) = none) :
    restore rows state = .ok (state.setCache
      ⟨rows.foldl (fun m row => m.insert (Genesis.account row) (Genesis.balance row))
        state.cache.balances⟩) := by
  induction rows generalizing state with
  | nil => rfl
  | cons row rows ih =>
    obtain ⟨user, mint, available, locked⟩ := row
    rw [List.map_cons, List.nodup_cons] at hids
    obtain ⟨huser, hmint, htrim, hlocked, x, hx⟩ := hrows _ (List.mem_cons_self ..)
    have hnone : (state.cache.getBalance user mint).isNone = true := by
      rw [Option.isNone_iff_eq_none]
      exact hnew _ (List.mem_cons_self ..)
    have hhead : restoreAccount state (user, mint, available, locked) =
        .ok (state.setCache (state.cache.setBalance user mint available locked)) := by
      have hux : units available = .ok x := hx
      simp only [restoreAccount, ensure, if_pos hnone, hux]
      rw [if_pos ⟨huser, hmint, htrim, hlocked⟩]
      rfl
    rw [restore, hhead]
    refine (ih hids.2 (fun row hr => hrows row (List.mem_cons_of_mem _ hr)) fun row hr => ?_)
    have hne : Genesis.account row ≠ (user, mint) := fun heq =>
      hids.1 (List.mem_map.mpr ⟨row, hr, heq⟩)
    show (state.cache.balances.insert (user, mint) ⟨available, locked⟩).lookup _ = none
    rw [Finmap.lookup_insert_of_ne _ hne]
    exact hnew row (List.mem_cons_of_mem _ hr)

theorem lookup_foldl_insert {rows : List (UInt64 × String × Decimal × Decimal)}
    (hids : (rows.map Genesis.account).Nodup) (m : Finmap fun _ : Account => Balance)
    (account : Account) :
    (rows.foldl (fun m row => m.insert (Genesis.account row) (Genesis.balance row)) m).lookup
      account = ((rows.find? fun row => Genesis.account row == account).map Genesis.balance).or
        (m.lookup account) := by
  induction rows generalizing m with
  | nil => rfl
  | cons row rows ih =>
    rw [List.map_cons, List.nodup_cons] at hids
    rw [List.foldl_cons, ih hids.2, List.find?_cons, lookup_insert_eq]
    by_cases hrow : Genesis.account row = account
    · have hnone : rows.find? (fun row => Genesis.account row == account) = none := by
        rw [List.find?_eq_none]
        intro row' hr' heq
        have heq' : Genesis.account row' = account := by simpa using heq
        exact hids.1 (by rw [hrow, ← heq']; exact List.mem_map_of_mem hr')
      rw [hnone, if_pos hrow.symm, beq_iff_eq.mpr hrow]
      rfl
    · rw [if_neg (Ne.symm hrow), beq_eq_false_iff_ne.mpr hrow]

/-- **The seed of a loaded cache restores that cache.** -/
theorem restore_journalSeed {cache : BalanceCache}
    (h : ∀ account b, cache.balances.lookup account = some b → Startup.Admissible account b) :
    restore cache.journalSeed EngineState.new = .ok (EngineState.genesis cache) := by
  have hids : (cache.journalSeed.map Genesis.account).Nodup := by
    rw [cache.map_account_journalSeed]
    exact Finset.sort_nodup ..
  rw [restore_of_admissible hids (fun row hr => h _ _ (BalanceCache.mem_journalSeed hr))
    fun row _ => Finmap.lookup_empty _]
  have hlookup : ∀ account, (cache.journalSeed.foldl
      (fun m row => m.insert (Genesis.account row) (Genesis.balance row))
        (∅ : Finmap fun _ : Account => Balance)).lookup account = cache.balances.lookup account := by
    intro account
    rw [lookup_foldl_insert hids, Finmap.lookup_empty, Option.or_none]
    cases hfind : cache.journalSeed.find? fun row => Genesis.account row == account with
    | some row =>
      have hrow : Genesis.account row = account := by simpa using List.find?_some hfind
      rw [Option.map_some, ← hrow, BalanceCache.mem_journalSeed (List.mem_of_find?_eq_some hfind)]
    | none =>
      cases hb : cache.balances.lookup account with
      | none => rfl
      | some b =>
        have hmem : account ∈ cache.journalSeed.map Genesis.account := by
          rw [cache.map_account_journalSeed, Finset.mem_sort, Finmap.mem_keys]
          exact Finmap.mem_of_lookup_eq_some hb
        obtain ⟨row, hr, heq⟩ := List.mem_map.mp hmem
        exact absurd (List.find?_eq_none.mp hfind row hr) (by simp [heq])
  show Except.ok (EngineState.new.setCache ⟨cache.journalSeed.foldl _ ∅⟩) = _
  rw [Finmap.ext_lookup hlookup]
  rfl

/-- **What a restored genesis was.** -/
theorem restore_ok {rows : List (UInt64 × String × Decimal × Decimal)} {state state' : EngineState}
    (h : restore rows state = .ok state') :
    (rows.map Genesis.account).Nodup ∧
      (∀ row ∈ rows, Startup.Admissible (Genesis.account row) (Genesis.balance row)) ∧
      (∀ row ∈ rows, state.cache.balances.lookup (Genesis.account row) = none) ∧
      state' = state.setCache
        ⟨rows.foldl (fun m row => m.insert (Genesis.account row) (Genesis.balance row))
          state.cache.balances⟩ := by
  induction rows generalizing state with
  | nil =>
    obtain rfl := pure_eq_ok.mp h
    exact ⟨List.nodup_nil, fun row hr => (by cases hr), fun row hr => (by cases hr), rfl⟩
  | cons row rows ih =>
    obtain ⟨mid, hmid, hrest⟩ := bind_eq_ok.mp h
    obtain ⟨user, mint, available, locked⟩ := row
    simp only [restoreAccount, bind_eq_ok, ensure_eq_ok, pure_eq_ok, exists_const] at hmid
    obtain ⟨⟨huser, hmint, htrim, hlocked⟩, x, hx, hnone, rfl⟩ := hmid
    obtain ⟨hids, hadm, hnew, rfl⟩ := ih hrest
    have hnew' : ∀ row ∈ rows, Genesis.account row ≠ (user, mint) ∧
        state.cache.balances.lookup (Genesis.account row) = none := by
      intro row hr
      have hlookup := hnew row hr
      change (state.cache.balances.insert (user, mint) ⟨available, locked⟩).lookup _ = none at hlookup
      rw [lookup_insert_eq] at hlookup
      split at hlookup
      · cases hlookup
      · next hne => exact ⟨hne, hlookup⟩
    refine ⟨?_, ?_, ?_, rfl⟩
    · rw [List.map_cons, List.nodup_cons]
      refine ⟨fun hmem => ?_, hids⟩
      obtain ⟨row, hr, heq⟩ := List.mem_map.mp hmem
      exact (hnew' row hr).1 heq
    · intro row hr
      rcases List.mem_cons.mp hr with rfl | hr
      · exact ⟨huser, hmint, htrim, hlocked, x, hx⟩
      · exact hadm row hr
    · intro row hr
      rcases List.mem_cons.mp hr with rfl | hr
      · exact Option.isNone_iff_eq_none.mp hnone
      · exact (hnew' row hr).2

/-! ## Appending -/

/-- The records of a history that starts after `sequence`. -/
def recordsOf (clock : ℕ → Timestamp) : ℕ → List (Command × Outcome) → List Record
  | _, [] => []
  | sequence, e :: history =>
    ⟨sequence + 1, clock (sequence + 1), e.1, e.2⟩ :: recordsOf clock (sequence + 1) history

theorem length_recordsOf (clock : ℕ → Timestamp) (sequence : ℕ) (history : List (Command × Outcome)) :
    (recordsOf clock sequence history).length = history.length := by
  induction history generalizing sequence with
  | nil => rfl
  | cons e history ih => rw [recordsOf, List.length_cons, List.length_cons, ih]

theorem recordsOf_append (clock : ℕ → Timestamp) (sequence : ℕ)
    (history history' : List (Command × Outcome)) :
    recordsOf clock sequence (history ++ history') =
      recordsOf clock sequence history ++ recordsOf clock (sequence + history.length) history' := by
  induction history generalizing sequence with
  | nil => rfl
  | cons e history ih =>
    rw [List.cons_append, recordsOf, recordsOf, ih, List.cons_append, List.length_cons]
    congr 3
    omega

/-- Only the times of the sequences of a history matter. -/
theorem recordsOf_congr {clock clock' : ℕ → Timestamp} {sequence : ℕ}
    {history : List (Command × Outcome)}
    (h : ∀ i, sequence < i → i ≤ sequence + history.length → clock i = clock' i) :
    recordsOf clock sequence history = recordsOf clock' sequence history := by
  induction history generalizing sequence with
  | nil => rfl
  | cons e history ih =>
    rw [List.length_cons] at h
    rw [recordsOf, recordsOf, h (sequence + 1) (by omega) (by omega),
      ih fun i hi hle => h i (by omega) (by omega)]

/-- The executed commands among pending items, with their outcomes. -/
def executed (pending : List Pending) : List (Command × Outcome) :=
  pending.filterMap fun item => item.command.map fun command => (command, item.outcome)

section Codec

variable {Json : Type} (codec : Codec Json)

/-- The row of a record. -/
def rowOf (record : Record) : ℤ × Row :=
  (record.sequence, ⟨codec.recordText record, codec.digest (codec.recordText record)⟩)

variable {codec}

/-- One insertion, after all records so far. -/
theorem insertRecord_ok {clock : ℕ → Timestamp}
    {records records' : SortedMap (fun sequence : ℤ => sequence) Row} {sequence sequence' : ℕ}
    {command : Command} {outcome : Outcome}
    (h : insertRecord codec clock records sequence command outcome = .ok (records', sequence'))
    (hlast : ∀ e ∈ records.entries, e.1 ≤ sequence) :
    sequence' = sequence + 1 ∧
      records'.entries = records.entries ++
        [rowOf codec ⟨sequence + 1, clock (sequence + 1), command, outcome⟩] ∧
      ∀ e ∈ records'.entries, e.1 ≤ sequence' := by
  simp only [insertRecord, bind_eq_ok, ensure_eq_ok, pure_eq_ok, exists_const, Prod.mk.injEq] at h
  obtain ⟨-, -, -, hrecords, rfl⟩ := h
  have hentries : records'.entries = records.entries ++
      [rowOf codec ⟨sequence + 1, clock (sequence + 1), command, outcome⟩] := by
    rw [← hrecords]
    refine SortedMap.entries_upsert_of_lt _ fun e he => ?_
    have hle := hlast e he
    push_cast
    omega
  refine ⟨rfl, hentries, fun e he => ?_⟩
  rw [hentries] at he
  rcases List.mem_append.mp he with he | he
  · have hle := hlast e he
    push_cast
    omega
  · rw [List.mem_singleton.mp he]
    exact le_rfl

/-- It succeeds as long as its sequence is a 64-bit integer. -/
theorem insertRecord_total {clock : ℕ → Timestamp}
    {records : SortedMap (fun sequence : ℤ => sequence) Row} {sequence : ℕ} (command : Command)
    (outcome : Outcome) (hlast : ∀ e ∈ records.entries, e.1 ≤ sequence)
    (hmax : sequence + 1 ≤ maxI64.toNat) : ∃ records',
      insertRecord codec clock records sequence command outcome = .ok (records', sequence + 1) := by
  have hnone : (records.find? ((sequence + 1 : ℕ) : ℤ)).isNone = true := by
    rw [Option.isNone_iff_eq_none, Option.eq_none_iff_forall_ne_some]
    intro row hrow
    obtain ⟨key, hkey, hmem⟩ := SortedMap.exists_mem_of_find? hrow
    have hle := hlast _ hmem
    dsimp only at hkey hle
    omega
  have hbound : maxI64.toNat < 2 ^ 64 := by decide
  simp only [insertRecord, bind_eq_ok, ensure_eq_ok, pure_eq_ok, exists_const, Prod.mk.injEq]
  exact ⟨_, by omega, hmax, hnone, rfl, trivial⟩

@[simp] theorem executed_none {item : Pending} {pending : List Pending} (h : item.command = none) :
    executed (item :: pending) = executed pending := by
  rw [executed, List.filterMap_cons, h]
  rfl

@[simp] theorem executed_some {item : Pending} {pending : List Pending} {command : Command}
    (h : item.command = some command) :
    executed (item :: pending) = (command, item.outcome) :: executed pending := by
  rw [executed, List.filterMap_cons, h]
  rfl

/-- **One transaction** adds the records of its commands, in order. -/
theorem insertAll_ok {clock : ℕ → Timestamp} {pending : List Pending}
    {records records' : SortedMap (fun sequence : ℤ => sequence) Row} {sequence sequence' : ℕ}
    (h : insertAll codec clock pending records sequence = .ok (records', sequence'))
    (hlast : ∀ e ∈ records.entries, e.1 ≤ sequence) :
    sequence' = sequence + (executed pending).length ∧
      records'.entries =
        records.entries ++ (recordsOf clock sequence (executed pending)).map (rowOf codec) ∧
      ∀ e ∈ records'.entries, e.1 ≤ sequence' := by
  induction pending generalizing records sequence with
  | nil =>
    obtain ⟨rfl, rfl⟩ := Prod.mk.inj (pure_eq_ok.mp h)
    exact ⟨rfl, (List.append_nil _).symm, hlast⟩
  | cons item pending ih =>
    rw [insertAll] at h
    cases hcommand : item.command with
    | none =>
      rw [hcommand] at h
      rw [executed_none hcommand]
      exact ih h hlast
    | some command =>
      rw [hcommand] at h
      obtain ⟨⟨mid, next⟩, hmid, hrest⟩ := bind_eq_ok.mp h
      obtain ⟨rfl, hentries, hlast'⟩ := insertRecord_ok hmid hlast
      obtain ⟨rfl, hentries', hlast''⟩ := ih hrest hlast'
      refine ⟨?_, ?_, hlast''⟩
      · rw [executed_some hcommand, List.length_cons]
        omega
      · rw [hentries', hentries, executed_some hcommand, recordsOf, List.map_cons, List.append_assoc,
          List.singleton_append]

theorem insertAll_total {clock : ℕ → Timestamp} (pending : List Pending)
    {records : SortedMap (fun sequence : ℤ => sequence) Row} {sequence : ℕ}
    (hlast : ∀ e ∈ records.entries, e.1 ≤ sequence)
    (hmax : sequence + (executed pending).length ≤ maxI64.toNat) : ∃ records',
      insertAll codec clock pending records sequence =
        .ok (records', sequence + (executed pending).length) := by
  induction pending generalizing records sequence with
  | nil => exact ⟨records, rfl⟩
  | cons item pending ih =>
    cases hcommand : item.command with
    | none =>
      rw [executed_none hcommand] at hmax ⊢
      rw [insertAll, hcommand]
      exact ih hlast hmax
    | some command =>
      rw [executed_some hcommand, List.length_cons] at hmax ⊢
      obtain ⟨mid, hmid⟩ := @insertRecord_total _ codec clock _ _ command item.outcome hlast (by omega)
      obtain ⟨-, -, hlast'⟩ := insertRecord_ok hmid hlast
      obtain ⟨records', hrest⟩ := ih hlast' (by omega)
      rw [show sequence + 1 + (executed pending).length =
        sequence + ((executed pending).length + 1) by omega] at hrest
      rw [insertAll, hcommand]
      exact ⟨records', bind_eq_ok.mpr ⟨_, hmid, hrest⟩⟩

theorem append_ok {clock : ℕ → Timestamp} {pending : List Pending} {store store' : Store}
    {sequence sequence' : ℕ}
    (h : append codec clock pending store sequence = .ok (store', sequence'))
    (hlast : ∀ e ∈ store.records.entries, e.1 ≤ sequence) :
    sequence' = sequence + (executed pending).length ∧
      store'.records.entries =
        store.records.entries ++ (recordsOf clock sequence (executed pending)).map (rowOf codec) ∧
      (∀ e ∈ store'.records.entries, e.1 ≤ sequence') ∧
      store'.genesis = store.genesis ∧ store'.delivery = store.delivery := by
  obtain ⟨⟨records, next⟩, hinsert, heq⟩ := bind_eq_ok.mp h
  obtain ⟨rfl, rfl⟩ := Prod.mk.inj (pure_eq_ok.mp heq)
  obtain ⟨hsequence, hentries, hlast'⟩ := insertAll_ok hinsert hlast
  exact ⟨hsequence, hentries, hlast', rfl, rfl⟩

/-- A transaction keeps the records that are there, whatever their keys. -/
theorem mem_of_insertAll {clock : ℕ → Timestamp} {pending : List Pending}
    {records records' : SortedMap (fun sequence : ℤ => sequence) Row} {sequence sequence' : ℕ}
    (h : insertAll codec clock pending records sequence = .ok (records', sequence'))
    {e : ℤ × Row} (he : e ∈ records.entries) : e ∈ records'.entries := by
  induction pending generalizing records sequence with
  | nil =>
    obtain ⟨rfl, -⟩ := Prod.mk.inj (pure_eq_ok.mp h)
    exact he
  | cons item pending ih =>
    rw [insertAll] at h
    cases hcommand : item.command with
    | none =>
      rw [hcommand] at h
      exact ih h he
    | some command =>
      rw [hcommand] at h
      obtain ⟨⟨mid, next⟩, hinsert, hrest⟩ := bind_eq_ok.mp h
      refine ih hrest ?_
      simp only [insertRecord, bind_eq_ok, ensure_eq_ok, pure_eq_ok, exists_const,
        Prod.mk.injEq] at hinsert
      obtain ⟨-, -, hnone, rfl, -⟩ := hinsert
      obtain ⟨pre, post, hentries, hup⟩ := SortedMap.entries_split_none
        (Option.isNone_iff_eq_none.mp hnone)
      rw [hup]
      rw [hentries] at he
      rcases List.mem_append.mp he with he | he
      · exact List.mem_append_left _ he
      · exact List.mem_append_right _ (List.mem_cons_of_mem _ he)

theorem mem_of_append {clock : ℕ → Timestamp} {pending : List Pending} {store store' : Store}
    {sequence sequence' : ℕ}
    (h : append codec clock pending store sequence = .ok (store', sequence')) {e : ℤ × Row}
    (he : e ∈ store.records.entries) : e ∈ store'.records.entries := by
  obtain ⟨⟨records, next⟩, hinsert, heq⟩ := bind_eq_ok.mp h
  obtain ⟨rfl, -⟩ := Prod.mk.inj (pure_eq_ok.mp heq)
  exact mem_of_insertAll hinsert he

/-- **Any sequence of appends** adds the records of all commands, in order. -/
theorem appendGroups_ok {clock : ℕ → Timestamp} {groups : List (List Pending)}
    {store store' : Store} {sequence sequence' : ℕ}
    (h : appendGroups codec clock groups store sequence = .ok (store', sequence'))
    (hlast : ∀ e ∈ store.records.entries, e.1 ≤ sequence) :
    sequence' = sequence + (executed groups.flatten).length ∧
      store'.records.entries = store.records.entries ++
        (recordsOf clock sequence (executed groups.flatten)).map (rowOf codec) ∧
      store'.genesis = store.genesis ∧ store'.delivery = store.delivery := by
  induction groups generalizing store sequence with
  | nil =>
    obtain ⟨rfl, rfl⟩ := Prod.mk.inj (pure_eq_ok.mp h)
    exact ⟨rfl, (List.append_nil _).symm, rfl, rfl⟩
  | cons group groups ih =>
    obtain ⟨⟨mid, next⟩, hmid, hrest⟩ := bind_eq_ok.mp h
    obtain ⟨rfl, hentries, hlast', hgenesis, hdelivery⟩ := append_ok hmid hlast
    obtain ⟨rfl, hentries', hgenesis', hdelivery'⟩ := ih hrest hlast'
    have happend : executed (group :: groups).flatten =
        executed group ++ executed groups.flatten := by
      rw [List.flatten_cons, executed, List.filterMap_append, executed, executed]
    refine ⟨?_, ?_, hgenesis'.trans hgenesis, hdelivery'.trans hdelivery⟩
    · rw [happend, List.length_append]
      omega
    · rw [hentries', hentries, happend, recordsOf_append, List.map_append, List.append_assoc]

/-! ### A journal that grows -/

omit codec in
/-- The last record has the largest sequence. -/
theorem le_of_lastSequence {store : Store} {n : ℕ} (h : store.lastSequence = .ok n) :
    ∀ e ∈ store.records.entries, e.1 ≤ n := by
  intro e he
  simp only [lastSequence, toU64, bind_eq_ok, ensure_eq_ok, pure_eq_ok, exists_const] at h
  obtain ⟨hnonneg, rfl⟩ := h
  rw [Int.toNat_of_nonneg hnonneg]
  obtain ⟨front, last, hentries⟩ := List.eq_nil_or_concat'
    store.records.entries |>.resolve_left (List.ne_nil_of_mem he)
  rw [hentries, List.getLast?_concat, Option.map_some, Option.getD_some]
  rw [hentries, List.mem_append, List.mem_singleton] at he
  rcases he with he | rfl
  · have hsorted := store.records.sorted
    rw [hentries, List.pairwise_append] at hsorted
    exact (hsorted.2.2 e he last (List.mem_singleton_self _)).le
  · exact le_rfl

variable (codec) in
/-- What the workers do to a journal: appends after its last record, and moves of the
delivery cursor. -/
inductive Grows (store : Store) : Store → Prop
  | refl : Grows store store
  | append {mid store' : Store} {clock : ℕ → Timestamp} {pending : List Pending} {n n' : ℕ}
      (grown : Grows store mid) (last : mid.lastSequence = .ok n)
      (appended : append codec clock pending mid n = .ok (store', n')) : Grows store store'
  | delivered {mid store' : Store} {n : ℕ} (grown : Grows store mid)
      (marked : mid.markDelivered n = .ok store') : Grows store store'

omit codec in
theorem markDelivered_ok {store store' : Store} {n : ℕ} (h : store.markDelivered n = .ok store') :
    0 < n ∧ store.delivery = some ((n - 1 : ℕ) : ℤ) ∧
      store' = { store with delivery := some (n : ℤ) } := by
  simp only [markDelivered, toI64, bind_eq_ok, ensure_eq_ok, pure_eq_ok, expect_eq_ok,
    exists_const] at h
  obtain ⟨_, ⟨-, rfl⟩, previous, hprevious, _, ⟨-, rfl⟩, hdelivery, rfl⟩ := h
  split at hprevious
  · next hpos =>
    cases hprevious
    exact ⟨hpos, hdelivery, rfl⟩
  · cases hprevious

/-- **A journal that grows keeps its records.** -/
theorem Grows.keeps {store store' : Store} (h : Grows codec store store') :
    store.records.entries <+: store'.records.entries ∧ store'.genesis = store.genesis := by
  induction h with
  | refl => exact ⟨List.prefix_rfl, rfl⟩
  | append _ last appended ih =>
    obtain ⟨-, hentries, -, hgenesis, -⟩ := append_ok appended (le_of_lastSequence last)
    refine ⟨ih.1.trans ?_, hgenesis.trans ih.2⟩
    rw [hentries]
    exact List.prefix_append ..
  | delivered _ marked ih =>
    obtain ⟨-, -, rfl⟩ := markDelivered_ok marked
    exact ih

theorem map_fst_recordsOf (clock : ℕ → Timestamp) (sequence : ℕ)
    (history : List (Command × Outcome)) :
    ((recordsOf clock sequence history).map (rowOf codec)).map Prod.fst =
      (List.range' (sequence + 1) history.length).map Nat.cast := by
  induction history generalizing sequence with
  | nil => rfl
  | cons e history ih =>
    rw [recordsOf, List.map_cons, List.map_cons, ih, List.length_cons, List.range'_succ,
      List.map_cons]
    rfl

omit codec in
/-- Sequences from one on end with their number. -/
theorem lastSequence_of_keys {store : Store} {n : ℕ}
    (h : store.records.entries.map Prod.fst = (List.range' 1 n).map Nat.cast) :
    store.lastSequence = .ok n := by
  rw [lastSequence, ← List.getLast?_map, h, List.getLast?_map, List.getLast?_range']
  cases n with
  | zero => rfl
  | succ n =>
    simp only [Nat.add_eq_zero_iff, one_ne_zero, and_false, if_false, Option.map_some,
      Option.getD_some, toU64, bind_eq_ok, ensure_eq_ok, pure_eq_ok, exists_const]
    omega

/-- An append continues the sequences. -/
theorem append_keys {clock : ℕ → Timestamp} {pending : List Pending} {store store' : Store}
    {n n' : ℕ} (h : append codec clock pending store n = .ok (store', n'))
    (hkeys : store.records.entries.map Prod.fst = (List.range' 1 n).map Nat.cast) :
    store'.records.entries.map Prod.fst = (List.range' 1 n').map Nat.cast := by
  obtain ⟨rfl, hentries, -⟩ := append_ok h (le_of_lastSequence (lastSequence_of_keys hkeys))
  rw [hentries, List.map_append, hkeys, map_fst_recordsOf, ← List.map_append,
    ← List.range'_append_1, Nat.add_comm 1 n]

/-- **A journal that was written by appends has no gap.** -/
theorem Grows.keys {store store' : Store} (h : Grows codec store store')
    (hempty : store.records = SortedMap.empty) :
    ∃ n, store'.records.entries.map Prod.fst = (List.range' 1 n).map Nat.cast := by
  induction h with
  | refl => exact ⟨0, by rw [hempty]; rfl⟩
  | append grown last appended ih =>
    obtain ⟨n, hkeys⟩ := ih
    obtain rfl := Except.ok.inj (last.symm.trans (lastSequence_of_keys hkeys))
    exact ⟨_, append_keys appended hkeys⟩
  | delivered _ marked ih =>
    obtain ⟨-, -, rfl⟩ := markDelivered_ok marked
    exact ih

theorem find?_of_isPrefix {store store' : Store}
    (h : store.records.entries <+: store'.records.entries) {n : ℤ} {row : Row}
    (hrow : store.records.find? n = some row) : store'.records.find? n = some row := by
  obtain ⟨key, hkey, hmem⟩ := SortedMap.exists_mem_of_find? hrow
  rw [SortedMap.find?_eq_some_iff]
  exact ⟨key, hkey, h.subset hmem⟩

theorem read_of_isPrefix {store store' : Store}
    (h : store.records.entries <+: store'.records.entries) {n : ℕ} {record : Record}
    (hread : store.read codec n = .ok record) : store'.read codec n = .ok record := by
  simp only [read, bind_eq_ok, orErr_eq_ok] at hread ⊢
  obtain ⟨key, hkey, row, hrow, hrecord⟩ := hread
  exact ⟨key, hkey, row, find?_of_isPrefix h hrow, hrecord⟩

theorem decode_of_digest {α : Type} {parse : String → Option α} {payload : String} {a : α}
    (h : parse payload = some a) : decode codec parse ⟨payload, codec.digest payload⟩ = .ok a := by
  rw [decode, ensure, if_pos rfl, h]
  rfl

theorem read_of_mem {store : Store} {record : Record}
    (hmem : rowOf codec record ∈ store.records.entries) (hmax : record.sequence ≤ maxI64.toNat)
    (hparse : codec.parseRecord (codec.recordText record) = some record) :
    store.read codec record.sequence = .ok record := by
  simp only [read, toI64, bind_eq_ok, orErr_eq_ok, ensure_eq_ok, pure_eq_ok, exists_const]
  exact ⟨_, ⟨hmax, rfl⟩, _, SortedMap.find?_of_mem hmem, _, decode_of_digest hparse, rfl, rfl⟩

/-! ## Replaying -/

theorem replayApply_of_run {state state' : EngineState} {command : Command} {outcome : Outcome}
    (h : (Journal.apply command).run state = (.ok outcome, state')) :
    replayApply state command = .ok (outcome, state') := by
  rw [replayApply, h]

theorem replayApply_ok {state state' : EngineState} {command : Command} {outcome : Outcome}
    (h : replayApply state command = .ok (outcome, state')) :
    (Journal.apply command).run state = (.ok outcome, state') := by
  unfold replayApply at h
  split at h
  · next hrun =>
    cases h
    exact hrun
  · cases h

variable [DecidableEq Json]

/-- **The replay of the records of a run is that run.** -/
theorem replay_recordsOf {clock : ℕ → Timestamp} {state state' : EngineState}
    {history : List (Command × Outcome)} (h : Run state history state') (sequence : ℕ)
    (hparse : ∀ record ∈ recordsOf clock sequence history,
      codec.parseRecord (codec.recordText record) = some record) :
    replay codec ((recordsOf clock sequence history).map (rowOf codec)) state (sequence + 1) =
      .ok (state', sequence + 1 + history.length) := by
  induction h generalizing sequence with
  | nil => rfl
  | @cons s mid s' command outcome history head _ ih =>
    rw [recordsOf] at hparse
    have hrecord := hparse _ (List.mem_cons_self ..)
    have hround : replayRecord codec s (sequence + 1)
        (rowOf codec ⟨sequence + 1, clock (sequence + 1), command, outcome⟩) = .ok mid := by
      simp only [replayRecord, toU64, bind_eq_ok, ensure_eq_ok, pure_eq_ok, exists_const]
      exact ⟨sequence + 1, ⟨Int.natCast_nonneg _, Int.toNat_natCast _⟩, rfl, _,
        decode_of_digest hrecord, rfl, (outcome, mid), replayApply_of_run head, rfl, rfl⟩
    rw [recordsOf, List.map_cons, replay, hround]
    refine (ih (sequence + 1) fun record hr => hparse record (List.mem_cons_of_mem _ hr)).trans ?_
    rw [List.length_cons]
    congr 2
    omega

/-- One accepted row. -/
theorem replayRecord_ok {state state' : EngineState} {next : ℕ} {row : ℤ × Row}
    (h : replayRecord codec state next row = .ok state') :
    row.1 = next ∧ ∃ record outcome, codec.parseRecord row.2.payload = some record ∧
      codec.digest row.2.payload = row.2.checksum ∧ record.sequence = next ∧
      (Journal.apply record.command).run state = (.ok outcome, state') ∧
      codec.outcomeValue outcome = codec.outcomeValue record.outcome := by
  simp only [replayRecord, toU64, decode, bind_eq_ok, ensure_eq_ok, pure_eq_ok, orErr_eq_ok,
    exists_const] at h
  obtain ⟨sequence, ⟨hnonneg, rfl⟩, hnext, record, ⟨hdigest, hparse⟩, hsequence, ⟨outcome, mid⟩,
    hrun, hvalue, rfl⟩ := h
  refine ⟨by omega, record, outcome, hparse, hdigest, hsequence.trans hnext, replayApply_ok hrun,
    hvalue⟩

/-- **A replay that succeeds is a run** of the commands in the rows, whose outcomes are
those in the rows. -/
theorem replay_ok {rows : List (ℤ × Row)} {state state' : EngineState} {next next' : ℕ}
    (h : replay codec rows state next = .ok (state', next')) :
    next' = next + rows.length ∧
      rows.map Prod.fst = (List.range' next rows.length).map Nat.cast ∧
      ∃ (records : List Record) (history : List (Command × Outcome)),
        rows.map (fun row => codec.parseRecord row.2.payload) = records.map some ∧
        Run state history state' ∧ history.map Prod.fst = records.map Record.command ∧
        history.map (fun e => codec.outcomeValue e.2) =
          records.map (fun record => codec.outcomeValue record.outcome) := by
  induction rows generalizing state next with
  | nil =>
    obtain ⟨rfl, rfl⟩ := Prod.mk.inj (pure_eq_ok.mp h)
    exact ⟨rfl, rfl, [], [], rfl, .nil _, rfl, rfl⟩
  | cons row rows ih =>
    obtain ⟨mid, hround, hrest⟩ := bind_eq_ok.mp h
    obtain ⟨hnext, record, outcome, hparse, -, -, hrun, hvalue⟩ := replayRecord_ok hround
    obtain ⟨rfl, hsequences, records, history, hrecords, hhistory, hcommands, hvalues⟩ := ih hrest
    refine ⟨?_, ?_, record :: records, (record.command, outcome) :: history, ?_,
      .cons hrun hhistory, ?_, ?_⟩
    · rw [List.length_cons]
      omega
    · rw [List.map_cons, hsequences, List.length_cons, List.range'_succ, List.map_cons, hnext]
    · rw [List.map_cons, hparse, hrecords, List.map_cons]
    · rw [List.map_cons, hcommands, List.map_cons]
    · rw [List.map_cons, hvalues, List.map_cons, hvalue]

/-! ## Recovery -/

omit [DecidableEq Json] in
/-- The genesis of a loaded cache, written to a fresh store. -/
theorem initializeGenesis_fresh (codec : Codec Json) (engineId : String) (cache : BalanceCache) :
    initializeGenesis codec engineId (.genesis cache) fresh = .ok { fresh with
      genesis := some ⟨codec.genesisText ⟨4, engineId, cache.journalSeed⟩,
        codec.digest (codec.genesisText ⟨4, engineId, cache.journalSeed⟩)⟩ } := rfl

/-- **The journal of a run recovers its state.** -/
theorem recover_of_run {store : Store} {cache : BalanceCache} {engineId : String}
    (clock : ℕ → Timestamp) {history : List (Command × Outcome)} {state : EngineState}
    (delivered : ℕ)
    (hcache : ∀ account b, cache.balances.lookup account = some b → Startup.Admissible account b)
    (hgenesis : store.genesis = some ⟨codec.genesisText ⟨4, engineId, cache.journalSeed⟩,
      codec.digest (codec.genesisText ⟨4, engineId, cache.journalSeed⟩)⟩)
    (hid : codec.isUuid engineId = true)
    (hparse : codec.parseGenesis (codec.genesisText ⟨4, engineId, cache.journalSeed⟩) =
      some ⟨4, engineId, cache.journalSeed⟩)
    (hentries : store.records.entries = (recordsOf clock 0 history).map (rowOf codec))
    (hrecords : ∀ record ∈ recordsOf clock 0 history,
      codec.parseRecord (codec.recordText record) = some record)
    (hrun : Run (.genesis cache) history state) (hdelivery : store.delivery = some (delivered : ℤ))
    (hle : delivered ≤ history.length) : recover codec store = .ok (state, engineId) := by
  have hreplay := replay_recordsOf hrun 0 hrecords
  rw [← hentries, Nat.zero_add] at hreplay
  simp only [recover, bind_eq_ok, orErr_eq_ok, ensure_eq_ok, pure_eq_ok, exists_const]
  refine ⟨_, hgenesis, _, decode_of_digest hparse, ⟨rfl, hid⟩, _, restore_journalSeed hcache,
    (state, 1 + history.length), hreplay, delivered, ?_, ?_, rfl⟩
  · simp only [Store.delivered, toU64, bind_eq_ok, orErr_eq_ok, ensure_eq_ok, pure_eq_ok,
      exists_const]
    exact ⟨_, hdelivery, Int.natCast_nonneg _, Int.toNat_natCast _⟩
  · omega

/-- A journal without records recovers the balances of its genesis. -/
theorem recover_genesis {store : Store} {cache : BalanceCache} {engineId : String}
    (hcache : ∀ account b, cache.balances.lookup account = some b → Startup.Admissible account b)
    (hgenesis : store.genesis = some ⟨codec.genesisText ⟨4, engineId, cache.journalSeed⟩,
      codec.digest (codec.genesisText ⟨4, engineId, cache.journalSeed⟩)⟩)
    (hid : codec.isUuid engineId = true)
    (hparse : codec.parseGenesis (codec.genesisText ⟨4, engineId, cache.journalSeed⟩) =
      some ⟨4, engineId, cache.journalSeed⟩)
    (hempty : store.records.entries = []) (hdelivery : store.delivery = some 0) :
    recover codec store = .ok (.genesis cache, engineId) :=
  @recover_of_run _ codec _ _ _ _ (fun _ => 0) [] _ 0 hcache hgenesis hid hparse hempty
    (fun _ hrecord => absurd hrecord List.not_mem_nil) (.nil _) hdelivery le_rfl

theorem delivered_ok {store : Store} {n : ℕ} (h : store.delivered = .ok n) :
    store.delivery = some (n : ℤ) := by
  simp only [Store.delivered, toU64, bind_eq_ok, orErr_eq_ok, ensure_eq_ok, pure_eq_ok,
    exists_const] at h
  obtain ⟨d, hd, hnonneg, rfl⟩ := h
  rw [hd, Int.toNat_of_nonneg hnonneg]

/-- **What an accepted journal is**: a genesis of admissible accounts, and a run of the
commands in the records with the outcomes in the records. -/
structure Faithful (codec : Codec Json) (store : Store) (state : EngineState) (engineId : String)
    (genesis : Genesis) (cache : BalanceCache) (records : List Record)
    (history : List (Command × Outcome)) : Prop where
  genesis_eq : ∃ row, store.genesis = some row ∧ codec.digest row.payload = row.checksum ∧
    codec.parseGenesis row.payload = some genesis
  identity : genesis.version = 4 ∧ codec.isUuid engineId = true ∧ genesis.engineId = engineId
  /-- No account is duplicated, negative, out of range or locked. -/
  once : (genesis.balances.map Genesis.account).Nodup
  inRange : ∀ row ∈ genesis.balances, 0 ≤ row.2.2.1 ∧ row.2.2.2 ≈ 0 ∧
    ∃ u, 0 ≤ u ∧ u ≤ maxUnits ∧ row.2.2.1.raw = u * 10 ^ 19
  balances : ∀ account b, cache.balances.lookup account = some b ↔
    ∃ row ∈ genesis.balances, Genesis.account row = account ∧ Genesis.balance row = b
  /-- The sequences are `1, 2, …, n`. -/
  sequences : store.records.entries.map Prod.fst = (List.range' 1 records.length).map Nat.cast
  parsed : store.records.entries.map (fun row => codec.parseRecord row.2.payload) =
    records.map some
  /-- Each command was executed on the state the previous records built. -/
  run : Run (.genesis cache) history state
  commands : history.map Prod.fst = records.map Record.command
  outcomes : history.map (fun e => codec.outcomeValue e.2) =
    records.map fun record => codec.outcomeValue record.outcome
  delivery : ∃ delivered : ℕ, store.delivery = some (delivered : ℤ) ∧ delivered ≤ records.length

omit [DecidableEq Json] in
theorem admissible_range {row : UInt64 × String × Decimal × Decimal}
    (h : Startup.Admissible (Genesis.account row) (Genesis.balance row)) :
    0 ≤ row.2.2.1 ∧ row.2.2.2 ≈ 0 ∧ ∃ u, 0 ≤ u ∧ u ≤ maxUnits ∧ row.2.2.1.raw = u * 10 ^ 19 := by
  obtain ⟨-, -, -, hlocked, u, hu⟩ := h
  obtain ⟨h0, hmax, hraw⟩ := units_eq_ok_iff.mp hu
  refine ⟨?_, hlocked, u, h0, hmax, hraw⟩
  show (0 : ℤ) ≤ row.2.2.1.raw
  exact hraw ▸ by positivity

theorem recover_ok {store : Store} {state : EngineState} {engineId : String}
    (h : recover codec store = .ok (state, engineId)) :
    ∃ genesis cache records history,
      Faithful codec store state engineId genesis cache records history := by
  simp only [recover, bind_eq_ok, orErr_eq_ok, ensure_eq_ok, pure_eq_ok, exists_const,
    Prod.mk.injEq] at h
  obtain ⟨row, hrow, genesis, hdecode, ⟨hversion, hid⟩, start, hrestore, ⟨final, next⟩, hreplay,
    delivered, hdelivered, hlt, rfl, rfl⟩ := h
  simp only [decode, bind_eq_ok, ensure_eq_ok, orErr_eq_ok, exists_const] at hdecode
  obtain ⟨hids, hadmissible, -, rfl⟩ := restore_ok hrestore
  obtain ⟨rfl, hsequences, records, history, hparsed, hrun, hcommands, hvalues⟩ := replay_ok hreplay
  have hlength : store.records.entries.length = records.length := by
    have := congrArg List.length hparsed
    rwa [List.length_map, List.length_map] at this
  rw [hlength] at hsequences hlt
  refine ⟨genesis, _, records, history, ⟨row, hrow, hdecode⟩, ⟨hversion, hid, rfl⟩, hids,
    fun row hr => admissible_range (hadmissible row hr), fun account b => ?_, hsequences, hparsed,
    hrun, hcommands, hvalues, delivered, delivered_ok hdelivered, by omega⟩
  show (genesis.balances.foldl (fun m row => m.insert (Genesis.account row) (Genesis.balance row))
    (∅ : Finmap fun _ : Account => Balance)).lookup account = some b ↔ _
  rw [lookup_foldl_insert hids, Finmap.lookup_empty, Option.or_none, Option.map_eq_some_iff]
  constructor
  · rintro ⟨row, hfind, rfl⟩
    exact ⟨row, List.mem_of_find?_eq_some hfind, by simpa using List.find?_some hfind, rfl⟩
  · rintro ⟨row, hr, rfl, rfl⟩
    cases hfind : genesis.balances.find? fun row' => Genesis.account row' == Genesis.account row with
    | none => exact absurd (List.find?_eq_none.mp hfind row hr) (by simp)
    | some row' =>
      have heq : Genesis.account row' = Genesis.account row := by simpa using List.find?_some hfind
      rw [List.inj_on_of_nodup_map hids (List.mem_of_find?_eq_some hfind) hr heq]
      exact ⟨row, rfl, rfl⟩

omit [DecidableEq Json] in
/-- Loaded balances are balances a run starts from. -/
theorem valid_of_admissible {cache : BalanceCache}
    (h : ∀ account b, cache.balances.lookup account = some b → Startup.Admissible account b) :
    cache.Valid := by
  intro account b hb
  obtain ⟨-, -, -, hlocked, x, hx⟩ := h account b hb
  exact ⟨⟨x, hx⟩, 0, (units_congr hlocked).mpr units_zero⟩

/-- **Recovery is exact, and accepts only faithful journals.**

From balances that the startup loaded, the genesis recovers the state it was written
from; from there every sequence of commands runs to its end, and once its outcomes were
appended, in any grouping and among any queries, the journal recovers exactly the state
the commands led to, wherever the delivery cursor stands.  Conversely a journal that is
recovered is faithful, whatever its tables hold. -/
theorem recovery_exact (codec : Codec Json) :
    (∀ platform cache engineId, Startup.loadBalances platform = .ok cache →
      codec.isUuid engineId = true →
      codec.parseGenesis (codec.genesisText ⟨4, engineId, cache.journalSeed⟩) =
        some ⟨4, engineId, cache.journalSeed⟩ →
      ∃ store, initializeGenesis codec engineId (.genesis cache) fresh = .ok store ∧
        recover codec store = .ok (.genesis cache, engineId) ∧
        ∀ commands, ∃ outcomes state,
          (Journal.applyAll commands).run (.genesis cache) = (.ok outcomes, state) ∧
          outcomes.length = commands.length ∧
          ∀ clock groups store' n, executed groups.flatten = commands.zip outcomes →
            (∀ record ∈ recordsOf clock 0 (commands.zip outcomes),
              codec.parseRecord (codec.recordText record) = some record) →
            appendGroups codec clock groups store 0 = .ok (store', n) →
            n = commands.length ∧ recover codec store' = .ok (state, engineId) ∧
            ∀ delivered ≤ n, recover codec { store' with delivery := some (delivered : ℤ) } =
              .ok (state, engineId)) ∧
    ∀ store state engineId, recover codec store = .ok (state, engineId) →
      ∃ genesis cache records history,
        Faithful codec store state engineId genesis cache records history := by
  refine ⟨fun platform cache engineId hload hid hparse => ?_, fun store state engineId h =>
    recover_ok h⟩
  have hcache := Startup.loadBalances_admissible hload
  refine ⟨_, initializeGenesis_fresh codec engineId cache, ?_, fun commands => ?_⟩
  · exact recover_genesis hcache rfl hid hparse rfl rfl
  · obtain ⟨outcomes, state, hrun, hlength, hhistory⟩ :=
      Journal.applyAll_total (EngineState.inv_genesis (valid_of_admissible hcache)) commands
    refine ⟨outcomes, state, hrun, hlength, fun clock groups store' n hgroups hrecords happend => ?_⟩
    obtain ⟨hn, hentries, hgenesis, hdelivery⟩ :=
      appendGroups_ok happend (fun e he => by cases he)
    rw [hgroups] at hn hentries
    have hzip : (commands.zip outcomes).length = commands.length := by
      rw [List.length_zip, hlength, Nat.min_self]
    refine ⟨by omega, ?_, fun delivered hle => ?_⟩
    · exact recover_of_run clock 0 hcache hgenesis hid hparse hentries hrecords hhistory hdelivery
        (Nat.zero_le _)
    · exact recover_of_run clock delivered hcache hgenesis hid hparse hentries hrecords hhistory
        rfl (by omega)

end Codec

/-! ### A journal with one record -/

/-- The texts of a genesis and of a record, with their checksums. -/
def sampleGenesisText : String :=
  "\x7b\"version\":4,\"engine_id\":\"00000000-0000-4000-8000-000000000001\",\"balances\":[[2,\"USDT\",\"1\",\"0\"]]\x7d"

def sampleRecordText : String :=
  "\x7b\"sequence\":1,\"timestamp\":\"1970-01-01T00:00:00Z\",\"command\":\x7b\"Balance\":\x7b\"user_id\":2,\"mint\":\"USDT\",\"delta\":\"1\"\x7d\x7d,\"outcome\":\x7b\"Applied\":null\x7d\x7d"

def sampleGenesis : Genesis :=
  ⟨4, "00000000-0000-4000-8000-000000000001", [(2, "USDT", Decimal.ONE, 0)]⟩

def sampleRecord : Record := ⟨1, 0, .balance 2 "USDT" Decimal.ONE, .applied none⟩

/-- The encodings on these two values. -/
def sampleCodec : Codec String where
  genesisText g := if g = sampleGenesis then sampleGenesisText else ""
  parseGenesis text := if text = sampleGenesisText then some sampleGenesis else none
  recordText r := if r = sampleRecord then sampleRecordText else ""
  parseRecord text := if text = sampleRecordText then some sampleRecord else none
  outcomeValue
    | .applied none => "\x7b\"Applied\":null\x7d"
    | _ => ""
  digest text := if text = sampleGenesisText then
    [82, 4, 72, 53, 115, 20, 232, 20, 188, 188, 114, 9, 128, 93, 214, 183, 68, 177, 31, 179, 107,
      235, 241, 56, 205, 68, 216, 14, 123, 151, 74, 40]
    else if text = sampleRecordText then
    [34, 238, 135, 170, 0, 235, 118, 92, 181, 77, 211, 201, 200, 96, 101, 246, 94, 72, 207, 59,
      149, 184, 224, 94, 235, 46, 169, 43, 131, 192, 178, 195]
    else []
  isUuid text := text = "00000000-0000-4000-8000-000000000001"

/-- A platform with one balance. -/
def samplePlatform : Startup.Platform :=
  ⟨none, none, none, none, none, none, [⟨2, "USDT", "1.000000000", "0.000000000"⟩]⟩

def sampleCache : BalanceCache :=
  ⟨(∅ : Finmap fun _ : Account => Balance).insert (2, "USDT") ⟨Decimal.ONE, 0⟩⟩

/-- The platform has the balance of the sample. -/
theorem loadBalances_sample : Startup.loadBalances samplePlatform = .ok sampleCache := by rfl

theorem admissible_sample : ∀ account b, sampleCache.balances.lookup account = some b →
    Startup.Admissible account b :=
  Startup.loadBalances_admissible loadBalances_sample

theorem isUuid_sample : sampleCodec.isUuid sampleGenesis.engineId = true := by decide

/-- Its genesis is read back. -/
theorem parseGenesis_sample : sampleCodec.parseGenesis (sampleCodec.genesisText
    ⟨4, sampleGenesis.engineId, sampleCache.journalSeed⟩) =
      some ⟨4, sampleGenesis.engineId, sampleCache.journalSeed⟩ := by
  decide +kernel

/-- The record between two queries. -/
def sampleGroups : List (List Pending) :=
  [[⟨none, .applied none, .balance 0 Decimal.ONE 0⟩,
    ⟨some (.balance 2 "USDT" Decimal.ONE), .applied none, .unit 1⟩],
    [⟨none, .applied none, .balance 2 (.ofScaled 2 0) 0⟩]]

theorem recovery_exact_balance :
    ∃ store state store' n,
      initializeGenesis sampleCodec sampleGenesis.engineId (.genesis sampleCache) fresh = .ok store ∧
      appendGroups sampleCodec (fun _ => 0) sampleGroups store 0 = .ok (store', n) ∧
      recover sampleCodec store' = .ok (state, sampleGenesis.engineId) := by
  obtain ⟨store, hstore, -, hrun⟩ := (recovery_exact sampleCodec).1 samplePlatform sampleCache
    sampleGenesis.engineId loadBalances_sample isUuid_sample parseGenesis_sample
  obtain ⟨outcomes, state, hcommands, -, hrecover⟩ := hrun [.balance 2 "USDT" Decimal.ONE]
  have houtcomes : ((Journal.applyAll [.balance 2 "USDT" Decimal.ONE]).run
      (.genesis sampleCache)).1.toOption = some [.applied none] := by
    decide +kernel
  rw [hcommands] at houtcomes
  cases houtcomes
  have hok : (appendGroups sampleCodec (fun _ => 0) sampleGroups store 0).isOk = true := by
    cases hstore
    decide +kernel
  cases happend : appendGroups sampleCodec (fun _ => 0) sampleGroups store 0 with
  | error e =>
    rw [happend] at hok
    cases hok
  | ok r =>
    obtain ⟨-, hstate, -⟩ := hrecover _ _ r.1 r.2 rfl (by decide +kernel) happend
    exact ⟨store, state, r.1, r.2, hstore, happend, hstate⟩

/-! ### A journal with a few records -/

/-- A record with its text, the value of its outcome and the digest of the text. -/
structure TableRow where
  record : Record
  text : String
  value : String
  digest : List UInt8

/-- The encodings on the genesis of the sample and on some records. -/
def tableCodec (rows : List TableRow) : Codec String where
  genesisText := sampleCodec.genesisText
  parseGenesis := sampleCodec.parseGenesis
  recordText record := ((rows.find? fun row => row.record = record).map TableRow.text).getD ""
  parseRecord text := (rows.find? fun row => row.text = text).map TableRow.record
  outcomeValue outcome :=
    ((rows.find? fun row => row.record.outcome = outcome).map TableRow.value).getD ""
  digest text :=
    ((rows.find? fun row => row.text = text).map TableRow.digest).getD (sampleCodec.digest text)
  isUuid := sampleCodec.isUuid

/-- The records of a table are told apart, by what they say and by their texts. -/
def Distinct (rows : List TableRow) : Prop :=
  ("" :: rows.map TableRow.text).Nodup ∧ (rows.map TableRow.record).Nodup

instance (rows : List TableRow) : Decidable (Distinct rows) := inferInstanceAs (Decidable (_ ∧ _))

section Table

variable {rows : List TableRow} {record : Record}

/-- What has a key that nothing else has is found under it. -/
theorem find?_of_nodup {α κ : Type} [DecidableEq κ] {key : α → κ} {l : List α}
    (h : (l.map key).Nodup) {a : α} (ha : a ∈ l) :
    l.find? (fun other => key other = key a) = some a := by
  have hsome : (l.find? fun other => key other = key a).isSome :=
    List.find?_isSome.mpr ⟨a, ha, decide_eq_true rfl⟩
  obtain ⟨other, hother⟩ := Option.isSome_iff_exists.mp hsome
  have heq : key other = key a := by simpa using List.find?_some hother
  rw [hother, List.inj_on_of_nodup_map h (List.mem_of_find?_eq_some hother) ha heq]

theorem recordText_tableCodec (h : Distinct rows) {row : TableRow} (hrow : row ∈ rows) :
    (tableCodec rows).recordText row.record = row.text := by
  have hfound : rows.find? (fun other => other.record = row.record) = some row :=
    find?_of_nodup h.2 hrow
  show ((rows.find? fun other => other.record = row.record).map TableRow.text).getD "" = row.text
  rw [hfound]
  rfl

/-- A text that is not empty is that of a record of the table. -/
theorem exists_row (h : (tableCodec rows).recordText record ≠ "") :
    ∃ row ∈ rows, row.record = record := by
  cases hfind : rows.find? fun row => row.record = record with
  | none =>
    refine absurd ?_ h
    show ((rows.find? fun row => row.record = record).map TableRow.text).getD "" = ""
    rw [hfind]
    rfl
  | some row => exact ⟨row, List.mem_of_find?_eq_some hfind, by simpa using List.find?_some hfind⟩

theorem parseRecord_tableCodec (h : Distinct rows) {row : TableRow} (hrow : row ∈ rows) :
    (tableCodec rows).parseRecord row.text = some row.record := by
  have hfound : rows.find? (fun other => other.text = row.text) = some row :=
    find?_of_nodup (List.nodup_cons.mp h.1).2 hrow
  exact congrArg (Option.map TableRow.record) hfound

/-- **The records of a table are read back**, and no other has the text of one of them. -/
theorem legible_tableCodec (h : Distinct rows) {known : Record}
    (hknown : known ∈ rows.map TableRow.record)
    (htext : (tableCodec rows).recordText record = (tableCodec rows).recordText known) :
    (tableCodec rows).parseRecord ((tableCodec rows).recordText record) = some record := by
  obtain ⟨row, hrow, rfl⟩ := List.mem_map.mp hknown
  rw [recordText_tableCodec h hrow] at htext
  have hne : (tableCodec rows).recordText record ≠ "" := by
    intro hempty
    rw [hempty] at htext
    exact (List.nodup_cons.mp h.1).1 (List.mem_map.mpr ⟨row, hrow, htext.symm⟩)
  obtain ⟨other, hother, rfl⟩ := exists_row hne
  rw [recordText_tableCodec h hother]
  exact parseRecord_tableCodec h hother

end Table

/-- The store after a commit. -/
def written (codec : Codec String) (store : Store) (pending : List Pending) (n : ℕ) : Store :=
  match store.append codec (fun _ => 0) pending n with
  | .ok (store, _) => store
  | .error _ => store

/-- A commit after the records so far, and what the store holds after it. -/
theorem append_written {codec : Codec String} {store : Store} {records : List Record}
    {pending : List Pending} {n : ℕ} (hentries : store.records.entries = records.map (rowOf codec))
    (hle : ∀ record ∈ records, record.sequence ≤ n)
    (hmax : n + (executed pending).length ≤ maxI64.toNat) :
    store.append codec (fun _ => 0) pending n =
        .ok (written codec store pending n, n + (executed pending).length) ∧
      (written codec store pending n).records.entries =
        (records ++ recordsOf (fun _ => 0) n (executed pending)).map (rowOf codec) ∧
      (written codec store pending n).genesis = store.genesis ∧
      (written codec store pending n).delivery = store.delivery := by
  have hlast : ∀ e ∈ store.records.entries, e.1 ≤ n := by
    rw [hentries]
    intro e he
    obtain ⟨record, hrecord, rfl⟩ := List.mem_map.mp he
    exact Int.ofNat_le.mpr (hle record hrecord)
  obtain ⟨records', hinsert⟩ := @insertAll_total _ codec (fun _ => 0) pending _ _ hlast hmax
  have happend : store.append codec (fun _ => 0) pending n =
      .ok ({ store with records := records' }, n + (executed pending).length) :=
    bind_eq_ok.mpr ⟨_, hinsert, rfl⟩
  rw [written, happend]
  refine ⟨rfl, ?_, rfl, rfl⟩
  rw [(append_ok happend hlast).2.1, hentries, List.map_append]

/-- The first commit of a journal. -/
theorem append_first {codec : Codec String} {store : Store} {pending : List Pending}
    (hempty : store.records.entries = []) (hmax : (executed pending).length ≤ maxI64.toNat) :
    store.append codec (fun _ => 0) pending 0 =
        .ok (written codec store pending 0, (executed pending).length) ∧
      (written codec store pending 0).records.entries =
        (recordsOf (fun _ => 0) 0 (executed pending)).map (rowOf codec) ∧
      (written codec store pending 0).genesis = store.genesis ∧
      (written codec store pending 0).delivery = store.delivery := by
  have h := @append_written codec store [] pending 0 hempty
    (fun _ hrecord => absurd hrecord List.not_mem_nil) (by rwa [Nat.zero_add])
  rwa [Nat.zero_add, List.nil_append] at h

end Store

end CexEngine
