import CexEngine.Runtime.Handle

/-!
# One process at a time

`start` of `engine.rs`, with `Ownership::acquire`, `Store::open` and `Store::initialize` of
`journal/store.rs`.  Everything about the engine is said of one process with its journal.  Nothing
keeps an operator from starting several of them on one directory, or from losing the journal, so
here any number of processes start, run and end at any time, and a step of one of them may fall
between any two steps of another.

* `Inv`: the process that has the lock is the only one past it, and the journal is as new or is the
  journal of an execution of `Pipeline`.
* `lone_process`: the processes together are one process of `Pipeline` that is restarted, so what
  holds there holds of them; the genesis never changes, and a journal that was lost is not replaced.

The last has a condition.  `Ownership::acquire` looks for the lock file before it opens and locks it,
so a process may have found no file, and go on only after another one has made the file and the
journal, has ended, and the journal was lost: it replaces the journal (`stale_start`).  So a state
counts as `Lost` when no process has such an answer any more, which then stays so.
-/

namespace CexEngine

open Foundation Amount

namespace Ownership

/-! ## Starting -/

/-- What `Store::open` reads of a journal file. -/
structure Schema where
  version : ℤ
  tables : ℕ
  deriving DecidableEq

/-- The test of `start` after the lock. -/
def checkJournal (fresh isFile : Bool) : Except Fault Unit :=
  ensure (fresh = true ∨ isFile = true)
    "Previously owned engine journal is missing; automatic DB bootstrap refused"

/-- `Store::open` on a file with its tables; a missing file is created. -/
def openStore (file : Option Schema) (store : Store) : Except Fault (Schema × Store) := do
  let schema := file.getD ⟨0, 0⟩
  ensure (schema.version = 0 ∨ schema.version = 4) "Unsupported journal schema version"
  ensure (schema.version = 0 → schema.tables = 0) "Unknown existing journal schema"
  pure (⟨4, 3⟩, { store with delivery := some (store.delivery.getD 0) })

/-- The next statement of a process. -/
inductive Phase where
  | idle
  /-- `owner.lock` was looked for. -/
  | checked (fresh : Bool)
  | opened (fresh : Bool)
  /-- The lock was obtained. -/
  | owning (fresh : Bool)
  /-- The journal file is there, or it may be created. -/
  | guarded
  | connected
  /-- There is no genesis; the balances of the platform are read. -/
  | loading
  | loaded (cache : BalanceCache)
  /-- There is a genesis. -/
  | seeded
  | running
  /-- `start` has returned an error. -/
  | refused (fault : Fault)

namespace Phase

/-- The process has the lock. -/
def Holds : Phase → Prop
  | owning _ | guarded | connected | loading | loaded _ | seeded | running => True
  | _ => False

/-- The process is in `start`. -/
def Starts : Phase → Prop
  | idle | running | refused _ => False
  | _ => True

/-- The process knows nothing of the journal yet. -/
def Plain : Phase → Prop
  | loaded _ | seeded | running => False
  | _ => True

/-- The process may create a journal, or has opened one. -/
def MayCreate : Phase → Prop
  | checked fresh | opened fresh | owning fresh => fresh = true
  | idle | refused _ => False
  | _ => True

end Phase

/-- A directory and the processes that use it.  The tables of the journal are those of `live`. -/
structure System where
  lockFile : Bool
  holder : Option ℕ
  phases : ℕ → Phase
  journal : Option Schema
  live : Pipeline.World

namespace System

def set (s : System) (p : ℕ) (phase : Phase) : System :=
  { s with phases := Function.update s.phases p phase }

/-- The file of the lock is closed. -/
def release (s : System) (p : ℕ) : System :=
  { s with holder := if s.holder = some p then none else s.holder }

@[simp] theorem set_self (s : System) (p : ℕ) (phase : Phase) : (s.set p phase).phases p = phase :=
  Function.update_self ..

theorem set_of_ne (s : System) {p q : ℕ} (phase : Phase) (h : q ≠ p) :
    (s.set p phase).phases q = s.phases q := Function.update_of_ne h ..

end System

/-- The process is gone. -/
def killed (w : Pipeline.World) : Pipeline.World :=
  { w with orders := [], balances := [], core := .down, queue := [], worker := .down }

/-- There is no genesis, and nothing was executed. -/
structure Unborn (w : Pipeline.World) : Prop where
  store : w.store.genesis = none ∧ w.store.records = SortedMap.empty ∧
    (w.store.delivery = none ∨ w.store.delivery = some 0)
  down : w.core = .down ∧ w.worker = .down
  empty : w.orders = [] ∧ w.balances = [] ∧ w.queue = []
  silent : w.sent = [] ∧ w.history = [] ∧ w.durable = 0

section Step

variable {Json : Type} [DecidableEq Json] (codec : Codec Json)

/-- One statement of one process. -/
inductive Step : System → System → Prop
  | check {s : System} {p : ℕ} (here : s.phases p = .idle) : Step s (s.set p (.checked !s.lockFile))
  | openLock {s : System} {p : ℕ} {fresh : Bool} (here : s.phases p = .checked fresh) :
      Step s { s.set p (.opened fresh) with lockFile := true }
  | lock {s : System} {p : ℕ} {fresh : Bool} (here : s.phases p = .opened fresh)
      (free : s.holder = none) : Step s { s.set p (.owning fresh) with holder := some p }
  | checkJournal {s : System} {p : ℕ} {fresh : Bool} (here : s.phases p = .owning fresh)
      (passed : checkJournal fresh s.journal.isSome = .ok ()) : Step s (s.set p .guarded)
  /-- The file is created before its tables. -/
  | create {s : System} {p : ℕ} (here : s.phases p = .guarded) (missing : s.journal = none) :
      Step s { s with journal := some ⟨0, 0⟩ }
  | connect {s : System} {p : ℕ} {schema : Schema} {store : Store} (here : s.phases p = .guarded)
      (connected : openStore s.journal s.live.store = .ok (schema, store)) :
      Step s { s.set p .connected with journal := some schema, live := { s.live with store } }
  | initialized {s : System} {p : ℕ} (here : s.phases p = .connected)
      (old : s.live.store.initialized = .ok true) : Step s (s.set p .seeded)
  | uninitialized {s : System} {p : ℕ} (here : s.phases p = .connected)
      (new : s.live.store.initialized = .ok false) : Step s (s.set p .loading)
  | load {s : System} {p : ℕ} {platform : Startup.Platform} {cache : BalanceCache}
      (here : s.phases p = .loading) (read : Startup.loadBalances platform = .ok cache) :
      Step s (s.set p (.loaded cache))
  /-- The genesis is written under a new identifier. -/
  | seed {s : System} {p : ℕ} {cache : BalanceCache} {engineId : String} {store : Store}
      (here : s.phases p = .loaded cache) (uuid : codec.isUuid engineId = true)
      (written : s.live.store.initializeGenesis codec engineId (.genesis cache) = .ok store) :
      Step s { s.set p .seeded with live := { s.live with store } }
  | recover {s : System} {p : ℕ} {state : EngineState} {engineId : String} {last : ℕ}
      (here : s.phases p = .seeded) (recovered : s.live.store.recover codec = .ok (state, engineId))
      (sequence : s.live.store.lastSequence = .ok last) :
      Step s { s.set p .running with live := s.live.booted state last }
  /-- The workers of a process. -/
  | run {s : System} {p : ℕ} {live : Pipeline.World} (here : s.phases p = .running)
      (step : Pipeline.Step codec s.live live) (up : live.core ≠ .down) : Step s { s with live }
  /-- A statement fails, and `start` returns its error. -/
  | fail {s : System} {p : ℕ} (here : (s.phases p).Starts) (fault : Fault) :
      Step s ((s.set p (.refused fault)).release p)
  /-- A process ends, wherever it is. -/
  | exit {s : System} {p : ℕ} (before : s.phases p ≠ .running) : Step s ((s.set p .idle).release p)
  | kill {s : System} {p : ℕ} (here : s.phases p = .running) :
      Step s { (s.set p .idle).release p with live := killed s.live }

/-- Onward from a state. -/
inductive Onward (s : System) : System → Prop
  | refl : Onward s s
  | step {s' s'' : System} (reached : Onward s s') (step : Step codec s' s'') : Onward s s''

/-- The states of all executions.  A journal may be lost while no process has the lock. -/
inductive Reachable (start : System) : System → Prop
  | start : Reachable start start
  | step {s s' : System} (reached : Reachable start s) (step : Step codec s s') : Reachable start s'
  | lose {s : System} {live : Pipeline.World} (reached : Reachable start s) (free : s.holder = none)
      (unborn : Unborn live) : Reachable start { s with journal := none, live }

end Step

section Runs

variable {Json : Type} [DecidableEq Json] {codec : Codec Json} {s s' s'' : System}

theorem Onward.cons (step : Step codec s s') (h : Onward codec s' s'') : Onward codec s s'' := by
  induction h with
  | refl => exact .step .refl step
  | step _ step' ih => exact ih.step step'

theorem Onward.head {P : System → Prop} (step : Step codec s s')
    (h : ∃ s'', Onward codec s' s'' ∧ P s'') : ∃ s'', Onward codec s s'' ∧ P s'' :=
  h.imp fun _ ⟨honward, hP⟩ => ⟨.cons step honward, hP⟩

theorem Reachable.onward {start : System} {P : System → Prop} (h : Reachable codec start s)
    (h' : ∃ s', Onward codec s s' ∧ P s') : ∃ s', Reachable codec start s' ∧ P s' := by
  obtain ⟨s', honward, hP⟩ := h'
  refine ⟨s', ?_, hP⟩
  clear hP
  induction honward with
  | refl => exact h
  | step _ step ih => exact ih.step step

end Runs

/-- A directory that was never used. -/
structure System.Initial (s : System) : Prop where
  files : s.lockFile = false ∧ s.journal = none
  free : s.holder = none
  idle : ∀ p, s.phases p = .idle
  live : Unborn s.live

/-! ## The tables -/

section Tables

variable {Json : Type} [DecidableEq Json] {codec : Codec Json} {w w' : Pipeline.World}

omit [DecidableEq Json] in
theorem append_tables {clock : ℕ → Timestamp} {pending : List Pending} {store store' : Store}
    {sequence sequence' : ℕ} (h : store.append codec clock pending sequence = .ok (store', sequence')) :
    store'.genesis = store.genesis ∧ store'.delivery = store.delivery := by
  obtain ⟨⟨records, next⟩, -, heq⟩ := bind_eq_ok.mp h
  obtain ⟨rfl, -⟩ := Prod.mk.inj (pure_eq_ok.mp heq)
  exact ⟨rfl, rfl⟩

theorem markDelivered_tables {store store' : Store} {n : ℕ} (h : store.markDelivered n = .ok store') :
    store'.genesis = store.genesis ∧ store'.delivery ≠ none := by
  simp only [Store.markDelivered, bind_eq_ok, pure_eq_ok] at h
  obtain ⟨_, -, _, -, _, -, _, -, rfl⟩ := h
  exact ⟨rfl, Option.some_ne_none _⟩

/-- The workers keep the genesis, and the row of the delivery cursor. -/
theorem tables_kept (step : Pipeline.Step codec w w') : w'.store.genesis = w.store.genesis ∧
    (w.store.delivery ≠ none → w'.store.delivery ≠ none) := by
  have happended : ∀ {clock pending store sequence last},
      w.store.append codec clock pending sequence = .ok (store, last) →
      store.genesis = w.store.genesis ∧ (w.store.delivery ≠ none → store.delivery ≠ none) := by
    intro clock pending store sequence last happend
    obtain ⟨hgenesis, hdelivery⟩ := append_tables happend
    exact ⟨hgenesis, fun h => hdelivery ▸ h⟩
  cases step with
  | marked up behind marked =>
    obtain ⟨hgenesis, hdelivery⟩ := markDelivered_tables marked
    exact ⟨hgenesis, fun _ => hdelivery⟩
  | committed here happend => exact happended happend
  | commitLost here happend => exact happended happend
  | _ => exact ⟨rfl, id⟩

theorem reachable_tables {start : Pipeline.World} (h : Pipeline.Reachable codec start w) :
    w.store.genesis = start.store.genesis ∧
      (start.store.delivery ≠ none → w.store.delivery ≠ none) := by
  induction h with
  | start => exact ⟨rfl, id⟩
  | step _ step ih =>
    obtain ⟨hgenesis, hdelivery⟩ := tables_kept step
    exact ⟨hgenesis.trans ih.1, fun h => hdelivery (ih.2 h)⟩

omit [DecidableEq Json] in
/-- A genesis is written where there is none. -/
theorem initializeGenesis_ok {engineId : String} {state : EngineState} {store store' : Store}
    (h : store.initializeGenesis codec engineId state = .ok store') :
    store.genesis = none ∧ store.delivery ≠ none ∧ store'.genesis ≠ none ∧
      store'.delivery = store.delivery := by
  simp only [Store.initializeGenesis, bind_eq_ok, ensure_eq_ok, pure_eq_ok, exists_const] at h
  obtain ⟨initialized, hinitialized, hnew, -, rfl⟩ := h
  cases hgenesis : store.genesis with
  | some row =>
    rw [Store.initialized, hgenesis] at hinitialized
    cases hinitialized
    exact absurd rfl hnew
  | none =>
    refine ⟨rfl, fun hnone => ?_, Option.some_ne_none _, rfl⟩
    rw [Store.initialized, hgenesis] at hinitialized
    simp only [Store.delivered, hnone, bind_eq_ok] at hinitialized
    obtain ⟨_, -, _, ⟨_, horErr, -⟩, -⟩ := hinitialized
    cases horErr

end Tables

/-! ## The invariant -/

section Inv

variable {Json : Type} [DecidableEq Json] (codec : Codec Json)

/-- The journal of one execution of `Pipeline`, from balances that were loaded. -/
def Lineage (w : Pipeline.World) : Prop :=
  ∃ platform cache engineId start, Startup.loadBalances platform = .ok cache ∧
    codec.isUuid engineId = true ∧ start.Initial codec cache engineId ∧
    Pipeline.Reachable codec start w

structure Inv (s : System) : Prop where
  holds : ∀ p, (s.phases p).Holds → s.holder = some p
  live : Unborn s.live ∨ Lineage codec s.live
  loaded : ∀ p cache, s.phases p = .loaded cache → ∃ platform, Startup.loadBalances platform = .ok cache
  seeded : ∀ p, s.phases p = .seeded ∨ s.phases p = .running → Lineage codec s.live
  down : (∀ p, s.phases p ≠ .running) → s.live.core = .down ∧ s.live.worker = .down

variable {codec} {s s' : System} {w w' : Pipeline.World}

theorem Lineage.step (h : Lineage codec w) (step : Pipeline.Step codec w w') : Lineage codec w' := by
  obtain ⟨platform, cache, engineId, start, hload, huuid, hstart, hreached⟩ := h
  exact ⟨platform, cache, engineId, start, hload, huuid, hstart, .step hreached step⟩

theorem Lineage.tables (h : Lineage codec w) : w.store.genesis ≠ none ∧ w.store.delivery ≠ none := by
  obtain ⟨platform, cache, engineId, start, -, -, hstart, hreached⟩ := h
  obtain ⟨hgenesis, hdelivery⟩ := reachable_tables hreached
  obtain ⟨-, hfresh, hwritten, hsame⟩ := initializeGenesis_ok hstart.genesis
  exact ⟨hgenesis ▸ hwritten, hdelivery (hsame ▸ hfresh)⟩

/-- One process goes on. -/
theorem Inv.move (h : Inv codec s) {p : ℕ} {phase : Phase} {holder : Option ℕ} {live : Pipeline.World}
    (hholder : ∀ q, q ≠ p → s.holder = some q → holder = some q)
    (hholds : phase.Holds → holder = some p) (hlive : Unborn live ∨ Lineage codec live)
    (hkept : Lineage codec s.live → Lineage codec live)
    (hloaded : ∀ cache, phase = .loaded cache → ∃ platform, Startup.loadBalances platform = .ok cache)
    (hseeded : phase = .seeded ∨ phase = .running → Lineage codec live)
    (hdown : (∀ q, (s.set p phase).phases q ≠ .running) → live.core = .down ∧ live.worker = .down) :
    Inv codec { s.set p phase with holder, live } where
  holds := fun q hq => by
    change ((s.set p phase).phases q).Holds at hq
    by_cases hqp : q = p
    · subst hqp
      rw [System.set_self] at hq
      exact hholds hq
    · rw [System.set_of_ne _ _ hqp] at hq
      exact hholder q hqp (h.holds q hq)
  live := hlive
  loaded := fun q cache hq => by
    change (s.set p phase).phases q = _ at hq
    by_cases hqp : q = p
    · subst hqp
      rw [System.set_self] at hq
      exact hloaded cache hq
    · rw [System.set_of_ne _ _ hqp] at hq
      exact h.loaded q cache hq
  seeded := fun q hq => by
    change (s.set p phase).phases q = _ ∨ (s.set p phase).phases q = _ at hq
    by_cases hqp : q = p
    · subst hqp
      rw [System.set_self] at hq
      exact hseeded hq
    · rw [System.set_of_ne _ _ hqp] at hq
      exact hkept (h.seeded q hq)
  down := hdown

/-- A process that does not touch the journal. -/
theorem Inv.pass (h : Inv codec s) {p : ℕ} {phase : Phase} {holder : Option ℕ}
    (hbefore : s.phases p ≠ .running)
    (hholder : ∀ q, q ≠ p → s.holder = some q → holder = some q)
    (hholds : phase.Holds → holder = some p)
    (hloaded : ∀ cache, phase = .loaded cache → ∃ platform, Startup.loadBalances platform = .ok cache)
    (hseeded : phase = .seeded ∨ phase = .running → Lineage codec s.live) :
    Inv codec { s.set p phase with holder } := by
  refine h.move hholder hholds h.live id hloaded hseeded fun hnone => h.down fun q hq => ?_
  by_cases hqp : q = p
  · exact hbefore (hqp ▸ hq)
  · exact hnone q ((System.set_of_ne _ _ hqp).trans hq)

/-- The same, to a phase that says nothing of the journal. -/
theorem Inv.plain (h : Inv codec s) {p : ℕ} {phase : Phase} {holder : Option ℕ} (hplain : phase.Plain)
    (hbefore : s.phases p ≠ .running)
    (hholder : ∀ q, q ≠ p → s.holder = some q → holder = some q)
    (hholds : phase.Holds → holder = some p) : Inv codec { s.set p phase with holder } := by
  refine h.pass hbefore hholder hholds ?_ ?_
  · rintro cache rfl
    exact hplain.elim
  · rintro (rfl | rfl)
    · exact hplain.elim
    · exact hplain.elim

/-- A process that gives up the lock, if it has it. -/
theorem Inv.leave (h : Inv codec s) {p : ℕ} {phase : Phase} (hplain : phase.Plain)
    (hafter : ¬ phase.Holds) (hbefore : s.phases p ≠ .running) :
    Inv codec ((s.set p phase).release p) := by
  refine h.plain hplain hbefore (fun q hqp hq => ?_) (fun hholds => absurd hholds hafter)
  show (if s.holder = some p then none else s.holder) = some q
  rw [hq, if_neg fun heq => hqp (Option.some.inj heq)]

/-- The process with the lock is the only one that runs. -/
theorem Inv.alone (h : Inv codec s) {p : ℕ} (hp : (s.phases p).Holds)
    (hbefore : s.phases p ≠ .running) : s.live.core = .down ∧ s.live.worker = .down := by
  refine h.down fun q hq => hbefore ?_
  have hqp : q = p := Option.some.inj ((h.holds q (by rw [hq]; trivial)).symm.trans (h.holds p hp))
  exact hqp ▸ hq

/-- A journal that is opened again is not changed. -/
theorem Lineage.openStore (h : Lineage codec w) {file : Option Schema} {schema : Schema} {store : Store}
    (hopen : openStore file w.store = .ok (schema, store)) : Lineage codec { w with store } := by
  obtain ⟨d, hd⟩ := Option.ne_none_iff_exists'.mp h.tables.2
  simp only [Ownership.openStore, bind_eq_ok, ensure_eq_ok, exists_const, pure_eq_ok,
    Prod.mk.injEq] at hopen
  obtain ⟨-, -, -, rfl⟩ := hopen
  rw [hd, Option.getD_some, ← hd]
  exact h

theorem Unborn.openStore (h : Unborn w) {file : Option Schema} {schema : Schema} {store : Store}
    (hopen : openStore file w.store = .ok (schema, store)) : Unborn { w with store } := by
  simp only [Ownership.openStore, bind_eq_ok, ensure_eq_ok, exists_const, pure_eq_ok,
    Prod.mk.injEq] at hopen
  obtain ⟨-, -, -, rfl⟩ := hopen
  refine ⟨⟨h.store.1, h.store.2.1, Or.inr ?_⟩, h.down, h.empty, h.silent⟩
  show some (w.store.delivery.getD 0) = some 0
  rcases h.store.2.2 with hnone | hzero
  · rw [hnone]
    rfl
  · rw [hzero]
    rfl

/-- **The genesis is written once**, for a journal that is new. -/
theorem lineage_of_seed (h : Unborn w) {platform : Startup.Platform} {cache : BalanceCache}
    {engineId : String} {store : Store} (hload : Startup.loadBalances platform = .ok cache)
    (huuid : codec.isUuid engineId = true)
    (hwritten : w.store.initializeGenesis codec engineId (.genesis cache) = .ok store) :
    Lineage codec { w with store } := by
  refine ⟨platform, cache, engineId, { w with store }, hload, huuid,
    ⟨?_, h.down, h.empty, h.silent⟩, .start⟩
  have hfresh : w.store = Store.fresh := by
    obtain ⟨hgenesis, hrecords, hdelivery⟩ := h.store
    have hzero := hdelivery.resolve_left (initializeGenesis_ok hwritten).2.1
    cases hstore : w.store
    rw [hstore] at hgenesis hrecords hzero
    subst hgenesis hrecords hzero
    rfl
  rw [← hfresh]
  exact hwritten

/-- **Every step keeps the invariant.** -/
theorem Step.inv (step : Step codec s s') (h : Inv codec s) : Inv codec s' := by
  have hrunning : ∀ {p : ℕ} {phase : Phase}, s.phases p = phase → phase ≠ .running →
      s.phases p ≠ .running := fun here hne heq => hne (here.symm.trans heq)
  have hholds : ∀ {p : ℕ} {phase : Phase}, s.phases p = phase → phase.Holds → s.holder = some p :=
    fun here hp => h.holds _ (here ▸ hp)
  cases step with
  | @check p here =>
    exact h.plain (p := p) trivial (hrunning here (by simp)) (fun _ _ => id) (fun hholds => hholds.elim)
  | @openLock p fresh here =>
    have hnext : Inv codec (s.set p (.opened fresh)) := h.plain trivial (hrunning here (by simp))
      (fun _ _ => id) (fun hholds => hholds.elim)
    exact ⟨hnext.holds, hnext.live, hnext.loaded, hnext.seeded, hnext.down⟩
  | @lock p fresh here free =>
    refine h.plain trivial (hrunning here (by simp)) (fun q _ hq => ?_) fun _ => rfl
    rw [free] at hq
    cases hq
  | @checkJournal p fresh here passed =>
    exact h.plain trivial (hrunning here (by simp)) (fun _ _ => id) fun _ => hholds here trivial
  | create here missing => exact ⟨h.holds, h.live, h.loaded, h.seeded, h.down⟩
  | @connect p schema store here connected =>
    have hdown := h.alone (here ▸ trivial : (s.phases p).Holds) (hrunning here (by simp))
    have hnext : Inv codec { s.set p .connected with live := { s.live with store } } :=
      h.move (fun _ _ => id) (fun _ => hholds here trivial)
        (h.live.imp (fun hunborn => hunborn.openStore connected) fun hold => hold.openStore connected)
        (fun hold => hold.openStore connected) (fun cache heq => by cases heq)
        (fun heq => by rcases heq with heq | heq <;> cases heq) fun _ => hdown
    exact ⟨hnext.holds, hnext.live, hnext.loaded, hnext.seeded, hnext.down⟩
  | @initialized p here old =>
    refine h.pass (hrunning here (by simp)) (fun _ _ => id) (fun _ => hholds here trivial)
      (fun cache heq => by cases heq) fun _ => h.live.resolve_left fun hunborn => ?_
    simp only [Store.initialized, hunborn.store.1, bind_eq_ok, pure_eq_ok] at old
    obtain ⟨_, -, _, -, _, -, hfalse⟩ := old
    cases hfalse
  | @uninitialized p here new =>
    exact h.plain trivial (hrunning here (by simp)) (fun _ _ => id) fun _ => hholds here trivial
  | @load p platform cache here read =>
    refine h.pass (hrunning here (by simp)) (fun _ _ => id) (fun _ => hholds here trivial)
      (fun other heq => ⟨platform, ?_⟩) fun heq => by rcases heq with heq | heq <;> cases heq
    cases heq
    exact read
  | @seed p cache engineId store here uuid written =>
    have hdown := h.alone (here ▸ trivial : (s.phases p).Holds) (hrunning here (by simp))
    obtain ⟨platform, hload⟩ := h.loaded p cache here
    have hunborn : Unborn s.live := h.live.resolve_right fun hold =>
      hold.tables.1 (initializeGenesis_ok written).1
    have hlineage := lineage_of_seed hunborn hload uuid written
    exact h.move (fun _ _ => id) (fun _ => hholds here trivial) (Or.inr hlineage) (fun _ => hlineage)
      (fun cache heq => by cases heq) (fun _ => hlineage) fun _ => hdown
  | @recover p state engineId last here recovered sequence =>
    have hdown := h.alone (here ▸ trivial : (s.phases p).Holds) (hrunning here (by simp))
    have hlineage : Lineage codec (s.live.booted state last) :=
      (h.seeded p (Or.inl here)).step (.boot hdown recovered sequence)
    exact h.move (fun _ _ => id) (fun _ => hholds here trivial) (Or.inr hlineage) (fun _ => hlineage)
      (fun cache heq => by cases heq) (fun _ => hlineage) fun hnone =>
        absurd (System.set_self ..) (hnone p)
  | @run p live here step up =>
    have hlineage := (h.seeded p (Or.inr here)).step step
    exact ⟨h.holds, Or.inr hlineage, h.loaded, fun _ _ => hlineage, fun hnone => absurd here (hnone p)⟩
  | @fail p here fault =>
    refine h.leave trivial id fun heq => ?_
    rw [heq] at here
    exact here
  | exit before => exact h.leave trivial id before
  | @kill p here =>
    have hlineage : Lineage codec (killed s.live) := (h.seeded p (Or.inr here)).step .crash
    refine h.move (fun q hqp hq => ?_) (fun hholds => hholds.elim) (Or.inr hlineage) (fun _ => hlineage)
      (fun cache heq => by cases heq) (fun _ => hlineage) fun _ => ⟨rfl, rfl⟩
    show (if s.holder = some p then none else s.holder) = some q
    rw [hq, if_neg fun heq => hqp (Option.some.inj heq)]

theorem inv_of_initial (h : s.Initial) : Inv codec s where
  holds := fun p hp => by
    rw [h.idle] at hp
    exact hp.elim
  live := Or.inl h.live
  loaded := fun p cache hp => by
    rw [h.idle] at hp
    cases hp
  seeded := fun p hp => by
    rw [h.idle] at hp
    rcases hp with hp | hp <;> cases hp
  down := fun _ => h.live.down

theorem Reachable.inv {start : System} (hstart : start.Initial) (h : Reachable codec start s) :
    Inv codec s := by
  induction h with
  | start => exact inv_of_initial hstart
  | step _ step ih => exact step.inv ih
  | @lose s live _ free unborn ih =>
    have hnone : ∀ p, ¬ (s.phases p).Holds := fun p hp => by
      have hholder := ih.holds p hp
      rw [free] at hholder
      cases hholder
    refine ⟨ih.holds, Or.inl unborn, ih.loaded, fun p hp => absurd ?_ (hnone p), fun _ => unborn.down⟩
    rcases hp with hp | hp
    · exact (show s.phases p = _ from hp) ▸ trivial
    · exact (show s.phases p = _ from hp) ▸ trivial

end Inv

/-! ## One journal -/

section Lone

variable {Json : Type} [DecidableEq Json] {codec : Codec Json} {s s' : System}

/-- A genesis that is written stays. -/
theorem Step.genesis (step : Step codec s s') {row : Row} (h : s.live.store.genesis = some row) :
    s'.live.store.genesis = some row := by
  cases step with
  | connect here connected =>
    simp only [openStore, bind_eq_ok, ensure_eq_ok, exists_const, pure_eq_ok, Prod.mk.injEq] at connected
    obtain ⟨-, -, -, rfl⟩ := connected
    exact h
  | seed here uuid written =>
    rw [(initializeGenesis_ok written).1] at h
    cases h
  | run here step up => exact (tables_kept step).1.trans h
  | _ => exact h

theorem Onward.genesis (h : Onward codec s s') {row : Row} (hs : s.live.store.genesis = some row) :
    s'.live.store.genesis = some row := by
  induction h with
  | refl => exact hs
  | step _ step ih => exact step.genesis ih

/-- The journal is gone, and no process has an answer from before the lock file was there. -/
structure Lost (s : System) : Prop where
  lockFile : s.lockFile = true
  journal : s.journal = none
  none : ∀ p, ¬ (s.phases p).MayCreate

theorem Lost.pass (h : Lost s) {p : ℕ} {phase : Phase} (hphase : ¬ phase.MayCreate) :
    Lost (s.set p phase) := by
  refine ⟨h.lockFile, h.journal, fun q => ?_⟩
  by_cases hqp : q = p
  · rw [hqp, System.set_self]
    exact hphase
  · rw [System.set_of_ne _ _ hqp]
    exact h.none q

/-- **A journal that is gone is not replaced.** -/
theorem Step.lost (step : Step codec s s') (h : Lost s) : Lost s' := by
  have hnot : ∀ {p : ℕ} {phase : Phase}, s.phases p = phase → phase.MayCreate → False :=
    fun here hphase => h.none _ (here ▸ hphase)
  cases step with
  | @check p here =>
    have hstale : ¬ (Phase.checked !s.lockFile).MayCreate := by
      rw [h.lockFile]
      exact Bool.false_ne_true
    exact h.pass hstale
  | @openLock p fresh here =>
    have hnext : Lost (s.set p (.opened fresh)) := h.pass fun hfresh => hnot here hfresh
    exact ⟨rfl, hnext.journal, hnext.none⟩
  | @lock p fresh here free =>
    have hnext : Lost (s.set p (.owning fresh)) := h.pass fun hfresh => hnot here hfresh
    exact ⟨hnext.lockFile, hnext.journal, hnext.none⟩
  | checkJournal here passed =>
    simp only [Ownership.checkJournal, ensure_eq_ok, h.journal] at passed
    exact (hnot here (passed.resolve_right (by decide))).elim
  | create here | connect here | initialized here | uninitialized here | load here | seed here
  | recover here | run here | kill here => exact (hnot here trivial).elim
  | @fail p here fault =>
    have hnext : Lost (s.set p (.refused fault)) := h.pass id
    exact ⟨hnext.lockFile, hnext.journal, hnext.none⟩
  | @exit p before =>
    have hnext : Lost (s.set p .idle) := h.pass id
    exact ⟨hnext.lockFile, hnext.journal, hnext.none⟩

theorem Onward.lost (h : Onward codec s s') (hs : Lost s) : Lost s' := by
  induction h with
  | refl => exact hs
  | step _ step ih => exact step.lost ih

/-- **The processes of a directory are one process.** -/
structure Lone (codec : Codec Json) (s : System) : Prop where
  /-- One process has the lock. -/
  exclusive : ∀ p q, (s.phases p).Holds → (s.phases q).Holds → p = q
  /-- The journal is new, or it is that of one process that was restarted. -/
  live : Unborn s.live ∨ Lineage codec s.live
  /-- While a process runs, it is that process. -/
  running : ∀ p, s.phases p = .running → Lineage codec s.live
  /-- The genesis stays what it is. -/
  genesis : ∀ row, s.live.store.genesis = some row → ∀ s', Onward codec s s' →
    s'.live.store.genesis = some row
  /-- A journal that is gone is not replaced by one that is new, once no process has an answer from
  before the lock file was there. -/
  lost : Lost s → ∀ s', Onward codec s s' → s'.journal = none ∧ ∀ p, s'.phases p ≠ .running

/-- **Any number of processes on one directory are one process**, which is restarted. -/
theorem lone_process {start : System} (hstart : start.Initial) (h : Reachable codec start s) :
    Lone codec s := by
  have hinv := h.inv hstart
  refine ⟨fun p q hp hq => ?_, hinv.live, fun p hp => hinv.seeded p (Or.inr hp),
    fun row hrow s' honward => honward.genesis hrow, fun hlost s' honward => ?_⟩
  · exact Option.some.inj ((hinv.holds p hp).symm.trans (hinv.holds q hq))
  · have hlost' := honward.lost hlost
    refine ⟨hlost'.journal, fun p hp => hlost'.none p ?_⟩
    rw [hp]
    trivial

end Lone

/-! ### Two processes -/

section Sample

open Pipeline (creditCodec recordStart)

/-- A directory without files. -/
def sampleSystem : System where
  lockFile := false
  holder := none
  phases := fun _ => .idle
  journal := none
  live := { recordStart creditCodec with store := ⟨none, SortedMap.empty, none⟩ }

theorem sampleSystem_initial : sampleSystem.Initial where
  files := ⟨rfl, rfl⟩
  free := rfl
  idle := fun _ => rfl
  live := ⟨⟨rfl, rfl, Or.inl rfl⟩, ⟨rfl, rfl⟩, ⟨rfl, rfl, rfl⟩, ⟨rfl, rfl, rfl⟩⟩

/-- A process that may create the journal writes its genesis and runs. -/
theorem bootstrap {s : System} {p : ℕ} (here : s.phases p = .guarded) (hjournal : s.journal = none)
    (hlive : s.live = sampleSystem.live) : ∃ s', Onward creditCodec s s' ∧ s'.phases p = .running ∧
      ∀ q, q ≠ p → s'.phases q = s.phases q := by
  obtain ⟨lockFile, holder, phases, journal, live⟩ := s
  obtain rfl : journal = none := hjournal
  obtain rfl : live = sampleSystem.live := hlive
  have hself : ∀ (s : System) (phase : Phase), (s.set p phase).phases p = phase := fun s phase =>
    System.set_self s p phase
  have hrecover : (recordStart creditCodec).store.recover creditCodec =
      .ok (.genesis Store.sampleCache, Store.sampleGenesis.engineId) := Pipeline.recover_record
  have h1 : Onward creditCodec _ _ := Onward.refl.step (.create here rfl)
  have h2 := h1.step (.connect here rfl)
  have h3 := h2.step (.uninitialized (hself _ _) rfl)
  have h4 := h3.step (.load (hself _ _) Store.loadBalances_sample)
  have h5 := h4.step (.seed (hself _ _) Pipeline.record_isUuid rfl)
  have h6 := h5.step (.recover (hself _ _) hrecover rfl)
  refine ⟨_, h6, hself _ _, fun q hq => ?_⟩
  simp [System.set, Function.update_of_ne hq]

/-- Two processes find the directory empty; the second one is refused. -/
theorem lone_process_race : ∃ s fault, s.phases 0 = .running ∧ s.phases 1 = .refused fault ∧
    Lone creditCodec s := by
  have h0 : Reachable creditCodec sampleSystem sampleSystem := .start
  have h1 := h0.step (.check (p := 0) rfl)
  have h2 := h1.step (.check (p := 1) rfl)
  have h3 := h2.step (.openLock (p := 0) rfl)
  have h4 := h3.step (.openLock (p := 1) rfl)
  have h5 := h4.step (.lock (p := 0) rfl rfl)
  have h6 := h5.step (.fail (p := 1) (by exact trivial) (.err "Engine journal is already owned: .engine-data"))
  have h7 := h6.step (.checkJournal (p := 0) rfl rfl)
  obtain ⟨s, hreached, hrunning, hothers⟩ := h7.onward (bootstrap (p := 0) rfl rfl rfl)
  exact ⟨s, _, hrunning, hothers 1 (by decide), lone_process sampleSystem_initial hreached⟩

/-- The condition on a journal that was lost is needed.  Process 0 has found no lock file; process 1
makes it and the journal, and ends; the journal is lost; and process 0 goes on. -/
theorem stale_start : ∃ s, Reachable creditCodec sampleSystem s ∧ s.lockFile = true ∧
    s.journal = none ∧ ∃ s', Onward creditCodec s s' ∧ s'.phases 0 = .running := by
  have h0 : Reachable creditCodec sampleSystem sampleSystem := .start
  have h1 := h0.step (.check (p := 0) rfl)
  have h2 := h1.step (.check (p := 1) rfl)
  have h3 := h2.step (.openLock (p := 1) rfl)
  have h4 := h3.step (.lock (p := 1) rfl rfl)
  have h5 := h4.step (.checkJournal (p := 1) rfl rfl)
  have h6 := h5.step (.create (p := 1) rfl rfl)
  have h7 := h6.step (.exit (p := 1) (by intro hrunning; cases hrunning))
  have h8 := h7.lose rfl sampleSystem_initial.live
  refine ⟨_, h8, rfl, rfl, Onward.head (.openLock (p := 0) rfl) (Onward.head (.lock (p := 0) rfl rfl)
    (Onward.head (.checkJournal (p := 0) rfl rfl) (Exists.imp (fun s h => ⟨h.1, h.2.1⟩)
      (bootstrap (p := 0) (by rfl) (by rfl) (by rfl)))))⟩

end Sample

end Ownership

end CexEngine
