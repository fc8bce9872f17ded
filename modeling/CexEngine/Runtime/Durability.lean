import CexEngine.Runtime.Pipeline

/-!
# Nothing is visible before it is durable

The core runs ahead of the disk: while a group is being committed it executes further requests,
and queries among them, on a state that a crash would take back.  What makes this safe is that
an answer is sent by the journal worker, in the order of execution and after the commit.

* `Trail`: what the argument reads of a world, with the items that wait for their commit and the
  items that are past it.  Most steps leave it as it is.
* `Trail.InvAt`: a prefix `D` of the executed commands is what is on the disk; items past their
  commit saw commands of `D` only, and the waiting items, in their order, lead from `D` to all
  that was executed.
* `room_of_step`: there is room in the journal queue from the test at the head of the loop until
  the item is published, since only the core adds to the queue.
* `Settled`: after a failed commit no further item of this start of the process is answered.
-/

namespace CexEngine

open Foundation Amount

namespace Pipeline

open Store (executed recordsOf rowOf)

/-! ## Where items are -/

/-- The items at the worker. -/
def Worker.items : Worker → List Item
  | grouping group | committing group | publishing group | answering group | failing group
  | failed group => group
  | _ => []

/-- The items at the worker that are past their commit. -/
def Worker.stored : Worker → List Item
  | publishing group | answering group => group
  | _ => []

/-- The items at the worker that wait for their commit, while it works. -/
def Worker.unstored : Worker → Option (List Item)
  | starting | receiving | publishing _ | answering _ => some []
  | grouping group | committing group => some group
  | _ => none

/-- The worker has read the number of records and counts them since. -/
def Worker.counts : Worker → Bool
  | receiving | grouping _ | committing _ | publishing _ | answering _ => true
  | _ => false

def Core.items : Core → List Item
  | running _ (.publishing item) => [item]
  | _ => []

def Core.state : Core → Option EngineState
  | running state _ => some state
  | _ => none

/-- The core has seen room in the journal queue and has not used it. -/
def Core.Reserved : Core → Prop
  | running _ .balances | running _ .orders | running _ (.rechecking _) | running _ (.confirming _)
  | running _ (.publishing _) => True
  | _ => False

/-! ## Room in the journal queue -/

section Room

variable {Json : Type} [DecidableEq Json] {codec : Codec Json} {w w' : World}

/-- What the core has seen is still there. -/
def Room (w : World) : Prop := w.core.Reserved → w.queue.length < journalCapacity

/-- Taking an item out of the queue keeps the room. -/
theorem Room.shrink {item : Item} {rest : List Item} (h : Room w) (hqueue : w.queue = item :: rest)
    (worker : Worker) : Room { w with worker, queue := rest } := by
  intro hreserved
  have hroom := h hreserved
  rw [hqueue, List.length_cons] at hroom
  show rest.length < journalCapacity
  omega

/-- When the core publishes an item, its place in the queue is free. -/
theorem Room.not_full {state : EngineState} {item : Item} (h : Room w)
    (here : w.core = .running state (.publishing item)) : ¬ journalCapacity ≤ w.queue.length := by
  rw [Room, here] at h
  exact not_le.mpr (h trivial)

theorem Moves.room {state : EngineState} {phase phase' : CorePhase} (h : Room w)
    (here : w.core = .running state phase) (moves : Moves w phase phase') :
    Room { w with core := .running state phase' } := by
  rw [Room, here] at h
  cases moves with
  | reserved room => exact fun _ => room
  | noBalance | rechecked => exact fun _ => h trivial
  | running | halted | accepting | barred | full | timeout | disconnected | refused | abandoned =>
    exact False.elim

theorem room_of_step (h : Room w) (step : Step codec w w') : Room w' := by
  cases step with
  | boot => exact False.elim
  | crash => exact False.elim
  | move here moves => exact moves.room h here
  | balance here next executed =>
    rw [Room, here] at h
    exact fun _ => h trivial
  | received here next =>
    rw [Room, here] at h
    exact fun _ => h trivial
  | order here running executed =>
    rw [Room, here] at h
    exact fun _ => h trivial
  | fault => exact False.elim
  | published => exact False.elim
  | overflow => exact False.elim
  | stopped => exact False.elim
  | first here next => exact h.shrink next _
  | grouped here room next => exact h.shrink next _
  | close | halt | marked | sendOrder | sendBalance | started | startFailed | gathered | committed
  | commitFailed | commitLost | progressed | answered | again | drained | failed => exact h

end Room

/-! ## Items in the order of execution -/

/-- The item is what the core computed: the request was executed in the state that the commands
before it led to. -/
def Computed (cache : BalanceCache) (item : Item) : Prop :=
  ∃ before state state' input, Run (.genesis cache) before state ∧
    Input.execute state input = .ok (item.pending, state') ∧
    item.history = before ++ executed [item.pending]

/-- Items that were executed one after the other, from a history on. -/
def Chained : List (Command × Outcome) → List Item → Prop
  | _, [] => True
  | start, item :: items =>
    item.history = start ++ executed [item.pending] ∧ Chained item.history items

/-- The commands of items. -/
def commandsOf (items : List Item) : List (Command × Outcome) := executed (items.map Item.pending)

theorem commandsOf_append (items items' : List Item) :
    commandsOf (items ++ items') = commandsOf items ++ commandsOf items' := by
  rw [commandsOf, List.map_append, executed, List.filterMap_append]
  rfl

theorem commandsOf_cons (item : Item) (items : List Item) :
    commandsOf (item :: items) = executed [item.pending] ++ commandsOf items :=
  commandsOf_append [item] items

theorem chained_append {start : List (Command × Outcome)} {items items' : List Item} :
    Chained start (items ++ items') ↔
      Chained start items ∧ Chained (start ++ commandsOf items) items' := by
  induction items generalizing start with
  | nil =>
    rw [show commandsOf [] = [] from rfl, List.append_nil, List.nil_append, Chained, true_and]
  | cons item items ih =>
    rw [List.cons_append, Chained, Chained, ih, and_assoc, commandsOf_cons, ← List.append_assoc]
    refine and_congr_right fun hhistory => ?_
    rw [hhistory]

/-- What an item of a chain has seen, the chain leads to. -/
theorem Chained.isPrefix {start : List (Command × Outcome)} {items : List Item}
    (h : Chained start items) {item : Item} (hitem : item ∈ items) :
    item.history <+: start ++ commandsOf items := by
  obtain ⟨before, after, rfl⟩ := List.append_of_mem hitem
  obtain ⟨-, hhistory, -⟩ := chained_append.mp h
  rw [commandsOf_append, commandsOf_cons, hhistory, ← List.append_assoc, ← List.append_assoc]
  exact List.prefix_append ..

/-- Executing a request is a step of a run, or none for a query. -/
theorem run_of_execute {state state' : EngineState} {input : Input} {pending : Pending}
    (h : input.execute state = .ok (pending, state')) : Run state (executed [pending]) state' := by
  unfold Input.execute at h
  split at h
  · cases h
    exact .nil _
  · split at h
    · next hrun =>
      cases h
      exact .cons hrun (.nil _)
    · cases h

/-- From a state with the invariant, every request is executed. -/
theorem execute_ne_error {state : EngineState} (hstate : state.Inv) {input : Input} {fault : Fault} :
    input.execute state ≠ .error fault := by
  intro h
  unfold Input.execute at h
  split at h
  · cases h
  · next command reply _ =>
    obtain ⟨outcome, state', hrun⟩ := Journal.apply_total hstate command
    rw [hrun] at h
    cases h

/-! ## What durability depends on -/

/-- What durability depends on: the tables and the counters, the commands that were executed and
the state they led to, and the items that are past their commit or wait for it.  A worker that
does not work waits for nothing. -/
structure Trail where
  store : Store
  durable : ℕ
  sequence : Option ℕ
  history : List (Command × Outcome)
  state : Option EngineState
  settled : List Item
  waiting : Option (List Item)

def World.trail (w : World) : Trail where
  store := w.store
  durable := w.durable
  sequence := if w.worker.counts then some w.sequence else none
  history := w.history
  state := w.core.state
  settled := w.sent ++ w.worker.stored
  waiting := w.worker.unstored.map fun items => items ++ w.queue ++ w.core.items

namespace Trail

variable {Json : Type} (codec : Codec Json) (cache : BalanceCache) (engineId : String)

/-- The row of the genesis. -/
def genesisRow : Row :=
  ⟨codec.genesisText ⟨4, engineId, cache.journalSeed⟩,
    codec.digest (codec.genesisText ⟨4, engineId, cache.journalSeed⟩)⟩

/-- **The invariant**, with the commands `D` that are on the disk. -/
structure InvAt (v : Trail) (D : List (Command × Outcome)) : Prop where
  genesis : v.store.genesis = some (genesisRow codec cache engineId)
  records : ∃ clock, v.store.records.entries = (recordsOf clock 0 D).map (rowOf codec)
  delivery : ∃ d ≤ D.length, v.store.delivery = some (d : ℤ)
  durable : v.durable ≤ D.length
  sequence : ∀ n, v.sequence = some n → n = D.length
  isPrefix : D <+: v.history
  run : ∃ state, Run (.genesis cache) v.history state ∧ ∀ s, v.state = some s → s = state
  settled : ∀ item ∈ v.settled, Computed cache item ∧ item.history <+: D
  waiting : ∀ items, v.waiting = some items → Chained D items ∧ v.history = D ++ commandsOf items ∧
    ∀ item ∈ items, Computed cache item

variable {codec cache engineId} {v v' : Trail} {D : List (Command × Outcome)}

namespace InvAt

/-- The same tables and commands, and nothing new in the rest. -/
theorem weaken (h : InvAt codec cache engineId v D) (hstore : v'.store = v.store)
    (hhistory : v'.history = v.history) (hdurable : v'.durable = v.durable)
    (hsequence : ∀ n, v'.sequence = some n → v.sequence = some n)
    (hstate : ∀ s, v'.state = some s → v.state = some s)
    (hsettled : ∀ item ∈ v'.settled, item ∈ v.settled)
    (hwaiting : ∀ items, v'.waiting = some items → v.waiting = some items) :
    InvAt codec cache engineId v' D where
  genesis := hstore ▸ h.genesis
  records := hstore ▸ h.records
  delivery := hstore ▸ h.delivery
  durable := hdurable ▸ h.durable
  sequence := fun n hn => h.sequence n (hsequence n hn)
  isPrefix := hhistory ▸ h.isPrefix
  run := by
    obtain ⟨state, hrun, hstates⟩ := h.run
    exact ⟨state, hhistory ▸ hrun, fun s hs => hstates s (hstate s hs)⟩
  settled := fun item hitem => h.settled item (hsettled item hitem)
  waiting := fun items hitems => hhistory ▸ h.waiting items (hwaiting items hitems)

theorem length_entries (h : InvAt codec cache engineId v D) :
    v.store.records.entries.length = D.length := by
  obtain ⟨clock, hentries⟩ := h.records
  rw [hentries, List.length_map, Store.length_recordsOf]

theorem take_history (h : InvAt codec cache engineId v D) :
    v.history.take v.store.records.entries.length = D := by
  rw [h.length_entries]
  exact (List.prefix_iff_eq_take.mp h.isPrefix).symm

theorem keys (h : InvAt codec cache engineId v D) :
    v.store.records.entries.map Prod.fst = (List.range' 1 D.length).map Nat.cast := by
  obtain ⟨clock, hentries⟩ := h.records
  rw [hentries, Store.map_fst_recordsOf, Nat.zero_add]

theorem lastSequence (h : InvAt codec cache engineId v D) :
    v.store.lastSequence = .ok D.length := Store.lastSequence_of_keys h.keys

/-- The state that the commands on the disk lead to. -/
theorem run_durable (h : InvAt codec cache engineId v D) : ∃ state, Run (.genesis cache) D state := by
  obtain ⟨state, hrun, -⟩ := h.run
  obtain ⟨rest, hrest⟩ := h.isPrefix
  rw [← hrest] at hrun
  obtain ⟨mid, hmid, -⟩ := hrun.split
  exact ⟨mid, hmid⟩

/-- A state of the core has the invariant of the engine. -/
theorem inv_state (h : InvAt codec cache engineId v D) (hcache : cache.Valid) {s : EngineState}
    (hs : v.state = some s) : s.Inv := by
  obtain ⟨state, hrun, hstates⟩ := h.run
  rw [hstates s hs]
  exact hrun.inv (EngineState.inv_genesis hcache)

/-- The core executes a request. -/
theorem execute (h : InvAt codec cache engineId v D) {state state' : EngineState} {input : Input}
    {pending : Pending} (hstate : v.state = some state)
    (hexecute : input.execute state = .ok (pending, state')) (life number : ℕ) :
    InvAt codec cache engineId
      { v with
        history := v.history ++ executed [pending]
        state := some state'
        waiting := v.waiting.map fun items =>
          items ++ [⟨pending, v.history ++ executed [pending], life, number⟩] } D where
  genesis := h.genesis
  records := h.records
  delivery := h.delivery
  durable := h.durable
  sequence := h.sequence
  isPrefix := h.isPrefix.trans (List.prefix_append ..)
  run := by
    obtain ⟨before, hrun, hstates⟩ := h.run
    obtain rfl := hstates state hstate
    refine ⟨state', hrun.append (run_of_execute hexecute), fun s hs => ?_⟩
    exact (Option.some.inj hs).symm
  settled := h.settled
  waiting := by
    intro items hitems
    obtain ⟨waiting, hwaiting, rfl⟩ := Option.map_eq_some_iff.mp hitems
    obtain ⟨hchained, hhistory, hcomputed⟩ := h.waiting waiting hwaiting
    obtain ⟨before, hrun, hstates⟩ := h.run
    obtain rfl := hstates state hstate
    refine ⟨chained_append.mpr ⟨hchained, ?_, trivial⟩, ?_, ?_⟩
    · rw [hhistory]
    · rw [commandsOf_append, ← List.append_assoc, ← hhistory]
      rfl
    · intro item hitem
      rcases List.mem_append.mp hitem with hitem | hitem
      · exact hcomputed item hitem
      · rw [List.mem_singleton.mp hitem]
        exact ⟨v.history, state, state', input, hrun, hexecute, rfl⟩

/-- The worker commits a group of waiting items. -/
theorem append (h : InvAt codec cache engineId v D) {group rest : List Item} {n last : ℕ}
    {clock : ℕ → Timestamp} {store : Store} (hwaiting : v.waiting = some (group ++ rest))
    (hsequence : v.sequence = some n)
    (happend : v.store.append codec clock (group.map Item.pending) n = .ok (store, last)) :
    InvAt codec cache engineId
      { v with
        store, sequence := some last, settled := v.settled ++ group, waiting := some rest }
      (D ++ commandsOf group) := by
  obtain rfl := h.sequence n hsequence
  obtain ⟨hchained, hhistory, hcomputed⟩ := h.waiting _ hwaiting
  obtain ⟨hgroup, hrest⟩ := chained_append.mp hchained
  obtain ⟨hlast, hentries, -, hgenesis, hdelivery⟩ := Store.append_ok happend
    (Store.le_of_lastSequence h.lastSequence)
  rw [commandsOf_append, ← List.append_assoc] at hhistory
  refine ⟨hgenesis.trans h.genesis, ?_, ?_, ?_, ?_, ?_, h.run, ?_, ?_⟩
  · -- the records so far keep the times at which they were written
    obtain ⟨clock₀, hentries₀⟩ := h.records
    refine ⟨fun i => if i ≤ D.length then clock₀ i else clock i, ?_⟩
    rw [hentries, hentries₀, Store.recordsOf_append, List.map_append, Nat.zero_add]
    refine congrArg₂ _ (congrArg _ ?_) (congrArg _ ?_)
    · refine Store.recordsOf_congr fun i _ hi => ?_
      rw [if_pos (by omega)]
    · refine Store.recordsOf_congr fun i hi _ => ?_
      rw [if_neg (by omega)]
  · obtain ⟨d, hd, heq⟩ := h.delivery
    refine ⟨d, ?_, hdelivery.trans heq⟩
    rw [List.length_append]
    omega
  · have hdurable := h.durable
    rw [List.length_append]
    show v.durable ≤ _
    omega
  · intro m hm
    rw [← Option.some.inj hm, hlast, List.length_append]
    rfl
  · show D ++ commandsOf group <+: v.history
    rw [hhistory]
    exact List.prefix_append ..
  · intro item hitem
    rcases List.mem_append.mp hitem with hitem | hitem
    · obtain ⟨hitem, hseen⟩ := h.settled item hitem
      exact ⟨hitem, hseen.trans (List.prefix_append ..)⟩
    · exact ⟨hcomputed item (List.mem_append_left _ hitem), hgroup.isPrefix hitem⟩
  · intro items hitems
    obtain rfl := Option.some.inj hitems
    exact ⟨hrest, hhistory, fun item hitem => hcomputed item (List.mem_append_right _ hitem)⟩

/-- The output worker moves its cursor. -/
theorem mark (h : InvAt codec cache engineId v D) {n : ℕ} {store : Store} (hn : n ≤ v.durable)
    (hmark : v.store.markDelivered n = .ok store) :
    InvAt codec cache engineId { v with store } D := by
  obtain ⟨-, -, rfl⟩ := Store.markDelivered_ok hmark
  exact ⟨h.genesis, h.records, ⟨n, hn.trans h.durable, rfl⟩, h.durable, h.sequence, h.isPrefix,
    h.run, h.settled, h.waiting⟩

/-- **The tables recover the state that the commands on the disk lead to.** -/
theorem recover [DecidableEq Json] (h : InvAt codec cache engineId v D)
    (hcache : ∀ account b, cache.balances.lookup account = some b → Startup.Admissible account b)
    (hid : codec.isUuid engineId = true)
    (hgenesis : codec.parseGenesis (codec.genesisText ⟨4, engineId, cache.journalSeed⟩) =
      some ⟨4, engineId, cache.journalSeed⟩)
    (hrecords : ∀ record, rowOf codec record ∈ v.store.records.entries →
      codec.parseRecord (codec.recordText record) = some record) :
    ∃ state, v.store.recover codec = .ok (state, engineId) ∧ Run (.genesis cache) D state := by
  obtain ⟨state, hrun⟩ := h.run_durable
  obtain ⟨clock, hentries⟩ := h.records
  obtain ⟨d, hd, hdelivery⟩ := h.delivery
  refine ⟨state, Store.recover_of_run clock d hcache h.genesis hid hgenesis hentries
    (fun record hrecord => hrecords record ?_) hrun hdelivery hd, hrun⟩
  rw [hentries]
  exact List.mem_map_of_mem hrecord

end InvAt

end Trail

/-! ## Every step keeps the invariant -/

section Steps

variable {Json : Type} {codec : Codec Json} {cache : BalanceCache} {engineId : String}
  {w w' : World}

open Trail (InvAt)

/-- The invariant of a world. -/
def Inv (codec : Codec Json) (cache : BalanceCache) (engineId : String) (w : World) : Prop :=
  ∃ D, InvAt codec cache engineId w.trail D

/-- A step of the core that executes nothing. -/
theorem Inv.core (h : Inv codec cache engineId w) {core : Core}
    (hstate : ∀ s, core.state = some s → w.core.state = some s)
    (hitems : core.items = w.core.items) : Inv codec cache engineId { w with core } := by
  obtain ⟨D, h⟩ := h
  refine ⟨D, h.weaken rfl rfl rfl (fun _ => id) hstate (fun _ => id) fun items hwaiting => ?_⟩
  rw [← hwaiting]
  show _ = w.worker.unstored.map fun items => items ++ w.queue ++ core.items
  rw [hitems]
  rfl

/-- A step of the worker that commits nothing. -/
theorem Inv.worker (h : Inv codec cache engineId w) {worker : Worker} {queue sent : List Item}
    (hcounts : worker.counts = true → w.worker.counts = true)
    (hsettled : ∀ item ∈ sent ++ worker.stored, item ∈ w.sent ++ w.worker.stored)
    (hwaiting : ∀ items, worker.unstored = some items →
      ∃ items', w.worker.unstored = some items' ∧ items ++ queue = items' ++ w.queue) :
    Inv codec cache engineId { w with worker, queue, sent } := by
  obtain ⟨D, h⟩ := h
  refine ⟨D, h.weaken rfl rfl rfl (fun n hn => ?_) (fun _ => id) hsettled fun items hitems => ?_⟩
  · have hworker : worker.counts = true ∧ w.sequence = n := by
      simpa [World.trail] using hn
    simp only [World.trail, if_pos (hcounts hworker.1), hworker.2]
  · obtain ⟨unstored, hunstored, rfl⟩ := Option.map_eq_some_iff.mp hitems
    obtain ⟨unstored', hunstored', heq⟩ := hwaiting unstored hunstored
    show w.worker.unstored.map _ = _
    rw [hunstored', Option.map_some, ← heq]

theorem trail_state {state : EngineState} {phase : CorePhase} (here : w.core = .running state phase) :
    w.trail.state = some state := by
  show w.core.state = some state
  rw [here]
  rfl

/-- The core never stops at a request. -/
theorem Inv.executes (h : Inv codec cache engineId w) (hcache : cache.Valid) {state : EngineState}
    {phase : CorePhase} {input : Input} {fault : Fault} (here : w.core = .running state phase) :
    input.execute state ≠ .error fault := by
  obtain ⟨D, h⟩ := h
  exact execute_ne_error (h.inv_state hcache (trail_state here))

/-- The core executes a request. -/
theorem Inv.execute (h : Inv codec cache engineId w) {state state' : EngineState} {phase : CorePhase}
    {input : Input} {pending : Pending} (here : w.core = .running state phase)
    (hitems : w.core.items = []) (hexecute : input.execute state = .ok (pending, state')) :
    Inv codec cache engineId (w.execute state' pending) := by
  obtain ⟨D, h⟩ := h
  refine ⟨D, (h.execute (trail_state here) hexecute w.life w.count).weaken rfl rfl rfl (fun _ => id)
    (fun _ => id) (fun _ => id) fun items hwaiting => ?_⟩
  rw [← hwaiting]
  show (w.worker.unstored.map fun items => items ++ w.queue ++ w.core.items).map _ =
    w.worker.unstored.map _
  rw [hitems, Option.map_map]
  congr 1
  funext items
  show items ++ w.queue ++ [] ++ [_] = items ++ w.queue ++ [_]
  rw [List.append_nil]
  rfl

/-- The worker commits a group. -/
theorem Inv.append (h : Inv codec cache engineId w) {group : List Item} {clock : ℕ → Timestamp}
    {store : Store} {last : ℕ} (here : w.worker = .committing group)
    (happend : w.store.append codec clock (group.map Item.pending) w.sequence = .ok (store, last)) :
    Inv codec cache engineId { w with store, sequence := last, worker := .publishing group } := by
  obtain ⟨D, h⟩ := h
  have hwaiting : w.trail.waiting = some (group ++ (w.queue ++ w.core.items)) := by
    simp [World.trail, here, Worker.unstored]
  have hsequence : w.trail.sequence = some w.sequence := by
    simp [World.trail, here, Worker.counts]
  refine ⟨D ++ commandsOf group, (h.append hwaiting hsequence happend).weaken rfl rfl rfl
    (fun _ => id) (fun _ => id) (fun item hitem => ?_) fun items hitems => ?_⟩
  · simpa [World.trail, here, Worker.stored] using hitem
  · simpa [World.trail, Worker.unstored] using hitems

variable [DecidableEq Json]

/-- The process starts. -/
theorem Inv.boot (h : Inv codec cache engineId w)
    (hcache : ∀ account b, cache.balances.lookup account = some b → Startup.Admissible account b)
    (hid : codec.isUuid engineId = true)
    (hgenesis : codec.parseGenesis (codec.genesisText ⟨4, engineId, cache.journalSeed⟩) =
      some ⟨4, engineId, cache.journalSeed⟩)
    (hrecords : ∀ record, rowOf codec record ∈ w.store.records.entries →
      codec.parseRecord (codec.recordText record) = some record)
    {state : EngineState} {name : String} {last : ℕ} (hdown : w.worker = .down)
    (hrecover : w.store.recover codec = .ok (state, name))
    (hlast : w.store.lastSequence = .ok last) :
    Inv codec cache engineId { w with
      orders := [], balances := [], running := true, closed := false
      core := .running state .loop, queue := [], worker := .starting
      durable := last, journalDone := false
      history := w.history.take w.store.records.entries.length
      life := w.life + 1, count := 0 } := by
  obtain ⟨D, h⟩ := h
  obtain ⟨state', hrecover', hrun⟩ := h.recover hcache hid hgenesis hrecords
  obtain ⟨rfl, -⟩ : state' = state ∧ engineId = name :=
    Prod.mk.inj (Except.ok.inj (hrecover'.symm.trans hrecover))
  have hhistory : w.history.take w.store.records.entries.length = D := h.take_history
  have hlength : last = D.length := Except.ok.inj (hlast.symm.trans h.lastSequence)
  refine ⟨D, h.genesis, h.records, h.delivery, hlength.le, nofun, ?_, ?_, ?_, ?_⟩
  · exact hhistory.symm ▸ List.prefix_rfl
  · exact ⟨state', hhistory.symm ▸ hrun, fun s hs => (Option.some.inj hs).symm⟩
  · intro item hitem
    refine h.settled item ?_
    simpa [World.trail, hdown, Worker.stored] using hitem
  · intro items hitems
    obtain rfl : [] = items := Option.some.inj hitems
    refine ⟨trivial, ?_, fun item hitem => by cases hitem⟩
    exact hhistory.trans (List.append_nil D).symm

/-- Every record of a journal is read back as it was written. -/
def Legible (codec : Codec Json) (store : Store) : Prop :=
  ∀ record, rowOf codec record ∈ store.records.entries →
    codec.parseRecord (codec.recordText record) = some record

omit [DecidableEq Json] in
theorem Moves.items {state : EngineState} {phase phase' : CorePhase} (h : Moves w phase phase') :
    (Core.running state phase).items = [] ∧ (Core.running state phase').items = [] := by
  cases h <;> exact ⟨rfl, rfl⟩

/-- **Every step keeps the invariant.** -/
theorem Step.inv
    (hcache : ∀ account b, cache.balances.lookup account = some b → Startup.Admissible account b)
    (hid : codec.isUuid engineId = true)
    (hgenesis : codec.parseGenesis (codec.genesisText ⟨4, engineId, cache.journalSeed⟩) =
      some ⟨4, engineId, cache.journalSeed⟩)
    (hrecords : Legible codec w.store) (hroom : Room w) (h : Inv codec cache engineId w)
    (step : Step codec w w') : Inv codec cache engineId w' := by
  have hsent : ∀ group, ∀ item ∈ w.sent ++ [], item ∈ w.sent ++ group := by
    intro group item hitem
    rw [List.append_nil] at hitem
    exact List.mem_append_left _ hitem
  have hsettled := hsent w.worker.stored
  cases step with
  | boot down recovered sequence =>
    exact h.boot hcache hid hgenesis hrecords down.2 recovered sequence
  | crash =>
    obtain ⟨D, h⟩ := h
    exact ⟨D, h.weaken rfl rfl rfl nofun nofun hsettled nofun⟩
  | close | halt | sendOrder | sendBalance => exact h
  | marked up behind marked =>
    obtain ⟨D, h⟩ := h
    exact ⟨D, h.mark behind marked⟩
  | move here moves =>
    refine h.core (fun s hs => ?_) ?_
    · rw [here]
      exact hs
    · rw [here, moves.items.1, moves.items.2]
  | balance here next executed =>
    exact h.execute here (by rw [here]; rfl) executed
  | received here next =>
    refine h.core (fun s hs => ?_) ?_
    · rw [here]
      exact hs
    · rw [here]
      rfl
  | order here running executed => exact h.execute here (by rw [here]; rfl) executed
  | fault here executed => exact absurd executed (h.executes (Store.valid_of_admissible hcache) here)
  | @published state item here room =>
    obtain ⟨D, h⟩ := h
    refine ⟨D, h.weaken rfl rfl rfl (fun _ => id) (fun s hs => ?_) (fun _ => id)
      fun items hitems => ?_⟩
    · show w.core.state = some s
      rw [here]
      exact hs
    · rw [← hitems]
      show w.worker.unstored.map (fun items => items ++ w.queue ++ w.core.items) =
        w.worker.unstored.map fun items => items ++ (w.queue ++ [item]) ++ []
      rw [here]
      congr 1
      funext items
      rw [List.append_nil, ← List.append_assoc]
      rfl
  | overflow here full => exact absurd full (hroom.not_full here)
  | stopped here =>
    refine h.core nofun ?_
    rw [here]
    rfl
  | @started last here sequence =>
    obtain ⟨D, h⟩ := h
    refine ⟨D, h.genesis, h.records, h.delivery, h.durable, fun n hn => ?_, h.isPrefix, h.run, ?_, ?_⟩
    · obtain rfl : last = n := Option.some.inj hn
      exact Except.ok.inj (sequence.symm.trans h.lastSequence)
    · exact fun item hitem => h.settled item (hsettled item hitem)
    · intro items hitems
      refine h.waiting items ?_
      rw [← hitems]
      show w.worker.unstored.map _ = _
      rw [here]
      rfl
  | startFailed here => exact h.worker nofun hsettled nofun
  | @first item rest here next =>
    refine h.worker (fun _ => by rw [here]; rfl) hsettled fun items hitems => ?_
    obtain rfl : [item] = items := Option.some.inj hitems
    exact ⟨[], by rw [here]; rfl, by rw [next]; rfl⟩
  | @grouped group item rest here room next =>
    refine h.worker (fun _ => by rw [here]; rfl) hsettled fun items hitems => ?_
    obtain rfl : group ++ [item] = items := Option.some.inj hitems
    refine ⟨group, by rw [here]; rfl, ?_⟩
    rw [next, List.append_assoc, List.singleton_append]
  | @gathered group here full =>
    refine h.worker (fun _ => by rw [here]; rfl) hsettled fun items hitems => ?_
    exact ⟨items, by rw [here]; exact hitems, rfl⟩
  | committed here appended => exact h.append here appended
  | commitFailed here => exact h.worker nofun hsettled nofun
  | @commitLost group clock store last here appended =>
    have hlost : Inv codec cache engineId { w with store, sequence := last, worker := .failing group } :=
      (h.append here appended).worker nofun (hsent group) nofun
    exact hlost
  | @progressed group here =>
    obtain ⟨D, h⟩ := h
    have hsequence : w.sequence = D.length := by
      refine h.sequence _ ?_
      simp [World.trail, here, Worker.counts]
    refine ⟨D, h.genesis, h.records, h.delivery, hsequence.le, fun n hn => ?_, h.isPrefix, h.run,
      fun item hitem => h.settled item ?_, fun items hitems => h.waiting items ?_⟩
    · rw [← Option.some.inj hn]
      exact hsequence
    · simpa [World.trail, here, Worker.stored] using hitem
    · simpa [World.trail, here, Worker.unstored] using hitems
  | @answered item group here =>
    refine h.worker (fun _ => by rw [here]; rfl) (fun item' hitem => ?_) fun items hitems => ?_
    · rw [here]
      rwa [List.append_assoc, Worker.stored, List.singleton_append] at hitem
    · exact ⟨items, by rw [here]; exact hitems, rfl⟩
  | again here =>
    refine h.worker (fun _ => by rw [here]; rfl) hsettled fun items hitems => ?_
    exact ⟨items, by rw [here]; exact hitems, rfl⟩
  | drained here empty ended => exact h.worker nofun hsettled nofun
  | failed here => exact h.worker nofun hsettled nofun

/-- A step keeps the records that are there. -/
theorem Step.legible (step : Step codec w w') (h : Legible codec w'.store) :
    Legible codec w.store := by
  cases step with
  | marked up behind marked =>
    obtain ⟨-, -, rfl⟩ := Store.markDelivered_ok marked
    exact h
  | committed here appended =>
    exact fun record hrecord => h record (Store.mem_of_append appended hrecord)
  | commitLost here appended =>
    exact fun record hrecord => h record (Store.mem_of_append appended hrecord)
  | _ => exact h

/-- The core does not panic. -/
theorem Step.not_panicked (hcache : cache.Valid) (hroom : Room w) (h : Inv codec cache engineId w)
    (hcore : w.core ≠ .panicked) (step : Step codec w w') : w'.core ≠ .panicked := by
  cases step with
  | fault here executed => exact absurd executed (h.executes hcache here)
  | overflow here full => exact absurd full (hroom.not_full here)
  | boot | crash | move | balance | received | order | published | stopped =>
    intro hpanicked
    cases hpanicked
  | close | halt | marked | sendOrder | sendBalance | started | startFailed | first | grouped
  | gathered | committed | commitFailed | commitLost | progressed | answered | again | drained
  | failed => exact hcore

end Steps

/-! ## All executions -/

section Reachable

variable {Json : Type} [DecidableEq Json] {codec : Codec Json} {cache : BalanceCache}
  {engineId : String} {start w : World}

theorem Reachable.room (hstart : start.core = .down) (h : Reachable codec start w) : Room w := by
  induction h with
  | start =>
    rw [Room, hstart]
    exact False.elim
  | step _ step ih => exact room_of_step ih step

omit [DecidableEq Json] in
theorem inv_of_initial (h : start.Initial codec cache engineId) : Inv codec cache engineId start := by
  obtain ⟨hgenesis, ⟨hcore, hworker⟩, -, hsent, hhistory, hdurable⟩ := h
  have hstore : { Store.fresh with genesis := some (Trail.genesisRow codec cache engineId) } =
      start.store := Except.ok.inj hgenesis
  refine ⟨[], ?_, ⟨fun _ => 0, ?_⟩, ⟨0, le_rfl, ?_⟩, ?_, ?_, List.nil_prefix, ?_, ?_, ?_⟩
  · show start.store.genesis = _
    rw [← hstore]
  · show start.store.records.entries = _
    rw [← hstore]
    rfl
  · show start.store.delivery = _
    rw [← hstore]
    rfl
  · exact hdurable.le
  · simp [World.trail, hworker, Worker.counts]
  · refine ⟨.genesis cache, ?_, ?_⟩
    · show Run _ start.history _
      rw [hhistory]
      exact .nil _
    · simp [World.trail, hcore, Core.state]
  · simp [World.trail, hworker, hsent, Worker.stored]
  · simp [World.trail, hworker, Worker.unstored]

/-- **The invariant holds in every execution.** -/
theorem Reachable.inv
    (hcache : ∀ account b, cache.balances.lookup account = some b → Startup.Admissible account b)
    (hid : codec.isUuid engineId = true)
    (hgenesis : codec.parseGenesis (codec.genesisText ⟨4, engineId, cache.journalSeed⟩) =
      some ⟨4, engineId, cache.journalSeed⟩)
    (hstart : start.Initial codec cache engineId) (h : Reachable codec start w)
    (hrecords : Legible codec w.store) : Inv codec cache engineId w ∧ w.core ≠ .panicked := by
  induction h with
  | start =>
    refine ⟨inv_of_initial hstart, ?_⟩
    rw [hstart.down.1]
    exact nofun
  | @step w w' reached step ih =>
    have hbefore := step.legible hrecords
    have hroom := reached.room hstart.down.1
    obtain ⟨hinv, hcore⟩ := ih hbefore
    exact ⟨step.inv hcache hid hgenesis hbefore hroom hinv,
      step.not_panicked (Store.valid_of_admissible hcache) hroom hinv hcore⟩

end Reachable

/-! ## After a failed commit -/

section Failed

variable {Json : Type} [DecidableEq Json] {codec : Codec Json} {start w w' : World}

/-- The items that were executed and not answered yet. -/
def World.inFlight (w : World) : List Item := w.worker.items ++ w.queue ++ w.core.items

/-- Every item has a number of its own. -/
structure Numbered (w : World) : Prop where
  lives : ∀ item ∈ w.inFlight, item.life = w.life
  fresh : ∀ item ∈ w.sent ++ w.inFlight,
    item.life < w.life ∨ item.life = w.life ∧ item.number < w.count
  nodup : (w.sent ++ w.inFlight).Nodup

/-- Moving items on, or losing some. -/
theorem Numbered.sublist (h : Numbered w)
    (hitems : (w'.sent ++ w'.inFlight).Sublist (w.sent ++ w.inFlight))
    (hflight : ∀ item ∈ w'.inFlight, item ∈ w.inFlight) (hlife : w'.life = w.life)
    (hcount : w'.count = w.count) : Numbered w' where
  lives := fun item hitem => hlife ▸ h.lives item (hflight item hitem)
  fresh := fun item hitem => hlife ▸ hcount ▸ h.fresh item (hitems.subset hitem)
  nodup := h.nodup.sublist hitems

theorem Numbered.congr (h : Numbered w) (hsent : w'.sent = w.sent)
    (hflight : w'.inFlight = w.inFlight) (hlife : w'.life = w.life) (hcount : w'.count = w.count) :
    Numbered w' := by
  refine h.sublist ?_ ?_ hlife hcount
  · rw [hsent, hflight]
  · rw [hflight]
    exact fun _ => id

/-- The core loses its item, if it has one. -/
theorem Numbered.dropCore (h : Numbered w) {core : Core} (hitems : core.items = []) (closed : Bool) :
    Numbered { w with core, closed } := by
  have hflight : ({ w with core, closed } : World).inFlight = w.worker.items ++ w.queue := by
    show w.worker.items ++ w.queue ++ core.items = _
    rw [hitems, List.append_nil]
  refine h.sublist ?_ (fun item hitem => ?_) rfl rfl
  · rw [hflight]
    exact (List.sublist_append_left ..).append_left _
  · rw [hflight] at hitem
    exact List.mem_append_left _ hitem

/-- A new item is different from all others. -/
theorem Numbered.execute (h : Numbered w) (hitems : w.core.items = []) (state : EngineState)
    (pending : Pending) : Numbered (w.execute state pending) := by
  set item : Item := ⟨pending, w.history ++ executed [pending], w.life, w.count⟩ with hitem
  have hflight : (w.execute state pending).inFlight = w.inFlight ++ [item] := by
    show w.worker.items ++ w.queue ++ [item] = w.worker.items ++ w.queue ++ w.core.items ++ [item]
    rw [hitems, List.append_nil]
  have hall : (w.execute state pending).sent ++ (w.execute state pending).inFlight =
      w.sent ++ w.inFlight ++ [item] := by
    rw [hflight, ← List.append_assoc]
    rfl
  refine ⟨fun other hother => ?_, fun other hother => ?_, ?_⟩
  · rw [hflight] at hother
    rcases List.mem_append.mp hother with hother | hother
    · exact h.lives other hother
    · rw [List.mem_singleton.mp hother]
      rfl
  · rw [hall] at hother
    show _ ∨ other.life = w.life ∧ other.number < w.count + 1
    rcases List.mem_append.mp hother with hother | hother
    · exact (h.fresh other hother).imp_right fun hsame => ⟨hsame.1, by omega⟩
    · rw [List.mem_singleton.mp hother]
      exact Or.inr ⟨rfl, Nat.lt_succ_self _⟩
  · rw [hall, List.nodup_append]
    refine ⟨h.nodup, List.nodup_singleton _, fun other hother item' hitem' heq => ?_⟩
    obtain rfl := List.mem_singleton.mp hitem'
    obtain hlt | ⟨-, hlt⟩ := h.fresh other hother
    · rw [heq] at hlt
      exact lt_irrefl _ hlt
    · rw [heq] at hlt
      exact lt_irrefl _ hlt

theorem Step.numbered (step : Step codec w w') (h : Numbered w) : Numbered w' := by
  have hsent : (w.sent ++ []).Sublist (w.sent ++ w.inFlight) :=
    (List.nil_sublist _).append_left _
  cases step with
  | boot =>
    refine ⟨fun item hitem => absurd hitem List.not_mem_nil, fun item hitem => Or.inl ?_,
      h.nodup.sublist hsent⟩
    show item.life < w.life + 1
    obtain hlt | ⟨heq, -⟩ := h.fresh item (hsent.subset hitem)
    · omega
    · omega
  | crash => exact h.sublist hsent (fun item hitem => absurd hitem List.not_mem_nil) rfl rfl
  | close | halt | marked | sendOrder | sendBalance => exact ⟨h.lives, h.fresh, h.nodup⟩
  | move here moves =>
    refine h.congr rfl ?_ rfl rfl
    rw [World.inFlight, World.inFlight, here, moves.items.1, moves.items.2]
  | @balance state state' command rest pending here next executed =>
    have hnew := h.execute (by rw [here]; rfl) state' pending
    exact ⟨hnew.lives, hnew.fresh, hnew.nodup⟩
  | received here next =>
    refine h.congr rfl ?_ rfl rfl
    rw [World.inFlight, World.inFlight, here]
    rfl
  | order here running executed => exact h.execute (by rw [here]; rfl) _ _
  | fault | overflow | stopped => exact h.dropCore rfl _
  | @published state item here room =>
    refine h.congr rfl ?_ rfl rfl
    show w.worker.items ++ (w.queue ++ [item]) ++ [] = w.worker.items ++ w.queue ++ w.core.items
    rw [here, List.append_nil, ← List.append_assoc]
    rfl
  | started here | startFailed here | gathered here | committed here | commitFailed here
  | commitLost here | progressed here | again here | drained here | failed here =>
    refine h.congr rfl ?_ rfl rfl
    rw [World.inFlight, World.inFlight, here]
    rfl
  | @first item rest here next =>
    refine h.congr rfl ?_ rfl rfl
    show [item] ++ rest ++ w.core.items = w.worker.items ++ w.queue ++ w.core.items
    rw [here, next]
    rfl
  | @grouped group item rest here room next =>
    refine h.congr rfl ?_ rfl rfl
    show group ++ [item] ++ rest ++ w.core.items = w.worker.items ++ w.queue ++ w.core.items
    rw [here, next, List.append_assoc group [item] rest]
    rfl
  | @answered item group here =>
    have hbefore : w.inFlight = item :: (group ++ w.queue ++ w.core.items) := by
      rw [World.inFlight, here]
      rfl
    refine h.sublist ?_ (fun other hother => ?_) rfl rfl
    · show (w.sent ++ [item] ++ (group ++ w.queue ++ w.core.items)).Sublist (w.sent ++ w.inFlight)
      rw [hbefore, List.append_assoc, List.singleton_append]
    · rw [hbefore]
      exact List.mem_cons_of_mem _ hother

omit [DecidableEq Json] in
theorem numbered_of_initial {cache : BalanceCache} {engineId : String}
    (h : start.Initial codec cache engineId) : Numbered start := by
  have hflight : start.inFlight = [] := by
    rw [World.inFlight, h.down.1, h.down.2, h.empty.2.2]
    rfl
  have hitems : start.sent ++ start.inFlight = [] := by rw [hflight, h.silent.1, List.append_nil]
  refine ⟨fun item hitem => ?_, fun item hitem => ?_, ?_⟩
  · rw [hflight] at hitem
    exact absurd hitem List.not_mem_nil
  · rw [hitems] at hitem
    exact absurd hitem List.not_mem_nil
  · rw [hitems]
    exact List.nodup_nil

theorem Reachable.numbered (hstart : Numbered start) (h : Reachable codec start w) :
    Numbered w := by
  induction h with
  | start => exact hstart
  | step _ step ih => exact step.numbered ih

/-- The worker answers nothing any more. -/
def Worker.Silent : Worker → Prop
  | down | failing _ | failed _ => True
  | _ => False

/-- Since the start `life` of the process failed, only items of later starts were answered. -/
structure Settled (life : ℕ) (sent : List Item) (w : World) : Prop where
  le : life ≤ w.life
  sent : ∀ item ∈ w.sent, item.life ≤ life → item ∈ sent
  silent : w.life = life → w.worker.Silent

/-- **After a failed commit nothing of this start is answered.** -/
theorem Step.settled {life : ℕ} {sent : List Item} (step : Step codec w w') (hnumbered : Numbered w)
    (h : Settled life sent w) : Settled life sent w' := by
  have hle := h.le
  cases step with
  | boot =>
    refine ⟨?_, h.sent, fun hlife => ?_⟩
    · show life ≤ w.life + 1
      omega
    · have hsame : w.life + 1 = life := hlife
      omega
  | crash => exact ⟨h.le, h.sent, fun _ => trivial⟩
  | startFailed | commitFailed | commitLost | failed => exact ⟨h.le, h.sent, fun _ => trivial⟩
  | started here | first here | grouped here | gathered here | committed here | progressed here
  | again here | drained here =>
    refine ⟨h.le, h.sent, fun hlife => ?_⟩
    have hsilent := h.silent hlife
    rw [here] at hsilent
    exact hsilent.elim
  | @answered item group here =>
    have hlater : w.life ≠ life := by
      intro hlife
      have hsilent := h.silent hlife
      rw [here] at hsilent
      exact hsilent
    refine ⟨h.le, fun other hother hlife => ?_, fun hlife => absurd hlife hlater⟩
    rcases List.mem_append.mp hother with hother | hother
    · exact h.sent other hother hlife
    · obtain rfl := List.mem_singleton.mp hother
      have hitem : other.life = w.life := by
        refine hnumbered.lives other ?_
        rw [World.inFlight, here]
        exact List.mem_append_left _ (List.mem_append_left _ (List.mem_cons_self ..))
      omega
  | close | halt | marked | sendOrder | sendBalance | move | balance | received | order | fault
  | published | overflow | stopped => exact ⟨h.le, h.sent, h.silent⟩

theorem Reachable.settled (hnumbered : Numbered w) (hsilent : w.worker.Silent)
    (h : Reachable codec w w') : Settled w.life w.sent w' := by
  induction h with
  | start => exact ⟨le_rfl, fun _ hitem _ => hitem, fun _ => hsilent⟩
  | step reached step ih => exact step.settled (reached.numbered hnumbered) ih

end Failed

/-! ## Durability before visibility -/

section Durable

variable {Json : Type} [DecidableEq Json]

/-- What holds of a world with `n` records.  An answered item was computed by the core, from a
state that the first commands led to: its own command and all commands before it are on the disk,
and a query shows no effect of any other. -/
structure DurableFirst (codec : Codec Json) (cache : BalanceCache) (engineId : String) (w : World)
    (n : ℕ) : Prop where
  /-- The records have the sequences from 1 on, and are the first executed commands with their
  outcomes, in order. -/
  records : ∃ clock,
    w.store.records.entries = (recordsOf clock 0 (w.history.take n)).map (rowOf codec)
  bound : n ≤ w.history.length
  executed : ∃ state, Run (.genesis cache) w.history state ∧ ∀ s, w.core.state = some s → s = state
  visible : ∀ item ∈ w.sent, Computed cache item ∧ item.history <+: w.history.take n
  /-- After a crash here, the commands on the disk are recovered and no others. -/
  recovers : ∃ state, w.store.recover codec = .ok (state, engineId) ∧
    Run (.genesis cache) (w.history.take n) state
  /-- The assertion of `publish` does not fail. -/
  room : ∀ state item, w.core = .running state (.publishing item) → w.queue.length < journalCapacity
  alive : w.core ≠ .panicked

/-- **Nothing is visible before it is durable**, in every execution with crashes and failed
commits.  After a failed commit neither an item of its group nor any other that this start of the
process has not answered yet is ever answered. -/
theorem durable_before_visible {codec : Codec Json} {platform : Startup.Platform}
    {cache : BalanceCache} {engineId : String} {start w : World}
    (hload : Startup.loadBalances platform = .ok cache) (hid : codec.isUuid engineId = true)
    (hgenesis : codec.parseGenesis (codec.genesisText ⟨4, engineId, cache.journalSeed⟩) =
      some ⟨4, engineId, cache.journalSeed⟩)
    (hstart : start.Initial codec cache engineId) (hreached : Reachable codec start w)
    (hrecords : Legible codec w.store) :
    (∃ n, DurableFirst codec cache engineId w n) ∧
      ∀ group, w.worker = .failing group ∨ w.worker = .failed group →
        ∀ w', Reachable codec w w' →
          (∀ item ∈ group ++ w.queue ++ w.core.items, item ∉ w'.sent) ∧
            ∀ item ∈ w'.sent, item.life = w.life → item ∈ w.sent := by
  have hcache := Startup.loadBalances_admissible hload
  obtain ⟨⟨D, hinv⟩, halive⟩ := hreached.inv hcache hid hgenesis hstart hrecords
  constructor
  · have hD : w.history.take w.store.records.entries.length = D := hinv.take_history
    refine ⟨w.store.records.entries.length, ?_⟩
    constructor
    · rw [hD]
      exact hinv.records
    · rw [show w.store.records.entries.length = D.length from hinv.length_entries]
      exact hinv.isPrefix.length_le
    · exact hinv.run
    · intro item hitem
      rw [hD]
      exact hinv.settled item (List.mem_append_left _ hitem)
    · rw [hD]
      exact hinv.recover hcache hid hgenesis hrecords
    · intro state item hcore
      have hroom := hreached.room hstart.down.1
      rw [Room, hcore] at hroom
      exact hroom trivial
    · exact halive
  · intro group hfailed w' hlater
    have hnumbered : Numbered w := hreached.numbered (numbered_of_initial hstart)
    have hsilent : w.worker.Silent := by
      rcases hfailed with hfailed | hfailed <;> rw [hfailed] <;> trivial
    have hflight : w.inFlight = group ++ w.queue ++ w.core.items := by
      rcases hfailed with hfailed | hfailed <;> rw [World.inFlight, hfailed] <;> rfl
    have hsettled := hlater.settled hnumbered hsilent
    refine ⟨fun item hitem hsent => ?_, fun item hitem hlife => hsettled.sent item hitem hlife.le⟩
    rw [← hflight] at hitem
    have hbefore := hsettled.sent item hsent (hnumbered.lives item hitem).le
    exact (List.nodup_append.mp hnumbered.nodup).2.2 item hbefore item hitem rfl

end Durable

/-! ### A credit that is answered and one that is lost -/

/-- The journal of one balance. -/
def sampleStore : Store :=
  { Store.fresh with
    genesis := some (Trail.genesisRow Store.sampleCodec Store.sampleCache
      Store.sampleGenesis.engineId) }

def sampleStart : World where
  store := sampleStore
  orders := []
  balances := []
  running := true
  closed := false
  core := .down
  queue := []
  worker := .down
  sequence := 0
  durable := 0
  journalDone := false
  sent := []
  history := []
  life := 0
  count := 0

def sampleUpdate (id : ℕ) : BalanceCommand := .updateBalance 2 "USDT" Decimal.ONE id

def samplePending (id : ℕ) : Pending :=
  ⟨some (.balance 2 "USDT" Decimal.ONE), .applied none, .unit id⟩

/-- The second credit, after the first one. -/
def lostItem : Item := ⟨samplePending 2, executed [samplePending 1, samplePending 2], 1, 1⟩

/-- The journal after the first credit. -/
def creditedStore : Store := Store.written Store.sampleCodec sampleStore [samplePending 1] 0

theorem append_creditedStore :
    sampleStore.append Store.sampleCodec (fun _ => 0) [samplePending 1] 0 = .ok (creditedStore, 1) ∧
      creditedStore.records.entries = [Store.sampleRecord].map (rowOf Store.sampleCodec) := by
  obtain ⟨happend, hentries, -⟩ := @Store.append_first Store.sampleCodec sampleStore
    [samplePending 1] rfl (by decide)
  exact ⟨happend, hentries⟩

/-- It is read back. -/
theorem legible_creditedStore : Legible Store.sampleCodec creditedStore := by
  intro record hrecord
  have hrow : rowOf Store.sampleCodec record = rowOf Store.sampleCodec Store.sampleRecord := by
    rw [append_creditedStore.2] at hrecord
    exact List.mem_singleton.mp hrecord
  have htext : Store.sampleCodec.recordText record = Store.sampleRecordText :=
    congrArg (fun row => row.2.payload) hrow
  have heq : record = Store.sampleRecord := by
    by_contra hne
    have hempty : Store.sampleCodec.recordText record = "" := if_neg hne
    rw [hempty] at htext
    simp [Store.sampleRecordText] at htext
  rw [htext, heq]
  simp only [Store.sampleCodec, ↓reduceIte]

/-- Both credits are executed. -/
theorem execute_sample : ∃ state₁ state₂,
    (Input.balance (sampleUpdate 1)).execute (.genesis Store.sampleCache) =
      .ok (samplePending 1, state₁) ∧
    (Input.balance (sampleUpdate 2)).execute state₁ = .ok (samplePending 2, state₂) := by
  obtain ⟨s, hrun⟩ := @Journal.run_of_outcomes _
    (EngineState.inv_genesis (Store.valid_of_admissible Store.admissible_sample))
    [(.balance 2 "USDT" Decimal.ONE, .applied none), (.balance 2 "USDT" Decimal.ONE, .applied none)]
    (by decide +kernel)
  obtain _ | @⟨_, state₁, _, _, _, _, hfirst, hrun⟩ := hrun
  obtain _ | ⟨hsecond, -⟩ := hrun
  exact ⟨state₁, _, Input.execute_of_run rfl hfirst, Input.execute_of_run rfl hsecond⟩

/-- The first credit is answered, and the commit of the second one fails. -/
theorem exists_lost : ∃ w, Reachable Store.sampleCodec sampleStart w ∧
    Legible Store.sampleCodec w.store ∧ w.store.lastSequence = .ok 1 ∧
      w.worker = .failed [lostItem] ∧ w.life = 1 ∧
        w.sent.map (fun item => item.pending.answer) = [(1, .done)] := by
  have hrecover : sampleStore.recover Store.sampleCodec =
      .ok (.genesis Store.sampleCache, Store.sampleGenesis.engineId) :=
    Store.recover_genesis Store.admissible_sample rfl Store.isUuid_sample Store.parseGenesis_sample rfl
      rfl
  obtain ⟨state₁, state₂, hfirst, hsecond⟩ := execute_sample
  have hlast : creditedStore.lastSequence = .ok 1 :=
    Store.lastSequence_of_keys (by rw [append_creditedStore.2]; rfl)
  have hroom : ([] : List Item).length < journalCapacity ∧ 0 < inputCapacity := by decide
  have h0 : Reachable Store.sampleCodec sampleStart _ := .start
  have h1 := h0.step (.boot ⟨rfl, rfl⟩ hrecover rfl)
  -- the first credit is executed, committed and answered
  have h2 := h1.step (@Step.sendBalance _ _ _ _ (sampleUpdate 1) nofun hroom.2)
  have h3 := (h2.step (.move rfl (.running rfl))).step (.move rfl (.accepting rfl))
  have h4 := (h3.step (.move rfl (.reserved hroom.1))).step (.balance rfl rfl hfirst)
  have h5 := (h4.step (.published rfl hroom.1)).step (.started rfl rfl)
  have h6 := (h5.step (.first rfl rfl)).step (.gathered rfl (.inl rfl))
  have h7 := (h6.step (.committed rfl append_creditedStore.1)).step (.progressed rfl)
  have h8 := (h7.step (.answered rfl)).step (.again rfl)
  -- the second credit is executed, and its group is lost
  have h9 := h8.step (@Step.sendBalance _ _ _ _ (sampleUpdate 2) nofun hroom.2)
  have h10 := (h9.step (.move rfl (.running rfl))).step (.move rfl (.accepting rfl))
  have h11 := (h10.step (.move rfl (.reserved hroom.1))).step (.balance rfl rfl hsecond)
  have h12 := (h11.step (.published rfl hroom.1)).step (.first rfl rfl)
  have h13 := (h12.step (.gathered rfl (.inl rfl))).step (.commitFailed rfl)
  exact ⟨_, h13.step (.failed rfl), legible_creditedStore, hlast, rfl, rfl, rfl⟩

/-- The process crashes after the failure and starts again: the second credit is gone, and was never
answered. -/
theorem durable_before_visible_update : ∃ w w' n n',
    Reachable Store.sampleCodec sampleStart w ∧ Reachable Store.sampleCodec w w' ∧
      w.worker = .failed [lostItem] ∧ w'.life = 2 ∧
      w.sent.map (fun item => item.pending.answer) = [(1, .done)] ∧
      DurableFirst Store.sampleCodec Store.sampleCache Store.sampleGenesis.engineId w n ∧
      DurableFirst Store.sampleCodec Store.sampleCache Store.sampleGenesis.engineId w' n' ∧
      lostItem ∉ w'.sent ∧ ∀ item ∈ w'.sent, item.life = 1 → item ∈ w.sent := by
  have hstart : sampleStart.Initial Store.sampleCodec Store.sampleCache
      Store.sampleGenesis.engineId := ⟨rfl, ⟨rfl, rfl⟩, ⟨rfl, rfl, rfl⟩, rfl, rfl, rfl⟩
  obtain ⟨w, hreached, hlegible, hlast, hworker, hlife, hsent⟩ := exists_lost
  obtain ⟨⟨n, hdurable⟩, hsilent⟩ :=
    durable_before_visible Store.loadBalances_sample Store.isUuid_sample Store.parseGenesis_sample
      hstart hreached hlegible
  obtain ⟨state, hrecover, -⟩ := hdurable.recovers
  have hcrash : Reachable Store.sampleCodec w _ := Reachable.start.step .crash
  have hboot := hcrash.step (.boot ⟨rfl, rfl⟩ hrecover hlast)
  have hboot' := (hreached.step .crash).step (.boot ⟨rfl, rfl⟩ hrecover hlast)
  obtain ⟨⟨n', hdurable'⟩, -⟩ :=
    durable_before_visible Store.loadBalances_sample Store.isUuid_sample Store.parseGenesis_sample
      hstart hboot' hlegible
  obtain ⟨hnever, honly⟩ := hsilent [lostItem] (.inr hworker) _ hboot
  refine ⟨w, _, n, n', hreached, hboot, hworker, congrArg (· + 1) hlife, hsent, hdurable, hdurable',
    hnever lostItem (List.mem_append_left _ (List.mem_append_left _ (List.mem_singleton_self _))),
    fun item hitem hitemlife => honly item hitem (hitemlife.trans hlife.symm)⟩

end Pipeline

end CexEngine
