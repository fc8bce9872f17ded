import CexEngine.Foundation.Resend
import CexEngine.Runtime.Market
import CexEngine.Runtime.Output

/-!
# The output worker

`output::run_store` against a journal that keeps growing.  The worker reads the records
one after the other, sends the financial events of a record and then its market
snapshot, and moves the persisted cursor when all of them were acknowledged.  The broker
may lose a message, or receive it and not acknowledge it; the cursor may fail to be
written, or be written although the call fails; and the process may stop anywhere and be
started again.

`Step` has one rule for every access to what is shared: the tables, the two counters of
the journal worker, and the broker.  The counters are written by the journal worker alone
and `journal_done` last, with release and acquire ordering, so reading them one after the
other is reading a sequence of states.

* `Delivery.Inv` holds in every state (`Reachable.inv`).
* `Delivery.ordered_at_least_once`: what follows for the stream that was sent.
-/

namespace CexEngine

open Foundation

namespace Delivery

/-- A message of the financial topic that the broker has received, and whether the worker
was told so. -/
structure Sent where
  event : FinancialEvent
  payload : String
  acked : Bool

/-- A snapshot that the broker has received, and whether the worker was told so. -/
structure SentMarket where
  snapshot : MarketSnapshot
  acked : Bool

/-- The local variables of `run_store`; `ready` is the sender that signals readiness,
while it is there. -/
structure Locals where
  engineId : String
  startupEnd : ℕ
  ready : Bool
  cursor : ℕ
  market : Market.Projection

/-- Where the worker stands. -/
inductive Phase where
  /-- `startup_end` is set and the cursor is about to be read. -/
  | opening
  /-- The records up to the cursor are taken into the market, from this one on. -/
  | replaying (next : ℕ)
  /-- The latest snapshots are sent again. -/
  | announcing (snapshots : List MarketSnapshot)
  /-- The head of the loop, and the comparison with the durable sequence. -/
  | looping
  | polling
  | reading
  | sending (record : Record) (pending : List FinancialEvent)
  | publishing (record : Record) (snapshot : MarketSnapshot)
  | marking (record : Record)
  /-- `journal_done` is about to be read, and then the durable sequence once more. -/
  | exiting
  | comparing
  | failed
  | returned

/-- The process is down, or its output worker is at a phase. -/
inductive Worker where
  | down
  | running (locals : Locals) (phase : Phase)

/-- The tables, the counters of the journal worker, and what the broker has received.
`sequence` is the journal worker's own; `startup` and `signalled` are what was durable when
the process started and whether readiness was signalled since. -/
structure Shared where
  store : Store
  sequence : ℕ
  durable : ℕ
  journalDone : Bool
  startup : ℕ
  signalled : Bool
  sent : List Sent
  sentMarket : List SentMarket

structure World extends Shared where
  worker : Worker

/-- Before the first start: a journal without records. -/
structure World.Initial (w : World) : Prop where
  records : w.store.records = SortedMap.empty
  delivery : w.store.delivery = some 0
  counters : w.sequence = 0 ∧ w.durable = 0
  silent : w.sent = [] ∧ w.sentMarket = [] ∧ w.signalled = false
  down : w.worker = .down

section Step

variable {Json : Type} [DecidableEq Json] (codec : Codec Json)
  (toJson : FinancialEvent → Except String String)

/-- One step of the system. -/
inductive Step : World → World → Prop
  /-- The process starts: the journal is recovered and the workers are spawned. -/
  | boot {w : World} {state : EngineState} {engineId : String} {last : ℕ}
      (down : w.worker = .down) (recovered : w.store.recover codec = .ok (state, engineId))
      (sequence : w.store.lastSequence = .ok last) :
      Step w { w with
        sequence := last, durable := last, journalDone := false, startup := last,
        signalled := false
        worker := .running ⟨engineId, last, true, 0, Market.Projection.new⟩ .opening }
  /-- The process stops, wherever it is. -/
  | crash {w : World} : Step w { w with worker := .down }
  /-- The journal worker commits a group. -/
  | commit {w : World} {clock : ℕ → Timestamp} {group : List Pending} {store : Store}
      {sequence : ℕ} {locals : Locals} {phase : Phase} (up : w.worker = .running locals phase)
      (working : w.journalDone = false) (published : w.durable = w.sequence)
      (appended : w.store.append codec clock group w.sequence = .ok (store, sequence)) :
      Step w { w with store, sequence }
  /-- The journal worker publishes what is durable. -/
  | publish {w : World} {locals : Locals} {phase : Phase} (up : w.worker = .running locals phase)
      (working : w.journalDone = false) : Step w { w with durable := w.sequence }
  /-- The journal worker ends, because its queue is closed or because an append failed. -/
  | finish {w : World} {locals : Locals} {phase : Phase} (up : w.worker = .running locals phase)
      (published : w.durable = w.sequence) : Step w { w with journalDone := true }
  /-- Any call of the worker may fail, and the worker returns its error. -/
  | fail {w : World} {locals : Locals} {phase : Phase} (here : w.worker = .running locals phase)
      (running : phase ≠ .returned) : Step w { w with worker := .running locals .failed }
  | opened {w : World} {locals : Locals} {cursor : ℕ} (here : w.worker = .running locals .opening)
      (read : w.store.delivered = .ok cursor) :
      Step w { w with worker := .running { locals with cursor } (.replaying 1) }
  | replayed {w : World} {locals : Locals} {next : ℕ} {record : Record}
      {event : Option MarketSnapshot} {market : Market.Projection}
      (here : w.worker = .running locals (.replaying next)) (more : next ≤ locals.cursor)
      (read : w.store.read codec next = .ok record)
      (applied : (Market.Projection.apply record locals.engineId).run locals.market =
        (.ok event, market)) :
      Step w { w with worker := .running { locals with market } (.replaying (next + 1)) }
  /-- The snapshots are sent in the order in which the table lists them. -/
  | rebuilt {w : World} {locals : Locals} {next : ℕ} {snapshots : List MarketSnapshot}
      (here : w.worker = .running locals (.replaying next)) (done : locals.cursor < next)
      (latest : ∀ snapshot, snapshot ∈ snapshots ↔
        ∃ pair, locals.market.latest.lookup pair = some snapshot) :
      Step w { w with worker := .running locals (.announcing snapshots) }
  | announced {w : World} {locals : Locals} {snapshot : MarketSnapshot}
      {snapshots : List MarketSnapshot} {acked : Bool}
      (here : w.worker = .running locals (.announcing (snapshot :: snapshots))) :
      Step w { w with
        sentMarket := w.sentMarket ++ [⟨snapshot, acked⟩]
        worker := .running locals (if acked then .announcing snapshots else .failed) }
  | ready {w : World} {locals : Locals} (here : w.worker = .running locals (.announcing [])) :
      Step w { w with worker := .running locals .looping }
  /-- Readiness is signalled once, when what was durable at the start is delivered. -/
  | signal {w : World} {locals : Locals} (here : w.worker = .running locals .looping)
      (reached : locals.startupEnd ≤ locals.cursor) :
      Step w { w with
        signalled := w.signalled || locals.ready
        worker := .running { locals with ready := false } .polling }
  | wait {w : World} {locals : Locals} (here : w.worker = .running locals .looping)
      (behind : locals.cursor < locals.startupEnd) :
      Step w { w with worker := .running locals .polling }
  | pending {w : World} {locals : Locals} (here : w.worker = .running locals .polling)
      (more : locals.cursor < w.durable) : Step w { w with worker := .running locals .reading }
  | drained {w : World} {locals : Locals} (here : w.worker = .running locals .polling)
      (none : w.durable ≤ locals.cursor) : Step w { w with worker := .running locals .exiting }
  | fetched {w : World} {locals : Locals} {record : Record}
      (here : w.worker = .running locals .reading)
      (read : w.store.read codec (locals.cursor + 1) = .ok record) :
      Step w { w with
        worker := .running locals (.sending record (record.events locals.engineId)) }
  /-- The broker receives an event.  Without its acknowledgement the worker fails. -/
  | delivered {w : World} {locals : Locals} {record : Record} {event : FinancialEvent}
      {events : List FinancialEvent} {payload : String} {acked : Bool}
      (here : w.worker = .running locals (.sending record (event :: events)))
      (encoded : toJson event = .ok payload) :
      Step w { w with
        sent := w.sent ++ [⟨event, payload, acked⟩]
        worker := .running locals (if acked then .sending record events else .failed) }
  /-- All events were acknowledged, and the market takes the record. -/
  | applied {w : World} {locals : Locals} {record : Record} {event : Option MarketSnapshot}
      {market : Market.Projection} (here : w.worker = .running locals (.sending record []))
      (applied : (Market.Projection.apply record locals.engineId).run locals.market =
        (.ok event, market)) :
      Step w { w with
        worker := .running { locals with market }
          (match event with
          | some snapshot => .publishing record snapshot
          | none => .marking record) }
  | published {w : World} {locals : Locals} {record : Record} {snapshot : MarketSnapshot}
      {acked : Bool} (here : w.worker = .running locals (.publishing record snapshot)) :
      Step w { w with
        sentMarket := w.sentMarket ++ [⟨snapshot, acked⟩]
        worker := .running locals (if acked then .marking record else .failed) }
  /-- The cursor is written; `ok` is what the call returns. -/
  | marked {w : World} {locals : Locals} {record : Record} {store : Store} {ok : Bool}
      (here : w.worker = .running locals (.marking record))
      (marked : w.store.markDelivered record.sequence = .ok store) :
      Step w { w with
        store
        worker := if ok then .running { locals with cursor := record.sequence } .looping
          else .running locals .failed }
  | closing {w : World} {locals : Locals} (here : w.worker = .running locals .exiting)
      (done : w.journalDone = true) : Step w { w with worker := .running locals .comparing }
  | unfinished {w : World} {locals : Locals} (here : w.worker = .running locals .exiting)
      (working : w.journalDone = false) : Step w { w with worker := .running locals .looping }
  | returned {w : World} {locals : Locals} (here : w.worker = .running locals .comparing)
      (equal : locals.cursor = w.durable) : Step w { w with worker := .running locals .returned }
  | resumed {w : World} {locals : Locals} (here : w.worker = .running locals .comparing)
      (unequal : locals.cursor ≠ w.durable) : Step w { w with worker := .running locals .looping }

/-- The states of all executions from a world. -/
inductive Reachable (start : World) : World → Prop
  | start : Reachable start start
  | step {w w' : World} (reached : Reachable start w) (step : Step codec toJson w w') :
      Reachable start w'

end Step

/-! ## Records and streams -/

variable {Json : Type} (codec : Codec Json) (toJson : FinancialEvent → Except String String)

/-- Records that the journal holds, from the first on. -/
def Reads (store : Store) (known : List Record) : Prop :=
  ∀ i record, known[i]? = some record → store.read codec (i + 1) = .ok record

/-- The events of records, in order. -/
def stream (engineId : String) (known : List Record) : List FinancialEvent :=
  (known.map (Record.events engineId)).flatten

section Streams

variable {codec toJson}

theorem Reads.of_isPrefix {store store' : Store} {known : List Record} (h : Reads codec store known)
    (hentries : store.records.entries <+: store'.records.entries) : Reads codec store' known :=
  fun i record hrecord => Store.read_of_isPrefix hentries (h i record hrecord)

theorem Reads.append {store : Store} {known : List Record} {record : Record}
    (h : Reads codec store known) (hread : store.read codec (known.length + 1) = .ok record) :
    Reads codec store (known ++ [record]) := by
  intro i record' hrecord
  rcases Nat.lt_trichotomy i known.length with hlt | rfl | hgt
  · rw [List.getElem?_append_left hlt] at hrecord
    exact h i record' hrecord
  · rw [List.getElem?_concat_length, Option.some_inj] at hrecord
    rwa [← hrecord]
  · rw [List.getElem?_eq_none (by rw [List.length_append, List.length_singleton]; omega)] at hrecord
    cases hrecord

theorem Reads.take {store : Store} {known : List Record} (h : Reads codec store known) (k : ℕ) :
    Reads codec store (known.take k) := by
  intro i record hrecord
  rw [List.getElem?_take] at hrecord
  split at hrecord
  · exact h i record hrecord
  · cases hrecord

theorem sequence_of_read {store : Store} {n : ℕ} {record : Record}
    (h : store.read codec n = .ok record) : record.sequence = n := by
  simp only [Store.read, bind_eq_ok, ensure_eq_ok, pure_eq_ok, exists_const] at h
  obtain ⟨_, -, _, -, _, -, hsequence, rfl⟩ := h
  exact hsequence

theorem Reads.sequence {store : Store} {known : List Record} (h : Reads codec store known) {i : ℕ}
    {record : Record} (hrecord : known[i]? = some record) : record.sequence = i + 1 :=
  sequence_of_read (h i record hrecord)

theorem stream_append (engineId : String) (known known' : List Record) :
    stream engineId (known ++ known') = stream engineId known ++ stream engineId known' := by
  rw [stream, List.map_append, List.flatten_append, stream, stream]

theorem stream_take_succ {engineId : String} {known : List Record} {i : ℕ} {record : Record}
    (h : known[i]? = some record) :
    stream engineId (known.take (i + 1)) =
      stream engineId (known.take i) ++ record.events engineId := by
  rw [List.take_add_one, h, stream_append]
  simp [stream]

theorem stream_take_isPrefix (engineId : String) (known : List Record) (n : ℕ) :
    stream engineId (known.take n) <+: stream engineId known := by
  conv_rhs => rw [← List.take_append_drop n known]
  rw [stream_append]
  exact List.prefix_append ..

/-- **The events of a journal have different identifiers.** -/
theorem nodup_stream {store : Store} {engineId : String} {known : List Record}
    (h : Reads codec store known) :
    ((stream engineId known).map FinancialEvent.eventId).Nodup := by
  rw [stream, List.map_flatten, List.map_map, List.nodup_flatten]
  have hids : ∀ record : Record, (List.map FinancialEvent.eventId ∘ Record.events engineId) record =
      (List.range (record.events engineId).length).map
        (Output.eventId engineId record.sequence) := fun record => record.map_eventId engineId
  constructor
  · intro ids hmem
    obtain ⟨record, -, rfl⟩ := List.mem_map.mp hmem
    rw [hids]
    exact List.nodup_range.map fun a b heq => (Output.eventId_injective heq).2
  · rw [List.pairwise_map, List.pairwise_iff_getElem]
    intro i j hi hj hlt
    rw [hids, hids, List.disjoint_left]
    intro id hid hid'
    obtain ⟨a, -, rfl⟩ := List.mem_map.mp hid
    obtain ⟨b, -, heq⟩ := List.mem_map.mp hid'
    have hsequence := (Output.eventId_injective heq).1
    rw [h.sequence (List.getElem?_eq_getElem hi), h.sequence (List.getElem?_eq_getElem hj)]
      at hsequence
    omega

/-- The texts of records that can be read are the published ones. -/
theorem published_of_reads {store : Store} {engineId : String} {known : List Record} {after : ℕ}
    {texts : List String}
    (h : ∀ i record, known[i]? = some record → store.read codec (after + i + 1) = .ok record)
    (htexts : (stream engineId known).mapM toJson = .ok texts) :
    store.published codec toJson engineId after known.length = .ok texts := by
  induction known generalizing after texts with
  | nil =>
    cases pure_eq_ok.mp htexts
    rfl
  | cons record known ih =>
    rw [stream, List.map_cons, List.flatten_cons, List.mapM_append] at htexts
    simp only [bind_eq_ok, pure_eq_ok] at htexts
    obtain ⟨payloads, hpayloads, rest, hrest, rfl⟩ := htexts
    rw [List.length_cons]
    simp only [Store.published, bind_eq_ok, pure_eq_ok]
    refine ⟨record, h 0 record rfl, payloads, ?_, rest, ih (fun i r hr => ?_) hrest, rfl⟩
    · rw [Record.payloads_eq_ok.mpr hpayloads]
      rfl
    · rw [show after + 1 + i + 1 = after + (i + 1) + 1 by omega]
      exact h (i + 1) r (by rwa [List.getElem?_cons_succ])

end Streams

/-! ## The invariant -/

/-- The engine that the genesis of a journal names. -/
def engineOf (store : Store) : String :=
  match store.genesis.map (Store.decode codec codec.parseGenesis) with
  | some (.ok genesis) => genesis.engineId
  | _ => ""

/-- The broker has received these events and said so. -/
def Acked (s : Shared) (events : List FinancialEvent) : Prop :=
  ∀ e ∈ events, ∃ m ∈ s.sent, m.event = e ∧ m.acked = true

/-- What holds of the tables, the counters and the broker in every state: of the records
`known` to have been read, those up to the persisted `cursor` are delivered with the
snapshots `snaps`, and the stream that was sent repeats the events of the known records up
to `reach`. -/
structure Core (engineId : String) (s : Shared) (known : List Record) (reach cursor : ℕ)
    (snaps : List (Option MarketSnapshot)) (market : Market.Projection) : Prop where
  engine : engineOf codec s.store = engineId
  keys : s.store.records.entries.map Prod.fst = (List.range' 1 s.sequence).map Nat.cast
  durable : s.durable ≤ s.sequence
  done : s.journalDone = true → s.durable = s.sequence
  reads : Reads codec s.store known
  bounds : cursor ≤ known.length ∧ known.length ≤ s.durable
  delivery : s.store.delivery = some (cursor : ℤ)
  market : (Market.Projection.applyAll engineId (known.take cursor)).run .new = (.ok snaps, market)
  ackedMarket : ∀ snapshot, some snapshot ∈ snaps → ⟨snapshot, true⟩ ∈ s.sentMarket
  acked : Acked s (stream engineId (known.take cursor))
  resends : Resends FinancialEvent.eventId (stream engineId known)
    (stream engineId (known.take cursor)).length reach (s.sent.map Sent.event)
  texts : ∀ m ∈ s.sent, m.event ∈ stream engineId known ∧ toJson m.event = .ok m.payload
  ready : s.signalled = true → s.startup ≤ cursor

/-- A record that is being delivered: its events up to `done` were acknowledged. -/
structure Delivering (engineId : String) (s : Shared) (known : List Record) (reach cursor : ℕ)
    (record : Record) (done : List FinancialEvent) : Prop where
  next : known[cursor]? = some record
  isPrefix : done <+: record.events engineId
  reached : (stream engineId (known.take cursor)).length + done.length ≤ reach
  acked : Acked s done

/-- What holds of the worker at its phase. -/
def PhaseInv (engineId : String) (s : Shared) (known : List Record) (reach cursor : ℕ)
    (market : Market.Projection) (locals : Locals) : Phase → Prop
  | .opening => locals.market = .new
  | .replaying next => locals.cursor = cursor ∧ 1 ≤ next ∧ next ≤ cursor + 1 ∧
      ∃ snaps, (Market.Projection.applyAll engineId (known.take (next - 1))).run .new =
        (.ok snaps, locals.market)
  | .announcing _ | .looping | .polling | .exiting => locals.cursor = cursor ∧ locals.market = market
  | .reading => locals.cursor = cursor ∧ locals.market = market ∧ cursor < s.durable
  | .sending record pending => locals.cursor = cursor ∧ locals.market = market ∧
      ∃ done, record.events engineId = done ++ pending ∧
        Delivering engineId s known reach cursor record done
  | .publishing record snapshot => locals.cursor = cursor ∧
      Delivering engineId s known reach cursor record (record.events engineId) ∧
      (Market.Projection.apply record engineId).run market = (.ok (some snapshot), locals.market)
  | .marking record => locals.cursor = cursor ∧
      Delivering engineId s known reach cursor record (record.events engineId) ∧
      ∃ event, (Market.Projection.apply record engineId).run market = (.ok event, locals.market) ∧
        ∀ snapshot, event = some snapshot → ⟨snapshot, true⟩ ∈ s.sentMarket
  | .comparing => locals.cursor = cursor ∧ locals.market = market ∧ s.journalDone = true
  | .failed => True
  | .returned => s.journalDone = true ∧ cursor = s.durable

def WorkerInv (engineId : String) (s : Shared) (known : List Record) (reach cursor : ℕ)
    (market : Market.Projection) : Worker → Prop
  | .down => True
  | .running locals phase => locals.engineId = engineId ∧ s.startup ≤ locals.startupEnd ∧
      PhaseInv engineId s known reach cursor market locals phase

/-- The invariant of the system. -/
def Inv (engineId : String) (w : World) : Prop :=
  ∃ known reach cursor snaps market, Core codec toJson engineId w.toShared known reach cursor snaps market ∧
    WorkerInv engineId w.toShared known reach cursor market w.worker

section Steps

variable {codec toJson} {engineId : String} {s : Shared} {known : List Record} {reach cursor : ℕ}
  {snaps : List (Option MarketSnapshot)} {market : Market.Projection}

theorem Acked.mono {s s' : Shared} {events : List FinancialEvent} (h : Acked s events)
    (hsent : ∀ m ∈ s.sent, m ∈ s'.sent) : Acked s' events := by
  intro e he
  obtain ⟨m, hm, hacked⟩ := h e he
  exact ⟨m, hsent m hm, hacked⟩

/-- One more record in the market. -/
theorem run_applyAll_append {records : List Record} {record : Record} {P P' P'' : Market.Projection}
    {event : Option MarketSnapshot}
    (h : (Market.Projection.applyAll engineId records).run P = (.ok snaps, P'))
    (hrecord : (Market.Projection.apply record engineId).run P' = (.ok event, P'')) :
    (Market.Projection.applyAll engineId (records ++ [record])).run P =
      (.ok (snaps ++ [event]), P'') := by
  induction records generalizing P snaps with
  | nil =>
    cases h
    rw [List.nil_append, Market.Projection.applyAll, Mut.run_bind_ok_iff]
    exact ⟨event, P'', hrecord, rfl⟩
  | cons first records ih =>
    rw [Market.Projection.applyAll, Mut.run_bind_ok_iff] at h
    obtain ⟨firstEvent, mid, hfirst, hrest⟩ := h
    obtain ⟨events, mid', hevents, heq⟩ := Mut.run_bind_ok_iff.mp hrest
    cases heq
    rw [List.cons_append, Market.Projection.applyAll, Mut.run_bind_ok_iff]
    refine ⟨firstEvent, mid, hfirst, Mut.run_bind_ok_iff.mpr ⟨_, _, ih hevents, rfl⟩⟩

/-- Records in the market, and more records after them. -/
theorem run_applyAll_split {records records' : List Record} {P Q : Market.Projection}
    {events : List (Option MarketSnapshot)}
    (h : (Market.Projection.applyAll engineId (records ++ records')).run P = (.ok events, Q)) :
    ∃ before mid after, events = before ++ after ∧
      (Market.Projection.applyAll engineId records).run P = (.ok before, mid) ∧
      (Market.Projection.applyAll engineId records').run mid = (.ok after, Q) := by
  induction records generalizing P events with
  | nil => exact ⟨[], P, events, rfl, rfl, h⟩
  | cons record records ih =>
    rw [List.cons_append, Market.Projection.applyAll, Mut.run_bind_ok_iff] at h
    obtain ⟨event, next, hrecord, hrest⟩ := h
    obtain ⟨others, last, hothers, heq⟩ := Mut.run_bind_ok_iff.mp hrest
    cases heq
    obtain ⟨before, mid, after, rfl, hbefore, hafter⟩ := ih hothers
    refine ⟨event :: before, mid, after, rfl, ?_, hafter⟩
    rw [Market.Projection.applyAll, Mut.run_bind_ok_iff]
    exact ⟨event, next, hrecord, Mut.run_bind_ok_iff.mpr ⟨_, _, hbefore, rfl⟩⟩

/-! ### The journal worker -/

theorem Core.commit {clock : ℕ → Timestamp} {group : List Pending} {store : Store} {sequence : ℕ}
    (h : Core codec toJson engineId s known reach cursor snaps market)
    (hworking : s.journalDone = false)
    (happend : s.store.append codec clock group s.sequence = .ok (store, sequence)) :
    Core codec toJson engineId { s with store, sequence } known reach cursor snaps market := by
  obtain ⟨hsequence, hentries, -, hgenesis, hdelivery⟩ :=
    Store.append_ok happend (Store.le_of_lastSequence (Store.lastSequence_of_keys h.keys))
  have hgrown : s.store.records.entries <+: store.records.entries :=
    hentries ▸ List.prefix_append ..
  exact
    { engine := by rw [← h.engine, engineOf, engineOf, hgenesis]
      keys := Store.append_keys happend h.keys
      durable := h.durable.trans (by dsimp only; omega)
      done := fun hdone => by rw [hworking] at hdone; cases hdone
      reads := h.reads.of_isPrefix hgrown
      bounds := h.bounds
      delivery := hdelivery.trans h.delivery
      market := h.market
      ackedMarket := h.ackedMarket
      acked := h.acked
      resends := h.resends
      texts := h.texts
      ready := h.ready }

theorem Core.publish (h : Core codec toJson engineId s known reach cursor snaps market) :
    Core codec toJson engineId { s with durable := s.sequence } known reach cursor snaps market :=
  { h with
    durable := le_rfl
    done := fun _ => rfl
    bounds := ⟨h.bounds.1, h.bounds.2.trans h.durable⟩ }

theorem Core.finish (h : Core codec toJson engineId s known reach cursor snaps market)
    (hpublished : s.durable = s.sequence) :
    Core codec toJson engineId { s with journalDone := true } known reach cursor snaps market :=
  { h with done := fun _ => hpublished }

/-- The worker does not notice the journal worker, except that more is durable. -/
theorem WorkerInv.mono {s' : Shared} {worker : Worker}
    (h : WorkerInv engineId s known reach cursor market worker) (hsent : s'.sent = s.sent)
    (hmarket : s'.sentMarket = s.sentMarket) (hstartup : s'.startup = s.startup)
    (hdurable : s.durable ≤ s'.durable)
    (hdone : s.journalDone = true → s'.journalDone = true ∧ s'.durable = s.durable) :
    WorkerInv engineId s' known reach cursor market worker := by
  have hdelivering : ∀ {record : Record} {done : List FinancialEvent},
      Delivering engineId s known reach cursor record done →
      Delivering engineId s' known reach cursor record done := fun d =>
    { d with acked := d.acked.mono fun m hm => hsent ▸ hm }
  cases worker with
  | down => trivial
  | running locals phase =>
    obtain ⟨hengine, hstart, hphase⟩ := h
    refine ⟨hengine, hstartup ▸ hstart, ?_⟩
    cases phase with
    | opening => exact hphase
    | replaying next => exact hphase
    | announcing snapshots => exact hphase
    | looping => exact hphase
    | polling => exact hphase
    | exiting => exact hphase
    | reading => exact ⟨hphase.1, hphase.2.1, hphase.2.2.trans_le hdurable⟩
    | sending record pending =>
      obtain ⟨hcursor, hlocal, done, hevents, d⟩ := hphase
      exact ⟨hcursor, hlocal, done, hevents, hdelivering d⟩
    | publishing record snapshot => exact ⟨hphase.1, hdelivering hphase.2.1, hphase.2.2⟩
    | marking record =>
      obtain ⟨hcursor, d, event, happly, hacked⟩ := hphase
      exact ⟨hcursor, hdelivering d, event, happly, fun snapshot hs => hmarket ▸ hacked snapshot hs⟩
    | comparing => exact ⟨hphase.1, hphase.2.1, (hdone hphase.2.2).1⟩
    | failed => trivial
    | returned => exact ⟨(hdone hphase.1).1, hphase.2.trans (hdone hphase.1).2.symm⟩

/-! ### The output worker -/

/-- The process starts. -/
theorem Core.boot (h : Core codec toJson engineId s known reach cursor snaps market) :
    Core codec toJson engineId
      { s with
        durable := s.sequence, journalDone := false, startup := s.sequence, signalled := false }
      known reach cursor snaps market :=
  { h with
    durable := le_rfl
    done := fun _ => rfl
    bounds := ⟨h.bounds.1, h.bounds.2.trans h.durable⟩
    ready := fun hready => by cases hready }

/-! #### From the start to the loop -/

theorem PhaseInv.opened {locals : Locals} {cursor' : ℕ}
    (core : Core codec toJson engineId s known reach cursor snaps market)
    (h : PhaseInv engineId s known reach cursor market locals .opening)
    (hread : s.store.delivered = .ok cursor') :
    PhaseInv engineId s known reach cursor market { locals with cursor := cursor' } (.replaying 1) := by
  have hcursor : (cursor' : ℤ) = cursor :=
    Option.some_inj.mp ((Store.delivered_ok hread).symm.trans core.delivery)
  have hcursor' : cursor' = cursor := by
    exact_mod_cast hcursor
  refine ⟨hcursor', le_rfl, by omega, [], ?_⟩
  rw [show locals.market = .new from h]
  rfl

/-- One more record is taken into the market. -/
theorem PhaseInv.replayed {locals : Locals} {next : ℕ} {record : Record}
    {event : Option MarketSnapshot} {market' : Market.Projection}
    (core : Core codec toJson engineId s known reach cursor snaps market)
    (h : PhaseInv engineId s known reach cursor market locals (.replaying next))
    (hmore : next ≤ locals.cursor) (hread : s.store.read codec next = .ok record)
    (happlied : (Market.Projection.apply record engineId).run locals.market = (.ok event, market')) :
    PhaseInv engineId s known reach cursor market { locals with market := market' }
      (.replaying (next + 1)) := by
  obtain ⟨hcursor, hpos, hle, snaps', hmarket⟩ := h
  have hlt : next - 1 < known.length := by
    have := core.bounds.1
    omega
  have hrecord : known[next - 1]? = some record := by
    rw [List.getElem?_eq_getElem hlt, Option.some_inj]
    have hold := core.reads (next - 1) _ (List.getElem?_eq_getElem hlt)
    rw [Nat.sub_add_cancel hpos] at hold
    exact Except.ok.inj (hold.symm.trans hread)
  have htake : known.take (next + 1 - 1) = known.take (next - 1) ++ [record] := by
    rw [show next + 1 - 1 = next - 1 + 1 by omega, List.take_add_one, hrecord]
    rfl
  refine ⟨hcursor, by omega, by omega, snaps' ++ [event], ?_⟩
  rw [htake]
  exact run_applyAll_append hmarket happlied

/-- All records up to the cursor were taken into the market. -/
theorem PhaseInv.rebuilt {locals : Locals} {next : ℕ}
    (core : Core codec toJson engineId s known reach cursor snaps market)
    (h : PhaseInv engineId s known reach cursor market locals (.replaying next))
    (hdone : locals.cursor < next) : locals.cursor = cursor ∧ locals.market = market := by
  obtain ⟨hcursor, hpos, hle, snaps', hmarket⟩ := h
  obtain rfl : next = cursor + 1 := by
    omega
  rw [Nat.add_sub_cancel, core.market] at hmarket
  exact ⟨hcursor, (Prod.mk.inj hmarket).2.symm⟩

/-! #### One record -/

/-- The record after the cursor is read: it is one that is known, or the next one. -/
theorem Core.fetch {record : Record} (h : Core codec toJson engineId s known reach cursor snaps market)
    (hlt : cursor < s.durable) (hread : s.store.read codec (cursor + 1) = .ok record) :
    ∃ known', Core codec toJson engineId s known' reach cursor snaps market ∧
      known'[cursor]? = some record := by
  rcases Nat.lt_or_ge cursor known.length with hknown | hnew
  · refine ⟨known, h, ?_⟩
    rw [List.getElem?_eq_getElem hknown, Option.some_inj]
    have hold := h.reads cursor _ (List.getElem?_eq_getElem hknown)
    exact Except.ok.inj (hold.symm.trans hread)
  · obtain rfl : cursor = known.length := le_antisymm h.bounds.1 hnew
    have htake : (known ++ [record]).take known.length = known.take known.length := by
      rw [List.take_left, List.take_length]
    have hstream : stream engineId known <+: stream engineId (known ++ [record]) := by
      rw [stream_append]
      exact List.prefix_append ..
    refine ⟨known ++ [record], ?_, List.getElem?_concat_length ..⟩
    exact
      { h with
        reads := h.reads.append hread
        bounds := by
          rw [List.length_append, List.length_singleton]
          omega
        market := htake ▸ h.market
        acked := htake ▸ h.acked
        resends := htake ▸ h.resends.grow hstream
        texts := fun m hm => ⟨hstream.subset (h.texts m hm).1, (h.texts m hm).2⟩ }

/-- **An event is sent.** -/
theorem Core.send {record : Record} {done events : List FinancialEvent} {event : FinancialEvent}
    {payload : String} (h : Core codec toJson engineId s known reach cursor snaps market)
    (d : Delivering engineId s known reach cursor record done)
    (hevents : record.events engineId = done ++ event :: events)
    (hpayload : toJson event = .ok payload) (acked : Bool) :
    ∃ reach', Core codec toJson engineId { s with sent := s.sent ++ [⟨event, payload, acked⟩] }
        known reach' cursor snaps market ∧
      (acked = true → Delivering engineId { s with sent := s.sent ++ [⟨event, payload, acked⟩] }
        known reach' cursor record (done ++ [event])) := by
  set s' : Shared := { s with sent := s.sent ++ [⟨event, payload, acked⟩] } with hs'
  have hsub : ∀ m ∈ s.sent, m ∈ s'.sent := fun m hm => List.mem_append_left _ hm
  set position := (stream engineId (known.take cursor)).length + done.length with hposition
  have hnext : (stream engineId (known.take (cursor + 1)))[position]? = some event := by
    rw [stream_take_succ d.next, hevents, List.getElem?_append_right (by omega), hposition,
      Nat.add_sub_cancel_left, List.getElem?_append_right le_rfl, Nat.sub_self]
    rfl
  have hat : (stream engineId known)[position]? = some event := by
    obtain ⟨rest, hrest⟩ := stream_take_isPrefix engineId known (cursor + 1)
    rwa [← hrest, List.getElem?_append_left (List.getElem?_eq_some_iff.mp hnext).1]
  have hresends := (h.resends.rewind d.reached).send (nodup_stream h.reads) hat
  refine ⟨max reach (position + 1), ?_, fun hacked => ?_⟩
  · exact
      { h with
        ackedMarket := h.ackedMarket
        acked := h.acked.mono hsub
        resends := by
          rw [hs', List.map_append]
          exact hresends.rewind (le_max_of_le_left h.resends.position_le)
        texts := by
          intro m hm
          rcases List.mem_append.mp hm with hm | hm
          · exact h.texts m hm
          · obtain rfl := List.mem_singleton.mp hm
            exact ⟨List.mem_of_getElem? hat, hpayload⟩ }
  · refine ⟨d.next, ?_, ?_, ?_⟩
    · rw [hevents]
      exact ⟨events, by rw [List.append_assoc, List.singleton_append]⟩
    · rw [List.length_append, List.length_singleton]
      omega
    · intro e he
      rcases List.mem_append.mp he with he | he
      · exact d.acked.mono hsub e he
      · obtain rfl := List.mem_singleton.mp he
        exact ⟨_, List.mem_append_right _ (List.mem_singleton_self _), rfl, hacked⟩

theorem Core.sendMarket (h : Core codec toJson engineId s known reach cursor snaps market)
    (m : SentMarket) :
    Core codec toJson engineId { s with sentMarket := s.sentMarket ++ [m] } known reach cursor snaps
      market :=
  { h with ackedMarket := fun snapshot hs => List.mem_append_left _ (h.ackedMarket snapshot hs) }

/-- **The cursor moves**, when everything of its next record was acknowledged. -/
theorem Core.mark {record : Record} {store : Store} {event : Option MarketSnapshot}
    {market' : Market.Projection} (h : Core codec toJson engineId s known reach cursor snaps market)
    (d : Delivering engineId s known reach cursor record (record.events engineId))
    (happly : (Market.Projection.apply record engineId).run market = (.ok event, market'))
    (hacked : ∀ snapshot, event = some snapshot → ⟨snapshot, true⟩ ∈ s.sentMarket)
    (hmark : s.store.markDelivered record.sequence = .ok store) :
    record.sequence = cursor + 1 ∧
      Core codec toJson engineId { s with store } known reach (cursor + 1) (snaps ++ [event])
        market' := by
  have hsequence := h.reads.sequence d.next
  obtain ⟨-, -, rfl⟩ := Store.markDelivered_ok hmark
  refine ⟨hsequence, ?_⟩
  have htake : known.take (cursor + 1) = known.take cursor ++ [record] := by
    rw [List.take_add_one, d.next]
    rfl
  exact
    { h with
      bounds := ⟨(List.getElem?_eq_some_iff.mp d.next).1, h.bounds.2⟩
      delivery := by rw [hsequence]
      market := by
        rw [htake]
        exact run_applyAll_append h.market happly
      ackedMarket := by
        intro snapshot hs
        rcases List.mem_append.mp hs with hs | hs
        · exact h.ackedMarket snapshot hs
        · exact hacked snapshot (List.mem_singleton.mp hs).symm
      acked := by
        rw [stream_take_succ d.next]
        intro e he
        rcases List.mem_append.mp he with he | he
        · exact h.acked e he
        · exact d.acked e he
      resends := by
        rw [stream_take_succ d.next, List.length_append]
        exact h.resends.rewind d.reached
      ready := fun hready => (h.ready hready).trans (Nat.le_succ _) }

/-- All events of the record were acknowledged, and the market takes it. -/
theorem PhaseInv.applied {locals : Locals} {record : Record} {event : Option MarketSnapshot}
    {market' : Market.Projection}
    (h : PhaseInv engineId s known reach cursor market locals (.sending record []))
    (happlied : (Market.Projection.apply record engineId).run locals.market = (.ok event, market')) :
    PhaseInv engineId s known reach cursor market { locals with market := market' }
      (match event with
      | some snapshot => .publishing record snapshot
      | none => .marking record) := by
  obtain ⟨hcursor, hmarket, done, hevents, d⟩ := h
  rw [List.append_nil] at hevents
  rw [hmarket] at happlied
  rw [← hevents] at d
  cases event with
  | some snapshot => exact ⟨hcursor, d, happlied⟩
  | none => exact ⟨hcursor, d, none, happlied, fun snapshot hs => by cases hs⟩

/-- The snapshot of the record is sent. -/
theorem PhaseInv.published {locals : Locals} {record : Record} {snapshot : MarketSnapshot} (acked : Bool)
    (h : PhaseInv engineId s known reach cursor market locals (.publishing record snapshot)) :
    PhaseInv engineId { s with sentMarket := s.sentMarket ++ [⟨snapshot, acked⟩] } known reach cursor
      market locals (if acked then .marking record else .failed) := by
  obtain ⟨hcursor, d, happly⟩ := h
  cases acked with
  | true =>
    refine ⟨hcursor, { d with acked := d.acked.mono fun m hm => hm }, some snapshot, happly, ?_⟩
    intro snapshot' hs
    cases hs
    exact List.mem_append_right _ (List.mem_singleton_self _)
  | false => trivial

end Steps

section Runs

variable {Json : Type} [DecidableEq Json] {codec : Codec Json}
  {toJson : FinancialEvent → Except String String} {engineId : String}

theorem engineOf_of_recover {store : Store} {state : EngineState} {id : String}
    (h : store.recover codec = .ok (state, id)) : engineOf codec store = id := by
  simp only [Store.recover, bind_eq_ok, orErr_eq_ok, ensure_eq_ok, pure_eq_ok, exists_const,
    Prod.mk.injEq] at h
  obtain ⟨row, hrow, genesis, hdecode, -, -, -, -, -, -, -, -, -, rfl⟩ := h
  rw [engineOf, hrow, Option.map_some, hdecode]

/-- **Every step keeps the invariant.** -/
theorem Step.inv {w w' : World} (step : Step codec toJson w w') (h : Inv codec toJson engineId w) :
    Inv codec toJson engineId w' := by
  obtain ⟨known, reach, cursor, snaps, market, core, hworker⟩ := h
  cases step with
  | @boot state id last down recovered sequence =>
    obtain rfl := Except.ok.inj ((Store.lastSequence_of_keys core.keys).symm.trans sequence)
    exact ⟨known, reach, cursor, snaps, market, core.boot,
      (engineOf_of_recover recovered).symm.trans core.engine, le_rfl, rfl⟩
  | crash => exact ⟨known, reach, cursor, snaps, market, core, trivial⟩
  | commit up working published appended =>
    refine ⟨known, reach, cursor, snaps, market, core.commit working appended, ?_⟩
    exact hworker.mono rfl rfl rfl le_rfl fun hdone => ⟨hdone, rfl⟩
  | publish up working =>
    refine ⟨known, reach, cursor, snaps, market, core.publish, ?_⟩
    exact hworker.mono rfl rfl rfl core.durable fun hdone => ⟨hdone, (core.done hdone).symm⟩
  | finish up published =>
    refine ⟨known, reach, cursor, snaps, market, core.finish published, ?_⟩
    exact hworker.mono rfl rfl rfl le_rfl fun _ => ⟨rfl, rfl⟩
  | fail here running =>
    rw [here] at hworker
    exact ⟨known, reach, cursor, snaps, market, core, hworker.1, hworker.2.1, trivial⟩
  | opened here read =>
    rw [here] at hworker
    obtain ⟨hengine, hstart, hphase⟩ := hworker
    exact ⟨known, reach, cursor, snaps, market, core, hengine, hstart, PhaseInv.opened core hphase read⟩
  | replayed here more read applied =>
    rw [here] at hworker
    obtain ⟨hengine, hstart, hphase⟩ := hworker
    rw [hengine] at applied
    exact ⟨known, reach, cursor, snaps, market, core, hengine, hstart,
      PhaseInv.replayed core hphase more read applied⟩
  | rebuilt here done latest =>
    rw [here] at hworker
    obtain ⟨hengine, hstart, hphase⟩ := hworker
    exact ⟨known, reach, cursor, snaps, market, core, hengine, hstart,
      PhaseInv.rebuilt core hphase done⟩
  | @announced locals snapshot snapshots acked here =>
    rw [here] at hworker
    refine ⟨known, reach, cursor, snaps, market, core.sendMarket _, hworker.1, hworker.2.1, ?_⟩
    cases acked with
    | true => exact hworker.2.2
    | false => trivial
  | ready here =>
    rw [here] at hworker
    exact ⟨known, reach, cursor, snaps, market, core, hworker⟩
  | @signal locals here reached =>
    rw [here] at hworker
    obtain ⟨hengine, hstart, hcursor, hmarket⟩ := hworker
    refine ⟨known, reach, cursor, snaps, market, { core with ready := fun _ => ?_ }, hengine, hstart,
      hcursor, hmarket⟩
    have hreached : locals.startupEnd ≤ cursor := hcursor ▸ reached
    exact hstart.trans hreached
  | wait here behind =>
    rw [here] at hworker
    exact ⟨known, reach, cursor, snaps, market, core, hworker⟩
  | @pending locals here more =>
    rw [here] at hworker
    obtain ⟨hengine, hstart, hcursor, hmarket⟩ := hworker
    exact ⟨known, reach, cursor, snaps, market, core, hengine, hstart, hcursor, hmarket,
      hcursor ▸ more⟩
  | drained here none =>
    rw [here] at hworker
    exact ⟨known, reach, cursor, snaps, market, core, hworker⟩
  | @fetched locals record here read =>
    rw [here] at hworker
    obtain ⟨hengine, hstart, hcursor, hmarket, hlt⟩ := hworker
    rw [hcursor] at read
    obtain ⟨known', core', hrecord⟩ := core.fetch hlt read
    refine ⟨known', reach, cursor, snaps, market, core', hengine, hstart, hcursor, hmarket, [], ?_,
      hrecord, List.nil_prefix, core'.resends.position_le, fun e he => by cases he⟩
    rw [hengine]
    rfl
  | @delivered locals record event events payload acked here encoded =>
    rw [here] at hworker
    obtain ⟨hengine, hstart, hcursor, hmarket, done, hevents, d⟩ := hworker
    obtain ⟨reach', core', hnext⟩ := core.send d hevents encoded acked
    refine ⟨known, reach', cursor, snaps, market, core', hengine, hstart, ?_⟩
    cases acked with
    | true =>
      refine ⟨hcursor, hmarket, done ++ [event], ?_, hnext rfl⟩
      rw [hevents, List.append_assoc, List.singleton_append]
    | false => trivial
  | @applied locals record event market' here applied =>
    rw [here] at hworker
    obtain ⟨hengine, hstart, hphase⟩ := hworker
    rw [hengine] at applied
    have hnext := PhaseInv.applied hphase applied
    cases event <;> exact ⟨known, reach, cursor, snaps, market, core, hengine, hstart, hnext⟩
  | @published locals record snapshot acked here =>
    rw [here] at hworker
    obtain ⟨hengine, hstart, hphase⟩ := hworker
    exact ⟨known, reach, cursor, snaps, market, core.sendMarket _, hengine, hstart,
      PhaseInv.published acked hphase⟩
  | @marked locals record store ok here marked =>
    rw [here] at hworker
    obtain ⟨hengine, hstart, hcursor, d, event, happly, hacked⟩ := hworker
    obtain ⟨hsequence, core'⟩ := core.mark d happly hacked marked
    refine ⟨known, reach, cursor + 1, snaps ++ [event], locals.market, core', ?_⟩
    cases ok with
    | true => exact ⟨hengine, hstart, hsequence, rfl⟩
    | false => exact ⟨hengine, hstart, trivial⟩
  | @closing locals here done =>
    rw [here] at hworker
    obtain ⟨hengine, hstart, hcursor, hmarket⟩ := hworker
    exact ⟨known, reach, cursor, snaps, market, core, hengine, hstart, hcursor, hmarket, done⟩
  | unfinished here working =>
    rw [here] at hworker
    exact ⟨known, reach, cursor, snaps, market, core, hworker⟩
  | @returned locals here equal =>
    rw [here] at hworker
    obtain ⟨hengine, hstart, hcursor, hmarket, hdone⟩ := hworker
    exact ⟨known, reach, cursor, snaps, market, core, hengine, hstart, hdone, hcursor ▸ equal⟩
  | resumed here unequal =>
    rw [here] at hworker
    obtain ⟨hengine, hstart, hcursor, hmarket, -⟩ := hworker
    exact ⟨known, reach, cursor, snaps, market, core, hengine, hstart, hcursor, hmarket⟩

omit [DecidableEq Json] in
theorem inv_of_initial {start : World} (h : start.Initial) :
    Inv codec toJson (engineOf codec start.store) start := by
  obtain ⟨hsequence, hdurable⟩ := h.counters
  obtain ⟨hsent, hmarket, hsignalled⟩ := h.silent
  refine ⟨[], 0, 0, [], .new, ?_, ?_⟩
  · exact
      { engine := rfl
        keys := by rw [h.records, hsequence]; rfl
        durable := by rw [hsequence, hdurable]
        done := fun _ => by rw [hsequence, hdurable]
        reads := fun i record hrecord => by simp at hrecord
        bounds := ⟨le_rfl, Nat.zero_le _⟩
        delivery := h.delivery
        market := rfl
        ackedMarket := fun snapshot hs => by cases hs
        acked := fun e he => by cases he
        resends := by rw [hsent]; exact Resends.nil _
        texts := fun m hm => by rw [hsent] at hm; cases hm
        ready := fun hready => by rw [hsignalled] at hready; cases hready }
  · rw [h.down]
    trivial

/-- **The invariant holds in every state of every execution.** -/
theorem Reachable.inv {start w : World} (h : Reachable codec toJson start w)
    (initial : start.Initial) : Inv codec toJson (engineOf codec start.store) w := by
  induction h with
  | start => exact inv_of_initial initial
  | step reached step ih => exact step.inv ih

end Runs

/-! ## What is delivered -/

/-- All financial events and the market snapshot of a record were acknowledged. -/
def RecordAcked (engineId : String) (s : Shared) (n : ℕ) : Prop :=
  ∃ (records : List Record) (record : Record) (snaps : List (Option MarketSnapshot))
    (event : Option MarketSnapshot) (market market' : Market.Projection),
    records.length + 1 = n ∧ Reads codec s.store (records ++ [record]) ∧
    (Market.Projection.applyAll engineId records).run .new = (.ok snaps, market) ∧
    (Market.Projection.apply record engineId).run market = (.ok event, market') ∧
    Acked s (record.events engineId) ∧
    ∀ snapshot, event = some snapshot → ⟨snapshot, true⟩ ∈ s.sentMarket

/-- **What holds in every state of the system.** -/
structure Ordered [DecidableEq Json] (engineId : String) (w : World) : Prop where
  /-- Only events of durable records are sent, as the texts of these events. -/
  durable : ∀ m ∈ w.sent, toJson m.event = .ok m.payload ∧ ∃ n record, 0 < n ∧ n ≤ w.durable ∧
    w.store.read codec n = .ok record ∧ m.event ∈ record.events engineId
  /-- The persisted cursor moves by one record, after all of it was acknowledged. -/
  cursor : ∀ w', Step codec toJson w w' → w'.store.delivery = w.store.delivery ∨
    ∃ n : ℕ, w.store.delivery = some (n : ℤ) ∧ w'.store.delivery = some ((n + 1 : ℕ) : ℤ) ∧
      RecordAcked codec engineId w.toShared (n + 1)
  /-- Different events of the journal have different identifiers. -/
  identity : ∀ (n n' : ℕ) (record record' : Record) (i i' : ℕ) (e e' : FinancialEvent), w.store.read codec n = .ok record →
    w.store.read codec n' = .ok record' → (record.events engineId)[i]? = some e →
    (record'.events engineId)[i']? = some e' → e.eventId = e'.eventId → n = n' ∧ i = i'
  /-- What is sent again is the same to the byte. -/
  resent : ∀ m ∈ w.sent, ∀ m' ∈ w.sent, m.event.eventId = m'.event.eventId →
    m.event = m'.event ∧ m.payload = m'.payload
  /-- Without the repetitions the stream is that of whole records up to one, and perhaps a
  part of the next. -/
  stream : ∃ (n k : ℕ) (texts : List String) (whole part : List Sent),
    w.store.delivery = some (n : ℤ) ∧ n ≤ k ∧ k ≤ w.durable ∧
    firsts (fun m => m.event.eventId) [] w.sent = whole ++ part ∧
    w.store.published codec toJson engineId 0 k = .ok texts ∧ whole.map Sent.payload = texts ∧
    (part = [] ∨ ∃ record, k + 1 ≤ w.durable ∧ w.store.read codec (k + 1) = .ok record ∧
      part.map Sent.event <+: record.events engineId ∧
      part.map Sent.event ≠ record.events engineId)
  /-- Readiness is signalled when what was durable at the start is delivered. -/
  ready : w.signalled = true → ∃ n : ℕ, w.store.delivery = some (n : ℤ) ∧ w.startup ≤ n
  /-- The worker returns when the journal is finished and all of it is delivered. -/
  returned : ∀ locals, w.worker = .running locals .returned → w.journalDone = true ∧
    w.store.delivery = some (w.durable : ℤ) ∧ w.store.lastSequence = .ok w.durable

section Guarantees

variable [DecidableEq Json] {codec toJson} {engineId : String}

/-- The cursor moves in one place, when the worker has everything acknowledged. -/
theorem Step.cursor {w w' : World} (step : Step codec toJson w w')
    (h : Inv codec toJson engineId w) : w'.store.delivery = w.store.delivery ∨
      ∃ n : ℕ, w.store.delivery = some (n : ℤ) ∧ w'.store.delivery = some ((n + 1 : ℕ) : ℤ) ∧
        RecordAcked codec engineId w.toShared (n + 1) := by
  obtain ⟨known, reach, cursor, snaps, market, core, hworker⟩ := h
  cases step with
  | commit up working published appended =>
    exact .inl (Store.append_ok appended
      (Store.le_of_lastSequence (Store.lastSequence_of_keys core.keys))).2.2.2.2
  | @marked locals record store ok here marked =>
    rw [here] at hworker
    obtain ⟨-, -, -, d, event, happly, hacked⟩ := hworker
    obtain ⟨-, core'⟩ := core.mark d happly hacked marked
    have hlength : (known.take cursor).length = cursor :=
      List.length_take_of_le core.bounds.1
    refine .inr ⟨cursor, core.delivery, core'.delivery, known.take cursor, record, snaps, event,
      market, locals.market, by rw [hlength], ?_, core.market, happly, d.acked, hacked⟩
    have htake : known.take cursor ++ [record] = known.take (cursor + 1) := by
      rw [List.take_add_one, d.next]
      rfl
    rw [htake]
    exact core.reads.take _
  | _ => exact .inl rfl

omit [DecidableEq Json] in
theorem mapM_payload {messages : List Sent}
    (h : ∀ m ∈ messages, toJson m.event = .ok m.payload) :
    (messages.map Sent.event).mapM toJson = .ok (messages.map Sent.payload) := by
  induction messages with
  | nil => rfl
  | cons m messages ih =>
    rw [List.map_cons, List.mapM_cons, h m (List.mem_cons_self ..),
      ih fun m hm => h m (List.mem_cons_of_mem _ hm)]
    rfl

omit [DecidableEq Json] in
/-- Without its repetitions the stream ends in one record. -/
theorem Core.stream {s : Shared} {known : List Record} {reach cursor : ℕ}
    {snaps : List (Option MarketSnapshot)} {market : Market.Projection}
    (core : Core codec toJson engineId s known reach cursor snaps market) :
    ∃ (k : ℕ) (texts : List String) (whole part : List Sent), cursor ≤ k ∧ k ≤ s.durable ∧
      firsts (fun m => m.event.eventId) [] s.sent = whole ++ part ∧
      s.store.published codec toJson engineId 0 k = .ok texts ∧ whole.map Sent.payload = texts ∧
      (part = [] ∨ ∃ record, k + 1 ≤ s.durable ∧ s.store.read codec (k + 1) = .ok record ∧
        part.map Sent.event <+: record.events engineId ∧
        part.map Sent.event ≠ record.events engineId) := by
  obtain ⟨k, hk, rest, htake, hrest, hmax⟩ := exists_blocks_of_take core.resends.reach_le
  rw [List.length_map] at hk hmax
  rw [← List.map_take] at htake
  set kept := firsts (fun m : Sent => m.event.eventId) [] s.sent with hkept
  have hevents : kept.map Sent.event = Delivery.stream engineId (known.take k) ++ rest := by
    rw [hkept]
    exact (map_firsts [] s.sent).trans (core.resends.first.trans htake)
  obtain ⟨whole, part, hsplit, hwhole, hpart⟩ := List.map_eq_append_iff.mp hevents
  have htexts : ∀ m ∈ whole, toJson m.event = .ok m.payload := by
    intro m hm
    have hmem : m ∈ kept := hsplit ▸ List.mem_append_left _ hm
    exact (core.texts m (mem_of_mem_firsts hmem)).2
  refine ⟨k, whole.map Sent.payload, whole, part, ?_, hk.trans core.bounds.2, hsplit, ?_, rfl, ?_⟩
  · refine hmax cursor core.bounds.1 ?_
    rw [← List.map_take]
    exact core.resends.position_le
  · have hreads : ∀ i record, (known.take k)[i]? = some record →
        s.store.read codec (0 + i + 1) = .ok record := by
      intro i record hrecord
      rw [Nat.zero_add]
      exact core.reads.take k i record hrecord
    have hpublished := published_of_reads hreads (hwhole ▸ mapM_payload htexts)
    rwa [List.length_take_of_le hk] at hpublished
  · rcases hrest with rfl | ⟨block, hblock, hprefix, hne⟩
    · exact .inl (List.map_eq_nil_iff.mp hpart)
    · rw [List.getElem?_map, Option.map_eq_some_iff] at hblock
      obtain ⟨record, hrecord, rfl⟩ := hblock
      have hlt := (List.getElem?_eq_some_iff.mp hrecord).1
      rw [hpart]
      exact .inr ⟨record, by have := core.bounds.2; omega, core.reads k record hrecord, hprefix, hne⟩

omit [DecidableEq Json] in
/-- What was delivered up to the cursor was delivered record by record. -/
theorem Core.recordAcked {s : Shared} {known : List Record} {reach cursor n : ℕ}
    {snaps : List (Option MarketSnapshot)} {market : Market.Projection}
    (core : Core codec toJson engineId s known reach cursor snaps market) (hn : n < cursor) :
    RecordAcked codec engineId s (n + 1) := by
  have hlt : n < known.length := hn.trans_le core.bounds.1
  have hnext : known[n]? = some known[n] := List.getElem?_eq_getElem hlt
  have hone : known.take (n + 1) = known.take n ++ [known[n]] := by
    rw [List.take_add_one, hnext]
    rfl
  have hsplit : known.take cursor = known.take (n + 1) ++ (known.take cursor).drop (n + 1) := by
    conv_lhs => rw [← List.take_append_drop (n + 1) (known.take cursor), List.take_take,
      min_eq_left (Nat.succ_le_of_lt hn)]
  have hmarket := core.market
  rw [hsplit] at hmarket
  obtain ⟨early, mid, late, rfl, hearly, -⟩ := run_applyAll_split hmarket
  rw [hone] at hearly
  obtain ⟨before, market', events, rfl, hbefore, hrecord⟩ := run_applyAll_split hearly
  rw [Market.Projection.applyAll, Mut.run_bind_ok_iff] at hrecord
  obtain ⟨event, market'', hevent, hrest⟩ := hrecord
  cases hrest
  refine ⟨known.take n, known[n], before, event, market', _, ?_, ?_, hbefore, hevent, ?_, ?_⟩
  · rw [List.length_take_of_le hlt.le]
  · rw [← hone]
    exact core.reads.take _
  · intro e he
    refine core.acked e ?_
    rw [hsplit, stream_append, hone, stream_append]
    refine List.mem_append_left _ (List.mem_append_right _ ?_)
    simpa [Delivery.stream] using he
  · rintro snapshot rfl
    exact core.ackedMarket snapshot
      (List.mem_append_left _ (List.mem_append_right _ (List.mem_singleton_self _)))

/-- **Ordered delivery, at least once, with stable identities.**

In every state of every execution of the output worker against a growing journal, with any
failures of the broker and of the cursor, any crashes and any restarts. -/
theorem ordered_at_least_once (codec : Codec Json)
    (toJson : FinancialEvent → Except String String) {start w : World} (initial : start.Initial)
    (reached : Reachable codec toJson start w) :
    Ordered codec toJson (engineOf codec start.store) w := by
  have hinv := reached.inv initial
  obtain ⟨known, reach, cursor, snaps, market, core, hworker⟩ := hinv
  refine
    { durable := ?_
      cursor := fun w' step => step.cursor (reached.inv initial)
      identity := ?_
      resent := ?_
      stream := ?_
      ready := fun hready => ⟨cursor, core.delivery, core.ready hready⟩
      returned := ?_ }
  · intro m hm
    obtain ⟨hmem, hpayload⟩ := core.texts m hm
    refine ⟨hpayload, ?_⟩
    obtain ⟨events, hevents, he⟩ := List.mem_flatten.mp hmem
    obtain ⟨record, hrecord, rfl⟩ := List.mem_map.mp hevents
    obtain ⟨i, hi, rfl⟩ := List.mem_iff_getElem.mp hrecord
    have hbounds := core.bounds
    exact ⟨i + 1, known[i], Nat.succ_pos _, by omega,
      core.reads i _ (List.getElem?_eq_getElem hi), he⟩
  · intro n n' record record' i i' e e' hread hread' he he' hid
    rw [Record.eventId_of_getElem? he, Record.eventId_of_getElem? he'] at hid
    obtain ⟨hsequence, hindex⟩ := Output.eventId_injective hid
    exact ⟨by rw [← sequence_of_read hread, hsequence, sequence_of_read hread'], hindex⟩
  · intro m hm m' hm' hid
    obtain ⟨hmem, hpayload⟩ := core.texts m hm
    obtain ⟨hmem', hpayload'⟩ := core.texts m' hm'
    have hevent := List.inj_on_of_nodup_map (nodup_stream core.reads) hmem hmem' hid
    rw [hevent, hpayload'] at hpayload
    exact ⟨hevent, (Except.ok.inj hpayload).symm⟩
  · obtain ⟨k, texts, whole, part, hcursor, hdurable, hstream⟩ := core.stream
    exact ⟨cursor, k, texts, whole, part, core.delivery, hcursor, hdurable, hstream⟩
  · intro locals hreturned
    rw [hreturned] at hworker
    obtain ⟨-, -, hdone, hcursor⟩ := hworker
    refine ⟨hdone, hcursor ▸ core.delivery, ?_⟩
    rw [Store.lastSequence_of_keys core.keys, core.done hdone]

end Guarantees

/-! ### A sell that crosses two bids -/

section Script

variable {Json : Type} [DecidableEq Json] {codec : Codec Json}
  {toJson : FinancialEvent → Except String String} {start : World} {shared : Shared} {locals : Locals}

/-- All events of a record are sent and acknowledged. -/
theorem Reachable.sends {record : Record} {text : FinancialEvent → String}
    {events : List FinancialEvent}
    (h : Reachable codec toJson start ⟨shared, .running locals (.sending record events)⟩)
    (htext : ∀ e ∈ events, toJson e = .ok (text e)) :
    Reachable codec toJson start
      ⟨{ shared with sent := shared.sent ++ events.map fun e => ⟨e, text e, true⟩ },
        .running locals (.sending record [])⟩ := by
  induction events generalizing shared with
  | nil =>
    rw [List.map_nil, List.append_nil]
    exact h
  | cons e events ih =>
    have h1 := h.step (@Step.delivered _ _ _ _ _ _ _ _ _ _ true rfl (htext e (List.mem_cons_self ..)))
    have h2 := ih h1 fun e' he' => htext e' (List.mem_cons_of_mem _ he')
    rw [List.append_assoc] at h2
    exact h2

/-- The market takes a record, its snapshot is acknowledged, and the cursor is moved. -/
theorem Reachable.publishes {record : Record} {event : Option MarketSnapshot}
    {market : Market.Projection} {store : Store}
    (h : Reachable codec toJson start ⟨shared, .running locals (.sending record [])⟩)
    (happlied : (Market.Projection.apply record locals.engineId).run locals.market = (.ok event, market))
    (hmarked : shared.store.markDelivered record.sequence = .ok store) :
    Reachable codec toJson start
      ⟨{ shared with store, sentMarket := shared.sentMarket ++ event.toList.map fun e => ⟨e, true⟩ },
        .running { locals with market, cursor := record.sequence } .looping⟩ := by
  have hmarks : ∀ {shared : Shared} {locals : Locals},
      Reachable codec toJson start ⟨shared, .running locals (.marking record)⟩ →
      shared.store.markDelivered record.sequence = .ok store → Reachable codec toJson start
        ⟨{ shared with store }, .running { locals with cursor := record.sequence } .looping⟩ :=
    fun h hmarked => h.step (@Step.marked _ _ _ _ _ _ _ _ true rfl hmarked)
  cases event with
  | none =>
    have h1 : Reachable codec toJson start ⟨shared, .running { locals with market } (.marking record)⟩ :=
      h.step (.applied rfl happlied)
    rw [Option.toList_none, List.map_nil, List.append_nil]
    exact hmarks h1 hmarked
  | some snapshot =>
    have h1 : Reachable codec toJson start
        ⟨shared, .running { locals with market } (.publishing record snapshot)⟩ :=
      h.step (.applied rfl happlied)
    have h2 : Reachable codec toJson start
        ⟨{ shared with sentMarket := shared.sentMarket ++ [⟨snapshot, true⟩] },
          .running { locals with market } (.marking record)⟩ :=
      h1.step (@Step.published _ _ _ _ _ _ _ _ true rfl)
    exact hmarks h2 hmarked

end Script

def fundedRecord : Record := ⟨1, 0, .balance 1 "BTC" Decimal.ONE, .applied none⟩

def bidRecord : Record :=
  ⟨2, 0, .submit (.limit 1 2 true Decimal.ONE (.ofScaled 5 1)), .applied (some (.submitted 1 [] none))⟩

def lowerRecord : Record :=
  ⟨3, 0, .submit (.limit 2 2 true (.ofScaled 9 1) (.ofScaled 5 1)),
    .applied (some (.submitted 2 [] none))⟩

/-- The sell fills one bid and a part of the other. -/
def crossingRecord : Record :=
  ⟨4, 0, .submit (.limit 3 1 false (.ofScaled 9 1) (.ofScaled 8 1)),
    .applied (some (.submitted 3
      [⟨⟨0, 0, 1, 3, 2, 1, Decimal.ONE, .ofScaled 5 1, "BTC", "USDT"⟩, 0, 0⟩,
        ⟨⟨0, 0, 2, 3, 2, 1, .ofScaled 9 1, .ofScaled 3 1, "BTC", "USDT"⟩, 0, 0⟩] none))⟩

/-- The four records with their texts. -/
def crossingRows : List Store.TableRow :=
  [ ⟨fundedRecord,
      "\x7b\"sequence\":1,\"timestamp\":\"1970-01-01T00:00:00Z\",\"command\":\x7b\"Balance\":\x7b\"user_id\":1,\"mint\":\"BTC\",\"delta\":\"1\"\x7d\x7d,\"outcome\":\x7b\"Applied\":null\x7d\x7d",
      "\x7b\"Applied\":null\x7d",
      [132, 85, 86, 58, 108, 101, 54, 121, 54, 146, 233, 171, 18, 35, 123, 71, 158, 8, 113, 22, 177, 22,
        113, 171, 196, 114, 170, 10, 32, 139, 120, 73]⟩,
    ⟨bidRecord,
      "\x7b\"sequence\":2,\"timestamp\":\"1970-01-01T00:00:00Z\",\"command\":\x7b\"Submit\":\x7b\"fee_rate\":\"0\",\"id\":1,\"user_id\":2,\"order_type\":\"buy\",\"order_side\":\"limit\",\"base_mint\":\"BTC\",\"quote_mint\":\"USDT\",\"price\":\"1\",\"amount\":\"0.5\",\"quote_amount\":null,\"filled_amount\":\"0\",\"remaining_amount\":\"0.5\",\"remaining_quote_amount\":null,\"created_at\":\"1970-01-01T00:00:00Z\"\x7d\x7d,\"outcome\":\x7b\"Applied\":\x7b\"Submitted\":\x7b\"order_id\":1,\"trades\":[],\"completion\":null\x7d\x7d\x7d\x7d",
      "\x7b\"Applied\":\x7b\"Submitted\":\x7b\"order_id\":1,\"trades\":[],\"completion\":null\x7d\x7d\x7d",
      [1, 4, 232, 118, 202, 25, 148, 43, 206, 68, 245, 26, 61, 224, 200, 44, 61, 143, 172, 254, 252, 47,
        143, 95, 103, 7, 102, 255, 83, 68, 247, 44]⟩,
    ⟨lowerRecord,
      "\x7b\"sequence\":3,\"timestamp\":\"1970-01-01T00:00:00Z\",\"command\":\x7b\"Submit\":\x7b\"fee_rate\":\"0\",\"id\":2,\"user_id\":2,\"order_type\":\"buy\",\"order_side\":\"limit\",\"base_mint\":\"BTC\",\"quote_mint\":\"USDT\",\"price\":\"0.9\",\"amount\":\"0.5\",\"quote_amount\":null,\"filled_amount\":\"0\",\"remaining_amount\":\"0.5\",\"remaining_quote_amount\":null,\"created_at\":\"1970-01-01T00:00:00Z\"\x7d\x7d,\"outcome\":\x7b\"Applied\":\x7b\"Submitted\":\x7b\"order_id\":2,\"trades\":[],\"completion\":null\x7d\x7d\x7d\x7d",
      "\x7b\"Applied\":\x7b\"Submitted\":\x7b\"order_id\":2,\"trades\":[],\"completion\":null\x7d\x7d\x7d",
      [106, 51, 59, 140, 217, 237, 78, 125, 9, 138, 81, 114, 253, 131, 97, 236, 80, 228, 65, 173, 103, 150,
        128, 253, 154, 171, 123, 178, 115, 177, 80, 127]⟩,
    ⟨crossingRecord,
      "\x7b\"sequence\":4,\"timestamp\":\"1970-01-01T00:00:00Z\",\"command\":\x7b\"Submit\":\x7b\"fee_rate\":\"0\",\"id\":3,\"user_id\":1,\"order_type\":\"sell\",\"order_side\":\"limit\",\"base_mint\":\"BTC\",\"quote_mint\":\"USDT\",\"price\":\"0.9\",\"amount\":\"0.8\",\"quote_amount\":null,\"filled_amount\":\"0\",\"remaining_amount\":\"0.8\",\"remaining_quote_amount\":null,\"created_at\":\"1970-01-01T00:00:00Z\"\x7d\x7d,\"outcome\":\x7b\"Applied\":\x7b\"Submitted\":\x7b\"order_id\":3,\"trades\":[\x7b\"trade\":\x7b\"buyer_fee_rate\":\"0\",\"seller_fee_rate\":\"0\",\"buy_order_id\":1,\"sell_order_id\":3,\"buyer_id\":2,\"seller_id\":1,\"price\":\"1\",\"amount\":\"0.5\",\"base_mint\":\"BTC\",\"quote_mint\":\"USDT\"\x7d,\"buyer_fee\":\"0\",\"seller_fee\":\"0\"\x7d,\x7b\"trade\":\x7b\"buyer_fee_rate\":\"0\",\"seller_fee_rate\":\"0\",\"buy_order_id\":2,\"sell_order_id\":3,\"buyer_id\":2,\"seller_id\":1,\"price\":\"0.9\",\"amount\":\"0.3\",\"base_mint\":\"BTC\",\"quote_mint\":\"USDT\"\x7d,\"buyer_fee\":\"0\",\"seller_fee\":\"0\"\x7d],\"completion\":null\x7d\x7d\x7d\x7d",
      "\x7b\"Applied\":\x7b\"Submitted\":\x7b\"order_id\":3,\"trades\":[\x7b\"trade\":\x7b\"buyer_fee_rate\":\"0\",\"seller_fee_rate\":\"0\",\"buy_order_id\":1,\"sell_order_id\":3,\"buyer_id\":2,\"seller_id\":1,\"price\":\"1\",\"amount\":\"0.5\",\"base_mint\":\"BTC\",\"quote_mint\":\"USDT\"\x7d,\"buyer_fee\":\"0\",\"seller_fee\":\"0\"\x7d,\x7b\"trade\":\x7b\"buyer_fee_rate\":\"0\",\"seller_fee_rate\":\"0\",\"buy_order_id\":2,\"sell_order_id\":3,\"buyer_id\":2,\"seller_id\":1,\"price\":\"0.9\",\"amount\":\"0.3\",\"base_mint\":\"BTC\",\"quote_mint\":\"USDT\"\x7d,\"buyer_fee\":\"0\",\"seller_fee\":\"0\"\x7d],\"completion\":null\x7d\x7d\x7d",
      [194, 162, 200, 34, 216, 40, 146, 169, 200, 120, 131, 139, 161, 12, 27, 47, 142, 12, 13, 156, 14, 141,
        53, 112, 150, 176, 186, 241, 206, 236, 36, 63]⟩]

/-- The encodings on them. -/
def crossingCodec : Codec String := Store.tableCodec crossingRows

/-- The texts of the two trades. -/
def crossingText (event : FinancialEvent) : String :=
  if event.eventId = "00000000-0000-4000-8000-000000000001:4:0" then
    "\x7b\"event_id\":\"00000000-0000-4000-8000-000000000001:4:0\",\"engine_id\":\"00000000-0000-4000-8000-000000000001\",\"event_type\":\"trade_executed\",\"buy_order_id\":1,\"sell_order_id\":3,\"buyer_id\":2,\"seller_id\":1,\"price\":\"1\",\"amount\":\"0.5\",\"base_mint\":\"BTC\",\"quote_mint\":\"USDT\",\"timestamp\":\"1970-01-01T00:00:00Z\",\"buyer_fee_rate\":\"0\",\"seller_fee_rate\":\"0\",\"buyer_fee\":\"0\",\"seller_fee\":\"0\"\x7d"
  else "\x7b\"event_id\":\"00000000-0000-4000-8000-000000000001:4:1\",\"engine_id\":\"00000000-0000-4000-8000-000000000001\",\"event_type\":\"trade_executed\",\"buy_order_id\":2,\"sell_order_id\":3,\"buyer_id\":2,\"seller_id\":1,\"price\":\"0.9\",\"amount\":\"0.3\",\"base_mint\":\"BTC\",\"quote_mint\":\"USDT\",\"timestamp\":\"1970-01-01T00:00:00Z\",\"buyer_fee_rate\":\"0\",\"seller_fee_rate\":\"0\",\"buyer_fee\":\"0\",\"seller_fee\":\"0\"\x7d"

def crossingJson (event : FinancialEvent) : Except String String := .ok (crossingText event)

def crossingGroup : List Pending :=
  [⟨some fundedRecord.command, fundedRecord.outcome, .unit 0⟩,
    ⟨some bidRecord.command, bidRecord.outcome, .submit 1⟩,
    ⟨some lowerRecord.command, lowerRecord.outcome, .submit 2⟩,
    ⟨some crossingRecord.command, crossingRecord.outcome, .submit 3⟩]

/-- The text of the genesis. -/
def crossingGenesis : String :=
  crossingCodec.genesisText ⟨4, Store.sampleGenesis.engineId, Store.sampleCache.journalSeed⟩

/-- The journal before these records. -/
def crossingStart : Store :=
  { Store.fresh with genesis := some ⟨crossingGenesis, crossingCodec.digest crossingGenesis⟩ }

/-- The journal with them, the first `delivered` of which are delivered. -/
def crossingStore (delivered : ℤ) : Store :=
  { Store.written crossingCodec crossingStart crossingGroup 0 with delivery := some delivered }

def crossingRecords : List Record := [fundedRecord, bidRecord, lowerRecord, crossingRecord]

theorem append_crossingStore :
    crossingStart.append crossingCodec (fun _ => 0) crossingGroup 0 = .ok (crossingStore 0, 4) ∧
      (crossingStore 0).records.entries = crossingRecords.map (Store.rowOf crossingCodec) := by
  obtain ⟨happend, hentries, -, hdelivery⟩ := @Store.append_first crossingCodec crossingStart
    crossingGroup rfl (by decide)
  have hcursor : (Store.written crossingCodec crossingStart crossingGroup 0).delivery = some 0 :=
    hdelivery
  have hstore : Store.written crossingCodec crossingStart crossingGroup 0 = crossingStore 0 := by
    rw [crossingStore, ← hcursor]
  rw [hstore] at happend hentries
  exact ⟨happend, hentries⟩

theorem entries_crossingStore (delivered : ℤ) :
    (crossingStore delivered).records.entries = crossingRecords.map (Store.rowOf crossingCodec) :=
  append_crossingStore.2

theorem legible_crossing {record : Record} (h : record ∈ crossingRecords) :
    crossingCodec.parseRecord (crossingCodec.recordText record) = some record :=
  Store.legible_tableCodec (by decide +kernel : Store.Distinct crossingRows) h rfl

theorem read_crossingStore {delivered : ℤ} {record : Record} (h : record ∈ crossingRecords) :
    (crossingStore delivered).read crossingCodec record.sequence = .ok record :=
  Store.read_of_mem (entries_crossingStore delivered ▸ List.mem_map_of_mem h)
    ((by decide : ∀ record ∈ crossingRecords, record.sequence ≤ maxI64.toNat) record h)
    (legible_crossing h)

/-- A start of the process finds the records. -/
theorem recover_crossingStore (delivered : ℕ) (hle : delivered ≤ 4) : ∃ state,
    (crossingStore delivered).recover crossingCodec = .ok (state, Store.sampleGenesis.engineId) := by
  obtain ⟨state, hrun⟩ := @Journal.run_of_outcomes _
    (EngineState.inv_genesis (Store.valid_of_admissible Store.admissible_sample))
    (crossingRecords.map fun record => (record.command, record.outcome)) (by decide +kernel)
  have hrecords : Store.recordsOf (fun _ => 0) 0
      (crossingRecords.map fun record => (record.command, record.outcome)) = crossingRecords := rfl
  exact ⟨state, Store.recover_of_run (fun _ => 0) delivered Store.admissible_sample rfl
    Store.isUuid_sample Store.parseGenesis_sample (by rw [entries_crossingStore, hrecords])
    (by rw [hrecords]; exact fun _ => legible_crossing) hrun rfl hle⟩

/-- And one before them only the genesis. -/
theorem recover_crossingStart : crossingStart.recover crossingCodec =
    .ok (.genesis Store.sampleCache, Store.sampleGenesis.engineId) :=
  Store.recover_genesis Store.admissible_sample rfl Store.isUuid_sample Store.parseGenesis_sample rfl rfl

/-- The market after a record. -/
def crossingMarket (record : Record) (market : Market.Projection) : Market.Projection :=
  ((Market.Projection.apply record Store.sampleGenesis.engineId).run market).2

theorem applied_crossing {record : Record} {market : Market.Projection} {event : Option MarketSnapshot}
    (h : ((Market.Projection.apply record Store.sampleGenesis.engineId).run market).1.toOption =
      some event) :
    (Market.Projection.apply record Store.sampleGenesis.engineId).run market =
      (.ok event, crossingMarket record market) := by
  rw [crossingMarket]
  rcases hrun : (Market.Projection.apply record Store.sampleGenesis.engineId).run market with
    ⟨fault | other, next⟩
  · rw [hrun] at h
    cases h
  · rw [hrun] at h
    rw [← Option.some.inj h]

/-- The markets while the records are taken. -/
def fundedMarket : Market.Projection := crossingMarket fundedRecord .new

def bidMarket : Market.Projection := crossingMarket bidRecord fundedMarket

def lowerMarket : Market.Projection := crossingMarket lowerRecord bidMarket

def marketOf (sequence previousSequence : String) (bids : List (String × String))
    (trades : List MarketTrade) : MarketSnapshot :=
  { eventType := "market_snapshot"
    eventId := Store.sampleGenesis.engineId ++ ":" ++ sequence ++ ":market"
    engineId := Store.sampleGenesis.engineId
    sequence, previousSequence
    baseMint := "BTC"
    quoteMint := "USDT"
    timestamp := 0
    bids
    asks := []
    trades }

def bidSnapshot : MarketSnapshot := marketOf "2" "0" [("1", "0.5")] []

def lowerSnapshot : MarketSnapshot := marketOf "3" "2" [("1", "0.5"), ("0.9", "0.5")] []

def crossingSnapshot : MarketSnapshot :=
  marketOf "4" "3" [("0.9", "0.2")]
    [⟨Store.sampleGenesis.engineId ++ ":4:0", "1", "0.5", "sell"⟩,
      ⟨Store.sampleGenesis.engineId ++ ":4:1", "0.9", "0.3", "sell"⟩]

/-- The worker of the engine. -/
abbrev crossingLocals (startupEnd : ℕ) (ready : Bool) (cursor : ℕ) (market : Market.Projection) : Locals :=
  ⟨Store.sampleGenesis.engineId, startupEnd, ready, cursor, market⟩

/-- The shared state between the workers. -/
abbrev crossingShared (store : Store) (sequence durable startup : ℕ) (signalled : Bool)
    (sent : List Sent) (sentMarket : List SentMarket) : Shared :=
  ⟨store, sequence, durable, false, startup, signalled, sent, sentMarket⟩

/-- The journal before the first start. -/
def crossingWorld : World := ⟨crossingShared crossingStart 0 0 0 false [] [], .down⟩

/-- The events of the crossing sell. -/
def crossingEvents : List FinancialEvent := crossingRecord.events Store.sampleGenesis.engineId

/-- What the market makes of the records. -/
theorem applied_records :
    (Market.Projection.apply fundedRecord Store.sampleGenesis.engineId).run .new =
        (.ok none, fundedMarket) ∧
      (Market.Projection.apply bidRecord Store.sampleGenesis.engineId).run fundedMarket =
        (.ok (some bidSnapshot), bidMarket) ∧
      (Market.Projection.apply lowerRecord Store.sampleGenesis.engineId).run bidMarket =
        (.ok (some lowerSnapshot), lowerMarket) ∧
      (Market.Projection.apply crossingRecord Store.sampleGenesis.engineId).run lowerMarket =
        (.ok (some crossingSnapshot), crossingMarket crossingRecord lowerMarket) :=
  ⟨rfl, applied_crossing (by decide +kernel), applied_crossing (by decide +kernel),
    applied_crossing (by decide +kernel)⟩

/-- The market is announced as it was published last. -/
theorem mem_latest (snapshot : MarketSnapshot) : snapshot ∈ [lowerSnapshot] ↔
    ∃ pair, lowerMarket.latest.lookup pair = some snapshot := by
  have hkeys : lowerMarket.latest.keys = {⟨"BTC", "USDT"⟩} := by decide +kernel
  have hlookup : lowerMarket.latest.lookup ⟨"BTC", "USDT"⟩ = some lowerSnapshot := by decide +kernel
  rw [List.mem_singleton]
  constructor
  · rintro rfl
    exact ⟨_, hlookup⟩
  · rintro ⟨pair, hpair⟩
    have hmem : pair ∈ lowerMarket.latest.keys := Finmap.mem_keys.mpr (Finmap.mem_of_lookup_eq_some hpair)
    rw [hkeys, Finset.mem_singleton] at hmem
    subst hmem
    exact Option.some.inj (hpair.symm.trans hlookup)

/-- The first process delivers three records. -/
theorem crossing_delivered : Reachable crossingCodec crossingJson crossingWorld
    ⟨crossingShared (crossingStore 3) 4 4 0 true []
      [⟨bidSnapshot, true⟩, ⟨lowerSnapshot, true⟩],
      .running (crossingLocals 0 false 3 lowerMarket) .looping⟩ := by
  obtain ⟨hfunded, hbid, hlower, -⟩ := applied_records
  have hsilent : ∀ snapshot : MarketSnapshot, snapshot ∈ ([] : List MarketSnapshot) ↔
      ∃ pair, Market.Projection.new.latest.lookup pair = some snapshot := by
    intro snapshot
    simp [Market.Projection.new]
  have hread : ∀ {delivered : ℤ}, ∀ record ∈ crossingRecords, (crossingStore delivered).read
      crossingCodec record.sequence = .ok record := fun _ => read_crossingStore
  let R := Reachable crossingCodec crossingJson crossingWorld
  -- the process starts, and the records are committed
  have h1 : R ⟨crossingShared crossingStart 0 0 0 false [] [],
      .running (crossingLocals 0 true 0 .new) .opening⟩ := .step .start (.boot rfl recover_crossingStart rfl)
  have h2 := h1.step (.opened rfl rfl)
  have h3 := h2.step (.rebuilt rfl Nat.zero_lt_one hsilent)
  have h4 := (h3.step (.ready rfl)).step (.signal rfl le_rfl)
  have h5 := (h4.step (.commit rfl rfl rfl append_crossingStore.1)).step (.publish rfl rfl)
  -- the three records are delivered one after the other
  have h6 := (h5.step (.pending rfl (by decide : 0 < 4))).step (.fetched rfl
    (hread fundedRecord (by decide)))
  have h7 := @Reachable.publishes _ _ _ _ _ _ _ _ _ _ _ h6 hfunded
    (rfl : (crossingStore 0).markDelivered 1 = .ok (crossingStore 1))
  have h8 := h7.step (.signal rfl (Nat.zero_le _))
  have h9 := (h8.step (.pending rfl (by decide : 1 < 4))).step (.fetched rfl
    (hread bidRecord (by decide)))
  have h10 := @Reachable.publishes _ _ _ _ _ _ _ _ _ _ _ h9 hbid
    (rfl : (crossingStore 1).markDelivered 2 = .ok (crossingStore 2))
  have h11 := h10.step (.signal rfl (Nat.zero_le _))
  have h12 := (h11.step (.pending rfl (by decide : 2 < 4))).step (.fetched rfl
    (hread lowerRecord (by decide)))
  exact @Reachable.publishes _ _ _ _ _ _ _ _ _ _ _ h12 hlower
    (rfl : (crossingStore 2).markDelivered 3 = .ok (crossingStore 3))

/-- What the first process has sent of the last record: it was not told that the second trade was
received. -/
def crossingLost : List Sent :=
  (crossingEvents.zip [true, false]).map fun m => ⟨m.1, crossingText m.1, m.2⟩

/-- What the next process sends of it. -/
def crossingAgain : List Sent := crossingEvents.map fun event => ⟨event, crossingText event, true⟩

/-- The next process has taken the delivered records into its market, and announces it. -/
theorem crossing_restarted : Reachable crossingCodec crossingJson crossingWorld
    ⟨crossingShared (crossingStore 3) 4 4 4 false crossingLost
      [⟨bidSnapshot, true⟩, ⟨lowerSnapshot, true⟩],
      .running (crossingLocals 4 true 3 lowerMarket) (.announcing [lowerSnapshot])⟩ := by
  obtain ⟨state, hrecover⟩ := recover_crossingStore 3 (by decide)
  obtain ⟨hfunded, hbid, hlower, -⟩ := applied_records
  have hread : ∀ record ∈ crossingRecords, (crossingStore 3).read crossingCodec record.sequence =
      .ok record := fun _ => read_crossingStore
  let R := Reachable crossingCodec crossingJson crossingWorld
  let published : List SentMarket := [⟨bidSnapshot, true⟩, ⟨lowerSnapshot, true⟩]
  have hlast : (crossingStore 3).lastSequence = .ok 4 :=
    Store.lastSequence_of_keys (by rw [entries_crossingStore]; rfl)
  -- the second event is received, and the worker fails
  have h1 := crossing_delivered.step (.signal rfl (Nat.zero_le _))
  have h2 := (h1.step (.pending rfl (Nat.lt_succ_self 3))).step (.fetched rfl
    (hread crossingRecord (by decide)))
  have h3 := h2.step (@Step.delivered _ _ _ _ _ _ _ _ _ _ true rfl rfl)
  have h4 : R ⟨crossingShared (crossingStore 3) 4 4 0 true crossingLost published,
      .running (crossingLocals 0 false 3 lowerMarket) .failed⟩ :=
    h3.step (@Step.delivered _ _ _ _ _ _ _ _ _ _ false rfl rfl)
  -- the next process reads the three records
  have h5 : R ⟨crossingShared (crossingStore 3) 4 4 4 false crossingLost published,
      .running (crossingLocals 4 true 0 .new) .opening⟩ :=
    (h4.step .crash).step (.boot rfl hrecover hlast)
  have h6 := h5.step (.opened rfl (rfl : (crossingStore 3).delivered = .ok 3))
  have h7 := h6.step (.replayed rfl (by decide : 1 ≤ 3)
    (hread fundedRecord (by decide)) hfunded)
  have h8 := h7.step (.replayed rfl (by decide : 2 ≤ 3)
    (hread bidRecord (by decide)) hbid)
  have h9 := h8.step (.replayed rfl (by decide : 3 ≤ 3)
    (hread lowerRecord (by decide)) hlower)
  exact h9.step (.rebuilt rfl (Nat.lt_succ_self 3) mem_latest)

/-- **Both trades are sent again**, and the cursor is moved. -/
theorem crossing_resent : Reachable crossingCodec crossingJson crossingWorld
    ⟨crossingShared (crossingStore 4) 4 4 4 true (crossingLost ++ crossingAgain)
      [⟨bidSnapshot, true⟩, ⟨lowerSnapshot, true⟩, ⟨lowerSnapshot, true⟩, ⟨crossingSnapshot, true⟩],
      .running (crossingLocals 4 false 4 (crossingMarket crossingRecord lowerMarket)) .polling⟩ := by
  let published : List SentMarket :=
    [⟨bidSnapshot, true⟩, ⟨lowerSnapshot, true⟩, ⟨lowerSnapshot, true⟩]
  have h1 := crossing_restarted.step (@Step.announced _ _ _ _ _ _ _ _ true rfl)
  have h2 := (h1.step (.ready rfl)).step (.wait rfl (Nat.lt_succ_self 3))
  have h3 : Reachable crossingCodec crossingJson crossingWorld
      ⟨crossingShared (crossingStore 3) 4 4 4 false crossingLost published,
        .running (crossingLocals 4 true 3 lowerMarket) (.sending crossingRecord crossingEvents)⟩ :=
    (h2.step (.pending rfl (Nat.lt_succ_self 3))).step (.fetched rfl
      (@read_crossingStore 3 crossingRecord (by decide)))
  have h4 := @Reachable.sends _ _ _ _ _ _ _ _ crossingText _ h3 fun _ _ => rfl
  have h5 := @Reachable.publishes _ _ _ _ _ _ _ _ _ _ _ h4 applied_records.2.2.2
    (rfl : (crossingStore 3).markDelivered 4 = .ok (crossingStore 4))
  have h6 := h5.step (.signal rfl le_rfl)
  exact h6

/-- A sell crosses two bids, and the process that delivers its trades crashes between them. -/
theorem ordered_at_least_once_crossing : ∃ w, Reachable crossingCodec crossingJson crossingWorld w ∧
    w.sent = crossingLost ++ crossingAgain ∧
    w.sentMarket.map SentMarket.snapshot =
      [bidSnapshot, lowerSnapshot, lowerSnapshot, crossingSnapshot] ∧
    w.store.delivery = some 4 ∧ w.signalled = true ∧
    Ordered crossingCodec crossingJson Store.sampleGenesis.engineId w := by
  have initial : crossingWorld.Initial := ⟨rfl, rfl, ⟨rfl, rfl⟩, ⟨rfl, rfl, rfl⟩, rfl⟩
  have hengine : engineOf crossingCodec crossingWorld.store = Store.sampleGenesis.engineId :=
    engineOf_of_recover recover_crossingStart
  exact ⟨_, crossing_resent, rfl, rfl, rfl, rfl,
    hengine ▸ ordered_at_least_once crossingCodec crossingJson initial crossing_resent⟩

end Delivery

end CexEngine
