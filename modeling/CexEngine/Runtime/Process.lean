import CexEngine.Runtime.Delivery
import CexEngine.Runtime.Shutdown

/-!
# A whole process and its stop

`halt` of `engine.rs` joins three workers: the core and the journal worker, which are those of
`Pipeline`, and the output worker, which is that of `Delivery`.  Each of the two was followed with
what it needs of the other: `Pipeline` lets anybody move the delivery cursor, and `Delivery` lets a
journal worker of its own append records.  Here they run together, on the tables and counters of one
process, and a run of the process is a run of both (`ProcessReachable.parts`).

For `Pipeline` a step of the output worker is one that moves the cursor to a durable record, or none.
For `Delivery` a step of the engine is one of its journal worker, or none.  There is one exception.
A commit may return an error although its records are on the disk; then the journal worker ends with
records that are not known to be durable, and the output worker may return without them, which that of
`Delivery` does not.  So it is shown a journal worker that has not ended (`unended`), for which it
waits, until the process is started again.

* `Stopped`: everything that was executed is on the disk, answered and delivered, every event and
  every market snapshot of every record having been acknowledged.
* `graceful_stop`: so it is whenever `halt` succeeds, after any execution.
-/

namespace CexEngine

open Foundation Amount

namespace Pipeline

/-! ## The workers of a process -/

/-- The core and the journal worker with their clients, the output worker and the broker. -/
structure Process where
  engine : World
  output : Delivery.Worker
  startup : ℕ
  signalled : Bool
  sent : List Delivery.Sent
  sentMarket : List Delivery.SentMarket

namespace Process

/-- What the output worker sees. -/
def view (p : Process) : Delivery.World where
  store := p.engine.store
  sequence := p.engine.store.records.entries.length
  durable := p.engine.durable
  journalDone := p.engine.journalDone
  startup := p.startup
  signalled := p.signalled
  sent := p.sent
  sentMarket := p.sentMarket
  worker := p.output

/-- `delivered` of `Progress`: the output worker sets it whenever it sets its cursor. -/
def delivered (p : Process) : ℕ :=
  match p.output with
  | .running locals _ => locals.cursor
  | .down => 0

/-- A journal without records, and a broker that has received nothing. -/
structure Initial {Json : Type} (codec : Codec Json) (cache : BalanceCache) (engineId : String)
    (p : Process) : Prop where
  engine : p.engine.Initial codec cache engineId
  output : p.output = .down
  silent : p.sent = [] ∧ p.sentMarket = [] ∧ p.signalled = false

end Process

section Step

variable {Json : Type} [DecidableEq Json] (codec : Codec Json)
  (toJson : FinancialEvent → Except String String)

/-- One step of a process.  The cursor of the tables is moved by the output worker alone, and all
else of the engine by the others.  `start` spawns the core and the journal worker when the output
worker is ready; here they may work before that. -/
inductive ProcessStep : Process → Process → Prop
  | boot {p : Process} {state : EngineState} {engineId : String} {last : ℕ}
      (down : p.engine.core = .down ∧ p.engine.worker = .down ∧ p.output = .down)
      (recovered : p.engine.store.recover codec = .ok (state, engineId))
      (sequence : p.engine.store.lastSequence = .ok last) :
      ProcessStep p { p with
        engine := p.engine.booted state last
        output := .running ⟨engineId, last, true, 0, Market.Projection.new⟩ .opening
        startup := last, signalled := false }
  | crash {p : Process} : ProcessStep p { p with
      engine := { p.engine with
        orders := [], balances := [], core := .down, queue := [], worker := .down }
      output := .down }
  /-- The clients, the core and the journal worker. -/
  | engine {p : Process} {engine : World} (step : Step codec p.engine engine)
      (up : p.engine.core ≠ .down ∧ engine.core ≠ .down ∧ p.output ≠ .down)
      (cursor : engine.store.delivery = p.engine.store.delivery) : ProcessStep p { p with engine }
  /-- The output worker. -/
  | output {p p' : Process} (step : Delivery.Step codec toJson p.view p'.view)
      (up : p.engine.core ≠ .down ∧ p.output ≠ .down ∧ p'.output ≠ .down)
      (engine : p'.engine = { p.engine with store := p'.engine.store })
      (records : p'.engine.store.records = p.engine.store.records) : ProcessStep p p'

/-- The states of all executions from a process. -/
inductive ProcessReachable (start : Process) : Process → Prop
  | start : ProcessReachable start start
  | step {p p' : Process} (reached : ProcessReachable start p) (step : ProcessStep codec toJson p p') :
      ProcessReachable start p'

end Step

/-! ## The output worker while the journal worker has failed -/

/-- The output worker, as far as it has gone without knowing that the journal worker has ended. -/
def unaware : Delivery.Worker → Delivery.Worker
  | .running locals .comparing => .running locals .exiting
  | .running locals .returned => .running locals .failed
  | worker => worker

/-- A commit may write its records and fail, and then they are not known to be durable.  `Delivery`
has a journal worker that ends when its records are: that of this world has not ended. -/
def unended (d : Delivery.World) : Delivery.World :=
  { d with journalDone := false, worker := unaware d.worker }

section Unended

variable {Json : Type} [DecidableEq Json] {codec : Codec Json}
  {toJson : FinancialEvent → Except String String}

theorem exists_unaware {worker : Delivery.Worker} {locals : Delivery.Locals} {phase : Delivery.Phase}
    (h : worker = .running locals phase) : ∃ phase', unaware worker = .running locals phase' ∧
      (phase ≠ .returned → phase' ≠ .returned) := by
  subst h
  cases phase with
  | comparing => exact ⟨_, rfl, fun _ heq => by cases heq⟩
  | returned => exact ⟨_, rfl, fun hne => absurd rfl hne⟩
  | _ => exact ⟨_, rfl, id⟩

/-- **The output worker does the same**, or waits. -/
theorem unended_step {d d' : Delivery.World} (step : Delivery.Step codec toJson d d')
    (up : d.worker ≠ .down ∧ d'.worker ≠ .down) :
    unended d' = unended d ∨ Delivery.Step codec toJson (unended d) (unended d') := by
  cases step with
  | boot down => exact absurd down up.1
  | crash => exact absurd rfl up.2
  | commit here working published appended =>
    obtain ⟨phase', here', -⟩ := exists_unaware here
    exact .inr (.commit here' rfl published appended)
  | publish here working =>
    obtain ⟨phase', here', -⟩ := exists_unaware here
    exact .inr (.publish here' rfl)
  | finish here published => exact .inl rfl
  | fail here running =>
    obtain ⟨phase', here', hne⟩ := exists_unaware here
    exact .inr (.fail here' (hne running))
  | closing here done =>
    refine .inl ?_
    rw [unended, unended, here]
    rfl
  | unfinished here working => exact .inr (.unfinished (congrArg unaware here) rfl)
  | @returned locals here equal =>
    have hexiting : (unended d).worker = .running locals .exiting := congrArg unaware here
    exact .inr (.fail hexiting (by intro heq; cases heq))
  | resumed here unequal => exact .inr (.unfinished (congrArg unaware here) rfl)
  | opened here read => exact .inr (.opened (congrArg unaware here) read)
  | replayed here more read applied =>
    exact .inr (.replayed (congrArg unaware here) more read applied)
  | rebuilt here done latest => exact .inr (.rebuilt (congrArg unaware here) done latest)
  | @announced locals snapshot snapshots acked here =>
    cases acked <;> exact .inr (.announced (congrArg unaware here))
  | ready here => exact .inr (.ready (congrArg unaware here))
  | signal here reached => exact .inr (.signal (congrArg unaware here) reached)
  | wait here behind => exact .inr (.wait (congrArg unaware here) behind)
  | pending here more => exact .inr (.pending (congrArg unaware here) more)
  | drained here none => exact .inr (.drained (congrArg unaware here) none)
  | fetched here read => exact .inr (.fetched (congrArg unaware here) read)
  | @delivered locals record event events payload acked here encoded =>
    cases acked <;> exact .inr (.delivered (congrArg unaware here) encoded)
  | @applied locals record event market here applied =>
    cases event <;> exact .inr (.applied (congrArg unaware here) applied)
  | @published locals record snapshot acked here =>
    cases acked <;> exact .inr (.published (congrArg unaware here))
  | @marked locals record store ok here marked =>
    have hmarking : (unended d).worker = .running locals (.marking record) := congrArg unaware here
    cases ok with
    | true => exact .inr (@Delivery.Step.marked _ _ _ _ _ locals record store true hmarking marked)
    | false => exact .inr (@Delivery.Step.marked _ _ _ _ _ locals record store false hmarking marked)

end Unended

/-! ## The parts of a process -/

/-- The journal worker has failed, or is gone. -/
def Worker.lost : Worker → Prop
  | .down | .failed _ => True
  | _ => False

/-- The journal worker has ended. -/
def Worker.ends : Worker → Bool
  | .failed _ | .ended => true
  | _ => false

section Parts

variable {Json : Type} [DecidableEq Json] {codec : Codec Json}
  {toJson : FinancialEvent → Except String String} {cache : BalanceCache} {engineId : String}
  {w w' : World} {p p' : Process}

/-- The journal worker says when it has ended. -/
theorem Step.done (step : Step codec w w')
    (h : w.worker ≠ .down → w.journalDone = w.worker.ends) :
    w'.worker ≠ .down → w'.journalDone = w'.worker.ends := by
  cases step with
  | crash => exact fun hup => absurd rfl hup
  | boot | drained | failed => exact fun _ => rfl
  | started here | startFailed here | first here | grouped here | gathered here | committed here
  | commitFailed here | commitLost here | progressed here | answered here | again here =>
    intro _
    rw [here] at h
    exact h (by intro hdown; cases hdown)
  | _ => exact h

theorem Reachable.done {start : World} (hstart : start.worker = .down) (h : Reachable codec start w) :
    w.worker ≠ .down → w.journalDone = w.worker.ends := by
  induction h with
  | start => exact fun hup => absurd hstart hup
  | step _ step ih => exact step.done ih

omit [DecidableEq Json] in
/-- The worker's own count is the number of records. -/
theorem Inv.sequence_eq (h : Inv codec cache engineId w) (hcounts : w.worker.counts = true) :
    w.sequence = w.store.records.entries.length := by
  obtain ⟨D, hD⟩ := h
  have hlength : w.store.records.entries.length = D.length := hD.length_entries
  rw [hlength]
  refine hD.sequence _ ?_
  rw [World.trail, hcounts]
  rfl

/-- What the output worker is told of: the engine as it is, or as if the journal worker had not
ended. -/
def Shown (codec : Codec Json) (toJson : FinancialEvent → Except String String)
    (start : Delivery.World) (p : Process) : Prop :=
  Delivery.Reachable codec toJson start p.view ∨
    p.engine.worker.lost ∧ Delivery.Reachable codec toJson start (unended p.view)

omit [DecidableEq Json] in
theorem unended_eq {d : Delivery.World} (h : Delivery.Inv codec toJson engineId d)
    (hdone : d.journalDone = false) : unended d = d := by
  obtain ⟨known, reach, cursor, snaps, market, -, hworker⟩ := h
  have hsame : unaware d.worker = d.worker := by
    cases hd : d.worker with
    | down => rfl
    | running locals phase =>
      rw [hd] at hworker
      obtain ⟨-, -, hphase⟩ := hworker
      cases phase with
      | comparing => exact absurd (hdone.symm.trans hphase.2.2) Bool.false_ne_true
      | returned => exact absurd (hdone.symm.trans hphase.1) Bool.false_ne_true
      | _ => rfl
  rw [unended, hsame, ← hdone]

/-- The engine goes on, and the output worker sees a step of the journal worker, or nothing. -/
theorem Shown.engine {start : Delivery.World} {engine : World} (h : Shown codec toJson start p)
    (hinv : Inv codec cache engineId p.engine) (hcurrent : Current p.engine)
    (hdone : p.engine.worker ≠ .down → p.engine.journalDone = p.engine.worker.ends)
    (hdelivery : ∀ {d : Delivery.World}, Delivery.Reachable codec toJson start d →
      Delivery.Inv codec toJson engineId d)
    (step : Step codec p.engine engine)
    (up : p.engine.core ≠ .down ∧ engine.core ≠ .down ∧ p.output ≠ .down)
    (cursor : engine.store.delivery = p.engine.store.delivery) :
    Shown codec toJson start { p with engine } := by
  obtain ⟨locals, phase, hrunning⟩ : ∃ locals phase, p.view.worker = .running locals phase := by
    cases houtput : p.output with
    | down => exact absurd houtput up.2.2
    | running locals phase => exact ⟨locals, phase, houtput⟩
  have hcommitting : ∀ {group}, p.engine.worker = .committing group → p.engine.journalDone = false := by
    intro group here
    rw [here] at hdone
    exact hdone (by intro hdown; cases hdown)
  rcases h with h | ⟨hlost, h⟩
  · cases step with
    | boot down => exact absurd down.1 up.1
    | crash => exact absurd rfl up.2.1
    | marked alive behind marked =>
      obtain ⟨hpos, hbefore, heq⟩ := Store.markDelivered_ok marked
      rw [heq, hbefore] at cursor
      have hsame := Option.some.inj cursor
      omega
    | @committed group clock store last here appended | @commitLost group clock store last here appended =>
      have hlast : last = store.records.entries.length :=
        (hinv.append here appended).sequence_eq rfl
      subst hlast
      rw [hinv.sequence_eq (by rw [here]; rfl)] at appended
      exact .inl (.step h (.commit hrunning (hcommitting here) (hcurrent (by rw [here]; rfl)) appended))
    | @progressed group here =>
      have hview : Process.view { p with engine := { p.engine with
            durable := p.engine.sequence, worker := .answering group } } =
          { p.view with durable := p.view.sequence } := by
        rw [Process.view, hinv.sequence_eq (by rw [here]; rfl)]
        rfl
      refine .inl ?_
      rw [hview]
      rw [here] at hdone
      exact .step h (.publish hrunning (hdone (by intro hdown; cases hdown)))
    | drained here empty ended =>
      exact .inl (.step h (.finish hrunning (hcurrent (by rw [here]; rfl))))
    | failed here =>
      refine .inr ⟨trivial, ?_⟩
      rw [here] at hdone
      rw [← unended_eq (hdelivery h) (hdone (by intro hdown; cases hdown))] at h
      exact h
    | _ => exact .inl h
  · refine .inr ?_
    cases step with
    | boot down => exact absurd down.1 up.1
    | crash => exact absurd rfl up.2.1
    | marked alive behind marked =>
      obtain ⟨hpos, hbefore, heq⟩ := Store.markDelivered_ok marked
      rw [heq, hbefore] at cursor
      have hsame := Option.some.inj cursor
      omega
    | started here | startFailed here | first here | grouped here | gathered here | committed here
    | commitFailed here | commitLost here | progressed here | answered here | again here
    | drained here | failed here =>
      rw [here] at hlost
      exact hlost.elim
    | _ => exact ⟨hlost, h⟩

/-- The output worker leaves the tables as they are, or moves the cursor to a durable record. -/
theorem delivery_tables {d d' : Delivery.World} (step : Delivery.Step codec toJson d d')
    (hinv : Delivery.Inv codec toJson engineId d) (hrecords : d'.store.records = d.store.records) :
    d'.store = d.store ∨ ∃ n ≤ d.durable, d.store.markDelivered n = .ok d'.store := by
  obtain ⟨known, reach, cursor, snaps, market, core, hworker⟩ := hinv
  cases step with
  | @commit clock group store sequence locals phase here working published appended =>
    obtain ⟨-, -, -, hgenesis, hdelivery⟩ := Store.append_ok appended
      (Store.le_of_lastSequence (Store.lastSequence_of_keys core.keys))
    refine .inl ?_
    change store = d.store
    change store.records = d.store.records at hrecords
    obtain ⟨genesis, records, delivery⟩ := store
    obtain rfl : genesis = _ := hgenesis
    obtain rfl : delivery = _ := hdelivery
    obtain rfl : records = _ := hrecords
    rfl
  | @marked locals record store ok here marked =>
    rw [here] at hworker
    obtain ⟨-, -, -, next, -⟩ := hworker
    refine .inr ⟨record.sequence, ?_, marked⟩
    rw [core.reads.sequence next.next]
    have hlt := (List.getElem?_eq_some_iff.mp next.next).1
    have hbounds := core.bounds.2
    omega
  | _ => exact .inl rfl

/-- The output worker goes on, and the engine sees the cursor move, or nothing. -/
theorem Shown.output {start : Delivery.World} (h : Shown codec toJson start p)
    (hdelivery : ∀ {d : Delivery.World}, Delivery.Reachable codec toJson start d →
      Delivery.Inv codec toJson engineId d)
    (step : Delivery.Step codec toJson p.view p'.view)
    (up : p.engine.core ≠ .down ∧ p.output ≠ .down ∧ p'.output ≠ .down)
    (engine : p'.engine = { p.engine with store := p'.engine.store })
    (records : p'.engine.store.records = p.engine.store.records) :
    Shown codec toJson start p' ∧ (p'.engine = p.engine ∨ Step codec p.engine p'.engine) := by
  have hengine : (p'.engine.store = p.engine.store ∨
      ∃ n ≤ p.engine.durable, p.engine.store.markDelivered n = .ok p'.engine.store) →
      p'.engine = p.engine ∨ Step codec p.engine p'.engine := by
    rintro (hstore | ⟨n, hn, hmarked⟩)
    · rw [engine, hstore]
      exact .inl rfl
    · rw [engine]
      exact .inr (.marked up.1 hn hmarked)
  rcases h with h | ⟨hlost, h⟩
  · exact ⟨.inl (.step h step), hengine (delivery_tables step (hdelivery h) records)⟩
  · have hlost' : p'.engine.worker.lost := by
      rw [engine]
      exact hlost
    rcases unended_step step up.2 with hsame | hstep
    · refine ⟨.inr ⟨hlost', hsame ▸ h⟩, hengine (.inl ?_)⟩
      exact congrArg (fun d : Delivery.World => d.store) hsame
    · exact ⟨.inr ⟨hlost', .step h hstep⟩, hengine (delivery_tables hstep (hdelivery h) records)⟩

omit [DecidableEq Json] in
theorem Process.Initial.view (h : p.Initial codec cache engineId) : p.view.Initial := by
  obtain ⟨⟨hgenesis, -, -, -, -, hdurable⟩, houtput, hsent, hmarket, hsignalled⟩ := h
  have hstore : { Store.fresh with genesis := some (Trail.genesisRow codec cache engineId) } =
      p.engine.store := Except.ok.inj hgenesis
  refine ⟨?_, ?_, ⟨?_, hdurable⟩, ⟨hsent, hmarket, hsignalled⟩, houtput⟩
  · show p.engine.store.records = _
    rw [← hstore]
    rfl
  · show p.engine.store.delivery = _
    rw [← hstore]
    rfl
  · show p.engine.store.records.entries.length = 0
    rw [← hstore]
    rfl

theorem ProcessStep.legible (step : ProcessStep codec toJson p p')
    (h : Legible codec p'.engine.store) : Legible codec p.engine.store := by
  cases step with
  | boot | crash => exact h
  | engine step => exact step.legible h
  | output step up engine records =>
    rw [Legible, records] at h
    exact h

variable (hcache : ∀ account b, cache.balances.lookup account = some b → Startup.Admissible account b)
  (hid : codec.isUuid engineId = true)
  (hgenesis : codec.parseGenesis (codec.genesisText ⟨4, engineId, cache.journalSeed⟩) =
    some ⟨4, engineId, cache.journalSeed⟩)

include hcache hid hgenesis

/-- The output worker of a process has the invariant of `Delivery`. -/
theorem Process.Initial.inv {start : Process} (h : start.Initial codec cache engineId)
    {d : Delivery.World} (hreached : Delivery.Reachable codec toJson start.view d) :
    Delivery.Inv codec toJson engineId d := by
  obtain ⟨D, hD⟩ := inv_of_initial h.engine
  have hnothing : Legible codec start.engine.store := by
    intro record hrecord
    rw [show start.engine.store.records.entries = [] from congrArg (·.entries) h.view.records]
      at hrecord
    cases hrecord
  obtain ⟨state, hrecover, -⟩ := hD.recover hcache hid hgenesis hnothing
  exact Delivery.engineOf_of_recover hrecover ▸ hreached.inv h.view

/-- **The parts of a process** are an engine and an output worker. -/
theorem ProcessReachable.parts {start : Process} (hstart : start.Initial codec cache engineId)
    (h : ProcessReachable codec toJson start p) (hrecords : Legible codec p.engine.store) :
    Reachable codec start.engine p.engine ∧ Shown codec toJson start.view p := by
  induction h with
  | start => exact ⟨.start, .inl .start⟩
  | @step p p' _ step ih =>
    have hbefore := step.legible hrecords
    obtain ⟨hengine, hshown⟩ := ih hbefore
    obtain ⟨hinv, -⟩ := hengine.inv hcache hid hgenesis hstart.engine hbefore
    obtain ⟨-, -, hcurrent⟩ := hengine.kept hcache hid hgenesis hstart.engine hbefore
    have hdelivery : ∀ {d : Delivery.World}, Delivery.Reachable codec toJson start.view d →
        Delivery.Inv codec toJson engineId d := hstart.inv hcache hid hgenesis
    cases step with
    | @boot state id last down recovered sequence =>
      obtain ⟨hcore, hworker, houtput⟩ := down
      refine ⟨.step hengine (.boot ⟨hcore, hworker⟩ recovered sequence), .inl ?_⟩
      obtain ⟨D, hD⟩ := hinv
      have hlast : last = p.engine.store.records.entries.length := by
        rw [show p.engine.store.records.entries.length = D.length from hD.length_entries]
        exact Except.ok.inj (sequence.symm.trans hD.lastSequence)
      subst hlast
      rcases hshown with h | ⟨-, h⟩
      · exact .step h (.boot houtput recovered sequence)
      · exact .step h (.boot (congrArg unaware houtput) recovered sequence)
    | crash =>
      refine ⟨.step hengine .crash, ?_⟩
      rcases hshown with h | ⟨-, h⟩
      · exact .inl (.step h .crash)
      · exact .inr ⟨trivial, .step h .crash⟩
    | engine step up cursor =>
      exact ⟨.step hengine step, hshown.engine hinv hcurrent
        (hengine.done hstart.engine.down.2) hdelivery step up cursor⟩
    | output step up engine records =>
      obtain ⟨hshown', hsame | hstep⟩ := hshown.output hdelivery step up engine records
      · exact ⟨hsame ▸ hengine, hshown'⟩
      · exact ⟨.step hengine hstep, hshown'⟩

end Parts

/-! ## Stopping -/

/-- How a joined worker has ended. -/
inductive Joined where
  | returned
  | failed (error : String)
  | panicked
  deriving DecidableEq

/-- The error that a joined worker adds. -/
def Joined.report (name : String) (error : Option String) : Joined → Option String
  | returned => error
  | failed reason => some (name ++ " worker failed: " ++ reason)
  | panicked => some (name ++ " worker panicked")

def Core.joined : Core → Option Joined
  | stopped => some .returned
  | panicked => some .panicked
  | _ => none

def Worker.joined (error : String) : Worker → Option Joined
  | ended => some .returned
  | failed _ => some (.failed error)
  | _ => none

def outputJoined (error : String) : Delivery.Worker → Option Joined
  | .running _ .returned => some .returned
  | .running _ .failed => some (.failed error)
  | _ => none

theorem outputJoined_returned {error : String} {output : Delivery.Worker}
    (h : outputJoined error output = some .returned) :
    ∃ locals, output = .running locals .returned := by
  unfold outputJoined at h
  split at h
  · exact ⟨_, rfl⟩
  · cases h
  · cases h

def pendingOutputCount (durable delivered : ℕ) : ℕ := durable - delivered

/-- `halt`, after the flags are set and the workers have ended. -/
def halt (core journal output : Joined) (queue : List Item) (pending : ℕ) : Except Fault Unit := do
  let coreError := core.report "Engine" none
  let coreError := journal.report "Journal" coreError
  let coreError := output.report "Output" coreError
  match coreError with
  | some error => throw (.err error)
  | none =>
    ensure queue.isEmpty "Journal queue was not drained"
    ensure (pending = 0) "Durable output remains pending"

/-- Everything that was executed is on the disk, answered and delivered. -/
structure Stopped {Json : Type} [DecidableEq Json] (codec : Codec Json) (cache : BalanceCache)
    (engineId : String) (p : Process) : Prop where
  records : ∃ clock, p.engine.store.records.entries =
    (Store.recordsOf clock 0 p.engine.history).map (Store.rowOf codec)
  recovers : ∃ state, p.engine.store.recover codec = .ok (state, engineId) ∧
    Run (.genesis cache) p.engine.history state
  answered : ∀ k < p.engine.count, ∃ item ∈ p.engine.sent, item.life = p.engine.life ∧ item.number = k
  cursor : p.engine.store.delivery = some (p.engine.history.length : ℤ)
  delivered : ∀ n < p.engine.history.length, Delivery.RecordAcked codec engineId p.view.toShared (n + 1)

/-- When `halt` succeeds, the workers have returned. -/
theorem halt_eq_ok {core journal output : Joined} {queue : List Item} {pending : ℕ}
    (h : halt core journal output queue pending = .ok ()) :
    core = .returned ∧ journal = .returned ∧ output = .returned ∧ pending = 0 := by
  simp only [halt] at h
  split at h
  · cases h
  · next hnone =>
    have hreturned : ∀ {name : String} {error : Option String} {joined : Joined},
        joined.report name error = none → joined = .returned ∧ error = none := by
      intro name error joined hreport
      cases joined <;> cases hreport
      exact ⟨rfl, rfl⟩
    obtain ⟨houtput, hnone⟩ := hreturned hnone
    obtain ⟨hjournal, hnone⟩ := hreturned hnone
    obtain ⟨hcore, -⟩ := hreturned hnone
    simp only [bind_eq_ok, ensure_eq_ok, exists_const] at h
    exact ⟨hcore, hjournal, houtput, h.2⟩

section Stop

variable {Json : Type} [DecidableEq Json] {codec : Codec Json}
  {toJson : FinancialEvent → Except String String} {platform : Startup.Platform}
  {cache : BalanceCache} {engineId : String} {start p : Process}

/-- **A stop without an error loses nothing**, after any execution. -/
theorem graceful_stop (hload : Startup.loadBalances platform = .ok cache)
    (hid : codec.isUuid engineId = true)
    (hgenesis : codec.parseGenesis (codec.genesisText ⟨4, engineId, cache.journalSeed⟩) =
      some ⟨4, engineId, cache.journalSeed⟩)
    (hstart : start.Initial codec cache engineId) (hreached : ProcessReachable codec toJson start p)
    (hrecords : Legible codec p.engine.store) {core journal output : Joined}
    {journalError outputError : String} (hcore : p.engine.core.joined = some core)
    (hjournal : p.engine.worker.joined journalError = some journal)
    (houtput : outputJoined outputError p.output = some output)
    (hhalt : halt core journal output p.engine.queue
      (pendingOutputCount p.engine.durable p.delivered) = .ok ()) :
    Stopped codec cache engineId p := by
  have hcache := Startup.loadBalances_admissible hload
  obtain ⟨hengine, hshown⟩ := hreached.parts hcache hid hgenesis hstart hrecords
  obtain ⟨⟨D, hD⟩, -⟩ := hengine.inv hcache hid hgenesis hstart.engine hrecords
  obtain ⟨hleft, hcomplete, hcurrent⟩ := hengine.kept hcache hid hgenesis hstart.engine hrecords
  obtain ⟨rfl, rfl, rfl, -⟩ := halt_eq_ok hhalt
  have hended : p.engine.worker = .ended := by
    cases hw : p.engine.worker <;> rw [hw] at hjournal <;> first | rfl | cases hjournal
  have hstopped : p.engine.core = .stopped := by
    cases hc : p.engine.core <;> rw [hc] at hcore <;> first | rfl | cases hcore
  have hflight : p.engine.inFlight = [] := by
    rw [World.inFlight, hended, (hleft.ended hended).1, hstopped]
    rfl
  have hup : p.engine.core ≠ .down := by
    rw [hstopped]
    intro hdown
    cases hdown
  -- nothing is on its way, so everything is on the disk
  have hlength : p.engine.store.records.entries.length = D.length := hD.length_entries
  have hhistory : p.engine.history = D := by
    have hnone := hleft.unstored_inFlight ⟨D, hD⟩ hup
    rw [hflight, World.unstored] at hnone
    have hdrop := List.suffix_nil.mp hnone
    rw [← List.take_append_drop p.engine.store.records.entries.length p.engine.history, hdrop,
      List.append_nil]
    exact hD.take_history
  -- and the output worker has returned, so it is all delivered
  have hdurable : p.engine.durable = D.length := (hcurrent (by rw [hended]; rfl)).trans hlength
  have hview : Delivery.Reachable codec toJson start.view p.view := by
    refine hshown.resolve_right fun hlost => ?_
    rw [hended] at hlost
    exact hlost.1
  obtain ⟨locals, hreturned⟩ := outputJoined_returned houtput
  obtain ⟨known, reach, cursor, snaps, market, hdelivered, hworker⟩ :=
    hstart.inv hcache hid hgenesis hview
  rw [show p.view.worker = _ from hreturned] at hworker
  obtain ⟨-, -, -, hcursor⟩ := hworker
  obtain rfl : cursor = D.length := hcursor.trans hdurable
  rw [← hhistory] at hdelivered
  refine ⟨?_, ?_, fun k hk => ?_, hdelivered.delivery, fun n hn => hdelivered.recordAcked hn⟩
  · rw [hhistory]
    exact hD.records
  · rw [hhistory]
    exact hD.recover hcache hid hgenesis hrecords
  · obtain ⟨item, hitem, hitem'⟩ := hcomplete hup k hk
    rw [hflight, List.append_nil] at hitem
    exact ⟨item, hitem, hitem'⟩

end Stop

/-! ### A deposit, its delivery and a stop -/

/-- Before the first start. -/
def creditProcess : Process where
  engine := recordStart creditCodec
  output := .down
  startup := 0
  signalled := false
  sent := []
  sentMarket := []

theorem running_ne_down (state : EngineState) (phase : CorePhase) : Core.running state phase ≠ .down := by
  intro hdown
  cases hdown

theorem stopped_ne_down : Core.stopped ≠ .down := by
  intro hdown
  cases hdown

theorem output_ne_down (locals : Delivery.Locals) (phase : Delivery.Phase) :
    Delivery.Worker.running locals phase ≠ .down := by
  intro hdown
  cases hdown

section Credit

variable {Json : Type} [DecidableEq Json] {codec : Codec Json}
  {toJson : FinancialEvent → Except String String} {start p : Process}

/-- The output worker goes on, and the tables stay. -/
theorem ProcessReachable.works (h : ProcessReachable codec toJson start p) {locals : Delivery.Locals}
    {phase : Delivery.Phase} {signalled : Bool} {sent : List Delivery.Sent}
    {sentMarket : List Delivery.SentMarket} (hcore : p.engine.core ≠ .down) (houtput : p.output ≠ .down)
    (step : Delivery.Step codec toJson p.view
      { p.view with signalled, sent, sentMarket, worker := .running locals phase }) :
    ProcessReachable codec toJson start
      { p with signalled, sent, sentMarket, output := .running locals phase } :=
  .step h (.output step ⟨hcore, houtput, output_ne_down _ _⟩ rfl rfl)

/-- The output worker moves the cursor. -/
theorem ProcessReachable.marks (h : ProcessReachable codec toJson start p) {locals : Delivery.Locals}
    {phase : Delivery.Phase} {n : ℤ} (hcore : p.engine.core ≠ .down) (houtput : p.output ≠ .down)
    (step : Delivery.Step codec toJson p.view { p.view with
      store := { p.engine.store with delivery := some n }, worker := .running locals phase }) :
    ProcessReachable codec toJson start { p with
      engine := { p.engine with store := { p.engine.store with delivery := some n } }
      output := .running locals phase } :=
  .step h (.output step ⟨hcore, houtput, output_ne_down _ _⟩ rfl rfl)

/-- The engine goes on, and the cursor stays. -/
theorem ProcessReachable.goes (h : ProcessReachable codec toJson start p) {engine : World}
    (step : Step codec p.engine engine) (cursor : engine.store.delivery = p.engine.store.delivery)
    (hcore : p.engine.core ≠ .down ∧ engine.core ≠ .down) (houtput : p.output ≠ .down) :
    ProcessReachable codec toJson start { p with engine } :=
  .step h (.engine step ⟨hcore.1, hcore.2, houtput⟩ cursor)

end Credit

/-- The deposit is credited and answered, and its event is delivered; then the process is stopped. -/
theorem exists_stopped : ∃ p state,
    ProcessReachable creditCodec Output.sampleJson creditProcess p ∧
      p.engine.store = { creditStore with delivery := some 1 } ∧ p.engine.core = .stopped ∧
      p.engine.worker = .ended ∧ p.output = .running state .returned ∧ p.engine.queue = [] ∧
      p.engine.durable = 1 ∧ p.delivered = 1 ∧ p.engine.history.length = 1 ∧
      p.sent.map Delivery.Sent.payload = [Output.sampleEventText] := by
  let R := ProcessReachable creditCodec Output.sampleJson creditProcess
  have hrecover : (recordStart creditCodec).store.recover creditCodec =
      .ok (.genesis Store.sampleCache, Store.sampleGenesis.engineId) := recover_record
  have hsilent : ∀ snapshot : MarketSnapshot, snapshot ∈ ([] : List MarketSnapshot) ↔
      ∃ pair, Market.Projection.new.latest.lookup pair = some snapshot := by
    intro snapshot
    simp [Market.Projection.new]
  have hread : creditStore.read creditCodec 1 = .ok Output.sampleCredited :=
    @Store.read_of_mem _ creditCodec _ Output.sampleCredited
      (append_creditStore.2 ▸ List.mem_singleton_self _) (by decide)
      (Store.legible_tableCodec distinct_creditRows List.mem_cons_self rfl)
  have hcursor : creditStore.delivery = some 0 :=
    (Store.append_ok append_creditStore.1 fun _ he => absurd he List.not_mem_nil).2.2.2.2
  have hmarked : creditStore.markDelivered 1 = .ok { creditStore with delivery := some 1 } := by
    rw [Store.markDelivered, hcursor]
    rfl
  have hjson : Output.sampleJson Output.sampleEvent = .ok Output.sampleEventText :=
    Output.sampleJson_event
  obtain ⟨state, hexecute⟩ := exists_credited
  have hup : ∀ {state phase}, Core.running state phase ≠ .down := running_ne_down _ _
  have hout : ∀ {locals phase}, Delivery.Worker.running locals phase ≠ .down := output_ne_down _ _
  have hroom : 0 < inputCapacity ∧ ([] : List Item).length < journalCapacity := by decide
  have h0 : R creditProcess := .start
  have h1 := h0.step (.boot ⟨rfl, rfl, rfl⟩ hrecover rfl)
  -- the output worker has nothing to send
  have h2 := h1.works hup hout (.opened rfl rfl)
  have h3 := h2.works hup hout (.rebuilt rfl Nat.zero_lt_one hsilent)
  have h4 := h3.works hup hout (.ready rfl)
  have h5 := h4.works hup hout (.signal rfl le_rfl)
  -- the deposit is executed, stored and answered
  have h6 := h5.goes (@Step.sendBalance _ _ _ _ (.creditDeposit Output.sampleCredit 0) hup hroom.1)
    rfl ⟨hup, hup⟩ hout
  have h7 := h6.goes (.move rfl (.running rfl)) rfl ⟨hup, hup⟩ hout
  have h8 := h7.goes (.move rfl (.accepting rfl)) rfl ⟨hup, hup⟩ hout
  have h9 := h8.goes (.move rfl (.reserved hroom.2)) rfl ⟨hup, hup⟩ hout
  have h10 := h9.goes (.balance rfl rfl hexecute) rfl ⟨hup, hup⟩ hout
  have h11 := h10.goes (.published rfl hroom.2) rfl ⟨hup, hup⟩ hout
  have h12 := h11.goes (.started rfl rfl) rfl ⟨hup, hup⟩ hout
  have h13 := h12.goes (.first rfl rfl) rfl ⟨hup, hup⟩ hout
  have h14 := h13.goes (.gathered rfl (.inl rfl)) rfl ⟨hup, hup⟩ hout
  have h15 := h14.goes (.committed rfl append_creditStore.1) hcursor ⟨hup, hup⟩ hout
  have h16 := h15.goes (.progressed rfl) rfl ⟨hup, hup⟩ hout
  have h17 := h16.goes (.answered rfl) rfl ⟨hup, hup⟩ hout
  have h18 := h17.goes (.again rfl) rfl ⟨hup, hup⟩ hout
  -- its event is delivered, and the cursor moves
  have h19 := h18.works hup hout (.pending rfl Nat.zero_lt_one)
  have h20 := h19.works hup hout (.fetched rfl hread)
  have h21 := h20.works hup hout (@Delivery.Step.delivered _ _ _ _ _ _ _ Output.sampleEvent [] _ true
    rfl hjson)
  have h22 := h21.works hup hout (@Delivery.Step.applied _ _ _ _ _ _ _ none _ rfl rfl)
  have h23 := h22.marks hup hout (@Delivery.Step.marked _ _ _ _ _ _ _ _ true rfl hmarked)
  have h24 := h23.works hup hout (.signal rfl Nat.zero_lt_one.le)
  have h25 := h24.works hup hout (.drained rfl le_rfl)
  -- the engine is closed, and all workers end
  have h26 := (h25.goes .close rfl ⟨hup, hup⟩ hout).goes (.halt rfl) rfl ⟨hup, hup⟩ hout
  have h27 := h26.goes (.move rfl (.halted rfl)) rfl ⟨hup, hup⟩ hout
  have h28 := h27.goes (.stopped rfl) rfl ⟨hup, stopped_ne_down⟩ hout
  have h29 := h28.goes (.drained rfl rfl (.inl rfl)) rfl ⟨stopped_ne_down, stopped_ne_down⟩ hout
  have h30 := h29.works stopped_ne_down hout (.closing rfl rfl)
  have h31 := h30.works stopped_ne_down hout (.returned rfl rfl)
  exact ⟨_, _, h31, rfl, rfl, rfl, rfl, rfl, rfl, rfl, rfl, rfl⟩

theorem graceful_stop_credit : ∃ p, p.engine.history.length = 1 ∧
    p.sent.map Delivery.Sent.payload = [Output.sampleEventText] ∧
    halt .returned .returned .returned p.engine.queue
      (pendingOutputCount p.engine.durable p.delivered) = .ok () ∧
    Stopped creditCodec Store.sampleCache Store.sampleGenesis.engineId p := by
  obtain ⟨p, locals, hreached, hstore, hcore, hworker, houtput, hqueue, hdurable, hdelivered, hhistory,
    hsent⟩ := exists_stopped
  have hhalt : halt .returned .returned .returned p.engine.queue
      (pendingOutputCount p.engine.durable p.delivered) = .ok () := by
    rw [hqueue, hdurable, hdelivered]
    rfl
  have hlegible : Legible creditCodec p.engine.store := by
    rw [hstore]
    exact legible_creditStore
  have hcored : p.engine.core.joined = some .returned := by
    rw [hcore]
    rfl
  have hjournal : p.engine.worker.joined "" = some .returned := by
    rw [hworker]
    rfl
  have hreturned : outputJoined "" p.output = some .returned := by
    rw [houtput]
    rfl
  exact ⟨p, hhistory, hsent, hhalt, graceful_stop Store.loadBalances_sample record_isUuid
    record_genesis ⟨initial_record.world, rfl, rfl, rfl, rfl⟩ hreached hlegible hcored hjournal hreturned hhalt⟩

end Pipeline

end CexEngine
