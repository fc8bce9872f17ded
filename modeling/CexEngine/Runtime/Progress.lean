import CexEngine.Foundation.Fairness
import CexEngine.Runtime.Handle

/-!
# Every request is answered

The queues are bounded, the core spins while the journal queue is full, and it looks into the order
queue only when the balance queue is empty.  Here the executions of `Pipeline` go on for ever and
nobody disturbs them: the engine is not stopped, and no commit fails.  The core and the journal
worker are scheduled fairly.

* `Turn`: what one step of such an execution can be, a step from outside, of the worker or of the
  core.
* `requested_leadsTo`: a request is taken out of its queue.  The measure is the number of requests
  before it, then the lap of the core, then the work of the journal worker.  While the journal queue
  is full, the worker is the one that helps, otherwise the core.
* `held_leadsTo`, `carried_leadsTo`: what the core holds is executed, and an executed item is
  answered, by the same rule.
* `requests_served`: every request is executed and answered; a request of the order queue, if the
  balance requests stop at some time.
-/

namespace CexEngine

open Foundation Amount

namespace Pipeline

/-! ## Undisturbed executions -/

/-- The journal worker has neither failed nor ended. -/
def Worker.Works : Worker → Prop
  | starting | receiving | grouping _ | committing _ | publishing _ | answering _ => True
  | _ => False

/-- Nobody stops the engine, and no commit has failed.  A panic of the core is not excluded. -/
structure Undisturbed (w : World) : Prop where
  core : w.core = .panicked ∨ ∃ state phase, w.core = .running state phase ∧ phase ≠ .closing ∧
    w.running = true ∧ w.closed = false
  worker : w.worker.Works

inductive Thread where
  | core
  | journal

namespace Thread

def moves (σ : ℕ → World) : Thread → ℕ → Prop
  | core, i => (σ (i + 1)).core ≠ (σ i).core
  | journal, i => (σ (i + 1)).worker ≠ (σ i).worker

/-- The journal worker waits for an item.  The core never waits. -/
def waits (σ : ℕ → World) : Thread → ℕ → Prop
  | core, _ => False
  | journal, i => (σ i).worker = .receiving ∧ (σ i).queue = []

end Thread

/-- An execution without an end that nobody disturbs. -/
structure FairRun {Json : Type} [DecidableEq Json] (codec : Codec Json) (σ : ℕ → World) : Prop where
  step : ∀ i, Step codec (σ i) (σ (i + 1))
  undisturbed : ∀ i, Undisturbed (σ i)
  fair : Fair (Thread.moves σ) (Thread.waits σ)

/-- After a time, a request is executed and answered. -/
def Served (σ : ℕ → World) (i : ℕ) (input : Input) : Prop :=
  ∃ j item state state', i ≤ j ∧ input.execute state = .ok (item.pending, state') ∧
    item ∈ (σ j).sent.drop (σ i).sent.length

/-! ## Turns -/

/-- The items between the core and their answers. -/
def World.work (w : World) : List Item := w.worker.items ++ w.queue

/-- How far the worker is from its next answer; without a group it has to receive first. -/
def Worker.rank : Worker → ℕ
  | grouping [] => groupSize + 7
  | committing [] => groupSize + 6
  | publishing [] => groupSize + 5
  | starting | answering [] => groupSize + 4
  | receiving => groupSize + 3
  | grouping group => groupSize - group.length + 3
  | committing _ => 2
  | publishing _ => 1
  | _ => 0

/-- A step of the worker. -/
inductive WorkerTurn (w w' : World) : Prop
  | answers {item : Item} (sent : w'.sent = w.sent ++ [item]) (work : w.work = item :: w'.work)
  | goes (sent : w'.sent = w.sent) (work : w'.work = w.work)
      (rank : w'.worker.rank < w.worker.rank)

/-- A step of the core. -/
inductive CoreTurn (w w' : World) : Prop
  | move {state : EngineState} {phase phase' : CorePhase} (here : w.core = .running state phase)
      (there : w'.core = .running state phase') (moves : Moves w phase phase')
      (queue : w'.queue = w.queue) (orders : w'.orders = w.orders) (balances : w'.balances = w.balances)
  | balance {state state' : EngineState} {command : BalanceCommand} {item : Item}
      (here : w.core = .running state .balances) (there : w'.core = .running state' (.publishing item))
      (next : w.balances = command :: w'.balances)
      (executed : (Input.balance command).execute state = .ok (item.pending, state'))
      (queue : w'.queue = w.queue) (orders : w'.orders = w.orders)
  | received {state : EngineState} {command : OrderCommand} (here : w.core = .running state .orders)
      (there : w'.core = .running state (.rechecking command)) (next : w.orders = command :: w'.orders)
      (queue : w'.queue = w.queue) (balances : w'.balances = w.balances)
  | order {state state' : EngineState} {command : OrderCommand} {item : Item}
      (here : w.core = .running state (.confirming command))
      (there : w'.core = .running state' (.publishing item))
      (executed : (Input.order command).execute state = .ok (item.pending, state'))
      (queue : w'.queue = w.queue) (orders : w'.orders = w.orders) (balances : w'.balances = w.balances)
  | published {state : EngineState} {item : Item} (here : w.core = .running state (.publishing item))
      (there : w'.core = .running state .loop) (queue : w'.queue = w.queue ++ [item])
      (orders : w'.orders = w.orders) (balances : w'.balances = w.balances)

/-- A step of an undisturbed execution. -/
inductive Turn (w w' : World) : Prop
  | outside (core : w'.core = w.core) (worker : w'.worker = w.worker) (queue : w'.queue = w.queue)
      (sent : w'.sent = w.sent) (orders : w.orders <+: w'.orders) (balances : w.balances <+: w'.balances)
  | worker (core : w'.core = w.core) (orders : w'.orders = w.orders)
      (balances : w'.balances = w.balances) (turn : WorkerTurn w w')
  | core (worker : w'.worker = w.worker) (sent : w'.sent = w.sent) (turn : CoreTurn w w')

section Turns

variable {Json : Type} [DecidableEq Json] {codec : Codec Json} {w w' : World}

/-- The worker goes on with the items it has. -/
theorem turn_of_goes {worker : Worker} {queue : List Item} (store : Store) (sequence durable : ℕ)
    (hwork : worker.items ++ queue = w.work) (hrank : worker.rank < w.worker.rank) :
    Turn w { w with store, sequence, durable, worker, queue } :=
  .worker rfl rfl rfl (.goes rfl hwork hrank)

theorem Step.turn (step : Step codec w w') (h : Undisturbed w) (h' : Undisturbed w')
    (hcore : w.core ≠ .panicked) (hcore' : w'.core ≠ .panicked) : Turn w w' := by
  obtain ⟨state, phase, hphase, hopen, hrunning, hclosed⟩ := h.core.resolve_left hcore
  obtain ⟨state', phase', hphase', hopen', hrunning', hclosed'⟩ := h'.core.resolve_left hcore'
  have hworks := h'.worker
  cases step with
  | boot down =>
    rw [down.1] at hphase
    cases hphase
  | crash => cases hphase'
  | close | halt | marked => exact .outside rfl rfl rfl rfl List.prefix_rfl List.prefix_rfl
  | sendOrder up room => exact .outside rfl rfl rfl rfl (List.prefix_append ..) List.prefix_rfl
  | sendBalance up room => exact .outside rfl rfl rfl rfl List.prefix_rfl (List.prefix_append ..)
  | move here moves => exact .core rfl rfl (.move here rfl moves rfl rfl rfl)
  | balance here next executed => exact .core rfl rfl (.balance here rfl next executed rfl rfl)
  | received here next => exact .core rfl rfl (.received here rfl next rfl rfl)
  | order here running executed => exact .core rfl rfl (.order here rfl executed rfl rfl rfl)
  | fault | overflow => exact absurd rfl hcore'
  | published here room => exact .core rfl rfl (.published here rfl rfl rfl rfl)
  | stopped => cases hphase'
  | started here sequence =>
    refine turn_of_goes _ _ _ (by rw [World.work, here]; rfl) ?_
    rw [here]
    simp [Worker.rank]
  | startFailed | commitFailed | commitLost | drained | failed => exact hworks.elim
  | first here next =>
    refine turn_of_goes _ _ _ (by rw [World.work, here, next]; rfl) ?_
    rw [here]
    simp [Worker.rank, groupSize]
  | @grouped group item rest here room next =>
    refine turn_of_goes _ _ _ (by rw [World.work, here, next]; simp [Worker.items]) ?_
    rw [here]
    cases group with
    | nil => simp [Worker.rank, groupSize]
    | cons =>
      simp only [List.length_cons] at room
      simp only [Worker.rank, List.cons_append, List.length_cons, List.length_append, List.length_nil]
      omega
  | @gathered group here full =>
    refine turn_of_goes _ _ _ (by rw [World.work, here]; rfl) ?_
    rw [here]
    cases group <;> simp [Worker.rank]
  | @committed group clock store last here appended =>
    refine turn_of_goes _ _ _ (by rw [World.work, here]; rfl) ?_
    rw [here]
    cases group <;> simp [Worker.rank]
  | @progressed group here =>
    refine turn_of_goes _ _ _ (by rw [World.work, here]; rfl) ?_
    rw [here]
    cases group <;> simp [Worker.rank]
  | answered here =>
    exact .worker rfl rfl rfl (.answers rfl (by rw [World.work, here]; rfl))
  | again here =>
    refine turn_of_goes _ _ _ (by rw [World.work, here]; rfl) ?_
    rw [here]
    simp [Worker.rank]

end Turns

/-! ## A request is taken -/

/-- The queue of a request. -/
inductive Aim where
  | balance
  | order

namespace Aim

/-- A request of the queue, by its place there. -/
def request (w : World) (place : ℕ) : Aim → Option Input
  | balance => (w.balances[place]?).map Input.balance
  | order => (w.orders[place]?).map Input.order

/-- The requests that the core takes before the one at a place. -/
def ahead (w : World) (place : ℕ) : Aim → ℕ
  | balance => place
  | order => w.balances.length + place

/-- Where the core is on its way to the queue: past it, before it, or at it. -/
def lap : Aim → Core → ℕ
  | _, .running _ .loop | _, .running _ .checking | _, .running _ .polling => 1
  | _, .running _ .balances | order, .running _ .orders => 0
  | _, _ => 2

end Aim

/-- The core finds the journal queue full. -/
abbrev World.Full (w : World) : Prop := journalCapacity ≤ w.queue.length

/-- The steps of a lap.  While the core spins, they do not count. -/
def World.rest (w : World) : ℕ :=
  match w.core with
  | .running _ .loop => if w.Full then 0 else 3
  | .running _ .checking => if w.Full then 0 else 2
  | .running _ .polling => if w.Full then 0 else 1
  | .running _ .balances => 5
  | .running _ .orders => 4
  | .running _ (.rechecking _) => 3
  | .running _ (.confirming _) => 2
  | _ => 1

/-- While the journal queue is full, only the worker helps. -/
def World.helper (w : World) : Thread := if w.Full then .journal else .core

/-- What lies before a request. -/
def Aim.measure (aim : Aim) (w : World) (place : ℕ) : ℕ ×ₗ ℕ ×ₗ ℕ ×ₗ ℕ ×ₗ ℕ :=
  toLex (aim.ahead w place, toLex (aim.lap w.core,
    toLex (w.work.length, toLex (w.worker.rank, w.rest))))

/-- The core has taken the request out of the order queue. -/
def Held (input : Input) (w : World) : Prop :=
  ∃ state command, input = .order command ∧
    (w.core = .running state (.rechecking command) ∨ w.core = .running state (.confirming command))

/-- The core has executed the request. -/
def Ran (input : Input) (w : World) : Prop :=
  ∃ state state' item, w.core = .running state' (.publishing item) ∧
    input.execute state = .ok (item.pending, state')

section Taken

variable {w w' : World} {aim : Aim} {place place' : ℕ} {input : Input}

theorem getElem?_of_prefix {α : Type} {l l' : List α} (h : l <+: l') {n : ℕ} {a : α}
    (ha : l[n]? = some a) : l'[n]? = some a := by
  obtain ⟨t, rfl⟩ := h
  rw [List.getElem?_append_left (List.getElem?_eq_some_iff.mp ha).1]
  exact ha

namespace Aim

theorem request_of_prefix (horders : w.orders <+: w'.orders) (hbalances : w.balances <+: w'.balances)
    (h : aim.request w place = some input) : aim.request w' place = some input := by
  cases aim with
  | balance =>
    obtain ⟨command, hcommand, heq⟩ := Option.map_eq_some_iff.mp h
    exact Option.map_eq_some_iff.mpr ⟨command, getElem?_of_prefix hbalances hcommand, heq⟩
  | order =>
    obtain ⟨command, hcommand, heq⟩ := Option.map_eq_some_iff.mp h
    exact Option.map_eq_some_iff.mpr ⟨command, getElem?_of_prefix horders hcommand, heq⟩

theorem measure_lt_of_ahead (h : aim.ahead w' place' < aim.ahead w place) :
    aim.measure w' place' < aim.measure w place :=
  Prod.Lex.toLex_lt_toLex.mpr (.inl h)

theorem measure_lt_of_lap (hahead : aim.ahead w' place' = aim.ahead w place)
    (h : aim.lap w'.core < aim.lap w.core) : aim.measure w' place' < aim.measure w place :=
  Prod.Lex.toLex_lt_toLex.mpr (.inr ⟨hahead, Prod.Lex.toLex_lt_toLex.mpr (.inl h)⟩)

/-- The core stays on its lap. -/
theorem measure_lt_of_work (hahead : aim.ahead w' place' = aim.ahead w place)
    (hlap : aim.lap w'.core = aim.lap w.core)
    (h : toLex (w'.work.length, toLex (w'.worker.rank, w'.rest)) <
      toLex (w.work.length, toLex (w.worker.rank, w.rest))) :
    aim.measure w' place' < aim.measure w place :=
  Prod.Lex.toLex_lt_toLex.mpr (.inr ⟨hahead, Prod.Lex.toLex_lt_toLex.mpr (.inr ⟨hlap, h⟩)⟩)

/-- The core goes on, and the worker does not. -/
theorem measure_lt_of_rest (hahead : aim.ahead w' place' = aim.ahead w place)
    (hlap : aim.lap w'.core = aim.lap w.core) (hworker : w'.worker = w.worker)
    (hqueue : w'.queue = w.queue) (h : w'.rest < w.rest) :
    aim.measure w' place' < aim.measure w place := by
  refine measure_lt_of_work hahead hlap ?_
  rw [World.work, World.work, hworker, hqueue]
  exact Prod.Lex.toLex_lt_toLex.mpr (.inr ⟨rfl, Prod.Lex.toLex_lt_toLex.mpr (.inr ⟨rfl, h⟩)⟩)

theorem measure_eq (hahead : aim.ahead w' place' = aim.ahead w place)
    (hlap : aim.lap w'.core = aim.lap w.core) (hworker : w'.worker = w.worker)
    (hqueue : w'.queue = w.queue) (h : w'.rest = w.rest) :
    aim.measure w' place' = aim.measure w place := by
  rw [measure, measure, hahead, hlap, h, World.work, World.work, hworker, hqueue]

end Aim

/-- A step that does not matter: the measure stays, and the thread that helps has not moved. -/
structure Idle (aim : Aim) (w w' : World) (place place' : ℕ) : Prop where
  measure : aim.measure w' place' = aim.measure w place
  helper : w'.helper = w.helper
  core : w.helper = .core → w'.core = w.core
  journal : w.helper = .journal → w'.worker = w.worker

/-- A request that is still in its queue. -/
def Nearer (aim : Aim) (input : Input) (w w' : World) (place : ℕ) : Prop :=
  ∃ place', aim.request w' place' = some input ∧
    (aim.measure w' place' < aim.measure w place ∨ Idle aim w w' place place')

/-- The core spins. -/
theorem nearer_of_spin {state : EngineState} {phase phase' : CorePhase}
    (here : w.core = .running state phase) (there : w'.core = .running state phase')
    (hphase : phase = .loop ∨ phase = .checking ∨ phase = .polling)
    (hphase' : phase' = .loop ∨ phase' = .checking ∨ phase' = .polling)
    (hqueue : w'.queue = w.queue) (horders : w'.orders = w.orders)
    (hbalances : w'.balances = w.balances) (hworker : w'.worker = w.worker)
    (hrest : ¬ w.Full → w'.rest < w.rest) (h : aim.request w place = some input) :
    Nearer aim input w w' place := by
  have hahead : aim.ahead w' place = aim.ahead w place := by
    cases aim with
    | balance => rfl
    | order => rw [Aim.ahead, Aim.ahead, hbalances]
  have hlap : aim.lap w'.core = aim.lap w.core := by
    rw [here, there]
    rcases hphase with rfl | rfl | rfl <;> rcases hphase' with rfl | rfl | rfl <;> cases aim <;> rfl
  refine ⟨place, Aim.request_of_prefix (horders ▸ List.prefix_rfl) (hbalances ▸ List.prefix_rfl) h, ?_⟩
  by_cases hfull : w.Full
  · have hfull' : w'.Full := by
      rw [World.Full, hqueue]
      exact hfull
    have hhelper : w.helper = .journal := if_pos hfull
    refine .inr ⟨Aim.measure_eq hahead hlap hworker hqueue ?_, ?_, ?_, fun _ => hworker⟩
    · rw [World.rest, World.rest, here, there]
      rcases hphase with rfl | rfl | rfl <;> rcases hphase' with rfl | rfl | rfl <;>
        simp only [if_pos hfull, if_pos hfull']
    · rw [hhelper]
      exact if_pos hfull'
    · rw [hhelper]
      intro hcore
      cases hcore
  · exact .inl (Aim.measure_lt_of_rest hahead hlap hworker hqueue (hrest hfull))

theorem Moves.nearer {state : EngineState} {phase phase' : CorePhase} (moves : Moves w phase phase')
    (here : w.core = .running state phase) (there : w'.core = .running state phase')
    (hopen : phase' ≠ .closing) (hqueue : w'.queue = w.queue) (horders : w'.orders = w.orders)
    (hbalances : w'.balances = w.balances) (hworker : w'.worker = w.worker)
    (h : aim.request w place = some input) : Nearer aim input w w' place := by
  have hrequest : aim.request w' place = some input :=
    Aim.request_of_prefix (horders ▸ List.prefix_rfl) (hbalances ▸ List.prefix_rfl) h
  have hahead : aim.ahead w' place = aim.ahead w place := by
    cases aim with
    | balance => rfl
    | order => rw [Aim.ahead, Aim.ahead, hbalances]
  have hlap : aim.lap w'.core < aim.lap w.core → Nearer aim input w w' place :=
    fun hlt => ⟨place, hrequest, .inl (Aim.measure_lt_of_lap hahead hlt)⟩
  have hfull : w'.Full ↔ w.Full := by rw [World.Full, hqueue]
  cases moves with
  | running | accepting =>
    refine nearer_of_spin here there (by simp) (by simp) hqueue horders hbalances hworker (fun hroom => ?_) h
    rw [World.rest, World.rest, here, there]
    simp only [if_neg hroom, if_neg (mt hfull.mp hroom)]
    decide
  | full full =>
    exact nearer_of_spin here there (by simp) (by simp) hqueue horders hbalances hworker
      (fun hroom => absurd full hroom) h
  | reserved room =>
    refine hlap ?_
    rw [here, there]
    cases aim <;> exact Nat.zero_lt_one
  | noBalance empty =>
    cases aim with
    | balance =>
      rw [Aim.request, empty] at h
      cases h
    | order =>
      refine ⟨place, hrequest, .inl (Aim.measure_lt_of_rest hahead ?_ hworker hqueue ?_)⟩
      · rw [here, there]
        rfl
      · rw [World.rest, World.rest, here, there]
        exact Nat.lt_succ_self 4
  | timeout empty =>
    cases aim with
    | balance =>
      refine hlap ?_
      rw [here, there]
      exact Nat.one_lt_two
    | order =>
      rw [Aim.request, empty] at h
      cases h
  | rechecked accepting =>
    refine ⟨place, hrequest, .inl (Aim.measure_lt_of_rest hahead ?_ hworker hqueue ?_)⟩
    · rw [here, there]
      cases aim <;> rfl
    · rw [World.rest, World.rest, here, there]
      exact Nat.lt_succ_self 2
  | halted | barred | disconnected | refused | abandoned => exact absurd rfl hopen

/-- The core takes the request, or comes nearer to it. -/
theorem CoreTurn.nearer (turn : CoreTurn w w') (hopen : ∀ state, w'.core ≠ .running state .closing)
    (hworker : w'.worker = w.worker) (h : aim.request w place = some input) :
    (Held input w' ∨ Ran input w') ∨ Nearer aim input w w' place := by
  cases turn with
  | @move state phase phase' here there moves queue orders balances =>
    exact .inr (moves.nearer here there (fun hphase => hopen state (hphase ▸ there)) queue orders balances
      hworker h)
  | @balance state state' command item here there next executed queue orders =>
    cases aim with
    | balance =>
      cases place with
      | zero =>
        rw [Aim.request, next] at h
        obtain rfl : Input.balance command = input := Option.some.inj h
        exact .inl (.inr ⟨state, state', item, there, executed⟩)
      | succ place =>
        rw [Aim.request, next] at h
        exact .inr ⟨place, h, .inl (Aim.measure_lt_of_ahead (Nat.lt_succ_self place))⟩
    | order =>
      refine .inr ⟨place, ?_, .inl (Aim.measure_lt_of_ahead ?_)⟩
      · rw [Aim.request, orders]
        exact h
      · rw [Aim.ahead, Aim.ahead, next, List.length_cons]
        omega
  | @received state command here there next queue balances =>
    cases aim with
    | balance =>
      refine .inr ⟨place, ?_, .inl (Aim.measure_lt_of_rest rfl ?_ hworker queue ?_)⟩
      · rw [Aim.request, balances]
        exact h
      · rw [here, there]
        rfl
      · rw [World.rest, World.rest, here, there]
        exact Nat.lt_succ_self 3
    | order =>
      cases place with
      | zero =>
        rw [Aim.request, next] at h
        obtain rfl : Input.order command = input := Option.some.inj h
        exact .inl (.inl ⟨state, command, rfl, .inl there⟩)
      | succ place =>
        rw [Aim.request, next] at h
        refine .inr ⟨place, h, .inl (Aim.measure_lt_of_ahead ?_)⟩
        rw [Aim.ahead, Aim.ahead, balances]
        omega
  | @order state state' command item here there executed queue orders balances =>
    refine .inr ⟨place, Aim.request_of_prefix (orders ▸ List.prefix_rfl) (balances ▸ List.prefix_rfl) h,
      .inl (Aim.measure_lt_of_rest ?_ ?_ hworker queue ?_)⟩
    · cases aim with
      | balance => rfl
      | order => rw [Aim.ahead, Aim.ahead, balances]
    · rw [here, there]
      cases aim <;> rfl
    · rw [World.rest, World.rest, here, there]
      exact Nat.one_lt_two
  | published here there queue orders balances =>
    refine .inr ⟨place, Aim.request_of_prefix (orders ▸ List.prefix_rfl) (balances ▸ List.prefix_rfl) h,
      .inl (Aim.measure_lt_of_lap ?_ ?_)⟩
    · cases aim with
      | balance => rfl
      | order => rw [Aim.ahead, Aim.ahead, balances]
    · rw [here, there]
      cases aim <;> exact Nat.one_lt_two

/-- **A request in a queue comes nearer**, unless a new balance request comes before it. -/
theorem Turn.nearer (turn : Turn w w') (hopen : ∀ state, w'.core ≠ .running state .closing)
    (h : aim.request w place = some input) :
    (Held input w' ∨ Ran input w') ∨ Nearer aim input w w' place ∨
      (aim.request w' place = some input ∧ aim = .order ∧ w.balances.length < w'.balances.length) := by
  cases turn with
  | outside core worker queue sent orders balances =>
    have hrequest := Aim.request_of_prefix orders balances h
    by_cases hnew : aim = .order ∧ w.balances.length < w'.balances.length
    · exact .inr (.inr ⟨hrequest, hnew⟩)
    · have hahead : aim.ahead w' place = aim.ahead w place := by
        cases aim with
        | balance => rfl
        | order =>
          have hlength := balances.length_le
          have hstill := not_and.mp hnew rfl
          rw [Aim.ahead, Aim.ahead]
          omega
      have hfull : w'.Full ↔ w.Full := by rw [World.Full, queue]
      have hrest : w'.rest = w.rest := by simp only [World.rest, core, World.Full, queue]
      refine .inr (.inl ⟨place, hrequest, .inr ⟨?_, ?_, fun _ => core, fun _ => worker⟩⟩)
      · exact Aim.measure_eq hahead (by rw [core]) worker queue hrest
      · simp only [World.helper, hfull]
  | worker core orders balances turn =>
    have hahead : aim.ahead w' place = aim.ahead w place := by
      cases aim with
      | balance => rfl
      | order => rw [Aim.ahead, Aim.ahead, balances]
    refine .inr (.inl ⟨place, Aim.request_of_prefix (orders ▸ List.prefix_rfl)
      (balances ▸ List.prefix_rfl) h, .inl (Aim.measure_lt_of_work hahead (by rw [core]) ?_)⟩)
    cases turn with
    | answers sent work =>
      rw [work, List.length_cons]
      exact Prod.Lex.toLex_lt_toLex.mpr (.inl (Nat.lt_succ_self _))
    | goes sent work rank =>
      rw [work]
      exact Prod.Lex.toLex_lt_toLex.mpr (.inr ⟨rfl, Prod.Lex.toLex_lt_toLex.mpr (.inl rank)⟩)
  | core worker sent turn =>
    exact (turn.nearer hopen worker h).imp_right .inl

end Taken

/-! ## An executed request is answered -/

/-- Which thread carries the item at a place of what was and will be sent. -/
def World.carrier (w : World) (place : ℕ) : Thread :=
  if place < w.sent.length + w.work.length then .journal else .core

/-- What lies before the answer of that item. -/
def World.distance (w : World) (place : ℕ) : ℕ ×ₗ ℕ ×ₗ ℕ :=
  toLex (place - w.sent.length,
    toLex (if place < w.sent.length + w.work.length then 0 else 1, w.worker.rank))

/-- An item that is not answered yet, at its place. -/
structure Carried (item : Item) (place : ℕ) (w : World) : Prop where
  here : (w.sent ++ w.inFlight)[place]? = some item
  later : w.sent.length ≤ place

section Carried

variable {w w' : World} {item : Item} {place : ℕ}

/-- The core leaves the items alone, or hands one over. -/
theorem CoreTurn.handed (turn : CoreTurn w w') :
    (w.core.items = [] ∧ w'.queue = w.queue) ∨
      ∃ item, w.core.items = [item] ∧ w'.core.items = [] ∧ w'.queue = w.queue ++ [item] := by
  cases turn with
  | move here there moves queue orders balances =>
    rw [here]
    exact .inl ⟨moves.items.1, queue⟩
  | balance here there next executed queue orders =>
    rw [here]
    exact .inl ⟨rfl, queue⟩
  | received here there next queue balances =>
    rw [here]
    exact .inl ⟨rfl, queue⟩
  | order here there executed queue orders balances =>
    rw [here]
    exact .inl ⟨rfl, queue⟩
  | @published state item here there queue orders balances =>
    rw [here, there]
    exact .inr ⟨item, rfl, rfl, queue⟩

/-- **An executed request comes nearer to its answer.** -/
theorem Turn.carried (turn : Turn w w') (h : Carried item place w) :
    w'.sent[place]? = some item ∨ Carried item place w' ∧ (w'.distance place < w.distance place ∨
      w'.distance place = w.distance place ∧ w'.carrier place = w.carrier place ∧
        (w.carrier place = .core → w'.core = w.core) ∧
        (w.carrier place = .journal → w'.worker = w.worker)) := by
  cases turn with
  | outside core worker queue sent orders balances =>
    have hwork : w'.work = w.work := by rw [World.work, World.work, worker, queue]
    refine .inr ⟨⟨?_, sent ▸ h.later⟩, .inr ⟨?_, ?_, fun _ => core, fun _ => worker⟩⟩
    · rw [World.inFlight, sent, worker, queue, core]
      exact h.here
    · rw [World.distance, World.distance, sent, hwork, worker]
    · rw [World.carrier, World.carrier, sent, hwork]
  | worker core orders balances turn =>
    cases turn with
    | @answers first sent work =>
      have hsame : w'.sent ++ w'.inFlight = w.sent ++ w.inFlight := by
        show w'.sent ++ (w'.work ++ w'.core.items) = w.sent ++ (w.work ++ w.core.items)
        rw [sent, work, core, List.append_assoc]
        rfl
      have hhere : (w'.sent ++ w'.inFlight)[place]? = some item := hsame ▸ h.here
      have hlength : w'.sent.length = w.sent.length + 1 := by
        rw [sent, List.length_append, List.length_singleton]
      by_cases hplace : place < w'.sent.length
      · rw [List.getElem?_append_left hplace] at hhere
        exact .inl hhere
      · refine .inr ⟨⟨hhere, not_lt.mp hplace⟩, .inl (Prod.Lex.toLex_lt_toLex.mpr (.inl ?_))⟩
        show place - w'.sent.length < place - w.sent.length
        omega
    | goes sent work rank =>
      refine .inr ⟨⟨?_, sent ▸ h.later⟩, .inl ?_⟩
      · show (w'.sent ++ (w'.work ++ w'.core.items))[place]? = some item
        rw [sent, work, core]
        exact h.here
      · rw [World.distance, World.distance, sent, work]
        exact Prod.Lex.toLex_lt_toLex.mpr (.inr ⟨rfl, Prod.Lex.toLex_lt_toLex.mpr (.inr ⟨rfl, rank⟩)⟩)
  | core worker sent turn =>
    have hhere : (w.sent ++ (w.work ++ w.core.items))[place]? = some item := h.here
    rcases turn.handed with ⟨hitems, hqueue⟩ | ⟨last, hitems, hitems', hqueue⟩
    · have hwork : w'.work = w.work := by rw [World.work, World.work, worker, hqueue]
      rw [hitems, List.append_nil] at hhere
      have hplace := (List.getElem?_eq_some_iff.mp hhere).1
      rw [List.length_append] at hplace
      have hcarrier : w.carrier place = .journal := if_pos hplace
      refine .inr ⟨⟨?_, sent ▸ h.later⟩, .inr ⟨?_, ?_, ?_, fun _ => worker⟩⟩
      · show (w'.sent ++ (w'.work ++ w'.core.items))[place]? = some item
        rw [sent, hwork, ← List.append_assoc, List.getElem?_append_left (by rwa [List.length_append])]
        exact hhere
      · rw [World.distance, World.distance, sent, hwork, worker]
      · rw [World.carrier, World.carrier, sent, hwork]
      · rw [hcarrier]
        intro hcore
        cases hcore
    · have hwork : w'.work = w.work ++ [last] := by
        rw [World.work, World.work, worker, hqueue, List.append_assoc]
      have hnext : Carried item place w' := by
        refine ⟨?_, sent ▸ h.later⟩
        show (w'.sent ++ (w'.work ++ w'.core.items))[place]? = some item
        rw [sent, hwork, hitems', List.append_nil, ← hitems]
        exact hhere
      refine .inr ⟨hnext, ?_⟩
      by_cases hplace : place < w.sent.length + w.work.length
      · have hplace' : place < w'.sent.length + w'.work.length := by
          rw [sent, hwork, List.length_append]
          omega
        refine .inr ⟨?_, ?_, ?_, fun _ => worker⟩
        · rw [World.distance, World.distance, if_pos hplace, if_pos hplace', sent, worker]
        · rw [World.carrier, World.carrier, if_pos hplace, if_pos hplace']
        · rw [World.carrier, if_pos hplace]
          intro hcore
          cases hcore
      · have hplace' : place < w'.sent.length + w'.work.length := by
          have hbound := (List.getElem?_eq_some_iff.mp hnext.here).1
          have hflight : w'.inFlight = w'.work := by
            show w'.work ++ w'.core.items = w'.work
            rw [hitems', List.append_nil]
          rwa [hflight, List.length_append] at hbound
        refine .inl ?_
        rw [World.distance, World.distance, if_neg hplace, if_pos hplace', sent]
        exact Prod.Lex.toLex_lt_toLex.mpr (.inr ⟨rfl, Prod.Lex.toLex_lt_toLex.mpr (.inl Nat.one_pos)⟩)

theorem Turn.sent (turn : Turn w w') : w.sent.length ≤ w'.sent.length := by
  cases turn with
  | outside core worker queue sent orders balances => exact (congrArg List.length sent).ge
  | worker core orders balances turn =>
    cases turn with
    | answers sent work =>
      rw [sent, List.length_append]
      exact Nat.le_add_right ..
    | goes sent work rank => exact (congrArg List.length sent).ge
  | core worker sent turn => exact (congrArg List.length sent).ge

end Carried

/-! ## Executions without an end -/

section Run

variable {Json : Type} [DecidableEq Json] {codec : Codec Json} {σ : ℕ → World} {input : Input}

theorem FairRun.turn (h : FairRun codec σ) (hsafe : ∀ i, (σ i).core ≠ .panicked) (i : ℕ) :
    Turn (σ i) (σ (i + 1)) :=
  (h.step i).turn (h.undisturbed i) (h.undisturbed (i + 1)) (hsafe i) (hsafe (i + 1))

theorem FairRun.ne_closing (h : FairRun codec σ) (hsafe : ∀ i, (σ i).core ≠ .panicked) (i : ℕ)
    (state : EngineState) : (σ i).core ≠ .running state .closing := by
  obtain ⟨state', phase, hcore, hopen, -⟩ := (h.undisturbed i).core.resolve_left (hsafe i)
  rw [hcore]
  intro heq
  obtain ⟨-, hphase⟩ := Core.running.inj heq
  exact hopen hphase

theorem FairRun.sent_le (h : FairRun codec σ) (hsafe : ∀ i, (σ i).core ≠ .panicked) {i j : ℕ}
    (hij : i ≤ j) : (σ i).sent.length ≤ (σ j).sent.length := by
  induction j, hij using Nat.le_induction with
  | base => exact le_rfl
  | succ j hij ih => exact ih.trans (h.turn hsafe j).sent

/-- Up to any later time, a request is taken or is still in its queue. -/
theorem request_upto (h : FairRun codec σ) (hsafe : ∀ i, (σ i).core ≠ .panicked) {aim : Aim}
    {place i j : ℕ} (hi : aim.request (σ i) place = some input) (hij : i ≤ j) :
    (∃ k, i ≤ k ∧ (Held input (σ k) ∨ Ran input (σ k))) ∨
      ∃ place, aim.request (σ j) place = some input := by
  induction j, hij using Nat.le_induction with
  | base => exact .inr ⟨place, hi⟩
  | succ j hij ih =>
    rcases ih with htaken | ⟨place', hj⟩
    · exact .inl htaken
    · rcases (h.turn hsafe j).nearer (h.ne_closing hsafe (j + 1)) hj with
        htaken | ⟨place'', hnext, -⟩ | ⟨hnext, -⟩
      · exact .inl ⟨j + 1, hij.trans j.le_succ, htaken⟩
      · exact .inr ⟨place'', hnext⟩
      · exact .inr ⟨place', hnext⟩

/-- While the journal queue is full, the worker need not wait. -/
theorem not_waits_helper (i : ℕ) : ¬ ((σ i).helper).waits σ i := by
  rw [World.helper]
  split
  · next hfull =>
    intro hwaits
    rw [World.Full, hwaits.2] at hfull
    exact absurd hfull (by decide)
  · exact id

/-- A request waits, with what lies before it and the thread that helps. -/
def Requested (σ : ℕ → World) (N : ℕ) (aim : Aim) (input : Input) (a : ℕ ×ₗ ℕ ×ₗ ℕ ×ₗ ℕ ×ₗ ℕ)
    (t : Thread) (i : ℕ) : Prop :=
  N ≤ i ∧ ∃ place, aim.request (σ i) place = some input ∧ aim.measure (σ i) place = a ∧
    (σ i).helper = t

/-- **A request is taken out of its queue**, and a request of the order queue if there are no new
balance requests from some time on. -/
theorem requested_leadsTo (h : FairRun codec σ) (hsafe : ∀ i, (σ i).core ≠ .panicked) (aim : Aim)
    {N : ℕ} (hstill : aim = .order → ∀ i, N ≤ i →
      (σ (i + 1)).balances.length ≤ (σ i).balances.length) :
    LeadsTo (fun i => ∃ place, aim.request (σ i) place = some input)
      (fun i => Held input (σ i) ∨ Ran input (σ i)) := by
  have hready : ∀ a t i, Requested σ N aim input a t i → ¬ t.waits σ i := by
    rintro a t i ⟨-, place, -, -, rfl⟩
    exact not_waits_helper i
  have hstep : ∀ a t i, Requested σ N aim input a t i → Advances (Thread.moves σ)
      (Requested σ N aim input) (fun i => Held input (σ i) ∨ Ran input (σ i)) a t i := by
    rintro a t i ⟨hi, place, hrequest, rfl, rfl⟩
    have hnext : N ≤ i + 1 := hi.trans i.le_succ
    rcases (h.turn hsafe i).nearer (h.ne_closing hsafe (i + 1)) hrequest with
      htaken | ⟨place', hrequest', hlower | hidle⟩ | ⟨-, haim, hnew⟩
    · exact .inl htaken
    · exact .inr (.inl ⟨_, _, hlower, hnext, place', hrequest', rfl, rfl⟩)
    · refine .inr (.inr ⟨⟨hnext, place', hrequest', hidle.measure, hidle.helper⟩, ?_⟩)
      cases hhelper : (σ i).helper with
      | core => exact fun hmoves => hmoves (hidle.core hhelper)
      | journal => exact fun hmoves => hmoves (hidle.journal hhelper)
    · exact absurd (hstill haim i hi) (not_le.mpr hnew)
  rintro i ⟨place, hi⟩
  rcases request_upto h hsafe hi (le_max_left i N) with htaken | ⟨place', hj⟩
  · exact htaken
  · obtain ⟨k, hk, htaken⟩ := h.fair.leadsTo hready hstep (max i N)
      ⟨_, _, le_max_right i N, place', hj, rfl, rfl⟩
    exact ⟨k, (le_max_left i N).trans hk, htaken⟩

/-- The flags are read again, and they are as before. -/
theorem CoreTurn.rechecked {w w' : World} {state : EngineState} {command : OrderCommand}
    (turn : CoreTurn w w') (hcore : w.core = .running state (.rechecking command))
    (hopen : ∀ state, w'.core ≠ .running state .closing) :
    w'.core = .running state (.confirming command) := by
  cases turn with
  | move here there moves queue orders balances =>
    obtain ⟨rfl, rfl⟩ := Core.running.inj (hcore.symm.trans here)
    cases moves with
    | rechecked accepting => exact there
    | refused closed => exact absurd there (hopen _)
  | balance here | received here | order here | published here =>
    rw [hcore] at here
    cases here

theorem CoreTurn.confirmed {w w' : World} {state : EngineState} {command : OrderCommand}
    (turn : CoreTurn w w') (hcore : w.core = .running state (.confirming command))
    (hopen : ∀ state, w'.core ≠ .running state .closing) : Ran (.order command) w' := by
  cases turn with
  | move here there moves queue orders balances =>
    obtain ⟨rfl, rfl⟩ := Core.running.inj (hcore.symm.trans here)
    cases moves with
    | abandoned halted => exact absurd there (hopen _)
  | @order state state' other item here there executed queue orders balances =>
    obtain ⟨rfl, hphase⟩ := Core.running.inj (hcore.symm.trans here)
    obtain rfl := CorePhase.confirming.inj hphase
    exact ⟨_, state', item, there, executed⟩
  | balance here | received here | published here =>
    rw [hcore] at here
    cases here

/-- The core has the request in its hand, for the last two steps before it is executed. -/
def HeldAt (σ : ℕ → World) (input : Input) (a : ℕ) (t : Thread) (i : ℕ) : Prop :=
  t = .core ∧ ∃ state command, input = .order command ∧
    (a = 1 ∧ (σ i).core = .running state (.rechecking command) ∨
      a = 0 ∧ (σ i).core = .running state (.confirming command))

/-- **A request that the core holds is executed.** -/
theorem held_leadsTo (h : FairRun codec σ) (hsafe : ∀ i, (σ i).core ≠ .panicked) :
    LeadsTo (fun i => Held input (σ i) ∨ Ran input (σ i)) (fun i => Ran input (σ i)) := by
  have hready : ∀ a t i, HeldAt σ input a t i → ¬ t.waits σ i := by
    rintro a t i ⟨rfl, -⟩
    exact id
  have hstep : ∀ a t i, HeldAt σ input a t i →
      Advances (Thread.moves σ) (HeldAt σ input) (fun i => Ran input (σ i)) a t i := by
    rintro a t i ⟨rfl, state, command, rfl, hphase⟩
    have hsame : (σ (i + 1)).core = (σ i).core → Advances (Thread.moves σ) (HeldAt σ (.order command))
        (fun i => Ran (.order command) (σ i)) a .core i := by
      intro hcore
      refine .inr (.inr ⟨⟨rfl, state, command, rfl, ?_⟩, fun hmoves => hmoves hcore⟩)
      rw [hcore]
      exact hphase
    have hopen := h.ne_closing hsafe (i + 1)
    cases h.turn hsafe i with
    | outside core worker queue sent orders balances => exact hsame core
    | worker core orders balances turn => exact hsame core
    | core worker sent turn =>
      rcases hphase with ⟨rfl, hcore⟩ | ⟨rfl, hcore⟩
      · have hnext := turn.rechecked hcore hopen
        exact .inr (.inl ⟨0, .core, Nat.zero_lt_one, rfl, state, command, rfl, .inr ⟨rfl, hnext⟩⟩)
      · exact .inl (turn.confirmed hcore hopen)
  rintro i (⟨state, command, rfl, hphase⟩ | hran)
  · refine h.fair.leadsTo hready hstep i ?_
    rcases hphase with hcore | hcore
    · exact ⟨1, .core, rfl, state, command, rfl, .inl ⟨rfl, hcore⟩⟩
    · exact ⟨0, .core, rfl, state, command, rfl, .inr ⟨rfl, hcore⟩⟩
  · exact ⟨i, le_rfl, hran⟩

/-- An item is on its way, with what lies before its answer and the thread that carries it. -/
def CarriedAt (σ : ℕ → World) (item : Item) (place : ℕ) (a : ℕ ×ₗ ℕ ×ₗ ℕ) (t : Thread) (i : ℕ) : Prop :=
  Carried item place (σ i) ∧ (σ i).distance place = a ∧ (σ i).carrier place = t

/-- The worker need not wait while it carries an item. -/
theorem not_waits_carrier {item : Item} {place i : ℕ} (h : Carried item place (σ i)) :
    ¬ ((σ i).carrier place).waits σ i := by
  rw [World.carrier]
  split
  · next hplace =>
    rintro ⟨hworker, hqueue⟩
    rw [World.work, hworker, hqueue] at hplace
    exact absurd h.later (not_le.mpr hplace)
  · exact id

/-- **An executed request is answered.** -/
theorem carried_leadsTo (h : FairRun codec σ) (hsafe : ∀ i, (σ i).core ≠ .panicked) (item : Item)
    (place : ℕ) : LeadsTo (fun i => Carried item place (σ i)) (fun i => (σ i).sent[place]? = some item) := by
  have hready : ∀ a t i, CarriedAt σ item place a t i → ¬ t.waits σ i := by
    rintro a t i ⟨hi, -, rfl⟩
    exact not_waits_carrier hi
  have hstep : ∀ a t i, CarriedAt σ item place a t i → Advances (Thread.moves σ)
      (CarriedAt σ item place) (fun i => (σ i).sent[place]? = some item) a t i := by
    rintro a t i ⟨hi, rfl, rfl⟩
    rcases (h.turn hsafe i).carried hi with hsent | ⟨hnext, hlower | ⟨hdistance, hcarrier, hcore, hworker⟩⟩
    · exact .inl hsent
    · exact .inr (.inl ⟨_, _, hlower, hnext, rfl, rfl⟩)
    · refine .inr (.inr ⟨⟨hnext, hdistance, hcarrier⟩, ?_⟩)
      cases hthread : (σ i).carrier place with
      | core => exact fun hmoves => hmoves (hcore hthread)
      | journal => exact fun hmoves => hmoves (hworker hthread)
  exact fun i hi => h.fair.leadsTo hready hstep i ⟨_, _, hi, rfl, rfl⟩

/-- **A request is served** once it is executed. -/
theorem served_of_ran (h : FairRun codec σ) (hsafe : ∀ i, (σ i).core ≠ .panicked) {i j : ℕ}
    (hij : i ≤ j) (hran : Ran input (σ j)) : Served σ i input := by
  obtain ⟨state, state', item, hcore, hexecute⟩ := hran
  have hcarried : Carried item ((σ j).sent.length + (σ j).work.length) (σ j) := by
    refine ⟨?_, Nat.le_add_right ..⟩
    show ((σ j).sent ++ ((σ j).work ++ (σ j).core.items))[_]? = some item
    rw [← List.append_assoc, ← List.length_append, List.getElem?_append_right le_rfl, Nat.sub_self, hcore]
    rfl
  obtain ⟨k, hjk, hsent⟩ := carried_leadsTo h hsafe item _ j hcarried
  refine ⟨k, item, state, state', hij.trans hjk, hexecute, ?_⟩
  have hlength := h.sent_le hsafe hij
  refine List.mem_of_getElem? (i := (σ j).sent.length + (σ j).work.length - (σ i).sent.length) ?_
  rw [List.getElem?_drop, Nat.add_sub_cancel' (hlength.trans (Nat.le_add_right ..))]
  exact hsent

/-- **Nothing is stuck**, neither a request nor an item. -/
structure Serves (σ : ℕ → World) : Prop where
  balances : ∀ i command, command ∈ (σ i).balances → Served σ i (.balance command)
  /-- The balance requests go first, so they have to stop at some time. -/
  orders : (∃ N, ∀ i, N ≤ i → (σ (i + 1)).balances.length ≤ (σ i).balances.length) →
    ∀ i command, command ∈ (σ i).orders → Served σ i (.order command)
  held : ∀ i input, Held input (σ i) → Served σ i input
  executed : ∀ i item, item ∈ (σ i).inFlight → ∃ j, i ≤ j ∧ item ∈ (σ j).sent

theorem FairRun.reachable {start : World} (h : FairRun codec σ) (hstart : Reachable codec start (σ 0))
    (i : ℕ) : Reachable codec start (σ i) := by
  induction i with
  | zero => exact hstart
  | succ i ih => exact .step ih (h.step i)

/-- **Every request is executed and answered**, in every fair execution that nobody disturbs. -/
theorem requests_served {platform : Startup.Platform} {cache : BalanceCache} {engineId : String}
    {start : World} (hload : Startup.loadBalances platform = .ok cache)
    (hid : codec.isUuid engineId = true)
    (hgenesis : codec.parseGenesis (codec.genesisText ⟨4, engineId, cache.journalSeed⟩) =
      some ⟨4, engineId, cache.journalSeed⟩)
    (hstart : start.Initial codec cache engineId) (hreached : Reachable codec start (σ 0))
    (hrun : FairRun codec σ) (hrecords : ∀ i, Legible codec (σ i).store) : Serves σ := by
  have hcache := Startup.loadBalances_admissible hload
  have hsafe : ∀ i, (σ i).core ≠ .panicked := fun i =>
    ((hrun.reachable hreached i).inv hcache hid hgenesis hstart (hrecords i)).2
  have hserved : ∀ {P : ℕ → Prop} {i input}, LeadsTo P (fun i => Ran input (σ i)) → P i →
      Served σ i input := by
    intro P i input hleads hi
    obtain ⟨j, hij, hran⟩ := hleads i hi
    exact served_of_ran hrun hsafe hij hran
  refine ⟨fun i command hcommand => ?_, fun hstill i command hcommand => ?_,
    fun i input hheld => hserved (held_leadsTo hrun hsafe) (.inl hheld), fun i item hitem => ?_⟩
  · obtain ⟨place, hplace⟩ := List.mem_iff_getElem?.mp hcommand
    have hrequest : Aim.balance.request (σ i) place = some (.balance command) :=
      Option.map_eq_some_iff.mpr ⟨command, hplace, rfl⟩
    have hother : Aim.balance = .order → ∀ i, 0 ≤ i →
        (σ (i + 1)).balances.length ≤ (σ i).balances.length := fun haim => by cases haim
    exact hserved ((requested_leadsTo hrun hsafe .balance hother).trans (held_leadsTo hrun hsafe))
      ⟨place, hrequest⟩
  · obtain ⟨N, hN⟩ := hstill
    obtain ⟨place, hplace⟩ := List.mem_iff_getElem?.mp hcommand
    have hrequest : Aim.order.request (σ i) place = some (.order command) :=
      Option.map_eq_some_iff.mpr ⟨command, hplace, rfl⟩
    exact hserved ((requested_leadsTo hrun hsafe .order (fun _ => hN)).trans (held_leadsTo hrun hsafe))
      ⟨place, hrequest⟩
  · obtain ⟨place, hplace⟩ := List.mem_iff_getElem?.mp hitem
    have hcarried : Carried item ((σ i).sent.length + place) (σ i) := by
      refine ⟨?_, Nat.le_add_right ..⟩
      rw [List.getElem?_append_right (Nat.le_add_right ..), Nat.add_sub_cancel_left]
      exact hplace
    obtain ⟨j, hij, hsent⟩ := carried_leadsTo hrun hsafe item _ i hcarried
    exact ⟨j, hij, List.mem_of_getElem? hsent⟩

end Run

/-! ### A deposit in an execution without an end -/

section Sample

variable {Json : Type} [DecidableEq Json] {codec : Codec Json} {w w' : World}

/-- A fair execution goes on from a world, with records that can be read. -/
def Continues (codec : Codec Json) (w : World) : Prop :=
  ∃ σ, FairRun codec σ ∧ σ 0 = w ∧ ∀ i, Legible codec (σ i).store

/-- The execution `σ` with one world before it. -/
def prepend (w : World) (σ : ℕ → World) : ℕ → World
  | 0 => w
  | i + 1 => σ i

theorem Continues.cons (step : Step codec w w') (hw : Undisturbed w) (h : Continues codec w') :
    Continues codec w := by
  obtain ⟨σ, hrun, rfl, hlegible⟩ := h
  refine ⟨prepend w σ, ⟨fun i => ?_, fun i => ?_, fun t i => ?_⟩, rfl, fun i => ?_⟩
  · cases i with
    | zero => exact step
    | succ i => exact hrun.step i
  · cases i with
    | zero => exact hw
    | succ i => exact hrun.undisturbed i
  · obtain ⟨j, hij, hj⟩ := hrun.fair t i
    refine ⟨j + 1, hij.trans j.le_succ, ?_⟩
    cases t with
    | core => exact hj
    | journal => exact hj
  · cases i with
    | zero => exact step.legible (hlegible 0)
    | succ i => exact hlegible i

/-- The phases of a core that finds nothing to do. -/
def CorePhase.next : CorePhase → CorePhase
  | loop => checking
  | checking => polling
  | polling => balances
  | balances => orders
  | _ => loop

/-- The core has looked for a request `i` times, and found none. -/
def idleRun (w : World) (state : EngineState) (i : ℕ) : World :=
  { w with core := .running state (CorePhase.next^[i] .loop) }

theorem next_iterate (i : ℕ) : CorePhase.next^[i] .loop ∈
    [CorePhase.loop, .checking, .polling, .balances, .orders] := by
  induction i with
  | zero => simp
  | succ i ih =>
    rw [Function.iterate_succ_apply']
    simp only [List.mem_cons, List.not_mem_nil, or_false] at ih
    rcases ih with h | h | h | h | h <;> rw [h] <;> simp [CorePhase.next]

theorem idle_step {state : EngineState} {phase : CorePhase} (hcore : w.core = .running state phase)
    (hphase : phase ∈ [CorePhase.loop, .checking, .polling, .balances, .orders])
    (hempty : w.queue = [] ∧ w.balances = [] ∧ w.orders = [])
    (hopen : w.running = true ∧ w.closed = false) :
    Moves w phase phase.next := by
  simp only [List.mem_cons, List.not_mem_nil, or_false] at hphase
  rcases hphase with rfl | rfl | rfl | rfl | rfl
  · exact .running hopen.1
  · exact .accepting hopen.2
  · refine .reserved ?_
    rw [hempty.1]
    decide
  · exact .noBalance hempty.2.1
  · exact .timeout hempty.2.2

/-- An engine without requests goes on for ever. -/
theorem continues_idle {state : EngineState} (hcore : w.core = .running state .loop)
    (hworker : w.worker = .receiving) (hempty : w.queue = [] ∧ w.balances = [] ∧ w.orders = [])
    (hopen : w.running = true ∧ w.closed = false) (hlegible : Legible codec w.store) :
    Continues codec w := by
  have hnext : ∀ i, Moves (idleRun w state i) (CorePhase.next^[i] .loop)
      (CorePhase.next^[i + 1] .loop) := by
    intro i
    rw [Function.iterate_succ_apply']
    exact idle_step rfl (next_iterate i) hempty hopen
  refine ⟨idleRun w state, ⟨fun i => .move rfl (hnext i), fun i => ⟨.inr ?_, ?_⟩, fun t i => ?_⟩, ?_,
    fun _ => hlegible⟩
  · refine ⟨state, _, rfl, fun hclosing => ?_, hopen⟩
    have hmem := next_iterate i
    rw [hclosing] at hmem
    simp at hmem
  · show w.worker.Works
    rw [hworker]
    trivial
  · refine ⟨i, le_rfl, ?_⟩
    cases t with
    | core =>
      refine .inl fun heq => ?_
      obtain ⟨-, hphase⟩ := Core.running.inj heq
      rw [Function.iterate_succ_apply'] at hphase
      have hmem := next_iterate i
      simp only [List.mem_cons, List.not_mem_nil, or_false] at hmem
      rcases hmem with h | h | h | h | h <;> rw [h] at hphase <;> cases hphase
    | journal => exact .inr ⟨hworker, hempty.1⟩
  · show { w with core := .running state .loop } = w
    rw [← hcore]

/-- The request of a deposit. -/
def sampleDeposit : BalanceCommand := .creditDeposit Output.sampleCredit 0

/-- A process has started, and the deposit is in the queue. -/
def depositWorld : World :=
  { (recordStart creditCodec).booted (.genesis Store.sampleCache) 0 with balances := [sampleDeposit] }

theorem depositWorld_reachable : Reachable creditCodec (recordStart creditCodec) depositWorld := by
  have h0 : Reachable creditCodec (recordStart creditCodec) (recordStart creditCodec) := .start
  have h1 := h0.step (.boot ⟨rfl, rfl⟩ recover_record rfl)
  exact h1.step (@Step.sendBalance _ _ _ _ sampleDeposit nofun (by decide))

theorem continues_deposit : Continues creditCodec depositWorld := by
  obtain ⟨state, hexecute⟩ := exists_credited
  have hroom : ([] : List Item).length < journalCapacity := by decide
  refine .cons (.move rfl (.running rfl)) ⟨.inr ⟨_, _, rfl, nofun, rfl, rfl⟩, trivial⟩ ?_
  refine .cons (.move rfl (.accepting rfl)) ⟨.inr ⟨_, _, rfl, nofun, rfl, rfl⟩, trivial⟩ ?_
  refine .cons (.move rfl (.reserved hroom)) ⟨.inr ⟨_, _, rfl, nofun, rfl, rfl⟩, trivial⟩ ?_
  refine .cons (.balance rfl rfl hexecute) ⟨.inr ⟨_, _, rfl, nofun, rfl, rfl⟩, trivial⟩ ?_
  refine .cons (.published rfl hroom) ⟨.inr ⟨_, _, rfl, nofun, rfl, rfl⟩, trivial⟩ ?_
  refine .cons (.started rfl rfl) ⟨.inr ⟨_, _, rfl, nofun, rfl, rfl⟩, trivial⟩ ?_
  refine .cons (.first rfl rfl) ⟨.inr ⟨_, _, rfl, nofun, rfl, rfl⟩, trivial⟩ ?_
  refine .cons (.gathered rfl (.inl rfl)) ⟨.inr ⟨_, _, rfl, nofun, rfl, rfl⟩, trivial⟩ ?_
  refine .cons (.committed rfl append_creditStore.1) ⟨.inr ⟨_, _, rfl, nofun, rfl, rfl⟩, trivial⟩ ?_
  refine .cons (.progressed rfl) ⟨.inr ⟨_, _, rfl, nofun, rfl, rfl⟩, trivial⟩ ?_
  refine .cons (.answered rfl) ⟨.inr ⟨_, _, rfl, nofun, rfl, rfl⟩, trivial⟩ ?_
  refine .cons (.again rfl) ⟨.inr ⟨_, _, rfl, nofun, rfl, rfl⟩, trivial⟩ ?_
  exact continues_idle rfl rfl ⟨rfl, rfl, rfl⟩ ⟨rfl, rfl⟩ legible_creditStore

/-- The deposit is served. -/
theorem requests_served_deposit : ∃ σ, FairRun creditCodec σ ∧ (σ 0).balances = [sampleDeposit] ∧
    Serves σ := by
  obtain ⟨σ, hrun, hworld, hlegible⟩ := continues_deposit
  have hreached : Reachable creditCodec (recordStart creditCodec) (σ 0) :=
    hworld ▸ depositWorld_reachable
  exact ⟨σ, hrun, congrArg World.balances hworld, requests_served Store.loadBalances_sample
    record_isUuid record_genesis initial_record.world hreached hrun hlegible⟩

end Sample

end Pipeline

end CexEngine
