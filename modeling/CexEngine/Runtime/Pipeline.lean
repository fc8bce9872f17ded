import CexEngine.Runtime.Recovery

/-!
# From a request to its answer

`commands.rs`, `balance_commands.rs`, the loop of `threads.rs`, `run` of `journal/store.rs` and
what `engine.rs` does to start and to stop.  Clients put requests into two bounded queues.  The
core takes them out, executes them on a state of its own and puts the executed items into the
bounded queue of the journal worker, which commits them in groups and answers them afterwards.

`Step` has one rule for every access to what is shared: the queues, the two flags, the tables and
the counter of what is durable.  A commit may fail, with or without its records on the disk, and
the process may stop anywhere and be started again.

The fields `history`, `life`, `count` of a world and all fields of an `Item` but the first are
there to state what holds; no rule reads them.
-/

namespace CexEngine

open Foundation Amount

/-! ## Requests -/

/-- A request of the order queue, with the number of the sender of its answer. -/
inductive OrderCommand where
  | submitOrder (order : OrderEntry) (response : ℕ)
  | cancelOrder (orderId userId : UInt64) (tradingPair : TradingPair) (response : ℕ)
  | getOrderbook (tradingPair : TradingPair) (depth : Option ℕ) (response : ℕ)
  | getBalance (userId : UInt64) (mint : String) (response : ℕ)
  | lockBalance (userId : UInt64) (mint : String) (amount : Decimal) (response : ℕ)
  | unlockBalance (userId : UInt64) (mint : String) (amount : Decimal) (response : ℕ)

/-- A request of the balance queue. -/
inductive BalanceCommand where
  | withdrawal (command : WithdrawalCommand) (response : ℕ)
  | creditDeposit (credit : DepositCredit) (response : ℕ)
  | updateBalance (userId : UInt64) (mint : String) (availableDelta : Decimal) (response : ℕ)

/-- What the core takes out of one of its queues. -/
inductive Input where
  | order (command : OrderCommand)
  | balance (command : BalanceCommand)

/-- The first orders of a list, if a number is given. -/
def takeDepth (depth : Option ℕ) (orders : List OrderEntry) : List OrderEntry :=
  match depth with
  | some count => orders.take count
  | none => orders

namespace OrderCommand

/-- The command of a request and where its answer goes.  A query has no command; it is answered
from the state as it is. -/
def request (state : EngineState) : OrderCommand → Option Command × Reply
  | submitOrder order response => (some (.submit order), .submit response)
  | cancelOrder orderId userId tradingPair response =>
    (some (.cancel orderId userId tradingPair), .cancel response)
  | lockBalance userId mint amount response => (some (.lock userId mint amount), .unit response)
  | unlockBalance userId mint amount response => (some (.unlock userId mint amount), .unit response)
  | getBalance userId mint response =>
    let balance := (state.cache.getBalance userId mint).getD Balance.new
    (none, .balance response balance.available balance.locked)
  | getOrderbook tradingPair depth response =>
    match state.orderbooks.lookup tradingPair with
    | some book =>
      (none, .book response
        (takeDepth depth (book.buyOrders.orders.entries.reverse.flatMap Prod.snd))
        (takeDepth depth (book.sellOrders.orders.entries.flatMap Prod.snd)))
    | none => (none, .book response [] [])

end OrderCommand

namespace BalanceCommand

def request : BalanceCommand → Command × Reply
  | withdrawal command response => (.withdrawal command, .withdrawal response)
  | updateBalance userId mint availableDelta response =>
    (.balance userId mint availableDelta, .unit response)
  | creditDeposit credit response => (.creditDeposit credit, .unit response)

end BalanceCommand

namespace Input

def request (state : EngineState) : Input → Option Command × Reply
  | order command => command.request state
  | balance command => (some command.request.1, command.request.2)

/-- Execute a request: the item for the journal, and the state afterwards. -/
def execute (state : EngineState) (input : Input) : Except Fault (Pending × EngineState) :=
  match input.request state with
  | (none, reply) => .ok (⟨none, .applied none, reply⟩, state)
  | (some command, reply) =>
    match (Journal.apply command).run state with
    | (.ok outcome, state) => .ok (⟨some command, outcome, reply⟩, state)
    | (.error fault, _) => .error fault

theorem execute_of_run {state state' : EngineState} {input : Input} {command : Command}
    {reply : Reply} {outcome : Outcome} (hrequest : input.request state = (some command, reply))
    (hrun : (Journal.apply command).run state = (.ok outcome, state')) :
    input.execute state = .ok (⟨some command, outcome, reply⟩, state') := by
  simp only [execute, hrequest, hrun]

/-- A request that is executed, from the result alone. -/
theorem exists_execute {state : EngineState} {input : Input} {command : Command} {reply : Reply}
    {outcome : Outcome} (hrequest : input.request state = (some command, reply))
    (hrun : ((Journal.apply command).run state).1.toOption = some outcome) :
    ∃ state', input.execute state = .ok (⟨some command, outcome, reply⟩, state') := by
  rcases hresult : (Journal.apply command).run state with ⟨fault | other, state'⟩
  · rw [hresult] at hrun
    cases hrun
  · rw [hresult] at hrun
    obtain rfl : other = outcome := Option.some.inj hrun
    exact ⟨state', execute_of_run hrequest hresult⟩

end Input

/-! ## The system -/

namespace Pipeline

open Store (executed)

/-- The capacity of the two queues of the clients. -/
def inputCapacity : ℕ := 100000

/-- The capacity of the queue of the journal worker. -/
def journalCapacity : ℕ := 100000

/-- The items of one transaction. -/
def groupSize : ℕ := 256

/-- An executed item, with the commands that were executed up to it, its own included, the start
of the process that executed it, and its number there. -/
structure Item where
  pending : Pending
  history : List (Command × Outcome)
  life : ℕ
  number : ℕ
  deriving DecidableEq

/-- Where the core stands. -/
inductive CorePhase where
  /-- The flags are about to be read, and then whether the journal queue is full. -/
  | loop
  | checking
  | polling
  /-- The balance queue is about to be tried, and then the order queue. -/
  | balances
  | orders
  /-- A request was taken out of the order queue, and the flags are read again. -/
  | rechecking (command : OrderCommand)
  | confirming (command : OrderCommand)
  | publishing (item : Item)
  | closing

inductive Core where
  | down
  | running (state : EngineState) (phase : CorePhase)
  | stopped
  | panicked

/-- Where the journal worker stands. -/
inductive Worker where
  | down
  | starting
  | receiving
  | grouping (group : List Item)
  | committing (group : List Item)
  /-- The group is committed, and what is durable is about to be published. -/
  | publishing (group : List Item)
  | answering (group : List Item)
  /-- The commit of the group failed, and the engine is about to be closed. -/
  | failing (group : List Item)
  | failed (group : List Item)
  | ended

structure World where
  store : Store
  orders : List OrderCommand
  balances : List BalanceCommand
  running : Bool
  closed : Bool
  core : Core
  queue : List Item
  worker : Worker
  /-- The worker's own count of the records. -/
  sequence : ℕ
  durable : ℕ
  journalDone : Bool
  /-- The items that were answered. -/
  sent : List Item
  /-- The commands that were executed, in order: those of the journal when the process was
  started, and those since then. -/
  history : List (Command × Outcome)
  life : ℕ
  count : ℕ

/-- A journal without records, written from the balances `cache`. -/
structure World.Initial {Json : Type} (codec : Codec Json) (cache : BalanceCache)
    (engineId : String) (w : World) : Prop where
  genesis : Store.initializeGenesis codec engineId (.genesis cache) Store.fresh = .ok w.store
  down : w.core = .down ∧ w.worker = .down
  empty : w.orders = [] ∧ w.balances = [] ∧ w.queue = []
  silent : w.sent = [] ∧ w.history = [] ∧ w.durable = 0

/-- The core executed a request. -/
def World.execute (w : World) (state : EngineState) (pending : Pending) : World :=
  { w with
    core := .running state
      (.publishing ⟨pending, w.history ++ executed [pending], w.life, w.count⟩)
    history := w.history ++ executed [pending]
    count := w.count + 1 }

/-- The moves of the core that only read. -/
inductive Moves (w : World) : CorePhase → CorePhase → Prop
  | running (running : w.running = true) : Moves w .loop .checking
  | halted (halted : w.running = false) : Moves w .loop .closing
  | accepting (accepting : w.closed = false) : Moves w .checking .polling
  | barred (closed : w.closed = true) : Moves w .checking .closing
  /-- The core spins while the journal queue is full. -/
  | full (full : journalCapacity ≤ w.queue.length) : Moves w .polling .loop
  | reserved (room : w.queue.length < journalCapacity) : Moves w .polling .balances
  | noBalance (empty : w.balances = []) : Moves w .balances .orders
  | timeout (empty : w.orders = []) : Moves w .orders .loop
  | disconnected (empty : w.orders = []) : Moves w .orders .closing
  | rechecked {command : OrderCommand} (accepting : w.closed = false) :
      Moves w (.rechecking command) (.confirming command)
  | refused {command : OrderCommand} (closed : w.closed = true) :
      Moves w (.rechecking command) .closing
  | abandoned {command : OrderCommand} (halted : w.running = false) :
      Moves w (.confirming command) .closing

section Step

variable {Json : Type} [DecidableEq Json] (codec : Codec Json)

/-- One step of the system. -/
inductive Step : World → World → Prop
  /-- The process starts: the journal is recovered and the workers are spawned. -/
  | boot {w : World} {state : EngineState} {engineId : String} {last : ℕ}
      (down : w.core = .down ∧ w.worker = .down)
      (recovered : w.store.recover codec = .ok (state, engineId))
      (sequence : w.store.lastSequence = .ok last) :
      Step w { w with
        orders := [], balances := [], running := true, closed := false
        core := .running state .loop, queue := [], worker := .starting
        durable := last, journalDone := false
        history := w.history.take w.store.records.entries.length
        life := w.life + 1, count := 0 }
  /-- The process stops, wherever it is. -/
  | crash {w : World} :
      Step w { w with
        orders := [], balances := [], core := .down, queue := [], worker := .down }
  /-- The engine is told to stop, or the output worker fails. -/
  | close {w : World} : Step w { w with closed := true }
  | halt {w : World} (closed : w.closed = true) : Step w { w with running := false }
  /-- The output worker moves the delivery cursor. -/
  | marked {w : World} {n : ℕ} {store : Store} (up : w.core ≠ .down) (behind : n ≤ w.durable)
      (marked : w.store.markDelivered n = .ok store) : Step w { w with store }
  /-- A client has found the engine open and puts a request into a queue with room. -/
  | sendOrder {w : World} {command : OrderCommand} (up : w.core ≠ .down)
      (room : w.orders.length < inputCapacity) : Step w { w with orders := w.orders ++ [command] }
  | sendBalance {w : World} {command : BalanceCommand} (up : w.core ≠ .down)
      (room : w.balances.length < inputCapacity) :
      Step w { w with balances := w.balances ++ [command] }
  | move {w : World} {state : EngineState} {phase phase' : CorePhase}
      (here : w.core = .running state phase) (moves : Moves w phase phase') :
      Step w { w with core := .running state phase' }
  | balance {w : World} {state state' : EngineState} {command : BalanceCommand}
      {rest : List BalanceCommand} {pending : Pending} (here : w.core = .running state .balances)
      (next : w.balances = command :: rest)
      (executed : (Input.balance command).execute state = .ok (pending, state')) :
      Step w { w.execute state' pending with balances := rest }
  | received {w : World} {state : EngineState} {command : OrderCommand} {rest : List OrderCommand}
      (here : w.core = .running state .orders) (next : w.orders = command :: rest) :
      Step w { w with orders := rest, core := .running state (.rechecking command) }
  | order {w : World} {state state' : EngineState} {command : OrderCommand} {pending : Pending}
      (here : w.core = .running state (.confirming command)) (running : w.running = true)
      (executed : (Input.order command).execute state = .ok (pending, state')) :
      Step w (w.execute state' pending)
  /-- The execution of a request panics, and the core ends. -/
  | fault {w : World} {state : EngineState} {phase : CorePhase} {input : Input} {fault : Fault}
      (here : w.core = .running state phase) (executed : input.execute state = .error fault) :
      Step w { w with core := .panicked, closed := true }
  | published {w : World} {state : EngineState} {item : Item}
      (here : w.core = .running state (.publishing item)) (room : w.queue.length < journalCapacity) :
      Step w { w with core := .running state .loop, queue := w.queue ++ [item] }
  /-- The assertion of `publish` fails. -/
  | overflow {w : World} {state : EngineState} {item : Item}
      (here : w.core = .running state (.publishing item)) (full : journalCapacity ≤ w.queue.length) :
      Step w { w with core := .panicked, closed := true }
  | stopped {w : World} {state : EngineState} (here : w.core = .running state .closing) :
      Step w { w with core := .stopped, closed := true }
  | started {w : World} {last : ℕ} (here : w.worker = .starting)
      (sequence : w.store.lastSequence = .ok last) :
      Step w { w with worker := .receiving, sequence := last }
  | startFailed {w : World} (here : w.worker = .starting) : Step w { w with worker := .failing [] }
  | first {w : World} {item : Item} {rest : List Item} (here : w.worker = .receiving)
      (next : w.queue = item :: rest) : Step w { w with worker := .grouping [item], queue := rest }
  | grouped {w : World} {group : List Item} {item : Item} {rest : List Item}
      (here : w.worker = .grouping group) (room : group.length < groupSize)
      (next : w.queue = item :: rest) :
      Step w { w with worker := .grouping (group ++ [item]), queue := rest }
  | gathered {w : World} {group : List Item} (here : w.worker = .grouping group)
      (full : w.queue = [] ∨ groupSize ≤ group.length) : Step w { w with worker := .committing group }
  | committed {w : World} {group : List Item} {clock : ℕ → Timestamp} {store : Store} {last : ℕ}
      (here : w.worker = .committing group)
      (appended : w.store.append codec clock (group.map Item.pending) w.sequence =
        .ok (store, last)) :
      Step w { w with store, sequence := last, worker := .publishing group }
  | commitFailed {w : World} {group : List Item} (here : w.worker = .committing group) :
      Step w { w with worker := .failing group }
  /-- The commit returns an error although the records are on the disk. -/
  | commitLost {w : World} {group : List Item} {clock : ℕ → Timestamp} {store : Store} {last : ℕ}
      (here : w.worker = .committing group)
      (appended : w.store.append codec clock (group.map Item.pending) w.sequence =
        .ok (store, last)) :
      Step w { w with store, worker := .failing group }
  | progressed {w : World} {group : List Item} (here : w.worker = .publishing group) :
      Step w { w with durable := w.sequence, worker := .answering group }
  | answered {w : World} {item : Item} {group : List Item}
      (here : w.worker = .answering (item :: group)) :
      Step w { w with sent := w.sent ++ [item], worker := .answering group }
  | again {w : World} (here : w.worker = .answering []) : Step w { w with worker := .receiving }
  /-- The queue is empty and the core, its only sender, has ended. -/
  | drained {w : World} (here : w.worker = .receiving) (empty : w.queue = [])
      (ended : w.core = .stopped ∨ w.core = .panicked) :
      Step w { w with worker := .ended, journalDone := true }
  | failed {w : World} {group : List Item} (here : w.worker = .failing group) :
      Step w { w with worker := .failed group, closed := true, journalDone := true }

/-- The states of all executions from a world. -/
inductive Reachable (start : World) : World → Prop
  | start : Reachable start start
  | step {w w' : World} (reached : Reachable start w) (step : Step codec w w') : Reachable start w'

end Step

end Pipeline

end CexEngine
