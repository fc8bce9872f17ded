import CexEngine.Runtime.Durability
import CexEngine.Runtime.Output

/-!
# The calls of clients

`handle.rs`.  A clone of `EngineHandle` holds the senders of the two queues and the flag that
says whether the engine accepts requests.  A call reads the flag, tries to put its request into a
queue, and waits for the answer on a channel of its own; it gives up after some seconds, and it is
told when the sender of its answer was dropped.  No call holds a lock while it waits, so any number
of calls are on their way at the same time.

`Clients` is the system of `Pipeline` together with all calls that were ever made.  The number of a
call is the number of the sender in its request.  Two fields are there to state what holds and are
read by no rule: the numbers of the requests that were executed (`log`), and for every call the
calls that had been answered when it was made (`after`).
-/

namespace CexEngine

open Foundation Amount

/-! ## Requests and their senders -/

def OrderCommand.response : OrderCommand → ℕ
  | submitOrder _ response | cancelOrder _ _ _ response | getOrderbook _ _ response
  | getBalance _ _ response | lockBalance _ _ _ response | unlockBalance _ _ _ response => response

def BalanceCommand.response : BalanceCommand → ℕ
  | withdrawal _ response | creditDeposit _ response | updateBalance _ _ _ response => response

def Input.response : Input → ℕ
  | order command => command.response
  | balance command => command.response

/-- The sender of a reply. -/
def Reply.sender : Reply → ℕ
  | submit sender | cancel sender | unit sender | withdrawal sender | book sender _ _
  | balance sender _ _ => sender

theorem Pending.answer_fst (pending : Pending) : pending.answer.1 = pending.reply.sender := by
  unfold Pending.answer
  cases pending.reply <;> rfl

theorem Input.request_sender (state : EngineState) (input : Input) :
    (input.request state).2.sender = input.response := by
  cases input with
  | order command =>
    cases command with
    | getOrderbook pair depth response =>
      simp only [Input.request, OrderCommand.request]
      split <;> rfl
    | _ => rfl
  | balance command => cases command <;> rfl

/-- An executed request is answered where it came from. -/
theorem Input.execute_sender {state state' : EngineState} {input : Input} {pending : Pending}
    (h : input.execute state = .ok (pending, state')) : pending.answer.1 = input.response := by
  have hsender := input.request_sender state
  rw [Pending.answer_fst]
  unfold Input.execute at h
  split at h
  · next hrequest =>
    cases h
    rw [hrequest] at hsender
    exact hsender
  · next hrequest =>
    split at h
    · cases h
      rw [hrequest] at hsender
      exact hsender
    · cases h

/-- A request of the balance queue is a command. -/
theorem Input.execute_balance {state state' : EngineState} {command : BalanceCommand}
    {pending : Pending} (h : (Input.balance command).execute state = .ok (pending, state')) :
    ∃ outcome, (Journal.apply command.request.1).run state = (.ok outcome, state') ∧
      pending = ⟨some command.request.1, outcome, command.request.2⟩ := by
  simp only [Input.execute, Input.request] at h
  rcases hrun : (Journal.apply command.request.1).run state with ⟨fault | outcome, t⟩
  · rw [hrun] at h
    cases h
  · rw [hrun] at h
    cases h
    exact ⟨outcome, rfl, rfl⟩

namespace Pipeline

open Store (executed rowOf TableRow tableCodec written append_first append_written)

/-! ## Calls -/

/-- Why a request was not put into its queue. -/
inductive SendError where
  | closed
  | full
  | disconnected
  deriving DecidableEq

/-- How a call ends. -/
inductive CallResult where
  | refused (error : SendError)
  | answered (answer : Answer)
  | timeout
  /-- The sender of the answer was dropped. -/
  | dropped
  /-- The process stopped under the call. -/
  | severed
  deriving DecidableEq

inductive CallPhase where
  /-- The flag is about to be read. -/
  | calling
  /-- The engine was found open, and the request is about to be sent. -/
  | sending
  | waiting
  | done (result : CallResult)
  deriving DecidableEq

structure Call where
  input : Input
  phase : CallPhase
  after : List ℕ

/-- The request of the call may have been put into a queue. -/
def CallPhase.entered : CallPhase → Bool
  | calling | sending | done (.refused _) => false
  | waiting | done _ => true

/-- The process stops under a call. -/
def CallPhase.sever : CallPhase → CallPhase
  | done result => .done result
  | _ => .done .severed

def Call.sever (call : Call) : Call := { call with phase := call.phase.sever }

def CallPhase.answer : CallPhase → Option Answer
  | done (.answered answer) => some answer
  | _ => none

structure Clients where
  world : World
  calls : List Call
  log : List ℕ

namespace Clients

/-- The calls that were answered. -/
def returned (c : Clients) : List ℕ :=
  (List.range c.calls.length).filter fun n => (c.calls[n]?).any fun call => call.phase.answer.isSome

/-- A call goes on. -/
def advance (c : Clients) (n : ℕ) (phase : CallPhase) : Clients :=
  { c with calls := c.calls.modify n fun call => { call with phase } }

end Clients

/-- The sender that an item is answered to. -/
def Item.sender (item : Item) : ℕ := item.pending.answer.1

/-- The numbers of the requests that were executed in a step. -/
def World.executedIn (w w' : World) : List ℕ :=
  if w'.count = w.count + 1 then w'.core.items.map Item.sender else []

/-- Before the first call. -/
structure Clients.Initial {Json : Type} (codec : Codec Json) (cache : BalanceCache)
    (engineId : String) (c : Clients) : Prop where
  world : c.world.Initial codec cache engineId
  none : c.calls = [] ∧ c.log = []

section Steps

variable {Json : Type} [DecidableEq Json] (codec : Codec Json)

/-- One step of the engine or of one call. -/
inductive CallStep : Clients → Clients → Prop
  /-- The engine makes a step of its own. -/
  | engine {c : Clients} {w' : World} (step : Step codec c.world w') (up : w'.core ≠ .down)
      (internal : w'.orders.length ≤ c.world.orders.length ∧
        w'.balances.length ≤ c.world.balances.length) :
      CallStep c { c with world := w', log := c.log ++ c.world.executedIn w' }
  /-- The process stops, and with it the calls. -/
  | crash {c : Clients} {w' : World} (step : Step codec c.world w') (down : w'.core = .down) :
      CallStep c { c with world := w', calls := c.calls.map Call.sever }
  | call {c : Clients} {input : Input} (up : c.world.core ≠ .down)
      (number : input.response = c.calls.length) :
      CallStep c { c with calls := c.calls ++ [⟨input, .calling, c.returned⟩] }
  | opened {c : Clients} {n : ℕ} {call : Call} (here : c.calls[n]? = some call)
      (calling : call.phase = .calling) (accepting : c.world.closed = false) :
      CallStep c (c.advance n .sending)
  | barred {c : Clients} {n : ℕ} {call : Call} (here : c.calls[n]? = some call)
      (calling : call.phase = .calling) (closed : c.world.closed = true) :
      CallStep c (c.advance n (.done (.refused .closed)))
  | sentOrder {c : Clients} {n : ℕ} {call : Call} {command : OrderCommand}
      (here : c.calls[n]? = some call) (sending : call.phase = .sending)
      (request : call.input = .order command) (up : c.world.core ≠ .down)
      (room : c.world.orders.length < inputCapacity) :
      CallStep c { c.advance n .waiting with
        world := { c.world with orders := c.world.orders ++ [command] } }
  | sentBalance {c : Clients} {n : ℕ} {call : Call} {command : BalanceCommand}
      (here : c.calls[n]? = some call) (sending : call.phase = .sending)
      (request : call.input = .balance command) (up : c.world.core ≠ .down)
      (room : c.world.balances.length < inputCapacity) :
      CallStep c { c.advance n .waiting with
        world := { c.world with balances := c.world.balances ++ [command] } }
  | full {c : Clients} {n : ℕ} {call : Call} (here : c.calls[n]? = some call)
      (sending : call.phase = .sending)
      (full : match call.input with
        | .order _ => inputCapacity ≤ c.world.orders.length
        | .balance _ => inputCapacity ≤ c.world.balances.length) :
      CallStep c (c.advance n (.done (.refused .full)))
  /-- The receivers are dropped with the engine, which is closed before. -/
  | disconnected {c : Clients} {n : ℕ} {call : Call} (here : c.calls[n]? = some call)
      (sending : call.phase = .sending) (closed : c.world.closed = true) :
      CallStep c (c.advance n (.done (.refused .disconnected)))
  | answered {c : Clients} {n : ℕ} {call : Call} {item : Item} (here : c.calls[n]? = some call)
      (waiting : call.phase = .waiting) (sent : item ∈ c.world.sent) (number : item.sender = n) :
      CallStep c (c.advance n (.done (.answered item.pending.answer.2)))
  | timeout {c : Clients} {n : ℕ} {call : Call} (here : c.calls[n]? = some call)
      (waiting : call.phase = .waiting) : CallStep c (c.advance n (.done .timeout))
  | dropped {c : Clients} {n : ℕ} {call : Call} (here : c.calls[n]? = some call)
      (waiting : call.phase = .waiting) : CallStep c (c.advance n (.done .dropped))

/-- The states of all executions with clients. -/
inductive CallReachable (start : Clients) : Clients → Prop
  | start : CallReachable start start
  | step {c c' : Clients} (reached : CallReachable start c) (step : CallStep codec c c') :
      CallReachable start c'

variable {codec}

theorem CallStep.world {c c' : Clients} (h : CallStep codec c c') :
    c'.world = c.world ∨ Step codec c.world c'.world := by
  cases h with
  | engine step => exact Or.inr step
  | crash step => exact Or.inr step
  | sentOrder here sending request up room => exact Or.inr (.sendOrder up room)
  | sentBalance here sending request up room => exact Or.inr (.sendBalance up room)
  | _ => exact Or.inl rfl

/-- Without its clients, an execution is one of the engine. -/
theorem CallReachable.world {start c : Clients} (h : CallReachable codec start c) :
    Reachable codec start.world c.world := by
  induction h with
  | start => exact .start
  | step _ step ih =>
    rcases step.world with hsame | hstep
    · rw [hsame]
      exact ih
    · exact .step ih hstep

theorem CallReachable.trans {start c c' : Clients} (h : CallReachable codec start c)
    (h' : CallReachable codec c c') : CallReachable codec start c' := by
  induction h' with
  | start => exact h
  | step _ step ih => exact .step ih step

/-- Every state begins an execution. -/
theorem CallReachable.here {start c : Clients} (_ : CallReachable codec start c) :
    CallReachable codec c c := .start

section Script

variable {start : Clients} {w : World}
  {calls : List Call} {log : List ℕ} {state state' : EngineState}

/-- The core has executed a request and handed it to the journal worker. -/
def World.served (w : World) (state : EngineState) (pending : Pending) : World :=
  { w with
    core := .running state .loop
    queue := w.queue ++ [⟨pending, w.history ++ executed [pending], w.life, w.count⟩]
    history := w.history ++ executed [pending]
    count := w.count + 1 }

/-- The core may take a request out of the queues. -/
structure World.Open (w : World) (state : EngineState) : Prop where
  core : w.core = .running state .loop
  flags : w.running = true ∧ w.closed = false
  room : w.queue.length < journalCapacity

theorem CallReachable.polls (h : CallReachable codec start ⟨w, calls, log⟩) (hopen : w.Open state) :
    ∃ log', CallReachable codec start ⟨{ w with core := .running state .balances }, calls, log'⟩ := by
  have hup : ∀ {phase}, Core.running state phase ≠ .down := nofun
  have h1 := h.step (.engine (.move hopen.core (.running hopen.flags.1)) hup ⟨le_rfl, le_rfl⟩)
  have h2 := h1.step (.engine (.move rfl (.accepting hopen.flags.2)) hup ⟨le_rfl, le_rfl⟩)
  have h3 := h2.step (.engine (.move rfl (.reserved hopen.room)) hup ⟨le_rfl, le_rfl⟩)
  exact ⟨_, h3⟩

/-- The call that was made last goes on. -/
theorem Clients.advance_last (call : Call) (phase : CallPhase) :
    Clients.advance ⟨w, calls ++ [call], log⟩ calls.length phase =
      ⟨w, calls ++ [{ call with phase }], log⟩ := by
  rw [Clients.advance]
  congr 1
  induction calls with
  | nil => rfl
  | cons first rest ih => exact congrArg (first :: ·) ih

/-- A call is made, and finds the engine open. -/
theorem CallReachable.made (h : CallReachable codec start ⟨w, calls, log⟩) (hopen : w.Open state)
    (input : Input) (hnumber : input.response = calls.length) : CallReachable codec start
      ⟨w, calls ++ [⟨input, .sending, Clients.returned ⟨w, calls, log⟩⟩], log⟩ := by
  have hup : w.core ≠ .down := by
    rw [hopen.core]
    exact nofun
  have h1 := h.step (@CallStep.call _ _ _ _ input hup hnumber)
  have hlast : (calls ++ [⟨input, .calling, Clients.returned ⟨w, calls, log⟩⟩])[calls.length]? =
      some ⟨input, .calling, Clients.returned ⟨w, calls, log⟩⟩ := List.getElem?_concat_length ..
  have h2 := h1.step (.opened hlast rfl hopen.flags.2)
  rw [Clients.advance_last] at h2
  exact h2

/-- A request is put into the balance queue. -/
theorem CallReachable.sendsBalance (h : CallReachable codec start ⟨w, calls, log⟩)
    (hopen : w.Open state) {command : BalanceCommand} (hnumber : command.response = calls.length)
    (hroom : w.balances.length < inputCapacity) :
    CallReachable codec start ⟨{ w with balances := w.balances ++ [command] },
      calls ++ [⟨.balance command, .waiting, Clients.returned ⟨w, calls, log⟩⟩], log⟩ := by
  have hup : w.core ≠ .down := by
    rw [hopen.core]
    exact nofun
  have h1 := (h.made hopen (.balance command) hnumber).step (.sentBalance
    (List.getElem?_concat_length ..) rfl rfl hup hroom)
  rw [Clients.advance_last] at h1
  exact h1

/-- A request is put into the order queue. -/
theorem CallReachable.sendsOrder (h : CallReachable codec start ⟨w, calls, log⟩)
    (hopen : w.Open state) {command : OrderCommand} (hnumber : command.response = calls.length)
    (hroom : w.orders.length < inputCapacity) :
    CallReachable codec start ⟨{ w with orders := w.orders ++ [command] },
      calls ++ [⟨.order command, .waiting, Clients.returned ⟨w, calls, log⟩⟩], log⟩ := by
  have hup : w.core ≠ .down := by
    rw [hopen.core]
    exact nofun
  have h1 := (h.made hopen (.order command) hnumber).step (.sentOrder
    (List.getElem?_concat_length ..) rfl rfl hup hroom)
  rw [Clients.advance_last] at h1
  exact h1

/-- **The core executes a request of the balance queue.** -/
theorem CallReachable.serveBalance (h : CallReachable codec start ⟨w, calls, log⟩) (hopen : w.Open state)
    {command : BalanceCommand} {rest : List BalanceCommand} {pending : Pending}
    (hnext : w.balances = command :: rest)
    (hexecute : (Input.balance command).execute state = .ok (pending, state')) :
    ∃ log', CallReachable codec start
      ⟨{ w.served state' pending with balances := rest }, calls, log'⟩ := by
  obtain ⟨_, h1⟩ := h.polls hopen
  have hshorter : rest.length ≤ w.balances.length := by
    rw [hnext, List.length_cons]
    exact Nat.le_succ _
  have h2 := h1.step (.engine (.balance rfl hnext hexecute) nofun ⟨le_rfl, hshorter⟩)
  have h3 := h2.step (.engine (.published rfl hopen.room) nofun ⟨le_rfl, le_rfl⟩)
  exact ⟨_, h3⟩

/-- **The core executes a request of the order queue.** -/
theorem CallReachable.serveOrder (h : CallReachable codec start ⟨w, calls, log⟩) (hopen : w.Open state)
    {command : OrderCommand} {rest : List OrderCommand} {pending : Pending}
    (hbalances : w.balances = []) (hnext : w.orders = command :: rest)
    (hexecute : (Input.order command).execute state = .ok (pending, state')) :
    ∃ log', CallReachable codec start
      ⟨{ w.served state' pending with orders := rest }, calls, log'⟩ := by
  obtain ⟨_, h1⟩ := h.polls hopen
  have hshorter : rest.length ≤ w.orders.length := by
    rw [hnext, List.length_cons]
    exact Nat.le_succ _
  have h2 := h1.step (.engine (.move rfl (.noBalance hbalances)) nofun ⟨le_rfl, le_rfl⟩)
  have h3 := h2.step (.engine (.received rfl hnext) nofun ⟨hshorter, le_rfl⟩)
  have h4 := h3.step (.engine (.move rfl (.rechecked hopen.flags.2)) nofun ⟨le_rfl, le_rfl⟩)
  have h5 := h4.step (.engine (.order rfl hopen.flags.1 hexecute) nofun ⟨le_rfl, le_rfl⟩)
  have h6 := h5.step (.engine (.published rfl hopen.room) nofun ⟨le_rfl, le_rfl⟩)
  exact ⟨_, h6⟩

/-- The worker takes the rest of its queue into its group. -/
theorem CallReachable.groups (h : CallReachable codec start ⟨w, calls, log⟩) (hup : w.core ≠ .down)
    {group items : List Item} (hworker : w.worker = .grouping group) (hqueue : w.queue = items)
    (hroom : (group ++ items).length ≤ groupSize) :
    ∃ log', CallReachable codec start
      ⟨{ w with queue := [], worker := .grouping (group ++ items) }, calls, log'⟩ := by
  induction items generalizing w group log with
  | nil =>
    obtain ⟨⟩ := w
    cases hworker
    cases hqueue
    rw [List.append_nil]
    exact ⟨log, h⟩
  | cons item items ih =>
    rw [List.length_append, List.length_cons] at hroom
    have h1 := h.step (.engine (.grouped hworker (by omega) hqueue) hup ⟨le_rfl, le_rfl⟩)
    obtain ⟨log', h2⟩ := ih h1 hup rfl rfl (by rw [List.append_assoc, List.length_append]; simpa using hroom)
    rw [List.append_assoc] at h2
    exact ⟨log', h2⟩

/-- The worker answers its group. -/
theorem CallReachable.answers (h : CallReachable codec start ⟨w, calls, log⟩) (hup : w.core ≠ .down)
    {items : List Item} (hworker : w.worker = .answering items) :
    ∃ log', CallReachable codec start
      ⟨{ w with sent := w.sent ++ items, worker := .receiving }, calls, log'⟩ := by
  induction items generalizing w log with
  | nil =>
    have h1 := h.step (.engine (.again hworker) hup ⟨le_rfl, le_rfl⟩)
    rw [List.append_nil]
    exact ⟨_, h1⟩
  | cons item items ih =>
    have h1 := h.step (.engine (.answered hworker) hup ⟨le_rfl, le_rfl⟩)
    obtain ⟨log', h2⟩ := ih h1 hup rfl
    rw [List.append_assoc] at h2
    exact ⟨log', h2⟩

/-- **The worker records and answers what is in its queue.** -/
theorem CallReachable.records (h : CallReachable codec start ⟨w, calls, log⟩) (hup : w.core ≠ .down)
    {item : Item} {items : List Item} {clock : ℕ → Timestamp} {store : Store} {last : ℕ}
    (hworker : w.worker = .receiving) (hqueue : w.queue = item :: items)
    (hroom : (item :: items).length ≤ groupSize)
    (happend : w.store.append codec clock ((item :: items).map Item.pending) w.sequence =
      .ok (store, last)) :
    ∃ log', CallReachable codec start
      ⟨{ w with
        store, sequence := last, durable := last, queue := [], sent := w.sent ++ item :: items
        worker := .receiving }, calls, log'⟩ := by
  have h1 := h.step (.engine (.first hworker hqueue) hup ⟨le_rfl, le_rfl⟩)
  obtain ⟨_, h2⟩ := h1.groups hup rfl rfl hroom
  have h3 := h2.step (.engine (.gathered rfl (.inl rfl)) hup ⟨le_rfl, le_rfl⟩)
  have h4 := h3.step (.engine (.committed rfl happend) hup ⟨le_rfl, le_rfl⟩)
  have h5 := h4.step (.engine (.progressed rfl) hup ⟨le_rfl, le_rfl⟩)
  exact h5.answers hup rfl

/-- **The process crashes and is started again**: the records stay, and no call of before is on its
way any more. -/
theorem CallReachable.restarts {cache : BalanceCache} {engineId : String} {c : Clients} {last : ℕ}
    (hcache : ∀ account b, cache.balances.lookup account = some b → Startup.Admissible account b)
    (hid : codec.isUuid engineId = true)
    (hgenesis : codec.parseGenesis (codec.genesisText ⟨4, engineId, cache.journalSeed⟩) =
      some ⟨4, engineId, cache.journalSeed⟩)
    (hstart : start.Initial codec cache engineId) (h : CallReachable codec start c)
    (hrecords : Legible codec c.world.store) (hlast : c.world.store.lastSequence = .ok last) :
    ∃ c', CallReachable codec c c' ∧ c'.world.store = c.world.store ∧
      c'.calls = c.calls.map Call.sever := by
  obtain ⟨⟨D, hD⟩, -⟩ := h.world.inv hcache hid hgenesis hstart.world hrecords
  obtain ⟨state, hrecover, -⟩ := hD.recover hcache hid hgenesis hrecords
  have h1 := h.here.step (.crash .crash rfl)
  have h2 := h1.step (.engine (.boot ⟨rfl, rfl⟩ hrecover hlast) nofun ⟨Nat.zero_le _, Nat.zero_le _⟩)
  exact ⟨_, h2, rfl, rfl⟩

end Script

/-- A process that has started. -/
def World.booted (w : World) (state : EngineState) (last : ℕ) : World :=
  { w with
    orders := [], balances := [], running := true, closed := false
    core := .running state .loop, queue := [], worker := .starting
    durable := last, journalDone := false
    history := w.history.take w.store.records.entries.length
    life := w.life + 1, count := 0 }

/-- The worker of a started process knows the records. -/
theorem CallReachable.starts {start : Clients} {w : World} {calls : List Call} {log : List ℕ}
    {last : ℕ} (h : CallReachable codec start ⟨w, calls, log⟩) (hup : w.core ≠ .down)
    (hworker : w.worker = .starting) (hlast : w.store.lastSequence = .ok last) :
    ∃ log', CallReachable codec start
      ⟨{ w with worker := .receiving, sequence := last }, calls, log'⟩ :=
  ⟨_, h.step (.engine (.started hworker hlast) hup ⟨le_rfl, le_rfl⟩)⟩

end Steps

/-! ### A journal with a few records -/

/-- Commands that are executed one after the other, from their outcomes. -/
theorem exists_run {history : List (Command × Outcome)}
    (h : ((Journal.applyAll (history.map Prod.fst)).run (.genesis Store.sampleCache)).1.toOption =
      some (history.map Prod.snd)) : ∃ last, Run (.genesis Store.sampleCache) history last :=
  Journal.run_of_outcomes (EngineState.inv_genesis (Store.valid_of_admissible Store.admissible_sample)) h

/-- The journal before the record. -/
def recordStart (codec : Codec String) : World :=
  { sampleStart with
    store := { Store.fresh with
      genesis := some (Trail.genesisRow codec Store.sampleCache Store.sampleGenesis.engineId) } }

section Record

variable {rows : List TableRow}

theorem record_isUuid : (tableCodec rows).isUuid Store.sampleGenesis.engineId = true :=
  Store.isUuid_sample

theorem record_genesis : (tableCodec rows).parseGenesis ((tableCodec rows).genesisText
    ⟨4, Store.sampleGenesis.engineId, Store.sampleCache.journalSeed⟩) =
      some ⟨4, Store.sampleGenesis.engineId, Store.sampleCache.journalSeed⟩ :=
  Store.parseGenesis_sample

theorem initial_record {codec : Codec String} : Clients.Initial codec Store.sampleCache
    Store.sampleGenesis.engineId ⟨recordStart codec, [], []⟩ :=
  ⟨⟨rfl, ⟨rfl, rfl⟩, ⟨rfl, rfl, rfl⟩, rfl, rfl, rfl⟩, rfl, rfl⟩

/-- Records of a table can be read. -/
theorem legible_record {store : Store} {known : List Record} (h : Store.Distinct rows)
    (hknown : known ⊆ rows.map TableRow.record)
    (hentries : store.records.entries = known.map (rowOf (tableCodec rows))) :
    Legible (tableCodec rows) store := by
  intro record hrecord
  rw [hentries] at hrecord
  obtain ⟨other, hother, hrow⟩ := List.mem_map.mp hrecord
  exact Store.legible_tableCodec h (hknown hother) (congrArg (fun row => row.2.payload) hrow).symm

/-- The journal before its first record can be recovered. -/
theorem recover_record : (recordStart (tableCodec rows)).store.recover (tableCodec rows) =
    .ok (.genesis Store.sampleCache, Store.sampleGenesis.engineId) :=
  Store.recover_genesis Store.admissible_sample rfl record_isUuid record_genesis rfl rfl

end Record

/-! ### A deposit and a withdrawal -/

def sampleReserve : WithdrawalCommand :=
  ⟨.reserve, 0x00000000000040008000000000000007#128, 2, "USDT", Decimal.ONE⟩

def sampleReserved : Record :=
  ⟨3, 0, .withdrawal sampleReserve, .applied (some (.withdrawalChanged sampleReserve))⟩

/-- The records of a deposit, of its repetition and of a reservation with their texts. -/
def creditRows : List TableRow :=
  Output.sampleRows ++ [
    ⟨sampleReserved,
      "\x7b\"sequence\":3,\"timestamp\":\"1970-01-01T00:00:00Z\",\"command\":\x7b\"Withdrawal\":\x7b\"action\":\"reserve\",\"funds\":\x7b\"withdrawal_id\":\"00000000-0000-4000-8000-000000000007\",\"user_id\":2,\"asset\":\"USDT\",\"amount\":\"1\"\x7d\x7d\x7d,\"outcome\":\x7b\"Applied\":\x7b\"WithdrawalChanged\":\x7b\"action\":\"reserve\",\"funds\":\x7b\"withdrawal_id\":\"00000000-0000-4000-8000-000000000007\",\"user_id\":2,\"asset\":\"USDT\",\"amount\":\"1\"\x7d\x7d\x7d\x7d\x7d",
      "\x7b\"Applied\":\x7b\"WithdrawalChanged\":\x7b\"action\":\"reserve\",\"funds\":\x7b\"withdrawal_id\":\"00000000-0000-4000-8000-000000000007\",\"user_id\":2,\"asset\":\"USDT\",\"amount\":\"1\"\x7d\x7d\x7d\x7d",
      [18, 48, 33, 115, 196, 81, 78, 211, 218, 144, 31, 103, 40, 20, 127, 243, 90, 141, 82, 179, 197, 169,
        40, 174, 81, 121, 245, 240, 200, 38, 248, 253]⟩]

/-- The encodings on them. -/
def creditCodec : Codec String := tableCodec creditRows

theorem distinct_creditRows : Store.Distinct creditRows := by decide +kernel

/-- The item of the deposit. -/
def creditPending : Pending :=
  ⟨some (.creditDeposit Output.sampleCredit),
    .applied (some (.depositCredited Output.sampleCredit)), .unit 0⟩

/-- The deposit is executed. -/
theorem exists_credited : ∃ state, (Input.balance (.creditDeposit Output.sampleCredit 0)).execute
    (.genesis Store.sampleCache) = .ok (creditPending, state) :=
  @Input.exists_execute _ (.balance (.creditDeposit Output.sampleCredit 0)) _ _ creditPending.outcome rfl
    (by decide +kernel)

/-- The journal with the deposit. -/
def creditStore : Store := written creditCodec (recordStart creditCodec).store [creditPending] 0

theorem append_creditStore :
    (recordStart creditCodec).store.append creditCodec (fun _ => 0) [creditPending] 0 =
        .ok (creditStore, 1) ∧
      creditStore.records.entries = [Output.sampleCredited].map (rowOf creditCodec) := by
  obtain ⟨happend, hentries, -⟩ := @append_first creditCodec (recordStart creditCodec).store
    [creditPending] rfl (by decide)
  exact ⟨happend, hentries⟩

theorem legible_creditStore : Legible creditCodec creditStore :=
  legible_record distinct_creditRows
    (List.cons_subset_cons _ (List.nil_subset _)) append_creditStore.2

/-- The items that are recorded after it. -/
def reserveGroup : List Pending :=
  [⟨some Output.sampleRepeated.command, Output.sampleRepeated.outcome, .unit 1⟩,
    ⟨some sampleReserved.command, sampleReserved.outcome, .withdrawal 2⟩]

/-- The journal with the reservation. -/
def reserveStore : Store := written creditCodec creditStore reserveGroup 1

theorem append_reserveStore :
    creditStore.append creditCodec (fun _ => 0) reserveGroup 1 = .ok (reserveStore, 3) ∧
      reserveStore.records.entries =
        (creditRows.map TableRow.record).map (rowOf creditCodec) := by
  obtain ⟨happend, hentries, -⟩ := @append_written creditCodec creditStore [Output.sampleCredited]
    reserveGroup 1 append_creditStore.2 (by decide) (by decide)
  exact ⟨happend, hentries⟩

theorem legible_reserveStore : Legible creditCodec reserveStore :=
  legible_record distinct_creditRows (List.Subset.refl _) append_reserveStore.2

theorem lastSequence_reserveStore : reserveStore.lastSequence = .ok 3 :=
  Store.lastSequence_of_keys (by rw [append_reserveStore.2]; rfl)

def sampleRelease : WithdrawalCommand := { sampleReserve with action := .release }

/-- The calls of two clients.  A deposit is asked for twice at the same time.  When the first request
is answered an amount is reserved, and when all three are, its release is asked for. -/
def sampleCalls : List Call :=
  [⟨.balance (.creditDeposit Output.sampleCredit 0), .done (.answered .done), []⟩,
    ⟨.balance (.creditDeposit Output.sampleCredit 1), .done (.answered .done), []⟩,
    ⟨.balance (.withdrawal sampleReserve 2), .done (.answered .done), [0]⟩,
    ⟨.balance (.withdrawal sampleRelease 3), .waiting, [0, 1, 2]⟩]

/-- **The process crashes while the last call waits**, which was executed and is lost. -/
theorem exists_calls : ∃ c c',
    CallReachable creditCodec ⟨recordStart creditCodec, [], []⟩ c ∧ CallReachable creditCodec c c' ∧
    Legible creditCodec c.world.store ∧ Legible creditCodec c'.world.store ∧
    c.calls = sampleCalls ∧ c'.calls = sampleCalls.map Call.sever := by
  obtain ⟨last, hrun⟩ := @exists_run
    [(Output.sampleCredited.command, Output.sampleCredited.outcome),
      (Output.sampleRepeated.command, Output.sampleRepeated.outcome),
      (sampleReserved.command, sampleReserved.outcome),
      (.withdrawal sampleRelease, .applied (some (.withdrawalChanged sampleRelease)))]
    (by decide +kernel)
  obtain _ | ⟨hcredited, hrun⟩ := hrun
  obtain _ | ⟨hrepeated, hrun⟩ := hrun
  obtain _ | ⟨hreserved, hrun⟩ := hrun
  obtain _ | ⟨hreleased, -⟩ := hrun
  have hroom : 0 < inputCapacity ∧ 1 < inputCapacity := by decide
  have hjournal : 0 < journalCapacity ∧ 1 < journalCapacity ∧ 1 ≤ groupSize ∧ 2 ≤ groupSize := by
    decide
  -- the process starts, and the deposit is asked for twice
  have h0 : CallReachable creditCodec ⟨recordStart creditCodec, [], []⟩ _ := .start
  have h1 := h0.step (.engine (.boot ⟨rfl, rfl⟩ recover_record rfl) nofun
    ⟨Nat.zero_le _, Nat.zero_le _⟩)
  have h2 := @CallReachable.sendsBalance _ _ _ _ _ _ _ _ h1 ⟨rfl, ⟨rfl, rfl⟩, hjournal.1⟩
    (.creditDeposit Output.sampleCredit 0) rfl hroom.1
  have h3 := @CallReachable.sendsBalance _ _ _ _ _ _ _ _ h2 ⟨rfl, ⟨rfl, rfl⟩, hjournal.1⟩
    (.creditDeposit Output.sampleCredit 1) rfl hroom.2
  -- the first request is recorded and answered
  obtain ⟨_, h4⟩ := h3.serveBalance ⟨rfl, ⟨rfl, rfl⟩, hjournal.1⟩ rfl
    (Input.execute_of_run rfl hcredited)
  obtain ⟨_, h5⟩ := h4.starts nofun rfl rfl
  obtain ⟨_, h6⟩ := h5.records nofun rfl rfl hjournal.2.2.1 append_creditStore.1
  have h7 := h6.step (.answered (n := 0) rfl rfl (List.mem_append_right _ (List.mem_cons_self ..)) rfl)
  -- the second one together with the reservation
  have h8 := @CallReachable.sendsBalance _ _ _ _ _ _ _ _ h7 ⟨rfl, ⟨rfl, rfl⟩, hjournal.1⟩
    (.withdrawal sampleReserve 2) rfl hroom.2
  obtain ⟨_, h9⟩ := h8.serveBalance ⟨rfl, ⟨rfl, rfl⟩, hjournal.1⟩ rfl
    (Input.execute_of_run rfl hrepeated)
  obtain ⟨_, h10⟩ := h9.serveBalance ⟨rfl, ⟨rfl, rfl⟩, hjournal.2.1⟩ rfl
    (Input.execute_of_run rfl hreserved)
  obtain ⟨_, h11⟩ := h10.records nofun rfl rfl hjournal.2.2.2 append_reserveStore.1
  have h12 := h11.step (.answered (n := 1) rfl rfl (List.mem_append_right _ (List.mem_cons_self ..)) rfl)
  have h13 := h12.step (.answered (n := 2) rfl rfl
    (List.mem_append_right _ (List.mem_cons_of_mem _ (List.mem_cons_self ..))) rfl)
  -- the release is executed and not recorded
  have h14 := @CallReachable.sendsBalance _ _ _ _ _ _ _ _ h13 ⟨rfl, ⟨rfl, rfl⟩, hjournal.1⟩
    (.withdrawal sampleRelease 3) rfl hroom.1
  obtain ⟨_, h15⟩ := h14.serveBalance ⟨rfl, ⟨rfl, rfl⟩, hjournal.1⟩ rfl
    (Input.execute_of_run rfl hreleased)
  obtain ⟨c', hlater, hstore, hcalls⟩ := h15.restarts
    Store.admissible_sample record_isUuid record_genesis initial_record legible_reserveStore
    lastSequence_reserveStore
  exact ⟨_, c', h15, hlater, legible_reserveStore, hstore ▸ legible_reserveStore, rfl, hcalls⟩

end Pipeline

/-! ## What the calls return -/

open Pipeline (CallResult SendError)

namespace SendError

/-- The text of a failed `try_send`, or of the test before it. -/
def text : SendError → String
  | .closed => "Engine command channel is closed"
  | .full => "sending on a full channel"
  | .disconnected => "sending on a disconnected channel"

end SendError

/-- The error of `send_order` and `send_balance`. -/
def sendFailure (queue : String) : SendError → String
  | .closed => SendError.text .closed
  | error => queue ++ SendError.text error

/-- The texts of a call: before the error of a failed send, for a time-out, and for a dropped
sender. -/
structure CallTexts where
  send : String
  timeout : String
  dropped : String

def receiveFailure : String := "Failed to receive response: channel closed"

def OrderCommand.texts : OrderCommand → CallTexts
  | submitOrder .. =>
    ⟨"", "Durable submission outcome unknown; retry the same order id",
      "Journal response unavailable; retry the same order id"⟩
  | cancelOrder .. => ⟨"Failed to send cancel command: ", "Cancel order timeout", receiveFailure⟩
  | getOrderbook .. =>
    ⟨"Failed to send get_orderbook command: ", "Get orderbook timeout", receiveFailure⟩
  | lockBalance .. =>
    ⟨"Failed to send lock_balance command: ", "Lock balance timeout", receiveFailure⟩
  | unlockBalance .. =>
    ⟨"Failed to send unlock_balance command: ", "Unlock balance timeout", receiveFailure⟩
  | getBalance .. => ⟨"Failed to send get_balance command: ", "Get balance timeout", receiveFailure⟩

/-- What a method of `Engine` returns; nothing, if the process stopped under the call. -/
def CallTexts.report (texts : CallTexts) (queue : String) :
    CallResult → Option (Except String Answer)
  | .refused error => some (.error (texts.send ++ sendFailure queue error))
  | .answered (.error reason) => some (.error reason)
  | .answered answer => some (.ok answer)
  | .timeout => some (.error texts.timeout)
  | .dropped => some (.error texts.dropped)
  | .severed => none

def OrderCommand.reported (command : OrderCommand) : CallResult → Option (Except String Answer) :=
  command.texts.report "Engine queue unavailable: "

/-- Why a deposit or a withdrawal was not confirmed. -/
inductive FinancialError where
  | notAccepted
  | outcomeUnknown
  | rejected (reason : String)
  deriving DecidableEq

/-- What `credit_deposit` and `change_withdrawal` return. -/
def financialResult : CallResult → Option (Except FinancialError Unit)
  | .refused _ => some (.error .notAccepted)
  | .answered (.error reason) => some (.error (.rejected reason))
  | .answered _ => some (.ok ())
  | .timeout => some (.error .outcomeUnknown)
  | .dropped => some (.error .outcomeUnknown)
  | .severed => none

end CexEngine
