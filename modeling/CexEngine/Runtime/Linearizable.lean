import CexEngine.Runtime.Handle

/-!
# Calls take effect at one point

Calls overlap, the core answers queries from states that are not on the disk yet, commits fail and
the process stops.  Seen from the clients none of this shows: an answered call took effect at one
point of the commands on the disk, with the answer of that point, and after every call that was
answered before it was made.

* `Step.flow`: a step of the engine executes one request of a queue, or none.
* `Traced`: every request in a queue and every executed item belongs to one call, and an item lies
  after the items of all calls that its call has seen answered.  The last part needs no clock: what
  was answered is on the disk, and the core executes on a history that begins with the disk.
* `calls_linearizable`: the result.
-/

namespace CexEngine

open Foundation Amount

namespace Pipeline

open Store (executed recordsOf rowOf)

/-! ## Requests on their way -/

/-- The request that the core has taken out of the order queue. -/
def Core.held : Core → List OrderCommand
  | running _ (.rechecking command) | running _ (.confirming command) => [command]
  | _ => []

/-- The requests that are not executed yet. -/
def World.queued (w : World) : List Input :=
  w.balances.map Input.balance ++ (w.core.held ++ w.orders).map Input.order

section Flow

variable {Json : Type} [DecidableEq Json] {codec : Codec Json} {w w' : World}

/-- A step that executes nothing. -/
structure Quiet (w w' : World) : Prop where
  queued : w'.queued.Sublist w.queued
  items : (w'.sent ++ w'.inFlight).Sublist (w.sent ++ w.inFlight)
  sent : ∀ item ∈ w.sent, item ∈ w'.sent
  none : w.executedIn w' = []

/-- A step that executes one request. -/
structure Executes (w w' : World) (input : Input) (state : EngineState) (item : Item) : Prop where
  queued : ∃ before after, w.queued = before ++ input :: after ∧ w'.queued = before ++ after
  core : w.core.state = some state
  run : ∃ state', input.execute state = .ok (item.pending, state')
  history : item.history = w.history ++ executed [item.pending]
  sent : w'.sent = w.sent
  items : w'.inFlight = w.inFlight ++ [item]
  number : w.executedIn w' = [item.sender]

theorem executedIn_of_count (h : w'.count = w.count) : w.executedIn w' = [] :=
  if_neg (by omega)

omit [DecidableEq Json] in
/-- A move of the core keeps what it holds, or drops it. -/
theorem Moves.held {state : EngineState} {phase phase' : CorePhase} (h : Moves w phase phase') :
    (Core.running state phase').held.Sublist (Core.running state phase).held := by
  cases h <;> simp [Core.held]

/-- The core executes a request. -/
theorem executes_of_execute {state state' : EngineState} {phase : CorePhase} {input : Input}
    {pending : Pending} {balances : List BalanceCommand}
    (here : w.core = .running state phase) (hitems : w.core.items = [])
    (hrun : input.execute state = .ok (pending, state'))
    (hqueued : ∃ before after, w.queued = before ++ input :: after ∧
      World.queued { w.execute state' pending with balances } = before ++ after) :
    Executes w { w.execute state' pending with balances } input state
      ⟨pending, w.history ++ executed [pending], w.life, w.count⟩ where
  queued := hqueued
  core := by
    rw [here]
    rfl
  run := ⟨state', hrun⟩
  history := rfl
  sent := rfl
  items := by
    show w.worker.items ++ w.queue ++ [_] = w.worker.items ++ w.queue ++ w.core.items ++ [_]
    rw [hitems, List.append_nil]
  number := if_pos rfl

/-- **One step of the engine**: it executes one request, or none. -/
theorem Step.flow (step : Step codec w w')
    (internal : w'.orders.length ≤ w.orders.length ∧ w'.balances.length ≤ w.balances.length) :
    Quiet w w' ∨ ∃ input state item, Executes w w' input state item := by
  have hquiet : w'.queued.Sublist w.queued → w'.inFlight.Sublist w.inFlight → w'.sent = w.sent →
      w'.count = w.count → Quiet w w' ∨ ∃ input state item, Executes w w' input state item := by
    intro hqueued hflight hsent hcount
    refine Or.inl ⟨hqueued, ?_, fun item hitem => hsent ▸ hitem, executedIn_of_count hcount⟩
    rw [hsent]
    exact hflight.append_left _
  cases step with
  | boot =>
    refine Or.inl ⟨List.nil_sublist _, ?_, fun _ => id, if_neg (by simp)⟩
    exact (List.nil_sublist _).append_left _
  | crash => exact hquiet (List.nil_sublist _) (List.nil_sublist _) rfl rfl
  | sendOrder up room =>
    rw [List.length_append, List.length_singleton] at internal
    omega
  | sendBalance up room =>
    rw [List.length_append, List.length_singleton] at internal
    omega
  | close | halt | marked => exact hquiet (.refl _) (.refl _) rfl rfl
  | @move state phase phase' here moves =>
    refine hquiet ?_ ?_ rfl rfl
    · have hheld : (Core.running state phase').held.Sublist _ := moves.held
      rw [← here] at hheld
      exact ((hheld.append_right _).map _).append_left _
    · rw [World.inFlight, World.inFlight, here, moves.items.1, moves.items.2]
  | @balance state state' command rest pending here next hrun =>
    refine Or.inr ⟨.balance command, state, _, executes_of_execute here (by rw [here]; rfl) hrun
      ⟨[], rest.map Input.balance ++ (w.core.held ++ w.orders).map Input.order, ?_, ?_⟩⟩
    · rw [World.queued, next]
      rfl
    · rw [here]
      rfl
  | received here next =>
    refine hquiet ?_ ?_ rfl rfl
    · rw [World.queued, World.queued, here, next]
      rfl
    · rw [World.inFlight, World.inFlight, here]
      rfl
  | @order state state' command pending here running hrun =>
    have hexecutes : Executes w { w.execute state' pending with balances := w.balances }
        (.order command) state _ := executes_of_execute here (by rw [here]; rfl) hrun
      ⟨w.balances.map Input.balance, w.orders.map Input.order, by rw [World.queued, here]; rfl, rfl⟩
    exact Or.inr ⟨_, _, _, hexecutes⟩
  | fault | stopped | overflow =>
    refine hquiet (((List.nil_sublist _).append_right _).map _ |>.append_left _) ?_ rfl rfl
    exact (List.nil_sublist _).append_left _
  | @published state item here room =>
    refine hquiet ?_ ?_ rfl rfl
    · rw [World.queued, World.queued, here]
      rfl
    · rw [World.inFlight, World.inFlight, here]
      show (w.worker.items ++ (w.queue ++ [item]) ++ []).Sublist (w.worker.items ++ w.queue ++ [item])
      rw [List.append_nil, ← List.append_assoc]
  | started here | startFailed here | gathered here | committed here | commitFailed here
  | commitLost here | progressed here | again here | drained here | failed here =>
    refine hquiet (.refl _) ?_ rfl rfl
    rw [World.inFlight, World.inFlight, here]
    rfl
  | first here next =>
    refine hquiet (.refl _) ?_ rfl rfl
    rw [World.inFlight, World.inFlight, here, next]
    rfl
  | @grouped group item rest here room next =>
    refine hquiet (.refl _) ?_ rfl rfl
    rw [World.inFlight, World.inFlight, here, next]
    show (group ++ [item] ++ rest ++ w.core.items).Sublist (group ++ item :: rest ++ w.core.items)
    rw [List.append_assoc group [item] rest]
    rfl
  | @answered item group here =>
    refine Or.inl ⟨.refl _, ?_, fun other hother => List.mem_append_left _ hother,
      executedIn_of_count rfl⟩
    show (w.sent ++ [item] ++ (group ++ w.queue ++ w.core.items)).Sublist (w.sent ++ w.inFlight)
    rw [World.inFlight, here, List.append_assoc]
    rfl

/-- When the process stops, nothing is executed. -/
theorem Step.quiet_of_down (step : Step codec w w') (down : w'.core = .down) : Quiet w w' := by
  have internal : w'.orders.length ≤ w.orders.length ∧ w'.balances.length ≤ w.balances.length := by
    cases step with
    | sendOrder up room => exact absurd down up
    | sendBalance up room => exact absurd down up
    | boot | move | balance | received | order | fault | published | overflow | stopped => cases down
    | crash => exact ⟨Nat.zero_le _, Nat.zero_le _⟩
    | _ => exact ⟨le_rfl, le_rfl⟩
  rcases step.flow internal with hquiet | ⟨input, state, item, hexecutes⟩
  · exact hquiet
  · have hnumber := hexecutes.number
    rw [World.executedIn, down] at hnumber
    split at hnumber <;> cases hnumber

end Flow

/-! ## Calls and what was executed for them -/

/-- The item is the request of the call, executed after everything the call has seen answered. -/
def Follows (cache : BalanceCache) (sent : List Item) (call : Call) (item : Item) : Prop :=
  ∃ before state state', Run (.genesis cache) before state ∧
    call.input.execute state = .ok (item.pending, state') ∧
    item.history = before ++ executed [item.pending] ∧
    ∀ m ∈ call.after, ∃ earlier ∈ sent, earlier.sender = m ∧ earlier.history <+: before

/-- **The invariant**: requests and items belong to calls. -/
structure Traced (cache : BalanceCache) (c : Clients) : Prop where
  numbers : (c.world.queued.map Input.response ++ c.log).Nodup
  entered : ∀ n ∈ c.world.queued.map Input.response ++ c.log,
    ∃ call, c.calls[n]? = some call ∧ call.phase.entered = true
  queued : ∀ input ∈ c.world.queued,
    ∃ call, c.calls[input.response]? = some call ∧ call.input = input
  logged : ((c.world.sent ++ c.world.inFlight).map Item.sender).Sublist c.log
  items : ∀ item ∈ c.world.sent ++ c.world.inFlight,
    ∃ call, c.calls[item.sender]? = some call ∧ Follows cache c.world.sent call item
  answers : ∀ (n : ℕ) (call : Call) answer, c.calls[n]? = some call →
    call.phase.answer = some answer → ∃ item ∈ c.world.sent, item.pending.answer = (n, answer)
  seen : ∀ (n : ℕ) (call : Call), c.calls[n]? = some call → ∀ m ∈ call.after,
    ∃ item ∈ c.world.sent, item.sender = m

/-- The calls have gone on, and others may have been made. -/
def Later (calls calls' : List Call) : Prop :=
  ∀ (n : ℕ) (call : Call), calls[n]? = some call → ∃ call', calls'[n]? = some call' ∧
    call'.input = call.input ∧ call'.after = call.after ∧
      (call.phase.entered = true → call'.phase.entered = true)

theorem Follows.mono {cache : BalanceCache} {sent sent' : List Item} {call call' : Call} {item : Item}
    (h : Follows cache sent call item) (hsent : ∀ item ∈ sent, item ∈ sent')
    (hinput : call'.input = call.input) (hafter : call'.after = call.after) :
    Follows cache sent' call' item := by
  obtain ⟨before, state, state', hrun, hexecute, hhistory, hearlier⟩ := h
  refine ⟨before, state, state', hrun, hinput ▸ hexecute, hhistory, fun m hm => ?_⟩
  obtain ⟨earlier, hmem, hsender, hprefix⟩ := hearlier m (hafter ▸ hm)
  exact ⟨earlier, hsent earlier hmem, hsender, hprefix⟩

namespace Traced

variable {cache : BalanceCache} {c : Clients}

/-- A step of the calls. -/
theorem later (h : Traced cache c) {calls : List Call} (hlater : Later c.calls calls)
    (hanswers : ∀ (n : ℕ) (call : Call) answer, calls[n]? = some call →
      call.phase.answer = some answer → ∃ item ∈ c.world.sent, item.pending.answer = (n, answer))
    (hseen : ∀ (n : ℕ) (call : Call), calls[n]? = some call → ∀ m ∈ call.after,
      ∃ item ∈ c.world.sent, item.sender = m) : Traced cache { c with calls } where
  numbers := h.numbers
  entered := fun n hn => by
    obtain ⟨call, hcall, hentered⟩ := h.entered n hn
    obtain ⟨call', hcall', -, -, hlater⟩ := hlater n call hcall
    exact ⟨call', hcall', hlater hentered⟩
  queued := fun input hinput => by
    obtain ⟨call, hcall, heq⟩ := h.queued input hinput
    obtain ⟨call', hcall', hsame, -⟩ := hlater _ call hcall
    exact ⟨call', hcall', hsame.trans heq⟩
  logged := h.logged
  items := fun item hitem => by
    obtain ⟨call, hcall, hfollows⟩ := h.items item hitem
    obtain ⟨call', hcall', hinput, hafter, -⟩ := hlater _ call hcall
    exact ⟨call', hcall', hfollows.mono (fun _ => id) hinput hafter⟩
  answers := hanswers
  seen := hseen

/-- A step of the engine that executes nothing. -/
theorem quiet (h : Traced cache c) {w' : World} (hquiet : Quiet c.world w') :
    Traced cache { c with world := w' } where
  numbers := h.numbers.sublist ((hquiet.queued.map _).append_right _)
  entered := fun n hn => h.entered n (((hquiet.queued.map _).append_right _).subset hn)
  queued := fun input hinput => h.queued input (hquiet.queued.subset hinput)
  logged := (hquiet.items.map _).trans h.logged
  items := fun item hitem => by
    obtain ⟨call, hcall, hfollows⟩ := h.items item (hquiet.items.subset hitem)
    exact ⟨call, hcall, hfollows.mono hquiet.sent rfl rfl⟩
  answers := fun n call answer hcall hphase => by
    obtain ⟨item, hitem, heq⟩ := h.answers n call answer hcall hphase
    exact ⟨item, hquiet.sent item hitem, heq⟩
  seen := fun n call hcall m hm => by
    obtain ⟨item, hitem, heq⟩ := h.seen n call hcall m hm
    exact ⟨item, hquiet.sent item hitem, heq⟩

/-- A step of the engine that executes one request.  What its call has seen answered is on the
disk, so it is in the history the request is executed on. -/
theorem executes (h : Traced cache c) {w' : World} {input : Input} {state : EngineState} {item : Item}
    {Json : Type} {codec : Codec Json} {engineId : String}
    (hinv : Inv codec cache engineId c.world) (hexecutes : Executes c.world w' input state item) :
    Traced cache { c with world := w', log := c.log ++ [item.sender] } := by
  obtain ⟨before, after, hqueued, hqueued'⟩ := hexecutes.queued
  obtain ⟨state', hrun⟩ := hexecutes.run
  have hsender : item.sender = input.response := Input.execute_sender hrun
  have hperm : (c.world.queued.map Input.response ++ c.log).Perm
      (w'.queued.map Input.response ++ (c.log ++ [item.sender])) := by
    rw [hqueued, hqueued', hsender, ← List.append_assoc, List.map_append, List.map_cons,
      List.map_append]
    exact (List.perm_middle.append_right _).trans (List.perm_append_singleton _ _).symm
  have hsub : ∀ other ∈ w'.queued, other ∈ c.world.queued := fun other hother => by
    rw [hqueued'] at hother
    rw [hqueued]
    exact ((List.sublist_cons_self input after).append_left before).subset hother
  have hall : w'.sent ++ w'.inFlight = (c.world.sent ++ c.world.inFlight) ++ [item] := by
    rw [hexecutes.sent, hexecutes.items, List.append_assoc]
  refine ⟨hperm.nodup_iff.mp h.numbers, fun n hn => h.entered n (hperm.mem_iff.mpr hn),
    fun other hother => h.queued other (hsub other hother), ?_, ?_, ?_, ?_⟩
  · show ((w'.sent ++ w'.inFlight).map Item.sender).Sublist (c.log ++ [item.sender])
    rw [hall, List.map_append]
    exact h.logged.append (.refl _)
  · intro other hother
    change other ∈ w'.sent ++ w'.inFlight at hother
    show ∃ call, c.calls[other.sender]? = some call ∧ Follows cache w'.sent call other
    rw [hexecutes.sent]
    rw [hall] at hother
    rcases List.mem_append.mp hother with hother | hother
    · exact h.items other hother
    · obtain rfl := List.mem_singleton.mp hother
      obtain ⟨call, hcall, rfl⟩ := h.queued input (by
        rw [hqueued]
        exact List.mem_append_right _ (List.mem_cons_self ..))
      obtain ⟨D, hD⟩ := hinv
      obtain ⟨state₀, hhistory, hstate⟩ := hD.run
      obtain rfl := hstate state hexecutes.core
      refine ⟨call, hsender ▸ hcall, c.world.history, state, state', hhistory, hrun,
        hexecutes.history, fun m hm => ?_⟩
      obtain ⟨earlier, hearlier, heq⟩ := h.seen _ call hcall m hm
      exact ⟨earlier, hearlier, heq,
        (hD.settled earlier (List.mem_append_left _ hearlier)).2.trans hD.isPrefix⟩
  · intro n call answer hcall hphase
    exact hexecutes.sent.symm ▸ h.answers n call answer hcall hphase
  · intro n call hcall m hm
    exact hexecutes.sent.symm ▸ h.seen n call hcall m hm

end Traced

/-! ### The steps of the calls -/

section Calls

variable {c : Clients} {n : ℕ} {call : Call} {phase : CallPhase}

theorem getElem?_advance (c : Clients) (n m : ℕ) (phase : CallPhase) :
    (c.advance n phase).calls[m]? =
      (c.calls[m]?).map fun call => if n = m then { call with phase } else call := by
  rw [Clients.advance, List.getElem?_modify]
  rfl

theorem later_advance (here : c.calls[n]? = some call)
    (hentered : call.phase.entered = true → phase.entered = true) :
    Later c.calls (c.advance n phase).calls := by
  intro m other hother
  rw [getElem?_advance, hother]
  refine ⟨if n = m then { other with phase } else other, rfl, ?_⟩
  split
  · next heq =>
    subst heq
    obtain rfl := Option.some.inj (here.symm.trans hother)
    exact ⟨rfl, rfl, hentered⟩
  · exact ⟨rfl, rfl, id⟩

/-- A call goes on: to an answer only if there is an item for it. -/
theorem Traced.advance {cache : BalanceCache} (h : Traced cache c) (here : c.calls[n]? = some call)
    (hentered : call.phase.entered = true → phase.entered = true)
    (hanswer : ∀ answer, phase.answer = some answer →
      ∃ item ∈ c.world.sent, item.pending.answer = (n, answer)) :
    Traced cache (c.advance n phase) := by
  refine h.later (later_advance here hentered) (fun m other answer hother hphase => ?_)
    fun m other hother k hk => ?_
  · change (c.advance n phase).calls[m]? = some other at hother
    rw [getElem?_advance, Option.map_eq_some_iff] at hother
    obtain ⟨old, hold, rfl⟩ := hother
    by_cases heq : n = m
    · rw [if_pos heq] at hphase
      exact heq ▸ hanswer answer hphase
    · rw [if_neg heq] at hphase
      exact h.answers m old answer hold hphase
  · change (c.advance n phase).calls[m]? = some other at hother
    rw [getElem?_advance, Option.map_eq_some_iff] at hother
    obtain ⟨old, hold, rfl⟩ := hother
    refine h.seen m old hold k ?_
    split at hk <;> exact hk

/-- A call that is about to send has sent nothing. -/
theorem Traced.fresh {cache : BalanceCache} (h : Traced cache c) (here : c.calls[n]? = some call)
    (hphase : call.phase.entered = false) : n ∉ c.world.queued.map Input.response ++ c.log := by
  intro hn
  obtain ⟨other, hother, hentered⟩ := h.entered n hn
  obtain rfl := Option.some.inj (here.symm.trans hother)
  rw [hphase] at hentered
  cases hentered

/-- Nothing was executed for it. -/
theorem Traced.not_executed {cache : BalanceCache} (h : Traced cache c)
    (here : c.calls[n]? = some call) (hphase : call.phase.entered = false) :
    n ∉ c.log ∧ ∀ input ∈ c.world.queued, input.response ≠ n := by
  have hfresh := h.fresh here hphase
  rw [List.mem_append, not_or] at hfresh
  exact ⟨hfresh.2, fun input hinput heq => hfresh.1 (heq ▸ List.mem_map_of_mem hinput)⟩

/-- A call puts its request into a queue. -/
theorem Traced.send {cache : BalanceCache} (h : Traced cache c) (here : c.calls[n]? = some call)
    (hnumber : call.input.response = n) (hphase : call.phase = .sending) {w' : World}
    {before after : List Input} (hqueued : c.world.queued = before ++ after)
    (hqueued' : w'.queued = before ++ call.input :: after) (hsent : w'.sent = c.world.sent)
    (hflight : w'.inFlight = c.world.inFlight) :
    Traced cache { c.advance n .waiting with world := w' } := by
  have hfresh := h.fresh here (by rw [hphase]; rfl)
  have hnext : Traced cache (c.advance n .waiting) :=
    h.advance here (fun _ => rfl) fun answer heq => by cases heq
  have hwaiting : (c.advance n .waiting).calls[n]? = some { call with phase := .waiting } := by
    rw [getElem?_advance, here, Option.map_some, if_pos rfl]
  have hperm : (w'.queued.map Input.response ++ c.log).Perm
      (n :: (c.world.queued.map Input.response ++ c.log)) := by
    rw [hqueued', hqueued, List.map_append, List.map_cons, List.map_append, hnumber]
    exact List.perm_middle.append_right _
  have hmem : ∀ input ∈ w'.queued, input = call.input ∨ input ∈ c.world.queued := by
    intro input hinput
    rw [hqueued'] at hinput
    rw [hqueued]
    rcases List.mem_append.mp hinput with hinput | hinput
    · exact Or.inr (List.mem_append_left _ hinput)
    · exact (List.mem_cons.mp hinput).imp_right (List.mem_append_right _)
  refine ⟨?_, ?_, ?_, ?_, ?_, ?_, ?_⟩
  · exact hperm.nodup_iff.mpr (List.nodup_cons.mpr ⟨hfresh, h.numbers⟩)
  · intro m hm
    rcases List.mem_cons.mp (hperm.mem_iff.mp hm) with rfl | hm
    · exact ⟨_, hwaiting, rfl⟩
    · exact hnext.entered m hm
  · intro input hinput
    rcases hmem input hinput with rfl | hinput
    · refine ⟨{ call with phase := .waiting }, ?_, rfl⟩
      rw [hnumber]
      exact hwaiting
    · exact hnext.queued input hinput
  · show ((w'.sent ++ w'.inFlight).map Item.sender).Sublist c.log
    rw [hsent, hflight]
    exact h.logged
  · intro item hitem
    change item ∈ w'.sent ++ w'.inFlight at hitem
    show ∃ other, (c.advance n .waiting).calls[item.sender]? = some other ∧
      Follows cache w'.sent other item
    rw [hsent, hflight] at hitem
    rw [hsent]
    exact hnext.items item hitem
  · intro m other answer hother hdone
    exact hsent.symm ▸ hnext.answers m other answer hother hdone
  · intro m other hother k hk
    exact hsent.symm ▸ hnext.seen m other hother k hk

/-- The number of a call is the sender in its request. -/
def Numbers (calls : List Call) : Prop :=
  ∀ (n : ℕ) (call : Call), calls[n]? = some call → call.input.response = n

theorem numbers_advance (h : Numbers c.calls) : Numbers (c.advance n phase).calls := by
  intro m other hother
  rw [getElem?_advance, Option.map_eq_some_iff] at hother
  obtain ⟨old, hold, rfl⟩ := hother
  rw [← h m old hold]
  split <;> rfl

theorem mem_returned_iff {m : ℕ} : m ∈ c.returned ↔
    ∃ call answer, c.calls[m]? = some call ∧ call.phase.answer = some answer := by
  rw [Clients.returned, List.mem_filter, List.mem_range, Option.any_eq_true]
  constructor
  · rintro ⟨-, call, hcall, hanswered⟩
    obtain ⟨answer, hanswer⟩ := Option.isSome_iff_exists.mp hanswered
    exact ⟨call, answer, hcall, hanswer⟩
  · rintro ⟨call, answer, hcall, hanswer⟩
    exact ⟨(List.getElem?_eq_some_iff.mp hcall).1, call, hcall, Option.isSome_iff_exists.mpr ⟨_, hanswer⟩⟩

end Calls

section Steps

variable {Json : Type} [DecidableEq Json] {codec : Codec Json} {cache : BalanceCache}
  {engineId : String} {c c' : Clients}

theorem CallStep.numbers (step : CallStep codec c c') (h : Numbers c.calls) : Numbers c'.calls := by
  cases step with
  | engine => exact h
  | crash step down =>
    intro n call hcall
    change (c.calls.map Call.sever)[n]? = some call at hcall
    rw [List.getElem?_map, Option.map_eq_some_iff] at hcall
    obtain ⟨old, hold, rfl⟩ := hcall
    exact h n old hold
  | @call input up number =>
    intro n call hcall
    change (c.calls ++ [_])[n]? = some call at hcall
    by_cases hn : n < c.calls.length
    · rw [List.getElem?_append_left hn] at hcall
      exact h n call hcall
    · rw [List.getElem?_append_right (not_lt.mp hn), List.getElem?_singleton] at hcall
      split at hcall
      · cases hcall
        show input.response = n
        omega
      · cases hcall
  | sentOrder => exact numbers_advance h
  | sentBalance => exact numbers_advance h
  | _ => exact numbers_advance h

/-- **Every step keeps requests and items with their calls.** -/
theorem CallStep.traced (step : CallStep codec c c') (hinv : Inv codec cache engineId c.world)
    (hnumbers : Numbers c.calls) (h : Traced cache c) : Traced cache c' := by
  have hunsent : ∀ {n : ℕ} {call : Call} {phase : CallPhase}, c.calls[n]? = some call →
      call.phase.entered = false → phase.answer = none →
      Traced cache (c.advance n phase) := by
    intro n call phase here hphase hanswer
    refine h.advance here (fun hentered => ?_) fun answer heq => ?_
    · rw [hphase] at hentered
      cases hentered
    · rw [hanswer] at heq
      cases heq
  cases step with
  | engine step up internal =>
    rcases step.flow internal with hquiet | ⟨input, state, item, hexecutes⟩
    · rw [hquiet.none, List.append_nil]
      exact h.quiet hquiet
    · rw [hexecutes.number]
      exact h.executes hinv hexecutes
  | crash step down =>
    have hquiet := h.quiet (step.quiet_of_down down)
    refine hquiet.later (fun n call hcall => ?_) (fun n call answer hcall hphase => ?_)
      fun n call hcall m hm => ?_
    · refine ⟨call.sever, ?_, rfl, rfl, fun hentered => ?_⟩
      · rw [List.getElem?_map, hcall]
        rfl
      · show call.phase.sever.entered = true
        cases hphase : call.phase with
        | done result =>
          rw [hphase] at hentered
          exact hentered
        | _ => rfl
    · rw [List.getElem?_map, Option.map_eq_some_iff] at hcall
      obtain ⟨old, hold, rfl⟩ := hcall
      refine hquiet.answers n old answer hold ?_
      change old.phase.sever.answer = _ at hphase
      cases hold' : old.phase with
      | done result =>
        rw [hold'] at hphase
        exact hphase
      | _ =>
        rw [hold'] at hphase
        cases hphase
    · rw [List.getElem?_map, Option.map_eq_some_iff] at hcall
      obtain ⟨old, hold, rfl⟩ := hcall
      exact hquiet.seen n old hold m hm
  | @call input up number =>
    have hold : ∀ (n : ℕ) (call : Call),
        (c.calls ++ [⟨input, .calling, c.returned⟩])[n]? = some call →
        c.calls[n]? = some call ∨ call = ⟨input, .calling, c.returned⟩ := by
      intro n call hcall
      by_cases hn : n < c.calls.length
      · exact Or.inl (by rwa [List.getElem?_append_left hn] at hcall)
      · rw [List.getElem?_append_right (not_lt.mp hn), List.getElem?_singleton] at hcall
        split at hcall
        · exact Or.inr (Option.some.inj hcall).symm
        · cases hcall
    refine h.later (fun n call hcall => ⟨call, ?_, rfl, rfl, id⟩) (fun n call answer hcall hphase => ?_)
      fun n call hcall m hm => ?_
    · rw [List.getElem?_append_left (List.getElem?_eq_some_iff.mp hcall).1]
      exact hcall
    · rcases hold n call hcall with hcall | rfl
      · exact h.answers n call answer hcall hphase
      · cases hphase
    · rcases hold n call hcall with hcall | rfl
      · exact h.seen n call hcall m hm
      · obtain ⟨other, answer, hother, hphase⟩ := mem_returned_iff.mp hm
        obtain ⟨item, hitem, hanswer⟩ := h.answers m other answer hother hphase
        exact ⟨item, hitem, congrArg Prod.fst hanswer⟩
  | opened here calling => exact hunsent here (by rw [calling]; rfl) rfl
  | barred here calling => exact hunsent here (by rw [calling]; rfl) rfl
  | @sentOrder n call command here sending request up room =>
    refine h.send here (hnumbers n call here) sending (List.append_nil _).symm ?_ rfl rfl
    show c.world.balances.map Input.balance ++ (c.world.core.held ++ (c.world.orders ++ [command])).map
      Input.order = c.world.queued ++ [call.input]
    rw [request, ← List.append_assoc, List.map_append, ← List.append_assoc]
    rfl
  | @sentBalance n call command here sending request up room =>
    refine h.send here (hnumbers n call here) sending rfl ?_ rfl rfl
    show (c.world.balances ++ [command]).map Input.balance ++ _ = _
    rw [request, List.map_append, List.append_assoc]
    rfl
  | full here sending => exact hunsent here (by rw [sending]; rfl) rfl
  | disconnected here sending => exact hunsent here (by rw [sending]; rfl) rfl
  | @answered n call item here waiting sent number =>
    refine h.advance here (fun _ => rfl) fun answer hanswer => ⟨item, sent, ?_⟩
    cases hanswer
    exact Prod.ext number rfl
  | timeout here waiting => exact h.advance here (fun _ => rfl) fun answer heq => by cases heq
  | dropped here waiting => exact h.advance here (fun _ => rfl) fun answer heq => by cases heq

theorem CallStep.legible (step : CallStep codec c c') (h : Legible codec c'.world.store) :
    Legible codec c.world.store := by
  rcases step.world with hsame | hstep
  · exact hsame ▸ h
  · exact hstep.legible h

omit [DecidableEq Json] in
theorem traced_of_initial {start : Clients} (h : start.Initial codec cache engineId) :
    Traced cache start ∧ Numbers start.calls := by
  obtain ⟨hworld, hcalls, hlog⟩ := h
  have hqueued : start.world.queued = [] := by
    rw [World.queued, hworld.empty.1, hworld.empty.2.1, hworld.down.1]
    rfl
  have hitems : start.world.sent ++ start.world.inFlight = [] := by
    rw [hworld.silent.1, World.inFlight, hworld.down.1, hworld.down.2, hworld.empty.2.2]
    rfl
  have hnone : ∀ (n : ℕ) (call : Call), start.calls[n]? ≠ some call := by
    intro n call hcall
    rw [hcalls] at hcall
    cases hcall
  have hnumbers : start.world.queued.map Input.response ++ start.log = [] := by
    rw [hqueued, hlog]
    rfl
  refine ⟨⟨?_, ?_, ?_, ?_, ?_, ?_, ?_⟩, fun n call hcall => absurd hcall (hnone n call)⟩
  · rw [hnumbers]
    exact List.nodup_nil
  · rw [hnumbers]
    exact fun n hn => absurd hn List.not_mem_nil
  · rw [hqueued]
    exact fun input hinput => absurd hinput List.not_mem_nil
  · rw [hitems]
    exact List.nil_sublist _
  · rw [hitems]
    exact fun item hitem => absurd hitem List.not_mem_nil
  · exact fun n call answer hcall => absurd hcall (hnone n call)
  · exact fun n call hcall => absurd hcall (hnone n call)

/-- **In every execution requests and items belong to calls.** -/
theorem CallReachable.traced
    (hcache : ∀ account b, cache.balances.lookup account = some b → Startup.Admissible account b)
    (hid : codec.isUuid engineId = true)
    (hgenesis : codec.parseGenesis (codec.genesisText ⟨4, engineId, cache.journalSeed⟩) =
      some ⟨4, engineId, cache.journalSeed⟩) {start : Clients}
    (hstart : start.Initial codec cache engineId) (h : CallReachable codec start c)
    (hrecords : Legible codec c.world.store) : Traced cache c ∧ Numbers c.calls := by
  induction h with
  | start => exact traced_of_initial hstart
  | step reached step ih =>
    have hbefore := step.legible hrecords
    obtain ⟨htraced, hnumbers⟩ := ih hbefore
    obtain ⟨hinv, -⟩ := reached.world.inv hcache hid hgenesis hstart.world hbefore
    exact ⟨step.traced hinv hnumbers htraced, step.numbers hnumbers⟩

/-- A call that has ended does not change. -/
theorem CallStep.ended (step : CallStep codec c c') {n : ℕ} {call : Call} {result : CallResult}
    (here : c.calls[n]? = some call) (hdone : call.phase = .done result) :
    c'.calls[n]? = some call := by
  -- only a call that has not ended goes on
  have hother : ∀ {m : ℕ} {other : Call} {phase : CallPhase}, c.calls[m]? = some other →
      (∀ result, other.phase ≠ .done result) → (c.advance m phase).calls[n]? = some call := by
    intro m other phase hother hphase
    have hne : m ≠ n := by
      rintro rfl
      obtain rfl := Option.some.inj (here.symm.trans hother)
      exact hphase result hdone
    rw [getElem?_advance, here, Option.map_some, if_neg hne]
  cases step with
  | engine => exact here
  | crash =>
    show (c.calls.map Call.sever)[n]? = some call
    rw [List.getElem?_map, here, Option.map_some, Call.sever, hdone, CallPhase.sever, ← hdone]
  | call =>
    have hlt : n < c.calls.length := List.getElem?_eq_some_iff.mp here |>.1
    show (c.calls ++ [_])[n]? = some call
    rw [List.getElem?_append_left hlt]
    exact here
  | opened hm hphase | barred hm hphase | sentOrder hm hphase | sentBalance hm hphase
  | full hm hphase | disconnected hm hphase | answered hm hphase | timeout hm hphase
  | dropped hm hphase =>
    refine hother hm fun result => ?_
    rw [hphase]
    simp

theorem CallReachable.ended (h : CallReachable codec c c') {n : ℕ} {call : Call} {result : CallResult}
    (here : c.calls[n]? = some call) (hdone : call.phase = .done result) :
    c'.calls[n]? = some call := by
  induction h with
  | start => exact here
  | step _ step ih => exact step.ended ih hdone

/-- A call is old, or it is made and has seen the calls that were answered. -/
theorem CallStep.made (step : CallStep codec c c') {m : ℕ} {call' : Call}
    (here : c'.calls[m]? = some call') :
    (∃ call, c.calls[m]? = some call ∧ call'.after = call.after) ∨ call'.after = c.returned := by
  have hadvance : ∀ {n : ℕ} {phase : CallPhase}, (c.advance n phase).calls[m]? = some call' →
      (∃ call, c.calls[m]? = some call ∧ call'.after = call.after) ∨ call'.after = c.returned := by
    intro n phase here
    rw [getElem?_advance, Option.map_eq_some_iff] at here
    obtain ⟨call, hcall, rfl⟩ := here
    exact .inl ⟨call, hcall, by split <;> rfl⟩
  cases step with
  | engine => exact .inl ⟨call', here, rfl⟩
  | crash =>
    change (c.calls.map Call.sever)[m]? = some call' at here
    rw [List.getElem?_map, Option.map_eq_some_iff] at here
    obtain ⟨call, hcall, rfl⟩ := here
    exact .inl ⟨call, hcall, rfl⟩
  | call =>
    change (c.calls ++ [_])[m]? = some call' at here
    rcases lt_or_ge m c.calls.length with hlt | hge
    · rw [List.getElem?_append_left hlt] at here
      exact .inl ⟨call', here, rfl⟩
    · rw [List.getElem?_append_right hge, List.getElem?_singleton] at here
      split at here <;> cases here
      exact .inr rfl
  | sentOrder => exact hadvance here
  | sentBalance => exact hadvance here
  | _ => exact hadvance here

/-- **A call has seen all calls that were answered before it was made.** -/
theorem CallReachable.seen (h : CallReachable codec c c') {n m : ℕ} {call call' : Call} {answer : Answer}
    (here : c.calls[n]? = some call) (hdone : call.phase = .done (.answered answer))
    (hlater : c.calls.length ≤ m) (here' : c'.calls[m]? = some call') : n ∈ call'.after := by
  induction h generalizing call' with
  | start =>
    rw [List.getElem?_eq_none hlater] at here'
    cases here'
  | @step mid _ reached step ih =>
    rcases step.made here' with ⟨old, hold, hsame⟩ | hafter
    · rw [hsame]
      exact ih hold
    · rw [hafter]
      exact mem_returned_iff.mpr ⟨call, answer, reached.ended here hdone, by rw [hdone]; rfl⟩

omit [DecidableEq Json] in
/-- **What was executed for an answered call**, and that it is on the disk. -/
theorem Traced.point (h : Traced cache c) {D : List (Command × Outcome)}
    (hD : Trail.InvAt codec cache engineId c.world.trail D) {n : ℕ} {call : Call} {answer : Answer}
    (here : c.calls[n]? = some call) (hanswer : call.phase.answer = some answer) :
    ∃ item ∈ c.world.sent, item.pending.answer = (n, answer) ∧
      Follows cache c.world.sent call item ∧ item.history <+: D := by
  obtain ⟨item, hitem, heq⟩ := h.answers n call answer here hanswer
  have hsender : item.sender = n := congrArg Prod.fst heq
  obtain ⟨call', hcall', hfollows⟩ := h.items item (List.mem_append_left _ hitem)
  rw [hsender, here] at hcall'
  cases hcall'
  exact ⟨item, hitem, heq, hfollows, (hD.settled item (List.mem_append_left _ hitem)).2⟩

/-- A step keeps the requests of the calls. -/
theorem CallStep.inputs (step : CallStep codec c c') {n : ℕ} {call : Call}
    (here : c.calls[n]? = some call) :
    ∃ call', c'.calls[n]? = some call' ∧ call'.input = call.input := by
  have hadvance : ∀ {m : ℕ} {phase : CallPhase},
      ∃ call', (c.advance m phase).calls[n]? = some call' ∧ call'.input = call.input := by
    intro m phase
    refine ⟨if m = n then { call with phase } else call, ?_, by split <;> rfl⟩
    rw [getElem?_advance, here]
    rfl
  cases step with
  | engine => exact ⟨call, here, rfl⟩
  | crash =>
    refine ⟨call.sever, ?_, rfl⟩
    show (c.calls.map Call.sever)[n]? = _
    rw [List.getElem?_map, here]
    rfl
  | call =>
    refine ⟨call, ?_, rfl⟩
    show (c.calls ++ [_])[n]? = _
    rw [List.getElem?_append_left (List.getElem?_eq_some_iff.mp here).1]
    exact here
  | sentOrder => exact hadvance
  | sentBalance => exact hadvance
  | _ => exact hadvance

omit [DecidableEq Json] in
/-- The command that was executed is that of the request. -/
theorem request_of_execute {state state' : EngineState} {input : Input} {pending : Pending}
    (h : input.execute state = .ok (pending, state')) {e : Command × Outcome}
    (he : e ∈ executed [pending]) : ∃ reply, input.request state = (some e.1, reply) := by
  unfold Input.execute at h
  split at h
  · cases h
    cases he
  · next command reply hrequest =>
    split at h
    · cases h
      obtain rfl := List.mem_singleton.mp he
      exact ⟨reply, hrequest⟩
    · cases h

/-- A step executes nothing but requests. -/
theorem Step.requested {w w' : World} (step : Step codec w w') : ∀ e ∈ w'.history, e ∈ w.history ∨
    ∃ input ∈ w.queued, ∃ state reply, input.request state = (some e.1, reply) := by
  cases step with
  | boot => exact fun e he => Or.inl (List.mem_of_mem_take he)
  | balance here next hrun =>
    refine fun e he => (List.mem_append.mp he).imp_right fun he => ⟨_, ?_, _, request_of_execute hrun he⟩
    rw [World.queued, next]
    exact List.mem_append_left _ (List.mem_cons_self ..)
  | order here running hrun =>
    refine fun e he => (List.mem_append.mp he).imp_right fun he => ⟨_, ?_, _, request_of_execute hrun he⟩
    rw [World.queued, here]
    exact List.mem_append_right _ (List.mem_cons_self ..)
  | _ => exact fun e he => Or.inl he

/-- **Whatever was executed is the request of a call.** -/
theorem CallReachable.requested
    (hcache : ∀ account b, cache.balances.lookup account = some b → Startup.Admissible account b)
    (hid : codec.isUuid engineId = true)
    (hgenesis : codec.parseGenesis (codec.genesisText ⟨4, engineId, cache.journalSeed⟩) =
      some ⟨4, engineId, cache.journalSeed⟩) {start : Clients}
    (hstart : start.Initial codec cache engineId) (h : CallReachable codec start c)
    (hrecords : Legible codec c.world.store) : ∀ e ∈ c.world.history, ∃ call ∈ c.calls,
      ∃ state reply, call.input.request state = (some e.1, reply) := by
  induction h with
  | start =>
    intro e he
    rw [hstart.world.silent.2.1] at he
    cases he
  | @step c c' reached step ih =>
    have hbefore := step.legible hrecords
    obtain ⟨htraced, -⟩ := reached.traced hcache hid hgenesis hstart hbefore
    -- the calls keep their requests
    have hcalls : ∀ {e : Command × Outcome}, (∃ call ∈ c.calls, ∃ state reply,
        call.input.request state = (some e.1, reply)) → ∃ call ∈ c'.calls, ∃ state reply,
          call.input.request state = (some e.1, reply) := by
      rintro e ⟨call, hcall, state, reply, hrequest⟩
      obtain ⟨n, hn⟩ := List.mem_iff_getElem?.mp hcall
      obtain ⟨call', hcall', hinput⟩ := step.inputs hn
      exact ⟨call', List.mem_of_getElem? hcall', state, reply, hinput ▸ hrequest⟩
    intro e he
    rcases step.world with hsame | hstep
    · exact hcalls (ih hbefore e (hsame ▸ he))
    · rcases hstep.requested e he with he | ⟨input, hinput, state, reply, hrequest⟩
      · exact hcalls (ih hbefore e he)
      · obtain ⟨call, hcall, rfl⟩ := htraced.queued input hinput
        exact hcalls ⟨call, List.mem_of_getElem? hcall, state, reply, hrequest⟩

/-- **A request of the balance queue whose call has ended**, seen from any later time: a refused one
was never executed, and an answered one has a record. -/
theorem ended_later
    (hcache : ∀ account b, cache.balances.lookup account = some b → Startup.Admissible account b)
    (hid : codec.isUuid engineId = true)
    (hgenesis : codec.parseGenesis (codec.genesisText ⟨4, engineId, cache.journalSeed⟩) =
      some ⟨4, engineId, cache.journalSeed⟩) {start : Clients}
    (hstart : start.Initial codec cache engineId) (hreached : CallReachable codec start c)
    (hlater : CallReachable codec c c') (hrecords : Legible codec c'.world.store) {n : ℕ} {call : Call}
    {result : CallResult} {command : BalanceCommand} (here : c.calls[n]? = some call)
    (hinput : call.input = .balance command) (hdone : call.phase = .done result) :
    ∃ D final, (∃ clock, c'.world.store.records.entries = (recordsOf clock 0 D).map (rowOf codec)) ∧
      Run (.genesis cache) D final ∧
      (∀ error, result = .refused error →
        n ∉ c'.log ∧ ∀ input ∈ c'.world.queued, input.response ≠ n) ∧
      ∀ answer, result = .answered answer → ∃ before rest outcome,
        D = before ++ (command.request.1, outcome) :: rest ∧
        Pending.answer ⟨some command.request.1, outcome, command.request.2⟩ = (n, answer) := by
  have hreached' := hreached.trans hlater
  have here' := hlater.ended here hdone
  obtain ⟨⟨D, hD⟩, -⟩ := hreached'.world.inv hcache hid hgenesis hstart.world hrecords
  obtain ⟨htraced, -⟩ := hreached'.traced hcache hid hgenesis hstart hrecords
  obtain ⟨final, hrun⟩ := hD.run_durable
  refine ⟨D, final, hD.records, hrun, ?_, ?_⟩
  · rintro error rfl
    exact htraced.not_executed here' (by rw [hdone]; rfl)
  · rintro answer rfl
    obtain ⟨item, -, hanswer, ⟨before, state, state', -, hexecute, hhistory, -⟩, rest, hdisk⟩ :=
      htraced.point hD here' (by rw [hdone]; rfl)
    rw [hinput] at hexecute
    obtain ⟨outcome, -, hpending⟩ := Input.execute_balance hexecute
    rw [hpending] at hanswer hhistory
    refine ⟨before, rest, outcome, ?_, hanswer⟩
    rw [← hdisk, hhistory, List.append_assoc]
    rfl

end Steps

/-! ## Linearizability -/

/-- The point at which an answered call took effect: the commands up to it, its own included. -/
def Clients.pointOf (c : Clients) (n : ℕ) : Option (List (Command × Outcome)) :=
  (c.world.sent.find? fun item => item.sender == n).map Item.history

/-- Every call has one point. -/
theorem Traced.pointOf {cache : BalanceCache} {c : Clients} (h : Traced cache c) {item : Item}
    (hitem : item ∈ c.world.sent) : c.pointOf item.sender = some item.history := by
  have hnodup : (c.world.sent.map Item.sender).Nodup := by
    refine ((List.nodup_append.mp h.numbers).2.1.sublist h.logged).sublist ?_
    exact (List.sublist_append_left ..).map _
  have hfind : c.world.sent.find? (fun other => other.sender == item.sender) = some item := by
    have hsome : (c.world.sent.find? fun other => other.sender == item.sender).isSome :=
      List.find?_isSome.mpr ⟨item, hitem, beq_self_eq_true _⟩
    obtain ⟨other, hother⟩ := Option.isSome_iff_exists.mp hsome
    have hsender : other.sender = item.sender := by simpa using List.find?_some hother
    have heq : other = item :=
      List.inj_on_of_nodup_map hnodup (List.mem_of_find?_eq_some hother) hitem hsender
    exact heq ▸ hother
  rw [Clients.pointOf, hfind, Option.map_some]

/-- **Calls take effect at one point of the commands `D` on the disk.** -/
structure Linearized {Json : Type} (codec : Codec Json) (cache : BalanceCache) (c : Clients)
    (D : List (Command × Outcome)) : Prop where
  records : ∃ clock, c.world.store.records.entries = (recordsOf clock 0 D).map (rowOf codec)
  /-- No request is executed twice. -/
  once : c.log.Nodup
  /-- A refused call has no effect, now or later. -/
  refused : ∀ (n : ℕ) (call : Call) error, c.calls[n]? = some call →
    call.phase = .done (.refused error) →
      n ∉ c.log ∧ ∀ input ∈ c.world.queued, input.response ≠ n
  /-- An answered call was executed in the state that the commands before its point led to, with
  the answer it got, and its point is on the disk.  The points of the calls that were answered
  before it was made come before. -/
  answered : ∀ (n : ℕ) (call : Call) answer, c.calls[n]? = some call →
    call.phase = .done (.answered answer) → n ∈ c.log ∧ ∃ before state state' pending,
      Run (.genesis cache) before state ∧ call.input.execute state = .ok (pending, state') ∧
      pending.answer = (n, answer) ∧ c.pointOf n = some (before ++ executed [pending]) ∧
      before ++ executed [pending] <+: D ∧
      ∀ m ∈ call.after, ∃ point, c.pointOf m = some point ∧ point <+: before

section Linearizable

variable {Json : Type} [DecidableEq Json]

/-- **The engine is linearizable**, for any number of overlapping calls, with failed commits, lost
answers, crashes and restarts. -/
theorem calls_linearizable {codec : Codec Json} {platform : Startup.Platform}
    {cache : BalanceCache} {engineId : String} {start c : Clients}
    (hload : Startup.loadBalances platform = .ok cache) (hid : codec.isUuid engineId = true)
    (hgenesis : codec.parseGenesis (codec.genesisText ⟨4, engineId, cache.journalSeed⟩) =
      some ⟨4, engineId, cache.journalSeed⟩)
    (hstart : start.Initial codec cache engineId) (hreached : CallReachable codec start c)
    (hrecords : Legible codec c.world.store) : ∃ D, Linearized codec cache c D := by
  have hcache := Startup.loadBalances_admissible hload
  obtain ⟨⟨D, hD⟩, -⟩ := hreached.world.inv hcache hid hgenesis hstart.world hrecords
  obtain ⟨htraced, -⟩ := hreached.traced hcache hid hgenesis hstart hrecords
  refine ⟨D, hD.records, (List.nodup_append.mp htraced.numbers).2.1, ?_, ?_⟩
  · intro n call error hcall hphase
    exact htraced.not_executed hcall (by rw [hphase]; rfl)
  · intro n call answer hcall hphase
    obtain ⟨item, hitem, hanswer, ⟨before, state, state', hrun, hexecute, hhistory, hearlier⟩,
      hdisk⟩ := htraced.point hD hcall (by rw [hphase]; rfl)
    obtain rfl : item.sender = n := congrArg Prod.fst hanswer
    have hmem : item ∈ c.world.sent ++ c.world.inFlight := List.mem_append_left _ hitem
    refine ⟨htraced.logged.subset (List.mem_map_of_mem hmem), before, state, state', item.pending,
      hrun, hexecute, hanswer, ?_, ?_, fun m hm => ?_⟩
    · rw [htraced.pointOf hitem, hhistory]
    · rw [← hhistory]
      exact hdisk
    · obtain ⟨earlier, hmem', rfl, hprefix⟩ := hearlier m hm
      exact ⟨earlier.history, htraced.pointOf hmem', hprefix⟩

end Linearizable

/-! ### Calls at the same time -/

theorem calls_linearizable_credit :
    ∃ c D, c.calls = sampleCalls ∧ Linearized creditCodec Store.sampleCache c D := by
  obtain ⟨c, c', hreached, hlater, hlegible, -, hcalls, -⟩ := exists_calls
  obtain ⟨D, hD⟩ := calls_linearizable Store.loadBalances_sample record_isUuid record_genesis
    initial_record hreached hlegible
  exact ⟨c, D, hcalls, hD⟩

end Pipeline

end CexEngine
