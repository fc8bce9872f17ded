import CexEngine.Runtime.Handle

/-!
# What a crash leaves behind

The core runs ahead of the disk: what it has executed and not stored lies in the group of the worker,
in the queue of the worker and in its own hands.  A crash loses these places, and the answers to what
was in them were not sent yet, since a request is answered after its commit.

* `Bounded`: these places are small.
* `Leftover`: a worker that has failed or ended leaves nothing else, so a crash loses the commands
  in these places at most (`crash_loss_bounded`), and after a worker that has ended there are none.
* `Complete`: whatever this start of the process has executed was answered or is in one of these
  places.
* `Current`: a worker between two groups has published the number of the records.

The last two are for a stop: when all workers have ended, no place is left.
-/

namespace CexEngine

open Foundation Amount

namespace Pipeline

open Store (executed)

/-! ## Places -/

section Bounded

variable {Json : Type} [DecidableEq Json] {codec : Codec Json} {w w' : World}

/-- The group, and the queue with what is on its way to it. -/
structure Bounded (w : World) : Prop where
  group : w.worker.items.length ≤ groupSize
  queue : w.queue.length + w.core.items.length ≤ journalCapacity

theorem Step.bounded (step : Step codec w w') (hroom : Room w) (h : Bounded w) : Bounded w' := by
  have hgroup := h.group
  have hqueue := h.queue
  have hempty : 0 ≤ groupSize := Nat.zero_le _
  have hcore : ∀ {core : Core}, core.items = [] → w.queue.length + core.items.length ≤ journalCapacity := by
    intro core hitems
    rw [hitems, List.length_nil]
    omega
  cases step with
  | boot | crash => exact ⟨hempty, Nat.zero_le _⟩
  | close | halt | marked | sendOrder | sendBalance => exact ⟨hgroup, hqueue⟩
  | move here moves => exact ⟨hgroup, hcore moves.items.2⟩
  | received | fault | overflow | stopped => exact ⟨hgroup, hcore rfl⟩
  | balance here =>
    rw [Room, here] at hroom
    exact ⟨hgroup, hroom trivial⟩
  | order here =>
    rw [Room, here] at hroom
    exact ⟨hgroup, hroom trivial⟩
  | published here room =>
    refine ⟨hgroup, ?_⟩
    show (w.queue ++ [_]).length + 0 ≤ journalCapacity
    rw [List.length_append, List.length_singleton]
    omega
  | started | startFailed | again | drained => exact ⟨hempty, hqueue⟩
  | @first item rest here next =>
    rw [next, List.length_cons] at hqueue
    refine ⟨?_, ?_⟩
    · show 1 ≤ groupSize
      decide
    · show rest.length + w.core.items.length ≤ journalCapacity
      omega
  | @grouped group item rest here room next =>
    rw [next, List.length_cons] at hqueue
    refine ⟨?_, ?_⟩
    · show (group ++ [item]).length ≤ groupSize
      rw [List.length_append, List.length_singleton]
      omega
    · show rest.length + w.core.items.length ≤ journalCapacity
      omega
  | gathered here | committed here | commitFailed here | commitLost here | progressed here
  | failed here =>
    rw [here] at hgroup
    exact ⟨hgroup, hqueue⟩
  | @answered item group here =>
    rw [here] at hgroup
    exact ⟨(Nat.le_succ _).trans hgroup, hqueue⟩

/-- **The places are small**, in every execution. -/
theorem Reachable.bounded {start : World} {cache : BalanceCache} {engineId : String}
    (hstart : start.Initial codec cache engineId) (h : Reachable codec start w) : Bounded w := by
  induction h with
  | start =>
    obtain ⟨hcore, hworker⟩ := hstart.down
    refine ⟨?_, ?_⟩
    · rw [hworker]
      exact Nat.zero_le _
    · rw [hcore, hstart.empty.2.2]
      exact Nat.zero_le _
  | step reached step ih => exact step.bounded (reached.room hstart.down.1) ih

end Bounded

/-! ## What a worker leaves -/

/-- What a worker that has failed, or ended, has left. -/
def Worker.leftover : Worker → Option (List Item)
  | failing group | failed group => some group
  | ended => some []
  | _ => none

/-- The commands that are not on the disk. -/
def World.unstored (w : World) : List (Command × Outcome) :=
  w.history.drop w.store.records.entries.length

section Leftover

variable {Json : Type} [DecidableEq Json] {codec : Codec Json} {cache : BalanceCache}
  {engineId : String} {w w' : World}

/-- What is not on the disk is with the worker, in its queue, or with the core. -/
structure Leftover (w : World) : Prop where
  unstored : ∀ group, w.worker.leftover = some group →
    w.unstored <:+ commandsOf (group ++ w.queue ++ w.core.items)
  ended : w.worker = .ended → w.queue = [] ∧ (w.core = .stopped ∨ w.core = .panicked)
  down : w.worker = .down → w.core = .down

omit [DecidableEq Json] in
/-- While the worker works, the invariant says it. -/
theorem Inv.unstored_eq (h : Inv codec cache engineId w) {group : List Item}
    (hwaiting : w.worker.unstored = some group) :
    w.unstored = commandsOf (group ++ w.queue ++ w.core.items) := by
  obtain ⟨D, hD⟩ := h
  have hhistory : w.history = D ++ commandsOf (group ++ w.queue ++ w.core.items) :=
    (hD.waiting _ (by rw [World.trail, hwaiting]; rfl)).2.1
  have hlength : w.store.records.entries.length = D.length := hD.length_entries
  rw [World.unstored, hlength, hhistory, List.drop_left]

omit [DecidableEq Json] in
/-- The core goes on, or stops, with the same items between it and the worker. -/
theorem Leftover.core (h : Leftover w) {state : EngineState} {phase : CorePhase} {u : World}
    (here : w.core = .running state phase) (hworker : u.worker = w.worker) (hstore : u.store = w.store)
    (hhistory : u.history = w.history) (hitems : u.queue ++ u.core.items = w.queue ++ w.core.items) :
    Leftover u := by
  refine ⟨fun group hgroup => ?_, fun hended => ?_, fun hdown => ?_⟩
  · rw [World.unstored, hstore, hhistory, List.append_assoc, hitems, ← List.append_assoc]
    exact h.unstored group (hworker ▸ hgroup)
  · obtain ⟨-, hcore⟩ := h.ended (hworker ▸ hended)
    rw [here] at hcore
    exact hcore.elim nofun nofun
  · have hcore := h.down (hworker ▸ hdown)
    rw [here] at hcore
    cases hcore

omit [DecidableEq Json] in
/-- The core executes a request, whatever has become of the worker. -/
theorem Leftover.execute (h : Leftover w) (hinv : Inv codec cache engineId w) {state' : EngineState}
    {state : EngineState} {phase : CorePhase} (here : w.core = .running state phase)
    (hitems : w.core.items = []) (pending : Pending) (balances : List BalanceCommand) :
    Leftover { w.execute state' pending with balances } := by
  refine ⟨fun group hgroup => ?_, fun hended => ?_, fun hdown => ?_⟩
  · obtain ⟨before, hbefore⟩ := h.unstored group hgroup
    obtain ⟨D, hD⟩ := hinv
    have hle : w.store.records.entries.length ≤ w.history.length := by
      rw [show w.store.records.entries.length = D.length from hD.length_entries]
      exact hD.isPrefix.length_le
    refine ⟨before, ?_⟩
    show before ++ (w.history ++ executed [pending]).drop w.store.records.entries.length =
      commandsOf (group ++ w.queue ++ [_])
    rw [List.drop_append_of_le_length hle, ← List.append_assoc, commandsOf_append]
    rw [hitems, List.append_nil] at hbefore
    exact congrArg (· ++ executed [pending]) hbefore
  · obtain ⟨-, hcore⟩ := h.ended hended
    rw [here] at hcore
    exact hcore.elim nofun nofun
  · have hcore := h.down hdown
    rw [here] at hcore
    cases hcore

theorem Step.leftover (step : Step codec w w') (hinv : Inv codec cache engineId w)
    (halive : w'.core ≠ .panicked) (h : Leftover w) : Leftover w' := by
  -- the worker works on
  have hworks : ∀ {worker : Worker} {store : Store} {sequence durable : ℕ} {queue sent : List Item},
      worker.leftover = none → worker ≠ .down →
      Leftover { w with store, worker, sequence, durable, queue, sent } := by
    intro worker store sequence durable queue sent hnone hup
    refine ⟨fun group hgroup => ?_, fun hended => ?_, fun hdown => absurd hdown hup⟩
    · rw [hnone] at hgroup
      cases hgroup
    · rw [show worker = .ended from hended] at hnone
      cases hnone
  -- the worker fails, with a group that it was working on
  have hfails : ∀ {group : List Item}, w.worker.unstored = some group →
      Leftover { w with worker := .failing group } := by
    intro group hwaiting
    refine ⟨fun other hother => ?_, nofun, nofun⟩
    obtain rfl : group = other := Option.some.inj hother
    show w.unstored <:+ _
    rw [hinv.unstored_eq hwaiting]
  cases step with
  | boot => exact ⟨by simp [Worker.leftover], nofun, nofun⟩
  | crash => exact ⟨by simp [Worker.leftover], nofun, fun _ => rfl⟩
  | close | halt | sendOrder | sendBalance => exact ⟨h.unstored, h.ended, h.down⟩
  | marked up behind marked =>
    obtain ⟨-, -, rfl⟩ := Store.markDelivered_ok marked
    exact ⟨h.unstored, h.ended, h.down⟩
  | move here moves =>
    refine h.core here rfl rfl rfl ?_
    rw [here, moves.items.1, moves.items.2]
  | balance here => exact h.execute hinv here (by rw [here]; rfl) _ _
  | received here =>
    refine h.core here rfl rfl rfl ?_
    rw [here]
    rfl
  | order here => exact h.execute hinv here (by rw [here]; rfl) _ w.balances
  | fault | overflow => exact absurd rfl halive
  | published here =>
    refine h.core here rfl rfl rfl ?_
    rw [here]
    exact List.append_nil _
  | stopped here =>
    refine h.core here rfl rfl rfl ?_
    rw [here]
    rfl
  | started | first | grouped | gathered | committed | progressed | answered | again =>
    exact hworks rfl nofun
  | startFailed here => exact hfails (by rw [here]; rfl)
  | commitFailed here => exact hfails (by rw [here]; rfl)
  | @commitLost group clock store last here appended =>
    -- the group is on the disk after all
    refine ⟨fun other hother => ?_, nofun, nofun⟩
    obtain rfl : group = other := Option.some.inj hother
    have hstored : (World.unstored { w with
        store, sequence := last, worker := .publishing group }) = commandsOf ([] ++ w.queue ++ w.core.items) :=
      (hinv.append here appended).unstored_eq rfl
    change World.unstored { w with store, sequence := last, worker := .publishing group } <:+
      commandsOf (group ++ w.queue ++ w.core.items)
    rw [hstored, List.nil_append, List.append_assoc, commandsOf_append group]
    exact List.suffix_append ..
  | drained here empty ended =>
    refine ⟨fun group hgroup => ?_, fun _ => ⟨empty, ended⟩, nofun⟩
    obtain rfl : [] = group := Option.some.inj hgroup
    show w.unstored <:+ _
    rw [hinv.unstored_eq (by rw [here]; rfl)]
  | @failed group here =>
    refine ⟨fun other hother => ?_, nofun, nofun⟩
    obtain rfl : group = other := Option.some.inj hother
    exact h.unstored group (by rw [here]; rfl)

end Leftover

/-! ## What was executed -/

section Complete

variable {Json : Type} [DecidableEq Json] {codec : Codec Json} {cache : BalanceCache}
  {engineId : String} {w w' : World}

/-- Whatever this start of the process has executed was answered, or is on its way. -/
def Complete (w : World) : Prop :=
  w.core ≠ .down → ∀ k < w.count, ∃ item ∈ w.sent ++ w.inFlight, item.life = w.life ∧ item.number = k

/-- Items are passed on. -/
theorem Complete.mono (h : Complete w) (hup : w'.core ≠ .down → w.core ≠ .down)
    (hcount : w'.count = w.count) (hlife : w'.life = w.life)
    (hitems : ∀ item ∈ w.sent ++ w.inFlight, item ∈ w'.sent ++ w'.inFlight) : Complete w' := by
  intro hup' k hk
  obtain ⟨item, hitem, heq, hnumber⟩ := h (hup hup') k (hcount ▸ hk)
  exact ⟨item, hitems item hitem, heq.trans hlife.symm, hnumber⟩

/-- The core executes a request. -/
theorem Complete.execute (h : Complete w) (hup : w.core ≠ .down) (hitems : w.core.items = [])
    (state' : EngineState) (pending : Pending) (balances : List BalanceCommand) :
    Complete { w.execute state' pending with balances } := by
  intro _ k hk
  have hflight : World.inFlight { w.execute state' pending with balances } =
      w.inFlight ++ [⟨pending, w.history ++ executed [pending], w.life, w.count⟩] := by
    rw [World.inFlight, World.inFlight, hitems, List.append_nil]
    rfl
  rcases Nat.lt_succ_iff_lt_or_eq.mp hk with hk | rfl
  · obtain ⟨item, hitem, hitem'⟩ := h hup k hk
    refine ⟨item, ?_, hitem'⟩
    rw [hflight, ← List.append_assoc]
    exact List.mem_append_left _ hitem
  · refine ⟨⟨pending, w.history ++ executed [pending], w.life, w.count⟩, ?_, rfl, rfl⟩
    rw [hflight, ← List.append_assoc]
    exact List.mem_append_right _ (List.mem_singleton_self _)

theorem Step.complete (step : Step codec w w') (halive : w'.core ≠ .panicked) (h : Complete w) :
    Complete w' := by
  have hup : ∀ {state : EngineState} {phase : CorePhase}, w.core = .running state phase →
      w.core ≠ .down := by
    intro state phase here
    rw [here]
    exact nofun
  have hsame : ∀ {items : List Item}, items = w.inFlight →
      ∀ item ∈ w.sent ++ w.inFlight, item ∈ w.sent ++ items := by
    rintro items rfl item hitem
    exact hitem
  cases step with
  | boot => exact fun _ k hk => absurd hk (Nat.not_lt_zero k)
  | crash => exact fun hdown => absurd rfl hdown
  | close | halt | marked | sendOrder | sendBalance => exact h.mono id rfl rfl (hsame rfl)
  | move here moves =>
    refine h.mono (fun _ => hup here) rfl rfl (hsame ?_)
    rw [World.inFlight, World.inFlight, here, moves.items.1, moves.items.2]
  | balance here => exact h.execute (hup here) (by rw [here]; rfl) _ _ _
  | order here => exact h.execute (hup here) (by rw [here]; rfl) _ _ w.balances
  | fault | overflow => exact absurd rfl halive
  | received here | stopped here =>
    refine h.mono (fun _ => hup here) rfl rfl (hsame ?_)
    rw [World.inFlight, World.inFlight, here]
    rfl
  | published here =>
    refine h.mono (fun _ => hup here) rfl rfl (hsame ?_)
    rw [World.inFlight, World.inFlight, here]
    show w.worker.items ++ (w.queue ++ [_]) ++ [] = w.worker.items ++ w.queue ++ [_]
    rw [List.append_nil, List.append_assoc]
  | started here | startFailed here | gathered here | committed here | commitFailed here
  | commitLost here | progressed here | again here | drained here | failed here =>
    refine h.mono id rfl rfl (hsame ?_)
    rw [World.inFlight, World.inFlight, here]
    rfl
  | first here next =>
    refine h.mono id rfl rfl (hsame ?_)
    rw [World.inFlight, World.inFlight, here, next]
    rfl
  | @grouped group item rest here room next =>
    refine h.mono id rfl rfl (hsame ?_)
    rw [World.inFlight, World.inFlight, here, next]
    show group ++ [item] ++ rest ++ w.core.items = group ++ item :: rest ++ w.core.items
    rw [List.append_assoc group [item] rest]
    rfl
  | @answered item group here =>
    refine h.mono id rfl rfl fun other hother => ?_
    show other ∈ w.sent ++ [item] ++ (group ++ w.queue ++ w.core.items)
    rw [World.inFlight, here] at hother
    rw [List.append_assoc]
    exact hother

end Complete

/-! ## What is known to be durable -/

/-- The worker has published the number of records, and has stored nothing since. -/
def Worker.current : Worker → Bool
  | starting | receiving | grouping _ | committing _ | answering _ | ended => true
  | _ => false

section Current

variable {Json : Type} [DecidableEq Json] {codec : Codec Json} {cache : BalanceCache}
  {engineId : String} {w w' : World}

def Current (w : World) : Prop :=
  w.worker.current = true → w.durable = w.store.records.entries.length

theorem Step.current (step : Step codec w w') (hinv : Inv codec cache engineId w) (h : Current w) :
    Current w' := by
  obtain ⟨D, hD⟩ := hinv
  have hlength : w.store.records.entries.length = D.length := hD.length_entries
  cases step with
  | @boot state engineId last down recovered sequence =>
    intro _
    have hlast : w.store.lastSequence = .ok D.length := hD.lastSequence
    rw [sequence] at hlast
    exact (Except.ok.inj hlast).trans hlength.symm
  | crash | startFailed | committed | commitFailed | commitLost | failed => exact nofun
  | marked up behind marked =>
    obtain ⟨-, -, rfl⟩ := Store.markDelivered_ok marked
    exact h
  | started here | first here | grouped here | gathered here | answered here | again here
  | drained here =>
    intro _
    rw [Current, here] at h
    exact h rfl
  | progressed here =>
    intro _
    have hsequence : w.trail.sequence = some w.sequence := by
      simp [World.trail, here, Worker.counts]
    exact (hD.sequence _ hsequence).trans hlength.symm
  | _ => exact h

end Current

/-! ## All executions -/

section Reachable

variable {Json : Type} [DecidableEq Json] {codec : Codec Json} {cache : BalanceCache}
  {engineId : String} {start w : World}

/-- **Nothing is lost on the way**, in every execution. -/
theorem Reachable.kept
    (hcache : ∀ account b, cache.balances.lookup account = some b → Startup.Admissible account b)
    (hid : codec.isUuid engineId = true)
    (hgenesis : codec.parseGenesis (codec.genesisText ⟨4, engineId, cache.journalSeed⟩) =
      some ⟨4, engineId, cache.journalSeed⟩)
    (hstart : start.Initial codec cache engineId) (h : Reachable codec start w)
    (hrecords : Legible codec w.store) : Leftover w ∧ Complete w ∧ Current w := by
  induction h with
  | start =>
    obtain ⟨hcore, hworker⟩ := hstart.down
    refine ⟨⟨?_, ?_, fun _ => hcore⟩, fun hup => absurd hcore hup, ?_⟩
    · simp [hworker, Worker.leftover]
    · simp [hworker]
    · simp [Current, hworker, Worker.current]
  | @step w w' reached step ih =>
    have hbefore := step.legible hrecords
    obtain ⟨hleft, hcomplete, hcurrent⟩ := ih hbefore
    obtain ⟨hinv, -⟩ := reached.inv hcache hid hgenesis hstart hbefore
    obtain ⟨-, halive⟩ := (reached.step step).inv hcache hid hgenesis hstart hrecords
    exact ⟨step.leftover hinv halive hleft, step.complete halive hcomplete,
      step.current hinv hcurrent⟩

omit [DecidableEq Json] in
/-- What is not on the disk is on its way. -/
theorem Leftover.unstored_inFlight (h : Leftover w) (hinv : Inv codec cache engineId w)
    (hup : w.core ≠ .down) : w.unstored <:+ commandsOf w.inFlight := by
  have hstored : w.worker.unstored = some [] → w.unstored <:+ commandsOf w.inFlight := by
    intro hwaiting
    rw [hinv.unstored_eq hwaiting, World.inFlight, List.nil_append, List.append_assoc,
      commandsOf_append w.worker.items]
    exact List.suffix_append ..
  have hleft := h.unstored
  cases hworker : w.worker with
  | down => exact absurd (h.down hworker) hup
  | starting | receiving | publishing group | answering group =>
    exact hstored (by rw [hworker]; rfl)
  | grouping group | committing group =>
    rw [hinv.unstored_eq (by rw [hworker]; rfl : w.worker.unstored = some group), World.inFlight,
      hworker]
    exact List.suffix_refl _
  | failing group | failed group =>
    rw [World.inFlight, hworker]
    exact hleft group (by rw [hworker]; rfl)
  | ended =>
    rw [World.inFlight, hworker]
    exact hleft [] (by rw [hworker]; rfl)

end Reachable

/-! ## Crashes -/

/-- **What a crash costs**: a restart finds the first `n` executed commands; the others are those of
the last requests, which are few, and none of which was answered. -/
structure LossBounded {Json : Type} [DecidableEq Json] (codec : Codec Json) (cache : BalanceCache)
    (engineId : String) (w : World) (n : ℕ) : Prop where
  recovers : ∃ state, w.store.recover codec = .ok (state, engineId) ∧
    Run (.genesis cache) (w.history.take n) state
  lost : w.history.drop n <:+ commandsOf w.inFlight
  bounded : w.inFlight.length ≤ groupSize + journalCapacity
  unanswered : ∀ item ∈ w.inFlight, item ∉ w.sent

section Stop

variable {Json : Type} [DecidableEq Json] {codec : Codec Json} {platform : Startup.Platform}
  {cache : BalanceCache} {engineId : String} {start w : World}

/-- **A crash loses no answered request, and few others**, wherever the process is. -/
theorem crash_loss_bounded (hload : Startup.loadBalances platform = .ok cache)
    (hid : codec.isUuid engineId = true)
    (hgenesis : codec.parseGenesis (codec.genesisText ⟨4, engineId, cache.journalSeed⟩) =
      some ⟨4, engineId, cache.journalSeed⟩)
    (hstart : start.Initial codec cache engineId) (hreached : Reachable codec start w)
    (hrecords : Legible codec w.store) (hup : w.core ≠ .down) :
    ∃ n, LossBounded codec cache engineId w n := by
  have hcache := Startup.loadBalances_admissible hload
  obtain ⟨⟨D, hD⟩, -⟩ := hreached.inv hcache hid hgenesis hstart hrecords
  obtain ⟨hleft, -, -⟩ := hreached.kept hcache hid hgenesis hstart hrecords
  obtain ⟨hgroup, hqueue⟩ := hreached.bounded hstart
  have hnumbered : Numbered w := hreached.numbered (numbered_of_initial hstart)
  refine ⟨w.store.records.entries.length, ?_, hleft.unstored_inFlight ⟨D, hD⟩ hup, ?_, ?_⟩
  · rw [show w.history.take w.store.records.entries.length = D from hD.take_history]
    exact hD.recover hcache hid hgenesis hrecords
  · rw [World.inFlight, List.length_append, List.length_append]
    omega
  · intro item hitem hsent
    exact (List.nodup_append.mp hnumbered.nodup).2.2 item hsent item hitem rfl

end Stop

/-! ### A crash before a commit -/

/-- A deposit is executed, and waits for the journal worker. -/
theorem exists_queued : ∃ w, Reachable creditCodec (recordStart creditCodec) w ∧
    Legible creditCodec w.store ∧ w.core ≠ .down ∧
    w.unstored.map Prod.fst = [.creditDeposit Output.sampleCredit] ∧ w.queue.length = 1 := by
  have hrecover : (recordStart creditCodec).store.recover creditCodec =
      .ok (.genesis Store.sampleCache, Store.sampleGenesis.engineId) := recover_record
  obtain ⟨state, hexecute⟩ := exists_credited
  have hroom : 0 < inputCapacity ∧ ([] : List Item).length < journalCapacity := by decide
  have h0 : Reachable creditCodec (recordStart creditCodec) _ := .start
  have h1 := h0.step (.boot ⟨rfl, rfl⟩ hrecover rfl)
  have h2 := h1.step (@Step.sendBalance _ _ _ _ (.creditDeposit Output.sampleCredit 0) nofun hroom.1)
  have h3 := (h2.step (.move rfl (.running rfl))).step (.move rfl (.accepting rfl))
  have h4 := h3.step (.move rfl (.reserved hroom.2))
  have h5 := (h4.step (.balance rfl rfl hexecute)).step (.published rfl hroom.2)
  exact ⟨_, h5, (fun record hrecord => absurd hrecord List.not_mem_nil), nofun, rfl, rfl⟩

/-- The process crashes with the deposit in the queue of the journal worker. -/
theorem crash_loss_bounded_credit : ∃ w n,
    w.unstored.map Prod.fst = [.creditDeposit Output.sampleCredit] ∧ w.queue.length = 1 ∧
      LossBounded creditCodec Store.sampleCache Store.sampleGenesis.engineId w n := by
  obtain ⟨w, hreached, hlegible, hup, hunstored, hqueue⟩ := exists_queued
  obtain ⟨n, hbounded⟩ := crash_loss_bounded Store.loadBalances_sample record_isUuid record_genesis
    initial_record.world hreached hlegible hup
  exact ⟨w, n, hunstored, hqueue, hbounded⟩

end Pipeline

end CexEngine
