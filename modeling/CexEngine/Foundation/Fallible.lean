import Mathlib.Tactic.Common

/-!
# Fallible calls and calls on borrowed state

The library in which the engine's functions are written.  A call of the source
ends in one of three ways: it returns a value, it returns an error with a
message, or it panics.  `Fault` is the last two, and `Except Fault α` is a call
that only reads.

A call that holds a mutable borrow is a `Mut σ α`, that is
`ExceptT Fault (StateM σ) α`.  The order of the two transformers is the content
of the definition: a call that stops with an error **keeps** whatever it had
already written to the borrow.  Nothing is rolled back, so "a failed call leaves
its borrow unchanged" is a theorem about a function, never a property of the
monad.

* `ensure`, `orErr`, `expect`, `expectOk`: the ways the source turns a test or an
  option into a fault;
* `Mut.exec`: running a call on a local value that is dropped on error;
* `Mut.zoom`: running a call on one field of a larger borrow;
* `Mut.attempt`, `Mut.withContext`: looking at the `Result` of a call.

The `run_*` lemmas compute `Mut.run`, and `run_bind_ok_iff`,
`run_bind_error_iff` read a finished run backwards.
-/

namespace Foundation

/-- How a call fails: an error value carrying its message, or a panic carrying
the message of the failed assertion. -/
inductive Fault where
  | err (message : String)
  | panic (message : String)
  deriving DecidableEq, Repr

/-! ## Calls that only read -/

/-- Stop with an error unless the test holds. -/
def ensure (p : Prop) [Decidable p] (message : String) : Except Fault Unit :=
  if p then .ok () else .error (.err message)

/-- The value of an option, or an error. -/
def orErr {α : Type*} (o : Option α) (message : String) : Except Fault α :=
  match o with
  | some a => .ok a
  | none => .error (.err message)

/-- The value of an option, or a panic. -/
def expect {α : Type*} (o : Option α) (message : String) : Except Fault α :=
  match o with
  | some a => .ok a
  | none => .error (.panic message)

/-- The value of a finished call.  An error of the call becomes a panic. -/
def expectOk {α : Type*} (x : Except Fault α) (message : String) : Except Fault α :=
  match x with
  | .ok a => .ok a
  | .error _ => .error (.panic message)

/-- Replace the message of an error.  A panic passes through unchanged. -/
def withContext {α : Type*} (x : Except Fault α) (message : String) : Except Fault α :=
  match x with
  | .ok a => .ok a
  | .error (.err _) => .error (.err message)
  | .error (.panic site) => .error (.panic site)

@[simp] theorem ensure_eq_ok {p : Prop} [Decidable p] {message : String} {u : Unit} :
    ensure p message = .ok u ↔ p := by
  unfold ensure
  split <;> simp_all

theorem ensure_of {p : Prop} [Decidable p] {message : String} (h : p) :
    ensure p message = .ok () := ensure_eq_ok.mpr h

theorem ensure_eq_error {p : Prop} [Decidable p] {message : String} {f : Fault} :
    ensure p message = .error f ↔ ¬ p ∧ f = .err message := by
  unfold ensure
  split <;> simp_all [eq_comm]

@[simp] theorem orErr_eq_ok {α : Type*} {o : Option α} {message : String} {a : α} :
    orErr o message = .ok a ↔ o = some a := by
  cases o <;> simp [orErr]

theorem orErr_eq_error {α : Type*} {o : Option α} {message : String} {f : Fault} :
    orErr o message = .error f ↔ o = none ∧ f = .err message := by
  cases o <;> simp [orErr, eq_comm]

@[simp] theorem expect_eq_ok {α : Type*} {o : Option α} {message : String} {a : α} :
    expect o message = .ok a ↔ o = some a := by
  cases o <;> simp [expect]

@[simp] theorem expectOk_eq_ok {α : Type*} {x : Except Fault α} {message : String} {a : α} :
    expectOk x message = .ok a ↔ x = .ok a := by
  cases x <;> simp [expectOk]

@[simp] theorem withContext_eq_ok {α : Type*} {x : Except Fault α} {message : String} {a : α} :
    withContext x message = .ok a ↔ x = .ok a := by
  rcases x with (_ | _) | _ <;> simp [withContext]

/-- A call that is known to finish. -/
theorem ok_bind {ε α β : Type} (a : α) (f : α → Except ε β) : (Except.ok a >>= f) = f a := rfl

/-- A finished sequence of two calls finished both of them. -/
theorem bind_eq_ok {ε α β : Type} {x : Except ε α} {f : α → Except ε β} {b : β} :
    (x >>= f) = .ok b ↔ ∃ a, x = .ok a ∧ f a = .ok b := by
  cases x <;> simp [bind, Except.bind]

/-- A sequence of two calls fails where the first of them to fail does. -/
theorem bind_eq_error {ε α β : Type} {x : Except ε α} {f : α → Except ε β} {e : ε} :
    (x >>= f) = .error e ↔ x = .error e ∨ ∃ a, x = .ok a ∧ f a = .error e := by
  cases x <;> simp [bind, Except.bind]

/-- Two continuations that agree on the result of a call. -/
theorem bind_congr_ok {ε α β : Type} {x : Except ε α} {f g : α → Except ε β}
    (h : ∀ a, x = .ok a → f a = g a) : (x >>= f) = (x >>= g) := by
  cases x with
  | error e => rfl
  | ok a => exact h a rfl

theorem pure_eq_ok {ε α : Type*} {a b : α} : (pure a : Except ε α) = .ok b ↔ a = b := by
  simp [pure, Except.pure]

/-! ## Panics -/

/-- A call that cannot panic. -/
def NoPanic {α : Type*} (x : Except Fault α) : Prop := ∀ site, x ≠ .error (.panic site)

theorem noPanic_ok {α : Type*} (a : α) : NoPanic (.ok a : Except Fault α) := by
  intro site h
  cases h

theorem noPanic_ensure {p : Prop} [Decidable p] {message : String} :
    NoPanic (ensure p message) := by
  intro site h
  have := (ensure_eq_error.mp h).2
  cases this

theorem noPanic_orErr {α : Type*} {o : Option α} {message : String} :
    NoPanic (orErr o message) := by
  intro site h
  cases o <;> simp [orErr] at h

theorem NoPanic.withContext {α : Type*} {x : Except Fault α} {message : String}
    (hx : NoPanic x) : NoPanic (withContext x message) := by
  intro site h
  rcases x with (_ | p) | _
  · simp [Foundation.withContext] at h
  · exact hx p rfl
  · simp [Foundation.withContext] at h

theorem NoPanic.bind {α β : Type} {x : Except Fault α} {f : α → Except Fault β}
    (hx : NoPanic x) (hf : ∀ a, x = .ok a → NoPanic (f a)) : NoPanic (x >>= f) := by
  intro site h
  rcases bind_eq_error.mp h with h | ⟨a, ha, h⟩
  · exact hx site h
  · exact hf a ha site h

/-! ## Calls that return no error -/

/-- A call that returns no error: it finishes or panics. -/
def NoErr {α : Type*} (x : Except Fault α) : Prop := ∀ message, x ≠ .error (.err message)

theorem noErr_ok {α : Type*} (a : α) : NoErr (.ok a : Except Fault α) := by
  intro message h
  cases h

theorem noErr_expect {α : Type*} {o : Option α} {site : String} : NoErr (expect o site) := by
  intro message h
  cases o <;> cases h

theorem NoErr.bind {α β : Type} {x : Except Fault α} {f : α → Except Fault β} (hx : NoErr x)
    (hf : ∀ a, NoErr (f a)) : NoErr (x >>= f) := by
  intro message h
  rcases bind_eq_error.mp h with h | ⟨a, -, h⟩
  · exact hx message h
  · exact hf a message h

/-! ## Calls that do not fail in one way -/

/-- A call that does not fail in the way `e`. -/
def Avoids {α : Type*} (e : Fault) (x : Except Fault α) : Prop := x ≠ .error e

section Avoids

variable {e : Fault}

theorem avoids_ok {α : Type*} (a : α) : Avoids e (.ok a) := by
  intro h
  cases h

theorem avoids_ensure {p : Prop} [Decidable p] {message : String} (h : .err message ≠ e) :
    Avoids e (ensure p message) := by
  intro he
  rw [ensure] at he
  split at he
  · cases he
  · exact h (Except.error.inj he)

/-- A check that is passed. -/
theorem avoids_ensure_of {p : Prop} [Decidable p] {message : String} (h : p) :
    Avoids e (ensure p message) := by
  rw [ensure, if_pos h]
  exact avoids_ok ()

theorem avoids_orErr {α : Type*} {o : Option α} {message : String} (h : .err message ≠ e) :
    Avoids e (orErr o message) := by
  intro he
  cases o with
  | none => exact h (Except.error.inj he)
  | some a => cases he

theorem avoids_expect {α : Type*} {o : Option α} {message : String} (h : .panic message ≠ e) :
    Avoids e (expect o message) := by
  intro he
  cases o with
  | none => exact h (Except.error.inj he)
  | some a => cases he

theorem Avoids.bind {α β : Type} {x : Except Fault α} {f : α → Except Fault β}
    (hx : Avoids e x) (hf : ∀ a, x = .ok a → Avoids e (f a)) : Avoids e (x >>= f) := by
  intro h
  rcases bind_eq_error.mp h with h | ⟨a, ha, h⟩
  · exact hx h
  · exact hf a ha h

end Avoids

/-! ## Calls on borrowed state -/

/-- A call that holds a mutable borrow of a `σ`. -/
abbrev Mut (σ α : Type) := ExceptT Fault (StateM σ) α

namespace Mut

variable {σ τ α β : Type}

/-- The result of a call and what it left in the borrow. -/
def run (x : Mut σ α) (s : σ) : Except Fault α × σ := StateT.run (ExceptT.run x) s

/-- Run a call on a local value.  The value is dropped when the call fails. -/
def exec (x : Mut σ α) (s : σ) : Except Fault σ :=
  match x.run s with
  | (.ok _, s') => .ok s'
  | (.error f, _) => .error f

/-- Run a call on the part of the borrow that `get` reads and `put` writes. -/
def zoom (get : τ → σ) (put : σ → τ → τ) (x : Mut σ α) : Mut τ α :=
  ExceptT.mk fun t => let r := x.run (get t); (r.1, put r.2 t)

/-- The `Result` of a call as a value.  A panic is not a result. -/
def attempt (x : Mut σ α) : Mut σ (Except String α) :=
  ExceptT.mk fun s =>
    match x.run s with
    | (.ok a, s') => (.ok (.ok a), s')
    | (.error (.err message), s') => (.ok (.error message), s')
    | (.error (.panic site), s') => (.error (.panic site), s')

/-- Replace the message of an error. -/
def context (x : Mut σ α) (message : String) : Mut σ α :=
  ExceptT.mk fun s => let r := x.run s; (withContext r.1 message, r.2)

@[simp] theorem run_pure (a : α) (s : σ) : run (pure a) s = (.ok a, s) := rfl

theorem run_bind (x : Mut σ α) (f : α → Mut σ β) (s : σ) :
    run (x >>= f) s =
      match run x s with
      | (.ok a, s') => run (f a) s'
      | (.error e, s') => (.error e, s') := by
  change (bind (m := StateM σ) (ExceptT.run x) (ExceptT.bindCont f)) s = _
  change ExceptT.bindCont f (run x s).1 (run x s).2 = _
  rcases run x s with ⟨_ | a, s'⟩ <;> rfl

@[simp] theorem run_lift (x : Except Fault α) (s : σ) :
    run (liftM x : Mut σ α) s = (x, s) := rfl

@[simp] theorem run_get (s : σ) : run (get : Mut σ σ) s = (.ok s, s) := rfl

@[simp] theorem run_modify (g : σ → σ) (s : σ) :
    run (modify g : Mut σ PUnit) s = (.ok ⟨⟩, g s) := rfl

@[simp] theorem run_zoom (get : τ → σ) (put : σ → τ → τ) (x : Mut σ α) (t : τ) :
    run (zoom get put x) t = ((run x (get t)).1, put (run x (get t)).2 t) := rfl

@[simp] theorem run_context (x : Mut σ α) (message : String) (s : σ) :
    run (context x message) s = (withContext (run x s).1 message, (run x s).2) := rfl

/-- A finished sequence of calls, read backwards. -/
theorem run_bind_ok_iff {x : Mut σ α} {f : α → Mut σ β} {s s'' : σ} {b : β} :
    run (x >>= f) s = (.ok b, s'') ↔
      ∃ a s', run x s = (.ok a, s') ∧ run (f a) s' = (.ok b, s'') := by
  rw [run_bind]
  rcases run x s with ⟨_ | a, s'⟩ <;> simp

/-- A failed sequence of calls, read backwards: the state is the one in which
the failing call stopped. -/
theorem run_bind_error_iff {x : Mut σ α} {f : α → Mut σ β} {s s'' : σ} {e : Fault} :
    run (x >>= f) s = (.error e, s'') ↔
      run x s = (.error e, s'') ∨
        ∃ a s', run x s = (.ok a, s') ∧ run (f a) s' = (.error e, s'') := by
  rw [run_bind]
  rcases run x s with ⟨_ | a, s'⟩ <;> simp

/-- A failed sequence that starts with a call that only reads. -/
theorem run_lift_bind_error_iff {x : Except Fault α} {f : α → Mut σ β} {s s'' : σ} {e : Fault} :
    run ((liftM x : Mut σ α) >>= f) s = (.error e, s'') ↔
      (x = .error e ∧ s = s'') ∨ ∃ a, x = .ok a ∧ run (f a) s = (.error e, s'') := by
  rw [run_bind, run_lift]
  cases x <;> simp

theorem exec_eq_ok_iff {x : Mut σ α} {s s' : σ} :
    exec x s = .ok s' ↔ ∃ a, run x s = (.ok a, s') := by
  unfold exec
  rcases run x s with ⟨_ | a, t⟩ <;> simp

theorem exec_bind_lift (x : Except Fault α) (f : α → Mut σ β) (s : σ) :
    (liftM x >>= f : Mut σ β).exec s = x >>= fun a => (f a).exec s := by
  unfold exec
  rw [run_bind, run_lift]
  cases x <;> rfl

theorem exec_bind_get (f : σ → Mut σ β) (s : σ) : (get >>= f : Mut σ β).exec s = (f s).exec s := by
  unfold exec
  rw [run_bind, run_get]

theorem exec_modify (g : σ → σ) (s : σ) : (modify g : Mut σ PUnit).exec s = .ok (g s) := rfl

theorem run_attempt_ok {x : Mut σ α} {s s' : σ} {a : α} (h : run x s = (.ok a, s')) :
    run (attempt x) s = (.ok (.ok a), s') := by
  change (match run x s with
    | (.ok a, s') => ((.ok (.ok a) : Except Fault (Except String α)), s')
    | (.error (.err message), s') => (.ok (.error message), s')
    | (.error (.panic site), s') => (.error (.panic site), s')) = _
  rw [h]

theorem run_attempt_err {x : Mut σ α} {s s' : σ} {message : String}
    (h : run x s = (.error (.err message), s')) :
    run (attempt x) s = (.ok (.error message), s') := by
  change (match run x s with
    | (.ok a, s') => ((.ok (.ok a) : Except Fault (Except String α)), s')
    | (.error (.err message), s') => (.ok (.error message), s')
    | (.error (.panic site), s') => (.error (.panic site), s')) = _
  rw [h]

theorem run_attempt_panic {x : Mut σ α} {s s' : σ} {site : String}
    (h : run x s = (.error (.panic site), s')) :
    run (attempt x) s = (.error (.panic site), s') := by
  change (match run x s with
    | (.ok a, s') => ((.ok (.ok a) : Except Fault (Except String α)), s')
    | (.error (.err message), s') => (.ok (.error message), s')
    | (.error (.panic site), s') => (.error (.panic site), s')) = _
  rw [h]

/-! ### Failing without a trace -/

/-- The call leaves its borrow as it was, however it ends. -/
def ReadOnly (x : Mut σ α) : Prop := ∀ s, (run x s).2 = s

/-- A call that returns an error has left its borrow as it was. -/
def Atomic (x : Mut σ α) : Prop := ∀ s message s', run x s = (.error (.err message), s') → s' = s

/-- The call returns no error: it finishes or panics. -/
def Infallible (x : Mut σ α) : Prop := ∀ s message s', run x s ≠ (.error (.err message), s')

theorem readOnly_lift (x : Except Fault α) : ReadOnly (liftM x : Mut σ α) := fun _ => rfl

theorem readOnly_get : ReadOnly (get : Mut σ σ) := fun _ => rfl

theorem infallible_pure (a : α) : Infallible (pure a : Mut σ α) := by
  intro s message s' h
  cases h

theorem infallible_modify (g : σ → σ) : Infallible (modify g : Mut σ PUnit) := by
  intro s message s' h
  cases h

theorem infallible_set (t : σ) : Infallible (set t : Mut σ PUnit) := by
  intro s message s' h
  cases h

/-- Reading, when the only way to fail is a panic. -/
theorem infallible_lift {x : Except Fault α} (hx : NoErr x) : Infallible (liftM x : Mut σ α) := by
  intro s message s' h
  exact hx message (congrArg Prod.fst h)

theorem Infallible.bind {x : Mut σ α} {f : α → Mut σ β} (hx : Infallible x)
    (hf : ∀ a, Infallible (f a)) : Infallible (x >>= f) := by
  intro s message s'' h
  rcases run_bind_error_iff.mp h with h | ⟨a, s', -, h⟩
  · exact hx s message s'' h
  · exact hf a s' message s'' h

theorem ReadOnly.atomic {x : Mut σ α} (hx : ReadOnly x) : Atomic x := by
  intro s message s' h
  have hs := hx s
  rw [h] at hs
  exact hs

theorem Infallible.atomic {x : Mut σ α} (hx : Infallible x) : Atomic x := by
  intro s message s' h
  exact absurd h (hx s message s')

/-- Reading first keeps a sequence atomic. -/
theorem ReadOnly.bind_atomic {x : Mut σ α} {f : α → Mut σ β} (hx : ReadOnly x)
    (hf : ∀ a, Atomic (f a)) : Atomic (x >>= f) := by
  intro s message s'' h
  rcases run_bind_error_iff.mp h with h | ⟨a, s', h, h'⟩
  · exact hx.atomic s message s'' h
  · have hs := hx s
    rw [h] at hs
    rw [hf a s' message s'' h']
    exact hs

/-- A sequence is atomic when nothing after its first call returns an error. -/
theorem Atomic.bind_infallible {x : Mut σ α} {f : α → Mut σ β} (hx : Atomic x)
    (hf : ∀ a, Infallible (f a)) : Atomic (x >>= f) := by
  intro s message s'' h
  rcases run_bind_error_iff.mp h with h | ⟨a, s', -, h'⟩
  · exact hx s message s'' h
  · exact absurd h' (hf a s' message s'')

theorem Atomic.zoom {get : τ → σ} {put : σ → τ → τ} {x : Mut σ α} (hx : Atomic x)
    (hput : ∀ t, put (get t) t = t) : Atomic (zoom get put x) := by
  intro t message t' h
  rw [run_zoom] at h
  have h1 : (run x (get t)).1 = .error (.err message) := congrArg Prod.fst h
  have h2 : put (run x (get t)).2 t = t' := congrArg Prod.snd h
  have hsame : (run x (get t)).2 = get t := hx (get t) message _ (Prod.ext h1 rfl)
  rw [← h2]
  exact (congrArg (fun r => put r t) hsame).trans (hput t)

theorem Atomic.context {x : Mut σ α} {text : String} (hx : Atomic x) :
    Atomic (context x text) := by
  intro s message s' h
  rw [run_context] at h
  have h2 : (run x s).2 = s' := congrArg Prod.snd h
  have h1 : withContext (run x s).1 text = .error (.err message) := congrArg Prod.fst h
  rcases hr : (run x s).1 with (m | site) | a
  · exact h2 ▸ hx s m _ (Prod.ext hr rfl)
  · simp [hr, withContext] at h1
  · simp [hr, withContext] at h1

/-- A call that fails, in whatever way, has left its borrow as it was. -/
def Traceless (x : Mut σ α) : Prop := ∀ s e s', run x s = (.error e, s') → s' = s

theorem traceless_lift_bind {x : Except Fault α} {f : α → Mut σ β} (hf : ∀ a, Traceless (f a)) :
    Traceless (liftM x >>= f) := by
  intro s e s' h
  rcases run_lift_bind_error_iff.mp h with ⟨-, hs⟩ | ⟨a, -, h⟩
  · exact hs.symm
  · exact hf a s e s' h

theorem traceless_get_bind {f : σ → Mut σ β} (hf : ∀ a, Traceless (f a)) :
    Traceless (get >>= f) := by
  intro s e s' h
  rw [run_bind, run_get] at h
  exact hf s s e s' h

theorem traceless_modify (g : σ → σ) : Traceless (modify g : Mut σ PUnit) := by
  intro s e s' h
  cases h

/-! ### Not panicking -/

/-- The call does not panic. -/
def NoPanic (x : Mut σ α) (s : σ) : Prop := ∀ site s', run x s ≠ (.error (.panic site), s')

theorem noPanic_lift {x : Except Fault α} (hx : Foundation.NoPanic x) (s : σ) :
    NoPanic (liftM x : Mut σ α) s := by
  intro site s' h
  exact hx site (congrArg Prod.fst h)

theorem NoPanic.bind {x : Mut σ α} {f : α → Mut σ β} {s : σ} (hx : NoPanic x s)
    (hf : ∀ a s', run x s = (.ok a, s') → NoPanic (f a) s') : NoPanic (x >>= f) s := by
  intro site s'' h
  rcases run_bind_error_iff.mp h with h | ⟨a, s', h, h'⟩
  · exact hx site s'' h
  · exact hf a s' h site s'' h'

/-- A call that is atomic and does not panic finishes, or returns an error and
leaves no trace. -/
theorem NoPanic.cases {x : Mut σ α} {s : σ} (hp : NoPanic x s) (ha : Atomic x) :
    (∃ a s', run x s = (.ok a, s')) ∨ ∃ message, run x s = (.error (.err message), s) := by
  rcases hr : run x s with ⟨(message | site) | a, s'⟩
  · rw [ha s message s' hr]
    exact Or.inr ⟨message, rfl⟩
  · exact absurd hr (hp site s')
  · exact Or.inl ⟨a, s', rfl⟩

theorem NoPanic.exec {x : Mut σ α} {s : σ} (hx : NoPanic x s) : Foundation.NoPanic (exec x s) := by
  intro site h
  unfold Mut.exec at h
  rcases hr : run x s with ⟨_ | a, s'⟩
  · rw [hr] at h
    cases h
    exact hx site s' hr
  · rw [hr] at h
    cases h

end Mut

end Foundation
