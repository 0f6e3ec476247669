import PagedIndex.Event

namespace PagedIndex

structure Outcome (σ α : Type) where
  result : Checked α
  state : σ
  events : List Event

-- A step on a state that reports events and answers or fails. A failed step keeps the state and the
-- events that it had reached.
def Op (σ α : Type) : Type := σ → Outcome σ α

namespace Op

variable {σ τ ρ α β : Type}

def pure (a : α) : Op σ α := fun s => ⟨.ok a, s, []⟩

-- A step without events leaves nothing to be done after the next one.
def bind (x : Op σ α) (f : α → Op σ β) : Op σ β := fun s =>
  match x s with
  | ⟨.ok a, t, []⟩ => f a t
  | ⟨.ok a, t, events⟩ =>
    let next := f a t
    ⟨next.result, next.state, events ++ next.events⟩
  | ⟨.error e, t, events⟩ => ⟨.error e, t, events⟩

instance : Monad (Op σ) where
  pure := pure
  bind := bind

-- A computation without state, as a step that leaves the state alone.
def ofChecked (x : Checked α) : Op σ α := fun s => ⟨x, s, []⟩

instance : MonadLift Checked (Op σ) := ⟨ofChecked⟩

def fail (e : StoreError) : Op σ α := ofChecked (.error (.error e))

def abort (a : Abort) : Op σ α := ofChecked (.error (.abort a))

def report (e : Event) : Op σ Unit := fun s => ⟨.ok (), s, [e]⟩

def observe (f : σ → α) : Op σ α := fun s => ⟨.ok (f s), s, []⟩

def update (f : σ → σ) : Op σ Unit := fun s => ⟨.ok (), f s, []⟩

-- Hand an error to the caller as a value. An abort is not handed over.
def attempt (x : Op σ α) : Op σ (Except StoreError α) := fun s =>
  match x s with
  | ⟨.ok a, t, events⟩ => ⟨.ok (.ok a), t, events⟩
  | ⟨.error (.error e), t, events⟩ => ⟨.ok (.error e), t, events⟩
  | ⟨.error (.abort a), t, events⟩ => ⟨.error (.abort a), t, events⟩

-- Run `cleanup` after `body`, however `body` ends. The answer is that of `body`.
def ensuring (body : Op σ α) (cleanup : Op σ Unit) : Op σ α := fun s =>
  match body s with
  | ⟨result, t, events⟩ =>
    let last := cleanup t
    ⟨result, last.state, events ++ last.events⟩

-- Run an operation on a part of a larger state, which is split off and put back afterwards.
def zoom (split : τ → σ × ρ) (join : σ → ρ → τ) (x : Op σ α) : Op τ α := fun t =>
  match split t with
  | (part, rest) =>
    let inner := x part
    ⟨inner.result, join inner.state rest, inner.events⟩

theorem pure_run (a : α) (s : σ) : (Pure.pure a : Op σ α) s = ⟨.ok a, s, []⟩ := rfl

theorem bind_run (x : Op σ α) (f : α → Op σ β) (s : σ) :
    (x >>= f) s =
      match x s with
      | ⟨.ok a, t, events⟩ => ⟨(f a t).result, (f a t).state, events ++ (f a t).events⟩
      | ⟨.error e, t, events⟩ => ⟨.error e, t, events⟩ := by
  change bind x f s = _
  simp only [bind]
  cases x s with
  | mk result t events =>
    cases result with
    | error e => rfl
    | ok a => cases events <;> rfl

@[simp] theorem report_run (e : Event) (s : σ) : report e s = ⟨.ok (), s, [e]⟩ := rfl

@[simp] theorem observe_run (f : σ → α) (s : σ) : observe f s = ⟨.ok (f s), s, []⟩ := rfl

@[simp] theorem update_run (f : σ → σ) (s : σ) : update f s = ⟨.ok (), f s, []⟩ := rfl

@[simp] theorem fail_run (e : StoreError) (s : σ) :
    (fail e : Op σ α) s = ⟨.error (.error e), s, []⟩ := rfl

@[simp] theorem abort_run (a : Abort) (s : σ) :
    (abort a : Op σ α) s = ⟨.error (.abort a), s, []⟩ := rfl

-- An attempt changes how a failure is answered, not what it leaves behind.
@[simp] theorem state_attempt (x : Op σ α) (s : σ) : (attempt x s).state = (x s).state := by
  simp only [attempt]
  split <;> simp_all

@[simp] theorem events_attempt (x : Op σ α) (s : σ) : (attempt x s).events = (x s).events := by
  simp only [attempt]
  split <;> simp_all

@[simp] theorem result_ensuring (body : Op σ α) (cleanup : Op σ Unit) (s : σ) :
    (body.ensuring cleanup s).result = (body s).result := rfl

@[simp] theorem state_ensuring (body : Op σ α) (cleanup : Op σ Unit) (s : σ) :
    (body.ensuring cleanup s).state = (cleanup (body s).state).state := rfl

private theorem id_map_op {α : Type} (x : Op σ α) : id <$> x = x := by
  funext s
  change (x >>= Pure.pure) s = x s
  simp only [bind_run, pure_run]
  split <;> simp_all

private theorem bind_assoc_op {α β γ : Type} (x : Op σ α) (f : α → Op σ β) (g : β → Op σ γ) :
    x >>= f >>= g = x >>= fun a => f a >>= g := by
  funext s
  simp only [bind_run]
  cases x s with
  | mk result t events =>
    cases result with
    | error e => rfl
    | ok a =>
      simp only
      cases f a t with
      | mk result u more => cases result <;> simp [List.append_assoc]

instance : LawfulMonad (Op σ) := LawfulMonad.mk' (Op σ) id_map_op (fun _ _ => rfl) bind_assoc_op

end Op

end PagedIndex
