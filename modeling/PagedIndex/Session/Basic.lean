import PagedIndex.Index.Policy
import PagedIndex.Session.Workbench

namespace PagedIndex

-- Why a step is refused, without touching anything.
inductive Refusal
  | noPool
  | noTable
  | noHandle
  | handleInUse
  | wouldBlock
  | readGuard
deriving DecidableEq, Repr

-- An index under a name, with the types of its keys and values.
structure NamedIndex where
  name : String
  key : FieldType
  value : FieldType
  index : HashIndex key.Carrier value.Carrier

-- A pool of shards of `frames` frames, and what is kept over it.
structure OpenPool where
  frames : Nat
  pool : Pool frames
  -- in the order of the names
  guards : List (String × Guard frames)
  indexes : List NamedIndex

structure Session where
  store : FaultyStore Backing
  faults : CallFaults
  seen : Std.HashSet PageId
  opened : Option OpenPool

-- A step of a session, which may be refused.
abbrev SessionM (α : Type) := ExceptT Refusal (Op Session) α

namespace Session

variable {α : Type}

def start (backing : Backing) : Session := ⟨.sound backing, .none, ∅, none⟩

-- Run an operation that cannot be refused.
def run (x : Op Session α) : SessionM α := ExceptT.lift x

def onStore (x : Op (FaultyStore Backing) α) : Op Session α :=
  x.zoom (fun ⟨store, faults, seen, opened⟩ => (store, faults, seen, opened))
    fun store (faults, seen, opened) => ⟨store, faults, seen, opened⟩

-- Run an operation on the bench of the open pool, whatever the size of its shards.
def onBench (x : (n : Nat) → Op (Workbench n) α) : SessionM α := fun s =>
  match s with
  | ⟨store, faults, seen, some ⟨frames, pool, guards, indexes⟩⟩ =>
    let inner := x frames ⟨pool, store, guards, faults, seen⟩
    let w := inner.state
    ⟨inner.result.map .ok, ⟨w.store, w.faults, w.seen, some ⟨frames, w.pool, w.guards, indexes⟩⟩,
      inner.events⟩
  | s => ⟨.ok (.error .noPool), s, []⟩

-- Run a step on the bench that may be refused.
def onBench? (x : (n : Nat) → Op (Workbench n) (Except Refusal α)) : SessionM α := do
  match ← onBench x with
  | .ok a => return a
  | .error refusal => throw refusal

-- A page with its pin count and whether it is dirty.
structure PageState where
  page : PageId
  pins : Nat
  dirty : Bool

-- The free frames of each shard, and the resident pages among those seen, ascending.
structure Trace where
  free : List Nat
  pages : List PageState

def pageState? (o : OpenPool) (id : PageId) : Option PageState :=
  ((o.pool.owner id).frameOf? id).map fun frame => ⟨id, frame.pins, frame.dirty⟩

def freeFrames (o : OpenPool) : List Nat := o.pool.shards.map fun shard => shard.free.length

def trace? (s : Session) : Option Trace :=
  s.opened.map fun o =>
    { free := freeFrames o
      pages := (s.seen.toList.mergeSort fun a b => a.number ≤ b.number).filterMap (pageState? o) }

end Session

end PagedIndex
