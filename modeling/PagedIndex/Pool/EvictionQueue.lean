import PagedIndex.Error
import Std.Data.HashMap
import Std.Data.TreeMap

namespace PagedIndex

-- The frames that may be evicted, in the order in which they became evictable. A frame that enters
-- draws the next ticket. The frames are kept by ticket and the tickets by frame, so that a frame
-- can leave from the middle.
structure EvictionQueue (α : Type) [BEq α] [Hashable α] where
  frames : Std.TreeMap Nat α
  tickets : Std.HashMap α Nat
  nextTicket : Nat
  capacity : Nat

namespace EvictionQueue

variable {α : Type} [BEq α] [Hashable α]

def empty (capacity : Nat) : EvictionQueue α := ⟨∅, ∅, 0, capacity⟩

-- A table of tickets takes 17 bytes for each of its places, which are a power of two in number and
-- at most seven eighths full. This fills the largest table of fewer than `1 <<< 63` bytes.
def maxCapacity : Nat := 7 * 1 <<< 55

def create (capacity : Nat) : Checked (EvictionQueue α) := do
  Checked.require (capacity ≤ maxCapacity) .memory
  return empty capacity

-- The waiting frames, the one that has waited longest first.
def toList (q : EvictionQueue α) : List α := q.frames.toList.map Prod.snd

def size (q : EvictionQueue α) : Nat := q.frames.size

def contains (q : EvictionQueue α) (frame : α) : Bool := q.tickets.contains frame

-- A frame that is not queued finds no room.
def refuses (q : EvictionQueue α) (frame : α) : Bool :=
  !q.contains frame && q.capacity ≤ q.size

-- Append a frame, unless it is queued already or the queue is full.
def push (q : EvictionQueue α) (frame : α) : EvictionQueue α :=
  if q.contains frame || q.capacity ≤ q.size then q
  else
    { q with
      frames := q.frames.insert q.nextTicket frame
      tickets := q.tickets.insert frame q.nextTicket
      nextTicket := q.nextTicket + 1 }

-- Take a frame out, wherever it stands.
def remove (q : EvictionQueue α) (frame : α) : EvictionQueue α :=
  match q.tickets[frame]? with
  | none => q
  | some ticket =>
    { q with frames := q.frames.erase ticket, tickets := q.tickets.erase frame }

-- Take out the frame that has waited longest.
def pop? (q : EvictionQueue α) : Option (α × EvictionQueue α) := do
  let ticket ← q.frames.minKey?
  let frame ← q.frames[ticket]?
  return (frame,
    { q with frames := q.frames.erase ticket, tickets := q.tickets.erase frame })

end EvictionQueue

end PagedIndex
