import PagedIndex.Page.Id

namespace PagedIndex

-- Calls that a failure may be injected into.
inductive FaultPoint
  | diskRead
  | diskWrite
  | diskCount
  | delete
deriving DecidableEq, Repr

namespace FaultPoint

def label : FaultPoint → String
  | diskRead => "disk_read"
  | diskWrite => "disk_write"
  | diskCount => "disk_num_pages"
  | delete => "delete"

end FaultPoint

inductive IoError
  | notFound
  | isDirectory
  | notDirectory
  | nameTooLong
  | permissionDenied
  | invalidArgument
  | unexpectedEnd
  | injected (point : FaultPoint)
  | other (text : String)
deriving DecidableEq, Repr

namespace IoError

def message : IoError → String
  | notFound => "No such file or directory (os error 2)"
  | isDirectory => "Is a directory (os error 21)"
  | notDirectory => "Not a directory (os error 20)"
  | nameTooLong => "File name too long (os error 36)"
  | permissionDenied => "Permission denied (os error 13)"
  | invalidArgument => "Invalid argument (os error 22)"
  | unexpectedEnd => "failed to fill whole buffer"
  | injected point => s!"injected {point.label} failure"
  | other text => text

end IoError

-- Requests that the state of the store or the arguments do not allow.
inductive InvalidState
  | capacity (requested max : Nat)
  | partition (index count : Nat)
  | noShards
  | latched (page : PageId)
deriving DecidableEq, Repr

namespace InvalidState

def message : InvalidState → String
  | capacity requested max => s!"bucket capacity {requested} outside 1..={max}"
  | partition index count => s!"instance index {index} out of range for {count} instances"
  | noShards => "parallel buffer pool needs at least one instance"
  | latched page => s!"page {page.label} is latched"

end InvalidState

-- Ways in which the stored index contradicts itself.
inductive Corruption
  | globalDepth (depth max : Nat)
  | emptySlot (slot : Nat)
  | slotDepth (slot depth limit : Nat)
  | depthsDiffer (bucket : PageId) (depth other : Nat)
  | lowBitsDiffer (bucket : PageId) (depth : Nat)
  | slotCount (bucket : PageId) (depth count expected : Nat)
  | overCapacity (bucket : PageId) (occupied capacity : Nat)
  | misplaced (bucket : PageId) (slot : Nat) (owner : PageId)
deriving DecidableEq, Repr

namespace Corruption

def message : Corruption → String
  | globalDepth depth max => s!"global depth {depth} exceeds maximum {max}"
  | emptySlot slot => s!"slot {slot} has no bucket page"
  | slotDepth slot depth limit =>
      s!"slot {slot} local depth {depth} exceeds global depth {limit}"
  | depthsDiffer bucket depth other =>
      s!"bucket {bucket.label} has local depths {depth} and {other}"
  | lowBitsDiffer bucket depth =>
      s!"bucket {bucket.label} referenced by slots disagreeing on low {depth} bits"
  | slotCount bucket depth count expected =>
      s!"bucket {bucket.label} with local depth {depth} has {count} slots, expected {expected}"
  | overCapacity bucket occupied capacity =>
      s!"bucket {bucket.label} has {occupied} occupied slots past capacity {capacity}"
  | misplaced bucket slot owner =>
      s!"entry in bucket {bucket.label} belongs to slot {slot} (bucket {owner.label})"

end Corruption

-- What is answered to the caller, who may go on.
inductive StoreError
  | poolFull
  | pageNotFound (page : PageId)
  | indexFull (globalDepth : Nat)
  | duplicateEntry
  | invalidState (cause : InvalidState)
  | corrupted (cause : Corruption)
  | bufferSize (expected actual : Nat)
  | io (cause : IoError)
deriving DecidableEq, Repr

namespace StoreError

def message : StoreError → String
  | poolFull => "Buffer pool is full: every frame is pinned"
  | pageNotFound page => s!"Page not found: {page.label}"
  | indexFull globalDepth =>
      s!"Hash index is full: directory cannot grow past global depth {globalDepth}"
  | duplicateEntry => "Duplicate entry: identical key/value pair already present"
  | invalidState cause => s!"Invalid state: {cause.message}"
  | corrupted cause => s!"Index corrupted: {cause.message}"
  | bufferSize expected actual => s!"Buffer size must be PAGE_SIZE ({expected}), got {actual}"
  | io cause => s!"IO error: {cause.message}"

-- Conditions that may pass once guards are released or entries removed.
def isExhaustion : StoreError → Bool
  | poolFull => true
  | indexFull _ => true
  | _ => false

end StoreError

-- Conditions under which the program does not go on.
inductive Abort
  | overflow
  -- more memory is asked for than any block of it has
  | memory
  | outOfRange
  | capacity (requested max : Nat)
deriving DecidableEq, Repr

inductive Failure
  | error (e : StoreError)
  | abort (a : Abort)
deriving DecidableEq, Repr

-- The outcome of a computation that touches no state.
abbrev Checked := Except Failure

namespace Checked

def abort (a : Abort) : Checked α := .error (.abort a)

def fail (e : StoreError) : Checked α := .error (.error e)

-- Go on only if the condition holds.
def require (p : Prop) [Decidable p] (a : Abort) : Checked Unit :=
  if p then pure () else abort a

end Checked

end PagedIndex
