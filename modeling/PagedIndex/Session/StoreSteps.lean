import PagedIndex.Session.Basic

namespace PagedIndex.Session

variable {α : Type}

-- Run an operation on the store past all faults.
def onBacking (x : Op Backing α) : Op Session α := onStore (FaultyStore.onStore x)

-- No buffer has more bytes than a signed word counts.
def bufferLimit : Nat := 1 <<< 63

def readPage (id : PageId) (length : Nat) : Op Session Page := do
  Checked.require (length < bufferLimit) .overflow
  onBacking (PageStore.readInto id length)

-- Write a buffer that holds `bytes` from position `start` on, and `fill` elsewhere.
def writePage (id : PageId) (length : Nat) (fill : UInt8) (start : Nat) (bytes : Array UInt8) :
    Op Session Unit := do
  Checked.require (length < bufferLimit) .overflow
  Checked.require (start + bytes.size ≤ length) .outOfRange
  onBacking (PageStore.writeFrom id length fun i =>
    if start ≤ i then bytes.getD (i - start) fill else fill)

def pageCount : Op Session UInt32 := onBacking PageStore.pageCount

-- Reads and writes that a store in memory has served.
def counts? (s : Session) : Option (Nat × Nat) :=
  match s.store.store with
  | .memory store => some (store.reads, store.writes)
  | _ => none

def holdsPage? (id : PageId) (s : Session) : Option Bool :=
  match s.store.store with
  | .memory store => some (store.contains id)
  | _ => none

def fileLength? (s : Session) : Option Nat :=
  match s.store.store with
  | .file store => some store.file.length
  | _ => none

def setFileLength (length : Nat) : Op Session Unit :=
  onBacking <| Op.update fun
    | .file store => .file ⟨store.file.setLength length⟩
    | other => other

def missingFile : Op Session Unit := Op.fail (.io .notFound)

-- Open the file of the session, which keeps what it holds. A store in memory has left none.
def openFile : Op Session Unit := do
  match ← Op.observe fun s => s.store.store with
  | .file _ => return ()
  | _ => missingFile

-- Go on with an empty file.
def createFile : Op Session Unit := onBacking (Op.update fun _ => .file .empty)

-- The calls that a fault may strike.
inductive FaultTarget
  | storeRead
  | storeWrite
  | storeCount
  | fetch
  | fetchExclusive
  | allocate
  | delete
deriving DecidableEq, Repr

-- Set or clear the fault of a target. A new fault takes the place of the old one.
def setFault (fault : Option Fault) (s : Session) : FaultTarget → Session
  | .storeRead => { s with store := { s.store with readFault := fault } }
  | .storeWrite => { s with store := { s.store with writeFault := fault } }
  | .storeCount => { s with store := { s.store with countFault := fault } }
  | .fetch => { s with faults := { s.faults with fetch := fault } }
  | .fetchExclusive => { s with faults := { s.faults with fetchExclusive := fault } }
  | .allocate => { s with faults := { s.faults with allocate := fault } }
  | .delete => { s with faults := { s.faults with delete := fault } }

end PagedIndex.Session
