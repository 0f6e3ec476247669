import PagedIndex.Bucket.Update

namespace PagedIndex.Bucket

variable {K V : Type} [FixedWidth K] [FixedWidth V]

-- A slot may have any number here, so that its bits or its bytes may not be in the page.
private def inPage (i : Nat) : Checked Unit := Checked.require (i < pageSize) .outOfRange

def occupiedAt (b : Bucket K V) (i : Nat) : Checked Bool := do
  inPage (i / 8)
  return b.occupied i

def readableAt (b : Bucket K V) (i : Nat) : Checked Bool := do
  inPage (b.bitmapSize + i / 8)
  return b.readable i

def keyOf (b : Bucket K V) (i : Nat) : Checked K := do
  Checked.require (b.keyStart i + FixedWidth.width K ≤ pageSize) .outOfRange
  return b.keyAt i

def valueOf (b : Bucket K V) (i : Nat) : Checked V := do
  Checked.require (b.valueStart i + FixedWidth.width V ≤ pageSize) .outOfRange
  return b.valueAt i

-- The number of occupied slots that this capacity does not use.
def checkedOverflow (b : Bucket K V) : Checked Nat := do
  let flags ← (List.range' b.capacity (maxSlots K V - b.capacity)).mapM b.occupiedAt
  return flags.count true

-- The live pairs in slot order.
def checkedEntries (b : Bucket K V) : Checked (List (K × V)) := do
  let slots ← (List.range b.capacity).filterM b.readableAt
  slots.mapM fun i => return (← b.keyOf i, ← b.valueOf i)

def checkedHoldsKey (compare : K → K → Ordering) (key : K) (b : Bucket K V) (i : Nat) :
    Checked Bool := do
  if ← b.readableAt i then return (compare (← b.keyOf i) key).isEq else return false

-- The values stored under a key, in slot order.
def checkedGet (compare : K → K → Ordering) (key : K) (b : Bucket K V) : Checked (List V) := do
  let slots ← (List.range b.capacity).filterM (b.checkedHoldsKey compare key)
  slots.mapM b.valueOf

def checkedRemoveAt (b : Bucket K V) (i : Nat) : Checked (Bucket K V) := do
  inPage (b.bitmapSize + i / 8)
  return b.removeAt i

-- A number that has to fit a machine word.
def word (n : Nat) : Checked Nat := do
  Checked.require (n < UInt64.size) .overflow
  return n

-- The bytes of both bitmaps and of `n` slots, computed in 64 bits.
def extent (slotWidth n : Nat) : Checked Nat := do
  word ((← word (2 * BucketLayout.bitmapBytes n)) + (← word (n * slotWidth)))

-- Lower a number of slots until they fit. Going below zero aborts.
def lowerToFit (slotWidth : Nat) : Nat → Checked Nat
  | 0 => do
    if pageSize < (← extent slotWidth 0) then Checked.abort .overflow else return 0
  | n + 1 => do
    if pageSize < (← extent slotWidth (n + 1)) then lowerToFit slotWidth n else return n + 1

-- The most slots of any width that fit, with every number of the search computed in 64 bits.
def slotLimit (slotWidth : Nat) : Checked Nat := do
  lowerToFit slotWidth (4 * pageSize / (← word ((← word (4 * slotWidth)) + 1)))

end PagedIndex.Bucket
