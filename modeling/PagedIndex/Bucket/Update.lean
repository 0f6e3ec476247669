import PagedIndex.Bucket.Basic

namespace PagedIndex.Bucket

variable {K V : Type} [FixedWidth K] [FixedWidth V]

def freeSlot? (b : Bucket K V) : Option Nat :=
  (List.range b.capacity).find? fun i => !b.occupied i

-- Store a pair in slot `i`.
def put (b : Bucket K V) (i : Nat) (key : K) (value : V) : Bucket K V :=
  let stored := (b.page.splice (b.keyStart i) (FixedWidth.encode key)).splice
    (b.valueStart i) (FixedWidth.encode value)
  { b with page := (stored.setBit 0 i).setBit b.bitmapSize i }

-- Append a pair. Refused if the bucket has no free slot.
def append? (b : Bucket K V) (key : K) (value : V) : Option (Bucket K V) :=
  b.freeSlot?.map fun i => b.put i key value

-- Append a pair, unless the bucket holds the same pair.
def insert? [DecidableEq V] (compare : K → K → Ordering) (key : K) (value : V)
    (b : Bucket K V) : Option (Bucket K V) :=
  if b.contains compare key value then none else b.append? key value

-- Append as many of the pairs as are not refused.
def insertAll [DecidableEq V] (compare : K → K → Ordering) (pairs : List (K × V))
    (b : Bucket K V) : Bucket K V :=
  pairs.foldl (fun b pair => (b.insert? compare pair.1 pair.2).getD b) b

def removeAt (b : Bucket K V) (i : Nat) : Bucket K V :=
  { b with page := b.page.clearBit b.bitmapSize i }

-- Remove the first slot that holds the pair, if one does.
def remove? [DecidableEq V] (compare : K → K → Ordering) (key : K) (value : V)
    (b : Bucket K V) : Option (Bucket K V) :=
  (b.find? compare key value).map b.removeAt

-- Clear both bitmaps.
def clear (b : Bucket K V) : Bucket K V :=
  { b with page := b.page.splice 0 (Vector.replicate (2 * b.bitmapSize) 0) }

-- Move the live pairs to the front, so that removed ones no longer take up slots.
def compact [DecidableEq V] (compare : K → K → Ordering) (b : Bucket K V) : Bucket K V :=
  b.clear.insertAll compare b.entries

end PagedIndex.Bucket
