import PagedIndex.Directory.Resize
import PagedIndex.Index.Basic

namespace PagedIndex.HashIndex

open PagePool

variable {K V σ γ : Type} [FixedWidth K] [FixedWidth V] [DecidableEq V] [PagePool σ γ]

-- The directory with room for one more bit below `slot`.
def deepen (t : HashIndex K V) (d : Directory) (depth : Nat) : Op σ Directory := do
  if depth = d.depth then
    let grown ← d.grow
    Op.report (.directoryGrew t.name grown.depth)
    return grown
  else return d

-- Whether bit `depth` of the key's hash is set.
def goesHigh (t : HashIndex K V) (depth : Nat) (pair : K × V) : Bool :=
  (t.hash pair.1).toNat.testBit depth

-- Move the pairs of the bucket at `slot` that have the next hash bit set to a new page. Gives the
-- directory in which both pages are one bit deeper.
def split (t : HashIndex K V) (d : Directory) (slot : Nat) (guard : γ) (b : Bucket K V) :
    Op σ Directory := do
  let old ← d.bucket slot
  let depth ← d.localDepth slot
  let room ← t.deepen d depth
  withNewPage fun (fresh : γ) => do
    let new := pageOf σ fresh
    let divided ← room.divide old new depth
    let (high, low) := b.entries.partition (t.goesHigh depth)
    writePage guard (b.clear.insertAll t.policy.order low).page
    writePage fresh ((← t.readBucket fresh).clear.insertAll t.policy.order high).page
    Op.report (.bucketSplit t.name old (depth + 1) high.length b.entries.length new)
    return divided

-- Append the pair to the bucket behind a guard.
def appendTo (guard : γ) (b : Bucket K V) (key : K) (value : V) : Op σ Unit :=
  writePage guard ((b.append? key value).getD b).page

-- Store the pair, or else split its bucket. Answers whether the pair is stored.
def insertOrSplit (t : HashIndex K V) (key : K) (value : V) : Op σ Bool :=
  withPage t.directory .exclusive fun directory => do
    let page ← readPage directory
    withPage (← Directory.bucketFor page (t.hash key)) .exclusive fun guard => do
      let b ← t.readBucket guard
      if b.contains t.policy.order key value then Op.fail .duplicateEntry
      else if b.isFull then
        if t.capacity ≤ b.count then
          let d := Directory.ofPage page
          writeDirectory (← t.split d (← d.slotOf (t.hash key)) guard b) directory
          return false
        else
          appendTo guard (b.compact t.policy.order) key value
          return true
      else
        appendTo guard b key value
        return true

-- Insert with at most `n - 1` splits.
def insertWithin (t : HashIndex K V) (key : K) (value : V) : Nat → Op σ Unit
  | 0 => Op.abort .overflow
  | n + 1 => do
    if ← t.insertOrSplit key value then return () else t.insertWithin key value n

-- Insert a pair. A pair that is stored already is an error. Every split uses up one of the 32 bits
-- of the hash.
def tryInsert (t : HashIndex K V) (key : K) (value : V) : Op σ Unit :=
  t.insertWithin key value 33

-- Insert a pair. Answers whether it was new.
def insert (t : HashIndex K V) (key : K) (value : V) : Op σ Bool := do
  match ← Op.attempt (t.tryInsert key value) with
  | .ok () => return true
  | .error .duplicateEntry => return false
  | .error e => Op.fail e

end PagedIndex.HashIndex
