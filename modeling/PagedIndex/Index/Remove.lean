import PagedIndex.Directory.Resize
import PagedIndex.Index.Basic

namespace PagedIndex.HashIndex

open PagePool

variable {K V σ γ : Type} [FixedWidth K] [FixedWidth V] [PagePool σ γ]

def isEmptyBucket (t : HashIndex K V) (id : PageId) : Op σ Bool :=
  withPage id .shared fun guard => return (← t.readBucket guard).isEmpty

-- Which of two buckets is dropped and which is kept, if one of them is empty.
def chooseEmptied (t : HashIndex K V) (page other : PageId) : Op σ (Option (PageId × PageId)) := do
  if ← t.isEmptyBucket page then return some (page, other)
  if ← t.isEmptyBucket other then return some (other, page)
  return none

-- Take a merged bucket out of the pool. No slot names it any more, so a failure only leaves the
-- page unused.
def freeBucket (t : HashIndex K V) (id : PageId) : Op σ Unit := do
  match ← Op.attempt (delete id) with
  | .ok true => return ()
  | .ok false => Op.report (.freeRefused t.name id)
  | .error e => Op.report (.freeFailed t.name id e)

-- Merge the bucket at `slot` with its buddy if they have one depth and one of them is empty. Gives
-- the directory afterwards and a slot of the merged bucket.
def mergeStep (t : HashIndex K V) (d : Directory) (slot : Nat) :
    Op σ (Option (Directory × Nat)) := do
  match ← d.buddy slot with
  | none => return none
  | some buddy =>
    let depth ← d.localDepth slot
    if (← d.localDepth buddy) ≠ depth then return none
    match ← t.chooseEmptied (← d.bucket slot) (← d.bucket buddy) with
    | none => return none
    | some (emptied, survivor) =>
      let merged ← (← d.repoint emptied survivor (depth - 1)).shrinkFully
      Op.report (.bucketMerged t.name emptied survivor merged.depth)
      t.freeBucket emptied
      return some (merged, Directory.lowBits (depth - 1) slot)

-- Merge at most `n` times. An error ends the merging and keeps the steps before it. Answers with
-- the directory and whether it changed.
def mergeWithin (t : HashIndex K V) : Nat → Bool → Directory → Nat → Op σ (Directory × Bool)
  | 0, changed, d, _ => return (d, changed)
  | n + 1, changed, d, slot => do
    match ← Op.attempt (t.mergeStep d slot) with
    | .ok (some (merged, next)) => t.mergeWithin n true merged next
    | .ok none => return (d, changed)
    | .error e =>
      Op.report (.mergeStopped t.name slot e)
      return (d, changed)

-- A step lowers the depth of the slot or clears a bit of its number, and at most nine bits can be
-- cleared, so 100 steps are more than there can be in any directory.
def merge (t : HashIndex K V) (d : Directory) (slot : Nat) : Op σ (Directory × Bool) :=
  t.mergeWithin 100 false d slot

variable [DecidableEq V]

-- Remove a pair from the bucket behind a guard and empty the bucket if that was its last. Answers
-- whether the bucket was emptied, if the pair was there.
def removeFrom (t : HashIndex K V) (key : K) (value : V) (guard : γ) : Op σ (Option Bool) := do
  let b ← t.readBucket guard
  match b.remove? t.policy.order key value with
  | none => return none
  | some rest =>
    let emptied := rest.count == 0
    writePage guard (if emptied then rest.clear else rest).page
    return some emptied

-- Remove a pair. Answers whether it was there.
def remove (t : HashIndex K V) (key : K) (value : V) : Op σ Bool :=
  withPage t.directory .exclusive fun directory => do
    let page ← readPage directory
    let bucket ← Directory.bucketFor page (t.hash key)
    match ← withPage bucket .exclusive (t.removeFrom key value) with
    | none => return false
    | some emptied =>
      if emptied then
        let d := Directory.ofPage page
        let (merged, changed) ← t.merge d (← d.slotOf (t.hash key))
        if changed then writeDirectory merged directory
      return true

end PagedIndex.HashIndex
