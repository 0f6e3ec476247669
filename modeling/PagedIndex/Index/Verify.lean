import PagedIndex.Directory.Integrity
import PagedIndex.Index.Basic

namespace PagedIndex.HashIndex

open PagePool

variable {K V σ γ : Type} [FixedWidth K] [FixedWidth V] [PagePool σ γ]

-- The hash of a stored key selects the bucket that holds it.
def verifyKey (t : HashIndex K V) (d : Directory) (bucket : PageId) (key : K) : Checked Unit := do
  let slot ← d.slotOf (t.hash key)
  let owner ← d.bucket slot
  if owner ≠ bucket then Checked.fail (.corrupted (.misplaced bucket slot owner))

-- A bucket has no slot past the capacity occupied, and only keys that belong to it.
def verifyBucket (t : HashIndex K V) (d : Directory) (id : PageId) : Op σ Unit :=
  withPage id .shared fun guard => do
    let b ← t.readBucket guard
    let overflow ← b.checkedOverflow
    if 0 < overflow then Op.fail (.corrupted (.overCapacity id overflow b.capacity))
    let entries ← b.checkedEntries
    entries.forM fun pair => Op.ofChecked (t.verifyKey d id pair.1)

def verifyPages (t : HashIndex K V) (d : Directory) : Op σ Unit := do
  d.verify
  let ids ← d.checkedBucketIds
  ids.forM (t.verifyBucket d)

-- Check the directory and every bucket that it names.
def verify (t : HashIndex K V) : Op σ Unit := do
  let d ← t.readDirectory
  match ← Op.attempt (t.verifyPages d) with
  | .ok () => return ()
  | .error e =>
    Op.report (.integrityFailed t.name e)
    Op.fail e

-- Attach to the index whose directory is stored at a page, if it is sound.
def openAt (name : String) (policy : KeyPolicy K) (directory : PageId) (capacity? : Option Nat) :
    Op σ (HashIndex K V) := do
  let capacity ← chooseCapacity K V capacity?
  let t : HashIndex K V := { name, policy, directory, capacity }
  t.verify
  return t

end PagedIndex.HashIndex
