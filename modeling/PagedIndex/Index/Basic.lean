import PagedIndex.Bucket.Access
import PagedIndex.Directory.Codec
import PagedIndex.Pool.Access

namespace PagedIndex

-- How an index compares and hashes its keys.
structure KeyPolicy (K : Type) where
  order : K → K → Ordering
  hash : K → UInt64

-- An extendible hash index over pool pages. One directory page maps the low bits of a key's hash to
-- bucket pages. A key may have several values, but no pair is stored twice.
structure HashIndex (K V : Type) where
  name : String
  policy : KeyPolicy K
  directory : PageId
  -- pairs in a bucket before it splits
  capacity : Nat

namespace HashIndex

open PagePool

variable {K V σ γ : Type} [FixedWidth K] [FixedWidth V] [PagePool σ γ]

-- The capacity asked for, if a page has room for it. Without a request, all the room there is. The
-- room is a number of any size here, for `Bucket.slotLimit` it is a machine word.
def chooseCapacity (K V : Type) [FixedWidth K] [FixedWidth V] : Option Nat → Checked Nat
  | none => return Bucket.maxSlots K V
  | some n =>
    if 0 < n ∧ n ≤ Bucket.maxSlots K V then return n
    else Checked.fail (.invalidState (.capacity n (Bucket.maxSlots K V)))

-- The directory is addressed with the low 32 bits of the hash.
def hash (t : HashIndex K V) (key : K) : UInt32 := (t.policy.hash key).toUInt32

-- The page behind a guard, as a bucket.
def readBucket (t : HashIndex K V) (guard : γ) : Op σ (Bucket K V) := do
  Bucket.view (← readPage guard) t.capacity

def readDirectory (t : HashIndex K V) : Op σ Directory :=
  withPage t.directory .shared fun guard => return Directory.ofPage (← readPage guard)

-- Write the directory over the page behind a guard.
def writeDirectory (d : Directory) (guard : γ) : Op σ Unit := do
  writePage guard (d.writeTo (← readPage guard))

-- A new index with an empty bucket. If there is no page for the bucket, the directory page is
-- given back.
def create (name : String) (policy : KeyPolicy K) (capacity? : Option Nat) :
    Op σ (HashIndex K V) := do
  let capacity ← chooseCapacity K V capacity?
  let (directory, created) ← withNewPage fun (directory : γ) => do
    let t : HashIndex K V := ⟨name, policy, pageOf σ directory, capacity⟩
    let created ← Op.attempt <| withNewPage fun (bucket : γ) => do
      writePage bucket (← t.readBucket bucket).clear.page
      writeDirectory (.single (pageOf σ bucket)) directory
      Op.report (.indexCreated name t.directory capacity)
      return t
    return (t.directory, created)
  match created with
  | .ok t => return t
  | .error e =>
    discard (delete directory)
    Op.fail e

-- All values stored under a key.
def get (t : HashIndex K V) (key : K) : Op σ (List V) := do
  let page ← withPage t.directory .shared readPage
  withPage (← Directory.bucketFor page (t.hash key)) .shared fun guard => do
    (← t.readBucket guard).checkedGet t.policy.order key

def globalDepth (t : HashIndex K V) : Op σ Nat := return (← t.readDirectory).depth

-- The number of distinct bucket pages.
def bucketCount (t : HashIndex K V) : Op σ Nat := do
  return (← (← t.readDirectory).checkedBucketIds).length

end HashIndex

end PagedIndex
