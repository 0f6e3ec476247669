import PagedIndex.Error

namespace PagedIndex

structure Slot where
  bucket : PageId
  depth : UInt8
deriving DecidableEq, Repr

namespace Slot

def empty : Slot := ⟨PageId.invalid, 0⟩

instance : Inhabited Slot := ⟨empty⟩

end Slot

-- The low `globalDepth` bits of a hash number a slot, and the slot names the bucket page. A bucket
-- of local depth `d` is shared by all live slots with the same low `d` bits. Only the first `2 ^
-- globalDepth` of the 512 slots are live. A directory that was read from a page may hold anything,
-- so the operations on slots are checked.
structure Directory where
  globalDepth : UInt32
  slots : Vector Slot 512
deriving DecidableEq

namespace Directory

abbrev maxDepth : Nat := 9

abbrev slotCount : Nat := 512

-- A directory with one live slot.
def single (bucket : PageId) : Directory :=
  ⟨0, (Vector.replicate slotCount Slot.empty).set 0 ⟨bucket, 0⟩⟩

def depth (d : Directory) : Nat := d.globalDepth.toNat

-- The number of live slots, two to the power of the depth.
def size (d : Directory) : Nat := 1 <<< d.depth

def slot (d : Directory) (i : Nat) : Slot := d.slots[i]?.getD Slot.empty

def bucketAt (d : Directory) (i : Nat) : PageId := (d.slot i).bucket

def depthAt (d : Directory) (i : Nat) : Nat := (d.slot i).depth.toNat

-- The number formed by the low `n` bits of `i`.
def lowBits (n i : Nat) : Nat := i % (1 <<< n)

-- The slot that a hash selects.
def route (d : Directory) (hash : UInt32) : Nat := lowBits d.depth hash.toNat

-- The live slots, in order.
def liveSlots (d : Directory) : List Nat := List.range d.size

-- Two slots are buddies at depth `n + 1` if they differ in bit `n` only.
def flipBit (i n : Nat) : Nat := i ^^^ (1 <<< n)

def mask (d : Directory) : Checked Nat := do
  Checked.require (d.depth < 32) .overflow
  return d.size - 1

def checkedSize (d : Directory) : Checked Nat := do
  Checked.require (d.depth < 64) .overflow
  return d.size

def slotOf (d : Directory) (hash : UInt32) : Checked Nat := do
  Checked.require (d.depth < 32) .overflow
  return d.route hash

def bucket (d : Directory) (i : Nat) : Checked PageId := do
  Checked.require (i < slotCount) .outOfRange
  return d.bucketAt i

def localDepth (d : Directory) (i : Nat) : Checked Nat := do
  Checked.require (i < slotCount) .outOfRange
  return d.depthAt i

def localMask (d : Directory) (i : Nat) : Checked Nat := do
  let depth ← d.localDepth i
  Checked.require (depth < 32) .overflow
  return (1 <<< depth) - 1

-- The slot whose bucket this slot's bucket would merge with.
def buddy (d : Directory) (i : Nat) : Checked (Option Nat) := do
  match ← d.localDepth i with
  | 0 => return none
  | n + 1 =>
    Checked.require (n < 64) .overflow
    return some (flipBit i n)

-- Every live slot lies in the page.
def checkExtent (d : Directory) : Checked Unit := Checked.require (d.depth ≤ maxDepth) .outOfRange

def setBucket (d : Directory) (i : Nat) (bucket : PageId) : Checked Directory := do
  Checked.require (i < slotCount) .outOfRange
  return { d with slots := d.slots.setIfInBounds i { d.slot i with bucket } }

-- Depths are kept in a byte; higher bits are dropped.
def setDepth (d : Directory) (i depth : Nat) : Checked Directory := do
  Checked.require (i < slotCount) .outOfRange
  return { d with slots := d.slots.setIfInBounds i { d.slot i with depth := UInt8.ofNat depth } }

-- The distinct pages named by the live slots, ascending.
def bucketIds (d : Directory) : List PageId :=
  (d.liveSlots.map d.bucketAt).eraseDups.mergeSort fun a b => a.number ≤ b.number

def checkedBucketIds (d : Directory) : Checked (List PageId) := do
  d.checkExtent
  return d.bucketIds

end Directory

end PagedIndex
