import PagedIndex.Directory.Basic

namespace PagedIndex.Directory

-- Every slot below `n` is repeated `n` slots further on.
def repeatLower (n : Nat) (slots : Vector Slot 512) : Vector Slot 512 :=
  slots.mapIdx fun i s => if n ≤ i ∧ i < 2 * n then slots[i - n]?.getD s else s

-- Every slot from `n` up to `2 * n` is emptied.
def vacate (n : Nat) (slots : Vector Slot 512) : Vector Slot 512 :=
  slots.mapIdx fun i s => if n ≤ i ∧ i < 2 * n then Slot.empty else s

def doubled (d : Directory) : Directory := ⟨d.globalDepth + 1, repeatLower d.size d.slots⟩

def halved (d : Directory) : Directory := ⟨d.globalDepth - 1, vacate (d.size / 2) d.slots⟩

def grow (d : Directory) : Checked Directory :=
  if maxDepth ≤ d.depth then Checked.fail (.indexFull d.depth) else return d.doubled

-- A directory of one slot stays as it is.
def shrink (d : Directory) : Checked Directory := do
  if d.depth = 0 then return d
  d.checkExtent
  return d.halved

-- No live slot uses the highest bit of the slot number. Slots are looked at in order up to the
-- first that does, so only a directory without one runs past the end of the page.
def canShrink (d : Directory) : Checked Bool := do
  if d.depth = 0 then return false
  let size ← d.checkedSize
  if (List.range (min size slotCount)).all (fun i => d.depthAt i < d.depth) then
    Checked.require (size ≤ slotCount) .outOfRange
    return true
  return false

-- Halve up to `n` times, as long as that is possible.
def shrinkUpTo : Nat → Directory → Checked Directory
  | 0, d => return d
  | n + 1, d => do
    if ← d.canShrink then shrinkUpTo n (← d.shrink) else return d

-- Halve the directory until some live slot uses every bit of the slot number.
def shrinkFully (d : Directory) : Checked Directory := shrinkUpTo d.depth d

-- Apply `f` to every live slot.
def mapLive (d : Directory) (f : Nat → Slot → Slot) : Directory :=
  let n := d.size
  { d with slots := d.slots.mapIdx fun i s => if i < n then f i s else s }

def repointed (d : Directory) (old new : PageId) (depth : Nat) : Directory :=
  d.mapLive fun _ s => if s.bucket = old ∨ s.bucket = new then ⟨new, UInt8.ofNat depth⟩ else s

-- Point every live slot of either bucket at `new`, with the given depth.
def repoint (d : Directory) (old new : PageId) (depth : Nat) : Checked Directory := do
  d.checkExtent
  return d.repointed old new depth

def divided (d : Directory) (old new : PageId) (depth : Nat) : Directory :=
  d.mapLive fun i s =>
    if s.bucket = old then ⟨if i.testBit depth then new else old, UInt8.ofNat (depth + 1)⟩ else s

-- Move the slots of `old` that have bit `depth` set over to `new`; both get one bit deeper.
def divide (d : Directory) (old new : PageId) (depth : Nat) : Checked Directory := do
  Checked.require (depth < 32) .overflow
  d.checkExtent
  return d.divided old new depth

end PagedIndex.Directory
