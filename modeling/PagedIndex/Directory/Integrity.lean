import PagedIndex.Directory.Basic

namespace PagedIndex.Directory

-- The live slots have to be partitioned among the buckets by their low bits. One pass gathers them
-- into groups, one for each bucket, and then every group is counted.
-- What the slots of one bucket have in common, and how many of them were met.
structure Group where
  bucket : PageId
  depth : Nat
  low : Nat
  slots : Nat
deriving DecidableEq, Repr

def contradiction (cause : Corruption) : Checked α := Checked.fail (.corrupted cause)

-- One more slot of the bucket. All of them have the depth and the low bits of the first one.
def Group.join (g : Group) (depth low : Nat) : Checked Group :=
  if g.depth ≠ depth then contradiction (.depthsDiffer g.bucket g.depth depth)
  else if g.low ≠ low then contradiction (.lowBitsDiffer g.bucket depth)
  else return { g with slots := g.slots + 1 }

-- A slot joins the group of its bucket, or it founds that group.
def enroll (bucket : PageId) (depth low : Nat) : List Group → Checked (List Group)
  | [] => return [⟨bucket, depth, low, 1⟩]
  | g :: groups => do
    if g.bucket = bucket then return (← g.join depth low) :: groups
    else return g :: (← enroll bucket depth low groups)

-- A slot has a bucket and is no deeper than the directory.
def surveySlot (d : Directory) (groups : List Group) (i : Nat) : Checked (List Group) := do
  let bucket ← d.bucket i
  let depth ← d.localDepth i
  if bucket.isValid = false then contradiction (.emptySlot i)
  else if d.depth < depth then contradiction (.slotDepth i depth d.depth)
  else
    let mask ← d.localMask i
    enroll bucket depth (i &&& mask) groups

-- The groups of the live slots, in the order of their first slots.
def survey (d : Directory) : Checked (List Group) := do
  if maxDepth < d.depth then contradiction (.globalDepth d.depth maxDepth)
  else
    let size ← d.checkedSize
    (List.range size).foldlM d.surveySlot []

-- A bucket of depth `n` has every slot with its low `n` bits.
def checkCount (d : Directory) (g : Group) : Checked Unit := do
  Checked.require (g.depth ≤ d.depth) .overflow
  let free := d.depth - g.depth
  Checked.require (free < 64) .overflow
  let expected := 1 <<< free
  if g.slots ≠ expected then contradiction (.slotCount g.bucket g.depth g.slots expected)

-- The check, with the groups counted in the given order of them.
def verifyIn (order : List Group → List Group) (d : Directory) : Checked Unit := do
  (order (← d.survey)).forM d.checkCount

def verify (d : Directory) : Checked Unit := d.verifyIn id

end PagedIndex.Directory
