import PagedIndex.Index.Basic

namespace PagedIndex.HashIndex

open PagePool

variable {K V σ γ : Type} [FixedWidth K] [FixedWidth V] [PagePool σ γ]

def reportSlot (t : HashIndex K V) (d : Directory) (slot : Nat) : Op σ Unit := do
  let bucket ← d.bucket slot
  withPage bucket .shared fun guard => do
    let entries := (← t.readBucket guard).count
    Op.report (.directoryRow slot bucket (← d.localDepth slot) entries)

-- The rows are reported in order, so a directory that is larger than its page aborts only after
-- the last slot of the page.
def reportDirectory (t : HashIndex K V) : Op σ Unit := do
  let d ← t.readDirectory
  Op.report (.directoryTitle t.name d.depth)
  Op.report .directoryHeader
  let size ← d.checkedSize
  (List.range (min size (Directory.slotCount + 1))).forM (t.reportSlot d)

end PagedIndex.HashIndex
