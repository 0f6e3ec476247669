import PagedIndex.Page.Id
import PagedIndex.Field.Integer

namespace PagedIndex

-- The page and the slot in it at which a record is kept.
structure RecordId where
  page : PageId
  slot : UInt16
deriving DecidableEq, Repr

namespace RecordId

instance : Inhabited RecordId := ⟨⟨PageId.invalid, 0⟩⟩

-- By page, then by slot.
instance : Ord RecordId :=
  ⟨fun a b => (compare a.page b.page).then (compare a.slot b.slot)⟩

instance : FixedWidth RecordId where
  width := 6
  encode r := LittleEndian.encode 6 (r.page.number.toNat + 4294967296 * r.slot.toNat)
  decode bytes :=
    let n := LittleEndian.decode bytes
    ⟨⟨UInt32.ofNat n⟩, UInt16.ofNat (n / 4294967296)⟩

end RecordId

end PagedIndex
