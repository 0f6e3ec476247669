namespace PagedIndex

structure PageId where
  number : UInt32
deriving DecidableEq, Hashable, Repr

namespace PageId

-- Written in page layouts where no page is meant.
def invalid : PageId := ⟨4294967295⟩

instance : Inhabited PageId := ⟨invalid⟩

instance : Ord PageId := ⟨fun a b => compare a.number b.number⟩

def isValid (id : PageId) : Bool := id != invalid

def label (id : PageId) : String :=
  if id.isValid then id.number.toNat.repr else "INVALID"

end PageId

end PagedIndex
