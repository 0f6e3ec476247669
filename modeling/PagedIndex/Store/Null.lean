import PagedIndex.Store.Basic

namespace PagedIndex

-- A device that keeps nothing and cannot be extended to hold a page.
inductive NullStore
  | device
deriving DecidableEq, Inhabited

namespace NullStore

instance : PageStore NullStore where
  readPage id := fun s => ⟨.ok Page.zero, s, [.readPastEnd id]⟩
  writePage _ _ := Op.fail (.io .invalidArgument)
  pageCount := Op.observe fun _ => 0

end NullStore

end PagedIndex
