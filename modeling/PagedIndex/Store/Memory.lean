import PagedIndex.Store.Basic
import Std.Data.HashMap

namespace PagedIndex

-- The count is one more than the largest id ever written.
structure MemoryStore where
  pages : Std.HashMap PageId Page
  count : UInt32
  reads : Nat
  writes : Nat

namespace MemoryStore

def empty : MemoryStore := ⟨∅, 0, 0, 0⟩

instance : Inhabited MemoryStore := ⟨empty⟩

-- Whether the page was ever written.
def contains (s : MemoryStore) (id : PageId) : Bool := s.pages.contains id

def page (s : MemoryStore) (id : PageId) : Page := s.pages.getD id Page.zero

def read (id : PageId) : Op MemoryStore Page := fun s =>
  ⟨.ok (s.page id), { s with reads := s.reads + 1 }, []⟩

-- The page is stored before the page count is raised, so a write of the invalid id, after which
-- there is no count to raise it to, aborts with the page stored.
def write (id : PageId) (page : Page) : Op MemoryStore Unit := fun s =>
  let stored := { s with pages := s.pages.insert id page, writes := s.writes + 1 }
  if id.isValid then ⟨.ok (), { stored with count := max s.count (id.number + 1) }, []⟩
  else ⟨.error (.abort .overflow), stored, []⟩

instance : PageStore MemoryStore where
  readPage := read
  writePage := write
  pageCount := Op.observe count

end MemoryStore

end PagedIndex
