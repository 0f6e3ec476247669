import PagedIndex.Op
import PagedIndex.Page.Basic

namespace PagedIndex

inductive Access
  | shared
  | exclusive
deriving DecidableEq, Repr

-- What an index needs of a pool. A guard keeps its page in the pool until it is released.
-- `σ` is the state behind the pool and `γ` the type of its guards.
class PagePool (σ : Type) (γ : outParam Type) where
  pageOf : γ → PageId
  fetch : PageId → Access → Op σ γ
  -- a new page of zeroes under an exclusive guard
  allocate : Op σ γ
  -- take a page out of the pool; `false` if a guard holds it
  delete : PageId → Op σ Bool
  read : γ → σ → Page
  write : γ → Page → σ → σ
  release : γ → Op σ Unit

namespace PagePool

variable {σ γ α : Type} [PagePool σ γ]

-- Run `body` under a guard, which is released however `body` ends.
def withPage (id : PageId) (access : Access) (body : γ → Op σ α) : Op σ α := do
  let guard ← fetch id access
  (body guard).ensuring (release guard)

def withNewPage (body : γ → Op σ α) : Op σ α := do
  let guard ← allocate
  (body guard).ensuring (release guard)

def readPage (guard : γ) : Op σ Page := Op.observe (read guard)

def writePage (guard : γ) (page : Page) : Op σ Unit := Op.update (write guard page)

end PagePool

end PagedIndex
