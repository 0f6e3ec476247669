import PagedIndex.Op
import PagedIndex.Page.Basic

namespace PagedIndex

-- What keeps pages once the pool lets go of them. A page that was never written reads as zeroes.
class PageStore (D : Type) where
  readPage : PageId → Op D Page
  writePage : PageId → Page → Op D Unit
  -- the number of pages backed by the store
  pageCount : Op D UInt32

namespace PageStore

variable {D : Type} [PageStore D]

-- Fill a buffer of `length` bytes from a page.
def readInto (id : PageId) (length : Nat) : Op D Page :=
  if length = pageSize then readPage id else Op.fail (.bufferSize pageSize length)

-- Write a page from a buffer of `length` bytes, given by position.
def writeFrom (id : PageId) (length : Nat) (byte : Nat → UInt8) : Op D Unit :=
  if length = pageSize then writePage id ⟨Vector.ofFn fun i => byte i⟩
  else Op.fail (.bufferSize pageSize length)

end PageStore

end PagedIndex
