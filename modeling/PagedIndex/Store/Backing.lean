import PagedIndex.Store.File
import PagedIndex.Store.Memory
import PagedIndex.Store.Null

namespace PagedIndex

-- A store of a kind that is chosen when the program runs.
inductive Backing
  | memory (store : MemoryStore)
  | file (store : FileStore)
  | null (store : NullStore)

namespace Backing

variable {α : Type}

def byKind (memory : Op MemoryStore α) (file : Op FileStore α) (null : Op NullStore α) :
    Op Backing α := fun s =>
  match s with
  | .memory store =>
    let inner := memory store
    ⟨inner.result, .memory inner.state, inner.events⟩
  | .file store =>
    let inner := file store
    ⟨inner.result, .file inner.state, inner.events⟩
  | .null store =>
    let inner := null store
    ⟨inner.result, .null inner.state, inner.events⟩

instance : PageStore Backing where
  readPage id :=
    byKind (PageStore.readPage id) (PageStore.readPage id) (PageStore.readPage id)
  writePage id page :=
    byKind (PageStore.writePage id page) (PageStore.writePage id page) (PageStore.writePage id page)
  pageCount := byKind PageStore.pageCount PageStore.pageCount PageStore.pageCount

end Backing

end PagedIndex
