import PagedIndex.Store.Basic

namespace PagedIndex

-- A number of matching calls pass, and all later ones fail.
structure Fault where
  passes : Nat
  -- only calls for this page match, if one is given
  page : Option PageId
deriving DecidableEq

namespace Fault

def matchesPage (fault : Fault) (page : Option PageId) : Bool :=
  fault.page.isNone || fault.page == page

-- Whether the next call fails, and the fault as it stands after that call.
def step (fault : Option Fault) (page : Option PageId) : Bool × Option Fault :=
  match fault with
  | none => (false, none)
  | some f =>
    if f.matchesPage page then
      match f.passes with
      | 0 => (true, some f)
      | n + 1 => (false, some { f with passes := n })
    else (false, some f)

end Fault

structure FaultyStore (D : Type) where
  store : D
  readFault : Option Fault
  writeFault : Option Fault
  countFault : Option Fault

namespace FaultyStore

variable {D : Type}

def sound (store : D) : FaultyStore D := ⟨store, none, none, none⟩

def onStore {α : Type} (x : Op D α) : Op (FaultyStore D) α :=
  x.zoom (fun ⟨store, read, write, count⟩ => (store, read, write, count))
    fun store (read, write, count) => ⟨store, read, write, count⟩

def failRead (id : PageId) : Op (FaultyStore D) Bool := fun s =>
  let (fails, readFault) := Fault.step s.readFault (some id)
  ⟨.ok fails, { s with readFault }, []⟩

def failWrite (id : PageId) : Op (FaultyStore D) Bool := fun s =>
  let (fails, writeFault) := Fault.step s.writeFault (some id)
  ⟨.ok fails, { s with writeFault }, []⟩

def failCount : Op (FaultyStore D) Bool := fun s =>
  let (fails, countFault) := Fault.step s.countFault none
  ⟨.ok fails, { s with countFault }, []⟩

instance [PageStore D] : PageStore (FaultyStore D) where
  readPage id := do
    if ← failRead id then Op.fail (.io (.injected .diskRead))
    else onStore (PageStore.readPage id)
  writePage id page := do
    if ← failWrite id then Op.fail (.io (.injected .diskWrite))
    else onStore (PageStore.writePage id page)
  pageCount := do
    if ← failCount then Op.fail (.io (.injected .diskCount))
    else onStore PageStore.pageCount

end FaultyStore

end PagedIndex
