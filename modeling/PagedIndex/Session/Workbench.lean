import PagedIndex.Index.Basic
import PagedIndex.Pool.Basic
import PagedIndex.Store.Backing
import PagedIndex.Store.Fault
import Std.Data.HashSet

namespace PagedIndex

-- Faults of the calls that indexes make.
structure CallFaults where
  fetch : Option Fault
  fetchExclusive : Option Fault
  allocate : Option Fault
  delete : Option Fault

namespace CallFaults

def none : CallFaults := ⟨.none, .none, .none, .none⟩

end CallFaults

-- A pool over a store, with the guards that are held under names. Indexes work on the bench as on a
-- pool. A fault strikes before a call reaches the pool, and a page that would have to wait for a
-- held guard is refused.
structure Workbench (n : Nat) where
  pool : Pool n
  store : FaultyStore Backing
  guards : List (String × Guard n)
  faults : CallFaults
  -- every page that was handed out by name or allocated by an index
  seen : Std.HashSet PageId

namespace Workbench

variable {n : Nat} {α : Type}

def onMounted (x : Op (Mounted (Pool n) (FaultyStore Backing)) α) : Op (Workbench n) α :=
  x.zoom (fun ⟨pool, store, guards, faults, seen⟩ => (⟨pool, store⟩, guards, faults, seen))
    fun ⟨pool, store⟩ (guards, faults, seen) => ⟨pool, store, guards, faults, seen⟩

-- A held guard that such an access to the page would have to wait for.
def blocks (id : PageId) (access : Access) (g : Guard n) : Bool :=
  g.page == id && (g.access == .exclusive || access == .exclusive)

def isBlocked (w : Workbench n) (id : PageId) (access : Access) : Bool :=
  w.guards.any fun held => blocks id access held.2

def see (id : PageId) (w : Workbench n) : Workbench n := { w with seen := w.seen.insert id }

def failFetch (id : PageId) : Access → Op (Workbench n) Bool
  | .shared => fun w =>
    let (fails, fetch) := Fault.step w.faults.fetch (some id)
    ⟨.ok fails, { w with faults := { w.faults with fetch } }, []⟩
  | .exclusive => fun w =>
    let (fails, fetchExclusive) := Fault.step w.faults.fetchExclusive (some id)
    ⟨.ok fails, { w with faults := { w.faults with fetchExclusive } }, []⟩

def failAllocate : Op (Workbench n) Bool := fun w =>
  let (fails, allocate) := Fault.step w.faults.allocate none
  ⟨.ok fails, { w with faults := { w.faults with allocate } }, []⟩

def failDelete (id : PageId) : Op (Workbench n) Bool := fun w =>
  let (fails, delete) := Fault.step w.faults.delete (some id)
  ⟨.ok fails, { w with faults := { w.faults with delete } }, []⟩

def fetch (id : PageId) (access : Access) : Op (Workbench n) (Guard n) := do
  if ← failFetch id access then Op.fail .poolFull
  else if ← Op.observe fun w => w.isBlocked id access then Op.fail (.invalidState (.latched id))
  else onMounted (Pool.fetch id access)

def allocate : Op (Workbench n) (Guard n) := do
  if ← failAllocate then Op.fail .poolFull
  else
    let guard ← onMounted Pool.allocate
    Op.update (see guard.page)
    return guard

def delete (id : PageId) : Op (Workbench n) Bool := do
  if ← failDelete id then Op.fail (.io (.injected .delete))
  else onMounted (Pool.delete id)

instance : PagePool (Workbench n) (Guard n) where
  pageOf := Guard.page
  fetch := fetch
  allocate := allocate
  delete := delete
  read g w := w.pool.read g
  write g page w := { w with pool := w.pool.write g page }
  release g := onMounted (Pool.release g)

-- Run an operation that no call fault strikes.
def withoutFaults (x : Op (Workbench n) α) : Op (Workbench n) α := fun w =>
  let inner := x { w with faults := .none }
  { inner with state := { inner.state with faults := w.faults } }

end Workbench

end PagedIndex
