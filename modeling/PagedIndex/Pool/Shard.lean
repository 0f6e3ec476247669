import PagedIndex.Pool.Access
import PagedIndex.Pool.EvictionQueue
import PagedIndex.Store.Basic

namespace PagedIndex

-- Whether an exclusive guard is live on a frame, and whether it was written through.
inductive Latch
  | idle
  | held
  | written
deriving DecidableEq, Repr

structure Frame where
  page : Option PageId
  pins : Nat
  dirty : Bool
  latch : Latch
  bytes : Page

namespace Frame

def empty : Frame := ⟨none, 0, false, .idle, Page.zero⟩

instance : Inhabited Frame := ⟨empty⟩

-- A frame that holds a page under its first guard.
def loaded (id : PageId) (bytes : Page) : Frame := ⟨some id, 1, false, .idle, bytes⟩

end Frame

structure Guard (n : Nat) where
  page : PageId
  frame : Fin n
  access : Access
deriving DecidableEq

-- The frames that cache the pages of one part of the page ids. Shard `index` of `count` owns the
-- ids congruent to `index` modulo `count` that it has allocated or that the store held at the
-- start. A frame is free, pinned by guards, or waiting in the eviction queue. A dirty frame is
-- written back before its page leaves it.
structure Shard (n : Nat) where
  index : Nat
  count : Nat
  frames : Vector Frame n
  table : Std.HashMap PageId (Fin n)
  free : List (Fin n)
  queue : EvictionQueue (Fin n)
  nextId : Nat

-- An order in which the resident pages may be gone through. Their table is not kept in any order.
structure Walk where
  order : List PageId → List PageId
  perm (ids : List PageId) : (order ids).Perm ids

-- The order of the frames.
def Walk.byFrame : Walk := ⟨id, List.Perm.refl⟩

-- A pool over a store.
structure Mounted (S D : Type) where
  pool : S
  store : D

namespace Mounted

variable {S D α : Type}

def onPool (x : Op S α) : Op (Mounted S D) α :=
  x.zoom (fun ⟨pool, store⟩ => (pool, store)) fun pool store => ⟨pool, store⟩

def onStore (x : Op D α) : Op (Mounted S D) α :=
  x.zoom (fun ⟨pool, store⟩ => (store, pool)) fun store pool => ⟨pool, store⟩

def observe (f : S → α) : Op (Mounted S D) α := Op.observe fun m => f m.pool

def update (f : S → S) : Op (Mounted S D) Unit := Op.update fun ⟨pool, store⟩ => ⟨f pool, store⟩

end Mounted

namespace Shard

variable {n : Nat} {D : Type}

def pageIdLimit : Nat := 4294967296

-- Pins are counted in a word.
def pinLimit : Nat := 4294967296

-- The numbers of frames are words. A shard with more frames than numbers starts counting them over,
-- and uses only those that the last count comes to.
def frameNumberLimit : Nat := 4294967296

def Numbered (f : Fin n) : Prop := f.val < n % frameNumberLimit

instance : DecidablePred (Numbered (n := n)) := fun _ => Nat.decLt _ _

def frame (s : Shard n) (f : Fin n) : Frame := s.frames.get f

def setFrame (f : Fin n) (frame : Frame) (s : Shard n) : Shard n :=
  { s with frames := s.frames.set f frame f.isLt }

def modifyFrame (f : Fin n) (g : Frame → Frame) (s : Shard n) : Shard n :=
  s.setFrame f (g (s.frame f))

-- Enter a page into the table of resident pages.
def enter (id : PageId) (f : Fin n) (s : Shard n) : Shard n :=
  { s with table := s.table.insert id f }

def forget (id : PageId) (s : Shard n) : Shard n := { s with table := s.table.erase id }

def dequeue (f : Fin n) (s : Shard n) : Shard n := { s with queue := s.queue.remove f }

-- Free frames are taken from the front of the list.
def giveBack (f : Fin n) (s : Shard n) : Shard n := { s with free := s.free ++ [f] }

-- The least id at or past `stored` in the shard's part of the ids.
def firstId (index count stored : Nat) : Nat :=
  index + (stored - index + (count - 1)) / count * count

-- A table of pages takes 9 bytes for each of its places, which are a power of two in number and at
-- most seven eighths full. This fills the largest table of fewer than `1 <<< 63` bytes.
def maxFrames : Nat := 7 * 1 <<< 56

-- A shard with empty frames. Ids that the store holds are not given out again.
def create [PageStore D] (n queueCapacity index count : Nat) : Op D (Shard n) := do
  let queue ← EvictionQueue.create queueCapacity
  if count ≤ index then Op.fail (.invalidState (.partition index count))
  let stored ← PageStore.pageCount
  let nextId := firstId index count stored.toNat
  Checked.require (nextId < pageIdLimit) .overflow
  Checked.require (n ≤ maxFrames) .memory
  return {
    index, count, nextId, queue
    frames := Vector.replicate n Frame.empty
    table := ∅
    free := (List.finRange n).filter fun f => Numbered f }

def owns (s : Shard n) (id : PageId) : Bool :=
  id.isValid && id.number.toNat % s.count == s.index && id.number.toNat < s.nextId

def isResident (s : Shard n) (id : PageId) : Bool := s.table.contains id

def frameOf? (s : Shard n) (id : PageId) : Option Frame := s.table[id]?.map s.frame

def pins? (s : Shard n) (id : PageId) : Option Nat := (s.frameOf? id).map Frame.pins

def isDirty? (s : Shard n) (id : PageId) : Option Bool := (s.frameOf? id).map Frame.dirty

-- The resident pages.
def residents (s : Shard n) : List PageId := s.frames.toList.filterMap Frame.page

section

variable [PageStore D]

-- Queue a frame for eviction. A full queue is reported, and the frame then stays where it is.
def enqueue (f : Fin n) : Op (Mounted (Shard n) D) Unit := do
  if ← Mounted.observe fun s => s.queue.refuses f then Op.report (.evictionQueueFull f)
  Mounted.update fun s => { s with queue := s.queue.push f }

-- Write a dirty frame to the store. It stays dirty if that fails.
def writeBack (id : PageId) (f : Fin n) : Op (Mounted (Shard n) D) Unit := do
  let frame ← Mounted.observe fun s => s.frame f
  if frame.dirty then
    Mounted.onStore (PageStore.writePage id frame.bytes)
    Mounted.update (modifyFrame f fun frame => { frame with dirty := false })
    Op.report (.wroteBack id)

-- Take the page out of a frame that left the queue. If it cannot be written back the frame goes to
-- the end of the queue.
def evict (f : Fin n) : Op (Mounted (Shard n) D) Unit := do
  match ← Mounted.observe fun s => (s.frame f).page with
  | none => return ()
  | some id =>
    match ← Op.attempt (writeBack id f) with
    | .error e =>
      enqueue f
      Op.fail e
    | .ok () =>
      Op.report (.evicted id f (← Mounted.observe index))
      Mounted.update fun s =>
        (s.modifyFrame f fun frame => { frame with page := none }).forget id

-- A frame without a page: the first free one, or else the first in the eviction queue.
def acquire : Op (Mounted (Shard n) D) (Fin n) := do
  match ← Mounted.observe free with
  | f :: rest =>
    Mounted.update fun s => { s with free := rest }
    return f
  | [] =>
    match ← Mounted.observe fun s => s.queue.pop? with
    | none => Op.fail .poolFull
    | some (f, queue) =>
      Mounted.update fun s => { s with queue }
      evict f
      return f

-- Put a page into an acquired frame, under its first guard.
def install (id : PageId) (bytes : Page) (f : Fin n) : Op (Mounted (Shard n) D) Unit :=
  Mounted.update fun s => (s.setFrame f (Frame.loaded id bytes)).enter id f

-- Pin a page, loading it if it is not resident. A frame that could not be loaded is free.
def pin (id : PageId) : Op (Mounted (Shard n) D) (Fin n) := do
  match ← Mounted.observe fun s => s.table[id]? with
  | some f =>
    let pins := (← Mounted.observe fun s => (s.frame f).pins) + 1
    Checked.require (pins < pinLimit) .overflow
    Mounted.update fun s => (s.modifyFrame f fun frame => { frame with pins }).dequeue f
    return f
  | none =>
    if !(← Mounted.observe fun s => s.owns id) then Op.fail (.pageNotFound id)
    let f ← acquire
    match ← Op.attempt (Mounted.onStore (PageStore.readPage id)) with
    | .error e =>
      Mounted.update (giveBack f)
      Op.fail e
    | .ok bytes =>
      install id bytes f
      return f

def guard (id : PageId) (access : Access) (f : Fin n) : Op (Mounted (Shard n) D) (Guard n) := do
  if access = .exclusive then
    Mounted.update (modifyFrame f fun frame => { frame with latch := .held })
  return ⟨id, f, access⟩

def fetch (id : PageId) (access : Access) : Op (Mounted (Shard n) D) (Guard n) := do
  guard id access (← pin id)

-- A new page of zeroes. It is not dirty until it is written through a guard.
def allocate : Op (Mounted (Shard n) D) (Guard n) := do
  match ← Op.attempt acquire with
  | .error e =>
    Op.report (.allocationFailed (← Mounted.observe index) e)
    Op.fail e
  | .ok f =>
    let number ← Mounted.observe nextId
    let next := number + (← Mounted.observe count)
    Checked.require (next < pageIdLimit) .overflow
    Mounted.update fun s => { s with nextId := next }
    let id : PageId := ⟨UInt32.ofNat number⟩
    install id Page.zero f
    guard id .exclusive f

-- Drop one pin. The last one makes the frame evictable.
def unpin (id : PageId) (modified : Bool) : Op (Mounted (Shard n) D) Unit := do
  match ← Mounted.observe fun s => s.table[id]? with
  | none => Op.report (.unpinAbsent id)
  | some f =>
    match ← Mounted.observe fun s => (s.frame f).pins with
    | 0 => Op.report (.unpinUnpinned id)
    | pins + 1 =>
      Mounted.update (modifyFrame f fun frame =>
        { frame with pins, dirty := frame.dirty || modified })
      if pins = 0 then enqueue f

-- The frame is marked dirty if the guard was written through.
def release (g : Guard n) : Op (Mounted (Shard n) D) Unit := do
  match g.access with
  | .shared => unpin g.page false
  | .exclusive =>
    let modified ← Mounted.observe fun s => (s.frame g.frame).latch == .written
    Mounted.update (modifyFrame g.frame fun frame => { frame with latch := .idle })
    unpin g.page modified

def read (g : Guard n) (s : Shard n) : Page := (s.frame g.frame).bytes

def write (g : Guard n) (page : Page) (s : Shard n) : Shard n :=
  s.modifyFrame g.frame fun frame => { frame with bytes := page, latch := .written }

-- Write a pinned page back, unless an exclusive guard is live on it.
def writeShared (id : PageId) (f : Fin n) : Op (Mounted (Shard n) D) Bool := do
  if (← Mounted.observe fun s => (s.frame f).latch) = .idle then
    writeBack id f
    return true
  else
    Op.report (.flushSkipped id)
    return false

-- Write a resident page back. A pinned page has one more pin while it is written.
def flush (id : PageId) : Op (Mounted (Shard n) D) Bool := do
  match ← Mounted.observe fun s => s.table[id]? with
  | none => return false
  | some f =>
    let pins ← Mounted.observe fun s => (s.frame f).pins
    if pins = 0 then
      writeBack id f
      return true
    else
      Checked.require (pins + 1 < pinLimit) .overflow
      Mounted.update (modifyFrame f fun frame => { frame with pins := pins + 1 })
      (writeShared id f).ensuring (unpin id false)

-- Write all resident pages back, in some order of them.
def flushAll (walk : Walk) : Op (Mounted (Shard n) D) Unit := do
  (walk.order (← Mounted.observe residents)).forM fun id => discard (flush id)

-- Take an unpinned page out of the shard. `true` also if it was not resident.
def delete (id : PageId) : Op (Mounted (Shard n) D) Bool := do
  match ← Mounted.observe fun s => s.table[id]? with
  | none => return true
  | some f =>
    match ← Mounted.observe fun s => (s.frame f).pins with
    | 0 =>
      writeBack id f
      Mounted.update fun s => (((s.setFrame f Frame.empty).forget id).dequeue f).giveBack f
      return true
    | pins =>
      Op.report (.deleteRefused id pins)
      return false

instance : PagePool (Mounted (Shard n) D) (Guard n) where
  pageOf := Guard.page
  fetch := fetch
  allocate := allocate
  delete := delete
  read g m := m.pool.read g
  write g page m := { m with pool := m.pool.write g page }
  release := release

end

end Shard

end PagedIndex
