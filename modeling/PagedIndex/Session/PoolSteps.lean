import PagedIndex.Session.Basic

namespace PagedIndex

open PagePool

-- The pool to open.
inductive PoolRequest
  | single (frames queueCapacity : Nat)
  | partition (frames queueCapacity shards index : Nat)
  | sharded (config : PoolConfig)

-- Which part of the pool a step calls: all of it, or one shard of a sharded pool.
inductive PoolTarget
  | whole
  | shard (i : Nat)

namespace Workbench

variable {n : Nat} {α : Type}

-- Insert a name into a list that is sorted by names.
def insertNamed (name : String) (a : α) : List (String × α) → List (String × α)
  | [] => [(name, a)]
  | (other, b) :: rest =>
    if name < other then (name, a) :: (other, b) :: rest
    else (other, b) :: insertNamed name a rest

def guardNamed? (w : Workbench n) (name : String) : Option (Guard n) := w.guards.lookup name

-- Call the pool, or one of its shards if there is such a shard.
def call (target : PoolTarget) (whole : Op (Mounted (Pool n) (FaultyStore Backing)) α)
    (shard : Op (Mounted (Shard n) (FaultyStore Backing)) α) : Op (Workbench n) (Option α) :=
  onMounted <|
    match target with
    | .whole => some <$> whole
    | .shard i => Pool.onShard? i shard

-- A guard was handed out: keep it under the name, or else release it. Answers with its page.
def keep (name? : Option String) (guard : Guard n) : Op (Workbench n) (PageId × Page) := do
  Op.update (see guard.page)
  let page ← readPage guard
  match name? with
  | some name => Op.update fun w => { w with guards := insertNamed name guard w.guards }
  | none => release guard
  return (guard.page, page)

def keepAnswer (name? : Option String) (answer : Option (Guard n)) :
    Op (Workbench n) (Option (PageId × Page)) :=
  match answer with
  | some guard => some <$> keep name? guard
  | none => return none

def isTaken (w : Workbench n) (name? : Option String) : Bool :=
  name?.any fun name => (w.guardNamed? name).isSome

-- Fetch a page, unless the name is taken or a held guard is in the way.
def fetchNamed (id : PageId) (access : Access) (name? : Option String) (target : PoolTarget) :
    Op (Workbench n) (Except Refusal (Option (PageId × Page))) := do
  if ← Op.observe fun w => w.isTaken name? then return .error .handleInUse
  if ← Op.observe fun w => w.isBlocked id access then return .error .wouldBlock
  let guard? ← call target (Pool.fetch id access) (Shard.fetch id access)
  return .ok (← keepAnswer name? guard?)

def allocateNamed (name? : Option String) (target : PoolTarget) :
    Op (Workbench n) (Except Refusal (Option (PageId × Page))) := do
  if ← Op.observe fun w => w.isTaken name? then return .error .handleInUse
  let guard? ← call target Pool.allocate Shard.allocate
  return .ok (← keepAnswer name? guard?)

-- The bytes of a range and the whole page behind a held guard.
def readGuard (name : String) (start length : Nat) :
    Op (Workbench n) (Except Refusal (List UInt8 × Page)) := do
  match ← Op.observe fun w => w.guardNamed? name with
  | none => return .error .noHandle
  | some guard =>
    Checked.require (start + length ≤ pageSize) .outOfRange
    let page ← readPage guard
    return .ok ((page.slice start length).toList, page)

-- Write through a held guard. No bytes are a write as well.
def writeGuard (name : String) (start : Nat) (bytes : List UInt8) :
    Op (Workbench n) (Except Refusal Unit) := do
  match ← Op.observe fun w => w.guardNamed? name with
  | none => return .error .noHandle
  | some guard =>
    if guard.access = .shared then return .error .readGuard
    Checked.require (start + bytes.length ≤ pageSize) .outOfRange
    let page ← readPage guard
    .ok <$> writePage guard (page.splice start ⟨bytes.toArray, rfl⟩)

def dropGuard (name : String) : Op (Workbench n) (Except Refusal Unit) := do
  match ← Op.observe fun w => w.guardNamed? name with
  | none => return .error .noHandle
  | some guard =>
    Op.update fun w => { w with guards := w.guards.filter fun held => held.1 != name }
    .ok <$> release guard

def dropGuards : Op (Workbench n) Unit := do
  let guards ← Op.observe guards
  Op.update fun w => { w with guards := [] }
  guards.forM fun held => release held.2

end Workbench

namespace Session

-- Release all guards and let go of the pool and its indexes.
def closePool : Op Session Unit := do
  discard (onBench fun _ => Workbench.dropGuards).run
  Op.update fun s => { s with opened := none }

def setPool (frames : Nat) (pool : Pool frames) : Op Session Unit :=
  Op.update fun s => { s with opened := some ⟨frames, pool, [], []⟩ }

-- Open a pool over the store, in place of the one that is open.
def openPool (request : PoolRequest) : Op Session Unit := do
  closePool
  match request with
  | .single frames queueCapacity =>
    setPool frames (.single (← onStore (Shard.create frames queueCapacity 0 1)))
  | .partition frames queueCapacity shards index =>
    setPool frames (.single (← onStore (Shard.create frames queueCapacity index shards)))
  | .sharded config =>
    let pool ← onStore (ShardedPool.create config.frames config.shards)
    setPool config.frames (.sharded config.shards pool)

def theOpenPool : SessionM OpenPool := do
  match ← run (Op.observe opened) with
  | some o => return o
  | none => throw .noPool

-- The frames of the pool, and index, count and frames of each of its shards.
def poolShape : SessionM (Nat × List (Nat × Nat × Nat)) := do
  let o ← theOpenPool
  return (o.pool.frameCount, o.pool.shards.map fun shard => (shard.index, shard.count, o.frames))

-- A page as a shard sees it: the shard's index, whether the page is resident, pins, and dirt.
structure PageInfo where
  shard : Nat
  resident : Bool
  pins? : Option Nat
  dirty? : Option Bool

def shardFor? (o : OpenPool) (id : PageId) : PoolTarget → Option (Shard o.frames)
  | .whole => some (o.pool.owner id)
  | .shard i =>
    match o.pool with
    | .single _ => none
    | .sharded _ pool => pool.shards[i]?

def pageInfo (id : PageId) (target : PoolTarget) : SessionM (Option PageInfo) := do
  let o ← theOpenPool
  return (shardFor? o id target).map fun shard =>
    ⟨shard.index, shard.isResident id, shard.pins? id, shard.isDirty? id⟩

def freeCounts : SessionM (List Nat) := return freeFrames (← theOpenPool)

def poolSize (target : PoolTarget) : SessionM (Option Nat) := do
  let o ← theOpenPool
  match target with
  | .whole => return some o.pool.frameCount
  | .shard _ => return (shardFor? o PageId.invalid target).map fun _ => o.frames

def fetch (id : PageId) (access : Access) (name? : Option String) (target : PoolTarget) :
    SessionM (Option (PageId × Page)) :=
  onBench? fun _ => Workbench.fetchNamed id access name? target

def allocate (name? : Option String) (target : PoolTarget) : SessionM (Option (PageId × Page)) :=
  onBench? fun _ => Workbench.allocateNamed name? target

def flush (id : PageId) (target : PoolTarget) : SessionM (Option Bool) :=
  onBench fun _ => Workbench.call target (Pool.flush id) (Shard.flush id)

def flushAll (target : PoolTarget) : SessionM (Option Unit) :=
  onBench fun _ => Workbench.call target (Pool.flushAll .byFrame) (Shard.flushAll .byFrame)

def delete (id : PageId) (target : PoolTarget) : SessionM (Option Bool) :=
  onBench fun _ => Workbench.call target (Pool.delete id) (Shard.delete id)

-- Steps on a guard. Without a pool there is no guard either.
def onGuard {α : Type} (x : (n : Nat) → Op (Workbench n) (Except Refusal α)) : SessionM α := do
  if ← run (Op.observe fun s => s.opened.isNone) then throw .noHandle
  onBench? x

def readGuard (name : String) (start length : Nat) : SessionM (List UInt8 × Page) :=
  onGuard fun _ => Workbench.readGuard name start length

def writeGuard (name : String) (start : Nat) (bytes : List UInt8) : SessionM Unit :=
  onGuard fun _ => Workbench.writeGuard name start bytes

def dropGuard (name : String) : SessionM Unit := onGuard fun _ => Workbench.dropGuard name

end Session

end PagedIndex
