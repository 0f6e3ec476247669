import PagedIndex.Pool.Shard

namespace PagedIndex

-- Shards of `n` frames over one store. Allocation tries them in turn, from `next` on, which is
-- behind the last one that allocated.
structure ShardedPool (n k : Nat) where
  shards : Vector (Shard n) k
  next : Nat
  pos : 0 < k

-- The size of a sharded pool: frames in a shard, and shards.
structure PoolConfig where
  frames : Nat
  shards : Nat
deriving DecidableEq, Repr

namespace PoolConfig

def standard : PoolConfig := ⟨64, 1⟩

end PoolConfig

namespace ShardedPool

variable {n k : Nat} {D α : Type}

-- Create the last `left` of `k` shards in order, after the lower ones. The first that cannot be
-- created is the last that is tried.
def createFrom [PageStore D] (n k : Nat) : (left : Nat) → {m : Nat} → Vector (Shard n) m →
    m + left = k → Op D (Vector (Shard n) k)
  | 0, _, lower, h => return lower.cast h
  | left + 1, m, lower, h => do
    let shard ← Shard.create n n m k
    createFrom n k left (lower.push shard) (by omega)

def create [PageStore D] (n k : Nat) : Op D (ShardedPool n k) := do
  if pos : 0 < k then
    let shards ← createFrom n k k #v[] (Nat.zero_add k)
    Op.report (.poolCreated k n)
    return { shards, next := 0, pos }
  else Op.fail (.invalidState .noShards)

-- The shard responsible for a page id.
def shardOf (p : ShardedPool n k) (id : PageId) : Fin k :=
  ⟨id.number.toNat % k, Nat.mod_lt _ p.pos⟩

def owner (p : ShardedPool n k) (id : PageId) : Shard n := p.shards.get (p.shardOf id)

def frameCount (_ : ShardedPool n k) : Nat := k * n

-- Take a shard out. Its neighbour stands in for it until it is put back, so that the shard is held
-- in one place only and is changed there.
def takeOut (i : Fin k) : ShardedPool n k → Shard n × ShardedPool n k
  | ⟨shards, next, pos⟩ =>
    let shard := shards.get i
    let neighbour := shards.get ⟨(i + 1) % k, Nat.mod_lt _ pos⟩
    (shard, ⟨shards.set i neighbour i.isLt, next, pos⟩)

def putBack (i : Fin k) (shard : Shard n) : ShardedPool n k → ShardedPool n k
  | ⟨shards, next, pos⟩ => ⟨shards.set i shard i.isLt, next, pos⟩

-- Run an operation on one shard, which shares the store with the others.
def onShard (i : Fin k) (x : Op (Mounted (Shard n) D) α) : Op (Mounted (ShardedPool n k) D) α :=
  x.zoom
    (fun ⟨pool, store⟩ =>
      match pool.takeOut i with
      | (shard, others) => (⟨shard, store⟩, others))
    fun ⟨shard, store⟩ others => ⟨others.putBack i shard, store⟩

-- What stands in for a shard is gone when the shard is back.
theorem putBack_takeOut (i : Fin k) (p : ShardedPool n k) (shard : Shard n) :
    (p.takeOut i).2.putBack i shard = { p with shards := p.shards.set i shard i.isLt } := by
  simp [takeOut, putBack]

theorem onShard_run (i : Fin k) (x : Op (Mounted (Shard n) D) α)
    (m : Mounted (ShardedPool n k) D) :
    onShard i x m =
      let inner := x ⟨m.pool.shards.get i, m.store⟩
      ⟨inner.result, ⟨{ m.pool with shards := m.pool.shards.set i inner.state.pool i.isLt },
        inner.state.store⟩, inner.events⟩ := by
  simp only [onShard, Op.zoom, putBack_takeOut]
  rfl

-- Run an operation on the shard responsible for a page id.
def onOwner (id : PageId) (x : Op (Mounted (Shard n) D) α) :
    Op (Mounted (ShardedPool n k) D) α := do
  let i ← Mounted.observe fun p => p.shardOf id
  onShard i x

variable [PageStore D]

-- Allocate in the first of the shards that has a frame. Only a full shard is passed over.
def allocateIn : List (Fin k) → Op (Mounted (ShardedPool n k) D) (Guard n)
  | [] => do
    Op.report (.shardsFull k)
    Op.fail .poolFull
  | i :: rest => do
    match ← Op.attempt (onShard i Shard.allocate) with
    | .ok guard =>
      Mounted.update fun p => { p with next := (i + 1) % k }
      return guard
    | .error .poolFull => allocateIn rest
    | .error e => Op.fail e

-- All shards, starting with the one whose turn it is.
def turns (p : ShardedPool n k) : List (Fin k) :=
  (List.range k).map fun offset => ⟨(p.next + offset) % k, Nat.mod_lt _ p.pos⟩

def allocate : Op (Mounted (ShardedPool n k) D) (Guard n) := do
  allocateIn (← Mounted.observe turns)

def fetch (id : PageId) (access : Access) : Op (Mounted (ShardedPool n k) D) (Guard n) :=
  onOwner id (Shard.fetch id access)

def flush (id : PageId) : Op (Mounted (ShardedPool n k) D) Bool := onOwner id (Shard.flush id)

def delete (id : PageId) : Op (Mounted (ShardedPool n k) D) Bool := onOwner id (Shard.delete id)

def flushAll (walk : Walk) : Op (Mounted (ShardedPool n k) D) Unit :=
  (List.finRange k).forM fun i => onShard i (Shard.flushAll walk)

def read (g : Guard n) (p : ShardedPool n k) : Page := (p.owner g.page).read g

def write (g : Guard n) (page : Page) (p : ShardedPool n k) : ShardedPool n k :=
  let i := p.shardOf g.page
  match p.takeOut i with
  | (shard, others) => others.putBack i (shard.write g page)

def release (g : Guard n) : Op (Mounted (ShardedPool n k) D) Unit :=
  onOwner g.page (Shard.release g)

instance : PagePool (Mounted (ShardedPool n k) D) (Guard n) where
  pageOf := Guard.page
  fetch := fetch
  allocate := allocate
  delete := delete
  read g m := m.pool.read g
  write g page m := { m with pool := m.pool.write g page }
  release := release

end ShardedPool

end PagedIndex
