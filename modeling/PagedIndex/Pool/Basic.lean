import PagedIndex.Pool.Sharded

namespace PagedIndex

-- One shard by itself, or all the shards of a sharded pool.
inductive Pool (n : Nat)
  | single (shard : Shard n)
  | sharded (k : Nat) (pool : ShardedPool n k)

namespace Pool

variable {n : Nat} {D α : Type}

def shards : Pool n → List (Shard n)
  | single shard => [shard]
  | sharded _ pool => pool.shards.toList

-- The shard that answers for a page id.
def owner (id : PageId) : Pool n → Shard n
  | single shard => shard
  | sharded _ pool => pool.owner id

def frameCount : Pool n → Nat
  | single _ => n
  | sharded _ pool => pool.frameCount

-- Run one of two operations, as the shape of the pool asks.
def byShape (single : Op (Mounted (Shard n) D) α)
    (sharded : (k : Nat) → Op (Mounted (ShardedPool n k) D) α) : Op (Mounted (Pool n) D) α :=
  fun m =>
    match m with
    | ⟨.single shard, store⟩ =>
      let inner := single ⟨shard, store⟩
      ⟨inner.result, ⟨.single inner.state.pool, inner.state.store⟩, inner.events⟩
    | ⟨.sharded k pool, store⟩ =>
      let inner := sharded k ⟨pool, store⟩
      ⟨inner.result, ⟨.sharded k inner.state.pool, inner.state.store⟩, inner.events⟩

-- Run an operation on one shard of a sharded pool. Without such a shard there is no answer.
def onShard? (i : Nat) (x : Op (Mounted (Shard n) D) α) : Op (Mounted (Pool n) D) (Option α) :=
  byShape (return none) fun k =>
    if h : i < k then some <$> ShardedPool.onShard ⟨i, h⟩ x else return none

def read (g : Guard n) : Pool n → Page
  | single shard => shard.read g
  | sharded _ pool => pool.read g

def write (g : Guard n) (page : Page) : Pool n → Pool n
  | single shard => single (shard.write g page)
  | sharded k pool => sharded k (pool.write g page)

variable [PageStore D]

def fetch (id : PageId) (access : Access) : Op (Mounted (Pool n) D) (Guard n) :=
  byShape (Shard.fetch id access) fun _ => ShardedPool.fetch id access

def allocate : Op (Mounted (Pool n) D) (Guard n) :=
  byShape Shard.allocate fun _ => ShardedPool.allocate

def flush (id : PageId) : Op (Mounted (Pool n) D) Bool :=
  byShape (Shard.flush id) fun _ => ShardedPool.flush id

def flushAll (walk : Walk) : Op (Mounted (Pool n) D) Unit :=
  byShape (Shard.flushAll walk) fun _ => ShardedPool.flushAll walk

def delete (id : PageId) : Op (Mounted (Pool n) D) Bool :=
  byShape (Shard.delete id) fun _ => ShardedPool.delete id

def release (g : Guard n) : Op (Mounted (Pool n) D) Unit :=
  byShape (Shard.release g) fun _ => ShardedPool.release g

instance : PagePool (Mounted (Pool n) D) (Guard n) where
  pageOf := Guard.page
  fetch := fetch
  allocate := allocate
  delete := delete
  read g m := m.pool.read g
  write g page m := { m with pool := m.pool.write g page }
  release := release

end Pool

end PagedIndex
