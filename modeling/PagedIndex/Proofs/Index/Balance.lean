import PagedIndex.Proofs.Index.Guarding
import PagedIndex.Proofs.Index.Supply
import PagedIndex.Proofs.Pool.Journaled
import PagedIndex.Proofs.Pool.Numbering

namespace PagedIndex

-- What is done with indexes on a pool.
inductive IndexTask (K V : Type)
  | create (name : String) (policy : KeyPolicy K) (capacity? : Option Nat)
  | ask (t : HashIndex K V) (query : IndexQuery K V)
  | report (t : HashIndex K V)

namespace IndexTask

open HashIndex PagePool

variable {K V σ γ : Type}

-- The guards that a task takes at a time.
def frames : IndexTask K V → Nat
  | create _ _ _ => 2
  | ask _ (.call (.insert _ _)) | ask _ (.call (.tryInsert _ _)) => 3
  | ask _ (.call (.remove _ _)) => 2
  | ask _ _ | report _ => 1

variable [FixedWidth K] [FixedWidth V] [DecidableEq V] [PagePool σ γ]

def run : IndexTask K V → Op σ Unit
  | create name policy capacity? =>
    discard (HashIndex.create name policy capacity? : Op σ (HashIndex K V))
  | ask t query => discard (query.run t)
  | report t => t.reportDirectory

theorem run_takes [GuardedPool σ γ] (task : IndexTask K V) :
    Takes task.frames (task.run : Op σ Unit) := by
  cases task with
  | create name policy capacity? => exact (create_takes name policy capacity?).discard
  | report t => exact t.report_takes
  | ask t query =>
    cases query with
    | call call =>
      cases call with
      | get key => exact ((t.get_takes key).map _ |>.map _).discard
      | insert key value => exact ((t.insert_takes key value).map _ |>.map _).discard
      | tryInsert key value => exact ((t.insertWithin_takes key value 33).map _ |>.map _).discard
      | remove key value => exact ((t.remove_takes key value).map _ |>.map _).discard
      | verify => exact (t.verify_takes.map _ |>.map _).discard
      | reopen capacity? =>
        exact ((openAt_takes t.name t.policy t.directory capacity?).map _ |>.map _).discard
    | globalDepth => exact (t.globalDepth_takes.map _).discard
    | bucketCount => exact (t.bucketCount_takes.map _).discard

end IndexTask

-- A pool of a shape that was created divides the ids into some parts.
theorem PoolShape.Valid.of_create {n : Nat} {D : Type} [PageStore D] [LawfulStore D]
    {shape : PoolShape} {d : D} (hd : LawfulStore.Sound d) {pool : Pool n}
    (h : (shape.create n d).result = .ok pool) : shape.Valid := by
  have hends := shape.create_ends (n := n) (Q := fun _ => True)
    (fun _ _ => Op.ends_of_forall fun _ _ => trivial) hd trivial
  rw [Op.Ends, h] at hends
  obtain ⟨hinitial, _⟩ := hends
  cases shape with
  | single queueCapacity index count => exact hinitial.1
  | sharded count =>
    obtain ⟨_, hpos, _⟩ := hinitial
    exact hpos

namespace Pool

variable {n : Nat} {D : Type} [PageStore D] [LawfulStore D] {shape : PoolShape}
  {m : Mounted (Pool n) D} {guards : List (Guard n)}

-- The states that a pool of a shape gets into by calls of its own and by those of indexes on it,
-- whichever calls fail, with the live guards.
inductive Used (shape : PoolShape) : Mounted (Pool n) D → List (Guard n) → Prop
  | created {d : D} {pool : Pool n} : LawfulStore.Sound d → (shape.create n d).result = .ok pool →
      Used shape ⟨pool, (shape.create n d).state⟩ []
  | request {m : Mounted (Pool n) D} {guards : List (Guard n)} (req : Request n) :
      Used shape m guards → req.Legal guards → (req.run m).result.Returns →
      Used shape (req.run m).state (req.call.guardsAfter guards (req.run m).result)
  | task {m : Mounted (Pool n) D} {guards : List (Guard n)} {K V : Type} [FixedWidth K]
      [FixedWidth V] [DecidableEq V] (task : IndexTask K V)
      (plan : Nat → Option { e : StoreError // ¬ e.OfIndex }) :
      Used shape m guards → (task.run (⟨m, plan, 0⟩ : UnreliablePool n D)).result.Returns →
      Used shape (task.run (⟨m, plan, 0⟩ : UnreliablePool n D)).state.pool guards

end Pool

namespace IndexTask

variable {n : Nat} {D : Type} [PageStore D] [LawfulStore D] {shape : PoolShape}
  {m : Mounted (Pool n) D} {guards : List (Guard n)} {K V : Type} [FixedWidth K] [FixedWidth V]
  [DecidableEq V]

-- Whichever calls fail, a task that returns leaves the same guards on the pool.
theorem run_steady {next : Nat → Nat} (h : Pool.Steady shape guards next m) (task : IndexTask K V)
    (plan : Nat → Option { e : StoreError // ¬ e.OfIndex }) :
    task.run.Ends (⟨m, plan, 0⟩ : UnreliablePool n D) fun r u =>
      r.Returns → ∃ next', Pool.Steady shape guards next' u.pool := by
  let := Pool.guarded shape n D
  let := Unreliable.guarded (Mounted (Pool n) D)
  have hguards : GuardedPool.Guards (⟨m, plan, 0⟩ : UnreliablePool n D) guards := ⟨next, h⟩
  refine (task.run_takes _ guards hguards trivial).mono fun r u hu hreturns => ?_
  cases r using Checked.outcomes with
  | ok _ => exact hu.2
  | error e => exact hu.2
  | abort a => exact absurd rfl (hreturns a)

end IndexTask

namespace Pool

variable {n : Nat} {D : Type} [PageStore D] [LawfulStore D] {shape : PoolShape}
  {m : Mounted (Pool n) D} {guards : List (Guard n)}

theorem Used.steady (h : Used shape m guards) : ∃ next, Steady shape guards next m := by
  induction h with
  | created hd hcreate =>
    have hends := PoolShape.create_outcome (n := n) (.of_create hd hcreate) hd
    rw [Op.Ends, hcreate] at hends
    exact ⟨_, hends.2⟩
  | request req _ hlegal hreturns ih =>
    obtain ⟨next, hsteady⟩ := ih
    obtain ⟨next', _, hsteady'⟩ := hsteady.request req hlegal hreturns
    exact ⟨next', hsteady'⟩
  | task task plan _ hreturns ih =>
    obtain ⟨next, hsteady⟩ := ih
    exact task.run_steady hsteady plan hreturns

-- Whatever is done with an index and whichever calls fail in it, if it returns, the pins of every page
-- and the frames that may be had are as before.
theorem Used.task_keeps_pins {K V : Type} [FixedWidth K] [FixedWidth V] [DecidableEq V]
    (h : Used shape m guards) (task : IndexTask K V)
    (plan : Nat → Option { e : StoreError // ¬ e.OfIndex }) :
    task.run.Ends (⟨m, plan, 0⟩ : UnreliablePool n D) fun r u => r.Returns →
      (∀ id, u.pool.pool.shards.map (Shard.pinCount id) = m.pool.shards.map (Shard.pinCount id)) ∧
        u.pool.pool.shards.map (fun s => s.available.card) =
          m.pool.shards.map fun s => s.available.card := by
  obtain ⟨next, hsteady⟩ := h.steady
  refine (task.run_steady hsteady plan).mono fun r u hu hreturns => ?_
  obtain ⟨next', hsteady'⟩ := hu hreturns
  exact ⟨fun id => (hsteady'.pinCounts_eq id).trans (hsteady.pinCounts_eq id).symm,
    hsteady'.available_eq.trans hsteady.available_eq.symm⟩

-- An index is created, or not, while there are page ids.
theorem Kept.create_returns {M : Memory} (h : Kept m guards M) (hids : m.pool.Supplies 3)
    {K V : Type} [FixedWidth K] [FixedWidth V] [DecidableEq V] (name : String) (policy : KeyPolicy K)
    {capacity? : Option Nat} (hroom : ∀ n, HashIndex.chooseCapacity K V capacity? = .ok n → 0 < n)
    (plan : Nat → Option { e : StoreError // ¬ e.OfIndex }) :
    ((IndexTask.create (V := V) name policy capacity?).run
      (⟨m, plan, 0⟩ : UnreliablePool n D)).result.Returns := by
  have hdoes : PagePool.Does guards (Ledger.ofMemory M 0)
      (HashIndex.create name policy capacity? : Op (UnreliablePool n D) (HashIndex K V)) _ _ :=
    (HashIndex.create_does name policy capacity? (Or.inl hroom)).mono (fun _ _ _ => trivial)
      fun _ _ he => he
  exact HashIndex.not_aborts Spent.not_supplies (hdoes.discard (P := fun _ _ => True))
    (HashIndex.create_draws name policy capacity?).discard (h.ofMemory 0) hids

-- The page of the directory is given back, as none is had for the first bucket.
theorem Used.task_keeps_pins_create :
    let m : Mounted (Pool 3) MemoryStore := ⟨.single (Shard.initial 3 3 0 1 0), .empty⟩
    let plan (i : Nat) : Option { e : StoreError // ¬ e.OfIndex } :=
      if i = 1 then some ⟨.poolFull, id⟩ else none
    let task : IndexTask UInt32 UInt32 := .create "index" ⟨compare, UInt32.toUInt64⟩ (some 1)
    let r := task.run (⟨m, plan, 0⟩ : UnreliablePool 3 MemoryStore)
    (Used (.single 3 0 1) m [] ∧ r.result.Returns) ∧
      (∀ id, r.state.pool.pool.shards.map (Shard.pinCount id) =
        m.pool.shards.map (Shard.pinCount id)) ∧
      r.state.pool.pool.shards.map (fun s => s.available.card) =
        m.pool.shards.map fun s => s.available.card := by
  intro m plan task r
  have hused : Used (.single 3 0 1) m [] := .created (d := MemoryStore.empty) trivial rfl
  have hchoose (n : Nat) (hn : HashIndex.chooseCapacity UInt32 UInt32 (some 1) = .ok n) : 0 < n := by
    obtain rfl : 1 = n := Except.ok.inj hn
    exact Nat.one_pos
  have hkept : Kept m [] ((PoolShape.single 3 0 1).memory MemoryStore.empty) :=
    (Reached.created (.single 3 0 1) (d := MemoryStore.empty) trivial
      (fun id _ => Std.HashMap.getD_empty) rfl).kept
  have hreturns : r.result.Returns :=
    hkept.create_returns (show 0 + 3 * 1 < 4294967296 by decide) "index" _ hchoose plan
  have hends := hused.task_keeps_pins task plan
  exact ⟨⟨hused, hreturns⟩, hends hreturns⟩

omit [LawfulStore D] in
-- No index is created in a full shard.
theorem create_of_full {s : Shard n} (hfull : s.Full) (d : D) {K V : Type} [FixedWidth K]
    [FixedWidth V] [DecidableEq V] (name : String) (policy : KeyPolicy K) {capacity? : Option Nat}
    {capacity : Nat} (hcapacity : HashIndex.chooseCapacity K V capacity? = .ok capacity) :
    ((IndexTask.create (V := V) name policy capacity?).run
      (⟨.single s, d⟩ : Mounted (Pool n) D)).result = .error (.error .poolFull) := by
  have hrefused : (Pool.allocate (D := D)).Ends ⟨.single s, d⟩ fun r _ =>
      r = .error (.error .poolFull) := by
    rw [allocate, ends_byShape]
    exact (Shard.allocate_of_full (m := ⟨s, d⟩) hfull).mono fun _ _ hr => hr.1
  have hends : ((IndexTask.create (V := V) name policy capacity?).run : Op _ Unit).Ends
      (⟨.single s, d⟩ : Mounted (Pool n) D) fun r _ => r = .error (.error .poolFull) := by
    rw [IndexTask.run, Op.ends_discard, HashIndex.create, Op.ends_bind, Op.ends_liftM, hcapacity,
      Op.then_ok, Op.ends_bind, PagePool.withNewPage, Op.ends_bind]
    refine hrefused.mono fun r _ hr => ?_
    rw [hr]
    rfl
  exact hends

-- A shard that has no number for its frames has no page for an index, though no frame has a pin.
theorem exists_create_full_of_mod (hn : n % Shard.frameNumberLimit = 0) (hframes : n ≤ Shard.maxFrames)
    (hqueue : n ≤ EvictionQueue.maxCapacity) {K V : Type} [FixedWidth K] [FixedWidth V] [DecidableEq V]
    (name : String) (policy : KeyPolicy K) {capacity? : Option Nat} {capacity : Nat}
    (hcapacity : HashIndex.chooseCapacity K V capacity? = .ok capacity) :
    ∃ m : Mounted (Pool n) MemoryStore, Used (.single n 0 1) m [] ∧
      (∀ s ∈ m.pool.shards, n ≤ s.queue.capacity ∧ ∀ f, (s.frame f).pins = 0) ∧
      ((IndexTask.create (V := V) name policy capacity?).run m).result =
        .error (.error .poolFull) := by
  have hcount : PageStore.pageCount.Ends MemoryStore.empty fun r d => r = .ok 0 ∧ d = .empty :=
    ⟨rfl, rfl⟩
  obtain ⟨hcreate, _⟩ := PoolShape.create_single_ends hframes hqueue hcount
  have hused : Used (.single n 0 1) _ [] := .created (d := MemoryStore.empty) trivial hcreate
  have hfull := Shard.initial_full hn n 0 1 (Shard.firstId 0 1 (0 : UInt32).toNat)
  refine ⟨_, hused, fun s hs => ?_, create_of_full hfull _ name policy hcapacity⟩
  obtain rfl := List.mem_singleton.mp hs
  refine ⟨le_refl n, fun f => ?_⟩
  rw [Shard.frame_initial]
  rfl

end Pool

end PagedIndex
