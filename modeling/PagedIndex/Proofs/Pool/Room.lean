import PagedIndex.Proofs.Pool.Invariants
import PagedIndex.Proofs.Pool.Unreliable
import PagedIndex.Store.Backing
import PagedIndex.Store.Fault

namespace PagedIndex

-- The outcome is not that a page has no room for a capacity.
def Checked.FindsRoom {α : Type} (r : Checked α) : Prop :=
  ∀ requested max, r ≠ .error (.abort (.capacity requested max))

namespace Checked

variable {α β : Type}

theorem findsRoom_ok (a : α) : FindsRoom (.ok a) := nofun

theorem findsRoom_error (e : StoreError) : FindsRoom (.error (.error e) : Checked α) := nofun

-- A failure does not depend on what an answer would have been.
theorem FindsRoom.of_error {f : Failure} (h : FindsRoom (.error f : Checked α)) :
    FindsRoom (.error f : Checked β) := by
  rintro requested max ⟨rfl⟩
  exact h requested max rfl

end Checked

namespace Op

variable {σ τ ρ α β : Type} {x : Op σ α}

-- It does not come out so from any state.
def FindsRoom (x : Op σ α) : Prop := ∀ s, x.Ends s fun r _ => r.FindsRoom

theorem findsRoom_pure (a : α) : FindsRoom (Pure.pure a : Op σ α) := fun _ => Checked.findsRoom_ok a

theorem findsRoom_fail (e : StoreError) : FindsRoom (fail e : Op σ α) :=
  fun _ => Checked.findsRoom_error e

theorem findsRoom_report (e : Event) : FindsRoom (report e : Op σ Unit) :=
  fun _ => Checked.findsRoom_ok ()

theorem findsRoom_observe (f : σ → α) : FindsRoom (observe f) := fun s => Checked.findsRoom_ok (f s)

theorem findsRoom_update (f : σ → σ) : FindsRoom (update f) := fun _ => Checked.findsRoom_ok ()

theorem findsRoom_liftM {c : Checked α} (hc : c.FindsRoom) : FindsRoom (liftM c : Op σ α) :=
  fun _ => hc

theorem findsRoom_overflow {p : Prop} [Decidable p] :
    FindsRoom (liftM (Checked.require p .overflow) : Op σ Unit) := by
  intro s
  rw [ends_require]
  split <;> nofun

theorem FindsRoom.bind {f : α → Op σ β} (hx : FindsRoom x) (hf : ∀ a, FindsRoom (f a)) :
    FindsRoom (x >>= f) := by
  intro s
  rw [ends_bind]
  refine (hx s).mono fun r t hr => ?_
  cases r with
  | ok a => exact hf a t
  | error e => exact hr.of_error

-- Nothing goes on after a failure.
theorem findsRoom_failed (e : StoreError) (f : α → Op σ β) : FindsRoom (fail e >>= f) := by
  intro s
  rw [ends_bind, ends_fail, then_error]
  exact Checked.findsRoom_error e

theorem FindsRoom.map (f : α → β) (hx : FindsRoom x) : FindsRoom (f <$> x) := by
  rw [map_eq_pure_bind]
  exact hx.bind fun a => findsRoom_pure (f a)

theorem FindsRoom.discard (hx : FindsRoom x) : FindsRoom (Functor.discard x) := hx.map _

theorem FindsRoom.attempt (hx : FindsRoom x) : FindsRoom (Op.attempt x) := by
  intro s
  rw [ends_attempt]
  refine (hx s).mono fun r t hr => ?_
  cases r using Checked.outcomes with
  | ok a => exact Checked.findsRoom_ok _
  | error e => exact Checked.findsRoom_ok _
  | abort a => exact hr.of_error

theorem FindsRoom.ensuring (hx : FindsRoom x) (cleanup : Op σ Unit) :
    FindsRoom (x.ensuring cleanup) := hx

theorem FindsRoom.forM {f : α → Op σ Unit} (hf : ∀ a, FindsRoom (f a)) (xs : List α) :
    FindsRoom (xs.forM f) := by
  induction xs with
  | nil => exact findsRoom_pure ()
  | cons a xs ih => exact (hf a).bind fun _ => ih

theorem FindsRoom.zoom (hx : FindsRoom x) (split : τ → σ × ρ) (join : σ → ρ → τ) :
    FindsRoom (x.zoom split join) := fun t => hx (split t).1

end Op

open Op

-- The calls that a pool makes on its store.
class RoomyStore (D : Type) [PageStore D] : Prop where
  readPage (id : PageId) : FindsRoom (PageStore.readPage id : Op D Page)
  writePage (id : PageId) (page : Page) : FindsRoom (PageStore.writePage id page : Op D Unit)

-- The calls of a pool that can fail.
class RoomyPool (σ : Type) (γ : outParam Type) [PagePool σ γ] : Prop where
  fetch (id : PageId) (access : Access) : FindsRoom (PagePool.fetch id access : Op σ γ)
  allocate : FindsRoom (PagePool.allocate : Op σ γ)
  delete (id : PageId) : FindsRoom (PagePool.delete id : Op σ Bool)

section Stores

instance : RoomyStore MemoryStore where
  readPage id s := Checked.findsRoom_ok (s.page id)
  writePage id page s := by
    change Checked.FindsRoom (MemoryStore.write id page s).result
    unfold MemoryStore.write
    dsimp only
    split <;> nofun

instance : RoomyStore FileStore where
  readPage id s := by
    change Checked.FindsRoom (FileStore.read id s).result
    unfold FileStore.read
    dsimp only
    split
    · nofun
    · split <;> nofun
  writePage _ _ := findsRoom_update _

instance : RoomyStore NullStore where
  readPage _ _ := Checked.findsRoom_ok Page.zero
  writePage _ _ := findsRoom_fail _

theorem Backing.findsRoom_byKind {α : Type} {memory : Op MemoryStore α} {file : Op FileStore α}
    {null : Op NullStore α} (hmemory : FindsRoom memory) (hfile : FindsRoom file)
    (hnull : FindsRoom null) : FindsRoom (Backing.byKind memory file null) := by
  intro s
  cases s with
  | memory store => exact hmemory store
  | file store => exact hfile store
  | null store => exact hnull store

instance : RoomyStore Backing where
  readPage id := Backing.findsRoom_byKind (RoomyStore.readPage id) (RoomyStore.readPage id)
    (RoomyStore.readPage id)
  writePage id page := Backing.findsRoom_byKind (RoomyStore.writePage id page)
    (RoomyStore.writePage id page) (RoomyStore.writePage id page)

instance {D : Type} [PageStore D] [RoomyStore D] : RoomyStore (FaultyStore D) where
  readPage id := by
    refine FindsRoom.bind (fun _ => Checked.findsRoom_ok _) fun fails => ?_
    split
    · exact findsRoom_fail _
    · exact (RoomyStore.readPage id).zoom _ _
  writePage id page := by
    refine FindsRoom.bind (fun _ => Checked.findsRoom_ok _) fun fails => ?_
    split
    · exact findsRoom_fail _
    · exact (RoomyStore.writePage id page).zoom _ _

end Stores

namespace Shard

variable {n : Nat} {D α β : Type}

theorem findsRoom_observe {g : Shard n → β} {f : β → Op (Mounted (Shard n) D) α}
    (hf : ∀ b, FindsRoom (f b)) : FindsRoom (Mounted.observe g >>= f) :=
  (Op.findsRoom_observe _).bind hf

theorem findsRoom_change {g : Shard n → Shard n} {f : Unit → Op (Mounted (Shard n) D) α}
    (hf : FindsRoom (f ())) : FindsRoom (Mounted.update g >>= f) :=
  (Op.findsRoom_update _).bind fun _ => hf

theorem findsRoom_enqueue (f : Fin n) : FindsRoom (enqueue f : Op (Mounted (Shard n) D) Unit) := by
  refine findsRoom_observe fun refuses => ?_
  split
  · exact (findsRoom_report _).bind fun _ => findsRoom_update _
  · exact (findsRoom_pure _).bind fun _ => findsRoom_update _

theorem findsRoom_guard (id : PageId) (access : Access) (f : Fin n) :
    FindsRoom (guard id access f : Op (Mounted (Shard n) D) (Guard n)) := by
  unfold guard
  split
  · exact (findsRoom_update _).bind fun _ => findsRoom_pure _
  · exact (findsRoom_pure _).bind fun _ => findsRoom_pure _

variable [PageStore D] [RoomyStore D]

theorem findsRoom_writeBack (id : PageId) (f : Fin n) :
    FindsRoom (writeBack id f : Op (Mounted (Shard n) D) Unit) := by
  refine findsRoom_observe fun frame => ?_
  split
  · refine ((RoomyStore.writePage id frame.bytes).zoom _ _).bind fun _ => ?_
    exact findsRoom_change (findsRoom_report _)
  · exact findsRoom_pure _

theorem findsRoom_evict (f : Fin n) : FindsRoom (evict f : Op (Mounted (Shard n) D) Unit) := by
  refine findsRoom_observe fun page => ?_
  cases page with
  | none => exact findsRoom_pure _
  | some id =>
    refine (findsRoom_writeBack id f).attempt.bind fun written => ?_
    cases written with
    | error e => exact (findsRoom_enqueue f).bind fun _ => findsRoom_fail e
    | ok _ => exact findsRoom_observe fun _ => (findsRoom_report _).bind fun _ => findsRoom_update _

theorem findsRoom_acquire : FindsRoom (acquire : Op (Mounted (Shard n) D) (Fin n)) := by
  refine findsRoom_observe fun free => ?_
  cases free with
  | cons f rest => exact findsRoom_change (findsRoom_pure f)
  | nil =>
    refine findsRoom_observe fun popped => ?_
    cases popped with
    | none => exact findsRoom_fail _
    | some popped =>
      exact findsRoom_change ((findsRoom_evict popped.1).bind fun _ => findsRoom_pure popped.1)

theorem findsRoom_pin (id : PageId) : FindsRoom (pin id : Op (Mounted (Shard n) D) (Fin n)) := by
  refine findsRoom_observe fun found => ?_
  cases found with
  | some f =>
    refine findsRoom_observe fun pins => findsRoom_overflow.bind fun _ => ?_
    exact findsRoom_change (findsRoom_pure f)
  | none =>
    refine findsRoom_observe fun owned => ?_
    split
    · exact findsRoom_failed _ _
    · refine findsRoom_acquire.bind fun f => ?_
      refine ((RoomyStore.readPage id).zoom _ _).attempt.bind fun loaded => ?_
      cases loaded with
      | error e => exact findsRoom_change (findsRoom_fail e)
      | ok bytes => exact findsRoom_change (findsRoom_pure f)

theorem findsRoom_fetch (id : PageId) (access : Access) :
    FindsRoom (fetch id access : Op (Mounted (Shard n) D) (Guard n)) :=
  (findsRoom_pin id).bind fun f => findsRoom_guard id access f

theorem findsRoom_allocate : FindsRoom (allocate : Op (Mounted (Shard n) D) (Guard n)) := by
  refine findsRoom_acquire.attempt.bind fun acquired => ?_
  cases acquired with
  | error e => exact findsRoom_observe fun _ => (findsRoom_report _).bind fun _ => findsRoom_fail e
  | ok f =>
    refine findsRoom_observe fun number => findsRoom_observe fun count => ?_
    refine findsRoom_overflow.bind fun _ => findsRoom_change ?_
    exact findsRoom_change (findsRoom_guard _ _ f)

theorem findsRoom_delete (id : PageId) : FindsRoom (delete id : Op (Mounted (Shard n) D) Bool) := by
  refine findsRoom_observe fun found => ?_
  cases found with
  | none => exact findsRoom_pure _
  | some f =>
    refine findsRoom_observe fun pins => ?_
    split
    · exact (findsRoom_writeBack id f).bind fun _ => findsRoom_change (findsRoom_pure _)
    · exact (findsRoom_report _).bind fun _ => findsRoom_pure _

end Shard

namespace ShardedPool

variable {n k : Nat} {D α : Type}

theorem findsRoom_onOwner {x : Op (Mounted (Shard n) D) α} (hx : FindsRoom x) (id : PageId) :
    FindsRoom (onOwner id x : Op (Mounted (ShardedPool n k) D) α) :=
  (Op.findsRoom_observe _).bind fun _ => hx.zoom _ _

variable [PageStore D] [RoomyStore D]

theorem findsRoom_allocateIn (shards : List (Fin k)) :
    FindsRoom (allocateIn shards : Op (Mounted (ShardedPool n k) D) (Guard n)) := by
  induction shards with
  | nil => exact (findsRoom_report _).bind fun _ => findsRoom_fail _
  | cons i rest ih =>
    refine (Shard.findsRoom_allocate.zoom _ _).attempt.bind fun allocated => ?_
    split
    · exact (Op.findsRoom_update _).bind fun _ => findsRoom_pure _
    · exact ih
    · exact findsRoom_fail _

end ShardedPool

namespace Pool

variable {n : Nat} {D α : Type}

theorem findsRoom_byShape {single : Op (Mounted (Shard n) D) α}
    {sharded : (k : Nat) → Op (Mounted (ShardedPool n k) D) α} (hsingle : FindsRoom single)
    (hsharded : ∀ k, FindsRoom (sharded k)) : FindsRoom (byShape single sharded) := by
  rintro ⟨pool, d⟩
  rw [ends_byShape]
  cases pool with
  | single s => exact hsingle ⟨s, d⟩
  | sharded k p => exact hsharded k ⟨p, d⟩

instance [PageStore D] [RoomyStore D] : RoomyPool (Mounted (Pool n) D) (Guard n) where
  fetch id access := findsRoom_byShape (Shard.findsRoom_fetch id access) fun _ =>
    ShardedPool.findsRoom_onOwner (Shard.findsRoom_fetch id access) id
  allocate := findsRoom_byShape Shard.findsRoom_allocate fun _ =>
    (Op.findsRoom_observe _).bind fun turns => ShardedPool.findsRoom_allocateIn turns
  delete id := findsRoom_byShape (Shard.findsRoom_delete id) fun _ =>
    ShardedPool.findsRoom_onOwner (Shard.findsRoom_delete id) id

end Pool

namespace Unreliable

variable {σ γ α : Type}

theorem findsRoom_call {x : Op σ α} (hx : FindsRoom x) : FindsRoom (call x) := by
  refine FindsRoom.bind (fun _ => Checked.findsRoom_ok _) fun planned => ?_
  cases planned with
  | some e => exact findsRoom_fail _
  | none => exact hx.zoom _ _

-- A planned failure is an error.
instance [PagePool σ γ] [RoomyPool σ γ] : RoomyPool (Unreliable σ) γ where
  fetch id access := findsRoom_call (RoomyPool.fetch id access)
  allocate := findsRoom_call RoomyPool.allocate
  delete id := findsRoom_call (RoomyPool.delete id)

end Unreliable

end PagedIndex
