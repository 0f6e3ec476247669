import PagedIndex.Proofs.Pool.Locality
import PagedIndex.Proofs.Pool.Tallied

namespace PagedIndex

-- A pool as it is seen by those who count its page ids. `Supplies k` says that there are ids for `k`
-- new pages, whichever shards these come from.
class SuppliedPool (σ : Type) (γ : outParam Type) [PagePool σ γ] where
  Supplies : Nat → σ → Prop
  supplies_le {j k : Nat} {s : σ} (h : Supplies k s) (hle : j ≤ k) : Supplies j s
  fetch_supplies {k : Nat} {s : σ} (h : Supplies k s) (id : PageId) (access : Access) :
    (PagePool.fetch id access).Ends s fun _ t => Supplies k t
  allocate_supplies {k : Nat} {s : σ} (h : Supplies (k + 1) s) :
    (PagePool.allocate (σ := σ)).Ends s fun _ t => Supplies k t
  delete_supplies {k : Nat} {s : σ} (h : Supplies k s) (id : PageId) :
    (PagePool.delete id).Ends s fun _ t => Supplies k t
  write_supplies {k : Nat} {s : σ} (h : Supplies k s) (g : γ) (page : Page) :
    Supplies k (PagePool.write g page s)
  release_supplies {k : Nat} {s : σ} (h : Supplies k s) (g : γ) :
    (PagePool.release g).Ends s fun _ t => Supplies k t

namespace Shard

variable {n : Nat} {D α β : Type} {k : Nat}

-- The shard has ids for this many new pages.
def Supplies (k : Nat) (s : Shard n) : Prop := s.nextId + k * s.count < pageIdLimit

theorem Supplies.le {s : Shard n} {j : Nat} (h : s.Supplies k) (hle : j ≤ k) : s.Supplies j :=
  (Nat.add_le_add_left (Nat.mul_le_mul_right s.count hle) s.nextId).trans_lt h

theorem Spent.not_supplies {s : Shard n} (h : s.Spent) : ¬ s.Supplies 1 := by
  rw [Supplies, Nat.one_mul]
  exact Nat.not_lt_of_le h

-- The ids go on where they did.
def SameIds (m m' : Mounted (Shard n) D) : Prop :=
  m'.pool.nextId = m.pool.nextId ∧ m'.pool.count = m.pool.count

theorem SameIds.supplies {m m' : Mounted (Shard n) D} (h : SameIds m m') (hm : m.pool.Supplies k) :
    m'.pool.Supplies k := by
  rwa [Supplies, h.1, h.2]

theorem local_sameIds : Local (SameIds (n := n) (D := D)) where
  refl _ := ⟨rfl, rfl⟩
  trans h₁ h₂ := ⟨h₂.1.trans h₁.1, h₂.2.trans h₁.2⟩
  elsewhere _ _ := ⟨rfl, rfl⟩

-- An operation that gives no page out.
def KeepsIds (x : Op (Mounted (Shard n) D) α) : Prop := ∀ m, x.Ends m fun _ m' => SameIds m m'

theorem keepsIds_pure (a : α) : KeepsIds (pure a : Op (Mounted (Shard n) D) α) := fun _ => ⟨rfl, rfl⟩

theorem keepsIds_fail (e : StoreError) : KeepsIds (Op.fail e : Op (Mounted (Shard n) D) α) :=
  fun _ => ⟨rfl, rfl⟩

-- Nothing goes on after a failure.
theorem keepsIds_failed (e : StoreError) (f : β → Op (Mounted (Shard n) D) α) :
    KeepsIds (Op.fail e >>= f) := fun _ => ⟨rfl, rfl⟩

theorem keepsIds_onStore (x : Op D α) : KeepsIds (Mounted.onStore x : Op (Mounted (Shard n) D) α) :=
  fun m => (Mounted.ends_onStore x m _).mpr (Op.ends_of_forall fun _ _ => ⟨rfl, rfl⟩)

theorem KeepsIds.bind {x : Op (Mounted (Shard n) D) α} {f : α → Op (Mounted (Shard n) D) β}
    (hx : KeepsIds x) (hf : ∀ a, KeepsIds (f a)) : KeepsIds (x >>= f) := by
  intro m
  rw [Op.ends_bind]
  refine (hx m).mono fun r t ht => ?_
  cases r with
  | ok a => exact (hf a t).mono fun _ _ hu => local_sameIds.trans ht hu
  | error e => exact ht

theorem KeepsIds.attempt {x : Op (Mounted (Shard n) D) α} (hx : KeepsIds x) :
    KeepsIds (Op.attempt x) := by
  intro m
  rw [Op.ends_attempt]
  refine (hx m).mono fun r t ht => ?_
  cases r using Checked.outcomes <;> exact ht

theorem keepsIds_observe {g : Shard n → β} {f : β → Op (Mounted (Shard n) D) α}
    (hf : ∀ b, KeepsIds (f b)) : KeepsIds (Mounted.observe g >>= f) := fun m => by
  rw [Op.ends_bind, Mounted.ends_observe, Op.then_ok]
  exact hf _ m

theorem keepsIds_change {g : Shard n → Shard n} {f : Unit → Op (Mounted (Shard n) D) α}
    (hg : ∀ s, (g s).nextId = s.nextId ∧ (g s).count = s.count) (hf : KeepsIds (f ())) :
    KeepsIds (Mounted.update g >>= f) := fun m => by
  have hchanged : SameIds m ⟨g m.pool, m.store⟩ := hg m.pool
  rw [Op.ends_bind, Mounted.ends_update, Op.then_ok]
  exact (hf _).mono fun _ _ hu => local_sameIds.trans hchanged hu

theorem keepsIds_guard (id : PageId) (access : Access) (f : Fin n) :
    KeepsIds (guard id access f : Op (Mounted (Shard n) D) (Guard n)) := by
  unfold guard
  split
  · exact keepsIds_change (fun _ => ⟨rfl, rfl⟩) (keepsIds_pure _)
  · exact keepsIds_pure _

theorem keepsIds_release (g : Guard n) : KeepsIds (release g : Op (Mounted (Shard n) D) Unit) :=
  fun m => (release_parts g m).mono fun _ _ hm => ⟨hm.1, hm.2.1⟩

variable [PageStore D]

theorem keepsIds_writeBack (id : PageId) (f : Fin n) :
    KeepsIds (writeBack id f : Op (Mounted (Shard n) D) Unit) := by
  refine keepsIds_observe fun frame => ?_
  split
  · refine (keepsIds_onStore _).bind fun _ => ?_
    exact keepsIds_change (fun _ => ⟨rfl, rfl⟩) fun _ => ⟨rfl, rfl⟩
  · exact keepsIds_pure _

theorem keepsIds_acquire : KeepsIds (acquire : Op (Mounted (Shard n) D) (Fin n)) := by
  have hevict (f : Fin n) : KeepsIds (evict f : Op (Mounted (Shard n) D) Unit) := by
    refine keepsIds_observe fun page => ?_
    cases page with
    | none => exact keepsIds_pure _
    | some id =>
      refine (keepsIds_writeBack id f).attempt.bind fun written => ?_
      cases written with
      | error e =>
        refine KeepsIds.bind (fun m => ?_) fun _ => keepsIds_fail e
        exact (ends_enqueue f m.pool m.store _).mpr ⟨rfl, rfl⟩
      | ok _ => exact keepsIds_observe fun _ => fun _ => ⟨rfl, rfl⟩
  refine keepsIds_observe fun free => ?_
  cases free with
  | cons f rest => exact keepsIds_change (fun _ => ⟨rfl, rfl⟩) (keepsIds_pure f)
  | nil =>
    refine keepsIds_observe fun popped => ?_
    cases popped with
    | none => exact keepsIds_fail _
    | some popped =>
      exact keepsIds_change (fun _ => ⟨rfl, rfl⟩)
        ((hevict popped.1).bind fun _ => keepsIds_pure popped.1)

theorem keepsIds_fetch (id : PageId) (access : Access) :
    KeepsIds (fetch id access : Op (Mounted (Shard n) D) (Guard n)) := by
  refine KeepsIds.bind ?_ fun f => keepsIds_guard id access f
  refine keepsIds_observe fun found => ?_
  cases found with
  | some f =>
    refine keepsIds_observe fun pins => KeepsIds.bind (fun m => ?_) fun _ =>
      keepsIds_change (fun _ => ⟨rfl, rfl⟩) (keepsIds_pure f)
    rw [Op.ends_liftM]
    exact ⟨rfl, rfl⟩
  | none =>
    refine keepsIds_observe fun owned => ?_
    split
    · exact keepsIds_failed _ _
    · refine keepsIds_acquire.bind fun f => (keepsIds_onStore _).attempt.bind fun loaded => ?_
      cases loaded with
      | error e => exact keepsIds_change (fun _ => ⟨rfl, rfl⟩) (keepsIds_fail e)
      | ok bytes => exact keepsIds_change (fun _ => ⟨rfl, rfl⟩) (keepsIds_pure f)

theorem keepsIds_delete (id : PageId) : KeepsIds (delete id : Op (Mounted (Shard n) D) Bool) := by
  refine keepsIds_observe fun found => ?_
  cases found with
  | none => exact keepsIds_pure _
  | some f =>
    refine keepsIds_observe fun pins => ?_
    split
    · exact (keepsIds_writeBack id f).bind fun _ =>
        keepsIds_change (fun _ => ⟨rfl, rfl⟩) (keepsIds_pure _)
    · exact fun _ => ⟨rfl, rfl⟩

-- A page that is given out takes one id.
theorem allocate_ids (m : Mounted (Shard n) D) :
    (allocate : Op (Mounted (Shard n) D) (Guard n)).Ends m fun
      | .ok _, m' => m'.pool.nextId = m.pool.nextId + m.pool.count ∧ m'.pool.count = m.pool.count
      | .error _, m' => SameIds m m' := by
  simp only [allocate, Op.ends_bind, Op.ends_attempt]
  refine (keepsIds_acquire m).mono fun r m' hm => ?_
  cases r using Checked.outcomes with
  | ok f =>
    simp only [Op.attempted_ok, Op.then_ok, Op.ends_bind, Mounted.ends_observe, Op.ends_require]
    split
    · rw [Mounted.ends_update, Op.then_ok, Op.ends_bind, install, Mounted.ends_update, Op.then_ok]
      obtain ⟨hnext, hcount⟩ := hm
      exact ⟨congrArg₂ (· + ·) hnext hcount, hcount⟩
    · exact hm
  | error e => exact hm
  | abort a => exact hm

theorem Supplies.allocate {m : Mounted (Shard n) D} (h : m.pool.Supplies (k + 1)) :
    (allocate : Op (Mounted (Shard n) D) (Guard n)).Ends m fun
      | .ok _, m' => m'.pool.Supplies k
      | .error _, m' => m'.pool.Supplies (k + 1) := by
  refine (allocate_ids m).mono fun r m' hm => ?_
  cases r with
  | ok g =>
    rw [Supplies, Nat.succ_mul] at h
    change m'.pool.nextId = _ ∧ m'.pool.count = _ at hm
    change m'.pool.nextId + k * m'.pool.count < pageIdLimit
    rw [hm.1, hm.2]
    omega
  | error e => exact SameIds.supplies hm h

end Shard

namespace ShardedPool

variable {n k : Nat} {D : Type} [PageStore D] {left : Nat}

-- Every shard has ids for this many new pages.
def Supplies (left : Nat) (p : ShardedPool n k) : Prop := ∀ i, (p.shards.get i).Supplies left

-- Only the first shard with a frame gives a page out.
theorem Supplies.allocateIn {m : Mounted (ShardedPool n k) D} (h : m.pool.Supplies (left + 1))
    (shards : List (Fin k)) :
    (allocateIn shards : Op (Mounted (ShardedPool n k) D) (Guard n)).Ends m fun _ m' =>
      m'.pool.Supplies left := by
  have hle {p : ShardedPool n k} (hp : p.Supplies (left + 1)) : p.Supplies left :=
    fun i => (hp i).le (Nat.le_succ left)
  induction shards generalizing m with
  | nil => exact hle h
  | cons i rest ih =>
    rw [ends_allocateIn_cons, ends_onShard]
    have hset {t : Mounted (Shard n) D} {j : Nat} (hle : j ≤ left + 1) (ht : t.pool.Supplies j) :
        Supplies j { m.pool with shards := m.pool.shards.set i t.pool i.isLt } := by
      intro i'
      by_cases hi : (i : Nat) = i'
      · obtain rfl := Fin.ext hi
        rwa [get_set_self]
      · rw [get_set_of_ne _ hi]
        exact (h i').le hle
    have hallocated := Shard.Supplies.allocate (m := ⟨m.pool.shards.get i, m.store⟩) (h i)
    refine hallocated.mono fun r t ht => ?_
    cases r using Checked.outcomes with
    | ok g => exact hset (Nat.le_succ left) ht
    | error e =>
      dsimp only
      split
      · exact ih (hset (le_refl _) ht)
      · exact hle (hset (le_refl _) ht)
    | abort a => exact hle (hset (le_refl _) ht)

end ShardedPool

namespace Pool

variable {n : Nat} {D : Type} {k : Nat}

def Supplies (k : Nat) : Pool n → Prop
  | single s => s.Supplies k
  | sharded _ p => p.Supplies k

theorem Supplies.le {p : Pool n} {j : Nat} (h : p.Supplies k) (hle : j ≤ k) : p.Supplies j := by
  cases p with
  | single s => exact Shard.Supplies.le h hle
  | sharded count p => exact fun i => (h i).le hle

theorem Spent.not_supplies {p : Pool n} (h : p.Spent) : ¬ p.Supplies 1 := by
  cases p with
  | single s => exact Shard.Spent.not_supplies h
  | sharded count p =>
    obtain ⟨i, hi⟩ := h
    exact fun hsupplies => hi.not_supplies (hsupplies i)

theorem Supplies.onOwner {α : Type} {x : Op (Mounted (Shard n) D) α} (hx : Shard.KeepsIds x)
    {m : Mounted (Pool n) D} (h : m.pool.Supplies k) (id : PageId) :
    (byShape x fun _ => ShardedPool.onOwner id x).Ends m fun _ m' => m'.pool.Supplies k := by
  rw [ends_byShape]
  obtain ⟨pool, d⟩ := m
  cases pool with
  | single s => exact (hx ⟨s, d⟩).mono fun _ _ ht => ht.supplies h
  | sharded count p =>
    simp only [ShardedPool.onOwner, Op.ends_bind, Mounted.ends_observe, Op.then_ok,
      ShardedPool.ends_onShard]
    refine (hx _).mono fun _ _ ht i => ?_
    exact (ShardedPool.each_set (m := ⟨p, d⟩) Shard.local_sameIds ht i).supplies (h i)

theorem Supplies.write {p : Pool n} (h : p.Supplies k) (g : Guard n) (page : Page) :
    (p.write g page).Supplies k := by
  cases p with
  | single s => exact h
  | sharded count p =>
    change (p.write g page).Supplies k
    rw [ShardedPool.write_eq]
    intro i
    by_cases hi : (p.shardOf g.page : Nat) = i
    · obtain rfl := Fin.ext hi
      rw [ShardedPool.get_set_self]
      exact h _
    · rw [ShardedPool.get_set_of_ne _ hi]
      exact h i

variable [PageStore D]

theorem Supplies.allocate {m : Mounted (Pool n) D} (h : m.pool.Supplies (k + 1)) :
    (Pool.allocate (D := D)).Ends m fun _ m' => m'.pool.Supplies k := by
  rw [Pool.allocate, ends_byShape]
  obtain ⟨pool, d⟩ := m
  cases pool with
  | single s =>
    refine (Shard.Supplies.allocate (m := ⟨s, d⟩) h).mono fun r t ht => ?_
    cases r with
    | ok g => exact ht
    | error e => exact Shard.Supplies.le ht (Nat.le_succ k)
  | sharded count p => exact ShardedPool.Supplies.allocateIn (m := ⟨p, d⟩) h p.turns

instance : SuppliedPool (Mounted (Pool n) D) (Guard n) where
  Supplies k m := m.pool.Supplies k
  supplies_le := Supplies.le
  fetch_supplies h id access := Supplies.onOwner (Shard.keepsIds_fetch id access) h id
  allocate_supplies := Supplies.allocate
  delete_supplies h id := Supplies.onOwner (Shard.keepsIds_delete id) h id
  write_supplies := Supplies.write
  release_supplies h g := Supplies.onOwner (Shard.keepsIds_release g) h g.page

end Pool

section

variable {σ γ α : Type} [PagePool σ γ] [SuppliedPool σ γ]

open SuppliedPool

-- A call that is refused by plan takes no id.
theorem Unreliable.call_supplies {x : Op σ α} {j k : Nat} (hle : j ≤ k) {u : Unreliable σ}
    (hu : Supplies k u.pool) (hx : x.Ends u.pool fun _ t => Supplies j t) :
    (Unreliable.call x).Ends u fun _ v => Supplies j v.pool := by
  rw [Unreliable.call, Op.ends_bind, Unreliable.ends_next, Op.then_ok]
  cases u.plan u.calls with
  | some e => exact supplies_le hu hle
  | none => exact hx

instance : SuppliedPool (Unreliable σ) γ where
  Supplies k u := Supplies k u.pool
  supplies_le := supplies_le
  fetch_supplies h id access := Unreliable.call_supplies (le_refl _) h (fetch_supplies h id access)
  allocate_supplies h := Unreliable.call_supplies (Nat.le_succ _) h (allocate_supplies h)
  delete_supplies h id := Unreliable.call_supplies (le_refl _) h (delete_supplies h id)
  write_supplies h g page := write_supplies h g page
  release_supplies h g := release_supplies h g

theorem Tallied.ends_counted_pool {x : Op σ α} {u : Tallied σ} {P : σ → Prop} :
    (Tallied.counted x).Ends u (fun _ v => P v.pool) ↔ x.Ends u.pool fun _ t => P t := Iff.rfl

instance : SuppliedPool (Tallied σ) γ where
  Supplies k u := Supplies k u.pool
  supplies_le := supplies_le
  fetch_supplies h id access := Tallied.ends_counted_pool.mpr (fetch_supplies h id access)
  allocate_supplies h := Tallied.ends_counted_pool.mpr (allocate_supplies h)
  delete_supplies h id := delete_supplies (σ := σ) h id
  write_supplies h g page := write_supplies h g page
  release_supplies h g := release_supplies (σ := σ) h g

end

end PagedIndex
