import PagedIndex.Proofs.Pool.Sharding

namespace PagedIndex

variable {n : Nat} {D α : Type}

-- Relations between a shard over its store before and after. They hold of the shards that take no
-- part too.
structure Local (R : Mounted (Shard n) D → Mounted (Shard n) D → Prop) : Prop where
  refl (m : Mounted (Shard n) D) : R m m
  trans {m₁ m₂ m₃ : Mounted (Shard n) D} : R m₁ m₂ → R m₂ m₃ → R m₁ m₃
  elsewhere {m m' : Mounted (Shard n) D} (s : Shard n) : R m m' → R ⟨s, m.store⟩ ⟨s, m'.store⟩

variable {R : Mounted (Shard n) D → Mounted (Shard n) D → Prop}

namespace ShardedPool

variable {k : Nat}

def Each (R : Mounted (Shard n) D → Mounted (Shard n) D → Prop)
    (m m' : Mounted (ShardedPool n k) D) : Prop :=
  ∀ i, R ⟨m.pool.shards.get i, m.store⟩ ⟨m'.pool.shards.get i, m'.store⟩

theorem each_set (hR : Local R) {m : Mounted (ShardedPool n k) D} {i : Fin k}
    {t : Mounted (Shard n) D} (ht : R ⟨m.pool.shards.get i, m.store⟩ t) :
    Each R m ⟨{ m.pool with shards := m.pool.shards.set i t.pool i.isLt }, t.store⟩ := by
  intro j
  by_cases hij : (i : Nat) = j
  · obtain rfl := Fin.ext hij
    rw [get_set_self]
    exact ht
  · rw [get_set_of_ne _ hij]
    exact hR.elsewhere _ ht

variable [PageStore D] [LawfulStore D] {m : Mounted (ShardedPool n k) D} {guards : List (Guard n)}
  {M : Memory}

theorem Kept.allocateIn_each (hR : Local R) (h : Kept m guards M)
    (hshard : ∀ {c : ShardConfig} {m : Mounted (Shard n) D} {guards : List (Guard n)},
      Shard.Kept c m.store m guards M → Shard.allocate.Ends m fun _ t => R m t)
    (shards : List (Fin k)) :
    (ShardedPool.allocateIn (D := D) (n := n) shards).Ends m fun _ m' => Each R m m' := by
  induction shards generalizing m with
  | nil => exact fun _ => hR.refl _
  | cons i rest ih =>
    rw [ends_allocateIn_cons, ends_onShard]
    refine ((h.shard i).allocate.and (hshard (h.shard i))).mono fun r t ht => ?_
    have heach := each_set hR ht.2
    cases r using Checked.outcomes with
    | ok g => exact heach
    | error e =>
      dsimp only
      split
      · exact (ih (h.same ht.1.2)).mono fun _ _ hrest j => hR.trans (heach j) (hrest j)
      · exact heach
    | abort a => exact heach

theorem Kept.allocate_each (hR : Local R) (h : Kept m guards M)
    (hshard : ∀ {c : ShardConfig} {m : Mounted (Shard n) D} {guards : List (Guard n)},
      Shard.Kept c m.store m guards M → Shard.allocate.Ends m fun _ t => R m t) :
    (ShardedPool.allocate (D := D) (n := n) (k := k)).Ends m fun _ m' => Each R m m' := by
  rw [ShardedPool.allocate, Op.ends_bind, Mounted.ends_observe, Op.then_ok]
  exact h.allocateIn_each hR hshard _

theorem Kept.flushAll_each (hR : Local R) (h : Kept m guards M) {walk : Walk}
    (hshard : ∀ {c : ShardConfig} {m : Mounted (Shard n) D} {guards : List (Guard n)},
      Shard.Kept c m.store m guards M → (Shard.flushAll walk).Ends m fun _ t => R m t) :
    (ShardedPool.flushAll (D := D) (n := n) (k := k) walk).Ends m fun _ m' => Each R m m' := by
  refine Op.ends_forM (I := fun _ m' => Kept m' guards M ∧ Each R m m') (fun i _ m' hm' => ?_)
    (fun _ hm' => hm'.2) _ _ ⟨h, fun _ => hR.refl _⟩
  obtain ⟨hkept, heach⟩ := hm'
  rw [ends_onShard]
  refine (((hkept.shard i).flushAll walk).and (hshard (hkept.shard i))).mono fun r t ht => ?_
  have hboth (j : Fin k) := hR.trans (heach j) (each_set hR ht.2 j)
  cases r using Checked.outcomes with
  | ok _ => exact ⟨hkept.same ht.1, hboth⟩
  | error e => exact hboth
  | abort a => exact hboth

end ShardedPool

namespace Pool

-- What becomes of the shard that is responsible for a page id, for every id.
def Each (R : Mounted (Shard n) D → Mounted (Shard n) D → Prop) (m m' : Mounted (Pool n) D) : Prop :=
  ∀ id, R ⟨m.pool.owner id, m.store⟩ ⟨m'.pool.owner id, m'.store⟩

theorem ends_onOwner (hR : Local R) {x : Op (Mounted (Shard n) D) α} {P : Checked α → Prop}
    {m : Mounted (Pool n) D} (id : PageId)
    (hx : x.Ends ⟨m.pool.owner id, m.store⟩ fun r t => P r ∧ R ⟨m.pool.owner id, m.store⟩ t) :
    (byShape x fun _ => ShardedPool.onOwner id x).Ends m fun r m' => P r ∧ Each R m m' := by
  rw [ends_byShape]
  obtain ⟨pool, store⟩ := m
  cases pool with
  | single s => exact hx.mono fun r t ht => ⟨ht.1, fun _ => ht.2⟩
  | sharded k p =>
    simp only [ShardedPool.onOwner, Op.ends_bind, Mounted.ends_observe, Op.then_ok,
      ShardedPool.ends_onShard]
    refine hx.mono fun r t ht => ⟨ht.1, fun other => ?_⟩
    exact ShardedPool.each_set (m := ⟨p, store⟩) hR ht.2 (p.shardOf other)

theorem each_onOwner (hR : Local R) {x : Op (Mounted (Shard n) D) α} {m : Mounted (Pool n) D}
    (id : PageId) (hx : x.Ends ⟨m.pool.owner id, m.store⟩ fun _ t => R ⟨m.pool.owner id, m.store⟩ t) :
    (byShape x fun _ => ShardedPool.onOwner id x).Ends m fun _ m' => Each R m m' :=
  (ends_onOwner hR (P := fun _ => True) id (hx.mono fun _ _ ht => ⟨trivial, ht⟩)).mono
    fun _ _ hm => hm.2

theorem each_write (hR : Local R) {m : Mounted (Pool n) D} (g : Guard n) (page : Page)
    (hshard : R ⟨m.pool.owner g.page, m.store⟩ ⟨(m.pool.owner g.page).write g page, m.store⟩) :
    Each R m ⟨m.pool.write g page, m.store⟩ := by
  obtain ⟨pool, store⟩ := m
  cases pool with
  | single s => exact fun _ => hshard
  | sharded k p =>
    intro id
    simp only [write, ShardedPool.write_eq]
    exact ShardedPool.each_set (m := ⟨p, store⟩) hR hshard (p.shardOf id)

-- A page is written in the shard that is responsible for it.
theorem owner_write (p : Pool n) (g : Guard n) (page : Page) :
    (p.write g page).owner g.page = (p.owner g.page).write g page := by
  cases p with
  | single s => rfl
  | sharded k p =>
    simp only [write, ShardedPool.write_eq]
    exact ShardedPool.get_set_self _ _ _

variable [PageStore D] [LawfulStore D] {m : Mounted (Pool n) D} {guards : List (Guard n)}
  {M : Memory}

-- The shard that is responsible for a page keeps the memory, under the guards of its pages.
theorem Kept.owner (h : Kept m guards M) (id : PageId) : ∃ c others,
    Shard.Kept c m.store ⟨m.pool.owner id, m.store⟩ others M ∧ (∀ g ∈ others, g ∈ guards) ∧
      ∀ g ∈ guards, g.page = id → g ∈ others := by
  have hshards := h.shards
  obtain ⟨pool, store⟩ := m
  cases pool with
  | single s =>
    obtain ⟨c, hc⟩ := hshards
    exact ⟨c, guards, hc, fun _ hg => hg, fun _ hg _ => hg⟩
  | sharded k p =>
    refine ⟨_, _, ShardedPool.Kept.shard hshards (p.shardOf id),
      fun g hg => List.mem_of_mem_filter hg, ?_⟩
    rintro g hg rfl
    simp [guardsOf, hg, ShardedPool.shardOf]

theorem Kept.allocate_each (hR : Local R) (h : Kept m guards M)
    (hshard : ∀ {c : ShardConfig} {m : Mounted (Shard n) D} {guards : List (Guard n)},
      Shard.Kept c m.store m guards M → Shard.allocate.Ends m fun _ t => R m t) :
    (Pool.allocate (D := D)).Ends m fun _ m' => Each R m m' := by
  have hshards := h.shards
  rw [Pool.allocate, ends_byShape]
  obtain ⟨pool, store⟩ := m
  cases pool with
  | single s =>
    obtain ⟨c, hc⟩ := hshards
    exact (hshard hc).mono fun _ _ ht _ => ht
  | sharded k p =>
    exact (ShardedPool.Kept.allocate_each hR hshards hshard).mono fun _ _ ht id =>
      ht (p.shardOf id)

theorem Kept.flushAll_each (hR : Local R) (h : Kept m guards M) {walk : Walk}
    (hshard : ∀ {c : ShardConfig} {m : Mounted (Shard n) D} {guards : List (Guard n)},
      Shard.Kept c m.store m guards M → (Shard.flushAll walk).Ends m fun _ t => R m t) :
    (Pool.flushAll (D := D) walk).Ends m fun _ m' => Each R m m' := by
  have hshards := h.shards
  rw [Pool.flushAll, ends_byShape]
  obtain ⟨pool, store⟩ := m
  cases pool with
  | single s =>
    obtain ⟨c, hc⟩ := hshards
    exact (hshard hc).mono fun _ _ ht _ => ht
  | sharded k p =>
    exact (ShardedPool.Kept.flushAll_each hR hshards hshard).mono fun _ _ ht id =>
      ht (p.shardOf id)

end Pool

end PagedIndex
