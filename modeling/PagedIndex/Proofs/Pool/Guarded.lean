import Mathlib.Data.Fintype.Fin
import PagedIndex.Proofs.Pool.Requests
import PagedIndex.Proofs.Pool.Unreliable

namespace PagedIndex

-- With room for some more guards, a call fails only in the ways that the pool may fail in.
class GuardedPool (σ : Type) (γ : outParam Type) [PagePool σ γ] where
  -- these guards are live on the pool
  Guards : σ → List γ → Prop
  -- so many more guards may be taken beside these
  Room : Nat → List γ → Prop
  Fails : StoreError → Prop
  room_le {left fewer : Nat} {guards : List γ} : fewer ≤ left → Room left guards →
    Room fewer guards
  room_cons {left : Nat} {guards : List γ} (g : γ) : Room (left + 1) guards → Room left (g :: guards)
  fails {e : StoreError} : e ≠ .poolFull → Fails e
  fetch_ends {s : σ} {guards : List γ} (h : Guards s guards) (hroom : Room 1 guards) (id : PageId)
    (access : Access) : (PagePool.fetch id access).Ends s <|
      Op.AnswersOr (fun _ => True) (fun g t => Guards t (g :: guards))
        fun e t => Fails e ∧ Guards t guards
  allocate_ends {s : σ} {guards : List γ} (h : Guards s guards) (hroom : Room 1 guards) :
    (PagePool.allocate (σ := σ)).Ends s <|
      Op.AnswersOr (fun _ => True) (fun g t => Guards t (g :: guards))
        fun e t => Fails e ∧ Guards t guards
  delete_ends {s : σ} {guards : List γ} (h : Guards s guards) (id : PageId) :
    (PagePool.delete id).Ends s <| Op.AnswersOr (fun _ => True) (fun _ t => Guards t guards)
      fun e t => Fails e ∧ Guards t guards
  write_guards {s : σ} {guards : List γ} (h : Guards s guards) (g : γ) (page : Page) :
    Guards (PagePool.write g page s) guards
  release_ends {s : σ} {guards : List γ} {g : γ} (h : Guards s (g :: guards)) :
    (PagePool.release g).Ends s fun _ t => Guards t guards

-- Whatever a pool is asked, its calls may be refused before they reach it.
abbrev Unreliable.guarded (σ : Type) {γ : Type} [PagePool σ γ] [GuardedPool σ γ] :
    GuardedPool (Unreliable σ) γ where
  Guards u := GuardedPool.Guards u.pool
  Room := GuardedPool.Room σ
  Fails _ := True
  room_le := GuardedPool.room_le
  room_cons := GuardedPool.room_cons
  fails _ := trivial
  fetch_ends {_ guards} h hroom id access := ends_call
    (F := fun _ s => True ∧ GuardedPool.Guards s guards) (GuardedPool.fetch_ends h hroom id access)
    (fun _ _ he => ⟨trivial, he.2⟩) fun _ _ => ⟨trivial, h⟩
  allocate_ends {_ guards} h hroom := ends_call
    (F := fun _ s => True ∧ GuardedPool.Guards s guards) (GuardedPool.allocate_ends h hroom)
    (fun _ _ he => ⟨trivial, he.2⟩) fun _ _ => ⟨trivial, h⟩
  delete_ends {_ guards} h id := ends_call
    (F := fun _ s => True ∧ GuardedPool.Guards s guards) (GuardedPool.delete_ends h id)
    (fun _ _ he => ⟨trivial, he.2⟩) fun _ _ => ⟨trivial, h⟩
  write_guards h g page := GuardedPool.write_guards h g page
  release_ends h := GuardedPool.release_ends h

-- The frames of these guards.
def framesUnder {n : Nat} (guards : List (Guard n)) : Finset (Fin n) :=
  (guards.map Guard.frame).toFinset

theorem card_framesUnder_cons {n : Nat} (g : Guard n) (guards : List (Guard n)) :
    (framesUnder (g :: guards)).card ≤ (framesUnder guards).card + 1 := by
  rw [framesUnder, List.map_cons, List.toFinset_cons]
  exact Finset.card_insert_le _ _

namespace Shard

variable {n : Nat} {c : ShardConfig} {s : Shard n} {guards : List (Guard n)}

-- The pins of a page, none if it is absent.
def pinCount (id : PageId) (s : Shard n) : Nat := (s.pins? id).getD 0

-- The frames that a page may be in, without a pin.
def unpinned (s : Shard n) : Finset (Fin n) :=
  Finset.univ.filter fun f => Numbered f ∧ (s.frame f).pins = 0

-- The frames that are free or hold a page without a pin.
def available (s : Shard n) : Finset (Fin n) :=
  Finset.univ.filter fun f => f ∈ s.free ∨ (s.frame f).page ≠ none ∧ (s.frame f).pins = 0

theorem card_numbered (n : Nat) :
    (Finset.univ.filter fun f : Fin n => Numbered f).card = n % frameNumberLimit := by
  simp only [Numbered]
  rw [Fin.card_filter_val_lt, Nat.min_eq_right (Nat.mod_le n _)]

namespace Sound

theorem pinned_iff (h : s.Sound c guards) (f : Fin n) :
    (s.frame f).pins ≠ 0 ↔ f ∈ framesUnder guards := by
  simp only [framesUnder, List.mem_toFinset, List.mem_map]
  constructor
  · intro hpins
    have hpage : (s.frame f).page ≠ none := fun hnone => hpins (h.unused f hnone).1
    obtain ⟨id, hid⟩ := Option.ne_none_iff_exists'.mp hpage
    rw [h.pins_eq f id hid, Ne, pinsOn_eq_zero, not_forall₂] at hpins
    obtain ⟨g, hg, hgid⟩ := hpins
    have hframe := (h.table_iff _ _).mp (h.guarded g hg)
    rw [not_not.mp hgid] at hframe
    exact ⟨g, hg, h.frame_of_page hframe hid⟩
  · rintro ⟨g, hg, rfl⟩
    have hframe := (h.table_iff _ _).mp (h.guarded g hg)
    rw [h.pins_eq _ _ hframe, Ne, pinsOn_eq_zero]
    exact fun hnone => hnone g hg rfl

theorem numbered_of_pinned (h : s.Sound c guards) {f : Fin n} (hf : f ∈ framesUnder guards) :
    Numbered f :=
  h.numbered f fun hpage => (h.pinned_iff f).mpr hf (h.unused f hpage).1

theorem unpinned_eq (h : s.Sound c guards) :
    s.unpinned = (Finset.univ.filter fun f => Numbered f) \ framesUnder guards := by
  ext f
  rw [unpinned, Finset.mem_filter, Finset.mem_sdiff, ← h.pinned_iff f, not_not, Finset.mem_filter,
    and_assoc]

theorem card_unpinned (h : s.Sound c guards) :
    s.unpinned.card + (framesUnder guards).card = n % frameNumberLimit := by
  rw [h.unpinned_eq, ← card_numbered n]
  refine Finset.card_sdiff_add_card_eq_card fun f hf => ?_
  exact Finset.mem_filter.mpr ⟨Finset.mem_univ f, h.numbered_of_pinned hf⟩

theorem available_eq (h : s.Sound c guards) : s.available = s.unpinned := by
  ext f
  simp only [available, unpinned, Finset.mem_filter, Finset.mem_univ, true_and]
  constructor
  · rintro (hfree | ⟨hpage, hpins⟩)
    · obtain ⟨hpage, hnumbered⟩ := (h.mem_free_iff f).mp hfree
      exact ⟨hnumbered, (h.unused f hpage).1⟩
    · exact ⟨h.numbered f hpage, hpins⟩
  · rintro ⟨hnumbered, hpins⟩
    rw [h.mem_free_iff]
    by_cases hpage : (s.frame f).page = none
    · exact Or.inl ⟨hpage, hnumbered⟩
    · exact Or.inr ⟨hpage, hpins⟩

theorem pinCount_eq (h : s.Sound c guards) (id : PageId) : pinCount id s = pinsOn id guards := by
  rw [pinCount, pins?, frameOf?]
  cases htable : s.table[id]? with
  | none => exact ((pinsOn_eq_zero id guards).mpr fun g hg => h.absent_page htable hg).symm
  | some f => exact h.pins_eq f id ((h.table_iff id f).mp htable)

-- A shard with room in its queue is full only if every frame that a page may be in has a guard.
theorem card_of_full (h : s.Sound c guards) (hroom : n ≤ c.queueCapacity) (hfull : s.Full) :
    (framesUnder guards).card = n % frameNumberLimit := by
  have hnone : s.unpinned = ∅ := by
    refine Finset.eq_empty_of_forall_notMem fun f hf => ?_
    obtain ⟨hnumbered, hpins⟩ := (Finset.mem_filter.mp hf).2
    have hpage : (s.frame f).page ≠ none := fun hnone => by
      have hfree := (h.mem_free_iff f).mpr ⟨hnone, hnumbered⟩
      rw [hfull.1] at hfree
      cases hfree
    have hqueued := h.evictable hroom f hpage hpins
    rw [hfull.2] at hqueued
    cases hqueued
  rw [← h.card_unpinned, hnone, Finset.card_empty, Nat.zero_add]

end Sound

end Shard

namespace PoolShape

variable {n : Nat}

-- Every shard has so many frames for pages without these guards.
def Spaces (left : Nat) (guards : List (Guard n)) (shape : PoolShape) : Prop :=
  ∀ i ∈ shape.indices,
    (framesUnder (shape.guardsIn i guards)).card + left ≤ n % Shard.frameNumberLimit

-- The queues have room for all frames.
def Roomy (n : Nat) (shape : PoolShape) : Prop :=
  ∀ i ∈ shape.indices, n ≤ (shape.config n i).queueCapacity

theorem Spaces.cons {shape : PoolShape} {left : Nat} {guards : List (Guard n)} (g : Guard n)
    (h : shape.Spaces (left + 1) guards) : shape.Spaces left (g :: guards) := by
  intro i hi
  have hspaces := h i hi
  have hcard : (framesUnder (shape.guardsIn i (g :: guards))).card ≤
      (framesUnder (shape.guardsIn i guards)).card + 1 := by
    cases shape with
    | single queueCapacity index count => exact card_framesUnder_cons g guards
    | sharded count =>
      by_cases hmod : g.page.number.toNat % count = i
      · rw [guardsIn, guardsOf_cons_self hmod]
        exact card_framesUnder_cons g _
      · rw [guardsIn, guardsOf_cons_of_ne rfl (Ne.symm hmod)]
        exact Nat.le_succ _
  omega

end PoolShape

namespace Pool

variable {n : Nat} {D : Type} [PageStore D] [LawfulStore D] {m m' : Mounted (Pool n) D}
  {shape : PoolShape} {guards : List (Guard n)} {next next' : Nat → Nat}

namespace Steady

-- The guards tell the pins of every page and the frames that are left.
theorem pinCounts_eq (h : Steady shape guards next m) (id : PageId) :
    m.pool.shards.map (Shard.pinCount id) = shape.indices.map fun i =>
      pinsOn id (shape.guardsIn i guards) :=
  h.map_shards _ _ fun _ _ _ hs => hs.sound.pinCount_eq id

theorem available_eq (h : Steady shape guards next m) :
    m.pool.shards.map (fun s => s.available.card) = shape.indices.map fun i =>
      n % Shard.frameNumberLimit - (framesUnder (shape.guardsIn i guards)).card := by
  refine h.map_shards _ _ fun s i _ hs => ?_
  rw [hs.sound.available_eq, ← hs.sound.card_unpinned, Nat.add_sub_cancel]

-- Where some frames are left unpinned, there is room for as many guards.
theorem spaces (h : Steady shape guards next m) {left : Nat}
    (hleft : ∀ s ∈ m.pool.shards, left ≤ s.unpinned.card) : shape.Spaces left guards := by
  have hcards : m.pool.shards.map (fun s => n % Shard.frameNumberLimit - s.unpinned.card) =
      shape.indices.map fun i => (framesUnder (shape.guardsIn i guards)).card :=
    h.map_shards _ _ fun s i _ hs => by rw [← hs.sound.card_unpinned, Nat.add_sub_cancel_left]
  intro i hi
  have hmem : (framesUnder (shape.guardsIn i guards)).card ∈
      m.pool.shards.map (fun s => n % Shard.frameNumberLimit - s.unpinned.card) :=
    hcards ▸ List.mem_map.mpr ⟨i, hi, rfl⟩
  obtain ⟨s, hs, hcard⟩ := List.mem_map.mp hmem
  have hs' := hleft s hs
  obtain ⟨i', _, hshard⟩ := h.shard hs
  have hle : s.unpinned.card ≤ n % Shard.frameNumberLimit :=
    Nat.le.intro hshard.sound.card_unpinned
  omega

theorem roomy (h : Steady shape guards next m)
    (hqueues : ∀ s ∈ m.pool.shards, n ≤ s.queue.capacity) : shape.Roomy n := by
  have hcapacities : m.pool.shards.map (fun s => s.queue.capacity) =
      shape.indices.map fun i => (shape.config n i).queueCapacity :=
    h.map_shards _ _ fun s i _ hs => hs.sound.capacity_eq
  intro i hi
  have hmem : (shape.config n i).queueCapacity ∈ m.pool.shards.map (fun s => s.queue.capacity) :=
    hcapacities ▸ List.mem_map.mpr ⟨i, hi, rfl⟩
  obtain ⟨s, hs, hcapacity⟩ := List.mem_map.mp hmem
  exact hcapacity ▸ hqueues s hs

-- A pool is not called full as long as every shard has a frame without a guard.
theorem explains_ne_poolFull (h : Steady shape guards next m) (hroomy : shape.Roomy n)
    (hstore : ¬ LawfulStore.Gives D .poolFull) (hspaces : shape.Spaces 1 guards) {e : StoreError}
    (he : Explains m e) : e ≠ .poolFull := by
  intro hfull
  rcases he hfull with hgives | ⟨s, hs, hshardFull⟩
  · exact hstore hgives
  · obtain ⟨i, hi, hshard⟩ := h.shard hs
    have hcard := hshard.sound.card_of_full (hroomy i hi) hshardFull
    have hspace := hspaces i hi
    omega

end Steady

-- As a pool that may fail in any way.
abbrev guarded (shape : PoolShape) (n : Nat) (D : Type) [PageStore D] [LawfulStore D] :
    GuardedPool (Mounted (Pool n) D) (Guard n) where
  Guards m guards := ∃ next, Steady shape guards next m
  Room _ _ := True
  Fails _ := True
  room_le _ _ := trivial
  room_cons _ _ := trivial
  fails _ := trivial
  fetch_ends h _ id access := by
    obtain ⟨next, h⟩ := h
    refine (h.fetch id access).mono fun _ _ ht => ?_
    exact ht.answersOr trivial (fun _ hg => ⟨next, hg⟩) fun _ he => ⟨trivial, next, he.2⟩
  allocate_ends h _ := by
    obtain ⟨next, h⟩ := h
    refine h.allocate.mono fun _ _ ht => ?_
    exact ht.answersOr trivial (fun _ ⟨_, _, _, hg⟩ => ⟨_, hg⟩) fun _ he => ⟨trivial, next, he.2⟩
  delete_ends h id := by
    obtain ⟨next, h⟩ := h
    refine (h.delete id).mono fun _ _ ht => ?_
    exact ht.answersOr trivial (fun _ hb => ⟨next, hb⟩) fun _ he => ⟨trivial, next, he.2⟩
  write_guards h g page := h.imp fun _ h => h.write g page
  release_ends h := by
    obtain ⟨next, h⟩ := h
    exact h.release.mono fun _ _ ht => ⟨next, ht.2⟩

-- As a pool that is not full as long as every shard has a frame without a guard.
abbrev unfilled {shape : PoolShape} (hroomy : shape.Roomy n)
    (hstore : ¬ LawfulStore.Gives D .poolFull) : GuardedPool (Mounted (Pool n) D) (Guard n) where
  Guards m guards := ∃ next, Steady shape guards next m
  Room left guards := shape.Spaces left guards
  Fails e := e ≠ .poolFull
  room_le hle h i hi := (Nat.add_le_add_left hle _).trans (h i hi)
  room_cons g h := h.cons g
  fails he := he
  fetch_ends h hspaces id access := by
    obtain ⟨next, h⟩ := h
    refine (h.fetch id access).mono fun _ _ ht => ?_
    exact ht.answersOr trivial (fun _ hg => ⟨next, hg⟩) fun _ he =>
      ⟨h.explains_ne_poolFull hroomy hstore hspaces he.1, next, he.2⟩
  allocate_ends h hspaces := by
    obtain ⟨next, h⟩ := h
    refine h.allocate.mono fun _ _ ht => ?_
    exact ht.answersOr trivial (fun _ ⟨_, _, _, hg⟩ => ⟨_, hg⟩) fun _ he =>
      ⟨h.explains_ne_poolFull hroomy hstore hspaces he.1, next, he.2⟩
  delete_ends h id := by
    obtain ⟨next, h⟩ := h
    refine (h.delete id).mono fun _ _ ht => ?_
    exact ht.answersOr trivial (fun _ hb => ⟨next, hb⟩) fun _ he =>
      ⟨fun hfull => hstore (hfull ▸ he.1), next, he.2⟩
  write_guards h g page := h.imp fun _ h => h.write g page
  release_ends h := by
    obtain ⟨next, h⟩ := h
    exact h.release.mono fun _ _ ht => ⟨next, ht.2⟩

end Pool

end PagedIndex
