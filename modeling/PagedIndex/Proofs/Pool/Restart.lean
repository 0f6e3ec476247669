import PagedIndex.Proofs.Pool.Flushing
import PagedIndex.Proofs.Pool.Resting

namespace PagedIndex

namespace Pool

variable {n : Nat} {D : Type} [PageStore D] [LawfulStore D] {m : Mounted (Pool n) D} {w : Ledger}

-- A clean page that is under no guard is saved.
theorem Kept.not_unsaved {M : Memory} (h : Kept m [] M) {id : PageId}
    (hclean : (m.pool.owner id).isDirty? id ≠ some true) : ¬ (m.pool.owner id).Unsaved id := by
  rintro ⟨f, hpage, hdirty | hwritten⟩
  · obtain ⟨c, hs⟩ := h.owner_tabled id
    refine hclean ?_
    simp [Shard.isDirty?, Shard.frameOf?, (hs.table_iff id f).mpr hpage, hdirty]
  · obtain ⟨c, others, hk, hsub, _⟩ := h.owner id
    exact (hk.backed.caches.shows f id hpage).not_written
      (fun g hg _ => absurd (hsub g hg) List.not_mem_nil) hwritten

-- The store has every page that was written, and counts it.
def Stored (d : D) (w : Ledger) : Prop := ∀ id p, w.sheets id = some (.written p) →
  LawfulStore.page d id = p ∧ id.number < LawfulStore.count d

theorem Kept.flushAll_stored [GrowingStore D] (h : Kept m [] w.memory) (hw : Recorded m w)
    (walk : Walk) :
    (Pool.flushAll (D := D) walk).Ends m fun r m' => r = .ok () →
      GrowingStore.Counted m'.store ∧ Stored m'.store w := by
  refine Op.Ends.mono ((h.flushAll walk).and ((h.flushAll_cleaned walk).and (h.flushAll_saves walk)))
    fun r m' hm' => ?_
  rintro rfl
  obtain ⟨hkept, hcleaned, hsaves⟩ := hm'
  have hrecorded := hw.after hsaves
  refine ⟨hrecorded.counted, fun id p hp => ?_⟩
  have hfree : ¬ Writing ([] : List (Guard n)) id := fun ⟨_, hg, _⟩ => List.not_mem_nil hg
  have hclean : (m'.pool.owner id).isDirty? id ≠ some true := by
    rw [hcleaned.clean id hfree]
    simp
  exact ⟨hkept.stored (Ledger.memory_of_written hp) hfree hclean,
    (hrecorded.written hp).resolve_left (hkept.not_unsaved hclean)⟩

end Pool

-- A store as it is found again: with the same pages, and no call fails any more.
structure Restores {D D' : Type} [PageStore D] [LawfulStore D] [PageStore D'] [LawfulStore D']
    [ReliableStore D'] (d : D) (d' : D') : Prop where
  sound : LawfulStore.Sound d'
  reliable : ReliableStore.Reliable d'
  page_eq : LawfulStore.page d' = LawfulStore.page d
  count_eq : LawfulStore.count d' = LawfulStore.count d

-- A store of which no call fails is found as it was left.
theorem Restores.same {D : Type} [PageStore D] [LawfulStore D] [ReliableStore D] {d : D}
    (hsound : LawfulStore.Sound d) (hreliable : ReliableStore.Reliable d) : Restores d d :=
  ⟨hsound, hreliable, rfl, rfl⟩

namespace PoolShape

-- A shape that is responsible for all ids, with room in the queues for all frames.
def Complete (n : Nat) : PoolShape → Prop
  | single queueCapacity index count => n ≤ queueCapacity ∧ index = 0 ∧ count = 1
  | sharded _ => True

theorem Complete.serves {n : Nat} {shape : PoolShape} (h : shape.Complete n) (id : PageId) :
    shape.Serves id := by
  cases shape with
  | single queueCapacity index count =>
    obtain ⟨_, rfl, rfl⟩ := h
    exact Nat.mod_one _
  | sharded count => trivial

variable {n : Nat} {D : Type} [PageStore D] [LawfulStore D] [ReliableStore D]

theorem Initial.rested {shape : PoolShape} {d d' : D} {pool : Pool n}
    (h : shape.Initial (LawfulStore.count d).toNat pool) (hcomplete : shape.Complete n)
    (hpos : 0 < n % Shard.frameNumberLimit) (hd' : ReliableStore.Reliable d')
    (hcount : LawfulStore.count d' = LawfulStore.count d) :
    Pool.Rested ⟨pool, d'⟩ (shape.memory d) := by
  have howner (id : PageId) : ∃ queueCapacity index count next, n ≤ queueCapacity ∧
      pool.owner id = Shard.initial n queueCapacity index count next := by
    cases shape with
    | single queueCapacity index count =>
      obtain ⟨_, rfl⟩ := h
      exact ⟨_, _, _, _, hcomplete.1, rfl⟩
    | sharded count =>
      obtain ⟨shards, pos, rfl, hshards⟩ := h
      exact ⟨_, _, _, _, le_refl n, hshards _⟩
  constructor
  case reliable => exact hd'
  case clean =>
    intro id f
    obtain ⟨_, _, _, _, _, heq⟩ := howner id
    simp [heq, Frame.Unsaved, Frame.empty]
  case roomy =>
    intro id
    obtain ⟨queueCapacity, _, _, _, hroom, heq⟩ := howner id
    rw [heq]
    exact ⟨hpos, hroom⟩
  case counted =>
    intro id p hp
    rw [hcount]
    exact lt_count hp

-- A new pool over the store has all its pages and refuses none of them.
theorem create_restored {D₀ : Type} [PageStore D₀] [LawfulStore D₀] [GrowingStore D₀] {d₀ : D₀}
    {w : Ledger} (hcounted : GrowingStore.Counted d₀) (hstored : Pool.Stored d₀ w)
    {shape : PoolShape} (hcomplete : shape.Complete n) (hpos : 0 < n % Shard.frameNumberLimit) {d : D}
    (hd : Restores d₀ d) {pool : Pool n} (hpool : (shape.create n d).result = .ok pool) :
    let m : Mounted (Pool n) D := ⟨pool, (shape.create n d).state⟩
    Pool.Kept m [] (shape.memory d) ∧ Pool.Rested m (shape.memory d) ∧
      ∀ id p, w.sheets id = some (.written p) → shape.memory d id = some p := by
  have hends := shape.create_ends (n := n) (ReliableStore.pageCount_answers (D := D)) hd.sound
    hd.reliable
  rw [Op.Ends, hpool] at hends
  obtain ⟨hinitial, hreliable, hsound, hpage, hcount⟩ := hends
  have hzero (id : PageId) (hid : LawfulStore.count d ≤ id.number) :
      LawfulStore.page d id = Page.zero := by
    rw [hd.page_eq]
    exact GrowingStore.page_eq_zero hcounted (hd.count_eq ▸ hid)
  refine ⟨hinitial.kept hzero hsound hpage, hinitial.rested hcomplete hpos hreliable hcount,
    fun id p hp => ?_⟩
  obtain ⟨hid, hless⟩ := hstored id p hp
  rw [memory, if_pos ⟨hcomplete.serves id, hd.count_eq ▸ hless⟩, hd.page_eq, hid]

end PoolShape

end PagedIndex
