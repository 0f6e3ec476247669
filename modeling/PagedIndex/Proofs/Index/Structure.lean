import PagedIndex.Proofs.Index.Supply

namespace PagedIndex

-- Slots share a bucket exactly if they look at the same bits and agree in them.
structure Directory.WellFormed (d : Directory) : Prop where
  depth_le : d.depth ≤ maxDepth
  depthAt_le (i : Nat) : i < d.size → d.depthAt i ≤ d.depth
  deepest : ∃ i < d.size, d.depthAt i = d.depth
  shared_iff (i j : Nat) : i < d.size → j < d.size → (d.bucketAt i = d.bucketAt j ↔
    d.depthAt i = d.depthAt j ∧ lowBits (d.depthAt i) i = lowBits (d.depthAt i) j)
  vacant (i : Nat) : d.size ≤ i → i < slotCount → d.slot i = ⟨PageId.invalid, 0⟩

theorem Directory.Partitioned.wellFormed {d : Directory} (h : d.Partitioned) (htight : d.Tight)
    (hvacant : d.Vacant) : d.WellFormed := by
  refine ⟨h.depth_le, h.depthAt_le, htight, fun i j hi hj => ?_, fun i hi _ => hvacant i hi⟩
  constructor
  · intro hbucket
    exact ⟨h.depthAt_eq hi hj hbucket, ((h.same_iff i j hi hj).mp hbucket.symm).symm⟩
  · rintro ⟨_, hlow⟩
    exact ((h.same_iff i j hi hj).mpr hlow.symm).symm

variable {K V : Type} [FixedWidth K] [FixedWidth V]

-- The bitmaps of a bucket. Slots are counted as far as the bitmaps go.
structure Bucket.WellFormed (b : Bucket K V) : Prop where
  packed : ∃ m ≤ b.capacity, ∀ i < 8 * b.bitmapSize, b.occupied i ↔ i < m
  occupied_of_readable (i : Nat) : i < 8 * b.bitmapSize → b.readable i → b.occupied i
  blank : (∀ i < 8 * b.bitmapSize, ¬ b.readable i) → ∀ i < 8 * b.bitmapSize, ¬ b.occupied i

-- A readable slot has one of the live pairs.
theorem Bucket.Packed.pair_mem {b : Bucket K V} {m : Nat} (h : b.Packed m) {i : Nat}
    (hi : i < 8 * b.bitmapSize) (hreadable : b.readable i) :
    (b.keyAt i, b.valueAt i) ∈ b.entries := by
  refine List.mem_map.mpr ⟨i, ?_, rfl⟩
  rw [h.liveSlots_eq, List.mem_filter, List.mem_range]
  exact ⟨h.lt_of_readable i hi hreadable, hreadable⟩

theorem Bucket.Packed.wellFormed {b : Bucket K V} {m : Nat} (h : b.Packed m)
    (hblank : b.entries = [] → m = 0) : b.WellFormed := by
  have hoccupied (i : Nat) (hi : i < 8 * b.bitmapSize) : b.occupied i ↔ i < m := by
    rw [h.occupied_eq i hi, decide_eq_true_iff]
  refine ⟨⟨m, h.le_capacity, hoccupied⟩, fun i hi hreadable => ?_, fun hnone i hi => ?_⟩
  · exact (hoccupied i hi).mpr (h.lt_of_readable i hi hreadable)
  · have hempty : b.entries = [] := by
      rw [entries, List.map_eq_nil_iff, h.liveSlots_eq, List.filter_eq_nil_iff]
      exact fun j hj => hnone j (h.lt_bits (List.mem_range.mp hj))
    rw [hoccupied i hi, hblank hempty]
    exact Nat.not_lt_zero i

namespace HashIndex

-- The pages that the live slots name are buckets of keys that are sent to them.
def WellStored (t : HashIndex K V) (M : Memory) : Prop :=
  ∃ page, M t.directory = some page ∧
    let d := Directory.ofPage page
    d.WellFormed ∧ ∀ i < d.size, ∃ page b, M (d.bucketAt i) = some page ∧
      (Bucket.view page t.capacity : Checked (Bucket K V)) = .ok b ∧ b.WellFormed ∧
      ∀ j < 8 * b.bitmapSize, b.readable j → d.owner (t.hash (b.keyAt j)) = d.bucketAt i

variable [DecidableEq V] {t : HashIndex K V} {pairs : List (K × V)} {d : Directory}

theorem Represents.wellStored {w : Ledger} (h : t.Represents w.sheets d pairs) :
    t.WellStored w.memory := by
  obtain ⟨p, hp, rfl⟩ := h.directory
  have hpart := h.routes.partitioned
  refine ⟨p, Ledger.memory_of_written hp, hpart.wellFormed h.routes.tight h.routes.vacant,
    fun i hi => ?_⟩
  obtain ⟨b, m, hb⟩ := h.routes.stores_slot hi
  refine ⟨b.page, b, Ledger.memory_of_written hb.page_eq, ?_, hb.packed.wellFormed ?_,
    fun j hj hreadable => ?_⟩
  · rw [← hb.capacity_eq]
    exact b.view_eq
  · rw [hb.entries_eq]
    exact hb.blank
  · have hmem := hb.packed.pair_mem hj hreadable
    rw [hb.entries_eq] at hmem
    exact of_decide_eq_true (List.mem_filter.mp hmem).2

variable [RoundTrip K] [RoundTrip V] {n : Nat} {D : Type} [PageStore D] [LawfulStore D]
  {guards : List (Guard n)} {u : UnreliablePool n D}

-- Keys that compare as equal may have different hashes here, and any calls of the pool may have
-- failed.
theorem reached_wellStored (h : Reached guards t u pairs) (name : String) :
    t.WellStored (Pool.contents u.pool) ∧
      (({ t with name } : HashIndex K V).verify : Op (UnreliablePool n D) Unit).Ends u
        fun r _ => ∀ c, r ≠ .error (.error (.corrupted c)) := by
  obtain ⟨M, pairs', hkept, hholds, _⟩ := h.holds
  constructor
  · obtain ⟨d, hrepresents, _⟩ := hholds
    rw [Pool.Kept.contents_eq hkept]
    exact hrepresents.wellStored
  · refine (verify_does (hholds.rename name) u hkept).mono fun r u' hr c hc => ?_
    subst hc
    obtain ⟨_, _, hrefused, _⟩ := hr
    exact hrefused trivial

-- The last insertion splits as often as there are bits to look at, and fails.
theorem reached_wellStored_full :
    let u := narrowIndex.after [.insert 0 7, .insert 1 8, .insert 512 9] (narrowStart 128)
    let handle : HashIndex UInt32 UInt32 := { narrowIndex with name := "handle" }
    Reached [] narrowIndex u [(0, 7), (1, 8)] ∧ narrowIndex.WellStored (Pool.contents u.pool) ∧
      (handle.verify : Op (UnreliablePool 128 MemoryStore) Unit).Ends u
        fun r _ => ∀ c, r ≠ .error (.error (.corrupted c)) := by
  intro u handle
  have hreached : Reached [] narrowIndex u [(0, 7), (1, 8)] := reached_narrowIndex
    [.insert 0 7, .insert 1 8, .insert 512 9] (by decide) (by simp [IndexCall.Legal])
  -- the calls are not to be computed
  clear_value u
  exact ⟨hreached, reached_wellStored hreached "handle"⟩

end HashIndex

end PagedIndex
