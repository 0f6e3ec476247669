import PagedIndex.Proofs.Index.Inspection
import PagedIndex.Proofs.Index.Removal

namespace PagedIndex

-- The directory after `n` steps of merging from slot `s`, where `Empty` tells which pages are empty.
structure Directory.MergesTo (d : Directory) (Empty : PageId → Prop) (s n : Nat) (d' : Directory) :
    Prop where
  partitioned : d'.Partitioned
  tight : d'.Tight
  owner_eq (hash : UInt32) : ¬ Empty (d.owner hash) → d'.owner hash = d.owner hash
  -- there are no buckets but those from before
  kept (hash : UInt32) : ∃ other, d'.owner hash = d.owner other
  depthOf_le (a : Nat) : d'.depthOf a ≤ d.depthOf a
  -- every step lowers the depth at the slot
  depthOf_add_le : d'.depthOf s + n ≤ d.depthOf s

namespace Directory

variable {d d' d'' : Directory} {Empty : PageId → Prop} {s n : Nat}

theorem MergesTo.zero (h : d.Partitioned) (htight : d.Tight) : d.MergesTo Empty s 0 d :=
  ⟨h, htight, fun _ _ => rfl, fun hash => ⟨hash, rfl⟩, fun _ => Nat.le_refl _, Nat.le_refl _⟩

-- A step comes first, and the merging goes on at the first slot of the merged bucket.
theorem Joins.mergesTo {m : Nat} {old new : PageId} (hjoins : d.Joins Empty s n old new d')
    (h : d.Partitioned) (hrest : d'.MergesTo Empty (lowBits n s) m d'') :
    d.MergesTo Empty s (m + 1) d'' := by
  obtain ⟨hmergeable, hempty, hshrunk⟩ := hjoins
  have howner := owner_merged h hmergeable hshrunk
  have hdepthOf := depthOf_merged h hmergeable hshrunk
  have hslot : d.depthOf s = n + 1 := (depthOf_of_lt hmergeable.slot_lt).trans hmergeable.depth_slot
  refine ⟨hrest.partitioned, hrest.tight, fun hash hfilled => ?_, fun hash => ?_, fun a => ?_, ?_⟩
  · have hstays : d'.owner hash = d.owner hash := by
      rw [howner, if_neg]
      rintro rfl
      exact hfilled hempty
    rw [hrest.owner_eq hash (hstays ▸ hfilled), hstays]
  · obtain ⟨other, hother⟩ := hrest.kept hash
    obtain ⟨first, hfirst⟩ := owner_merged_eq h hmergeable hshrunk other
    exact ⟨first, hother.trans hfirst⟩
  · refine (hrest.depthOf_le a).trans ?_
    rw [hdepthOf]
    split
    · rename_i hlow
      rw [h.depthOf_of_mergeable hmergeable hlow]
      exact Nat.le_succ n
    · exact Nat.le_refl _
  · have hfirst : d'.depthOf (lowBits n s) = n := by
      rw [hdepthOf, if_pos (lowBits_lowBits (Nat.le_refl n) s)]
    have hle := hrest.depthOf_add_le
    have hbits := hrest.depthOf_le (lowBits n s)
    have hsame : d''.depthOf s = d''.depthOf (lowBits n s) :=
      hrest.partitioned.depthOf_eq (lowBits_lowBits (hbits.trans_eq hfirst) s).symm
    omega

end Directory

namespace HashIndex

open PagePool

variable {K V : Type} [FixedWidth K] [FixedWidth V] {t : HashIndex K V} {d d' : Directory} {s n : Nat}

-- No slot of the page is occupied, live or not.
def Unoccupied (t : HashIndex K V) (M : Memory) (id : PageId) : Prop :=
  ∀ b : Bucket K V, Bucket.view ((M id).getD Page.zero) t.capacity = .ok b →
    ∀ i < 8 * b.bitmapSize, b.occupied i = false

section Steps

variable {σ γ : Type} [PagePool σ γ]

-- The steps of merging, one after the other, until one of them leaves the directory as it is.
inductive Merges (t : HashIndex K V) : σ → Directory → Nat → Nat → σ → Directory → Nat → Prop
  | settled {v : σ} {d : Directory} {s : Nat} :
      (t.mergeStep d s v).result = .ok none → Merges t v d s 0 (t.mergeStep d s v).state d s
  | failed {v : σ} {d : Directory} {s : Nat} {e : StoreError} :
      (t.mergeStep d s v).result = .error (.error e) →
      Merges t v d s 0 (t.mergeStep d s v).state d s
  | merged {v v' : σ} {d d' d'' : Directory} {s next n last : Nat} :
      (t.mergeStep d s v).result = .ok (some (d', next)) →
      Merges t (t.mergeStep d s v).state d' next n v' d'' last →
      Merges t v d s (n + 1) v' d'' last

-- The bound on the number of steps does not matter if it is not reached.
theorem Merges.mergeWithin_ends {v v' : σ} {last : Nat} (h : t.Merges v d s n v' d' last)
    {bound : Nat} (hn : n < bound) (changed : Bool) :
    (t.mergeWithin bound changed d s).Ends v fun r u =>
      r = .ok (d', changed || decide (n ≠ 0)) ∧ u = v' := by
  induction h generalizing bound changed with
  | settled hstep =>
    obtain ⟨bound, rfl⟩ := Nat.exists_eq_add_of_lt hn
    rw [mergeWithin, Op.ends_bind, Op.ends_attempt, Op.Ends, hstep]
    exact ⟨congrArg (fun b => Except.ok (_, b)) (Bool.or_false changed).symm, rfl⟩
  | failed hstep =>
    obtain ⟨bound, rfl⟩ := Nat.exists_eq_add_of_lt hn
    rw [mergeWithin, Op.ends_bind, Op.ends_attempt, Op.Ends, hstep]
    exact ⟨congrArg (fun b => Except.ok (_, b)) (Bool.or_false changed).symm, rfl⟩
  | @merged v v' d d₁ d' s next n last hstep _ ih =>
    obtain ⟨bound, rfl⟩ := Nat.exists_eq_add_of_lt hn
    rw [mergeWithin, Op.ends_bind, Op.ends_attempt, Op.Ends, hstep]
    have hrest := ih (show n < n + 1 + bound by omega) true
    rw [Bool.true_or] at hrest
    rw [decide_eq_true (Nat.succ_ne_zero n), Bool.or_true]
    exact hrest

theorem Merges.eq_of_zero {v v' : σ} {last : Nat} (h : t.Merges v d s 0 v' d' last) : d' = d := by
  cases h <;> rfl

-- On a pool that does not abort the merging comes to an end, as long as it is found out which buckets
-- are empty.
theorem merges_of_empties [ReadablePool σ γ] [SheddingPool σ γ] {guards : List γ} {w : Ledger}
    (hspent : ∀ v : σ, ¬ ReadablePool.Spent v) {v : σ} (hv : ReadablePool.Kept v guards w)
    (h : d.Partitioned) (htight : d.Tight) (hs : s < d.size) {Empty : PageId → Prop}
    (hempty : ∀ hash, Does guards w (t.isEmptyBucket (d.owner hash) : Op σ Bool)
      (fun empty w' => (empty ↔ Empty (d.owner hash)) ∧ w' = w) (Refused (σ := σ) guards w)) :
    ∃ n v' w' d' last, t.Merges v d s n v' d' last ∧ d.MergesTo Empty s n d' ∧
      ReadablePool.Kept v' guards w' ∧ w'.sheets = w.sheets ∧
      (w'.refusals = w.refusals → d'.Settled Empty last) := by
  -- every step lowers the depth
  induction hdepth : d.depthOf s using Nat.strongRecOn generalizing d s v with | ind depth ih =>
  have hslots (i : Nat) (hi : i < d.size) : Does guards w (t.isEmptyBucket (d.bucketAt i) : Op σ Bool)
      (fun empty w' => (empty ↔ Empty (d.bucketAt i)) ∧ w' = w) (Refused (σ := σ) guards w) := by
    obtain ⟨hash, rfl⟩ := h.exists_hash hi
    exact hempty hash
  have hends := mergeStep_steps h hs hslots v hv
  rw [Op.Ends] at hends
  cases hstep : (t.mergeStep d s v).result using Checked.outcomes with
  | ok merged =>
    rw [hstep] at hends
    obtain ⟨_, hkept, hsteps, rfl⟩ := hends
    cases merged with
    | none => exact ⟨0, _, _, d, s, .settled hstep, .zero h htight, hkept, rfl, fun _ => hsteps⟩
    | some joined =>
      obtain ⟨d₁, next⟩ := joined
      obtain ⟨n, old, new, hjoins, rfl⟩ := hsteps
      have hshrunk := hjoins.shrunk
      have hlow : d₁.depthOf (Directory.lowBits n s) < depth := by
        rw [Directory.depthOf_merged h hjoins.mergeable hshrunk,
          if_pos (Directory.lowBits_lowBits (Nat.le_refl n) s), ← hdepth,
          Directory.depthOf_of_lt hs, hjoins.mergeable.depth_slot]
        exact Nat.lt_succ_self n
      obtain ⟨m, v', w', d', last, hmerges, hmergesTo, hrest⟩ := ih _ hlow hkept hshrunk.partitioned
        hshrunk.tight (Directory.first_merged h hjoins.mergeable hshrunk) (fun hash => by
          obtain ⟨other, hother⟩ := Directory.owner_merged_eq h hjoins.mergeable hshrunk hash
          exact hother ▸ hempty other) rfl
      exact ⟨m + 1, v', w', d', last, .merged hstep hmerges, hjoins.mergesTo h hmergesTo, hrest⟩
  | error e =>
    rw [hstep] at hends
    obtain ⟨w', hkept, -, rfl, -⟩ := hends
    exact ⟨0, _, _, d, s, .failed hstep, .zero h htight, hkept, rfl,
      fun hsame => absurd hsame (Nat.succ_ne_self _)⟩
  | abort a =>
    rw [hstep] at hends
    exact absurd hends (hspent _)

variable [ReadablePool σ γ] [ProbedPool σ γ] {guards : List γ} {w : Ledger}

theorem isEmptyBucket_finds (haccepted : t.Accepted) {id : PageId}
    (hjoins : Joins σ (ReadablePool.access σ) guards id .shared) :
    Does guards w (t.isEmptyBucket id : Op σ Bool)
      (fun empty w' => (empty ↔ t.Unoccupied w.memory id) ∧ w' = w) (Refused (σ := σ) guards w) := by
  refine Does.withSharedPage hjoins (fun g p hpage hp => ?_) fun _ _ he => he
  obtain ⟨b, hview, rfl, hcapacity⟩ := haccepted.view (K := K) (V := V) p
  refine (does_readBucket hcapacity List.mem_cons_self (hpage ▸ hp) ⟨rfl, rfl⟩).step ?_
  refine does_pure ⟨?_, rfl⟩
  rw [b.isEmpty_iff, Unoccupied, hp, Option.getD_some, hview]
  exact ⟨fun h b' heq => Except.ok.inj heq ▸ h, fun h => h b rfl⟩

-- The buckets may hold anything.
theorem exists_merges [SheddingPool σ γ] (hspent : ∀ v : σ, ¬ ReadablePool.Spent v)
    (haccepted : t.Accepted) {v : σ} (hv : ReadablePool.Kept v guards w) (h : d.Partitioned)
    (htight : d.Tight) (hs : s < d.size)
    (hjoins : ∀ hash, Joins σ (ReadablePool.access σ) guards (d.owner hash) .shared) :
    ∃ n v' w' d' last, t.Merges v d s n v' d' last ∧ d.MergesTo (t.Unoccupied w.memory) s n d' ∧
      ReadablePool.Kept v' guards w' ∧ w'.memory = w.memory ∧
      (w'.refusals = w.refusals → d'.Settled (t.Unoccupied w.memory) last) := by
  obtain ⟨n, v', w', d', last, hmerges, hmergesTo, hkept, hsheets, hsettled⟩ :=
    merges_of_empties hspent hv h htight hs fun hash => isEmptyBucket_finds haccepted (hjoins hash)
  have hmemory : w'.memory = w.memory := congrArg (fun S id => (S id).map Sheet.page) hsheets
  exact ⟨n, v', w', d', last, hmerges, hmergesTo, hkept, hmemory, hsettled⟩

end Steps

section Runs

variable {n : Nat} {D : Type} [PageStore D] [LawfulStore D] {guards : List (Guard n)}
  {u : UnreliablePool n D} {M : Memory}

-- Merging does not fail, whatever the buckets hold and whichever pages are refused. It takes no more
-- steps than the bucket at the slot has bits to look at, and says whether it took one.
theorem merge_settles (h : Pool.Reached n u.pool guards M) (haccepted : t.Accepted)
    (hpart : d.Partitioned) (htight : d.Tight) (hs : s < d.size)
    (hshared : ∀ g ∈ guards, ∀ i < d.size, g.page = d.bucketAt i →
      g.access = .shared ∧ ¬ Crowded g.page guards) :
    let start : Tallied (UnreliablePool n D) := ⟨u, 0⟩
    let ended := (t.merge d s : Op _ (Directory × Bool)) start
    ∃ steps d' changed last, t.Merges start d s steps ended.state d' last ∧
      steps ≤ d.depthAt s ∧
      ended.result = .ok (d', changed) ∧ (changed = true ↔ d' ≠ d) ∧
      d'.Partitioned ∧ d'.Tight ∧
      (∀ hash, ¬ t.Unoccupied M (d.owner hash) → d'.owner hash = d.owner hash) ∧
      Pool.contents ended.state.pool.pool = M ∧
      (ended.state.refusals = 0 → d'.Settled (t.Unoccupied M) last) := by
  intro start ended
  let w : Ledger := Ledger.ofMemory M 0
  have hM : w.memory = M := Ledger.memory_ofMemory M 0
  have hstart : ReadablePool.Kept start guards w := h.kept.tallied
  have := ProbedPool.reading (Tallied (UnreliablePool n D))
  have := SheddingPool.reading (Tallied (UnreliablePool n D))
  have hjoins (hash : UInt32) :
      Joins (Tallied (UnreliablePool n D)) Guard.access guards (d.owner hash) .shared := by
    intro g hg hpage
    obtain ⟨haccess, hcounted⟩ := hshared g hg _ (d.route_lt_size hash) hpage
    have hcounted : ¬ Crowded (d.owner hash) guards := hpage ▸ hcounted
    exact ⟨haccess, rfl, Nat.lt_of_not_le hcounted⟩
  obtain ⟨steps, v', w', d', last, hmerges, hmergesTo, hkept, hmemory, hsettled⟩ :=
    @exists_merges K V _ _ t d s _ _ _ (ReadablePool.reading (Tallied (UnreliablePool n D))) _ guards w
      _ (fun _ => id) haccepted start hstart hpart htight hs hjoins
  rw [hM] at hmergesTo hmemory hsettled
  have hle : steps ≤ d.depthAt s := by
    have hadd := hmergesTo.depthOf_add_le
    rw [← Directory.depthOf_of_lt hs]
    omega
  have hlimit : steps < 100 := by
    have hdepth := hpart.depthAt_le s hs
    have hmax := hpart.depth_le
    rw [Directory.maxDepth] at hmax
    omega
  obtain ⟨hresult, hstate⟩ := hmerges.mergeWithin_ends hlimit false
  change ended.result = _ at hresult
  change ended.state = v' at hstate
  subst hstate
  refine ⟨steps, d', _, last, hmerges, hle, hresult, ?_, hmergesTo.partitioned, hmergesTo.tight,
    hmergesTo.owner_eq, (Pool.contents_tallied hkept).trans hmemory,
    fun hnone => hsettled (hkept.2.trans hnone)⟩
  rw [Bool.false_or, decide_eq_true_iff]
  constructor
  · rintro hsteps rfl
    have hadd := hmergesTo.depthOf_add_le
    omega
  · rintro hne rfl
    exact hne hmerges.eq_of_zero

end Runs

-- Two blank pages as the buckets of a directory with two slots.
theorem merge_settles_blank :
    let t : HashIndex UInt32 UInt32 := ⟨"index", ⟨compare, UInt32.toUInt64⟩, ⟨0⟩, 1⟩
    let d := (Directory.single ⟨1⟩).doubled.divided ⟨1⟩ ⟨2⟩ 0
    let store : MemoryStore := { MemoryStore.empty with count := 3 }
    let u : UnreliablePool 2 MemoryStore :=
      ⟨⟨.single (Shard.initial 2 2 0 1 3), store⟩, fun _ => none, 0⟩
    let start : Tallied (UnreliablePool 2 MemoryStore) := ⟨u, 0⟩
    let ended := (t.merge d 0 : Op _ (Directory × Bool)) start
    let M := Pool.contents u.pool
    (d.Partitioned ∧ d.Tight ∧ Pool.Reached 2 u.pool [] M ∧ t.Accepted) ∧
    ∃ steps d' changed last, t.Merges start d 0 steps ended.state d' last ∧ steps ≤ 1 ∧
      ended.result = .ok (d', changed) ∧ (changed = true ↔ d' ≠ d) ∧ d'.Partitioned ∧ d'.Tight ∧
      (ended.state.refusals = 0 → d'.Settled (t.Unoccupied M) last) := by
  intro t d store u start ended M
  have hsingle : (Directory.single ⟨1⟩).Partitioned := Directory.partitioned_single (by decide)
  have hdepth : (Directory.single ⟨1⟩).depthAt 0 = 0 := by
    rw [Directory.depthAt, Directory.slot_single]
    rfl
  have hroom : Deepened (Directory.single ⟨1⟩) 0 (Directory.single ⟨1⟩).doubled :=
    deepened_doubled hsingle (by decide) hdepth (by decide)
  have hdivisible : (Directory.single ⟨1⟩).doubled.Divisible 0 ⟨2⟩ :=
    hroom.divisible (by decide) fun hash => by
      rw [Directory.owner_single]
      decide
  have hdivided := hroom.partitioned.divided hdivisible
  have htight' := hroom.partitioned.tight_divided hdivisible (hroom.tight (Directory.tight_single _))
  have hslot' := (hroom.partitioned.slot_divided hdivisible hdivisible.slot_lt).2
  rw [hroom.bucket_eq, hroom.depth_eq, Directory.bucketAt_single, hdepth] at hdivided htight' hslot'
  have hpart : d.Partitioned := hdivided
  have htight : d.Tight := htight'
  have hslot : d.depthAt 0 = 1 := hslot'
  have hreached : Pool.Reached 2 u.pool [] M := by
    have hblank (id : PageId) : LawfulStore.page store id = Page.zero := Std.HashMap.getD_empty
    have hcount : PageStore.pageCount.Ends store fun r d' => r = .ok 3 ∧ d' = store := ⟨rfl, rfl⟩
    obtain ⟨hcreate, hstate⟩ := PoolShape.create_single_ends (n := 2)
      (show 2 ≤ Shard.maxFrames by decide) (show 2 ≤ EvictionQueue.maxCapacity by decide) hcount
    have hcreated := Pool.Reached.created (.single 2 0 1) (d := store) trivial
      (fun id _ => hblank id) hcreate
    rw [hstate] at hcreated
    rwa [show M = (PoolShape.single 2 0 1).memory store from hcreated.kept.contents_eq]
  have haccepted : t.Accepted := ⟨Nat.one_pos, BucketLayout.le_mostUpTo (by decide) (by decide)⟩
  -- neither the directory nor the pool is to be computed
  clear_value d M u
  obtain ⟨steps, d', changed, last, hmerges, hle, hresult, hchanged, hpart', htight', -, -, hsettled⟩ :=
    merge_settles hreached haccepted hpart htight d.size_pos fun _ hg => absurd hg List.not_mem_nil
  exact ⟨⟨hpart, htight, hreached, haccepted⟩, steps, d', changed, last, hmerges,
    hle.trans_eq hslot, hresult, hchanged, hpart', htight', hsettled⟩

end HashIndex

end PagedIndex
