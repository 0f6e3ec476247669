import PagedIndex.Proofs.Index.Insertion
import PagedIndex.Proofs.Pool.Tallied
import PagedIndex.Proofs.Pool.Transparency

namespace PagedIndex

-- The hashes of the bucket at slot `s` go by their next bit, to the page that they had or to a new one.
structure Directory.SplitsInto (d : Directory) (s : Nat) (new : PageId) (d' : Directory) : Prop where
  partitioned : d'.Partitioned
  depth_eq : d'.depth = max d.depth (d.depthAt s + 1)
  unused (hash : UInt32) : d.owner hash ≠ new
  owner_eq (hash : UInt32) : d'.owner hash =
    if d.owner hash = d.bucketAt s then
      if hash.toNat.testBit (d.depthAt s) then new else d.bucketAt s
    else d.owner hash
  depthAt_eq (hash : UInt32) : d'.depthAt (d'.route hash) =
    if d.owner hash = d.bucketAt s then d.depthAt s + 1 else d.depthAt (d.route hash)

namespace HashIndex

open PagePool

variable {K V : Type} [FixedWidth K] [FixedWidth V] [DecidableEq V] {t : HashIndex K V}
  {d d' : Directory} {s : Nat} {new : PageId} {b : Bucket K V}

-- Page `id` is a bucket of just these pairs, in its first slots.
def FilledWith (t : HashIndex K V) (M : Memory) (id : PageId) (pairs : List (K × V)) : Prop :=
  ∃ (page : Page) (b : Bucket K V), M id = some page ∧ Bucket.view page t.capacity = .ok b ∧
    b.checkedEntries = .ok pairs ∧ ∀ i < Bucket.maxSlots K V,
      b.occupied i = decide (i < pairs.length) ∧ b.readable i = decide (i < pairs.length)

theorem filledWith_refill [RoundTrip K] [RoundTrip V] {M : Memory} {id : PageId}
    {pairs : List (K × V)} (hcapacity : b.capacity = t.capacity)
    (hroom : pairs.length ≤ b.capacity) (hdistinct : Distinct t.policy.order pairs)
    (hpage : M id = some (b.clear.insertAll t.policy.order pairs).page) : t.FilledWith M id pairs := by
  obtain ⟨hsame, hpacked, hentries⟩ := Bucket.Packed.refill b hroom hdistinct
  refine ⟨_, b.clear.insertAll t.policy.order pairs, hpage, ?_, ?_, fun i hi => ?_⟩
  · rw [← hcapacity, ← hsame]
    exact Bucket.view_eq _
  · rw [Bucket.checkedEntries_eq, hentries]
  · have hbits := hi.trans_le (b.clear.insertAll t.policy.order pairs).maxSlots_le_bits
    have hread := (hentries.symm ▸ hpacked : Bucket.Packed _ _).readable_eq hbits
    rw [hentries] at hread
    exact ⟨hpacked.occupied_eq i hbits, hread⟩

theorem Divides.splitsInto {σ γ : Type} [PagePool σ γ] {guards : List γ} {w w' : Ledger}
    (h : t.Divides σ guards d s b w new d' w') (hpart : d.Partitioned) (hs : s < d.size) :
    d.SplitsInto s new d' := by
  obtain ⟨room, hroom, rfl⟩ := h.room
  have hdivisible := hroom.divisible h.valid h.unused
  have hdivided := hroom.partitioned.divided hdivisible
  rw [hroom.bucket_eq, hroom.depth_eq] at hdivided
  refine ⟨hdivided, hroom.depth_max, h.unused, hroom.owner_divided hdivisible, fun hash => ?_⟩
  have hdepth := hroom.partitioned.depthOf_divided hdivisible hash.toNat
  rw [hroom.bucket_eq, hroom.depth_eq, hroom.depthOf_eq] at hdepth
  simp only [← hpart.owner_eq_iff hash hs] at hdepth
  exact hdepth

section Runs

variable [RoundTrip K] [RoundTrip V] {n : Nat} {D : Type} [PageStore D] [LawfulStore D]
  {guards : List (Guard n)} {u : UnreliablePool n D} {M : Memory} {guard : Guard n}

-- The page behind the guard is the bucket at slot `s`. Only pairs of that bucket are told apart, and a
-- split that fails tells none apart. It fails if a page is refused, or if the bucket has looked at all
-- the bits that there are.
theorem split_partitions (h : Pool.Reached n u.pool guards M) (hpart : d.Partitioned)
    (hs : s < d.size) (hguard : guard ∈ guards) (hpage : guard.page = d.bucketAt s)
    (haccess : guard.access = .exclusive)
    (hview : Bucket.view (PagePool.read guard u) t.capacity = .ok b)
    (hrouted : ∀ pair ∈ b.entries, d.owner (t.hash pair.1) = d.bucketAt s)
    (hdistinct : Distinct t.policy.order b.entries)
    (hunused : ∀ g, (allocate (⟨u, 0⟩ : Tallied (UnreliablePool n D))).result = .ok g →
      ∀ i < d.size, d.bucketAt i ≠ g.page) :
    let start : Tallied (UnreliablePool n D) := ⟨u, 0⟩
    let ended := (t.split d s guard b : Op _ Directory) start
    let M' := Pool.contents ended.state.pool.pool
    let low := b.entries.filter fun pair => !t.goesHigh (d.depthAt s) pair
    let high := b.entries.filter (t.goesHigh (d.depthAt s))
    (∀ d', ended.result = .ok d' → ∃ new, M new = none ∧ d.SplitsInto s new d' ∧
      t.FilledWith M' (d.bucketAt s) low ∧ t.FilledWith M' new high ∧ (low ++ high).Perm b.entries ∧
      (∀ pair ∈ low, d'.owner (t.hash pair.1) = d.bucketAt s) ∧
      (∀ pair ∈ high, d'.owner (t.hash pair.1) = new) ∧
      ∀ id, id ≠ d.bucketAt s → id ≠ new → M' id = M id) ∧
    (∀ e, ended.result = .error (.error e) → M' = M) ∧
    (d.depthAt s < Directory.maxDepth → ended.state.refusals = 0 → ∃ d', ended.result = .ok d') := by
  intro start ended M' low high
  let w : Ledger := Ledger.ofMemory M 0
  have hM : w.memory = M := Ledger.memory_ofMemory M 0
  have hstart : ReadablePool.Kept start guards w := h.kept.tallied
  obtain ⟨-, hcapacity⟩ := Bucket.of_view hview
  have hends := split_ends (t := t) hstart hpart hs hcapacity hguard hpage haccess
    fun g hg _ hash => hunused g hg _ (d.route_lt_size hash)
  change Op.AnswersOr _ _ _ ended.result ended.state at hends
  cases hr : ended.result using Checked.outcomes with
  | ok d' =>
    rw [hr] at hends
    obtain ⟨w', hkept, new, hdivides⟩ := hends
    have hsplits := hdivides.splitsInto hpart hs
    have hM' : M' = w'.memory := Pool.contents_tallied hkept
    have hne : d.bucketAt s ≠ new := hpage ▸ hdivides.unguarded guard hguard
    refine ⟨fun d'' hd'' => ?_, by rintro e ⟨⟩, fun _ _ => ⟨d', rfl⟩⟩
    obtain rfl := Except.ok.inj hd''
    have hroom (p : K × V → Bool) : (b.entries.filter p).length ≤ b.capacity :=
      (List.length_filter_le _ _).trans b.length_entries_le
    have howner (pair : K × V) (hpair : pair ∈ b.entries) : d'.owner (t.hash pair.1) =
        if t.goesHigh (d.depthAt s) pair then new else d.bucketAt s := by
      rw [hsplits.owner_eq, if_pos (hrouted pair hpair)]
      rfl
    refine ⟨new, ?_, hsplits, ?_, ?_, ?_, fun pair hpair => ?_, fun pair hpair => ?_,
      fun id hold hnew => ?_⟩
    · have hfresh : w.memory new = none := by
        rw [Ledger.memory, hdivides.fresh, Option.map_none]
      rwa [hM] at hfresh
    · refine filledWith_refill hcapacity (hroom _) (hdistinct.sublist List.filter_sublist) ?_
      rw [hM', hdivides.ledger_eq, Ledger.memory_put, Memory.put_of_ne _ _ hne, Ledger.memory_put,
        Memory.put_self]
    · refine filledWith_refill (b := { b with page := Page.zero }) hcapacity (hroom _)
        (hdistinct.sublist List.filter_sublist) ?_
      rw [hM', hdivides.ledger_eq, Ledger.memory_put, Memory.put_self]
    · exact List.perm_append_comm.trans (List.filter_append_perm _ _)
    · obtain ⟨hmem, hlow⟩ := List.mem_filter.mp hpair
      rw [howner pair hmem, if_neg (by simpa using hlow)]
    · obtain ⟨hmem, hhigh⟩ := List.mem_filter.mp hpair
      rw [howner pair hmem, if_pos hhigh]
    · rw [hM', hdivides.ledger_eq, Ledger.memory_put, Memory.put_of_ne _ _ hnew, Ledger.memory_put,
        Memory.put_of_ne _ _ hold, Ledger.memory_allot, Memory.put_of_ne _ _ hnew, hM]
  | error e =>
    rw [hr] at hends
    obtain ⟨w', hkept, hfails⟩ := hends
    have hM' : M' = w'.memory := Pool.contents_tallied hkept
    refine ⟨by rintro d' ⟨⟩, fun _ _ => ?_, fun hdepth hnone => ?_⟩
    · rcases hfails with ⟨-, rfl⟩ | ⟨-, -, rfl⟩
      · exact hM'.trans hM
      · exact hM'.trans hM
    · rcases hfails with ⟨-, rfl⟩ | ⟨hmax, -⟩
      · exact absurd (hkept.2.trans hnone) (Nat.succ_ne_zero _)
      · exact absurd hmax hdepth.ne
  | abort a =>
    rw [hr] at hends
    exact ⟨by rintro d' ⟨⟩, by rintro e ⟨⟩, fun _ hnone => absurd hends.2 (hnone ▸ Nat.lt_irrefl 0)⟩

end Runs

-- A bucket of an even and an odd key is split, in a pool with two frames.
theorem split_partitions_twoPairs :
    let t : HashIndex UInt32 UInt32 := ⟨"index", ⟨compare, UInt32.toUInt64⟩, ⟨9⟩, 2⟩
    let d := Directory.single ⟨0⟩
    let blank : Bucket UInt32 UInt32 :=
      ⟨Page.zero, 2, by decide, BucketLayout.le_mostUpTo (by decide) (by decide), _, rfl⟩
    let b := (blank.clear.put 0 2 20).put 1 3 30
    let guard : Guard 2 := ⟨⟨0⟩, 0, .exclusive⟩
    let start : Mounted (Pool 2) MemoryStore := ⟨.single (Shard.initial 2 2 0 1 0), .empty⟩
    let written := ((PoolCall.write guard b.page).run (PoolCall.allocate.run start).state).state
    let u : UnreliablePool 2 MemoryStore := ⟨written, fun _ => none, 0⟩
    let ended := (t.split d 0 guard b : Op _ Directory)
      (⟨u, 0⟩ : Tallied (UnreliablePool 2 MemoryStore))
    let M' := Pool.contents ended.state.pool.pool
    (∀ d', ended.result = .ok d' → ∃ new, d.SplitsInto 0 new d' ∧
      t.FilledWith M' ⟨0⟩ [(2, 20)] ∧ t.FilledWith M' new [(3, 30)]) ∧
    (ended.state.refusals = 0 → ∃ d', ended.result = .ok d') := by
  intro t d blank b guard start written u ended M'
  obtain ⟨hfirst, hfirst'⟩ := (Bucket.Packed.clear blank).1.put (by decide) 2 20
  obtain ⟨hsecond, hsecond'⟩ := hfirst.put (by decide) 3 30
  have hentries : b.entries = [(2, 20), (3, 30)] := by
    rw [hsecond', hfirst', (Bucket.Packed.clear blank).2]
    rfl
  have hcapacity : b.capacity = t.capacity := rfl
  clear_value b
  have hcreated : Pool.Reached 2 start [] ((PoolShape.single 2 0 1).memory MemoryStore.empty) :=
    .created (.single 2 0 1) (d := MemoryStore.empty) trivial
      (fun id _ => Std.HashMap.getD_empty) rfl
  have hallocated := hcreated.step .allocate trivial trivial nofun
  have hwritten := hallocated.step (.write guard b.page) ⟨List.mem_cons_self, rfl⟩ trivial nofun
  obtain ⟨M, hM, hreached⟩ : ∃ M : Memory, M ⟨0⟩ = some b.page ∧
      Pool.Reached 2 written [guard] M := ⟨_, Memory.put_self _ _ _, hwritten⟩
  -- the pool is not to be computed
  clear_value written
  have hpart : d.Partitioned := Directory.partitioned_single (by decide)
  have hread : b.page = PagePool.read guard u :=
    Option.some_inj.mp (hM.symm.trans (hreached.kept.read (g := guard) List.mem_cons_self))
  have hview : Bucket.view (PagePool.read guard u) t.capacity = .ok b := by
    rw [← hread, ← hcapacity]
    exact b.view_eq
  have hunused : ∀ g, (allocate (⟨u, 0⟩ : Tallied (UnreliablePool 2 MemoryStore))).result = .ok g →
      ∀ i < d.size, d.bucketAt i ≠ g.page := by
    intro g hg i hi heq
    have hends := LawfulPool.allocate_ends (Pool.Kept.tallied (u := u) hreached.kept)
    rw [Op.Ends, hg] at hends
    obtain ⟨⟨-, hnew, -⟩, -⟩ := hends
    -- the page of the bucket was given out before
    obtain rfl : i = 0 := Nat.lt_one_iff.mp hi
    rw [show pageOf (Tallied (UnreliablePool 2 MemoryStore)) g = ⟨0⟩ from
      heq.symm.trans (Directory.bucketAt_single _), Ledger.sheets_ofMemory hM] at hnew
    cases hnew
  have hdistinct : Distinct t.policy.order b.entries := by
    rw [hentries]
    exact List.pairwise_pair.mpr rfl
  obtain ⟨hok, -, hreturns⟩ := split_partitions (t := t) (u := u) hreached hpart (s := 0) (by decide)
    List.mem_cons_self (Directory.bucketAt_single _).symm rfl hview
    (fun _ _ => (Directory.owner_single _ _).trans (Directory.bucketAt_single _).symm) hdistinct hunused
  have hdepth : d.depthAt 0 = 0 := by
    rw [Directory.depthAt, Directory.slot_single]
    rfl
  have hpairs : [(2, 20), (3, 30)].filter (fun pair => !t.goesHigh 0 pair) = [(2, 20)] ∧
      [(2, 20), (3, 30)].filter (t.goesHigh 0) = [(3, 30)] := by decide
  rw [hentries, hdepth, Directory.bucketAt_single, hpairs.1, hpairs.2] at hok
  rw [hdepth] at hreturns
  refine ⟨fun d' hd' => ?_, hreturns (by decide)⟩
  obtain ⟨new, -, hsplits, hlow, hhigh, -⟩ := hok d' hd'
  exact ⟨new, hsplits, hlow, hhigh⟩

end HashIndex

end PagedIndex
