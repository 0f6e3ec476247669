import PagedIndex.Proofs.Index.Collapse
import PagedIndex.Proofs.Index.Rounds
import PagedIndex.Proofs.Index.Supply

namespace PagedIndex

open Directory

-- A list is made up of its parts by the values of a function.
theorem flatMap_filter_perm {α β : Type} [DecidableEq β] (f : α → β) {values : List β}
    (hnodup : values.Nodup) (l : List α) (hl : ∀ a ∈ l, f a ∈ values) :
    (values.flatMap fun b => l.filter fun a => f a = b).Perm l := by
  induction values generalizing l with
  | nil =>
    rw [List.eq_nil_iff_forall_not_mem.mpr fun a ha => List.not_mem_nil (hl a ha)]
    exact .refl _
  | cons b values ih =>
    obtain ⟨hb, hnodup⟩ := List.nodup_cons.mp hnodup
    have hrest := ih hnodup (l.filter fun a => f a ≠ b) fun a ha => by
      obtain ⟨hmem, hne⟩ := List.mem_filter.mp ha
      exact (List.mem_cons.mp (hl a hmem)).resolve_left (of_decide_eq_true hne)
    have hparts : (values.flatMap fun b' => (l.filter fun a => f a ≠ b).filter fun a => f a = b') =
        values.flatMap fun b' => l.filter fun a => f a = b' := by
      refine List.flatMap_congr fun b' hb' => ?_
      rw [List.filter_filter]
      refine List.filter_congr fun a _ => ?_
      have hne : b' ≠ b := ne_of_mem_of_not_mem hb' hb
      by_cases hab : f a = b'
      · simp [hab, hne]
      · simp [hab]
    rw [List.flatMap_cons, ← hparts]
    refine (hrest.append_left _).trans ?_
    simpa using List.filter_append_perm (fun a => decide (f a = b)) l

namespace HashIndex

variable {K V : Type} [FixedWidth K] [FixedWidth V] (t : HashIndex K V) (M : Memory)

-- The directory of the index, as it is stored.
def storedDirectory : Directory := ofPage ((M t.directory).getD Page.zero)

-- The live entries of a bucket page.
def storedEntries (id : PageId) : List (K × V) :=
  match (Bucket.view ((M id).getD Page.zero) t.capacity : Checked (Bucket K V)) with
  | .ok b => b.entries
  | .error _ => []

-- The live pairs of the index.
def storedPairs : List (K × V) := (t.storedDirectory M).bucketIds.flatMap (t.storedEntries M)

-- The local depth of the slot of a key.
def slotDepth (key : K) : Nat :=
  (t.storedDirectory M).depthAt ((t.storedDirectory M).route (t.hash key))

-- The live entries of the bucket of a key.
def entriesFor (key : K) : List (K × V) :=
  t.storedEntries M ((t.storedDirectory M).owner (t.hash key))

-- The live pairs whose hashes agree with that of a key as far as a directory may look.
def collisions (key : K) : Nat :=
  (t.storedPairs M).countP fun pair =>
    lowBits maxDepth (t.hash pair.1).toNat = lowBits maxDepth (t.hash key).toNat

variable [DecidableEq V] {t M} {w : Ledger} {d : Directory} {pairs : List (K × V)}

namespace Represents

theorem storedDirectory_eq (h : t.Represents w.sheets d pairs) :
    t.storedDirectory w.memory = d := by
  obtain ⟨p, hp, rfl⟩ := h.directory
  rw [storedDirectory, Ledger.memory_of_written hp, Option.getD_some]

theorem storedEntries_eq (h : t.Represents w.sheets d pairs) (hash : UInt32) :
    t.storedEntries w.memory (d.owner hash) = t.routed d (d.owner hash) pairs := by
  obtain ⟨b, m, hb⟩ := h.routes.stores hash
  rw [storedEntries, Ledger.memory_of_written hb.page_eq, Option.getD_some, ← hb.capacity_eq,
    b.view_eq]
  exact hb.entries_eq

theorem entriesFor_eq (h : t.Represents w.sheets d pairs) (key : K) :
    t.entriesFor w.memory key = (d.outline pairs).bucket t.policy (t.policy.address key) := by
  rw [entriesFor, h.storedDirectory_eq, h.storedEntries_eq]
  exact routed_owner h.routes.partitioned (t.hash key)

theorem storedPairs_perm (h : t.Represents w.sheets d pairs) :
    (t.storedPairs w.memory).Perm pairs := by
  rw [storedPairs, h.storedDirectory_eq]
  have hentries : d.bucketIds.flatMap (t.storedEntries w.memory) =
      d.bucketIds.flatMap fun id => pairs.filter fun pair => d.owner (t.hash pair.1) = id := by
    refine List.flatMap_congr fun id hid => ?_
    obtain ⟨i, hi, rfl⟩ := (d.mem_bucketIds id).mp hid
    obtain ⟨hash, rfl⟩ := h.routes.partitioned.exists_hash hi
    exact h.storedEntries_eq hash
  rw [hentries]
  exact flatMap_filter_perm _ d.nodup_bucketIds pairs fun pair _ =>
    (d.mem_bucketIds _).mpr ⟨_, d.route_lt_size (t.hash pair.1), rfl⟩

theorem slotDepth_eq (h : t.Represents w.sheets d pairs) (key : K) :
    t.slotDepth w.memory key = (d.outline pairs).depth (t.policy.address key) := by
  rw [slotDepth, h.storedDirectory_eq]
  rfl

theorem collisions_eq (h : t.Represents w.sheets d pairs) (key : K) :
    t.collisions w.memory key = (d.outline pairs).colliding t.policy key :=
  h.storedPairs_perm.countP_eq _

end Represents

section Runs

variable {n : Nat} {D : Type} [PageStore D] [LawfulStore D] {guards : List (Guard n)}
  {u : UnreliablePool n D} {key : K} {value : V}

theorem FullFor.entriesFor {v : Tallied (UnreliablePool n D)} (h : t.FullFor guards key v) :
    (t.entriesFor (Pool.contents v.pool.pool) key).length = t.capacity := by
  obtain ⟨w, _, hkept, ⟨d, pairs, rfl, hrepresents, _⟩, hfull⟩ := h
  rw [Pool.Kept.contents_eq hkept.1, hrepresents.entriesFor_eq, hfull]

theorem Reached.inserted (h : Reached guards t u pairs)
    (hok : ((t.tryInsert key value : Op _ Unit) u).result = .ok ()) :
    Reached guards t ((t.tryInsert key value : Op _ Unit) u).state (pairs ++ [(key, value)]) := by
  have hrun : ((IndexCall.tryInsert key value).run t : Op _ (IndexAnswer V)).Ends u fun r u' =>
      r = .ok .done ∧ u' = ((t.tryInsert key value : Op _ Unit) u).state := by
    rw [IndexCall.run, Op.ends_map, Op.Ends, hok]
    exact ⟨rfl, rfl⟩
  obtain ⟨hresult, hstate⟩ := hrun
  have hcalled := h.called t.name (.tryInsert key value) trivial (by rw [hresult]; nofun)
  rwa [hresult, hstate] at hcalled

variable [RoundTrip K] [RoundTrip V]

-- The live pairs are those of the list beside the run.
theorem Reached.storedPairs_perm (h : Reached guards t u pairs) (hcoherent : t.policy.Coherent) :
    (t.storedPairs (Pool.contents u.pool)).Perm pairs := by
  obtain ⟨w, pairs', hkept, ⟨d, hrepresents, _⟩, hpairs⟩ := h.holds
  obtain rfl := hpairs hcoherent
  rw [show Pool.contents u.pool = w.memory from Pool.Kept.contents_eq hkept]
  exact hrepresents.storedPairs_perm

-- A new pair is inserted through a handle of any name, with a count of the calls of the pool that
-- fail meanwhile. Only a pool that has run out of page ids keeps the insertion from answering.
theorem tryInsert_full_iff (h : Reached guards t u pairs) (name : String)
    (hnew : ∀ pair ∈ t.storedPairs (Pool.contents u.pool),
      matchesPair t.policy.order key value pair = false) :
    let M := Pool.contents u.pool
    let handle : HashIndex K V := { t with name }
    let start : Tallied (UnreliablePool n D) := ⟨u, 0⟩
    let inserted := (handle.tryInsert key value : Op _ Unit) start
    (∃ states last, handle.Rounds key value start states last ∧
      states.length ≤ maxDepth - t.slotDepth M key ∧
      (∀ v ∈ states, (t.entriesFor (Pool.contents v.pool.pool) key).length = t.capacity) ∧
      inserted.result = ((handle.insertOrSplit key value : Op _ Bool) last).result.map (fun _ => ()) ∧
      inserted.state = ((handle.insertOrSplit key value : Op _ Bool) last).state) ∧
    (∀ a, inserted.result = .error (.abort a) → inserted.state.pool.pool.pool.Spent) ∧
    (∀ depth, inserted.result = .error (.error (.indexFull depth)) →
      depth = maxDepth ∧ t.capacity ≤ t.collisions M key) ∧
    (inserted.state.refusals = 0 → inserted.result =
      if t.capacity ≤ t.collisions M key then .error (.error (.indexFull maxDepth)) else .ok ()) := by
  obtain ⟨w₀, pairs', hkept, ⟨d, hrepresents, hclear⟩, _⟩ := h.holds
  let w : Ledger := { w₀ with refusals := 0 }
  have hw : t.Represents w.sheets d pairs' := hrepresents
  have hM : Pool.contents u.pool = w.memory := Pool.Kept.contents_eq hkept
  rw [hM] at hnew ⊢
  intro M handle start inserted
  have hstart : ReadablePool.Kept start guards w := ⟨hkept, rfl⟩
  have hdepicts : handle.Depicts (Tallied (UnreliablePool n D)) guards (d.outline pairs') w :=
    Depicts.rename ⟨d, pairs', rfl, hw, hclear⟩ name
  have hfresh : pairs'.any (matchesPair t.policy.order key value) = false := by
    rw [List.any_eq_false]
    intro pair hpair
    rw [hnew pair (hw.storedPairs_perm.mem_iff.mpr hpair)]
    exact Bool.false_ne_true
  rw [hw.slotDepth_eq, hw.collisions_eq]
  refine ⟨?_, ?_⟩
  · have hdepth := hdepicts.sound.depth_le (t.policy.address key)
    obtain ⟨states, last, hrounds, hlength, hstates⟩ := exists_rounds hdepicts hstart key value
      (maxDepth - (d.outline pairs').depth (t.policy.address key)) (Nat.sub_add_cancel hdepth).ge
    exact ⟨states, last, hrounds, hlength, fun v hv => (hstates v hv).entriesFor,
      hrounds.insertWithin_eq (by rw [maxDepth] at *; omega)⟩
  · have hends := tryInsert_new_does hdepicts hfresh start hstart
    rw [Op.Ends] at hends
    change Op.AnswersOr _ _ _ inserted.result inserted.state at hends
    cases hr : inserted.result using Checked.outcomes with
    | ok _ =>
      rw [hr] at hends
      obtain ⟨w', _, hroom, _⟩ := hends
      exact ⟨by rintro a ⟨⟩, by rintro depth ⟨⟩, fun _ => (if_neg (Nat.not_le_of_lt hroom)).symm⟩
    | error e =>
      rw [hr] at hends
      obtain ⟨w', hw', ⟨rfl, hfull, _⟩ | ⟨herror, hless⟩⟩ := hends
      · refine ⟨by rintro a ⟨⟩, ?_, fun _ => (if_pos hfull).symm⟩
        rintro _ ⟨rfl⟩
        exact ⟨rfl, hfull⟩
      · refine ⟨by rintro a ⟨⟩, ?_, fun hnone => ?_⟩
        · rintro _ ⟨rfl⟩
          exact absurd trivial herror
        · rw [← hw'.2] at hnone
          exact absurd hnone (Nat.ne_of_gt hless)
    | abort a =>
      rw [hr] at hends
      exact ⟨fun _ _ => hends.1, by rintro depth ⟨⟩, fun hnone => absurd hnone (Nat.ne_of_gt hends.2)⟩

end Runs

-- The bucket of the key is full, and the pair in it collides with the key.
theorem tryInsert_full_iff_colliding :
    let u := narrowIndex.after [.insert 0 7, .insert 1 8] (narrowStart 128)
    let M := Pool.contents u.pool
    let handle : HashIndex UInt32 UInt32 := { narrowIndex with name := "handle" }
    let start : Tallied (UnreliablePool 128 MemoryStore) := ⟨u, 0⟩
    let inserted := (handle.tryInsert 512 9 : Op _ Unit) start
    (Reached [] narrowIndex u [(0, 7), (1, 8)] ∧
      ∀ pair ∈ narrowIndex.storedPairs M,
        matchesPair narrowIndex.policy.order 512 9 pair = false) ∧
    narrowIndex.collisions M 512 = 1 ∧
    (∃ states last, handle.Rounds 512 9 start states last ∧
      states.length ≤ maxDepth - narrowIndex.slotDepth M 512 ∧
      (∀ v ∈ states, (narrowIndex.entriesFor (Pool.contents v.pool.pool) 512).length = 1) ∧
      inserted.result = ((handle.insertOrSplit 512 9 : Op _ Bool) last).result.map (fun _ => ()) ∧
      inserted.state = ((handle.insertOrSplit 512 9 : Op _ Bool) last).state) ∧
    (∀ a, inserted.result = .error (.abort a) → inserted.state.pool.pool.pool.Spent) ∧
    (∀ depth, inserted.result = .error (.error (.indexFull depth)) →
      depth = maxDepth ∧ 1 ≤ narrowIndex.collisions M 512) ∧
    (inserted.state.refusals = 0 → inserted.result =
      if 1 ≤ narrowIndex.collisions M 512 then .error (.error (.indexFull maxDepth)) else .ok ()) := by
  intro u M
  have hreached : Reached [] narrowIndex u [(0, 7), (1, 8)] :=
    reached_narrowIndex [.insert 0 7, .insert 1 8] (by decide) (by simp [IndexCall.Legal])
  -- the calls are not to be computed
  clear_value u
  have hstored := hreached.storedPairs_perm narrowIndex_coherent
  have hnew : ∀ pair ∈ narrowIndex.storedPairs M,
      matchesPair narrowIndex.policy.order 512 9 pair = false := fun pair hpair => by
    rcases List.mem_pair.mp (hstored.mem_iff.mp hpair) with rfl | rfl <;> rfl
  have hcollisions : narrowIndex.collisions M 512 = 1 := hstored.countP_eq _
  exact ⟨⟨hreached, hnew⟩, hcollisions, tryInsert_full_iff hreached "handle" hnew⟩

-- Two pairs in buckets of one pair take three pages.
theorem Represents.exists_pages (h : t.Represents w.sheets d pairs) (hcapacity : t.capacity = 1)
    {a b : K × V} (hpairs : pairs = [a, b]) :
    ∃ ids : List PageId, ids.length = 3 ∧ ids.Nodup ∧ ∀ id ∈ ids, w.sheets id ≠ none := by
  obtain ⟨p, hp, _⟩ := h.directory
  have hdirectory : w.sheets t.directory ≠ none := hp ▸ Option.some_ne_none _
  have howner (hash : UInt32) : w.sheets (d.owner hash) ≠ none := by
    obtain ⟨c, m, hc⟩ := h.routes.stores hash
    exact hc.page_eq ▸ Option.some_ne_none _
  have hapart : d.owner (t.hash a.1) ≠ d.owner (t.hash b.1) := by
    intro hsame
    obtain ⟨c, m, hc⟩ := h.routes.stores (t.hash b.1)
    have hlength : c.entries.length = 2 := by
      rw [hc.entries_eq, hpairs]
      simp [routed, hsame]
    have hle := hc.packed.length_entries_le.trans hc.packed.le_capacity
    rw [hc.capacity_eq, hcapacity] at hle
    omega
  refine ⟨[t.directory, d.owner (t.hash a.1), d.owner (t.hash b.1)], rfl, ?_, ?_⟩
  · simp [hapart, Ne.symm (h.routes.apart _)]
  · simp [hdirectory, howner]

-- The directory and the bucket of a new index are on the last two page ids.
theorem narrow_index :
    let t : HashIndex UInt32 UInt64 := ⟨"index", ⟨compare, UInt32.toUInt64⟩, ⟨4294967293⟩, 1⟩
    ∃ (u : UnreliablePool 3 MemoryStore) (w : Ledger) (M : Memory),
      Reached [] t u [] ∧ (∀ i, u.plan i = none) ∧ Pool.Scarce 3 4294967293 u.pool [] w M ∧
        t.Depicts (UnreliablePool 3 MemoryStore) ([] : List (Guard 3)) Outline.empty w := by
  intro t
  have hpos : 0 < 3 := by decide
  have hn : 3 < 4294967296 := by decide
  have ht : ((create t.name t.policy (some 1) : Op _ (HashIndex UInt32 UInt64))
      (narrowStart 3)).result = .ok t := rfl
  let := narrowUnplanned hpos hn
  have hchoose (n : Nat) (hn : chooseCapacity UInt32 UInt64 (some 1) = .ok n) : 0 < n := by
    obtain rfl : 1 = n := Except.ok.inj hn
    exact Nat.one_pos
  have hcreated := create_does (V := UInt64) t.name t.policy (some 1) (Or.inl hchoose)
    (narrowStart 3) (kept_narrowStart hpos hn)
  rw [Op.Ends, ht] at hcreated
  obtain ⟨w, ⟨hplan, M, hscarce⟩, hcreated, _⟩ := hcreated
  exact ⟨_, w, M, .created (u := narrowStart 3) (some 1) (Pool.narrow_reached hpos hn) ht, hplan,
    hscarce, hcreated.depicts⟩

-- An index of one bucket on the last two page ids does not take a second pair, although no call of
-- the pool fails: one of its first two insertions aborts.
theorem exists_tryInsert_aborts :
    let t : HashIndex UInt32 UInt64 := ⟨"index", ⟨compare, UInt32.toUInt64⟩, ⟨4294967293⟩, 1⟩
    ∃ (u : UnreliablePool 3 MemoryStore) (pairs : List (UInt32 × UInt64)) (key : UInt32),
      (Reached [] t u pairs ∧ ∀ i, u.plan i = none) ∧
      (∀ pair ∈ t.storedPairs (Pool.contents u.pool),
        matchesPair t.policy.order key 0 pair = false) ∧
      t.collisions (Pool.contents u.pool) key < t.capacity ∧
      ∃ a, ((t.tryInsert key 0 : Op _ Unit) u).result = .error (.abort a) := by
  intro t
  obtain ⟨u, w, M, hreached, hplan, hscarce, hdepicts⟩ := narrow_index
  let := narrowUnplanned (n := 3) (by decide) (by decide)
  have hkept : ReadablePool.Kept u ([] : List (Guard 3)) w := ⟨hplan, M, hscarce⟩
  have hcoherent : t.policy.Coherent := fun a b hab => by
    rw [show a = b from Std.LawfulEqOrd.eq_of_compare hab]
  by_contra hnone
  -- the insertions return, if not one of them is as it is said
  have hreturns {u : UnreliablePool 3 MemoryStore} {pairs : List (UInt32 × UInt64)} {w : Ledger}
      (key : UInt32) (hreached : Reached [] t u pairs)
      (hkept : ReadablePool.Kept u ([] : List (Guard 3)) w)
      (hnew : ∀ pair ∈ pairs, matchesPair t.policy.order key 0 pair = false)
      (hroom : (pairs.countP fun pair => lowBits maxDepth (t.hash pair.1).toNat =
        lowBits maxDepth (t.hash key).toNat) < t.capacity) (a : Abort) :
      ((t.tryInsert key 0 : Op _ Unit) u).result ≠ .error (.abort a) := by
    intro ha
    have hstored := hreached.storedPairs_perm hcoherent
    refine hnone ⟨u, pairs, key, ⟨hreached, hkept.1⟩, fun pair hpair => ?_, ?_, a, ha⟩
    · exact hnew pair (hstored.mem_iff.mp hpair)
    · rwa [collisions, hstored.countP_eq]
  obtain ⟨hok, w₁, o₁, hkept₁, hdepicts₁, hpairs₁⟩ := tryInsert_unrefused refusals_narrow hdepicts hkept
    rfl Nat.one_pos (hreturns 0 hreached hkept nofun Nat.one_pos)
  have hreached₁ := hreached.inserted hok
  have hdistinct : ∀ pair ∈ [((0 : UInt32), (0 : UInt64))],
      matchesPair t.policy.order 1 0 pair = false := List.forall_mem_singleton.mpr rfl
  have hroom : o₁.colliding t.policy 1 < t.capacity := by
    rw [Outline.colliding, hpairs₁]
    decide
  obtain ⟨_, w₂, o₂, hkept₂, hdepicts₂, hpairs₂⟩ := tryInsert_unrefused refusals_narrow hdepicts₁ hkept₁
    (by rw [hpairs₁]; decide) hroom (hreturns 1 hreached₁ hkept₁ hdistinct (by decide))
  obtain ⟨d, pairs, rfl, hrepresents, _⟩ := hdepicts₂
  rw [hpairs₁] at hpairs₂
  obtain ⟨ids, hlength, hnodup, hids⟩ := hrepresents.exists_pages rfl hpairs₂
  obtain ⟨_, _, hscarce⟩ := hkept₂
  have hle := hscarce.length_le hnodup hids
  rw [hlength] at hle
  exact absurd hle (by decide)

end HashIndex

end PagedIndex
