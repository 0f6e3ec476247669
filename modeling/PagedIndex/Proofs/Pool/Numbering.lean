import Mathlib.Order.Bounds.Basic
import PagedIndex.Proofs.Pool.Requests

namespace PagedIndex

namespace Shard

variable {n : Nat} {D : Type}

theorem firstId_isLeast {index count : Nat} (hindex : index < count) (stored : Nat) :
    IsLeast {number | stored ≤ number ∧ number % count = index} (firstId index count stored) := by
  have hpos : 0 < count := Nat.zero_lt_of_lt hindex
  have hmod : firstId index count stored % count = index := by
    rw [firstId, Nat.add_mul_mod_self_right, Nat.mod_eq_of_lt hindex]
  refine ⟨⟨(firstId_le_iff stored hpos hmod).mp (le_refl _), hmod⟩, ?_⟩
  rintro number ⟨hstored, hnumber⟩
  exact (firstId_le_iff stored hpos hnumber).mpr hstored

-- The tables of a shard and of its queue are not too large for any memory.
def Reservable (n queueCapacity : Nat) : Prop :=
  n ≤ maxFrames ∧ queueCapacity ≤ EvictionQueue.maxCapacity

-- Why a shard, or one of some, is not created by a store that answers.
def CreationAborts (overflows reservable : Prop) (a : Abort) : Prop :=
  a = .overflow ∧ overflows ∨ a = .memory ∧ ¬ reservable

-- A page of another part of the ids is not in the shard and is not fetched from it.
theorem Sound.fetch_elsewhere [PageStore D] {c : ShardConfig} {s : Shard n}
    {guards : List (Guard n)} (h : s.Sound c guards) {id : PageId}
    (hid : id.number.toNat % c.count ≠ c.index) (access : Access) (d : D) :
    s.isResident id = false ∧
      (fetch id access ⟨s, d⟩).result = .error (.error (.pageNotFound id)) := by
  have hforeign : ¬ s.owns id := fun howns => by
    have hmod := ((owns_iff s id).mp howns).2.1
    rw [h.count_eq, h.index_eq] at hmod
    exact hid hmod
  have htable : s.table[id]? = none := by
    rw [Option.eq_none_iff_forall_ne_some]
    exact fun f hf => hforeign (h.owned f id ((h.table_iff id f).mp hf))
  refine ⟨by simpa [isResident] using htable, ?_⟩
  change (fetch id access).Ends ⟨s, d⟩ fun r _ => r = .error (.error (.pageNotFound id))
  simp only [fetch, Shard.pin, Op.ends_bind, Mounted.ends_observe, Op.then_ok, htable, hforeign,
    Bool.not_false, if_true, Op.ends_fail, Op.then_error]

variable [PageStore D] [LawfulStore D]

theorem create_outcome {queueCapacity index count : Nat} (hindex : index < count) {d : D}
    (hd : LawfulStore.Sound d) {stored : UInt32} (hstored : LawfulStore.count d = stored) :
    (create n queueCapacity index count).Ends d <| Op.AnswersExcept
      (CreationAborts (pageIdLimit ≤ firstId index count stored.toNat) (Reservable n queueCapacity))
      (fun s d' => (firstId index count stored.toNat < pageIdLimit ∧ Reservable n queueCapacity) ∧
        s = initial n queueCapacity index count (firstId index count stored.toNat) ∧
          LawfulStore.Sound d' ∧ LawfulStore.count d' = stored)
      fun e _ => LawfulStore.Gives D e := by
  have hqueue : (EvictionQueue.create queueCapacity : Checked (EvictionQueue (Fin n))) =
      if queueCapacity ≤ EvictionQueue.maxCapacity then .ok (.empty queueCapacity)
      else Checked.abort .memory := by
    rw [EvictionQueue.create, Checked.require]
    split <;> rfl
  rw [create, Op.ends_bind, Op.ends_liftM, hqueue]
  by_cases hroom : queueCapacity ≤ EvictionQueue.maxCapacity
  · rw [if_pos hroom, Op.then_ok, if_neg (Nat.not_le_of_lt hindex), Op.ends_bind]
    refine (LawfulStore.pageCount_ends hd).mono fun r d' hr => ?_
    cases r using Checked.outcomes with
    | ok answer =>
      obtain ⟨rfl, hsound, _, hcount⟩ := hr
      simp only [Op.then_ok, Op.ends_bind, Op.ends_require, hstored]
      split
      · rename_i hlimit
        split
        · rename_i hframes
          exact ⟨⟨hlimit, hframes, hroom⟩, rfl, hsound, hcount.trans hstored⟩
        · rename_i hframes
          exact Or.inr ⟨rfl, fun hreserved => hframes hreserved.1⟩
      · rename_i hlimit
        exact Or.inl ⟨rfl, Nat.le_of_not_lt hlimit⟩
    | error e => exact hr.1
    | abort a => exact hr.elim
  · rw [if_neg hroom]
    exact Or.inr ⟨rfl, fun hreserved => hroom hreserved.2⟩

end Shard

namespace ShardedPool

variable {n k : Nat} {D : Type} [PageStore D] [LawfulStore D]

theorem createFrom_outcome {stored : UInt32} (left : Nat) {lowerCount : Nat}
    (lower : Vector (Shard n) lowerCount) (hk : lowerCount + left = k)
    (hlower : ∀ (i : Nat) (h : i < lowerCount),
      Shard.firstId i k stored.toNat < Shard.pageIdLimit ∧
        lower[i] = Shard.initial n n i k (Shard.firstId i k stored.toNat))
    {d : D} (hd : LawfulStore.Sound d) (hstored : LawfulStore.count d = stored) :
    (createFrom n k left lower hk).Ends d <| Op.AnswersExcept
      (Shard.CreationAborts (∃ i < k, Shard.pageIdLimit ≤ Shard.firstId i k stored.toNat)
        (Shard.Reservable n n))
      (fun shards d' => (0 < left → Shard.Reservable n n) ∧ LawfulStore.Sound d' ∧
        ∀ i : Fin k, Shard.firstId i k stored.toNat < Shard.pageIdLimit ∧
          shards.get i = Shard.initial n n i k (Shard.firstId i k stored.toNat))
      fun e _ => LawfulStore.Gives D e := by
  induction left generalizing lowerCount d with
  | zero =>
    rw [createFrom, Op.ends_pure]
    refine ⟨fun h => absurd h (lt_irrefl 0), hd, fun i => ?_⟩
    change _ ∧ (lower.cast hk)[i.val] = _
    rw [Vector.getElem_cast]
    exact hlower i (by omega)
  | succ left ih =>
    have hindex : lowerCount < k := by omega
    rw [createFrom, Op.ends_bind]
    refine (Shard.create_outcome (n := n) hindex hd hstored).mono fun r d' hr => ?_
    cases r using Checked.outcomes with
    | ok s =>
      obtain ⟨⟨hlimit, hreserved⟩, rfl, hsound, hcount⟩ := hr
      rw [Op.then_ok]
      refine (ih _ _ (fun i hi => ?_) hsound hcount).mono fun r t ht => ?_
      · by_cases hlast : i < lowerCount
        · rw [Vector.getElem_push_lt hlast]
          exact hlower i hlast
        · obtain rfl : i = lowerCount := by omega
          rw [Vector.getElem_push_eq]
          exact ⟨hlimit, rfl⟩
      · exact ht.imp (fun _ ha => ha) (fun _ hp => ⟨fun _ => hreserved, hp.2⟩) fun _ he => he
    | error e => exact hr
    | abort a => exact Or.imp_left (And.imp_right fun hlimit => ⟨lowerCount, hindex, hlimit⟩) hr

end ShardedPool

namespace PoolShape

variable {n : Nat} {D : Type} [PageStore D]

-- The ids are divided into some parts, and the shards are responsible for parts that there are.
def Valid : PoolShape → Prop
  | single _ index count => index < count
  | sharded count => 0 < count

-- There is room for the frames and the queues of all shards.
def Reservable (n : Nat) : PoolShape → Prop
  | single queueCapacity _ _ => Shard.Reservable n queueCapacity
  | sharded _ => Shard.Reservable n n

theorem Valid.lt_parts {shape : PoolShape} (h : shape.Valid) {i : Nat} (hi : i ∈ shape.indices) :
    i < shape.parts := by
  cases shape with
  | single queueCapacity index count =>
    obtain rfl := List.mem_singleton.mp hi
    exact h
  | sharded count => exact List.mem_range.mp hi

variable [LawfulStore D]

theorem create_outcome {shape : PoolShape} (hvalid : shape.Valid) {d : D}
    (hd : LawfulStore.Sound d) :
    (shape.create n).Ends d <| Op.AnswersExcept
      (Shard.CreationAborts (∃ i ∈ shape.indices, Shard.pageIdLimit ≤
        Shard.firstId i shape.parts (LawfulStore.count d).toNat) (shape.Reservable n))
      (fun pool d' => (shape.Reservable n ∧ ∀ i ∈ shape.indices,
          Shard.firstId i shape.parts (LawfulStore.count d).toNat < Shard.pageIdLimit) ∧
        Pool.Steady shape [] (fun i => Shard.firstId i shape.parts (LawfulStore.count d).toNat)
          ⟨pool, d'⟩)
      fun e _ => LawfulStore.Gives D e := by
  cases shape with
  | single queueCapacity index count =>
    rw [create, Op.ends_map]
    refine (Shard.create_outcome hvalid hd rfl).mono fun r d' hr => ?_
    cases r using Checked.outcomes with
    | ok s =>
      obtain ⟨⟨hlimit, hreserved⟩, rfl, hsound, _⟩ := hr
      refine ⟨⟨hreserved, fun i hi => ?_⟩, .single ⟨Shard.initial_sound hvalid _ _, hsound, rfl⟩⟩
      obtain rfl := List.mem_singleton.mp hi
      exact hlimit
    | error e => exact hr
    | abort a =>
      exact Or.imp_left (And.imp_right fun hlimit => ⟨index, List.mem_singleton_self _, hlimit⟩) hr
  | sharded count =>
    have hpos : 0 < count := hvalid
    rw [create, Op.ends_map, ShardedPool.create]
    simp only [hpos, dif_pos, Op.ends_bind]
    refine (ShardedPool.createFrom_outcome count #v[] (Nat.zero_add count)
      (fun i hi => absurd hi (Nat.not_lt_zero i)) hd rfl).mono fun r d' hr => ?_
    cases r using Checked.outcomes with
    | ok shards =>
      obtain ⟨hreserved, hsound, hshards⟩ := hr
      refine ⟨⟨hreserved hpos, fun i hi => (hshards ⟨i, List.mem_range.mp hi⟩).1⟩, .sharded ?_⟩
      refine ⟨hsound, fun i => ?_⟩
      change Shard.Steady _ _ _ ⟨shards.get i, d'⟩
      rw [(hshards i).2]
      exact ⟨Shard.initial_sound i.isLt _ _, hsound, rfl⟩
    | error e => exact hr
    | abort a =>
      refine Or.imp_left (And.imp_right fun hover => ?_) hr
      obtain ⟨i, hi, hlimit⟩ := hover
      exact ⟨i, List.mem_range.mpr hi, hlimit⟩

end PoolShape

namespace PoolCall

variable {n : Nat}

-- The page ids that were given out, after a call.
def idsAfter (ids : List PageId) : PoolCall n → Checked (Option (Guard n)) → List PageId
  | allocate, .ok (some g) => g.page :: ids
  | _, _ => ids

-- The counters move when a page is given out, and only then.
theorem Advances.cases {among : List Nat} {parts : Nat} {next next' : Nat → Nat}
    {call : PoolCall n} {r : Checked (Option (Guard n))}
    (h : call.Advances among parts next next' r) :
    (∃ g, call = allocate ∧ r = .ok (some g) ∧ ∃ i ∈ among,
      (next i + parts < Shard.pageIdLimit ∧ g.page = ⟨UInt32.ofNat (next i)⟩) ∧
        next' = Function.update next i (next i + parts)) ∨
      next' = next ∧ ∀ ids, call.idsAfter ids r = ids := by
  cases call with
  | allocate =>
    cases r using Checked.outcomes with
    | ok answer =>
      cases answer with
      | none => exact Or.inr ⟨h, fun _ => rfl⟩
      | some g => exact Or.inl ⟨g, rfl, rfl, h⟩
    | error e => exact Or.inr ⟨h, fun _ => rfl⟩
    | abort a => exact Or.inr ⟨h, fun _ => rfl⟩
  | _ => exact Or.inr ⟨h, fun _ => rfl⟩

end PoolCall

namespace Pool

variable {n : Nat} {D : Type}

-- The counters of the shards, with their indices.
def counters (pool : Pool n) : List (Nat × Nat) := pool.shards.map fun s => (s.index, s.nextId)

variable [PageStore D] [LawfulStore D] {m : Mounted (Pool n) D} {shape : PoolShape}
  {guards : List (Guard n)} {next : Nat → Nat}

namespace Steady

theorem counters_eq (h : Steady shape guards next m) :
    m.pool.counters = shape.indices.map fun i => (i, next i) := by
  refine h.map_shards _ _ fun s i hi hs => ?_
  have hindex : s.index = i := hs.sound.index_eq.trans (PoolShape.index_config hi n)
  have hnext : s.nextId = next i := hs.counts.nextId_eq
  rw [hindex, hnext]

theorem next_mod (h : Steady shape guards next m) {i : Nat} (hi : i ∈ shape.indices) :
    next i % shape.parts = i := by
  cases h with
  | @single _ index count _ _ s d h =>
    obtain rfl := List.mem_singleton.mp hi
    have hnext : s.nextId = next i := h.counts.nextId_eq
    exact hnext ▸ h.sound.nextId_mod
  | @sharded k _ _ p d h =>
    have hk : i < k := List.mem_range.mp hi
    have hnext : (p.shards.get ⟨i, hk⟩).nextId = next i := (h.shard ⟨i, hk⟩).counts.nextId_eq
    exact hnext ▸ (h.shard ⟨i, hk⟩).sound.nextId_mod

theorem parts_pos (h : Steady shape guards next m) : 0 < shape.parts := by
  cases h with
  | single h => exact Nat.zero_lt_of_lt h.sound.index_lt
  | @sharded k _ _ p d h => exact p.pos

-- The next number of a shard is that of a page which is no other's.
theorem next_id (h : Steady shape guards next m) {i : Nat} (hi : i ∈ shape.indices) {id : PageId}
    (hlimit : next i + shape.parts < Shard.pageIdLimit) (hid : id = ⟨UInt32.ofNat (next i)⟩) :
    id.number.toNat = next i ∧ id.number.toNat % shape.parts = i ∧ id ≠ PageId.invalid := by
  have hpos := h.parts_pos
  have hnumber : id.number.toNat = next i := by
    rw [hid, UInt32.toNat_ofNat']
    exact Nat.mod_eq_of_lt (by rw [Shard.pageIdLimit] at hlimit; omega)
  refine ⟨hnumber, hnumber ▸ h.next_mod hi, ?_⟩
  rintro rfl
  rw [Shard.pageIdLimit] at hlimit
  simp only [PageId.invalid, UInt32.reduceToNat] at hnumber
  omega

end Steady

-- The runs of a pool that is created over `d`, with the page ids that it has given out.
inductive Ran (shape : PoolShape) (d : D) : Mounted (Pool n) D → List (Guard n) → List PageId → Prop
  | created {pool : Pool n} : (shape.create n d).result = .ok pool →
      Ran shape d ⟨pool, (shape.create n d).state⟩ [] []
  | request {m : Mounted (Pool n) D} {guards : List (Guard n)} {ids : List PageId} (req : Request n) :
      Ran shape d m guards ids → req.Legal guards → (req.run m).result.Returns →
      Ran shape d (req.run m).state (req.call.guardsAfter guards (req.run m).result)
        (req.call.idsAfter ids (req.run m).result)

-- The counters are past the numbers that the store holds, and past the ids that were given out.
structure Counted (shape : PoolShape) (stored : Nat) (next : Nat → Nat) (ids : List PageId) :
    Prop where
  past (i : Nat) : i ∈ shape.indices → stored ≤ next i
  issued (id : PageId) : id ∈ ids → (id ≠ PageId.invalid ∧ stored ≤ id.number.toNat) ∧
    id.number.toNat % shape.parts ∈ shape.indices ∧
      id.number.toNat < next (id.number.toNat % shape.parts)
  nodup : ids.Nodup

theorem Counted.not_mem {stored : Nat} {ids : List PageId} (h : Counted shape stored next ids)
    {id : PageId} (hid : id.number.toNat = next (id.number.toNat % shape.parts)) : id ∉ ids :=
  fun hmem => Nat.ne_of_lt (h.issued id hmem).2.2 hid

theorem Counted.advances {stored : Nat} {ids : List PageId} (h : Counted shape stored next ids)
    (hsteady : Steady shape guards next m) {req : Request n} {r : Checked (Option (Guard n))}
    {next' : Nat → Nat} (hadvances : req.call.Advances (req.among shape) shape.parts next next' r) :
    Counted shape stored next' (req.call.idsAfter ids r) := by
  rcases hadvances.cases with ⟨g, hcall, rfl, i, hi, ⟨hlimit, hpage⟩, rfl⟩ | ⟨rfl, hids⟩
  · have hindex := Request.mem_indices hi
    obtain ⟨hnumber, hmod, hvalid⟩ := hsteady.next_id hindex hlimit hpage
    have hgrows (j : Nat) : next j ≤ Function.update next i (next i + shape.parts) j := by
      by_cases hj : j = i
      · subst hj
        rw [Function.update_self]
        exact Nat.le_add_right _ _
      · rw [Function.update_of_ne hj]
    rw [hcall]
    refine ⟨fun j hj => (h.past j hj).trans (hgrows j), fun id hid => ?_, ?_⟩
    · rcases List.mem_cons.mp hid with rfl | hid
      · refine ⟨⟨hvalid, hnumber ▸ h.past i hindex⟩, hmod ▸ hindex, ?_⟩
        rw [hmod, Function.update_self, hnumber]
        exact Nat.lt_add_of_pos_right hsteady.parts_pos
      · obtain ⟨hold, hpart, hlt⟩ := h.issued id hid
        exact ⟨hold, hpart, hlt.trans_le (hgrows _)⟩
    · exact List.nodup_cons.mpr ⟨h.not_mem (hnumber.trans (congrArg next hmod.symm)), h.nodup⟩
  · rw [hids]
    exact h

theorem Ran.counted {d : D} {ids : List PageId} (hvalid : shape.Valid) (hd : LawfulStore.Sound d)
    (h : Ran shape d m guards ids) : ∃ next, Steady shape guards next m ∧
      Counted shape (LawfulStore.count d).toNat next ids := by
  induction h with
  | @created pool hcreate =>
    have hends := PoolShape.create_outcome (n := n) hvalid hd
    rw [Op.Ends, hcreate] at hends
    exact ⟨_, hends.2, fun i hi => (Shard.firstId_isLeast (hvalid.lt_parts hi) _).1.1, nofun,
      List.nodup_nil⟩
  | @request m guards ids req _ hlegal hreturns ih =>
    obtain ⟨next, hsteady, hcounted⟩ := ih
    obtain ⟨next', hadvances, hsteady'⟩ := hsteady.request req hlegal hreturns
    exact ⟨next', hsteady', hcounted.advances hsteady hadvances⟩

-- The shards of a pool are those of its shape, and the pages with these ids are where they belong.
structure Routed (shape : PoolShape) (stored : Nat) (ids : List PageId) (m : Mounted (Pool n) D) :
    Prop where
  indices : m.pool.shards.map Shard.index = shape.indices
  counts (s : Shard n) : s ∈ m.pool.shards → s.count = shape.parts
  distinct : ids.Nodup
  numbers (id : PageId) : id ∈ ids → id ≠ PageId.invalid ∧ stored ≤ id.number.toNat
  owned (id : PageId) : id ∈ ids → m.pool.owner id ∈ m.pool.shards ∧
    (m.pool.owner id).index = id.number.toNat % shape.parts ∧ (m.pool.owner id).owns id
  elsewhere (s : Shard n) (id : PageId) : s ∈ m.pool.shards →
    s.index ≠ id.number.toNat % shape.parts → s.isResident id = false ∧
      ∀ access, (Shard.fetch id access ⟨s, m.store⟩).result = .error (.error (.pageNotFound id))

theorem Steady.routed {stored : Nat} {ids : List PageId} (h : Steady shape guards next m)
    (hcounted : Counted shape stored next ids) : Routed shape stored ids m where
  indices := by
    have hcounters := congrArg (List.map Prod.fst) h.counters_eq
    rwa [counters, List.map_map, List.map_map, Function.comp_def, Function.comp_def, List.map_id']
      at hcounters
  counts s hs := by
    obtain ⟨i, _, hshard⟩ := h.shard hs
    exact hshard.sound.count_eq.trans (shape.count_config n i)
  distinct := hcounted.nodup
  numbers id hid := (hcounted.issued id hid).1
  owned id hid := by
    obtain ⟨⟨hvalid, _⟩, hpart, hlt⟩ := hcounted.issued id hid
    obtain ⟨hmem, i, hi, hiid, _, hshard⟩ := h.owner id
    obtain rfl := hiid hpart
    have hindex := hshard.sound.index_eq.trans (PoolShape.index_config hi n)
    have hcount := hshard.sound.count_eq.trans (shape.count_config n _)
    have hnext := hshard.counts.nextId_eq
    refine ⟨hmem, hindex, (Shard.owns_iff _ id).mpr ⟨hvalid, ?_, ?_⟩⟩
    · rw [hcount, hindex]
    · rwa [hnext]
  elsewhere s id hs hne := by
    obtain ⟨i, hi, hshard⟩ := h.shard hs
    have hforeign : id.number.toNat % (shape.config n i).count ≠ (shape.config n i).index := by
      rw [shape.count_config]
      exact fun heq => hne (hshard.sound.index_eq.trans heq.symm)
    exact ⟨(hshard.sound.fetch_elsewhere hforeign .shared m.store).1, fun access =>
      (hshard.sound.fetch_elsewhere hforeign access m.store).2⟩

-- The page with this id is given out by one of the shards: its counter stood at the number and is
-- moved on, the others stay where they were.
structure GivesOut (among : List Nat) (parts stored : Nat) (ids : List PageId)
    (m m' : Mounted (Pool n) D) (id : PageId) : Prop where
  among : id.number.toNat % parts ∈ among
  counter : (id.number.toNat % parts, id.number.toNat) ∈ m.pool.counters
  moved : m'.pool.counters = m.pool.counters.map fun part =>
    if part.1 = id.number.toNat % parts then (part.1, part.2 + parts) else part
  past : stored ≤ id.number.toNat
  valid : id ≠ PageId.invalid
  fresh : id ∉ ids
  owner : (m'.pool.owner id).index = id.number.toNat % parts
  resident : (m'.pool.owner id).isResident id

-- How a request to allocate ends, after these ids were given out.
def Allots (among : List Nat) (parts stored : Nat) (ids : List PageId) (m : Mounted (Pool n) D) :
    Checked (Option (Guard n)) → Mounted (Pool n) D → Prop
  | .ok (some g), m' => GivesOut among parts stored ids m m' g.page
  -- there is no such shard
  | .ok none, m' => m' = m
  | .error (.error _), m' => m'.pool.counters = m.pool.counters
  | .error (.abort a), _ => a = .overflow

theorem Steady.givesOut {stored : Nat} {ids : List PageId} (h : Steady shape guards next m)
    (hcounted : Counted shape stored next ids) {among : List Nat} {i : Nat} (hi : i ∈ among)
    (hindex : i ∈ shape.indices) {g : Guard n} {m' : Mounted (Pool n) D}
    (hlimit : next i + shape.parts < Shard.pageIdLimit) (hpage : g.page = ⟨UInt32.ofNat (next i)⟩)
    (h' : Steady shape (g :: guards) (Function.update next i (next i + shape.parts)) m') :
    GivesOut among shape.parts stored ids m m' g.page := by
  obtain ⟨hnumber, hmod, hvalid⟩ := h.next_id hindex hlimit hpage
  obtain ⟨_, j, hj, hjid, hpins, hshard⟩ := h'.owner g.page
  obtain rfl := hjid (hmod ▸ hindex)
  refine ⟨hmod ▸ hi, ?_, ?_, hnumber ▸ hcounted.past i hindex, hvalid,
    hcounted.not_mem (hnumber.trans (congrArg next hmod.symm)),
    hshard.sound.index_eq.trans (PoolShape.index_config hj n), ?_⟩
  · rw [h.counters_eq, hmod, hnumber]
    exact List.mem_map.mpr ⟨i, hindex, rfl⟩
  · rw [h.counters_eq, h'.counters_eq, List.map_map, hmod]
    refine List.map_congr_left fun j _ => ?_
    by_cases hj : j = i
    · subst hj
      simp
    · simp [hj]
  · -- the new guard keeps its page resident
    have hpinned : pinsOn g.page
        (shape.guardsIn (g.page.number.toNat % shape.parts) (g :: guards)) ≠ 0 := by
      rw [hpins, pinsOn_cons, if_pos rfl]
      exact Nat.succ_ne_zero _
    rw [Ne, pinsOn_eq_zero, not_forall₂] at hpinned
    obtain ⟨g', hg', hpage'⟩ := hpinned
    have hresident := hshard.sound.guarded g' hg'
    rw [not_not.mp hpage'] at hresident
    rw [Shard.isResident, Std.HashMap.contains_eq_isSome_getElem?]
    exact Option.isSome_of_eq_some hresident

-- A request to allocate is either answered by a guard, unless there is no such shard, or by an error,
-- or the numbers of the shard that it comes to overflow.
theorem Steady.allocation (h : Steady shape guards next m) {req : Request n}
    (hreq : req.call = .allocate) :
    (req.run (D := D)).Ends m <| Op.AnswersUnless
      (∃ t, req.Reaches m t ∧ (∃ f, (Shard.acquire t).result = .ok f) ∧
        Shard.pageIdLimit ≤ t.pool.nextId + t.pool.count)
      (fun answer m' => answer = none → m' = m) fun _ _ => True := by
  cases req with
  | whole call =>
    obtain rfl : call = .allocate := hreq
    rw [Request.run, PoolCall.run, Op.ends_map]
    refine h.allocate.mono fun r m' hm => ?_
    cases r using Checked.outcomes with
    | ok g => exact fun hnone => absurd hnone (Option.some_ne_none g)
    | error e => trivial
    | abort a => exact ⟨hm.1, hm.2.imp fun t ht => ⟨.whole ht.1, ht.2⟩⟩
  | direct i call =>
    obtain rfl : call = .allocate := hreq
    rw [Request.ends_direct]
    cases h with
    | single h => exact fun _ => rfl
    | @sharded k _ _ p d h =>
      dsimp only
      split
      · rename_i hi
        have hshard := h.shard ⟨i, hi⟩
        have hnext : (p.shards.get ⟨i, hi⟩).nextId = next i := hshard.counts.nextId_eq
        have hcount : (p.shards.get ⟨i, hi⟩).count = k := hshard.sound.count_eq
        rw [PoolCall.run, ShardedPool.ends_onShard_map]
        refine (h.allocateOn ⟨i, hi⟩).mono fun r m' hm => ?_
        cases r using Checked.outcomes with
        | ok g => exact fun hnone => absurd hnone (Option.some_ne_none g)
        | error e => trivial
        | abort a =>
          obtain ⟨ha, hfound, hlimit⟩ := hm
          refine ⟨ha, _, .direct ⟨i, hi⟩ p d, hfound, ?_⟩
          simpa only [hnext, hcount] using hlimit
      · exact fun _ => rfl

-- Without a number for a frame that was found, the shard aborts.
theorem overflow_shard {c : ShardConfig} {t : Mounted (Shard n) D} {number : Nat}
    (h : Shard.Steady c guards number t) (hfound : ∃ f, (Shard.acquire t).result = .ok f)
    (hlimit : Shard.pageIdLimit ≤ t.pool.nextId + t.pool.count) :
    (Shard.allocate t).result = .error (.abort .overflow) := by
  have hends := h.allocate
  unfold Op.Ends at hends
  rw [h.counts.nextId_eq, h.sound.count_eq] at hlimit
  cases hr : (Shard.allocate t).result using Checked.outcomes with
  | ok g =>
    rw [hr] at hends
    exact absurd hends.1.1 (Nat.not_lt_of_le hlimit)
  | error e =>
    rw [hr] at hends
    obtain ⟨f, hf⟩ := hfound
    exact absurd hf (hends.1 f)
  | abort a =>
    rw [hr] at hends
    rw [hends.1]

omit [LawfulStore D] in
theorem overflow_sharded {k : Nat} {m m' : Mounted (ShardedPool n k) D} {shards : List (Fin k)}
    {i : Fin k} (h : ShardedPool.Reaches shards m i m')
    (hoverflow : (Shard.allocate ⟨m'.pool.shards.get i, m'.store⟩).result =
      .error (.abort .overflow)) :
    (ShardedPool.allocateIn shards m).result = .error (.abort .overflow) := by
  change (ShardedPool.allocateIn shards).Ends m fun r _ => r = .error (.abort .overflow)
  induction h with
  | here =>
    rw [ShardedPool.ends_allocateIn_cons, ShardedPool.ends_onShard, Op.Ends, hoverflow]
  | later hfull _ ih =>
    rw [ShardedPool.ends_allocateIn_cons, Op.Ends, hfull]
    exact ih hoverflow

theorem Steady.overflows (h : Steady shape guards next m) {req : Request n}
    (hreq : req.call = .allocate) {t : Mounted (Shard n) D} (hreaches : req.Reaches m t)
    (hfound : ∃ f, (Shard.acquire t).result = .ok f)
    (hlimit : Shard.pageIdLimit ≤ t.pool.nextId + t.pool.count) :
    (req.run m).result = .error (.abort .overflow) := by
  change (req.run).Ends m fun r _ => r = .error (.abort .overflow)
  cases hreaches with
  | whole hreaches =>
    obtain rfl := hreq
    rw [Request.run, PoolCall.run, Op.ends_map]
    change Pool.allocate.Ends m _
    rw [Pool.allocate, ends_byShape]
    cases hreaches with
    | single s d =>
      cases h with
      | single h =>
        change Shard.allocate.Ends ⟨s, d⟩ _
        rw [Op.Ends, overflow_shard h hfound hlimit]
        rfl
    | @sharded k p d _ _ hreaches =>
      cases h with
      | sharded h =>
        have hoverflow := overflow_shard ((h.reaches hreaches).shard _) hfound hlimit
        change ShardedPool.allocate.Ends ⟨p, d⟩ _
        rw [ShardedPool.allocate, Op.ends_bind, Mounted.ends_observe, Op.then_ok, Op.Ends,
          overflow_sharded hreaches hoverflow]
        rfl
  | direct i p d =>
    obtain rfl := hreq
    rw [Request.ends_direct]
    cases h with
    | sharded h =>
      have hoverflow := overflow_shard (h.shard i) hfound hlimit
      dsimp only
      rw [dif_pos i.isLt, PoolCall.run, ShardedPool.ends_onShard_map, ShardedPool.ends_onShard]
      change Shard.allocate.Ends _ _
      rw [Op.Ends, hoverflow]
      rfl

theorem Steady.allots {stored : Nat} {ids : List PageId} (h : Steady shape guards next m)
    (hcounted : Counted shape stored next ids) {req : Request n} (hreq : req.call = .allocate) :
    (req.run (D := D)).Ends m (Allots (req.among shape) shape.parts stored ids m) := by
  have hlegal : req.Legal guards := by
    cases req with
    | whole call =>
      obtain rfl : call = .allocate := hreq
      trivial
    | direct i call =>
      obtain rfl : call = .allocate := hreq
      trivial
  refine ((h.request req hlegal).and (h.allocation hreq)).mono fun r m' hm => ?_
  obtain ⟨hsteady, hends⟩ := hm
  rw [hreq] at hsteady
  cases r using Checked.outcomes with
  | ok answer =>
    obtain ⟨next', hadvances, hsteady'⟩ := hsteady nofun
    cases answer with
    | none => exact hends rfl
    | some g =>
      obtain ⟨i, hi, ⟨hlimit, hpage⟩, rfl⟩ := hadvances
      exact h.givesOut hcounted hi (Request.mem_indices hi) hlimit hpage hsteady'
  | error e =>
    obtain ⟨next', rfl, hsteady'⟩ := hsteady nofun
    exact hsteady'.counters_eq.trans h.counters_eq.symm
  | abort a => exact hends.1

end Pool

-- How the pools of a shape begin over a store: with the least numbers that the store does not hold,
-- as long as these are numbers of pages. That memory is short has nothing to do with the numbers.
structure PoolShape.Begins (shape : PoolShape) (n : Nat) {D : Type} [PageStore D] [LawfulStore D]
    (d : D) : Prop where
  starts (pool : Pool n) : (shape.create n d).result = .ok pool →
    pool.counters.map Prod.fst = shape.indices ∧ ∀ part ∈ pool.counters, IsLeast
      {number | (LawfulStore.count d).toNat ≤ number ∧ number % shape.parts = part.1} part.2
  fails (e : StoreError) : (shape.create n d).result = .error (.error e) → LawfulStore.Gives D e
  aborts (a : Abort) : (shape.create n d).result = .error (.abort a) →
    a = .overflow ∨ a = .memory ∧ ¬ shape.Reservable n
  overflow_iff : (∀ e, (shape.create n d).result ≠ .error (.error e)) →
    (shape.create n d).result ≠ .error (.abort .memory) →
    ((shape.create n d).result = .error (.abort .overflow) ↔
      ∃ i ∈ shape.indices, ∃ least, Shard.pageIdLimit ≤ least ∧ IsLeast
        {number | (LawfulStore.count d).toNat ≤ number ∧ number % shape.parts = i} least)

theorem PoolShape.Valid.begins {shape : PoolShape} (hvalid : shape.Valid) {n : Nat} {D : Type}
    [PageStore D] [LawfulStore D] {d : D} (hd : LawfulStore.Sound d) : shape.Begins n d := by
  have hends := create_outcome (n := n) hvalid hd
  have hleast {i : Nat} (hi : i ∈ shape.indices) :=
    Shard.firstId_isLeast (hvalid.lt_parts hi) (LawfulStore.count d).toNat
  unfold Op.Ends at hends
  constructor
  case starts =>
    intro pool hpool
    rw [hpool] at hends
    rw [hends.2.counters_eq]
    refine ⟨by rw [List.map_map]; exact List.map_id _, fun part hpart => ?_⟩
    obtain ⟨i, hi, rfl⟩ := List.mem_map.mp hpart
    exact hleast hi
  case fails =>
    intro e he
    rwa [he] at hends
  case aborts =>
    intro a ha
    rw [ha] at hends
    exact hends.imp_left And.left
  case overflow_iff =>
    intro hanswers hmemory
    cases hr : (shape.create n d).result using Checked.outcomes with
    | ok pool =>
      rw [hr] at hends
      obtain ⟨⟨-, hlimit⟩, _⟩ := hends
      refine iff_of_false nofun ?_
      rintro ⟨i, hi, least, hover, hfirst⟩
      rw [hfirst.unique (hleast hi)] at hover
      exact absurd (hlimit i hi) (Nat.not_lt_of_le hover)
    | error e => exact absurd hr (hanswers e)
    | abort a =>
      rw [hr] at hends
      rcases hends with ⟨rfl, i, hi, hlimit⟩ | ⟨rfl, -⟩
      · exact iff_of_true rfl ⟨i, hi, _, hlimit, hleast hi⟩
      · exact absurd hr hmemory

namespace Pool

variable {n : Nat} {D : Type} [PageStore D] [LawfulStore D]

-- A shard starts at the least number of its part that the store does not hold. Every page that is
-- given out has a number of its own, and it is found in the shard that gave it out and nowhere
-- else.
theorem ids_fresh_and_routed {shape : PoolShape} (hvalid : shape.Valid) {d : D}
    (hd : LawfulStore.Sound d) : shape.Begins n d ∧
    ∀ {m : Mounted (Pool n) D} {guards : List (Guard n)} {ids : List PageId},
      Ran shape d m guards ids → Routed shape (LawfulStore.count d).toNat ids m ∧
        ∀ req : Request n, req.call = .allocate →
          req.run.Ends m (Allots (req.among shape) shape.parts (LawfulStore.count d).toNat ids m) ∧
            ((req.run m).result = .error (.abort .overflow) ↔ ∃ t, req.Reaches m t ∧
              (∃ f, (Shard.acquire t).result = .ok f) ∧
                Shard.pageIdLimit ≤ t.pool.nextId + t.pool.count) := by
  refine ⟨hvalid.begins hd, fun {m guards ids} h => ?_⟩
  obtain ⟨next, hsteady, hcounted⟩ := h.counted hvalid hd
  refine ⟨hsteady.routed hcounted, fun req hreq => ⟨hsteady.allots hcounted hreq, ?_⟩⟩
  constructor
  · intro hoverflow
    have hends := hsteady.allocation hreq
    rw [Op.Ends, hoverflow] at hends
    exact hends.2
  · rintro ⟨t, hreaches, hfound, hlimit⟩
    exact hsteady.overflows hreq hreaches hfound hlimit

-- The pool of the second of three parts, over an empty store, gives out page 1 first.
theorem ids_fresh_and_routed_allocate :
    let m := ((Request.whole .allocate).run
      (⟨.single (Shard.initial 2 2 1 3 1), .empty⟩ : Mounted (Pool 2) MemoryStore)).state
    (PoolShape.single 2 1 3).Begins 2 MemoryStore.empty ∧
      Ran (.single 2 1 3) MemoryStore.empty m [⟨⟨1⟩, 0, .exclusive⟩] [⟨1⟩] ∧
      Routed (.single 2 1 3) 0 [⟨1⟩] m := by
  have hvalid : (PoolShape.single 2 1 3).Valid := by
    rw [PoolShape.Valid]
    decide
  have hcreated : Ran (.single 2 1 3) MemoryStore.empty
      ⟨.single (Shard.initial 2 2 1 3 1), MemoryStore.empty⟩ [] [] := .created rfl
  have hran := hcreated.request (.whole .allocate) trivial nofun
  have hmain := ids_fresh_and_routed (n := 2) hvalid (d := MemoryStore.empty) trivial
  exact ⟨hmain.1, hran, (hmain.2 hran).1⟩

end Pool

end PagedIndex
