import PagedIndex.Proofs.Pool.Sharding

namespace PagedIndex

namespace Shard

variable {n : Nat} {D : Type}

-- A shard that has not been used yet.
def initial (n queueCapacity index count nextId : Nat) : Shard n where
  index
  count
  nextId
  queue := .empty queueCapacity
  frames := Vector.replicate n Frame.empty
  table := ∅
  free := (List.finRange n).filter fun f => Numbered f

@[simp] theorem frame_initial (queueCapacity index count nextId : Nat) (f : Fin n) :
    (initial n queueCapacity index count nextId).frame f = Frame.empty := by
  change (Vector.replicate n Frame.empty)[f] = Frame.empty
  simp

@[simp] theorem free_initial (queueCapacity index count nextId : Nat) :
    (initial n queueCapacity index count nextId).free =
      (List.finRange n).filter fun f => Numbered f := rfl

-- All frames are free if all of them have numbers.
theorem numbered_of_lt (hn : n < frameNumberLimit) (f : Fin n) : Numbered f := by
  rw [Numbered, Nat.mod_eq_of_lt hn]
  exact f.isLt

@[simp] theorem table_initial (queueCapacity index count nextId : Nat) :
    (initial n queueCapacity index count nextId).table = ∅ := rfl

@[simp] theorem queue_initial (queueCapacity index count nextId : Nat) :
    (initial n queueCapacity index count nextId).queue = .empty queueCapacity := rfl

-- A shard that was created has empty frames and starts past the pages that the store holds.
theorem create_ends [PageStore D] {P : UInt32 → D → Prop} (queueCapacity index count : Nat) {d : D}
    (hcount : PageStore.pageCount.Ends d fun
      | .ok stored, d' => P stored d'
      | .error _, _ => True) :
    (create n queueCapacity index count).Ends d fun
      | .ok s, d' => ∃ stored, P stored d' ∧ index < count ∧
          firstId index count stored.toNat < pageIdLimit ∧
          s = initial n queueCapacity index count (firstId index count stored.toNat)
      | .error _, _ => True := by
  have hqueue : (EvictionQueue.create queueCapacity : Checked (EvictionQueue (Fin n))) =
      if queueCapacity ≤ EvictionQueue.maxCapacity then .ok (.empty queueCapacity)
      else Checked.abort .memory := by
    rw [EvictionQueue.create, Checked.require]
    split <;> rfl
  rw [create, Op.ends_bind, Op.ends_liftM, hqueue]
  by_cases hroom : queueCapacity ≤ EvictionQueue.maxCapacity
  · rw [if_pos hroom, Op.then_ok]
    by_cases hindex : count ≤ index
    · simp [hindex]
    · simp only [hindex, if_false, Op.ends_bind]
      refine Op.Ends.mono hcount fun r d' hp => ?_
      cases r with
      | error e => trivial
      | ok stored =>
        simp only [Op.then_ok, Op.ends_bind, Op.ends_require]
        split
        · rename_i hlimit
          split
          · exact ⟨stored, hp, Nat.lt_of_not_le hindex, hlimit, rfl⟩
          · trivial
        · trivial
  · simp [hroom, Checked.abort]

-- One shard for all ids is always created, as every page count is below the limit of the ids.
theorem create_whole_ends [PageStore D] {queueCapacity : Nat} (hn : n ≤ maxFrames)
    (hqueue : queueCapacity ≤ EvictionQueue.maxCapacity) {d : D} {stored : UInt32}
    (hcount : PageStore.pageCount.Ends d fun r d' => r = .ok stored ∧ d' = d) :
    (create n queueCapacity 0 1).Ends d fun r d' =>
      r = .ok (initial n queueCapacity 0 1 (firstId 0 1 stored.toNat)) ∧ d' = d := by
  have hcreate : (EvictionQueue.create queueCapacity : Checked (EvictionQueue (Fin n))) =
      .ok (.empty queueCapacity) := by
    rw [EvictionQueue.create, Checked.require, if_pos hqueue]
    rfl
  have hlimit : firstId 0 1 stored.toNat < pageIdLimit := by
    have hbound := stored.toNat_lt
    simp only [firstId, pageIdLimit]
    omega
  rw [create, Op.ends_bind, Op.ends_liftM, hcreate, Op.then_ok, if_neg (by decide), Op.ends_bind]
  refine hcount.mono fun r d' hr => ?_
  obtain ⟨rfl, rfl⟩ := hr
  simp only [Op.then_ok, Op.ends_bind, Op.ends_require, hlimit, hn, if_true]
  exact ⟨rfl, rfl⟩

theorem initial_sound {index count : Nat} (hindex : index < count) (queueCapacity stored : Nat) :
    Sound ⟨index, count, queueCapacity⟩
      (initial n queueCapacity index count (firstId index count stored)) [] := by
  constructor
  case index_eq => rfl
  case count_eq => rfl
  case capacity_eq => rfl
  case index_lt => exact hindex
  case nextId_mod =>
    change firstId index count stored % count = index
    rw [firstId, Nat.add_mul_mod_self_right, Nat.mod_eq_of_lt hindex]
  case queue => exact EvictionQueue.sound_empty queueCapacity
  case free_nodup => exact (List.nodup_finRange n).filter _
  case queued => simp [EvictionQueue.toList_empty]
  all_goals simp [Frame.empty, pinLimit]

-- The first id is the least of the shard's ids that the store does not hold.
theorem firstId_le_iff (stored : Nat) {index count number : Nat} (hcount : 0 < count)
    (hnumber : number % count = index) :
    firstId index count stored ≤ number ↔ stored ≤ number := by
  have hdecomp := Nat.div_add_mod number count
  rw [hnumber, Nat.mul_comm] at hdecomp
  unfold firstId
  constructor
  · intro hle
    have hceil : stored - index ≤ (stored - index + (count - 1)) / count * count := by
      have hlt := Nat.lt_div_mul_add (a := stored - index + (count - 1)) hcount
      omega
    omega
  · intro hle
    have hceil : (stored - index + (count - 1)) / count ≤ number / count := by
      rw [Nat.div_le_iff_le_mul_add_pred hcount]
      rw [Nat.mul_comm]
      omega
    have hmul := Nat.mul_le_mul_right count hceil
    omega

-- A new shard has the pages of the store, as far as the store holds pages.
theorem initial_caches {index count stored queueCapacity : Nat} (hpos : 0 < count)
    {disk : PageId → Page} {M : Memory}
    (hM : ∀ id : PageId, id.number.toNat % count = index →
      M id = if id.number.toNat < stored then some (disk id) else none)
    (hzero : ∀ id : PageId, stored ≤ id.number.toNat → disk id = Page.zero) :
    (initial n queueCapacity index count (firstId index count stored)).Caches [] disk M where
  shows f id hpage := by
    rw [frame_initial] at hpage
    cases hpage
  absent id howns _ := by
    obtain ⟨_, hpart, hlt⟩ := (owns_iff _ id).mp howns
    have hnot : ¬ stored ≤ id.number.toNat := fun hle =>
      Nat.not_le_of_lt hlt ((firstId_le_iff stored hpos hpart).mpr hle)
    rw [hM id hpart, if_pos (Nat.lt_of_not_le hnot)]
  fresh id hpart hnext := by
    have hle := (firstId_le_iff stored hpos hpart).mp hnext
    exact ⟨by rw [hM id hpart, if_neg (Nat.not_lt_of_le hle)], hzero id hle⟩

end Shard

namespace ShardedPool

variable {n k : Nat} {D : Type} [PageStore D]

-- All shards start past the pages that the store holds, if it answers the same count to all.
theorem createFrom_ends {P : D → Prop} {stored : UInt32}
    (hcount : ∀ d, P d → PageStore.pageCount.Ends d fun
      | .ok answer, d' => answer = stored ∧ P d'
      | .error _, _ => True)
    (left : Nat) {lowerCount : Nat} (lower : Vector (Shard n) lowerCount)
    (hk : lowerCount + left = k)
    (hlower : ∀ (i : Nat) (h : i < lowerCount),
      lower[i] = Shard.initial n n i k (Shard.firstId i k stored.toNat))
    {d : D} (hd : P d) :
    (createFrom n k left lower hk).Ends d fun
      | .ok shards, d' => P d' ∧
          ∀ i : Fin k, shards.get i = Shard.initial n n i k (Shard.firstId i k stored.toNat)
      | .error _, _ => True := by
  induction left generalizing lowerCount d with
  | zero =>
    rw [createFrom, Op.ends_pure]
    refine ⟨hd, fun i => ?_⟩
    change (lower.cast hk)[i.val] = _
    rw [Vector.getElem_cast]
    exact hlower i (by omega)
  | succ left ih =>
    rw [createFrom, Op.ends_bind]
    refine (Shard.create_ends (P := fun answer d' => answer = stored ∧ P d') n lowerCount k
      (hcount d hd)).mono fun r d' hr => ?_
    cases r with
    | error e => trivial
    | ok s =>
      obtain ⟨_, ⟨rfl, hd'⟩, _, _, rfl⟩ := hr
      refine ih _ _ (fun i hi => ?_) hd'
      by_cases hlast : i < lowerCount
      · rw [Vector.getElem_push_lt hlast]
        exact hlower i hlast
      · obtain rfl : i = lowerCount := by omega
        rw [Vector.getElem_push_eq]

end ShardedPool

-- No number is above that of the invalid id.
theorem PageId.ne_invalid_of_lt {id : PageId} {count : UInt32} (h : id.number < count) :
    id ≠ PageId.invalid := by
  rintro rfl
  have hbound := count.toNat_lt
  rw [UInt32.lt_iff_toNat_lt] at h
  simp only [PageId.invalid, UInt32.reduceToNat] at h
  omega

-- A pool that may be asked for.
inductive PoolShape
  -- one shard that is responsible for part of the ids
  | single (queueCapacity index count : Nat)
  | sharded (count : Nat)

namespace PoolShape

def create [PageStore D] (n : Nat) : PoolShape → Op D (Pool n)
  | single queueCapacity index count => Pool.single <$> Shard.create n queueCapacity index count
  | sharded count => Pool.sharded count <$> ShardedPool.create n count

-- The ids that a pool of the shape is responsible for.
def Serves (id : PageId) : PoolShape → Prop
  | single _ index count => id.number.toNat % count = index
  | sharded _ => True

instance (id : PageId) : (shape : PoolShape) → Decidable (shape.Serves id)
  | single _ index count => inferInstanceAs (Decidable (id.number.toNat % count = index))
  | sharded _ => inferInstanceAs (Decidable True)

-- The memory of a new pool: the pages that the store holds.
def memory [PageStore D] [LawfulStore D] (shape : PoolShape) (d : D) : Memory := fun id =>
  if shape.Serves id ∧ id.number < LawfulStore.count d then some (LawfulStore.page d id) else none

variable {n : Nat} {D : Type} [PageStore D] [LawfulStore D]

-- What the shard that is responsible for some of the ids has to show for them.
theorem memory_apply {shape : PoolShape} {d : D} {id : PageId} (hid : shape.Serves id) :
    shape.memory d id = if id.number.toNat < (LawfulStore.count d).toNat
      then some (LawfulStore.page d id) else none := by
  simp [memory, hid, UInt32.lt_iff_toNat_lt]

theorem memory_eq_none {shape : PoolShape} {d : D} {id : PageId}
    (h : ¬ (id ≠ PageId.invalid ∧ shape.Serves id)) : shape.memory d id = none := by
  rw [memory, if_neg]
  rintro ⟨hserves, hcount⟩
  exact h ⟨PageId.ne_invalid_of_lt hcount, hserves⟩

-- The store counts the pages of the memory.
theorem lt_count {shape : PoolShape} {d : D} {id : PageId} {p : Page}
    (h : shape.memory d id = some p) : id.number < LawfulStore.count d := by
  rw [memory] at h
  split at h
  · rename_i hserves
    exact hserves.2
  · cases h

-- A pool of the shape that has not been used yet, over a store with so many pages.
def Initial (stored : Nat) : PoolShape → Pool n → Prop
  | single queueCapacity index count, pool => index < count ∧
    pool = .single (Shard.initial n queueCapacity index count (Shard.firstId index count stored))
  | sharded count, pool => ∃ shards pos, pool = .sharded count ⟨shards, 0, pos⟩ ∧
    ∀ i, shards.get i = Shard.initial n n i count (Shard.firstId i count stored)

-- A pool is created without a change to the pages of its store. `Q` is whatever else asking for the
-- page count does not change.
theorem create_ends (shape : PoolShape) {Q : D → Prop}
    (hQ : ∀ d, Q d → (PageStore.pageCount (D := D)).Ends d fun _ d' => Q d') {d : D}
    (hsound : LawfulStore.Sound d) (hd : Q d) :
    (shape.create n).Ends d fun
      | .ok pool, d' => shape.Initial (LawfulStore.count d).toNat pool ∧ Q d' ∧
          LawfulStore.Sound d' ∧ LawfulStore.page d' = LawfulStore.page d ∧
          LawfulStore.count d' = LawfulStore.count d
      | .error _, _ => True := by
  let P (d' : D) : Prop := Q d' ∧ LawfulStore.Sound d' ∧ LawfulStore.page d' = LawfulStore.page d ∧
    LawfulStore.count d' = LawfulStore.count d
  have hcount (d' : D) (hd' : P d') : PageStore.pageCount.Ends d' fun
      | .ok answer, d'' => answer = LawfulStore.count d ∧ P d''
      | .error _, _ => True := by
    refine ((hQ d' hd'.1).and (LawfulStore.pageCount_ends hd'.2.1)).mono fun r d'' hr => ?_
    cases r with
    | ok answer =>
      obtain ⟨hQ', hanswer, hsound', hpage, hcount⟩ := hr
      exact ⟨hanswer.trans hd'.2.2.2, hQ', hsound', hpage.trans hd'.2.2.1, hcount.trans hd'.2.2.2⟩
    | error e => trivial
  have hstart : P d := ⟨hd, hsound, rfl, rfl⟩
  cases shape with
  | single queueCapacity index count =>
    rw [create, Op.ends_map]
    refine (Shard.create_ends (P := fun answer d' => answer = LawfulStore.count d ∧ P d')
      queueCapacity index count (hcount d hstart)).mono fun r d' hr => ?_
    cases r with
    | error e => trivial
    | ok s =>
      obtain ⟨_, ⟨rfl, hd'⟩, hindex, _, rfl⟩ := hr
      exact ⟨⟨hindex, rfl⟩, hd'⟩
  | sharded count =>
    rw [create, Op.ends_map, ShardedPool.create]
    by_cases hpos : 0 < count
    · simp only [hpos, dif_pos, Op.ends_bind]
      refine (ShardedPool.createFrom_ends hcount count #v[] (Nat.zero_add count)
        (fun i hi => absurd hi (Nat.not_lt_zero i)) hstart).mono fun r d' hr => ?_
      cases r with
      | error e => trivial
      | ok shards => exact ⟨⟨shards, hpos, rfl, hr.2⟩, hr.1⟩
    · simp [hpos]

omit [LawfulStore D] in
theorem create_single_ends {queueCapacity : Nat} (hn : n ≤ Shard.maxFrames)
    (hqueue : queueCapacity ≤ EvictionQueue.maxCapacity) {d : D} {stored : UInt32}
    (hcount : PageStore.pageCount.Ends d fun r d' => r = .ok stored ∧ d' = d) :
    ((single queueCapacity 0 1).create n).Ends d fun r d' =>
      r = .ok (.single (Shard.initial n queueCapacity 0 1 (Shard.firstId 0 1 stored.toNat))) ∧
        d' = d := by
  rw [create, Op.ends_map]
  refine (Shard.create_whole_ends hn hqueue hcount).mono fun r d' hr => ?_
  obtain ⟨rfl, rfl⟩ := hr
  exact ⟨rfl, rfl⟩

-- A new pool keeps the pages of its store, if the store reads as zeroes past its page count.
theorem Initial.kept {shape : PoolShape} {d : D} {pool : Pool n}
    (h : shape.Initial (LawfulStore.count d).toNat pool)
    (hzero : ∀ id : PageId, LawfulStore.count d ≤ id.number → LawfulStore.page d id = Page.zero)
    {d' : D} (hd' : LawfulStore.Sound d') (hpage : LawfulStore.page d' = LawfulStore.page d) :
    Pool.Kept ⟨pool, d'⟩ [] (shape.memory d) := by
  have hzero' (id : PageId) (hid : (LawfulStore.count d).toNat ≤ id.number.toNat) :
      LawfulStore.page d id = Page.zero := hzero id (UInt32.le_iff_toNat_le.mpr hid)
  cases shape with
  | single queueCapacity index count =>
    obtain ⟨hindex, rfl⟩ := h
    refine ⟨⟨⟨index, count, queueCapacity⟩, Shard.initial_sound hindex _ _, hd',
      fun _ _ => rfl, ?_⟩, fun id hid => ?_⟩
    · simp only [hpage]
      exact Shard.initial_caches (by omega) (fun id hid => memory_apply hid) hzero'
    · exact memory_eq_none fun hserved => hid hserved
  | sharded count =>
    obtain ⟨shards, hpos, rfl, hshards⟩ := h
    have hkept : ShardedPool.Kept ⟨⟨shards, 0, hpos⟩, d'⟩ [] (memory (.sharded count) d) := by
      refine ⟨hd', fun i => ⟨?_, hd', fun _ _ => rfl, ?_⟩⟩
      · rw [hshards i]
        exact Shard.initial_sound i.isLt _ _
      · simp only [hshards i, hpage]
        exact Shard.initial_caches hpos
          (fun id _ => memory_apply (show (sharded count).Serves id from trivial)) hzero'
    exact ⟨hkept, fun id hid => memory_eq_none fun hserved =>
      hid ((Pool.serves_sharded hkept id).mpr hserved.1)⟩

end PoolShape

end PagedIndex
