import Mathlib.Logic.Relation
import PagedIndex.Proofs.Directory.Checked

namespace PagedIndex.Directory

variable {d d' d'' : Directory}

-- What a hash finds: a bucket, and the number of low bits that the bucket looks at.
def select (d : Directory) (hash : UInt32) : Checked (PageId × Nat) := do
  let i ← d.slotOf hash
  return (← d.bucket i, ← d.localDepth i)

-- The other directory is sound, and every hash finds the same in both.
structure RoutesAlike (d d' : Directory) : Prop where
  partitioned : d'.Partitioned
  select_eq (hash : UInt32) : ∃ found, d.select hash = .ok found ∧ d'.select hash = .ok found

theorem Partitioned.select_eq (h : d.Partitioned) (hash : UInt32) :
    d.select hash = .ok (d.owner hash, d.depthOf hash.toNat) := by
  have hroute := d.route_lt_size hash
  rw [select, h.slotOf_eq]
  change (d.bucket (d.route hash) >>= fun bucket => _) = _
  rw [h.bucket_eq hroute]
  change (d.localDepth (d.route hash) >>= fun depth => _) = _
  rw [h.localDepth_eq hroute]
  rfl

namespace RoutesAlike

theorem of_owner (h : d.Partitioned) (h' : d'.Partitioned)
    (howner : ∀ hash, d'.owner hash = d.owner hash) (hdepth : ∀ a, d'.depthOf a = d.depthOf a) :
    d.RoutesAlike d' := by
  refine ⟨h', fun hash => ⟨_, h.select_eq hash, ?_⟩⟩
  rw [h'.select_eq, howner, hdepth]

theorem refl (h : d.Partitioned) : d.RoutesAlike d :=
  of_owner h h (fun _ => rfl) fun _ => rfl

theorem trans (h : d.RoutesAlike d') (h' : d'.RoutesAlike d'') : d.RoutesAlike d'' := by
  refine ⟨h'.partitioned, fun hash => ?_⟩
  obtain ⟨found, hfirst, hmiddle⟩ := h.select_eq hash
  obtain ⟨found', hmiddle', hlast⟩ := h'.select_eq hash
  obtain rfl : found = found' := Except.ok.inj (hmiddle.symm.trans hmiddle')
  exact ⟨found, hfirst, hlast⟩

theorem found_eq (hroutes : d.RoutesAlike d') (h : d.Partitioned) (hash : UInt32) :
    d'.owner hash = d.owner hash ∧ d'.depthOf hash.toNat = d.depthOf hash.toNat := by
  obtain ⟨found, hfound, hfound'⟩ := hroutes.select_eq hash
  rw [h.select_eq] at hfound
  rw [hroutes.partitioned.select_eq, ← hfound] at hfound'
  exact Prod.mk.inj (Except.ok.inj hfound')

end RoutesAlike

theorem slot_eq_of_parts {i j : Nat} (hbucket : d.bucketAt i = d'.bucketAt j)
    (hdepth : d.depthAt i = d'.depthAt j) : d.slot i = d'.slot j :=
  congrArg₂ Slot.mk hbucket (UInt8.toNat_inj.mp hdepth)

theorem ext_slot (hdepth : d.globalDepth = d'.globalDepth) (hslot : ∀ i < 512, d.slot i = d'.slot i) :
    d = d' := by
  obtain ⟨depth, slots⟩ := d
  obtain ⟨depth', slots'⟩ := d'
  refine congrArg₂ Directory.mk hdepth (Vector.ext fun i hi => ?_)
  have heq := hslot i hi
  rwa [slot_eq_getElem _ hi, slot_eq_getElem _ hi] at heq

-- The live slots are known from what the hashes find. So routing and depth make out a directory whose
-- other slots are blank.
theorem RoutesAlike.eq_of_depth_eq (hroutes : d.RoutesAlike d') (h : d.Partitioned)
    (hvacant : d.Vacant) (hvacant' : d'.Vacant) (hdepth : d'.depth = d.depth) : d' = d := by
  have hsize : d'.size = d.size := by
    rw [size_eq_two_pow, size_eq_two_pow, hdepth]
  refine ext_slot (UInt32.toNat_inj.mp hdepth) fun i _ => ?_
  by_cases hi : i < d.size
  · obtain ⟨hash, rfl⟩ := h.exists_hash hi
    obtain ⟨howner, hlocal⟩ := hroutes.found_eq h hash
    have hslot : d'.slot (d'.route hash) = d.slot (d.route hash) := slot_eq_of_parts howner hlocal
    have hroute : d'.route hash = d.route hash := by rw [route, route, hdepth]
    rwa [hroute] at hslot
  · rw [hvacant i (Nat.le_of_not_lt hi), hvacant' i (hsize.trans_le (Nat.le_of_not_lt hi))]

section Steps

theorem Partitioned.routesAlike_doubled (h : d.Partitioned) (hd : d.depth < maxDepth) :
    d.RoutesAlike d.doubled :=
  .of_owner h (h.doubled hd) (owner_doubled hd) (depthOf_doubled hd)

theorem Partitioned.routesAlike_halved (h : d.Partitioned) (hd : d.Shallow) :
    d.RoutesAlike d.halved :=
  .of_owner h (h.halved hd) (owner_halved h hd) (depthOf_halved h hd)

-- No bucket knows of the new bit yet.
theorem Partitioned.shallow_doubled (h : d.Partitioned) (hd : d.depth < maxDepth) :
    d.doubled.Shallow := by
  refine ⟨by rw [depth_doubled hd]; exact Nat.succ_pos _, fun i hi => ?_⟩
  rw [depthAt, slot_doubled_eq hd hi, depth_doubled hd]
  exact Nat.lt_succ_of_le (h.depthAt_le _ (d.lowBits_lt_size i))

theorem Partitioned.canShrink_iff (h : d.Partitioned) : d.canShrink = .ok true ↔ d.Shallow := by
  classical
  rw [canShrink_eq h, Except.ok.injEq, decide_eq_true_iff]

theorem halved_doubled (h : d.Partitioned) (hvacant : d.Vacant) (hd : d.depth < maxDepth) :
    d.doubled.halved = d := by
  have hshallow := h.shallow_doubled hd
  have hroutes := (h.routesAlike_doubled hd).trans ((h.doubled hd).routesAlike_halved hshallow)
  refine hroutes.eq_of_depth_eq h hvacant ((hvacant.doubled hd).halved hshallow.1) ?_
  rw [depth_halved hshallow.1, depth_doubled hd, Nat.add_sub_cancel]

theorem lowBits_add_two_pow {m n : Nat} (hmn : m ≤ n) (i : Nat) :
    lowBits m (i + 2 ^ n) = lowBits m i := by
  obtain ⟨k, hk⟩ := Nat.pow_dvd_pow 2 hmn
  rw [lowBits_eq_mod, lowBits_eq_mod, hk, Nat.add_mul_mod_self_left]

-- Where no bucket looks at the highest bit, the upper half repeats the lower half.
theorem Partitioned.slot_add_size_halved (h : d.Partitioned) (hd : d.Shallow) {i : Nat}
    (hi : i < d.halved.size) : d.slot (i + d.halved.size) = d.slot i := by
  have hsize := size_halved hd.1
  have hlower : i < d.size := by omega
  have hupper : i + d.halved.size < d.size := by omega
  have hdepth : d.depthAt i ≤ d.depth - 1 := Nat.le_sub_one_of_lt (hd.2 i hlower)
  have hbucket : d.bucketAt (i + d.halved.size) = d.bucketAt i := by
    rw [h.same_iff i _ hlower hupper, size_eq_two_pow, depth_halved hd.1]
    exact lowBits_add_two_pow hdepth i
  exact slot_eq_of_parts hbucket (h.depthAt_eq hupper hlower hbucket)

-- The slots that are not live are not touched.
theorem doubled_halved (h : d.Partitioned) (hd : d.Shallow) : d.halved.doubled = d := by
  have hsize := size_halved hd.1
  have hhalf : d.size / 2 = d.halved.size := by omega
  refine ext_slot (UInt32.sub_add_cancel d.globalDepth 1) fun i hi => ?_
  rw [slot_doubled _ hi]
  split
  · rename_i hupper
    have hlower : i - d.halved.size < d.halved.size := by omega
    rw [slot_halved_eq hd.1 hlower, ← h.slot_add_size_halved hd hlower,
      Nat.sub_add_cancel hupper.1]
  · rename_i hupper
    rw [slot_halved, hhalf, if_neg hupper]

end Steps

-- One change of size: the directory is doubled, or it is halved as far as that is permitted.
inductive Resizes (d d' : Directory) : Prop
  | doubled (grown : d.grow = .ok d')
  | halved (permitted : d.canShrink = .ok true) (shrunk : d.shrink = .ok d')

-- Changes of size one after another.
abbrev Resized : Directory → Directory → Prop := Relation.ReflTransGen Resizes

theorem Resizes.eq_doubled_or_halved (h : d.Partitioned) (hstep : d.Resizes d') :
    (d.depth < maxDepth ∧ d' = d.doubled) ∨ (d.Shallow ∧ d' = d.halved) := by
  cases hstep with
  | doubled grown =>
    by_cases hd : d.depth < maxDepth
    · rw [grow_of_lt hd] at grown
      exact Or.inl ⟨hd, (Except.ok.inj grown).symm⟩
    · rw [grow_of_le (Nat.le_of_not_lt hd)] at grown
      cases grown
  | halved permitted shrunk =>
    have hd := h.canShrink_iff.mp permitted
    rw [shrink_eq h hd] at shrunk
    exact Or.inr ⟨hd, (Except.ok.inj shrunk).symm⟩

theorem Resizes.routesAlike (h : d.Partitioned) (hstep : d.Resizes d') : d.RoutesAlike d' := by
  obtain ⟨hd, rfl⟩ | ⟨hd, rfl⟩ := hstep.eq_doubled_or_halved h
  · exact h.routesAlike_doubled hd
  · exact h.routesAlike_halved hd

theorem Resizes.vacant (h : d.Partitioned) (hvacant : d.Vacant) (hstep : d.Resizes d') :
    d'.Vacant := by
  obtain ⟨hd, rfl⟩ | ⟨hd, rfl⟩ := hstep.eq_doubled_or_halved h
  · exact hvacant.doubled hd
  · exact hvacant.halved hd.1

theorem Resized.routesAlike (h : d.Partitioned) (hrun : d.Resized d') : d.RoutesAlike d' := by
  induction hrun with
  | refl => exact .refl h
  | tail _ hstep ih => exact ih.trans (hstep.routesAlike ih.partitioned)

theorem Resized.vacant (h : d.Partitioned) (hvacant : d.Vacant) (hrun : d.Resized d') :
    d'.Vacant := by
  induction hrun with
  | refl => exact hvacant
  | tail hbefore hstep ih => exact hstep.vacant (Resized.routesAlike h hbefore).partitioned ih

-- However often the directory was doubled and halved on the way.
theorem Resized.eq_of_depth_eq (h : d.Partitioned) (hvacant : d.Vacant) (hrun : d.Resized d')
    (hdepth : d'.depth = d.depth) : d' = d :=
  (Resized.routesAlike h hrun).eq_of_depth_eq h hvacant (Resized.vacant h hvacant hrun) hdepth

-- A sound directory can be doubled up to the depth limit and halved where that is permitted. It stays
-- sound, every hash finds the bucket and the depth that it found before, and the other change gives
-- the directory back. Slots that are not live are blank after a halving, so they have to be blank
-- before a doubling that is to be undone.
theorem resizing_keeps_routing (h : d.Partitioned) :
    (d.depth < maxDepth → ∃ grown, d.grow = .ok grown ∧ d.RoutesAlike grown ∧
      grown.canShrink = .ok true ∧ (d.Vacant → grown.shrink = .ok d)) ∧
    (d.canShrink = .ok true → ∃ shrunk, d.shrink = .ok shrunk ∧ d.RoutesAlike shrunk ∧
      shrunk.grow = .ok d) := by
  constructor
  · intro hd
    have hshallow := h.shallow_doubled hd
    refine ⟨d.doubled, grow_of_lt hd, h.routesAlike_doubled hd,
      (h.doubled hd).canShrink_iff.mpr hshallow, fun hvacant => ?_⟩
    rw [shrink_eq (h.doubled hd) hshallow, halved_doubled h hvacant hd]
  · intro hpermitted
    have hd := h.canShrink_iff.mp hpermitted
    have hroom : d.halved.depth < maxDepth := by
      have hlimit := h.depth_le
      have hpos := hd.1
      rw [depth_halved hd.1]
      omega
    refine ⟨d.halved, shrink_eq h hd, h.routesAlike_halved hd, ?_⟩
    rw [grow_of_lt hroom, doubled_halved h hd]

-- Two buckets that the lowest bit tells apart.
def twoBuckets : Directory := (single ⟨1⟩).doubled.divided ⟨1⟩ ⟨2⟩ 0

theorem resizing_keeps_routing_twoBuckets :
    twoBuckets.Partitioned ∧ twoBuckets.depth < maxDepth ∧ twoBuckets.Vacant ∧
      ∃ grown, twoBuckets.grow = .ok grown ∧ grown.select 7 = .ok (⟨2⟩, 1) ∧
        grown.canShrink = .ok true ∧ grown.shrink = .ok twoBuckets := by
  have hroom : (single ⟨1⟩).depth < maxDepth := by decide
  have hbefore : (single ⟨1⟩).doubled.Partitioned := (partitioned_single (by decide)).doubled hroom
  have hslot (i : Nat) (hi : i < (single ⟨1⟩).doubled.size) :
      (single ⟨1⟩).doubled.slot i = ⟨⟨1⟩, 0⟩ := by
    rw [slot_doubled_eq hroom hi, slot_single]
    exact if_pos (Nat.mod_one i)
  have hdivisible : (single ⟨1⟩).doubled.Divisible 0 ⟨2⟩ := by
    refine ⟨size_pos _, ?_, by decide, fun i hi => ?_⟩
    · rw [depthAt, hslot 0 (size_pos _)]
      decide
    · rw [bucketAt, hslot i hi]
      decide
  have hbucket : (single ⟨1⟩).doubled.bucketAt 0 = ⟨1⟩ := by rw [bucketAt, hslot 0 (size_pos _)]
  have hdepth : (single ⟨1⟩).doubled.depthAt 0 = 0 := by
    rw [depthAt, hslot 0 (size_pos _)]
    rfl
  have hpart := hbefore.divided hdivisible
  have howner := hbefore.owner_divided hdivisible 7
  have hlocal := hbefore.depthOf_divided hdivisible 7
  rw [hbucket, hdepth] at hpart howner hlocal
  rw [owner_doubled hroom, owner_single] at howner
  have hvacant : twoBuckets.Vacant := ((vacant_single ⟨1⟩).doubled hroom).divided _ _ _
  obtain ⟨grown, hgrown, hroutes, hpermitted, hshrink⟩ :=
    (resizing_keeps_routing hpart).1 (by decide : twoBuckets.depth < maxDepth)
  refine ⟨hpart, by decide, hvacant, grown, hgrown, ?_, hpermitted, hshrink hvacant⟩
  obtain ⟨found, hfound, hfound'⟩ := hroutes.select_eq 7
  rw [hfound', ← hfound, hpart.select_eq]
  exact congrArg₂ (fun bucket depth => Except.ok (bucket, depth)) howner (hlocal.trans (if_pos rfl))

end PagedIndex.Directory
