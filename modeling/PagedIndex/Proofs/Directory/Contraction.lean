import PagedIndex.Proofs.Directory.Partition

namespace PagedIndex.Directory

variable {d : Directory}

@[simp] theorem depth_repointed (old new : PageId) (depth : Nat) :
    (d.repointed old new depth).depth = d.depth := rfl

@[simp] theorem size_repointed (old new : PageId) (depth : Nat) :
    (d.repointed old new depth).size = d.size := rfl

-- Slot `s` and its buddy have buckets of depth `n + 1`, of which `old` is dropped and `new` kept.
structure Mergeable (d : Directory) (s n : Nat) (old new : PageId) : Prop where
  slot_lt : s < d.size
  depth_slot : d.depthAt s = n + 1
  depth_buddy : d.depthAt (flipBit s n) = n + 1
  buckets : old = d.bucketAt s ∧ new = d.bucketAt (flipBit s n) ∨
    old = d.bucketAt (flipBit s n) ∧ new = d.bucketAt s

variable {s n : Nat} {old new : PageId}

namespace Partitioned

theorem depth_lt (h : d.Partitioned) (hs : d.Mergeable s n old new) : n < d.depth := by
  have hle := h.depthAt_le s hs.slot_lt
  rw [hs.depth_slot] at hle
  exact hle

theorem buddy_lt (h : d.Partitioned) (hs : d.Mergeable s n old new) : flipBit s n < d.size := by
  have hslot := hs.slot_lt
  rw [size_eq_two_pow] at hslot ⊢
  rw [flipBit, Nat.one_shiftLeft]
  exact Nat.xor_lt_two_pow hslot (Nat.pow_lt_pow_right (by decide) (h.depth_lt hs))

-- The slots of the two buckets are those that agree below the bit in which the buckets differ.
theorem merged_iff (h : d.Partitioned) (hs : d.Mergeable s n old new) {i : Nat} (hi : i < d.size) :
    (d.bucketAt i = old ∨ d.bucketAt i = new) ↔ lowBits n i = lowBits n s := by
  have hslot := h.same_iff s i hs.slot_lt hi
  have hbuddy := h.same_iff (flipBit s n) i (h.buddy_lt hs) hi
  rw [hs.depth_slot, lowBits_succ_eq_iff] at hslot
  rw [hs.depth_buddy, lowBits_succ_eq_iff, lowBits_flipBit, testBit_flipBit] at hbuddy
  have heither : (d.bucketAt i = old ∨ d.bucketAt i = new) ↔
      (d.bucketAt i = d.bucketAt s ∨ d.bucketAt i = d.bucketAt (flipBit s n)) := by
    rcases hs.buckets with ⟨rfl, rfl⟩ | ⟨rfl, rfl⟩
    · rfl
    · exact or_comm
  rw [heither, hslot, hbuddy]
  cases i.testBit n <;> cases s.testBit n <;> simp

-- Before they are merged, both buckets look one bit further.
theorem depthOf_of_mergeable (h : d.Partitioned) (hs : d.Mergeable s n old new) {a : Nat}
    (hlow : lowBits n a = lowBits n s) : d.depthOf a = n + 1 := by
  have ha := d.lowBits_lt_size a
  have hin : d.bucketAt (lowBits d.depth a) = old ∨ d.bucketAt (lowBits d.depth a) = new := by
    rwa [h.merged_iff hs ha, lowBits_lowBits (h.depth_lt hs).le]
  have hslot (heq : d.bucketAt (lowBits d.depth a) = d.bucketAt s) : d.depthOf a = n + 1 :=
    (h.depthAt_eq ha hs.slot_lt heq).trans hs.depth_slot
  have hbuddy (heq : d.bucketAt (lowBits d.depth a) = d.bucketAt (flipBit s n)) :
      d.depthOf a = n + 1 := (h.depthAt_eq ha (h.buddy_lt hs) heq).trans hs.depth_buddy
  rcases hs.buckets with ⟨rfl, rfl⟩ | ⟨rfl, rfl⟩
  · exact hin.elim hslot hbuddy
  · exact hin.elim hbuddy hslot

theorem slot_repointed (h : d.Partitioned) (hs : d.Mergeable s n old new) {i : Nat}
    (hi : i < d.size) :
    (d.repointed old new n).bucketAt i =
        (if d.bucketAt i = old ∨ d.bucketAt i = new then new else d.bucketAt i) ∧
      (d.repointed old new n).depthAt i =
        if d.bucketAt i = old ∨ d.bucketAt i = new then n else d.depthAt i := by
  have hlimit := h.depth_le
  have hdepth := h.depth_lt hs
  have hslot := Directory.slot_repointed d old new n i
  by_cases hin : d.bucketAt i = old ∨ d.bucketAt i = new
  · rw [if_pos ⟨⟨hi, h.lt_slotCount hi⟩, hin⟩] at hslot
    rw [if_pos hin, if_pos hin]
    refine ⟨congrArg Slot.bucket hslot, (congrArg (fun x => x.depth.toNat) hslot).trans ?_⟩
    simp only [UInt8.toNat_ofNat']
    exact Nat.mod_eq_of_lt (by rw [maxDepth] at hlimit; omega)
  · rw [if_neg fun hand => hin hand.2] at hslot
    rw [if_neg hin, if_neg hin]
    exact ⟨congrArg Slot.bucket hslot, congrArg (fun x => x.depth.toNat) hslot⟩

theorem repointed (h : d.Partitioned) (hs : d.Mergeable s n old new) :
    (d.repointed old new n).Partitioned := by
  have hnew : new ≠ PageId.invalid := by
    rcases hs.buckets with ⟨_, rfl⟩ | ⟨_, rfl⟩
    · exact h.valid _ (h.buddy_lt hs)
    · exact h.valid s hs.slot_lt
  constructor
  case depth_le => exact h.depth_le
  case valid =>
    intro i hi
    rw [(h.slot_repointed hs hi).1]
    split
    · exact hnew
    · exact h.valid i hi
  case depthAt_le =>
    intro i hi
    rw [(h.slot_repointed hs hi).2, depth_repointed]
    split
    · exact (h.depth_lt hs).le
    · exact h.depthAt_le i hi
  case same_iff =>
    intro i j hi hj
    obtain ⟨hbi, hdi⟩ := h.slot_repointed hs hi
    obtain ⟨hbj, -⟩ := h.slot_repointed hs hj
    have hmi := h.merged_iff hs hi
    have hmj := h.merged_iff hs hj
    rw [hbi, hbj, hdi]
    by_cases hin : d.bucketAt i = old ∨ d.bucketAt i = new
    · by_cases hjn : d.bucketAt j = old ∨ d.bucketAt j = new
      · rw [if_pos hin, if_pos hjn, if_pos hin]
        exact iff_of_true rfl ((hmj.mp hjn).trans (hmi.mp hin).symm)
      · rw [if_pos hin, if_neg hjn, if_pos hin]
        exact iff_of_false (fun heq => hjn (Or.inr heq)) fun heq =>
          hjn (hmj.mpr (heq.trans (hmi.mp hin)))
    · by_cases hjn : d.bucketAt j = old ∨ d.bucketAt j = new
      · rw [if_neg hin, if_pos hjn, if_neg hin, ← h.same_iff i j hi hj]
        exact iff_of_false (fun heq => hin (Or.inr heq.symm)) fun heq => hin (heq ▸ hjn)
      · rw [if_neg hin, if_neg hjn, if_neg hin]
        exact h.same_iff i j hi hj

-- The hashes of the dropped bucket go to the one that is kept.
theorem owner_repointed (h : d.Partitioned) (hs : d.Mergeable s n old new) (hash : UInt32) :
    (d.repointed old new n).owner hash = if d.owner hash = old then new else d.owner hash := by
  have hroute := (h.slot_repointed hs (d.route_lt_size hash)).1
  refine hroute.trans ?_
  change (if d.owner hash = old ∨ d.owner hash = new then new else d.owner hash) = _
  by_cases hold : d.owner hash = old
  · rw [if_pos (Or.inl hold), if_pos hold]
  · by_cases hnew : d.owner hash = new
    · rw [if_pos (Or.inr hnew), if_neg hold, hnew]
    · rw [if_neg (fun hor => hor.elim hold hnew), if_neg hold]

-- The numbers of the two buckets look one bit less far.
theorem depthOf_repointed (h : d.Partitioned) (hs : d.Mergeable s n old new) (a : Nat) :
    (d.repointed old new n).depthOf a = if lowBits n a = lowBits n s then n else d.depthOf a := by
  have ha := d.lowBits_lt_size a
  have hmerged := h.merged_iff hs ha
  rw [lowBits_lowBits (h.depth_lt hs).le] at hmerged
  simp only [← hmerged]
  exact (h.slot_repointed hs ha).2

end Partitioned

-- The first slot of the bucket that is kept.
theorem first_repointed (h : d.Partitioned) (hs : d.Mergeable s n old new) :
    lowBits n s < d.size ∧ (d.repointed old new n).depthAt (lowBits n s) = n := by
  have hlt : lowBits n s < d.size := by
    rw [size_eq_two_pow]
    exact (lowBits_lt n s).trans_le (Nat.pow_le_pow_right (by decide) (h.depth_lt hs).le)
  refine ⟨hlt, ?_⟩
  rw [(h.slot_repointed hs hlt).2, if_pos ((h.merged_iff hs hlt).mpr (lowBits_lowBits (le_refl n) s))]

theorem Vacant.repointed (h : d.Vacant) (old new : PageId) (depth : Nat) :
    (d.repointed old new depth).Vacant := by
  intro i hi
  rw [size_repointed] at hi
  rw [Directory.slot_repointed, if_neg (fun hand => Nat.not_lt_of_le hi hand.1.1)]
  exact h i hi

section Halved

theorem depth_halved (hd : 0 < d.depth) : d.halved.depth = d.depth - 1 := by
  change (d.globalDepth - 1).toNat = d.globalDepth.toNat - 1
  have hpos : 0 < d.globalDepth.toNat := hd
  rw [UInt32.toNat_sub_of_le]
  · rfl
  · rw [UInt32.le_iff_toNat_le]
    exact hpos

theorem size_halved (hd : 0 < d.depth) : d.size = 2 * d.halved.size := by
  rw [size_eq_two_pow, size_eq_two_pow, depth_halved hd, ← Nat.pow_succ']
  congr 1
  omega

theorem slot_halved_eq (hd : 0 < d.depth) {i : Nat} (hi : i < d.halved.size) :
    d.halved.slot i = d.slot i := by
  have hsize := size_halved hd
  rw [slot_halved, if_neg (by omega)]

-- No bucket looks at the highest bit of a slot number.
def Shallow (d : Directory) : Prop := 0 < d.depth ∧ ∀ i < d.size, d.depthAt i < d.depth

theorem Partitioned.halved (h : d.Partitioned) (hd : d.Shallow) : d.halved.Partitioned := by
  have hsize := size_halved hd.1
  constructor
  case depth_le =>
    rw [depth_halved hd.1]
    exact (Nat.sub_le _ _).trans h.depth_le
  case valid =>
    intro i hi
    rw [bucketAt, slot_halved_eq hd.1 hi]
    exact h.valid i (by omega)
  case depthAt_le =>
    intro i hi
    rw [depthAt, slot_halved_eq hd.1 hi, depth_halved hd.1]
    exact Nat.le_sub_one_of_lt (hd.2 i (by omega))
  case same_iff =>
    intro i j hi hj
    rw [bucketAt, bucketAt, depthAt, slot_halved_eq hd.1 hi, slot_halved_eq hd.1 hj]
    exact h.same_iff i j (by omega) (by omega)

theorem owner_halved (h : d.Partitioned) (hd : d.Shallow) (hash : UInt32) :
    d.halved.owner hash = d.owner hash := by
  have hsize := size_halved hd.1
  have hroute := d.halved.route_lt_size hash
  have hlt : d.halved.route hash < d.size := by omega
  have howner : d.halved.owner hash = d.bucketAt (d.halved.route hash) := by
    rw [owner, bucketAt, slot_halved_eq hd.1 hroute]
    rfl
  rw [howner, eq_comm, h.owner_eq_iff hash hlt]
  have hdepth := hd.2 _ hlt
  rw [route, depth_halved hd.1] at hdepth ⊢
  exact (lowBits_lowBits (by omega) _).symm

theorem depthOf_halved (h : d.Partitioned) (hd : d.Shallow) (a : Nat) :
    d.halved.depthOf a = d.depthOf a := by
  have hlow := d.halved.lowBits_lt_size a
  have hlt : lowBits d.halved.depth a < d.size := by
    have hsize := size_halved hd.1
    omega
  rw [depthOf, depthAt, slot_halved_eq hd.1 hlow]
  change d.depthAt _ = _
  rw [← depthOf_of_lt hlt]
  refine (h.depthOf_eq ?_).symm
  rw [depthOf_of_lt hlt, lowBits_lowBits]
  have hdepth := hd.2 _ hlt
  rw [depth_halved hd.1] at hdepth ⊢
  omega

theorem Vacant.halved (h : d.Vacant) (hd : 0 < d.depth) : d.halved.Vacant := by
  have hsize := size_halved hd
  intro i hi
  rw [slot_halved]
  split
  · rfl
  · exact h i (by omega)

end Halved

section Shrink

theorem canShrink_eq (h : d.Partitioned) [Decidable d.Shallow] :
    d.canShrink = .ok (decide d.Shallow) := by
  have hlimit := h.depth_le
  have hsize := h.size_le
  have hdepth : d.depth < 64 := by
    rw [maxDepth] at hlimit
    omega
  unfold canShrink
  by_cases hzero : d.depth = 0
  · have hnot : ¬ d.Shallow := fun hshallow => Nat.ne_of_gt hshallow.1 hzero
    simp only [hzero, if_true, hnot, decide_false]
    rfl
  · have hall : (List.range (min d.size slotCount)).all (fun i => decide (d.depthAt i < d.depth)) =
        decide d.Shallow := by
      rw [Nat.min_eq_left hsize, Bool.eq_iff_iff]
      simp [Shallow, Nat.pos_of_ne_zero hzero]
    simp only [hzero, if_false, checkedSize, Checked.require, hdepth, if_true]
    change (if (List.range (min d.size slotCount)).all _ = true then _ else _) = _
    rw [hall]
    by_cases hshallow : d.Shallow
    · simp only [hshallow, decide_true, if_true, hsize]
      rfl
    · simp only [hshallow, decide_false, Bool.false_eq_true, if_false]
      rfl

theorem shrink_eq (h : d.Partitioned) (hd : d.Shallow) : d.shrink = .ok d.halved := by
  rw [shrink, if_neg (Nat.ne_of_gt hd.1), checkExtent, Checked.require, if_pos h.depth_le]
  rfl

-- A directory that is not tight can be halved, down to a single slot.
theorem tight_of_not_shallow (h : d.Partitioned) (hd : ¬ d.Shallow) : d.Tight := by
  by_cases hzero : d.depth = 0
  · have hle := h.depthAt_le 0 d.size_pos
    exact ⟨0, d.size_pos, by omega⟩
  · simp only [Shallow, not_and, not_forall, Nat.not_lt] at hd
    obtain ⟨i, hi, hle⟩ := hd (Nat.pos_of_ne_zero hzero)
    exact ⟨i, hi, Nat.le_antisymm (h.depthAt_le i hi) hle⟩

-- A directory that was halved as far as possible. The partition and the bucket and depth of every
-- hash are kept, and so is the first slot of every bucket.
structure Shrunk (d d' : Directory) : Prop where
  partitioned : d'.Partitioned
  vacant : d.Vacant → d'.Vacant
  tight : d'.Tight
  owner_eq (hash : UInt32) : d'.owner hash = d.owner hash
  depthOf_eq (a : Nat) : d'.depthOf a = d.depthOf a
  first_lt (i : Nat) : i < d.size → i < 2 ^ d.depthAt i → i < d'.size

theorem shrinkUpTo_spec (n : Nat) (h : d.Partitioned) (hn : d.depth ≤ n) :
    ∃ d', shrinkUpTo n d = .ok d' ∧ Shrunk d d' := by
  classical
  induction n generalizing d with
  | zero =>
    have hnot : ¬ d.Shallow := fun hshallow => Nat.not_lt_of_le hn hshallow.1
    exact ⟨d, rfl, h, id, tight_of_not_shallow h hnot, fun _ => rfl, fun _ => rfl,
      fun _ hi _ => hi⟩
  | succ n ih =>
    rw [shrinkUpTo, canShrink_eq h]
    by_cases hshallow : d.Shallow
    · have hdepth : d.halved.depth ≤ n := by
        rw [depth_halved hshallow.1]
        omega
      obtain ⟨d', hd', hshrunk⟩ := ih (h.halved hshallow) hdepth
      refine ⟨d', ?_, hshrunk.partitioned, fun hvacant => hshrunk.vacant (hvacant.halved hshallow.1),
        hshrunk.tight, fun hash => ?_, fun a => ?_, fun i hi hfirst => ?_⟩
      · simp only [hshallow, decide_true]
        change (d.shrink >>= shrinkUpTo n) = _
        rw [shrink_eq h hshallow]
        exact hd'
      · rw [hshrunk.owner_eq, owner_halved h hshallow]
      · rw [hshrunk.depthOf_eq, depthOf_halved h hshallow]
      · have hlow : d.depthAt i ≤ d.depth - 1 := Nat.le_sub_one_of_lt (hshallow.2 i hi)
        have hsmall : i < d.halved.size := by
          rw [size_eq_two_pow, depth_halved hshallow.1]
          exact hfirst.trans_le (Nat.pow_le_pow_right (by decide) hlow)
        refine hshrunk.first_lt i hsmall ?_
        rw [depthAt, slot_halved_eq hshallow.1 hsmall]
        exact hfirst
    · refine ⟨d, ?_, h, id, tight_of_not_shallow h hshallow, fun _ => rfl, fun _ => rfl,
        fun _ hi _ => hi⟩
      simp only [hshallow, decide_false]
      rfl

theorem shrinkFully_spec (h : d.Partitioned) : ∃ d', d.shrinkFully = .ok d' ∧ Shrunk d d' :=
  shrinkUpTo_spec d.depth h (Nat.le_refl _)

end Shrink

section Merged

variable {d' : Directory} (h : d.Partitioned) (hs : d.Mergeable s n old new)
  (hshrunk : Shrunk (d.repointed old new n) d')
include h hs hshrunk

-- The hashes of the dropped bucket go to the one that is kept, in a smaller directory also.
theorem owner_merged (hash : UInt32) :
    d'.owner hash = if d.owner hash = old then new else d.owner hash := by
  rw [hshrunk.owner_eq, h.owner_repointed hs]

-- There are no buckets but those from before.
theorem owner_merged_eq (hash : UInt32) : ∃ other, d'.owner hash = d.owner other := by
  rw [owner_merged h hs hshrunk]
  split
  · have hnew : ∃ i < d.size, d.bucketAt i = new := by
      rcases hs.buckets with ⟨_, rfl⟩ | ⟨_, rfl⟩
      · exact ⟨_, h.buddy_lt hs, rfl⟩
      · exact ⟨_, hs.slot_lt, rfl⟩
    obtain ⟨i, hi, rfl⟩ := hnew
    obtain ⟨other, rfl⟩ := h.exists_hash hi
    exact ⟨other, rfl⟩
  · exact ⟨hash, rfl⟩

theorem depthOf_merged (a : Nat) :
    d'.depthOf a = if lowBits n a = lowBits n s then n else d.depthOf a := by
  rw [hshrunk.depthOf_eq, h.depthOf_repointed hs]

-- The first slot of the merged bucket is still there.
theorem first_merged : lowBits n s < d'.size := by
  obtain ⟨hlow, hfirst⟩ := first_repointed h hs
  refine hshrunk.first_lt _ hlow ?_
  rw [hfirst]
  exact lowBits_lt n s

end Merged

-- A bucket that stays by itself, where `Empty` tells which pages are empty: it has no buddy, or the
-- buddy was divided further, or neither of the two is empty.
def Settled (d : Directory) (Empty : PageId → Prop) (s : Nat) : Prop :=
  d.depthAt s = 0 ∨ ∃ n, d.depthAt s = n + 1 ∧ (d.depthAt (flipBit s n) ≠ n + 1 ∨
    ¬ Empty (d.bucketAt s) ∧ ¬ Empty (d.bucketAt (flipBit s n)))

-- One step of merging, at slot `s`.
structure Joins (d : Directory) (Empty : PageId → Prop) (s n : Nat) (old new : PageId)
    (d' : Directory) : Prop where
  mergeable : d.Mergeable s n old new
  empty : Empty old
  shrunk : Shrunk (d.repointed old new n) d'

def StepsTo (d : Directory) (Empty : PageId → Prop) (s : Nat) : Option (Directory × Nat) → Prop
  | none => d.Settled Empty s
  | some (d', next) => ∃ n old new, d.Joins Empty s n old new d' ∧ next = lowBits n s

end PagedIndex.Directory
