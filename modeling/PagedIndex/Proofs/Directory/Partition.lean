import PagedIndex.Directory.Lemmas

namespace PagedIndex.Directory

variable {d : Directory}

-- Every live slot has a bucket, and the slots of a bucket are those that have its low bits.
structure Partitioned (d : Directory) : Prop where
  depth_le : d.depth ≤ maxDepth
  valid (i : Nat) : i < d.size → d.bucketAt i ≠ PageId.invalid
  depthAt_le (i : Nat) : i < d.size → d.depthAt i ≤ d.depth
  -- a bucket is shared by the slots that agree on as many low bits as its depth says
  same_iff (i j : Nat) : i < d.size → j < d.size →
    (d.bucketAt j = d.bucketAt i ↔ lowBits (d.depthAt i) j = lowBits (d.depthAt i) i)

-- Some bucket needs all the bits that the directory is addressed with.
def Tight (d : Directory) : Prop := ∃ i < d.size, d.depthAt i = d.depth

-- The slots that are not live are blank.
def Vacant (d : Directory) : Prop := ∀ i, d.size ≤ i → d.slot i = Slot.empty

-- The bucket of a hash.
def owner (d : Directory) (hash : UInt32) : PageId := d.bucketAt (d.route hash)

-- The number of low bits that the bucket of a number looks at.
def depthOf (d : Directory) (a : Nat) : Nat := d.depthAt (lowBits d.depth a)

theorem lowBits_lt_size (d : Directory) (a : Nat) : lowBits d.depth a < d.size := by
  rw [size_eq_two_pow]
  exact lowBits_lt _ _

theorem depthOf_of_lt {i : Nat} (hi : i < d.size) : d.depthOf i = d.depthAt i := by
  rw [depthOf, lowBits_eq_mod, ← size_eq_two_pow, Nat.mod_eq_of_lt hi]

namespace Partitioned

-- Every live slot is the slot of some hash.
theorem exists_hash (h : d.Partitioned) {i : Nat} (hi : i < d.size) : ∃ hash, d.route hash = i := by
  have hsmall : i < 2 ^ 32 := hi.trans_le ((d.size_le_slotCount h.depth_le).trans (by decide))
  refine ⟨UInt32.ofNat i, ?_⟩
  rw [route, lowBits_eq_mod, ← size_eq_two_pow, UInt32.toNat_ofNat_of_lt' hsmall,
    Nat.mod_eq_of_lt hi]

theorem size_le (h : d.Partitioned) : d.size ≤ 512 := d.size_le_slotCount h.depth_le

theorem lt_slotCount (h : d.Partitioned) {i : Nat} (hi : i < d.size) : i < 512 :=
  hi.trans_le h.size_le

-- Slots of one bucket have one depth.
theorem depthAt_eq (h : d.Partitioned) {i j : Nat} (hi : i < d.size) (hj : j < d.size)
    (hbucket : d.bucketAt i = d.bucketAt j) : d.depthAt i = d.depthAt j := by
  -- the bucket of a smaller depth would have a slot that differs from the other in a bit that counts
  have hle (i j : Nat) (hi : i < d.size) (hj : j < d.size) (hbucket : d.bucketAt i = d.bucketAt j) :
      d.depthAt j ≤ d.depthAt i := by
    by_contra hlt
    have hbit : d.depthAt i < d.depth := by
      have hle := h.depthAt_le j hj
      omega
    have hflip : flipBit j (d.depthAt i) < d.size := by
      rw [size_eq_two_pow] at hj ⊢
      rw [flipBit, Nat.one_shiftLeft]
      exact Nat.xor_lt_two_pow hj (Nat.pow_lt_pow_right (by decide) hbit)
    have hsame : d.bucketAt (flipBit j (d.depthAt i)) = d.bucketAt j := by
      rw [← hbucket, h.same_iff i _ hi hflip, lowBits_flipBit]
      exact (h.same_iff i j hi hj).mp hbucket.symm
    have hlow := (lowBits_eq_iff _ _ _).mp ((h.same_iff j _ hj hflip).mp hsame) (d.depthAt i)
      (by omega)
    rw [testBit_flipBit] at hlow
    simp at hlow
  exact Nat.le_antisymm (hle j i hj hi hbucket.symm) (hle i j hi hj hbucket)

-- The bucket of a hash is the bucket of any slot that agrees with the hash as far as it looks.
theorem owner_eq_iff (h : d.Partitioned) (hash : UInt32) {i : Nat} (hi : i < d.size) :
    d.owner hash = d.bucketAt i ↔ lowBits (d.depthAt i) hash.toNat = lowBits (d.depthAt i) i := by
  rw [owner, h.same_iff i _ hi (d.route_lt_size hash), route, lowBits_lowBits (h.depthAt_le i hi)]

theorem depthOf_le (h : d.Partitioned) (a : Nat) : d.depthOf a ≤ d.depth :=
  h.depthAt_le _ (d.lowBits_lt_size a)

-- Numbers that agree as far as the bucket of one of them looks have one bucket.
theorem depthOf_eq (h : d.Partitioned) {a b : Nat}
    (hlow : lowBits (d.depthOf a) b = lowBits (d.depthOf a) a) : d.depthOf b = d.depthOf a := by
  have ha := d.lowBits_lt_size a
  have hb := d.lowBits_lt_size b
  have hle : d.depthAt (lowBits d.depth a) ≤ d.depth := h.depthOf_le a
  refine h.depthAt_eq hb ha ((h.same_iff _ _ ha hb).mpr ?_)
  rw [lowBits_lowBits hle, lowBits_lowBits hle]
  exact hlow

theorem owner_eq_owner_iff (h : d.Partitioned) (hash other : UInt32) :
    d.owner other = d.owner hash ↔
      lowBits (d.depthOf hash.toNat) other.toNat = lowBits (d.depthOf hash.toNat) hash.toNat := by
  have hiff := h.owner_eq_iff other (d.route_lt_size hash)
  have hle : d.depthAt (d.route hash) ≤ d.depth := h.depthOf_le hash.toNat
  rw [route] at hiff hle
  rwa [lowBits_lowBits hle] at hiff

end Partitioned

section Single

variable (bucket : PageId)

@[simp] theorem depth_single : (single bucket).depth = 0 := rfl

@[simp] theorem size_single : (single bucket).size = 1 := rfl

theorem slot_single (i : Nat) :
    (single bucket).slot i = if i = 0 then ⟨bucket, 0⟩ else Slot.empty := by
  by_cases hi : i < 512
  · rw [slot_eq_getElem _ hi]
    simp only [single]
    rw [Vector.getElem_set]
    by_cases h0 : i = 0
    · simp [h0]
    · simp [h0, Ne.symm h0]
  · rw [slot_of_le _ (by omega), if_neg (by omega)]

theorem bucketAt_single : (single bucket).bucketAt 0 = bucket := by
  rw [bucketAt, slot_single, if_pos rfl]

theorem partitioned_single {bucket : PageId} (hvalid : bucket ≠ PageId.invalid) :
    (single bucket).Partitioned where
  depth_le := Nat.zero_le _
  valid i hi := by
    obtain rfl : i = 0 := by simpa using hi
    rw [bucketAt_single]
    exact hvalid
  depthAt_le i hi := by
    obtain rfl : i = 0 := by simpa using hi
    simp [depthAt, slot_single]
  same_iff i j hi hj := by
    obtain rfl : i = 0 := by simpa using hi
    obtain rfl : j = 0 := by simpa using hj
    simp

theorem tight_single : (single bucket).Tight := ⟨0, by simp, by simp [depthAt, slot_single]⟩

theorem vacant_single : (single bucket).Vacant := by
  intro i hi
  rw [size_single] at hi
  rw [slot_single, if_neg (by omega)]

theorem owner_single (hash : UInt32) : (single bucket).owner hash = bucket := by
  have hroute := (single bucket).route_lt_size hash
  rw [size_single] at hroute
  obtain hzero : (single bucket).route hash = 0 := by omega
  rw [owner, hzero, bucketAt_single]

theorem depthOf_single (a : Nat) : (single bucket).depthOf a = 0 := by
  have hlow := (single bucket).lowBits_lt_size a
  rw [size_single] at hlow
  rw [depthOf, depthAt, slot_single, if_pos (by omega)]
  rfl

end Single

section Doubled

theorem depth_doubled (hd : d.depth < maxDepth) : d.doubled.depth = d.depth + 1 := by
  change (d.globalDepth + 1).toNat = d.globalDepth.toNat + 1
  have hlt : d.globalDepth.toNat < 9 := hd
  rw [UInt32.toNat_add]
  simp only [UInt32.reduceToNat]
  omega

theorem size_doubled (hd : d.depth < maxDepth) : d.doubled.size = 2 * d.size := by
  rw [size_eq_two_pow, size_eq_two_pow, depth_doubled hd, Nat.pow_succ, Nat.mul_comm]

-- A slot of the doubled directory is the slot of its lower bits.
theorem slot_doubled_eq (hd : d.depth < maxDepth) {i : Nat} (hi : i < d.doubled.size) :
    d.doubled.slot i = d.slot (lowBits d.depth i) := by
  have hle : d.doubled.size ≤ 512 := by
    apply size_le_slotCount
    rw [depth_doubled hd]
    exact hd
  rw [slot_doubled d (by omega), lowBits_eq_mod, ← size_eq_two_pow]
  rw [size_doubled hd] at hi
  split
  · rename_i h
    have hmod : i % d.size = i - d.size := by
      rw [Nat.mod_eq_sub_mod h.1, Nat.mod_eq_of_lt (by omega)]
    rw [hmod]
  · rw [Nat.mod_eq_of_lt (by omega)]

theorem Partitioned.doubled (h : d.Partitioned) (hd : d.depth < maxDepth) :
    d.doubled.Partitioned := by
  have hlow (i : Nat) : lowBits d.depth i < d.size := by
    rw [size_eq_two_pow]
    exact lowBits_lt _ _
  constructor
  case depth_le =>
    rw [depth_doubled hd]
    exact hd
  case valid =>
    intro i hi
    rw [bucketAt, slot_doubled_eq hd hi]
    exact h.valid _ (hlow i)
  case depthAt_le =>
    intro i hi
    rw [depthAt, slot_doubled_eq hd hi, depth_doubled hd]
    exact Nat.le_succ_of_le (h.depthAt_le _ (hlow i))
  case same_iff =>
    intro i j hi hj
    have hsame := h.same_iff _ _ (hlow i) (hlow j)
    rw [lowBits_lowBits (h.depthAt_le _ (hlow i)), lowBits_lowBits (h.depthAt_le _ (hlow i))] at hsame
    rw [bucketAt, bucketAt, depthAt, slot_doubled_eq hd hi, slot_doubled_eq hd hj]
    exact hsame

theorem owner_doubled (hd : d.depth < maxDepth) (hash : UInt32) :
    d.doubled.owner hash = d.owner hash := by
  rw [owner, bucketAt, slot_doubled_eq hd (d.doubled.route_lt_size hash), route, depth_doubled hd,
    lowBits_lowBits (Nat.le_succ _)]
  rfl

theorem depthOf_doubled (hd : d.depth < maxDepth) (a : Nat) : d.doubled.depthOf a = d.depthOf a := by
  rw [depthOf, depthAt, slot_doubled_eq hd (d.doubled.lowBits_lt_size a), depth_doubled hd,
    lowBits_lowBits (Nat.le_succ _)]
  rfl

theorem Vacant.doubled (h : d.Vacant) (hd : d.depth < maxDepth) : d.doubled.Vacant := by
  intro i hi
  rw [size_doubled hd] at hi
  by_cases h512 : i < 512
  · rw [slot_doubled d h512, if_neg (by omega)]
    exact h i (by omega)
  · exact slot_of_le _ (by omega)

end Doubled

section Divided

theorem lowBits_succ_eq_iff (n i j : Nat) : lowBits (n + 1) i = lowBits (n + 1) j ↔
    lowBits n i = lowBits n j ∧ i.testBit n = j.testBit n := by
  simp only [lowBits_eq_iff]
  constructor
  · exact fun h => ⟨fun k hk => h k (by omega), h n (by omega)⟩
  · rintro ⟨hlow, hbit⟩ k hk
    by_cases hkn : k = n
    · rw [hkn, hbit]
    · exact hlow k (by omega)

@[simp] theorem depth_divided (old new : PageId) (depth : Nat) :
    (d.divided old new depth).depth = d.depth := rfl

@[simp] theorem size_divided (old new : PageId) (depth : Nat) :
    (d.divided old new depth).size = d.size := rfl

-- Slot `s` is to be divided by the next bit, which the directory has, with a page that is not in
-- use yet.
structure Divisible (d : Directory) (s : Nat) (new : PageId) : Prop where
  slot_lt : s < d.size
  depth_lt : d.depthAt s < d.depth
  valid : new ≠ PageId.invalid
  unused (i : Nat) : i < d.size → d.bucketAt i ≠ new

variable {s : Nat} {new : PageId}

namespace Partitioned

theorem slot_divided (h : d.Partitioned) (hs : d.Divisible s new) {i : Nat} (hi : i < d.size) :
    (d.divided (d.bucketAt s) new (d.depthAt s)).bucketAt i =
        (if d.bucketAt i = d.bucketAt s then
          if i.testBit (d.depthAt s) then new else d.bucketAt s
        else d.bucketAt i) ∧
      (d.divided (d.bucketAt s) new (d.depthAt s)).depthAt i =
        if d.bucketAt i = d.bucketAt s then d.depthAt s + 1 else d.depthAt i := by
  have hlimit := h.depth_le
  have hdepth := hs.depth_lt
  have hslot := Directory.slot_divided d (d.bucketAt s) new (d.depthAt s) i
  by_cases hold : d.bucketAt i = d.bucketAt s
  · rw [if_pos ⟨⟨hi, h.lt_slotCount hi⟩, hold⟩] at hslot
    rw [if_pos hold, if_pos hold]
    refine ⟨congrArg Slot.bucket hslot, (congrArg (fun x => x.depth.toNat) hslot).trans ?_⟩
    simp only [UInt8.toNat_ofNat']
    exact Nat.mod_eq_of_lt (by rw [maxDepth] at hlimit; omega)
  · rw [if_neg fun hand => hold hand.2] at hslot
    rw [if_neg hold, if_neg hold]
    exact ⟨congrArg Slot.bucket hslot, congrArg (fun x => x.depth.toNat) hslot⟩

theorem divided (h : d.Partitioned) (hs : d.Divisible s new) :
    (d.divided (d.bucketAt s) new (d.depthAt s)).Partitioned := by
  have hne := hs.unused s hs.slot_lt
  constructor
  case depth_le => exact h.depth_le
  case valid =>
    intro i hi
    rw [(h.slot_divided hs hi).1]
    split
    · split
      · exact hs.valid
      · exact h.valid s hs.slot_lt
    · exact h.valid i hi
  case depthAt_le =>
    intro i hi
    rw [(h.slot_divided hs hi).2, depth_divided]
    split
    · exact hs.depth_lt
    · exact h.depthAt_le i hi
  case same_iff =>
    intro i j hi hj
    obtain ⟨hbi, hdi⟩ := h.slot_divided hs hi
    obtain ⟨hbj, -⟩ := h.slot_divided hs hj
    have hsi := h.same_iff s i hs.slot_lt hi
    have hsj := h.same_iff s j hs.slot_lt hj
    rw [hbi, hbj, hdi]
    by_cases hoi : d.bucketAt i = d.bucketAt s
    · by_cases hoj : d.bucketAt j = d.bucketAt s
      · -- both pages come from the old one, and the next bit tells which
        rw [if_pos hoi, if_pos hoj, if_pos hoi, lowBits_succ_eq_iff]
        have hlow := (hsj.mp hoj).trans (hsi.mp hoi).symm
        cases i.testBit (d.depthAt s) <;> cases j.testBit (d.depthAt s) <;>
          simp [hlow, hne, Ne.symm hne]
      · rw [if_pos hoi, if_neg hoj, if_pos hoi, lowBits_succ_eq_iff]
        refine iff_of_false (fun heq => ?_) fun heq => hoj (hsj.mpr (heq.1.trans (hsi.mp hoi)))
        split at heq
        · exact hs.unused j hj heq
        · exact hoj heq
    · by_cases hoj : d.bucketAt j = d.bucketAt s
      · rw [if_neg hoi, if_pos hoj, if_neg hoi, ← h.same_iff i j hi hj]
        refine iff_of_false (fun heq => ?_) fun heq => hoi (heq.symm.trans hoj)
        split at heq
        · exact hs.unused i hi heq.symm
        · exact hoi heq.symm
      · rw [if_neg hoi, if_neg hoj, if_neg hoi]
        exact h.same_iff i j hi hj

-- The hashes of the old page go by their next bit.
theorem owner_divided (h : d.Partitioned) (hs : d.Divisible s new) (hash : UInt32) :
    (d.divided (d.bucketAt s) new (d.depthAt s)).owner hash =
      if d.owner hash = d.bucketAt s then
        if hash.toNat.testBit (d.depthAt s) then new else d.bucketAt s
      else d.owner hash := by
  have hbit : (d.route hash).testBit (d.depthAt s) = hash.toNat.testBit (d.depthAt s) := by
    rw [route, testBit_lowBits]
    simp [hs.depth_lt]
  have hroute := (h.slot_divided hs (d.route_lt_size hash)).1
  rw [hbit] at hroute
  exact hroute

-- The numbers of the old page look one bit further.
theorem depthOf_divided (h : d.Partitioned) (hs : d.Divisible s new) (a : Nat) :
    (d.divided (d.bucketAt s) new (d.depthAt s)).depthOf a =
      if lowBits (d.depthAt s) a = lowBits (d.depthAt s) s then d.depthAt s + 1 else d.depthOf a := by
  have ha := d.lowBits_lt_size a
  have hsame := h.same_iff s _ hs.slot_lt ha
  rw [lowBits_lowBits (h.depthAt_le s hs.slot_lt)] at hsame
  simp only [← hsame]
  exact (h.slot_divided hs ha).2

-- Either the slot gets as deep as the directory, or another slot was that deep before.
theorem tight_divided (h : d.Partitioned) (hs : d.Divisible s new)
    (htight : d.Tight ∨ d.depthAt s + 1 = d.depth) :
    (d.divided (d.bucketAt s) new (d.depthAt s)).Tight := by
  rcases htight with ⟨i, hi, hdeep⟩ | hdeep
  · refine ⟨i, hi, ?_⟩
    have hother : d.bucketAt i ≠ d.bucketAt s := fun heq => by
      have hsame := h.depthAt_eq hi hs.slot_lt heq
      have hlt := hs.depth_lt
      omega
    rw [(h.slot_divided hs hi).2, if_neg hother]
    exact hdeep
  · refine ⟨s, hs.slot_lt, ?_⟩
    rw [(h.slot_divided hs hs.slot_lt).2, if_pos rfl]
    exact hdeep

end Partitioned

theorem Vacant.divided (h : d.Vacant) (old new : PageId) (depth : Nat) :
    (d.divided old new depth).Vacant := by
  intro i hi
  rw [size_divided] at hi
  rw [Directory.slot_divided, if_neg (fun hand => Nat.not_lt_of_le hi hand.1.1)]
  exact h i hi

end Divided

end PagedIndex.Directory
