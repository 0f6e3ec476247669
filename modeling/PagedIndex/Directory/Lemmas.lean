import Mathlib.Algebra.Order.Ring.Nat
import PagedIndex.Directory.Resize

namespace PagedIndex.Directory

theorem lowBits_eq_mod (n i : Nat) : lowBits n i = i % 2 ^ n := by
  rw [lowBits, Nat.one_shiftLeft]

theorem lowBits_lt (n i : Nat) : lowBits n i < 2 ^ n := by
  rw [lowBits_eq_mod]
  exact Nat.mod_lt _ (Nat.two_pow_pos n)

theorem testBit_lowBits (n i j : Nat) :
    (lowBits n i).testBit j = (decide (j < n) && i.testBit j) := by
  rw [lowBits_eq_mod, Nat.testBit_mod_two_pow]

-- Numbers agree on the low `n` bits just when their first `n` bits are the same.
theorem lowBits_eq_iff (n i j : Nat) :
    lowBits n i = lowBits n j ↔ ∀ k < n, i.testBit k = j.testBit k := by
  constructor
  · intro h k hk
    have hbit := congrArg (fun x => x.testBit k) h
    simpa [testBit_lowBits, hk] using hbit
  · intro h
    apply Nat.eq_of_testBit_eq
    intro k
    rw [testBit_lowBits, testBit_lowBits]
    by_cases hk : k < n
    · rw [h k hk]
    · simp [hk]

-- Fewer low bits of the low bits are low bits of the number.
theorem lowBits_lowBits (h : m ≤ n) (i : Nat) : lowBits m (lowBits n i) = lowBits m i := by
  rw [lowBits_eq_iff]
  intro k hk
  simp [testBit_lowBits, show k < n by omega]

theorem lowBits_eq_of_le (h : m ≤ n) (hij : lowBits n i = lowBits n j) :
    lowBits m i = lowBits m j := by
  rw [← lowBits_lowBits h i, hij, lowBits_lowBits h]

theorem testBit_flipBit (i n j : Nat) :
    (flipBit i n).testBit j = (i.testBit j ^^ decide (n = j)) := by
  rw [flipBit, Nat.one_shiftLeft, Nat.testBit_xor, Nat.testBit_two_pow]

-- Buddies agree below the bit in which they differ.
theorem lowBits_flipBit (n i : Nat) : lowBits n (flipBit i n) = lowBits n i := by
  rw [lowBits_eq_iff]
  intro k hk
  simp [testBit_flipBit, show n ≠ k by omega]

theorem size_eq_two_pow (d : Directory) : d.size = 2 ^ d.depth := by
  rw [size, Nat.one_shiftLeft]

theorem size_pos (d : Directory) : 0 < d.size := by
  rw [size_eq_two_pow]
  exact Nat.two_pow_pos _

theorem route_lt_size (d : Directory) (hash : UInt32) : d.route hash < d.size := by
  rw [size_eq_two_pow]
  exact lowBits_lt _ _

-- A directory within the depth limit has all its live slots in the page.
theorem size_le_slotCount (d : Directory) (h : d.depth ≤ maxDepth) : d.size ≤ slotCount := by
  rw [size_eq_two_pow]
  exact Nat.pow_le_pow_right (by decide) h

theorem slot_eq_getElem (d : Directory) (h : i < 512) : d.slot i = d.slots[i] := by
  simp [slot, h]

theorem slot_of_le (d : Directory) (h : 512 ≤ i) : d.slot i = Slot.empty := by
  simp [slot, h]

theorem mem_bucketIds (d : Directory) (id : PageId) :
    id ∈ d.bucketIds ↔ ∃ i < d.size, d.bucketAt i = id := by
  simp [bucketIds, liveSlots]

-- Only live slots within the page are changed.
theorem slot_mapLive (d : Directory) (f : Nat → Slot → Slot) (i : Nat) :
    (d.mapLive f).slot i =
      if i < d.size ∧ i < 512 then f i (d.slot i) else d.slot i := by
  by_cases h : i < 512
  · simp only [mapLive, slot, Vector.getElem?_mapIdx]
    simp [h]
  · rw [slot_of_le _ (by omega), slot_of_le _ (by omega), if_neg (by omega)]

theorem slot_repointed (d : Directory) (old new : PageId) (depth i : Nat) :
    (d.repointed old new depth).slot i =
      if (i < d.size ∧ i < 512) ∧ (d.bucketAt i = old ∨ d.bucketAt i = new) then
        ⟨new, UInt8.ofNat depth⟩
      else d.slot i := by
  rw [repointed, slot_mapLive, ite_and (P := i < d.size ∧ i < 512)]
  rfl

theorem slot_divided (d : Directory) (old new : PageId) (depth i : Nat) :
    (d.divided old new depth).slot i =
      if (i < d.size ∧ i < 512) ∧ d.bucketAt i = old then
        ⟨if i.testBit depth then new else old, UInt8.ofNat (depth + 1)⟩
      else d.slot i := by
  rw [divided, slot_mapLive, ite_and (P := i < d.size ∧ i < 512)]
  rfl

-- The upper half of a doubled directory repeats the lower half.
theorem slot_doubled (d : Directory) (h : i < 512) :
    d.doubled.slot i = if d.size ≤ i ∧ i < 2 * d.size then d.slot (i - d.size) else d.slot i := by
  have hi : i - d.size < 512 := by omega
  simp only [doubled, repeatLower, slot, Vector.getElem?_mapIdx]
  simp only [Vector.getElem?_eq_getElem h, Vector.getElem?_eq_getElem hi, Option.map_some,
    Option.getD_some]

-- The upper half of a directory is emptied as it is halved.
theorem slot_halved (d : Directory) (i : Nat) :
    d.halved.slot i =
      if d.size / 2 ≤ i ∧ i < 2 * (d.size / 2) then Slot.empty else d.slot i := by
  by_cases h : i < 512
  · simp only [halved, vacate, slot, Vector.getElem?_mapIdx]
    simp only [Vector.getElem?_eq_getElem h, Option.map_some, Option.getD_some]
  · rw [slot_of_le _ (by omega), slot_of_le _ (by omega), ite_self]

end PagedIndex.Directory
