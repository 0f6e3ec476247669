import Mathlib.Order.Interval.Finset.Nat
import PagedIndex.Field.Integer
import PagedIndex.Proofs.Bucket.Access

namespace PagedIndex

namespace BucketLayout

variable {slotWidth n m : Nat}

theorem mul_bound_eq (slotWidth n : Nat) :
    n * (4 * slotWidth + 1) = 4 * (n * slotWidth) + n := by
  rw [Nat.mul_add, Nat.mul_one, Nat.mul_left_comm]

-- A slot costs two bits beside its own bytes, whatever the bitmaps are rounded to.
theorem Fits.mul_le (h : Fits slotWidth n) : n * (4 * slotWidth + 1) ≤ 4 * pageSize := by
  have hbits : n ≤ 8 * bitmapBytes n := by
    rw [bitmapBytes]
    omega
  unfold Fits at h
  calc n * (4 * slotWidth + 1) = 4 * (n * slotWidth) + n := mul_bound_eq slotWidth n
    _ ≤ 4 * (n * slotWidth) + 8 * bitmapBytes n := Nat.add_le_add_left hbits _
    _ ≤ 4 * pageSize := by omega

-- So the search starts at a number that is large enough.
theorem isGreatest_maxSlots (slotWidth : Nat) :
    IsGreatest {n | Fits slotWidth n} (maxSlots slotWidth) := by
  refine ⟨fits_maxSlots slotWidth, fun n hn => le_mostUpTo ?_ hn⟩
  rw [Nat.le_div_iff_mul_le (Nat.succ_pos _)]
  exact Fits.mul_le hn

theorem maxSlots_eq_zero_iff : maxSlots slotWidth = 0 ↔ pageSize < slotWidth + 2 := by
  have hone : Fits slotWidth 1 ↔ 2 + slotWidth ≤ pageSize := by
    rw [Fits, Nat.one_mul]
    rfl
  constructor
  · intro hzero
    by_contra hle
    have := (isGreatest_maxSlots slotWidth).2 (hone.mpr (by omega))
    omega
  · intro hlt
    by_contra hpos
    have hfits := fits_maxSlots slotWidth
    have hmul := Nat.le_mul_of_pos_left slotWidth (Nat.pos_of_ne_zero hpos)
    have hbits : 1 ≤ bitmapBytes (maxSlots slotWidth) := by
      rw [bitmapBytes]
      omega
    unfold Fits at hfits
    omega

end BucketLayout

namespace Bucket

open BucketLayout

section Search

variable {slotWidth n : Nat}

theorem word_eq (h : n < UInt64.size) : word n = .ok n := by
  rw [word, Checked.require, if_pos h]
  rfl

theorem extent_eq (h : n * (4 * slotWidth + 1) ≤ 4 * pageSize) :
    extent slotWidth n = .ok (2 * bitmapBytes n + n * slotWidth) := by
  have hsmall := (mul_bound_eq slotWidth n).symm.trans_le h
  have hpage : pageSize = 4096 := rfl
  have hword : UInt64.size = 2 ^ 64 := rfl
  have hbits : 8 * bitmapBytes n ≤ n + 7 := by
    rw [bitmapBytes]
    omega
  rw [extent, word_eq (n := 2 * bitmapBytes n) (by omega), word_eq (n := n * slotWidth) (by omega)]
  exact word_eq (by omega)

-- One round of the search: it ends at a number that fits, and else goes one down.
theorem lowerToFit_succ (h : (n + 1) * (4 * slotWidth + 1) ≤ 4 * pageSize) :
    lowerToFit slotWidth (n + 1) =
      if Fits slotWidth (n + 1) then .ok (n + 1) else lowerToFit slotWidth n := by
  rw [lowerToFit, extent_eq h]
  by_cases hfits : Fits slotWidth (n + 1)
  · rw [if_pos hfits]
    exact if_neg (Nat.not_lt.mpr hfits)
  · rw [if_neg hfits]
    exact if_pos (Nat.not_le.mp hfits)

theorem lowerToFit_eq (h : n * (4 * slotWidth + 1) ≤ 4 * pageSize) :
    lowerToFit slotWidth n = .ok (mostUpTo slotWidth n) := by
  induction n with
  | zero =>
    rw [lowerToFit, extent_eq h, Nat.zero_mul]
    rfl
  | succ n ih =>
    have hlower : n * (4 * slotWidth + 1) ≤ 4 * pageSize :=
      (Nat.mul_le_mul_right _ (Nat.le_succ n)).trans h
    rw [lowerToFit_succ h, mostUpTo, ih hlower]
    split <;> rfl

theorem slotLimit_eq (h : 4 * slotWidth + 1 < UInt64.size) :
    slotLimit slotWidth = .ok (BucketLayout.maxSlots slotWidth) := by
  rw [slotLimit, word_eq (n := 4 * slotWidth) (by omega)]
  change (word (4 * slotWidth + 1) >>= fun width => lowerToFit slotWidth (4 * pageSize / width)) = _
  rw [word_eq h]
  exact lowerToFit_eq (Nat.div_mul_le_self _ _)

end Search

variable {K V : Type} [FixedWidth K] [FixedWidth V]

-- What the page of a bucket is divided into.
inductive Part (slots : Nat)
  | occupied
  | readable
  | slot (i : Fin slots)

variable (b : Bucket K V)

-- The positions of the bytes of a part.
def bytesOf : Part (maxSlots K V) → Finset Nat
  | .occupied => Finset.Ico 0 b.bitmapSize
  | .readable => Finset.Ico b.bitmapSize (2 * b.bitmapSize)
  | .slot i => Finset.Ico (b.keyStart i) (b.keyStart i + slotWidth K V)

def keyBytes (i : Nat) : Finset Nat := Finset.Ico (b.keyStart i) (b.keyStart i + FixedWidth.width K)

def valueBytes (i : Nat) : Finset Nat :=
  Finset.Ico (b.valueStart i) (b.valueStart i + FixedWidth.width V)

-- The parts are within the page and apart. A slot is a key and then a value, and both its bits are
-- in their bitmaps.
structure LaidOut : Prop where
  inside : ∀ part, b.bytesOf part ⊆ Finset.range pageSize
  apart : Pairwise fun part other => Disjoint (b.bytesOf part) (b.bytesOf other)
  split : ∀ i : Fin (maxSlots K V), b.keyBytes i ∪ b.valueBytes i = b.bytesOf (.slot i)
  split_apart : ∀ i : Fin (maxSlots K V), Disjoint (b.keyBytes i) (b.valueBytes i)
  occupied_bit : ∀ i : Fin (maxSlots K V), i.val / 8 ∈ b.bytesOf .occupied
  readable_bit : ∀ i : Fin (maxSlots K V), b.bitmapSize + i / 8 ∈ b.bytesOf .readable

theorem bytesOf_subset (part : Part (maxSlots K V)) : b.bytesOf part ⊆ Finset.range pageSize := by
  have hlayout := b.layout_le
  rw [Finset.range_eq_Ico]
  cases part with
  | occupied => exact Finset.Ico_subset_Ico_right (by omega)
  | readable => exact Finset.Ico_subset_Ico (Nat.zero_le _) (by omega)
  | slot i => exact Finset.Ico_subset_Ico (Nat.zero_le _) (b.slot_end_le i.isLt)

-- The slots come after both bitmaps.
theorem bitmaps_le_keyStart (i : Nat) : 2 * b.bitmapSize ≤ b.keyStart i := Nat.le_add_right _ _

private theorem disjoint_Ico {a b c d : Nat} (h : b ≤ c ∨ d ≤ a) :
    Disjoint (Finset.Ico a b) (Finset.Ico c d) := by
  rw [Finset.disjoint_left]
  intro x hx hy
  rw [Finset.mem_Ico] at hx hy
  omega

theorem pairwise_disjoint_bytesOf :
    Pairwise fun part other => Disjoint (b.bytesOf part) (b.bytesOf other) := by
  intro part other hne
  cases part with
  | occupied =>
    cases other with
    | occupied => exact absurd rfl hne
    | readable => exact disjoint_Ico (Or.inl le_rfl)
    | slot j => exact disjoint_Ico (Or.inl (by have := b.bitmaps_le_keyStart j; omega))
  | readable =>
    cases other with
    | occupied => exact disjoint_Ico (Or.inr le_rfl)
    | readable => exact absurd rfl hne
    | slot j => exact disjoint_Ico (Or.inl (b.bitmaps_le_keyStart j))
  | slot i =>
    cases other with
    | occupied => exact disjoint_Ico (Or.inr (by have := b.bitmaps_le_keyStart i; omega))
    | readable => exact disjoint_Ico (Or.inr (b.bitmaps_le_keyStart i))
    | slot j => exact disjoint_Ico (b.slots_apart fun hij => hne (congrArg _ (Fin.ext hij)))

theorem laidOut : b.LaidOut where
  inside := b.bytesOf_subset
  apart := b.pairwise_disjoint_bytesOf
  split i := by
    have hend : b.valueStart i + FixedWidth.width V = b.keyStart i + slotWidth K V :=
      Nat.add_assoc _ _ _
    have hmiddle : b.keyStart i + FixedWidth.width K = b.valueStart i := rfl
    rw [keyBytes, valueBytes, hmiddle, hend]
    exact Finset.Ico_union_Ico_eq_Ico (Nat.le_add_right _ _) (hend ▸ Nat.le_add_right _ _)
  split_apart i := disjoint_Ico (Or.inl le_rfl)
  occupied_bit i := by
    have hbits := b.maxSlots_le_bits
    exact Finset.mem_Ico.mpr ⟨Nat.zero_le _, by have := i.isLt; omega⟩
  readable_bit i := by
    have hbits := b.maxSlots_le_bits
    exact Finset.mem_Ico.mpr ⟨Nat.le_add_right _ _, by have := i.isLt; omega⟩

-- The search answers for every width whose bound fits a machine word, and its answer is the greatest
-- number of slots that fit beside their bitmaps. A page is divided into that many slots, for any
-- types of that width together and whatever capacity the page is used with.
theorem slotLimit_isGreatest_laidOut {s : Nat} (hs : 4 * s + 1 < UInt64.size) :
    ∃ n, slotLimit s = .ok n ∧ IsGreatest {m | 2 * ((m + 7) / 8) + m * s ≤ 4096} n ∧
      (n = 0 ↔ 4094 < s) ∧
      ∀ (K V : Type) [FixedWidth K] [FixedWidth V],
        FixedWidth.width K + FixedWidth.width V = s →
        ∀ (page : Page) (capacity : Nat), capacity ≤ n →
          (capacity = 0 ∧
            (Bucket.view page capacity : Checked (Bucket K V)) = Checked.abort (.capacity 0 n)) ∨
          ∃ b : Bucket K V, Bucket.view page capacity = .ok b ∧ b.page = page ∧
            b.capacity = capacity ∧ maxSlots K V = n ∧ b.LaidOut := by
  refine ⟨BucketLayout.maxSlots s, slotLimit_eq hs, isGreatest_maxSlots s, ?_, ?_⟩
  · rw [maxSlots_eq_zero_iff, pageSize]
    omega
  · intro K V _ _ hwidth page capacity hcapacity
    have hmax : maxSlots K V = BucketLayout.maxSlots s := congrArg _ hwidth
    by_cases hpos : 0 < capacity
    · have hview : 0 < capacity ∧ capacity ≤ maxSlots K V := ⟨hpos, hcapacity.trans_eq hmax.symm⟩
      refine Or.inr ⟨_, dif_pos hview, rfl, rfl, hmax, laidOut _⟩
    · obtain rfl : capacity = 0 := by omega
      refine Or.inl ⟨rfl, ?_⟩
      rw [view, dif_neg fun h => hpos h.1, hmax]

theorem slotLimit_eight :
    4 * 8 + 1 < UInt64.size ∧ ∃ n, slotLimit 8 = .ok n ∧
      IsGreatest {m | 2 * ((m + 7) / 8) + m * 8 ≤ 4096} n ∧ n ≠ 0 ∧
      ∃ b : Bucket Int32 Int32, Bucket.view Page.zero n = .ok b ∧ b.LaidOut := by
  obtain ⟨n, hn, hgreatest, hzero, hbucket⟩ := slotLimit_isGreatest_laidOut (s := 8) (by decide)
  have hpos : n ≠ 0 := by omega
  refine ⟨by decide, n, hn, hgreatest, hpos, ?_⟩
  obtain ⟨h, -⟩ | ⟨b, hview, -, -, -, hlaid⟩ := hbucket Int32 Int32 rfl Page.zero n le_rfl
  · exact absurd h hpos
  · exact ⟨b, hview, hlaid⟩

end Bucket

end PagedIndex
