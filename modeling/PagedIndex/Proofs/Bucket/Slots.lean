import PagedIndex.Bucket.Update
import PagedIndex.Field.Lawful

namespace PagedIndex

-- Encodings that give back what was encoded. They need not use all the byte strings there are.
class RoundTrip (α : Type) [FixedWidth α] : Prop where
  decode_encode (a : α) : FixedWidth.decode (FixedWidth.encode a) = a

instance {α : Type} [FixedWidth α] [LawfulFixedWidth α] : RoundTrip α :=
  ⟨LawfulFixedWidth.decode_encode⟩

namespace Page

theorem bit_congr {p q : Page} {base i : Nat} (h : p.byte (base + i / 8) = q.byte (base + i / 8)) :
    p.bit base i = q.bit base i := by
  rw [bit, bit, h]

theorem slice_congr {p q : Page} {start n : Nat}
    (h : ∀ j < n, p.byte (start + j) = q.byte (start + j)) : p.slice start n = q.slice start n := by
  apply Vector.ext
  intro j hj
  rw [getElem_slice, getElem_slice, h j hj]

end Page

namespace Bucket

variable {K V : Type} [FixedWidth K] [FixedWidth V] (b : Bucket K V)

-- The bitmaps and the slots fit the page.
theorem layout_le : 2 * b.bitmapSize + maxSlots K V * slotWidth K V ≤ pageSize := by
  have hfits := BucketLayout.fits_maxSlots (slotWidth K V)
  rw [b.bitmapSize_eq]
  exact hfits

theorem capacity_le_bits : b.capacity ≤ 8 * b.bitmapSize := by
  have hle := b.capacity_le
  rw [b.bitmapSize_eq, BucketLayout.bitmapBytes]
  omega

theorem maxSlots_le_bits : maxSlots K V ≤ 8 * b.bitmapSize := by
  rw [b.bitmapSize_eq, BucketLayout.bitmapBytes, maxSlots, slotWidth]
  omega

-- A slot of the bucket ends within the page.
theorem slot_end_le {i : Nat} (hi : i < maxSlots K V) :
    b.keyStart i + slotWidth K V ≤ pageSize := by
  have hlayout := b.layout_le
  have hmul := Nat.mul_le_mul_right (slotWidth K V) (Nat.succ_le_of_lt hi)
  rw [Nat.succ_mul] at hmul
  unfold keyStart
  omega

-- Two slots do not overlap.
theorem slots_apart {i j : Nat} (hij : i ≠ j) :
    b.keyStart i + slotWidth K V ≤ b.keyStart j ∨ b.keyStart j + slotWidth K V ≤ b.keyStart i := by
  simp only [keyStart]
  rcases Nat.lt_or_gt_of_ne hij with h | h
  · have hmul := Nat.mul_le_mul_right (slotWidth K V) (Nat.succ_le_of_lt h)
    rw [Nat.succ_mul] at hmul
    omega
  · have hmul := Nat.mul_le_mul_right (slotWidth K V) (Nat.succ_le_of_lt h)
    rw [Nat.succ_mul] at hmul
    omega

section Put

variable {i j : Nat} (key : K) (value : V)

-- The page of `put` before its bits are set.
private def stored (i : Nat) (key : K) (value : V) : Page :=
  (b.page.splice (b.keyStart i) (FixedWidth.encode key)).splice (b.valueStart i)
    (FixedWidth.encode value)

private theorem byte_stored_of_disjoint {x : Nat}
    (hx : x < b.keyStart i ∨ b.keyStart i + slotWidth K V ≤ x) :
    (b.stored i key value).byte x = b.page.byte x := by
  rw [slotWidth] at hx
  rw [stored, Page.byte_splice_of_disjoint _ _ _ (by rw [valueStart]; omega),
    Page.byte_splice_of_disjoint _ _ _ (by omega)]

private theorem page_put :
    (b.put i key value).page = ((b.stored i key value).setBit 0 i).setBit b.bitmapSize i := rfl

@[simp] theorem bitmapSize_put : (b.put i key value).bitmapSize = b.bitmapSize := rfl

@[simp] theorem capacity_put : (b.put i key value).capacity = b.capacity := rfl

-- Past the bitmaps, only the slot is changed.
private theorem byte_put (hi : i < 8 * b.bitmapSize) {x : Nat} (hx : 2 * b.bitmapSize ≤ x) :
    (b.put i key value).page.byte x = (b.stored i key value).byte x := by
  rw [page_put, Page.byte_setBit_of_ne _ _ _ (by omega), Page.byte_setBit_of_ne _ _ _ (by omega)]

theorem occupied_put (hi : i < 8 * b.bitmapSize) (hj : j < 8 * b.bitmapSize) :
    (b.put i key value).occupied j = (decide (i = j) || b.occupied j) := by
  have hlayout := b.layout_le
  have hbit : (b.put i key value).page.bit 0 j = ((b.stored i key value).setBit 0 i).bit 0 j := by
    apply Page.bit_congr
    rw [page_put, Page.byte_setBit_of_ne _ _ _ (by omega)]
  have hold : (b.stored i key value).bit 0 j = b.page.bit 0 j := by
    apply Page.bit_congr
    exact b.byte_stored_of_disjoint key value (Or.inl (by rw [keyStart]; omega))
  rw [occupied, hbit, Page.bit_setBit _ _ _ _ (by omega), hold, occupied]

theorem readable_put (hi : i < 8 * b.bitmapSize) (hj : j < 8 * b.bitmapSize) :
    (b.put i key value).readable j = (decide (i = j) || b.readable j) := by
  have hlayout := b.layout_le
  have hold : ((b.stored i key value).setBit 0 i).bit b.bitmapSize j
      = b.page.bit b.bitmapSize j := by
    apply Page.bit_congr
    rw [Page.byte_setBit_of_ne _ _ _ (by omega)]
    exact b.byte_stored_of_disjoint key value (Or.inl (by rw [keyStart]; omega))
  rw [readable, bitmapSize_put, page_put, Page.bit_setBit _ _ _ _ (by omega), hold, readable]

-- A slot that was stored is read back.
theorem pair_put_self [RoundTrip K] [RoundTrip V] (hi : i < maxSlots K V) :
    (b.put i key value).keyAt i = key ∧ (b.put i key value).valueAt i = value := by
  have hend := b.slot_end_le hi
  have hbits := b.maxSlots_le_bits
  have hstart : 2 * b.bitmapSize ≤ b.keyStart i := by
    unfold keyStart
    omega
  rw [slotWidth] at hend
  constructor
  · have hslice : (b.put i key value).page.slice ((b.put i key value).keyStart i) _
        = FixedWidth.encode key := by
      rw [← Page.slice_splice b.page (b.keyStart i) (FixedWidth.encode key) (by omega)]
      apply Page.slice_congr
      intro x hx
      change (b.put i key value).page.byte (b.keyStart i + x) = _
      rw [byte_put b key value (by omega) (by omega), stored,
        Page.byte_splice_of_disjoint _ _ _ (by rw [valueStart]; omega)]
      rfl
    rw [keyAt_eq_decode, hslice]
    exact RoundTrip.decode_encode key
  · have hslice : (b.put i key value).page.slice ((b.put i key value).valueStart i) _
        = FixedWidth.encode value := by
      rw [← Page.slice_splice (b.page.splice (b.keyStart i) (FixedWidth.encode key))
        (b.valueStart i) (FixedWidth.encode value) (by rw [valueStart]; omega)]
      apply Page.slice_congr
      intro x hx
      change (b.put i key value).page.byte (b.valueStart i + x) = _
      rw [byte_put b key value (by omega) (by rw [valueStart]; omega), stored]
      rfl
    rw [valueAt_eq_decode, hslice]
    exact RoundTrip.decode_encode value

theorem pair_put_of_ne (hi : i < 8 * b.bitmapSize) (hij : i ≠ j) :
    (b.put i key value).keyAt j = b.keyAt j ∧ (b.put i key value).valueAt j = b.valueAt j := by
  have hapart := b.slots_apart hij
  have hstart : 2 * b.bitmapSize ≤ b.keyStart j := by
    unfold keyStart
    omega
  rw [slotWidth] at hapart
  constructor
  · rw [keyAt_eq_decode, keyAt_eq_decode]
    refine congrArg FixedWidth.decode (Page.slice_congr fun x hx => ?_)
    change (b.put i key value).page.byte (b.keyStart j + x) = _
    rw [byte_put b key value hi (by omega)]
    exact b.byte_stored_of_disjoint key value (by rw [slotWidth]; omega)
  · rw [valueAt_eq_decode, valueAt_eq_decode]
    refine congrArg FixedWidth.decode (Page.slice_congr fun x hx => ?_)
    change (b.put i key value).page.byte (b.valueStart j + x) = _
    rw [byte_put b key value hi (by rw [valueStart]; omega)]
    exact b.byte_stored_of_disjoint key value (by rw [slotWidth, valueStart]; omega)

end Put

section RemoveAt

variable {i j : Nat}

@[simp] theorem bitmapSize_removeAt : (b.removeAt i).bitmapSize = b.bitmapSize := rfl

@[simp] theorem capacity_removeAt : (b.removeAt i).capacity = b.capacity := rfl

theorem occupied_removeAt (hj : j < 8 * b.bitmapSize) : (b.removeAt i).occupied j = b.occupied j := by
  apply Page.bit_congr
  rw [removeAt, Page.byte_clearBit_of_ne _ _ _ (by omega)]

theorem readable_removeAt (hi : i < 8 * b.bitmapSize) :
    (b.removeAt i).readable j = (!decide (i = j) && b.readable j) := by
  have hlayout := b.layout_le
  exact Page.bit_clearBit _ _ _ _ (by omega)

theorem pair_removeAt (hi : i < 8 * b.bitmapSize) :
    (b.removeAt i).keyAt j = b.keyAt j ∧ (b.removeAt i).valueAt j = b.valueAt j := by
  have hstart : 2 * b.bitmapSize ≤ b.keyStart j := by
    unfold keyStart
    omega
  constructor
  · rw [keyAt_eq_decode, keyAt_eq_decode]
    refine congrArg FixedWidth.decode (Page.slice_congr fun x _ => ?_)
    have hne : b.bitmapSize + i / 8 ≠ b.keyStart j + x := by omega
    exact Page.byte_clearBit_of_ne _ _ _ hne
  · rw [valueAt_eq_decode, valueAt_eq_decode]
    refine congrArg FixedWidth.decode (Page.slice_congr fun x _ => ?_)
    have hne : b.bitmapSize + i / 8 ≠ b.valueStart j + x := by
      unfold valueStart
      omega
    exact Page.byte_clearBit_of_ne _ _ _ hne

end RemoveAt

section Clear

variable {i : Nat}

@[simp] theorem bitmapSize_clear : b.clear.bitmapSize = b.bitmapSize := rfl

@[simp] theorem capacity_clear : b.clear.capacity = b.capacity := rfl

private theorem byte_clear {x : Nat} (hx : x < 2 * b.bitmapSize) : b.clear.page.byte x = 0 := by
  have hlayout := b.layout_le
  rw [clear, Page.byte_splice, if_pos (by omega)]
  simp [hx]

private theorem bit_eq_false {p : Page} {base : Nat} (h : p.byte (base + i / 8) = 0) :
    p.bit base i = false := by
  simp [Page.bit, h]

theorem occupied_clear (hi : i < 8 * b.bitmapSize) : b.clear.occupied i = false :=
  bit_eq_false (b.byte_clear (by omega))

theorem readable_clear (hi : i < 8 * b.bitmapSize) : b.clear.readable i = false :=
  bit_eq_false (b.byte_clear (by rw [bitmapSize_clear]; omega))

end Clear

-- A page of a bucket without occupied slots has an empty bitmap, and conversely.
theorem isEmpty_iff : b.isEmpty ↔ ∀ i < 8 * b.bitmapSize, b.occupied i = false := by
  simp only [isEmpty, List.all_eq_true, List.mem_range, beq_iff_eq]
  constructor
  · intro h i hi
    exact bit_eq_false (by simpa using h (i / 8) (by omega))
  · intro h x hx
    apply UInt8.toNat_inj.mp
    apply Nat.eq_of_testBit_eq
    intro j
    by_cases hj : j < 8
    · have hbit := h (8 * x + j) (by omega)
      rw [occupied, Page.bit] at hbit
      have hdiv : (8 * x + j) / 8 = x := by omega
      have hmod : (8 * x + j) % 8 = j := by omega
      rw [hdiv, hmod, Nat.zero_add] at hbit
      simpa using hbit
    · have hlt := (b.page.byte x).toNat_lt
      have hpow : 2 ^ 8 ≤ 2 ^ j := Nat.pow_le_pow_right (by decide) (by omega)
      rw [Nat.testBit_lt_two_pow (by omega)]
      simp

end Bucket

end PagedIndex
