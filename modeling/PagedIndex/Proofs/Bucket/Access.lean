import PagedIndex.Bucket.Access
import PagedIndex.Proofs.Bucket.Slots

namespace PagedIndex

namespace Checked

variable {α β : Type} {l : List α}

-- A loop of steps that all answer.
theorem mapM_eq_ok {f : α → Checked β} {g : α → β} (h : ∀ a ∈ l, f a = .ok (g a)) :
    l.mapM f = .ok (l.map g) := by
  induction l with
  | nil => rfl
  | cons a l ih =>
    rw [List.mapM_cons, h a List.mem_cons_self, ih fun b hb => h b (List.mem_cons_of_mem a hb)]
    rfl

theorem filterM_eq_ok {f : α → Checked Bool} {p : α → Bool} (h : ∀ a ∈ l, f a = .ok (p a)) :
    l.filterM f = .ok (l.filter p) := by
  -- the loop gathers the elements in reverse
  have hloop (gathered : List α) : l.filterAuxM f gathered = .ok ((l.filter p).reverse ++ gathered) := by
    induction l generalizing gathered with
    | nil => rfl
    | cons a l ih =>
      rw [List.filterAuxM, h a List.mem_cons_self]
      refine (ih (fun b hb => h b (List.mem_cons_of_mem a hb)) _).trans ?_
      cases hp : p a with
      | false => rw [List.filter_cons_of_neg (by rw [hp]; nofun), cond_false]
      | true =>
        rw [List.filter_cons_of_pos hp, cond_true, List.reverse_cons, List.append_assoc,
          List.singleton_append]
  rw [List.filterM, hloop []]
  change Except.ok ((l.filter p).reverse ++ []).reverse = _
  rw [List.append_nil, List.reverse_reverse]

end Checked

namespace Bucket

variable {K V : Type} [FixedWidth K] [FixedWidth V] (b : Bucket K V)

theorem view_eq : Bucket.view b.page b.capacity = .ok b := by
  obtain ⟨page, capacity, hpos, hle, bitmapSize, rfl⟩ := b
  exact dif_pos ⟨hpos, hle⟩

theorem of_view {page : Page} {capacity : Nat} {b : Bucket K V}
    (h : Bucket.view page capacity = .ok b) : b.page = page ∧ b.capacity = capacity := by
  unfold view at h
  split at h
  · rw [← Except.ok.inj h]
    exact ⟨rfl, rfl⟩
  · cases h

section Slot

variable {i : Nat} (hi : i < maxSlots K V)
include hi

theorem occupiedAt_eq : b.occupiedAt i = .ok (b.occupied i) := by
  have hlayout := b.layout_le
  have hbits := b.maxSlots_le_bits
  change (Checked.require (i / 8 < pageSize) .outOfRange >>= fun _ => _) = _
  rw [Checked.require, if_pos (by omega)]
  rfl

theorem readableAt_eq : b.readableAt i = .ok (b.readable i) := by
  have hlayout := b.layout_le
  have hbits := b.maxSlots_le_bits
  change (Checked.require (b.bitmapSize + i / 8 < pageSize) .outOfRange >>= fun _ => _) = _
  rw [Checked.require, if_pos (by omega)]
  rfl

theorem keyOf_eq : b.keyOf i = .ok (b.keyAt i) := by
  have hend := b.slot_end_le hi
  rw [slotWidth] at hend
  rw [keyOf, Checked.require, if_pos (by omega)]
  rfl

theorem valueOf_eq : b.valueOf i = .ok (b.valueAt i) := by
  have hend := b.slot_end_le hi
  rw [slotWidth] at hend
  rw [valueOf, Checked.require, if_pos (by rw [valueStart]; omega)]
  rfl

theorem checkedHoldsKey_eq (compare : K → K → Ordering) (key : K) :
    b.checkedHoldsKey compare key i = .ok (b.holdsKey compare key i) := by
  rw [checkedHoldsKey, b.readableAt_eq hi, holdsKey]
  cases b.readable i with
  | false => rfl
  | true =>
    change (b.keyOf i >>= fun _ => _) = _
    rw [b.keyOf_eq hi]
    rfl

theorem checkedRemoveAt_eq : b.checkedRemoveAt i = .ok (b.removeAt i) := by
  have hlayout := b.layout_le
  have hbits := b.maxSlots_le_bits
  change (Checked.require (b.bitmapSize + i / 8 < pageSize) .outOfRange >>= fun _ => _) = _
  rw [Checked.require, if_pos (by omega)]
  rfl

end Slot

theorem lt_maxSlots {i : Nat} (hi : i ∈ List.range b.capacity) : i < maxSlots K V :=
  (List.mem_range.mp hi).trans_le b.capacity_le

theorem checkedOverflow_eq : b.checkedOverflow = .ok b.overflow := by
  have hslots : ∀ i ∈ List.range' b.capacity (maxSlots K V - b.capacity),
      b.occupiedAt i = .ok (b.occupied i) := by
    intro i hi
    have hbound := List.mem_range'_1.mp hi
    exact b.occupiedAt_eq (by omega)
  rw [checkedOverflow, Checked.mapM_eq_ok hslots]
  change Except.ok (List.count true _) = _
  rw [overflow, List.count, List.countP_map]
  congr 2
  funext i
  exact beq_true (b.occupied i)

theorem checkedEntries_eq : b.checkedEntries = .ok b.entries := by
  have hpairs : ∀ i ∈ b.liveSlots, (do return (← b.keyOf i, ← b.valueOf i) : Checked (K × V)) =
      .ok (b.keyAt i, b.valueAt i) := by
    intro i hi
    have hslot := b.lt_maxSlots (List.mem_filter.mp hi).1
    rw [b.keyOf_eq hslot, b.valueOf_eq hslot]
    rfl
  rw [checkedEntries, Checked.filterM_eq_ok fun i hi => b.readableAt_eq (b.lt_maxSlots hi)]
  exact Checked.mapM_eq_ok hpairs

theorem checkedGet_eq (compare : K → K → Ordering) (key : K) :
    b.checkedGet compare key = .ok (b.get compare key) := by
  rw [checkedGet, Checked.filterM_eq_ok fun i hi => b.checkedHoldsKey_eq (b.lt_maxSlots hi) compare key]
  exact Checked.mapM_eq_ok fun i hi => b.valueOf_eq (b.lt_maxSlots (List.mem_filter.mp hi).1)

end Bucket

end PagedIndex
