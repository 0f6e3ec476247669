import PagedIndex.Proofs.Bucket.Slots

namespace PagedIndex

variable {K V : Type}

-- The pair that removing `key` and `value` looks for, or that refuses their insertion.
def matchesPair [DecidableEq V] (compare : K → K → Ordering) (key : K) (value : V)
    (pair : K × V) : Bool := (compare pair.1 key).isEq && pair.2 = value

-- No pair of the list would have been refused after the ones before it.
def Distinct [DecidableEq V] (compare : K → K → Ordering) (pairs : List (K × V)) : Prop :=
  pairs.Pairwise fun earlier later => matchesPair compare later.1 later.2 earlier = false

namespace Bucket

variable [FixedWidth K] [FixedWidth V] {b : Bucket K V} {m : Nat}

-- The first `m` slots are those that are occupied.
structure Packed (b : Bucket K V) (m : Nat) : Prop where
  le_capacity : m ≤ b.capacity
  occupied_eq (i : Nat) : i < 8 * b.bitmapSize → b.occupied i = decide (i < m)
  lt_of_readable (i : Nat) : i < 8 * b.bitmapSize → b.readable i → i < m

theorem count_eq_length (b : Bucket K V) : b.count = b.entries.length := by
  rw [count, entries, liveSlots, List.length_map, List.countP_eq_length_filter]

theorem length_entries_le (b : Bucket K V) : b.entries.length ≤ b.capacity := by
  rw [entries, List.length_map, liveSlots]
  exact (List.length_filter_le _ _).trans_eq List.length_range

theorem get_eq_entries (b : Bucket K V) (compare : K → K → Ordering) (key : K) :
    b.get compare key =
      (b.entries.filter fun pair => (compare pair.1 key).isEq).map Prod.snd := by
  rw [get, entries, liveSlots, List.filter_map, List.map_map, List.filter_filter]
  congr 1
  apply List.filter_congr
  intro i _
  simp [holdsKey, Bool.and_comm]

theorem hasKey_eq_any (b : Bucket K V) (compare : K → K → Ordering) (key : K) :
    b.hasKey compare key = b.entries.any fun pair => (compare pair.1 key).isEq := by
  rw [hasKey, entries, liveSlots, List.any_map, List.any_filter]
  rfl

section Find

variable [DecidableEq V] (b : Bucket K V) (compare : K → K → Ordering) (key : K) (value : V)

theorem find?_eq : b.find? compare key value = b.liveSlots.find? fun i =>
    matchesPair compare key value (b.keyAt i, b.valueAt i) := by
  rw [find?, liveSlots, List.find?_filter]
  congr 1
  funext i
  rw [Bool.eq_iff_iff]
  simp [holdsKey, matchesPair, and_assoc]

theorem contains_eq_any :
    b.contains compare key value = b.entries.any (matchesPair compare key value) := by
  rw [contains, find?_eq, entries, List.any_map, Bool.eq_iff_iff, List.find?_isSome,
    List.any_eq_true]
  rfl

end Find

theorem nodup_liveSlots (b : Bucket K V) : b.liveSlots.Nodup := List.nodup_range.filter _

-- Taking out the first element that satisfies `p`, by its value.
private theorem filter_ne_eq_eraseP {xs : List Nat} (hxs : xs.Nodup) {p : Nat → Bool} {i : Nat}
    (hi : xs.find? p = some i) : xs.filter (fun j => !decide (i = j)) = xs.eraseP p := by
  induction xs with
  | nil => cases hi
  | cons x xs ih =>
    obtain ⟨hx, hxs⟩ := List.nodup_cons.mp hxs
    rw [List.find?_cons] at hi
    cases hp : p x with
    | true =>
      rw [hp] at hi
      obtain rfl := Option.some_inj.mp hi
      rw [List.eraseP_cons_of_pos hp, List.filter_cons_of_neg (by simp), List.filter_eq_self]
      intro y hy
      have hne : x ≠ y := fun heq => hx (heq ▸ hy)
      simp [hne]
    | false =>
      rw [hp] at hi
      have hne : i ≠ x := by
        rintro rfl
        rw [List.find?_some hi] at hp
        cases hp
      rw [List.eraseP_cons_of_neg (by simp [hp]), List.filter_cons_of_pos (by simp [hne]),
        ih hxs hi]

-- A bucket without a free slot refuses every pair.
theorem append?_of_isFull (h : b.isFull) (key : K) (value : V) : b.append? key value = none := by
  rw [isFull, List.all_eq_true] at h
  have hfree : b.freeSlot? = none := by
    rw [freeSlot?, List.find?_eq_none]
    intro i hi
    rw [h i hi]
    decide
  rw [append?, hfree, Option.map_none]

namespace Packed

theorem lt_bits (h : b.Packed m) {i : Nat} (hi : i < m) : i < 8 * b.bitmapSize := by
  have hle := h.le_capacity
  have hbits := b.capacity_le_bits
  omega

theorem liveSlots_eq (h : b.Packed m) : b.liveSlots = (List.range m).filter b.readable := by
  have hsplit : b.capacity = m + (b.capacity - m) := by
    have hle := h.le_capacity
    omega
  rw [liveSlots, hsplit, List.range_add, List.filter_append]
  have hrest : ((List.range (b.capacity - m)).map (m + ·)).filter b.readable = [] := by
    rw [List.filter_eq_nil_iff]
    intro i hi hreadable
    obtain ⟨j, hj, rfl⟩ := List.mem_map.mp hi
    have hbits := b.capacity_le_bits
    have hlt := h.lt_of_readable _ (by rw [List.mem_range] at hj; omega) hreadable
    omega
  rw [hrest, List.append_nil]

theorem length_entries_le (h : b.Packed m) : b.entries.length ≤ m := by
  rw [entries, List.length_map, h.liveSlots_eq]
  exact (List.length_filter_le _ _).trans_eq List.length_range

-- If there are as many pairs as occupied slots, none of these is a removed one.
theorem readable_eq (h : b.Packed b.entries.length) {i : Nat} (hi : i < 8 * b.bitmapSize) :
    b.readable i = decide (i < b.entries.length) := by
  have hlive : ((List.range b.entries.length).filter b.readable).length =
      (List.range b.entries.length).length := by
    rw [← h.liveSlots_eq, List.length_range, entries, List.length_map]
  have hall := List.length_filter_eq_length_iff.mp hlive
  rw [Bool.eq_iff_iff, decide_eq_true_eq]
  exact ⟨h.lt_of_readable i hi, fun hlt => hall i (List.mem_range.mpr hlt)⟩

theorem isFull_iff (h : b.Packed m) : b.isFull ↔ m = b.capacity := by
  have hle := h.le_capacity
  have hbits := b.capacity_le_bits
  simp only [isFull, List.all_eq_true, List.mem_range]
  constructor
  · intro hall
    refine Nat.le_antisymm hle (Nat.le_of_not_lt fun hlt => ?_)
    have hocc := hall m hlt
    rw [h.occupied_eq m (by omega)] at hocc
    simp at hocc
  · rintro rfl i hi
    rw [h.occupied_eq i (by omega)]
    simp [hi]

theorem isEmpty_iff (h : b.Packed m) : b.isEmpty ↔ m = 0 := by
  rw [Bucket.isEmpty_iff]
  constructor
  · intro hall
    refine Nat.eq_zero_of_not_pos fun hpos => ?_
    have hocc := hall 0 (h.lt_bits hpos)
    rw [h.occupied_eq 0 (h.lt_bits hpos)] at hocc
    simp [Nat.ne_of_gt hpos] at hocc
  · rintro rfl i hi
    rw [h.occupied_eq i hi]
    simp

theorem overflow_eq_zero (h : b.Packed m) : b.overflow = 0 := by
  rw [overflow, List.countP_eq_zero]
  intro i hi
  rw [List.mem_range'_1] at hi
  have hle := h.le_capacity
  have hbits := b.maxSlots_le_bits
  have hcap := b.capacity_le
  rw [h.occupied_eq i (by change b.capacity ≤ maxSlots K V at hcap; omega)]
  simp only [decide_eq_true_eq]
  omega

-- A pair that is put into the first free slot comes last.
theorem put [RoundTrip K] [RoundTrip V] (h : b.Packed m) (hm : m < b.capacity) (key : K)
    (value : V) : (b.put m key value).Packed (m + 1) ∧
      (b.put m key value).entries = b.entries ++ [(key, value)] := by
  have hbits : m < 8 * b.bitmapSize := hm.trans_le b.capacity_le_bits
  have hmax : m < maxSlots K V := hm.trans_le b.capacity_le
  have hpacked : (b.put m key value).Packed (m + 1) := by
    refine ⟨hm, fun i hi => ?_, fun i hi hreadable => ?_⟩
    · rw [occupied_put b key value hbits hi, h.occupied_eq i hi]
      simp only [← Bool.decide_or]
      congr 1
      apply propext
      omega
    · rw [readable_put b key value hbits hi] at hreadable
      simp only [Bool.or_eq_true, decide_eq_true_eq] at hreadable
      rcases hreadable with rfl | hreadable
      · omega
      · have hlt := h.lt_of_readable i hi hreadable
        omega
  refine ⟨hpacked, ?_⟩
  have hlive : (b.put m key value).liveSlots = b.liveSlots ++ [m] := by
    rw [hpacked.liveSlots_eq, h.liveSlots_eq, List.range_succ, List.filter_append]
    congr 1
    · apply List.filter_congr
      intro i hi
      rw [List.mem_range] at hi
      rw [readable_put b key value hbits (h.lt_bits hi)]
      simp [Nat.ne_of_gt hi]
    · simp [readable_put b key value hbits hbits]
  have hold : b.liveSlots.map (fun i => ((b.put m key value).keyAt i, (b.put m key value).valueAt i))
      = b.entries := by
    unfold entries
    apply List.map_congr_left
    intro i hi
    rw [h.liveSlots_eq, List.mem_filter, List.mem_range] at hi
    obtain ⟨hkey, hvalue⟩ := pair_put_of_ne b key value hbits (Nat.ne_of_gt hi.1)
    rw [hkey, hvalue]
  obtain ⟨hkey, hvalue⟩ := pair_put_self b key value hmax
  rw [entries, hlive, List.map_append, hold, List.map_singleton, hkey, hvalue]

theorem append? [RoundTrip K] [RoundTrip V] (h : b.Packed m) (hm : m < b.capacity) (key : K)
    (value : V) : b.append? key value = some (b.put m key value) := by
  have hfree : b.freeSlot? = some m := by
    rw [freeSlot?, List.find?_range_eq_some]
    have hbits := b.capacity_le_bits
    refine ⟨?_, List.mem_range.mpr hm, fun i hi => ?_⟩
    · rw [h.occupied_eq m (by omega)]
      simp
    · rw [h.occupied_eq i (by omega)]
      simp [hi]
  rw [Bucket.append?, hfree, Option.map_some]

theorem clear (b : Bucket K V) : b.clear.Packed 0 ∧ b.clear.entries = [] := by
  have hpacked : b.clear.Packed 0 := by
    refine ⟨Nat.zero_le _, fun i hi => ?_, fun i hi hreadable => ?_⟩
    · rw [occupied_clear b hi]
      simp
    · rw [readable_clear b hi] at hreadable
      cases hreadable
  exact ⟨hpacked, List.eq_nil_of_length_eq_zero (Nat.le_zero.mp hpacked.length_entries_le)⟩

-- A bucket without pairs may be cleared, and then has no slot occupied.
theorem clear_of_count_eq_zero (h : b.Packed m) :
    ∃ m', (if b.count == 0 then b.clear else b).Packed m' ∧
      (if b.count == 0 then b.clear else b).capacity = b.capacity ∧
      (if b.count == 0 then b.clear else b).entries = b.entries ∧ (b.entries = [] → m' = 0) := by
  by_cases hcount : b.count = 0
  · obtain ⟨hpacked, hnil⟩ := Packed.clear b
    rw [if_pos (beq_iff_eq.mpr hcount)]
    rw [count_eq_length] at hcount
    rw [List.eq_nil_of_length_eq_zero hcount]
    exact ⟨0, hpacked, capacity_clear b, hnil, fun _ => rfl⟩
  · rw [if_neg (by simpa using hcount)]
    refine ⟨m, h, rfl, rfl, fun hnil => absurd ?_ hcount⟩
    rw [count_eq_length, hnil, List.length_nil]

-- A removed slot stays occupied.
theorem removeAt (h : b.Packed m) {i : Nat} (hi : i < 8 * b.bitmapSize) : (b.removeAt i).Packed m := by
  refine ⟨h.le_capacity, fun j hj => ?_, fun j hj hreadable => ?_⟩
  · rw [occupied_removeAt b hj]
    exact h.occupied_eq j hj
  · rw [readable_removeAt b hi, Bool.and_eq_true] at hreadable
    exact h.lt_of_readable j hj hreadable.2

-- The first pair that matches is removed.
theorem remove? [DecidableEq V] (h : b.Packed m) (compare : K → K → Ordering) (key : K)
    (value : V) {rest : Bucket K V} (hrest : b.remove? compare key value = some rest) :
    rest.capacity = b.capacity ∧ rest.Packed m ∧
      rest.entries = b.entries.eraseP (matchesPair compare key value) := by
  rw [Bucket.remove?, Option.map_eq_some_iff] at hrest
  obtain ⟨i, hi, rfl⟩ := hrest
  rw [find?_eq] at hi
  have hmem := List.mem_of_find?_eq_some hi
  rw [h.liveSlots_eq, List.mem_filter, List.mem_range] at hmem
  have hbits := h.lt_bits hmem.1
  refine ⟨rfl, h.removeAt hbits, ?_⟩
  have hlive : (b.removeAt i).liveSlots = b.liveSlots.filter fun j => !decide (i = j) := by
    rw [liveSlots, liveSlots, List.filter_filter]
    apply List.filter_congr
    intro j _
    exact readable_removeAt b hbits
  have hpair : (fun j => ((b.removeAt i).keyAt j, (b.removeAt i).valueAt j)) =
      fun j => (b.keyAt j, b.valueAt j) := by
    funext j
    obtain ⟨hkey, hvalue⟩ := pair_removeAt b (j := j) hbits
    rw [hkey, hvalue]
  rw [entries, hlive, filter_ne_eq_eraseP b.nodup_liveSlots hi, hpair, entries, List.eraseP_map]
  rfl

-- Pairs of which none is refused come last, in their order.
theorem insertAll [RoundTrip K] [RoundTrip V] [DecidableEq V] {compare : K → K → Ordering}
    (pairs : List (K × V)) (h : b.Packed m) (hroom : m + pairs.length ≤ b.capacity)
    (hdistinct : Distinct compare (b.entries ++ pairs)) :
    (b.insertAll compare pairs).capacity = b.capacity ∧
      (b.insertAll compare pairs).Packed (m + pairs.length) ∧
      (b.insertAll compare pairs).entries = b.entries ++ pairs := by
  induction pairs generalizing b m with
  | nil => exact ⟨rfl, h, (List.append_nil _).symm⟩
  | cons pair pairs ih =>
    rw [List.length_cons] at hroom
    have hm : m < b.capacity := by omega
    have hnew : b.contains compare pair.1 pair.2 = false := by
      rw [contains_eq_any, List.any_eq_false]
      intro earlier hearlier
      rw [(List.pairwise_append.mp hdistinct).2.2 earlier hearlier pair List.mem_cons_self]
      simp
    obtain ⟨hpacked, hentries⟩ := h.put hm pair.1 pair.2
    have hstep : b.insertAll compare (pair :: pairs) =
        (b.put m pair.1 pair.2).insertAll compare pairs := by
      rw [Bucket.insertAll, List.foldl_cons, insert?, hnew, h.append? hm]
      rfl
    have hdistinct' : Distinct compare ((b.put m pair.1 pair.2).entries ++ pairs) := by
      rw [hentries, List.append_assoc]
      exact hdistinct
    obtain ⟨hcapacity, hpacked', hentries'⟩ := ih hpacked
      (by rw [capacity_put]; omega) hdistinct'
    rw [hstep, hentries', hentries, List.length_cons, Nat.add_comm pairs.length, ← Nat.add_assoc]
    exact ⟨hcapacity, hpacked', by rw [List.append_assoc]; rfl⟩

-- A bucket that is cleared and given other pairs has just these.
theorem refill [RoundTrip K] [RoundTrip V] [DecidableEq V] {compare : K → K → Ordering}
    (b : Bucket K V) {pairs : List (K × V)} (hroom : pairs.length ≤ b.capacity)
    (hdistinct : Distinct compare pairs) :
    (b.clear.insertAll compare pairs).capacity = b.capacity ∧
      (b.clear.insertAll compare pairs).Packed pairs.length ∧
      (b.clear.insertAll compare pairs).entries = pairs := by
  obtain ⟨hclear, hnil⟩ := Packed.clear b
  have hall := hclear.insertAll pairs (by rwa [capacity_clear, Nat.zero_add])
    (by rwa [hnil, List.nil_append])
  rwa [hnil, Nat.zero_add, List.nil_append] at hall

-- Compacting keeps the pairs and frees the slots of removed ones.
theorem compact [RoundTrip K] [RoundTrip V] [DecidableEq V] {compare : K → K → Ordering}
    (h : b.Packed m) (hdistinct : Distinct compare b.entries) :
    (b.compact compare).capacity = b.capacity ∧
      (b.compact compare).Packed b.entries.length ∧
      (b.compact compare).entries = b.entries :=
  refill b (h.length_entries_le.trans h.le_capacity) hdistinct

end Packed

theorem remove?_isSome [DecidableEq V] (b : Bucket K V) (compare : K → K → Ordering) (key : K)
    (value : V) : (b.remove? compare key value).isSome =
      b.entries.any (matchesPair compare key value) := by
  rw [← contains_eq_any, remove?, Option.isSome_map, contains]

end Bucket

end PagedIndex
