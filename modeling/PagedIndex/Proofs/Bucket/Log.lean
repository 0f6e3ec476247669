import PagedIndex.Proofs.Bucket.Access
import PagedIndex.Proofs.Bucket.Entries

namespace PagedIndex

variable {K V : Type}

-- A pair that was put into the log, and whether it is still there.
structure Cell (K V : Type) where
  pair : K × V
  live : Bool

namespace Cell

def kill (cell : Cell K V) : Cell K V := { cell with live := false }

def holdsKey (compare : K → K → Ordering) (key : K) (cell : Cell K V) : Bool :=
  cell.live && (compare cell.pair.1 key).isEq

def holds [DecidableEq V] (compare : K → K → Ordering) (key : K) (value : V) (cell : Cell K V) :
    Bool :=
  cell.live && matchesPair compare key value cell.pair

-- The live pairs, in order.
def pairs (cells : List (Cell K V)) : List (K × V) := (cells.filter live).map pair

theorem pairs_append (cells more : List (Cell K V)) :
    pairs (cells ++ more) = pairs cells ++ pairs more := by
  rw [pairs, List.filter_append, List.map_append, pairs, pairs]

theorem pairs_filter_live (cells : List (Cell K V)) : pairs (cells.filter live) = pairs cells := by
  rw [pairs, pairs, List.filter_filter]
  simp only [Bool.and_self]

theorem map_pairs (cells : List (Cell K V)) :
    (pairs cells).map (fun pair => ⟨pair, true⟩) = cells.filter live := by
  have hlive : ∀ cell ∈ cells.filter live, (⟨cell.pair, true⟩ : Cell K V) = cell := by
    intro cell hcell
    rw [← (List.mem_filter.mp hcell).2]
  rw [pairs, List.map_map]
  exact (List.map_congr_left hlive).trans (List.map_id' _)

theorem pairs_kill_sublist (cells : List (Cell K V)) (i : Nat) :
    (pairs (cells.modify i kill)).Sublist (pairs cells) := by
  induction cells generalizing i with
  | nil => cases i <;> exact List.Sublist.refl _
  | cons cell cells ih =>
    cases i with
    | zero =>
      rw [List.modify_zero_cons, pairs, pairs, List.filter_cons_of_neg (by simp [kill])]
      exact ((List.sublist_cons_self cell cells).filter live).map pair
    | succ i =>
      rw [List.modify_succ_cons]
      change (pairs ([cell] ++ cells.modify i kill)).Sublist (pairs ([cell] ++ cells))
      rw [pairs_append, pairs_append]
      exact (ih i).append_left _

theorem any_pairs [DecidableEq V] (compare : K → K → Ordering) (key : K) (value : V)
    (cells : List (Cell K V)) :
    (pairs cells).any (matchesPair compare key value) = cells.any (holds compare key value) := by
  rw [pairs, List.any_map, List.any_filter]
  rfl

end Cell

-- The calls that change a bucket.
inductive BucketCall (K V : Type) where
  | insert (key : K) (value : V)
  | remove (key : K) (value : V)
  | removeAt (i : Nat)
  | compact
  | clear

namespace BucketCall

variable [DecidableEq V] (compare : K → K → Ordering) (capacity : Nat)

section Bytes

variable [FixedWidth K] [FixedWidth V]

-- One call on a view of a page: its answer, where it has one, and the bucket it leaves.
def apply (b : Bucket K V) : BucketCall K V → Checked (Option Bool × Bucket K V)
  | .insert key value =>
    let new := b.insert? compare key value
    return (some new.isSome, new.getD b)
  | .remove key value =>
    let rest := b.remove? compare key value
    return (some rest.isSome, rest.getD b)
  | .removeAt i => return (none, ← b.checkedRemoveAt i)
  | .compact => return (none, b.compact compare)
  | .clear => return (none, b.clear)

-- The calls of a list, each through a view of its own.
def runAll (page : Page) : List (BucketCall K V) → Checked (List (Option Bool) × Page)
  | [] => return ([], page)
  | call :: calls => do
    let b : Bucket K V ← Bucket.view page capacity
    let (answer, b) ← call.apply compare b
    let (answers, page) ← runAll b.page calls
    return (answer :: answers, page)

end Bytes

-- The same call on a log of at most `capacity` cells.
def log (cells : List (Cell K V)) : BucketCall K V → Option Bool × List (Cell K V)
  | .insert key value =>
    if cells.any (Cell.holds compare key value) then (some false, cells)
    else if cells.length < capacity then (some true, cells ++ [⟨(key, value), true⟩])
    else (some false, cells)
  | .remove key value =>
    match cells.findIdx? (Cell.holds compare key value) with
    | some i => (some true, cells.modify i Cell.kill)
    | none => (some false, cells)
  | .removeAt i => (none, cells.modify i Cell.kill)
  | .compact => (none, cells.filter Cell.live)
  | .clear => (none, [])

def logAll (cells : List (Cell K V)) : List (BucketCall K V) → List (Option Bool) × List (Cell K V)
  | [] => ([], cells)
  | call :: calls =>
    let (answer, cells) := call.log compare capacity cells
    let (answers, cells) := logAll cells calls
    (answer :: answers, cells)

-- A slot that is named by its number is one that the view uses.
def Within : BucketCall K V → Prop
  | .removeAt i => i < capacity
  | _ => True

end BucketCall

namespace Bucket

variable [FixedWidth K] [FixedWidth V] {b : Bucket K V} {cells : List (Cell K V)}

def cellAt (b : Bucket K V) (i : Nat) : Cell K V := ⟨(b.keyAt i, b.valueAt i), b.readable i⟩

-- The occupied slots of a bucket are the cells of a log.
structure Logs (b : Bucket K V) (cells : List (Cell K V)) : Prop where
  packed : b.Packed cells.length
  cells_eq : (List.range cells.length).map b.cellAt = cells

-- What a bucket tells about the log that it stores.
structure Observes (b : Bucket K V) (cells : List (Cell K V)) : Prop where
  length_le : cells.length ≤ b.capacity
  entries_eq : b.checkedEntries = .ok (Cell.pairs cells)
  isFull_eq : b.isFull = decide (cells.length = b.capacity)
  isEmpty_eq : b.isEmpty = cells.isEmpty
  count_eq : b.count = cells.countP Cell.live
  overflow_eq : b.checkedOverflow = .ok 0
  contains_eq [DecidableEq V] (compare : K → K → Ordering) (key : K) (value : V) :
    b.contains compare key value = cells.any (Cell.holds compare key value)
  hasKey_eq (compare : K → K → Ordering) (key : K) :
    b.hasKey compare key = cells.any (Cell.holdsKey compare key)
  get_eq (compare : K → K → Ordering) (key : K) : b.checkedGet compare key =
    .ok ((cells.filter (Cell.holdsKey compare key)).map fun cell => cell.pair.2)

-- Finding an element of a table by its index.
private theorem findIdx?_map_range {α : Type} (f : Nat → α) (n : Nat) (p : α → Bool) :
    ((List.range n).map f).findIdx? p = (List.range n).find? fun i => p (f i) := by
  ext i
  rw [List.findIdx?_eq_some_iff_getElem, List.find?_range_eq_some]
  simp only [List.length_map, List.length_range, List.getElem_map, List.getElem_range, List.mem_range,
    Bool.not_eq_true, Bool.not_eq_true']
  constructor
  · rintro ⟨hi, hp, hbefore⟩
    exact ⟨hp, hi, hbefore⟩
  · rintro ⟨hp, hi, hbefore⟩
    exact ⟨hi, hp, hbefore⟩

namespace Logs

theorem entries_eq (h : b.Logs cells) : b.entries = Cell.pairs cells := by
  conv_rhs => rw [← h.cells_eq, Cell.pairs, List.filter_map, List.map_map]
  rw [entries, h.packed.liveSlots_eq]
  rfl

theorem observes (h : b.Logs cells) : b.Observes cells where
  length_le := h.packed.le_capacity
  entries_eq := by rw [b.checkedEntries_eq, h.entries_eq]
  isFull_eq := by rw [Bool.eq_iff_iff, h.packed.isFull_iff, decide_eq_true_eq]
  isEmpty_eq := by rw [Bool.eq_iff_iff, h.packed.isEmpty_iff, List.isEmpty_iff_length_eq_zero]
  count_eq := by
    rw [count_eq_length, h.entries_eq, Cell.pairs, List.length_map, List.countP_eq_length_filter]
  overflow_eq := by rw [b.checkedOverflow_eq, h.packed.overflow_eq_zero]
  contains_eq compare key value := by
    rw [contains_eq_any, h.entries_eq, Cell.any_pairs]
  hasKey_eq compare key := by
    rw [hasKey_eq_any, h.entries_eq, Cell.pairs, List.any_map, List.any_filter]
    rfl
  get_eq compare key := by
    rw [b.checkedGet_eq, get_eq_entries, h.entries_eq, Cell.pairs, List.filter_map, List.filter_filter,
      List.map_map]
    congr 3
    funext cell
    exact Bool.and_comm _ _

theorem find?_eq [DecidableEq V] (h : b.Logs cells) (compare : K → K → Ordering) (key : K)
    (value : V) : b.find? compare key value = cells.findIdx? (Cell.holds compare key value) := by
  conv_rhs => rw [← h.cells_eq, findIdx?_map_range]
  rw [Bucket.find?_eq, h.packed.liveSlots_eq, List.find?_filter]
  congr 1
  funext i
  rw [cellAt, Cell.holds]
  simp

-- A cell is told by the bits and the bytes of its slot.
theorem of_cellAt {n : Nat} (hpacked : b.Packed n) (hlength : cells.length = n)
    (hcell : ∀ (i : Nat) (hi : i < cells.length), b.cellAt i = cells[i]) : b.Logs cells := by
  subst hlength
  refine ⟨hpacked, List.ext_getElem (by simp) fun i _ hi => ?_⟩
  rw [List.getElem_map, List.getElem_range, hcell i hi]

theorem cellAt_eq (h : b.Logs cells) {i : Nat} (hi : i < cells.length) : b.cellAt i = cells[i] := by
  conv_rhs => rw [← List.getElem_of_eq h.cells_eq (by simpa using hi)]
  rw [List.getElem_map, List.getElem_range]

theorem put [RoundTrip K] [RoundTrip V] (h : b.Logs cells) (hroom : cells.length < b.capacity)
    (key : K) (value : V) :
    (b.put cells.length key value).Logs (cells ++ [⟨(key, value), true⟩]) := by
  have hbits : cells.length < 8 * b.bitmapSize := hroom.trans_le b.capacity_le_bits
  refine of_cellAt (h.packed.put hroom key value).1 (by simp) fun i hi => ?_
  rw [List.length_append, List.length_singleton] at hi
  rw [cellAt, readable_put b key value hbits (by omega)]
  by_cases hlast : i = cells.length
  · subst hlast
    obtain ⟨hkey, hvalue⟩ := pair_put_self b key value (hroom.trans_le b.capacity_le)
    simp [hkey, hvalue]
  · obtain ⟨hkey, hvalue⟩ := pair_put_of_ne b key value hbits (Ne.symm hlast)
    rw [List.getElem_append_left (by omega), ← h.cellAt_eq (by omega), cellAt, hkey, hvalue,
      decide_eq_false (Ne.symm hlast), Bool.false_or]

theorem removeAt (h : b.Logs cells) {i : Nat} (hi : i < b.capacity) :
    (b.removeAt i).Logs (cells.modify i Cell.kill) := by
  have hbits : i < 8 * b.bitmapSize := hi.trans_le b.capacity_le_bits
  refine of_cellAt (h.packed.removeAt hbits) (List.length_modify ..) fun j hj => ?_
  rw [List.length_modify] at hj
  obtain ⟨hkey, hvalue⟩ := pair_removeAt b (j := j) hbits
  rw [cellAt, readable_removeAt b hbits, hkey, hvalue, List.getElem_modify, ← h.cellAt_eq hj]
  split
  case isTrue heq =>
    simp [heq, cellAt, Cell.kill]
  case isFalse hne =>
    simp [hne, cellAt]

-- A bucket without removed pairs has only live cells.
theorem of_entries (h : b.Packed b.entries.length) :
    b.Logs (b.entries.map fun pair => ⟨pair, true⟩) := by
  have hread : ∀ i < b.entries.length, b.readable i = true := fun i hi => by
    rw [h.readable_eq (h.lt_bits hi), decide_eq_true hi]
  have hentries : b.entries =
      (List.range b.entries.length).map fun i => (b.keyAt i, b.valueAt i) := by
    conv_lhs => rw [entries, h.liveSlots_eq]
    rw [List.filter_eq_self.mpr fun i hi => hread i (List.mem_range.mp hi)]
  refine of_cellAt h (List.length_map ..) fun i hi => ?_
  rw [List.length_map] at hi
  rw [List.getElem_map, List.getElem_of_eq hentries hi, List.getElem_map, List.getElem_range, cellAt,
    hread i hi]

end Logs

section Calls

variable [RoundTrip K] [RoundTrip V] [DecidableEq V] (compare : K → K → Ordering)

-- One call on the bucket and on the log. The pairs that compacting stores again are not refused: of two
-- live pairs the later one was let in beside the earlier.
theorem apply_log (h : b.Logs cells) (hdistinct : Distinct compare (Cell.pairs cells))
    (call : BucketCall K V) (hwithin : call.Within b.capacity) :
    ∃ b' : Bucket K V,
      call.apply compare b = .ok ((call.log compare b.capacity cells).1, b') ∧
      b'.capacity = b.capacity ∧ b'.Logs (call.log compare b.capacity cells).2 ∧
      Distinct compare (Cell.pairs (call.log compare b.capacity cells).2) := by
  cases call with
  | insert key value =>
    have hcontains := h.observes.contains_eq compare key value
    rw [BucketCall.apply, BucketCall.log, insert?, hcontains]
    by_cases hheld : cells.any (Cell.holds compare key value)
    · rw [if_pos hheld, if_pos hheld]
      exact ⟨b, rfl, rfl, h, hdistinct⟩
    · rw [if_neg hheld, if_neg hheld]
      by_cases hroom : cells.length < b.capacity
      · rw [if_pos hroom, h.packed.append? hroom]
        refine ⟨b.put cells.length key value, rfl, rfl, h.put hroom key value, ?_⟩
        rw [Cell.pairs_append]
        refine List.pairwise_append.mpr ⟨hdistinct, List.pairwise_singleton _ _, ?_⟩
        intro earlier hearlier later hlater
        rw [List.mem_singleton.mp hlater]
        rw [← Cell.any_pairs, List.any_eq_true, not_exists] at hheld
        exact Bool.eq_false_iff.mpr fun hmatch => hheld earlier ⟨hearlier, hmatch⟩
      · have hfull : b.isFull := h.packed.isFull_iff.mpr
          (Nat.le_antisymm h.packed.le_capacity (Nat.le_of_not_lt hroom))
        rw [if_neg hroom, append?_of_isFull hfull]
        exact ⟨b, rfl, rfl, h, hdistinct⟩
  | remove key value =>
    have hfind := h.find?_eq compare key value
    rw [BucketCall.apply, BucketCall.log, Bucket.remove?, hfind]
    cases hindex : cells.findIdx? (Cell.holds compare key value) with
    | none => exact ⟨b, rfl, rfl, h, hdistinct⟩
    | some i =>
      obtain ⟨hi, -⟩ := List.findIdx?_eq_some_iff_getElem.mp hindex
      exact ⟨b.removeAt i, rfl, rfl, h.removeAt (hi.trans_le h.packed.le_capacity),
        hdistinct.sublist (Cell.pairs_kill_sublist cells i)⟩
  | removeAt i =>
    rw [BucketCall.apply, b.checkedRemoveAt_eq (hwithin.trans_le b.capacity_le)]
    exact ⟨b.removeAt i, rfl, rfl, h.removeAt hwithin,
      hdistinct.sublist (Cell.pairs_kill_sublist cells i)⟩
  | compact =>
    obtain ⟨hcapacity, hpacked, hentries⟩ := h.packed.compact (by rwa [h.entries_eq])
    rw [← hentries] at hpacked
    have hlogs := Logs.of_entries hpacked
    rw [hentries, h.entries_eq, Cell.map_pairs] at hlogs
    refine ⟨b.compact compare, rfl, hcapacity, hlogs, ?_⟩
    rwa [BucketCall.log, Cell.pairs_filter_live]
  | clear =>
    exact ⟨b.clear, rfl, rfl, ⟨(Packed.clear b).1, rfl⟩, List.Pairwise.nil⟩

-- A run of calls from a page that stores a log.
theorem runAll_logAll (calls : List (BucketCall K V)) (h : b.Logs cells)
    (hdistinct : Distinct compare (Cell.pairs cells))
    (hwithin : ∀ call ∈ calls, call.Within b.capacity) :
    ∃ b' : Bucket K V, b'.capacity = b.capacity ∧
      BucketCall.runAll compare b.capacity b.page calls =
        .ok ((BucketCall.logAll compare b.capacity cells calls).1, b'.page) ∧
      b'.Logs (BucketCall.logAll compare b.capacity cells calls).2 := by
  induction calls generalizing b cells with
  | nil => exact ⟨b, rfl, rfl, h⟩
  | cons call calls ih =>
    obtain ⟨b', happly, hcapacity, hlogs, hdistinct'⟩ :=
      apply_log compare h hdistinct call (hwithin call List.mem_cons_self)
    obtain ⟨b'', hcapacity', hrun, hlogs'⟩ := ih hlogs hdistinct' fun later hlater => by
      rw [hcapacity]
      exact hwithin later (List.mem_cons_of_mem call hlater)
    rw [hcapacity] at hcapacity' hrun hlogs'
    refine ⟨b'', hcapacity', ?_, hlogs'⟩
    rw [BucketCall.runAll, view_eq]
    change (call.apply compare b >>= fun _ => _) = _
    rw [happly]
    change (BucketCall.runAll compare b.capacity b'.page calls >>= fun _ => _) = _
    rw [hrun]
    rfl

-- A page of any bytes that is cleared first answers every call as a log of at most `capacity` cells
-- does, and a view of it then shows what is in the log.
theorem runAll_clear (capacity : Nat) (hpos : 0 < capacity) (hle : capacity ≤ maxSlots K V)
    (page : Page) (calls : List (BucketCall K V)) (hwithin : ∀ call ∈ calls, call.Within capacity) :
    ∃ (page' : Page) (b : Bucket K V),
      BucketCall.runAll compare capacity page (.clear :: calls) =
        .ok (none :: (BucketCall.logAll compare capacity [] calls).1, page') ∧
      Bucket.view page' capacity = .ok b ∧
      b.capacity = capacity ∧ b.Observes (BucketCall.logAll compare capacity [] calls).2 := by
  let b : Bucket K V := ⟨page, capacity, hpos, hle, _, rfl⟩
  have hempty : b.clear.Logs [] := ⟨(Packed.clear b).1, rfl⟩
  obtain ⟨b', hcapacity, hrun, hlogs⟩ :=
    runAll_logAll compare calls hempty List.Pairwise.nil hwithin
  refine ⟨b'.page, b', ?_, ?_, hcapacity, hlogs.observes⟩
  · rw [BucketCall.runAll, show Bucket.view page capacity = .ok b from b.view_eq]
    change (BucketCall.runAll compare capacity b.clear.page calls >>= fun _ => _) = _
    rw [show BucketCall.runAll compare capacity b.clear.page calls = _ from hrun]
    rfl
  · have hview := b'.view_eq
    rwa [hcapacity] at hview

end Calls

-- Two cells: the third pair is refused until the first, which was removed, gives up its place.
theorem runAll_clear_twoCells :
    let calls : List (BucketCall UInt32 UInt32) :=
      [.insert 3 30, .insert 3 30, .insert 5 50, .removeAt 0, .insert 7 70, .compact, .insert 7 70,
        .remove 5 50]
    ∃ (page' : Page) (b : Bucket UInt32 UInt32),
      BucketCall.runAll compare 2 (.fill 0xff) (.clear :: calls) =
        .ok (none :: [some true, some false, some true, none, some false, none, some true, some true],
          page') ∧
      Bucket.view page' 2 = .ok b ∧
      b.capacity = 2 ∧ b.Observes [⟨(5, 50), false⟩, ⟨(7, 70), true⟩] := by
  intro calls
  exact runAll_clear compare 2 (by decide) (BucketLayout.le_mostUpTo (by decide) (by decide)) _ calls
    (by simp [calls, BucketCall.Within])

end Bucket

end PagedIndex
