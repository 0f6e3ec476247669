import PagedIndex.Proofs.Index.Answers
import PagedIndex.Proofs.Index.Independence
import PagedIndex.Proofs.Index.Inspection

namespace PagedIndex

namespace Bucket

variable {K V : Type} [FixedWidth K] [FixedWidth V] {b : Bucket K V} {m capacity : Nat}

-- The occupied slots, of all that a page has room for.
def slotsOccupied (K V : Type) [FixedWidth K] [FixedWidth V] (page : Page) : Nat :=
  (List.range (maxSlots K V)).countP (page.bit 0)

-- The same page with another capacity.
def resized (b : Bucket K V) (hpos : 0 < capacity) (hle : capacity ≤ maxSlots K V) : Bucket K V :=
  { b with capacity, capacity_pos := hpos, capacity_le := hle }

namespace Packed

theorem slotsOccupied_eq (h : b.Packed m) : slotsOccupied K V b.page = m := by
  have hsplit : maxSlots K V = m + (maxSlots K V - m) :=
    (Nat.add_sub_cancel' (h.le_capacity.trans b.capacity_le)).symm
  have hocc {i : Nat} (hi : i < maxSlots K V) : b.page.bit 0 i = decide (i < m) :=
    h.occupied_eq i (hi.trans_le b.maxSlots_le_bits)
  have hfirst : (List.range m).countP (b.page.bit 0) = (List.range m).length := by
    refine List.countP_eq_length.mpr fun i hi => ?_
    rw [List.mem_range] at hi
    rw [hocc (by omega), decide_eq_true hi]
  have hrest : ((List.range (maxSlots K V - m)).map (m + ·)).countP (b.page.bit 0) = 0 := by
    refine List.countP_eq_zero.mpr fun i hi => ?_
    obtain ⟨j, hj, rfl⟩ := List.mem_map.mp hi
    rw [List.mem_range] at hj
    rw [hocc (by omega), decide_eq_true_iff]
    omega
  rw [slotsOccupied, hsplit, List.range_add, List.countP_append, hfirst, hrest, List.length_range,
    Nat.add_zero]

variable (hpos : 0 < capacity) (hle : capacity ≤ maxSlots K V)

theorem resized (h : b.Packed m) (hm : m ≤ capacity) : (b.resized hpos hle).Packed m :=
  ⟨hm, h.occupied_eq, h.lt_of_readable⟩

theorem entries_resized (h : b.Packed m) (hm : m ≤ capacity) :
    (b.resized hpos hle).entries = b.entries := by
  rw [entries, (h.resized hpos hle hm).liveSlots_eq, entries, h.liveSlots_eq]
  rfl

-- All slots past the capacity are free just if it is not below the number of the occupied ones.
theorem overflow_resized_iff (h : b.Packed m) : (b.resized hpos hle).overflow = 0 ↔ m ≤ capacity := by
  refine ⟨fun hnone => Nat.le_of_not_lt fun hlt => ?_, fun hm =>
    (h.resized hpos hle hm).overflow_eq_zero⟩
  rw [overflow, List.countP_eq_zero] at hnone
  have hmax := h.le_capacity.trans b.capacity_le
  change m ≤ maxSlots K V at hmax
  -- the first slot past the capacity is occupied
  refine hnone capacity (List.mem_range'_1.mpr ⟨le_refl _, ?_⟩) ?_
  · change capacity < capacity + (maxSlots K V - capacity)
    omega
  · change b.occupied capacity = true
    rw [h.occupied_eq capacity (h.lt_bits hlt), decide_eq_true hlt]

end Packed

end Bucket

namespace HashIndex

open PagePool

variable {K V : Type} [FixedWidth K] [FixedWidth V]

-- No bucket has more occupied slots than this.
def Fits (t : HashIndex K V) (M : Memory) (capacity : Nat) : Prop :=
  ∀ id ∈ (t.storedDirectory M).bucketIds,
    Bucket.slotsOccupied K V ((M id).getD Page.zero) ≤ capacity

variable [DecidableEq V] {t : HashIndex K V} {w : Ledger} {d : Directory} {pairs : List (K × V)}
  {id : PageId} {b : Bucket K V} {m capacity : Nat}

theorem IsBucket.slotsOccupied_eq (hb : t.IsBucket w.sheets id pairs b m) :
    Bucket.slotsOccupied K V ((w.memory id).getD Page.zero) = m := by
  rw [Ledger.memory_of_written hb.page_eq, Option.getD_some]
  exact hb.packed.slotsOccupied_eq

-- A larger capacity fits always.
theorem Represents.fits_of_le (h : t.Represents w.sheets d pairs) (hle : t.capacity ≤ capacity) :
    t.Fits w.memory capacity := by
  intro id hid
  obtain ⟨b, m, hb⟩ := h.stores_bucket hid
  rw [hb.slotsOccupied_eq]
  exact hb.packed.le_capacity.trans (hb.capacity_eq.trans_le hle)

-- The index owns its pages, so no other guard is written under.
theorem Represents.unwritten {σ γ : Type} [PagePool σ γ] [ReadablePool σ γ] {guards : List γ}
    (h : t.Represents w.sheets d pairs) (hclear : t.Clear σ d guards) :
    t.Unwritten σ guards w.memory := by
  rintro id (rfl | ⟨page, hpage, hid⟩)
  · exact PagePool.joins_of_clear fun g hg => (hclear g hg).1
  · obtain ⟨p, hp, rfl⟩ := h.directory
    obtain rfl := Option.some_inj.mp (hpage.symm.trans (Ledger.memory_of_written hp))
    obtain ⟨i, hi, rfl⟩ := (Directory.mem_bucketIds _ _).mp hid
    obtain ⟨hash, rfl⟩ := h.routes.partitioned.exists_hash hi
    exact PagePool.joins_of_clear fun g hg => (hclear g hg).2 hash

section Resize

variable (hpos : 0 < capacity) (hle : capacity ≤ Bucket.maxSlots K V) (name : String)
include hpos hle

theorem IsBucket.resized {S : Sheets} (hb : t.IsBucket S id pairs b m) (hm : m ≤ capacity) :
    ({ t with name, capacity } : HashIndex K V).IsBucket S id pairs (b.resized hpos hle) m :=
  ⟨rfl, hb.page_eq, hb.packed.resized hpos hle hm,
    (hb.packed.entries_resized hpos hle hm).trans hb.entries_eq, hb.blank, hb.distinct⟩

-- Pages that fit a capacity have the same pairs with it.
theorem Represents.resized (h : t.Represents w.sheets d pairs) (hfits : t.Fits w.memory capacity) :
    ({ t with name, capacity } : HashIndex K V).Represents w.sheets d pairs := by
  refine ⟨h.directory, h.routes.partitioned, h.routes.tight, h.routes.vacant, h.routes.apart,
    fun hash => ?_⟩
  obtain ⟨b, m, hb⟩ := h.routes.stores hash
  rw [Fits, h.storedDirectory_eq] at hfits
  have hm := hfits (d.owner hash) ((d.mem_bucketIds _).mpr ⟨_, d.route_lt_size hash, rfl⟩)
  rw [hb.slotsOccupied_eq] at hm
  exact ⟨_, m, hb.resized hpos hle name hm⟩

theorem Represents.passes_resized_iff (h : t.Represents w.sheets d pairs) :
    ({ t with name, capacity } : HashIndex K V).Passes w.memory ↔ t.Fits w.memory capacity := by
  refine ⟨fun hpasses id hid => ?_, fun hfits => (h.resized hpos hle name hfits).passes⟩
  obtain ⟨b, m, hb⟩ := h.stores_bucket hid
  have hview : Bucket.view ((w.memory id).getD Page.zero) capacity =
      .ok (b.resized hpos hle) := by
    rw [Ledger.memory_of_written hb.page_eq, Option.getD_some]
    exact (b.resized hpos hle).view_eq
  have hproper := hpasses.bucket _ _ hid hview
  rw [hb.slotsOccupied_eq, ← hb.packed.overflow_resized_iff hpos hle]
  exact ((proper_iff _ _ _ _).mp hproper).1

end Resize

end HashIndex

namespace IndexCall

open Directory

variable {K V : Type} [DecidableEq V] (policy : KeyPolicy K) (capacity : Nat)

-- The answers to calls that are made one after the other on such a list.
def answersOn : List (K × V) → List (IndexCall K V) → List (Except StoreError (IndexAnswer V))
  | _, [] => []
  | pairs, call :: calls =>
    let answer := call.listed policy capacity pairs
    answer :: answersOn (call.pairsAfter policy.order pairs (Except.mapError .error answer)) calls

end IndexCall

namespace IndexQuery

open HashIndex PagePool

variable {K V : Type} [FixedWidth K] [FixedWidth V] [RoundTrip K] [RoundTrip V] [DecidableEq V]
  {σ γ : Type} [PagePool σ γ] [LawfulPool σ γ] {guards : List γ} {t : HashIndex K V}
  {o : Outline K V} {w : Ledger}

-- Calls that are made one after the other answer as on the list, if no page is refused in them.
theorem runAll_calls_does (h : t.Depicts σ guards o w) (hcoherent : t.policy.Coherent)
    (calls : List (IndexCall K V)) (hlegal : ∀ call ∈ calls, call.Legal t)
    {E : StoreError → Ledger → Prop} :
    Does guards w (runAll t (calls.map .call) : Op σ _)
      (fun answers w' => w.refusals ≤ w'.refusals ∧ (w'.refusals = w.refusals →
        answers = (IndexCall.answersOn t.policy t.capacity o.pairs calls).map (Except.map .inl))) E := by
  induction calls generalizing w o with
  | nil => exact does_pure ⟨le_refl _, fun _ => rfl⟩
  | cons c calls ih =>
    have hrest {o' : Outline K V} {w' : Ledger} (r : Except StoreError (IndexAnswer V ⊕ Nat))
        (h' : t.Depicts σ guards o' w') (hanswered : (call c).Answered t o w r o' w') :
        Does guards w' (do return r :: (← runAll t (calls.map .call)) : Op σ _)
          (fun answers w' => w.refusals ≤ w'.refusals ∧ (w'.refusals = w.refusals → answers =
            (IndexCall.answersOn t.policy t.capacity o.pairs (c :: calls)).map (Except.map .inl)))
          E := by
      refine (ih h' fun c' hc' => hlegal c' (List.mem_cons_of_mem _ hc')).bind
        fun answers w'' hanswers => ?_
      obtain ⟨hle, hanswers⟩ := hanswers
      obtain ⟨hle', hanswer⟩ := hanswered
      refine does_pure ⟨hle'.trans hle, fun heq => ?_⟩
      have hsame : w'.refusals = w.refusals := Nat.le_antisymm (heq ▸ hle) hle'
      have happly := hanswer hsame
      rw [apply] at happly
      obtain ⟨rfl, rfl⟩ := Prod.mk.inj happly
      have hlisted : (c.apply t.policy t.capacity o).1 = _ :=
        IndexCall.apply_eq_listed hcoherent h.sound c
      have hpairs := IndexCall.pairs_apply hcoherent c o
      rw [hlisted] at hpairs
      rw [hanswers (heq.trans hsame.symm), IndexCall.answersOn, List.map_cons, ← hpairs, ← hlisted]
      rfl
    refine (run_does h (.call c) (hlegal c List.mem_cons_self)).attempt_bind
      (fun a w' ha => ?_) fun e w' he => ?_
    · obtain ⟨o', hdepicts, hanswered⟩ := ha
      exact hrest _ hdepicts hanswered
    · obtain ⟨o', hdepicts, hanswered⟩ := he
      exact hrest _ hdepicts hanswered

end IndexQuery

namespace HashIndex

open PagePool IndexCall

theorem get_unrefused {K V : Type} [FixedWidth K] [FixedWidth V] [DecidableEq V] {σ γ : Type}
    [PagePool σ γ] [LawfulPool σ γ] {guards : List γ} {t : HashIndex K V} {o : Outline K V}
    {w : Ledger} (h : t.Depicts (Tallied σ) guards o w) (key : K) {v : Tallied σ}
    (hv : ReadablePool.Kept v guards w)
    (hnone : ((t.get key : Op _ (List V)) v).state.refusals = 0) :
    ((t.get key : Op _ (List V)) v).result = .ok (o.get t.policy key) := by
  obtain ⟨values, _, hvalues, -, rfl, -⟩ :=
    (get_does h key).answers_of_unrefused (fun _ _ he => he.refusals_lt) hv hnone
  exact hvalues

section Runs

variable {K V : Type} [FixedWidth K] [FixedWidth V] [RoundTrip K] [RoundTrip V] [DecidableEq V]
  {n : Nat} {D : Type} [PageStore D] [LawfulStore D] {guards : List (Guard n)}
  {u : UnreliablePool n D} {t : HashIndex K V} {pairs : List (K × V)}

-- An index is opened with another capacity, under any name. It passes just if no bucket has more
-- occupied slots than that, of which some may be those of removed pairs. The new handle has the pairs of
-- the old one then, and from there on its calls answer as on a list that is bounded by the new capacity.
theorem openAt_refits (h : Reached guards t u pairs) (name : String) {capacity : Nat}
    (hpos : 0 < capacity) (hle : capacity ≤ Bucket.maxSlots K V) :
    let M := Pool.contents u.pool
    let handle : HashIndex K V := { t with name, capacity }
    let start : Tallied (UnreliablePool n D) := ⟨u, 0⟩
    let opened := (openAt name t.policy t.directory (some capacity) : Op _ (HashIndex K V)) start
    opened.result.Judges handle (t.Fits M capacity) opened.state.refusals ∧
    Pool.contents opened.state.pool.pool = M ∧
    (opened.result = .ok handle →
      (handle.storedPairs M).Perm (t.storedPairs M) ∧
      (∀ key,
        let values := ((t.entriesFor M key).filter fun pair =>
          (t.policy.order pair.1 key).isEq).map Prod.snd
        let old := (t.get key : Op _ (List V)) opened.state
        let new := (handle.get key : Op _ (List V)) opened.state
        (old.state.refusals = 0 → old.result = .ok values) ∧
        (new.state.refusals = 0 → new.result = .ok values)) ∧
      (t.policy.Coherent → ∀ calls : List (IndexCall K V), (∀ call ∈ calls, call.Legal handle) →
        let ran := (IndexQuery.runAll handle (calls.map .call) : Op _ _) opened.state
        ran.state.refusals = 0 →
          ran.result = .ok ((answersOn t.policy capacity pairs calls).map (Except.map .inl)))) := by
  obtain ⟨w₀, pairs', hkept, ⟨d, hrepresents, hclear⟩, hpairs⟩ := h.holds
  let w : Ledger := { w₀ with refusals := 0 }
  have hw : t.Represents w.sheets d pairs' := hrepresents
  have hM : Pool.contents u.pool = w.memory := Pool.Kept.contents_eq hkept
  rw [hM]
  intro M handle start opened
  have hstart : ReadablePool.Kept start guards w := ⟨hkept, rfl⟩
  have hunwritten : handle.Unwritten (Tallied (UnreliablePool n D)) guards w.memory :=
    hw.unwritten hclear
  have hcapacity : chooseCapacity K V (some capacity) = .ok handle.capacity := if_pos ⟨hpos, hle⟩
  obtain ⟨hopened, w', hkept', hmemory, hsame⟩ :=
    openAt_judges hcapacity ⟨hpos, hle⟩ hunwritten hstart
  rw [hw.passes_resized_iff hpos hle name] at hopened
  refine ⟨hopened, (Pool.contents_tallied hkept').trans hmemory, fun hok => ?_⟩
  obtain rfl := hsame hok
  have hnone : opened.state.refusals = 0 := hkept'.2.symm
  -- both handles have one outline on these pages
  have hnew := hw.resized hpos hle name ((hopened.ok_iff hnone).mp hok)
  have hdepicts : t.Depicts (Tallied (UnreliablePool n D)) guards (d.outline pairs') w :=
    hw.depicts hclear
  have hdepicts' : handle.Depicts (Tallied (UnreliablePool n D)) guards (d.outline pairs') w :=
    hnew.depicts hclear
  refine ⟨hnew.storedPairs_perm.trans hw.storedPairs_perm.symm, ?_, ?_⟩
  · intro key values old new
    have hvalues : values = (d.outline pairs').get t.policy key := by
      change (List.filter _ (t.entriesFor w.memory key)).map Prod.snd = _
      rw [hw.entriesFor_eq]
      rfl
    refine ⟨fun hnone => ?_, fun hnone => ?_⟩
    · rw [hvalues]
      exact get_unrefused hdepicts key hkept' hnone
    · rw [hvalues]
      exact get_unrefused hdepicts' key hkept' hnone
  · intro hcoherent calls hlegal ran hran
    have hdoes := IndexQuery.runAll_calls_does (E := fun _ _ => False) hdepicts' hcoherent calls hlegal
    obtain ⟨answers, w', hanswers, hcount, -, heq⟩ :=
      hdoes.answers_of_unrefused (fun _ _ => False.elim) hkept' hran
    rw [hanswers, heq hcount, ← hpairs hcoherent]
    rfl

end Runs

-- A new index with buckets of one pair is opened with buckets of two pairs, and given a pair.
theorem openAt_refits_created :
    let t : HashIndex UInt32 UInt32 := ⟨"index", ⟨compare, UInt32.toUInt64⟩, ⟨0⟩, 1⟩
    let pool : UnreliablePool 2 MemoryStore := ⟨⟨.single (Shard.initial 2 2 0 1 0), .empty⟩,
      fun i => if i = 9 then some ⟨.poolFull, id⟩ else none, 0⟩
    let u := ((create t.name t.policy (some 1) : Op _ (HashIndex UInt32 UInt32)) pool).state
    let handle : HashIndex UInt32 UInt32 := { t with name := "wide", capacity := 2 }
    let opened := (openAt "wide" t.policy t.directory (some 2) : Op _ (HashIndex UInt32 UInt32))
      (⟨u, 0⟩ : Tallied (UnreliablePool 2 MemoryStore))
    let calls : List (IndexCall UInt32 UInt32) := [.insert 7 1, .get 7]
    (Reached [] t u [] ∧ 0 < 2 ∧ 2 ≤ Bucket.maxSlots UInt32 UInt32) ∧
    (opened.state.refusals = 0 → opened.result = .ok handle) ∧
    (opened.result = .ok handle →
      let ran := (IndexQuery.runAll handle (calls.map .call) : Op _ _) opened.state
      ran.state.refusals = 0 →
        ran.result = .ok [.ok (.inl (.flag true)), .ok (.inl (.values [1]))]) := by
  intro t pool u
  have hcoherent : t.policy.Coherent := fun a b hab => by
    rw [show a = b from Std.LawfulEqOrd.eq_of_compare hab]
  have hreached : Reached [] t u [] := .created (u := pool) (some 1)
    (.created (.single 2 0 1) (d := MemoryStore.empty) trivial
      (fun id _ => Std.HashMap.getD_empty) rfl) rfl
  -- the index is not to be computed
  clear_value u
  have hle : 2 ≤ Bucket.maxSlots UInt32 UInt32 := BucketLayout.le_mostUpTo (by decide) (by decide)
  obtain ⟨w, pairs, hkept, ⟨d, hrepresents, -⟩, -⟩ := hreached.holds
  have hfits : t.Fits (Pool.contents u.pool) 2 := by
    rw [show Pool.contents u.pool = w.memory from Pool.Kept.contents_eq hkept]
    exact hrepresents.fits_of_le (show 1 ≤ 2 by decide)
  obtain ⟨hopened, -, hruns⟩ := openAt_refits hreached "wide" Nat.two_pos hle
  have hlist : answersOn t.policy 2 [] [.insert 7 (1 : UInt32), .get 7] =
      [.ok (.flag true), .ok (.values [1])] := rfl
  refine ⟨⟨hreached, Nat.two_pos, hle⟩, fun hnone => (hopened.ok_iff hnone).mpr hfits, fun hok => ?_⟩
  obtain ⟨-, -, hanswers⟩ := hruns hok
  have hlisted := hanswers hcoherent [.insert 7 1, .get 7] fun call hcall => by
    rcases List.mem_pair.mp hcall with rfl | rfl <;> trivial
  rw [hlist] at hlisted
  exact hlisted

end HashIndex

end PagedIndex
