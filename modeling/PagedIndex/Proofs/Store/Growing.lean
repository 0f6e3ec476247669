import Mathlib.Data.UInt
import PagedIndex.Proofs.Store.Lawful

namespace PagedIndex

-- Writing a page raises the page count past it, and nothing lowers the count.
class GrowingStore (D : Type) [PageStore D] [LawfulStore D] where
  -- the page count is that of all pages
  Counted : D → Prop
  page_eq_zero {d : D} (h : Counted d) {id : PageId} :
    LawfulStore.count d ≤ id.number → LawfulStore.page d id = Page.zero
  readPage_counts (id : PageId) (d : D) : (PageStore.readPage id).Ends d fun _ d' =>
    Counted d → Counted d' ∧ LawfulStore.count d' = LawfulStore.count d
  writePage_counts {id : PageId} (hid : id ≠ PageId.invalid) (p : Page) (d : D) :
    (PageStore.writePage id p).Ends d fun r d' => Counted d →
      Counted d' ∧ LawfulStore.count d ≤ LawfulStore.count d' ∧
        (r = .ok () → id.number < LawfulStore.count d')
  pageCount_counts (d : D) : (PageStore.pageCount (D := D)).Ends d fun _ d' =>
    Counted d → Counted d'

-- Stores that come to answer every call that reads.
class ReliableStore (D : Type) [PageStore D] [LawfulStore D] where
  -- none of these calls fails any more
  Reliable : D → Prop
  readPage_answers (id : PageId) (d : D) : (PageStore.readPage id).Ends d fun r d' =>
    Reliable d → id.number < LawfulStore.count d →
      (∃ p, r = .ok p) ∧ Reliable d' ∧ LawfulStore.count d' = LawfulStore.count d
  pageCount_answers (d : D) : (PageStore.pageCount (D := D)).Ends d fun _ d' =>
    Reliable d → Reliable d'

theorem PageId.toNat_succ {id : PageId} (h : id ≠ PageId.invalid) :
    (id.number + 1).toNat = id.number.toNat + 1 := by
  have hbound := id.number.toNat_lt
  have hne : id.number.toNat ≠ 4294967295 := fun heq =>
    h (congrArg PageId.mk (UInt32.toNat_inj.mp heq))
  rw [UInt32.toNat_add, UInt32.toNat_one, Nat.mod_eq_of_lt (by omega)]

namespace MemoryStore

instance : GrowingStore MemoryStore where
  Counted s := ∀ id : PageId, s.count ≤ id.number → s.page id = Page.zero
  page_eq_zero h _ := h _
  readPage_counts _ _ h := ⟨h, rfl⟩
  pageCount_counts _ h := h
  writePage_counts {id} hid p s := by
    change (write id p).Ends s _
    have hvalid : id.isValid = true := by simpa [PageId.isValid] using hid
    rw [Op.Ends, write, if_pos hvalid]
    have hsucc := PageId.toNat_succ hid
    have hmax : (max s.count (id.number + 1)).toNat = max s.count.toNat (id.number.toNat + 1) := by
      rw [UInt32.toNat_max, hsucc]
    intro h
    simp only [LawfulStore.count, UInt32.le_iff_toNat_le, UInt32.lt_iff_toNat_lt, hmax]
    refine ⟨fun other hother => ?_, Nat.le_max_left _ _, fun _ => by omega⟩
    have hne : other ≠ id := by
      rintro rfl
      omega
    rw [page_insert, Function.update_of_ne hne]
    exact h other (UInt32.le_iff_toNat_le.mpr (by omega))

instance : ReliableStore MemoryStore where
  Reliable _ := True
  readPage_answers _ _ _ _ := ⟨⟨_, rfl⟩, trivial, rfl⟩
  pageCount_answers _ _ := trivial

end MemoryStore

namespace FileStore

-- The pages that end before the end of the file.
def pageCount (s : FileStore) : Nat := s.file.length / pageSize

theorem pageCount_write (s : FileStore) (n : Nat) (p : Page) :
    pageCount ⟨s.file.writeBlock n p⟩ = max s.pageCount (n + 1) := by
  have hlength : (s.file.writeBlock n p).length = max s.file.length (pageSize * (n + 1)) := rfl
  simp only [pageCount, hlength, pageSize]
  omega

-- The page count does not overflow, and only zeroes lie past it.
def Counted (s : FileStore) : Prop :=
  s.pageCount < UInt32.size ∧ ∀ id : PageId, s.pageCount ≤ id.number.toNat → s.page id = Page.zero

theorem Counted.toNat_count {s : FileStore} (h : Counted s) :
    (LawfulStore.count s).toNat = s.pageCount := UInt32.toNat_ofNat_of_lt' h.1

theorem Counted.write {s : FileStore} (h : Counted s) {id : PageId} (hid : id ≠ PageId.invalid)
    (p : Page) : Counted ⟨s.file.writeBlock id.number.toNat p⟩ := by
  have hcount := pageCount_write s id.number.toNat p
  have hsucc := PageId.toNat_succ hid
  have hlt := (id.number + 1).toNat_lt
  refine ⟨?_, fun other hother => ?_⟩
  · have hbound := h.1
    rw [hcount, UInt32.size] at *
    omega
  · have hne : other ≠ id := by
      rintro rfl
      omega
    rw [page_write, Function.update_of_ne hne]
    exact h.2 other (by omega)

instance : GrowingStore FileStore where
  Counted := Counted
  page_eq_zero h id hid := by
    rw [UInt32.le_iff_toNat_le, h.toNat_count] at hid
    exact h.2 id hid
  readPage_counts id s := by
    change (read id).Ends s _
    rw [Op.Ends, read]
    split
    · exact fun h => ⟨h, rfl⟩
    · split
      · exact fun h => ⟨h, rfl⟩
      · exact fun h => ⟨h, rfl⟩
  pageCount_counts _ h := h
  writePage_counts {id} hid p s := by
    change (write id p).Ends s _
    rw [write, Op.ends_update]
    intro h
    have hwrite := h.write hid p
    rw [UInt32.le_iff_toNat_le, UInt32.lt_iff_toNat_lt, hwrite.toNat_count, h.toNat_count,
      pageCount_write]
    exact ⟨hwrite, Nat.le_max_left _ _, fun _ => Nat.le_max_right _ _⟩

-- The pages below the page count are not cut off by the end of the file.
instance : ReliableStore FileStore where
  Reliable _ := True
  readPage_answers id s := by
    change (read id).Ends s _
    intro _ hid
    have hcount : id.number.toNat < s.pageCount := by
      rw [UInt32.lt_iff_toNat_lt] at hid
      exact hid.trans_le (UInt32.toNat_ofNat' ▸ Nat.mod_le _ _)
    have hend : pageSize * id.number.toNat + pageSize ≤ s.file.length := by
      rw [pageCount, pageSize] at *
      omega
    have hpos : 0 < pageSize := by decide
    rw [read, if_neg (by omega), if_neg (by omega)]
    exact ⟨⟨_, rfl⟩, trivial, rfl⟩
  pageCount_answers _ _ := trivial

end FileStore

namespace FaultyStore

variable {D : Type}

-- A call that no fault strikes reaches the store.
theorem ends_pass {α : Type} (strike : Op (FaultyStore D) Bool) {call : Op D α} {cause : IoError}
    {s : FaultyStore D} {Q : Checked α → FaultyStore D → Prop}
    (hstrike : strike.Ends s fun r t => r = .ok false ∧ t = s)
    (hcall : call.Ends s.store fun r d => Q r { s with store := d }) :
    (do if ← strike then Op.fail (.io cause) else onStore call).Ends s Q := by
  rw [Op.ends_bind]
  refine hstrike.mono fun r t ht => ?_
  obtain ⟨rfl, rfl⟩ := ht
  exact hcall

variable [PageStore D] [LawfulStore D]

instance [GrowingStore D] : GrowingStore (FaultyStore D) where
  Counted s := GrowingStore.Counted s.store
  page_eq_zero h := GrowingStore.page_eq_zero h
  readPage_counts id s := by
    refine ends_strike (failRead id) ⟨_, rfl, rfl⟩ (fun t ht => ?_) fun t ht => ?_
    · have hread := GrowingStore.readPage_counts id t.store
      rw [ht] at hread ⊢
      exact hread
    · exact fun h => ⟨ht ▸ h, congrArg (LawfulStore.count (D := D)) ht⟩
  writePage_counts hid p s := by
    refine ends_strike (failWrite _) ⟨_, rfl, rfl⟩ (fun t ht => ?_) fun t ht => ?_
    · have hwrite := GrowingStore.writePage_counts hid p t.store
      rw [ht] at hwrite ⊢
      exact hwrite
    · have hcount : LawfulStore.count t.store = LawfulStore.count s.store := congrArg _ ht
      exact fun h => ⟨ht ▸ h, UInt32.le_of_eq hcount.symm, nofun⟩
  pageCount_counts s := by
    refine ends_strike failCount ⟨_, rfl, rfl⟩ (fun t ht => ?_) fun t ht => ?_
    · exact ht ▸ GrowingStore.pageCount_counts t.store
    · exact ht ▸ id

-- Faults that are no longer set do not strike.
instance [ReliableStore D] : ReliableStore (FaultyStore D) where
  Reliable s := s.readFault = none ∧ s.countFault = none ∧ ReliableStore.Reliable s.store
  readPage_answers id s := by
    obtain ⟨store, readFault, writeFault, countFault⟩ := s
    cases readFault with
    | none =>
      refine ends_pass (failRead id) ⟨rfl, rfl⟩ ?_
      refine (ReliableStore.readPage_answers id store).mono fun r t ht h hid => ?_
      obtain ⟨hok, hreliable, hcount⟩ := ht h.2.2 hid
      exact ⟨hok, ⟨h.1, h.2.1, hreliable⟩, hcount⟩
    | some fault => exact Op.ends_of_forall fun _ _ h => nomatch h.1
  pageCount_answers s := by
    obtain ⟨store, readFault, writeFault, countFault⟩ := s
    cases countFault with
    | none =>
      refine ends_pass failCount ⟨rfl, rfl⟩ ?_
      exact (ReliableStore.pageCount_answers store).mono fun r t ht h => ⟨h.1, h.2.1, ht h.2.2⟩
    | some fault => exact Op.ends_of_forall fun _ _ h => nomatch h.2.1

end FaultyStore

end PagedIndex
