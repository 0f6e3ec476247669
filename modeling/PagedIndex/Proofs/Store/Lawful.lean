import Mathlib.Logic.Function.Basic
import PagedIndex.Proofs.Outcome
import PagedIndex.Store.Backing
import PagedIndex.Store.Fault

namespace PagedIndex

-- The errors by which an index answers. They do not come from a store or a pool.
def StoreError.OfIndex : StoreError → Prop
  | indexFull _ | duplicateEntry | corrupted _ => True
  | _ => False

-- Reading gives the page that was written last, and a call that fails changes no page.
class LawfulStore (D : Type) [PageStore D] where
  Sound : D → Prop
  page : D → PageId → Page
  -- the page count that the store answers
  count : D → UInt32
  -- the errors that the calls of the store may give
  Gives : StoreError → Prop
  not_ofIndex {e : StoreError} : Gives e → ¬ e.OfIndex
  readPage_ends (id : PageId) {d : D} (h : Sound d) : (PageStore.readPage id).Ends d <|
    Op.Answers (fun p d' => p = page d id ∧ Sound d' ∧ page d' = page d)
      fun e d' => Gives e ∧ Sound d' ∧ page d' = page d
  writePage_ends {id : PageId} (hid : id ≠ PageId.invalid) (p : Page) {d : D} (h : Sound d) :
    (PageStore.writePage id p).Ends d <|
    Op.Answers (fun _ d' => Sound d' ∧ page d' = Function.update (page d) id p)
      fun e d' => Gives e ∧ Sound d' ∧ page d' = page d
  pageCount_ends {d : D} (h : Sound d) : (PageStore.pageCount (D := D)).Ends d <|
    Op.Answers (fun stored d' => stored = count d ∧ Sound d' ∧ page d' = page d ∧ count d' = count d)
      fun e d' => Gives e ∧ Sound d' ∧ page d' = page d ∧ count d' = count d

namespace MemoryStore

theorem page_insert (s : MemoryStore) (id : PageId) (p : Page) (count : UInt32)
    (reads writes : Nat) :
    page ⟨s.pages.insert id p, count, reads, writes⟩ = Function.update s.page id p := by
  funext other
  rw [page, Std.HashMap.getD_insert, Function.update_apply]
  by_cases h : id = other
  · simp [h]
  · simp [h, Ne.symm h, page]

theorem page_write {id : PageId} (hid : id.isValid = true) (p : Page) (s : MemoryStore) :
    (write id p s).state.page = Function.update s.page id p := by
  rw [write, if_pos hid]
  exact page_insert s id p _ _ _

instance : LawfulStore MemoryStore where
  Sound _ := True
  page := page
  count := count
  Gives _ := False
  not_ofIndex := False.elim
  readPage_ends _ _ _ := ⟨rfl, trivial, rfl⟩
  pageCount_ends _ := ⟨rfl, trivial, rfl, rfl⟩
  writePage_ends {id} hid p s _ := by
    change (write id p).Ends s _
    have hvalid : id.isValid = true := by simpa [PageId.isValid] using hid
    rw [Op.Ends, write, if_pos hvalid]
    exact ⟨trivial, page_insert s id p _ _ _⟩

end MemoryStore

namespace FileStore

theorem block_writeBlock (f : ByteFile) (n : Nat) (p : Page) (m : Nat) :
    (f.writeBlock n p).block m = if n = m then p else f.block m := by
  rw [ByteFile.block, ByteFile.writeBlock, Std.HashMap.getD_insert]
  simp [ByteFile.block]

-- Nothing was written past the end of the file.
def Sound (s : FileStore) : Prop := ∀ n, s.file.length ≤ pageSize * n → s.file.block n = Page.zero

def page (s : FileStore) (id : PageId) : Page := s.file.block id.number.toNat

theorem Sound.write {s : FileStore} (h : Sound s) (n : Nat) (p : Page) :
    Sound ⟨s.file.writeBlock n p⟩ := by
  intro m hm
  have hlength : max s.file.length (pageSize * (n + 1)) ≤ pageSize * m := hm
  have hne : n ≠ m := by
    rintro rfl
    rw [pageSize] at hlength
    omega
  rw [block_writeBlock, if_neg hne]
  exact h m (by omega)

theorem page_write (s : FileStore) (id : PageId) (p : Page) :
    page ⟨s.file.writeBlock id.number.toNat p⟩ = Function.update (page s) id p := by
  funext other
  rw [page, block_writeBlock, Function.update_apply]
  by_cases h : other = id
  · simp [h]
  · have hne : id.number.toNat ≠ other.number.toNat := fun hn =>
      h (congrArg PageId.mk (UInt32.toNat_inj.mp hn)).symm
    rw [if_neg hne, if_neg h, page]

instance : LawfulStore FileStore where
  Sound := Sound
  page := page
  count s := UInt32.ofNat (s.file.length / pageSize)
  Gives e := e = .io .unexpectedEnd
  not_ofIndex := fun h => h ▸ id
  readPage_ends id s h := by
    change (read id).Ends s _
    by_cases hend : s.file.length ≤ pageSize * id.number.toNat
    · rw [Op.Ends, read, if_pos hend]
      exact ⟨(h _ hend).symm, h, rfl⟩
    · by_cases hcut : s.file.length < pageSize * id.number.toNat + pageSize
      · rw [Op.Ends, read, if_neg hend, if_pos hcut]
        exact ⟨rfl, h, rfl⟩
      · rw [Op.Ends, read, if_neg hend, if_neg hcut]
        exact ⟨rfl, h, rfl⟩
  writePage_ends {id} _ p s h := ⟨h.write _ p, page_write s id p⟩
  pageCount_ends h := ⟨rfl, h, rfl, rfl⟩

end FileStore

instance : LawfulStore NullStore where
  Sound _ := True
  page _ _ := Page.zero
  count _ := 0
  Gives e := e = .io .invalidArgument
  not_ofIndex := fun h => h ▸ id
  readPage_ends _ _ _ := ⟨rfl, trivial, rfl⟩
  writePage_ends _ _ _ _ := ⟨rfl, trivial, rfl⟩
  pageCount_ends _ := ⟨rfl, trivial, rfl, rfl⟩

namespace Backing

def Sound : Backing → Prop
  | memory _ => True
  | file store => FileStore.Sound store
  | null _ => True

def page : Backing → PageId → Page
  | memory store => store.page
  | file store => FileStore.page store
  | null _ => fun _ => Page.zero

def count : Backing → UInt32
  | memory store => store.count
  | file store => LawfulStore.count store
  | null _ => 0

def Gives (e : StoreError) : Prop := e = .io .unexpectedEnd ∨ e = .io .invalidArgument

theorem ends_byKind {α : Type} (memory : Op MemoryStore α) (file : Op FileStore α)
    (null : Op NullStore α) (s : Backing) (Q : Checked α → Backing → Prop) :
    (byKind memory file null).Ends s Q ↔
      match s with
      | .memory store => memory.Ends store fun r t => Q r (.memory t)
      | .file store => file.Ends store fun r t => Q r (.file t)
      | .null store => null.Ends store fun r t => Q r (.null t) := by
  cases s <;> rfl

instance : LawfulStore Backing where
  Sound := Sound
  page := page
  count := count
  Gives := Gives
  not_ofIndex h := by
    rcases h with rfl | rfl
    · exact id
    · exact id
  readPage_ends id s h := by
    refine (ends_byKind _ _ _ _ _).mpr ?_
    cases s with
    | memory store =>
      refine (LawfulStore.readPage_ends id (d := store) trivial).mono fun r t ht => ?_
      exact ht.imp (fun _ hp => hp) fun _ he => he.1.elim
    | file store =>
      refine (LawfulStore.readPage_ends id (d := store) h).mono fun r t ht => ?_
      exact ht.imp (fun _ hp => hp) fun _ he => ⟨Or.inl he.1, he.2⟩
    | null store => exact ⟨rfl, trivial, rfl⟩
  writePage_ends hid p s h := by
    refine (ends_byKind _ _ _ _ _).mpr ?_
    cases s with
    | memory store =>
      refine (LawfulStore.writePage_ends hid p (d := store) trivial).mono fun r t ht => ?_
      exact ht.imp (fun _ hp => hp) fun _ he => he.1.elim
    | file store =>
      refine (LawfulStore.writePage_ends hid p (d := store) h).mono fun r t ht => ?_
      exact ht.imp (fun _ hp => hp) fun _ he => ⟨Or.inl he.1, he.2⟩
    | null store => exact ⟨Or.inr rfl, trivial, rfl⟩
  pageCount_ends {s} h := by cases s <;> exact ⟨rfl, h, rfl, rfl⟩

end Backing

namespace FaultyStore

variable {D : Type}

-- A call that a fault strikes does not reach the store.
theorem ends_strike {α : Type} (strike : Op (FaultyStore D) Bool) {call : Op D α}
    {cause : IoError} {s : FaultyStore D} {Q : Checked α → FaultyStore D → Prop}
    (hstrike : strike.Ends s fun r t => ∃ fails, r = .ok fails ∧ t.store = s.store)
    (hcall : ∀ t : FaultyStore D, t.store = s.store →
      call.Ends t.store fun r d => Q r { t with store := d })
    (hcause : ∀ t : FaultyStore D, t.store = s.store → Q (.error (.error (.io cause))) t) :
    (do if ← strike then Op.fail (.io cause) else onStore call).Ends s Q := by
  rw [Op.ends_bind]
  refine hstrike.mono fun r t ht => ?_
  obtain ⟨fails, rfl, hstore⟩ := ht
  cases fails with
  | true => exact hcause t hstore
  | false => exact hcall t hstore

variable [PageStore D] [LawfulStore D]

def Gives (D : Type) [PageStore D] [LawfulStore D] (e : StoreError) : Prop :=
  LawfulStore.Gives D e ∨ ∃ point, e = .io (.injected point)

instance : LawfulStore (FaultyStore D) where
  Sound s := LawfulStore.Sound s.store
  page s := LawfulStore.page s.store
  count s := LawfulStore.count s.store
  Gives := Gives D
  not_ofIndex h := by
    rcases h with h | ⟨point, rfl⟩
    · exact LawfulStore.not_ofIndex h
    · exact id
  readPage_ends id s h := by
    refine ends_strike (failRead id) ⟨_, rfl, rfl⟩ (fun t ht => ?_) fun t ht => ?_
    · refine (LawfulStore.readPage_ends id (ht ▸ h)).mono fun r d hd => ?_
      rw [ht] at hd
      exact hd.imp (fun _ hp => hp) fun _ he => ⟨Or.inl he.1, he.2⟩
    · exact ⟨Or.inr ⟨_, rfl⟩, ht ▸ h, congrArg LawfulStore.page ht⟩
  writePage_ends {id} hid p s h := by
    refine ends_strike (failWrite id) ⟨_, rfl, rfl⟩ (fun t ht => ?_) fun t ht => ?_
    · refine (LawfulStore.writePage_ends hid p (ht ▸ h)).mono fun r d hd => ?_
      rw [ht] at hd
      exact hd.imp (fun _ hp => hp) fun _ he => ⟨Or.inl he.1, he.2⟩
    · exact ⟨Or.inr ⟨_, rfl⟩, ht ▸ h, congrArg LawfulStore.page ht⟩
  pageCount_ends {s} h := by
    refine ends_strike failCount ⟨_, rfl, rfl⟩ (fun t ht => ?_) fun t ht => ?_
    · refine (LawfulStore.pageCount_ends (ht ▸ h)).mono fun r d hd => ?_
      rw [ht] at hd
      exact hd.imp (fun _ hp => hp) fun _ he => ⟨Or.inl he.1, he.2⟩
    · exact ⟨Or.inr ⟨_, rfl⟩, ht ▸ h, congrArg LawfulStore.page ht,
        congrArg LawfulStore.count ht⟩

end FaultyStore

end PagedIndex
