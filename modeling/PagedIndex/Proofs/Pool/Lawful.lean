import PagedIndex.Proofs.Pool.Ledger
import PagedIndex.Proofs.Pool.Sharding

namespace PagedIndex

namespace PagePool

variable {σ γ : Type} [PagePool σ γ] {access : γ → Access} {guards : List γ} {id : PageId}
  {wanted : Access}

-- A guard that may be asked for beside the live ones: an exclusive guard is alone on its page, and
-- shared guards on one page can be counted.
def Joins (σ : Type) [PagePool σ γ] (access : γ → Access) (guards : List γ) (id : PageId)
    (wanted : Access) : Prop :=
  ∀ g ∈ guards, pageOf σ g = id → access g = .shared ∧ wanted = .shared ∧
    guards.countP (fun g => pageOf σ g = id) + 1 < Shard.pinLimit

-- The first guard on a page may be of either kind.
theorem joins_of_clear (hclear : ∀ g ∈ guards, pageOf σ g ≠ id) : Joins σ access guards id wanted :=
  fun g hg hid => absurd hid (hclear g hg)

theorem Joins.countP_lt (h : Joins σ access guards id wanted) :
    guards.countP (fun g => pageOf σ g = id) + 1 < Shard.pinLimit := by
  by_cases hclear : ∀ g ∈ guards, pageOf σ g ≠ id
  · rw [List.countP_eq_zero.mpr fun g hg => by simpa using hclear g hg]
    decide
  · push Not at hclear
    obtain ⟨g, hg, hid⟩ := hclear
    exact (h g hg hid).2.2

-- Guards on other pages do not matter.
theorem Joins.append {others : List γ} (h : Joins σ access guards id wanted)
    (hothers : ∀ g ∈ others, pageOf σ g ≠ id) : Joins σ access (guards ++ others) id wanted := by
  intro g hg hid
  obtain ⟨haccess, hwanted, hcount⟩ :=
    h g ((List.mem_append.mp hg).resolve_right fun hg => hothers g hg hid) hid
  have hzero : others.countP (fun g => pageOf σ g = id) = 0 :=
    List.countP_eq_zero.mpr fun g hg => by simpa using hothers g hg
  rw [List.countP_append, hzero]
  exact ⟨haccess, hwanted, hcount⟩

end PagePool

-- A guard shows the page as it is in the ledger.
class ReadablePool (σ : Type) (γ : outParam Type) [PagePool σ γ] where
  access : γ → Access
  -- the pool keeps the pages of the ledger, with these guards live on it
  Kept : σ → List γ → Ledger → Prop
  -- some page id that would be given out next does not exist
  Spent : σ → Prop
  -- a page that is asked for under these guards may be refused
  Refuses : List γ → Prop
  fetch_ends {s : σ} {guards : List γ} {w : Ledger} (h : Kept s guards w) {id : PageId} {p : Page}
    (hp : w.memory id = some p) {wanted : Access}
    (hjoins : PagePool.Joins σ access guards id wanted) :
    (PagePool.fetch id wanted).Ends s <| Op.Answers
      (fun g t => (PagePool.pageOf σ g = id ∧ access g = wanted) ∧ Kept t (g :: guards) w)
      fun e t => (¬ e.OfIndex ∧ Refuses guards) ∧ Kept t guards w.refuse
  read_eq {s : σ} {guards : List γ} {w : Ledger} (h : Kept s guards w) {g : γ} (hg : g ∈ guards) :
    w.memory (PagePool.pageOf σ g) = some (PagePool.read g s)
  release_ends {s : σ} {guards : List γ} {w : Ledger} {g : γ} (h : Kept s (g :: guards) w) :
    (PagePool.release g).Ends s fun _ t => Kept t guards w
  release_spent (g : γ) (s : σ) : (PagePool.release g).Ends s fun _ t => Spent s → Spent t

-- A pool that is only read from does not abort.
abbrev ReadablePool.reading (σ : Type) {γ : Type} [PagePool σ γ] [ReadablePool σ γ] :
    ReadablePool σ γ where
  access := ReadablePool.access σ
  Kept := ReadablePool.Kept
  Spent _ := False
  Refuses := ReadablePool.Refuses σ
  fetch_ends := ReadablePool.fetch_ends
  read_eq := ReadablePool.read_eq
  release_ends := ReadablePool.release_ends
  release_spent _ _ := Op.ends_of_forall fun _ _ => id

-- A write under an exclusive guard changes the page in the ledger, and a call that fails leaves it
-- alone.
class LawfulPool (σ : Type) (γ : outParam Type) [PagePool σ γ] extends ReadablePool σ γ where
  allocate_ends {s : σ} {guards : List γ} {w : Ledger} (h : Kept s guards w) :
    (PagePool.allocate (σ := σ)).Ends s <| Op.AnswersOr Spent
      (fun g t => (access g = .exclusive ∧ w.sheets (PagePool.pageOf σ g) = none ∧
          PagePool.pageOf σ g ≠ PageId.invalid) ∧
        Kept t (g :: guards) (w.allot (PagePool.pageOf σ g)))
      fun e t => (¬ e.OfIndex ∧ Refuses guards) ∧ Kept t guards w.refuse
  delete_ends {s : σ} {guards : List γ} {w : Ledger} (h : Kept s guards w) (id : PageId) :
    (PagePool.delete id).Ends s <| Op.Answers (fun _ t => Kept t guards w)
      fun e t => ¬ e.OfIndex ∧ Kept t guards w
  write_kept {s : σ} {guards : List γ} {w : Ledger} (h : Kept s guards w) {g : γ} (hg : g ∈ guards)
    (haccess : access g = .exclusive) (page : Page) :
    Kept (PagePool.write g page s) guards (w.put (PagePool.pageOf σ g) page)

-- As before, with nothing said about calls that abort.
abbrev LawfulPool.aborting (σ : Type) {γ : Type} [PagePool σ γ] [LawfulPool σ γ] : LawfulPool σ γ where
  access := ReadablePool.access σ
  Kept := ReadablePool.Kept
  Spent _ := True
  Refuses := ReadablePool.Refuses σ
  fetch_ends := ReadablePool.fetch_ends
  read_eq := ReadablePool.read_eq
  release_ends := ReadablePool.release_ends
  release_spent _ _ := Op.ends_of_forall fun _ _ => id
  allocate_ends h := (LawfulPool.allocate_ends h).mono fun _ _ ht =>
    ht.imp (fun _ => trivial) (fun _ hg => hg) fun _ he => he
  delete_ends := LawfulPool.delete_ends
  write_kept := LawfulPool.write_kept

-- A pool does not take back the pages that it has given out, those of `kept` among them.
abbrev LawfulPool.retaining (σ : Type) {γ : Type} [PagePool σ γ] [LawfulPool σ γ]
    (kept : PageId → Prop) : LawfulPool σ γ where
  access := ReadablePool.access σ
  Kept s guards w := ReadablePool.Kept s guards w ∧ ∀ id, kept id → w.sheets id ≠ none
  Spent := ReadablePool.Spent
  Refuses := ReadablePool.Refuses σ
  fetch_ends h _ _ hp _ hjoins := (ReadablePool.fetch_ends h.1 hp hjoins).mono fun _ _ ht =>
    Op.Answers.imp ht (fun _ hg => ⟨hg.1, hg.2, h.2⟩) fun _ he => ⟨he.1, he.2, h.2⟩
  read_eq h _ hg := ReadablePool.read_eq h.1 hg
  release_ends h := (ReadablePool.release_ends h.1).mono fun _ _ ht => ⟨ht, h.2⟩
  release_spent := ReadablePool.release_spent
  allocate_ends {_ _ w} h := (LawfulPool.allocate_ends h.1).mono fun _ _ ht =>
    ht.imp id (fun _ hg => ⟨hg.1, hg.2, fun id hid => w.sheets_allot_ne_none _ (h.2 id hid)⟩)
      fun _ he => ⟨he.1, he.2, h.2⟩
  delete_ends h id := (LawfulPool.delete_ends h.1 id).mono fun _ _ ht =>
    Op.Answers.imp ht (fun _ hb => ⟨hb, h.2⟩) fun _ he => ⟨he.1, he.2, h.2⟩
  write_kept {_ _ w} h _ hg haccess page := ⟨LawfulPool.write_kept h.1 hg haccess page,
    fun id hid => w.sheets_put_ne_none _ page (h.2 id hid)⟩

-- A pool that may be asked for any page. It does not give out one that is not in the ledger.
class ProbedPool (σ : Type) (γ : outParam Type) [PagePool σ γ] [ReadablePool σ γ] : Prop where
  fetch_any {s : σ} {guards : List γ} {w : Ledger} (h : ReadablePool.Kept s guards w) (id : PageId)
    {wanted : Access} (hjoins : PagePool.Joins σ (ReadablePool.access σ) guards id wanted) :
    (PagePool.fetch id wanted).Ends s <| Op.Answers
      (fun g t => (PagePool.pageOf σ g = id ∧ ReadablePool.access σ g = wanted) ∧
        ReadablePool.Kept t (g :: guards) w)
      fun e t => (¬ e.OfIndex ∧ ReadablePool.Refuses σ guards) ∧ ReadablePool.Kept t guards w.refuse

theorem ProbedPool.reading (σ : Type) {γ : Type} [PagePool σ γ] [ReadablePool σ γ] [ProbedPool σ γ] :
    @ProbedPool σ γ _ (ReadablePool.reading σ) :=
  @ProbedPool.mk σ γ _ (ReadablePool.reading σ) fun h => fetch_any (σ := σ) h

-- A pool that may be told to drop any page. It does not drop one that is in the ledger.
class SheddingPool (σ : Type) (γ : outParam Type) [PagePool σ γ] [ReadablePool σ γ] : Prop where
  shed_ends {s : σ} {guards : List γ} {w : Ledger} (h : ReadablePool.Kept s guards w) (id : PageId) :
    (PagePool.delete id).Ends s <| Op.Answers (fun _ t => ReadablePool.Kept t guards w)
      fun e t => ¬ e.OfIndex ∧ ReadablePool.Kept t guards w

instance {σ γ : Type} [PagePool σ γ] [LawfulPool σ γ] : SheddingPool σ γ := ⟨LawfulPool.delete_ends⟩

theorem SheddingPool.reading (σ : Type) {γ : Type} [PagePool σ γ] [ReadablePool σ γ]
    [SheddingPool σ γ] : @SheddingPool σ γ _ (ReadablePool.reading σ) :=
  @SheddingPool.mk σ γ _ (ReadablePool.reading σ) fun h => shed_ends (σ := σ) h

-- A pool that does not know how many calls were refused before they reached it.
class UncountedPool (σ : Type) (γ : outParam Type) [PagePool σ γ] [LawfulPool σ γ] : Prop where
  refuse_kept {s : σ} {guards : List γ} {w : Ledger} (h : ReadablePool.Kept s guards w) :
    ReadablePool.Kept s guards w.refuse

section

variable {n : Nat} {D : Type} [PageStore D] {guards : List (Guard n)} {id : PageId} {wanted : Access}

theorem PagePool.Joins.admits
    (h : PagePool.Joins (Mounted (Pool n) D) Guard.access guards id wanted) :
    Admits guards id wanted := fun g hg hid => ⟨(h g hg hid).1, (h g hg hid).2.1⟩

theorem PagePool.Joins.not_crowded
    (h : PagePool.Joins (Mounted (Pool n) D) Guard.access guards id wanted) : ¬ Crowded id guards :=
  Nat.not_le.mpr h.countP_lt

end

namespace Pool

variable {n : Nat} {D : Type} [PageStore D] [LawfulStore D]

-- A memory as a ledger in which all pages were written.
theorem Kept.ofMemory {m : Mounted (Pool n) D} {guards : List (Guard n)} {M : Memory}
    (h : Kept m guards M) (refusals : Nat) : Kept m guards (Ledger.ofMemory M refusals).memory := by
  rwa [Ledger.memory_ofMemory]

instance : LawfulPool (Mounted (Pool n) D) (Guard n) where
  access := Guard.access
  Kept m guards w := Kept m guards w.memory
  Spent m := m.pool.Spent
  Refuses _ := True
  fetch_ends h _ _ _ _ hjoins := (h.fetch (PagePool.Joins.admits hjoins)).mono fun _ _ ht =>
    ht.imp (PagePool.Joins.not_crowded hjoins) (fun _ hg => hg) fun _ he =>
      ⟨⟨he.1.not_ofIndex, trivial⟩, he.2⟩
  allocate_ends {_ _ w} h := h.allocate.mono fun _ _ ht =>
    ht.imp (fun ha => ha) (fun g ⟨⟨haccess, hnew, hvalid⟩, hkept⟩ =>
      ⟨⟨haccess, Ledger.sheets_eq_none hnew, hvalid⟩, (w.memory_allot g.page).symm ▸ hkept⟩)
      fun _ he => ⟨⟨he.1.not_ofIndex, trivial⟩, he.2⟩
  delete_ends h id := (h.delete id).mono fun _ _ ht =>
    ht.imp (fun _ hb => hb) fun _ he => ⟨he.1.not_ofIndex, he.2⟩
  read_eq h _ hg := h.read hg
  write_kept {_ _ w} h g hg haccess page := by
    rw [w.memory_put]
    exact h.write hg haccess page
  release_ends h := h.release.mono fun _ _ ht => ht.2
  release_spent g m := release_spent g m

instance : UncountedPool (Mounted (Pool n) D) (Guard n) := ⟨fun h => h⟩

instance : ProbedPool (Mounted (Pool n) D) (Guard n) where
  fetch_any h _ _ hjoins := (Kept.fetch h (PagePool.Joins.admits hjoins)).mono fun _ _ ht =>
    ht.imp (PagePool.Joins.not_crowded hjoins) (fun _ hg => hg) fun _ he =>
      ⟨⟨he.1.not_ofIndex, trivial⟩, he.2⟩

end Pool

end PagedIndex
