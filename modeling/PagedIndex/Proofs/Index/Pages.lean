import PagedIndex.Proofs.Index.Representation

namespace PagedIndex.HashIndex

variable {K V : Type} [FixedWidth K] [FixedWidth V]

-- The directory page and the pages that its live slots name.
def IsPage (t : HashIndex K V) (M : Memory) (id : PageId) : Prop :=
  id = t.directory ∨
    ∃ page, M t.directory = some page ∧ id ∈ (Directory.ofPage page).bucketIds

variable [DecidableEq V] {t : HashIndex K V} {w : Ledger} {d : Directory} {pairs : List (K × V)}
  {id : PageId} {P : PageId → Prop} {M M' : Memory}

omit [FixedWidth K] [FixedWidth V] [DecidableEq V] in
theorem isPage_congr (h : M' t.directory = M t.directory) (id : PageId) :
    t.IsPage M' id ↔ t.IsPage M id := by
  rw [IsPage, IsPage, h]

namespace Represents

theorem isPage_owner (h : t.Represents w.sheets d pairs) (hash : UInt32) :
    t.IsPage w.memory (d.owner hash) := by
  obtain ⟨p, hp, rfl⟩ := h.directory
  exact Or.inr ⟨p, Ledger.memory_of_written hp,
    (Directory.mem_bucketIds _ _).mpr ⟨_, Directory.route_lt_size _ hash, rfl⟩⟩

-- All pages of an index were written.
theorem page_written (h : t.Represents w.sheets d pairs) (hid : t.IsPage w.memory id) :
    ∃ p, w.sheets id = some (.written p) := by
  obtain ⟨p, hp, rfl⟩ := h.directory
  rcases hid with rfl | ⟨page, hpage, hid⟩
  · exact ⟨p, hp⟩
  · obtain rfl := Option.some_inj.mp (hpage.symm.trans (Ledger.memory_of_written hp))
    obtain ⟨i, hi, rfl⟩ := (Directory.mem_bucketIds _ _).mp hid
    obtain ⟨b, m, hb⟩ := h.routes.stores_slot hi
    exact ⟨_, hb.page_eq⟩

-- Nothing but its own pages matters to an index.
theorem congr {S : Sheets} (h : t.Represents w.sheets d pairs)
    (hS : ∀ id, t.IsPage w.memory id → S id = w.sheets id) : t.Represents S d pairs := by
  refine ⟨?_, h.routes.congr fun hash => hS _ (h.isPage_owner hash)⟩
  rw [hS _ (Or.inl rfl)]
  exact h.directory

-- A later ledger has the index if it has its pages.
theorem ofMemory (h : t.Represents w.sheets d pairs)
    (hM : ∀ id p, w.sheets id = some (.written p) → M id = some p) :
    t.Represents (Ledger.ofMemory M 0).sheets d pairs := by
  refine h.congr fun id hid => ?_
  obtain ⟨p, hp⟩ := h.page_written hid
  rw [hp, Ledger.sheets_ofMemory (hM id p hp)]

theorem clear (h : t.Represents w.sheets d pairs) {σ γ : Type} [PagePool σ γ] {guards : List γ}
    (hguards : ∀ g ∈ guards, ¬ t.IsPage w.memory (PagePool.pageOf σ g)) : t.Clear σ d guards :=
  fun g hg => ⟨fun heq => hguards g hg (Or.inl heq),
    fun hash heq => hguards g hg (heq ▸ h.isPage_owner hash)⟩

-- The pages away from which the guards are.
theorem not_isPage (h : t.Represents w.sheets d pairs) {σ γ : Type} [PagePool σ γ] {guards : List γ}
    (hclear : t.Clear σ d guards) : ∀ g ∈ guards, ¬ t.IsPage w.memory (PagePool.pageOf σ g) := by
  obtain ⟨p, hp, rfl⟩ := h.directory
  rintro g hg (heq | ⟨page, hpage, hid⟩)
  · exact (hclear g hg).1 heq
  · obtain rfl := Option.some_inj.mp (hpage.symm.trans (Ledger.memory_of_written hp))
    obtain ⟨i, hi, hbucket⟩ := (Directory.mem_bucketIds _ _).mp hid
    obtain ⟨hash, rfl⟩ := h.routes.partitioned.exists_hash hi
    exact (hclear g hg).2 hash hbucket.symm

theorem page_known (h : t.Represents (Ledger.ofMemory M 0).sheets d pairs) (hid : t.IsPage M id) :
    M id ≠ none := by
  rw [← Ledger.memory_ofMemory M 0] at hid ⊢
  obtain ⟨p, hp⟩ := h.page_written hid
  exact Ledger.memory_of_written hp ▸ Option.some_ne_none p

-- The directory page is none of the buckets.
theorem directory_not_mem (h : t.Represents (Ledger.ofMemory M 0).sheets d pairs) {page : Page}
    (hpage : M t.directory = some page) : t.directory ∉ (Directory.ofPage page).bucketIds := by
  obtain ⟨p, hp, rfl⟩ := h.directory
  have hmemory := Ledger.memory_of_written hp
  rw [Ledger.memory_ofMemory] at hmemory
  obtain rfl := Option.some_inj.mp (hpage.symm.trans hmemory)
  rw [Directory.mem_bucketIds]
  rintro ⟨i, hi, hdirectory⟩
  obtain ⟨hash, rfl⟩ := h.routes.partitioned.exists_hash hi
  exact h.routes.apart hash hdirectory

-- A change elsewhere leaves an index as it is.
theorem stays (h : t.Represents (Ledger.ofMemory M 0).sheets d pairs) (hM : M.Confined P M')
    (hP : ∀ id, t.IsPage M id → ¬ P id) :
    t.Represents (Ledger.ofMemory M' 0).sheets d pairs ∧ ∀ id, t.IsPage M' id ↔ t.IsPage M id := by
  have hsame (id : PageId) (hid : t.IsPage M id) : M' id = M id :=
    hM.others id (h.page_known hid) (hP id hid)
  refine ⟨h.congr fun id hid => ?_, isPage_congr (hsame t.directory (Or.inl rfl))⟩
  rw [Ledger.memory_ofMemory] at hid
  exact congrArg (Option.map Sheet.written) (hsame id hid)

end Represents

end PagedIndex.HashIndex
