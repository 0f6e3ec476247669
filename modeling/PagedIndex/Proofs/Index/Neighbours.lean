import Mathlib.Data.List.Pairwise
import PagedIndex.Proofs.Index.Fenced
import PagedIndex.Proofs.Index.Pages

namespace PagedIndex

-- An index that was shown the pages of `P` has these and new ones.
theorem HashIndex.Represents.confined {K V : Type} [FixedWidth K] [FixedWidth V] [DecidableEq V]
    {t : HashIndex K V} {d : Directory} {pairs : List (K × V)} {P : PageId → Prop} {M : Memory}
    {v w' : Ledger} (h : t.Represents v.sheets d pairs)
    (hv : (Ledger.ofMemory M 0).Confined P v w') :
    t.Represents (Ledger.ofMemory w'.memory 0).sheets d pairs ∧
      ∀ id, t.IsPage w'.memory id → P id ∨ M id = none := by
  have hshows (id : PageId) (p : Page) (hp : v.sheets id = some (.written p)) :
      w'.memory id = some p :=
    Ledger.memory_of_written ((hv.shows id (hp ▸ Option.some_ne_none _)).trans hp)
  obtain ⟨p, hp, _⟩ := h.directory
  refine ⟨h.ofMemory hshows, fun id hid => ?_⟩
  rw [isPage_congr ((hshows _ p hp).trans (Ledger.memory_of_written hp).symm)] at hid
  obtain ⟨p, hp⟩ := h.page_written hid
  exact (hv.shown id (hp ▸ Option.some_ne_none _)).imp_right Option.map_eq_none_iff.mp

-- An index with the types of its keys and values.
structure Table where
  Key : Type
  Value : Type
  [fixedKey : FixedWidth Key]
  [fixedValue : FixedWidth Value]
  [roundTripKey : RoundTrip Key]
  [roundTripValue : RoundTrip Value]
  [decidableEq : DecidableEq Value]
  index : HashIndex Key Value

attribute [instance] Table.fixedKey Table.fixedValue Table.roundTripKey Table.roundTripValue
  Table.decidableEq

namespace Table

def IsPage (T : Table) (M : Memory) (id : PageId) : Prop := T.index.IsPage M id

def Represented (T : Table) (M : Memory) : Prop :=
  ∃ d pairs, T.index.Represents (Ledger.ofMemory M 0).sheets d pairs

end Table

-- The tables are indexes with pages of their own, and `others` are pages that no table has.
structure Tenants (M : Memory) (tables : List Table) (others : PageId → Prop) : Prop where
  represented (T : Table) : T ∈ tables → T.Represented M
  apart : tables.Pairwise fun T T' => ∀ id, T.IsPage M id → ¬ T'.IsPage M id
  known (id : PageId) : others id → M id ≠ none
  foreign (T : Table) : T ∈ tables → ∀ id, others id → ¬ T.IsPage M id

namespace Tenants

variable {M M' : Memory} {tables : List Table} {others others' P : PageId → Prop} {T T' : Table}

theorem apart_of_ne (h : Tenants M tables others) (hT : T ∈ tables) (hT' : T' ∈ tables)
    (hne : T ≠ T') (id : PageId) (hid : T.IsPage M id) : ¬ T'.IsPage M id := by
  have : Std.Symm fun A B : Table => ∀ id, A.IsPage M id → ¬ B.IsPage M id :=
    ⟨fun _ _ hapart id hid hid' => hapart id hid' hid⟩
  exact h.apart.forall hT hT' hne id hid

theorem page_known (h : Tenants M tables others) (hT : T ∈ tables) {id : PageId}
    (hid : T.IsPage M id) : M id ≠ none := by
  obtain ⟨d, pairs, hrepresents⟩ := h.represented T hT
  exact hrepresents.page_known hid

theorem stays (h : Tenants M tables others) (hT : T ∈ tables) (hM : M.Confined P M')
    (hP : ∀ id, T.IsPage M id → ¬ P id) :
    T.Represented M' ∧ ∀ id, T.IsPage M' id ↔ T.IsPage M id := by
  obtain ⟨d, pairs, hrepresents⟩ := h.represented T hT
  obtain ⟨hrepresents', hpages⟩ := hrepresents.stays hM hP
  exact ⟨⟨d, pairs, hrepresents'⟩, hpages⟩

-- Someone who has no page of a table changes pages and gets new ones.
theorem step (h : Tenants M tables others) (hM : M.Confined P M')
    (hP : ∀ T ∈ tables, ∀ id, T.IsPage M id → ¬ P id)
    (hothers : ∀ id, others' id → (others id ∨ M id = none) ∧ M' id ≠ none) :
    Tenants M' tables others' := by
  refine ⟨fun T hT => (h.stays hT hM (hP T hT)).1, ?_, fun id hid => (hothers id hid).2,
    fun T hT id hid hpage => ?_⟩
  · refine h.apart.imp_of_mem fun {A B} hA hB hapart id hid hid' => ?_
    rw [(h.stays hA hM (hP A hA)).2] at hid
    rw [(h.stays hB hM (hP B hB)).2] at hid'
    exact hapart id hid hid'
  · rw [(h.stays hT hM (hP T hT)).2] at hpage
    rcases (hothers id hid).1 with hold | hnone
    · exact h.foreign T hT id hold hpage
    · exact h.page_known hT hpage hnone

-- A table on new pages joins.
theorem join (h : Tenants M tables others) (hM : M.Confined (fun _ => False) M')
    (hT : T.Represented M') (hnew : ∀ id, T.IsPage M' id → M id = none) :
    Tenants M' (T :: tables) others := by
  have h' : Tenants M' tables others := h.step hM (fun _ _ _ _ => not_false)
    fun id hid => ⟨Or.inl hid, hM.known id (h.known id hid)⟩
  refine ⟨List.forall_mem_cons.mpr ⟨hT, h'.represented⟩, List.pairwise_cons.mpr
    ⟨fun T' hT' id hid hpage => ?_, h'.apart⟩, h'.known, List.forall_mem_cons.mpr
    ⟨fun id hid hpage => h.known id hid (hnew id hpage), h'.foreign⟩⟩
  rw [(h.stays hT' hM fun _ _ => not_false).2] at hpage
  exact h.page_known hT' hpage (hnew id hid)

-- A table changes its own pages. It may leave some and take new ones.
theorem change (h : Tenants M tables others) (hT : T ∈ tables) (hM : M.Confined (T.IsPage M) M')
    (hT' : T.Represented M') (hpages : ∀ id, T.IsPage M' id → T.IsPage M id ∨ M id = none) :
    Tenants M' tables fun id => others id ∨ T.IsPage M id ∧ ¬ T.IsPage M' id := by
  have hstays {A : Table} (hA : A ∈ tables) (hne : A ≠ T) := h.stays hA hM (h.apart_of_ne hA hT hne)
  -- a page of another table was its page before, so it is not one of this table now
  have hforeign {A : Table} (hA : A ∈ tables) (hne : A ≠ T) {id : PageId} (hid : A.IsPage M' id) :
      ¬ T.IsPage M' id := by
    rw [(hstays hA hne).2] at hid
    exact fun hpage => (hpages id hpage).elim (h.apart_of_ne hA hT hne id hid) (h.page_known hA hid)
  refine ⟨fun A hA => ?_, h.apart.imp_of_mem fun {A B} hA hB hapart id hid hid' => ?_,
    fun id hid => hM.known id ?_, fun A hA id hid hpage => ?_⟩
  · by_cases hAT : A = T
    · exact hAT ▸ hT'
    · exact (hstays hA hAT).1
  · by_cases hAT : A = T
    · subst hAT
      by_cases hBT : B = A
      · subst hBT
        exact hapart B.index.directory (Or.inl rfl) (Or.inl rfl)
      · exact hforeign hB hBT hid' hid
    · by_cases hBT : B = T
      · exact hforeign hA hAT hid (hBT ▸ hid')
      · exact hapart id (((hstays hA hAT).2 id).mp hid) (((hstays hB hBT).2 id).mp hid')
  · exact hid.elim (h.known id) fun hid => h.page_known hT hid.1
  · by_cases hAT : A = T
    · subst hAT
      rcases hid with hid | hid
      · exact (hpages id hpage).elim (h.foreign A hA id hid) (h.known id hid)
      · exact hid.2 hpage
    · rw [(hstays hA hAT).2] at hpage
      exact hid.elim (fun hid => h.foreign A hA id hid hpage)
        fun hid => h.apart_of_ne hA hT hAT id hpage hid.1

end Tenants

end PagedIndex
