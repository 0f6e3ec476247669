import PagedIndex.Proofs.Index.Steps
import PagedIndex.Proofs.Pool.Unreliable

namespace PagedIndex

namespace Ledger

open Classical in
-- The pages of `P`.
noncomputable def within (w : Ledger) (P : PageId → Prop) : Ledger :=
  { w with sheets := fun id => if P id then w.sheets id else none }

open Classical in
-- The pages that are not of `P`.
noncomputable def outside (w : Ledger) (P : PageId → Prop) : Sheets := fun id =>
  if P id then none else w.sheets id

-- The pages of the ledger and those of `S`, which has others.
def beside (w : Ledger) (S : Sheets) : Ledger :=
  { w with sheets := fun id => (S id).or (w.sheets id) }

variable {w : Ledger} {S : Sheets} {P : PageId → Prop} {id : PageId}

theorem sheets_within (h : P id) : (w.within P).sheets id = w.sheets id := if_pos h

theorem outside_eq (h : ¬ P id) : w.outside P id = w.sheets id := if_neg h

theorem outside_ne_none (hid : w.sheets id ≠ none) (h : ¬ P id) : w.outside P id ≠ none := by
  rwa [outside_eq h]

theorem sheets_beside (h : S id = none) : (w.beside S).sheets id = w.sheets id :=
  (congrArg (·.or (w.sheets id)) h).trans Option.none_or

theorem sheets_beside_of_eq_none (h : w.sheets id = none) : (w.beside S).sheets id = S id :=
  (congrArg (S id).or h).trans Option.or_none

theorem memory_beside (h : S id = none) : (w.beside S).memory id = w.memory id := by
  rw [memory, memory, sheets_beside h]

theorem within_beside_outside (w : Ledger) (P : PageId → Prop) :
    (w.within P).beside (w.outside P) = w := by
  unfold beside within outside
  congr 1
  funext id
  by_cases h : P id
  · simp only [if_pos h, Option.none_or]
  · simp only [if_neg h, Option.or_none]

theorem update_or {sheet : Option Sheet} (h : S id = none) :
    Function.update (fun other => (S other).or (w.sheets other)) id sheet =
      fun other => (S other).or (Function.update w.sheets id sheet other) := by
  funext other
  by_cases hother : other = id
  · rw [hother, Function.update_self, Function.update_self, h, Option.none_or]
  · rw [Function.update_of_ne hother, Function.update_of_ne hother]

theorem allot_beside (h : S id = none) : (w.beside S).allot id = (w.allot id).beside S := by
  simp only [beside, allot, update_or h]

theorem put_beside (h : S id = none) (p : Page) : (w.beside S).put id p = (w.put id p).beside S := by
  simp only [beside, put, update_or h]

-- What became of the ledger `w` when the pages of `P` were shown as a ledger that is now `v`.
structure Confined (P : PageId → Prop) (w v w' : Ledger) : Prop where
  known (id : PageId) : w.sheets id ≠ none → w'.sheets id ≠ none
  others (id : PageId) : w.sheets id ≠ none → ¬ P id → w'.sheets id = w.sheets id
  shown (id : PageId) : v.sheets id ≠ none → P id ∨ w.sheets id = none
  shows (id : PageId) : v.sheets id ≠ none → w'.sheets id = v.sheets id

theorem Confined.memory {M : Memory} {v w' : Ledger} (h : (ofMemory M 0).Confined P v w') :
    M.Confined P w'.memory := by
  have hsheets (id : PageId) : (ofMemory M 0).sheets id ≠ none ↔ M id ≠ none := by
    rw [sheets_ne_none_iff, memory_ofMemory]
  refine ⟨fun id hid => sheets_ne_none_iff.mp (h.known id ((hsheets id).mpr hid)),
    fun id hid hP => ?_⟩
  rw [Ledger.memory, h.others id ((hsheets id).mpr hid) hP]
  exact congrFun (memory_ofMemory M 0) id

end Ledger

-- The pool keeps the pages of the ledger and those of `S`, under the live guards and those hidden.
structure Fenced {σ γ : Type} [PagePool σ γ] [ReadablePool σ γ] (S : Sheets) (hidden : List γ) (s : σ)
    (guards : List γ) (w : Ledger) : Prop where
  kept : ReadablePool.Kept s (guards ++ hidden) (w.beside S)
  apart (id : PageId) : S id ≠ none → w.sheets id = none
  clear (g : γ) : g ∈ guards → S (PagePool.pageOf σ g) = none

namespace Fenced

variable {σ γ : Type} [PagePool σ γ] [ReadablePool σ γ] {S : Sheets} {hidden guards : List γ} {s : σ}
  {w : Ledger} {id : PageId}

theorem memory_eq (h : Fenced S hidden s guards w) (hid : w.sheets id ≠ none) :
    (w.beside S).memory id = w.memory id :=
  Ledger.memory_beside (not_not.mp fun hS => hid (h.apart id hS))

theorem refuse (h : Fenced S hidden s guards w) {t : σ}
    (ht : ReadablePool.Kept t (guards ++ hidden) (w.beside S).refuse) :
    Fenced S hidden t guards w.refuse := ⟨ht, h.apart, h.clear⟩

variable {P : PageId → Prop} {v : Ledger}

-- The pages of `P` are shown, and all guards hidden.
theorem start (hs : ReadablePool.Kept s guards w) :
    Fenced (w.outside P) guards s [] (w.within P) := by
  refine ⟨?_, fun id hid => ?_, nofun⟩
  · rwa [w.within_beside_outside]
  · exact if_neg fun hP => hid (if_pos hP)

theorem confined (h : Fenced (w.outside P) guards s [] v)
    (hknown : ∀ id, w.sheets id ≠ none → (v.beside (w.outside P)).sheets id ≠ none) :
    w.Confined P v (v.beside (w.outside P)) := by
  have hout (id : PageId) (hid : v.sheets id ≠ none) : w.outside P id = none :=
    not_not.mp fun hS => hid (h.apart id hS)
  refine ⟨hknown, fun id hid hP => ?_, fun id hid => ?_, fun id hid => ?_⟩
  · rw [Ledger.sheets_beside_of_eq_none (h.apart id (Ledger.outside_ne_none hid hP)),
      Ledger.outside_eq hP]
  · by_cases hP : P id
    · exact Or.inl hP
    · exact Or.inr ((Ledger.outside_eq hP).symm.trans (hout id hid))
  · exact Ledger.sheets_beside (hout id hid)

end Fenced

theorem LawfulPool.spent_of_release {σ γ : Type} [PagePool σ γ] [LawfulPool σ γ] (g : γ) (s : σ) :
    (PagePool.release g).Ends s fun _ t => ReadablePool.Spent s → ReadablePool.Spent t :=
  ReadablePool.release_spent g s

-- As the pool, with the pages of `S` hidden.
abbrev LawfulPool.fenced (σ : Type) {γ : Type} [PagePool σ γ] [LawfulPool σ γ] (S : Sheets)
    {hidden : List γ} (hhidden : ∀ g ∈ hidden, S (PagePool.pageOf σ g) ≠ none) : LawfulPool σ γ where
  access := ReadablePool.access σ
  Kept := Fenced S hidden
  Spent := ReadablePool.Spent
  Refuses guards := ReadablePool.Refuses σ (guards ++ hidden)
  fetch_ends {_ guards w} h id p hp wanted hjoins := by
    have hid : w.sheets id ≠ none := Ledger.sheets_ne_none_iff.mpr (hp ▸ Option.some_ne_none p)
    have hS : S id = none := not_not.mp fun hS => hid (h.apart id hS)
    have hjoins' := hjoins.append fun g hg hpage => hhidden g hg (hpage ▸ hS)
    refine (ReadablePool.fetch_ends h.kept ((h.memory_eq hid).trans hp) hjoins').mono fun r t ht =>
      Op.Answers.imp ht (fun g hg => ⟨hg.1, hg.2, h.apart, ?_⟩) fun e he => ⟨he.1, h.refuse he.2⟩
    exact List.forall_mem_cons.mpr ⟨hg.1.1 ▸ hS, h.clear⟩
  read_eq {_ guards w} h g hg := by
    rw [← Ledger.memory_beside (h.clear g hg)]
    exact ReadablePool.read_eq h.kept (List.mem_append_left hidden hg)
  release_ends h := (ReadablePool.release_ends h.kept).mono fun _ _ ht =>
    ⟨ht, h.apart, (List.forall_mem_cons.mp h.clear).2⟩
  release_spent := LawfulPool.spent_of_release
  allocate_ends {_ guards w} h := by
    refine (LawfulPool.allocate_ends h.kept).mono fun r t ht =>
      ht.imp id (fun g hg => ?_) fun e he => ⟨he.1, h.refuse he.2⟩
    obtain ⟨⟨haccess, hnew, hvalid⟩, hkept⟩ := hg
    obtain ⟨hS, hw⟩ := Option.or_eq_none_iff.mp hnew
    refine ⟨⟨haccess, hw, hvalid⟩, Ledger.allot_beside hS ▸ hkept, fun id hid => ?_,
      List.forall_mem_cons.mpr ⟨hS, h.clear⟩⟩
    rw [w.sheets_allot_of_ne _ (ne_of_apply_ne S (hS ▸ hid))]
    exact h.apart id hid
  delete_ends h id := (LawfulPool.delete_ends h.kept id).mono fun _ _ ht =>
    Op.Answers.imp ht (fun _ hb => ⟨hb, h.apart, h.clear⟩) fun _ he => ⟨he.1, he.2, h.apart, h.clear⟩
  write_kept {_ guards w} h g hg haccess page := by
    have hS := h.clear g hg
    refine ⟨?_, fun id hid => ?_, h.clear⟩
    · rw [← Ledger.put_beside hS]
      exact LawfulPool.write_kept h.kept (List.mem_append_left hidden hg) haccess page
    · rw [w.sheets_put_of_ne _ _ (ne_of_apply_ne S (hS ▸ hid))]
      exact h.apart id hid

namespace PagePool

variable {σ γ α β : Type} [PagePool σ γ] {w : Ledger} {x : Op σ α} {Q : α → Ledger → Prop}
  {E : StoreError → Ledger → Prop}

-- On every lawful pool with this ledger and without live guards the operation answers as `Q` says or
-- gives an error as `E` says.
structure Anywhere (w : Ledger) (x : Op σ α) (Q : α → Ledger → Prop) (E : StoreError → Ledger → Prop) :
    Prop where
  ends [LawfulPool σ γ] (s : σ) : ReadablePool.Kept s ([] : List γ) w →
    x.Ends s (Op.AnswersOr (fun _ => True) (fun a t => ∃ v, ReadablePool.Kept t ([] : List γ) v ∧ Q a v)
      fun e t => ∃ v, ReadablePool.Kept t ([] : List γ) v ∧ E e v)

theorem Anywhere.of_does (h : ∀ [LawfulPool σ γ], Does [] w x Q E) : Anywhere w x Q E :=
  ⟨fun s hs => (h s hs).mono fun _ _ ht => ht.imp (fun _ => trivial) (fun _ ha => ha) fun _ he => he⟩

variable [LawfulPool σ γ] {s : σ} {guards : List γ} {P : PageId → Prop}

theorem Anywhere.ends_fenced (hx : Anywhere (w.within P) x Q E)
    (hs : ReadablePool.Kept s guards w) (hguards : ∀ g ∈ guards, ¬ P (pageOf σ g)) :
    x.Ends s (Op.AnswersOr (fun _ => True)
      (fun a t => ∃ v, Fenced (w.outside P) guards t [] v ∧ Q a v)
      fun e t => ∃ v, Fenced (w.outside P) guards t [] v ∧ E e v) := by
  have hstart := Fenced.start (P := P) hs
  have hhidden : ∀ g ∈ guards, w.outside P (pageOf σ g) ≠ none := fun g hg =>
    Ledger.outside_ne_none
      (Ledger.sheets_ne_none_iff.mpr (ReadablePool.read_eq hs hg ▸ Option.some_ne_none _))
      (hguards g hg)
  let := LawfulPool.fenced σ (w.outside P) hhidden
  exact hx.ends s hstart

theorem Anywhere.ends_confined (hx : Anywhere (w.within P) x Q E)
    (hs : ReadablePool.Kept s guards w) (hguards : ∀ g ∈ guards, ¬ P (pageOf σ g)) :
    x.Ends s (Op.AnswersOr (fun _ => True)
      (fun a t => ∃ v w', (ReadablePool.Kept t guards w' ∧ w.Confined P v w') ∧ Q a v)
      fun e t => ∃ v w', (ReadablePool.Kept t guards w' ∧ w.Confined P v w') ∧ E e v) := by
  have hretained : ReadablePool.Kept s guards w ∧ ∀ id, w.sheets id ≠ none → w.sheets id ≠ none :=
    ⟨hs, fun _ hid => hid⟩
  let := LawfulPool.retaining σ fun id => w.sheets id ≠ none
  refine (hx.ends_fenced (w := w) hretained hguards).mono fun r t ht =>
    ht.imp id (fun a ha => ?_) fun e he => ?_
  · obtain ⟨v, hv, ha⟩ := ha
    exact ⟨v, _, ⟨hv.kept.1, hv.confined hv.kept.2⟩, ha⟩
  · obtain ⟨v, hv, he⟩ := he
    exact ⟨v, _, ⟨hv.kept.1, hv.confined hv.kept.2⟩, he⟩

end PagePool

end PagedIndex
