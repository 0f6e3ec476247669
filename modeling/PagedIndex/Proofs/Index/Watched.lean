import PagedIndex.Proofs.Index.Fenced
import PagedIndex.Proofs.Pool.Flushing
import PagedIndex.Proofs.Pool.Marking

namespace PagedIndex

-- The pages that an operation has written to, the last one first.
structure Footprint where
  written : List PageId
  -- those written since the pool was last called, which may write pages back
  unsaved : List PageId

namespace Footprint

def empty : Footprint := ⟨[], []⟩

def called (F : Footprint) : Footprint := { F with unsaved := [] }

def wrote (F : Footprint) (id : PageId) : Footprint := ⟨id :: F.written, id :: F.unsaved⟩

end Footprint

-- The pages by which two ledgers differ.
structure Ledger.Edited (ids : List PageId) (w w' : Ledger) : Prop where
  same (id : PageId) : id ∉ ids → w'.sheets id = w.sheets id
  changed (id : PageId) : id ∈ ids →
    ∃ p p', w.memory id = some p ∧ w'.memory id = some p' ∧ p' ≠ p

namespace Ledger.Edited

variable {ids : List PageId} {w w' : Ledger} {id : PageId}

theorem nil (h : w'.sheets = w.sheets) : Edited [] w w' := ⟨fun _ _ => congrFun h _, nofun⟩

theorem congr (h : Edited ids w w') {w'' : Ledger} (hsheets : w''.sheets = w'.sheets) :
    Edited ids w w'' := by
  have hmemory : w''.memory = w'.memory := congrArg (fun S id => (S id).map Sheet.page) hsheets
  exact ⟨fun id hid => hsheets ▸ h.same id hid, fun id hid => hmemory ▸ h.changed id hid⟩

theorem put (h : Edited ids w w') (hid : id ∉ ids) {p p' : Page} (hp : w.memory id = some p)
    (hne : p' ≠ p) : Edited (id :: ids) w (w'.put id p') := by
  refine ⟨fun other hother => ?_, fun other hother => ?_⟩
  · rw [List.mem_cons, not_or] at hother
    rw [w'.sheets_put_of_ne id p' hother.1, h.same other hother.2]
  · rw [w'.memory_put]
    by_cases heq : other = id
    · subst heq
      exact ⟨p, p', hp, Memory.put_self _ _ _, hne⟩
    · rw [Memory.put_of_ne _ _ heq]
      exact h.changed other ((List.mem_cons.mp hother).resolve_left heq)

end Ledger.Edited

-- A pool that is watched for what is written to it.
class WatchedPool (σ : Type) (γ : outParam Type) [PagePool σ γ] where
  access : γ → Access
  -- the pool keeps the pages of the ledger, with these guards live on it, after these pages were
  -- written
  Kept : Footprint → σ → List γ → Ledger → Prop
  settled {F : Footprint} {s : σ} {guards : List γ} {w : Ledger} (h : Kept F s guards w) :
    Kept F.called s guards w
  fetch_ends {F : Footprint} {s : σ} {guards : List γ} {w : Ledger} (h : Kept F s guards w)
    {id : PageId} {p : Page} (hp : w.memory id = some p) {wanted : Access}
    (hjoins : PagePool.Joins σ access guards id wanted) :
    (PagePool.fetch id wanted).Ends s <| Op.Answers
      (fun g t => (PagePool.pageOf σ g = id ∧ access g = wanted) ∧ Kept F.called t (g :: guards) w)
      fun e t => ¬ e.OfIndex ∧ Kept F.called t guards w.refuse
  -- nothing is said here about pages that are given out
  allocate_ends {F : Footprint} {s : σ} {guards : List γ} {w : Ledger} (h : Kept F s guards w) :
    (PagePool.allocate (σ := σ)).Ends s <| Op.AnswersOr (fun _ => True) (fun _ _ => True)
      fun _ t => Kept F.called t guards w.refuse
  delete_ends {F : Footprint} {s : σ} {guards : List γ} {w : Ledger} (h : Kept F s guards w)
    (id : PageId) : (PagePool.delete id).Ends s <| Op.Answers (fun _ t => Kept F.called t guards w)
      fun e t => ¬ e.OfIndex ∧ Kept F.called t guards w
  read_eq {F : Footprint} {s : σ} {guards : List γ} {w : Ledger} (h : Kept F s guards w) {g : γ}
    (hg : g ∈ guards) : w.memory (PagePool.pageOf σ g) = some (PagePool.read g s)
  write_kept {F : Footprint} {s : σ} {guards : List γ} {w : Ledger} (h : Kept F s guards w) {g : γ}
    (hg : g ∈ guards) (haccess : access g = .exclusive) (page : Page) :
    Kept (F.wrote (PagePool.pageOf σ g)) (PagePool.write g page s) guards
      (w.put (PagePool.pageOf σ g) page)
  release_ends {F : Footprint} {s : σ} {guards : List γ} {w : Ledger} {g : γ}
    (h : Kept F s (g :: guards) w) : (PagePool.release g).Ends s fun _ t => Kept F t guards w

namespace WatchedPool

open PagePool

variable {σ γ α : Type} [PagePool σ γ] [WatchedPool σ γ] {F : Footprint} {s : σ} {guards : List γ}
  {w : Ledger} {g : γ}

omit [WatchedPool σ γ] in
-- A pool that is never spent.
theorem never_spent (g : γ) (s : σ) : (release g).Ends s fun _ _ => False → False :=
  Op.ends_of_forall fun _ _ => id

variable (σ) in
-- The pool while nothing is written to it.
abbrev reading (F : Footprint) : ReadablePool σ γ where
  access := access σ
  Kept := Kept F.called
  Spent _ := False
  Refuses _ := True
  fetch_ends h _ _ hp _ hjoins := (fetch_ends h hp hjoins).mono fun _ _ ht =>
    Op.Answers.imp ht (fun _ hg => hg) fun _ he => ⟨⟨he.1, trivial⟩, he.2⟩
  read_eq := read_eq
  release_ends := release_ends
  release_spent := never_spent

theorem shedding (σ : Type) {γ : Type} [PagePool σ γ] [WatchedPool σ γ] (F : Footprint) :
    @SheddingPool σ γ _ (reading σ F) :=
  @SheddingPool.mk σ γ _ (reading σ F) fun h => delete_ends (F := F.called) h

-- Just these pages have changed since the ledger `w`.
def Wrote (F : Footprint) (s : σ) (guards : List γ) (w : Ledger) : Prop :=
  ∃ w', w.Edited F.written w' ∧ Kept F s guards w'

theorem Wrote.settled (h : Wrote F s guards w) : Wrote F.called s guards w := by
  obtain ⟨w', hedited, hs⟩ := h
  exact ⟨w', hedited, WatchedPool.settled hs⟩

theorem Wrote.release (h : Wrote F s (g :: guards) w) :
    (release g).Ends s fun _ t => Wrote F t guards w := by
  obtain ⟨w', hedited, hs⟩ := h
  exact (release_ends hs).mono fun _ _ ht => ⟨w', hedited, ht⟩

theorem ends_readPage (h : Kept F s guards w) (hg : g ∈ guards) {p : Page}
    (hp : w.memory (pageOf σ g) = some p) (Q : Checked Page → σ → Prop) :
    (readPage g : Op σ Page).Ends s Q ↔ Q (.ok p) s := by
  have hread := read_eq h hg
  rw [hp] at hread
  rw [readPage, Op.ends_observe, Option.some_inj.mp hread]

-- A page is read or written under a guard, which is given back whatever comes of it.
theorem ends_withPage (h : Kept F s guards w) {id : PageId} {p : Page} {wanted : Access}
    {body : γ → Op σ α} {Q : Checked α → σ → Prop} (hp : w.memory id = some p)
    (hclear : ∀ g ∈ guards, pageOf σ g ≠ id)
    (hbody : ∀ g, (fetch id wanted s).result = .ok g → pageOf σ g = id → access σ g = wanted →
      Kept F.called (fetch id wanted s).state (g :: guards) w →
      (body g).Ends (fetch id wanted s).state fun r t => (release g).Ends t fun _ u => Q r u)
    (hrefused : ∀ e, Kept F.called (fetch id wanted s).state guards w.refuse →
      Q (.error (.error e)) (fetch id wanted s).state) :
    (withPage id wanted body).Ends s Q := by
  rw [withPage, Op.ends_bind]
  have hends : (fetch id wanted).Ends s _ := fetch_ends h hp (joins_of_clear hclear)
  unfold Op.Ends at hends ⊢
  cases hr : (fetch id wanted s).result using Checked.outcomes with
  | ok g =>
    rw [hr] at hends
    obtain ⟨⟨hpage, haccess⟩, hkept⟩ := hends
    exact hbody g hr hpage haccess hkept
  | error e =>
    rw [hr] at hends
    exact hrefused e hends.2
  | abort a =>
    rw [hr] at hends
    exact hends.elim

end WatchedPool

-- A call that is refused before it reaches the pool leaves the shards alone.
theorem Unreliable.call_each {n : Nat} {D α : Type}
    {R : Mounted (Shard n) D → Mounted (Shard n) D → Prop}
    (hR : Local R) {x : Op (Mounted (Pool n) D) α} {u : UnreliablePool n D}
    (hx : x.Ends u.pool fun _ m => Pool.Each R u.pool m) :
    (call x).Ends u fun _ v => Pool.Each R u.pool v.pool := by
  rw [call, Op.ends_bind, ends_next, Op.then_ok]
  cases u.plan u.calls with
  | some e => exact fun id => hR.refl _
  | none => exact hx

namespace Pool

variable {n : Nat} {D : Type} [PageStore D] [LawfulStore D] {S : Sheets}
  {hidden guards : List (Guard n)} {before : PageId → Prop} {F : Footprint} {u v : UnreliablePool n D}
  {w w' : Ledger}

-- Of the pages that are shown, those are marked that were so before or that were written to.
structure Watched (S : Sheets) (hidden : List (Guard n)) (before : PageId → Prop) (F : Footprint)
    (u : UnreliablePool n D) (guards : List (Guard n)) (w : Ledger) : Prop where
  fenced : Fenced S hidden u guards w
  marked {id : PageId} : Marked u.pool id → before id ∨ id ∈ F.written
  altered {id : PageId} : (u.pool.pool.owner id).Altered id → id ∈ F.written ∨ S id ≠ none
  unsaved {id : PageId} : id ∈ F.unsaved → S id = none ∧ (u.pool.pool.owner id).Unsaved id

namespace Watched

theorem kept (h : Watched S hidden before F u guards w) :
    Kept u.pool (guards ++ hidden) (w.beside S).memory := h.fenced.kept

theorem start (hhidden : ∀ g ∈ hidden, S g.page ≠ none) (h : Fenced S hidden u [] w) :
    Watched S hidden (Marked u.pool) .empty u [] w := by
  refine ⟨h, Or.inl, fun {id} hid => Or.inr ?_, nofun⟩
  obtain ⟨g, hg, rfl, -⟩ := Kept.writing_of_altered h.kept hid
  exact hhidden g hg

theorem called (h : Watched S hidden before F u guards w)
    (hcools : Each Shard.Cooled u.pool v.pool) {guards' : List (Guard n)}
    (hv : Fenced S hidden v guards' w') : Watched S hidden before F.called v guards' w' := by
  refine ⟨hv, fun {id} hid => h.marked ?_, fun {id} hid => h.altered ((hcools id).altered hid), nofun⟩
  have hmarked := (Kept.marked_iff hv.kept id).mpr hid
  exact (h.kept.marked_iff id).mp ((hcools id).marked hmarked)

-- Of what was written the page is marked that the guard was on.
theorem released {g : Guard n} (h : Watched S hidden before F u (g :: guards) w)
    (hsettles : Each (fun m m' => Shard.Settles g.page m.pool m'.pool) u.pool v.pool)
    (hv : Fenced S hidden v guards w) : Watched S hidden before F v guards w := by
  refine ⟨hv, fun {id} hid => ?_, fun {id} hid => h.altered ((hsettles id).altered hid),
    fun {id} hid => ⟨(h.unsaved hid).1, (hsettles id).unsaved (h.unsaved hid).2⟩⟩
  have hmarked := (Kept.marked_iff hv.kept id).mpr hid
  rcases (hsettles id).marked hmarked with hbefore | ⟨rfl, haltered⟩
  · exact h.marked ((h.kept.marked_iff id).mp hbefore)
  · have hshown := h.fenced.clear g List.mem_cons_self
    exact Or.inr ((h.altered haltered).resolve_right (not_not_intro hshown))

theorem written {g : Guard n} (h : Watched S hidden before F u guards w) (hg : g ∈ guards)
    {page : Page} (hv : Fenced S hidden (PagePool.write g page u) guards w') :
    Watched S hidden before (F.wrote g.page) (PagePool.write g page u) guards w' := by
  have hmem := List.mem_append_left hidden hg
  have halters := h.kept.write_alters hmem page
  refine ⟨hv, fun {id} hid => ?_, fun {id} hid => ?_, fun {id} hid => ?_⟩
  · have hmarked := (halters id).marked ((Kept.marked_iff hv.kept id).mpr hid)
    exact (h.marked ((h.kept.marked_iff id).mp hmarked)).imp_right (List.mem_cons_of_mem _)
  · rcases (halters id).altered hid with haltered | rfl
    · exact (h.altered haltered).imp_left (List.mem_cons_of_mem _)
    · exact Or.inl List.mem_cons_self
  · rcases List.mem_cons.mp hid with rfl | hid
    · exact ⟨h.fenced.clear g hg, h.kept.write_unsaved hmem page⟩
    · exact ⟨(h.unsaved hid).1, (halters id).unsaved (h.unsaved hid).2⟩

end Watched

variable (n D) in
abbrev watching (S : Sheets) {hidden : List (Guard n)} (hhidden : ∀ g ∈ hidden, S g.page ≠ none)
    (before : PageId → Prop) : WatchedPool (UnreliablePool n D) (Guard n) where
  access := Guard.access
  Kept := Watched S hidden before
  settled h := ⟨h.fenced, h.marked, h.altered, nofun⟩
  fetch_ends h _ _ hp _ hjoins := by
    refine Op.Ends.mono (((LawfulPool.fenced (UnreliablePool n D) S hhidden).fetch_ends h.fenced hp
      hjoins).and (Unreliable.call_each Shard.local_cooled (fetch_cools _ _))) fun _ _ hv => ?_
    exact Op.Answers.imp hv.1 (fun _ hg => ⟨hg.1, h.called hv.2 hg.2⟩)
      fun _ he => ⟨he.1.1, h.called hv.2 he.2⟩
  allocate_ends h := by
    refine Op.Ends.mono (((LawfulPool.fenced (UnreliablePool n D) S hhidden).allocate_ends h.fenced).and
      (Unreliable.call_each Shard.local_cooled h.kept.allocate_cools)) fun _ _ hv => ?_
    exact hv.1.imp (fun _ => trivial) (fun _ _ => trivial) fun _ he => h.called hv.2 he.2
  delete_ends h id := by
    refine Op.Ends.mono (((LawfulPool.fenced (UnreliablePool n D) S hhidden).delete_ends h.fenced id).and
      (Unreliable.call_each Shard.local_cooled (delete_cools id))) fun _ _ hv => ?_
    exact Op.Answers.imp hv.1 (fun _ hb => h.called hv.2 hb) fun _ he => ⟨he.1, h.called hv.2 he.2⟩
  read_eq h _ hg := (LawfulPool.fenced (UnreliablePool n D) S hhidden).read_eq h.fenced hg
  write_kept h _ hg haccess page := h.written hg
    ((LawfulPool.fenced (UnreliablePool n D) S hhidden).write_kept h.fenced hg haccess page)
  release_ends {F u _ _ g} h := by
    have hsettles : (PagePool.release g : Op (UnreliablePool n D) Unit).Ends u fun _ v =>
        Each (fun m m' => Shard.Settles g.page m.pool m'.pool) u.pool v.pool := h.kept.release_settles
    refine Op.Ends.mono (((LawfulPool.fenced (UnreliablePool n D) S hhidden).release_ends
      h.fenced).and hsettles) fun _ _ hv => ?_
    exact h.released hv.2 hv.1

-- The pages that were written have other bytes now. They are marked, or in the store already, and those
-- not saved are marked. No other page has changed or is marked that was not.
structure Changes (F : Footprint) (m m' : Mounted (Pool n) D) : Prop where
  same (id : PageId) : id ∉ F.written → contents m' id = contents m id
  changed (id : PageId) : id ∈ F.written → ∃ p p', contents m id = some p ∧ contents m' id = some p' ∧
    p' ≠ p ∧ (Marked m' id ∨ LawfulStore.page m'.store id = p')
  marked (id : PageId) : id ∉ F.written → Marked m' id → Marked m id
  unsaved (id : PageId) : id ∈ F.unsaved → Marked m' id

variable {P : PageId → Prop}

-- What was seen to be written to a pool of which the pages of `P` were shown.
theorem changes_of_wrote (hu : Kept u.pool hidden w.memory)
    (hhidden : ∀ g ∈ hidden, w.outside P g.page ≠ none)
    (h : @WatchedPool.Wrote _ _ _ (watching n D (w.outside P) hhidden (Marked u.pool)) F v []
      (w.within P)) :
    Changes F u.pool v.pool := by
  obtain ⟨w', hedited, hv⟩ := h
  have hcontents : contents u.pool = w.memory := hu.contents_eq
  have hcontents' : contents v.pool = (w'.beside (w.outside P)).memory := hv.kept.contents_eq
  have hwriting {id : PageId} (hid : w.outside P id = none) : ¬ Writing hidden id := by
    rintro ⟨g, hg, rfl, -⟩
    exact hhidden g hg hid
  refine ⟨fun id hid => ?_, fun id hid => ?_, fun id hid hmarked =>
    (hv.marked hmarked).resolve_right hid, fun id hid => ?_⟩
  · have hsheets : (w'.beside (w.outside P)).sheets id = w.sheets id := by
      change (w.outside P id).or (w'.sheets id) = _
      rw [hedited.same id hid]
      exact congrFun (congrArg Ledger.sheets (w.within_beside_outside P)) id
    rw [hcontents, hcontents', Ledger.memory, hsheets, Ledger.memory]
  · obtain ⟨p, p', hp, hp', hne⟩ := hedited.changed id hid
    have hshown : w.outside P id = none := not_not.mp fun hS => by
      rw [Ledger.memory, hv.fenced.apart id hS] at hp'
      cases hp'
    have hafter : (w'.beside (w.outside P)).memory id = some p' :=
      (Ledger.memory_beside hshown).trans hp'
    have hbefore : ((w.within P).beside (w.outside P)).memory id = some p :=
      (Ledger.memory_beside hshown).trans hp
    rw [w.within_beside_outside P] at hbefore
    refine ⟨p, p', hcontents ▸ hbefore, hcontents' ▸ hafter, hne, ?_⟩
    by_cases hmarked : Marked v.pool id
    · exact Or.inl hmarked
    · exact Or.inr (hv.kept.stored hafter (hwriting hshown) hmarked)
  · obtain ⟨hshown, hunsaved⟩ := hv.unsaved hid
    rcases Shard.unsaved_iff.mp hunsaved with hmarked | haltered
    · exact (hv.kept.marked_iff id).mp hmarked
    · exact absurd (hv.kept.writing_of_altered haltered) (hwriting hshown)

end Pool

end PagedIndex
