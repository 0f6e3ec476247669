import PagedIndex.Proofs.Index.Balance
import PagedIndex.Proofs.Index.Neighbours

namespace PagedIndex

open PagePool

namespace IndexTask

variable {K V : Type} [FixedWidth K] [FixedWidth V] [DecidableEq V] {t : HashIndex K V}

-- A task for this index.
def On (t : HashIndex K V) : IndexTask K V → Prop
  | create _ _ _ => False
  | ask u query => u = t ∧ query.Legal t
  | report u => u = t

variable [RoundTrip K] [RoundTrip V] {d : Directory} {pairs : List (K × V)} {w : Ledger}
  {σ γ : Type} [PagePool σ γ]

theorem run_anywhere (h : t.Represents w.sheets d pairs) {task : IndexTask K V} (hon : task.On t) :
    Anywhere w (task.run : Op σ Unit) (fun _ v => ∃ d pairs, t.Represents v.sheets d pairs)
      fun _ v => ∃ d pairs, t.Represents v.sheets d pairs := by
  refine .of_does ?_
  intro _
  have hdepicts : t.Depicts σ ([] : List γ) (d.outline pairs) w := h.depicts nofun
  cases task with
  | create name policy capacity? => exact hon.elim
  | ask u query =>
    obtain ⟨rfl, hlegal⟩ := hon
    refine Does.discard ((query.run_does hdepicts hlegal).mono (fun a v ha => ?_) fun e v he => ?_)
    · obtain ⟨_, ⟨d', pairs', _, hrepresents, _⟩, _⟩ := ha
      exact ⟨d', pairs', hrepresents⟩
    · obtain ⟨_, ⟨d', pairs', _, hrepresents, _⟩, _⟩ := he
      exact ⟨d', pairs', hrepresents⟩
  | report u =>
    obtain rfl := hon
    refine (HashIndex.reportDirectory_does hdepicts.holds).mono (fun _ v hv => ?_) fun e v he => ?_
    · exact hv ▸ ⟨d, pairs, h⟩
    · exact he.2.1 ▸ ⟨d, pairs, h⟩

end IndexTask

theorem HashIndex.create_anywhere {K V σ γ : Type} [FixedWidth K] [FixedWidth V] [DecidableEq V]
    [PagePool σ γ] (name : String) (policy : KeyPolicy K) (capacity? : Option Nat) (w : Ledger) :
    Anywhere w (create name policy capacity? : Op σ (HashIndex K V))
      (fun t v => ∃ d pairs, t.Represents v.sheets d pairs) fun _ _ => True := by
  refine ⟨fun s hs => ?_⟩
  refine (create_ends name policy capacity? hs).mono fun r u hu => hu.imp id (fun t ht => ?_)
    fun e he => ?_
  · obtain ⟨v, hv, hcreated, _⟩ := ht
    obtain ⟨d, pairs, _, hrepresents, _⟩ := hcreated.depicts
    exact ⟨v, hv, d, pairs, hrepresents⟩
  · obtain ⟨v, hv, _⟩ := he
    exact ⟨v, hv, trivial⟩

namespace Pool

variable {n : Nat} {D : Type} [PageStore D] [LawfulStore D] {m m' : Mounted (Pool n) D}
  {guards : List (Guard n)} {M M' : Memory} {tables : List Table} {others : PageId → Prop}

section Calls

-- What a table of a pool does in a task, whichever calls fail in it.
theorem Kept.task (h : Kept m guards M) {T : Table} (hT : T.Represented M)
    (hguards : ∀ g ∈ guards, ¬ T.IsPage M g.page) {task : IndexTask T.Key T.Value}
    (hon : task.On T.index) (plan : Nat → Option { e : StoreError // ¬ e.OfIndex }) :
    task.run.Ends (⟨m, plan, 0⟩ : UnreliablePool n D) fun r u => r.Returns →
      ∃ M', Kept u.pool guards M' ∧ M.Confined (T.IsPage M) M' ∧ T.Represented M' ∧
        ∀ id, T.IsPage M' id → T.IsPage M id ∨ M id = none := by
  obtain ⟨d, pairs, hrepresents⟩ := hT
  have hshown : T.index.Represents ((Ledger.ofMemory M 0).within (T.IsPage M)).sheets d pairs := by
    refine hrepresents.congr fun id hid => Ledger.sheets_within ?_
    rwa [Ledger.memory_ofMemory] at hid
  have hkept : ReadablePool.Kept (⟨m, plan, 0⟩ : UnreliablePool n D) guards
      (Ledger.ofMemory M 0) := h.ofMemory 0
  have hleaves {u : UnreliablePool n D} {v w' : Ledger}
      (hu : ReadablePool.Kept u guards w' ∧ (Ledger.ofMemory M 0).Confined (T.IsPage M) v w')
      (hv : ∃ d pairs, T.index.Represents v.sheets d pairs) :
      ∃ M', Kept u.pool guards M' ∧ M.Confined (T.IsPage M) M' ∧ T.Represented M' ∧
        ∀ id, T.IsPage M' id → T.IsPage M id ∨ M id = none := by
    obtain ⟨d', pairs', hrepresents'⟩ := hv
    obtain ⟨hafter, hpages⟩ := hrepresents'.confined hu.2
    exact ⟨w'.memory, hu.1, hu.2.memory, ⟨d', pairs', hafter⟩, hpages⟩
  refine ((IndexTask.run_anywhere hshown hon).ends_confined hkept hguards).mono
    fun r u hu hreturns => ?_
  cases r using Checked.outcomes with
  | ok a =>
    obtain ⟨v, w', hconfined, hv⟩ := hu
    exact hleaves hconfined hv
  | error e =>
    obtain ⟨v, w', hconfined, hv⟩ := hu
    exact hleaves hconfined hv
  | abort a => exact absurd rfl (hreturns a)

-- A new table has new pages only.
theorem Kept.create (h : Kept m guards M) {K V : Type} [FixedWidth K] [FixedWidth V]
    [DecidableEq V] (name : String) (policy : KeyPolicy K) (capacity? : Option Nat)
    (plan : Nat → Option { e : StoreError // ¬ e.OfIndex }) :
    (HashIndex.create name policy capacity? : Op _ (HashIndex K V)).Ends
      (⟨m, plan, 0⟩ : UnreliablePool n D) fun r u => r.Returns →
        ∃ M', (Kept u.pool guards M' ∧ M.Confined (fun _ => False) M') ∧ ∀ t, r = .ok t →
          (∃ d pairs, t.Represents (Ledger.ofMemory M' 0).sheets d pairs) ∧
            ∀ id, t.IsPage M' id → M id = none := by
  have hkept : ReadablePool.Kept (⟨m, plan, 0⟩ : UnreliablePool n D) guards
      (Ledger.ofMemory M 0) := h.ofMemory 0
  refine ((HashIndex.create_anywhere (V := V) name policy capacity? _).ends_confined
    (P := fun _ => False) hkept fun _ _ => not_false).mono fun r u hu hreturns => ?_
  cases r using Checked.outcomes with
  | ok t =>
    obtain ⟨v, w', ⟨hu, hconfined⟩, d, pairs, hrepresents⟩ := hu
    obtain ⟨hafter, hpages⟩ := hrepresents.confined hconfined
    refine ⟨w'.memory, ⟨hu, hconfined.memory⟩, fun t' ht' => ?_⟩
    obtain rfl := Except.ok.inj ht'
    exact ⟨⟨d, pairs, hafter⟩, fun id hid => (hpages id hid).resolve_left not_false⟩
  | error e =>
    obtain ⟨v, w', ⟨hu, hconfined⟩, _⟩ := hu
    exact ⟨w'.memory, ⟨hu, hconfined.memory⟩, nofun⟩
  | abort a => exact absurd rfl (hreturns a)

-- A page that is given out to a user is a new one.
theorem Kept.call_owns (h : Kept m guards M) (call : PoolCall n) {own : List PageId}
    (hown : ∀ id ∈ own, M id ≠ none) :
    (call.run : Op (Mounted (Pool n) D) _).Ends m fun r _ => ∀ id ∈ call.idsAfter own r,
      (id ∈ own ∨ M id = none) ∧ call.memoryAfter M r id ≠ none := by
  have hsame (r : Checked (Option (Guard n))) : ∀ id ∈ own,
      (id ∈ own ∨ M id = none) ∧ call.memoryAfter M r id ≠ none := fun id hid =>
    ⟨Or.inl hid, call.memoryAfter_ne_none (hown id hid) r⟩
  cases call with
  | allocate =>
    rw [PoolCall.run, Op.ends_map]
    refine h.allocate.mono fun r m' hm => ?_
    cases r using Checked.outcomes with
    | ok g =>
      obtain ⟨⟨_, hnew, _⟩, _⟩ := hm
      have hgiven : M.put g.page Page.zero g.page ≠ none := by
        rw [Memory.put_self]
        exact Option.some_ne_none _
      exact List.forall_mem_cons.mpr ⟨⟨Or.inr hnew, hgiven⟩, hsame _⟩
    | error e => exact hsame _
    | abort a => exact hsame _
  | _ => exact Op.ends_of_forall fun r _ => hsame r

end Calls

end Pool

namespace Table

variable {n : Nat} {D : Type} [PageStore D]

-- The tables after a new one was asked for.
def made {K V : Type} [FixedWidth K] [FixedWidth V] [RoundTrip K] [RoundTrip V] [DecidableEq V]
    (tables : List Table) : Checked (HashIndex K V) → List Table
  | .ok t => ⟨K, V, t⟩ :: tables
  | .error _ => tables

-- As long as no page is refused, the table does not tell the two states of the pool apart.
def AnswersAlike (T : Table) (m m' : Mounted (Pool n) D) : Prop :=
  ∀ queries : List (IndexQuery T.Key T.Value), (∀ query ∈ queries, query.Legal T.index) →
    let r := IndexQuery.runAll T.index queries (⟨m, 0⟩ : Tallied (Mounted (Pool n) D))
    let r' := IndexQuery.runAll T.index queries (⟨m', 0⟩ : Tallied (Mounted (Pool n) D))
    r.state.refusals = 0 → r'.state.refusals = 0 → r.result.Returns ∧ r.result = r'.result

variable [LawfulStore D] {m m' : Mounted (Pool n) D} {guards : List (Guard n)} {M M' : Memory}
  {P : PageId → Prop} {T : Table}

theorem answers_eq {d : Directory} {pairs : List (T.Key × T.Value)}
    (h : T.index.Represents (Ledger.ofMemory M 0).sheets d pairs) (hkept : Pool.Kept m guards M)
    (hguards : ∀ g ∈ guards, ¬ T.IsPage M g.page) {queries : List (IndexQuery T.Key T.Value)}
    (hlegal : ∀ query ∈ queries, query.Legal T.index) :
    let r := IndexQuery.runAll T.index queries (⟨m, 0⟩ : Tallied (Mounted (Pool n) D))
    r.state.refusals = 0 → r.result =
      .ok (IndexQuery.applyAll T.index.policy T.index.capacity queries (d.outline pairs)) := by
  intro r hrefusals
  have hclear : T.index.Clear (Tallied (Mounted (Pool n) D)) d guards := by
    refine h.clear fun g hg => ?_
    rw [Ledger.memory_ofMemory]
    exact hguards g hg
  have hkept : ReadablePool.Kept (⟨m, 0⟩ : Tallied (Mounted (Pool n) D)) guards
      (Ledger.ofMemory M 0) := ⟨hkept.ofMemory 0, rfl⟩
  have hdoes := IndexQuery.runAll_does (E := fun _ _ => False) (h.depicts hclear) queries hlegal
  obtain ⟨answers, w, hanswers, hcount, -, heq⟩ :=
    hdoes.answers_of_unrefused (fun _ _ => False.elim) hkept hrefusals
  rw [show r.result = .ok answers from hanswers, heq hcount]

-- A table answers alike after a change elsewhere.
theorem answersAlike (hT : T.Represented M) (hM : M.Confined P M')
    (hP : ∀ id, T.IsPage M id → ¬ P id) (hkept : Pool.Kept m guards M)
    (hkept' : Pool.Kept m' guards M') (hguards : ∀ g ∈ guards, ¬ T.IsPage M g.page) :
    T.AnswersAlike m m' := by
  obtain ⟨d, pairs, hrepresents⟩ := hT
  obtain ⟨hrepresents', hpages⟩ := hrepresents.stays hM hP
  intro queries hlegal r r' hrefusals hrefusals'
  have hguards' : ∀ g ∈ guards, ¬ T.IsPage M' g.page := fun g hg hpage =>
    hguards g hg ((hpages g.page).mp hpage)
  have hr := answers_eq hrepresents hkept hguards hlegal hrefusals
  have hr' := answers_eq hrepresents' hkept' hguards' hlegal hrefusals'
  exact ⟨hr ▸ nofun, hr.trans hr'.symm⟩

end Table

namespace Pool

variable {n : Nat} {D : Type} [PageStore D] [LawfulStore D] {m m' : Mounted (Pool n) D}
  {guards : List (Guard n)} {M M' : Memory} {tables : List Table} {own : List PageId}
  {retired : PageId → Prop}

-- The states that a pool gets into by tables that are created on it and by users who write to pages of
-- their own, with the pages that tables have left. Any call may fail. A table is used when no guards
-- are live on its pages.
inductive Shared : Mounted (Pool n) D → List (Guard n) → List Table → List PageId →
    (PageId → Prop) → Prop
  | created (shape : PoolShape) {d : D} {pool : Pool n} : LawfulStore.Sound d →
      (∀ id : PageId, LawfulStore.count d ≤ id.number → LawfulStore.page d id = Page.zero) →
      (shape.create n d).result = .ok pool →
      Shared ⟨pool, (shape.create n d).state⟩ [] [] [] fun _ => False
  | called {m : Mounted (Pool n) D} {guards : List (Guard n)} {tables : List Table}
      {own : List PageId} {retired : PageId → Prop} (call : PoolCall n) :
      Shared m guards tables own retired → call.Legal guards → call.Admitted guards →
      (∀ g page, call = .write g page → g.page ∈ own) → (call.run m).result.Returns →
      Shared (call.run m).state (call.guardsAfter guards (call.run m).result) tables
        (call.idsAfter own (call.run m).result) retired
  | made {m : Mounted (Pool n) D} {guards : List (Guard n)} {tables : List Table}
      {own : List PageId} {retired : PageId → Prop} {K V : Type} [FixedWidth K] [FixedWidth V]
      [RoundTrip K] [RoundTrip V] [DecidableEq V] (name : String) (policy : KeyPolicy K)
      (capacity? : Option Nat) (plan : Nat → Option { e : StoreError // ¬ e.OfIndex })
      {r : Outcome (UnreliablePool n D) (HashIndex K V)} :
      Shared m guards tables own retired →
      r = HashIndex.create name policy capacity? ⟨m, plan, 0⟩ → r.result.Returns →
      Shared r.state.pool guards (Table.made tables r.result) own retired
  | used {m : Mounted (Pool n) D} {guards : List (Guard n)} {tables : List Table}
      {own : List PageId} {retired : PageId → Prop} {T : Table} (task : IndexTask T.Key T.Value)
      (plan : Nat → Option { e : StoreError // ¬ e.OfIndex })
      {r : Outcome (UnreliablePool n D) Unit} :
      Shared m guards tables own retired → T ∈ tables → task.On T.index →
      (∀ g ∈ guards, ¬ T.IsPage (contents m) g.page) →
      r = task.run ⟨m, plan, 0⟩ → r.result.Returns →
      Shared r.state.pool guards tables own fun id =>
        retired id ∨ T.IsPage (contents m) id ∧ ¬ T.IsPage (contents r.state.pool) id

theorem Shared.tenants (h : Shared m guards tables own retired) :
    ∃ M, Kept m guards M ∧ Tenants M tables fun id => id ∈ own ∨ retired id := by
  induction h with
  | created shape hsound hzero hcreate =>
    exact ⟨_, (Reached.created shape hsound hzero hcreate).kept, nofun, List.Pairwise.nil, nofun, nofun⟩
  | @called m guards tables own retired call _ hlegal hadmitted hwrite hreturns ih =>
    obtain ⟨M, hkept, htenants⟩ := ih
    have hconfined := call_confined hkept call (P := (· ∈ own)) hwrite
    have howns := hkept.call_owns call fun id hid => htenants.known id (Or.inl hid)
    refine ⟨_, call_kept hkept call hlegal hadmitted hreturns, htenants.step hconfined
      (fun T hT id hid hown => htenants.foreign T hT id (Or.inl hown) hid) fun id hid => ?_⟩
    rcases hid with hid | hid
    · obtain ⟨hold, hknown⟩ := howns id hid
      exact ⟨hold.imp_left Or.inl, hknown⟩
    · exact ⟨Or.inl (Or.inr hid), hconfined.known id (htenants.known id (Or.inr hid))⟩
  | @made m guards tables own retired K V _ _ _ _ _ name policy capacity? plan r _ hr hreturns ih =>
    obtain ⟨M, hkept, htenants⟩ := ih
    subst hr
    obtain ⟨M', ⟨hkept', hconfined⟩, ht⟩ := hkept.create name policy capacity? plan hreturns
    refine ⟨M', hkept', ?_⟩
    cases hresult : (HashIndex.create (V := V) name policy capacity?
        (⟨m, plan, 0⟩ : UnreliablePool n D)).result with
    | ok t =>
      obtain ⟨hrepresented, hnew⟩ := ht t hresult
      exact htenants.join hconfined hrepresented hnew
    | error e =>
      exact htenants.step hconfined (fun _ _ _ _ => not_false) fun id hid =>
        ⟨Or.inl hid, hconfined.known id (htenants.known id hid)⟩
  | @used m guards tables own retired T task plan r _ hT hon hguards hr hreturns ih =>
    obtain ⟨M, hkept, htenants⟩ := ih
    subst hr
    rw [hkept.contents_eq] at hguards ⊢
    obtain ⟨M', hkept', hconfined, hT', hpages⟩ :=
      hkept.task (htenants.represented T hT) hguards hon plan hreturns
    rw [hkept'.contents_eq]
    simp only [← or_assoc]
    exact ⟨M', hkept', htenants.change hT hconfined hT' hpages⟩

end Pool

-- No two tables have a page in common, nor has a table a page of a user or one that a table has left,
-- and no directory page is a bucket.
structure Parted (M : Memory) (tables : List Table) (own : List PageId) (retired : PageId → Prop) :
    Prop where
  apart : tables.Pairwise fun T T' => ∀ id, T.IsPage M id → ¬ T'.IsPage M id
  users (T : Table) : T ∈ tables → ∀ id ∈ own, ¬ T.IsPage M id
  left (T : Table) : T ∈ tables → ∀ id, retired id → ¬ T.IsPage M id
  directories (T T' : Table) : T ∈ tables → T' ∈ tables → ∀ page, M T'.index.directory = some page →
    T.index.directory ∉ (Directory.ofPage page).bucketIds

-- Of the pages that were given out before, only those of `P` have changed, and the other tables answer
-- as before, unless guards are live on their pages.
structure Spared {n : Nat} {D : Type} [PageStore D] [LawfulStore D] (P : PageId → Prop)
    (others : Table → Prop) (guards : List (Guard n)) (m m' : Mounted (Pool n) D) : Prop where
  bytes (id : PageId) : Pool.contents m id ≠ none → ¬ P id → Pool.contents m' id = Pool.contents m id
  answers (T : Table) : others T → (∀ g ∈ guards, ¬ T.IsPage (Pool.contents m) g.page) →
    T.AnswersAlike m m'

namespace Tenants

variable {n : Nat} {D : Type} [PageStore D] [LawfulStore D] {m m' : Mounted (Pool n) D}
  {guards : List (Guard n)} {M M' : Memory} {tables : List Table} {own : List PageId}
  {retired P : PageId → Prop}

theorem parted (h : Tenants M tables fun id => id ∈ own ∨ retired id) :
    Parted M tables own retired := by
  refine ⟨h.apart, fun T hT id hid => h.foreign T hT id (Or.inl hid),
    fun T hT id hid => h.foreign T hT id (Or.inr hid), fun T T' hT hT' page hpage hmem => ?_⟩
  by_cases hne : T = T'
  · subst hne
    obtain ⟨d, pairs, hrepresents⟩ := h.represented T hT
    exact hrepresents.directory_not_mem hpage hmem
  · exact h.apart_of_ne hT hT' hne T.index.directory (Or.inl rfl) (Or.inr ⟨page, hpage, hmem⟩)

theorem spared {taken : PageId → Prop} (h : Tenants M tables taken) {others : Table → Prop}
    (hothers : ∀ T, others T → T ∈ tables ∧ ∀ id, T.IsPage M id → ¬ P id)
    (hkept : Pool.Kept m guards M) (hkept' : Pool.Kept m' guards M') (hM : M.Confined P M') :
    Spared P others guards m m' := by
  refine ⟨fun id => ?_, fun T hT => ?_⟩
  · rw [hkept.contents_eq, hkept'.contents_eq]
    exact hM.others id
  · rw [hkept.contents_eq]
    obtain ⟨hmem, hP⟩ := hothers T hT
    exact Table.answersAlike (h.represented T hmem) hM hP hkept hkept'

end Tenants

namespace Pool

variable {n : Nat} {D : Type} [PageStore D] [LawfulStore D] {m : Mounted (Pool n) D}
  {guards : List (Guard n)} {tables : List Table} {own : List PageId} {retired : PageId → Prop}

theorem Shared.tables_apart (h : Shared m guards tables own retired) :
    Parted (contents m) tables own retired ∧
    (∀ T ∈ tables, (∀ g ∈ guards, ¬ T.IsPage (contents m) g.page) →
      ∀ (task : IndexTask T.Key T.Value) (plan : Nat → Option { e : StoreError // ¬ e.OfIndex }),
      task.On T.index → task.run.Ends (⟨m, plan, 0⟩ : UnreliablePool n D) fun r u => r.Returns →
        Spared (T.IsPage (contents m)) (fun T' => T' ∈ tables ∧ T' ≠ T) guards m u.pool) ∧
    ∀ {K V : Type} [FixedWidth K] [FixedWidth V] [DecidableEq V] (name : String)
      (policy : KeyPolicy K) (capacity? : Option Nat)
      (plan : Nat → Option { e : StoreError // ¬ e.OfIndex }),
      (HashIndex.create name policy capacity? : Op _ (HashIndex K V)).Ends
        (⟨m, plan, 0⟩ : UnreliablePool n D) fun r u => r.Returns →
          Spared (fun _ => False) (· ∈ tables) guards m u.pool := by
  obtain ⟨M, hkept, htenants⟩ := h.tenants
  rw [hkept.contents_eq]
  refine ⟨htenants.parted, fun T hT hguards task plan hon => ?_,
    fun {K V} _ _ _ name policy capacity? plan => ?_⟩
  · refine (hkept.task (htenants.represented T hT) hguards hon plan).mono fun r u hu hreturns => ?_
    obtain ⟨M', hkept', hconfined, _⟩ := hu hreturns
    exact htenants.spared (fun T' hT' => ⟨hT'.1, htenants.apart_of_ne hT'.1 hT hT'.2⟩) hkept hkept'
      hconfined
  · refine (hkept.create name policy capacity? plan).mono fun r u hu hreturns => ?_
    obtain ⟨M', ⟨hkept', hconfined⟩, _⟩ := hu hreturns
    exact htenants.spared (fun T' hT' => ⟨hT', fun _ _ => not_false⟩) hkept hkept' hconfined

-- A query returns while there are page ids.
theorem Shared.ask_returns (h : Shared m guards tables own retired) {T : Table} (hT : T ∈ tables)
    (hguards : ∀ g ∈ guards, ¬ T.IsPage (contents m) g.page) (query : IndexQuery T.Key T.Value)
    (hlegal : query.Legal T.index) (hids : m.pool.Supplies (1 + query.ids))
    (plan : Nat → Option { e : StoreError // ¬ e.OfIndex }) :
    ((IndexTask.ask T.index query).run (⟨m, plan, 0⟩ : UnreliablePool n D)).result.Returns := by
  obtain ⟨M, hkept, htenants⟩ := h.tenants
  rw [hkept.contents_eq] at hguards
  obtain ⟨d, pairs, hrepresents⟩ := htenants.represented T hT
  have hclear : T.index.Clear (UnreliablePool n D) d guards := by
    refine hrepresents.clear fun g hg => ?_
    rw [Ledger.memory_ofMemory]
    exact hguards g hg
  have hdoes : Does guards (Ledger.ofMemory M 0) (query.run T.index : Op (UnreliablePool n D) _) _ _ :=
    (query.run_does (hrepresents.depicts hclear) hlegal).mono (fun _ _ _ => trivial) fun _ _ he => he
  exact HashIndex.not_aborts Spent.not_supplies (hdoes.discard (P := fun _ _ => True))
    (IndexQuery.run_draws T.index query).discard (hkept.ofMemory 0) hids

theorem narrow_shared {n : Nat} (hpos : 0 < n) (hn : n < 4294967296) :
    Shared (narrow n) [] [] [] fun _ => False := by
  obtain ⟨hcreate, hstate⟩ := narrow_create hpos hn
  have hshared := Shared.created (.single n 0 1) (d := narrowStore n) trivial
    (fun id _ => page_narrowStore n id) hcreate
  rwa [hstate] at hshared

-- A table is created on the narrow pool.
theorem Shared.made_narrow {n : Nat} {hpos : 0 < n} {hn : n < 4294967296}
    {m : Mounted (Pool n) MemoryStore} {guards : List (Guard n)} {left : Nat} {K V : Type}
    [FixedWidth K] [FixedWidth V] [RoundTrip K] [RoundTrip V] [DecidableEq V]
    (h : Shared m guards tables own retired)
    (hkept : ∃ w, (narrowPool hpos hn).toReadablePool.Kept m guards w)
    (hids : m.pool.Supplies (left + 1 + 2)) (name : String) (policy : KeyPolicy K)
    {capacity? : Option Nat} {capacity : Nat}
    (hchoose : HashIndex.chooseCapacity K V capacity? = .ok capacity) (hroom : 0 < capacity) :
    ∃ (m' : Mounted (Pool n) MemoryStore) (t : HashIndex K V),
      Shared m' guards (⟨K, V, t⟩ :: tables) own retired ∧
        (∃ w, (narrowPool hpos hn).toReadablePool.Kept m' guards w) ∧ m'.pool.Supplies (left + 1) := by
  obtain ⟨w, hkept⟩ := hkept
  let := HashIndex.narrowUnplanned hpos hn
  let u : UnreliablePool n MemoryStore := ⟨m, fun _ => none, 0⟩
  have hu : ReadablePool.Kept u guards w := ⟨fun _ => rfl, hkept⟩
  obtain ⟨t, w', ht, hkept'⟩ := HashIndex.exists_created (V := V) Spent.not_supplies
    HashIndex.refusals_narrow hu (hids.le (by omega)) name policy capacity? hchoose hroom
  have hmade := h.made (V := V) name policy capacity? (fun _ => none) rfl (by rw [ht]; nofun)
  rw [ht] at hmade
  exact ⟨_, t, hmade, ⟨w', hkept'.2⟩,
    HashIndex.create_draws (V := V) name policy capacity? (left + 1) u hids⟩

-- A user has a page, and there are two tables. A pair is inserted into one of them.
theorem Shared.tables_apart_insert :
    let g : Guard 64 := ⟨⟨4294967232⟩, 0, .exclusive⟩
    ∃ (m : Mounted (Pool 64) MemoryStore) (t : HashIndex UInt32 UInt32) (t' : HashIndex UInt32 UInt64),
      let T : Table := ⟨UInt32, UInt32, t⟩
      let T' : Table := ⟨UInt32, UInt64, t'⟩
      let r := (IndexTask.ask t (.call (.insert 0 7))).run
        (⟨m, fun _ => none, 0⟩ : UnreliablePool 64 MemoryStore)
      (Shared m [g] [T', T] [g.page] (fun _ => False) ∧ r.result.Returns) ∧
        Parted (contents m) [T', T] [g.page] (fun _ => False) ∧
        Spared (T.IsPage (contents m)) (fun U => U ∈ [T', T] ∧ U ≠ T) [g] m r.state.pool := by
  intro g
  have hpos : 0 < 64 := by decide
  have hn : 64 < 4294967296 := by decide
  let := narrowPool hpos hn
  let m := (PoolCall.allocate.run (narrow 64)).state
  have hallocated : Shared m [g] [] [g.page] fun _ => False :=
    (narrow_shared hpos hn).called .allocate trivial trivial nofun nofun
  have hkept : ReadablePool.Kept (narrow 64) ([] : List (Guard 64)) ⟨fun _ => none, 0⟩ :=
    ⟨_, narrow_scarce hpos hn⟩
  have hresult : ((PagePool.allocate : Op (Mounted (Pool 64) MemoryStore) (Guard 64))
      (narrow 64)).result = .ok g := rfl
  have hends := LawfulPool.allocate_ends hkept
  rw [Op.Ends, hresult] at hends
  have hids : SuppliedPool.Supplies (38 + 1) (narrow 64) := HashIndex.narrow_supplies (by decide) hn
  have hids : m.pool.Supplies (35 + 1 + 2) := SuppliedPool.allocate_supplies hids
  have hkept : ReadablePool.Kept m [g] _ := hends.2
  clear_value m
  let policy : KeyPolicy UInt32 := ⟨compare, UInt32.toUInt64⟩
  have hchoose : HashIndex.chooseCapacity UInt32 UInt32 (some 1) = .ok 1 := rfl
  have hchoose' : HashIndex.chooseCapacity UInt32 UInt64 (some 2) = .ok 2 := rfl
  obtain ⟨m₁, t, hmade, hkept₁, hids₁⟩ :=
    hallocated.made_narrow ⟨_, hkept⟩ hids "index" policy hchoose Nat.one_pos
  obtain ⟨m₂, t', hmade', _, hids₂⟩ :=
    hmade.made_narrow hkept₁ (hids₁.le (show 33 + 1 + 2 ≤ 36 by decide)) "other" policy hchoose'
      Nat.two_pos
  let T : Table := ⟨UInt32, UInt32, t⟩
  have hT : T ∈ [⟨UInt32, UInt64, t'⟩, T] := List.mem_cons_of_mem _ List.mem_cons_self
  obtain ⟨hparted, htasks, -⟩ := hmade'.tables_apart
  have hguards : ∀ h ∈ [g], ¬ T.IsPage (contents m₂) h.page :=
    List.forall_mem_singleton.mpr (hparted.users T hT g.page List.mem_cons_self)
  have hreturns := hmade'.ask_returns hT hguards (.call (.insert 0 7)) trivial hids₂ fun _ => none
  exact ⟨m₂, t, t', ⟨hmade', hreturns⟩, hparted,
    htasks T hT hguards (.ask t (.call (.insert 0 7))) (fun _ => none) ⟨rfl, trivial⟩ hreturns⟩

end Pool

end PagedIndex
