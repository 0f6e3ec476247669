import PagedIndex.Proofs.Index.Independence
import PagedIndex.Proofs.Index.Pages
import PagedIndex.Proofs.Pool.Restart

namespace PagedIndex

namespace HashIndex

variable {K V : Type} [FixedWidth K] [FixedWidth V] [DecidableEq V] {n : Nat} {D : Type}
  [PageStore D] [LawfulStore D]

section Founded

variable [GrowingStore D]

-- Runs of an index on a pool of its own, which was created for it.
inductive Founded (t : HashIndex K V) : UnreliablePool n D → Prop
  | created {u : UnreliablePool n D} (shape : PoolShape) {d : D} (capacity? : Option Nat) :
      LawfulStore.Sound d → GrowingStore.Counted d → (shape.create n d).result = .ok u.pool.pool →
      (shape.create n d).state = u.pool.store →
      ((create t.name t.policy capacity? : Op _ (HashIndex K V)) u).result = .ok t →
      Founded t ((create t.name t.policy capacity? : Op _ (HashIndex K V)) u).state
  | asked {u : UnreliablePool n D} (name : String) (query : IndexQuery K V) :
      Founded t u → query.Legal t → (query.run { t with name } u).result.Returns →
      Founded t (query.run { t with name } u).state

variable [RoundTrip K] [RoundTrip V] {t : HashIndex K V} {u : UnreliablePool n D}

-- The pages of the index were written, and the pool does not lose what was written.
theorem Founded.recorded (h : Founded t u) : ∃ w o, Pool.Kept u.pool [] w.memory ∧
    Pool.Recorded u.pool w ∧ t.Depicts (UnreliablePool n D) [] o w := by
  let := Pool.recording n D
  have : UncountedPool (Mounted (Pool n) D) (Guard n) := ⟨fun h => ⟨h.1, h.2.refuse⟩⟩
  induction h with
  | @created u shape d capacity? hsound hcounted hpool hstore ht =>
    have hends := shape.create_ends (n := n) (fun d hd =>
      (GrowingStore.pageCount_counts d).mono fun _ _ h => h hd) hsound hcounted
    rw [Op.Ends, hpool, hstore] at hends
    obtain ⟨hinitial, hcounted', hsound', hpage, hcount⟩ := hends
    have hkept : Pool.Kept u.pool [] (shape.memory d) :=
      hinitial.kept (fun _ => GrowingStore.page_eq_zero hcounted) hsound' hpage
    have hstart : ReadablePool.Kept u [] (Ledger.ofMemory (shape.memory d) 0) := by
      refine ⟨hkept.ofMemory 0, hcounted', fun {id p} hp => ?_⟩
      have hmemory := Ledger.memory_of_written hp
      rw [Ledger.memory_ofMemory] at hmemory
      exact Or.inr (hcount ▸ PoolShape.lt_count hmemory)
    have hcreated := create_ends (V := V) t.name t.policy capacity? hstart
    rw [Op.Ends, ht] at hcreated
    obtain ⟨w, ⟨hkept', hrecorded⟩, hcreated, _⟩ := hcreated
    exact ⟨w, _, hkept', hrecorded, hcreated.depicts⟩
  | @asked u name query _ hlegal hreturns ih =>
    obtain ⟨w, o, hkept, hrecorded, hdepicts⟩ := ih
    have hu : ReadablePool.Kept u [] w := ⟨hkept, hrecorded⟩
    obtain ⟨w', o', ⟨hkept', hrecorded'⟩, hdepicts'⟩ :=
      query.run_returns hdepicts hu name hlegal hreturns
    exact ⟨w', o', hkept', hrecorded', hdepicts'⟩

end Founded

section Later

-- Not a call that writes over a page of the index.
def Spares (t : HashIndex K V) (M : Memory) : PoolCall n → Prop
  | .write g _ => ¬ t.IsPage M g.page
  | _ => True

-- Runs of a pool from some state on, with calls of any users. `intact` says that no one of them has
-- written over a page that belonged to the index at the time. As long as it is, and no guards are
-- live on its pages, the index is used too, which is to make such calls by its own rules.
inductive Later (t : HashIndex K V) (start : Mounted (Pool n) D) :
    Mounted (Pool n) D → List (Guard n) → Prop → Prop
  | start : Later t start start [] True
  | called {m : Mounted (Pool n) D} {guards : List (Guard n)} {intact : Prop} (call : PoolCall n) :
      Later t start m guards intact → call.Legal guards → call.Admitted guards →
      (call.run m).result.Returns →
      Later t start (call.run m).state (call.guardsAfter guards (call.run m).result)
        (intact ∧ t.Spares (Pool.contents m) call)
  | asked {m : Mounted (Pool n) D} {guards : List (Guard n)} {intact : Prop} (name : String)
      (query : IndexQuery K V) :
      Later t start m guards intact → intact →
      (∀ g ∈ guards, ¬ t.IsPage (Pool.contents m) g.page) →
      query.Legal t → (query.run { t with name } m).result.Returns →
      Later t start (query.run { t with name } m).state guards intact

variable {t : HashIndex K V} {start m : Mounted (Pool n) D} {guards : List (Guard n)}
  {intact : Prop} {M : Memory} {d : Directory} {pairs : List (K × V)}

-- A call of another user leaves the pages of the index as they are.
theorem Represents.called (h : t.Represents (Ledger.ofMemory M 0).sheets d pairs)
    (hkept : Pool.Kept m guards M) (call : PoolCall n) (hspares : t.Spares M call) :
    t.Represents (Ledger.ofMemory (call.memoryAfter M (call.run m).result) 0).sheets d pairs := by
  refine (h.stays (Pool.call_confined hkept call (P := fun id => ¬ t.IsPage M id)
    fun g page hcall => ?_) fun _ hid => not_not_intro hid).1
  subst hcall
  exact hspares

variable [RoundTrip K] [RoundTrip V]

-- A query of the index takes no page away, and leaves an index.
theorem Represents.asked (h : t.Represents (Ledger.ofMemory M 0).sheets d pairs)
    (hkept : Pool.Kept m guards M) (hguards : ∀ g ∈ guards, ¬ t.IsPage M g.page) (name : String)
    (query : IndexQuery K V) (hlegal : query.Legal t)
    (hreturns : (query.run { t with name } m).result.Returns) :
    ∃ M' d' pairs', Pool.Kept (query.run { t with name } m).state guards M' ∧
      (∀ id, M id ≠ none → M' id ≠ none) ∧
      t.Represents (Ledger.ofMemory M' 0).sheets d' pairs' := by
  let := LawfulPool.retaining (Mounted (Pool n) D) fun id => M id ≠ none
  have hretains : ReadablePool.Kept m guards (Ledger.ofMemory M 0) := by
    refine ⟨hkept.ofMemory 0, fun id hid => Ledger.sheets_ne_none_iff.mpr ?_⟩
    rwa [Ledger.memory_ofMemory]
  have hclear : t.Clear (Mounted (Pool n) D) d guards :=
    h.clear fun g hg => (Ledger.memory_ofMemory M 0).symm ▸ hguards g hg
  obtain ⟨w, _, ⟨hkept', hknown⟩, d', pairs', _, hrepresents, _⟩ :=
    query.run_returns (h.depicts hclear) hretains name hlegal hreturns
  exact ⟨w.memory, d', pairs', hkept', fun id hid => Ledger.sheets_ne_none_iff.mp (hknown id hid),
    hrepresents.ofMemory fun _ _ => Ledger.memory_of_written⟩

-- The pages that are known at first stay known, and an index that is intact stays one.
theorem Later.kept (h : Later t start m guards intact) (hstart : Pool.Kept start [] M)
    (hrepresents : t.Represents (Ledger.ofMemory M 0).sheets d pairs) :
    ∃ M', Pool.Kept m guards M' ∧ (∀ id, M id ≠ none → M' id ≠ none) ∧
      (intact → ∃ d pairs, t.Represents (Ledger.ofMemory M' 0).sheets d pairs) := by
  induction h with
  | start => exact ⟨M, hstart, fun _ h => h, fun _ => ⟨d, pairs, hrepresents⟩⟩
  | @called m guards intact call _ hlegal hadmitted hreturns ih =>
    obtain ⟨M', hkept, hknown, hindex⟩ := ih
    refine ⟨_, Pool.call_kept hkept call hlegal hadmitted hreturns,
      fun id hid => call.memoryAfter_ne_none (hknown id hid) _, fun hintact => ?_⟩
    obtain ⟨d, pairs, hrepresents⟩ := hindex hintact.1
    exact ⟨d, pairs, hrepresents.called hkept call (hkept.contents_eq ▸ hintact.2)⟩
  | @asked m guards intact name query _ hintact hguards hlegal hreturns ih =>
    obtain ⟨M', hkept, hknown, hindex⟩ := ih
    obtain ⟨d, pairs, hrepresents⟩ := hindex hintact
    rw [hkept.contents_eq] at hguards
    obtain ⟨M'', d', pairs', hkept', hknown', hrepresents'⟩ :=
      hrepresents.asked hkept hguards name query hlegal hreturns
    exact ⟨M'', hkept', fun id hid => hknown' id (hknown id hid),
      fun _ => ⟨d', pairs', hrepresents'⟩⟩

end Later

section Restart

variable [GrowingStore D] {t : HashIndex K V} {u : UnreliablePool n D} {n' : Nat} {D' : Type}
  [PageStore D'] [LawfulStore D'] [ReliableStore D']

-- A pool that refuses nothing opens the index and answers from the outline.
theorem opens_rested {m : Mounted (Pool n') D'} {w : Ledger} {o : Outline K V}
    (hm : Pool.Kept m [] w.memory ∧ Pool.Rested m w.memory)
    (h : t.Depicts (Mounted (Pool n') D') [] o w) (name : String) {capacity? : Option Nat}
    (hcapacity : chooseCapacity K V capacity? = .ok t.capacity) :
    let opened := (openAt name t.policy t.directory capacity? : Op _ (HashIndex K V)) m
    opened.result = .ok { t with name } ∧ ∀ queries : List (IndexQuery K V),
      (∀ query ∈ queries, query.Reads ∧ query.Legal t) →
      (IndexQuery.runAll { t with name } queries opened.state).result =
        .ok (queries.map fun query => .ok (query.answer t.policy o)) := by
  let := Pool.resting n' D'
  have hrefuses : ¬ ReadablePool.Refuses (Mounted (Pool n') D') [] := not_not_intro rfl
  have hspent (m : Mounted (Pool n') D') : ¬ ReadablePool.Spent m := fun hspent => hspent
  intro opened
  obtain ⟨t', w', hresult, hopened, rfl, rfl⟩ :=
    ((openAt_does h.holds name hcapacity).mono (fun _ _ ht => ht)
      fun _ _ he => absurd he.2.2 hrefuses).answers hspent hm
  refine ⟨hresult, fun queries hqueries => ?_⟩
  have hlegal (query : IndexQuery K V) (hquery : query ∈ queries) :
      query.Reads ∧ query.Legal ({ t with name } : HashIndex K V) := by
    obtain ⟨hreads, hlegal⟩ := hqueries query hquery
    exact ⟨hreads, by cases query <;> exact hlegal⟩
  obtain ⟨answers, _, hresult, _, rfl, _⟩ :=
    (IndexQuery.runAll_reads hrefuses (h.rename name) queries hlegal).answers hspent hopened
  exact hresult

variable [RoundTrip K] [RoundTrip V]

end Restart

-- A run on the narrow pool is flushed in any order.
theorem founded_narrowIndex (calls : List (IndexCall UInt32 UInt32))
    (hids : 1 + (calls.map IndexCall.ids).sum + 2 < 128)
    (hlegal : ∀ call ∈ calls, call.Legal narrowIndex) :
    Founded narrowIndex (narrowIndex.after calls (narrowStart 128)) ∧ ∀ walk,
      (Pool.flushAll walk (narrowIndex.after calls (narrowStart 128)).pool).result = .ok () := by
  have hpos : 0 < 128 := by decide
  have hn : 128 < 4294967296 := by decide
  let := narrowUnplanned hpos hn
  obtain ⟨hcreate, hstate⟩ := Pool.narrow_create hpos hn
  obtain ⟨⟨⟨_, ⟨_, _, hscarce⟩, _⟩, _⟩, hfounded⟩ :=
    Provides.after (P := fun u _ => Founded narrowIndex u) Pool.Spent.not_supplies refusals_narrow
      (kept_narrowStart hpos hn) Nat.one_pos calls (narrow_supplies hids hn) rfl hlegal
      (fun call hcall u o _ hfounded _ hresult => by
        have hasked := hfounded.asked narrowIndex.name (.call call) (hlegal call hcall) (by
          rw [IndexQuery.run, Op.result_map, hresult]
          cases (call.apply narrowIndex.policy narrowIndex.capacity o).1 <;> nofun)
        rwa [IndexQuery.run, Op.state_map] at hasked)
      (.created (u := narrowStart 128) (.single 128 0 1) _ trivial
        (fun id _ => Pool.page_narrowStore 128 id) hcreate hstate rfl)
  obtain ⟨next, hsteady⟩ := hscarce.steady
  exact ⟨hfounded, fun walk => hsteady.flushAll_answers (fun _ hgives => hgives) walk⟩

section Full

variable {t : HashIndex K V}

omit [DecidableEq V] [LawfulStore D] in
-- No index is opened in a full shard that does not hold its directory.
theorem openAt_of_full {s : Shard n} (hfull : s.Full) (howns : s.owns t.directory)
    (habsent : s.table[t.directory]? = none) (d : D) (name : String) {capacity? : Option Nat}
    (hcapacity : chooseCapacity K V capacity? = .ok t.capacity) :
    ((openAt name t.policy t.directory capacity? : Op _ (HashIndex K V))
      (⟨.single s, d⟩ : Mounted (Pool n) D)).result = .error (.error .poolFull) := by
  have hrefused : (Pool.fetch t.directory .shared).Ends (⟨.single s, d⟩ : Mounted (Pool n) D)
      fun r _ => r = .error (.error .poolFull) := by
    rw [Pool.fetch, Pool.ends_byShape]
    exact (Shard.fetch_of_full (m := ⟨s, d⟩) hfull howns habsent .shared).mono fun _ _ hr => hr.1
  have hends : (openAt name t.policy t.directory capacity? : Op _ (HashIndex K V)).Ends
      (⟨.single s, d⟩ : Mounted (Pool n) D) fun r _ => r = .error (.error .poolFull) := by
    rw [openAt, Op.ends_bind, Op.ends_liftM, hcapacity, Op.then_ok, Op.ends_bind, verify, Op.ends_bind,
      readDirectory, PagePool.withPage, Op.ends_bind]
    refine hrefused.mono fun r _ hr => ?_
    rw [hr]
    rfl
  exact hends

variable {u : UnreliablePool n MemoryStore}

-- The next pool has no frame to give if it has no number for any.
theorem Founded.open_full [RoundTrip K] [RoundTrip V] (h : Founded t u) (walk : Walk)
    (hflushed : (Pool.flushAll walk u.pool).result = .ok ()) {n' : Nat}
    (hn : n' % Shard.frameNumberLimit = 0) (hframes : n' ≤ Shard.maxFrames)
    (hqueue : n' ≤ EvictionQueue.maxCapacity) {capacity? : Option Nat}
    (hcapacity : chooseCapacity K V capacity? = .ok t.capacity) (name : String) :
    let d := (Pool.flushAll walk u.pool).state.store
    ∃ m : Mounted (Pool n') MemoryStore,
      ((PoolShape.single n' 0 1).create n' d).result = .ok m.pool ∧
      ((PoolShape.single n' 0 1).create n' d).state = m.store ∧
      ((openAt name t.policy t.directory capacity? : Op _ (HashIndex K V)) m).result =
        .error (.error .poolFull) := by
  intro d
  obtain ⟨w, _, hkept, hrecorded, d₀, pairs, rfl, hrepresents, _⟩ := h.recorded
  obtain ⟨_, hstored⟩ := hkept.flushAll_stored hrecorded walk hflushed
  obtain ⟨p, hp, _⟩ := hrepresents.directory
  have hcounted := (hstored t.directory _ hp).2
  obtain ⟨hcreate, hstate⟩ := PoolShape.create_single_ends (D := MemoryStore) (d := d) hframes hqueue
    ⟨rfl, rfl⟩
  have howns : (Shard.initial n' n' 0 1 (Shard.firstId 0 1 (LawfulStore.count d).toNat)).owns
      t.directory := by
    refine (Shard.owns_iff _ _).mpr ⟨PageId.ne_invalid_of_lt hcounted, Nat.mod_one _,
      Nat.lt_of_not_le fun hle => ?_⟩
    exact absurd ((Shard.firstId_le_iff _ Nat.one_pos (Nat.mod_one _)).mp hle)
      (Nat.not_le_of_lt (UInt32.lt_iff_toNat_lt.mp hcounted))
  exact ⟨⟨_, d⟩, hcreate, hstate, openAt_of_full (Shard.initial_full hn _ _ _ _) howns
    Std.HashMap.getElem?_empty d name hcapacity⟩

end Full

end HashIndex

end PagedIndex
