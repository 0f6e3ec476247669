import PagedIndex.Proofs.Pool.Failures
import PagedIndex.Proofs.Pool.Locality
import PagedIndex.Proofs.Store.Growing

namespace PagedIndex

namespace PoolCall

-- The pages that were allocated and not written through a guard since.
def blankAfter {n : Nat} (blank : List PageId) :
    PoolCall n → Checked (Option (Guard n)) → List PageId
  | allocate, .ok (some g) => g.page :: blank
  | write g _, _ => blank.filter (· ≠ g.page)
  | _, _ => blank

theorem memoryAfter_of_blank {n : Nat} {M : Memory} {blank : List PageId}
    (h : ∀ id ∈ blank, M id = some Page.zero) (call : PoolCall n) (r : Checked (Option (Guard n))) :
    ∀ id ∈ call.blankAfter blank r, call.memoryAfter M r id = some Page.zero := by
  intro id hid
  cases call with
  | allocate =>
    rcases r with _ | _ | g
    · exact h id hid
    · exact h id hid
    · by_cases hg : id = g.page
      · exact hg ▸ M.put_self _ _
      · exact (M.put_of_ne _ hg).trans (h id ((List.mem_cons.mp hid).resolve_left hg))
  | write g page =>
    obtain ⟨hblank, hne⟩ := List.mem_filter.mp hid
    exact (M.put_of_ne _ (of_decide_eq_true hne)).trans (h id hblank)
  | _ => exact h id hid

end PoolCall

namespace FileStore

-- The file does not end within a page.
def Whole (s : FileStore) : Prop := pageSize ∣ s.file.length

instance (s : FileStore) : Decidable s.Whole :=
  inferInstanceAs (Decidable (pageSize ∣ s.file.length))

theorem Whole.write {s : FileStore} (h : s.Whole) (n : Nat) (p : Page) :
    Whole ⟨s.file.writeBlock n p⟩ := by
  change pageSize ∣ max s.file.length (pageSize * (n + 1))
  rcases Nat.le_total s.file.length (pageSize * (n + 1)) with hle | hle
  · rw [Nat.max_eq_right hle]
    exact Nat.dvd_mul_right _ _
  · rw [Nat.max_eq_left hle]
    exact h

-- Only zeroes lie past the pages that the count covers.
theorem Whole.counted {s : FileStore} (h : s.Whole) (hs : Sound s)
    (hcount : s.pageCount < UInt32.size) : Counted s := by
  refine ⟨hcount, fun id hid => hs _ ?_⟩
  rw [← Nat.mul_div_cancel' h]
  exact Nat.mul_le_mul_left pageSize hid

theorem storeInvariant_whole : StoreInvariant Whole where
  readPage id s hs := by
    change (read id).Ends s _
    rw [Op.Ends, read]
    split
    · exact hs
    · split <;> exact hs
  writePage id p _ hs := hs.write id.number.toNat p
  pageCount _ hs := hs

-- No page of a whole file is cut off.
theorem Whole.read_answers {s : FileStore} (h : s.Whole) (id : PageId) :
    (PageStore.readPage id).Ends s fun r _ => ∃ p, r = .ok p := by
  change (read id).Ends s _
  obtain ⟨blocks, hblocks⟩ := h
  rw [Op.Ends, read]
  split
  · exact ⟨_, rfl⟩
  · rw [if_neg]
    · exact ⟨_, rfl⟩
    · -- the file reaches past the first byte of the page, so up to the next page at least
      rw [pageSize] at *
      omega

-- The first page that the count leaves out.
def firstUncounted (s : FileStore) : PageId := ⟨UInt32.ofNat s.pageCount⟩

theorem number_firstUncounted {s : FileStore} (hcount : s.pageCount < 4294967295) :
    s.firstUncounted.number.toNat = s.pageCount :=
  UInt32.toNat_ofNat_of_lt' (by rw [UInt32.size]; omega)

-- That page is cut off, if any is.
theorem read_cutOff {s : FileStore} (h : ¬ s.Whole) (hcount : s.pageCount < 4294967295) :
    (PageStore.readPage s.firstUncounted).Ends s fun r _ =>
      r = .error (.error (.io .unexpectedEnd)) := by
  change (read s.firstUncounted).Ends s _
  rw [Whole, Nat.dvd_iff_mod_eq_zero] at h
  rw [Op.Ends, read, number_firstUncounted hcount, pageCount, if_neg, if_pos]
  all_goals
    rw [pageSize] at *
    omega

end FileStore

-- What a store keeps is kept when faults are injected.
theorem StoreInvariant.faulty {D : Type} [PageStore D] {I : D → Prop} (hI : StoreInvariant I) :
    StoreInvariant fun d : FaultyStore D => I d.store where
  readPage id _ hs := FaultyStore.ends_strike (FaultyStore.failRead id) ⟨_, rfl, rfl⟩
    (fun _ ht => hI.readPage id _ (ht ▸ hs)) fun _ ht => (congrArg I ht).mpr hs
  writePage id p _ hs := FaultyStore.ends_strike (FaultyStore.failWrite id) ⟨_, rfl, rfl⟩
    (fun _ ht => hI.writePage id p _ (ht ▸ hs)) fun _ ht => (congrArg I ht).mpr hs
  pageCount _ hs := FaultyStore.ends_strike FaultyStore.failCount ⟨_, rfl, rfl⟩
    (fun _ ht => hI.pageCount _ (ht ▸ hs)) fun _ ht => (congrArg I ht).mpr hs

namespace FaultyStore

-- The causes of failures that were injected.
def Injected (cause : IoError) : Prop := ∃ point, cause = .injected point

variable {d : FaultyStore FileStore}

theorem injected_of_readFails (h : d.store.Whole) {id : PageId} {cause : IoError}
    {d' : FaultyStore FileStore} (hfails : (PageStore.readPage id).Fails cause d d') :
    Injected cause := by
  have hends : (PageStore.readPage id).Ends d fun r _ =>
      ∀ cause, r = .error (.error (.io cause)) → Injected cause := by
    refine ends_strike (failRead id) ⟨_, rfl, rfl⟩ (fun t ht => ?_) fun t _ => ?_
    · refine (FileStore.Whole.read_answers (ht ▸ h) id).mono fun r _ hr => ?_
      obtain ⟨p, rfl⟩ := hr
      exact nofun
    · rintro _ ⟨rfl⟩
      exact ⟨_, rfl⟩
  exact hends cause hfails.1

theorem injected_of_writeFails {id : PageId} {p : Page} {cause : IoError}
    {d' : FaultyStore FileStore} (hfails : (PageStore.writePage id p).Fails cause d d') :
    Injected cause := by
  have hends : (PageStore.writePage id p).Ends d fun r _ =>
      ∀ cause, r = .error (.error (.io cause)) → Injected cause := by
    refine ends_strike (failWrite id) ⟨_, rfl, rfl⟩ (fun t _ => nofun) fun t _ => ?_
    rintro _ ⟨rfl⟩
    exact ⟨_, rfl⟩
  exact hends cause hfails.1

end FaultyStore

namespace Shard

variable {n : Nat} {D : Type} [PageStore D]

section

variable [LawfulStore D]

-- What the store keeps, it keeps while a frame is obtained.
theorem Obtained.store {I : D → Prop} (hI : StoreInvariant I) {m m' : Mounted (Shard n) D}
    {f : Fin n} (h : Obtained m f m') (hd : I m.store) : I m'.store := by
  cases h with
  | free _ => exact hd
  | evicted _ _ hwritten =>
    cases hwritten with
    | clean _ => exact hd
    | written _ _ hstate _ => exact hstate ▸ hI.writePage _ _ _ hd

end

-- A page over a whole file is not refused for a fault of the file's own.
theorem FetchFails.cause {m m' : Mounted (Shard n) (FaultyStore FileStore)} {id : PageId}
    {e : StoreError} (h : FetchFails id m e m') (howns : m.pool.owns id)
    (hwhole : m.store.store.Whole) :
    e = .poolFull ∧ m.pool.Full ∨ ∃ cause, e = .io cause ∧ FaultyStore.Injected cause := by
  cases h with
  | unknown hunknown => simp [howns] at hunknown
  | unobtained hunobtained =>
    cases hunobtained with
    | full hfull => exact .inl ⟨rfl, hfull⟩
    | requeued hrequeued =>
      exact .inr ⟨_, rfl, FaultyStore.injected_of_writeFails hrequeued.fails⟩
  | unread hunread =>
    have hbetween := hunread.obtained.store FileStore.storeInvariant_whole.faulty hwhole
    exact .inr ⟨_, rfl, FaultyStore.injected_of_readFails hbetween hunread.fails⟩

-- A resident page that was not written to.
structure Untouched (s : Shard n) (id : PageId) (f : Fin n) (pins : Nat) : Prop where
  owned : s.owns id
  resident : s.table[id]? = some f
  pins : (s.frame f).pins = pins
  clean : (s.frame f).dirty = false
  unwritten : (s.frame f).latch ≠ .written

variable {s : Shard n} {d : D} {id : PageId} {f : Fin n}

theorem allocate_untouched {rest : List (Fin n)} (hfree : s.free = f :: rest)
    (hlimit : s.nextId + s.count < pageIdLimit) (hcount : 0 < s.count)
    (hindex : s.nextId % s.count = s.index) :
    (PoolCall.allocate.run : Op (Mounted (Shard n) D) _).Ends ⟨s, d⟩ fun r m =>
      r = .ok (some ⟨⟨UInt32.ofNat s.nextId⟩, f, .exclusive⟩) ∧ m.store = d ∧
        m.pool.Untouched ⟨UInt32.ofNat s.nextId⟩ f 1 := by
  rw [pageIdLimit] at hlimit
  have htoNat : (UInt32.ofNat s.nextId).toNat = s.nextId :=
    UInt32.toNat_ofNat_of_lt' (by rw [UInt32.size]; omega)
  simp only [PoolCall.run, PagePool.allocate, allocate, acquire, Op.ends_map, Op.ends_bind,
    Op.ends_attempt, Mounted.ends_observe, Op.then_ok, hfree, Mounted.ends_update, Op.ends_pure,
    Op.attempted_ok, Op.ends_require, pageIdLimit, hlimit, install, guard, if_true, true_and]
  constructor
  case owned =>
    refine (owns_iff _ _).mpr ⟨fun hinvalid => ?_, ?_, ?_⟩
    · have hnumber := congrArg (fun id => id.number.toNat) hinvalid
      simp only [htoNat, PageId.invalid, UInt32.reduceToNat] at hnumber
      omega
    · simpa [htoNat] using hindex
    · simpa [htoNat] using hcount
  all_goals simp [Frame.loaded]

theorem release_untouched {g : Guard n} (h : s.Untouched g.page g.frame 1) :
    ((PoolCall.release g).run : Op (Mounted (Shard n) D) _).Ends ⟨s, d⟩ fun r m =>
      r = .ok none ∧ m.store = d ∧ m.pool.Untouched g.page g.frame 0 := by
  obtain ⟨page, f, access⟩ := g
  obtain ⟨howned, hresident, hpins, hclean, hunwritten⟩ := h
  dsimp only at *
  have hmodified : ((s.frame f).latch == .written) = false := by simpa using hunwritten
  cases access
  all_goals
    simp only [PoolCall.run, PagePool.release, release, unpin, Op.ends_bind, Mounted.ends_observe,
      Op.then_ok, hresident, hpins, Mounted.ends_update, hmodified, modifyFrame_eq_setFrame,
      table_setFrame, frame_setFrame, if_true, ends_enqueue, Op.ends_pure, true_and]
    constructor
    case owned => exact howned
    case resident => exact hresident
    all_goals simp [hclean, hunwritten]

theorem delete_untouched (h : s.Untouched id f 0) :
    ((PoolCall.delete id).run : Op (Mounted (Shard n) D) _).Ends ⟨s, d⟩ fun r m =>
      r = .ok none ∧ m.store = d ∧
        m.pool.owns id ∧ m.pool.table[id]? = none ∧ m.pool.free ≠ [] := by
  simp only [PoolCall.run, PagePool.delete, delete, Op.ends_bind, Op.ends_discard,
    Mounted.ends_observe, Op.then_ok, h.resident, h.pins, ends_writeBack, h.clean,
    Bool.false_eq_true, if_false, Mounted.ends_update, Op.ends_pure, true_and]
  exact ⟨h.owned, by simp, by simp⟩

-- A page that is not resident is fetched only if the store can read it.
theorem fetch_unreadable (howns : s.owns id) (htable : s.table[id]? = none) (hfree : s.free ≠ [])
    {e : StoreError} (hread : (PageStore.readPage id).Ends d fun r _ => r = .error (.error e))
    (access : Access) : (fetch id access).Ends ⟨s, d⟩ fun r _ => r = .error (.error e) := by
  obtain ⟨f, rest, hlist⟩ := List.exists_cons_of_ne_nil hfree
  simp only [fetch, pin, acquire, Op.ends_bind, Mounted.ends_observe, Op.then_ok, htable, howns,
    Bool.not_true, Bool.false_eq_true, if_false, hlist, Mounted.ends_update, Op.ends_pure,
    Op.ends_attempt, Mounted.ends_onStore]
  refine hread.mono fun r _ hr => ?_
  obtain rfl := hr
  rfl

end Shard

namespace Pool

variable {n : Nat}

-- The states that a pool over a file gets into, with the live guards and the blank pages. At the
-- start and in between, any calls of the file may be made to fail or to succeed again.
inductive Opened (n : Nat) (s : FileStore) :
    Mounted (Pool n) (FaultyStore FileStore) → List (Guard n) → List PageId → Prop
  | created (shape : PoolShape) {d : FaultyStore FileStore} {pool : Pool n} : d.store = s →
      (shape.create n d).result = .ok pool → Opened n s ⟨pool, (shape.create n d).state⟩ [] []
  | step {m : Mounted (Pool n) (FaultyStore FileStore)} {guards : List (Guard n)}
      {blank : List PageId} (call : PoolCall n) : Opened n s m guards blank → call.Legal guards →
      call.Admitted guards → (call.run m).result.Returns →
      Opened n s (call.run m).state (call.guardsAfter guards (call.run m).result)
        (call.blankAfter blank (call.run m).result)
  | faults {m : Mounted (Pool n) (FaultyStore FileStore)} {guards : List (Guard n)}
      {blank : List PageId} {d : FaultyStore FileStore} : Opened n s m guards blank →
      d.store = m.store.store → Opened n s ⟨m.pool, d⟩ guards blank

section

variable {D : Type} [PageStore D] [LawfulStore D] {m : Mounted (Pool n) D}
  {guards : List (Guard n)} {M : Memory}

-- The store may be exchanged for one that has the same pages.
theorem Kept.onStore (h : Kept m guards M) {d : D} (hd : LawfulStore.Sound d)
    (hpage : LawfulStore.page d = LawfulStore.page m.store) : Kept ⟨m.pool, d⟩ guards M := by
  have hshards := h.shards
  refine ⟨?_, h.served⟩
  obtain ⟨pool, store⟩ := m
  cases pool with
  | single s =>
    exact hshards.imp fun c hc => hc.congr hd (fun id _ => congrFun hpage id) fun _ _ => rfl
  | sharded k p =>
    exact ⟨hd, fun i => (ShardedPool.Kept.shard hshards i).congr hd
      (fun id _ => congrFun hpage id) fun _ _ => rfl⟩

omit [PageStore D] [LawfulStore D] in
theorem owner_mem_shards (p : Pool n) (id : PageId) : p.owner id ∈ p.shards := by
  cases p with
  | single s => exact List.mem_singleton_self s
  | sharded k p => exact Vector.mem_toList_iff.mpr (Vector.getElem_mem _)

-- What refuses a page is the shard that is responsible for it.
theorem Kept.fetch_fails [DeviceStore D] (h : Kept m guards M)
    (hfits : ∀ s ∈ m.pool.shards, s.queue.Fits) (id : PageId) (access : Access) :
    (Pool.fetch id access).Ends m fun r _ => ∀ e, r = .error (.error e) →
      ∃ t, Shard.FetchFails id ⟨m.pool.owner id, m.store⟩ e t := by
  obtain ⟨c, others, hkept, _⟩ := h.owner id
  have hshard := Shard.fetch_fails hkept.sound (hfits _ (owner_mem_shards m.pool id))
    hkept.backed.store id access
  have hlocal : Local fun _ _ : Mounted (Shard n) D => True :=
    ⟨fun _ => trivial, fun _ _ => trivial, fun _ _ => trivial⟩
  refine (ends_onOwner hlocal (P := fun r => ∀ e, r = .error (.error e) →
    ∃ t, Shard.FetchFails id ⟨m.pool.owner id, m.store⟩ e t) id ?_).mono fun _ _ hm => hm.1
  exact hshard.mono fun r t ht => ⟨fun e he => ⟨t, (ht e he).2⟩, trivial⟩

omit [LawfulStore D] in
-- A pool of one shard does what the shard does.
theorem ends_call_single (call : PoolCall n) {m : Mounted (Shard n) D}
    {Q : Checked (Option (Guard n)) → Mounted (Pool n) D → Prop}
    (h : (call.run : Op (Mounted (Shard n) D) _).Ends m fun r t =>
      Q r ⟨.single t.pool, t.store⟩) :
    (call.run : Op (Mounted (Pool n) D) _).Ends ⟨.single m.pool, m.store⟩ Q := by
  cases call with
  | write g page => exact h
  | _ =>
    simp only [PoolCall.run, Op.ends_map, Op.ends_bind, Op.ends_discard] at h ⊢
    refine (ends_byShape _ _ _ _).mpr (Op.Ends.mono h fun r t ht => ?_)
    cases r <;> exact ht

end

section

variable {s : FileStore} {m : Mounted (Pool n) (FaultyStore FileStore)} {guards : List (Guard n)}
  {blank : List PageId}

-- A call on a pool of one shard, told of the shard.
theorem Opened.single {m : Mounted (Shard n) (FaultyStore FileStore)}
    (h : Opened n s ⟨.single m.pool, m.store⟩ guards blank) (call : PoolCall n)
    (hlegal : call.Legal guards) (hadmitted : call.Admitted guards) {answer : Option (Guard n)}
    {P : Mounted (Shard n) (FaultyStore FileStore) → Prop}
    (hcall : (call.run : Op (Mounted (Shard n) (FaultyStore FileStore)) _).Ends m fun r t =>
      r = .ok answer ∧ P t) :
    ∃ t, P t ∧ Opened n s ⟨.single t.pool, t.store⟩ (call.guardsAfter guards (.ok answer))
      (call.blankAfter blank (.ok answer)) := by
  have hends : (call.run : Op (Mounted (Pool n) (FaultyStore FileStore)) _).Ends
      ⟨.single m.pool, m.store⟩ fun r u =>
        r = .ok answer ∧ ∃ t, u = ⟨.single t.pool, t.store⟩ ∧ P t :=
    ends_call_single call (hcall.mono fun r t ht => ⟨ht.1, t, rfl, ht.2⟩)
  obtain ⟨hr, t, hm, ht⟩ := hends
  have hstep := h.step call hlegal hadmitted (hr ▸ nofun)
  rw [hr, hm] at hstep
  exact ⟨t, ht, hstep⟩

theorem Opened.inOrder (hs : FileStore.Sound s) (hwhole : s.Whole) (h : Opened n s m guards blank) :
    InOrder (fun d => d.store.Whole) m := by
  have hI := FileStore.storeInvariant_whole.faulty
  induction h with
  | @created shape d pool hd hcreate =>
    subst hd
    exact create_inOrder hI shape hs hwhole pool hcreate
  | @step m guards blank call _ _ _ _ ih => exact keeps_call hI call m ih
  | faults _ hd ih => exact ⟨ih.fits, hd ▸ ih.store⟩

-- The pool keeps a memory in which the blank pages are zero.
theorem Opened.kept (hs : FileStore.Counted s) (hsound : FileStore.Sound s)
    (h : Opened n s m guards blank) :
    ∃ M, Kept m guards M ∧ ∀ id ∈ blank, M id = some Page.zero := by
  induction h with
  | @created shape d pool hd hcreate =>
    subst hd
    have hends := shape.create_ends (n := n) (Q := fun _ => True)
      (fun _ _ => Op.ends_of_forall fun _ _ => trivial) (d := d) hsound trivial
    rw [Op.Ends, hcreate] at hends
    obtain ⟨hinitial, _, hsound', hpage, _⟩ := hends
    exact ⟨_, hinitial.kept (fun _ hid => GrowingStore.page_eq_zero hs hid) hsound' hpage, nofun⟩
  | step call _ hlegal hadmitted hreturns ih =>
    obtain ⟨M, hkept, hblank⟩ := ih
    exact ⟨_, call_kept hkept call hlegal hadmitted hreturns,
      call.memoryAfter_of_blank hblank _⟩
  | @faults m guards blank d _ hd ih =>
    obtain ⟨M, hkept, hblank⟩ := ih
    obtain ⟨_, _, hshard, _⟩ := hkept.owner PageId.invalid
    have hstore : FileStore.Sound m.store.store := hshard.backed.store
    have hpage : FileStore.page d.store = FileStore.page m.store.store := congrArg _ hd
    exact ⟨M, hkept.onStore (d := d) (show FileStore.Sound d.store from hd ▸ hstore) hpage, hblank⟩

end

end Pool

-- Every pool over the file serves its blank pages as zeroes, unless it has no frame left for a page,
-- a call of the file is made to fail, or the page has as many guards as can be counted.
def FileStore.ServesBlanks (s : FileStore) : Prop :=
  ∀ (n : Nat) (m : Mounted (Pool n) (FaultyStore FileStore)) (guards : List (Guard n))
    (blank : List PageId), Pool.Opened n s m guards blank →
    ∀ id ∈ blank, ∀ access, Admits guards id access →
      (Pool.fetch id access).Ends m (Op.AnswersOr (fun _ => Crowded id guards)
        (fun g m' => g.page = id ∧ m'.pool.read g = Page.zero)
        fun e _ => e = .poolFull ∧ (m.pool.owner id).Full ∨
          ∃ cause, e = .io cause ∧ FaultyStore.Injected cause)

namespace FileStore

variable {s : FileStore}

theorem Whole.servesBlanks (h : s.Whole) (hs : Sound s) (hcount : s.pageCount < UInt32.size) :
    s.ServesBlanks := by
  intro n m guards blank hopened id hid access hadmits
  obtain ⟨M, hkept, hblank⟩ := hopened.kept (h.counted hs hcount) hs
  have horder := hopened.inOrder hs h
  have howns : (m.pool.owner id).owns id := by
    have hcontents := congrFun hkept.contents_eq id
    rw [hblank id hid, Pool.contents, Shard.contents] at hcontents
    by_contra hnot
    rw [if_neg hnot] at hcontents
    cases hcontents
  refine ((hkept.fetch hadmits).and (hkept.fetch_fails horder.fits id access)).mono fun r m' hm => ?_
  cases r using Checked.outcomes with
  | ok g =>
    obtain ⟨⟨hpage, _⟩, hkept'⟩ := hm.1
    refine ⟨hpage, ?_⟩
    have hread := hkept'.read List.mem_cons_self
    rw [hpage, hblank id hid] at hread
    exact (Option.some_inj.mp hread).symm
  | error e =>
    obtain ⟨t, hfails⟩ := hm.2 e rfl
    exact hfails.cause howns horder.store
  | abort a => exact hm.1

-- The first page that the count leaves out is allocated, and leaves its frame again.
theorem exists_deleted (hcount : s.pageCount < 4294967295) :
    ∃ t : Shard 1, Pool.Opened 1 s ⟨.single t, FaultyStore.sound s⟩ [] [s.firstUncounted] ∧
      t.owns s.firstUncounted ∧ t.table[s.firstUncounted]? = none ∧ t.free ≠ [] := by
  let d := FaultyStore.sound s
  let g : Guard 1 := ⟨s.firstUncounted, 0, .exclusive⟩
  have hfirst : Shard.firstId 0 1 s.firstUncounted.number.toNat = s.pageCount := by
    rw [number_firstUncounted hcount, Shard.firstId]
    omega
  obtain ⟨hcreate, hstate⟩ : ((PoolShape.single 1 0 1).create 1).Ends d fun r d' =>
      r = .ok (.single (Shard.initial 1 1 0 1 s.pageCount)) ∧ d' = d :=
    hfirst ▸ PoolShape.create_single_ends (by decide) (by decide) ⟨rfl, rfl⟩
  have hcreated := Pool.Opened.created (s := s) (.single 1 0 1) rfl hcreate
  rw [hstate] at hcreated
  have hallocate := Shard.allocate_untouched (s := Shard.initial 1 1 0 1 s.pageCount) (d := d) rfl
    (by simp only [Shard.initial, Shard.pageIdLimit]; omega) Nat.one_pos (Nat.mod_one _)
  obtain ⟨⟨allocated, _⟩, ⟨hstore, hallocated⟩, hopened⟩ :=
    hcreated.single (m := ⟨_, _⟩) .allocate trivial trivial hallocate
  obtain rfl := hstore
  have hrelease := Shard.release_untouched (g := g) (d := d) hallocated
  obtain ⟨⟨released, _⟩, ⟨hstore, hreleased⟩, hopened⟩ :=
    hopened.single (m := ⟨allocated, d⟩) (.release g) (List.mem_singleton_self g) trivial hrelease
  obtain rfl := hstore
  have hdelete := Shard.delete_untouched (d := d) hreleased
  obtain ⟨⟨deleted, _⟩, ⟨hstore, hdeleted⟩, hopened⟩ :=
    hopened.single (m := ⟨released, d⟩) (.delete g.page) trivial trivial hdelete
  obtain rfl := hstore
  have hguards : [g].erase g = [] := List.erase_cons_head g []
  exact ⟨deleted, hguards ▸ hopened, hdeleted⟩

theorem whole_of_servesBlanks (hcount : s.pageCount < 4294967295) (h : s.ServesBlanks) :
    s.Whole := by
  by_contra hcut
  let id := s.firstUncounted
  obtain ⟨t, hopened, howns, htable, hfree⟩ := exists_deleted hcount
  have hread : (PageStore.readPage id).Ends (FaultyStore.sound s) fun r _ =>
      r = .error (.error (.io .unexpectedEnd)) :=
    FaultyStore.ends_pass (FaultyStore.failRead id) ⟨rfl, rfl⟩ (read_cutOff hcut hcount)
  have hfails : (Pool.fetch id .shared).Ends ⟨.single t, FaultyStore.sound s⟩ fun r _ =>
      r = .error (.error (.io .unexpectedEnd)) :=
    (Pool.ends_byShape _ _ _ _).mpr (Shard.fetch_unreadable howns htable hfree hread .shared)
  have hserved := h 1 _ _ _ hopened id (List.mem_singleton_self id) .shared nofun
  unfold Op.Ends at hfails hserved
  rw [hfails] at hserved
  rcases hserved with ⟨hfull, _⟩ | ⟨_, ⟨rfl⟩, _, hpoint⟩
  · cases hfull
  · cases hpoint

-- The page count leaves out a page that the end of the file cuts off, while that page cannot be
-- read. A pool gives its number out, as it is the first that the count leaves free.
theorem servesBlanks_iff (hs : Sound s) (hcount : s.pageCount < 4294967295) :
    s.ServesBlanks ↔ pageSize ∣ s.file.length :=
  ⟨whole_of_servesBlanks hcount, fun h => Whole.servesBlanks h hs (hcount.trans (by decide))⟩

-- A file of a hundred bytes holds no page by its count, but page 0 lies in it.
theorem not_servesBlanks_hundred : ¬ ServesBlanks ⟨⟨100, ∅⟩⟩ := fun h =>
  absurd (whole_of_servesBlanks (s := ⟨⟨100, ∅⟩⟩) (by decide) h) (by decide)

-- One page of zeroes.
theorem servesBlanks_iff_page : Sound ⟨⟨4096, ∅⟩⟩ ∧ pageCount ⟨⟨4096, ∅⟩⟩ < 4294967295 ∧
    ServesBlanks ⟨⟨4096, ∅⟩⟩ := by
  have hsound : Sound ⟨⟨4096, ∅⟩⟩ := fun n _ => Std.HashMap.getD_empty
  have hcount : pageCount ⟨⟨4096, ∅⟩⟩ < 4294967295 := by decide
  exact ⟨hsound, hcount, (servesBlanks_iff hsound hcount).mpr ⟨1, rfl⟩⟩

end FileStore

end PagedIndex
