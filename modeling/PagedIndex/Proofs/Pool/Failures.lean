import PagedIndex.Proofs.Pool.Invariants

namespace PagedIndex

-- Stores whose calls fail for reasons of their device only.
class DeviceStore (D : Type) [PageStore D] [LawfulStore D] : Prop where
  gives_io {e : StoreError} : LawfulStore.Gives D e → ∃ cause, e = .io cause

instance : DeviceStore MemoryStore := ⟨False.elim⟩

instance : DeviceStore FileStore := ⟨fun h => ⟨_, h⟩⟩

instance : DeviceStore NullStore := ⟨fun h => ⟨_, h⟩⟩

instance : DeviceStore Backing := ⟨fun h => h.elim (fun h => ⟨_, h⟩) fun h => ⟨_, h⟩⟩

instance {D : Type} [PageStore D] [LawfulStore D] [DeviceStore D] : DeviceStore (FaultyStore D) :=
  ⟨fun h => h.elim DeviceStore.gives_io fun ⟨_, h⟩ => ⟨_, h⟩⟩

-- The operation fails for this cause, from one state in another.
def Op.Fails {σ α : Type} (x : Op σ α) (cause : IoError) (s t : σ) : Prop :=
  (x s).result = .error (.error (.io cause)) ∧ (x s).state = t

namespace Shard

variable {n : Nat} {D : Type} [PageStore D] [LawfulStore D]

-- No frame is free, and that of the page waited longest in the queue, before the rest.
structure Waits (m : Mounted (Shard n) D) (f : Fin n) (victim : PageId) (rest : List (Fin n)) :
    Prop where
  free : m.pool.free = []
  queue : m.pool.queue.toList = f :: rest
  resident : m.pool.table[victim]? = some f
  page : (m.pool.frame f).page = some victim
  pins : (m.pool.frame f).pins = 0

-- The store after the page of a frame was written back, if it had to be.
inductive WrittenBack (victim : PageId) (x : Frame) (d : D) : D → Prop
  | clean : x.dirty = false → WrittenBack victim x d d
  | written {d' : D} : x.dirty = true → (PageStore.writePage victim x.bytes d).result = .ok () →
      (PageStore.writePage victim x.bytes d).state = d' →
      LawfulStore.page d' = Function.update (LawfulStore.page d) victim x.bytes →
      WrittenBack victim x d d'

-- A frame that is free, or that a page had to leave.
inductive Obtained (m : Mounted (Shard n) D) (f : Fin n) : Mounted (Shard n) D → Prop
  | free {rest : List (Fin n)} : m.pool.free = f :: rest →
      Obtained m f ⟨m.pool.setFree rest, m.store⟩
  | evicted {victim : PageId} {rest : List (Fin n)} {queue : EvictionQueue (Fin n)} {d : D} :
      Waits m f victim rest → queue.toList = rest →
      WrittenBack victim (m.pool.frame f) m.store d →
      Obtained m f ⟨((m.pool.setQueue queue).setFrame f
        { m.pool.frame f with page := none, dirty := false }).forget victim, d⟩

-- The page that had to leave could not be written back. Nothing changes but its place in the queue.
structure Requeued (m : Mounted (Shard n) D) (cause : IoError) (m' : Mounted (Shard n) D)
    (f : Fin n) (victim : PageId) (rest : List (Fin n)) : Prop where
  waits : Waits m f victim rest
  dirty : (m.pool.frame f).dirty = true
  fails : (PageStore.writePage victim (m.pool.frame f).bytes).Fails cause m.store m'.store
  requeued : m'.pool.queue.toList = rest ++ [f]
  pool : m'.pool = m.pool.setQueue m'.pool.queue
  store : LawfulStore.page m'.store = LawfulStore.page m.store

-- No frame was obtained.
inductive Unobtained (m : Mounted (Shard n) D) : StoreError → Mounted (Shard n) D → Prop
  | full : m.pool.Full → Unobtained m .poolFull m
  | requeued {cause : IoError} {m' : Mounted (Shard n) D} {f : Fin n} {victim : PageId}
      {rest : List (Fin n)} : Requeued m cause m' f victim rest → Unobtained m (.io cause) m'

-- A frame was obtained, but the page could not be read into it. The frame is the last free one.
structure Unread (id : PageId) (m : Mounted (Shard n) D) (cause : IoError) (m' : Mounted (Shard n) D)
    (f : Fin n) (between : Mounted (Shard n) D) : Prop where
  obtained : Obtained m f between
  fails : (PageStore.readPage id).Fails cause between.store m'.store
  pool : m'.pool = between.pool.setFree (between.pool.free ++ [f])
  store : LawfulStore.page m'.store = LawfulStore.page between.store

inductive FetchFails (id : PageId) (m : Mounted (Shard n) D) :
    StoreError → Mounted (Shard n) D → Prop
  | unknown : m.pool.owns id = false → FetchFails id m (.pageNotFound id) m
  | unobtained {e : StoreError} {m' : Mounted (Shard n) D} : Unobtained m e m' → FetchFails id m e m'
  | unread {cause : IoError} {m' between : Mounted (Shard n) D} {f : Fin n} :
      Unread id m cause m' f between → FetchFails id m (.io cause) m'

-- A resident page could not be written back. It stays as it is, and dirty.
inductive Unwritten (id : PageId) (m : Mounted (Shard n) D) :
    StoreError → Mounted (Shard n) D → Prop
  | intro {f : Fin n} {cause : IoError} {d : D} : m.pool.table[id]? = some f →
      (m.pool.frame f).dirty = true →
      (PageStore.writePage id (m.pool.frame f).bytes).Fails cause m.store d →
      LawfulStore.page d = LawfulStore.page m.store → Unwritten id m (.io cause) ⟨m.pool, d⟩

-- How the calls on a shard fail.
structure FailsCleanly (m : Mounted (Shard n) D) : Prop where
  fetch (id : PageId) (access : Access) : (Shard.fetch id access).Ends m fun r m' =>
    ∀ e, r = .error (.error e) → m.pool.table[id]? = none ∧ FetchFails id m e m'
  allocate : (Shard.allocate (D := D)).Ends m fun r m' =>
    ∀ e, r = .error (.error e) → Unobtained m e m'
  delete (id : PageId) : (Shard.delete id).Ends m fun r m' =>
    ∀ e, r = .error (.error e) → m.pool.pins? id = some 0 ∧ Unwritten id m e m'
  flush (id : PageId) : (Shard.flush id).Ends m fun r m' =>
    ∀ e, r = .error (.error e) → Unwritten id m e m'

variable [DeviceStore D] {c : ShardConfig} {guards : List (Guard n)} {m : Mounted (Shard n) D}

theorem writeBack_outcome {id : PageId} (hid : id ≠ PageId.invalid) (f : Fin n) (s : Shard n) {d : D}
    (hd : LawfulStore.Sound d) : (writeBack id f).Ends ⟨s, d⟩ <| Op.Answers
      (fun _ m' => m'.pool = s.setFrame f { s.frame f with dirty := false } ∧
        WrittenBack id (s.frame f) d m'.store ∧ LawfulStore.Sound m'.store)
      fun e m' => ∃ cause, e = .io cause ∧ m'.pool = s ∧ (s.frame f).dirty = true ∧
        (PageStore.writePage id (s.frame f).bytes).Fails cause d m'.store ∧
        LawfulStore.page m'.store = LawfulStore.page d := by
  rw [ends_writeBack]
  split
  · rename_i hdirty
    have hwrite := LawfulStore.writePage_ends hid (s.frame f).bytes hd
    unfold Op.Ends at hwrite ⊢
    cases hresult : (PageStore.writePage id (s.frame f).bytes d).result using Checked.outcomes with
    | ok u =>
      rw [hresult] at hwrite
      exact ⟨rfl, .written hdirty hresult rfl hwrite.2, hwrite.1⟩
    | error e =>
      rw [hresult] at hwrite
      obtain ⟨he, _, hpage⟩ := hwrite
      obtain ⟨cause, rfl⟩ := DeviceStore.gives_io he
      exact ⟨cause, rfl, rfl, hdirty, ⟨hresult, rfl⟩, hpage⟩
    | abort a =>
      rw [hresult] at hwrite
      exact hwrite
  · rename_i hclean
    have hfalse : (s.frame f).dirty = false := by simpa using hclean
    exact ⟨(setFrame_clean hfalse).symm, .clean hfalse, hd⟩

theorem acquire_outcome (hs : m.pool.Sound c guards) (hfits : m.pool.queue.Fits)
    (hd : LawfulStore.Sound m.store) : acquire.Ends m <| Op.Answers
      (fun f m' => Obtained m f m' ∧ LawfulStore.Sound m'.store) (Unobtained m) := by
  obtain ⟨s, d⟩ := m
  apply ends_acquire hs
  · intro f rest hlist
    exact ⟨.free hlist, hd⟩
  · intro hfree hqueue
    exact .full ⟨hfree, hqueue⟩
  · intro f victim queue hfree hpop hpage
    have hlist := hs.queue.toList_of_pop? hpop
    have hwaits : Waits (⟨s, d⟩ : Mounted (Shard n) D) f victim queue.toList :=
      ⟨hfree, hlist, (hs.table_iff victim f).mpr hpage, hpage,
        (hs.queued f (hlist ▸ List.mem_cons_self)).2⟩
    have hvalid := ((owns_iff s victim).mp (hs.owned f victim hpage)).1
    refine (writeBack_outcome hvalid f (s.setQueue queue) hd).mono fun r m' hm => ?_
    obtain ⟨s', d'⟩ := m'
    cases r using Checked.outcomes with
    | ok u =>
      obtain ⟨rfl, hwritten, hd'⟩ := hm
      have hevicted := Obtained.evicted hwaits rfl hwritten
      simp only [frame_setQueue, frame_setFrame, if_true, setFrame_setFrame]
      exact ⟨hevicted, hd'⟩
    | error e =>
      obtain ⟨cause, rfl, rfl, hdirty, hfails, hpage'⟩ := hm
      refine .requeued ⟨hwaits, hdirty, hfails, ?_, rfl, hpage'⟩
      -- the frame that just left the queue has made room for itself
      have hnodup := hs.queue.nodup_toList
      rw [hlist, List.nodup_cons] at hnodup
      have hroom : queue.size < queue.capacity := by
        have hsize := EvictionQueue.length_toList s.queue
        rw [hlist, List.length_cons, EvictionQueue.length_toList] at hsize
        have hle : s.queue.size ≤ s.queue.capacity := hfits
        have hcapacity : queue.capacity = s.queue.capacity := EvictionQueue.capacity_of_pop? hpop
        omega
      change (queue.push f).toList = _
      rw [(hs.queue.of_pop? hpop).toList_push, if_neg]
      exact fun hor => hor.elim hnodup.1 fun hle => Nat.not_le_of_lt hroom hle
    | abort a => exact hm

theorem pin_fails (hs : m.pool.Sound c guards) (hfits : m.pool.queue.Fits)
    (hd : LawfulStore.Sound m.store) (id : PageId) : (pin id).Ends m fun r m' =>
      ∀ e, r = .error (.error e) → m.pool.table[id]? = none ∧ FetchFails id m e m' := by
  obtain ⟨s, d⟩ := m
  cases htable : s.table[id]? with
  | some f =>
    rw [ends_pin_resident htable]
    split
    · rintro _ ⟨⟩
    · rintro _ ⟨⟩
  | none =>
    simp only [pin, Op.ends_bind, Mounted.ends_observe, Op.then_ok, htable]
    by_cases howns : s.owns id
    · simp only [howns, Bool.not_true, Bool.false_eq_true, if_false, Op.ends_bind]
      refine (acquire_outcome hs hfits hd).mono fun r between hm => ?_
      cases r using Checked.outcomes with
      | ok f =>
        obtain ⟨hobtained, hsound⟩ := hm
        have hread := LawfulStore.readPage_ends id hsound
        simp only [Op.then_ok, Op.ends_bind, Op.ends_attempt, Mounted.ends_onStore]
        unfold Op.Ends at hread ⊢
        cases hresult : (PageStore.readPage id between.store).result using Checked.outcomes with
        | ok bytes => rintro _ ⟨⟩
        | error e =>
          rw [hresult] at hread
          obtain ⟨he, _, hpage⟩ := hread
          obtain ⟨cause, rfl⟩ := DeviceStore.gives_io he
          rintro _ ⟨rfl⟩
          exact ⟨trivial, .unread ⟨hobtained, ⟨hresult, rfl⟩, rfl, hpage⟩⟩
        | abort a => rintro _ ⟨⟩
      | error e =>
        rintro _ ⟨rfl⟩
        exact ⟨trivial, .unobtained hm⟩
      | abort a => rintro _ ⟨⟩
    · simp only [howns, Bool.not_false, if_true, Op.ends_bind, Op.ends_fail, Op.then_error]
      rintro _ ⟨rfl⟩
      exact ⟨trivial, .unknown (by simpa using howns)⟩

theorem fetch_fails (hs : m.pool.Sound c guards) (hfits : m.pool.queue.Fits)
    (hd : LawfulStore.Sound m.store) (id : PageId) (access : Access) :
    (Shard.fetch id access).Ends m fun r m' =>
      ∀ e, r = .error (.error e) → m.pool.table[id]? = none ∧ FetchFails id m e m' := by
  rw [Shard.fetch, Op.ends_bind]
  refine (pin_fails hs hfits hd id).mono fun r m' hm => ?_
  cases r using Checked.outcomes with
  | ok f =>
    rw [Op.then_ok]
    refine (guard_latches id access f m').mono fun r m'' hguard e he => ?_
    cases hguard.1.symm.trans he
  | error e =>
    rintro _ ⟨rfl⟩
    exact hm e rfl
  | abort a => rintro _ ⟨⟩

theorem allocate_fails (hs : m.pool.Sound c guards) (hfits : m.pool.queue.Fits)
    (hd : LawfulStore.Sound m.store) : (Shard.allocate (D := D)).Ends m fun r m' =>
      ∀ e, r = .error (.error e) → Unobtained m e m' := by
  simp only [Shard.allocate, Op.ends_bind, Op.ends_attempt]
  refine (acquire_outcome hs hfits hd).mono fun r m' hm => ?_
  cases r using Checked.outcomes with
  | ok f =>
    simp only [Op.attempted_ok, Op.then_ok, Op.ends_bind, Mounted.ends_observe, Op.ends_require]
    split
    · rintro _ ⟨⟩
    · rintro _ ⟨⟩
  | error e =>
    rintro _ ⟨rfl⟩
    exact hm
  | abort a => rintro _ ⟨⟩

theorem flush_fails (hs : m.pool.Sound c guards) (hd : LawfulStore.Sound m.store) (id : PageId) :
    (Shard.flush id).Ends m fun r m' => ∀ e, r = .error (.error e) → Unwritten id m e m' := by
  obtain ⟨s, d⟩ := m
  rw [ends_flush]
  cases htable : s.table[id]? with
  | none => rintro _ ⟨⟩
  | some f =>
    have hvalid := ((owns_iff s id).mp (hs.owned f id ((hs.table_iff id f).mp htable))).1
    dsimp only
    split
    · rintro _ ⟨⟩
    split
    · rintro _ ⟨⟩
    · refine (writeBack_outcome hvalid f s hd).mono fun r m' hm => ?_
      cases r using Checked.outcomes with
      | ok u => rintro _ ⟨⟩
      | error e =>
        obtain ⟨s', d'⟩ := m'
        obtain ⟨cause, rfl, rfl, hdirty, hfails, hpage⟩ := hm
        rintro _ ⟨rfl⟩
        exact .intro htable hdirty hfails hpage
      | abort a => rintro _ ⟨⟩

theorem delete_fails (hs : m.pool.Sound c guards) (hd : LawfulStore.Sound m.store) (id : PageId) :
    (Shard.delete id).Ends m fun r m' =>
      ∀ e, r = .error (.error e) → m.pool.pins? id = some 0 ∧ Unwritten id m e m' := by
  obtain ⟨s, d⟩ := m
  simp only [Shard.delete, Op.ends_bind, Mounted.ends_observe, Op.then_ok]
  cases htable : s.table[id]? with
  | none => rintro _ ⟨⟩
  | some f =>
    have hvalid := ((owns_iff s id).mp (hs.owned f id ((hs.table_iff id f).mp htable))).1
    simp only [Op.ends_bind, Mounted.ends_observe, Op.then_ok]
    cases hpins : (s.frame f).pins with
    | succ pins => rintro _ ⟨⟩
    | zero =>
      simp only [Op.ends_bind]
      refine (writeBack_outcome hvalid f s hd).mono fun r m' hm => ?_
      cases r using Checked.outcomes with
      | ok u => rintro _ ⟨⟩
      | error e =>
        obtain ⟨s', d'⟩ := m'
        obtain ⟨cause, rfl, rfl, hdirty, hfails, hpage⟩ := hm
        rintro _ ⟨rfl⟩
        refine ⟨?_, .intro htable hdirty hfails hpage⟩
        simp [pins?, frameOf?, htable, hpins]
      | abort a => rintro _ ⟨⟩

theorem Sound.failsCleanly (hs : m.pool.Sound c guards) (hfits : m.pool.queue.Fits)
    (hd : LawfulStore.Sound m.store) : FailsCleanly m where
  fetch id access := fetch_fails hs hfits hd id access
  allocate := allocate_fails hs hfits hd
  delete id := delete_fails hs hd id
  flush id := flush_fails hs hd id

end Shard

namespace ShardedPool

variable {n k : Nat} {D : Type} [PageStore D] [LawfulStore D]

-- How an allocation fails that tries the shards in this order: they are all full, or else the first
-- that is not has a page to evict that cannot be written back. No other shard changes, and the turn
-- does not pass on.
inductive AllocateFails (order : List (Fin k)) (m : Mounted (ShardedPool n k) D) :
    StoreError → Mounted (ShardedPool n k) D → Prop
  | full : (∀ i ∈ order, (m.pool.shards.get i).Full) → AllocateFails order m .poolFull m
  | requeued {full rest : List (Fin k)} {i : Fin k} {cause : IoError} {t : Mounted (Shard n) D}
      {f : Fin n} {victim : PageId} {queued : List (Fin n)} :
      order = full ++ i :: rest → (∀ j ∈ full, (m.pool.shards.get j).Full) →
      Shard.Requeued ⟨m.pool.shards.get i, m.store⟩ cause t f victim queued →
      AllocateFails order m (.io cause)
        ⟨{ m.pool with shards := m.pool.shards.set i t.pool i.isLt }, t.store⟩

-- A full shard is passed over.
theorem AllocateFails.cons {order : List (Fin k)} {m m' : Mounted (ShardedPool n k) D}
    {e : StoreError} {i : Fin k} (hi : (m.pool.shards.get i).Full)
    (h : AllocateFails order m e m') : AllocateFails (i :: order) m e m' := by
  cases h with
  | full hfull => exact .full (List.forall_mem_cons.mpr ⟨hi, hfull⟩)
  | requeued horder hfull hrequeued =>
    exact .requeued (congrArg (i :: ·) horder) (List.forall_mem_cons.mpr ⟨hi, hfull⟩) hrequeued

omit [PageStore D] [LawfulStore D] in
-- Putting a shard back as it was changes nothing.
theorem set_get_self (m : Mounted (ShardedPool n k) D) (i : Fin k) :
    (⟨{ m.pool with shards := m.pool.shards.set i (m.pool.shards.get i) i.isLt }, m.store⟩ :
      Mounted (ShardedPool n k) D) = m := by
  have hshards : m.pool.shards.set i (m.pool.shards.get i) i.isLt = m.pool.shards :=
    Vector.set_getElem_self i.isLt
  rw [hshards]

variable [DeviceStore D] {m : Mounted (ShardedPool n k) D} {guards : List (Guard n)}
  {next : Nat → Nat}

theorem allocateIn_fails (h : Steady guards next m)
    (hfits : ∀ i, (m.pool.shards.get i).queue.Fits) (order : List (Fin k)) :
    (allocateIn order).Ends m fun r m' =>
      ∀ e, r = .error (.error e) → AllocateFails order m e m' := by
  induction order with
  | nil =>
    rintro _ ⟨rfl⟩
    exact .full nofun
  | cons i rest ih =>
    rw [ends_allocateIn_cons, ends_onShard]
    refine (Shard.allocate_fails (h.shard i).sound (hfits i) (h.shard i).counts.store).mono
      fun r t ht => ?_
    cases r using Checked.outcomes with
    | ok g => rintro _ ⟨⟩
    | error e =>
      cases ht e rfl with
      | full hfull =>
        dsimp only
        rw [if_pos rfl, set_get_self]
        exact ih.mono fun r m' hm e he => (hm e he).cons hfull
      | requeued hrequeued =>
        dsimp only
        rw [if_neg nofun]
        rintro _ ⟨rfl⟩
        exact .requeued (List.nil_append _).symm nofun hrequeued
    | abort a => rintro _ ⟨⟩

theorem allocate_fails (h : Steady guards next m)
    (hfits : ∀ i, (m.pool.shards.get i).queue.Fits) :
    (ShardedPool.allocate (D := D) (n := n) (k := k)).Ends m fun r m' =>
      ∀ e, r = .error (.error e) → AllocateFails m.pool.turns m e m' := by
  rw [ShardedPool.allocate, Op.ends_bind, Mounted.ends_observe, Op.then_ok]
  exact allocateIn_fails h hfits _

end ShardedPool

namespace Pool

variable {n : Nat} {D : Type} [PageStore D] [LawfulStore D]

-- The pages of a pool are as they were after every call that fails.
theorem Kept.contents_of_failed {m : Mounted (Pool n) D} {guards : List (Guard n)} {M : Memory}
    (h : Kept m guards M) {call : PoolCall n} (hlegal : call.Legal guards)
    (hadmitted : call.Admitted guards) :
    (call.run : Op (Mounted (Pool n) D) _).Ends m fun r m' =>
      ∀ e, r = .error (.error e) → contents m' = contents m := by
  cases call with
  | write g page => rintro _ ⟨⟩
  | _ =>
    refine (call_kept h _ hlegal hadmitted).mono fun r m' hm => ?_
    rintro e rfl
    exact (hm nofun).contents_eq.trans h.contents_eq.symm

variable [DeviceStore D]

-- A refusal changes nothing. A page that cannot be written back stays in its frame, dirty, and a
-- frame for a page that cannot be read ends up free. A failed allocation changes one shard at most.
theorem failures_leave_pool {shape : PoolShape} (hvalid : shape.Valid) {d : D}
    (hd : LawfulStore.Sound d) {m : Mounted (Pool n) D} {guards : List (Guard n)}
    {ids : List PageId} (h : Ran shape d m guards ids) :
    (∀ s ∈ m.pool.shards, Shard.FailsCleanly ⟨s, m.store⟩) ∧
    (∀ k p, m.pool = .sharded k p → ShardedPool.allocate.Ends ⟨p, m.store⟩ fun r m' =>
      ∀ e, r = .error (.error e) → ShardedPool.AllocateFails p.turns ⟨p, m.store⟩ e m') ∧
    ∀ M, Reached n m guards M → ∀ call : PoolCall n, call.Legal guards → call.Admitted guards →
      call.run.Ends m fun r m' => ∀ e, r = .error (.error e) → contents m' = contents m := by
  obtain ⟨next, hsteady, _⟩ := h.counted hvalid hd
  have horder := h.inOrder storeInvariant_true hd trivial
  refine ⟨fun s hs => ?_, ?_, fun M hreached call hlegal hadmitted =>
    hreached.kept.contents_of_failed hlegal hadmitted⟩
  · obtain ⟨i, _, hshard⟩ := hsteady.shard hs
    exact hshard.sound.failsCleanly (horder.fits s hs) hshard.counts.store
  · rintro k p hpool
    obtain ⟨pool, store⟩ := m
    obtain rfl := hpool
    cases hsteady with
    | sharded hsteady => exact ShardedPool.allocate_fails hsteady (inOrder_sharded.mp horder).fits

-- Two free frames over a store that can no longer be read: the frame that was taken for page 0 goes
-- behind the other one.
theorem failures_leave_pool_unread :
    let d : FaultyStore MemoryStore :=
      ⟨⟨(∅ : Std.HashMap PageId Page).insert ⟨0⟩ (Page.fill 7), 1, 0, 0⟩, some ⟨0, none⟩, none, none⟩
    let s : Shard 2 := Shard.initial 2 2 0 1 1
    Ran (.single 2 0 1) d ⟨.single s, d⟩ [] [] ∧ Shard.FailsCleanly ⟨s, d⟩ ∧
      (Shard.fetch ⟨0⟩ .shared).Ends ⟨s, d⟩ fun r m' =>
        r = .error (.error (.io (.injected .diskRead))) ∧ m'.pool = s.setFree [1, 0] := by
  intro d s
  have hvalid : (PoolShape.single 2 0 1).Valid := by
    rw [PoolShape.Valid]
    decide
  have hcount : PageStore.pageCount.Ends d fun r d' => r = .ok 1 ∧ d' = d := ⟨rfl, rfl⟩
  obtain ⟨hcreate, hstate⟩ : ((PoolShape.single 2 0 1).create 2).Ends d fun r d' =>
      r = .ok (.single s) ∧ d' = d :=
    PoolShape.create_single_ends (by decide) (by decide) hcount
  have hran : Ran (.single 2 0 1) d ⟨.single s, d⟩ [] [] := by
    have hcreated := Ran.created hcreate
    rwa [hstate] at hcreated
  refine ⟨hran, (failures_leave_pool hvalid (d := d) trivial hran).1 s (List.mem_singleton_self s), ?_⟩
  have htable : s.table[(⟨0⟩ : PageId)]? = none := Std.HashMap.getElem?_empty
  simp only [Shard.fetch, Shard.pin, Op.ends_bind, Mounted.ends_observe, Op.then_ok, htable]
  exact ⟨rfl, rfl⟩

end Pool

end PagedIndex
