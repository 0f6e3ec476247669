import PagedIndex.Proofs.Pool.Representation

namespace PagedIndex.Shard

variable {n : Nat} {D : Type} [PageStore D] {c : ShardConfig} {s : Shard n} {d : D}
  {guards : List (Guard n)}

theorem ends_writeBack (id : PageId) (f : Fin n) (s : Shard n) (d : D)
    (Q : Checked Unit → Mounted (Shard n) D → Prop) :
    (writeBack id f).Ends ⟨s, d⟩ Q ↔
      if (s.frame f).dirty then
        (PageStore.writePage id (s.frame f).bytes).Ends d fun
          | .ok _, d' => Q (.ok ()) ⟨s.setFrame f { s.frame f with dirty := false }, d'⟩
          | .error e, d' => Q (.error e) ⟨s, d'⟩
      else Q (.ok ()) ⟨s, d⟩ := by
  simp only [writeBack, Op.ends_bind, Mounted.ends_observe, Op.then_ok]
  split
  · rw [Op.ends_bind, Mounted.ends_onStore]
    exact Op.ends_congr fun r d' => by cases r <;> rfl
  · rfl

-- A frame comes from the free list, or else from the queue, after its page is written back.
theorem ends_acquire (h : Sound c s guards) {Q : Checked (Fin n) → Mounted (Shard n) D → Prop}
    (hfree : ∀ f rest, s.free = f :: rest → Q (.ok f) ⟨s.setFree rest, d⟩)
    (hfull : s.free = [] → s.queue.toList = [] → Q (.error (.error .poolFull)) ⟨s, d⟩)
    (hevict : ∀ f id queue, s.free = [] → s.queue.pop? = some (f, queue) →
      (s.frame f).page = some id → (writeBack id f).Ends ⟨s.setQueue queue, d⟩ fun
        | .ok _, m =>
          Q (.ok f) ⟨(m.pool.setFrame f { m.pool.frame f with page := none }).forget id, m.store⟩
        | .error (.error e), m =>
          Q (.error (.error e)) ⟨m.pool.setQueue (m.pool.queue.push f), m.store⟩
        | .error (.abort a), m => Q (.error (.abort a)) m) :
    acquire.Ends ⟨s, d⟩ Q := by
  simp only [acquire, Op.ends_bind, Mounted.ends_observe, Op.then_ok]
  cases hlist : s.free with
  | cons f rest => exact hfree f rest hlist
  | nil =>
    simp only [Op.ends_bind, Mounted.ends_observe, Op.then_ok]
    cases hpop : s.queue.pop? with
    | none => exact hfull hlist ((EvictionQueue.pop?_eq_none_iff _).mp hpop)
    | some popped =>
      obtain ⟨f, queue⟩ := popped
      have hqueued : f ∈ s.queue.toList := by
        rw [h.queue.toList_of_pop? hpop]
        exact List.mem_cons_self
      obtain ⟨id, hpage⟩ := Option.ne_none_iff_exists'.mp (h.queued f hqueued).1
      have hpage' : ((s.setQueue queue).frame f).page = some id := hpage
      change (evict f >>= fun _ => Pure.pure f : Op (Mounted (Shard n) D) (Fin n)).Ends
        ⟨s.setQueue queue, d⟩ Q
      simp only [evict, Op.ends_bind, Mounted.ends_observe, Op.then_ok, hpage', Op.ends_attempt]
      refine (hevict f id queue hlist hpop hpage).mono fun r m hm => ?_
      obtain ⟨s', d'⟩ := m
      cases r using Checked.outcomes with
      | ok _ => exact hm
      | error e =>
        simp only [Op.attempted_error, Op.then_ok, Op.ends_bind, ends_enqueue, Op.ends_fail,
          Op.then_error]
        exact hm
      | abort a => exact hm

-- A frame that was acquired could be given back to the front of the free list.
theorem acquire_sound (h : Sound c s guards) :
    acquire.Ends ⟨s, d⟩ fun
      | .ok f, m => Sound c (m.pool.setFree (f :: m.pool.free)) guards
      | .error (.error _), m => Sound c m.pool guards
      | .error (.abort _), _ => True := by
  apply ends_acquire h
  · intro f rest hlist
    have hself : (s.setFree rest).setFree (f :: rest) = s := by
      cases s
      simp only [setFree] at hlist ⊢
      rw [hlist]
    exact hself.symm ▸ h
  · intro _ _
    exact h
  · intro f id queue hlist hpop hpage
    have hqueue := h.queue.of_pop? hpop
    have hold := h.queue.toList_of_pop? hpop
    have hnodup := h.queue.nodup_toList
    rw [hold, List.nodup_cons] at hnodup
    have hpins : (s.frame f).pins = 0 := (h.queued f (hold ▸ List.mem_cons_self)).2
    have hmem (f' : Fin n) : f' ∈ queue.toList ↔ f' ∈ s.queue.toList ∧ f' ≠ f := by
      rw [hold, List.mem_cons]
      constructor
      · intro hf'
        exact ⟨Or.inr hf', fun hf => hnodup.1 (hf ▸ hf')⟩
      · rintro ⟨hf | hf, hne⟩
        · exact absurd hf hne
        · exact hf
    have hvacate (x : Frame) (hx : x.page = none ∧ x.pins = 0 ∧ x.dirty = false) :=
      h.vacate hpage hpins hx hqueue (EvictionQueue.capacity_of_pop? hpop) hmem
    rw [ends_writeBack]
    split
    · refine Op.ends_of_forall fun r d' => ?_
      cases r using Checked.outcomes with
      | ok _ =>
        simp only [frame_setQueue, frame_setFrame, if_true, setFrame_setFrame]
        exact hvacate _ ⟨rfl, hpins, rfl⟩
      | error e => exact h.requeue hpop
      | abort a => trivial
    · rename_i hclean
      exact hvacate _ ⟨rfl, hpins, by simpa using hclean⟩

-- Acquiring a frame brings no page in, and leaves alone which ids the shard owns.
theorem acquire_table (h : Sound c s guards) (id : PageId) :
    acquire.Ends ⟨s, d⟩ fun _ m => (s.table[id]? = none → m.pool.table[id]? = none) ∧
      m.pool.owns id = s.owns id := by
  apply ends_acquire h
  · exact fun _ _ _ => ⟨fun hnone => hnone, rfl⟩
  · exact fun _ _ => ⟨fun hnone => hnone, rfl⟩
  · intro f old queue _ _ _
    have herase (hnone : s.table[id]? = none) : (s.table.erase old)[id]? = none := by
      rw [Std.HashMap.getElem?_erase, hnone, ite_self]
    rw [ends_writeBack]
    split
    · refine Op.ends_of_forall fun r d' => ?_
      cases r using Checked.outcomes with
      | ok _ => exact ⟨herase, rfl⟩
      | error e => exact ⟨fun hnone => hnone, rfl⟩
      | abort a => exact ⟨fun hnone => hnone, rfl⟩
    · exact ⟨herase, rfl⟩

-- A resident page gets one more pin, if it can be counted.
theorem ends_pin_resident {id : PageId} {f : Fin n} (htable : s.table[id]? = some f)
    (Q : Checked (Fin n) → Mounted (Shard n) D → Prop) :
    (pin id).Ends ⟨s, d⟩ Q ↔
      if (s.frame f).pins + 1 < pinLimit then
        Q (.ok f) ⟨(s.setFrame f { s.frame f with pins := (s.frame f).pins + 1 }).setQueue
          (s.queue.remove f), d⟩
      else Q (.error (.abort .overflow)) ⟨s, d⟩ := by
  simp only [pin, Op.ends_bind, Mounted.ends_observe, Op.then_ok, htable, Op.ends_require]
  split <;> rfl

-- A pinned page is ready for one more guard.
theorem pin_sound (h : Sound c s guards) (id : PageId) :
    (pin id).Ends ⟨s, d⟩ fun
      | .ok f, m => ∀ access, Sound c m.pool (⟨id, f, access⟩ :: guards)
      | .error (.error _), m => Sound c m.pool guards
      | .error (.abort _), _ => True := by
  cases htable : s.table[id]? with
  | some f =>
    rw [ends_pin_resident htable]
    split
    · rename_i hlimit
      exact fun access => h.pin htable hlimit access
    · trivial
  | none =>
    simp only [pin, Op.ends_bind, Mounted.ends_observe, Op.then_ok, htable]
    by_cases howns : s.owns id
    · simp only [howns, Bool.not_true, Bool.false_eq_true, if_false, Op.ends_bind]
      refine Op.Ends.mono ((acquire_sound h).and (acquire_table (d := d) h id)) fun r m hm => ?_
      obtain ⟨s', d'⟩ := m
      obtain ⟨hsound, htable'⟩ := hm
      cases r using Checked.outcomes with
      | ok f =>
        simp only [Op.then_ok, Op.ends_bind, Op.ends_attempt, Mounted.ends_onStore]
        refine Op.ends_of_forall fun r d'' => ?_
        cases r using Checked.outcomes with
        | ok bytes =>
          obtain ⟨habsent, howned⟩ := htable'
          exact fun access => hsound.install (habsent htable) (howned ▸ howns) bytes access
        | error e => exact hsound.setFree (List.perm_append_singleton f s'.free)
        | abort a => trivial
      | error e => exact hsound
      | abort a => trivial
    · simp only [howns, Bool.not_false, if_true, Op.ends_bind, Op.ends_fail, Op.then_error]
      exact h

omit [PageStore D] in
-- A guard that is given out latches its frame, and does nothing else.
theorem guard_latches (id : PageId) (access : Access) (f : Fin n) (m : Mounted (Shard n) D) :
    (guard id access f).Ends m fun r m' => r = .ok ⟨id, f, access⟩ ∧
      ∃ latch, m' = ⟨m.pool.setFrame f { m.pool.frame f with latch }, m.store⟩ := by
  unfold guard
  split
  · exact ⟨rfl, .held, rfl⟩
  · refine ⟨rfl, (m.pool.frame f).latch, ?_⟩
    rw [setFrame_frame]
    rfl

-- Latches and bytes do not matter for the representation.
theorem Sound.latch (h : Sound c s guards) (f : Fin n) (latch : Latch) :
    Sound c (s.setFrame f { s.frame f with latch }) guards :=
  h.setFrame rfl rfl fun hpage => (h.unused f hpage).2

theorem fetch_sound (h : Sound c s guards) (id : PageId) (access : Access) :
    (fetch id access).Ends ⟨s, d⟩ fun
      | .ok g, m => g.page = id ∧ g.access = access ∧ Sound c m.pool (g :: guards)
      | .error (.error _), m => Sound c m.pool guards
      | .error (.abort _), _ => True := by
  rw [fetch, Op.ends_bind]
  refine (pin_sound h id).mono fun r m hm => ?_
  cases r using Checked.outcomes with
  | ok f =>
    rw [Op.then_ok]
    refine (guard_latches id access f m).mono fun r m' hguard => ?_
    obtain ⟨rfl, latch, rfl⟩ := hguard
    exact ⟨rfl, rfl, (hm access).latch f latch⟩
  | error e => exact hm
  | abort a => trivial

-- The number of the next id, as long as there is one after it.
theorem toNat_nextId (h : s.nextId + s.count < pageIdLimit) :
    (UInt32.ofNat s.nextId).toNat = s.nextId := by
  rw [UInt32.toNat_ofNat']
  exact Nat.mod_eq_of_lt (by rw [pageIdLimit] at h; omega)

theorem Sound.count_pos (h : Sound c s guards) : 0 < s.count := by
  have hlt := h.index_lt
  rw [h.count_eq]
  omega

theorem Sound.nextId_index (h : Sound c s guards) : s.nextId % s.count = s.index := by
  rw [h.count_eq, h.index_eq]
  exact h.nextId_mod

-- The next id belongs to the shard once the counter has moved past it.
theorem Sound.owns_nextId (h : Sound c s guards) (hlimit : s.nextId + s.count < pageIdLimit) :
    (s.setNextId (s.nextId + s.count)).owns ⟨UInt32.ofNat s.nextId⟩ := by
  have hnumber := toNat_nextId hlimit
  have hpos := h.count_pos
  rw [pageIdLimit] at hlimit
  refine (owns_iff _ _).mpr ⟨?_, ?_, ?_⟩
  · intro hinvalid
    have hnat := congrArg (fun id : PageId => id.number.toNat) hinvalid
    simp only [hnumber, PageId.invalid, UInt32.reduceToNat] at hnat
    omega
  · simp only [hnumber, index_setNextId, count_setNextId]
    exact h.nextId_index
  · simp only [hnumber, nextId_setNextId]
    omega

-- No page has the next id yet.
theorem Sound.nextId_absent (h : Sound c s guards) (hlimit : s.nextId + s.count < pageIdLimit) :
    s.table[(⟨UInt32.ofNat s.nextId⟩ : PageId)]? = none := by
  rw [Option.eq_none_iff_forall_ne_some]
  intro f hf
  have howned := (owns_iff s _).mp (h.owned f _ ((h.table_iff _ f).mp hf))
  have hlt := howned.2.2
  simp only [toNat_nextId hlimit] at hlt
  omega

theorem allocate_sound (h : Sound c s guards) :
    allocate.Ends ⟨s, d⟩ fun
      | .ok g, m => g.access = .exclusive ∧ Sound c m.pool (g :: guards)
      | .error (.error _), m => Sound c m.pool guards
      | .error (.abort _), _ => True := by
  simp only [allocate, Op.ends_bind, Op.ends_attempt]
  refine (acquire_sound h).mono fun r m hm => ?_
  obtain ⟨s', d'⟩ := m
  cases r using Checked.outcomes with
  | ok f =>
    simp only [Op.attempted_ok, Op.then_ok, Op.ends_bind, Mounted.ends_observe, Op.ends_require]
    split
    · rename_i hlimit
      have hnext : Sound c ((s'.setNextId (s'.nextId + s'.count)).setFree (f :: s'.free)) guards :=
        hm.setNextId
      have hinstall := hnext.install (hm.nextId_absent hlimit) (hm.owns_nextId hlimit)
        Page.zero .exclusive
      exact ⟨rfl, hinstall.latch f .held⟩
    · trivial
  | error e => exact hm
  | abort a => trivial

omit [PageStore D] in
theorem ends_unpin {id : PageId} {f : Fin n} {pins : Nat} (htable : s.table[id]? = some f)
    (hpins : (s.frame f).pins = pins + 1) (modified : Bool)
    (Q : Checked Unit → Mounted (Shard n) D → Prop) {x : Frame}
    (hx : x = { s.frame f with pins, dirty := (s.frame f).dirty || modified }) :
    (unpin id modified).Ends ⟨s, d⟩ Q ↔ Q (.ok ()) ⟨if pins = 0 then
      (s.setFrame f x).setQueue (s.queue.push f) else s.setFrame f x, d⟩ := by
  subst hx
  simp only [unpin, Op.ends_bind, Mounted.ends_observe, Op.then_ok, htable, hpins]
  split
  · rw [Mounted.ends_update, Op.then_ok, ends_enqueue]
    rfl
  · rfl

omit [PageStore D] in
-- The frame of a guard may have changed under it.
theorem ends_unpin_guard {g : Guard n} (h : Sound c s (g :: guards)) (modified : Bool) {x y : Frame}
    (hpins : y.pins = (s.frame g.frame).pins)
    (hx : x = { y with pins := y.pins - 1, dirty := y.dirty || modified })
    (Q : Checked Unit → Mounted (Shard n) D → Prop) :
    (unpin g.page modified).Ends ⟨s.setFrame g.frame y, d⟩ Q ↔ Q (.ok ()) ⟨if y.pins - 1 = 0 then
      (s.setFrame g.frame x).setQueue (s.queue.push g.frame) else s.setFrame g.frame x, d⟩ := by
  have htable := h.guarded g List.mem_cons_self
  have hpinned : ((s.setFrame g.frame y).frame g.frame).pins = (y.pins - 1) + 1 := by
    have hcount := h.pins_eq _ _ ((h.table_iff _ _).mp htable)
    rw [pinsOn_cons, if_pos rfl] at hcount
    rw [frame_setFrame, if_pos rfl]
    omega
  rw [ends_unpin (s := s.setFrame g.frame y) (f := g.frame) htable hpinned modified _ (x := x)
    (by simp [hx]), setFrame_setFrame]
  rfl

omit [PageStore D] in
theorem unpin_sound {g : Guard n} (h : Sound c s (g :: guards)) (modified : Bool) :
    (unpin g.page modified).Ends ⟨s, d⟩ fun r m => r = .ok () ∧ Sound c m.pool guards := by
  have htable := h.guarded g List.mem_cons_self
  have hpins := h.pins_eq _ _ ((h.table_iff _ _).mp htable)
  rw [pinsOn_cons, if_pos rfl] at hpins
  simp only [unpin, Op.ends_bind, Mounted.ends_observe, Op.then_ok, htable, hpins]
  have hstep (dirty : Bool) := h.unpin
    (x := { s.frame g.frame with pins := pinsOn g.page guards, dirty }) rfl hpins
  by_cases hzero : pinsOn g.page guards = 0
  · simp only [hzero, if_true] at hstep ⊢
    rw [Mounted.ends_update, Op.then_ok, ends_enqueue]
    exact ⟨rfl, hstep _⟩
  · simp only [hzero, if_false] at hstep ⊢
    exact ⟨rfl, hstep _⟩

omit [PageStore D] in
theorem release_sound {g : Guard n} (h : Sound c s (g :: guards)) :
    (release g).Ends ⟨s, d⟩ fun r m => r = .ok () ∧ Sound c m.pool guards := by
  unfold release
  cases g.access with
  | shared => exact unpin_sound h false
  | exclusive =>
    simp only [Op.ends_bind, Mounted.ends_observe, Op.then_ok, Mounted.ends_update,
      modifyFrame_eq_setFrame]
    exact unpin_sound (h.latch g.frame .idle) _

omit [PageStore D] in
-- Giving a guard back leaves the page ids and the store alone.
theorem release_parts (g : Guard n) (m : Mounted (Shard n) D) :
    (release g).Ends m fun _ m' => m'.pool.nextId = m.pool.nextId ∧ m'.pool.count = m.pool.count ∧
      m'.store = m.store := by
  have hunpin (m' : Mounted (Shard n) D) (id : PageId) (modified : Bool) :
      (unpin id modified).Ends m' fun _ m'' => m''.pool.nextId = m'.pool.nextId ∧
        m''.pool.count = m'.pool.count ∧ m''.store = m'.store := by
    simp only [unpin, Op.ends_bind, Mounted.ends_observe, Op.then_ok]
    cases m'.pool.table[id]? with
    | none => exact ⟨rfl, rfl, rfl⟩
    | some f =>
      simp only [Op.ends_bind, Mounted.ends_observe, Op.then_ok]
      cases (m'.pool.frame f).pins with
      | zero => exact ⟨rfl, rfl, rfl⟩
      | succ pins =>
        simp only [Op.ends_bind, Mounted.ends_update, Op.then_ok]
        split
        · rw [ends_enqueue]
          exact ⟨rfl, rfl, rfl⟩
        · exact ⟨rfl, rfl, rfl⟩
  unfold release
  cases g.access with
  | shared => exact hunpin m g.page false
  | exclusive =>
    simp only [Op.ends_bind, Mounted.ends_observe, Op.then_ok, Mounted.ends_update]
    exact hunpin ⟨m.pool.modifyFrame g.frame _, m.store⟩ g.page _

theorem write_sound (h : Sound c s guards) (g : Guard n) (page : Page) :
    Sound c (s.write g page) guards :=
  h.setFrame rfl rfl fun hpage => (h.unused _ hpage).2

theorem writeBack_sound (h : Sound c s guards) (id : PageId) (f : Fin n) :
    (writeBack id f).Ends ⟨s, d⟩ fun _ m => Sound c m.pool guards := by
  rw [ends_writeBack]
  split
  · refine Op.ends_of_forall fun r d' => ?_
    cases r with
    | ok u => exact h.setFrame rfl rfl fun _ => rfl
    | error e => exact h
  · exact h

omit [PageStore D] in
-- A pin on top of others comes off without a trace.
theorem ends_unpin_again {id : PageId} {f : Fin n} (htable : s.table[id]? = some f) {x : Frame}
    (hpins : x.pins ≠ 0) (Q : Checked Unit → Mounted (Shard n) D → Prop) :
    (unpin id false).Ends ⟨s.setFrame f { x with pins := x.pins + 1 }, d⟩ Q ↔
      Q (.ok ()) ⟨s.setFrame f x, d⟩ := by
  have hpinned : ((s.setFrame f { x with pins := x.pins + 1 }).frame f).pins = x.pins + 1 := by simp
  rw [ends_unpin (s := s.setFrame f _) htable hpinned false _ (x := x) (by simp), if_neg hpins,
    setFrame_setFrame]

-- A resident page is written back, unless it is latched under a pin. It has one more pin meanwhile,
-- which has to be counted.
theorem ends_flush (id : PageId) (s : Shard n) (d : D)
    (Q : Checked Bool → Mounted (Shard n) D → Prop) :
    (flush id).Ends ⟨s, d⟩ Q ↔
      match s.table[id]? with
      | none => Q (.ok false) ⟨s, d⟩
      | some f =>
        if pinLimit ≤ (s.frame f).pins + 1 then Q (.error (.abort .overflow)) ⟨s, d⟩
        else if (s.frame f).pins ≠ 0 ∧ (s.frame f).latch ≠ .idle then Q (.ok false) ⟨s, d⟩
        else (writeBack id f).Ends ⟨s, d⟩ (Op.Then (fun _ => Pure.pure true) Q) := by
  simp only [flush, Op.ends_bind, Mounted.ends_observe, Op.then_ok]
  cases htable : s.table[id]? with
  | none => rfl
  | some f =>
    simp only [Op.ends_bind, Mounted.ends_observe, Op.then_ok]
    by_cases hpins : (s.frame f).pins = 0
    · simp [hpins, pinLimit]
    by_cases hlimit : pinLimit ≤ (s.frame f).pins + 1
    · simp only [hpins, hlimit, if_false, if_true, Op.ends_bind, Op.ends_require,
        Nat.not_lt.mpr hlimit, Op.then_error]
    · simp only [hpins, if_false, ne_eq, not_false_eq_true, true_and, Op.ends_bind, hlimit,
        Nat.lt_of_not_le hlimit, Op.ends_require, if_true,
        Mounted.ends_update, Op.then_ok, Op.ends_ensuring, writeShared, Mounted.ends_observe,
        modifyFrame_eq_setFrame, frame_setFrame]
      -- a frame that was not marked clean meanwhile is as it was
      have hsame (r : Checked Bool) (d' : D) :
          (unpin id false).Ends ⟨s.setFrame f { s.frame f with pins := (s.frame f).pins + 1 }, d'⟩
            (fun _ m => Q r m) ↔ Q r ⟨s, d'⟩ := by
        rw [ends_unpin_again htable hpins, setFrame_frame]
      by_cases hlatch : (s.frame f).latch = .idle
      · simp only [if_pos hlatch, not_not.mpr hlatch, if_false, Op.ends_bind, ends_writeBack,
          frame_setFrame, if_true, setFrame_setFrame]
        by_cases hdirty : (s.frame f).dirty = true
        · rw [if_pos hdirty, if_pos hdirty]
          refine Op.ends_congr fun r d' => ?_
          cases r with
          | ok _ =>
            exact ends_unpin_again htable (x := { s.frame f with dirty := false }) hpins
              fun _ m => Q (.ok true) m
          | error e => exact hsame _ d'
        · rw [if_neg hdirty, if_neg hdirty]
          exact hsame _ d
      · rw [if_neg hlatch, if_pos hlatch]
        exact hsame _ d

theorem flush_sound (h : Sound c s guards) (id : PageId) :
    (flush id).Ends ⟨s, d⟩ fun _ m => Sound c m.pool guards := by
  rw [ends_flush]
  cases s.table[id]? with
  | none => exact h
  | some f =>
    dsimp only
    split
    · exact h
    split
    · exact h
    · refine (writeBack_sound h id f).mono fun r m hm => ?_
      cases r <;> exact hm

theorem flushAll_sound (h : Sound c s guards) (walk : Walk) :
    (flushAll walk).Ends ⟨s, d⟩ fun _ m => Sound c m.pool guards := by
  simp only [flushAll, Op.ends_bind, Mounted.ends_observe, Op.then_ok]
  refine Op.ends_forM (I := fun _ m => Sound c m.pool guards) (fun id _ m hm => ?_)
    (fun _ hm => hm) _ _ h
  obtain ⟨s', d'⟩ := m
  rw [Op.ends_discard]
  refine (flush_sound hm id).mono fun r m' hm' => ?_
  cases r <;> exact hm'

theorem delete_sound (h : Sound c s guards) (id : PageId) :
    (delete id).Ends ⟨s, d⟩ fun _ m => Sound c m.pool guards := by
  simp only [delete, Op.ends_bind, Mounted.ends_observe, Op.then_ok]
  cases htable : s.table[id]? with
  | none => exact h
  | some f =>
    have hpage := (h.table_iff id f).mp htable
    simp only [Op.ends_bind, Mounted.ends_observe, Op.then_ok]
    cases hpins : (s.frame f).pins with
    | succ pins => exact h
    | zero =>
      have hmem (f' : Fin n) :
          f' ∈ (s.queue.remove f).toList ↔ f' ∈ s.queue.toList ∧ f' ≠ f := by
        rw [h.queue.toList_remove, h.queue.nodup_toList.mem_erase_iff, and_comm]
      have hvacate := (h.vacate hpage hpins (x := Frame.empty) ⟨rfl, rfl, rfl⟩ (h.queue.remove f)
        (EvictionQueue.capacity_remove _ _) hmem).setFree (List.perm_append_singleton f s.free)
      simp only [Op.ends_bind, ends_writeBack]
      split
      · refine Op.ends_of_forall fun r d' => ?_
        cases r with
        | ok u =>
          simp only [Op.then_ok, Op.ends_bind, Mounted.ends_update, setFrame_setFrame]
          exact hvacate
        | error e => exact h
      · exact hvacate

end PagedIndex.Shard
