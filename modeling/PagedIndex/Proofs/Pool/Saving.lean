import PagedIndex.Proofs.Pool.Lawful
import PagedIndex.Proofs.Pool.Locality
import PagedIndex.Proofs.Store.Growing

namespace PagedIndex

-- The bytes were changed since the store last had them, or may be at this time.
def Frame.Unsaved (x : Frame) : Prop := x.dirty = true ∨ x.latch = .written

namespace Shard

variable {n : Nat} {D : Type} [PageStore D] [LawfulStore D] [GrowingStore D] {c : ShardConfig}
  {s : Shard n} {d d' : D} {guards : List (Guard n)} {M : Memory}

def Unsaved (s : Shard n) (id : PageId) : Prop :=
  ∃ f, (s.frame f).page = some id ∧ (s.frame f).Unsaved

-- The page count of a store does not go down.
def Grows (d d' : D) : Prop := GrowingStore.Counted d →
  GrowingStore.Counted d' ∧ LawfulStore.count d ≤ LawfulStore.count d'

theorem Grows.refl (d : D) : Grows d d := fun h => ⟨h, UInt32.le_refl _⟩

-- No page is lost: a page that is not unsaved any more is below the page count.
def Saves (m m' : Mounted (Shard n) D) : Prop := GrowingStore.Counted m.store →
  GrowingStore.Counted m'.store ∧ LawfulStore.count m.store ≤ LawfulStore.count m'.store ∧
    ∀ id, m.pool.Unsaved id → m'.pool.Unsaved id ∨ id.number < LawfulStore.count m'.store

theorem local_saves : Local (Saves (n := n) (D := D)) where
  refl _ hd := ⟨hd, UInt32.le_refl _, fun _ => Or.inl⟩
  trans h h' hd := by
    obtain ⟨hd', hle, hsaved⟩ := h hd
    obtain ⟨hd'', hle', hsaved'⟩ := h' hd'
    refine ⟨hd'', UInt32.le_trans hle hle', fun id hid => ?_⟩
    rcases hsaved id hid with hid | hid
    · exact hsaved' id hid
    · exact Or.inr (UInt32.lt_of_lt_of_le hid hle')
  elsewhere _ h hd := ⟨(h hd).1, (h hd).2.1, fun _ => Or.inl⟩

-- One frame changes, and the store may come to count its page.
theorem saves_setFrame {f : Fin n} {x : Frame} (hgrows : Grows d d')
    (hx : ∀ id, (s.frame f).page = some id → (s.frame f).Unsaved →
      x.page = some id ∧ x.Unsaved ∨ (GrowingStore.Counted d → id.number < LawfulStore.count d')) :
    Saves ⟨s, d⟩ ⟨s.setFrame f x, d'⟩ := by
  intro hd
  refine ⟨(hgrows hd).1, (hgrows hd).2, fun id hid => ?_⟩
  obtain ⟨f', hpage, hf'⟩ := hid
  by_cases hf : f = f'
  · subst hf
    refine (hx id hpage hf').imp (fun hsame => ⟨f, ?_⟩) fun hcount => hcount hd
    rwa [frame_setFrame, if_pos rfl]
  · refine Or.inl ⟨f', ?_⟩
    rw [frame_setFrame, if_neg hf]
    exact ⟨hpage, hf'⟩

-- A frame that is as unsaved as before, on the same page if it has one.
theorem saves_same {f : Fin n} {x : Frame} (hpage : x.page = (s.frame f).page)
    (hx : (s.frame f).Unsaved → x.Unsaved) : Saves ⟨s, d⟩ ⟨s.setFrame f x, d⟩ :=
  saves_setFrame (Grows.refl d) fun _ hid hf => Or.inl ⟨hpage.trans hid, hx hf⟩

-- A frame without a page takes one in.
theorem saves_install {f : Fin n} (hnone : (s.frame f).page = none) (id : PageId) (bytes : Page) :
    Saves ⟨s, d⟩ ⟨(s.setFrame f (Frame.loaded id bytes)).enter id f, d⟩ :=
  saves_setFrame (d := d) (Grows.refl d) fun _ hid => by rw [hnone] at hid; cases hid

-- A write-back changes the mark of a frame only, after the store has taken the page.
theorem writeBack_stores {id : PageId} (hid : id ≠ PageId.invalid) (f : Fin n) (s : Shard n) (d : D) :
    (writeBack id f).Ends ⟨s, d⟩ fun r m => Grows d m.store ∧ match r with
      | .ok _ => m.pool = s.setFrame f { s.frame f with dirty := false } ∧
          ((s.frame f).dirty = true → GrowingStore.Counted d → id.number < LawfulStore.count m.store)
      | .error _ => m.pool = s := by
  rw [ends_writeBack]
  split
  · refine (GrowingStore.writePage_counts hid _ d).mono fun r d' hd => ?_
    have hgrows : Grows d d' := fun h => ⟨(hd h).1, (hd h).2.1⟩
    cases r with
    | ok _ => exact ⟨hgrows, rfl, fun _ h => (hd h).2.2 rfl⟩
    | error e => exact ⟨hgrows, rfl⟩
  · rename_i hclean
    exact ⟨Grows.refl d, (setFrame_clean (by simpa using hclean)).symm,
      fun hdirty => absurd hdirty hclean⟩

-- A page that is written back, and leaves its frame then.
theorem saves_drop {f : Fin n} {id : PageId} {x : Frame} (hpage : (s.frame f).page = some id)
    (hidle : (s.frame f).latch ≠ .written) (hgrows : Grows d d')
    (hstored : (s.frame f).dirty = true → GrowingStore.Counted d →
      id.number < LawfulStore.count d') : Saves ⟨s, d⟩ ⟨s.setFrame f x, d'⟩ := by
  refine saves_setFrame hgrows fun id' hid' hf => Or.inr ?_
  obtain rfl := Option.some_inj.mp (hpage.symm.trans hid')
  exact hstored (hf.resolve_right hidle)

-- The store may change under a shard that stays as it is.
theorem saves_store (hgrows : Grows d d') : Saves ⟨s, d⟩ ⟨s, d'⟩ :=
  fun hd => ⟨(hgrows hd).1, (hgrows hd).2, fun _ => Or.inl⟩

theorem acquire_saves (hs : s.Sound c guards) (h : Backed c d ⟨s, d⟩ guards M) :
    acquire.Ends ⟨s, d⟩ fun _ m => Saves ⟨s, d⟩ m := by
  apply ends_acquire hs
  · exact fun _ _ _ => local_saves.refl _
  · exact fun _ _ => local_saves.refl _
  · intro f id queue _ hpop hpage
    have hpins : (s.frame f).pins = 0 := by
      refine (hs.queued f ?_).2
      rw [hs.queue.toList_of_pop? hpop]
      exact List.mem_cons_self
    have hidle := (h.caches.shows f id hpage).not_written fun g hg hid =>
      absurd hid (hs.not_guarded hpage hpins g hg)
    have hvalid := ((owns_iff s id).mp (hs.owned f id hpage)).1
    refine (writeBack_stores hvalid f (s.setQueue queue) d).mono fun r m hm => ?_
    obtain ⟨s', d'⟩ := m
    obtain ⟨hgrows, hm⟩ := hm
    cases r using Checked.outcomes with
    | ok _ =>
      obtain ⟨rfl, hstored⟩ := hm
      simp only [setFrame_setFrame]
      exact saves_drop (s := s.setQueue queue) hpage hidle hgrows hstored
    | error e =>
      obtain rfl := hm
      exact saves_store (s := s) hgrows
    | abort a =>
      obtain rfl := hm
      exact saves_store (s := s) hgrows

theorem pin_saves (hs : s.Sound c guards) (h : Backed c d ⟨s, d⟩ guards M) (id : PageId) :
    (pin id).Ends ⟨s, d⟩ fun _ m => Saves ⟨s, d⟩ m := by
  cases htable : s.table[id]? with
  | some f =>
    rw [ends_pin_resident htable]
    split
    · exact saves_same (s := s) (f := f) rfl fun hf => hf
    · exact local_saves.refl _
  | none =>
    simp only [pin, Op.ends_bind, Mounted.ends_observe, Op.then_ok, htable]
    by_cases howns : s.owns id
    · simp only [howns, Bool.not_true, Bool.false_eq_true, if_false, Op.ends_bind]
      refine Op.Ends.mono ((acquire_saves hs h).and (acquire_sound (d := d) hs)) fun r m hm => ?_
      obtain ⟨s', d'⟩ := m
      obtain ⟨hsaves, hsound⟩ := hm
      cases r using Checked.outcomes with
      | ok f =>
        have hnone : (s'.frame f).page = none := ((hsound.mem_free_iff f).mp List.mem_cons_self).1
        simp only [Op.then_ok, Op.ends_bind, Op.ends_attempt, Mounted.ends_onStore]
        refine (GrowingStore.readPage_counts id d').mono fun r d'' hd => ?_
        have hread : Saves ⟨s, d⟩ ⟨s', d''⟩ :=
          local_saves.trans hsaves (saves_store fun h => ⟨(hd h).1, UInt32.le_of_eq (hd h).2.symm⟩)
        cases r using Checked.outcomes with
        | ok bytes => exact local_saves.trans hread (saves_install hnone id bytes)
        | error e => exact hread
        | abort a => exact hread
      | error e => exact hsaves
      | abort a => exact hsaves
    · simp only [howns, Bool.not_false, if_true, Op.ends_bind, Op.ends_fail, Op.then_error]
      exact local_saves.refl _

-- A guard that may write to the page of a frame is given out on a page that nobody is writing.
theorem guard_saves {m : Mounted (Shard n) D} {f : Fin n} (hidle : (m.pool.frame f).latch ≠ .written)
    (id : PageId) (access : Access) : (guard id access f).Ends m fun _ m' => Saves m m' := by
  unfold guard
  cases access with
  | exclusive => exact saves_same (f := f) rfl fun hf => Or.inl (hf.resolve_right hidle)
  | shared => exact local_saves.refl _

theorem fetch_saves (hs : s.Sound c guards) (h : Backed c d ⟨s, d⟩ guards M) {id : PageId}
    {access : Access} (hadmits : Admits guards id access) :
    (fetch id access).Ends ⟨s, d⟩ fun _ m => Saves ⟨s, d⟩ m := by
  rw [fetch, Op.ends_bind]
  refine Op.Ends.mono ((pin_saves hs h id).and ((pin_sound (d := d) hs id).and (pin_backed hs h id)))
    fun r m hm => ?_
  obtain ⟨hsaves, hsound, hbacked⟩ := hm
  cases r using Checked.outcomes with
  | ok f =>
    have hsound := hsound access
    have hpage := (hsound.table_iff id f).mp (hsound.guarded _ List.mem_cons_self)
    have hidle := (hbacked.caches.shows f id hpage).not_written fun g hg hid => (hadmits g hg hid).1
    exact (guard_saves hidle id access).mono fun _ _ hguard => local_saves.trans hsaves hguard
  | error e => exact hsaves
  | abort a => exact hsaves

theorem allocate_saves (hs : s.Sound c guards) (h : Backed c d ⟨s, d⟩ guards M) :
    allocate.Ends ⟨s, d⟩ fun _ m => Saves ⟨s, d⟩ m := by
  simp only [allocate, Op.ends_bind, Op.ends_attempt]
  refine Op.Ends.mono ((acquire_saves hs h).and (acquire_sound (d := d) hs)) fun r m hm => ?_
  obtain ⟨s', d'⟩ := m
  obtain ⟨hsaves, hsound⟩ := hm
  cases r using Checked.outcomes with
  | ok f =>
    have hnone : (s'.frame f).page = none := ((hsound.mem_free_iff f).mp List.mem_cons_self).1
    simp only [Op.attempted_ok, Op.then_ok, Op.ends_bind, Mounted.ends_observe, Op.ends_require]
    split
    · rw [Mounted.ends_update, Op.then_ok, Op.ends_bind, install, Mounted.ends_update, Op.then_ok]
      have hinstall := local_saves.trans hsaves (saves_install hnone ⟨UInt32.ofNat s'.nextId⟩ Page.zero)
      refine (guard_saves ?_ _ _).mono fun _ _ hguard => local_saves.trans hinstall hguard
      simp [Frame.loaded]
    · exact hsaves
  | error e => exact hsaves
  | abort a => exact hsaves

-- What a guard may have changed is marked when the guard is given back.
theorem unpin_saves (modified : Bool) {g : Guard n} {y : Frame} (hs : s.Sound c (g :: guards))
    (hy : y.page = some g.page) (hpins : y.pins = (s.frame g.frame).pins)
    (hunsaved : (s.frame g.frame).Unsaved → (y.dirty || modified) = true ∨ y.latch = .written) :
    (unpin g.page modified).Ends ⟨s.setFrame g.frame y, d⟩ fun _ m => Saves ⟨s, d⟩ m := by
  have hpage := (hs.table_iff _ _).mp (hs.guarded g List.mem_cons_self)
  have hsaves : Saves ⟨s, d⟩ ⟨s.setFrame g.frame
      { y with pins := y.pins - 1, dirty := y.dirty || modified }, d⟩ :=
    saves_same (hy.trans hpage.symm) hunsaved
  rw [ends_unpin_guard hs modified hpins rfl]
  split
  · exact hsaves
  · exact hsaves

theorem release_saves {g : Guard n} (hs : s.Sound c (g :: guards)) :
    (release g).Ends ⟨s, d⟩ fun _ m => Saves ⟨s, d⟩ m := by
  have hpage := (hs.table_iff _ _).mp (hs.guarded g List.mem_cons_self)
  unfold release
  cases g.access with
  | shared =>
    have hends := unpin_saves (d := d) false hs hpage rfl fun hf => hf.imp_left (by simp [·])
    rwa [setFrame_frame] at hends
  | exclusive =>
    simp only [Op.ends_bind, Mounted.ends_observe, Op.then_ok, Mounted.ends_update,
      modifyFrame_eq_setFrame]
    refine unpin_saves _ hs (y := { s.frame g.frame with latch := .idle }) hpage rfl fun hf => ?_
    rcases hf with hdirty | hwritten
    · exact Or.inl (by simp [hdirty])
    · exact Or.inl (by simp [hwritten])

theorem delete_saves (hs : s.Sound c guards) (h : Backed c d ⟨s, d⟩ guards M) (id : PageId) :
    (delete id).Ends ⟨s, d⟩ fun _ m => Saves ⟨s, d⟩ m := by
  simp only [delete, Op.ends_bind, Mounted.ends_observe, Op.then_ok]
  cases htable : s.table[id]? with
  | none => exact local_saves.refl _
  | some f =>
    have hpage := (hs.table_iff id f).mp htable
    simp only [Op.ends_bind, Mounted.ends_observe, Op.then_ok]
    cases hpins : (s.frame f).pins with
    | succ pins => exact local_saves.refl _
    | zero =>
      have hidle := (h.caches.shows f id hpage).not_written fun g hg hid =>
        absurd hid (hs.not_guarded hpage hpins g hg)
      have hvalid := ((owns_iff s id).mp (hs.owned f id hpage)).1
      simp only [Op.ends_bind]
      refine (writeBack_stores hvalid f s d).mono fun r m hm => ?_
      obtain ⟨s', d'⟩ := m
      obtain ⟨hgrows, hm⟩ := hm
      cases r with
      | ok _ =>
        obtain ⟨rfl, hstored⟩ := hm
        simp only [Op.then_ok, Op.ends_bind, Mounted.ends_update, setFrame_setFrame]
        exact saves_drop (s := s) hpage hidle hgrows hstored
      | error e =>
        obtain rfl := hm
        exact saves_store hgrows

theorem flush_saves (hs : s.Tabled c) (id : PageId) :
    (flush id).Ends ⟨s, d⟩ fun _ m => Saves ⟨s, d⟩ m := by
  rw [ends_flush]
  cases htable : s.table[id]? with
  | none => exact local_saves.refl _
  | some f =>
    have hpage := (hs.table_iff id f).mp htable
    have hvalid := ((owns_iff s id).mp (hs.owned f id hpage)).1
    dsimp only
    split
    · exact local_saves.refl _
    split
    · exact local_saves.refl _
    · refine (writeBack_stores hvalid f s d).mono fun r m hm => ?_
      obtain ⟨s', d'⟩ := m
      obtain ⟨hgrows, hm⟩ := hm
      cases r with
      | ok _ =>
        obtain ⟨rfl, hstored⟩ := hm
        refine saves_setFrame hgrows fun id' hid' hf => ?_
        rcases hf with hdirty | hwritten
        · obtain rfl := Option.some_inj.mp (hpage.symm.trans hid')
          exact Or.inr (hstored hdirty)
        · exact Or.inl ⟨hid', Or.inr hwritten⟩
      | error e =>
        obtain rfl := hm
        exact saves_store hgrows

theorem flushAll_saves (hs : s.Sound c guards) (walk : Walk) :
    (flushAll walk).Ends ⟨s, d⟩ fun _ m => Saves ⟨s, d⟩ m := by
  simp only [flushAll, Op.ends_bind, Mounted.ends_observe, Op.then_ok]
  refine Op.ends_forM (I := fun _ m => m.pool.Sound c guards ∧ Saves ⟨s, d⟩ m)
    (fun id _ m hm => ?_) (fun _ hm => hm.2) _ _ ⟨hs, local_saves.refl _⟩
  obtain ⟨s', d'⟩ := m
  rw [Op.ends_discard]
  refine Op.Ends.mono ((flush_sound (d := d') hm.1 id).and (flush_saves (d := d') hm.1.tabled id))
    fun r m' hm' => ?_
  have hsaves := local_saves.trans hm.2 hm'.2
  cases r with
  | ok b => exact ⟨hm'.1, hsaves⟩
  | error e => exact hsaves

theorem write_saves (s : Shard n) (d : D) (g : Guard n) (page : Page) :
    Saves ⟨s, d⟩ ⟨s.write g page, d⟩ := saves_same rfl fun _ => Or.inr rfl

omit [PageStore D] [LawfulStore D] [GrowingStore D] in
theorem write_unsaved (hs : s.Sound c guards) {g : Guard n} (hg : g ∈ guards) (page : Page) :
    (s.write g page).Unsaved g.page := by
  have hpage := (hs.table_iff _ _).mp (hs.guarded g hg)
  refine ⟨g.frame, ?_⟩
  simp only [write, modifyFrame_eq_setFrame, frame_setFrame, if_true]
  exact ⟨hpage, Or.inr rfl⟩

end Shard

namespace Pool

variable {n : Nat} {D : Type} [PageStore D] [LawfulStore D] [GrowingStore D]
  {m m' : Mounted (Pool n) D} {guards : List (Guard n)} {M : Memory} {w w' : Ledger}

namespace Kept

theorem fetch_saves (h : Kept m guards M) {id : PageId} {access : Access}
    (hadmits : Admits guards id access) :
    (Pool.fetch id access).Ends m fun _ m' => Each Shard.Saves m m' := by
  obtain ⟨c, others, hk, hsub, _⟩ := h.owner id
  exact each_onOwner Shard.local_saves id
    (Shard.fetch_saves hk.sound hk.backed fun g hg => hadmits g (hsub g hg))

theorem allocate_saves (h : Kept m guards M) :
    (Pool.allocate (D := D)).Ends m fun _ m' => Each Shard.Saves m m' :=
  h.allocate_each Shard.local_saves fun hk => Shard.allocate_saves hk.sound hk.backed

theorem delete_saves (h : Kept m guards M) (id : PageId) :
    (Pool.delete id).Ends m fun _ m' => Each Shard.Saves m m' := by
  obtain ⟨c, others, hk, _, _⟩ := h.owner id
  exact each_onOwner Shard.local_saves id (Shard.delete_saves hk.sound hk.backed id)

theorem release_saves {g : Guard n} (h : Kept m (g :: guards) M) :
    (Pool.release g).Ends m fun _ m' => Each Shard.Saves m m' := by
  obtain ⟨c, others, hk, _, hmem⟩ := h.owner g.page
  have hperm := List.perm_cons_erase (hmem g List.mem_cons_self rfl)
  exact each_onOwner Shard.local_saves g.page (Shard.release_saves (hk.perm hperm).sound)

theorem flushAll_saves (h : Kept m guards M) (walk : Walk) :
    (Pool.flushAll (D := D) walk).Ends m fun _ m' => Each Shard.Saves m m' :=
  h.flushAll_each Shard.local_saves fun hk => Shard.flushAll_saves hk.sound walk

end Kept

-- Every page that was written is unsaved, or else below the page count of the store.
structure Recorded (m : Mounted (Pool n) D) (w : Ledger) : Prop where
  counted : GrowingStore.Counted m.store
  written {id : PageId} {p : Page} : w.sheets id = some (.written p) →
    (m.pool.owner id).Unsaved id ∨ id.number < LawfulStore.count m.store

namespace Recorded

theorem after (h : Recorded m w) (hm : Each Shard.Saves m m') : Recorded m' w where
  counted := (hm ⟨0⟩ h.counted).1
  written {id p} hid := by
    obtain ⟨_, hle, hsaved⟩ := hm id h.counted
    rcases h.written hid with hunsaved | hless
    · exact hsaved id hunsaved
    · exact Or.inr (UInt32.lt_of_lt_of_le hless hle)

theorem refuse (h : Recorded m w) : Recorded m w.refuse := ⟨h.counted, h.written⟩

-- A new page is blank.
theorem allot (h : Recorded m w) (id : PageId) : Recorded m (w.allot id) where
  counted := h.counted
  written {other p} hp := by
    by_cases heq : other = id
    · rw [heq, Ledger.sheets_allot_self] at hp
      cases hp
    · rw [Ledger.sheets_allot_of_ne _ _ heq] at hp
      exact h.written hp

theorem put (h : Recorded m w) {id : PageId} (hid : (m.pool.owner id).Unsaved id) (page : Page) :
    Recorded m (w.put id page) where
  counted := h.counted
  written {other p} hp := by
    by_cases heq : other = id
    · subst heq
      exact Or.inl hid
    · rw [Ledger.sheets_put_of_ne _ _ _ heq] at hp
      exact h.written hp

end Recorded

theorem Kept.write_recorded (h : Kept m guards w.memory) (hw : Recorded m w) {g : Guard n}
    (hg : g ∈ guards) (page : Page) :
    Recorded ⟨m.pool.write g page, m.store⟩ (w.put g.page page) := by
  refine (hw.after (each_write Shard.local_saves g page
    (Shard.write_saves _ m.store g page))).put ?_ page
  obtain ⟨c, others, hk, _, hmem⟩ := h.owner g.page
  rw [owner_write]
  exact Shard.write_unsaved hk.sound (hmem g hg rfl) page

variable (n D) in
-- A pool over a growing store records what is written.
abbrev recording : LawfulPool (Mounted (Pool n) D) (Guard n) where
  access := Guard.access
  Kept m guards w := Kept m guards w.memory ∧ Recorded m w
  Spent m := m.pool.Spent
  Refuses _ := True
  fetch_ends {m _ _} h _ _ hp _ hjoins := by
    refine Op.Ends.mono ((ReadablePool.fetch_ends (s := m) h.1 hp hjoins).and
      (h.1.fetch_saves hjoins.admits)) fun _ _ hm' => ?_
    have hafter := h.2.after hm'.2
    exact Op.Answers.imp hm'.1 (fun _ hg => ⟨hg.1, hg.2, hafter⟩)
      fun _ he => ⟨he.1, he.2, hafter.refuse⟩
  allocate_ends {m _ _} h := by
    refine Op.Ends.mono ((LawfulPool.allocate_ends (s := m) h.1).and h.1.allocate_saves)
      fun _ _ hm' => ?_
    have hafter := h.2.after hm'.2
    exact hm'.1.imp (fun ha => ha) (fun g hg => ⟨hg.1, hg.2, hafter.allot g.page⟩)
      fun _ he => ⟨he.1, he.2, hafter.refuse⟩
  delete_ends {m _ _} h id := by
    refine Op.Ends.mono ((LawfulPool.delete_ends (s := m) h.1 id).and (h.1.delete_saves id))
      fun _ _ hm' => ?_
    have hafter := h.2.after hm'.2
    exact Op.Answers.imp hm'.1 (fun _ hb => ⟨hb, hafter⟩) fun _ he => ⟨he.1, he.2, hafter⟩
  read_eq h _ hg := h.1.read hg
  write_kept {m _ _} h g hg haccess page :=
    ⟨LawfulPool.write_kept (s := m) h.1 hg haccess page, h.1.write_recorded h.2 hg page⟩
  release_ends {m _ _ _} h := by
    refine Op.Ends.mono ((ReadablePool.release_ends (s := m) h.1).and h.1.release_saves)
      fun _ _ hm' => ?_
    exact ⟨hm'.1, h.2.after hm'.2⟩
  release_spent g m := release_spent g m

end Pool

end PagedIndex
