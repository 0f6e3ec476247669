import PagedIndex.Proofs.Pool.Caching

namespace PagedIndex

-- The errors that a pool over the store may give.
inductive PoolError (D : Type) [PageStore D] [LawfulStore D] : StoreError → Prop
  | poolFull : PoolError D .poolFull
  | pageNotFound (id : PageId) : PoolError D (.pageNotFound id)
  | store {e : StoreError} : LawfulStore.Gives D e → PoolError D e

theorem PoolError.not_ofIndex {D : Type} [PageStore D] [LawfulStore D] {e : StoreError}
    (h : PoolError D e) : ¬ e.OfIndex := by
  cases h with
  | poolFull => exact id
  | pageNotFound id => exact not_false
  | store h => exact LawfulStore.not_ofIndex h

namespace Shard

variable {n : Nat} {D : Type} [PageStore D] [LawfulStore D] {c : ShardConfig} {s : Shard n} {d : D}
  {guards : List (Guard n)} {M : Memory}

-- The shard caches the memory over its store, which `d` was before. The pages of other shards are
-- untouched.
structure Backed (c : ShardConfig) (d : D) (m : Mounted (Shard n) D) (guards : List (Guard n))
    (M : Memory) : Prop where
  store : LawfulStore.Sound m.store
  elsewhere (id : PageId) : id.number.toNat % c.count ≠ c.index →
    LawfulStore.page m.store id = LawfulStore.page d id
  caches : m.pool.Caches guards (LawfulStore.page m.store) M

namespace Backed

-- The store is read.
theorem same {m : Mounted (Shard n) D} {d' : D} (h : Backed c d m guards M)
    (hsound : LawfulStore.Sound d') (hdisk : LawfulStore.page d' = LawfulStore.page m.store) :
    Backed c d ⟨m.pool, d'⟩ guards M :=
  ⟨hsound, fun id hid => (congrFun hdisk id).trans (h.elsewhere id hid), hdisk ▸ h.caches⟩

-- The shard changes over the same store.
theorem change {m : Mounted (Shard n) D} {guards' : List (Guard n)} {M' : Memory} {s' : Shard n}
    (h : Backed c d m guards M) (hs' : s'.Caches guards' (LawfulStore.page m.store) M') :
    Backed c d ⟨s', m.store⟩ guards' M' := ⟨h.store, h.elsewhere, hs'⟩

end Backed

-- A write-back makes the store agree with the frame, or else leaves everything as it was.
theorem writeBack_backed {d' : D} (hs : s.Tabled c) (h : Backed c d ⟨s, d'⟩ guards M) {f : Fin n}
    {id : PageId} (hpage : (s.frame f).page = some id) :
    (writeBack id f).Ends ⟨s, d'⟩ <| Op.Answers
      (fun _ m => Backed c d m guards M ∧ m.pool = s.setFrame f { s.frame f with dirty := false })
      fun e m => PoolError D e ∧ Backed c d m guards M ∧ m.pool = s := by
  have howned := (owns_iff s id).mp (hs.owned f id hpage)
  rw [ends_writeBack]
  split
  · refine (LawfulStore.writePage_ends howned.1 (s.frame f).bytes h.store).mono fun r d'' hd => ?_
    cases r using Checked.outcomes with
    | ok _ =>
      obtain ⟨hsound, hdisk⟩ := hd
      have hshows := h.caches.shows f id hpage
      refine ⟨⟨hsound, fun id' hid' => ?_, ?_⟩, rfl⟩
      · have hne : id' ≠ id := by
          rintro rfl
          rw [hs.index_eq, hs.count_eq] at howned
          exact hid' howned.2.1
        rw [hdisk, Function.update_of_ne hne]
        exact h.elsewhere id' hid'
      · refine h.caches.setFrame hs hpage hpage ⟨hshows.shown, fun _ _ => ?_, hshows.writers⟩
          (fun id' hid' => ?_) (fun _ _ => rfl) fun _ _ => rfl
        · rw [hdisk, Function.update_self]
        · rw [hdisk, Function.update_of_ne hid']
    | error e =>
      obtain ⟨he, hsound, hdisk⟩ := hd
      exact ⟨.store he, h.same hsound hdisk, rfl⟩
    | abort a => exact hd
  · rename_i hclean
    exact ⟨h, (setFrame_clean (by simpa using hclean)).symm⟩

-- The store has the bytes of a page that was written back.
theorem Backed.clean {d' : D} {f : Fin n} {id : PageId}
    (h : Backed c d ⟨s.setFrame f { s.frame f with dirty := false }, d'⟩ guards M)
    (hpage : (s.frame f).page = some id) (hidle : (s.frame f).latch ≠ .written) :
    LawfulStore.page d' id = (s.frame f).bytes := by
  have hshows := h.caches.shows f id (by simpa using hpage)
  simp only [frame_setFrame, if_true] at hshows
  exact hshows.clean rfl hidle

theorem acquire_backed (hs : s.Sound c guards) (h : Backed c d ⟨s, d⟩ guards M) :
    acquire.Ends ⟨s, d⟩ <| Op.Answers (fun _ m => Backed c d m guards M)
      fun e m => PoolError D e ∧ Backed c d m guards M := by
  apply ends_acquire hs
  · exact fun f rest _ => h.change (h.caches.setFree rest)
  · exact fun _ _ => ⟨.poolFull, h⟩
  · intro f id queue _ hpop hpage
    have hpins : (s.frame f).pins = 0 := by
      refine (hs.queued f ?_).2
      rw [hs.queue.toList_of_pop? hpop]
      exact List.mem_cons_self
    have hidle := (h.caches.shows f id hpage).not_written fun g hg hid =>
      absurd hid (hs.not_guarded hpage hpins g hg)
    refine (writeBack_backed (hs.tabled.setQueue queue) (h.change (h.caches.setQueue queue))
      hpage).mono fun r m hm => ?_
    obtain ⟨s', d'⟩ := m
    cases r using Checked.outcomes with
    | ok _ =>
      obtain ⟨hbacked, rfl⟩ := hm
      have hdisk := hbacked.clean hpage hidle
      refine hbacked.change (hbacked.caches.drop (by simpa using hpage) rfl ?_)
      simpa using hdisk
    | error e =>
      obtain ⟨he, hbacked, rfl⟩ := hm
      exact ⟨he, hbacked.change (hbacked.caches.setQueue _)⟩
    | abort a => exact hm

theorem pin_backed (hs : s.Sound c guards) (h : Backed c d ⟨s, d⟩ guards M) (id : PageId) :
    (pin id).Ends ⟨s, d⟩ <| Op.AnswersOr (fun _ => Crowded id guards)
      (fun _ m => Backed c d m guards M) fun e m => PoolError D e ∧ Backed c d m guards M := by
  cases htable : s.table[id]? with
  | some f =>
    have hpage := (hs.table_iff id f).mp htable
    have hshows := h.caches.shows f id hpage
    rw [ends_pin_resident htable]
    split
    · exact h.change ((h.caches.setFrame hs.tabled
        (x := { s.frame f with pins := (s.frame f).pins + 1 }) hpage hpage
        ⟨hshows.shown, hshows.clean, hshows.writers⟩ (fun _ _ => rfl) (fun _ _ => rfl)
        fun _ _ => rfl).setQueue _)
    · rename_i hlimit
      exact (hs.crowded_iff hpage).mpr (Nat.le_of_not_lt hlimit)
  | none =>
    simp only [pin, Op.ends_bind, Mounted.ends_observe, Op.then_ok, htable]
    by_cases howns : s.owns id
    · simp only [howns, Bool.not_true, Bool.false_eq_true, if_false, Op.ends_bind]
      have hwriters : writersOn id guards = 0 :=
        (writersOn_eq_zero id guards).mpr fun g hg hid => absurd hid (hs.absent_page htable hg)
      refine Op.Ends.mono ((acquire_backed hs h).and (acquire_table (d := d) hs id))
        fun r m hm => ?_
      obtain ⟨s', d'⟩ := m
      obtain ⟨hbacked, habsent, howns'⟩ := hm
      cases r using Checked.outcomes with
      | ok f =>
        simp only [Op.then_ok, Op.ends_bind, Op.ends_attempt, Mounted.ends_onStore]
        refine (LawfulStore.readPage_ends id hbacked.store).mono fun r d'' hd => ?_
        cases r using Checked.outcomes with
        | ok bytes =>
          obtain ⟨rfl, hsound, hdisk⟩ := hd
          have hinstall := hbacked.caches.install (f := f) (howns' ▸ howns)
            (habsent htable) hwriters
          exact (hbacked.change hinstall).same hsound hdisk
        | error e =>
          obtain ⟨he, hsound, hdisk⟩ := hd
          have hread := hbacked.same hsound hdisk
          exact ⟨.store he, hread.change (hread.caches.setFree _)⟩
        | abort a => exact hd.elim
      | error e => exact hbacked
      | abort a => exact hbacked.elim
    · simp only [howns, Bool.not_false, if_true, Op.ends_bind, Op.ends_fail, Op.then_error]
      exact ⟨.pageNotFound id, h⟩

-- A guard is given out that is admitted beside the live ones.
theorem guard_backed {id : PageId} {f : Fin n} {access : Access} {m : Mounted (Shard n) D}
    (hs : m.pool.Tabled c) (h : Backed c d m guards M) (hpage : (m.pool.frame f).page = some id)
    (hadmits : Admits guards id access) :
    (guard id access f).Ends m fun r m' => r = .ok ⟨id, f, access⟩ ∧
      Backed c d m' (⟨id, f, access⟩ :: guards) M := by
  have hshared : ∀ g ∈ guards, g.page = id → g.access = .shared :=
    fun g hg hid => (hadmits g hg hid).1
  have hshows := h.caches.shows f id hpage
  unfold guard
  cases access with
  | exclusive =>
    refine ⟨rfl, h.change (h.caches.setFrame hs (x := { m.pool.frame f with latch := .held })
      hpage hpage ⟨hshows.shown, fun hclean _ => hshows.clean hclean (hshows.not_written hshared), ?_⟩
      (fun _ _ => rfl) (fun _ _ => rfl) fun id' hid' => writersOn_cons_of_ne guards (Ne.symm hid'))⟩
    rw [writersOn_cons_exclusive (g := ⟨id, f, .exclusive⟩) guards rfl,
      (writersOn_eq_zero id guards).mpr hshared]
    rfl
  | shared => exact ⟨rfl, h.change (h.caches.addGuard rfl)⟩

theorem fetch_backed (hs : s.Sound c guards) (h : Backed c d ⟨s, d⟩ guards M) {id : PageId}
    {access : Access} (hadmits : Admits guards id access) :
    (fetch id access).Ends ⟨s, d⟩ <| Op.AnswersOr (fun _ => Crowded id guards)
      (fun g m => Backed c d m (g :: guards) M) fun e m => PoolError D e ∧ Backed c d m guards M := by
  rw [fetch, Op.ends_bind]
  refine ((pin_sound hs id).and (pin_backed hs h id)).mono fun r m hm => ?_
  cases r using Checked.outcomes with
  | ok f =>
    have hsound := hm.1 access
    have hpage := (hsound.table_iff id f).mp (hsound.guarded _ List.mem_cons_self)
    rw [Op.then_ok]
    refine (guard_backed hsound.tabled hm.2 hpage hadmits).mono fun r m' hm' => ?_
    obtain ⟨rfl, hbacked⟩ := hm'
    exact hbacked
  | error e => exact hm.2
  | abort a => exact hm.2

-- The shard has no page id left to give out.
def Spent (s : Shard n) : Prop := pageIdLimit ≤ s.nextId + s.count

-- The next id is given out, with a page of zeroes in a frame that was acquired for it.
theorem Backed.give {f : Fin n} {d' : D} (hs : (s.setFree (f :: s.free)).Sound c guards)
    (h : Backed c d ⟨s, d'⟩ guards M) (hlimit : s.nextId + s.count < pageIdLimit) {id : PageId}
    (hid : id = ⟨UInt32.ofNat s.nextId⟩) {s' : Shard n}
    (hs' : s' = ((s.setNextId (s.nextId + s.count)).setFrame f
      (Frame.loaded id Page.zero)).enter id f) :
    M id = none ∧ id ≠ PageId.invalid ∧ Admits guards id .exclusive ∧ s'.Tabled c ∧
      (s'.frame f).page = some id ∧ Backed c d ⟨s', d'⟩ guards (M.put id Page.zero) := by
  subst hid hs'
  have hnumber := toNat_nextId hlimit
  have hindex : s.nextId % s.count = s.index := hs.nextId_index
  obtain ⟨hnone, hzero⟩ := h.caches.fresh ⟨UInt32.ofNat s.nextId⟩ (by rwa [hnumber])
    (by rw [hnumber])
  have habsent : s.table[(⟨UInt32.ofNat s.nextId⟩ : PageId)]? = none := hs.nextId_absent hlimit
  have howns : (s.setNextId (s.nextId + s.count)).owns ⟨UInt32.ofNat s.nextId⟩ :=
    hs.owns_nextId hlimit
  have htabled : s.Tabled c := ⟨hs.index_eq, hs.count_eq, hs.table_iff, hs.owned⟩
  have hpos : 0 < s.count := hs.count_pos
  have hextend := h.caches.extend htabled hpos hindex hlimit
  have hnew (g : Guard n) (hg : g ∈ guards) : g.page ≠ ⟨UInt32.ofNat s.nextId⟩ :=
    hs.absent_page habsent hg
  have hinstall := hextend.install (f := f) howns habsent
    ((writersOn_eq_zero _ _).mpr fun g hg hid => absurd hid (hnew g hg))
  rw [hzero] at hinstall
  have hnext : Sound c ((s.setNextId (s.nextId + s.count)).setFree (f :: s.free)) guards :=
    hs.setNextId
  exact ⟨hnone, ((owns_iff _ _).mp howns).1, fun g hg hid => absurd hid (hnew g hg),
    (hnext.install habsent howns Page.zero .exclusive).tabled, by simp [Frame.loaded],
    h.change hinstall⟩

theorem allocate_backed (hs : s.Sound c guards) (h : Backed c d ⟨s, d⟩ guards M) :
    allocate.Ends ⟨s, d⟩ <| Op.AnswersOr (fun m => m.pool.Spent)
      (fun g m => M g.page = none ∧ g.page ≠ PageId.invalid ∧
        Backed c d m (g :: guards) (M.put g.page Page.zero))
      fun e m => PoolError D e ∧ Backed c d m guards M := by
  simp only [allocate, Op.ends_bind, Op.ends_attempt]
  refine ((acquire_sound hs).and (acquire_backed hs h)).mono fun r m hm => ?_
  obtain ⟨s', d'⟩ := m
  cases r using Checked.outcomes with
  | ok f =>
    simp only [Op.attempted_ok, Op.then_ok, Op.ends_bind, Mounted.ends_observe, Op.ends_require]
    split
    · rename_i hlimit
      obtain ⟨hnone, hvalid, hadmits, htabled, hpage, hbacked⟩ := hm.2.give hm.1 hlimit rfl rfl
      rw [Mounted.ends_update, Op.then_ok, Op.ends_bind, install, Mounted.ends_update, Op.then_ok]
      refine (guard_backed htabled hbacked hpage hadmits).mono fun r m' hm' => ?_
      obtain ⟨rfl, hguard⟩ := hm'
      exact ⟨hnone, hvalid, hguard⟩
    · rename_i hlimit
      exact Nat.le_of_not_lt hlimit
  | error e => exact hm.2
  | abort a => exact hm.2.elim

-- A guard is given back, and its frame has the bytes of its page still.
theorem unpin_backed (modified : Bool) {g : Guard n} {d' : D} {x y : Frame}
    (hs : s.Sound c (g :: guards)) (h : Backed c d ⟨s, d'⟩ (g :: guards) M)
    (hy : y.page = some g.page) (hpins : y.pins = (s.frame g.frame).pins)
    (hx : x = { y with pins := y.pins - 1, dirty := y.dirty || modified })
    (hshows : x.Shows g.page guards (LawfulStore.page d') M) :
    (unpin g.page modified).Ends ⟨s.setFrame g.frame y, d'⟩ fun r m =>
      r = .ok () ∧ Backed c d m guards M := by
  have hpage := (hs.table_iff _ _).mp (hs.guarded g List.mem_cons_self)
  have hnew : (s.setFrame g.frame x).Caches guards (LawfulStore.page d') M := by
    exact h.caches.setFrame hs.tabled hpage (hx ▸ hy) hshows (fun _ _ => rfl) (fun _ _ => rfl)
      fun id' hid' => (writersOn_cons_of_ne guards (Ne.symm hid')).symm
  rw [ends_unpin_guard hs modified hpins hx]
  refine ⟨rfl, ?_⟩
  split
  · exact h.change (hnew.setQueue _)
  · exact h.change hnew

theorem release_backed {g : Guard n} (hs : s.Sound c (g :: guards))
    (h : Backed c d ⟨s, d⟩ (g :: guards) M) :
    (release g).Ends ⟨s, d⟩ fun r m => r = .ok () ∧ Backed c d m guards M := by
  have hpage := (hs.table_iff _ _).mp (hs.guarded g List.mem_cons_self)
  have hshows := h.caches.shows _ _ hpage
  unfold release
  cases haccess : g.access with
  | shared =>
    have hends := unpin_backed false hs h hpage rfl rfl ⟨hshows.shown,
      fun hclean => hshows.clean (by simpa using hclean),
      (writersOn_cons_shared _ _ haccess).symm.trans hshows.writers⟩
    rwa [setFrame_frame] at hends
  | exclusive =>
    simp only [Op.ends_bind, Mounted.ends_observe, Op.then_ok, Mounted.ends_update,
      modifyFrame_eq_setFrame]
    refine unpin_backed _ hs h (y := { s.frame g.frame with latch := .idle }) hpage rfl rfl
      ⟨hshows.shown, fun hclean _ => ?_, ?_⟩
    · -- a frame that was written through the guard is marked dirty now
      simp only [Bool.or_eq_false_iff, beq_eq_false_iff_ne] at hclean
      exact hshows.clean hclean.1 hclean.2
    · have hwriters := hshows.writers
      rw [writersOn_cons_exclusive guards haccess] at hwriters
      rw [if_pos rfl]
      split at hwriters <;> omega

theorem write_backed {g : Guard n} {d' : D} (hs : s.Sound c guards)
    (h : Backed c d ⟨s, d'⟩ guards M) (hg : g ∈ guards) (haccess : g.access = .exclusive)
    (page : Page) : Backed c d ⟨s.write g page, d'⟩ guards (M.put g.page page) := by
  have hpage := (hs.table_iff _ _).mp (hs.guarded g hg)
  refine h.change (h.caches.setFrame hs.tabled hpage hpage
    ⟨M.put_self _ _, fun _ hlatch => absurd rfl hlatch, ?_⟩
    (fun _ _ => rfl) (fun _ hid => M.put_of_ne page hid) fun _ _ => rfl)
  have hshows := h.caches.shows _ _ hpage
  have hlatched : (s.frame g.frame).latch ≠ .idle := fun hidle => by
    have hshared := hshows.idle_iff.mp hidle g hg rfl
    rw [haccess] at hshared
    cases hshared
  rw [hshows.writers, if_neg hlatched]
  rfl

-- A guard shows what the memory has for its page.
theorem read_backed {g : Guard n} {m : Mounted (Shard n) D} (hs : m.pool.Sound c guards)
    (h : Backed c d m guards M) (hg : g ∈ guards) : M g.page = some (m.pool.read g) :=
  (h.caches.shows _ _ ((hs.table_iff _ _).mp (hs.guarded g hg))).shown

theorem flush_backed {d' : D} (hs : s.Sound c guards) (h : Backed c d ⟨s, d'⟩ guards M)
    (id : PageId) :
    (flush id).Ends ⟨s, d'⟩ <| Op.AnswersOr (fun m => Crowded id guards ∧ Backed c d m guards M)
      (fun _ m => Backed c d m guards M) fun e m => PoolError D e ∧ Backed c d m guards M := by
  rw [ends_flush]
  cases htable : s.table[id]? with
  | none => exact h
  | some f =>
    have hpage := (hs.table_iff id f).mp htable
    dsimp only
    split
    · rename_i hlimit
      exact ⟨(hs.crowded_iff hpage).mpr hlimit, h⟩
    split
    · exact h
    · refine (writeBack_backed hs.tabled h hpage).mono fun r m hm => ?_
      cases r using Checked.outcomes with
      | ok _ => exact hm.1
      | error e => exact ⟨hm.1, hm.2.1⟩
      | abort a => exact hm.elim

theorem flushAll_backed (hs : s.Sound c guards) (h : Backed c d ⟨s, d⟩ guards M) (walk : Walk) :
    (flushAll walk).Ends ⟨s, d⟩ <| Op.AnswersOr
      (fun m => (∃ id, Crowded id guards) ∧ Backed c d m guards M)
      (fun _ m => Backed c d m guards M) fun e m => PoolError D e ∧ Backed c d m guards M := by
  simp only [flushAll, Op.ends_bind, Mounted.ends_observe, Op.then_ok]
  refine Op.ends_forM (I := fun _ m => m.pool.Sound c guards ∧ Backed c d m guards M)
    (fun id _ m hm => ?_) (fun _ hm => hm.2) _ _ ⟨hs, h⟩
  rw [Op.ends_discard]
  refine ((flush_sound hm.1 id).and (flush_backed hm.1 hm.2 id)).mono fun r m' hm' => ?_
  cases r using Checked.outcomes with
  | ok b => exact hm'
  | error e => exact hm'.2
  | abort a => exact ⟨⟨id, hm'.2.1⟩, hm'.2.2⟩

theorem delete_backed (hs : s.Sound c guards) (h : Backed c d ⟨s, d⟩ guards M) (id : PageId) :
    (delete id).Ends ⟨s, d⟩ <| Op.Answers (fun _ m => Backed c d m guards M)
      fun e m => PoolError D e ∧ Backed c d m guards M := by
  simp only [delete, Op.ends_bind, Mounted.ends_observe, Op.then_ok]
  cases htable : s.table[id]? with
  | none => exact h
  | some f =>
    have hpage := (hs.table_iff id f).mp htable
    simp only [Op.ends_bind, Mounted.ends_observe, Op.then_ok]
    cases hpins : (s.frame f).pins with
    | succ pins => exact h
    | zero =>
      have hidle := (h.caches.shows f id hpage).not_written fun g hg hid =>
        absurd hid (hs.not_guarded hpage hpins g hg)
      simp only [Op.ends_bind]
      refine (writeBack_backed hs.tabled h hpage).mono fun r m hm => ?_
      obtain ⟨s', d'⟩ := m
      cases r using Checked.outcomes with
      | ok _ =>
        obtain ⟨hbacked, rfl⟩ := hm
        have hdisk := hbacked.clean hpage hidle
        have hdrop := hbacked.caches.drop (x := Frame.empty) (f := f) (by simpa using hpage) rfl
          (by simpa using hdisk)
        exact hbacked.change ((hdrop.setQueue _).setFree _)
      | error e => exact ⟨hm.1, hm.2.1⟩
      | abort a => exact hm

end Shard

end PagedIndex
