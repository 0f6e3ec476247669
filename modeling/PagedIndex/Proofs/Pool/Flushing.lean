import PagedIndex.Proofs.Pool.Transparency

namespace PagedIndex

-- An exclusive guard is live on the page.
def Writing (guards : List (Guard n)) (id : PageId) : Prop :=
  ∃ g ∈ guards, g.page = id ∧ g.access = .exclusive

theorem not_writing_iff {guards : List (Guard n)} {id : PageId} :
    ¬ Writing guards id ↔ ∀ g ∈ guards, g.page = id → g.access = .shared := by
  simp only [Writing, not_exists, not_and]
  refine forall₃_congr fun g _ _ => ?_
  cases g.access <;> simp

theorem writing_guardsOf {k : Nat} {guards : List (Guard n)} {id : PageId} {i : Nat}
    (hid : id.number.toNat % k = i) : Writing (guardsOf k i guards) id ↔ Writing guards id := by
  constructor
  · rintro ⟨g, hg, hpage, haccess⟩
    exact ⟨g, List.mem_of_mem_filter hg, hpage, haccess⟩
  · rintro ⟨g, hg, rfl, haccess⟩
    exact ⟨g, List.mem_filter.mpr ⟨hg, by simpa using hid⟩, rfl, haccess⟩

namespace Shard

variable {n : Nat} {D : Type} [PageStore D] [LawfulStore D] {c : ShardConfig} {s t u : Shard n}
  {d d' : D} {guards : List (Guard n)} {M : Memory} {cleaned : PageId → Prop}

-- The pages of `cleaned` are not marked dirty any more. Everything else is as it was.
structure Cleaned (cleaned : PageId → Prop) (s t : Shard n) : Prop where
  rest : t = { s with frames := t.frames }
  clean (f : Fin n) (id : PageId) : (s.frame f).page = some id → cleaned id →
    t.frame f = { s.frame f with dirty := false }
  same (f : Fin n) : (∀ id, (s.frame f).page = some id → ¬ cleaned id) → t.frame f = s.frame f

namespace Cleaned

theorem refl (s : Shard n) : Cleaned (fun _ => False) s s :=
  ⟨rfl, fun _ _ _ h => h.elim, fun _ _ => rfl⟩

theorem table_eq (h : Cleaned cleaned s t) : t.table = s.table := by rw [h.rest]

theorem queue_eq (h : Cleaned cleaned s t) : t.queue = s.queue := by rw [h.rest]

theorem frame_eq (h : Cleaned cleaned s t) (f : Fin n) :
    t.frame f = { s.frame f with dirty := (t.frame f).dirty } := by
  by_cases hf : ∃ id, (s.frame f).page = some id ∧ cleaned id
  · obtain ⟨id, hpage, hid⟩ := hf
    rw [h.clean f id hpage hid]
  · rw [h.same f fun id hpage hid => hf ⟨id, hpage, hid⟩]

-- Which pages are cleaned only matters for the pages in the frames.
theorem congr (h : Cleaned cleaned s t) {cleaned' : PageId → Prop}
    (hiff : ∀ f id, (s.frame f).page = some id → (cleaned' id ↔ cleaned id)) :
    Cleaned cleaned' s t where
  rest := h.rest
  clean f id hpage hid := h.clean f id hpage ((hiff f id hpage).mp hid)
  same f hnone := h.same f fun id hpage hid => hnone id hpage ((hiff f id hpage).mpr hid)

theorem trans (h : Cleaned cleaned s t) {cleaned' : PageId → Prop} (h' : Cleaned cleaned' t u) :
    Cleaned (fun id => cleaned id ∨ cleaned' id) s u where
  rest := by
    rw [h'.rest, h.rest]
  clean f id hpage hid := by
    have hpage' : (t.frame f).page = some id := by rw [h.frame_eq f, hpage]
    by_cases hnew : cleaned' id
    · rw [h'.clean f id hpage' hnew, h.frame_eq f]
    · rw [h'.same f fun id' hid' => by rwa [← Option.some_inj.mp (hpage'.symm.trans hid')],
        h.clean f id hpage (hid.resolve_right hnew)]
  same f hnone := by
    have hpage : (t.frame f).page = (s.frame f).page := by rw [h.frame_eq f]
    rw [h'.same f fun id hid hnew => hnone id (hpage ▸ hid) (Or.inr hnew),
      h.same f fun id hid hold => hnone id hid (Or.inl hold)]

theorem setFrame (hs : s.Tabled c) {f : Fin n} {id : PageId} (hpage : (s.frame f).page = some id) :
    Cleaned (· = id) s (s.setFrame f { s.frame f with dirty := false }) where
  rest := rfl
  clean f' id' hpage' hid := by
    obtain rfl := hs.frame_of_page hpage (hid ▸ hpage')
    rw [frame_setFrame, if_pos rfl]
  same f' hnone := by
    have hne : f ≠ f' := fun hf => hnone id (hf ▸ hpage) rfl
    rw [frame_setFrame, if_neg hne]

theorem isResident_eq (h : Cleaned cleaned s t) (id : PageId) :
    t.isResident id = s.isResident id := by
  rw [isResident, h.table_eq, isResident]

theorem pins?_eq (h : Cleaned cleaned s t) (id : PageId) : t.pins? id = s.pins? id := by
  rw [pins?, pins?, frameOf?, frameOf?, h.table_eq]
  cases s.table[id]? with
  | none => rfl
  | some f =>
    simp only [Option.map_some]
    rw [h.frame_eq f]

theorem isDirty?_of_cleaned (hs : s.Tabled c) (h : Cleaned cleaned s t) {id : PageId}
    (hid : cleaned id) : t.isDirty? id = (s.isDirty? id).map fun _ => false := by
  rw [isDirty?, isDirty?, frameOf?, frameOf?, h.table_eq]
  cases htable : s.table[id]? with
  | none => rfl
  | some f =>
    simp only [Option.map_some]
    rw [h.clean f id ((hs.table_iff id f).mp htable) hid]

theorem isDirty?_of_not (hs : s.Tabled c) (h : Cleaned cleaned s t) {id : PageId}
    (hid : ¬ cleaned id) : t.isDirty? id = s.isDirty? id := by
  rw [isDirty?, isDirty?, frameOf?, frameOf?, h.table_eq]
  cases htable : s.table[id]? with
  | none => rfl
  | some f =>
    have hpage := (hs.table_iff id f).mp htable
    simp only [Option.map_some]
    rw [h.same f fun id' hid' => by rwa [← Option.some_inj.mp (hpage.symm.trans hid')]]

end Cleaned

-- A page that is seen differently from the store is marked dirty, unless it is being written.
theorem Kept.isDirty? {m : Mounted (Shard n) D} (h : Kept c d m guards M) {id : PageId} {p : Page}
    (hvalid : id ≠ PageId.invalid) (hpart : id.number.toNat % m.pool.count = m.pool.index)
    (hp : M id = some p) (hwriting : ¬ Writing guards id) (hdiffers : LawfulStore.page m.store id ≠ p) :
    m.pool.isDirty? id = some true := by
  have hcaches := h.backed.caches
  have howns : m.pool.owns id := by
    refine (owns_iff _ id).mpr ⟨hvalid, hpart, Nat.lt_of_not_le fun hnext => ?_⟩
    rw [(hcaches.fresh id hpart hnext).1] at hp
    cases hp
  cases htable : m.pool.table[id]? with
  | none =>
    rw [hcaches.absent id howns htable] at hp
    exact absurd (Option.some_inj.mp hp) hdiffers
  | some f =>
    have hshows := hcaches.shows f id ((h.sound.table_iff id f).mp htable)
    rw [hshows.shown] at hp
    simp only [Shard.isDirty?, frameOf?, htable, Option.map_some, Option.some_inj]
    refine Bool.eq_true_of_not_eq_false fun hclean => hdiffers ?_
    rw [hshows.clean hclean (hshows.not_written (not_writing_iff.mp hwriting))]
    exact Option.some_inj.mp hp

-- A page that is marked dirty and that the store refuses.
structure Stuck (D : Type) [PageStore D] (M : Memory) (s : Shard n) (id : PageId) (e : StoreError) :
    Prop where
  dirty : s.isDirty? id = some true
  refused : ∃ p, M id = some p ∧
    ∃ d : D, (PageStore.writePage id p d).result = .error (.error e)

omit [LawfulStore D] in
-- A write-back fails as the store does, on a page that is marked dirty.
theorem writeBack_stuck {f : Fin n} {id : PageId} (htable : s.table[id]? = some f)
    (hshown : M id = some (s.frame f).bytes) (d : D) :
    (writeBack id f).Ends ⟨s, d⟩ fun r _ => ∀ e, r = .error (.error e) → s.Stuck D M id e := by
  rw [ends_writeBack]
  split
  · rename_i hdirty
    rw [Op.Ends]
    cases hresult : (PageStore.writePage id (s.frame f).bytes d).result with
    | ok u => exact nofun
    | error cause =>
      rintro e ⟨rfl⟩
      exact ⟨by simp [isDirty?, frameOf?, htable, hdirty], _, hshown, d, hresult⟩
  · exact nofun

-- A page is cleaned by a flush if it is resident and not being written.
theorem Kept.flush_cleaned (h : Kept c d ⟨s, d'⟩ guards M) (id : PageId) :
    (Shard.flush id).Ends ⟨s, d'⟩ <| Op.AnswersOr (fun m => m.pool = s ∧ Crowded id guards)
      (fun b m => (b = true ↔ s.isResident id ∧ ¬ Writing guards id) ∧
        Cleaned (fun id' => b = true ∧ id' = id) s m.pool)
      fun e m => m.pool = s ∧ ¬ Writing guards id ∧ s.Stuck D M id e := by
  rw [ends_flush]
  cases htable : s.table[id]? with
  | none =>
    have habsent : s.isResident id = false := by
      simp [isResident, Std.HashMap.contains_eq_isSome_getElem?, htable]
    exact ⟨by simp [habsent], (Cleaned.refl s).congr fun _ _ _ => by simp⟩
  | some f =>
    have hpage := (h.sound.table_iff id f).mp htable
    have hresident := isResident_of_table htable
    have hshows := h.backed.caches.shows f id hpage
    have hidle : (s.frame f).latch = .idle ↔ ¬ Writing guards id :=
      hshows.idle_iff.trans not_writing_iff.symm
    dsimp only
    split
    · rename_i hlimit
      exact ⟨rfl, (h.sound.crowded_iff hpage).mpr hlimit⟩
    split
    · rename_i hlatched
      exact ⟨by simp [hresident, ← hidle, hlatched.2], (Cleaned.refl s).congr fun _ _ _ => by simp⟩
    · rename_i hfree
      have hwriting : ¬ Writing guards id := by
        by_cases hpins : (s.frame f).pins = 0
        · exact not_writing_iff.mpr fun g hg hid =>
            absurd hid (h.sound.not_guarded hpage hpins g hg)
        · exact hidle.mp (not_not.mp fun hlatch => hfree ⟨hpins, hlatch⟩)
      refine Op.Ends.mono ((writeBack_stuck htable hshows.shown d').and
        (writeBack_backed h.sound.tabled h.backed hpage)) fun r m hm => ?_
      obtain ⟨s', d''⟩ := m
      obtain ⟨hstuck, hm⟩ := hm
      cases r using Checked.outcomes with
      | ok _ =>
        obtain ⟨_, rfl⟩ := hm
        exact ⟨by simp [hresident, hwriting],
          (Cleaned.setFrame h.sound.tabled hpage).congr fun _ _ _ => by simp⟩
      | error e => exact ⟨hm.2.2, hwriting, hstuck e rfl⟩
      | abort a => exact hm.elim

theorem mem_residents {f : Fin n} {id : PageId} (h : (s.frame f).page = some id) :
    id ∈ s.residents :=
  List.mem_filterMap.mpr ⟨s.frame f, Vector.mem_toList_iff.mpr (Vector.getElem_mem f.isLt), h⟩

omit [LawfulStore D] in
-- Such a page was not cleaned before.
theorem Stuck.of_cleaned (hs : s.Tabled c) (h : Cleaned cleaned s t) {id : PageId} {e : StoreError}
    (hstuck : t.Stuck D M id e) : ¬ cleaned id ∧ s.Stuck D M id e := by
  have hdirty := hstuck.dirty
  have hnot : ¬ cleaned id := by
    intro hid
    rw [h.isDirty?_of_cleaned hs hid] at hdirty
    simp at hdirty
  rw [h.isDirty?_of_not hs hnot] at hdirty
  exact ⟨hnot, hdirty, hstuck.refused⟩

-- A flush of all pages cleans those that are not being written. It may stop at a page that the
-- store refuses, or that has as many guards as can be counted.
theorem Kept.flushAll_cleaned (h : Kept c d ⟨s, d'⟩ guards M) (walk : Walk) :
    (Shard.flushAll (D := D) walk).Ends ⟨s, d'⟩ <| Op.AnswersOr
      (fun m => ∃ cleaned, Cleaned cleaned s m.pool ∧ (∀ id, cleaned id → ¬ Writing guards id) ∧
        ∃ id, Crowded id guards)
      (fun _ m => Cleaned (fun id => ¬ Writing guards id) s m.pool)
      fun e m => ∃ cleaned, Cleaned cleaned s m.pool ∧ (∀ id, cleaned id → ¬ Writing guards id) ∧
        ∃ id, ¬ cleaned id ∧ ¬ Writing guards id ∧ s.Stuck D M id e := by
  simp only [Shard.flushAll, Op.ends_bind, Mounted.ends_observe, Op.then_ok]
  -- the pages in frames whose turn is over are clean or being written
  refine Op.ends_forM (I := fun rest m => Kept c d m guards M ∧ ∃ cleaned,
    Cleaned cleaned s m.pool ∧ (∀ id, cleaned id → ¬ Writing guards id) ∧
    ∀ f id, (s.frame f).page = some id → id ∈ rest ∨ Writing guards id ∨ cleaned id)
    (fun id rest m hm => ?_) (fun m hm => ?_) _ _
    ⟨h, fun _ => False, Cleaned.refl s, fun _ => False.elim,
      fun f id hpage => Or.inl ((walk.perm _).mem_iff.mpr (mem_residents hpage))⟩
  · obtain ⟨s', d''⟩ := m
    obtain ⟨hkept, cleaned, hcleaned, hwriting, hover⟩ := hm
    rw [Op.ends_discard]
    refine Op.Ends.mono ((flush_sound hkept.sound id).and ((flush_backed hkept.sound hkept.backed
      id).and (hkept.flush_cleaned id))) fun r m hm => ?_
    obtain ⟨hsound, hbacked, hflush⟩ := hm
    cases r using Checked.outcomes with
    | ok b =>
      refine ⟨⟨hsound, hbacked⟩, _, hcleaned.trans hflush.2, ?_, fun f id' hpage => ?_⟩
      · rintro id' (hold | ⟨hb, rfl⟩)
        · exact hwriting id' hold
        · exact (hflush.1.mp hb).2
      · rcases hover f id' hpage with hmem | hrest
        · rcases List.mem_cons.mp hmem with rfl | hmem
          · by_cases hid : Writing guards id'
            · exact Or.inr (Or.inl hid)
            · have hresident : s'.isResident id' = true :=
                isResident_of_table (f := f) (by rw [hcleaned.table_eq, h.sound.table_iff]; exact hpage)
              exact Or.inr (Or.inr (Or.inr ⟨hflush.1.mpr ⟨hresident, hid⟩, rfl⟩))
          · exact Or.inl hmem
        · exact Or.inr (hrest.imp_right Or.inl)
    | error e =>
      obtain ⟨hsame, hid, hstuck⟩ := hflush
      obtain ⟨hnot, hstuck⟩ := hstuck.of_cleaned h.sound.tabled hcleaned
      exact ⟨cleaned, hsame ▸ hcleaned, hwriting, id, hnot, hid, hstuck⟩
    | abort a => exact ⟨cleaned, hflush.1 ▸ hcleaned, hwriting, id, hflush.2⟩
  · obtain ⟨_, cleaned, hcleaned, hwriting, hover⟩ := hm
    refine hcleaned.congr fun f id hpage => ⟨fun hid => ?_, hwriting id⟩
    exact ((hover f id hpage).resolve_left List.not_mem_nil).resolve_left hid

theorem isDirty?_owned (hs : s.Tabled c) {id : PageId} {b : Bool} (h : s.isDirty? id = some b) :
    s.owns id := by
  rw [isDirty?, frameOf?] at h
  cases htable : s.table[id]? with
  | none => simp [htable] at h
  | some f => exact hs.owned f id ((hs.table_iff id f).mp htable)

end Shard

namespace ShardedPool

variable {n k : Nat} {D : Type} [PageStore D] [LawfulStore D] {m : Mounted (ShardedPool n k) D}
  {guards : List (Guard n)} {M : Memory}

-- A page in a frame of a shard belongs to the shard.
theorem Kept.page_mod (h : Kept m guards M) {i : Fin k} {id : PageId}
    (howns : (m.pool.shards.get i).owns id) : id.number.toNat % k = i := by
  have hmod := ((Shard.owns_iff _ id).mp howns).2.1
  have hsound := (h.shard i).sound
  rwa [hsound.count_eq, hsound.index_eq] at hmod

-- One more shard is cleaned.
theorem Kept.set_cleaned (h : Kept m guards M) {shards : Vector (Shard n) k}
    {cleaned cleaned' : PageId → Prop}
    (hshards : ∀ j, Shard.Cleaned cleaned (m.pool.shards.get j) (shards.get j)) {i : Fin k}
    {t : Shard n} (ht : Shard.Cleaned cleaned' (shards.get i) t) (j : Fin k) :
    Shard.Cleaned (fun id => cleaned id ∨ id.number.toNat % k = i ∧ cleaned' id)
      (m.pool.shards.get j) ((shards.set i t i.isLt).get j) := by
  have hmod (f : Fin n) (id : PageId) (hpage : ((m.pool.shards.get j).frame f).page = some id) :
      id.number.toNat % k = j := h.page_mod ((h.shard j).sound.owned f id hpage)
  by_cases hij : i = j
  · subst hij
    rw [get_set_self]
    exact ((hshards i).trans ht).congr fun f id hpage => by simp [hmod f id hpage]
  · have hne : (i : Nat) ≠ j := fun heq => hij (Fin.ext heq)
    rw [get_set_of_ne _ hne]
    exact (hshards j).congr fun f id hpage => by simp [hmod f id hpage, hne.symm]

theorem Kept.flush_cleaned (h : Kept m guards M) (id : PageId) :
    (ShardedPool.flush id).Ends m <| Op.AnswersOr
      (fun m' => (∀ i, m'.pool.shards.get i = m.pool.shards.get i) ∧ Crowded id guards)
      (fun b m' => (b = true ↔ (m.pool.owner id).isResident id ∧ ¬ Writing guards id) ∧
        ∀ i, Shard.Cleaned (fun id' => b = true ∧ id' = id) (m.pool.shards.get i)
          (m'.pool.shards.get i))
      fun e m' => (∀ i, m'.pool.shards.get i = m.pool.shards.get i) ∧ ¬ Writing guards id ∧
        (m.pool.owner id).Stuck D M id e := by
  have hwriting : Writing (guardsOf k (m.pool.shardOf id) guards) id ↔ Writing guards id :=
    writing_guardsOf rfl
  rw [ShardedPool.flush, onOwner, Op.ends_bind, Mounted.ends_observe, Op.then_ok, ends_onShard]
  refine ((h.shard (m.pool.shardOf id)).flush_cleaned id).mono fun r t ht => ?_
  rw [hwriting] at ht
  have hsame (hpool : t.pool = m.pool.shards.get (m.pool.shardOf id)) (i : Fin k) :
      (m.pool.shards.set (m.pool.shardOf id) t.pool (m.pool.shardOf id).isLt).get i =
        m.pool.shards.get i := by
    rw [hpool]
    by_cases hi : (m.pool.shardOf id : Nat) = i
    · obtain rfl := Fin.ext hi
      exact get_set_self _ _ _
    · exact get_set_of_ne _ hi _
  refine ht.imp (fun ha => ⟨hsame ha.1, ha.2.of_guardsOf⟩) (fun b hb => ⟨hb.1, fun i => ?_⟩)
    fun e he => ⟨hsame he.1, he.2⟩
  refine (h.set_cleaned (fun j => Shard.Cleaned.refl _) hb.2 i).congr fun f id' _ => ?_
  rw [false_or]
  exact ⟨fun hid => ⟨hid.2 ▸ rfl, hid⟩, And.right⟩

theorem Kept.flushAll_cleaned (h : Kept m guards M) (walk : Walk) :
    (ShardedPool.flushAll (D := D) (n := n) (k := k) walk).Ends m <| Op.AnswersOr
      (fun m' => ∃ cleaned,
        (∀ i, Shard.Cleaned cleaned (m.pool.shards.get i) (m'.pool.shards.get i)) ∧
        (∀ id, cleaned id → ¬ Writing guards id) ∧ ∃ id, Crowded id guards)
      (fun _ m' => ∀ i, Shard.Cleaned (fun id => ¬ Writing guards id) (m.pool.shards.get i)
        (m'.pool.shards.get i))
      fun e m' => ∃ cleaned,
        (∀ i, Shard.Cleaned cleaned (m.pool.shards.get i) (m'.pool.shards.get i)) ∧
        (∀ id, cleaned id → ¬ Writing guards id) ∧
        ∃ id, ¬ cleaned id ∧ ¬ Writing guards id ∧ (m.pool.owner id).Stuck D M id e := by
  -- the shards whose turn is over are clean but for the pages that are being written
  refine Op.ends_forM (I := fun rest m' => Kept m' guards M ∧ ∃ cleaned,
    (∀ i, Shard.Cleaned cleaned (m.pool.shards.get i) (m'.pool.shards.get i)) ∧
    (∀ id, cleaned id → ¬ Writing guards id) ∧
    ∀ i : Fin k, i ∈ rest ∨ ∀ id : PageId, id.number.toNat % k = i → Writing guards id ∨ cleaned id)
    (fun i rest m' hm' => ?_) (fun m' hm' => ?_) _ _
    ⟨h, fun _ => False, fun i => Shard.Cleaned.refl _, fun _ => False.elim,
      fun i => Or.inl (List.mem_finRange i)⟩
  · obtain ⟨hkept, cleaned, hcleaned, hwriting, hover⟩ := hm'
    have hpart (id : PageId) (hid : id.number.toNat % k = i) :
        Writing (guardsOf k i guards) id ↔ Writing guards id := writing_guardsOf hid
    rw [ends_onShard]
    refine Op.Ends.mono (((hkept.shard i).flushAll walk).and
      ((hkept.shard i).flushAll_cleaned walk)) fun r t ht => ?_
    obtain ⟨hshard, ht⟩ := ht
    -- what the shard cleans is not being written, as its guards are those on its pages
    have hcleans {cleaned' : PageId → Prop}
        (hwriting' : ∀ id, cleaned' id → ¬ Writing (guardsOf k i guards) id) (id : PageId) :
        cleaned id ∨ id.number.toNat % k = i ∧ cleaned' id → ¬ Writing guards id := by
      rintro (hold | ⟨hid, hnew⟩)
      · exact hwriting id hold
      · exact (hpart id hid).not.mp (hwriting' id hnew)
    cases r using Checked.outcomes with
    | ok _ =>
      refine ⟨hkept.same hshard, _, h.set_cleaned hcleaned ht, hcleans fun _ hid => hid,
        fun j => ?_⟩
      by_cases hij : j = i
      · subst hij
        refine Or.inr fun id hid => ?_
        by_cases hw : Writing guards id
        · exact Or.inl hw
        · exact Or.inr (Or.inr ⟨hid, (hpart id hid).not.mpr hw⟩)
      · refine (hover j).imp (fun hj => ?_) fun hj id hid => (hj id hid).imp_right Or.inl
        exact (List.mem_cons.mp hj).resolve_left hij
    | error e =>
      obtain ⟨cleaned', hcleaned', hwriting', id, hnot, hid, hstuck⟩ := ht
      have hmod := hkept.page_mod (Shard.isDirty?_owned (hkept.shard i).sound.tabled hstuck.dirty)
      obtain ⟨hnot', hstuck'⟩ := hstuck.of_cleaned (h.shard i).sound.tabled (hcleaned i)
      obtain rfl : i = m.pool.shardOf id := Fin.ext hmod.symm
      refine ⟨_, h.set_cleaned hcleaned hcleaned', hcleans hwriting', id, ?_,
        (hpart id hmod).not.mp hid, hstuck'⟩
      rintro (hold | ⟨_, hnew⟩)
      · exact hnot' hold
      · exact hnot hnew
    | abort a =>
      obtain ⟨cleaned', hcleaned', hwriting', id, hcrowded⟩ := ht
      exact ⟨_, h.set_cleaned hcleaned hcleaned', hcleans hwriting', id, hcrowded.of_guardsOf⟩
  · obtain ⟨_, cleaned, hcleaned, hwriting, hover⟩ := hm'
    intro i
    refine (hcleaned i).congr fun f id hpage => ⟨fun hid => ?_, hwriting id⟩
    have hmod := h.page_mod ((h.shard i).sound.owned f id hpage)
    exact (((hover i).resolve_left List.not_mem_nil) id hmod).resolve_left hid

end ShardedPool

namespace Pool

variable {n : Nat} {D : Type} [PageStore D] [LawfulStore D] {m : Mounted (Pool n) D}
  {guards : List (Guard n)} {M : Memory}

-- The pages of `cleaned` are not marked dirty any more. The other marks, and which pages are
-- resident, pinned and next to be evicted, are as they were.
structure Cleaned (cleaned : PageId → Prop) (p q : Pool n) : Prop where
  resident_eq (id : PageId) : (q.owner id).isResident id = (p.owner id).isResident id
  pins_eq (id : PageId) : (q.owner id).pins? id = (p.owner id).pins? id
  queues_eq : q.shards.map (fun s => s.queue.toList) = p.shards.map fun s => s.queue.toList
  clean (id : PageId) : cleaned id →
    (q.owner id).isDirty? id = ((p.owner id).isDirty? id).map fun _ => false
  same (id : PageId) : ¬ cleaned id → (q.owner id).isDirty? id = (p.owner id).isDirty? id

theorem Cleaned.of_single {cleaned : PageId → Prop} {c : ShardConfig} {s t : Shard n}
    (hs : s.Tabled c) (h : s.Cleaned cleaned t) : Cleaned cleaned (single s) (single t) where
  resident_eq := h.isResident_eq
  pins_eq := h.pins?_eq
  queues_eq := by simp only [shards, List.map_cons, h.queue_eq]
  clean _ := h.isDirty?_of_cleaned hs
  same _ := h.isDirty?_of_not hs

theorem Cleaned.of_sharded {cleaned : PageId → Prop} {k : Nat} {p q : ShardedPool n k}
    (hp : ∀ i, ∃ c, (p.shards.get i).Tabled c)
    (h : ∀ i, (p.shards.get i).Cleaned cleaned (q.shards.get i)) :
    Cleaned cleaned (sharded k p) (sharded k q) where
  resident_eq id := (h (p.shardOf id)).isResident_eq id
  pins_eq id := (h (p.shardOf id)).pins?_eq id
  queues_eq := by
    refine List.ext_getElem (by simp [shards]) fun i hi _ => ?_
    have hk : i < k := by simpa [shards] using hi
    simp only [shards, List.getElem_map, Vector.getElem_toList]
    exact congrArg _ (h ⟨i, hk⟩).queue_eq
  clean id hid := (hp (p.shardOf id)).elim fun _ hs =>
    (h (p.shardOf id)).isDirty?_of_cleaned hs hid
  same id hid := (hp (p.shardOf id)).elim fun _ hs => (h (p.shardOf id)).isDirty?_of_not hs hid

theorem Cleaned.refl (p : Pool n) : Cleaned (fun _ => False) p p :=
  ⟨fun _ => rfl, fun _ => rfl, rfl, fun _ => False.elim, fun _ _ => rfl⟩

namespace Kept

-- A page that is seen differently from the store is marked dirty, unless it is being written.
theorem isDirty? (h : Kept m guards M) {id : PageId} {p : Page} (hp : M id = some p)
    (hwriting : ¬ Writing guards id) (hdiffers : LawfulStore.page m.store id ≠ p) :
    (m.pool.owner id).isDirty? id = some true := by
  have hserves : m.pool.Serves id := by
    by_contra hserves
    rw [h.served id hserves] at hp
    cases hp
  have hshards := h.shards
  obtain ⟨pool, store⟩ := m
  obtain ⟨hvalid, hpart⟩ := hserves
  cases pool with
  | single s =>
    obtain ⟨c, hc⟩ := hshards
    exact hc.isDirty? hvalid hpart hp hwriting hdiffers
  | sharded k p =>
    exact (ShardedPool.Kept.shard hshards (p.shardOf id)).isDirty? hvalid hpart hp
      ((writing_guardsOf rfl).not.mpr hwriting) hdiffers

theorem flush_cleaned (h : Kept m guards M) (id : PageId) :
    (Pool.flush id).Ends m <| Op.AnswersOr
      (fun m' => Cleaned (fun _ => False) m.pool m'.pool ∧ Crowded id guards)
      (fun b m' => (b = true ↔ (m.pool.owner id).isResident id ∧ ¬ Writing guards id) ∧
        Cleaned (fun id' => b = true ∧ id' = id) m.pool m'.pool)
      fun e m' => Cleaned (fun _ => False) m.pool m'.pool ∧ ¬ Writing guards id ∧
        (m.pool.owner id).Stuck D M id e := by
  have hshards := h.shards
  rw [Pool.flush, ends_byShape]
  obtain ⟨pool, store⟩ := m
  cases pool with
  | single s =>
    obtain ⟨c, hc⟩ := hshards
    refine (hc.flush_cleaned id).mono fun r t ht => ?_
    have hsame (hpool : t.pool = s) : Cleaned (fun _ => False) (single s) (single t.pool) :=
      hpool ▸ Cleaned.refl _
    exact ht.imp (fun ha => ⟨hsame ha.1, ha.2⟩)
      (fun b hb => ⟨hb.1, .of_single hc.sound.tabled hb.2⟩) fun e he => ⟨hsame he.1, he.2⟩
  | sharded k p =>
    have htabled (i : Fin k) := (ShardedPool.Kept.shard hshards i).sound.tabled
    refine (ShardedPool.Kept.flush_cleaned hshards id).mono fun r t ht => ?_
    have hsame (hshards : ∀ i, t.pool.shards.get i = p.shards.get i) :
        Cleaned (fun _ => False) (sharded k p) (sharded k t.pool) :=
      .of_sharded (fun i => ⟨_, htabled i⟩) fun i => hshards i ▸ Shard.Cleaned.refl _
    exact ht.imp (fun ha => ⟨hsame ha.1, ha.2⟩)
      (fun b hb => ⟨hb.1, .of_sharded (fun i => ⟨_, htabled i⟩) hb.2⟩)
      fun e he => ⟨hsame he.1, he.2⟩

theorem flushAll_cleaned (h : Kept m guards M) (walk : Walk) :
    (Pool.flushAll (D := D) walk).Ends m <| Op.AnswersOr
      (fun m' => ∃ cleaned, Cleaned cleaned m.pool m'.pool ∧
        (∀ id, cleaned id → ¬ Writing guards id) ∧ ∃ id, Crowded id guards)
      (fun _ m' => Cleaned (fun id => ¬ Writing guards id) m.pool m'.pool)
      fun e m' => ∃ cleaned, Cleaned cleaned m.pool m'.pool ∧
        (∀ id, cleaned id → ¬ Writing guards id) ∧
        ∃ id, ¬ cleaned id ∧ ¬ Writing guards id ∧ (m.pool.owner id).Stuck D M id e := by
  have hshards := h.shards
  rw [Pool.flushAll, ends_byShape]
  obtain ⟨pool, store⟩ := m
  cases pool with
  | single s =>
    obtain ⟨c, hc⟩ := hshards
    refine (hc.flushAll_cleaned walk).mono fun r t ht => ?_
    refine ht.imp ?_ (fun _ hcleaned => .of_single hc.sound.tabled hcleaned) fun e => ?_
    all_goals
      rintro ⟨cleaned, hcleaned, hrest⟩
      exact ⟨cleaned, .of_single hc.sound.tabled hcleaned, hrest⟩
  | sharded k p =>
    have htabled (i : Fin k) := (ShardedPool.Kept.shard hshards i).sound.tabled
    refine (ShardedPool.Kept.flushAll_cleaned hshards walk).mono fun r t ht => ?_
    refine ht.imp ?_ (fun _ hcleaned => .of_sharded (fun i => ⟨_, htabled i⟩) hcleaned) fun e => ?_
    all_goals
      rintro ⟨cleaned, hcleaned, hrest⟩
      exact ⟨cleaned, .of_sharded (fun i => ⟨_, htabled i⟩) hcleaned, hrest⟩

theorem owner_tabled (h : Kept m guards M) (id : PageId) : ∃ c, (m.pool.owner id).Tabled c := by
  have hshards := h.shards
  obtain ⟨pool, store⟩ := m
  cases pool with
  | single s => exact hshards.imp fun c hc => hc.sound.tabled
  | sharded k p => exact ⟨_, (ShardedPool.Kept.shard hshards (p.shardOf id)).sound.tabled⟩

-- A resident page is one of the memory, and is marked dirty or not.
theorem of_resident (h : Kept m guards M) {id : PageId} (hid : (m.pool.owner id).isResident id) :
    (∃ p, M id = some p) ∧ ∃ b, (m.pool.owner id).isDirty? id = some b := by
  obtain ⟨c, hs⟩ := h.owner_tabled id
  rw [Shard.isResident, Std.HashMap.contains_eq_isSome_getElem?, Option.isSome_iff_exists] at hid
  obtain ⟨f, htable⟩ := hid
  have howns := hs.owned f id ((hs.table_iff id f).mp htable)
  rw [← h.contents_eq, contents, Shard.contents, if_pos howns, Shard.isDirty?, Shard.frameOf?, htable]
  exact ⟨⟨_, rfl⟩, _, rfl⟩

-- The store has the pages that are not marked dirty.
theorem stored (h : Kept m guards M) {id : PageId} {p : Page} (hp : M id = some p)
    (hwriting : ¬ Writing guards id) (hclean : (m.pool.owner id).isDirty? id ≠ some true) :
    LawfulStore.page m.store id = p :=
  by_contra fun hdiffers => hclean (h.isDirty? hp hwriting hdiffers)

end Kept

-- A page that is seen differently from the store is marked dirty or being written. Flushing keeps
-- what is seen, and makes the store agree with it on the pages that it cleans. What it skips or
-- fails to write stays marked. It overflows only at a page with as many guards as can be counted.
theorem reached_flushes {m : Mounted (Pool n) D} {guards : List (Guard n)} {M : Memory}
    (h : Reached n m guards M) :
    (contents m = M ∧ ∀ id p, M id = some p → ¬ Writing guards id →
      LawfulStore.page m.store id ≠ p → (m.pool.owner id).isDirty? id = some true) ∧
    (∀ id, (flush id).Ends m <| Op.AnswersOr
      (fun m' => (contents m' = M ∧ Cleaned (fun _ => False) m.pool m'.pool) ∧ Crowded id guards)
      (fun flushed m' =>
        (flushed = true ↔ (m.pool.owner id).isResident id ∧ ¬ Writing guards id) ∧
        contents m' = M ∧ Cleaned (fun id' => flushed = true ∧ id' = id) m.pool m'.pool ∧
        (flushed = true → (m'.pool.owner id).isDirty? id = some false ∧
          M id = some (LawfulStore.page m'.store id)))
      fun _ m' => contents m' = M ∧ Cleaned (fun _ => False) m.pool m'.pool) ∧
    ∀ walk, (flushAll (D := D) walk).Ends m (Op.AnswersOr
      (fun m' => contents m' = M ∧ ∃ cleaned, Cleaned cleaned m.pool m'.pool ∧
        (∀ id, cleaned id → ¬ Writing guards id) ∧ ∃ id, Crowded id guards)
      (fun _ m' => contents m' = M ∧ Cleaned (fun id => ¬ Writing guards id) m.pool m'.pool ∧
        ∀ id p, M id = some p → ¬ Writing guards id → LawfulStore.page m'.store id = p)
      fun e m' => contents m' = M ∧ ∃ cleaned, Cleaned cleaned m.pool m'.pool ∧
        (∀ id, cleaned id → ¬ Writing guards id) ∧
        ∃ id, ¬ cleaned id ∧ ¬ Writing guards id ∧ (m.pool.owner id).Stuck D M id e) := by
  have hkept := h.kept
  refine ⟨⟨hkept.contents_eq, fun id p => hkept.isDirty?⟩, fun id => ?_, fun walk => ?_⟩
  · refine Op.Ends.mono ((hkept.flush id).and (hkept.flush_cleaned id)) fun r m' hm' => ?_
    obtain ⟨hm', hcleaned⟩ := hm'
    cases r using Checked.outcomes with
    | ok flushed =>
      obtain ⟨hiff, hcleaned⟩ := hcleaned
      refine ⟨hiff, hm'.contents_eq, hcleaned, fun hflushed => ?_⟩
      obtain ⟨hresident, hid⟩ := hiff.mp hflushed
      obtain ⟨⟨p, hp⟩, b, hb⟩ := hkept.of_resident hresident
      have hclean : (m'.pool.owner id).isDirty? id = some false := by
        rw [hcleaned.clean id ⟨hflushed, rfl⟩, hb]
        rfl
      exact ⟨hclean, by rw [hp, hm'.stored hp hid (by simp [hclean])]⟩
    | error e => exact ⟨hm'.2.contents_eq, hcleaned.1⟩
    | abort a => exact ⟨⟨hm'.2.contents_eq, hcleaned.1⟩, hcleaned.2⟩
  · refine Op.Ends.mono ((hkept.flushAll walk).and (hkept.flushAll_cleaned walk)) fun r m' hm' => ?_
    obtain ⟨hm', hcleaned⟩ := hm'
    cases r using Checked.outcomes with
    | ok _ =>
      refine ⟨hm'.contents_eq, hcleaned, fun id p hp hid => hm'.stored hp hid ?_⟩
      rw [hcleaned.clean id hid]
      simp
    | error e => exact ⟨hm'.2.contents_eq, hcleaned⟩
    | abort a => exact ⟨hm'.2.contents_eq, hcleaned⟩

-- One frame over an empty store: a page is allocated, written and released. After a flush the store
-- has it.
theorem reached_flushes_released :
    let start : Mounted (Pool 1) MemoryStore := ⟨.single (Shard.initial 1 1 0 1 0), .empty⟩
    let g : Guard 1 := ⟨⟨0⟩, 0, .exclusive⟩
    let written := ((PoolCall.write g (Page.fill 7)).run (PoolCall.allocate.run start).state).state
    let released := ((PoolCall.release g).run written).state
    let M := (((PoolShape.single 1 0 1).memory MemoryStore.empty).put ⟨0⟩ Page.zero).put ⟨0⟩
      (Page.fill 7)
    Reached 1 released [] M ∧ (flushAll (D := MemoryStore) .byFrame).Ends released (Op.Answers
      (fun _ m' => LawfulStore.page m'.store ⟨0⟩ = Page.fill 7) fun _ _ => True) := by
  intro start g written released M
  have hcreated : Reached 1 start [] ((PoolShape.single 1 0 1).memory MemoryStore.empty) :=
    .created (.single 1 0 1) (d := MemoryStore.empty) trivial
      (fun id _ => Std.HashMap.getD_empty) rfl
  have hwritten : Reached 1 written [g] M :=
    (hcreated.step .allocate trivial trivial nofun).step (.write g (Page.fill 7))
      ⟨List.mem_cons_self, rfl⟩ trivial nofun
  have hresult : (PoolCall.release g).run.Ends written fun r _ => r = .ok none := by
    rw [PoolCall.run, Op.ends_bind]
    refine hwritten.kept.release.mono fun r m' hm' => ?_
    rw [hm'.1]
    rfl
  have hreleased : Reached 1 released [] M := by
    have hreturns : ((PoolCall.release g).run written).result.Returns := by
      intro a ha
      rw [hresult] at ha
      cases ha
    have hstep := hwritten.step (.release g) List.mem_cons_self trivial hreturns
    rwa [hresult] at hstep
  have hM : M ⟨0⟩ = some (Page.fill 7) := Memory.put_self _ _ _
  have hfree : ¬ Writing ([] : List (Guard 1)) ⟨0⟩ := by
    rintro ⟨_, hg, _⟩
    exact List.not_mem_nil hg
  refine ⟨hreleased, Op.Ends.mono ((reached_flushes hreleased).2.2 .byFrame) fun r m' hm' => ?_⟩
  refine hm'.imp (fun ha => ?_) (fun _ hflushed => hflushed.2.2 ⟨0⟩ _ hM hfree) fun _ _ => trivial
  obtain ⟨-, -, -, -, id, hcrowded⟩ := ha
  exact not_crowded_of_forall_ne (fun _ hg => absurd hg List.not_mem_nil) hcrowded

end Pool

end PagedIndex
