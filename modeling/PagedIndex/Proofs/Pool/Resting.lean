import PagedIndex.Proofs.Pool.Saving

namespace PagedIndex

namespace Shard

variable {n : Nat} {D : Type} [PageStore D] [LawfulStore D] [ReliableStore D] {c : ShardConfig}
  {s : Shard n} {d d' : D} {guards : List (Guard n)} {M : Memory}

-- Nothing was written to since the pages were loaded.
def Clean (s : Shard n) : Prop := ∀ f, ¬ (s.frame f).Unsaved

-- There are frames with numbers, and the queue has room for all frames.
def Roomy (s : Shard n) : Prop := 0 < n % frameNumberLimit ∧ n ≤ s.queue.capacity

omit [PageStore D] [LawfulStore D] [ReliableStore D] in
theorem Clean.setFrame (h : s.Clean) {f : Fin n} {x : Frame} (hx : ¬ x.Unsaved) :
    (s.setFrame f x).Clean := by
  intro f'
  rw [frame_setFrame]
  split
  · exact hx
  · exact h f'

-- The shard keeps its room, and the store its page count.
structure Reads (m m' : Mounted (Shard n) D) : Prop where
  clean : m.pool.Clean → m'.pool.Clean
  capacity_eq : m'.pool.queue.capacity = m.pool.queue.capacity
  reliable : ReliableStore.Reliable m.store → ReliableStore.Reliable m'.store
  count_eq : LawfulStore.count m'.store = LawfulStore.count m.store

theorem local_reads : Local (Reads (n := n) (D := D)) where
  refl _ := ⟨id, rfl, id, rfl⟩
  trans h h' := ⟨h'.clean ∘ h.clean, h'.capacity_eq.trans h.capacity_eq, h'.reliable ∘ h.reliable,
    h'.count_eq.trans h.count_eq⟩
  elsewhere _ h := ⟨id, rfl, h.reliable, h.count_eq⟩

-- Without guards a frame is free or can be evicted.
theorem Sound.exists_spare (hs : s.Sound c []) (hroom : s.Roomy) :
    s.free ≠ [] ∨ s.queue.toList ≠ [] := by
  obtain ⟨hpos, hcapacity⟩ := hroom
  let f : Fin n := ⟨0, hpos.trans_le (Nat.mod_le n _)⟩
  by_cases hpage : (s.frame f).page = none
  · exact Or.inl (List.ne_nil_of_mem ((hs.mem_free_iff f).mpr ⟨hpage, hpos⟩))
  · obtain ⟨id, hid⟩ := Option.ne_none_iff_exists'.mp hpage
    exact Or.inr (List.ne_nil_of_mem
      (hs.evictable (hs.capacity_eq ▸ hcapacity) f hpage (hs.pins_eq f id hid)))

omit [LawfulStore D] [ReliableStore D] in
theorem acquire_reads (hs : s.Sound c guards) (hclean : s.Clean) :
    acquire.Ends ⟨s, d⟩ fun r m => (guards = [] → s.Roomy → ∃ f, r = .ok f) ∧ m.store = d ∧
      m.pool.Clean ∧ m.pool.queue.capacity = s.queue.capacity := by
  apply ends_acquire hs
  · exact fun f rest _ => ⟨fun _ _ => ⟨f, rfl⟩, rfl, hclean, rfl⟩
  · intro hfree hqueue
    refine ⟨fun hguards hroom => ?_, rfl, hclean, rfl⟩
    subst hguards
    exact ((hs.exists_spare hroom).elim (· hfree) (· hqueue)).elim
  · intro f id queue _ hpop _
    have hdirty : ¬ ((s.setQueue queue).frame f).dirty := fun hdirty => hclean f (Or.inl hdirty)
    rw [ends_writeBack, if_neg hdirty]
    exact ⟨fun _ _ => ⟨f, rfl⟩, rfl, Clean.setFrame (s := s.setQueue queue) hclean (hclean f),
      EvictionQueue.capacity_of_pop? hpop⟩

theorem pin_reads (hs : s.Sound c guards) (hclean : s.Clean) (hd : ReliableStore.Reliable d)
    {id : PageId} (howns : s.owns id) (hid : id.number < LawfulStore.count d) :
    (pin id).Ends ⟨s, d⟩ fun r m => (guards = [] → s.Roomy → ∃ f, r = .ok f) ∧ Reads ⟨s, d⟩ m := by
  cases htable : s.table[id]? with
  | some f =>
    rw [ends_pin_resident htable]
    split
    case isTrue =>
      exact ⟨fun _ _ => ⟨f, rfl⟩, fun _ => hclean.setFrame (hclean f),
        EvictionQueue.capacity_remove _ _, fun h => h, rfl⟩
    case isFalse hlimit =>
      refine ⟨fun hguards => ?_, local_reads.refl _⟩
      have hcrowded := (hs.crowded_iff ((hs.table_iff id f).mp htable)).mpr (Nat.le_of_not_lt hlimit)
      rw [hguards] at hcrowded
      exact absurd hcrowded (not_crowded_of_forall_ne nofun)
  | none =>
    simp only [pin, Op.ends_bind, Mounted.ends_observe, Op.then_ok, htable, howns, Bool.not_true,
      Bool.false_eq_true, if_false]
    refine (acquire_reads (d := d) hs hclean).mono fun r m hm => ?_
    obtain ⟨s', d'⟩ := m
    obtain ⟨hok, rfl, hclean', hcapacity⟩ := hm
    cases r using Checked.outcomes with
    | ok f =>
      simp only [Op.then_ok, Op.ends_bind, Op.ends_attempt, Mounted.ends_onStore]
      refine (ReliableStore.readPage_answers id d').mono fun r d'' hd'' => ?_
      obtain ⟨⟨bytes, rfl⟩, hreliable, hcount⟩ := hd'' hd hid
      refine ⟨fun _ _ => ⟨f, rfl⟩, fun _ => ?_, hcapacity, fun _ => hreliable, hcount⟩
      exact Clean.setFrame hclean' (by simp [Frame.Unsaved, Frame.loaded])
    | error e =>
      exact ⟨fun hguards hroom => absurd (hok hguards hroom) (by simp), fun _ => hclean', hcapacity,
        fun h => h, rfl⟩
    | abort a =>
      exact ⟨fun hguards hroom => absurd (hok hguards hroom) (by simp), fun _ => hclean', hcapacity,
        fun h => h, rfl⟩

theorem fetch_reads (hs : s.Sound c guards) (hclean : s.Clean) (hd : ReliableStore.Reliable d)
    {id : PageId} (howns : s.owns id) (hid : id.number < LawfulStore.count d) (access : Access) :
    (fetch id access).Ends ⟨s, d⟩ fun r m =>
      (guards = [] → s.Roomy → ∃ g, r = .ok g) ∧ Reads ⟨s, d⟩ m := by
  rw [fetch, Op.ends_bind]
  refine (pin_reads hs hclean hd howns hid).mono fun r m hm => ?_
  obtain ⟨s', d'⟩ := m
  obtain ⟨hok, hreads⟩ := hm
  cases r using Checked.outcomes with
  | ok f =>
    rw [Op.then_ok, guard]
    cases access with
    | exclusive =>
      refine ⟨fun _ _ => ⟨_, rfl⟩, fun _ => ?_, hreads.capacity_eq, hreads.reliable, hreads.count_eq⟩
      have hclean' := hreads.clean hclean
      refine hclean'.setFrame fun hf => hf.elim (fun hdirty => hclean' f (Or.inl hdirty)) fun hlatch => ?_
      cases hlatch
    | shared => exact ⟨fun _ _ => ⟨_, rfl⟩, hreads⟩
  | error e => exact ⟨fun hguards hroom => absurd (hok hguards hroom) (by simp), hreads⟩
  | abort a => exact ⟨fun hguards hroom => absurd (hok hguards hroom) (by simp), hreads⟩

-- A guard through which nothing was written leaves the frame clean.
theorem unpin_reads (modified : Bool) {g : Guard n} {y : Frame} (hs : s.Sound c (g :: guards))
    (hpins : y.pins = (s.frame g.frame).pins)
    (hy : s.Clean → (y.dirty || modified) = false ∧ y.latch ≠ .written) :
    (unpin g.page modified).Ends ⟨s.setFrame g.frame y, d⟩ fun _ m => Reads ⟨s, d⟩ m := by
  have hclean (hs : s.Clean) : (s.setFrame g.frame
      { y with pins := y.pins - 1, dirty := y.dirty || modified }).Clean := by
    obtain ⟨hdirty, hlatch⟩ := hy hs
    exact hs.setFrame fun hf => hf.elim (fun h => Bool.false_ne_true (hdirty.symm.trans h)) hlatch
  rw [ends_unpin_guard hs modified hpins rfl]
  split
  · exact ⟨hclean, EvictionQueue.capacity_push _ _, id, rfl⟩
  · exact ⟨hclean, rfl, id, rfl⟩

theorem release_reads {g : Guard n} (hs : s.Sound c (g :: guards)) :
    (release g).Ends ⟨s, d⟩ fun _ m => Reads ⟨s, d⟩ m := by
  have hframe (hclean : s.Clean) :
      (s.frame g.frame).dirty = false ∧ (s.frame g.frame).latch ≠ .written :=
    ⟨Bool.eq_false_iff.mpr fun hdirty => hclean g.frame (Or.inl hdirty),
      fun hwritten => hclean g.frame (Or.inr hwritten)⟩
  unfold release
  cases g.access with
  | shared =>
    have hends := unpin_reads (d := d) false hs rfl
      fun hclean => ⟨by simp [(hframe hclean).1], (hframe hclean).2⟩
    rwa [setFrame_frame] at hends
  | exclusive =>
    simp only [Op.ends_bind, Mounted.ends_observe, Op.then_ok, Mounted.ends_update,
      modifyFrame_eq_setFrame]
    exact unpin_reads _ hs (y := { s.frame g.frame with latch := .idle }) rfl
      fun hclean => ⟨by simp [hframe hclean], Latch.noConfusion⟩

end Shard

namespace Pool

variable {n : Nat} {D : Type} [PageStore D] [LawfulStore D] {m m' : Mounted (Pool n) D}
  {guards : List (Guard n)} {M : Memory}

theorem Kept.owns (h : Kept m guards M) {id : PageId} {p : Page} (hp : M id = some p) :
    (m.pool.owner id).owns id := by
  by_contra howns
  rw [← h.contents_eq, contents, Shard.contents, if_neg howns] at hp
  cases hp

variable [ReliableStore D]

-- All frames are as they were loaded from a store that answers, and it has the whole memory.
structure Rested (m : Mounted (Pool n) D) (M : Memory) : Prop where
  reliable : ReliableStore.Reliable m.store
  clean (id : PageId) : (m.pool.owner id).Clean
  roomy (id : PageId) : (m.pool.owner id).Roomy
  counted {id : PageId} {p : Page} : M id = some p → id.number < LawfulStore.count m.store

theorem Rested.after (h : Rested m M) (hm : Each Shard.Reads m m') : Rested m' M where
  reliable := (hm ⟨0⟩).reliable h.reliable
  clean id := (hm id).clean (h.clean id)
  roomy id := ⟨(h.roomy id).1, (hm id).capacity_eq ▸ (h.roomy id).2⟩
  counted hp := (hm ⟨0⟩).count_eq ▸ h.counted hp

theorem Kept.fetch_reads (h : Kept m guards M) (hm : Rested m M) {id : PageId} {p : Page}
    (hp : M id = some p) (access : Access) : (Pool.fetch id access).Ends m fun r m' =>
      (guards = [] → ∃ g, r = .ok g) ∧ Each Shard.Reads m m' := by
  obtain ⟨c, others, hk, hsub, _⟩ := h.owner id
  refine (ends_onOwner Shard.local_reads (P := fun r => guards = [] → ∃ g, r = .ok g) id ?_)
  refine (Shard.fetch_reads hk.sound (hm.clean id) hm.reliable (h.owns hp) (hm.counted hp)
    access).mono fun r t ht => ⟨fun hguards => ht.1 ?_ (hm.roomy id), ht.2⟩
  exact List.eq_nil_iff_forall_not_mem.mpr fun g hg => List.not_mem_nil (hguards ▸ hsub g hg)

theorem Kept.release_reads {g : Guard n} (h : Kept m (g :: guards) M) :
    (Pool.release g).Ends m fun _ m' => Each Shard.Reads m m' := by
  obtain ⟨c, others, hk, _, hmem⟩ := h.owner g.page
  have hperm := List.perm_cons_erase (hmem g List.mem_cons_self rfl)
  exact each_onOwner Shard.local_reads g.page (Shard.release_reads (hk.perm hperm).sound)

variable (n D) in
-- A rested pool refuses no page unless guards are live.
abbrev resting : ReadablePool (Mounted (Pool n) D) (Guard n) where
  access := Guard.access
  Kept m guards w := Kept m guards w.memory ∧ Rested m w.memory
  Spent _ := False
  Refuses guards := guards ≠ []
  fetch_ends {m _ _} h _ _ hp access hjoins := by
    refine Op.Ends.mono ((ReadablePool.fetch_ends (s := m) h.1 hp hjoins).and
      (h.1.fetch_reads h.2 hp access)) fun r _ hm' => ?_
    obtain ⟨hr, hok, hreads⟩ := hm'
    have hafter := h.2.after hreads
    cases r using Checked.outcomes with
    | ok g => exact ⟨hr.1, hr.2, hafter⟩
    | error e => exact ⟨⟨hr.1.1, fun hguards => (nomatch hok hguards)⟩, hr.2, hafter⟩
    | abort a => exact hr
  read_eq h _ hg := h.1.read hg
  release_ends {m _ _ _} h := by
    refine Op.Ends.mono ((ReadablePool.release_ends (s := m) h.1).and h.1.release_reads)
      fun _ _ hm' => ?_
    exact ⟨hm'.1, h.2.after hm'.2⟩
  release_spent _ _ := Op.ends_of_forall fun _ _ => id

end Pool

end PagedIndex
