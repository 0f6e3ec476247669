import PagedIndex.Proofs.Pool.Invariants
import PagedIndex.Proofs.Pool.Saving

namespace PagedIndex

-- What marks the frame has, it had before on the same page.
def Frame.Cooler (x y : Frame) : Prop := ∀ id, x.page = some id →
  (x.dirty = true → y.page = some id ∧ y.dirty = true) ∧
    (x.latch = .written → y.page = some id ∧ y.latch = .written)

theorem Frame.Cooler.of_clean {x : Frame} (hdirty : x.dirty = false) (hlatch : x.latch ≠ .written)
    (y : Frame) : x.Cooler y := fun _ _ =>
  ⟨fun h => absurd (h.symm.trans hdirty) (by decide), fun h => absurd h hlatch⟩

namespace Shard

variable {n : Nat} {D : Type} {s s' s'' : Shard n} {id : PageId}

-- The page is in a frame of which `P` holds.
def OnPage (s : Shard n) (id : PageId) (P : Frame → Prop) : Prop :=
  ∃ f, (s.frame f).page = some id ∧ P (s.frame f)

-- The page is marked dirty.
def Marked (s : Shard n) (id : PageId) : Prop := s.OnPage id fun x => x.dirty = true

-- The page was written through a guard that is live still.
def Altered (s : Shard n) (id : PageId) : Prop := s.OnPage id fun x => x.latch = .written

theorem unsaved_iff : s.Unsaved id ↔ s.Marked id ∨ s.Altered id := by
  constructor
  · rintro ⟨f, hpage, hdirty | hlatch⟩
    · exact Or.inl ⟨f, hpage, hdirty⟩
    · exact Or.inr ⟨f, hpage, hlatch⟩
  · rintro (⟨f, hpage, hdirty⟩ | ⟨f, hpage, hlatch⟩)
    · exact ⟨f, hpage, Or.inl hdirty⟩
    · exact ⟨f, hpage, Or.inr hlatch⟩

theorem Tabled.marked_iff {c : ShardConfig} (hs : s.Tabled c) :
    s.Marked id ↔ s.isDirty? id = some true := by
  simp only [Marked, OnPage, isDirty?, frameOf?, Option.map_map, Option.map_eq_some_iff]
  constructor
  · rintro ⟨f, hpage, hdirty⟩
    exact ⟨f, (hs.table_iff id f).mpr hpage, hdirty⟩
  · rintro ⟨f, htable, hdirty⟩
    exact ⟨f, (hs.table_iff id f).mp htable, hdirty⟩

-- No page has a mark that it did not have.
structure Cools (s s' : Shard n) : Prop where
  marked {id : PageId} : s'.Marked id → s.Marked id
  altered {id : PageId} : s'.Altered id → s.Altered id

namespace Cools

theorem refl (s : Shard n) : Cools s s := ⟨id, id⟩

theorem trans (h : Cools s s') (h' : Cools s' s'') : Cools s s'' :=
  ⟨h.marked ∘ h'.marked, h.altered ∘ h'.altered⟩

theorem setFrame {f : Fin n} {x : Frame} (hx : x.Cooler (s.frame f)) : Cools s (s.setFrame f x) := by
  constructor
  · rintro id ⟨f', hpage, hdirty⟩
    rw [frame_setFrame] at hpage hdirty
    split at hpage
    · rename_i hf
      rw [if_pos hf] at hdirty
      exact ⟨f, (hx id hpage).1 hdirty⟩
    · rename_i hf
      rw [if_neg hf] at hdirty
      exact ⟨f', hpage, hdirty⟩
  · rintro id ⟨f', hpage, hlatch⟩
    rw [frame_setFrame] at hpage hlatch
    split at hpage
    · rename_i hf
      rw [if_pos hf] at hlatch
      exact ⟨f, (hx id hpage).2 hlatch⟩
    · rename_i hf
      rw [if_neg hf] at hlatch
      exact ⟨f', hpage, hlatch⟩

-- Nothing but the frames matters.
theorem rest (h : Cools s s') (hframe : s''.frame = s'.frame) : Cools s s'' := by
  constructor
  · rintro id ⟨f, hf⟩
    exact h.marked ⟨f, hframe ▸ hf⟩
  · rintro id ⟨f, hf⟩
    exact h.altered ⟨f, hframe ▸ hf⟩

theorem clean (f : Fin n) {x : Frame} (hdirty : x.dirty = false) (hlatch : x.latch ≠ .written) :
    Cools s (s.setFrame f x) := setFrame (.of_clean hdirty hlatch _)

end Cools

-- The relation on shards over their stores.
abbrev Cooled (m m' : Mounted (Shard n) D) : Prop := Cools m.pool m'.pool

theorem local_cooled : Local (Cooled (n := n) (D := D)) where
  refl m := .refl m.pool
  trans h h' := h.trans h'
  elsewhere s _ := .refl s

section Keeps

variable {α : Type} {m₀ : Mounted (Shard n) D}

theorem cooled_observe {β : Type} {g : Shard n → β} {f : β → Op (Mounted (Shard n) D) α}
    (hf : ∀ b, Op.Keeps (Cooled m₀) (f b)) : Op.Keeps (Cooled m₀) (Mounted.observe g >>= f) :=
  Op.Keeps.bind (fun _ hm => hm) hf

theorem cooled_update {g : Shard n → Shard n} (hg : ∀ s, Cools s (g s)) :
    Op.Keeps (Cooled m₀) (Mounted.update g) := fun m hm => hm.trans (hg m.pool)

theorem cooled_change {g : Shard n → Shard n} {f : Unit → Op (Mounted (Shard n) D) α}
    (hf : Op.Keeps (Cooled m₀) (f ())) (hg : ∀ s, Cools s (g s)) :
    Op.Keeps (Cooled m₀) (Mounted.update g >>= f) := (cooled_update hg).bind fun _ => hf

theorem cooled_onStore (x : Op D α) :
    Op.Keeps (Cooled m₀) (Mounted.onStore x : Op (Mounted (Shard n) D) α) := fun _ hm => hm

theorem cooled_enqueue (f : Fin n) :
    Op.Keeps (Cooled m₀) (enqueue f : Op (Mounted (Shard n) D) Unit) := by
  intro m hm
  rw [ends_enqueue]
  exact hm.rest rfl

theorem cooled_guard (id : PageId) (access : Access) (f : Fin n) :
    Op.Keeps (Cooled m₀) (guard id access f : Op (Mounted (Shard n) D) (Guard n)) := by
  unfold guard
  split
  · exact cooled_change (Op.keeps_pure _) fun s =>
      .setFrame fun _ hpage => ⟨fun hdirty => ⟨hpage, hdirty⟩, nofun⟩
  · exact Op.keeps_pure _

variable [PageStore D]

theorem cooled_writeBack (id : PageId) (f : Fin n) :
    Op.Keeps (Cooled m₀) (writeBack id f : Op (Mounted (Shard n) D) Unit) := by
  refine cooled_observe fun frame => ?_
  split
  · refine (cooled_onStore _).bind fun _ => cooled_change (Op.keeps_report _) fun s => ?_
    exact .setFrame fun _ hpage => ⟨nofun, fun hlatch => ⟨hpage, hlatch⟩⟩
  · exact Op.keeps_pure _

theorem cooled_evict (f : Fin n) :
    Op.Keeps (Cooled m₀) (evict f : Op (Mounted (Shard n) D) Unit) := by
  refine cooled_observe fun page => ?_
  cases page with
  | none => exact Op.keeps_pure _
  | some id =>
    refine (cooled_writeBack id f).attempt.bind fun written => ?_
    cases written with
    | error e => exact (cooled_enqueue f).bind fun _ => Op.keeps_fail e
    | ok _ =>
      refine cooled_observe fun _ => (Op.keeps_report _).bind fun _ => cooled_update fun s => ?_
      have hvacated : Frame.Cooler { s.frame f with page := none } (s.frame f) := nofun
      exact (Cools.setFrame hvacated).rest rfl

theorem cooled_acquire :
    Op.Keeps (Cooled m₀) (acquire : Op (Mounted (Shard n) D) (Fin n)) := by
  refine cooled_observe fun free => ?_
  cases free with
  | cons f rest => exact cooled_change (Op.keeps_pure f) fun s => (Cools.refl s).rest rfl
  | nil =>
    refine cooled_observe fun popped => ?_
    cases popped with
    | none => exact Op.keeps_fail _
    | some popped =>
      refine cooled_change ?_ fun s => (Cools.refl s).rest rfl
      exact (cooled_evict popped.1).bind fun _ => Op.keeps_pure popped.1

omit [PageStore D] in
theorem cooled_install (id : PageId) (bytes : Page) (f : Fin n) :
    Op.Keeps (Cooled m₀) (install id bytes f : Op (Mounted (Shard n) D) Unit) :=
  cooled_update fun _ => (Cools.clean f (x := .loaded id bytes) rfl nofun).rest rfl

theorem cooled_pin (id : PageId) :
    Op.Keeps (Cooled m₀) (pin id : Op (Mounted (Shard n) D) (Fin n)) := by
  refine cooled_observe fun found => ?_
  cases found with
  | some f =>
    refine cooled_observe fun pins => (Op.keeps_liftM _).bind fun _ => ?_
    refine cooled_change (Op.keeps_pure f) fun s => ?_
    have hpinned : Frame.Cooler { s.frame f with pins := pins + 1 } (s.frame f) :=
      fun _ hpage => ⟨fun hdirty => ⟨hpage, hdirty⟩, fun hlatch => ⟨hpage, hlatch⟩⟩
    exact (Cools.setFrame hpinned).rest rfl
  | none =>
    refine cooled_observe fun owned => ?_
    split
    · intro m hm
      rw [Op.ends_bind, Op.ends_fail, Op.then_error]
      exact hm
    · refine cooled_acquire.bind fun f => (cooled_onStore _).attempt.bind fun loaded => ?_
      cases loaded with
      | error e => exact cooled_change (Op.keeps_fail e) fun s => (Cools.refl s).rest rfl
      | ok bytes => exact (cooled_install id bytes f).bind fun _ => Op.keeps_pure f

theorem cooled_fetch (id : PageId) (access : Access) :
    Op.Keeps (Cooled m₀) (fetch id access : Op (Mounted (Shard n) D) (Guard n)) :=
  (cooled_pin id).bind fun f => cooled_guard id access f

theorem cooled_allocate :
    Op.Keeps (Cooled m₀) (allocate : Op (Mounted (Shard n) D) (Guard n)) := by
  refine cooled_acquire.attempt.bind fun acquired => ?_
  cases acquired with
  | error e => exact cooled_observe fun _ => (Op.keeps_report _).bind fun _ => Op.keeps_fail e
  | ok f =>
    refine cooled_observe fun number => cooled_observe fun count => ?_
    refine (Op.keeps_liftM _).bind fun _ => cooled_change ?_ fun s => (Cools.refl s).rest rfl
    exact (cooled_install _ Page.zero f).bind fun _ => cooled_guard _ _ f

theorem cooled_delete (id : PageId) :
    Op.Keeps (Cooled m₀) (delete id : Op (Mounted (Shard n) D) Bool) := by
  refine cooled_observe fun found => ?_
  cases found with
  | none => exact Op.keeps_pure _
  | some f =>
    refine cooled_observe fun pins => ?_
    split
    · refine (cooled_writeBack id f).bind fun _ => cooled_change (Op.keeps_pure _) fun s => ?_
      exact (Cools.clean f (x := .empty) rfl nofun).rest rfl
    · exact (Op.keeps_report _).bind fun _ => Op.keeps_pure _

end Keeps

-- A guard on the page is given back. What was written through it is marked now.
structure Settles (page : PageId) (s s' : Shard n) : Prop where
  marked {id : PageId} : s'.Marked id → s.Marked id ∨ id = page ∧ s.Altered id
  altered {id : PageId} : s'.Altered id → s.Altered id
  unsaved {id : PageId} : s.Unsaved id → s'.Unsaved id

-- The page is written under a guard.
structure Alters (page : PageId) (s s' : Shard n) : Prop where
  marked {id : PageId} : s'.Marked id → s.Marked id
  altered {id : PageId} : s'.Altered id → s.Altered id ∨ id = page
  unsaved {id : PageId} : s.Unsaved id → s'.Unsaved id

theorem local_settles (page : PageId) :
    Local fun m m' : Mounted (Shard n) D => Settles page m.pool m'.pool where
  refl _ := ⟨Or.inl, id, id⟩
  trans h h' := by
    refine ⟨fun hid => ?_, h.altered ∘ h'.altered, h'.unsaved ∘ h.unsaved⟩
    rcases h'.marked hid with hid | ⟨hpage, hid⟩
    · exact h.marked hid
    · exact Or.inr ⟨hpage, h.altered hid⟩
  elsewhere _ _ := ⟨Or.inl, id, id⟩

theorem local_alters (page : PageId) :
    Local fun m m' : Mounted (Shard n) D => Alters page m.pool m'.pool where
  refl _ := ⟨id, Or.inl, id⟩
  trans h h' := ⟨h.marked ∘ h'.marked, fun hid => (h'.altered hid).elim h.altered Or.inr,
    h'.unsaved ∘ h.unsaved⟩
  elsewhere _ _ := ⟨id, Or.inl, id⟩

-- What is said of the frame of a page, if one frame is set.
theorem onPage_setFrame {f : Fin n} {x : Frame} {page : PageId} (hx : x.page = some page)
    (P : Frame → Prop) : (s.setFrame f x).OnPage id P ↔
      id = page ∧ P x ∨ ∃ f', f ≠ f' ∧ (s.frame f').page = some id ∧ P (s.frame f') := by
  constructor
  · rintro ⟨f', hpage, hP⟩
    rw [frame_setFrame] at hpage hP
    by_cases hf : f = f'
    · rw [if_pos hf] at hpage hP
      exact Or.inl ⟨Option.some_inj.mp (hpage.symm.trans hx), hP⟩
    · rw [if_neg hf] at hpage hP
      exact Or.inr ⟨f', hf, hpage, hP⟩
  · rintro (⟨rfl, hP⟩ | ⟨f', hf, hpage, hP⟩)
    · refine ⟨f, ?_⟩
      rw [frame_setFrame, if_pos rfl]
      exact ⟨hx, hP⟩
    · refine ⟨f', ?_⟩
      rw [frame_setFrame, if_neg hf]
      exact ⟨hpage, hP⟩

theorem onPage_iff {f : Fin n} {page : PageId} (hpage : (s.frame f).page = some page)
    (P : Frame → Prop) : s.OnPage id P ↔
      id = page ∧ P (s.frame f) ∨ ∃ f', f ≠ f' ∧ (s.frame f').page = some id ∧ P (s.frame f') := by
  have hiff : (s.setFrame f (s.frame f)).OnPage id P ↔ _ := onPage_setFrame hpage P
  rwa [setFrame_frame] at hiff

theorem Settles.of_frame {f : Fin n} {x : Frame} {page : PageId}
    (hpage : (s.frame f).page = some page) (hx : x.page = some page)
    (hdirty : x.dirty = true → (s.frame f).Unsaved)
    (hlatch : x.latch = .written → (s.frame f).latch = .written)
    (hunsaved : (s.frame f).Unsaved → x.Unsaved) : Settles page s (s.setFrame f x) := by
  refine ⟨fun hid => ?_, fun hid => ?_, fun hid => ?_⟩
  · rcases (onPage_setFrame hx _).mp hid with ⟨rfl, hmark⟩ | hothers
    · exact (hdirty hmark).imp (fun h => ⟨f, hpage, h⟩) fun h => ⟨rfl, f, hpage, h⟩
    · exact Or.inl ((onPage_iff hpage _).mpr (Or.inr hothers))
  · exact (onPage_iff hpage _).mpr
      (((onPage_setFrame hx _).mp hid).imp_left fun h => ⟨h.1, hlatch h.2⟩)
  · exact (onPage_setFrame hx _).mpr
      (((onPage_iff hpage _).mp hid).imp_left fun h => ⟨h.1, hunsaved h.2⟩)

theorem unpin_settles (modified : Bool) {c : ShardConfig} {guards : List (Guard n)} {d : D}
    {g : Guard n} {y : Frame} (hs : s.Sound c (g :: guards)) (hy : y.page = some g.page)
    (hpins : y.pins = (s.frame g.frame).pins)
    (hdirty : (y.dirty || modified) = true → (s.frame g.frame).Unsaved)
    (hlatch : y.latch = .written → (s.frame g.frame).latch = .written)
    (hunsaved : (s.frame g.frame).Unsaved → (y.dirty || modified) = true ∨ y.latch = .written) :
    (unpin g.page modified).Ends ⟨s.setFrame g.frame y, d⟩ fun _ m => Settles g.page s m.pool := by
  have hpage := (hs.table_iff _ _).mp (hs.guarded g List.mem_cons_self)
  have hsettles := Settles.of_frame
    (x := { y with pins := y.pins - 1, dirty := y.dirty || modified }) hpage hy hdirty hlatch hunsaved
  rw [ends_unpin_guard hs modified hpins rfl]
  split
  · exact ⟨hsettles.marked, hsettles.altered, hsettles.unsaved⟩
  · exact hsettles

-- Giving a guard back marks its page if it was written through the guard.
theorem release_settles {c : ShardConfig} {guards : List (Guard n)} {g : Guard n}
    (hs : s.Sound c (g :: guards)) (d : D) :
    (release g).Ends ⟨s, d⟩ fun _ m => Settles g.page s m.pool := by
  have hpage := (hs.table_iff _ _).mp (hs.guarded g List.mem_cons_self)
  unfold release
  cases g.access with
  | shared =>
    have hends := unpin_settles (d := d) false hs hpage rfl
      (fun hmark => Or.inl (by simpa using hmark)) (fun h => h) fun hf => hf.imp_left (by simp [·])
    rwa [setFrame_frame] at hends
  | exclusive =>
    simp only [Op.ends_bind, Mounted.ends_observe, Op.then_ok, Mounted.ends_update,
      modifyFrame_eq_setFrame]
    refine unpin_settles _ hs (y := { s.frame g.frame with latch := .idle }) hpage rfl
      (fun hmark => by simpa [Frame.Unsaved] using hmark) (fun h => by cases h) fun hf => Or.inl ?_
    simpa [Frame.Unsaved] using hf

-- A write goes to the page of the guard, and marks it only later.
theorem write_alters {c : ShardConfig} {guards : List (Guard n)} (hs : s.Sound c guards)
    {g : Guard n} (hg : g ∈ guards) (page : Page) : Alters g.page s (s.write g page) := by
  have hpage := (hs.table_iff _ _).mp (hs.guarded g hg)
  let x : Frame := { s.frame g.frame with bytes := page, latch := .written }
  have hx : x.page = some g.page := hpage
  change Alters g.page s (s.setFrame g.frame x)
  refine ⟨fun hid => ?_, fun hid => ?_, fun hid => ?_⟩
  · exact (onPage_iff hpage _).mpr ((onPage_setFrame hx _).mp hid)
  · rcases (onPage_setFrame hx _).mp hid with ⟨rfl, _⟩ | hothers
    · exact Or.inr rfl
    · exact Or.inl ((onPage_iff hpage _).mpr (Or.inr hothers))
  · exact (onPage_setFrame hx _).mpr
      (((onPage_iff hpage _).mp hid).imp_left fun h => ⟨h.1, Or.inr rfl⟩)

end Shard

namespace Pool

variable {n : Nat} {D : Type} [PageStore D] [LawfulStore D] {m : Mounted (Pool n) D}
  {guards : List (Guard n)} {M : Memory}

-- The page is marked dirty in the frame that it has.
def Marked (m : Mounted (Pool n) D) (id : PageId) : Prop :=
  (m.pool.owner id).isDirty? id = some true

omit [LawfulStore D] in
theorem fetch_cools (id : PageId) (access : Access) :
    (Pool.fetch id access).Ends m fun _ m' => Each Shard.Cooled m m' :=
  each_onOwner Shard.local_cooled id (Shard.cooled_fetch id access _ (.refl _))

omit [LawfulStore D] in
theorem delete_cools (id : PageId) :
    (Pool.delete id).Ends m fun _ m' => Each Shard.Cooled m m' :=
  each_onOwner Shard.local_cooled id (Shard.cooled_delete id _ (.refl _))

namespace Kept

theorem marked_iff (h : Kept m guards M) (id : PageId) :
    (m.pool.owner id).Marked id ↔ Marked m id := by
  obtain ⟨c, _, hk, _⟩ := h.owner id
  exact hk.sound.tabled.marked_iff

-- A page that was written is so under an exclusive guard.
theorem writing_of_altered (h : Kept m guards M) {id : PageId}
    (hid : (m.pool.owner id).Altered id) : ∃ g ∈ guards, g.page = id ∧ g.access = .exclusive := by
  obtain ⟨c, others, hk, hsub, _⟩ := h.owner id
  obtain ⟨f, hpage, hlatch⟩ := hid
  by_contra hnone
  refine (hk.backed.caches.shows f id hpage).not_written (fun g hg hid => ?_) hlatch
  cases haccess : g.access with
  | shared => rfl
  | exclusive => exact absurd ⟨g, hsub g hg, hid, haccess⟩ hnone

theorem allocate_cools (h : Kept m guards M) :
    (Pool.allocate (D := D)).Ends m fun _ m' => Each Shard.Cooled m m' :=
  h.allocate_each Shard.local_cooled fun {_ m _} _ => Shard.cooled_allocate m (.refl m.pool)

theorem release_settles {g : Guard n} (h : Kept m (g :: guards) M) : (Pool.release g).Ends m fun _ m' =>
    Each (fun m m' => Shard.Settles g.page m.pool m'.pool) m m' := by
  obtain ⟨c, others, hk, _, hmem⟩ := h.owner g.page
  have hperm := List.perm_cons_erase (hmem g List.mem_cons_self rfl)
  exact each_onOwner (Shard.local_settles g.page) g.page
    (Shard.release_settles (hk.perm hperm).sound m.store)

theorem write_alters (h : Kept m guards M) {g : Guard n} (hg : g ∈ guards) (page : Page) :
    Each (fun m m' => Shard.Alters g.page m.pool m'.pool) m ⟨m.pool.write g page, m.store⟩ := by
  obtain ⟨c, others, hk, _, hmem⟩ := h.owner g.page
  exact each_write (Shard.local_alters g.page) g page
    (Shard.write_alters hk.sound (hmem g hg rfl) page)

theorem write_unsaved (h : Kept m guards M) {g : Guard n} (hg : g ∈ guards) (page : Page) :
    ((m.pool.write g page).owner g.page).Unsaved g.page := by
  obtain ⟨c, others, hk, _, hmem⟩ := h.owner g.page
  rw [owner_write]
  exact Shard.write_unsaved hk.sound (hmem g hg rfl) page

end Kept

end Pool

end PagedIndex
