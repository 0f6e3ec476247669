import Mathlib.Data.Fintype.Card
import Mathlib.Data.List.Nodup
import PagedIndex.Proofs.Pool.Frames

namespace PagedIndex

-- What a shard is created with, and keeps.
structure ShardConfig where
  index : Nat
  count : Nat
  queueCapacity : Nat

-- The number of guards on a page.
def pinsOn (id : PageId) (guards : List (Guard n)) : Nat := guards.countP fun g => g.page = id

@[simp] theorem pinsOn_cons (id : PageId) (g : Guard n) (guards : List (Guard n)) :
    pinsOn id (g :: guards) = pinsOn id guards + if g.page = id then 1 else 0 := by
  simp [pinsOn, List.countP_cons]

theorem pinsOn_eq_zero (id : PageId) (guards : List (Guard n)) :
    pinsOn id guards = 0 ↔ ∀ g ∈ guards, g.page ≠ id := by
  simp [pinsOn, List.countP_eq_zero]

-- One more guard on the page could not be counted.
def Crowded (id : PageId) (guards : List (Guard n)) : Prop :=
  Shard.pinLimit ≤ pinsOn id guards + 1

theorem not_crowded_of_forall_ne {id : PageId} {guards : List (Guard n)}
    (h : ∀ g ∈ guards, g.page ≠ id) : ¬ Crowded id guards := by
  rw [Crowded, (pinsOn_eq_zero id guards).mpr h]
  decide

namespace Shard

variable {n : Nat} {D : Type} {c : ShardConfig} {s : Shard n} {guards : List (Guard n)}

-- How the table, the frames, the free list and the eviction queue of a shard fit together and with
-- the guards that are live.
structure Sound (c : ShardConfig) (s : Shard n) (guards : List (Guard n)) : Prop where
  index_eq : s.index = c.index
  count_eq : s.count = c.count
  capacity_eq : s.queue.capacity = c.queueCapacity
  index_lt : c.index < c.count
  nextId_mod : s.nextId % c.count = c.index
  queue : s.queue.Sound
  -- the table and the pages of the frames are inverse to each other
  table_iff (id : PageId) (f : Fin n) : s.table[id]? = some f ↔ (s.frame f).page = some id
  -- the free frames are those without a page, as far as the frames have numbers
  free_nodup : s.free.Nodup
  mem_free_iff (f : Fin n) : f ∈ s.free ↔ (s.frame f).page = none ∧ Numbered f
  numbered (f : Fin n) : (s.frame f).page ≠ none → Numbered f
  unused (f : Fin n) : (s.frame f).page = none → (s.frame f).pins = 0 ∧ (s.frame f).dirty = false
  -- a resident page has a pin for every guard on it, and a page with a guard is resident
  pins_eq (f : Fin n) (id : PageId) :
    (s.frame f).page = some id → (s.frame f).pins = pinsOn id guards
  pins_lt (f : Fin n) : (s.frame f).pins < pinLimit
  guarded (g : Guard n) : g ∈ guards → s.table[g.page]? = some g.frame
  queued (f : Fin n) : f ∈ s.queue.toList → (s.frame f).page ≠ none ∧ (s.frame f).pins = 0
  owned (f : Fin n) (id : PageId) : (s.frame f).page = some id → s.owns id
  -- with room for all frames, the queue has every resident page without a guard
  evictable : n ≤ c.queueCapacity → ∀ f : Fin n, (s.frame f).page ≠ none → (s.frame f).pins = 0 →
    f ∈ s.queue.toList

-- A frame that is not in a queue without duplicates finds room if there is room for all frames.
private theorem size_lt_of_not_mem {q : EvictionQueue (Fin n)} (hq : q.Sound) {f : Fin n}
    (hf : f ∉ q.toList) : q.size < n := by
  have hnodup : (f :: q.toList).Nodup := List.nodup_cons.mpr ⟨hf, hq.nodup_toList⟩
  have hlength := hnodup.length_le_card
  rw [Fintype.card_fin, List.length_cons, EvictionQueue.length_toList] at hlength
  omega

theorem mem_push_of_room {q : EvictionQueue (Fin n)} (hq : q.Sound) (hroom : n ≤ q.capacity)
    (f f' : Fin n) : f' ∈ (q.push f).toList ↔ f' ∈ q.toList ∨ f' = f := by
  rw [hq.toList_push]
  by_cases hf : f ∈ q.toList
  · simp only [hf, true_or, if_true]
    exact ⟨Or.inl, fun h => h.elim id fun h => h ▸ hf⟩
  · have hlt := size_lt_of_not_mem hq hf
    rw [if_neg (by simp only [hf, false_or]; omega), List.mem_append, List.mem_singleton]

theorem mem_push {q : EvictionQueue (Fin n)} (hq : q.Sound) {f f' : Fin n}
    (h : f' ∈ (q.push f).toList) : f' ∈ q.toList ∨ f' = f := by
  rw [hq.toList_push] at h
  split at h
  · exact Or.inl h
  · simpa using h

namespace Sound

theorem perm (h : Sound c s guards) {others : List (Guard n)} (hperm : guards.Perm others) :
    Sound c s others :=
  { h with
    pins_eq := fun f id hf => (h.pins_eq f id hf).trans (hperm.countP_eq _)
    guarded := fun g hg => h.guarded g (hperm.mem_iff.mpr hg) }

theorem setFree (h : Sound c s guards) {free : List (Fin n)} (hperm : free.Perm s.free) :
    Sound c (s.setFree free) guards :=
  { h with
    free_nodup := hperm.nodup_iff.mpr h.free_nodup
    mem_free_iff := fun f => hperm.mem_iff.trans (h.mem_free_iff f) }

-- A frame may change in all but its page and pins, and in its dirt if it has a page.
theorem setFrame (h : Sound c s guards) {f : Fin n} {x : Frame}
    (hpage : x.page = (s.frame f).page) (hpins : x.pins = (s.frame f).pins)
    (hdirty : x.page = none → x.dirty = false) : Sound c (s.setFrame f x) guards := by
  have hpages (f' : Fin n) : ((s.setFrame f x).frame f').page = (s.frame f').page := by
    rw [frame_setFrame]
    split
    · rename_i hf
      rw [hpage, hf]
    · rfl
  have hpinned (f' : Fin n) : ((s.setFrame f x).frame f').pins = (s.frame f').pins := by
    rw [frame_setFrame]
    split
    · rename_i hf
      rw [hpins, hf]
    · rfl
  have hclean (f' : Fin n) (hf' : (s.frame f').page = none) :
      ((s.setFrame f x).frame f').dirty = false := by
    rw [frame_setFrame]
    split
    · rename_i hf
      exact hdirty (hpage.trans (hf ▸ hf'))
    · exact (h.unused f' hf').2
  exact { h with
    table_iff := fun id f' => by rw [hpages]; exact h.table_iff id f'
    mem_free_iff := fun f' => by rw [hpages]; exact h.mem_free_iff f'
    numbered := fun f' => by rw [hpages]; exact h.numbered f'
    unused := fun f' => by
      rw [hpages, hpinned]
      exact fun hf' => ⟨(h.unused f' hf').1, hclean f' hf'⟩
    pins_eq := fun f' id => by rw [hpages, hpinned]; exact h.pins_eq f' id
    pins_lt := fun f' => by rw [hpinned]; exact h.pins_lt f'
    queued := fun f' => by rw [hpages, hpinned]; exact h.queued f'
    owned := fun f' id => by rw [hpages]; exact h.owned f' id
    evictable := fun hroom f' => by rw [hpages, hpinned]; exact h.evictable hroom f' }

-- A frame has one page, and a page one frame.
theorem frame_of_page (h : Sound c s guards) {f f' : Fin n} {id : PageId}
    (hf : (s.frame f).page = some id) (hf' : (s.frame f').page = some id) : f = f' := by
  rw [← h.table_iff] at hf hf'
  exact Option.some_inj.mp (hf.symm.trans hf')

-- A frame without pins has no guard on its page.
theorem not_guarded (h : Sound c s guards) {f : Fin n} {id : PageId}
    (hpage : (s.frame f).page = some id) (hpins : (s.frame f).pins = 0) :
    ∀ g ∈ guards, g.page ≠ id := by
  rw [h.pins_eq f id hpage] at hpins
  exact (pinsOn_eq_zero id guards).mp hpins

theorem crowded_iff (h : Sound c s guards) {f : Fin n} {id : PageId}
    (hpage : (s.frame f).page = some id) :
    Crowded id guards ↔ pinLimit ≤ (s.frame f).pins + 1 := by
  rw [Crowded, h.pins_eq f id hpage]

-- A page that is not resident has no guard on it.
theorem absent_page (h : Sound c s guards) {id : PageId} (habsent : s.table[id]? = none)
    {g : Guard n} (hg : g ∈ guards) : g.page ≠ id := by
  rintro rfl
  have hres := h.guarded g hg
  simp [habsent] at hres

-- A frame that waited longest may go to the end of the queue again.
theorem requeue (h : Sound c s guards) {f : Fin n} {queue : EvictionQueue (Fin n)}
    (hpop : s.queue.pop? = some (f, queue)) :
    Sound c (s.setQueue (queue.push f)) guards := by
  have hlist := h.queue.toList_of_pop? hpop
  have hqueue := h.queue.of_pop? hpop
  have hcapacity : queue.capacity = c.queueCapacity :=
    (EvictionQueue.capacity_of_pop? hpop).trans h.capacity_eq
  refine { h with
    queue := hqueue.push f
    capacity_eq := (EvictionQueue.capacity_push queue f).trans hcapacity
    queued := fun f' hf' => h.queued f' ?_
    evictable := fun hroom f' hpage hpins => ?_ }
  · rw [hlist, List.mem_cons]
    exact (mem_push hqueue hf').symm
  · have hold := h.evictable hroom f' hpage hpins
    rw [hlist, List.mem_cons] at hold
    exact (mem_push_of_room hqueue (hcapacity ▸ hroom) f f').mpr hold.symm

-- The page of a frame without pins leaves the shard. The frame is free then.
theorem vacate (h : Sound c s guards) {f : Fin n} {id : PageId} {x : Frame}
    {queue : EvictionQueue (Fin n)} (hpage : (s.frame f).page = some id)
    (hpins : (s.frame f).pins = 0) (hx : x.page = none ∧ x.pins = 0 ∧ x.dirty = false)
    (hqueue : queue.Sound) (hcapacity : queue.capacity = s.queue.capacity)
    (hmem : ∀ f', f' ∈ queue.toList ↔ f' ∈ s.queue.toList ∧ f' ≠ f) :
    Sound c ((((s.setFrame f x).forget id).setQueue queue).setFree (f :: s.free)) guards := by
  have hguards := h.not_guarded hpage hpins
  have hnumbered : Numbered f := h.numbered f (by simp [hpage])
  have hother (f' : Fin n) (hf' : f ≠ f') : (s.frame f').page ≠ some id := fun hpage' =>
    hf' (h.frame_of_page hpage hpage')
  constructor
  case index_eq => exact h.index_eq
  case count_eq => exact h.count_eq
  case capacity_eq => exact hcapacity.trans h.capacity_eq
  case index_lt => exact h.index_lt
  case nextId_mod => exact h.nextId_mod
  case queue => exact hqueue
  case table_iff =>
    intro id' f'
    simp only [table_setFree, table_setQueue, table_forget, table_setFrame, frame_setFree,
      frame_setQueue, frame_forget, frame_setFrame, Std.HashMap.getElem?_erase, beq_iff_eq]
    by_cases hid : id = id'
    · subst hid
      by_cases hf' : f = f'
      · simp [hf', hx.1]
      · simp [hf', hother f' hf']
    · by_cases hf' : f = f'
      · subst hf'
        have hnone : s.table[id']? ≠ some f := by
          rw [Ne, h.table_iff, hpage]
          exact fun heq => hid (Option.some_inj.mp heq)
        simp [hid, hnone, hx.1]
      · simp [hid, hf', h.table_iff]
  case free_nodup =>
    refine List.nodup_cons.mpr ⟨?_, h.free_nodup⟩
    rw [h.mem_free_iff, hpage]
    simp
  case mem_free_iff =>
    intro f'
    by_cases hf' : f = f'
    · subst hf'
      simp [hx.1, hnumbered]
    · simp [hf', Ne.symm hf', h.mem_free_iff]
  case numbered =>
    intro f'
    by_cases hf' : f = f'
    · simp [hf', hx.1]
    · simpa [hf'] using h.numbered f'
  case unused =>
    intro f'
    by_cases hf' : f = f'
    · simp [hf', hx.2.1, hx.2.2]
    · simpa [hf'] using h.unused f'
  case pins_eq =>
    intro f' id'
    by_cases hf' : f = f'
    · simp [hf', hx.1]
    · simpa [hf'] using h.pins_eq f' id'
  case pins_lt =>
    intro f'
    by_cases hf' : f = f'
    · simp [hf', hx.2.1, pinLimit]
    · simpa [hf'] using h.pins_lt f'
  case guarded =>
    intro g hg
    have hid : id ≠ g.page := fun hid => hguards g hg hid.symm
    simpa [Std.HashMap.getElem?_erase, hid] using h.guarded g hg
  case queued =>
    intro f' hf'
    have hmem' := (hmem f').mp hf'
    simpa [Ne.symm hmem'.2] using h.queued f' hmem'.1
  case owned =>
    intro f' id'
    by_cases hf' : f = f'
    · simp [hf', hx.1]
    · simpa [hf'] using h.owned f' id'
  case evictable =>
    intro hroom f'
    by_cases hf' : f = f'
    · simp [hf', hx.1]
    · intro hpage' hpins'
      refine (hmem f').mpr ⟨h.evictable hroom f' ?_ ?_, Ne.symm hf'⟩
      · simpa [hf'] using hpage'
      · simpa [hf'] using hpins'

-- A free frame that was taken takes in a page under its first guard.
theorem install {f : Fin n} (h : Sound c (s.setFree (f :: s.free)) guards) {id : PageId}
    (habsent : s.table[id]? = none) (howned : s.owns id) (bytes : Page) (access : Access) :
    Sound c ((s.setFrame f (Frame.loaded id bytes)).enter id f) (⟨id, f, access⟩ :: guards) := by
  obtain ⟨hfree, hnodup⟩ := List.nodup_cons.mp h.free_nodup
  obtain ⟨hnone, hnumbered⟩ : (s.frame f).page = none ∧ Numbered f :=
    (h.mem_free_iff f).mp List.mem_cons_self
  have hguards (g : Guard n) (hg : g ∈ guards) : id ≠ g.page := (h.absent_page habsent hg).symm
  have hpages (f' : Fin n) : (s.frame f').page ≠ some id := fun hpage => by
    have hres := (h.table_iff id f').mpr hpage
    simp [habsent] at hres
  have hpins : pinsOn id guards = 0 :=
    (pinsOn_eq_zero id guards).mpr fun g hg hid => hguards g hg hid.symm
  constructor
  case index_eq => exact h.index_eq
  case count_eq => exact h.count_eq
  case capacity_eq => exact h.capacity_eq
  case index_lt => exact h.index_lt
  case nextId_mod => exact h.nextId_mod
  case queue => exact h.queue
  case table_iff =>
    intro id' f'
    have hold := h.table_iff id' f'
    simp only [table_setFree, frame_setFree] at hold
    simp only [table_enter, table_setFrame, frame_enter, frame_setFrame,
      Std.HashMap.getElem?_insert, beq_iff_eq]
    by_cases hid : id = id'
    · subst hid
      by_cases hf : f = f'
      · simp [hf, Frame.loaded]
      · simp [hf, hpages]
    · by_cases hf : f = f'
      · subst hf
        simp [hid, hold, hnone, Frame.loaded]
      · simp [hid, hf, hold]
  case free_nodup => exact hnodup
  case mem_free_iff =>
    intro f'
    have hold := h.mem_free_iff f'
    simp only [free_setFree, List.mem_cons, frame_setFree] at hold
    by_cases hf : f = f'
    · subst hf
      simp [hfree, Frame.loaded]
    · simpa [hf, Ne.symm hf] using hold
  case numbered =>
    intro f'
    by_cases hf : f = f'
    · exact fun _ => hf ▸ hnumbered
    · simpa [hf] using h.numbered f'
  case unused =>
    intro f'
    by_cases hf : f = f'
    · simp [hf, Frame.loaded]
    · simpa [hf] using h.unused f'
  case pins_eq =>
    intro f' id'
    by_cases hf : f = f'
    · simp only [frame_enter, frame_setFrame, hf, if_true, Frame.loaded, pinsOn_cons]
      rintro ⟨rfl⟩
      simp [hpins]
    · simp only [frame_enter, frame_setFrame, hf, if_false, pinsOn_cons]
      intro hpage
      have hid : id ≠ id' := fun hid => hpages f' (hid ▸ hpage)
      simpa [hid] using h.pins_eq f' id' hpage
  case pins_lt =>
    intro f'
    by_cases hf : f = f'
    · simp [hf, Frame.loaded, pinLimit]
    · simpa [hf] using h.pins_lt f'
  case guarded =>
    intro g hg
    rcases List.mem_cons.mp hg with rfl | hg
    · simp
    · simpa [Std.HashMap.getElem?_insert, hguards g hg] using h.guarded g hg
  case queued =>
    intro f' hf'
    have hold := h.queued f' hf'
    have hf : f ≠ f' := by
      rintro rfl
      exact hold.1 hnone
    simpa [hf] using hold
  case owned =>
    intro f' id'
    by_cases hf : f = f'
    · simp only [frame_enter, frame_setFrame, hf, if_true, Frame.loaded]
      rintro ⟨rfl⟩
      exact howned
    · simpa [hf] using h.owned f' id'
  case evictable =>
    intro hroom f'
    by_cases hf : f = f'
    · simp [hf, Frame.loaded]
    · simpa [hf] using h.evictable hroom f'

-- The guards on one page change, and the pins of its frame and its place in the queue with them.
theorem repin (h : Sound c s guards) {f : Fin n} {id : PageId} {x : Frame}
    {others : List (Guard n)} {queue : EvictionQueue (Fin n)}
    (hpage : (s.frame f).page = some id) (hx : x.page = some id) (hpins : x.pins = pinsOn id others)
    (hlimit : x.pins < pinLimit)
    (hsame : ∀ id' ≠ id, pinsOn id' others = pinsOn id' guards)
    (hguards : ∀ g ∈ others, g ∈ guards ∨ g.page = id ∧ g.frame = f)
    (hqueue : queue.Sound) (hcapacity : queue.capacity = s.queue.capacity)
    (hmem : ∀ f' ∈ queue.toList, f' ∈ s.queue.toList ∧ f ≠ f' ∨ f = f' ∧ x.pins = 0)
    (hroom : n ≤ c.queueCapacity → ∀ f', f' ∈ s.queue.toList ∧ f ≠ f' ∨ f = f' ∧ x.pins = 0 →
      f' ∈ queue.toList) :
    Sound c ((s.setFrame f x).setQueue queue) others := by
  have hpages (f' : Fin n) : ((s.setFrame f x).frame f').page = (s.frame f').page := by
    by_cases hf : f = f'
    · simp [← hf, hx, hpage]
    · simp [hf]
  have hother (f' : Fin n) (hf : f ≠ f') : (s.frame f').page ≠ some id := fun hpage' =>
    hf (h.frame_of_page hpage hpage')
  constructor
  case index_eq => exact h.index_eq
  case count_eq => exact h.count_eq
  case capacity_eq => exact hcapacity.trans h.capacity_eq
  case index_lt => exact h.index_lt
  case nextId_mod => exact h.nextId_mod
  case queue => exact hqueue
  case table_iff =>
    intro id' f'
    rw [frame_setQueue, hpages]
    exact h.table_iff id' f'
  case free_nodup => exact h.free_nodup
  case mem_free_iff =>
    intro f'
    rw [frame_setQueue, hpages]
    exact h.mem_free_iff f'
  case numbered =>
    intro f'
    rw [frame_setQueue, hpages]
    exact h.numbered f'
  case unused =>
    intro f'
    by_cases hf : f = f'
    · simp [← hf, hx]
    · simpa [hf] using h.unused f'
  case pins_eq =>
    intro f' id' hpage'
    rw [frame_setQueue, hpages] at hpage'
    by_cases hf : f = f'
    · subst hf
      obtain rfl := Option.some_inj.mp (hpage.symm.trans hpage')
      simpa using hpins
    · have hid : id' ≠ id := fun hid => hother f' hf (hid ▸ hpage')
      simpa [hf, hsame id' hid] using h.pins_eq f' id' hpage'
  case pins_lt =>
    intro f'
    by_cases hf : f = f'
    · simpa [hf] using hlimit
    · simpa [hf] using h.pins_lt f'
  case guarded =>
    intro g hg
    rcases hguards g hg with hg | ⟨rfl, rfl⟩
    · exact h.guarded g hg
    · exact (h.table_iff _ _).mpr hpage
  case queued =>
    intro f' hf'
    rcases hmem f' hf' with ⟨hold, hf⟩ | ⟨rfl, hzero⟩
    · simpa [hf] using h.queued f' hold
    · simp [hx, hzero]
  case owned =>
    intro f' id' hpage'
    rw [frame_setQueue, hpages] at hpage'
    exact h.owned f' id' hpage'
  case evictable =>
    intro hr f' hpage' hpins'
    rw [frame_setQueue, hpages] at hpage'
    apply hroom hr
    by_cases hf : f = f'
    · subst hf
      exact Or.inr ⟨rfl, by simpa using hpins'⟩
    · exact Or.inl ⟨h.evictable hr f' hpage' (by simpa [hf] using hpins'), hf⟩

-- A frame that is pinned is not queued.
theorem not_queued (h : Sound c s guards) {f : Fin n} (hpins : (s.frame f).pins ≠ 0) :
    f ∉ s.queue.toList := fun hf => hpins (h.queued f hf).2

-- One more guard on a resident page, if its pins can be counted.
theorem pin (h : Sound c s guards) {f : Fin n} {id : PageId} (hf : s.table[id]? = some f)
    (hlimit : (s.frame f).pins + 1 < pinLimit) (access : Access) :
    Sound c ((s.setFrame f { s.frame f with pins := (s.frame f).pins + 1 }).setQueue
      (s.queue.remove f)) (⟨id, f, access⟩ :: guards) := by
  have hpage := (h.table_iff id f).mp hf
  have hmem (f' : Fin n) : f' ∈ (s.queue.remove f).toList ↔ f' ∈ s.queue.toList ∧ f ≠ f' := by
    rw [h.queue.toList_remove, h.queue.nodup_toList.mem_erase_iff, and_comm, ne_comm]
  refine h.repin hpage hpage ?_ hlimit ?_ ?_ (h.queue.remove f) (EvictionQueue.capacity_remove _ _) ?_ ?_
  · simp [h.pins_eq f id hpage]
  · intro id' hid
    simp [Ne.symm hid]
  · intro g hg
    rcases List.mem_cons.mp hg with rfl | hg
    · exact Or.inr ⟨rfl, rfl⟩
    · exact Or.inl hg
  · intro f' hf'
    exact Or.inl ((hmem f').mp hf')
  · rintro _ f' (hold | ⟨_, hzero⟩)
    · exact (hmem f').mpr hold
    · exact absurd hzero (Nat.succ_ne_zero _)

-- One guard less on a page. After the last one its frame is queued.
theorem unpin {g : Guard n} (h : Sound c s (g :: guards)) {x : Frame}
    (hx : x.page = (s.frame g.frame).page) (hpins : (s.frame g.frame).pins = x.pins + 1) :
    Sound c (if x.pins = 0 then (s.setFrame g.frame x).setQueue (s.queue.push g.frame)
      else s.setFrame g.frame x) guards := by
  have hpage := (h.table_iff _ _).mp (h.guarded g List.mem_cons_self)
  have hout := h.not_queued (f := g.frame) (by omega)
  have hlimit : x.pins < pinLimit := by
    have hold := h.pins_lt g.frame
    omega
  have hcount : x.pins = pinsOn g.page guards := by
    have hold := h.pins_eq _ _ hpage
    rw [hpins, pinsOn_cons, if_pos rfl] at hold
    omega
  have hsame (id' : PageId) (hid : id' ≠ g.page) :
      pinsOn id' guards = pinsOn id' (g :: guards) := by simp [Ne.symm hid]
  have hkeep (g' : Guard n) (hg' : g' ∈ guards) :
      g' ∈ g :: guards ∨ g'.page = g.page ∧ g'.frame = g.frame :=
    Or.inl (List.mem_cons_of_mem g hg')
  split
  · rename_i hzero
    refine h.repin hpage (hx.trans hpage) hcount hlimit hsame hkeep (h.queue.push _)
      (EvictionQueue.capacity_push _ _) ?_ ?_
    · intro f' hf'
      rcases mem_push h.queue hf' with hf' | rfl
      · exact Or.inl ⟨hf', fun hf => hout (hf ▸ hf')⟩
      · exact Or.inr ⟨rfl, hzero⟩
    · intro hroom f' hf'
      rw [mem_push_of_room h.queue (h.capacity_eq ▸ hroom)]
      exact hf'.imp And.left fun hf => hf.1.symm
  · rename_i hpinned
    refine h.repin hpage (hx.trans hpage) hcount hlimit hsame hkeep h.queue rfl ?_ ?_
    · intro f' hf'
      exact Or.inl ⟨hf', fun hf => hout (hf ▸ hf')⟩
    · rintro _ f' (hold | ⟨_, hzero⟩)
      · exact hold.1
      · exact absurd hzero hpinned

-- The next id moves on within the shard's part of the ids.
theorem setNextId (h : Sound c s guards) :
    Sound c (s.setNextId (s.nextId + s.count)) guards :=
  { h with
    nextId_mod := by
      rw [nextId_setNextId, h.count_eq, Nat.add_mod_right]
      exact h.nextId_mod
    owned := fun f id hf => by
      have hold := (owns_iff s id).mp (h.owned f id hf)
      refine (owns_iff _ id).mpr ⟨hold.1, hold.2.1, ?_⟩
      rw [nextId_setNextId]
      exact Nat.lt_add_right _ hold.2.2 }

end Sound

end Shard

end PagedIndex
