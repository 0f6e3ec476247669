import PagedIndex.Proofs.Pool.Operations
import PagedIndex.Proofs.Store.Lawful

namespace PagedIndex

-- What the pages of a pool hold. An id that was not given out has no bytes.
abbrev Memory := PageId → Option Page

namespace Memory

def put (M : Memory) (id : PageId) (p : Page) : Memory := Function.update M id (some p)

@[simp] theorem put_self (M : Memory) (id : PageId) (p : Page) : M.put id p id = some p := by
  simp [put]

theorem put_of_ne (M : Memory) {id other : PageId} (p : Page) (h : other ≠ id) :
    M.put id p other = M other := by
  simp [put, h]

-- No page is lost, and those outside `P` are as they were.
structure Confined (P : PageId → Prop) (M M' : Memory) : Prop where
  known (id : PageId) : M id ≠ none → M' id ≠ none
  others (id : PageId) : M id ≠ none → ¬ P id → M' id = M id

end Memory

-- A guard that may be given out beside the live ones: an exclusive guard is alone on its page.
def Admits (guards : List (Guard n)) (id : PageId) (access : Access) : Prop :=
  ∀ g ∈ guards, g.page = id → g.access = .shared ∧ access = .shared

-- The number of exclusive guards on a page.
def writersOn (id : PageId) (guards : List (Guard n)) : Nat :=
  guards.countP fun g => g.page = id ∧ g.access = .exclusive

theorem writersOn_cons (id : PageId) (g : Guard n) (guards : List (Guard n)) :
    writersOn id (g :: guards) =
      writersOn id guards + if g.page = id ∧ g.access = .exclusive then 1 else 0 := by
  simp [writersOn, List.countP_cons]

theorem writersOn_cons_shared (id : PageId) {g : Guard n} (guards : List (Guard n))
    (h : g.access = .shared) : writersOn id (g :: guards) = writersOn id guards := by
  simp [writersOn_cons, h]

theorem writersOn_cons_exclusive {g : Guard n} (guards : List (Guard n))
    (h : g.access = .exclusive) : writersOn g.page (g :: guards) = writersOn g.page guards + 1 := by
  simp [writersOn_cons, h]

theorem writersOn_cons_of_ne {id : PageId} {g : Guard n} (guards : List (Guard n))
    (h : g.page ≠ id) : writersOn id (g :: guards) = writersOn id guards := by
  simp [writersOn_cons, h]

theorem writersOn_eq_zero (id : PageId) (guards : List (Guard n)) :
    writersOn id guards = 0 ↔ ∀ g ∈ guards, g.page = id → g.access = .shared := by
  simp only [writersOn, List.countP_eq_zero, decide_eq_true_eq, not_and]
  refine forall₃_congr fun g _ _ => ?_
  cases g.access <;> simp

-- A frame has the bytes of its page, and the store has them too unless the frame says otherwise.
structure Frame.Shows (x : Frame) (id : PageId) (guards : List (Guard n)) (disk : PageId → Page)
    (M : Memory) : Prop where
  shown : M id = some x.bytes
  clean : x.dirty = false → x.latch ≠ .written → disk id = x.bytes
  -- the frame is latched under its exclusive guard, of which there is one at most
  writers : writersOn id guards = if x.latch = .idle then 0 else 1

namespace Frame.Shows

variable {n : Nat} {x : Frame} {id : PageId} {guards : List (Guard n)} {disk : PageId → Page}
  {M : Memory}

theorem idle_iff (h : x.Shows id guards disk M) :
    x.latch = .idle ↔ ∀ g ∈ guards, g.page = id → g.access = .shared := by
  rw [← writersOn_eq_zero, h.writers]
  split <;> simp_all

-- A page without an exclusive guard was not written through one.
theorem not_written (h : x.Shows id guards disk M)
    (hshared : ∀ g ∈ guards, g.page = id → g.access = .shared) : x.latch ≠ .written := by
  rw [h.idle_iff.mpr hshared]
  exact nofun

end Frame.Shows

namespace Shard

variable {n : Nat} {D : Type} {c : ShardConfig} {s : Shard n} {d : D}
  {guards : List (Guard n)} {disk : PageId → Page} {M : Memory}

-- The part of the representation that does not concern guards, free frames and the queue.
structure Tabled (c : ShardConfig) (s : Shard n) : Prop where
  index_eq : s.index = c.index
  count_eq : s.count = c.count
  table_iff (id : PageId) (f : Fin n) : s.table[id]? = some f ↔ (s.frame f).page = some id
  owned (f : Fin n) (id : PageId) : (s.frame f).page = some id → s.owns id

theorem Sound.tabled (h : s.Sound c guards) : s.Tabled c :=
  ⟨h.index_eq, h.count_eq, h.table_iff, h.owned⟩

namespace Tabled

theorem frame_of_page (h : s.Tabled c) {f f' : Fin n} {id : PageId}
    (hf : (s.frame f).page = some id) (hf' : (s.frame f').page = some id) : f = f' := by
  rw [← h.table_iff] at hf hf'
  exact Option.some_inj.mp (hf.symm.trans hf')

theorem setQueue (h : s.Tabled c) (queue : EvictionQueue (Fin n)) : (s.setQueue queue).Tabled c :=
  ⟨h.index_eq, h.count_eq, h.table_iff, h.owned⟩

theorem lt_nextId (h : s.Tabled c) {f : Fin n} {id : PageId} (hpage : (s.frame f).page = some id) :
    id.number.toNat < s.nextId := ((owns_iff s id).mp (h.owned f id hpage)).2.2

end Tabled

-- The users of a shard see a memory: the bytes of every page that was given out. A resident page
-- has them in its frame, and any other page in the store. A frame may differ from the store only
-- while it is marked dirty or was written through a guard that is still live.
structure Caches (s : Shard n) (guards : List (Guard n)) (disk : PageId → Page) (M : Memory) :
    Prop where
  shows (f : Fin n) (id : PageId) :
    (s.frame f).page = some id → (s.frame f).Shows id guards disk M
  absent (id : PageId) : s.owns id → s.table[id]? = none → M id = some (disk id)
  -- an id that the shard has yet to give out
  fresh (id : PageId) : id.number.toNat % s.count = s.index → s.nextId ≤ id.number.toNat →
    M id = none ∧ disk id = Page.zero

-- The pages that the shard has given out or found in the store: those in frames as they are there,
-- the others as they are stored.
def contents (s : Shard n) (disk : PageId → Page) : Memory := fun id =>
  if s.owns id then
    match s.table[id]? with
    | some f => some (s.frame f).bytes
    | none => some (disk id)
  else none

namespace Caches

theorem contents_eq (hs : s.Tabled c) (h : s.Caches guards disk M) {id : PageId}
    (hvalid : id ≠ PageId.invalid) (hpart : id.number.toNat % s.count = s.index) :
    s.contents disk id = M id := by
  unfold contents
  split
  · rename_i howns
    cases htable : s.table[id]? with
    | some f => exact (h.shows f id ((hs.table_iff id f).mp htable)).shown.symm
    | none => exact (h.absent id howns htable).symm
  · rename_i howns
    have hnext : s.nextId ≤ id.number.toNat := Nat.le_of_not_lt fun hlt =>
      howns ((owns_iff s id).mpr ⟨hvalid, hpart, hlt⟩)
    exact (h.fresh id hpart hnext).1.symm

theorem setFree (h : s.Caches guards disk M) (free : List (Fin n)) :
    (s.setFree free).Caches guards disk M := ⟨h.shows, h.absent, h.fresh⟩

theorem setQueue (h : s.Caches guards disk M) (queue : EvictionQueue (Fin n)) :
    (s.setQueue queue).Caches guards disk M := ⟨h.shows, h.absent, h.fresh⟩

theorem addGuard (h : s.Caches guards disk M) {g : Guard n} (hg : g.access = .shared) :
    s.Caches (g :: guards) disk M where
  shows f id hpage := by
    have hold := h.shows f id hpage
    exact ⟨hold.shown, hold.clean, (writersOn_cons_shared id guards hg).trans hold.writers⟩
  absent := h.absent
  fresh := h.fresh

-- One page changes, in its frame, in memory and in the guards on it.
theorem setFrame (hs : s.Tabled c) (h : s.Caches guards disk M) {f : Fin n} {id : PageId}
    {x : Frame} {guards' : List (Guard n)} {disk' : PageId → Page} {M' : Memory}
    (hpage : (s.frame f).page = some id) (hx : x.page = some id)
    (hshows : x.Shows id guards' disk' M') (hdisk : ∀ id' ≠ id, disk' id' = disk id')
    (hM : ∀ id' ≠ id, M' id' = M id')
    (hguards : ∀ id' ≠ id, writersOn id' guards' = writersOn id' guards) :
    (s.setFrame f x).Caches guards' disk' M' where
  shows f' id' hpage' := by
    by_cases hf : f = f'
    · subst hf
      rw [frame_setFrame, if_pos rfl] at hpage' ⊢
      obtain rfl := Option.some_inj.mp (hx.symm.trans hpage')
      exact hshows
    · rw [frame_setFrame, if_neg hf] at hpage' ⊢
      have hid : id' ≠ id := fun hid => hf (hs.frame_of_page hpage (hid ▸ hpage'))
      have hold := h.shows f' id' hpage'
      refine ⟨(hM id' hid).trans hold.shown, ?_, (hguards id' hid).trans hold.writers⟩
      rw [hdisk id' hid]
      exact hold.clean
  absent id' howns htable := by
    have hid : id' ≠ id := by
      rintro rfl
      rw [table_setFrame, (hs.table_iff _ f).mpr hpage] at htable
      cases htable
    rw [hM id' hid, hdisk id' hid]
    exact h.absent id' howns htable
  fresh id' hpart hnext := by
    have hid : id' ≠ id := by
      rintro rfl
      exact absurd hnext (Nat.not_le_of_lt (hs.lt_nextId hpage))
    rw [hM id' hid, hdisk id' hid]
    exact h.fresh id' hpart hnext

-- A page whose bytes the store has may leave the shard.
theorem drop (h : s.Caches guards disk M) {f : Fin n} {id : PageId} {x : Frame}
    (hpage : (s.frame f).page = some id) (hx : x.page = none)
    (hdisk : disk id = (s.frame f).bytes) :
    ((s.setFrame f x).forget id).Caches guards disk M where
  shows f' id' hpage' := by
    by_cases hf : f = f'
    · subst hf
      rw [frame_forget, frame_setFrame, if_pos rfl, hx] at hpage'
      cases hpage'
    · rw [frame_forget, frame_setFrame, if_neg hf] at hpage' ⊢
      exact h.shows f' id' hpage'
  absent id' howns htable := by
    rw [table_forget, table_setFrame, Std.HashMap.getElem?_erase] at htable
    by_cases hid : id = id'
    · subst hid
      rw [hdisk]
      exact (h.shows f id hpage).shown
    · rw [if_neg (by simpa using hid)] at htable
      exact h.absent id' howns htable
  fresh := h.fresh

-- A page that is not resident is put into a frame with the bytes that the store has for it.
theorem install (h : s.Caches guards disk M) {f : Fin n} {id : PageId}
    (howns : s.owns id) (habsent : s.table[id]? = none) (hwriters : writersOn id guards = 0) :
    ((s.setFrame f (Frame.loaded id (disk id))).enter id f).Caches guards disk M where
  shows f' id' hpage' := by
    by_cases hf : f = f'
    · subst hf
      rw [frame_enter, frame_setFrame, if_pos rfl] at hpage' ⊢
      obtain rfl := Option.some_inj.mp hpage'
      exact ⟨h.absent _ howns habsent, fun _ _ => rfl, hwriters⟩
    · rw [frame_enter, frame_setFrame, if_neg hf] at hpage' ⊢
      exact h.shows f' id' hpage'
  absent id' howns' htable := by
    rw [table_enter, Std.HashMap.getElem?_insert] at htable
    split at htable
    · cases htable
    · exact h.absent id' howns' htable
  fresh := h.fresh

-- The id that is given out next comes with a page of zeroes.
theorem extend (hs : s.Tabled c) (h : s.Caches guards disk M) (hpos : 0 < s.count)
    (hindex : s.nextId % s.count = s.index) (hlimit : s.nextId + s.count < pageIdLimit) :
    (s.setNextId (s.nextId + s.count)).Caches guards disk
      (M.put ⟨UInt32.ofNat s.nextId⟩ Page.zero) := by
  have hnumber := toNat_nextId hlimit
  have hzero := (h.fresh ⟨UInt32.ofNat s.nextId⟩ (by rwa [hnumber]) (by rw [hnumber])).2
  constructor
  case shows =>
    intro f id hpage
    have hold := h.shows f id hpage
    have hne : id ≠ ⟨UInt32.ofNat s.nextId⟩ := by
      rintro rfl
      have hlt := hs.lt_nextId hpage
      rw [hnumber] at hlt
      exact Nat.lt_irrefl _ hlt
    exact ⟨(M.put_of_ne _ hne).trans hold.shown, hold.clean, hold.writers⟩
  case absent =>
    intro id howns htable
    by_cases hid : id = ⟨UInt32.ofNat s.nextId⟩
    · rw [hid, Memory.put_self, hzero]
    · rw [M.put_of_ne _ hid]
      refine h.absent id ((owns_iff s id).mpr ?_) htable
      obtain ⟨hvalid, hpart, hlt⟩ := (owns_iff _ id).mp howns
      rw [index_setNextId, count_setNextId] at hpart
      rw [nextId_setNextId] at hlt
      refine ⟨hvalid, hpart, Nat.lt_of_not_le fun hle => hid ?_⟩
      -- between the two counters the shard has the one id only
      have hmod : id.number.toNat % s.count = s.nextId % s.count := hpart.trans hindex.symm
      have hnat : id.number.toNat = s.nextId := by
        have hsub : (id.number.toNat - s.nextId) % s.count = 0 :=
          Nat.sub_mod_eq_zero_of_mod_eq hmod
        rw [Nat.mod_eq_of_lt (by omega)] at hsub
        omega
      rw [← hnat, UInt32.ofNat_toNat]
  case fresh =>
    intro id hpart hnext
    rw [index_setNextId, count_setNextId] at hpart
    rw [nextId_setNextId] at hnext
    have hne : id ≠ ⟨UInt32.ofNat s.nextId⟩ := by
      rintro rfl
      rw [hnumber] at hnext
      omega
    rw [M.put_of_ne _ hne]
    exact h.fresh id hpart (by omega)

end Caches

end Shard

end PagedIndex
