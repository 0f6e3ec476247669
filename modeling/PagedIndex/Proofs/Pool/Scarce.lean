import Mathlib.Order.Interval.Finset.Nat
import PagedIndex.Proofs.Pool.Blank
import PagedIndex.Proofs.Pool.Guarded
import PagedIndex.Proofs.Pool.Resting

namespace PagedIndex

namespace Shard

variable {n : Nat} {D : Type} [PageStore D] {c : ShardConfig} {s : Shard n}
  {m m' : Mounted (Shard n) D} {guards : List (Guard n)} {e : StoreError} {id : PageId}

-- Guards on pages of some numbers keep no more frames than there are numbers.
theorem Sound.card_framesUnder_le (h : s.Sound c guards) {first limit : Nat}
    (hpages : ∀ g ∈ guards, first ≤ g.page.number.toNat ∧ g.page.number.toNat < limit) :
    (framesUnder guards).card ≤ limit - first := by
  have hframe (f : Fin n) (hf : f ∈ framesUnder guards) : ∃ id, (s.frame f).page = some id ∧
      first ≤ id.number.toNat ∧ id.number.toNat < limit := by
    obtain ⟨g, hg, rfl⟩ := List.mem_map.mp (List.mem_toFinset.mp hf)
    exact ⟨g.page, (h.table_iff _ _).mp (h.guarded g hg), hpages g hg⟩
  rw [← Nat.card_Ico]
  refine Finset.card_le_card_of_injOn (fun f => (s.frame f).page.elim 0 fun id => id.number.toNat)
    (fun f hf => ?_) fun f hf f' hf' heq => ?_
  · obtain ⟨id, hid, hfirst, hlimit⟩ := hframe f hf
    simp [hid, hfirst, hlimit]
  · obtain ⟨id, hid, _⟩ := hframe f hf
    obtain ⟨id', hid', _⟩ := hframe f' hf'
    simp only [hid, hid', Option.elim_some] at heq
    have hsame : id = id' := congrArg PageId.mk (UInt32.toNat_inj.mp heq)
    exact h.frame_of_page hid (hsame ▸ hid')

variable [LawfulStore D] (hs : m.pool.Sound c guards) (hroom : n ≤ c.queueCapacity)
  (hcard : (framesUnder guards).card < n % frameNumberLimit)
include hs hroom hcard

-- With a frame to spare, a frame is only missed because of the store.
theorem Unobtained.of_store (h : Unobtained m e m') : ∃ cause, e = .io cause := by
  cases h with
  | full hfull => exact absurd (hs.card_of_full hroom hfull) hcard.ne
  | requeued _ => exact ⟨_, rfl⟩

theorem FetchFails.of_store (h : FetchFails id m e m') (howns : m.pool.owns id) :
    ∃ cause, e = .io cause := by
  cases h with
  | unknown hunknown => exact absurd howns (by simp [hunknown])
  | unobtained h => exact h.of_store hs hroom hcard
  | unread _ => exact ⟨_, rfl⟩

end Shard

namespace Pool

variable {n : Nat} {D : Type} [PageStore D] [LawfulStore D] {m : Mounted (Pool n) D}
  {queueCapacity first : Nat} {guards : List (Guard n)} {M : Memory} {id : PageId}

theorem PoolError.not_io (hstore : ∀ e, ¬ LawfulStore.Gives D e) {cause : IoError} :
    ¬ PoolError D (.io cause) := by
  intro h
  cases h with
  | store h => exact hstore _ h

section Answers

variable [DeviceStore D] {next : Nat → Nat} (hkept : Kept m guards M)
  (h : Steady (.single queueCapacity 0 1) guards next m)
  (horder : InOrder (fun _ => True) m) (hstore : ∀ e, ¬ LawfulStore.Gives D e)
  (hroom : n ≤ queueCapacity) (hcard : (framesUnder guards).card < n % Shard.frameNumberLimit)
include hkept h horder hstore hroom hcard

-- With a frame to spare, a page that is there is not refused.
theorem fetch_answers {p : Page} (hp : M id = some p) {access : Access}
    (hadmits : Admits guards id access) :
    (Pool.fetch id access).Ends m fun r _ => ∀ e, r ≠ .error (.error e) := by
  have howns := hkept.owns hp
  refine ((hkept.fetch hadmits).and (hkept.fetch_fails horder.fits id access)).mono
    fun r m' hm => ?_
  rintro e rfl
  obtain ⟨t, hfails⟩ := hm.2 e rfl
  cases h with
  | single h =>
    obtain ⟨cause, rfl⟩ := hfails.of_store h.sound hroom hcard howns
    exact PoolError.not_io hstore hm.1.1

theorem allocate_answers :
    (Pool.allocate (D := D)).Ends m fun r _ => ∀ e, r ≠ .error (.error e) := by
  cases h with
  | single h =>
    have hfits := (inOrder_single.mp horder).fits
    have hfails := Shard.allocate_fails h.sound hfits h.counts.store
    have herror := hkept.allocate
    rw [Pool.allocate, ends_byShape] at herror ⊢
    refine Op.Ends.mono (Op.Ends.and herror hfails) fun r m' hm => ?_
    rintro e rfl
    obtain ⟨cause, rfl⟩ := (hm.2 e rfl).of_store h.sound hroom hcard
    exact PoolError.not_io hstore hm.1.1

end Answers

-- The ledger has the pages that the user was given, and none was refused so far. The pages before the
-- first one are there, so that they are not given out.
structure Scarce (queueCapacity first : Nat) (m : Mounted (Pool n) D) (guards : List (Guard n))
    (w : Ledger) (M : Memory) : Prop where
  kept : Kept m guards M
  steady : ∃ next, Steady (.single queueCapacity 0 1) guards next m
  order : InOrder (fun _ => True) m
  held (id : PageId) : id.number.toNat < first → M id ≠ none
  shown (id : PageId) : w.sheets id ≠ none →
    M id = w.memory id ∧ first ≤ id.number.toNat ∧ id ≠ PageId.invalid
  guarded (g : Guard n) : g ∈ guards → w.sheets g.page ≠ none
  refusals_eq : w.refusals = 0

theorem toNat_lt_of_ne_invalid (h : id ≠ PageId.invalid) : id.number.toNat < 4294967295 := by
  have hlt : id.number.toNat < 4294967296 := id.number.toNat_lt
  have hne : id.number.toNat ≠ 4294967295 := fun heq =>
    h (congrArg PageId.mk (UInt32.toNat_inj.mp heq))
  omega

namespace Scarce

variable {w : Ledger}

-- A new pool holds the pages of its store, and its user was given none.
theorem created {d : D} (hd : LawfulStore.Sound d)
    (hzero : ∀ id : PageId, LawfulStore.count d ≤ id.number → LawfulStore.page d id = Page.zero)
    {pool : Pool n} (hpool : ((PoolShape.single queueCapacity 0 1).create n d).result = .ok pool) :
    Scarce queueCapacity (LawfulStore.count d).toNat
      ⟨pool, ((PoolShape.single queueCapacity 0 1).create n d).state⟩ []
      ⟨fun _ => none, 0⟩ ((PoolShape.single queueCapacity 0 1).memory d) := by
  have hvalid : (PoolShape.single queueCapacity 0 1).Valid := Nat.one_pos
  have hsteady := PoolShape.create_outcome (n := n) hvalid hd
  rw [Op.Ends, hpool] at hsteady
  have horder := create_inOrder (n := n) storeInvariant_true (.single queueCapacity 0 1) hd trivial
  refine ⟨(Reached.created _ hd hzero hpool).kept, ⟨_, hsteady.2⟩, horder pool hpool,
    fun id hid => ?_, fun _ hid => absurd rfl hid, nofun, rfl⟩
  have hserves : (PoolShape.single queueCapacity 0 1).Serves id := Nat.mod_one _
  rw [PoolShape.memory_apply hserves, if_pos hid]
  exact Option.some_ne_none _

theorem card_lt (h : Scarce queueCapacity first m guards w M)
    (hleft : 4294967295 - first < n % Shard.frameNumberLimit) :
    (framesUnder guards).card < n % Shard.frameNumberLimit := by
  obtain ⟨next, hsteady⟩ := h.steady
  cases hsteady with
  | single hsteady =>
    refine (hsteady.sound.card_framesUnder_le fun g hg => ?_).trans_lt hleft
    obtain ⟨_, hfirst, hvalid⟩ := h.shown g.page (h.guarded g hg)
    exact ⟨hfirst, toNat_lt_of_ne_invalid hvalid⟩

-- There are not more pages than there were ids.
theorem length_le (h : Scarce queueCapacity first m guards w M) {ids : List PageId}
    (hnodup : ids.Nodup) (hids : ∀ id ∈ ids, w.sheets id ≠ none) :
    ids.length ≤ 4294967295 - first := by
  rw [← List.toFinset_card_of_nodup hnodup, ← Nat.card_Ico]
  refine Finset.card_le_card_of_injOn (fun id => id.number.toNat) (fun id hid => ?_)
    fun id _ id' _ heq => congrArg PageId.mk (UInt32.toNat_inj.mp heq)
  obtain ⟨_, hfirst, hvalid⟩ := h.shown id (hids id (List.mem_toFinset.mp hid))
  exact Finset.coe_Ico first 4294967295 ▸ ⟨hfirst, toNat_lt_of_ne_invalid hvalid⟩

-- A call that leaves the pages as they are.
theorem moved (h : Scarce queueCapacity first m guards w M) {guards' : List (Guard n)}
    {m' : Mounted (Pool n) D} {next : Nat → Nat} (hkept : Kept m' guards' M)
    (hsteady : Steady (.single queueCapacity 0 1) guards' next m') (horder : InOrder (fun _ => True) m')
    (hguarded : ∀ g ∈ guards', w.sheets g.page ≠ none) :
    Scarce queueCapacity first m' guards' w M :=
  ⟨hkept, ⟨next, hsteady⟩, horder, h.held, h.shown, hguarded, h.refusals_eq⟩

theorem delete (h : Scarce queueCapacity first m guards w M) (id : PageId) :
    (PagePool.delete id : Op (Mounted (Pool n) D) Bool).Ends m <| Op.Answers
      (fun _ m' => Scarce queueCapacity first m' guards w M)
      fun e m' => ¬ e.OfIndex ∧ Scarce queueCapacity first m' guards w M := by
  obtain ⟨next, hsteady⟩ := h.steady
  refine Op.Ends.mono ((h.kept.delete id).and ((hsteady.delete id).and
    (keeps_onOwner (Shard.keeps_delete storeInvariant_true id) id m h.order))) fun r m' hm => ?_
  obtain ⟨hkept, hsteady', horder⟩ := hm
  cases r using Checked.outcomes with
  | ok b => exact h.moved hkept hsteady' horder h.guarded
  | error e => exact ⟨hkept.1.not_ofIndex, h.moved hkept.2 hsteady'.2 horder h.guarded⟩
  | abort a => exact hkept

theorem release {g : Guard n} (h : Scarce queueCapacity first m (g :: guards) w M) :
    (PagePool.release g : Op (Mounted (Pool n) D) Unit).Ends m fun _ m' =>
      Scarce queueCapacity first m' guards w M := by
  obtain ⟨next, hsteady⟩ := h.steady
  refine Op.Ends.mono (h.kept.release.and (hsteady.release.and
    (keeps_onOwner (Shard.keeps_release g) g.page m h.order))) fun r m' hm => ?_
  obtain ⟨⟨_, hkept⟩, ⟨_, hsteady'⟩, horder⟩ := hm
  exact h.moved hkept hsteady' horder (List.forall_mem_cons.mp h.guarded).2

theorem write {g : Guard n} (h : Scarce queueCapacity first m guards w M)
    (hg : g ∈ guards) (haccess : g.access = .exclusive) (p : Page) :
    Scarce queueCapacity first ⟨m.pool.write g p, m.store⟩ guards (w.put g.page p)
      (M.put g.page p) := by
  obtain ⟨next, hsteady⟩ := h.steady
  have horder : InOrder (fun _ => True) (⟨m.pool.write g p, m.store⟩ : Mounted (Pool n) D) :=
    keeps_call storeInvariant_true (.write g p) m h.order
  refine ⟨h.kept.write hg haccess p, ⟨next, hsteady.write g p⟩, horder, fun id hid => ?_,
    fun id hid => ?_, fun g' hg' => w.sheets_put_ne_none _ p (h.guarded g' hg'), h.refusals_eq⟩
  · by_cases heq : id = g.page
    · rw [heq, Memory.put_self]
      exact Option.some_ne_none p
    · rw [Memory.put_of_ne _ _ heq]
      exact h.held id hid
  · rw [w.memory_put]
    by_cases heq : id = g.page
    · rw [heq, Memory.put_self, Memory.put_self]
      exact ⟨rfl, (h.shown _ (h.guarded g hg)).2⟩
    · rw [w.sheets_put_of_ne _ _ heq] at hid
      rw [Memory.put_of_ne _ _ heq, Memory.put_of_ne _ _ heq]
      exact h.shown id hid

variable [DeviceStore D] (hstore : ∀ e, ¬ LawfulStore.Gives D e) (hroom : n ≤ queueCapacity)
  (hleft : 4294967295 - first < n % Shard.frameNumberLimit)
include hstore hroom hleft

theorem fetch (h : Scarce queueCapacity first m guards w M) {p : Page}
    (hp : w.memory id = some p) {access : Access}
    (hjoins : PagePool.Joins (Mounted (Pool n) D) Guard.access guards id access) :
    (PagePool.fetch id access : Op (Mounted (Pool n) D) (Guard n)).Ends m <| Op.Answers
      (fun g m' => (g.page = id ∧ g.access = access) ∧
        Scarce queueCapacity first m' (g :: guards) w M)
      fun _ _ => False := by
  obtain ⟨next, hsteady⟩ := h.steady
  have hid : w.sheets id ≠ none := Ledger.sheets_ne_none_iff.mpr (hp ▸ Option.some_ne_none p)
  have hanswers := fetch_answers h.kept hsteady h.order hstore hroom (h.card_lt hleft)
    ((h.shown id hid).1.trans hp) hjoins.admits
  refine Op.Ends.mono (hanswers.and ((h.kept.fetch hjoins.admits).and ((hsteady.fetch id access).and
    (keeps_onOwner (Shard.keeps_fetch storeInvariant_true id access) id m h.order)))) fun r m' hm => ?_
  obtain ⟨hanswers, hkept, hsteady', horder⟩ := hm
  cases r using Checked.outcomes with
  | ok g =>
    refine ⟨hkept.1, h.moved hkept.2 hsteady' horder (List.forall_mem_cons.mpr ⟨?_, h.guarded⟩)⟩
    rwa [hkept.1.1]
  | error e => exact hanswers e rfl
  | abort a => exact absurd hkept hjoins.not_crowded

theorem allocate (h : Scarce queueCapacity first m guards w M) :
    (PagePool.allocate : Op (Mounted (Pool n) D) (Guard n)).Ends m <| Op.AnswersOr
      (fun m' => m'.pool.Spent)
      (fun g m' => (g.access = .exclusive ∧ w.sheets g.page = none ∧ g.page ≠ PageId.invalid) ∧
        Scarce queueCapacity first m' (g :: guards) (w.allot g.page)
          (M.put g.page Page.zero))
      fun _ _ => False := by
  obtain ⟨next, hsteady⟩ := h.steady
  have hanswers := allocate_answers h.kept hsteady h.order hstore hroom (h.card_lt hleft)
  have horder := keeps_byShape (Shard.keeps_allocate storeInvariant_true)
    (fun k => ShardedPool.keeps_allocate (n := n) (k := k) storeInvariant_true) m h.order
  refine Op.Ends.mono (hanswers.and (h.kept.allocate.and (hsteady.allocate.and horder)))
    fun r m' hm => ?_
  obtain ⟨hanswers, hkept, hsteady', horder⟩ := hm
  cases r using Checked.outcomes with
  | ok g =>
    obtain ⟨⟨haccess, hnew, hvalid⟩, hkept⟩ := hkept
    obtain ⟨_, _, _, hsteady'⟩ := hsteady'
    have hunseen : w.sheets g.page = none := by
      by_contra hseen
      exact Ledger.sheets_ne_none_iff.mp hseen ((h.shown g.page hseen).1.symm.trans hnew)
    have hfirst : first ≤ g.page.number.toNat := Nat.le_of_not_lt fun hlt => h.held _ hlt hnew
    refine ⟨⟨haccess, hunseen, hvalid⟩, hkept, ⟨_, hsteady'⟩, horder, fun id hid => ?_,
      fun id hid => ?_, List.forall_mem_cons.mpr ⟨?_, fun g' hg' => ?_⟩, h.refusals_eq⟩
    · rw [Memory.put_of_ne]
      · exact h.held id hid
      · rintro rfl
        exact absurd hfirst (Nat.not_le_of_lt hid)
    · rw [w.memory_allot]
      by_cases heq : id = g.page
      · rw [heq, Memory.put_self, Memory.put_self]
        exact ⟨rfl, hfirst, hvalid⟩
      · rw [w.sheets_allot_of_ne _ heq] at hid
        rw [Memory.put_of_ne _ _ heq, Memory.put_of_ne _ _ heq]
        exact h.shown id hid
    · rw [w.sheets_allot_self]
      exact Option.some_ne_none _
    · exact w.sheets_allot_ne_none _ (h.guarded g' hg')
  | error e => exact hanswers e rfl
  | abort a => exact hkept

end Scarce

-- As a pool that refuses nothing.
abbrev scarce [DeviceStore D] (queueCapacity first : Nat)
    (hstore : ∀ e, ¬ LawfulStore.Gives D e) (hroom : n ≤ queueCapacity)
    (hleft : 4294967295 - first < n % Shard.frameNumberLimit) :
    LawfulPool (Mounted (Pool n) D) (Guard n) where
  access := Guard.access
  Kept m guards w := ∃ M, Scarce queueCapacity first m guards w M
  Spent m := m.pool.Spent
  Refuses _ := False
  fetch_ends h _ _ hp _ hjoins := by
    obtain ⟨M, h⟩ := h
    refine (h.fetch hstore hroom hleft hp hjoins).mono fun _ _ ht => ?_
    exact ht.imp (fun _ hg => ⟨hg.1, M, hg.2⟩) fun _ => False.elim
  allocate_ends h := by
    obtain ⟨M, h⟩ := h
    refine (h.allocate hstore hroom hleft).mono fun _ _ ht => ?_
    exact ht.imp (fun ha => ha) (fun _ hg => ⟨hg.1, _, hg.2⟩) fun _ => False.elim
  delete_ends h id := by
    obtain ⟨M, h⟩ := h
    exact (h.delete id).mono fun _ _ ht => ht.imp (fun _ hb => ⟨M, hb⟩) fun _ he => ⟨he.1, M, he.2⟩
  read_eq h g hg := by
    obtain ⟨M, h⟩ := h
    exact (h.shown g.page (h.guarded g hg)).1.symm.trans (h.kept.read hg)
  write_kept h _ hg haccess p := by
    obtain ⟨M, h⟩ := h
    exact ⟨_, h.write hg haccess p⟩
  release_ends h := by
    obtain ⟨M, h⟩ := h
    exact h.release.mono fun _ _ ht => ⟨M, ht⟩
  release_spent g m := release_spent g m

section Narrow

-- A store in which a page near the limit of the ids was written. It leaves ids for `n - 1` pages.
def narrowStore (n : Nat) : MemoryStore :=
  (MemoryStore.write ⟨UInt32.ofNat (4294967295 - n)⟩ Page.zero .empty).state

-- A new pool of `n` frames over it.
def narrow (n : Nat) : Mounted (Pool n) MemoryStore :=
  ⟨.single (Shard.initial n n 0 1 (4294967296 - n)), narrowStore n⟩

theorem page_narrowStore (n : Nat) (id : PageId) :
    LawfulStore.page (narrowStore n) id = Page.zero := by
  change MemoryStore.page (MemoryStore.write _ _ _).state id = _
  rw [MemoryStore.write]
  split
  all_goals
    rw [MemoryStore.page_insert, Function.update_apply]
    split
    · rfl
    · exact Std.HashMap.getD_empty

variable (hpos : 0 < n) (hn : n < 4294967296)
include hpos hn

theorem count_narrowStore : (LawfulStore.count (narrowStore n)).toNat = 4294967296 - n := by
  have hnumber : (UInt32.ofNat (4294967295 - n)).toNat = 4294967295 - n :=
    UInt32.toNat_ofNat_of_lt' (by rw [UInt32.size]; omega)
  have hvalid : (⟨UInt32.ofNat (4294967295 - n)⟩ : PageId) ≠ PageId.invalid := by
    intro hinvalid
    have hsame := congrArg (fun id => id.number.toNat) hinvalid
    simp only [hnumber, PageId.invalid, UInt32.reduceToNat] at hsame
    omega
  have hassigned : (⟨UInt32.ofNat (4294967295 - n)⟩ : PageId).isValid = true := by
    simpa [PageId.isValid] using hvalid
  rw [narrowStore, MemoryStore.write, if_pos hassigned]
  change (max (0 : UInt32) (UInt32.ofNat (4294967295 - n) + 1)).toNat = _
  rw [UInt32.toNat_max, PageId.toNat_succ hvalid, hnumber]
  change max 0 _ = _
  omega

theorem narrow_create :
    ((PoolShape.single n 0 1).create n (narrowStore n)).result = .ok (narrow n).pool ∧
      ((PoolShape.single n 0 1).create n (narrowStore n)).state = narrowStore n := by
  have hcount := count_narrowStore hpos hn
  have hfirst : Shard.firstId 0 1 (LawfulStore.count (narrowStore n)).toNat = 4294967296 - n := by
    rw [hcount, Shard.firstId]
    omega
  have hanswers : PageStore.pageCount.Ends (narrowStore n) fun r d =>
      r = .ok (LawfulStore.count (narrowStore n)) ∧ d = narrowStore n := ⟨rfl, rfl⟩
  have hframes : n ≤ Shard.maxFrames := hn.le.trans (by decide)
  have hqueue : n ≤ EvictionQueue.maxCapacity := hn.le.trans (by decide)
  have hends := PoolShape.create_single_ends hframes hqueue hanswers
  rwa [hfirst] at hends

theorem narrow_reached :
    Reached n (narrow n) [] ((PoolShape.single n 0 1).memory (narrowStore n)) := by
  obtain ⟨hcreate, hstate⟩ := narrow_create hpos hn
  have hreached := Reached.created (.single n 0 1) (d := narrowStore n) trivial
    (fun id _ => page_narrowStore n id) hcreate
  rwa [hstate] at hreached

theorem narrow_scarce : Scarce n (4294967296 - n) (narrow n) [] ⟨fun _ => none, 0⟩
    ((PoolShape.single n 0 1).memory (narrowStore n)) := by
  obtain ⟨hcreate, hstate⟩ := narrow_create hpos hn
  have hscarce := Scarce.created (d := narrowStore n) trivial (fun id _ => page_narrowStore n id) hcreate
  rwa [hstate, count_narrowStore hpos hn] at hscarce

-- The pool as one that refuses nothing.
abbrev narrowPool : LawfulPool (Mounted (Pool n) MemoryStore) (Guard n) :=
  scarce n (4294967296 - n) (fun _ hgives => hgives) (le_refl n) (by
    rw [Shard.frameNumberLimit, Nat.mod_eq_of_lt hn]
    omega)

end Narrow

end Pool

end PagedIndex
