import PagedIndex.Proofs.Pool.Failures
import PagedIndex.Proofs.Pool.Waiting

namespace PagedIndex

namespace Shard

section

variable {n : Nat} {D : Type} {c : ShardConfig} {s : Shard n} {guards : List (Guard n)}
  {m : Mounted (Shard n) D}

theorem Sound.fits (h : s.Sound c guards) (hroom : n ≤ c.queueCapacity) : s.queue.Fits := by
  have hlength := h.queue.nodup_toList.length_le_card
  rw [EvictionQueue.length_toList, Fintype.card_fin] at hlength
  exact hlength.trans (hroom.trans_eq h.capacity_eq.symm)

theorem Sound.full_iff (h : s.Sound c guards) (hroom : n ≤ c.queueCapacity) :
    s.Full ↔ ∀ f, Numbered f → (s.frame f).pins ≠ 0 := by
  constructor
  · rintro ⟨hfree, hqueue⟩ f hnumbered hpins
    rcases (h.placed hroom f hnumbered).somewhere with hf | hf | hf
    · simp [hfree] at hf
    · exact hf.ne' hpins
    · simp [hqueue] at hf
  · intro hpinned
    refine ⟨List.eq_nil_iff_forall_not_mem.mpr fun f hf => ?_,
      List.eq_nil_iff_forall_not_mem.mpr fun f hf => ?_⟩
    · obtain ⟨hpage, hnumbered⟩ := (h.mem_free_iff f).mp hf
      exact hpinned f hnumbered (h.unused f hpage).1
    · obtain ⟨hpage, hpins⟩ := h.queued f hf
      exact hpinned f (h.numbered f hpage) hpins

-- A page without a pin has no guard.
theorem Sound.unguarded (h : s.Sound c guards) {p : PageId} (hp : s.pins? p = some 0) :
    ∀ g ∈ guards, g.page ≠ p := by
  simp only [pins?, frameOf?, Option.map_map, Option.map_eq_some_iff, Function.comp_apply,
    h.table_iff] at hp
  obtain ⟨f, hpage, hpins⟩ := hp
  exact h.not_guarded hpage hpins

namespace Waits

variable {f f' : Fin n} {victim victim' : PageId} {rest rest' : List (Fin n)}

theorem waiting_eq (h : Waits m f victim rest) :
    m.pool.waiting = victim :: m.pool.pagesIn rest := by
  rw [waiting, h.queue, pagesIn_cons h.page]

-- Only one page is the first.
theorem unique (h : Waits m f victim rest) (h' : Waits m f' victim' rest') :
    f' = f ∧ victim' = victim ∧ rest' = rest := by
  obtain ⟨rfl, rfl⟩ := List.cons.inj (h'.queue.symm.trans h.queue)
  exact ⟨rfl, Option.some_inj.mp (h'.page.symm.trans h.page), rfl⟩

theorem not_mem (h : Waits m f victim rest) (hs : m.pool.Sound c guards) : f ∉ rest := by
  have hnodup := hs.queue.nodup_toList
  rw [h.queue] at hnodup
  exact (List.nodup_cons.mp hnodup).1

theorem page_not_mem (h : Waits m f victim rest) (hs : m.pool.Sound c guards) :
    victim ∉ m.pool.pagesIn rest := by
  rw [pagesIn, List.mem_filterMap]
  rintro ⟨f', hrest, hpage⟩
  exact h.not_mem hs (hs.frame_of_page hpage h.page ▸ hrest)

end Waits

end

end Shard

-- What a call does to the pages that wait, if it makes the pages evictable that satisfy `comes`: some
-- leave, and at most one comes to the end.
inductive Moves (comes : PageId → Prop) (before : List PageId) : List PageId → Prop
  | leave {after : List PageId} : after.Sublist before → (∀ p, ¬ comes p) → Moves comes before after
  | queue {kept : List PageId} {p : PageId} : kept.Sublist before → p ∉ kept →
      (∀ q, comes q ↔ q = p) → Moves comes before (kept ++ [p])

-- The pages wait in the order in which they became evictable, which was in the past.
structure InTime (since : PageId → Nat) (now : Nat) (pages : List PageId) : Prop where
  ordered : pages.Pairwise fun p q => since p < since q
  past (p : PageId) : p ∈ pages → since p < now

theorem Moves.inTime {comes : PageId → Prop} {before after : List PageId} {since since' : PageId → Nat}
    {now : Nat} (h : Moves comes before after) (hbefore : InTime since now before)
    (hcomes : ∀ p, comes p → since' p = now) (hstays : ∀ p, ¬ comes p → since' p = since p) :
    InTime since' (now + 1) after := by
  cases h with
  | leave hsub hnone =>
    have hsame : since' = since := funext fun p => hstays p (hnone p)
    rw [hsame]
    exact ⟨hbefore.ordered.sublist hsub, fun p hp => Nat.lt_succ_of_lt (hbefore.past p (hsub.subset hp))⟩
  | @queue kept new hsub hnew hiff =>
    have hkept (p : PageId) (hp : p ∈ kept) : since' p = since p :=
      hstays p fun hcome => hnew ((hiff p).mp hcome ▸ hp)
    have hnow : since' new = now := hcomes new ((hiff new).mpr rfl)
    constructor
    case ordered =>
      rw [List.pairwise_append]
      refine ⟨(hbefore.ordered.sublist hsub).imp_of_mem fun hp hq hlt => ?_,
        List.pairwise_singleton _ _, fun p hp q hq => ?_⟩
      · rwa [hkept _ hp, hkept _ hq]
      · rw [List.mem_singleton.mp hq, hnow, hkept p hp]
        exact hbefore.past p (hsub.subset hp)
    case past =>
      intro p hp
      rcases List.mem_append.mp hp with hp | hp
      · rw [hkept p hp]
        exact Nat.lt_succ_of_lt (hbefore.past p (hsub.subset hp))
      · rw [List.mem_singleton.mp hp, hnow]
        exact Nat.lt_succ_self now

namespace PoolCall

variable {n : Nat} {D : Type} [PageStore D]

-- The call needs a frame for a page that is not resident.
def Acquires (s : Shard n) : PoolCall n → Prop
  | fetch id _ => s.owns id ∧ s.isResident id = false
  | allocate => True
  | _ => False

-- The call is made on a page under another guard, or is no reason for a page to go.
def LeavesOrder (guards : List (Guard n)) : PoolCall n → Prop
  | fetch id _ => ∃ g ∈ guards, g.page = id
  | release g => ∃ other ∈ guards.erase g, other.page = g.page
  | write _ _ | flush _ | flushAll _ => True
  | allocate | delete _ => False

-- With the call the page begins to wait: its last guard is dropped, or it had to make room and could
-- not be written back.
inductive MakesEvictable (m : Mounted (Shard n) D) (guards : List (Guard n)) :
    PoolCall n → PageId → Prop
  | released {g : Guard n} : (∀ other ∈ guards.erase g, other.page ≠ g.page) →
      MakesEvictable m guards (release g) g.page
  | unwritten {call : PoolCall n} {f : Fin n} {victim : PageId} {rest : List (Fin n)}
      {cause : IoError} {d : D} : call.Acquires m.pool → Shard.Waits m f victim rest →
      (m.pool.frame f).dirty = true →
      (PageStore.writePage victim (m.pool.frame f).bytes).Fails cause m.store d →
      MakesEvictable m guards call victim

end PoolCall

namespace Shard

variable {n : Nat} {D : Type} [PageStore D] [LawfulStore D]

-- The states that a shard gets into, with the number of calls so far, the live guards, and for each
-- page when it last became evictable. Others may change the store between two calls.
inductive Timed (n : Nat) (c : ShardConfig) (D : Type) [PageStore D] [LawfulStore D] :
    Nat → Shard n → List (Guard n) → (PageId → Nat) → Prop
  | created {d : D} {s : Shard n} {since : PageId → Nat} :
      (create n c.queueCapacity c.index c.count d).result = .ok s → Timed n c D 0 s [] since
  | step {now : Nat} {s : Shard n} {guards : List (Guard n)} {since since' : PageId → Nat} {d : D}
      (call : PoolCall n) : Timed n c D now s guards since → LawfulStore.Sound d →
      call.Legal guards → (call.run (⟨s, d⟩ : Mounted (Shard n) D)).result.Returns →
      (∀ p, call.MakesEvictable (⟨s, d⟩ : Mounted (Shard n) D) guards p → since' p = now) →
      (∀ p, ¬ call.MakesEvictable (⟨s, d⟩ : Mounted (Shard n) D) guards p → since' p = since p) →
      Timed n c D (now + 1) (call.run (⟨s, d⟩ : Mounted (Shard n) D)).state.pool
        (call.guardsAfter guards (call.run (⟨s, d⟩ : Mounted (Shard n) D)).result) since'

-- A frame was obtained and nothing but that frame changed after it, or else none was obtained.
inductive Acquired {α : Type} (m : Mounted (Shard n) D) : Checked α → Mounted (Shard n) D → Prop
  | obtained {f : Fin n} {between m' : Mounted (Shard n) D} {r : Checked α} : Obtained m f between →
      r ≠ .error (.error .poolFull) → m'.pool.queue = between.pool.queue →
      (∀ f' ≠ f, m'.pool.frame f' = between.pool.frame f') →
      (∀ p, m.pool.isResident p → m'.pool.isResident p = between.pool.isResident p) → Acquired m r m'
  | unobtained {e : StoreError} {m' : Mounted (Shard n) D} : Unobtained m e m' →
      Acquired m (.error (.error e)) m'

variable {c : ShardConfig} {s : Shard n} {d : D} {guards : List (Guard n)}
  {m between : Mounted (Shard n) D}

theorem Obtained.counter {f : Fin n} (h : Obtained m f between) :
    between.pool.nextId = m.pool.nextId ∧ between.pool.count = m.pool.count := by
  cases h <;> exact ⟨rfl, rfl⟩

-- The new page was put into the frame that was obtained.
theorem Acquired.installed {f : Fin n} (h : Obtained m f between) {id : PageId}
    (habsent : m.pool.isResident id = false) (hqueue : s.queue = between.pool.queue)
    (hframe : ∀ f', s.frame f' = between.pool.frame f') (htable : s.table = between.pool.table)
    (x : Frame) (access : Access) :
    (guard id access f).Ends ⟨(s.setFrame f x).enter id f, d⟩
      (Op.Then (fun g => Pure.pure (some g)) (Acquired m)) := by
  refine (guard_latches id access f _).mono fun r m' hm => ?_
  obtain ⟨rfl, latch, rfl⟩ := hm
  refine Acquired.obtained h (by rintro ⟨⟩) hqueue (fun f' hf' => ?_) fun p hp => ?_
  · change (Shard.setFrame f _ _).frame f' = _
    rw [frame_setFrame, if_neg hf'.symm, frame_enter, frame_setFrame, if_neg hf'.symm, hframe]
  · have hne : id ≠ p := by
      rintro rfl
      exact Bool.noConfusion (hp.symm.trans habsent)
    change (s.table.insert id f).contains p = between.pool.table.contains p
    simp [hne, htable]

variable [DeviceStore D]

theorem fetch_acquired (h : s.Sound c guards) (hroom : n ≤ c.queueCapacity)
    (hd : LawfulStore.Sound d) {id : PageId} (access : Access) (howns : s.owns id)
    (habsent : s.isResident id = false) :
    (PoolCall.fetch id access).run.Ends ⟨s, d⟩ (Acquired (⟨s, d⟩ : Mounted (Shard n) D)) := by
  have htable : s.table[id]? = none := by simpa [isResident] using habsent
  rw [PoolCall.run, Op.ends_map]
  change (fetch id access).Ends _ _
  simp only [fetch, pin, Op.ends_bind, Mounted.ends_observe, Op.then_ok, htable, howns,
    Bool.not_true, Bool.false_eq_true, if_false]
  refine (acquire_outcome h (h.fits hroom) hd).mono fun r between hm => ?_
  cases r using Checked.outcomes with
  | ok f =>
    obtain ⟨hobtained, hsound⟩ := hm
    simp only [Op.then_ok, Op.ends_bind, Op.ends_attempt, Mounted.ends_onStore]
    refine (LawfulStore.readPage_ends id hsound).mono fun r d' hr => ?_
    cases r using Checked.outcomes with
    | ok bytes => exact Acquired.installed hobtained habsent rfl (fun _ => rfl) rfl _ access
    | error e =>
      obtain ⟨cause, rfl⟩ := DeviceStore.gives_io hr.1
      exact Acquired.obtained hobtained (by rintro ⟨⟩) rfl (fun _ _ => rfl) fun _ _ => rfl
    | abort a => exact hr.elim
  | error e => exact Acquired.unobtained hm
  | abort a => exact hm.elim

theorem allocate_acquired (h : s.Sound c guards) (hroom : n ≤ c.queueCapacity)
    (hd : LawfulStore.Sound d) :
    PoolCall.allocate.run.Ends ⟨s, d⟩ (Acquired (⟨s, d⟩ : Mounted (Shard n) D)) := by
  rw [PoolCall.run, Op.ends_map]
  change allocate.Ends _ _
  simp only [allocate, Op.ends_bind, Op.ends_attempt]
  refine (acquire_outcome h (h.fits hroom) hd).mono fun r between hm => ?_
  cases r using Checked.outcomes with
  | ok f =>
    obtain ⟨hobtained, -⟩ := hm
    obtain ⟨hnext, hcount⟩ := hobtained.counter
    simp only [Op.attempted_ok, Op.then_ok, Op.ends_bind, Mounted.ends_observe, Op.ends_require]
    split
    · rename_i hlimit
      rw [hnext, hcount] at hlimit
      have habsent : s.isResident ⟨UInt32.ofNat between.pool.nextId⟩ = false := by
        rw [isResident, Std.HashMap.contains_eq_isSome_getElem?, hnext, h.nextId_absent hlimit]
        rfl
      exact Acquired.installed (s := between.pool.setNextId (between.pool.nextId + between.pool.count))
        (d := between.store) hobtained habsent rfl (fun _ => rfl) rfl
        (Frame.loaded ⟨UInt32.ofNat between.pool.nextId⟩ Page.zero) .exclusive
    · exact Acquired.obtained hobtained (by rintro ⟨⟩) rfl (fun _ _ => rfl) fun _ _ => rfl
  | error e => exact Acquired.unobtained hm
  | abort a => exact hm.elim

section

omit [DeviceStore D]

variable {call : PoolCall n} {α : Type} {r : Checked α} {m' : Mounted (Shard n) D}

omit [LawfulStore D] in
theorem waits_of_makesEvictable (hcall : call.Acquires m.pool) {p : PageId}
    (h : call.MakesEvictable m guards p) : ∃ f rest cause d, Waits m f p rest ∧
      (m.pool.frame f).dirty = true ∧
      (PageStore.writePage p (m.pool.frame f).bytes).Fails cause m.store d := by
  cases h with
  | released _ => exact hcall.elim
  | unwritten _ hwaits hdirty hfails => exact ⟨_, _, _, _, hwaits, hdirty, hfails⟩

-- Where a frame is obtained, no page that had to make room is left to wait again.
theorem Obtained.not_makesEvictable {f : Fin n} (h : Obtained m f between)
    (hcall : call.Acquires m.pool) (p : PageId) : ¬ call.MakesEvictable m guards p := by
  intro hmakes
  obtain ⟨f', rest, cause, d, hwaits, hdirty, hfails⟩ := waits_of_makesEvictable hcall hmakes
  cases h with
  | free hfree => exact List.cons_ne_nil _ _ (hfree.symm.trans hwaits.free)
  | evicted hwaits' _ hwritten =>
    obtain ⟨rfl, rfl, rfl⟩ := hwaits'.unique hwaits
    cases hwritten with
    | clean hclean => exact Bool.noConfusion (hclean.symm.trans hdirty)
    | written _ hok _ _ => cases hok.symm.trans hfails.1

theorem Obtained.waiting_sublist {f : Fin n} (h : Obtained m f between)
    (hs : m.pool.Sound c guards) (hqueue : m'.pool.queue = between.pool.queue)
    (hframe : ∀ f' ≠ f, m'.pool.frame f' = between.pool.frame f') :
    m'.pool.waiting.Sublist m.pool.waiting := by
  cases h with
  | free hfree =>
    have hpage : (m.pool.frame f).page = none :=
      ((hs.mem_free_iff f).mp (hfree ▸ List.mem_cons_self)).1
    have hsame : m'.pool.waiting = m.pool.waiting := by
      refine waiting_congr hqueue fun f' hf' => ?_
      have hne : f' ≠ f := by
        rintro rfl
        exact (hs.queued f' hf').1 hpage
      rw [hframe f' hne, frame_setFree]
    exact (congrArg (List.Sublist · m.pool.waiting) hsame).mpr (.refl _)
  | @evicted victim rest queue d hwaits hrest _ =>
    have hrest' : m'.pool.queue.toList = rest := (congrArg _ hqueue).trans hrest
    have hafter : m'.pool.waiting = m.pool.pagesIn rest := by
      rw [waiting, hrest']
      refine pagesIn_congr fun f' hf' => ?_
      have hne : f' ≠ f := fun hf => hwaits.not_mem hs (hf ▸ hf')
      rw [hframe f' hne, frame_forget, frame_setFrame, if_neg hne.symm, frame_setQueue]
    rw [hafter, hwaits.waiting_eq]
    exact List.sublist_cons_self _ _

theorem Acquired.moves (h : Acquired m r m') (hs : m.pool.Sound c guards)
    (hcall : call.Acquires m.pool) :
    Moves (call.MakesEvictable m guards) m.pool.waiting m'.pool.waiting := by
  cases h with
  | obtained hobtained _ hqueue hframe _ =>
    exact .leave (hobtained.waiting_sublist hs hqueue hframe) (hobtained.not_makesEvictable hcall)
  | unobtained hunobtained =>
    cases hunobtained with
    | full hfull =>
      refine .leave (.refl _) fun p hmakes => ?_
      obtain ⟨_, _, _, _, hwaits, _⟩ := waits_of_makesEvictable hcall hmakes
      exact List.cons_ne_nil _ _ (hwaits.queue.symm.trans hfull.2)
    | @requeued cause _ f victim rest hrequeued =>
      have hwaits := hrequeued.waits
      have hafter : m'.pool.waiting = m.pool.pagesIn rest ++ [victim] := by
        rw [waiting, hrequeued.requeued, hrequeued.pool]
        exact pagesIn_concat hwaits.page rest
      rw [hafter, hwaits.waiting_eq]
      refine .queue (List.sublist_cons_self _ _) (hwaits.page_not_mem hs) fun p => ⟨fun hmakes => ?_, ?_⟩
      · obtain ⟨_, _, _, _, hwaits', _⟩ := waits_of_makesEvictable hcall hmakes
        exact (hwaits.unique hwaits').2.1
      · rintro rfl
        exact .unwritten hcall hwaits hrequeued.dirty hrequeued.fails

end

omit [LawfulStore D] [DeviceStore D] in
theorem makesEvictable_release {call : PoolCall n} (hcall : ¬ call.Acquires m.pool) {p : PageId}
    (h : call.MakesEvictable m guards p) :
    ∃ g, call = .release g ∧ p = g.page ∧ ∀ other ∈ guards.erase g, other.page ≠ g.page := by
  cases h with
  | released hlast => exact ⟨_, rfl, rfl, hlast⟩
  | unwritten hcall' => exact absurd hcall' hcall

omit [LawfulStore D] [DeviceStore D] in
theorem not_makesEvictable {call : PoolCall n} (hcall : ¬ call.Acquires m.pool)
    (hother : ∀ g, call ≠ .release g) (p : PageId) : ¬ call.MakesEvictable m guards p := by
  intro hmakes
  obtain ⟨g, hg, _⟩ := makesEvictable_release hcall hmakes
  exact hother g hg

omit [LawfulStore D] [DeviceStore D] in
-- The calls that are made on a page under another guard leave the order as it is.
theorem leavesOrder_waiting (h : s.Sound c guards) (hroom : n ≤ c.queueCapacity) (call : PoolCall n)
    (hlegal : call.Legal guards) (hleaves : call.LeavesOrder guards) :
    call.run.Ends (⟨s, d⟩ : Mounted (Shard n) D) fun _ m' => m'.pool.waiting = s.waiting := by
  cases call with
  | fetch id access =>
    obtain ⟨g, hg, rfl⟩ := hleaves
    have htable := h.guarded g hg
    have hpage := (h.table_iff _ _).mp htable
    have hout : g.frame ∉ s.queue.toList := h.not_queued fun hpins =>
      h.not_guarded hpage hpins g hg rfl
    rw [PoolCall.run, Op.ends_map]
    refine (fetch_waiting h htable access).mono fun r m hm => ?_
    rw [List.erase_of_not_mem hout] at hm
    cases r <;> exact hm
  | allocate => exact hleaves.elim
  | write g page => exact write_waiting g page s
  | release g =>
    obtain ⟨other, hother, hpage⟩ := hleaves
    rw [PoolCall.run, Op.ends_bind]
    refine (release_waiting (h.perm (List.perm_cons_erase hlegal)) hroom).mono fun r m hm => ?_
    obtain ⟨rfl, hm⟩ := hm
    rw [if_neg fun hzero => (pinsOn_eq_zero _ _).mp hzero other hother hpage] at hm
    exact hm
  | flush id =>
    rw [PoolCall.run, Op.ends_bind, Op.ends_discard]
    refine (flush_waiting id s).mono fun r m hm => ?_
    cases r <;> exact hm
  | flushAll walk =>
    rw [PoolCall.run, Op.ends_bind]
    refine (flushAll_waiting walk s).mono fun r m hm => ?_
    cases r <;> exact hm
  | delete id => exact hleaves.elim

theorem call_acquired (h : s.Sound c guards) (hroom : n ≤ c.queueCapacity)
    (hd : LawfulStore.Sound d) (call : PoolCall n) (hcall : call.Acquires s) :
    call.run.Ends ⟨s, d⟩ (Acquired (⟨s, d⟩ : Mounted (Shard n) D)) := by
  cases call with
  | fetch id access => exact fetch_acquired h hroom hd access hcall.1 hcall.2
  | allocate => exact allocate_acquired h hroom hd
  | _ => exact hcall.elim

omit [LawfulStore D] [DeviceStore D] in
-- Without a frame to look for, the page of a fetch at most stops to wait.
theorem fetch_moves (h : s.Sound c guards) {id : PageId} (access : Access)
    (hcall : ¬ (PoolCall.fetch id access).Acquires s) :
    (PoolCall.fetch id access).run.Ends (⟨s, d⟩ : Mounted (Shard n) D) fun _ m' =>
      Moves ((PoolCall.fetch id access).MakesEvictable (⟨s, d⟩ : Mounted (Shard n) D) guards)
        s.waiting m'.pool.waiting := by
  have hnone (p : PageId) :
      ¬ (PoolCall.fetch id access).MakesEvictable (⟨s, d⟩ : Mounted (Shard n) D) guards p :=
    not_makesEvictable hcall (by rintro g ⟨⟩) p
  rw [PoolCall.run, Op.ends_map]
  cases htable : s.table[id]? with
  | some f =>
    refine (fetch_waiting h htable access).mono fun r m hm => ?_
    have hsub : m.pool.waiting.Sublist s.waiting := hm ▸ pagesIn_sublist List.erase_sublist s
    cases r <;> exact .leave hsub hnone
  | none =>
    have howns : s.owns id = false := by
      by_contra hyes
      exact hcall ⟨by simpa using hyes, by simpa [isResident] using htable⟩
    change (fetch id access).Ends _ _
    simp only [fetch, pin, Op.ends_bind, Mounted.ends_observe, Op.then_ok, htable, howns]
    exact .leave (.refl _) hnone

omit [LawfulStore D] [DeviceStore D] in
-- With its last guard the page of a release goes to the end.
theorem release_moves (h : s.Sound c guards) (hroom : n ≤ c.queueCapacity) {g : Guard n}
    (hlegal : (PoolCall.release g).Legal guards)
    (hlast : ∀ other ∈ guards.erase g, other.page ≠ g.page) :
    (PoolCall.release g).run.Ends (⟨s, d⟩ : Mounted (Shard n) D) fun _ m' =>
      Moves ((PoolCall.release g).MakesEvictable (⟨s, d⟩ : Mounted (Shard n) D) guards)
        s.waiting m'.pool.waiting := by
  have hcall : ¬ (PoolCall.release g).Acquires s := id
  rw [PoolCall.run, Op.ends_bind]
  refine (release_waiting (h.perm (List.perm_cons_erase hlegal)) hroom).mono fun r m hm => ?_
  obtain ⟨rfl, hm⟩ := hm
  rw [if_pos ((pinsOn_eq_zero _ _).mpr hlast)] at hm
  change Moves _ s.waiting m.pool.waiting
  rw [hm]
  refine .queue (.refl _) (fun hwaits => ?_) fun p => ⟨fun hmakes => ?_, ?_⟩
  · exact h.unguarded ((h.mem_waiting hroom _).mp hwaits) g hlegal rfl
  · obtain ⟨g', hg', rfl, _⟩ := makesEvictable_release hcall hmakes
    cases hg'
    rfl
  · rintro rfl
    exact .released hlast

-- Every call moves the pages that wait as it should.
theorem call_moves (h : m.pool.Sound c guards) (hroom : n ≤ c.queueCapacity)
    (hd : LawfulStore.Sound m.store) (call : PoolCall n) (hlegal : call.Legal guards) :
    call.run.Ends m fun _ m' =>
      Moves (call.MakesEvictable m guards) m.pool.waiting m'.pool.waiting := by
  obtain ⟨s, d⟩ := m
  by_cases hcall : call.Acquires s
  · exact (call_acquired h hroom hd call hcall).mono fun r m' hm => hm.moves h hcall
  by_cases hleaves : call.LeavesOrder guards
  · refine (leavesOrder_waiting h hroom call hlegal hleaves).mono fun r m' hm => ?_
    rw [hm]
    refine .leave (.refl _) fun p hmakes => ?_
    obtain ⟨g, rfl, _, hlast⟩ := makesEvictable_release hcall hmakes
    obtain ⟨other, hother, hpage⟩ := hleaves
    exact hlast other hother hpage
  cases call with
  | fetch id access => exact fetch_moves h access hcall
  | allocate => exact absurd trivial hcall
  | release g =>
    have hlast : ∀ other ∈ guards.erase g, other.page ≠ g.page := by
      simpa [PoolCall.LeavesOrder] using hleaves
    exact release_moves h hroom hlegal hlast
  | delete id =>
    rw [PoolCall.run, Op.ends_bind, Op.ends_discard]
    refine (delete_waiting h id).mono fun r m hm => ?_
    cases r <;> exact .leave hm (not_makesEvictable hcall (by rintro g ⟨⟩))
  | _ => exact absurd trivial hleaves

-- The page without a pin that became evictable first.
structure LongestEvictable (since : PageId → Nat) (s : Shard n) (p : PageId) : Prop where
  unpinned : s.pins? p = some 0
  first (other : PageId) : other ≠ p → s.pins? other = some 0 → since p < since other

-- The page leaves to make room, or else it cannot be written back and the call fails for that.
inductive MakesRoom {α : Type} (victim : PageId) (m : Mounted (Shard n) D) (r : Checked α)
    (m' : Mounted (Shard n) D) : Prop
  | evicted : m'.pool.isResident victim = false → MakesRoom victim m r m'
  | unwritten {f : Fin n} {cause : IoError} : m.pool.table[victim]? = some f →
      (m.pool.frame f).dirty = true →
      (PageStore.writePage victim (m.pool.frame f).bytes).Fails cause m.store m'.store →
      r = .error (.error (.io cause)) → m'.pool.isResident victim → MakesRoom victim m r m'

-- What becomes of the resident pages in a call that needs a frame. Only frames with a number count.
structure Evicts {α : Type} (since : PageId → Nat) (m : Mounted (Shard n) D) (r : Checked α)
    (m' : Mounted (Shard n) D) : Prop where
  full_iff : r = .error (.error .poolFull) ↔ ∀ f, Numbered f → (m.pool.frame f).pins ≠ 0
  spares : m.pool.free ≠ [] → ∀ p, m.pool.isResident p → m'.pool.isResident p
  selects : m.pool.free = [] → ∀ f, Numbered f → (m.pool.frame f).pins = 0 → ∃ victim,
    LongestEvictable since m.pool victim ∧ MakesRoom victim m r m' ∧
      ∀ p ≠ victim, m.pool.isResident p → m'.pool.isResident p

-- The pages without a pin wait in the order in which they became evictable, and make room in it.
structure EvictsInOrder (since : PageId → Nat) (guards : List (Guard n)) (m : Mounted (Shard n) D) :
    Prop where
  mem_waiting (p : PageId) : p ∈ m.pool.waiting ↔ m.pool.pins? p = some 0
  ordered : m.pool.waiting.Pairwise fun p q => since p < since q
  guarded (g : Guard n) : g ∈ guards → m.pool.isResident g.page ∧ g.page ∉ m.pool.waiting
  acquires (call : PoolCall n) : call.Acquires m.pool → call.run.Ends m (Evicts since m)
  keeps (call : PoolCall n) : call.Legal guards → call.LeavesOrder guards →
    call.run.Ends m fun _ m' => m'.pool.waiting = m.pool.waiting

omit [LawfulStore D] [DeviceStore D] in
theorem waiting_of_created {d : D}
    (h : (create n c.queueCapacity c.index c.count d).result = .ok s) : s.waiting = [] := by
  have hends := create_ends (n := n) c.queueCapacity c.index c.count (P := fun _ _ => True)
    (Op.ends_of_forall (x := PageStore.pageCount) (s := d) fun r _ => by cases r <;> trivial)
  rw [Op.Ends, h] at hends
  obtain ⟨_, _, _, _, rfl⟩ := hends
  rw [waiting, queue_initial, EvictionQueue.toList_empty]
  rfl

theorem Timed.inTime {now : Nat} {since : PageId → Nat} (h : Timed n c D now s guards since)
    (hroom : n ≤ c.queueCapacity) : s.Sound c guards ∧ InTime since now s.waiting := by
  induction h with
  | created hcreate =>
    refine ⟨(Reached.created hcreate).sound, ?_⟩
    rw [waiting_of_created hcreate]
    exact ⟨.nil, nofun⟩
  | step call _ hd hlegal hreturns hnow hthen ih =>
    exact ⟨call_sound ih.1 call hlegal hreturns,
      (call_moves ih.1 hroom hd call hlegal).inTime ih.2 hnow hthen⟩

section

omit [DeviceStore D]

variable {since : PageId → Nat} {α : Type} {r : Checked α} {m' : Mounted (Shard n) D}

omit [PageStore D] [LawfulStore D] in
theorem Waits.longest {f : Fin n} {victim : PageId} {rest : List (Fin n)}
    (h : Waits m f victim rest) (hs : m.pool.Sound c guards) (hroom : n ≤ c.queueCapacity)
    (horder : m.pool.waiting.Pairwise fun p q => since p < since q) :
    LongestEvictable since m.pool victim := by
  have hmem (p : PageId) := hs.mem_waiting hroom p
  rw [h.waiting_eq] at horder hmem
  refine ⟨(hmem victim).mp List.mem_cons_self, fun other hne hother => ?_⟩
  have hrest := ((List.mem_cons.mp ((hmem other).mpr hother)).resolve_left hne)
  exact (List.pairwise_cons.mp horder).1 other hrest

theorem Acquired.full_iff (h : Acquired m r m') (hs : m.pool.Sound c guards)
    (hroom : n ≤ c.queueCapacity) :
    r = .error (.error .poolFull) ↔ ∀ f, Numbered f → (m.pool.frame f).pins ≠ 0 := by
  rw [← hs.full_iff hroom]
  cases h with
  | obtained hobtained hne _ _ _ =>
    refine ⟨fun hr => absurd hr hne, fun hfull => ?_⟩
    cases hobtained with
    | free hfree => exact absurd (hfree.symm.trans hfull.1) (List.cons_ne_nil _ _)
    | evicted hwaits _ _ => exact absurd (hwaits.queue.symm.trans hfull.2) (List.cons_ne_nil _ _)
  | unobtained hunobtained =>
    cases hunobtained with
    | full hfull => exact ⟨fun _ => hfull, fun _ => rfl⟩
    | requeued hrequeued =>
      refine ⟨by rintro ⟨⟩, fun hfull => ?_⟩
      exact absurd (hrequeued.waits.queue.symm.trans hfull.2) (List.cons_ne_nil _ _)

theorem Acquired.spares (h : Acquired m r m') (hfree : m.pool.free ≠ []) (p : PageId)
    (hp : m.pool.isResident p) : m'.pool.isResident p := by
  cases h with
  | obtained hobtained _ _ _ hresident =>
    rw [hresident p hp]
    cases hobtained with
    | free _ => exact hp
    | evicted hwaits _ _ => exact absurd hwaits.free hfree
  | unobtained hunobtained =>
    cases hunobtained with
    | full _ => exact hp
    | requeued hrequeued => exact absurd hrequeued.waits.free hfree

theorem Acquired.selects (h : Acquired m r m') (hs : m.pool.Sound c guards)
    (hroom : n ≤ c.queueCapacity) (horder : m.pool.waiting.Pairwise fun p q => since p < since q)
    (hfree : m.pool.free = []) {f : Fin n} (hnumbered : Numbered f) (hf : (m.pool.frame f).pins = 0) :
    ∃ victim, LongestEvictable since m.pool victim ∧ MakesRoom victim m r m' ∧
      ∀ p ≠ victim, m.pool.isResident p → m'.pool.isResident p := by
  cases h with
  | obtained hobtained _ _ _ hresident =>
    cases hobtained with
    | free hlist => exact absurd (hlist.symm.trans hfree) (List.cons_ne_nil _ _)
    | @evicted victim rest _ _ hwaits _ _ =>
      have hlongest := hwaits.longest hs hroom horder
      have hvictim : m.pool.isResident victim := isResident_of_table hwaits.resident
      refine ⟨victim, hlongest, .evicted ?_, fun p hne hp => ?_⟩
      · rw [hresident victim hvictim]
        simp [isResident]
      · rw [hresident p hp]
        simpa [isResident, hne.symm] using hp
  | unobtained hunobtained =>
    cases hunobtained with
    | full hfull => exact absurd hf ((hs.full_iff hroom).mp hfull f hnumbered)
    | @requeued cause _ f' victim rest hrequeued =>
      have hwaits := hrequeued.waits
      have hsame (p : PageId) : m'.pool.isResident p = m.pool.isResident p := by
        rw [hrequeued.pool]
        rfl
      exact ⟨victim, hwaits.longest hs hroom horder, .unwritten hwaits.resident hrequeued.dirty
        hrequeued.fails rfl ((hsame victim).trans (isResident_of_table hwaits.resident)),
        fun p _ hp => (hsame p).trans hp⟩

end

-- A shard that has no number for its frames has no frame to give, though none has a pin.
theorem exists_full_of_mod (hn : n % frameNumberLimit = 0) (hframes : n ≤ maxFrames)
    (hqueue : n ≤ EvictionQueue.maxCapacity) :
    ∃ m : Mounted (Shard n) MemoryStore, Timed n ⟨0, 1, n⟩ MemoryStore 0 m.pool [] (fun _ => 0) ∧
      (∀ f, (m.pool.frame f).pins = 0) ∧
      (PoolCall.allocate.run m).result = .error (.error .poolFull) := by
  have hcount : PageStore.pageCount.Ends MemoryStore.empty fun r d => r = .ok 0 ∧ d = .empty :=
    ⟨rfl, rfl⟩
  obtain ⟨hcreate, _⟩ := create_whole_ends hframes hqueue hcount
  have hfull := initial_full hn n 0 1 (firstId 0 1 (0 : UInt32).toNat)
  refine ⟨⟨initial n n 0 1 _, .empty⟩, .created (d := .empty) hcreate, fun f => ?_, ?_⟩
  · rw [frame_initial]
    rfl
  · have hends := allocate_of_full (m := ⟨_, MemoryStore.empty⟩) hfull
    rw [PoolCall.run, Op.result_map]
    exact congrArg (Except.map some) hends.1

end Shard

end PagedIndex
