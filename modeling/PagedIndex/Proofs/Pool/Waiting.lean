import PagedIndex.Proofs.Pool.Runs

namespace PagedIndex

namespace Shard

variable {n : Nat}

section

variable {s s' : Shard n} {frames others : List (Fin n)}

def pagesIn (frames : List (Fin n)) (s : Shard n) : List PageId :=
  frames.filterMap fun f => (s.frame f).page

-- The pages that may be evicted, the first to leave in front.
def waiting (s : Shard n) : List PageId := s.pagesIn s.queue.toList

theorem pagesIn_congr (h : ∀ f ∈ frames, (s'.frame f).page = (s.frame f).page) :
    s'.pagesIn frames = s.pagesIn frames := List.filterMap_congr h

theorem pagesIn_sublist (h : frames.Sublist others) (s : Shard n) :
    (s.pagesIn frames).Sublist (s.pagesIn others) := h.filterMap _

theorem pagesIn_cons {f : Fin n} {p : PageId} (h : (s.frame f).page = some p)
    (frames : List (Fin n)) : s.pagesIn (f :: frames) = p :: s.pagesIn frames :=
  List.filterMap_cons_some h

theorem pagesIn_concat {f : Fin n} {p : PageId} (h : (s.frame f).page = some p)
    (frames : List (Fin n)) : s.pagesIn (frames ++ [f]) = s.pagesIn frames ++ [p] := by
  rw [pagesIn, List.filterMap_append]
  exact congrArg (s.pagesIn frames ++ ·) (pagesIn_cons h [])

theorem waiting_congr (hqueue : s'.queue = s.queue)
    (h : ∀ f ∈ s.queue.toList, (s'.frame f).page = (s.frame f).page) : s'.waiting = s.waiting := by
  rw [waiting, hqueue]
  exact pagesIn_congr h

-- A frame may change in all but its page.
theorem pagesIn_setFrame {f : Fin n} {x : Frame} (hx : x.page = (s.frame f).page) :
    (s.setFrame f x).pagesIn frames = s.pagesIn frames := by
  refine pagesIn_congr fun f' _ => ?_
  rw [frame_setFrame]
  split
  · rename_i hf
    rw [hx, hf]
  · rfl

theorem waiting_setFrame {f : Fin n} {x : Frame} (hx : x.page = (s.frame f).page) :
    (s.setFrame f x).waiting = s.waiting := pagesIn_setFrame hx

end

-- A frame that is not queued goes to the end of a queue with room for all frames.
theorem toList_push_of_room {q : EvictionQueue (Fin n)} (hq : q.Sound) (hroom : n ≤ q.capacity)
    {f : Fin n} (hf : f ∉ q.toList) : (q.push f).toList = q.toList ++ [f] := by
  have hmem := (mem_push_of_room hq hroom f f).mpr (Or.inr rfl)
  rw [hq.toList_push] at hmem ⊢
  split
  · rename_i hfull
    rw [if_pos hfull] at hmem
    exact absurd hmem hf
  · rfl

namespace Sound

variable {c : ShardConfig} {s : Shard n} {guards : List (Guard n)}

theorem mem_waiting (h : s.Sound c guards) (hroom : n ≤ c.queueCapacity) (p : PageId) :
    p ∈ s.waiting ↔ s.pins? p = some 0 := by
  simp only [waiting, pagesIn, List.mem_filterMap, pins?, frameOf?, Option.map_map,
    Option.map_eq_some_iff, Function.comp_apply, h.table_iff]
  constructor
  · rintro ⟨f, hqueued, hpage⟩
    exact ⟨f, hpage, (h.queued f hqueued).2⟩
  · rintro ⟨f, hpage, hpins⟩
    exact ⟨f, h.evictable hroom f (hpage ▸ Option.some_ne_none p) hpins, hpage⟩

end Sound

section

variable {D : Type} [PageStore D] {c : ShardConfig} {s : Shard n} {d : D} {guards : List (Guard n)}

-- A page that is resident does not wait under one more guard.
theorem fetch_waiting (h : s.Sound c guards) {id : PageId} {f : Fin n} (htable : s.table[id]? = some f)
    (access : Access) : (fetch id access).Ends ⟨s, d⟩ fun _ m =>
      m.pool.waiting = s.pagesIn (s.queue.toList.erase f) := by
  rw [fetch, Op.ends_bind, ends_pin_resident htable]
  split
  case isFalse hlimit =>
    -- so many guards are on the page that it does not wait
    have hpinned : (s.frame f).pins ≠ 0 := by
      rw [pinLimit] at hlimit
      omega
    rw [Op.then_error, List.erase_of_not_mem (h.not_queued hpinned)]
    rfl
  rw [Op.then_ok]
  refine (guard_latches id access f _).mono fun r m hm => ?_
  obtain ⟨-, latch, rfl⟩ := hm
  refine Eq.trans (waiting_setFrame rfl) ?_
  change (s.setFrame f _).pagesIn (s.queue.remove f).toList = _
  rw [h.queue.toList_remove]
  exact pagesIn_setFrame rfl

theorem write_waiting (g : Guard n) (page : Page) (s : Shard n) :
    (s.write g page).waiting = s.waiting := waiting_setFrame rfl

omit [PageStore D] in
theorem unpin_waiting {g : Guard n} (h : s.Sound c (g :: guards)) (hroom : n ≤ c.queueCapacity)
    (modified : Bool) {y : Frame} (hpage : y.page = (s.frame g.frame).page)
    (hpins : y.pins = (s.frame g.frame).pins) :
    (unpin g.page modified).Ends ⟨s.setFrame g.frame y, d⟩ fun r m => r = .ok () ∧
      m.pool.waiting = if pinsOn g.page guards = 0 then s.waiting ++ [g.page] else s.waiting := by
  have hframe := (h.table_iff _ _).mp (h.guarded g List.mem_cons_self)
  have hcount := h.pins_eq _ _ hframe
  rw [pinsOn_cons, if_pos rfl] at hcount
  have hout : g.frame ∉ s.queue.toList := h.not_queued (by omega)
  rw [ends_unpin_guard h modified hpins rfl, hpins, hcount, Nat.add_sub_cancel]
  refine ⟨rfl, ?_⟩
  split
  · change (s.setFrame g.frame _).pagesIn (s.queue.push g.frame).toList = _
    rw [toList_push_of_room h.queue (h.capacity_eq ▸ hroom) hout]
    refine Eq.trans (pagesIn_setFrame ?_) (pagesIn_concat hframe _)
    exact hpage
  · exact waiting_setFrame hpage

omit [PageStore D] in
theorem release_waiting {g : Guard n} (h : s.Sound c (g :: guards)) (hroom : n ≤ c.queueCapacity) :
    (release g).Ends ⟨s, d⟩ fun r m => r = .ok () ∧
      m.pool.waiting = if pinsOn g.page guards = 0 then s.waiting ++ [g.page] else s.waiting := by
  unfold release
  cases g.access with
  | shared =>
    have hends := unpin_waiting (d := d) h hroom false rfl rfl
    rwa [setFrame_frame] at hends
  | exclusive =>
    simp only [Op.ends_bind, Mounted.ends_observe, Op.then_ok, Mounted.ends_update,
      modifyFrame_eq_setFrame]
    exact unpin_waiting h hroom _ rfl rfl

theorem writeBack_dirt (id : PageId) (f : Fin n) (s : Shard n) :
    (writeBack id f).Ends ⟨s, d⟩ fun _ m => ∃ dirty, m.pool = s.setFrame f { s.frame f with dirty } := by
  have hsame : s = s.setFrame f { s.frame f with dirty := (s.frame f).dirty } :=
    (setFrame_frame s f).symm
  rw [ends_writeBack]
  split
  · refine Op.ends_of_forall fun r d' => ?_
    cases r with
    | ok u => exact ⟨false, rfl⟩
    | error e => exact ⟨_, hsame⟩
  · exact ⟨_, hsame⟩

theorem flush_waiting (id : PageId) (s : Shard n) :
    (flush id).Ends ⟨s, d⟩ fun _ m => m.pool.waiting = s.waiting := by
  rw [ends_flush]
  cases s.table[id]? with
  | none => rfl
  | some f =>
    dsimp only
    split
    · rfl
    split
    · rfl
    · refine (writeBack_dirt id f s).mono fun r m hm => ?_
      obtain ⟨dirty, hm⟩ := hm
      have hwaiting : m.pool.waiting = s.waiting := hm ▸ waiting_setFrame rfl
      cases r <;> exact hwaiting

theorem flushAll_waiting (walk : Walk) (s : Shard n) :
    (flushAll walk).Ends ⟨s, d⟩ fun _ m => m.pool.waiting = s.waiting := by
  simp only [flushAll, Op.ends_bind, Mounted.ends_observe, Op.then_ok]
  refine Op.ends_forM (I := fun _ m => m.pool.waiting = s.waiting) (fun id _ m hm => ?_)
    (fun _ hm => hm) _ _ rfl
  rw [Op.ends_discard]
  refine (flush_waiting id m.pool).mono fun r m' hm' => ?_
  cases r <;> exact hm'.trans hm

theorem delete_waiting (h : s.Sound c guards) (id : PageId) :
    (delete id).Ends ⟨s, d⟩ fun _ m => m.pool.waiting.Sublist s.waiting := by
  simp only [delete, Op.ends_bind, Mounted.ends_observe, Op.then_ok]
  cases s.table[id]? with
  | none => exact .refl _
  | some f =>
    simp only [Op.ends_bind, Mounted.ends_observe, Op.then_ok]
    cases (s.frame f).pins with
    | succ pins => exact .refl _
    | zero =>
      simp only [Op.ends_bind]
      refine (writeBack_dirt id f s).mono fun r m hm => ?_
      obtain ⟨s', d'⟩ := m
      obtain ⟨dirty, rfl⟩ := hm
      cases r with
      | error e =>
        have hsame : (s.setFrame f { s.frame f with dirty }).waiting = s.waiting :=
          waiting_setFrame rfl
        exact (congrArg (List.Sublist · s.waiting) hsame).mpr (.refl _)
      | ok u =>
        change (Shard.pagesIn (s.queue.remove f).toList
          ((s.setFrame f { s.frame f with dirty }).setFrame f Frame.empty)).Sublist _
        rw [setFrame_setFrame, h.queue.toList_remove, pagesIn_congr (s := s) fun f' hf' => ?_]
        · exact pagesIn_sublist List.erase_sublist s
        · have hne : f' ≠ f := ((h.queue.nodup_toList.mem_erase_iff).mp hf').1
          rw [frame_setFrame, if_neg hne.symm]

end

end Shard

end PagedIndex
