import PagedIndex.Proofs.Pool.Creation
import PagedIndex.Store.Memory

namespace PagedIndex

-- What is done with a pool and the guards it has given.
inductive PoolCall (n : Nat)
  | fetch (id : PageId) (access : Access)
  | allocate
  | write (g : Guard n) (page : Page)
  | release (g : Guard n)
  | flush (id : PageId)
  | flushAll (walk : Walk)
  | delete (id : PageId)

-- Pools that write their pages back on request.
class WriteBackPool (σ : Type) where
  flush : PageId → Op σ Bool
  flushAll : Walk → Op σ Unit

namespace PoolCall

variable {n : Nat} {σ : Type}

-- Only live guards are used, and only exclusive ones written through.
def Legal (guards : List (Guard n)) : PoolCall n → Prop
  | write g _ => g ∈ guards ∧ g.access = .exclusive
  | release g => g ∈ guards
  | _ => True

-- The answer is the new guard, if there is one.
def run [PagePool σ (Guard n)] [WriteBackPool σ] : PoolCall n → Op σ (Option (Guard n))
  | fetch id access => some <$> PagePool.fetch id access
  | allocate => some <$> PagePool.allocate
  | write g page => do
    PagePool.writePage g page
    return none
  | release g => do
    PagePool.release g
    return none
  | flush id => do
    discard (WriteBackPool.flush id)
    return none
  | flushAll walk => do
    WriteBackPool.flushAll walk
    return none
  | delete id => do
    discard (PagePool.delete id)
    return none

-- The live guards after a call.
def guardsAfter (guards : List (Guard n)) : PoolCall n → Checked (Option (Guard n)) →
    List (Guard n)
  | _, .ok (some g) => g :: guards
  | release g, _ => guards.erase g
  | _, _ => guards

end PoolCall

-- The program goes on after an answer or an error.
def Checked.Returns {α : Type} (r : Checked α) : Prop := ∀ a, r ≠ .error (.abort a)

namespace Shard

variable {n : Nat} {D : Type} [PageStore D] {c : ShardConfig}

instance : WriteBackPool (Mounted (Shard n) D) := ⟨flush, flushAll⟩

-- The states that a shard of the given configuration gets into, with the guards live on it.
inductive Reached (n : Nat) (c : ShardConfig) : Mounted (Shard n) D → List (Guard n) → Prop
  | created {d : D} {s : Shard n} : (create n c.queueCapacity c.index c.count d).result = .ok s →
      Reached n c ⟨s, (create (n := n) c.queueCapacity c.index c.count d).state⟩ []
  | step {m : Mounted (Shard n) D} {guards : List (Guard n)} (call : PoolCall n) :
      Reached n c m guards → call.Legal guards → (call.run m).result.Returns →
      Reached n c (call.run m).state (call.guardsAfter guards (call.run m).result)

-- Every call keeps the representation, for the guards that are live after it.
theorem call_sound {s : Shard n} {d : D} {guards : List (Guard n)} (h : s.Sound c guards)
    (call : PoolCall n) (hlegal : call.Legal guards) :
    (call.run : Op (Mounted (Shard n) D) _).Ends ⟨s, d⟩ fun r m =>
      r.Returns → m.pool.Sound c (call.guardsAfter guards r) := by
  cases call with
  | fetch id access =>
    rw [PoolCall.run, Op.ends_map]
    refine (fetch_sound h id access).mono fun r m hm => ?_
    cases r using Checked.outcomes with
    | ok g => exact fun _ => hm.2.2
    | error e => exact fun _ => hm
    | abort a => exact fun hreturns => absurd rfl (hreturns a)
  | allocate =>
    rw [PoolCall.run, Op.ends_map]
    refine (allocate_sound h).mono fun r m hm => ?_
    cases r using Checked.outcomes with
    | ok g => exact fun _ => hm.2
    | error e => exact fun _ => hm
    | abort a => exact fun hreturns => absurd rfl (hreturns a)
  | write g page => exact fun _ => write_sound h g page
  | release g =>
    have hperm := List.perm_cons_erase hlegal
    rw [PoolCall.run, Op.ends_bind]
    refine (release_sound (h.perm hperm)).mono fun r m hm => ?_
    obtain ⟨rfl, hsound⟩ := hm
    exact fun _ => hsound
  | flush id =>
    rw [PoolCall.run, Op.ends_bind, Op.ends_discard]
    refine (flush_sound h id).mono fun r m hm => ?_
    cases r <;> exact fun _ => hm
  | flushAll walk =>
    rw [PoolCall.run, Op.ends_bind]
    refine (flushAll_sound h walk).mono fun r m hm => ?_
    cases r <;> exact fun _ => hm
  | delete id =>
    rw [PoolCall.run, Op.ends_bind, Op.ends_discard]
    refine (delete_sound h id).mono fun r m hm => ?_
    cases r <;> exact fun _ => hm

theorem Reached.sound {m : Mounted (Shard n) D} {guards : List (Guard n)}
    (h : Reached n c m guards) : m.pool.Sound c guards := by
  induction h with
  | @created d s hcreate =>
    have hends := create_ends (n := n) c.queueCapacity c.index c.count (P := fun _ _ => True)
      (Op.ends_of_forall (x := PageStore.pageCount) (s := d) fun r _ => by cases r <;> trivial)
    rw [Op.Ends, hcreate] at hends
    obtain ⟨stored, _, hindex, _, rfl⟩ := hends
    exact initial_sound hindex c.queueCapacity stored.toNat
  | @step m guards call _ hlegal hreturns ih => exact call_sound ih call hlegal hreturns

-- A frame is in just one of the three places that a frame may be in.
structure Placed (s : Shard n) (f : Fin n) : Prop where
  somewhere : f ∈ s.free ∨ 0 < (s.frame f).pins ∨ f ∈ s.queue.toList
  free_not_pinned : f ∈ s.free → (s.frame f).pins = 0
  free_not_queued : f ∈ s.free → f ∉ s.queue.toList
  queued_not_pinned : f ∈ s.queue.toList → (s.frame f).pins = 0

theorem Sound.placed {s : Shard n} {guards : List (Guard n)} (h : s.Sound c guards)
    (hroom : n ≤ c.queueCapacity) (f : Fin n) (hf : Numbered f) : s.Placed f where
  somewhere := by
    by_cases hpage : (s.frame f).page = none
    · exact Or.inl ((h.mem_free_iff f).mpr ⟨hpage, hf⟩)
    · by_cases hpins : (s.frame f).pins = 0
      · exact Or.inr (Or.inr (h.evictable hroom f hpage hpins))
      · exact Or.inr (Or.inl (Nat.pos_of_ne_zero hpins))
  free_not_pinned hfree := (h.unused f ((h.mem_free_iff f).mp hfree).1).1
  free_not_queued hfree hqueued := (h.queued f hqueued).1 ((h.mem_free_iff f).mp hfree).1
  queued_not_pinned hqueued := (h.queued f hqueued).2

-- A frame without a number is never used, and is not listed as free either.
theorem Sound.not_placed {s : Shard n} {guards : List (Guard n)} (h : s.Sound c guards) {f : Fin n}
    (hf : ¬ Numbered f) : (s.frame f).page = none ∧ f ∉ s.free ∧ ¬ s.Placed f := by
  have hpage : (s.frame f).page = none := by
    by_contra hpage
    exact hf (h.numbered f hpage)
  have hfree : f ∉ s.free := fun hfree => hf ((h.mem_free_iff f).mp hfree).2
  refine ⟨hpage, hfree, fun hplaced => ?_⟩
  rcases hplaced.somewhere with hmem | hpins | hmem
  · exact hfree hmem
  · exact absurd (h.unused f hpage).1 (Nat.ne_of_gt hpins)
  · exact (h.queued f hmem).1 hpage

end Shard

end PagedIndex
