import PagedIndex.Proofs.Pool.Numbering

namespace PagedIndex

namespace Op

variable {σ α β : Type} {P : σ → Prop} {x : Op σ α}

-- No operation of a shard depends on the state that it starts from in what is kept here. So it is
-- shown of the operations as they are, without the representation.
-- `P` holds after the operation, however it ends, if it held before.
def Keeps (P : σ → Prop) (x : Op σ α) : Prop := ∀ s, P s → x.Ends s fun _ t => P t

theorem keeps_pure (a : α) : Keeps P (Pure.pure a : Op σ α) := fun _ hs => hs

theorem keeps_report (e : Event) : Keeps P (report e) := fun _ hs => hs

theorem keeps_fail (e : StoreError) : Keeps P (fail e : Op σ α) := fun _ hs => hs

theorem keeps_liftM (r : Checked α) : Keeps P (liftM r : Op σ α) := fun _ hs => hs

theorem Keeps.bind {f : α → Op σ β} (hx : Keeps P x) (hf : ∀ a, Keeps P (f a)) :
    Keeps P (x >>= f) := by
  intro s hs
  rw [ends_bind]
  refine (hx s hs).mono fun r t ht => ?_
  cases r with
  | ok a => exact hf a t ht
  | error e => exact ht

theorem Keeps.attempt (hx : Keeps P x) : Keeps P (Op.attempt x) := by
  intro s hs
  rw [ends_attempt]
  refine (hx s hs).mono fun r t ht => ?_
  cases r using Checked.outcomes <;> exact ht

theorem Keeps.map (f : α → β) (hx : Keeps P x) : Keeps P (f <$> x) := by
  rw [map_eq_pure_bind]
  exact hx.bind fun a => keeps_pure (f a)

theorem Keeps.discard (hx : Keeps P x) : Keeps P (Functor.discard x) := hx.map _

theorem Keeps.ensuring (hx : Keeps P x) {cleanup : Op σ Unit} (hcleanup : Keeps P cleanup) :
    Keeps P (x.ensuring cleanup) := fun s hs => hcleanup _ (hx s hs)

theorem Keeps.forM {f : α → Op σ Unit} (hf : ∀ a, Keeps P (f a)) (xs : List α) :
    Keeps P (xs.forM f) := by
  intro s hs
  refine ends_forM (I := fun _ t => P t) (fun a _ t ht => ?_) (fun _ ht => ht) xs s hs
  refine (hf a t ht).mono fun r u hu => ?_
  cases r <;> exact hu

end Op

namespace EvictionQueue

variable {α : Type} [BEq α] [Hashable α] {q : EvictionQueue α}

-- There are no more frames in the queue than it has room for.
def Fits (q : EvictionQueue α) : Prop := q.size ≤ q.capacity

theorem fits_empty (capacity : Nat) : (empty capacity : EvictionQueue α).Fits := Nat.zero_le _

theorem Fits.push (h : q.Fits) (frame : α) : (q.push frame).Fits := by
  rw [EvictionQueue.push]
  split
  · exact h
  · rename_i hroom
    simp only [Bool.or_eq_true, decide_eq_true_eq, not_or] at hroom
    exact (Std.TreeMap.size_insert_le).trans (Nat.succ_le_of_lt (Nat.lt_of_not_le hroom.2))

theorem Fits.remove (h : q.Fits) (frame : α) : (q.remove frame).Fits := by
  rw [EvictionQueue.remove]
  split
  · exact h
  · exact (Std.TreeMap.size_erase_le).trans h

theorem Fits.of_pop? (h : q.Fits) {frame : α} {rest : EvictionQueue α}
    (hpop : q.pop? = some (frame, rest)) : rest.Fits := by
  simp only [pop?, Option.bind_eq_bind, Option.bind_eq_some_iff, Option.pure_def,
    Option.some.injEq, Prod.mk.injEq] at hpop
  obtain ⟨ticket, _, _, _, _, rfl⟩ := hpop
  exact (Std.TreeMap.size_erase_le).trans h

end EvictionQueue

-- The calls that a pool makes on its store keep `I`.
structure StoreInvariant {D : Type} [PageStore D] (I : D → Prop) : Prop where
  readPage (id : PageId) : Op.Keeps I (PageStore.readPage id)
  writePage (id : PageId) (p : Page) : Op.Keeps I (PageStore.writePage id p)
  pageCount : Op.Keeps I PageStore.pageCount

theorem storeInvariant_true {D : Type} [PageStore D] : StoreInvariant fun _ : D => True :=
  ⟨fun _ _ _ => trivial, fun _ _ _ _ => trivial, fun _ _ => trivial⟩

namespace Shard

variable {n : Nat} {D : Type}

-- There is room in the queue for its frames, and `I` holds of the store.
structure InOrder (I : D → Prop) (m : Mounted (Shard n) D) : Prop where
  fits : m.pool.queue.Fits
  store : I m.store

section

variable {α : Type} {I : D → Prop} {m : Mounted (Shard n) D}

theorem keeps_onStore {x : Op D α} (hx : Op.Keeps I x) :
    Op.Keeps (InOrder I) (Mounted.onStore x : Op (Mounted (Shard n) D) α) := by
  intro m hm
  rw [Mounted.ends_onStore]
  exact (hx m.store hm.store).mono fun _ _ ht => ⟨hm.fits, ht⟩

theorem keeps_observe {β : Type} {g : Shard n → β} {f : β → Op (Mounted (Shard n) D) α}
    (hf : ∀ b, Op.Keeps (InOrder I) (f b)) : Op.Keeps (InOrder I) (Mounted.observe g >>= f) :=
  Op.Keeps.bind (fun _ hm => hm) hf

-- Most changes of a shard leave its queue alone.
theorem keeps_update {g : Shard n → Shard n} (hg : ∀ s, (g s).queue = s.queue) :
    Op.Keeps (InOrder I) (Mounted.update g : Op (Mounted (Shard n) D) Unit) := fun m hm =>
  ⟨(congrArg EvictionQueue.Fits (hg m.pool)).mpr hm.fits, hm.store⟩

theorem keeps_change {g : Shard n → Shard n} {f : Unit → Op (Mounted (Shard n) D) α}
    (hf : Op.Keeps (InOrder I) (f ())) (hg : ∀ s, (g s).queue = s.queue) :
    Op.Keeps (InOrder I) (Mounted.update g >>= f) := Op.Keeps.bind (keeps_update hg) fun _ => hf

theorem keeps_enqueue (f : Fin n) : Op.Keeps (InOrder I) (enqueue f : Op (Mounted (Shard n) D) Unit) := by
  intro m hm
  rw [ends_enqueue]
  exact ⟨hm.fits.push f, hm.store⟩

theorem keeps_guard (id : PageId) (access : Access) (f : Fin n) :
    Op.Keeps (InOrder I) (guard id access f : Op (Mounted (Shard n) D) (Guard n)) := by
  intro m hm
  refine (guard_latches id access f m).mono fun r m' hguard => ?_
  obtain ⟨-, latch, rfl⟩ := hguard
  exact ⟨hm.fits, hm.store⟩

theorem keeps_unpin (id : PageId) (modified : Bool) :
    Op.Keeps (InOrder I) (unpin id modified : Op (Mounted (Shard n) D) Unit) := by
  refine keeps_observe fun found => ?_
  cases found with
  | none => exact Op.keeps_report _
  | some f =>
    refine keeps_observe fun pins => ?_
    split
    · exact Op.keeps_report _
    · refine keeps_change ?_ fun _ => rfl
      split
      · exact keeps_enqueue f
      · exact Op.keeps_pure _

theorem keeps_release (g : Guard n) :
    Op.Keeps (InOrder I) (release g : Op (Mounted (Shard n) D) Unit) := by
  unfold release
  cases g.access with
  | shared => exact keeps_unpin g.page false
  | exclusive =>
    exact keeps_observe fun modified => keeps_change (keeps_unpin g.page modified) fun _ => rfl

end

variable [PageStore D] {I : D → Prop} (hI : StoreInvariant I)

include hI

theorem keeps_writeBack (id : PageId) (f : Fin n) :
    Op.Keeps (InOrder I) (writeBack id f : Op (Mounted (Shard n) D) Unit) := by
  refine keeps_observe fun frame => ?_
  split
  · refine (keeps_onStore (hI.writePage id _)).bind fun _ => ?_
    exact keeps_change (Op.keeps_report _) fun _ => rfl
  · exact Op.keeps_pure _

theorem keeps_evict (f : Fin n) :
    Op.Keeps (InOrder I) (evict f : Op (Mounted (Shard n) D) Unit) := by
  refine keeps_observe fun page => ?_
  cases page with
  | none => exact Op.keeps_pure _
  | some id =>
    refine (keeps_writeBack hI id f).attempt.bind fun written => ?_
    cases written with
    | error e => exact (keeps_enqueue f).bind fun _ => Op.keeps_fail e
    | ok _ =>
      exact keeps_observe fun _ => (Op.keeps_report _).bind fun _ => keeps_update fun _ => rfl

theorem keeps_acquire :
    Op.Keeps (InOrder I) (acquire : Op (Mounted (Shard n) D) (Fin n)) := by
  refine keeps_observe fun free => ?_
  cases free with
  | cons f rest => exact keeps_change (Op.keeps_pure f) fun _ => rfl
  | nil =>
    intro m hm
    rw [Op.ends_bind, Mounted.ends_observe, Op.then_ok]
    cases hpop : m.pool.queue.pop? with
    | none => exact hm
    | some popped =>
      have hrest : InOrder I ⟨m.pool.setQueue popped.2, m.store⟩ :=
        ⟨hm.fits.of_pop? hpop, hm.store⟩
      exact ((keeps_evict hI popped.1).bind fun _ => Op.keeps_pure popped.1) _ hrest

theorem keeps_pin (id : PageId) :
    Op.Keeps (InOrder I) (pin id : Op (Mounted (Shard n) D) (Fin n)) := by
  refine keeps_observe fun found => ?_
  cases found with
  | some f =>
    refine keeps_observe fun pins => (Op.keeps_liftM _).bind fun _ => ?_
    refine Op.Keeps.bind (fun m hm => ?_) fun _ => Op.keeps_pure f
    exact ⟨hm.fits.remove f, hm.store⟩
  | none =>
    refine keeps_observe fun owned => ?_
    split
    · intro m hm
      rw [Op.ends_bind, Op.ends_fail, Op.then_error]
      exact hm
    · refine (keeps_acquire hI).bind fun f => ?_
      refine (keeps_onStore (hI.readPage id)).attempt.bind fun loaded => ?_
      cases loaded with
      | error e => exact keeps_change (Op.keeps_fail e) fun _ => rfl
      | ok bytes => exact keeps_change (Op.keeps_pure f) fun _ => rfl

theorem keeps_fetch (id : PageId) (access : Access) :
    Op.Keeps (InOrder I) (fetch id access : Op (Mounted (Shard n) D) (Guard n)) :=
  (keeps_pin hI id).bind fun f => keeps_guard id access f

theorem keeps_allocate :
    Op.Keeps (InOrder I) (allocate : Op (Mounted (Shard n) D) (Guard n)) := by
  refine (keeps_acquire hI).attempt.bind fun acquired => ?_
  cases acquired with
  | error e => exact keeps_observe fun _ => (Op.keeps_report _).bind fun _ => Op.keeps_fail e
  | ok f =>
    refine keeps_observe fun number => keeps_observe fun count => ?_
    refine (Op.keeps_liftM _).bind fun _ => keeps_change ?_ fun _ => rfl
    exact keeps_change (keeps_guard _ _ f) fun _ => rfl

theorem keeps_flush (id : PageId) :
    Op.Keeps (InOrder I) (flush id : Op (Mounted (Shard n) D) Bool) := by
  have hshared (f : Fin n) :
      Op.Keeps (InOrder I) (writeShared id f : Op (Mounted (Shard n) D) Bool) := by
    refine keeps_observe fun latch => ?_
    split
    · exact (keeps_writeBack hI id f).bind fun _ => Op.keeps_pure _
    · exact (Op.keeps_report _).bind fun _ => Op.keeps_pure _
  refine keeps_observe fun found => ?_
  cases found with
  | none => exact Op.keeps_pure _
  | some f =>
    refine keeps_observe fun pins => ?_
    split
    · exact (keeps_writeBack hI id f).bind fun _ => Op.keeps_pure _
    · refine (Op.keeps_liftM _).bind fun _ => ?_
      exact keeps_change ((hshared f).ensuring (keeps_unpin id false)) fun _ => rfl

theorem keeps_flushAll (walk : Walk) :
    Op.Keeps (InOrder I) (flushAll walk : Op (Mounted (Shard n) D) Unit) :=
  keeps_observe fun _ => Op.Keeps.forM (fun id => (keeps_flush hI id).discard) _

theorem keeps_delete (id : PageId) :
    Op.Keeps (InOrder I) (delete id : Op (Mounted (Shard n) D) Bool) := by
  refine keeps_observe fun found => ?_
  cases found with
  | none => exact Op.keeps_pure _
  | some f =>
    refine keeps_observe fun pins => ?_
    split
    · refine (keeps_writeBack hI id f).bind fun _ => Op.Keeps.bind (fun m hm => ?_) fun _ =>
        Op.keeps_pure _
      exact ⟨hm.fits.remove f, hm.store⟩
    · exact (Op.keeps_report _).bind fun _ => Op.keeps_pure _

theorem keeps_call (call : PoolCall n) :
    Op.Keeps (InOrder I) (call.run : Op (Mounted (Shard n) D) (Option (Guard n))) := by
  cases call with
  | fetch id access => exact (keeps_fetch hI id access).map _
  | allocate => exact (keeps_allocate hI).map _
  | write g page => exact fun _ hm => ⟨hm.fits, hm.store⟩
  | release g => exact (keeps_release g).bind fun _ => Op.keeps_pure _
  | flush id => exact (keeps_flush hI id).discard.bind fun _ => Op.keeps_pure _
  | flushAll walk => exact (keeps_flushAll hI walk).bind fun _ => Op.keeps_pure _
  | delete id => exact (keeps_delete hI id).discard.bind fun _ => Op.keeps_pure _

end Shard

namespace ShardedPool

variable {n k : Nat} {D : Type} {I : D → Prop}

structure InOrder (I : D → Prop) (m : Mounted (ShardedPool n k) D) : Prop where
  fits (i : Fin k) : (m.pool.shards.get i).queue.Fits
  store : I m.store

theorem InOrder.shard {m : Mounted (ShardedPool n k) D} (h : InOrder I m) (i : Fin k) :
    Shard.InOrder I ⟨m.pool.shards.get i, m.store⟩ := ⟨h.fits i, h.store⟩

theorem InOrder.set {m : Mounted (ShardedPool n k) D} (h : InOrder I m) {i : Fin k}
    {t : Mounted (Shard n) D} (ht : Shard.InOrder I t) :
    InOrder I ⟨{ m.pool with shards := m.pool.shards.set i t.pool i.isLt }, t.store⟩ := by
  refine ⟨fun j => ?_, ht.store⟩
  by_cases hij : (i : Nat) = j
  · obtain rfl := Fin.ext hij
    rw [get_set_self]
    exact ht.fits
  · rw [get_set_of_ne _ hij]
    exact h.fits j

-- What the shards keep, the pool of them keeps.
theorem keeps_onShard {α : Type} {x : Op (Mounted (Shard n) D) α}
    (hx : Op.Keeps (Shard.InOrder I) x) (i : Fin k) : Op.Keeps (InOrder I) (onShard i x) := by
  intro m hm
  rw [ends_onShard]
  exact (hx _ (hm.shard i)).mono fun r t ht => hm.set ht

theorem keeps_onOwner {α : Type} {x : Op (Mounted (Shard n) D) α}
    (hx : Op.Keeps (Shard.InOrder I) x) (id : PageId) :
    Op.Keeps (InOrder I) (onOwner id x : Op (Mounted (ShardedPool n k) D) α) :=
  Op.Keeps.bind (fun _ hm => hm) fun i => keeps_onShard hx i

theorem InOrder.write {m : Mounted (ShardedPool n k) D} (h : InOrder I m) (g : Guard n)
    (page : Page) : InOrder I ⟨m.pool.write g page, m.store⟩ := by
  rw [write_eq]
  exact h.set (t := ⟨(m.pool.owner g.page).write g page, m.store⟩) ⟨h.fits _, h.store⟩

variable [PageStore D] (hI : StoreInvariant I)

include hI

theorem keeps_allocateIn (shards : List (Fin k)) :
    Op.Keeps (InOrder I) (allocateIn shards : Op (Mounted (ShardedPool n k) D) (Guard n)) := by
  induction shards with
  | nil => exact (Op.keeps_report _).bind fun _ => Op.keeps_fail _
  | cons i rest ih =>
    intro m hm
    rw [ends_allocateIn_cons]
    refine (keeps_onShard (Shard.keeps_allocate hI) i m hm).mono fun r t ht => ?_
    cases r using Checked.outcomes with
    | ok g => exact ⟨ht.fits, ht.store⟩
    | error e =>
      dsimp only
      split
      · exact ih t ht
      · exact ht
    | abort a => exact ht

theorem keeps_allocate :
    Op.Keeps (InOrder I) (allocate : Op (Mounted (ShardedPool n k) D) (Guard n)) :=
  Op.Keeps.bind (fun _ hm => hm) fun turns => keeps_allocateIn hI turns

theorem keeps_flushAll (walk : Walk) :
    Op.Keeps (InOrder I) (flushAll walk : Op (Mounted (ShardedPool n k) D) Unit) :=
  Op.Keeps.forM (fun i => keeps_onShard (Shard.keeps_flushAll hI walk) i) _

end ShardedPool

namespace Pool

variable {n : Nat} {D : Type} {I : D → Prop}

structure InOrder (I : D → Prop) (m : Mounted (Pool n) D) : Prop where
  fits (s : Shard n) : s ∈ m.pool.shards → s.queue.Fits
  store : I m.store

theorem inOrder_single {s : Shard n} {d : D} :
    InOrder I ⟨.single s, d⟩ ↔ Shard.InOrder I ⟨s, d⟩ :=
  ⟨fun h => ⟨h.fits s (List.mem_singleton_self s), h.store⟩, fun h =>
    ⟨fun _ ht => List.mem_singleton.mp ht ▸ h.fits, h.store⟩⟩

theorem inOrder_sharded {k : Nat} {p : ShardedPool n k} {d : D} :
    InOrder I ⟨.sharded k p, d⟩ ↔ ShardedPool.InOrder I ⟨p, d⟩ := by
  constructor
  · intro h
    exact ⟨fun i => h.fits _ (Vector.mem_toList_iff.mpr (Vector.getElem_mem i.isLt)), h.store⟩
  · refine fun h => ⟨fun s hs => ?_, h.store⟩
    obtain ⟨i, hi, rfl⟩ := Vector.getElem_of_mem (Vector.mem_toList_iff.mp hs)
    exact h.fits ⟨i, hi⟩

theorem keeps_byShape {α : Type} {single : Op (Mounted (Shard n) D) α}
    {sharded : (k : Nat) → Op (Mounted (ShardedPool n k) D) α}
    (hsingle : Op.Keeps (Shard.InOrder I) single)
    (hsharded : ∀ k, Op.Keeps (ShardedPool.InOrder I) (sharded k)) :
    Op.Keeps (InOrder I) (byShape single sharded) := by
  rintro ⟨pool, d⟩ hm
  rw [ends_byShape]
  cases pool with
  | single s =>
    exact (hsingle _ (inOrder_single.mp hm)).mono fun _ _ ht => inOrder_single.mpr ht
  | sharded k p =>
    exact (hsharded k _ (inOrder_sharded.mp hm)).mono fun _ _ ht => inOrder_sharded.mpr ht

-- The calls that one shard answers for the pool.
theorem keeps_onOwner {α : Type} {x : Op (Mounted (Shard n) D) α}
    (hx : Op.Keeps (Shard.InOrder I) x) (id : PageId) :
    Op.Keeps (InOrder I) (byShape x fun _ => ShardedPool.onOwner id x) :=
  keeps_byShape hx fun _ => ShardedPool.keeps_onOwner hx id

variable [PageStore D] (hI : StoreInvariant I)

include hI

theorem keeps_call (call : PoolCall n) :
    Op.Keeps (InOrder I) (call.run : Op (Mounted (Pool n) D) (Option (Guard n))) := by
  cases call with
  | fetch id access => exact (keeps_onOwner (Shard.keeps_fetch hI id access) id).map _
  | allocate =>
    have hsharded (k : Nat) := ShardedPool.keeps_allocate (n := n) (k := k) hI
    exact (keeps_byShape (Shard.keeps_allocate hI) hsharded).map _
  | write g page =>
    rintro ⟨pool, d⟩ hm
    cases pool with
    | single s =>
      have hs := inOrder_single.mp hm
      exact inOrder_single.mpr ⟨hs.fits, hs.store⟩
    | sharded k p => exact inOrder_sharded.mpr ((inOrder_sharded.mp hm).write g page)
  | release g =>
    exact (keeps_onOwner (Shard.keeps_release g) g.page).bind fun _ => Op.keeps_pure _
  | flush id =>
    exact (keeps_onOwner (Shard.keeps_flush hI id) id).discard.bind fun _ => Op.keeps_pure _
  | flushAll walk =>
    have hsharded (k : Nat) := ShardedPool.keeps_flushAll (n := n) (k := k) hI walk
    exact (keeps_byShape (Shard.keeps_flushAll hI walk) hsharded).bind fun _ => Op.keeps_pure _
  | delete id =>
    exact (keeps_onOwner (Shard.keeps_delete hI id) id).discard.bind fun _ => Op.keeps_pure _

theorem keeps_request (req : Request n) :
    Op.Keeps (InOrder I) (req.run : Op (Mounted (Pool n) D) (Option (Guard n))) := by
  cases req with
  | whole call => exact keeps_call hI call
  | direct i call =>
    rintro ⟨pool, d⟩ hm
    rw [Request.ends_direct]
    cases pool with
    | single s => exact hm
    | sharded k p =>
      dsimp only
      split
      · rename_i hi
        exact (ShardedPool.keeps_onShard (Shard.keeps_call hI call) ⟨i, hi⟩ _
          (inOrder_sharded.mp hm)).mono fun _ _ ht => inOrder_sharded.mpr ht
      · exact hm

variable [LawfulStore D]

theorem create_inOrder (shape : PoolShape) {d : D} (hsound : LawfulStore.Sound d) (hd : I d) :
    (shape.create n).Ends d fun r d' => ∀ pool, r = .ok pool → InOrder I ⟨pool, d'⟩ := by
  refine (shape.create_ends hI.pageCount hsound hd).mono fun r d' hr => ?_
  rintro pool rfl
  obtain ⟨hinitial, hd', _⟩ := hr
  cases shape with
  | single queueCapacity index count =>
    obtain ⟨_, rfl⟩ := hinitial
    exact inOrder_single.mpr ⟨EvictionQueue.fits_empty queueCapacity, hd'⟩
  | sharded count =>
    obtain ⟨shards, pos, rfl, hshards⟩ := hinitial
    refine inOrder_sharded.mpr ⟨fun i => ?_, hd'⟩
    change (shards.get i).queue.Fits
    rw [hshards i]
    exact EvictionQueue.fits_empty n

theorem Ran.inOrder {shape : PoolShape} {d : D} (hsound : LawfulStore.Sound d) (hd : I d)
    {m : Mounted (Pool n) D} {guards : List (Guard n)} {ids : List PageId}
    (h : Ran shape d m guards ids) : InOrder I m := by
  induction h with
  | @created pool hcreate => exact create_inOrder hI shape hsound hd pool hcreate
  | @request m guards ids req _ _ _ ih => exact keeps_request hI req m ih

end Pool

end PagedIndex
