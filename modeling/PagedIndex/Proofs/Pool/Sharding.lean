import PagedIndex.Pool.Basic
import PagedIndex.Proofs.Pool.Contents

namespace PagedIndex

namespace Shard

variable {n : Nat} {D : Type} [PageStore D] [LawfulStore D] {c : ShardConfig} {d : D}
  {m : Mounted (Shard n) D} {guards : List (Guard n)} {M : Memory}

-- A shard is sound for its guards and caches the memory over its store, which `d` was before.
structure Kept (c : ShardConfig) (d : D) (m : Mounted (Shard n) D) (guards : List (Guard n))
    (M : Memory) : Prop where
  sound : m.pool.Sound c guards
  backed : Backed c d m guards M

namespace Kept

-- What the store was before does not matter once the operation is over.
theorem settle (h : Kept c d m guards M) : Kept c m.store m guards M :=
  ⟨h.sound, h.backed.store, fun _ _ => rfl, h.backed.caches⟩

theorem guard_owned (h : Kept c d m guards M) {g : Guard n} (hg : g ∈ guards) :
    m.pool.owns g.page :=
  h.sound.owned _ _ ((h.sound.table_iff _ _).mp (h.sound.guarded g hg))

theorem guard_mod (h : Kept c d m guards M) {g : Guard n} (hg : g ∈ guards) :
    g.page.number.toNat % c.count = c.index := by
  have howned := ((owns_iff _ _).mp (h.guard_owned hg)).2.1
  rwa [h.sound.count_eq, h.sound.index_eq] at howned

theorem perm (h : Kept c d m guards M) {others : List (Guard n)} (hperm : guards.Perm others) :
    Kept c d m others M := by
  refine ⟨h.sound.perm hperm, h.backed.store, h.backed.elsewhere, ?_⟩
  refine ⟨fun f id hpage => ?_, h.backed.caches.absent, h.backed.caches.fresh⟩
  have hold := h.backed.caches.shows f id hpage
  exact ⟨hold.shown, hold.clean, (hperm.countP_eq _).symm.trans hold.writers⟩

-- Changes to the memory and the store outside the shard's part of the ids are not noticed.
theorem congr {d' : D} {M' : Memory} (h : Kept c d m guards M) (hsound : LawfulStore.Sound d')
    (hdisk : ∀ id : PageId, id.number.toNat % c.count = c.index →
      LawfulStore.page d' id = LawfulStore.page m.store id)
    (hM : ∀ id : PageId, id.number.toNat % c.count = c.index → M' id = M id) :
    Kept c d' ⟨m.pool, d'⟩ guards M' := by
  have hpart (id : PageId) (howns : m.pool.owns id) : id.number.toNat % c.count = c.index := by
    have howned := ((owns_iff _ _).mp howns).2.1
    rwa [h.sound.count_eq, h.sound.index_eq] at howned
  refine ⟨h.sound, hsound, fun _ _ => rfl, ?_, ?_, ?_⟩
  · intro f id hpage
    have hold := h.backed.caches.shows f id hpage
    have hid := hpart id (h.sound.owned f id hpage)
    exact ⟨(hM id hid).trans hold.shown, fun hclean hlatch =>
      (hdisk id hid).trans (hold.clean hclean hlatch), hold.writers⟩
  · intro id howns htable
    rw [hM id (hpart id howns), hdisk id (hpart id howns)]
    exact h.backed.caches.absent id howns htable
  · intro id hid hnext
    have hmod := hid
    rw [h.sound.count_eq, h.sound.index_eq] at hmod
    rw [hM id hmod, hdisk id hmod]
    exact h.backed.caches.fresh id hid hnext

theorem fetch (h : Kept c m.store m guards M) {id : PageId} {access : Access}
    (hadmits : Admits guards id access) :
    (Shard.fetch id access).Ends m <| Op.AnswersOr (fun _ => Crowded id guards)
      (fun g m' => (g.page = id ∧ g.access = access) ∧ Kept c m.store m' (g :: guards) M)
      fun e m' => PoolError D e ∧ Kept c m.store m' guards M := by
  refine ((fetch_sound h.sound id access).and (fetch_backed h.sound h.backed hadmits)).mono
    fun r m' hm => ?_
  cases r using Checked.outcomes with
  | ok g => exact ⟨⟨hm.1.1, hm.1.2.1⟩, hm.1.2.2, hm.2⟩
  | error e => exact ⟨hm.2.1, hm.1, hm.2.2⟩
  | abort a => exact hm.2

theorem allocate (h : Kept c m.store m guards M) :
    (Shard.allocate (D := D)).Ends m <| Op.AnswersOr (fun m' => m'.pool.Spent)
      (fun g m' => (g.access = .exclusive ∧ M g.page = none ∧ g.page ≠ PageId.invalid) ∧
        Kept c m.store m' (g :: guards) (M.put g.page Page.zero))
      fun e m' => PoolError D e ∧ Kept c m.store m' guards M := by
  refine ((allocate_sound h.sound).and (allocate_backed h.sound h.backed)).mono fun r m' hm => ?_
  cases r using Checked.outcomes with
  | ok g => exact ⟨⟨hm.1.1, hm.2.1, hm.2.2.1⟩, hm.1.2, hm.2.2.2⟩
  | error e => exact ⟨hm.2.1, hm.1, hm.2.2⟩
  | abort a => exact hm.2

theorem delete (h : Kept c m.store m guards M) (id : PageId) :
    (Shard.delete id).Ends m <| Op.Answers (fun _ m' => Kept c m.store m' guards M)
      fun e m' => PoolError D e ∧ Kept c m.store m' guards M := by
  refine ((delete_sound h.sound id).and (delete_backed h.sound h.backed id)).mono fun r m' hm => ?_
  exact hm.2.imp (fun _ hb => ⟨hm.1, hb⟩) fun _ hb => ⟨hb.1, hm.1, hb.2⟩

theorem flush (h : Kept c m.store m guards M) (id : PageId) :
    (Shard.flush id).Ends m <| Op.AnswersOr
      (fun m' => Crowded id guards ∧ Kept c m.store m' guards M)
      (fun _ m' => Kept c m.store m' guards M)
      fun e m' => PoolError D e ∧ Kept c m.store m' guards M := by
  refine ((flush_sound h.sound id).and (flush_backed h.sound h.backed id)).mono fun r m' hm => ?_
  exact hm.2.imp (fun hc => ⟨hc.1, hm.1, hc.2⟩) (fun _ hb => ⟨hm.1, hb⟩)
    fun _ hb => ⟨hb.1, hm.1, hb.2⟩

theorem flushAll (h : Kept c m.store m guards M) (walk : Walk) :
    (Shard.flushAll (D := D) walk).Ends m <| Op.AnswersOr
      (fun m' => (∃ id, Crowded id guards) ∧ Kept c m.store m' guards M)
      (fun _ m' => Kept c m.store m' guards M)
      fun e m' => PoolError D e ∧ Kept c m.store m' guards M := by
  refine ((flushAll_sound h.sound walk).and (flushAll_backed h.sound h.backed walk)).mono
    fun r m' hm => ?_
  exact hm.2.imp (fun hc => ⟨hc.1, hm.1, hc.2⟩) (fun _ hb => ⟨hm.1, hb⟩)
    fun _ hb => ⟨hb.1, hm.1, hb.2⟩

theorem release {g : Guard n} (h : Kept c m.store m (g :: guards) M) :
    (Shard.release g).Ends m fun r m' => r = .ok () ∧ Kept c m.store m' guards M := by
  refine ((release_sound h.sound).and (release_backed h.sound h.backed)).mono fun r m' hm => ?_
  exact ⟨hm.1.1, hm.1.2, hm.2.2⟩

theorem write {g : Guard n} (h : Kept c m.store m guards M) (hg : g ∈ guards)
    (haccess : g.access = .exclusive) (page : Page) :
    Kept c m.store ⟨m.pool.write g page, m.store⟩ guards (M.put g.page page) :=
  ⟨write_sound h.sound g page, write_backed h.sound h.backed hg haccess page⟩

theorem read {g : Guard n} (h : Kept c d m guards M) (hg : g ∈ guards) :
    M g.page = some (m.pool.read g) := read_backed h.sound h.backed hg

end Kept

omit [PageStore D] [LawfulStore D] in
-- Releasing a guard leaves the page ids alone.
theorem release_spent (g : Guard n) (m : Mounted (Shard n) D) :
    (release g).Ends m fun _ m' => m.pool.Spent → m'.pool.Spent := by
  refine (release_parts g m).mono fun _ m' hm => ?_
  rw [Spent, Spent, hm.1, hm.2.1]
  exact id

end Shard

-- The guards on pages of shard `i` of `k`.
def guardsOf (k i : Nat) (guards : List (Guard n)) : List (Guard n) :=
  guards.filter fun g => g.page.number.toNat % k = i

theorem guardsOf_cons_self {k i : Nat} {g : Guard n} {guards : List (Guard n)}
    (h : g.page.number.toNat % k = i) : guardsOf k i (g :: guards) = g :: guardsOf k i guards := by
  simp [guardsOf, h]

theorem guardsOf_cons_of_ne {k i j : Nat} {g : Guard n} {guards : List (Guard n)}
    (h : g.page.number.toNat % k = i) (hj : j ≠ i) :
    guardsOf k j (g :: guards) = guardsOf k j guards := by
  simp [guardsOf, h, Ne.symm hj]

theorem Crowded.of_guardsOf {k i : Nat} {id : PageId} {guards : List (Guard n)}
    (h : Crowded id (guardsOf k i guards)) : Crowded id guards :=
  h.trans (Nat.add_le_add_right (List.filter_sublist.countP_le) 1)

theorem Admits.guardsOf {guards : List (Guard n)} {id : PageId} {access : Access}
    (h : Admits guards id access) (k i : Nat) : Admits (guardsOf k i guards) id access :=
  fun g hg => h g (List.mem_of_mem_filter hg)

namespace ShardedPool

variable {n k : Nat} {D : Type} {α : Type}

def config (n k i : Nat) : ShardConfig := ⟨i, k, n⟩

-- Some shard has no page id left to give out.
def Spent (p : ShardedPool n k) : Prop := ∃ i, (p.shards.get i).Spent

theorem get_set_self (shards : Vector (Shard n) k) (i : Fin k) (s : Shard n) :
    (shards.set i s i.isLt).get i = s := by
  change (shards.set i s i.isLt)[i.val] = s
  rw [Vector.getElem_set_self]

theorem get_set_of_ne (shards : Vector (Shard n) k) {i j : Fin k} (h : (i : Nat) ≠ j)
    (s : Shard n) : (shards.set i s i.isLt).get j = shards.get j := by
  change (shards.set i s i.isLt)[j.val] = shards[j.val]
  rw [Vector.getElem_set_ne _ _ h]

theorem ends_onShard (i : Fin k) (x : Op (Mounted (Shard n) D) α) (m : Mounted (ShardedPool n k) D)
    (Q : Checked α → Mounted (ShardedPool n k) D → Prop) :
    (onShard i x).Ends m Q ↔ x.Ends ⟨m.pool.shards.get i, m.store⟩ fun r t =>
      Q r ⟨{ m.pool with shards := m.pool.shards.set i t.pool i.isLt }, t.store⟩ := by
  rw [Op.Ends, onShard_run]
  rfl

-- Only a shard that is full is passed over.
theorem ends_allocateIn_cons [PageStore D] (i : Fin k) (rest : List (Fin k))
    (m : Mounted (ShardedPool n k) D) (Q : Checked (Guard n) → Mounted (ShardedPool n k) D → Prop) :
    (ShardedPool.allocateIn (i :: rest)).Ends m Q ↔ (onShard i Shard.allocate).Ends m fun
      | .ok g, t => Q (.ok g) ⟨{ t.pool with next := (i + 1) % k }, t.store⟩
      | .error (.error e), t =>
        if e = .poolFull then (ShardedPool.allocateIn rest).Ends t Q else Q (.error (.error e)) t
      | .error (.abort a), t => Q (.error (.abort a)) t := by
  simp only [ShardedPool.allocateIn, Op.ends_bind, Op.ends_attempt]
  refine Op.ends_congr fun r t => ?_
  cases r using Checked.outcomes with
  | ok g => rfl
  | error e =>
    by_cases hfull : e = .poolFull
    · subst hfull
      rfl
    · simp only [Op.attempted_error, Op.then_ok, hfull, if_false]
      rfl
  | abort a => rfl

theorem write_eq (p : ShardedPool n k) (g : Guard n) (page : Page) :
    p.write g page = { p with
      shards := p.shards.set (p.shardOf g.page) ((p.owner g.page).write g page)
        (p.shardOf g.page).isLt } := by
  simp only [write, putBack_takeOut]
  rfl

variable [PageStore D] [LawfulStore D] {m : Mounted (ShardedPool n k) D} {guards : List (Guard n)}
  {M : Memory}

structure Kept (m : Mounted (ShardedPool n k) D) (guards : List (Guard n)) (M : Memory) :
    Prop where
  store : LawfulStore.Sound m.store
  shard (i : Fin k) : Shard.Kept (config n k i) m.store ⟨m.pool.shards.get i, m.store⟩
    (guardsOf k i guards) M

namespace Kept

-- One shard changes, and memory with it in its part of the ids.
theorem set (h : Kept m guards M) {i : Fin k} {t : Mounted (Shard n) D} {guards' : List (Guard n)}
    {M' : Memory} (ht : Shard.Kept (config n k i) m.store t (guardsOf k i guards') M')
    (hguards : ∀ j : Nat, j ≠ i → guardsOf k j guards' = guardsOf k j guards)
    (hM : ∀ id : PageId, id.number.toNat % k ≠ i → M' id = M id) :
    Kept ⟨{ m.pool with shards := m.pool.shards.set i t.pool i.isLt }, t.store⟩ guards' M' := by
  refine ⟨ht.backed.store, fun j => ?_⟩
  by_cases hij : i = j
  · subst hij
    rw [get_set_self]
    exact ht.settle
  · have hne : (i : Nat) ≠ j := fun heq => hij (Fin.ext heq)
    rw [get_set_of_ne _ hne, hguards j (Ne.symm hne)]
    refine (h.shard j).congr ht.backed.store (fun id hid => ?_) fun id hid => ?_
    · exact ht.backed.elsewhere id fun heq => hne (heq.symm.trans hid)
    · exact hM id fun heq => hne (heq.symm.trans hid)

theorem same (h : Kept m guards M) {i : Fin k} {t : Mounted (Shard n) D}
    (ht : Shard.Kept (config n k i) m.store t (guardsOf k i guards) M) :
    Kept ⟨{ m.pool with shards := m.pool.shards.set i t.pool i.isLt }, t.store⟩ guards M :=
  h.set ht (fun _ _ => rfl) fun _ _ => rfl

theorem perm (h : Kept m guards M) {others : List (Guard n)} (hperm : guards.Perm others) :
    Kept m others M := ⟨h.store, fun i => (h.shard i).perm (hperm.filter _)⟩

-- One shard gives a guard out.
theorem push (h : Kept m guards M) {i : Fin k} {t : Mounted (Shard n) D} {g : Guard n} {M' : Memory}
    (ht : Shard.Kept (config n k i) m.store t (g :: guardsOf k i guards) M')
    (hM : ∀ id : PageId, id.number.toNat % k ≠ i → M' id = M id) :
    Kept ⟨{ m.pool with shards := m.pool.shards.set i t.pool i.isLt }, t.store⟩ (g :: guards) M' := by
  have hmod : g.page.number.toNat % k = i := ht.guard_mod List.mem_cons_self
  refine h.set ?_ (fun j hj => guardsOf_cons_of_ne hmod hj) hM
  rw [guardsOf_cons_self hmod]
  exact ht

theorem fetch (h : Kept m guards M) {id : PageId} {access : Access}
    (hadmits : Admits guards id access) :
    (ShardedPool.fetch id access).Ends m <| Op.AnswersOr (fun _ => Crowded id guards)
      (fun g m' => (g.page = id ∧ g.access = access) ∧ Kept m' (g :: guards) M)
      fun e m' => PoolError D e ∧ Kept m' guards M := by
  rw [ShardedPool.fetch, onOwner, Op.ends_bind, Mounted.ends_observe, Op.then_ok, ends_onShard]
  refine ((h.shard (m.pool.shardOf id)).fetch (hadmits.guardsOf k _)).mono fun r t ht => ?_
  exact ht.imp Crowded.of_guardsOf (fun g hg => ⟨hg.1, h.push hg.2 fun _ _ => rfl⟩)
    fun e he => ⟨he.1, h.same he.2⟩

theorem allocateIn (h : Kept m guards M) (shards : List (Fin k)) :
    (ShardedPool.allocateIn (D := D) (n := n) shards).Ends m <| Op.AnswersOr (fun m' => m'.pool.Spent)
      (fun g m' => (g.access = .exclusive ∧ M g.page = none ∧ g.page ≠ PageId.invalid) ∧
        Kept m' (g :: guards) (M.put g.page Page.zero))
      fun e m' => PoolError D e ∧ Kept m' guards M := by
  induction shards generalizing m with
  | nil => exact ⟨.poolFull, h⟩
  | cons i rest ih =>
    rw [ends_allocateIn_cons, ends_onShard]
    refine (h.shard i).allocate.mono fun r t ht => ?_
    cases r using Checked.outcomes with
    | ok g =>
      obtain ⟨hnew, hkept⟩ := ht
      have hmod : g.page.number.toNat % k = i := hkept.guard_mod List.mem_cons_self
      have hpush := h.push hkept fun id hid => M.put_of_ne Page.zero fun heq => hid (heq ▸ hmod)
      exact ⟨hnew, hpush.store, hpush.shard⟩
    | error e =>
      obtain ⟨he, hkept⟩ := ht
      dsimp only
      split
      · exact ih (h.same hkept)
      · exact ⟨he, h.same hkept⟩
    | abort a =>
      refine ⟨i, ?_⟩
      rw [get_set_self]
      exact ht

theorem allocate (h : Kept m guards M) :
    (ShardedPool.allocate (D := D) (n := n) (k := k)).Ends m <| Op.AnswersOr (fun m' => m'.pool.Spent)
      (fun g m' => (g.access = .exclusive ∧ M g.page = none ∧ g.page ≠ PageId.invalid) ∧
        Kept m' (g :: guards) (M.put g.page Page.zero))
      fun e m' => PoolError D e ∧ Kept m' guards M := by
  rw [ShardedPool.allocate, Op.ends_bind, Mounted.ends_observe, Op.then_ok]
  exact h.allocateIn _

theorem delete (h : Kept m guards M) (id : PageId) :
    (ShardedPool.delete id).Ends m <| Op.Answers (fun _ m' => Kept m' guards M)
      fun e m' => PoolError D e ∧ Kept m' guards M := by
  rw [ShardedPool.delete, onOwner, Op.ends_bind, Mounted.ends_observe, Op.then_ok, ends_onShard]
  refine ((h.shard (m.pool.shardOf id)).delete id).mono fun r t ht => ?_
  exact ht.imp (fun _ hb => h.same hb) fun _ hb => ⟨hb.1, h.same hb.2⟩

theorem flush (h : Kept m guards M) (id : PageId) :
    (ShardedPool.flush id).Ends m <| Op.AnswersOr (fun m' => Crowded id guards ∧ Kept m' guards M)
      (fun _ m' => Kept m' guards M) fun e m' => PoolError D e ∧ Kept m' guards M := by
  rw [ShardedPool.flush, onOwner, Op.ends_bind, Mounted.ends_observe, Op.then_ok, ends_onShard]
  refine ((h.shard (m.pool.shardOf id)).flush id).mono fun r t ht => ?_
  exact ht.imp (fun hc => ⟨hc.1.of_guardsOf, h.same hc.2⟩) (fun _ hb => h.same hb)
    fun _ hb => ⟨hb.1, h.same hb.2⟩

theorem flushAll (h : Kept m guards M) (walk : Walk) :
    (ShardedPool.flushAll (D := D) (n := n) (k := k) walk).Ends m <| Op.AnswersOr
      (fun m' => (∃ id, Crowded id guards) ∧ Kept m' guards M) (fun _ m' => Kept m' guards M)
      fun e m' => PoolError D e ∧ Kept m' guards M := by
  refine Op.ends_forM (I := fun _ m => Kept m guards M) (fun i _ m' hm => ?_) (fun _ hm => hm) _ _ h
  rw [ends_onShard]
  refine ((hm.shard i).flushAll walk).mono fun r t ht => ?_
  cases r using Checked.outcomes with
  | ok _ => exact hm.same ht
  | error e => exact ⟨ht.1, hm.same ht.2⟩
  | abort a => exact ⟨ht.1.imp fun _ hc => hc.of_guardsOf, hm.same ht.2⟩

theorem release {g : Guard n} (h : Kept m (g :: guards) M) :
    (ShardedPool.release g).Ends m fun r m' => r = .ok () ∧ Kept m' guards M := by
  have hmod : g.page.number.toNat % k = m.pool.shardOf g.page := rfl
  have hshard := h.shard (m.pool.shardOf g.page)
  rw [guardsOf_cons_self hmod] at hshard
  rw [ShardedPool.release, onOwner, Op.ends_bind, Mounted.ends_observe, Op.then_ok, ends_onShard]
  refine hshard.release.mono fun r t ht => ⟨ht.1, ?_⟩
  exact h.set ht.2 (fun j hj => (guardsOf_cons_of_ne hmod hj).symm) fun _ _ => rfl

theorem write {g : Guard n} (h : Kept m guards M) (hg : g ∈ guards)
    (haccess : g.access = .exclusive) (page : Page) :
    Kept ⟨m.pool.write g page, m.store⟩ guards (M.put g.page page) := by
  have hmem : g ∈ guardsOf k (m.pool.shardOf g.page) guards := by simp [guardsOf, hg, shardOf]
  have hwrite := Shard.Kept.write (m := ⟨m.pool.owner g.page, m.store⟩)
    (h.shard (m.pool.shardOf g.page)) hmem haccess page
  have hset := h.set hwrite (fun _ _ => rfl) fun id hid => M.put_of_ne page fun heq =>
    hid (heq ▸ rfl)
  rw [write_eq]
  exact hset

theorem read {g : Guard n} (h : Kept m guards M) (hg : g ∈ guards) :
    M g.page = some (m.pool.read g) :=
  (h.shard (m.pool.shardOf g.page)).read (by simp [guardsOf, hg, shardOf])

end Kept

end ShardedPool

namespace Pool

variable {n : Nat} {D : Type} {α : Type}

theorem ends_byShape (single : Op (Mounted (Shard n) D) α)
    (sharded : (k : Nat) → Op (Mounted (ShardedPool n k) D) α) (m : Mounted (Pool n) D)
    (Q : Checked α → Mounted (Pool n) D → Prop) :
    (byShape single sharded).Ends m Q ↔
      match m with
      | ⟨.single s, d⟩ => single.Ends ⟨s, d⟩ fun r t => Q r ⟨.single t.pool, t.store⟩
      | ⟨.sharded k p, d⟩ => (sharded k).Ends ⟨p, d⟩ fun r t => Q r ⟨.sharded k t.pool, t.store⟩ := by
  obtain ⟨pool, store⟩ := m
  cases pool <;> rfl

-- Some part of the pool has no page id left to give out.
def Spent : Pool n → Prop
  | single s => s.Spent
  | sharded _ p => p.Spent

theorem release_spent [PageStore D] (g : Guard n) (m : Mounted (Pool n) D) :
    (release g).Ends m fun _ m' => m.pool.Spent → m'.pool.Spent := by
  rw [release, ends_byShape]
  obtain ⟨pool, store⟩ := m
  cases pool with
  | single s => exact Shard.release_spent g ⟨s, store⟩
  | sharded k p =>
    simp only [ShardedPool.release, ShardedPool.onOwner, Op.ends_bind, Mounted.ends_observe,
      Op.then_ok, ShardedPool.ends_onShard]
    refine (Shard.release_spent g ⟨p.shards.get (p.shardOf g.page), store⟩).mono fun r t ht => ?_
    rintro ⟨i, hi⟩
    by_cases heq : (p.shardOf g.page : Nat) = i
    · obtain rfl := Fin.ext heq
      refine ⟨p.shardOf g.page, ?_⟩
      rw [ShardedPool.get_set_self]
      exact ht hi
    · refine ⟨i, ?_⟩
      rw [ShardedPool.get_set_of_ne _ heq]
      exact hi

-- The ids that the pool has pages for, or may have them.
def Serves (pool : Pool n) (id : PageId) : Prop :=
  id ≠ PageId.invalid ∧ id.number.toNat % (pool.owner id).count = (pool.owner id).index

variable [PageStore D] [LawfulStore D] {m : Mounted (Pool n) D} {guards : List (Guard n)}
  {M : Memory}

-- The shards of the pool keep the memory, one by itself or all for their parts of the ids.
def ShardsKept (m : Mounted (Pool n) D) (guards : List (Guard n)) (M : Memory) : Prop :=
  match m with
  | ⟨.single s, d⟩ => ∃ c, Shard.Kept c d ⟨s, d⟩ guards M
  | ⟨.sharded _ p, d⟩ => ShardedPool.Kept ⟨p, d⟩ guards M

-- The pool gives its guards out soundly and has the memory in its frames and its store.
structure Kept (m : Mounted (Pool n) D) (guards : List (Guard n)) (M : Memory) : Prop where
  shards : ShardsKept m guards M
  served (id : PageId) : ¬ m.pool.Serves id → M id = none

theorem serves_single {c : ShardConfig} {s t : Shard n} {guards guards' : List (Guard n)}
    (hs : s.Sound c guards) (ht : t.Sound c guards') (id : PageId) :
    (Pool.single t).Serves id ↔ (Pool.single s).Serves id := by
  simp only [Serves, owner, hs.index_eq, hs.count_eq, ht.index_eq, ht.count_eq]

theorem serves_sharded {k : Nat} {p : ShardedPool n k} {d : D}
    (h : ShardedPool.Kept ⟨p, d⟩ guards M) (id : PageId) :
    (Pool.sharded k p).Serves id ↔ id ≠ PageId.invalid := by
  have hsound := (h.shard (p.shardOf id)).sound
  refine and_iff_left ?_
  change id.number.toNat % (p.shards.get (p.shardOf id)).count = (p.shards.get (p.shardOf id)).index
  rw [hsound.count_eq, hsound.index_eq]
  rfl

namespace ShardsKept

theorem perm (h : ShardsKept m guards M) {others : List (Guard n)} (hperm : guards.Perm others) :
    ShardsKept m others M := by
  obtain ⟨pool, store⟩ := m
  cases pool with
  | single s => exact h.imp fun c hc => hc.perm hperm
  | sharded k p => exact ShardedPool.Kept.perm h hperm

-- The page of a guard is one that the pool serves.
theorem serves_guard (h : ShardsKept m guards M) {g : Guard n} (hg : g ∈ guards) :
    m.pool.Serves g.page := by
  obtain ⟨pool, store⟩ := m
  cases pool with
  | single s =>
    obtain ⟨c, hc⟩ := h
    obtain ⟨hvalid, hpart, _⟩ := (Shard.owns_iff s g.page).mp (hc.guard_owned hg)
    exact ⟨hvalid, hpart⟩
  | sharded k p =>
    have hmem : g ∈ guardsOf k (p.shardOf g.page) guards := by simp [guardsOf, hg, ShardedPool.shardOf]
    have howned := (ShardedPool.Kept.shard h (p.shardOf g.page)).guard_owned hmem
    obtain ⟨hvalid, hpart, _⟩ := (Shard.owns_iff _ g.page).mp howned
    exact ⟨hvalid, hpart⟩

end ShardsKept

namespace Kept

theorem perm (h : Kept m guards M) {others : List (Guard n)} (hperm : guards.Perm others) :
    Kept m others M := ⟨h.shards.perm hperm, h.served⟩

-- Shards that serve the same ids as before keep the memory after it was changed under guards.
theorem change (h : Kept m guards M) {m' : Mounted (Pool n) D} {guards' : List (Guard n)}
    {M' : Memory} (hm' : ShardsKept m' guards' M')
    (hserves : ∀ id, m'.pool.Serves id ↔ m.pool.Serves id)
    (hM : ∀ id, M' id = M id ∨ ∃ g ∈ guards', g.page = id) : Kept m' guards' M' := by
  refine ⟨hm', fun id hid => ?_⟩
  rcases hM id with hsame | ⟨g, hg, rfl⟩
  · rw [hsame]
    exact h.served id fun hold => hid ((hserves id).mpr hold)
  · exact absurd (hm'.serves_guard hg) hid

-- What both shapes of a pool do, the pool does.
theorem byShape (h : Kept m guards M) {single : Op (Mounted (Shard n) D) α}
    {sharded : (k : Nat) → Op (Mounted (ShardedPool n k) D) α} (A : Pool n → Prop) {F : α → Prop}
    {guards' : α → List (Guard n)} {M' : α → Memory}
    (hM : ∀ a id, M' a id = M id ∨ ∃ g ∈ guards' a, g.page = id)
    (hsingle : ∀ (c : ShardConfig) (m : Mounted (Shard n) D), Shard.Kept c m.store m guards M →
      single.Ends m (Op.AnswersOr (fun m' => A (.single m'.pool))
        (fun a m' => F a ∧ Shard.Kept c m.store m' (guards' a) (M' a))
        fun e m' => PoolError D e ∧ Shard.Kept c m.store m' guards M))
    (hsharded : ∀ (k : Nat) (m : Mounted (ShardedPool n k) D), ShardedPool.Kept m guards M →
      (sharded k).Ends m (Op.AnswersOr (fun m' => A (.sharded k m'.pool))
        (fun a m' => F a ∧ ShardedPool.Kept m' (guards' a) (M' a))
        fun e m' => PoolError D e ∧ ShardedPool.Kept m' guards M)) :
    (Pool.byShape single sharded).Ends m (Op.AnswersOr (fun m' => A m'.pool)
      (fun a m' => F a ∧ Kept m' (guards' a) (M' a))
      fun e m' => PoolError D e ∧ Kept m' guards M) := by
  have hshards := h.shards
  rw [ends_byShape]
  obtain ⟨pool, store⟩ := m
  cases pool with
  | single s =>
    obtain ⟨c, hc⟩ := hshards
    refine (hsingle c _ hc).mono fun r t ht => ?_
    refine ht.imp (fun ha => ha) (fun a ha => ⟨ha.1, ?_⟩) fun e he => ⟨he.1, ?_⟩
    · exact h.change ⟨c, ha.2.settle⟩ (serves_single hc.sound ha.2.sound) (hM a)
    · exact h.change ⟨c, he.2.settle⟩ (serves_single hc.sound he.2.sound) fun _ => Or.inl rfl
  | sharded k p =>
    have hserves {t : Mounted (ShardedPool n k) D} {guards'' : List (Guard n)} {M'' : Memory}
        (ht : ShardedPool.Kept t guards'' M'') (id : PageId) :=
      (serves_sharded ht id).trans (serves_sharded hshards id).symm
    refine (hsharded k _ hshards).mono fun r t ht => ?_
    refine ht.imp (fun ha => ha) (fun a ha => ⟨ha.1, ?_⟩) fun e he => ⟨he.1, ?_⟩
    · exact h.change ha.2 (hserves ha.2) (hM a)
    · exact h.change he.2 (hserves he.2) fun _ => Or.inl rfl

-- What both shapes keep, after whatever ending, the pool keeps.
theorem byShape_same (h : Kept m guards M) {single : Op (Mounted (Shard n) D) α}
    {sharded : (k : Nat) → Op (Mounted (ShardedPool n k) D) α} (A : Prop)
    (hsingle : ∀ (c : ShardConfig) (m : Mounted (Shard n) D), Shard.Kept c m.store m guards M →
      single.Ends m (Op.AnswersOr (fun m' => A ∧ Shard.Kept c m.store m' guards M)
        (fun _ m' => Shard.Kept c m.store m' guards M)
        fun e m' => PoolError D e ∧ Shard.Kept c m.store m' guards M))
    (hsharded : ∀ (k : Nat) (m : Mounted (ShardedPool n k) D), ShardedPool.Kept m guards M →
      (sharded k).Ends m (Op.AnswersOr (fun m' => A ∧ ShardedPool.Kept m' guards M)
        (fun _ m' => ShardedPool.Kept m' guards M)
        fun e m' => PoolError D e ∧ ShardedPool.Kept m' guards M)) :
    (Pool.byShape single sharded).Ends m (Op.AnswersOr (fun m' => A ∧ Kept m' guards M)
      (fun _ m' => Kept m' guards M) fun e m' => PoolError D e ∧ Kept m' guards M) := by
  have hshards := h.shards
  rw [ends_byShape]
  obtain ⟨pool, store⟩ := m
  cases pool with
  | single s =>
    obtain ⟨c, hc⟩ := hshards
    have hkept {t : Mounted (Shard n) D} (ht : Shard.Kept c store t guards M) :
        Kept ⟨.single t.pool, t.store⟩ guards M :=
      h.change ⟨c, ht.settle⟩ (serves_single hc.sound ht.sound) fun _ => Or.inl rfl
    exact (hsingle c _ hc).mono fun r t ht =>
      ht.imp (fun ha => ⟨ha.1, hkept ha.2⟩) (fun _ hk => hkept hk) fun _ he => ⟨he.1, hkept he.2⟩
  | sharded k p =>
    have hkept {t : Mounted (ShardedPool n k) D} (ht : ShardedPool.Kept t guards M) :
        Kept ⟨.sharded k t.pool, t.store⟩ guards M :=
      h.change ht (fun id => (serves_sharded ht id).trans (serves_sharded hshards id).symm)
        fun _ => Or.inl rfl
    exact (hsharded k _ hshards).mono fun r t ht =>
      ht.imp (fun ha => ⟨ha.1, hkept ha.2⟩) (fun _ hk => hkept hk) fun _ he => ⟨he.1, hkept he.2⟩

theorem fetch (h : Kept m guards M) {id : PageId} {access : Access}
    (hadmits : Admits guards id access) :
    (Pool.fetch id access).Ends m <| Op.AnswersOr (fun _ => Crowded id guards)
      (fun g m' => (g.page = id ∧ g.access = access) ∧ Kept m' (g :: guards) M)
      fun e m' => PoolError D e ∧ Kept m' guards M :=
  h.byShape (fun _ => Crowded id guards) (fun _ _ => Or.inl rfl) (fun _ _ hc => hc.fetch hadmits)
    fun _ _ hp => hp.fetch hadmits

theorem allocate (h : Kept m guards M) :
    (Pool.allocate (D := D)).Ends m <| Op.AnswersOr (fun m' => m'.pool.Spent)
      (fun g m' => (g.access = .exclusive ∧ M g.page = none ∧ g.page ≠ PageId.invalid) ∧
        Kept m' (g :: guards) (M.put g.page Page.zero))
      fun e m' => PoolError D e ∧ Kept m' guards M := by
  refine h.byShape Spent (fun g id => ?_) (fun _ _ hc => hc.allocate) fun _ _ hp => hp.allocate
  by_cases hid : id = g.page
  · exact Or.inr ⟨g, List.mem_cons_self, hid.symm⟩
  · exact Or.inl (M.put_of_ne Page.zero hid)

theorem delete (h : Kept m guards M) (id : PageId) :
    (Pool.delete id).Ends m <| Op.Answers (fun _ m' => Kept m' guards M)
      fun e m' => PoolError D e ∧ Kept m' guards M :=
  (h.byShape_same False (fun _ _ hc => (hc.delete id).mono fun _ _ ht =>
      ht.imp (fun _ hb => hb) fun _ he => he) fun _ _ hp => (hp.delete id).mono fun _ _ ht =>
      ht.imp (fun _ hb => hb) fun _ he => he).mono fun _ _ ht =>
    ht.imp And.left (fun _ hb => hb) fun _ he => he

theorem flush (h : Kept m guards M) (id : PageId) :
    (Pool.flush id).Ends m <| Op.AnswersOr (fun m' => Crowded id guards ∧ Kept m' guards M)
      (fun _ m' => Kept m' guards M) fun e m' => PoolError D e ∧ Kept m' guards M :=
  h.byShape_same _ (fun _ _ hc => hc.flush id) fun _ _ hp => hp.flush id

theorem flushAll (h : Kept m guards M) (walk : Walk) :
    (Pool.flushAll (D := D) walk).Ends m <| Op.AnswersOr
      (fun m' => (∃ id, Crowded id guards) ∧ Kept m' guards M) (fun _ m' => Kept m' guards M)
      fun e m' => PoolError D e ∧ Kept m' guards M :=
  h.byShape_same _ (fun _ _ hc => hc.flushAll walk) fun _ _ hp => hp.flushAll walk

theorem release {g : Guard n} (h : Kept m (g :: guards) M) :
    (Pool.release g).Ends m fun r m' => r = .ok () ∧ Kept m' guards M := by
  have hshards := h.shards
  rw [Pool.release, ends_byShape]
  obtain ⟨pool, store⟩ := m
  cases pool with
  | single s =>
    obtain ⟨c, hc⟩ := hshards
    refine (Shard.Kept.release hc).mono fun r t ht => ⟨ht.1, ?_⟩
    exact h.change ⟨c, ht.2.settle⟩ (serves_single hc.sound ht.2.sound) fun _ => Or.inl rfl
  | sharded k p =>
    refine (ShardedPool.Kept.release hshards).mono fun r t ht => ⟨ht.1, ?_⟩
    exact h.change ht.2 (fun id => (serves_sharded ht.2 id).trans (serves_sharded hshards id).symm)
      fun _ => Or.inl rfl

theorem write {g : Guard n} (h : Kept m guards M) (hg : g ∈ guards)
    (haccess : g.access = .exclusive) (page : Page) :
    Kept ⟨m.pool.write g page, m.store⟩ guards (M.put g.page page) := by
  have hM (id : PageId) : M.put g.page page id = M id ∨ ∃ g ∈ guards, g.page = id := by
    by_cases hid : id = g.page
    · exact Or.inr ⟨g, hg, hid.symm⟩
    · exact Or.inl (M.put_of_ne page hid)
  have hshards := h.shards
  obtain ⟨pool, store⟩ := m
  cases pool with
  | single s =>
    obtain ⟨c, hc⟩ := hshards
    have hwrite := Shard.Kept.write (m := ⟨s, store⟩) hc hg haccess page
    exact h.change ⟨c, hwrite⟩ (serves_single hc.sound hwrite.sound) hM
  | sharded k p =>
    have hwrite := ShardedPool.Kept.write hshards hg haccess page
    exact h.change hwrite
      (fun id => (serves_sharded hwrite id).trans (serves_sharded hshards id).symm) hM

theorem read {g : Guard n} (h : Kept m guards M) (hg : g ∈ guards) :
    M g.page = some (m.pool.read g) := by
  have hshards := h.shards
  obtain ⟨pool, store⟩ := m
  cases pool with
  | single s =>
    obtain ⟨c, hc⟩ := hshards
    exact hc.read hg
  | sharded k p => exact ShardedPool.Kept.read hshards hg

end Kept

-- The pages of the pool, as they are in its frames and in the store.
def contents (m : Mounted (Pool n) D) : Memory := fun id =>
  (m.pool.owner id).contents (LawfulStore.page m.store) id

-- The memory that the pool keeps is what it contains.
theorem Kept.contents_eq (h : Kept m guards M) : contents m = M := by
  funext id
  by_cases hserves : m.pool.Serves id
  · have hshards := h.shards
    obtain ⟨pool, store⟩ := m
    obtain ⟨hvalid, hpart⟩ := hserves
    cases pool with
    | single s =>
      obtain ⟨c, hc⟩ := hshards
      exact hc.backed.caches.contents_eq hc.sound.tabled hvalid hpart
    | sharded k p =>
      have hc := ShardedPool.Kept.shard hshards (p.shardOf id)
      exact hc.backed.caches.contents_eq hc.sound.tabled hvalid hpart
  · rw [h.served id hserves, contents, Shard.contents, if_neg]
    intro howns
    obtain ⟨hvalid, hpart, _⟩ := (Shard.owns_iff _ id).mp howns
    exact hserves ⟨hvalid, hpart⟩

end Pool

end PagedIndex
