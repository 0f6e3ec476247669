import PagedIndex.Proofs.Pool.Turns

namespace PagedIndex

-- An attempt of a sharded pool to allocate: the page that it gave out, and whether the shard whose
-- turn it was refused.
structure Attempt where
  page : Option PageId
  refused : Prop

namespace Attempt

-- The pages that were given out, the last one first.
def pages (attempts : List Attempt) : List PageId := attempts.filterMap page

-- The shard whose turn it is, of `k` shards, after these pages were given out.
def turnAfter (k : Nat) : List PageId → Nat
  | [] => 0
  | id :: _ => (id.number.toNat % k + 1) % k

-- The shard whose turn it was has given out the page, unless it refused.
inductive InTurn (k : Nat) : List Attempt → Prop
  | nil : InTurn k []
  | cons {attempt : Attempt} {earlier : List Attempt} : InTurn k earlier →
      (∀ id, attempt.page = some id → ¬ attempt.refused →
        id.number.toNat % k = turnAfter k (pages earlier)) →
      InTurn k (attempt :: earlier)

variable {k : Nat} {stretch earlier later : List Attempt}

theorem turnAfter_lt (hk : 0 < k) (ids : List PageId) : turnAfter k ids < k := by
  cases ids with
  | nil => exact hk
  | cons id ids => exact Nat.mod_lt _ hk

theorem InTurn.of_append (h : InTurn k (later ++ earlier)) : InTurn k earlier := by
  induction later with
  | nil => exact h
  | cons attempt later ih =>
    cases h with
    | cons h _ => exact ih h

-- The turn moves on by one shard with each page.
theorem InTurn.turnAfter_stretch (hk : 0 < k) (h : InTurn k (stretch ++ earlier))
    (hnone : ∀ attempt ∈ stretch, ¬ attempt.refused) :
    turnAfter k (pages (stretch ++ earlier)) =
      (turnAfter k (pages earlier) + (pages stretch).length) % k := by
  induction stretch with
  | nil => exact (Nat.mod_eq_of_lt (turnAfter_lt hk _)).symm
  | cons attempt stretch ih =>
    obtain ⟨page, refused⟩ := attempt
    rw [List.cons_append] at h
    cases h with
    | cons h hturn =>
      obtain ⟨hnot, hothers⟩ := List.forall_mem_cons.mp hnone
      cases page with
      | none => exact ih h hothers
      | some id =>
        change (id.number.toNat % k + 1) % k = (_ + ((pages stretch).length + 1)) % k
        rw [hturn id rfl hnot, ih h hothers, Nat.mod_add_mod, Nat.add_assoc]

-- As long as no shard refuses, the number of pages tells whose turn it is.
theorem InTurn.turnAfter_eq (hk : 0 < k) {attempts : List Attempt} (h : InTurn k attempts)
    (hnone : ∀ attempt ∈ attempts, ¬ attempt.refused) :
    turnAfter k (pages attempts) = (pages attempts).length % k := by
  have hall : InTurn k (attempts ++ []) := by rwa [List.append_nil]
  have hturn := hall.turnAfter_stretch hk hnone
  rw [List.append_nil] at hturn
  rw [hturn]
  exact congrArg (· % k) (Nat.zero_add _)

theorem InTurn.pages_stretch (hk : 0 < k) (h : InTurn k (stretch ++ earlier))
    (hnone : ∀ attempt ∈ stretch, ¬ attempt.refused) :
    (pages stretch).reverse.map (fun id => id.number.toNat % k) =
      (List.range (pages stretch).length).map fun i => (turnAfter k (pages earlier) + i) % k := by
  induction stretch with
  | nil => rfl
  | cons attempt stretch ih =>
    obtain ⟨page, refused⟩ := attempt
    rw [List.cons_append] at h
    cases h with
    | cons h hturn =>
      obtain ⟨hnot, hothers⟩ := List.forall_mem_cons.mp hnone
      cases page with
      | none => exact ih h hothers
      | some id =>
        have hid := (hturn id rfl hnot).trans (h.turnAfter_stretch hk hothers)
        change (id :: pages stretch).reverse.map _ = (List.range ((pages stretch).length + 1)).map _
        rw [List.reverse_cons, List.map_append, ih h hothers, List.range_succ, List.map_append,
          List.map_singleton, List.map_singleton, hid]

theorem InTurn.round (hk : 0 < k) (h : InTurn k (stretch ++ earlier))
    (hnone : ∀ attempt ∈ stretch, ¬ attempt.refused) (hlength : (pages stretch).length = k) :
    ((pages stretch).map fun id => id.number.toNat % k).Perm (List.range k) := by
  have hpages := h.pages_stretch hk hnone
  rw [hlength, List.map_reverse] at hpages
  exact (List.reverse_perm _).symm.trans (hpages ▸ ShardedPool.range_rotated k _)

end Attempt

namespace ShardedPool

variable {n k : Nat} {D α : Type} {turn : Nat}

-- What is done on one shard is no turn.
theorem keeps_turn_onShard (i : Fin k) (x : Op (Mounted (Shard n) D) α) :
    Op.Keeps (fun m : Mounted (ShardedPool n k) D => m.pool.next = turn) (onShard i x) := by
  intro m hm
  rw [ends_onShard]
  exact Op.ends_of_forall fun _ _ => hm

theorem keeps_turn_onOwner (id : PageId) (x : Op (Mounted (Shard n) D) α) :
    Op.Keeps (fun m : Mounted (ShardedPool n k) D => m.pool.next = turn) (onOwner id x) :=
  Op.Keeps.bind (fun _ hm => hm) fun i => keeps_turn_onShard i x

end ShardedPool

namespace Pool

variable {n k turn : Nat} {D α : Type}

-- The pool is sharded, and it is the turn of this shard.
def AtTurn (k turn : Nat) (m : Mounted (Pool n) D) : Prop :=
  ∃ p : ShardedPool n k, m.pool = .sharded k p ∧ p.next = turn

theorem keeps_turn_byShape {single : Op (Mounted (Shard n) D) α}
    {sharded : (k : Nat) → Op (Mounted (ShardedPool n k) D) α}
    (h : Op.Keeps (fun m : Mounted (ShardedPool n k) D => m.pool.next = turn) (sharded k)) :
    Op.Keeps (AtTurn k turn) (byShape single sharded) := by
  rintro ⟨pool, d⟩ ⟨p, rfl, hp⟩
  rw [ends_byShape]
  exact (h ⟨p, d⟩ hp).mono fun _ t ht => ⟨t.pool, rfl, ht⟩

variable [PageStore D]

-- The turn passes on by an allocation of the whole pool, and by nothing else.
theorem keeps_turn (req : Request n) (hreq : req ≠ .whole .allocate) :
    Op.Keeps (AtTurn k turn) (req.run : Op (Mounted (Pool n) D) (Option (Guard n))) := by
  have howner {α : Type} (id : PageId) (x : Op (Mounted (Shard n) D) α) :
      Op.Keeps (AtTurn k turn) (byShape x fun _ => ShardedPool.onOwner id x) :=
    keeps_turn_byShape (ShardedPool.keeps_turn_onOwner id x)
  cases req with
  | whole call =>
    cases call with
    | fetch id access => exact (howner id _).map _
    | allocate => exact absurd rfl hreq
    | write g page =>
      rintro ⟨pool, d⟩ ⟨p, rfl, hp⟩
      exact ⟨p.write g page, rfl, (congrArg ShardedPool.next (ShardedPool.write_eq p g page)).trans hp⟩
    | release g => exact (howner g.page _).bind fun _ => Op.keeps_pure _
    | flush id => exact (howner id _).discard.bind fun _ => Op.keeps_pure _
    | flushAll =>
      refine Op.Keeps.bind (keeps_turn_byShape ?_) fun _ => Op.keeps_pure _
      exact Op.Keeps.forM (fun i => ShardedPool.keeps_turn_onShard i _) _
    | delete id => exact (howner id _).discard.bind fun _ => Op.keeps_pure _
  | direct i call =>
    rintro ⟨pool, d⟩ ⟨p, rfl, hp⟩
    rw [Request.ends_direct]
    dsimp only
    split
    · exact (ShardedPool.keeps_turn_onShard _ _ ⟨p, d⟩ hp).mono fun _ t ht => ⟨t.pool, rfl, ht⟩
    · exact ⟨p, rfl, hp⟩

end Pool

namespace Shard

-- With one page more in the store, the part that the page is in starts one number later.
theorem firstId_succ {i k : Nat} (hi : i < k) (stored : Nat) :
    firstId i k (stored + 1) = if i = stored % k then stored + k else firstId i k stored := by
  have hleast := firstId_isLeast hi (stored + 1)
  split
  · rename_i hpart
    refine hleast.unique ⟨⟨by omega, ?_⟩, fun number hnumber => ?_⟩
    · rw [Nat.add_mod_right, hpart]
    · obtain ⟨hstored, hmod⟩ := hnumber
      have hdvd : k ∣ number - stored :=
        Nat.dvd_of_mod_eq_zero (Nat.sub_mod_eq_zero_of_mod_eq (hmod.trans hpart))
      have hle := Nat.le_of_dvd (by omega) hdvd
      omega
  · rename_i hpart
    obtain ⟨⟨hstored, hmod⟩, hlower⟩ := firstId_isLeast hi stored
    have hne : firstId i k stored ≠ stored := fun heq => hpart (by rw [← hmod, heq])
    exact hleast.unique ⟨⟨by omega, hmod⟩, fun number hnumber =>
      hlower ⟨Nat.le_of_succ_le hnumber.1, hnumber.2⟩⟩

theorem firstId_mod {k : Nat} (hk : 0 < k) (stored : Nat) : firstId (stored % k) k stored = stored :=
  (firstId_isLeast (Nat.mod_lt _ hk) stored).unique ⟨⟨le_refl _, rfl⟩, fun _ h => h.1⟩

end Shard

namespace Pool

variable {n k : Nat} {D : Type} [PageStore D]

-- The shard that is asked first refuses to allocate.
def Refuses (m : Mounted (Pool n) D) : Prop :=
  ∃ (k : Nat) (p : ShardedPool n k), m.pool = .sharded k p ∧
    (Shard.allocate ⟨p.shards.get p.firstAsked, m.store⟩).result = .error (.error .poolFull)

end Pool

namespace Request

variable {n : Nat} {D : Type} [PageStore D]

-- What a request to the whole pool adds to its attempts to allocate.
def attempts (m : Mounted (Pool n) D) (r : Checked (Option (Guard n))) : Request n → List Attempt
  | whole .allocate => [⟨(PoolCall.allocate.idsAfter [] r).head?, Pool.Refuses m⟩]
  | _ => []

-- The pages that a single shard gives out when it is asked directly.
def aside (r : Checked (Option (Guard n))) : Request n → List PageId
  | whole _ => []
  | direct _ call => call.idsAfter [] r

theorem attempts_eq_nil {req : Request n} (hreq : req ≠ .whole .allocate) (m : Mounted (Pool n) D)
    (r : Checked (Option (Guard n))) : req.attempts m r = [] := by
  cases req with
  | direct i call => rfl
  | whole call =>
    cases call with
    | allocate => exact absurd rfl hreq
    | _ => rfl

end Request

namespace Pool

variable {n k : Nat} {D : Type} [PageStore D] [LawfulStore D]

-- The runs of a sharded pool that is created over `d`, with its attempts to allocate, the last one
-- first, and the pages that its shards were asked for directly.
inductive Turned (k : Nat) (d : D) : Mounted (Pool n) D → List (Guard n) → List Attempt →
    List PageId → Prop
  | created {pool : Pool n} : ((PoolShape.sharded k).create n d).result = .ok pool →
      Turned k d ⟨pool, ((PoolShape.sharded k).create n d).state⟩ [] [] []
  | request {m : Mounted (Pool n) D} {guards : List (Guard n)} {attempts : List Attempt}
      {aside : List PageId} (req : Request n) : Turned k d m guards attempts aside →
      req.Legal guards → (req.run m).result.Returns →
      Turned k d (req.run m).state (req.call.guardsAfter guards (req.run m).result)
        (req.attempts m (req.run m).result ++ attempts) (req.aside (req.run m).result ++ aside)

open Attempt

-- The pages were numbered from zero on, and the counters stand as if the store had held them.
structure Numbered (k : Nat) (next : Nat → Nat) (ids : List PageId) : Prop where
  numbers : ids.reverse.map (fun id => id.number.toNat) = List.range ids.length
  counters (i : Nat) : i < k → next i = Shard.firstId i k ids.length

structure Rotated (d : D) (p : ShardedPool n k) (store : D) (guards : List (Guard n))
    (next : Nat → Nat) (attempts : List Attempt) (aside : List PageId) : Prop where
  steady : ShardedPool.Steady guards next ⟨p, store⟩
  turn_eq : p.next = turnAfter k (pages attempts)
  inTurn : InTurn k attempts
  numbered : LawfulStore.count d = 0 → aside = [] → (∀ attempt ∈ attempts, ¬ attempt.refused) →
    Numbered k next (pages attempts)

theorem Numbered.push {next : Nat → Nat} {ids : List PageId} (h : Numbered k next ids) {i : Nat}
    (hk : 0 < k) (hi : i = ids.length % k) {id : PageId} (hid : id.number.toNat = next i) :
    Numbered k (Function.update next i (next i + k)) (id :: ids) := by
  have hik : i < k := hi ▸ Nat.mod_lt _ hk
  have hnext : next i = ids.length := by
    rw [h.counters i hik, hi, Shard.firstId_mod hk]
  constructor
  case numbers =>
    rw [List.reverse_cons, List.map_append, h.numbers, List.length_cons, List.range_succ,
      List.map_singleton, hid, hnext]
  case counters =>
    intro j hj
    rw [List.length_cons, Shard.firstId_succ hj]
    by_cases hji : j = i
    · rw [hji, Function.update_self, if_pos hi, hnext]
    · rw [Function.update_of_ne hji, if_neg (hi ▸ hji)]
      exact h.counters j hj

theorem rotated_of_created (hk : 0 < k) {d : D} (hd : LawfulStore.Sound d) :
    ((PoolShape.sharded k).create n).Ends d fun r store => ∀ pool, r = .ok pool →
      ∃ p next, pool = .sharded k p ∧ Rotated d p store [] next [] [] := by
  have hvalid : (PoolShape.sharded k).Valid := hk
  have hcount (d : D) (_ : True) : PageStore.pageCount.Ends d fun _ _ => True :=
    Op.ends_of_forall fun _ _ => trivial
  refine ((PoolShape.create_outcome hvalid hd).and
    ((PoolShape.sharded k).create_ends hcount hd trivial)).mono fun r store hr => ?_
  rintro pool rfl
  obtain ⟨⟨-, hsteady⟩, hinitial, -⟩ := hr
  obtain ⟨shards, pos, rfl, -⟩ := hinitial
  cases hsteady with
  | sharded hsteady =>
    refine ⟨_, _, rfl, hsteady, rfl, .nil, fun hcount _ _ => ⟨rfl, fun i _ => ?_⟩⟩
    change Shard.firstId i k (LawfulStore.count d).toNat = Shard.firstId i k 0
    rw [hcount]
    rfl

omit [LawfulStore D] in
theorem refuses_of_full {p : ShardedPool n k} (h : (p.shards.get p.firstAsked).Full) (store : D) :
    Refuses (⟨.sharded k p, store⟩ : Mounted (Pool n) D) :=
  ⟨k, p, rfl, (Shard.allocate_of_full (m := ⟨p.shards.get p.firstAsked, store⟩) h).1⟩

variable {d store : D} {p : ShardedPool n k} {guards : List (Guard n)}
  {next : Nat → Nat} {attempts : List Attempt} {aside : List PageId}

-- Without a page the attempt changes nothing in the order.
theorem Rotated.unanswered (h : Rotated d p store guards next attempts aside) {p' : ShardedPool n k}
    {store' : D} (hsteady : ShardedPool.Steady guards next ⟨p', store'⟩) (hturn : p'.next = p.next)
    (refused : Prop) : Rotated d p' store' guards next (⟨none, refused⟩ :: attempts) aside where
  steady := hsteady
  turn_eq := hturn.trans h.turn_eq
  inTurn := .cons h.inTurn nofun
  numbered hcount haside hnone := h.numbered hcount haside (List.forall_mem_cons.mp hnone).2

theorem Rotated.given (h : Rotated d p store guards next attempts aside) {p' : ShardedPool n k}
    {store' : D} {g : Guard n} {i : Fin k} (hid : g.page.number.toNat = next i)
    (hsteady : ShardedPool.Steady (g :: guards) (Function.update next i (next i + k)) ⟨p', store'⟩)
    (hturn : p'.next = (i + 1) % k) {refused : Prop} (hfirst : ¬ refused → i = p.firstAsked) :
    Rotated d p' store' (g :: guards) (Function.update next i (next i + k))
      (⟨some g.page, refused⟩ :: attempts) aside := by
  have hmod : g.page.number.toNat % k = i := hid ▸ h.steady.next_mod i
  have hlt := turnAfter_lt p.pos (pages attempts)
  have hturn' (hnot : ¬ refused) : (i : Nat) = turnAfter k (pages attempts) := by
    rw [hfirst hnot]
    change p.next % k = _
    rw [h.turn_eq, Nat.mod_eq_of_lt hlt]
  constructor
  case steady => exact hsteady
  case turn_eq =>
    rw [hturn, ← hmod]
    rfl
  case inTurn =>
    refine .cons h.inTurn fun id hpage hnot => ?_
    obtain rfl := Option.some_inj.mp hpage
    exact hmod.trans (hturn' hnot)
  case numbered =>
    intro hcount haside hnone
    obtain ⟨hnot, hothers⟩ := List.forall_mem_cons.mp hnone
    refine (h.numbered hcount haside hothers).push p.pos ?_ hid
    rw [hturn' hnot, h.inTurn.turnAfter_eq p.pos hothers]

variable [DeviceStore D]

theorem Rotated.allocate (h : Rotated d p store guards next attempts aside) :
    (Request.whole .allocate).run.Ends (⟨.sharded k p, store⟩ : Mounted (Pool n) D) fun r m' =>
      r.Returns → ∃ p' next', m'.pool = .sharded k p' ∧
        Rotated d p' m'.store (PoolCall.allocate.guardsAfter guards r) next'
          ((Request.whole .allocate).attempts ⟨.sharded k p, store⟩ r ++ attempts) aside := by
  rw [Request.run, PoolCall.run, Op.ends_map]
  change (Pool.allocate).Ends _ _
  rw [Pool.allocate, ends_byShape]
  refine ((ShardedPool.allocate_answered h.steady).and h.steady.allocate).mono fun r t ht => ?_
  obtain ⟨hanswered, hsteady⟩ := ht
  cases r using Checked.outcomes with
  | ok g =>
    intro _
    obtain ⟨_, hr, _⟩ | ⟨i, _, hanswered, hfirst⟩ := hanswered
    · cases hr
    obtain ⟨j, ⟨hlimit, hpage⟩, hsteady⟩ := hsteady
    have hj : g.page.number.toNat = next j := by
      rw [hpage, UInt32.toNat_ofNat']
      exact Nat.mod_eq_of_lt (Nat.lt_of_add_right_lt hlimit)
    obtain rfl : i = j := by
      cases hanswered.answer with
      | given _ hi _ =>
        have hnext : (p.shards.get i).nextId = next i := (h.steady.shard i).counts.nextId_eq
        have hnumber : next i = next j := hnext.symm.trans (hi.symm.trans hj)
        exact Fin.ext (by rw [← h.steady.next_mod i, hnumber, h.steady.next_mod j])
    refine ⟨t.pool, _, rfl, h.given hj hsteady hanswered.turn fun hnot => ?_⟩
    exact hfirst fun hfull => hnot (refuses_of_full hfull store)
  | error e =>
    intro _
    refine ⟨t.pool, next, rfl, h.unanswered hsteady.2 ?_ _⟩
    obtain ⟨_, _, rfl⟩ | ⟨i, _, hanswered, _⟩ := hanswered
    · rfl
    · exact hanswered.turn
  | abort a => exact fun hreturns => absurd rfl (hreturns a)

omit [DeviceStore D] in
theorem Rotated.other (h : Rotated d p store guards next attempts aside) {req : Request n}
    (hreq : req ≠ .whole .allocate) (hlegal : req.Legal guards) :
    req.run.Ends (⟨.sharded k p, store⟩ : Mounted (Pool n) D) fun r m' => r.Returns →
      ∃ p' next', m'.pool = .sharded k p' ∧ Rotated d p' m'.store (req.call.guardsAfter guards r) next'
        (req.attempts ⟨.sharded k p, store⟩ r ++ attempts) (req.aside r ++ aside) := by
  refine (((Steady.sharded h.steady).request req hlegal).and
    (keeps_turn req hreq _ ⟨p, rfl, rfl⟩)).mono fun r m' hm hreturns => ?_
  obtain ⟨hm, p', hpool, hturn⟩ := hm
  obtain ⟨next', hadvances, hsteady⟩ := hm hreturns
  obtain ⟨pool, store'⟩ := m'
  obtain rfl := hpool
  rw [Request.attempts_eq_nil hreq, List.nil_append]
  cases hsteady with
  | sharded hsteady =>
    refine ⟨p', next', rfl, hsteady, hturn.trans h.turn_eq, h.inTurn, fun hcount haside hnone => ?_⟩
    obtain ⟨hown, haside⟩ := List.append_eq_nil_iff.mp haside
    obtain ⟨g, hcall, rfl, _⟩ | ⟨rfl, _⟩ := hadvances.cases
    · cases req with
      | whole call => exact absurd (congrArg Request.whole hcall) hreq
      | direct i call =>
        obtain rfl : call = .allocate := hcall
        cases hown
    · exact h.numbered hcount haside hnone

theorem Turned.rotated (hk : 0 < k) (hd : LawfulStore.Sound d) {m : Mounted (Pool n) D}
    (h : Turned k d m guards attempts aside) : ∃ p next, m.pool = .sharded k p ∧
      Rotated d p m.store guards next attempts aside := by
  induction h with
  | @created pool hcreate => exact rotated_of_created hk hd pool hcreate
  | @request m guards attempts aside req _ hlegal hreturns ih =>
    obtain ⟨p, next, hpool, hrotated⟩ := ih
    obtain ⟨pool, store⟩ := m
    obtain rfl := hpool
    by_cases hreq : req = .whole .allocate
    · subst hreq
      exact hrotated.allocate hreturns
    · exact hrotated.other hreq hlegal hreturns

-- A shard by itself has no frame to give if it has no number for any, though none has a pin.
theorem exists_refusal_of_mod (hn : n % Shard.frameNumberLimit = 0) (hframes : n ≤ Shard.maxFrames)
    (hqueue : n ≤ EvictionQueue.maxCapacity) :
    ∃ p : ShardedPool n 1,
      Turned 1 .empty (⟨.sharded 1 p, .empty⟩ : Mounted (Pool n) MemoryStore) [] [] [] ∧
      (∀ i f, ((p.shards.get i).frame f).pins = 0) ∧
      (ShardedPool.allocate ⟨p, MemoryStore.empty⟩).result = .error (.error .poolFull) := by
  let s := Shard.initial n n 0 1 (Shard.firstId 0 1 (0 : UInt32).toNat)
  let p : ShardedPool n 1 := ⟨#v[s], 0, Nat.one_pos⟩
  have hshard (i : Fin 1) : p.shards.get i = s := by
    obtain rfl := Subsingleton.elim 0 i
    rfl
  have hcount : PageStore.pageCount.Ends MemoryStore.empty fun r d => r = .ok 0 ∧ d = .empty :=
    ⟨rfl, rfl⟩
  obtain ⟨hresult, hstate⟩ : ((PoolShape.sharded 1).create n).Ends MemoryStore.empty fun r d =>
      r = .ok (.sharded 1 p) ∧ d = .empty := by
    rw [PoolShape.create, Op.ends_map, ShardedPool.create, dif_pos Nat.one_pos, Op.ends_bind,
      ShardedPool.createFrom, Op.ends_bind]
    refine (Shard.create_whole_ends hframes hqueue hcount).mono fun r d hr => ?_
    obtain ⟨rfl, rfl⟩ := hr
    exact ⟨rfl, rfl⟩
  have hcreated := Turned.created hresult
  rw [hstate] at hcreated
  refine ⟨p, hcreated, fun i f => ?_, ?_⟩
  · rw [hshard, Shard.frame_initial]
    rfl
  · have hfull (i : Fin 1) : (p.shards.get i).Full := hshard i ▸ Shard.initial_full hn n 0 1 _
    have hends : ShardedPool.allocate.Ends ⟨p, MemoryStore.empty⟩ fun r _ =>
        r = .error (.error .poolFull) := by
      rw [ShardedPool.allocate, Op.ends_bind, Mounted.ends_observe, Op.then_ok]
      exact (ShardedPool.allocateIn_of_full fun i _ => hfull i).mono fun _ _ hr => hr.1
    exact hends

-- A store with all pages but those with the last two numbers that there are.
def almostFull : MemoryStore := (MemoryStore.write ⟨4294967292⟩ Page.zero .empty).state

end Pool

end PagedIndex
