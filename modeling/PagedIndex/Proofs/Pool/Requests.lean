import PagedIndex.Proofs.Pool.Runs
import PagedIndex.Proofs.Pool.Steady
import PagedIndex.Proofs.Pool.Transparency

namespace PagedIndex

namespace PoolCall

variable {n : Nat}

-- The calls that use no guard. They may be made on a single shard of a sharded pool too.
def Unguarded : PoolCall n → Prop
  | write _ _ | release _ => False
  | _ => True

-- What a call does to the counters of a pool. A shard among these that gives a page out moves on to
-- the next number of its part.
def Advances (among : List Nat) (parts : Nat) (next next' : Nat → Nat) :
    PoolCall n → Checked (Option (Guard n)) → Prop
  | allocate, .ok (some g) => ∃ i ∈ among,
      (next i + parts < Shard.pageIdLimit ∧ g.page = ⟨UInt32.ofNat (next i)⟩) ∧
        next' = Function.update next i (next i + parts)
  | _, _ => next' = next

theorem Advances.mono {among others : List Nat} {parts : Nat} {next next' : Nat → Nat}
    {call : PoolCall n} {r : Checked (Option (Guard n))}
    (h : call.Advances among parts next next' r) (hamong : ∀ i ∈ among, i ∈ others) :
    call.Advances others parts next next' r := by
  unfold Advances at *
  split at h
  · exact h.imp fun i hi => ⟨hamong i hi.1, hi.2⟩
  · exact h

end PoolCall

-- A call on a whole pool or on one of its shards.
inductive Request (n : Nat)
  | whole (call : PoolCall n)
  -- without a shard of this number there is no answer
  | direct (i : Nat) (call : PoolCall n)

namespace Request

variable {n : Nat} {D : Type}

def call : Request n → PoolCall n
  | whole call | direct _ call => call

def Legal (guards : List (Guard n)) : Request n → Prop
  | whole call => call.Legal guards
  | direct _ call => call.Unguarded

-- The shards that the request may be answered by.
def among (shape : PoolShape) : Request n → List Nat
  | whole _ => shape.indices
  | direct i _ => shape.indices.filter fun j => j = i

theorem mem_indices {shape : PoolShape} {req : Request n} {i : Nat} (hi : i ∈ req.among shape) :
    i ∈ shape.indices := by
  cases req with
  | whole call => exact hi
  | direct j call => exact List.mem_of_mem_filter hi

variable [PageStore D]

def run : Request n → Op (Mounted (Pool n) D) (Option (Guard n))
  | whole call => call.run
  | direct i call => Option.join <$> Pool.onShard? i call.run

-- The shard over its store to which a request to allocate comes.
inductive Reaches : Request n → Mounted (Pool n) D → Mounted (Shard n) D → Prop
  | whole {call : PoolCall n} {m : Mounted (Pool n) D} {t : Mounted (Shard n) D} :
      Pool.Reaches m t → Reaches (.whole call) m t
  | direct {call : PoolCall n} {k : Nat} (i : Fin k) (p : ShardedPool n k) (d : D) :
      Reaches (.direct i call) ⟨.sharded k p, d⟩ ⟨p.shards.get i, d⟩

theorem ends_direct (i : Nat) (call : PoolCall n) (m : Mounted (Pool n) D)
    (Q : Checked (Option (Guard n)) → Mounted (Pool n) D → Prop) :
    (direct i call).run.Ends m Q ↔
      match m with
      | ⟨.single s, d⟩ => Q (.ok none) ⟨.single s, d⟩
      | ⟨.sharded k p, d⟩ =>
        if h : i < k then (ShardedPool.onShard ⟨i, h⟩ call.run).Ends ⟨p, d⟩ fun r t =>
          Q r ⟨.sharded k t.pool, t.store⟩
        else Q (.ok none) ⟨.sharded k p, d⟩ := by
  rw [run, Op.ends_map, Pool.onShard?, Pool.ends_byShape]
  obtain ⟨pool, d⟩ := m
  cases pool with
  | single s => rfl
  | sharded k p =>
    by_cases h : i < k
    · simp only [h, dif_pos, Op.ends_map]
      refine Op.ends_congr fun r t => ?_
      cases r <;> rfl
    · simp only [h, dif_neg, not_false_eq_true]
      rfl

end Request

namespace ShardedPool

variable {n k : Nat} {D : Type}

theorem ends_onShard_map {α β : Type} (i : Fin k) (f : α → β) (x : Op (Mounted (Shard n) D) α)
    (m : Mounted (ShardedPool n k) D) (Q : Checked β → Mounted (ShardedPool n k) D → Prop) :
    (onShard i (f <$> x)).Ends m Q ↔
      (onShard i x).Ends m (Op.Then (fun a => Pure.pure (f a)) Q) := by
  rw [ends_onShard, Op.ends_map, ends_onShard]
  refine Op.ends_congr fun r t => ?_
  cases r <;> rfl

variable [PageStore D] [LawfulStore D] {m : Mounted (ShardedPool n k) D} {guards : List (Guard n)}
  {next : Nat → Nat}

theorem Steady.direct (h : Steady guards next m) (i : Fin k) {call : PoolCall n}
    (hcall : call.Unguarded) :
    (ShardedPool.onShard i (call.run (σ := Mounted (Shard n) D))).Ends m fun r m' => r.Returns →
      ∃ next', call.Advances [i.val] k next next' r ∧
        Steady (call.guardsAfter guards r) next' m' := by
  have hkeeps {A : Prop} {x : Op (Mounted (Shard n) D) Bool} (hx : x.Ends ⟨m.pool.shards.get i, m.store⟩ <|
      Op.AnswersUnless A (fun _ t => Shard.Steady (config n k i) (guardsOf k i guards) (next i) t)
        fun e t => LawfulStore.Gives D e ∧
          Shard.Steady (config n k i) (guardsOf k i guards) (next i) t) :
      (ShardedPool.onShard i (do discard x; return (none : Option (Guard n)))).Ends m
        fun r m' => r.Returns → (r = .ok none ∨ ∃ e, r = .error e) ∧ Steady guards next m' := by
    rw [ends_onShard, Op.ends_bind, Op.ends_discard]
    refine hx.mono fun r t ht => ?_
    cases r using Checked.outcomes with
    | ok b => exact fun _ => ⟨Or.inl rfl, h.same ht⟩
    | error e => exact fun _ => ⟨Or.inr ⟨_, rfl⟩, h.same ht.2⟩
    | abort a => exact fun hreturns => absurd rfl (hreturns a)
  cases call with
  | fetch id access =>
    rw [PoolCall.run, ends_onShard_map]
    refine (h.fetchIn i id access).mono fun r m' hm => ?_
    cases r using Checked.outcomes with
    | ok g => exact fun _ => ⟨next, rfl, hm⟩
    | error e => exact fun _ => ⟨next, rfl, hm.2⟩
    | abort a => exact fun hreturns => absurd rfl (hreturns a)
  | allocate =>
    rw [PoolCall.run, ends_onShard_map]
    refine (h.allocateOn i).mono fun r m' hm => ?_
    cases r using Checked.outcomes with
    | ok g => exact fun _ => ⟨_, ⟨i, List.mem_singleton_self _, hm.1, rfl⟩, hm.2⟩
    | error e => exact fun _ => ⟨next, rfl, hm.2.2⟩
    | abort a => exact fun hreturns => absurd rfl (hreturns a)
  | write g page => exact hcall.elim
  | release g => exact hcall.elim
  | flush id =>
    refine (hkeeps ((h.shard i).flush id)).mono fun r m' hm hreturns => ?_
    obtain ⟨rfl | ⟨e, rfl⟩, hsteady⟩ := hm hreturns
    · exact ⟨next, rfl, hsteady⟩
    · exact ⟨next, rfl, hsteady⟩
  | flushAll walk =>
    rw [PoolCall.run, ends_onShard, Op.ends_bind]
    refine ((h.shard i).flushAll walk).mono fun r t ht => ?_
    cases r using Checked.outcomes with
    | ok b => exact fun _ => ⟨next, rfl, h.same ht⟩
    | error e => exact fun _ => ⟨next, rfl, h.same ht.2⟩
    | abort a => exact fun hreturns => absurd rfl (hreturns a)
  | delete id =>
    refine (hkeeps ((h.shard i).delete id)).mono fun r m' hm hreturns => ?_
    obtain ⟨rfl | ⟨e, rfl⟩, hsteady⟩ := hm hreturns
    · exact ⟨next, rfl, hsteady⟩
    · exact ⟨next, rfl, hsteady⟩

end ShardedPool

namespace Pool.Steady

variable {n : Nat} {D : Type} [PageStore D] [LawfulStore D] {m : Mounted (Pool n) D}
  {shape : PoolShape} {guards : List (Guard n)} {next : Nat → Nat}

theorem call (h : Steady shape guards next m) (call : PoolCall n) (hlegal : call.Legal guards) :
    (call.run : Op (Mounted (Pool n) D) _).Ends m fun r m' => r.Returns →
      ∃ next', call.Advances shape.indices shape.parts next next' r ∧
        Steady shape (call.guardsAfter guards r) next' m' := by
  cases call with
  | fetch id access =>
    rw [PoolCall.run, Op.ends_map]
    refine (h.fetch id access).mono fun r m' hm => ?_
    cases r using Checked.outcomes with
    | ok g => exact fun _ => ⟨next, rfl, hm⟩
    | error e => exact fun _ => ⟨next, rfl, hm.2⟩
    | abort a => exact fun hreturns => absurd rfl (hreturns a)
  | allocate =>
    rw [PoolCall.run, Op.ends_map]
    refine h.allocate.mono fun r m' hm => ?_
    cases r using Checked.outcomes with
    | ok g =>
      obtain ⟨i, hi, hnew, hsteady⟩ := hm
      exact fun _ => ⟨_, ⟨i, hi, hnew, rfl⟩, hsteady⟩
    | error e => exact fun _ => ⟨next, rfl, hm.2⟩
    | abort a => exact fun hreturns => absurd rfl (hreturns a)
  | write g page => exact fun _ => ⟨next, rfl, h.write g page⟩
  | release g =>
    rw [PoolCall.run, Op.ends_bind]
    refine (h.perm (List.perm_cons_erase hlegal)).release.mono fun r m' hm => ?_
    obtain ⟨rfl, hsteady⟩ := hm
    exact fun _ => ⟨next, rfl, hsteady⟩
  | flush id =>
    rw [PoolCall.run, Op.ends_bind, Op.ends_discard]
    refine (h.flush id).mono fun r m' hm => ?_
    cases r using Checked.outcomes with
    | ok b => exact fun _ => ⟨next, rfl, hm⟩
    | error e => exact fun _ => ⟨next, rfl, hm.2⟩
    | abort a => exact fun hreturns => absurd rfl (hreturns a)
  | flushAll walk =>
    rw [PoolCall.run, Op.ends_bind]
    refine (h.flushAll walk).mono fun r m' hm => ?_
    cases r using Checked.outcomes with
    | ok b => exact fun _ => ⟨next, rfl, hm⟩
    | error e => exact fun _ => ⟨next, rfl, hm.2⟩
    | abort a => exact fun hreturns => absurd rfl (hreturns a)
  | delete id =>
    rw [PoolCall.run, Op.ends_bind, Op.ends_discard]
    refine (h.delete id).mono fun r m' hm => ?_
    cases r using Checked.outcomes with
    | ok b => exact fun _ => ⟨next, rfl, hm⟩
    | error e => exact fun _ => ⟨next, rfl, hm.2⟩
    | abort a => exact fun hreturns => absurd rfl (hreturns a)

theorem request (h : Steady shape guards next m) (req : Request n) (hlegal : req.Legal guards) :
    (req.run (D := D)).Ends m fun r m' => r.Returns →
      ∃ next', req.call.Advances (req.among shape) shape.parts next next' r ∧
        Steady shape (req.call.guardsAfter guards r) next' m' := by
  cases req with
  | whole call => exact h.call call hlegal
  | direct i call =>
    -- without an answer nothing has changed
    have hnone : ∃ next', call.Advances ((Request.direct i call).among shape) shape.parts next next'
        (.ok none) ∧ Steady shape (call.guardsAfter guards (.ok none)) next' m := by
      refine ⟨next, by cases call <;> rfl, ?_⟩
      cases call with
      | release g => exact hlegal.elim
      | _ => exact h
    rw [Request.ends_direct]
    cases h with
    | single h => exact fun _ => hnone
    | @sharded k _ _ p d h =>
      dsimp only
      split
      · rename_i hi
        have hamong : ∀ j ∈ [i], j ∈ (Request.direct i call).among (.sharded k) := by
          simp [Request.among, PoolShape.indices, hi]
        refine (h.direct _ hlegal).mono fun r m' hm hreturns => ?_
        obtain ⟨next', hadvances, hsteady⟩ := hm hreturns
        exact ⟨next', hadvances.mono hamong, .sharded hsteady⟩
      · exact fun _ => hnone

end Pool.Steady

end PagedIndex
