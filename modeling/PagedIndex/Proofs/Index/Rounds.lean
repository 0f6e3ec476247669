import PagedIndex.Proofs.Index.Insertion

namespace PagedIndex

open Directory

namespace Outline

variable {K V : Type} {policy : KeyPolicy K} {o : Outline K V} {key : K} {a : Nat}

-- The pairs that no split tells from the key.
def colliding (policy : KeyPolicy K) (o : Outline K V) (key : K) : Nat :=
  o.pairs.countP fun pair =>
    lowBits maxDepth (policy.address pair.1) = lowBits maxDepth (policy.address key)

theorem length_bucket (a : Nat) : (o.bucket policy a).length =
    o.pairs.countP fun pair => o.together a (policy.address pair.1) :=
  List.countP_eq_length_filter.symm

theorem colliding_le (hdepth : o.depth (policy.address key) ≤ maxDepth) :
    o.colliding policy key ≤ (o.bucket policy (policy.address key)).length := by
  rw [length_bucket]
  refine List.countP_mono_left fun pair _ hsame => ?_
  rw [decide_eq_true_iff] at *
  exact lowBits_eq_of_le hdepth hsame

-- The deepest buckets have no others.
theorem colliding_eq (hdepth : o.depth (policy.address key) = maxDepth) :
    o.colliding policy key = (o.bucket policy (policy.address key)).length := by
  simp only [length_bucket, together, hdepth, colliding]

theorem depth_split (o : Outline K V) (a : Nat) : (o.split a).depth a = o.depth a + 1 := if_pos rfl

variable [DecidableEq V] {capacity : Nat} {value : V}

theorem any_finds_of_new (hnew : o.pairs.any (matchesPair policy.order key value) = false) :
    o.pairs.any (o.finds policy key value) = false := by
  rw [List.any_eq_false] at *
  exact fun pair hpair hfinds => hnew pair hpair (Bool.and_eq_true_iff.mp hfinds).1

-- There is room for a new pair if and only if less than a bucketful collides with it.
theorem insertWithin_new (hnew : o.pairs.any (matchesPair policy.order key value) = false) {n : Nat}
    (hdepth : o.depth (policy.address key) ≤ maxDepth)
    (hn : maxDepth < n + o.depth (policy.address key)) :
    (insertWithin policy capacity key value n o).1 =
      if capacity ≤ o.colliding policy key then .error (.indexFull maxDepth) else .ok () := by
  induction n generalizing o with
  | zero => omega
  | succ n ih =>
    have hfresh := any_finds_of_new hnew
    have hle : o.colliding policy key ≤ (o.bucket policy (policy.address key)).length :=
      colliding_le hdepth
    rw [insertWithin]
    by_cases hroom : (o.bucket policy (policy.address key)).length < capacity
    · rw [insertOrSplit_of_lt hfresh hroom, if_neg (by omega)]
    · have hfull := Nat.le_of_not_lt hroom
      rw [insertOrSplit_of_le hfresh hfull]
      by_cases hmax : o.depth (policy.address key) = maxDepth
      · rw [if_pos hmax, colliding_eq hmax, if_pos hfull]
      · rw [if_neg hmax]
        have hsplit := depth_split o (policy.address key)
        -- a split keeps the pairs, so the same ones collide
        exact ih (o := o.split (policy.address key)) hnew (by omega) (by omega)

end Outline

namespace HashIndex

open PagePool

variable {K V : Type} [FixedWidth K] [FixedWidth V] [DecidableEq V] {σ γ : Type} [PagePool σ γ]
  {t : HashIndex K V} {key : K} {value : V} {s last : σ} {states : List σ}

-- The rounds of an insertion from a state: the states in which a round splits the bucket of the key,
-- and the state in which the last round starts, which does not.
inductive Rounds (t : HashIndex K V) (key : K) (value : V) : σ → List σ → σ → Prop
  | last {s : σ} : ((t.insertOrSplit key value : Op σ Bool) s).result ≠ .ok false →
      Rounds t key value s [] s
  | split {s last : σ} {states : List σ} :
      ((t.insertOrSplit key value : Op σ Bool) s).result = .ok false →
      Rounds t key value ((t.insertOrSplit key value : Op σ Bool) s).state states last →
      Rounds t key value s (s :: states) last

-- An insertion ends as its last round does. The limit that it was given is not met.
theorem Rounds.insertWithin_eq (h : t.Rounds key value s states last) {n : Nat}
    (hn : states.length < n) :
    ((t.insertWithin key value n : Op σ Unit) s).result =
        ((t.insertOrSplit key value : Op σ Bool) last).result.map (fun _ => ()) ∧
      ((t.insertWithin key value n : Op σ Unit) s).state =
        ((t.insertOrSplit key value : Op σ Bool) last).state := by
  induction h generalizing n with
  | @last s hlast =>
    obtain ⟨n, rfl⟩ := Nat.exists_eq_add_one_of_ne_zero (Nat.ne_of_gt hn)
    change (t.insertWithin key value (n + 1)).Ends s fun r u =>
      r = ((t.insertOrSplit key value : Op σ Bool) s).result.map (fun _ => ()) ∧
        u = ((t.insertOrSplit key value : Op σ Bool) s).state
    rw [insertWithin, Op.ends_bind, Op.Ends]
    cases hr : ((t.insertOrSplit key value : Op σ Bool) s).result with
    | error e => exact ⟨rfl, rfl⟩
    | ok stored =>
      cases stored with
      | true => exact ⟨rfl, rfl⟩
      | false => exact absurd hr hlast
  | @split s last states hsplit _ ih =>
    obtain ⟨n, rfl⟩ := Nat.exists_eq_add_one_of_ne_zero (Nat.ne_zero_of_lt hn)
    change (t.insertWithin key value (n + 1)).Ends s fun r u =>
      r = ((t.insertOrSplit key value : Op σ Bool) last).result.map (fun _ => ()) ∧
        u = ((t.insertOrSplit key value : Op σ Bool) last).state
    rw [insertWithin, Op.ends_bind, Op.Ends, hsplit]
    exact ih (Nat.lt_of_succ_lt_succ hn)

variable {guards : List γ} {w : Ledger} {o : Outline K V}

-- A bucket has not more pairs than its capacity.
theorem Depicts.length_bucket_le (h : t.Depicts σ guards o w) (key : K) :
    (o.bucket t.policy (t.policy.address key)).length ≤ t.capacity := by
  obtain ⟨d, pairs, rfl, hrepresents, _⟩ := h
  obtain ⟨b, m, hb⟩ := hrepresents.routes.stores (t.hash key)
  have hbucket : t.routed d (d.owner (t.hash key)) pairs = _ :=
    routed_owner hrepresents.routes.partitioned (t.hash key)
  change ((d.outline pairs).bucket t.policy (t.hash key).toNat).length ≤ _
  rw [← hbucket, ← hb.entries_eq, ← hb.capacity_eq]
  exact hb.packed.length_entries_le.trans hb.packed.le_capacity

variable [RoundTrip K] [RoundTrip V] [LawfulPool σ γ]

-- The pool keeps the index with the bucket of the key full of pairs.
def FullFor (t : HashIndex K V) (guards : List γ) (key : K) (s : σ) : Prop :=
  ∃ w o, ReadablePool.Kept s guards w ∧ t.Depicts σ guards o w ∧
    (o.bucket t.policy (t.policy.address key)).length = t.capacity

-- The rounds come to an end as the buckets may not get deeper. Only full buckets are split.
theorem exists_rounds (h : t.Depicts σ guards o w) (hs : ReadablePool.Kept s guards w) (key : K)
    (value : V) (left : Nat) (hleft : maxDepth ≤ left + o.depth (t.policy.address key)) :
    ∃ states last, t.Rounds key value s states last ∧ states.length ≤ left ∧
      ∀ u ∈ states, t.FullFor guards key u := by
  induction left generalizing s w o with
  | zero =>
    refine ⟨[], s, .last fun hsplit => ?_, le_refl 0, nofun⟩
    have hround := insertOrSplit_does h key value s hs
    rw [Op.Ends, hsplit] at hround
    obtain ⟨w', _, o', hround, _⟩ := hround
    have hdepth := h.sound.depth_le (t.policy.address key)
    have hne := (Outline.insertOrSplit_split hround).2.2.1
    omega
  | succ left ih =>
    by_cases hsplit : ((t.insertOrSplit key value : Op σ Bool) s).result = .ok false
    · have hround := insertOrSplit_does h key value s hs
      rw [Op.Ends, hsplit] at hround
      obtain ⟨w', hs', o', hround, hdepicts, _⟩ := hround
      obtain ⟨_, hfull, _, rfl⟩ := Outline.insertOrSplit_split hround
      have hdepth := o.depth_split (t.policy.address key)
      obtain ⟨states, last, hrounds, hlength, hstates⟩ := ih hdepicts hs' (by omega)
      refine ⟨s :: states, last, .split hsplit hrounds, Nat.succ_le_succ hlength, ?_⟩
      refine List.forall_mem_cons.mpr ⟨⟨w, o, hs, h, ?_⟩, hstates⟩
      exact Nat.le_antisymm (h.length_bucket_le key) hfull
    · exact ⟨[], s, .last hsplit, Nat.zero_le _, nofun⟩

-- A new pair is stored unless a bucketful collides with it, or a page is refused.
theorem tryInsert_new_does (h : t.Depicts σ guards o w)
    (hnew : o.pairs.any (matchesPair t.policy.order key value) = false) :
    Does guards w (t.tryInsert key value : Op σ Unit)
      (fun _ w' => o.colliding t.policy key < t.capacity ∧ w'.refusals = w.refusals)
      (fun e w' => e = .indexFull maxDepth ∧ t.capacity ≤ o.colliding t.policy key ∧
          w'.refusals = w.refusals ∨
        ¬ e.OfIndex ∧ w.refusals < w'.refusals) := by
  have hexact : (Outline.insertWithin t.policy t.capacity key value 33 o).1 = _ :=
    Outline.insertWithin_new hnew (h.sound.depth_le (t.policy.address key)) (by rw [maxDepth]; omega)
  refine (tryInsert_does h key value).mono (fun _ w' hstored => ?_) fun e w' he => ?_
  · obtain ⟨o', hstored, _, hrefusals⟩ := hstored
    rw [hstored] at hexact
    by_cases hfull : t.capacity ≤ o.colliding t.policy key
    · rw [if_pos hfull] at hexact
      cases hexact
    · exact ⟨Nat.lt_of_not_le hfull, hrefusals⟩
  · rcases he with ⟨o', hfails, _, hrefusals⟩ | ⟨herror, hless, _⟩
    · rw [hfails] at hexact
      by_cases hfull : t.capacity ≤ o.colliding t.policy key
      · rw [if_pos hfull] at hexact
        cases hexact
        exact Or.inl ⟨rfl, hfull, hrefusals⟩
      · rw [if_neg hfull] at hexact
        cases hexact
    · exact Or.inr ⟨herror, hless⟩

-- A pair that is there already is met in the first round.
theorem rounds_of_duplicate (h : t.Depicts σ guards o w) (hs : ReadablePool.Kept s guards w)
    (hduplicate : ((t.tryInsert key value : Op σ Unit) s).result = .error (.error .duplicateEntry)) :
    t.Rounds key value s [] s := by
  have hinserted := tryInsert_does h key value s hs
  rw [Op.Ends, hduplicate] at hinserted
  obtain ⟨_, _, ⟨o', hfails, _⟩ | hrefused⟩ := hinserted
  · refine .last fun hsplit => ?_
    have hround := insertOrSplit_does h key value s hs
    rw [Op.Ends, hsplit] at hround
    obtain ⟨_, _, _, hround, _⟩ := hround
    rw [Outline.insertOrSplit_of_any (Outline.insertWithin_duplicate hfails)] at hround
    cases hround
  · exact absurd trivial hrefused.1

-- On a pool that refuses nothing an insertion for which there is room stores the pair, or else does
-- not return.
theorem tryInsert_unrefused (hunrefused : ∀ {s : σ} {guards : List γ} {w : Ledger},
      ReadablePool.Kept s guards w → w.refusals = 0) (h : t.Depicts σ guards o w)
    (hs : ReadablePool.Kept s guards w)
    (hnew : o.pairs.any (matchesPair t.policy.order key value) = false)
    (hroom : o.colliding t.policy key < t.capacity)
    (hreturns : ∀ a, ((t.tryInsert key value : Op σ Unit) s).result ≠ .error (.abort a)) :
    ((t.tryInsert key value : Op σ Unit) s).result = .ok () ∧ ∃ w' o',
      ReadablePool.Kept ((t.tryInsert key value : Op σ Unit) s).state guards w' ∧
        t.Depicts σ guards o' w' ∧ o'.pairs = o.pairs ++ [(key, value)] := by
  have hstores := tryInsert_does h key value s hs
  have hfails := tryInsert_new_does h hnew s hs
  rw [Op.Ends] at hstores hfails
  cases hr : ((t.tryInsert key value : Op σ Unit) s).result using Checked.outcomes with
  | ok _ =>
    rw [hr] at hstores
    obtain ⟨w', hw', o', hstored, hdepicts, _⟩ := hstores
    exact ⟨rfl, w', o', hw', hdepicts, (Outline.insertWithin_ok hstored).2⟩
  | error e =>
    rw [hr] at hfails
    obtain ⟨w', hw', ⟨_, hfull, _⟩ | ⟨_, hless⟩⟩ := hfails
    · exact absurd hroom (Nat.not_lt_of_le hfull)
    · rw [hunrefused hw'] at hless
      exact absurd hless (Nat.not_lt_zero _)
  | abort a => exact absurd hr (hreturns a)

end HashIndex

end PagedIndex
