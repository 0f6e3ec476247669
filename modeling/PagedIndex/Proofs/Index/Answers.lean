import PagedIndex.Proofs.Index.Rounds
import PagedIndex.Proofs.Index.Supply
import PagedIndex.Proofs.Pool.Tallied

namespace PagedIndex

namespace IndexCall

open HashIndex Directory

variable {K V : Type} [DecidableEq V] (policy : KeyPolicy K) (capacity : Nat)

-- A new pair is one too many if a bucketful of the others agrees with it on all the bits that a
-- directory looks at.
def Overfills (pairs : List (K × V)) : IndexCall K V → Prop
  | insert key value | tryInsert key value =>
    pairs.any (matchesPair policy.order key value) = false ∧
      capacity ≤ pairs.countP fun pair =>
        lowBits maxDepth (policy.address pair.1) = lowBits maxDepth (policy.address key)
  | _ => False

instance (pairs : List (K × V)) :
    (call : IndexCall K V) → Decidable (call.Overfills policy capacity pairs)
  | insert _ _ | tryInsert _ _ => inferInstanceAs (Decidable (_ ∧ _))
  | get _ | remove _ _ | verify | reopen _ => inferInstanceAs (Decidable False)

-- What a call answers on a list that has the bounds of an index.
def listed (pairs : List (K × V)) (call : IndexCall K V) : Except StoreError (IndexAnswer V) :=
  if call.Overfills policy capacity pairs then .error (.indexFull maxDepth)
  else call.answer policy.order pairs

variable {policy capacity} {o : Outline K V}

-- How the insertion of any pair ends.
theorem insertWithin_eq (hcoherent : policy.Coherent) (hsound : o.Sound) (key : K) (value : V) :
    (Outline.insertWithin policy capacity key value 33 o).1 =
      if (tryInsert key value).Overfills policy capacity o.pairs then .error (.indexFull maxDepth)
      else if o.pairs.any (matchesPair policy.order key value) then .error .duplicateEntry
      else .ok () := by
  cases hnew : o.pairs.any (matchesPair policy.order key value) with
  | true =>
    have hroom : ¬ (tryInsert key value).Overfills policy capacity o.pairs := fun hover =>
      Bool.false_ne_true (hover.1.symm.trans hnew)
    rw [← o.finds_eq hcoherent] at hnew
    rw [if_neg hroom, if_pos rfl, Outline.insertWithin, Outline.insertOrSplit_of_any hnew]
  | false =>
    have hover : (tryInsert key value).Overfills policy capacity o.pairs ↔
        capacity ≤ o.colliding policy key := and_iff_right hnew
    rw [if_neg Bool.false_ne_true, Outline.insertWithin_new hnew (hsound.depth_le _)]
    · simp only [hover]
    · rw [maxDepth]
      omega

theorem insert_eq (hcoherent : policy.Coherent) (hsound : o.Sound) (key : K) (value : V) :
    (Outline.insert policy capacity key value o).1 =
      if (insert key value).Overfills policy capacity o.pairs then .error (.indexFull maxDepth)
      else .ok !o.pairs.any (matchesPair policy.order key value) := by
  have hended : (Outline.insertWithin policy capacity key value 33 o).1 = _ :=
    insertWithin_eq hcoherent hsound key value
  rw [Outline.insert]
  cases hr : Outline.insertWithin policy capacity key value 33 o with
  | mk r o' =>
    rw [hr] at hended
    change r = _ at hended
    rw [hended]
    change _ = if (tryInsert key value).Overfills policy capacity o.pairs then _ else _
    split_ifs with hover hmatch
    · rfl
    · rw [hmatch]
      rfl
    · rw [Bool.eq_false_iff.mpr hmatch]
      rfl

-- On pages that are all given out, a call answers as on the list of the outline.
theorem apply_eq_listed (hcoherent : policy.Coherent) (hsound : o.Sound) (call : IndexCall K V) :
    (call.apply policy capacity o).1 = call.listed policy capacity o.pairs := by
  cases call with
  | get key =>
    rw [apply, o.get_eq hcoherent]
    rfl
  | insert key value =>
    change Except.map IndexAnswer.flag (Outline.insert policy capacity key value o).1 = _
    rw [insert_eq hcoherent hsound, listed]
    split_ifs
    · rfl
    · rfl
  | tryInsert key value =>
    change Except.map (fun _ => IndexAnswer.done)
      (Outline.insertWithin policy capacity key value 33 o).1 = _
    rw [insertWithin_eq hcoherent hsound, listed, answer]
    split_ifs
    · rfl
    · rfl
    · rfl
  | remove key value =>
    rw [apply, o.finds_eq hcoherent]
    rfl
  | verify | reopen capacity? => rfl

-- A call that ended otherwise is one to which a page was refused.
theorem Ended.listed_or {t : HashIndex K V} (hcoherent : t.policy.Coherent) (hsound : o.Sound)
    {call : IndexCall K V} {o' : Outline K V} {w w' : Ledger} {r : Except StoreError (IndexAnswer V)}
    (h : call.Ended t o w r o' w') :
    (w.refusals < w'.refusals ∧ ∃ e, r = .error e ∧ ¬ e.OfIndex) ∨
      call.listed t.policy t.capacity o.pairs = r := by
  rcases h with ⟨_, happly⟩ | ⟨hless, hinterrupted⟩
  · right
    rw [← apply_eq_listed hcoherent hsound, happly]
  · cases r with
    | error e =>
      refine Or.inl ⟨hless, e, rfl, ?_⟩
      cases call <;> exact hinterrupted.1
    | ok a =>
      cases call with
      | remove key value =>
        cases a with
        | flag found =>
          obtain ⟨rfl, _⟩ := hinterrupted
          right
          rw [o.finds_eq hcoherent]
          rfl
        | _ => exact hinterrupted.elim
      | _ => exact hinterrupted.elim

end IndexCall

namespace HashIndex

variable {K V : Type} [FixedWidth K] [FixedWidth V] [RoundTrip K] [RoundTrip V] [DecidableEq V]
  {n : Nat} {D : Type} [PageStore D] [LawfulStore D] {guards : List (Guard n)} {t : HashIndex K V}
  {u : UnreliablePool n D} {pairs : List (K × V)}

-- Only a pool that refuses a page, or has no page id left, keeps a call from answering as on the
-- list.
theorem reached_answers_as_list (hcoherent : t.policy.Coherent) (h : Reached guards t u pairs)
    (name : String) (call : IndexCall K V) (hlegal : call.Legal t) :
    (call.run { t with name } : Op (Tallied (UnreliablePool n D)) (IndexAnswer V)).Ends ⟨u, 0⟩ <|
      Op.AnswersOr (fun v => v.pool.pool.pool.Spent ∧ 0 < v.refusals)
        (fun a _ => call.listed t.policy t.capacity pairs = .ok a)
        fun e v => ¬ e.OfIndex ∧ 0 < v.refusals ∨
          call.listed t.policy t.capacity pairs = .error e := by
  obtain ⟨w₀, pairs', hkept, hholds, hpairs⟩ := h.holds
  obtain rfl := hpairs hcoherent
  obtain ⟨d, hrepresents, hclear⟩ := hholds
  let w : Ledger := { w₀ with refusals := 0 }
  have hw : t.Represents w.sheets d pairs' := hrepresents
  have hdepicts : HashIndex.Depicts { t with name } (Tallied (UnreliablePool n D)) guards
      (d.outline pairs') w := Depicts.rename ⟨d, pairs', rfl, hw, hclear⟩ name
  have hstart : ReadablePool.Kept (⟨u, 0⟩ : Tallied (UnreliablePool n D)) guards w := ⟨hkept, rfl⟩
  refine (call.run_ends hdepicts (by cases call <;> exact hlegal) _ hstart).mono fun r v hr =>
    hr.imp (fun hspent => hspent) (fun a ha => ?_) fun e he => ?_
  · obtain ⟨_, _, _, _, hended⟩ := ha
    obtain ⟨_, _, hfails, _⟩ | hlisted := hended.listed_or hcoherent hdepicts.sound
    · cases hfails
    · exact hlisted
  · obtain ⟨w', hw', _, _, hended⟩ := he
    obtain ⟨hless, _, hfails, herror⟩ | hlisted := hended.listed_or hcoherent hdepicts.sound
    · cases hfails
      exact Or.inl ⟨herror, hw'.2 ▸ hless⟩
    · exact Or.inr hlisted

-- The bucket of the key is full, and no split makes room in it.
theorem reached_answers_as_list_full :
    let u := narrowIndex.after [.insert 0 7, .insert 1 8] (narrowStart 128)
    let handle : HashIndex UInt32 UInt32 := { narrowIndex with name := "handle" }
    let call : IndexCall UInt32 UInt32 := .insert 512 9
    (narrowIndex.policy.Coherent ∧ Reached [] narrowIndex u [(0, 7), (1, 8)] ∧
      call.Legal narrowIndex) ∧
    (call.run handle : Op (Tallied (UnreliablePool 128 MemoryStore)) (IndexAnswer UInt32)).Ends ⟨u, 0⟩
      (Op.AnswersOr (fun v => v.pool.pool.pool.Spent ∧ 0 < v.refusals)
        (fun a _ => call.listed narrowIndex.policy 1 [(0, 7), (1, 8)] = .ok a)
        fun e v => ¬ e.OfIndex ∧ 0 < v.refusals ∨
          call.listed narrowIndex.policy 1 [(0, 7), (1, 8)] = .error e) ∧
    call.listed narrowIndex.policy 1 [(0, 7), (1, 8)] = .error (.indexFull 9) := by
  intro u handle call
  have hreached : Reached [] narrowIndex u [(0, 7), (1, 8)] :=
    reached_narrowIndex [.insert 0 7, .insert 1 8] (by decide) (by simp [IndexCall.Legal])
  -- the calls are not to be computed
  clear_value u
  exact ⟨⟨narrowIndex_coherent, hreached, trivial⟩,
    reached_answers_as_list narrowIndex_coherent hreached "handle" call trivial, rfl⟩

end HashIndex

end PagedIndex
