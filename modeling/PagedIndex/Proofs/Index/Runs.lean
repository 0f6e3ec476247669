import PagedIndex.Proofs.Index.Insertion
import PagedIndex.Proofs.Index.Opening
import PagedIndex.Proofs.Index.Removal
import PagedIndex.Proofs.Pool.Transparency
import PagedIndex.Proofs.Pool.Unreliable

namespace PagedIndex

-- What is done with an index.
inductive IndexCall (K V : Type)
  | get (key : K)
  | insert (key : K) (value : V)
  -- a pair that is there already is an error
  | tryInsert (key : K) (value : V)
  | remove (key : K) (value : V)
  | verify
  -- one more handle
  | reopen (capacity? : Option Nat)

inductive IndexAnswer (V : Type)
  | values (values : List V)
  | flag (flag : Bool)
  | done

namespace IndexCall

open HashIndex

variable {K V : Type} [DecidableEq V]

-- The list after a call that answered so.
def pairsAfter (order : K → K → Ordering) (pairs : List (K × V)) :
    IndexCall K V → Checked (IndexAnswer V) → List (K × V)
  | insert key value, .ok (.flag true) => pairs ++ [(key, value)]
  | tryInsert key value, .ok _ => pairs ++ [(key, value)]
  | remove key value, .ok (.flag true) => pairs.eraseP (matchesPair order key value)
  | _, _ => pairs

-- What a call answers on a list.
def answer (order : K → K → Ordering) (pairs : List (K × V)) :
    IndexCall K V → Except StoreError (IndexAnswer V)
  | get key => .ok (.values ((pairs.filter fun pair => (order pair.1 key).isEq).map Prod.snd))
  | insert key value => .ok (.flag !pairs.any (matchesPair order key value))
  | tryInsert key value =>
    if pairs.any (matchesPair order key value) then .error .duplicateEntry else .ok .done
  | remove key value => .ok (.flag (pairs.any (matchesPair order key value)))
  | verify | reopen _ => .ok .done

-- The calls that change no page.
def Reads : IndexCall K V → Prop
  | get _ | verify | reopen _ => True
  | insert _ _ | tryInsert _ _ | remove _ _ => False

section Outline

variable (policy : KeyPolicy K) (capacity : Nat)

-- What a call does to an outline if no page is refused.
def apply : IndexCall K V → Outline K V → Except StoreError (IndexAnswer V) × Outline K V
  | get key, o => (.ok (.values (o.get policy key)), o)
  | insert key value, o => (Outline.insert policy capacity key value o).map (Except.map .flag) id
  | tryInsert key value, o =>
    (Outline.insertWithin policy capacity key value 33 o).map (Except.map fun _ => .done) id
  | remove key value, o =>
    (.ok (.flag (o.pairs.any (o.finds policy key value))), o.remove policy key value)
  | verify, o | reopen _, o => (.ok .done, o)

-- What it may have done if a page was refused.
def Interrupted (o o' : Outline K V) : IndexCall K V → Except StoreError (IndexAnswer V) → Prop
  | insert key value, .error e | tryInsert key value, .error e =>
    ¬ e.OfIndex ∧ o.Splits policy capacity key value o'
  | remove key value, .ok (.flag found) =>
    found = o.pairs.any (o.finds policy key value) ∧ o'.pairs = (o.erase policy key value).pairs
  | get _, .error e | remove _ _, .error e | verify, .error e | reopen _, .error e =>
    ¬ e.OfIndex ∧ o' = o
  | _, _ => False

end Outline

-- How a call ended, by whether a page was refused.
def Ended (t : HashIndex K V) (o : Outline K V) (w : Ledger) (call : IndexCall K V)
    (r : Except StoreError (IndexAnswer V)) (o' : Outline K V) (w' : Ledger) : Prop :=
  w'.refusals = w.refusals ∧ call.apply t.policy t.capacity o = (r, o') ∨
    w.refusals < w'.refusals ∧ call.Interrupted t.policy t.capacity o o' r

variable {t : HashIndex K V} {o o' : Outline K V} {w w' : Ledger} {call : IndexCall K V}

theorem pairs_erase (hcoherent : t.policy.Coherent) (o : Outline K V) (key : K) (value : V) :
    (o.erase t.policy key value).pairs = (remove key value).pairsAfter t.policy.order o.pairs
      (.ok (.flag (o.pairs.any (o.finds t.policy key value)))) := by
  rw [Outline.erase, o.finds_eq hcoherent]
  cases hfound : o.pairs.any (matchesPair t.policy.order key value) with
  | true => rfl
  | false => exact List.eraseP_of_forall_not (List.any_eq_false.mp hfound)

-- The list changes as the call says that it did.
theorem pairs_apply (hcoherent : t.policy.Coherent) (call : IndexCall K V) (o : Outline K V) :
    (call.apply t.policy t.capacity o).2.pairs = call.pairsAfter t.policy.order o.pairs
      (Except.mapError .error (call.apply t.policy t.capacity o).1) := by
  cases call with
  | insert key value =>
    rw [apply]
    cases hinsert : Outline.insert t.policy t.capacity key value o with
    | mk r after =>
      cases r with
      | error e => exact (Outline.insert_error hinsert).1
      | ok new =>
        have hspec := Outline.insert_ok hinsert
        cases new with
        | true => exact hspec.2
        | false => exact hspec.2
  | tryInsert key value =>
    rw [apply]
    cases hinsert : Outline.insertWithin t.policy t.capacity key value 33 o with
    | mk r after =>
      cases r with
      | error e => exact (Outline.insertWithin_error hinsert).1
      | ok _ => exact (Outline.insertWithin_ok hinsert).2
  | remove key value =>
    rw [apply, Outline.pairs_remove]
    exact pairs_erase hcoherent o key value
  | get _ | verify | reopen _ => rfl

theorem Ended.pairs_eq (hcoherent : t.policy.Coherent) {r : Except StoreError (IndexAnswer V)}
    (h : call.Ended t o w r o' w') :
    o'.pairs = call.pairsAfter t.policy.order o.pairs (Except.mapError .error r) := by
  rcases h with ⟨_, happly⟩ | ⟨_, hinterrupted⟩
  · have hpairs := pairs_apply hcoherent call o
    rwa [happly] at hpairs
  · cases r with
    | error e =>
      cases call with
      | insert key value | tryInsert key value => exact hinterrupted.2.pairs_eq
      | get _ | remove _ _ | verify | reopen _ => rw [hinterrupted.2]; rfl
    | ok a =>
      cases call with
      | remove key value =>
        cases a with
        | flag found =>
          obtain ⟨rfl, hpairs⟩ := hinterrupted
          exact hpairs.trans (pairs_erase hcoherent o key value)
        | _ => exact hinterrupted.elim
      | _ => exact hinterrupted.elim

section Run

variable [FixedWidth K] [FixedWidth V] {σ γ : Type} [PagePool σ γ]

def run (t : HashIndex K V) : IndexCall K V → Op σ (IndexAnswer V)
  | get key => .values <$> t.get key
  | insert key value => .flag <$> t.insert key value
  | tryInsert key value => (fun _ => .done) <$> t.tryInsert key value
  | remove key value => .flag <$> t.remove key value
  | verify => (fun _ => .done) <$> t.verify
  | reopen capacity? =>
    (fun _ => .done) <$> (openAt t.name t.policy t.directory capacity? : Op σ (HashIndex K V))

-- All handles have one capacity.
def Legal (t : HashIndex K V) : IndexCall K V → Prop
  | reopen capacity? => chooseCapacity K V capacity? = .ok t.capacity
  | _ => True

variable {pairs : List (K × V)} {guards : List γ}

-- A call that reads answers, unless a page is refused.
theorem run_reads [ReadablePool σ γ] (h : t.Depicts σ guards o w) (hreads : call.Reads)
    (hlegal : call.Legal t) :
    PagePool.Does guards w (call.run t : Op σ (IndexAnswer V))
      (fun a w' => call.apply t.policy t.capacity o = (.ok a, o) ∧ w' = w)
      (PagePool.Refused (σ := σ) guards w) := by
  cases call with
  | get key =>
    refine PagePool.Does.map ((get_does h key).mono (fun values w' hvalues => ?_) fun _ _ he => he)
    obtain ⟨rfl, rfl⟩ := hvalues
    exact ⟨rfl, rfl⟩
  | verify =>
    exact PagePool.Does.map ((verify_does h.holds).mono (fun _ _ hw' => ⟨rfl, hw'⟩)
      fun _ _ he => he)
  | reopen capacity? =>
    exact PagePool.Does.map ((openAt_does h.holds t.name hlegal).mono (fun _ _ ht => ⟨rfl, ht.2⟩)
      fun _ _ he => he)
  | insert key value | tryInsert key value | remove key value => exact hreads.elim

variable [RoundTrip K] [RoundTrip V] [LawfulPool σ γ]

theorem run_ends (h : t.Depicts σ guards o w) (call : IndexCall K V) (hlegal : call.Legal t) :
    PagePool.Does guards w (call.run t : Op σ (IndexAnswer V))
      (fun a w' => ∃ o', t.Depicts σ guards o' w' ∧ call.Ended t o w (.ok a) o' w')
      (fun e w' => ∃ o', t.Depicts σ guards o' w' ∧ call.Ended t o w (.error e) o' w') := by
  have hreading (hreads : call.Reads)
      (hinterrupted : ∀ e : StoreError, ¬ e.OfIndex →
        call.Interrupted t.policy t.capacity o o (.error e)) :
      PagePool.Does guards w (call.run t : Op σ (IndexAnswer V))
        (fun a w' => ∃ o', t.Depicts σ guards o' w' ∧ call.Ended t o w (.ok a) o' w')
        (fun e w' => ∃ o', t.Depicts σ guards o' w' ∧ call.Ended t o w (.error e) o' w') := by
    refine (run_reads h hreads hlegal).mono (fun a w' ha => ?_) fun e w' he => ?_
    · obtain ⟨happly, rfl⟩ := ha
      exact ⟨o, h, Or.inl ⟨rfl, happly⟩⟩
    · obtain ⟨herror, rfl, _⟩ := he
      exact ⟨o, h.refuse, Or.inr ⟨Nat.lt_succ_self _, hinterrupted e herror⟩⟩
  cases call with
  | get key => exact hreading trivial fun _ he => ⟨he, rfl⟩
  | verify => exact hreading trivial fun _ he => ⟨he, rfl⟩
  | reopen capacity? => exact hreading trivial fun _ he => ⟨he, rfl⟩
  | insert key value =>
    refine PagePool.Does.map ((insert_does h key value).mono (fun new w' hnew => ?_) fun e w' he => ?_)
    · obtain ⟨o', hinserted, hdepicts, hrefusals⟩ := hnew
      exact ⟨o', hdepicts, Or.inl ⟨hrefusals, by rw [apply, hinserted]; rfl⟩⟩
    · rcases he with ⟨o', hfails, hdepicts, hrefusals⟩ | ⟨herror, hless, o', hsplits, hdepicts⟩
      · exact ⟨o', hdepicts, Or.inl ⟨hrefusals, by rw [apply, hfails]; rfl⟩⟩
      · exact ⟨o', hdepicts, Or.inr ⟨hless, herror, hsplits⟩⟩
  | tryInsert key value =>
    refine PagePool.Does.map ((tryInsert_does h key value).mono (fun _ w' hnew => ?_)
      fun e w' he => ?_)
    · obtain ⟨o', hinserted, hdepicts, hrefusals⟩ := hnew
      exact ⟨o', hdepicts, Or.inl ⟨hrefusals, by rw [apply, hinserted]; rfl⟩⟩
    · rcases he with ⟨o', hfails, hdepicts, hrefusals⟩ | ⟨herror, hless, o', hsplits, hdepicts⟩
      · exact ⟨o', hdepicts, Or.inl ⟨hrefusals, by rw [apply, hfails]; rfl⟩⟩
      · exact ⟨o', hdepicts, Or.inr ⟨hless, herror, hsplits⟩⟩
  | remove key value =>
    refine PagePool.Does.map ((remove_does h key value).mono (fun found w' hfound => ?_)
      fun e w' he => ?_)
    · obtain ⟨rfl, o', hdepicts, ⟨hrefusals, rfl⟩ | ⟨hless, hpairs⟩⟩ := hfound
      · exact ⟨_, hdepicts, Or.inl ⟨hrefusals, rfl⟩⟩
      · exact ⟨o', hdepicts, Or.inr ⟨hless, rfl, hpairs⟩⟩
    · obtain ⟨herror, rfl⟩ := he
      exact ⟨o, h.refuse, Or.inr ⟨Nat.lt_succ_self _, herror, rfl⟩⟩

-- A call that returns leaves the index with the outline that it had or gets by the call.
theorem run_returns (h : t.Depicts σ guards o w) {s : σ} (hs : ReadablePool.Kept s guards w)
    (name : String) (call : IndexCall K V) (hlegal : call.Legal t)
    (hreturns : (call.run { t with name } s).result.Returns) :
    ∃ w' o' r, (call.run { t with name } s).result = Except.mapError .error r ∧
      ReadablePool.Kept (call.run { t with name } s).state guards w' ∧
      t.Depicts σ guards o' w' ∧ call.Ended t o w r o' w' := by
  obtain ⟨w', r, hr, hw', hended⟩ :=
    (call.run_ends (h.rename name) (by cases call <;> exact hlegal)).returns hs hreturns
  cases r with
  | ok a =>
    obtain ⟨o', hdepicts, hended⟩ := hended
    exact ⟨w', o', .ok a, hr, hw', hdepicts.rename t.name, hended⟩
  | error e =>
    obtain ⟨o', hdepicts, hended⟩ := hended
    exact ⟨w', o', .error e, hr, hw', hdepicts.rename t.name, hended⟩

end Run

end IndexCall

namespace HashIndex

section Runs

variable {K V : Type} [FixedWidth K] [FixedWidth V] [DecidableEq V] {n : Nat} {D : Type}
  [PageStore D] [LawfulStore D]

-- Runs of an index after its creation on a pool, with the list that goes beside it. Other pages of
-- the pool may be under guards. A call is made through a handle of any name.
inductive Reached (guards : List (Guard n)) (t : HashIndex K V) :
    UnreliablePool n D → List (K × V) → Prop
  | created {u : UnreliablePool n D} {M : Memory} (capacity? : Option Nat) :
      Pool.Reached n u.pool guards M →
      ((create t.name t.policy capacity? : Op _ (HashIndex K V)) u).result = .ok t →
      Reached guards t ((create t.name t.policy capacity? : Op _ (HashIndex K V)) u).state []
  | called {u : UnreliablePool n D} {pairs : List (K × V)} (name : String) (call : IndexCall K V) :
      Reached guards t u pairs → call.Legal t → (call.run { t with name } u).result.Returns →
      Reached guards t (call.run { t with name } u).state
        (call.pairsAfter t.policy.order pairs (call.run { t with name } u).result)

variable {guards : List (Guard n)} {t : HashIndex K V} {u : UnreliablePool n D}
  {pairs : List (K × V)}

theorem Reached.created_holds {w : Ledger} {capacity? : Option Nat}
    (hkept : ReadablePool.Kept u guards w)
    (ht : ((create t.name t.policy capacity? : Op _ (HashIndex K V)) u).result = .ok t) :
    ∃ w', t.Holds (UnreliablePool n D) guards [] w' ∧ ReadablePool.Kept
      ((create t.name t.policy capacity? : Op _ (HashIndex K V)) u).state guards w' := by
  have hends := create_ends (V := V) t.name t.policy capacity? hkept
  rw [Op.Ends, ht] at hends
  obtain ⟨w', hw', hcreated, _⟩ := hends
  exact ⟨w', hcreated.depicts.holds, hw'⟩

variable [RoundTrip K] [RoundTrip V]

-- The index stands for some list: for the one beside the run, if equal keys have one bucket.
theorem Reached.holds (h : Reached guards t u pairs) :
    ∃ w pairs', ReadablePool.Kept u guards w ∧ t.Holds (UnreliablePool n D) guards pairs' w ∧
      (t.policy.Coherent → pairs' = pairs) := by
  induction h with
  | @created u M capacity? hpool ht =>
    have hkept : ReadablePool.Kept u guards (Ledger.ofMemory M 0) := hpool.kept.ofMemory 0
    obtain ⟨w', hholds, hw'⟩ := Reached.created_holds hkept ht
    exact ⟨w', [], hw', hholds, fun _ => rfl⟩
  | @called u pairs name call _ hlegal hreturns ih =>
    obtain ⟨w, pairs', hkept, hholds, hpairs⟩ := ih
    obtain ⟨o, rfl, hdepicts⟩ := hholds.depicts
    obtain ⟨w', o', r, hr, hw', hdepicts', hended⟩ :=
      call.run_returns hdepicts hkept name hlegal hreturns
    refine ⟨w', o'.pairs, hw', hdepicts'.holds, fun hcoherent => ?_⟩
    rw [hr, ← hpairs hcoherent]
    exact hended.pairs_eq hcoherent

end Runs

end HashIndex

end PagedIndex
