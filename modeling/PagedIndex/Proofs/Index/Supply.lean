import PagedIndex.Proofs.Index.Runs
import PagedIndex.Proofs.Pool.Scarce
import PagedIndex.Proofs.Pool.Supply

namespace PagedIndex

namespace PagePool

open SuppliedPool

variable {σ γ α β : Type} [PagePool σ γ] [SuppliedPool σ γ] {j k : Nat}

-- However the operation ends, it takes at most `k` page ids.
def Draws (k : Nat) (x : Op σ α) : Prop :=
  ∀ left s, Supplies (left + k) s → x.Ends s fun _ t => Supplies left t

variable {x : Op σ α}

theorem Draws.mono (h : Draws j x) (hle : j ≤ k) : Draws k x :=
  fun left s hs => h left s (supplies_le hs (Nat.add_le_add_left hle left))

theorem draws_of_same (h : ∀ s, (x s).state = s) : Draws k x := by
  intro left s hs
  rw [Op.Ends, h]
  exact supplies_le hs (Nat.le_add_right left k)

theorem draws_pure (a : α) : Draws k (pure a : Op σ α) := draws_of_same fun _ => rfl

theorem draws_liftM (c : Checked α) : Draws k (liftM c : Op σ α) := draws_of_same fun _ => rfl

theorem draws_fail (e : StoreError) : Draws k (Op.fail e : Op σ α) := draws_of_same fun _ => rfl

theorem draws_report (e : Event) : Draws k (Op.report e : Op σ Unit) := draws_of_same fun _ => rfl

theorem draws_readPage (g : γ) : Draws k (readPage g : Op σ Page) := draws_of_same fun _ => rfl

theorem draws_writePage (g : γ) (page : Page) : Draws 0 (writePage g page : Op σ Unit) :=
  fun _ _ hs => write_supplies hs g page

theorem draws_delete (id : PageId) : Draws 0 (delete id : Op σ Bool) :=
  fun _ _ hs => delete_supplies hs id

theorem Draws.bind {f : α → Op σ β} (hx : Draws j x) (hf : ∀ a, Draws k (f a)) :
    Draws (j + k) (x >>= f) := by
  intro left s hs
  rw [Op.ends_bind]
  have hrest : Supplies (left + k + j) s := by rwa [Nat.add_assoc, Nat.add_comm k]
  refine (hx _ s hrest).mono fun r t ht => ?_
  cases r with
  | ok a => exact hf a left t ht
  | error e => exact supplies_le ht (Nat.le_add_right left k)

-- A step that takes no id.
theorem Draws.step {f : α → Op σ β} (hx : Draws 0 x) (hf : ∀ a, Draws k (f a)) :
    Draws k (x >>= f) := Nat.zero_add k ▸ hx.bind hf

-- The other way round.
theorem Draws.last {f : α → Op σ β} (hx : Draws k x) (hf : ∀ a, Draws 0 (f a)) :
    Draws k (x >>= f) := hx.bind hf

theorem Draws.map (f : α → β) (hx : Draws k x) : Draws k (f <$> x) := by
  rw [map_eq_pure_bind]
  exact hx.last fun a => draws_pure (f a)

theorem Draws.discard (hx : Draws k x) : Draws k (Functor.discard x) := hx.map _

theorem Draws.attempt (hx : Draws k x) : Draws k (Op.attempt x) := by
  intro left s hs
  rw [Op.ends_attempt]
  refine (hx left s hs).mono fun r t ht => ?_
  cases r using Checked.outcomes <;> exact ht

theorem Draws.under {body : γ → Op σ α} {call : Op σ γ} (hcall : Draws j call)
    (hbody : ∀ g, Draws k (body g)) :
    Draws (j + k) (do let g ← call; (body g).ensuring (release g)) :=
  hcall.bind fun g left s hs => (hbody g left s hs).mono fun _ _ ht => release_supplies ht g

theorem Draws.withPage {id : PageId} {access : Access} {body : γ → Op σ α}
    (hbody : ∀ g, Draws k (body g)) : Draws k (PagePool.withPage id access body) :=
  Nat.zero_add k ▸ Draws.under (fun _ _ hs => fetch_supplies hs id access) hbody

theorem Draws.withNewPage {body : γ → Op σ α} (hbody : ∀ g, Draws k (body g)) :
    Draws (k + 1) (PagePool.withNewPage body) :=
  Nat.add_comm 1 k ▸ Draws.under (fun _ _ hs => allocate_supplies hs) hbody

theorem draws_forM {f : β → Op σ Unit} (hf : ∀ b, Draws 0 (f b)) (xs : List β) :
    Draws 0 (xs.forM f) := by
  induction xs with
  | nil => exact draws_pure ()
  | cons b xs ih => exact (hf b).step fun _ => ih

end PagePool

namespace HashIndex

open PagePool

variable {K V σ γ : Type} [FixedWidth K] [FixedWidth V] [PagePool σ γ] [SuppliedPool σ γ]
  (t : HashIndex K V)

theorem readBucket_draws (guard : γ) : Draws 0 (t.readBucket guard : Op σ (Bucket K V)) :=
  (draws_readPage guard).step fun _ => draws_liftM _

theorem writeDirectory_draws (d : Directory) (guard : γ) :
    Draws 0 (writeDirectory d guard : Op σ Unit) :=
  (draws_readPage guard).step fun _ => draws_writePage guard _

section Directory

omit [FixedWidth K] [FixedWidth V]

theorem readDirectory_draws : Draws 0 (t.readDirectory : Op σ Directory) :=
  .withPage fun g => (draws_readPage g).step fun _ => draws_pure _

theorem globalDepth_draws : Draws 0 (t.globalDepth : Op σ Nat) := t.readDirectory_draws.map _

theorem bucketCount_draws : Draws 0 (t.bucketCount : Op σ Nat) :=
  t.readDirectory_draws.step fun _ => (draws_liftM _).step fun _ => draws_pure _

end Directory

-- The directory page and a bucket.
theorem create_draws (name : String) (policy : KeyPolicy K) (capacity? : Option Nat) :
    Draws 2 (create name policy capacity? : Op σ (HashIndex K V)) := by
  refine (draws_liftM _).step fun capacity => ?_
  refine Draws.last ?_ fun pages => ?_
  · refine Draws.withNewPage fun directory => ?_
    refine Draws.last (Draws.attempt ?_) fun created => draws_pure _
    refine Draws.withNewPage fun bucket => (readBucket_draws _ bucket).step fun b => ?_
    refine (draws_writePage bucket _).step fun _ => (writeDirectory_draws _ directory).step fun _ => ?_
    exact (draws_report _).step fun _ => draws_pure _
  · obtain ⟨directory, created⟩ := pages
    cases created with
    | ok t => exact draws_pure t
    | error e => exact (draws_delete directory).discard.step fun _ => draws_fail e

theorem get_draws (key : K) : Draws 0 (t.get key : Op σ (List V)) := by
  refine (Draws.withPage draws_readPage).step fun page => (draws_liftM _).step fun bucket => ?_
  exact Draws.withPage fun g => (t.readBucket_draws g).step fun b => draws_liftM _

theorem verify_draws : Draws 0 (t.verify : Op σ Unit) := by
  refine t.readDirectory_draws.step fun d => ?_
  have hbucket (id : PageId) : Draws 0 (t.verifyBucket d id : Op σ Unit) := by
    refine Draws.withPage fun g => (t.readBucket_draws g).step fun b => ?_
    have hentries : Draws 0 (do
        let entries ← b.checkedEntries
        entries.forM fun pair => Op.ofChecked (t.verifyKey d id pair.1) : Op σ Unit) :=
      (draws_liftM _).step fun entries => draws_forM (fun _ => draws_liftM _) entries
    refine (draws_liftM _).step fun overflow => ?_
    split
    · exact (draws_fail _).step fun _ => hentries
    · exact hentries
  have hpages : Draws 0 (t.verifyPages d : Op σ Unit) :=
    (draws_liftM _).step fun _ => (draws_liftM _).step fun ids => draws_forM hbucket ids
  refine hpages.attempt.step fun r => ?_
  cases r with
  | ok _ => exact draws_pure ()
  | error e => exact (draws_report _).step fun _ => draws_fail e

theorem openAt_draws (name : String) (policy : KeyPolicy K) (directory : PageId)
    (capacity? : Option Nat) :
    Draws 0 (openAt name policy directory capacity? : Op σ (HashIndex K V)) :=
  (draws_liftM _).step fun _ => (verify_draws _).step fun _ => draws_pure _

section Remove

theorem isEmptyBucket_draws (id : PageId) : Draws 0 (t.isEmptyBucket id : Op σ Bool) :=
  .withPage fun g => (t.readBucket_draws g).step fun _ => draws_pure _

theorem mergeStep_draws (d : Directory) (slot : Nat) :
    Draws 0 (t.mergeStep d slot : Op σ (Option (Directory × Nat))) := by
  refine (draws_liftM _).step fun buddy? => ?_
  cases buddy? with
  | none => exact draws_pure none
  | some buddy =>
    refine (draws_liftM _).step fun depth => (draws_liftM _).step fun other => ?_
    split
    · exact draws_pure none
    · refine (draws_liftM _).step fun page => (draws_liftM _).step fun otherPage => ?_
      have hchoose : Draws 0 (t.chooseEmptied page otherPage : Op σ (Option (PageId × PageId))) := by
        refine (t.isEmptyBucket_draws page).step fun empty => ?_
        split
        · exact draws_pure _
        · refine (t.isEmptyBucket_draws otherPage).step fun empty => ?_
          split <;> exact draws_pure _
      refine hchoose.step fun chosen => ?_
      cases chosen with
      | none => exact draws_pure none
      | some chosen =>
        obtain ⟨emptied, survivor⟩ := chosen
        refine (draws_liftM _).step fun repointed => (draws_liftM _).step fun merged => ?_
        refine (draws_report _).step fun _ => Draws.step ?_ fun _ => draws_pure _
        refine (draws_delete emptied).attempt.step fun r => ?_
        split
        · exact draws_pure ()
        · exact draws_report _
        · exact draws_report _

theorem mergeWithin_draws (n : Nat) (changed : Bool) (d : Directory) (slot : Nat) :
    Draws 0 (t.mergeWithin n changed d slot : Op σ (Directory × Bool)) := by
  induction n generalizing changed d slot with
  | zero => exact draws_pure _
  | succ n ih =>
    refine (t.mergeStep_draws d slot).attempt.step fun r => ?_
    split
    · exact ih _ _ _
    · exact draws_pure _
    · exact (draws_report _).step fun _ => draws_pure _

variable [DecidableEq V]

theorem remove_draws (key : K) (value : V) : Draws 0 (t.remove key value : Op σ Bool) := by
  refine Draws.withPage fun directory => (draws_readPage directory).step fun page => ?_
  refine (draws_liftM _).step fun bucket => ?_
  have hbucket : Draws 0 (withPage bucket .exclusive (t.removeFrom key value) :
      Op σ (Option Bool)) := by
    refine Draws.withPage fun g => (t.readBucket_draws g).step fun b => ?_
    split
    · exact draws_pure none
    · exact (draws_writePage g _).step fun _ => draws_pure _
  refine hbucket.step fun found => ?_
  cases found with
  | none => exact draws_pure false
  | some emptied =>
    cases emptied with
    | false => exact draws_pure true
    | true =>
      refine (draws_liftM _).step fun slot => (t.mergeWithin_draws _ _ _ _).step fun result => ?_
      obtain ⟨merged, changed⟩ := result
      cases changed with
      | false => exact draws_pure true
      | true => exact (writeDirectory_draws merged directory).step fun _ => draws_pure true

end Remove

section Insert

variable [DecidableEq V]

-- A round splits one bucket at most.
theorem insertOrSplit_draws (key : K) (value : V) :
    Draws 1 (t.insertOrSplit key value : Op σ Bool) := by
  refine Draws.withPage fun directory => (draws_readPage directory).step fun page => ?_
  refine (draws_liftM _).step fun bucket => Draws.withPage fun guard => ?_
  refine (t.readBucket_draws guard).step fun b => ?_
  have happend (b : Bucket K V) :
      Draws 1 (do appendTo guard b key value; return true : Op σ Bool) :=
    Draws.step (draws_writePage guard _) fun _ => draws_pure true
  split
  · exact draws_fail _
  · split
    · split
      · refine (draws_liftM _).step fun slot => Draws.last ?_ fun divided =>
          (writeDirectory_draws divided directory).step fun _ => draws_pure false
        refine (draws_liftM _).step fun old => (draws_liftM _).step fun depth => ?_
        have hdeepen : Draws 0 (t.deepen (Directory.ofPage page) depth : Op σ Directory) := by
          unfold deepen
          split
          · exact (draws_liftM _).step fun grown => (draws_report _).step fun _ => draws_pure _
          · exact draws_pure _
        refine hdeepen.step fun room => Draws.withNewPage fun fresh => ?_
        refine (draws_liftM _).step fun divided => (draws_writePage guard _).step fun _ => ?_
        refine (t.readBucket_draws fresh).step fun new => (draws_writePage fresh _).step fun _ => ?_
        exact (draws_report _).step fun _ => draws_pure _
      · exact happend _
    · exact happend b

theorem insertWithin_draws (key : K) (value : V) (n : Nat) :
    Draws n (t.insertWithin key value n : Op σ Unit) := by
  induction n with
  | zero => exact draws_of_same fun _ => rfl
  | succ n ih =>
    have hround : Draws (1 + n) (t.insertWithin key value (n + 1) : Op σ Unit) := by
      refine (t.insertOrSplit_draws key value).bind fun stored => ?_
      cases stored with
      | true => exact draws_pure ()
      | false => exact ih
    rwa [Nat.add_comm] at hround

theorem insert_draws (key : K) (value : V) : Draws 33 (t.insert key value : Op σ Bool) := by
  refine (t.insertWithin_draws key value 33).attempt.last fun r => ?_
  split
  · exact draws_pure true
  · exact draws_pure false
  · exact draws_fail _

end Insert

end HashIndex

namespace IndexCall

open HashIndex PagePool SuppliedPool

variable {K V σ γ : Type} [DecidableEq V] [FixedWidth K] [FixedWidth V] [PagePool σ γ]

-- The page ids that a call takes at most.
def ids : IndexCall K V → Nat
  | insert _ _ | tryInsert _ _ => 33
  | _ => 0

-- The state after calls through one handle.
def runAll (t : HashIndex K V) : List (IndexCall K V) → σ → σ
  | [], s => s
  | call :: calls, s => runAll t calls (call.run t s).state

-- The outline after calls none of which is refused a page.
def applyAll (policy : KeyPolicy K) (capacity : Nat) :
    List (IndexCall K V) → Outline K V → Outline K V
  | [], o => o
  | call :: calls, o => applyAll policy capacity calls (call.apply policy capacity o).2

omit [DecidableEq V] [FixedWidth V] in
theorem result_of_flag {x : Op σ Bool} {s : σ} {flag : Bool}
    (h : ((IndexAnswer.flag (V := V) <$> x) s).result = .ok (.flag flag)) :
    (x s).result = .ok flag := by
  rw [Op.result_map] at h
  cases hr : (x s).result with
  | ok a =>
    rw [hr] at h
    cases h
    rfl
  | error e =>
    rw [hr] at h
    cases h

variable [SuppliedPool σ γ]

theorem run_draws (t : HashIndex K V) (call : IndexCall K V) :
    Draws call.ids (call.run t : Op σ (IndexAnswer V)) := by
  cases call with
  | get key => exact (t.get_draws key).map _
  | insert key value => exact (t.insert_draws key value).map _
  | tryInsert key value => exact (t.insertWithin_draws key value 33).map _
  | remove key value => exact (t.remove_draws key value).map _
  | verify => exact t.verify_draws.map _
  | reopen capacity? => exact (openAt_draws t.name t.policy t.directory capacity?).map _

end IndexCall

namespace HashIndex

open PagePool SuppliedPool

variable {K V σ γ : Type} [DecidableEq V] [FixedWidth K] [FixedWidth V] [PagePool σ γ]
  [SuppliedPool σ γ] [LawfulPool σ γ] {t : HashIndex K V} {guards : List γ} {left : Nat} {s : σ}
  {o : Outline K V}

-- The pool keeps an index with this outline, and has ids for some more pages.
def Provides (t : HashIndex K V) (guards : List γ) (left : Nat) (s : σ) (o : Outline K V) : Prop :=
  (∃ w, ReadablePool.Kept s guards w ∧ t.Depicts σ guards o w) ∧ Supplies left s

theorem Provides.created {name : String} {policy : KeyPolicy K} {capacity? : Option Nat} {w : Ledger}
    (hs : ReadablePool.Kept s guards w) (hleft : Supplies (left + 2) s)
    (ht : ((create name policy capacity? : Op σ (HashIndex K V)) s).result = .ok t) :
    t.Provides guards left ((create name policy capacity? : Op σ (HashIndex K V)) s).state
      Outline.empty := by
  have hsupplies := create_draws (V := V) name policy capacity? left s hleft
  have hcreated := create_ends (V := V) name policy capacity? hs
  rw [Op.Ends, ht] at hcreated
  obtain ⟨w', hw', hcreated, _⟩ := hcreated
  exact ⟨⟨w', hw', hcreated.depicts⟩, hsupplies⟩

-- The state after the index was created and called.
def after (t : HashIndex K V) (calls : List (IndexCall K V)) (s : σ) : σ :=
  IndexCall.runAll t calls ((create t.name t.policy (some t.capacity) : Op σ (HashIndex K V)) s).state

-- What is done to the ledger is not broken off while there are more ids than it takes.
theorem not_aborts (hspent : ∀ {s : σ}, ReadablePool.Spent s → ¬ Supplies 1 s) {α : Type}
    {x : Op σ α} {k : Nat} {w : Ledger} {P : α → Ledger → Prop} {E : StoreError → Ledger → Prop}
    (h : Does guards w x P E) (hx : Draws k x) (hs : ReadablePool.Kept s guards w)
    (hleft : Supplies (1 + k) s) (a : Abort) : (x s).result ≠ .error (.abort a) := by
  intro ha
  have hends := h s hs
  have hsupplies := hx 1 s hleft
  rw [Op.Ends, ha] at hends
  exact hspent hends hsupplies

section Unrefused

-- A pool that refuses nothing as long as it has ids.
variable [RoundTrip K] [RoundTrip V] (hspent : ∀ {s : σ}, ReadablePool.Spent s → ¬ Supplies 1 s)
  (hunrefused : ∀ {s : σ} {guards : List γ} {w : Ledger},
    ReadablePool.Kept s guards w → w.refusals = 0)
include hspent hunrefused

omit [RoundTrip K] [RoundTrip V] in
-- There an index is created.
theorem exists_created {w : Ledger} (hs : ReadablePool.Kept s guards w) (hids : Supplies (1 + 2) s)
    (name : String) (policy : KeyPolicy K) (capacity? : Option Nat) {capacity : Nat}
    (hchoose : chooseCapacity K V capacity? = .ok capacity) (hpos : 0 < capacity) :
    ∃ t w', ((create name policy capacity? : Op σ (HashIndex K V)) s).result = .ok t ∧
      ReadablePool.Kept ((create name policy capacity? : Op σ (HashIndex K V)) s).state guards w' := by
  have hroom (n : Nat) (hn : chooseCapacity K V capacity? = .ok n) : 0 < n := by
    obtain rfl := Except.ok.inj (hchoose.symm.trans hn)
    exact hpos
  have hdoes : Does guards w (create name policy capacity? : Op σ (HashIndex K V)) _ _ :=
    create_does name policy capacity? (Or.inl hroom)
  have hreturns := not_aborts hspent hdoes (create_draws name policy capacity?) hs hids
  obtain ⟨w', r, hr, hw', hcreated⟩ := hdoes.returns hs hreturns
  cases r with
  | ok t => exact ⟨t, w', hr, hw'⟩
  | error e =>
    obtain ⟨_, hfails | hless⟩ := hcreated
    · cases hchoose.symm.trans hfails
    · rw [hunrefused hw'] at hless
      exact absurd hless (Nat.not_lt_zero _)

-- There a call does to the index what it does to the outline.
theorem Provides.run {call : IndexCall K V} (h : t.Provides guards (left + call.ids) s o)
    (hleft : 0 < left) (hlegal : call.Legal t) :
    (call.run t s).result = Except.mapError .error (call.apply t.policy t.capacity o).1 ∧
      t.Provides guards left (call.run t s).state (call.apply t.policy t.capacity o).2 := by
  obtain ⟨⟨w, hs, hdepicts⟩, hsupplies⟩ := h
  have hends := call.run_ends hdepicts hlegal
  have hdraws : Draws call.ids (call.run t : Op σ (IndexAnswer V)) := call.run_draws t
  have hreturns := not_aborts hspent hends hdraws hs
    (supplies_le hsupplies (Nat.add_le_add_right hleft call.ids))
  obtain ⟨w', r, hr, hw', hended⟩ := hends.returns hs hreturns
  have happly {o' : Outline K V} (hended : call.Ended t o w r o' w') :
      call.apply t.policy t.capacity o = (r, o') := by
    rcases hended with ⟨_, happly⟩ | ⟨hless, _⟩
    · exact happly
    · rw [hunrefused hw'] at hless
      exact absurd hless (Nat.not_lt_zero _)
  cases r with
  | ok a =>
    obtain ⟨o', hdepicts', hended⟩ := hended
    rw [happly hended]
    exact ⟨hr, ⟨w', hw', hdepicts'⟩, hdraws left s hsupplies⟩
  | error e =>
    obtain ⟨o', hdepicts', hended⟩ := hended
    rw [happly hended]
    exact ⟨hr, ⟨w', hw', hdepicts'⟩, hdraws left s hsupplies⟩

-- What every call carries over is so after all of them.
theorem Provides.runAll {P : σ → Outline K V → Prop} {calls : List (IndexCall K V)}
    (h : t.Provides guards (left + (calls.map IndexCall.ids).sum) s o) (hleft : 0 < left)
    (hlegal : ∀ call ∈ calls, call.Legal t)
    (hcall : ∀ call ∈ calls, ∀ s o, t.Provides guards 0 s o → P s o →
      t.Provides guards 0 (call.run t s).state (call.apply t.policy t.capacity o).2 →
      (call.run t s).result = Except.mapError .error (call.apply t.policy t.capacity o).1 →
      P (call.run t s).state (call.apply t.policy t.capacity o).2) (hP : P s o) :
    t.Provides guards left (IndexCall.runAll t calls s)
        (IndexCall.applyAll t.policy t.capacity calls o) ∧
      P (IndexCall.runAll t calls s) (IndexCall.applyAll t.policy t.capacity calls o) := by
  induction calls generalizing s o with
  | nil => exact ⟨h, hP⟩
  | cons call calls ih =>
    have hweaken {left : Nat} {s : σ} {o : Outline K V} (h : t.Provides guards left s o) :
        t.Provides guards 0 s o := ⟨h.1, supplies_le h.2 (Nat.zero_le _)⟩
    rw [List.map_cons, List.sum_cons, Nat.add_comm call.ids, ← Nat.add_assoc] at h
    obtain ⟨hresult, hrun⟩ := h.run hspent hunrefused (Nat.add_pos_left hleft _)
      (hlegal call List.mem_cons_self)
    refine ih hrun (fun c hc => hlegal c (List.mem_cons_of_mem call hc))
      (fun c hc => hcall c (List.mem_cons_of_mem call hc)) ?_
    exact hcall call List.mem_cons_self s o (hweaken h) hP (hweaken hrun) hresult

theorem Provides.after {P : σ → Outline K V → Prop} {w : Ledger}
    (hs : ReadablePool.Kept s guards w) (hleft : 0 < left) (calls : List (IndexCall K V))
    (hids : Supplies (left + (calls.map IndexCall.ids).sum + 2) s)
    (ht : ((create t.name t.policy (some t.capacity) : Op σ (HashIndex K V)) s).result = .ok t)
    (hlegal : ∀ call ∈ calls, call.Legal t)
    (hcall : ∀ call ∈ calls, ∀ s o, t.Provides guards 0 s o → P s o →
      t.Provides guards 0 (call.run t s).state (call.apply t.policy t.capacity o).2 →
      (call.run t s).result = Except.mapError .error (call.apply t.policy t.capacity o).1 →
      P (call.run t s).state (call.apply t.policy t.capacity o).2) (hP : P (t.after [] s) .empty) :
    t.Provides guards left (t.after calls s) (IndexCall.applyAll t.policy t.capacity calls .empty) ∧
      P (t.after calls s) (IndexCall.applyAll t.policy t.capacity calls .empty) :=
  (Provides.created hs hids ht).runAll hspent hunrefused hleft hlegal hcall hP

end Unrefused

section Narrow

variable {n : Nat}

-- The narrow pool as a user of it sees it who plans no refusals.
def narrowStart (n : Nat) : UnreliablePool n MemoryStore := ⟨Pool.narrow n, fun _ => none, 0⟩

theorem narrow_supplies {k : Nat} (hk : k < n) (hn : n < 4294967296) :
    (Pool.narrow n).pool.Supplies k := by
  change 4294967296 - n + k * 1 < 4294967296
  omega

-- The narrow pool as a pool that refuses nothing.
abbrev narrowUnplanned (hpos : 0 < n) (hn : n < 4294967296) :
    LawfulPool (UnreliablePool n MemoryStore) (Guard n) :=
  let := Pool.narrowPool hpos hn
  Unreliable.unplanned (Mounted (Pool n) MemoryStore)

theorem refusals_narrow {hpos : 0 < n} {hn : n < 4294967296} {u : UnreliablePool n MemoryStore}
    {guards : List (Guard n)} {w : Ledger}
    (h : (narrowUnplanned hpos hn).toReadablePool.Kept u guards w) : w.refusals = 0 := by
  obtain ⟨_, _, hscarce⟩ := h
  exact hscarce.refusals_eq

-- What stands for an index in the ledger of its user does so in the pool.
theorem Represents.narrow {hpos : 0 < n} {hn : n < 4294967296} {u : UnreliablePool n MemoryStore}
    {guards : List (Guard n)} {w : Ledger} {d : Directory} {pairs : List (K × V)}
    (h : t.Represents w.sheets d pairs)
    (hkept : (narrowUnplanned hpos hn).toReadablePool.Kept u guards w) :
    t.Represents (Ledger.ofMemory (Pool.contents u.pool) 0).sheets d pairs := by
  obtain ⟨_, M, hscarce⟩ := hkept
  rw [hscarce.kept.contents_eq]
  refine h.of_written fun id p hp => Ledger.sheets_ofMemory ?_ 0
  rw [(hscarce.shown id (hp ▸ Option.some_ne_none _)).1, Ledger.memory_of_written hp]

theorem kept_narrowStart (hpos : 0 < n) (hn : n < 4294967296) :
    (narrowUnplanned hpos hn).toReadablePool.Kept (narrowStart n) [] ⟨fun _ => none, 0⟩ :=
  ⟨fun _ => rfl, _, Pool.narrow_scarce hpos hn⟩

variable [RoundTrip K] [RoundTrip V]

theorem narrow_provides (hn : n < 4294967296) {left : Nat} (hleft : 0 < left)
    (calls : List (IndexCall K V))
    (hids : left + (calls.map IndexCall.ids).sum + 2 < n) (hlegal : ∀ call ∈ calls, call.Legal t)
    (ht : ((create t.name t.policy (some t.capacity) : Op _ (HashIndex K V)) (narrowStart n)).result =
      .ok t) :
    let := narrowUnplanned (n := n) (by omega) hn
    t.Provides [] left (t.after calls (narrowStart n))
        (IndexCall.applyAll t.policy t.capacity calls .empty) ∧
      (t.policy.Coherent → Reached [] t (t.after calls (narrowStart n))
        (IndexCall.applyAll t.policy t.capacity calls .empty).pairs) := by
  have hpos : 0 < n := by omega
  intro
  refine Provides.after (P := fun u o => t.policy.Coherent → Reached [] t u o.pairs)
    Pool.Spent.not_supplies refusals_narrow (kept_narrowStart hpos hn) hleft calls
    (narrow_supplies hids hn) ht hlegal ?_ fun _ => ?_
  · intro call hcall u o _ hreached _ hresult hcoherent
    replace hreached := hreached hcoherent
    have hcalled := hreached.called t.name call (hlegal call hcall) (by
      rw [hresult]
      cases (call.apply t.policy t.capacity o).1 <;> nofun)
    rw [hresult, ← IndexCall.pairs_apply hcoherent] at hcalled
    exact hcalled
  · exact .created (u := narrowStart n) _ (Pool.narrow_reached hpos hn) ht

-- An index on the narrow pool of 128 frames. Its buckets hold one pair each, and every number is its
-- own hash.
def narrowIndex : HashIndex UInt32 UInt32 :=
  ⟨"index", ⟨compare, UInt32.toUInt64⟩, ⟨4294967168⟩, 1⟩

theorem narrowIndex_coherent : narrowIndex.policy.Coherent := fun a b hab => by
  rw [show a = b from Std.LawfulEqOrd.eq_of_compare hab]

theorem reached_narrowIndex (calls : List (IndexCall UInt32 UInt32))
    (hids : 1 + (calls.map IndexCall.ids).sum + 2 < 128)
    (hlegal : ∀ call ∈ calls, call.Legal narrowIndex) :
    Reached [] narrowIndex (narrowIndex.after calls (narrowStart 128))
      (IndexCall.applyAll narrowIndex.policy narrowIndex.capacity calls .empty).pairs :=
  (narrow_provides (by decide) Nat.one_pos calls hids hlegal rfl).2 narrowIndex_coherent

-- What a call answers through a handle of any name.
theorem narrowIndex_answers (calls : List (IndexCall UInt32 UInt32)) (name : String)
    (call : IndexCall UInt32 UInt32) (hids : 1 + call.ids + (calls.map IndexCall.ids).sum + 2 < 128)
    (hlegal : ∀ call ∈ calls, call.Legal narrowIndex) (hcall : call.Legal narrowIndex) :
    (call.run { narrowIndex with name } (narrowIndex.after calls (narrowStart 128))).result =
      Except.mapError .error (call.apply narrowIndex.policy narrowIndex.capacity
        (IndexCall.applyAll narrowIndex.policy narrowIndex.capacity calls .empty)).1 := by
  have hn : 128 < 4294967296 := by decide
  let := narrowUnplanned (n := 128) (by decide) hn
  obtain ⟨⟨⟨w, hkept, hdepicts⟩, hsupplies⟩, -⟩ :=
    narrow_provides (t := narrowIndex) hn (Nat.add_pos_left Nat.one_pos call.ids) calls hids hlegal rfl
  have hprovides : Provides { narrowIndex with name } [] (1 + call.ids) _ _ :=
    ⟨⟨w, hkept, hdepicts.rename name⟩, hsupplies⟩
  have hlegal' : call.Legal { narrowIndex with name } := by cases call <;> exact hcall
  exact (hprovides.run Pool.Spent.not_supplies refusals_narrow Nat.one_pos hlegal').1

end Narrow

end HashIndex

end PagedIndex
