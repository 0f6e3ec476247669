import PagedIndex.Proofs.Index.Fullness
import PagedIndex.Proofs.Index.Pages

namespace PagedIndex

-- The program goes on. If no call was refused, the answer tells whether `φ` holds, and a contradiction
-- is told if it does not.
structure Checked.Judges {α : Type} (r : Checked α) (answer : α) (φ : Prop) (refusals : Nat) : Prop where
  returns : r.Returns
  ok_iff : refusals = 0 → (r = .ok answer ↔ φ)
  corrupted : refusals = 0 → ¬ φ → ∃ cause, r = .error (.error (.corrupted cause))

theorem Checked.Judges.map {α β : Type} {r : Checked α} {answer : α} {φ : Prop} {refusals : Nat}
    (h : r.Judges answer φ refusals) (b : β) (hanswer : ∀ a, r = .ok a → a = answer) :
    Checked.Judges (r.map fun _ => b) b φ refusals := by
  cases r using Checked.outcomes with
  | ok a =>
    obtain rfl := hanswer a rfl
    exact ⟨nofun, fun hnone => iff_of_true rfl ((h.ok_iff hnone).mp rfl),
      fun hnone hφ => absurd ((h.ok_iff hnone).mp rfl) hφ⟩
  | error e =>
    have hφ (hnone : refusals = 0) : ¬ φ := fun hφ => nomatch (h.ok_iff hnone).mpr hφ
    refine ⟨nofun, fun hnone => iff_of_false nofun (hφ hnone), fun hnone hφ => ?_⟩
    obtain ⟨cause, hcause⟩ := h.corrupted hnone hφ
    exact ⟨cause, congrArg (Except.map fun _ => b) hcause⟩
  | abort a => exact absurd rfl (h.returns a)

namespace PagePool

variable {σ γ α : Type} [PagePool σ γ] [ReadablePool σ γ] {guards : List γ} {w : Ledger} {φ ψ : Prop}

-- A page is read that need not be in the ledger. If it is given out it was there.
theorem Does.withSharedPage [ProbedPool σ γ] {id : PageId} {body : γ → Op σ α} {P : α → Ledger → Prop}
    {E : StoreError → Ledger → Prop}
    (hjoins : Joins σ (ReadablePool.access σ) guards id .shared)
    (hbody : ∀ g p, pageOf σ g = id → w.memory id = some p → Does (g :: guards) w (body g) P E)
    (hrefused : ∀ e w', Refused (σ := σ) guards w e w' → E e w') :
    Does guards w (PagePool.withPage id .shared body) P E := by
  intro s hs
  rw [PagePool.withPage, Op.ends_bind]
  refine (ProbedPool.fetch_any hs id hjoins).mono fun r t ht => ?_
  cases r using Checked.outcomes with
  | ok g =>
    obtain ⟨⟨hpage, -⟩, hkept⟩ := ht
    have hread := ReadablePool.read_eq hkept List.mem_cons_self
    exact (hbody g _ hpage (hpage ▸ hread)).ensuring hkept
  | error e => exact ⟨_, ht.2, hrefused e _ ⟨ht.1.1, rfl, ht.1.2⟩⟩
  | abort a => exact False.elim ht

-- The operation changes nothing and finds out whether `φ` holds, unless a page is refused. If it does
-- not hold, a contradiction is told.
def Decides (guards : List γ) (w : Ledger) (x : Op σ Unit) (φ : Prop) : Prop :=
  Does guards w x (fun _ w' => w' = w ∧ φ) fun e w' =>
    (w' = w ∧ ¬ φ ∧ ∃ cause, e = .corrupted cause) ∨ GaveUp w e w'

namespace Decides

theorem congr {x : Op σ Unit} (h : Decides guards w x φ) (hiff : φ ↔ ψ) : Decides guards w x ψ :=
  h.mono (fun _ _ ha => ⟨ha.1, hiff.mp ha.2⟩) fun _ _ he =>
    he.imp_left fun hdenied => ⟨hdenied.1, fun hψ => hdenied.2.1 (hiff.mpr hψ), hdenied.2.2⟩

-- What comes after relies on what was found out before.
theorem bind {x : Op σ Unit} {f : Unit → Op σ Unit} (hx : Decides guards w x φ)
    (hf : φ → Decides guards w (f ()) ψ) : Decides guards w (x >>= f) (φ ∧ ψ) := by
  refine Does.bind (hx.mono (fun _ _ ha => ha) fun _ _ he => ?_) fun _ w' ha => ?_
  · exact he.imp_left fun hdenied => ⟨hdenied.1, fun hboth => hdenied.2.1 hboth.1, hdenied.2.2⟩
  · obtain ⟨rfl, hφ⟩ := ha
    refine (hf hφ).mono (fun _ _ hb => ⟨hb.1, hφ, hb.2⟩) fun _ _ he => ?_
    exact he.imp_left fun hdenied => ⟨hdenied.1, fun hboth => hdenied.2.1 hboth.2, hdenied.2.2⟩

end Decides

theorem decides_pure (h : φ) : Decides guards w (pure () : Op σ Unit) φ := does_pure ⟨rfl, h⟩

theorem decides_fail {cause : Corruption} (h : ¬ φ) :
    Decides guards w (Op.fail (.corrupted cause) : Op σ Unit) φ :=
  does_fail (Or.inl ⟨rfl, h, cause, rfl⟩)

theorem decides_forM {l : List α} {f : α → Op σ Unit} {holds : α → Prop}
    (h : ∀ a ∈ l, Decides guards w (f a) (holds a)) :
    Decides guards w (l.forM f) (∀ a ∈ l, holds a) := by
  induction l with
  | nil => exact decides_pure fun _ ha => absurd ha List.not_mem_nil
  | cons a l ih =>
    refine ((h a List.mem_cons_self).bind fun _ => ih fun b hb => ?_).congr List.forall_mem_cons.symm
    exact h b (List.mem_cons_of_mem a hb)

end PagePool

-- The values of a function on a list, of which all but one are empty.
theorem flatMap_eq_of_forall_ne {α β : Type} {f : α → List β} {l : List α} {a : α} (hnodup : l.Nodup)
    (ha : a ∈ l) (hothers : ∀ b ∈ l, b ≠ a → f b = []) : l.flatMap f = f a := by
  induction l with
  | nil => exact absurd ha List.not_mem_nil
  | cons b l ih =>
    obtain ⟨hb, hnodup⟩ := List.nodup_cons.mp hnodup
    rw [List.flatMap_cons]
    by_cases hab : b = a
    · subst hab
      have hrest : l.flatMap f = [] := List.flatMap_eq_nil_iff.mpr fun c hc =>
        hothers c (List.mem_cons_of_mem b hc) (ne_of_mem_of_not_mem hc hb)
      rw [hrest, List.append_nil]
    · rw [hothers b List.mem_cons_self hab, List.nil_append]
      exact ih hnodup ((List.mem_cons.mp ha).resolve_left (Ne.symm hab)) fun c hc =>
        hothers c (List.mem_cons_of_mem b hc)

namespace HashIndex

open PagePool

variable {K V : Type} [FixedWidth K] [FixedWidth V] {t : HashIndex K V} {M : Memory} {d : Directory}

-- A bucket has no slot past its capacity occupied, and only keys whose hashes select its page.
structure Proper (t : HashIndex K V) (d : Directory) (id : PageId) (b : Bucket K V) : Prop where
  unoccupied (i : Nat) : b.capacity ≤ i → i < Bucket.maxSlots K V → b.occupied i = false
  routed (i : Nat) : i < b.capacity → b.readable i = true → d.owner (t.hash (b.keyAt i)) = id

-- The pages pass as those of the index.
structure Passes (t : HashIndex K V) (M : Memory) : Prop where
  directory : (t.storedDirectory M).verify = .ok ()
  bucket (id : PageId) (b : Bucket K V) : id ∈ (t.storedDirectory M).bucketIds →
    Bucket.view ((M id).getD Page.zero) t.capacity = .ok b →
    t.Proper (t.storedDirectory M) id b

-- A capacity that an index was opened with.
structure Accepted (t : HashIndex K V) : Prop where
  pos : 0 < t.capacity
  le : t.capacity ≤ Bucket.maxSlots K V

theorem Accepted.view (h : t.Accepted) (p : Page) :
    ∃ b : Bucket K V, Bucket.view p t.capacity = .ok b ∧ b.page = p ∧ b.capacity = t.capacity :=
  ⟨⟨p, t.capacity, h.pos, h.le, _, rfl⟩, dif_pos ⟨h.pos, h.le⟩, rfl, rfl⟩

theorem proper_iff (t : HashIndex K V) (d : Directory) (id : PageId) (b : Bucket K V) :
    t.Proper d id b ↔
      b.overflow = 0 ∧ ∀ pair ∈ b.entries, d.owner (t.hash pair.1) = id := by
  have hoverflow : b.overflow = 0 ↔
      ∀ i, b.capacity ≤ i → i < Bucket.maxSlots K V → b.occupied i = false := by
    rw [Bucket.overflow, List.countP_eq_zero]
    constructor
    · intro h i hle hlt
      exact Bool.eq_false_iff.mpr (h i (List.mem_range'_1.mpr ⟨hle, by omega⟩))
    · intro h i hi
      have hbound := List.mem_range'_1.mp hi
      exact Bool.eq_false_iff.mp (h i hbound.1 (by omega))
  have hentries : (∀ pair ∈ b.entries, d.owner (t.hash pair.1) = id) ↔
      ∀ i, i < b.capacity → b.readable i = true → d.owner (t.hash (b.keyAt i)) = id := by
    rw [Bucket.entries, List.forall_mem_map]
    simp [Bucket.liveSlots]
  rw [hoverflow, hentries]
  exact ⟨fun h => ⟨h.unoccupied, h.routed⟩, fun h => ⟨h.1, h.2⟩⟩

section Verify

variable {σ γ : Type} [PagePool σ γ] [ReadablePool σ γ] {guards : List γ} {w : Ledger}

omit [FixedWidth K] [FixedWidth V] in
theorem verifyKey_decides (h : d.Partitioned) (id : PageId) (key : K) :
    Decides guards w (Op.ofChecked (t.verifyKey d id key) : Op σ Unit)
      (d.owner (t.hash key) = id) := by
  rw [verifyKey, h.slotOf_eq]
  change Decides guards w (Op.ofChecked (d.bucket (d.route (t.hash key)) >>= fun owner => _)) _
  rw [h.bucket_eq (d.route_lt_size _)]
  change Decides guards w (Op.ofChecked (if d.owner (t.hash key) ≠ id then _ else _)) _
  by_cases howner : d.owner (t.hash key) = id
  · rw [if_neg (not_not_intro howner)]
    exact decides_pure howner
  · rw [if_pos howner]
    exact decides_fail howner

variable [ProbedPool σ γ]

omit [FixedWidth K] [FixedWidth V] in
theorem readDirectory_finds
    (hjoins : Joins σ (ReadablePool.access σ) guards t.directory .shared) :
    Does guards w (t.readDirectory : Op σ Directory)
      (fun d w' => (∃ p, w.memory t.directory = some p ∧ d = Directory.ofPage p) ∧ w' = w)
      (Refused (σ := σ) guards w) := by
  refine Does.withSharedPage hjoins (fun g p hpage hp => ?_) fun _ _ he => he
  exact (does_readPage List.mem_cons_self (hpage ▸ hp) ⟨rfl, rfl⟩).step (does_pure ⟨⟨p, hp, rfl⟩, rfl⟩)

theorem verifyBucket_decides (haccepted : t.Accepted) (h : d.Partitioned) {id : PageId}
    (hjoins : Joins σ (ReadablePool.access σ) guards id .shared) :
    Decides guards w (t.verifyBucket d id : Op σ Unit)
      (∀ b, Bucket.view ((w.memory id).getD Page.zero) t.capacity = .ok b → t.Proper d id b) := by
  refine Does.withSharedPage hjoins (fun g p hpage hp => ?_) fun _ _ he => Or.inr he.gaveUp
  obtain ⟨b, hview, rfl, hcapacity⟩ := haccepted.view (K := K) (V := V) p
  have hiff : (b.overflow = 0 ∧ ∀ pair ∈ b.entries, d.owner (t.hash pair.1) = id) ↔
      ∀ b', Bucket.view ((w.memory id).getD Page.zero) t.capacity = .ok b' → t.Proper d id b' := by
    rw [← proper_iff, hp, Option.getD_some, hview]
    exact ⟨fun hb b' heq => Except.ok.inj heq ▸ hb, fun hall => hall b rfl⟩
  refine Decides.congr ?_ hiff
  refine (does_readBucket hcapacity List.mem_cons_self (hpage ▸ hp) ⟨rfl, rfl⟩).step ?_
  refine (does_liftM b.checkedOverflow_eq ⟨rfl, rfl⟩).step ?_
  by_cases hoverflow : b.overflow = 0
  · rw [if_neg (by omega)]
    refine (does_liftM b.checkedEntries_eq ⟨rfl, rfl⟩).step ?_
    refine (decides_forM fun pair _ => verifyKey_decides h id pair.1).congr ?_
    exact (and_iff_right hoverflow).symm
  · rw [if_pos (by omega)]
    exact (decides_fail hoverflow).bind fun hnone => absurd hnone hoverflow

-- The pages that an index is read from may be read under one more guard.
def Unwritten (t : HashIndex K V) (σ : Type) {γ : Type} [PagePool σ γ] [ReadablePool σ γ]
    (guards : List γ) (M : Memory) : Prop :=
  ∀ id, t.IsPage M id → Joins σ (ReadablePool.access σ) guards id .shared

theorem verifyPages_decides (haccepted : t.Accepted) {p : Page} (hp : w.memory t.directory = some p)
    (hunwritten : t.Unwritten σ guards w.memory) :
    Decides guards w (t.verifyPages (Directory.ofPage p) : Op σ Unit) (t.Passes w.memory) := by
  have hstored : t.storedDirectory w.memory = Directory.ofPage p := by
    rw [storedDirectory, hp, Option.getD_some]
  have hiff : ((Directory.ofPage p).verify = .ok () ∧ ∀ id ∈ (Directory.ofPage p).bucketIds, ∀ b,
      Bucket.view ((w.memory id).getD Page.zero) t.capacity = .ok b →
        t.Proper (Directory.ofPage p) id b) ↔ t.Passes w.memory := by
    rw [← hstored]
    exact ⟨fun h => ⟨h.1, fun id b hid => h.2 id hid b⟩,
      fun h => ⟨h.directory, fun id hid b => h.bucket id b hid⟩⟩
  refine Decides.congr ?_ hiff
  have hverify : Decides guards w (liftM (Directory.ofPage p).verify : Op σ Unit)
      ((Directory.ofPage p).verify = .ok ()) := by
    rcases (Directory.ofPage p).verify_outcome with ⟨hok, -⟩ | ⟨-, cause, hcause⟩
    · rw [hok]
      exact decides_pure rfl
    · rw [hcause]
      exact decides_fail (by rintro ⟨⟩)
  refine hverify.bind fun hok => ?_
  have hpart := (Directory.verify_eq_ok_iff _).mp hok
  refine (does_liftM hpart.checkedBucketIds_eq ⟨rfl, rfl⟩).step (decides_forM fun id hid => ?_)
  exact verifyBucket_decides haccepted hpart (hunwritten id (Or.inr ⟨p, hp, hid⟩))

theorem verify_decides (haccepted : t.Accepted) (hunwritten : t.Unwritten σ guards w.memory) :
    Decides guards w (t.verify : Op σ Unit) (t.Passes w.memory) := by
  unfold verify
  refine Does.bind ((readDirectory_finds (hunwritten _ (Or.inl rfl))).mono (fun _ _ hd => hd)
    fun _ _ he => Or.inr he.gaveUp) fun d w' hd => ?_
  obtain ⟨⟨p, hp, rfl⟩, rfl⟩ := hd
  refine (verifyPages_decides haccepted hp hunwritten).attempt_bind (fun _ w' h => ?_)
    fun e w' he => ?_
  · exact does_pure h
  · exact Does.bind (P := fun _ w'' => w'' = w') (does_report rfl) fun _ w'' hw'' =>
      does_fail (hw'' ▸ he)

-- The values of the live pairs with a key, in the order of their slots.
def valuesOf (t : HashIndex K V) (M : Memory) (key : K) : List V :=
  ((t.storedPairs M).filter fun pair => (t.policy.order pair.1 key).isEq).map Prod.snd

theorem storedEntries_of_view {id : PageId} {b : Bucket K V}
    (h : Bucket.view ((M id).getD Page.zero) t.capacity = .ok b) : t.storedEntries M id = b.entries := by
  rw [storedEntries, h]

-- A pair with the key is in the bucket of the key if its bucket passes.
theorem Passes.valuesOf_eq (h : t.Passes M) (haccepted : t.Accepted) (hcoherent : t.policy.Coherent)
    (key : K) : t.valuesOf M key =
      ((t.storedEntries M ((t.storedDirectory M).owner (t.hash key))).filter fun pair =>
        (t.policy.order pair.1 key).isEq).map Prod.snd := by
  rw [valuesOf, storedPairs, List.filter_flatMap]
  congr 1
  have howner : (t.storedDirectory M).owner (t.hash key) ∈ (t.storedDirectory M).bucketIds :=
    (Directory.mem_bucketIds _ _).mpr ⟨_, Directory.route_lt_size _ (t.hash key), rfl⟩
  refine flatMap_eq_of_forall_ne (Directory.nodup_bucketIds _) howner fun id hid hne => ?_
  rw [List.filter_eq_nil_iff]
  intro pair hpair heq
  obtain ⟨b, hview, -, -⟩ := haccepted.view (K := K) (V := V) ((M id).getD Page.zero)
  rw [storedEntries_of_view hview] at hpair
  have hrouted := ((t.proper_iff _ _ _).mp (h.bucket id b hid hview)).2 pair hpair
  have hhash : t.hash pair.1 = t.hash key := hcoherent _ _ (Ordering.isEq_iff_eq_eq.mp heq)
  exact hne (hrouted.symm.trans (congrArg _ hhash))

theorem get_finds (haccepted : t.Accepted) (hpasses : t.Passes w.memory)
    (hcoherent : t.policy.Coherent) (hunwritten : t.Unwritten σ guards w.memory) (key : K) :
    Does guards w (t.get key : Op σ (List V))
      (fun values w' => values = t.valuesOf w.memory key ∧ w' = w) (Refused (σ := σ) guards w) := by
  have hread : Does guards w (withPage t.directory .shared readPage : Op σ Page)
      (fun page w' => w.memory t.directory = some page ∧ w' = w) (Refused (σ := σ) guards w) := by
    refine Does.withSharedPage (hunwritten _ (Or.inl rfl)) (fun g p hpage hp => ?_)
      fun _ _ he => he
    exact does_readPage List.mem_cons_self (hpage ▸ hp) ⟨hp, rfl⟩
  refine hread.bind fun page w' hpage => ?_
  obtain ⟨hpage, rfl⟩ := hpage
  have hstored : t.storedDirectory w'.memory = Directory.ofPage page := by
    rw [storedDirectory, hpage, Option.getD_some]
  have hpart : (Directory.ofPage page).Partitioned :=
    (Directory.verify_eq_ok_iff _).mp (hstored ▸ hpasses.directory)
  refine (does_liftM (hpart.bucketFor_eq (t.hash key)) ⟨rfl, rfl⟩).step ?_
  have hid : (Directory.ofPage page).owner (t.hash key) ∈ (Directory.ofPage page).bucketIds :=
    (Directory.mem_bucketIds _ _).mpr ⟨_, Directory.route_lt_size _ (t.hash key), rfl⟩
  refine Does.withSharedPage (hunwritten _ (Or.inr ⟨page, hpage, hid⟩)) (fun g p hg hp => ?_)
    fun _ _ he => he
  obtain ⟨b, hview, rfl, hcapacity⟩ := haccepted.view (K := K) (V := V) p
  refine (does_readBucket hcapacity List.mem_cons_self (hg ▸ hp) ⟨rfl, rfl⟩).step ?_
  refine does_liftM (b.checkedGet_eq _ key) ⟨?_, rfl⟩
  have hentries : t.storedEntries w'.memory ((Directory.ofPage page).owner (t.hash key)) = b.entries :=
    storedEntries_of_view (by rw [hp, Option.getD_some, hview])
  rw [hpasses.valuesOf_eq haccepted hcoherent, hstored, hentries, b.get_eq_entries]

end Verify

section Runs

-- An index is opened by checking it.
theorem openAt_run {σ γ : Type} [PagePool σ γ] (t : HashIndex K V) {capacity? : Option Nat}
    (hcapacity : chooseCapacity K V capacity? = .ok t.capacity) (s : σ) :
    let opened := (openAt t.name t.policy t.directory capacity? : Op σ (HashIndex K V)) s
    let verified := (t.verify : Op σ Unit) s
    opened.result = verified.result.map (fun _ => t) ∧ opened.state = verified.state := by
  intro opened verified
  have hopened : opened = (t.verify >>= fun _ => pure t : Op σ (HashIndex K V)) s := by
    change openAt t.name t.policy t.directory capacity? s = _
    rw [openAt, hcapacity]
    rfl
  rw [hopened, Op.bind_run]
  change _ = verified.result.map _ ∧ _ = verified.state
  cases hverified : (t.verify : Op σ Unit) s with
  | mk result state events =>
    rw [show verified = ⟨result, state, events⟩ from hverified]
    cases result with
    | ok _ => exact ⟨rfl, rfl⟩
    | error _ => exact ⟨rfl, rfl⟩

variable {n : Nat} {D : Type} [PageStore D] [LawfulStore D] {guards : List (Guard n)}
  {u : UnreliablePool n D} {M₀ : Memory}

theorem Accepted.of_chosen {capacity? : Option Nat}
    (hcapacity : chooseCapacity K V capacity? = .ok t.capacity) (hpos : 0 < t.capacity) :
    t.Accepted := by
  rcases chooseCapacity_spec (K := K) (V := V) capacity? with ⟨_, hchosen, hle, -⟩ | ⟨_, hchosen, -⟩
  · obtain rfl := Except.ok.inj (hcapacity.symm.trans hchosen)
    exact ⟨hpos, hle⟩
  · cases hcapacity.symm.trans hchosen

-- A pool does not run out of page ids by being read from.
theorem verify_judges {v : Tallied (UnreliablePool n D)} {w : Ledger} (haccepted : t.Accepted)
    (hunwritten : t.Unwritten (Tallied (UnreliablePool n D)) guards w.memory)
    (hv : ReadablePool.Kept v guards w) :
    (t.verify : Op _ Unit).Ends v fun r v' =>
      r.Judges () (t.Passes w.memory) (v'.refusals - w.refusals) ∧
      ∃ w', ReadablePool.Kept v' guards w' ∧ w'.memory = w.memory ∧ (r = .ok () → w' = w) := by
  have hdecides : @Decides _ _ _ (ReadablePool.reading (Tallied (UnreliablePool n D))) guards w
      t.verify (t.Passes w.memory) := by
    have := ProbedPool.reading (Tallied (UnreliablePool n D))
    let := ReadablePool.reading (Tallied (UnreliablePool n D))
    exact verify_decides haccepted hunwritten
  refine (hdecides v hv).mono fun r v' hends => ?_
  cases r using Checked.outcomes with
  | ok _ =>
    obtain ⟨_, hkept, rfl, hpasses⟩ := hends
    exact ⟨⟨nofun, fun _ => iff_of_true rfl hpasses, fun _ hnot => absurd hpasses hnot⟩, _, hkept,
      rfl, fun _ => rfl⟩
  | error e =>
    obtain ⟨w', hkept, ⟨rfl, hpasses, cause, rfl⟩ | ⟨-, rfl⟩⟩ := hends
    · exact ⟨⟨nofun, fun _ => iff_of_false nofun hpasses, fun _ _ => ⟨cause, rfl⟩⟩, _, hkept, rfl,
        nofun⟩
    · have hrefused : v'.refusals - w.refusals ≠ 0 := by
        have hcount : w.refusals + 1 = v'.refusals := hkept.2
        omega
      exact ⟨⟨nofun, fun hnone => absurd hnone hrefused, fun hnone => absurd hnone hrefused⟩, _, hkept,
        rfl, nofun⟩
  | abort a => exact False.elim hends

-- An index is opened just if it passes.
theorem openAt_judges {v : Tallied (UnreliablePool n D)} {w : Ledger} {capacity? : Option Nat}
    (hcapacity : chooseCapacity K V capacity? = .ok t.capacity) (haccepted : t.Accepted)
    (hunwritten : t.Unwritten (Tallied (UnreliablePool n D)) guards w.memory)
    (hv : ReadablePool.Kept v guards w) :
    (openAt t.name t.policy t.directory capacity? : Op _ (HashIndex K V)).Ends v fun r v' =>
      r.Judges t (t.Passes w.memory) (v'.refusals - w.refusals) ∧
      ∃ w', ReadablePool.Kept v' guards w' ∧ w'.memory = w.memory ∧ (r = .ok t → w' = w) := by
  obtain ⟨hopened, hstate⟩ := t.openAt_run hcapacity v
  obtain ⟨hverified, w', hkept, hmemory, hsame⟩ := verify_judges haccepted hunwritten hv
  rw [Op.Ends, hopened, hstate]
  refine ⟨hverified.map t fun _ _ => rfl, w', hkept, hmemory, fun hok => hsame ?_⟩
  cases hr : ((t.verify : Op _ Unit) v).result using Checked.outcomes with
  | ok _ => rfl
  | error e =>
    rw [hr] at hok
    cases hok
  | abort a => exact absurd hr (hverified.returns a)

theorem get_ends {v : Tallied (UnreliablePool n D)} {w : Ledger} (haccepted : t.Accepted)
    (hpasses : t.Passes w.memory) (hcoherent : t.policy.Coherent)
    (hunwritten : t.Unwritten (Tallied (UnreliablePool n D)) guards w.memory) (key : K)
    (hv : ReadablePool.Kept v guards w) :
    (t.get key : Op _ (List V)).Ends v <| Op.Answers
      (fun values v' => values = t.valuesOf w.memory key ∧ ReadablePool.Kept v' guards w)
      fun e v' => ¬ e.OfIndex ∧ ReadablePool.Kept v' guards w.refuse := by
  refine Does.ends_reading ?_ hv
  have := ProbedPool.reading (Tallied (UnreliablePool n D))
  let := ReadablePool.reading (Tallied (UnreliablePool n D))
  refine get_finds haccepted hpasses hcoherent ?_ key
  exact hunwritten

end Runs

section Stored

-- A page with a directory of one bucket, and one with its pairs, are an index.
theorem represents_single [DecidableEq V] {S : Sheets} {p : Page} {b : Bucket K V} {m : Nat}
    {id : PageId} (hp : S t.directory = some (.written p)) (hd : Directory.ofPage p = .single id)
    (hb : S id = some (.written b.page)) (hcapacity : b.capacity = t.capacity) (hpacked : b.Packed m)
    (hblank : b.entries = [] → m = 0) (hdistinct : Distinct t.policy.order b.entries)
    (hid : id ≠ PageId.invalid) (hne : id ≠ t.directory) :
    t.Represents S (.single id) b.entries := by
  refine ⟨⟨p, hp, hd⟩, Directory.partitioned_single hid, Directory.tight_single id,
    Directory.vacant_single id, fun hash => ?_, fun hash => ?_⟩
  · rw [Directory.owner_single]
    exact hne
  · have hall : t.routed (.single id) id b.entries = b.entries := by
      rw [routed, List.filter_eq_self]
      intro pair _
      exact decide_eq_true (Directory.owner_single id _)
    rw [Directory.owner_single, hall]
    exact ⟨b, m, hcapacity, hb, hpacked, rfl, hblank, hdistinct⟩

theorem exists_bucket_singleton [RoundTrip K] [RoundTrip V] {capacity : Nat} (hpos : 0 < capacity)
    (hle : capacity ≤ Bucket.maxSlots K V) (key : K) (value : V) :
    ∃ b : Bucket K V, b.capacity = capacity ∧ b.Packed 1 ∧ b.entries = [(key, value)] := by
  let blank : Bucket K V := ⟨Page.zero, capacity, hpos, hle, _, rfl⟩
  obtain ⟨hpacked, hnil⟩ := Bucket.Packed.clear blank
  obtain ⟨hput, hentries⟩ := hpacked.put hpos key value
  exact ⟨blank.clear.put 0 key value, rfl, hput, hentries.trans (congrArg (· ++ [(key, value)]) hnil)⟩

-- Any two pages may be what a pool finds in its store.
theorem exists_reached (p q : Page) : ∃ u : UnreliablePool 2 MemoryStore,
    Pool.Reached 2 u.pool [] (Pool.contents u.pool) ∧ Pool.contents u.pool ⟨0⟩ = some p ∧
      Pool.contents u.pool ⟨1⟩ = some q := by
  let d : MemoryStore := (MemoryStore.write ⟨1⟩ q (MemoryStore.write ⟨0⟩ p .empty).state).state
  have hcount : LawfulStore.count d = 2 := rfl
  have hpage : LawfulStore.page d =
      Function.update (Function.update (LawfulStore.page MemoryStore.empty) ⟨0⟩ p) ⟨1⟩ q := by
    change MemoryStore.page (MemoryStore.write ⟨1⟩ q _).state = _
    rw [MemoryStore.page_write rfl, MemoryStore.page_write rfl]
    rfl
  have hanswers : PageStore.pageCount.Ends d fun r d' => r = .ok (LawfulStore.count d) ∧ d' = d :=
    ⟨rfl, rfl⟩
  obtain ⟨hcreate, hstate⟩ := PoolShape.create_single_ends (n := 2) (show 2 ≤ Shard.maxFrames by decide)
    (show 2 ≤ EvictionQueue.maxCapacity by decide) hanswers
  have hzero (id : PageId) (hid : LawfulStore.count d ≤ id.number) :
      LawfulStore.page d id = Page.zero := by
    have hne (k : UInt32) (hk : k < LawfulStore.count d) : id ≠ ⟨k⟩ := fun heq =>
      absurd hid (UInt32.not_le.mpr (heq ▸ hk))
    rw [hcount] at hne
    rw [hpage, Function.update_of_ne (hne 1 (by decide)), Function.update_of_ne (hne 0 (by decide))]
    exact Std.HashMap.getD_empty
  have hreached := Pool.Reached.created (.single 2 0 1) (d := d) trivial hzero hcreate
  rw [hstate] at hreached
  have hcontents := hreached.kept.contents_eq
  have hserves (id : PageId) : (PoolShape.single 2 0 1).Serves id := Nat.mod_one _
  refine ⟨⟨⟨_, d⟩, fun _ => none, 0⟩, hcontents ▸ hreached, ?_, ?_⟩
  · rw [hcontents, PoolShape.memory_apply (hserves _), hcount, if_pos (by decide), hpage,
      Function.update_of_ne (by decide), Function.update_self]
  · rw [hcontents, PoolShape.memory_apply (hserves _), hcount, if_pos (by decide), hpage,
      Function.update_self]

variable [DecidableEq V] {w : Ledger} {pairs : List (K × V)} {id : PageId}

theorem Represents.stores_bucket (h : t.Represents w.sheets d pairs)
    (hid : id ∈ (t.storedDirectory w.memory).bucketIds) :
    t.Stores w.sheets id (t.routed d id pairs) := by
  rw [h.storedDirectory_eq] at hid
  obtain ⟨i, hi, rfl⟩ := (d.mem_bucketIds id).mp hid
  exact h.routes.stores_slot hi

-- The pages of an index pass.
theorem Represents.passes (h : t.Represents w.sheets d pairs) : t.Passes w.memory where
  directory := by
    rw [h.storedDirectory_eq]
    exact h.routes.partitioned.verify_eq
  bucket id b hid hview := by
    obtain ⟨c, m, hc⟩ := h.stores_bucket hid
    rw [Ledger.memory_of_written hc.page_eq, Option.getD_some, ← hc.capacity_eq, c.view_eq] at hview
    obtain rfl := Except.ok.inj hview
    rw [h.storedDirectory_eq]
    refine (t.proper_iff _ _ _).mpr ⟨hc.packed.overflow_eq_zero, fun pair hpair => ?_⟩
    rw [hc.entries_eq] at hpair
    exact of_decide_eq_true (List.mem_filter.mp hpair).2

end Stored

end HashIndex

end PagedIndex
