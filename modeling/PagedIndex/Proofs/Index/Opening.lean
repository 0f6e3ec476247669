import PagedIndex.Index.Report
import PagedIndex.Index.Verify
import PagedIndex.Proofs.Directory.Verdict
import PagedIndex.Proofs.Index.Representation

namespace PagedIndex.HashIndex

open PagePool

variable {K V : Type} [FixedWidth K] [FixedWidth V] {w : Ledger} {d : Directory}
  {pairs : List (K × V)} {σ γ : Type} [PagePool σ γ] {guards : List γ}

section Verify

variable [DecidableEq V] [ReadablePool σ γ] {t : HashIndex K V}

-- A key of a bucket is sent to it.
theorem verifyKey_eq {S : Sheets} (h : t.Routes S d pairs) {id : PageId} {pair : K × V}
    (hpair : pair ∈ t.routed d id pairs) : t.verifyKey d id pair.1 = .ok () := by
  have howner : d.owner (t.hash pair.1) = id := by
    simpa using (List.mem_filter.mp hpair).2
  rw [verifyKey, h.partitioned.slotOf_eq]
  change (d.bucket (d.route (t.hash pair.1)) >>= fun owner => _) = _
  rw [h.partitioned.bucket_eq (d.route_lt_size _)]
  change (if d.owner (t.hash pair.1) ≠ id then _ else _) = _
  rw [if_neg (not_not_intro howner)]
  rfl

theorem verifyBucket_does (h : t.Routes w.sheets d pairs) {hash : UInt32}
    (hclear : ∀ g ∈ guards, pageOf σ g ≠ d.owner hash) :
    Does guards w (t.verifyBucket d (d.owner hash) : Op σ Unit) (fun _ w' => w' = w)
      (Refused (σ := σ) guards w) := by
  obtain ⟨b, m, hb⟩ := h.stores hash
  have hbucket := Ledger.memory_of_written hb.page_eq
  refine Does.withPage hbucket hclear (fun g hpage _ => ?_) fun _ _ he => he
  refine (does_readBucket hb.capacity_eq List.mem_cons_self (hpage ▸ hbucket) ⟨rfl, rfl⟩).step ?_
  refine (does_liftM b.checkedOverflow_eq ⟨rfl, rfl⟩).step ?_
  rw [if_neg (by rw [hb.packed.overflow_eq_zero]; exact Nat.lt_irrefl 0)]
  refine (does_liftM b.checkedEntries_eq ⟨rfl, rfl⟩).step ?_
  refine does_forM _ fun pair hpair => ?_
  rw [hb.entries_eq] at hpair
  exact does_liftM (verifyKey_eq h hpair) rfl

theorem verify_does (h : t.Holds σ guards pairs w) :
    Does guards w (t.verify : Op σ Unit) (fun _ w' => w' = w) (Refused (σ := σ) guards w) := by
  obtain ⟨d, h, hclear⟩ := h
  have hpart := h.routes.partitioned
  have hpages : Does guards w (t.verifyPages d : Op σ Unit) (fun _ w' => w' = w)
      (Refused (σ := σ) guards w) := by
    refine (does_liftM hpart.verify_eq ⟨rfl, rfl⟩).step ?_
    refine (does_liftM hpart.checkedBucketIds_eq ⟨rfl, rfl⟩).step (does_forM _ fun id hid => ?_)
    obtain ⟨i, hi, rfl⟩ := (d.mem_bucketIds id).mp hid
    obtain ⟨hash, rfl⟩ := hpart.exists_hash hi
    exact verifyBucket_does h.routes fun g hg => (hclear g hg).2 hash
  unfold verify
  refine (does_readDirectory h hclear).step ?_
  refine hpages.attempt_bind (fun _ w' hw' => does_pure hw') fun e w' he => ?_
  exact (does_report ⟨rfl, rfl⟩).step (does_fail he)

-- One more handle on an index differs from the others in its name only.
theorem openAt_does (h : t.Holds σ guards pairs w) (name : String) {capacity? : Option Nat}
    (hcapacity : chooseCapacity K V capacity? = .ok t.capacity) :
    Does guards w (openAt name t.policy t.directory capacity? : Op σ (HashIndex K V))
      (fun t' w' => t' = { t with name } ∧ w' = w) (Refused (σ := σ) guards w) := by
  unfold openAt
  refine (does_liftM hcapacity ⟨rfl, rfl⟩).step ?_
  refine (verify_does (h.rename name)).bind fun _ w' hw' => ?_
  subst hw'
  exact does_pure ⟨rfl, rfl⟩

theorem reportSlot_does (h : t.Routes w.sheets d pairs) {slot : Nat} (hslot : slot < d.size)
    (hclear : ∀ g ∈ guards, ∀ hash, pageOf σ g ≠ d.owner hash) :
    Does guards w (t.reportSlot d slot : Op σ Unit) (fun _ w' => w' = w)
      (Refused (σ := σ) guards w) := by
  have hpart := h.partitioned
  obtain ⟨b, m, hb⟩ := h.stores_slot hslot
  have hbucket := Ledger.memory_of_written hb.page_eq
  refine (does_liftM (hpart.bucket_eq hslot) ⟨rfl, rfl⟩).step ?_
  refine Does.withPage hbucket (fun g hg => ?_) (fun g hpage _ => ?_) fun _ _ he => he
  · obtain ⟨hash, hhash⟩ := hpart.exists_hash hslot
    exact hhash ▸ hclear g hg hash
  · refine (does_readBucket hb.capacity_eq List.mem_cons_self (hpage ▸ hbucket) ⟨rfl, rfl⟩).step ?_
    exact (does_liftM (hpart.localDepth_eq hslot) ⟨rfl, rfl⟩).step (does_report rfl)

theorem reportDirectory_does (h : t.Holds σ guards pairs w) :
    Does guards w (t.reportDirectory : Op σ Unit) (fun _ w' => w' = w)
      (Refused (σ := σ) guards w) := by
  obtain ⟨d, h, hclear⟩ := h
  refine (does_readDirectory h hclear).step ?_
  refine (does_report ⟨rfl, rfl⟩).step ((does_report ⟨rfl, rfl⟩).step ?_)
  refine (does_liftM h.routes.partitioned.checkedSize_eq ⟨rfl, rfl⟩).step ?_
  refine does_forM _ fun slot hslot => reportSlot_does h.routes ?_ fun g hg => (hclear g hg).2
  exact (List.mem_range.mp hslot).trans_le (Nat.min_le_left _ _)

end Verify

-- The capacity asked for, or else the most that a page has room for.
theorem chooseCapacity_spec (capacity? : Option Nat) :
    (∃ n, chooseCapacity K V capacity? = .ok n ∧ n ≤ Bucket.maxSlots K V ∧
        (n = 0 → Bucket.maxSlots K V = 0)) ∨
      ∃ e : StoreError, chooseCapacity K V capacity? = .error (.error e) ∧ ¬ e.OfIndex := by
  cases capacity? with
  | none => exact Or.inl ⟨_, rfl, le_refl _, id⟩
  | some n =>
    rw [chooseCapacity]
    by_cases hn : 0 < n ∧ n ≤ Bucket.maxSlots K V
    · rw [if_pos hn]
      exact Or.inl ⟨n, rfl, hn.2, fun hzero => absurd hzero hn.1.ne'⟩
    · rw [if_neg hn]
      exact Or.inr ⟨_, rfl, id⟩

section Create

variable [DecidableEq V] [LawfulPool σ γ] {t : HashIndex K V}

-- A directory page and one empty bucket.
theorem does_writeSingle {b : Bucket K V} {id : PageId} (hcapacity : b.capacity = t.capacity)
    {p : Page} (hp : w.memory t.directory = some p) (hb : w.sheets id = some (.written b.clear.page))
    (hid : id ≠ PageId.invalid) (hne : id ≠ t.directory) {g : γ} (hg : g ∈ guards)
    (hpage : pageOf σ g = t.directory) (haccess : ReadablePool.access σ g = .exclusive)
    {E : StoreError → Ledger → Prop} :
    Does guards w (writeDirectory (.single id) g : Op σ Unit)
      (fun _ w' => t.Represents w'.sheets (.single id) [] ∧ w'.refusals = w.refusals) E := by
  obtain ⟨hpacked, hnil⟩ := Bucket.Packed.clear b
  refine writeDirectory_does ⟨Directory.partitioned_single hid, Directory.tight_single id,
    Directory.vacant_single id, fun hash => ?_, fun hash => ?_⟩ hp hg hpage haccess
  · rw [Directory.owner_single]
    exact hne
  · rw [Directory.owner_single]
    exact ⟨b.clear, 0, hcapacity, hb, hpacked, hnil, fun _ => rfl, List.Pairwise.nil⟩

-- A new index is what was asked for, and has no pairs.
structure Created (t : HashIndex K V) (σ : Type) {γ : Type} [PagePool σ γ] (guards : List γ)
    (name : String) (policy : KeyPolicy K) (capacity? : Option Nat) (w : Ledger) : Prop where
  name_eq : t.name = name
  policy_eq : t.policy = policy
  capacity_eq : chooseCapacity K V capacity? = .ok t.capacity
  depicts : t.Depicts σ guards Outline.empty w

-- What came of the pages for a new index.
def CreatedOr (σ : Type) {γ : Type} [PagePool σ γ] (guards : List γ) (name : String)
    (policy : KeyPolicy K) (capacity? : Option Nat) (w w' : Ledger) :
    Except StoreError (HashIndex K V) → Prop
  | .ok t => t.Created σ guards name policy capacity? w' ∧ w'.refusals = w.refusals
  | .error e => ¬ e.OfIndex ∧ w.refusals < w'.refusals

-- The first bucket of an index, of which there is a blank directory page under a guard.
theorem createBucket_does {directory : γ} (hroom : 0 < t.capacity ∨ ∀ s : σ, ReadablePool.Spent s)
    (hle : t.capacity ≤ Bucket.maxSlots K V) (hdpage : pageOf σ directory = t.directory)
    (hdaccess : ReadablePool.access σ directory = .exclusive)
    (hdblank : w.sheets t.directory = some .blank)
    (hdother : ∀ g ∈ guards, pageOf σ g ≠ t.directory) :
    Does (directory :: guards) w
      (withNewPage fun (bucket : γ) => do
        writePage bucket (← t.readBucket bucket).clear.page
        writeDirectory (.single (pageOf σ bucket)) directory
        Op.report (.indexCreated t.name t.directory t.capacity)
        return t : Op σ (HashIndex K V))
      (fun t' w' => t' = t ∧ t.Depicts σ guards Outline.empty w' ∧ w'.refusals = w.refusals)
      (fun e w' => ¬ e.OfIndex ∧ w.refusals < w'.refusals) := by
  refine Does.withNewPage (fun bucket hbaccess _ hvalid hbother => ?_) fun e w' he => ?_
  · have hblank := Ledger.memory_of_blank (w.sheets_allot_self (pageOf σ bucket))
    by_cases hcapacity : 0 < t.capacity
    swap
    · refine Does.bind (P := fun _ _ => False) ((does_readPage List.mem_cons_self hblank
        ⟨rfl, rfl⟩).step (does_abort (dif_neg fun hand => hcapacity hand.1)
          (hroom.resolve_left hcapacity))) fun _ _ hfalse => hfalse.elim
    let b : Bucket K V := ⟨Page.zero, t.capacity, hcapacity, hle, _, rfl⟩
    have hne : pageOf σ bucket ≠ t.directory := hdpage ▸ Ne.symm (hbother directory List.mem_cons_self)
    refine (does_readBucket (b := b) rfl List.mem_cons_self hblank ⟨rfl, rfl⟩).step ?_
    refine (does_writePage List.mem_cons_self hbaccess ⟨rfl, rfl⟩).step ?_
    refine (does_writeSingle (b := b) (p := Page.zero) rfl (Ledger.memory_of_blank ?_)
      (Ledger.sheets_put_self _ _ _) hvalid hne (List.mem_cons_of_mem _ List.mem_cons_self) hdpage
      hdaccess).bind fun _ w' hw' => ?_
    · rw [Ledger.sheets_put_of_ne _ _ _ (Ne.symm hne), Ledger.sheets_allot_of_ne _ _ (Ne.symm hne),
        hdblank]
    refine (does_report ⟨rfl, rfl⟩).step ?_
    refine does_pure ⟨rfl, ?_, hw'.2⟩
    rw [← Directory.outline_single (pageOf σ bucket)]
    refine hw'.1.depicts fun g hg => ⟨hdother g hg, fun hash => ?_⟩
    rw [Directory.owner_single]
    exact hbother g (List.mem_cons_of_mem _ hg)
  · obtain ⟨herror, rfl, _⟩ := he
    exact ⟨herror, Nat.lt_succ_self _⟩

-- An index is not created if the capacity does not do, or else because a page was refused. With no
-- room for a single pair it aborts at its first bucket.
theorem create_does (name : String) (policy : KeyPolicy K) (capacity? : Option Nat)
    (hroom : (∀ n, chooseCapacity K V capacity? = .ok n → 0 < n) ∨
      ∀ s : σ, ReadablePool.Spent s) :
    Does guards w (create name policy capacity? : Op σ (HashIndex K V))
      (fun t w' => t.Created σ guards name policy capacity? w' ∧ w'.refusals = w.refusals)
      (fun e w' => ¬ e.OfIndex ∧
        (chooseCapacity K V capacity? = .error (.error e) ∨ w.refusals < w'.refusals)) := by
  unfold create
  rcases chooseCapacity_spec (K := K) (V := V) capacity? with
    ⟨capacity, hchoose, hle, _⟩ | ⟨e, hchoose, he⟩
  swap
  · exact (does_liftM_error (P := fun _ _ => False) hchoose ⟨he, Or.inl hchoose⟩).bind
      fun _ _ hfalse => hfalse.elim
  refine (does_liftM hchoose ⟨rfl, rfl⟩).step ?_
  refine Does.bind (P := fun answer w' => CreatedOr σ guards name policy capacity? w w' answer.2)
    (Does.withNewPage (fun directory hdaccess _ _ hdother => ?_) fun e w' he => ?_)
    fun answer w₁ hcreated => ?_
  · refine (createBucket_does (t := ⟨name, policy, pageOf σ directory, capacity⟩)
      (hroom.imp_left fun hpos => hpos capacity hchoose) hle rfl hdaccess
      (w.sheets_allot_self (pageOf σ directory)) hdother).attempt_bind (fun t w' ht => ?_)
      fun e w' he => does_pure he
    obtain ⟨rfl, hdepicts, hrefusals⟩ := ht
    exact does_pure ⟨⟨rfl, rfl, hchoose, hdepicts⟩, hrefusals⟩
  · obtain ⟨herror, rfl, _⟩ := he
    exact ⟨herror, Or.inr (Nat.lt_succ_self _)⟩
  · obtain ⟨directory, created⟩ := answer
    cases created with
    | ok t => exact does_pure hcreated
    | error e =>
      refine Does.bind (P := fun _ w' => w' = w₁) (Does.discard (does_delete (fun _ => rfl)
        fun e' he' => ?_)) fun _ w' hw' => ?_
      · exact ⟨he', Or.inr hcreated.2⟩
      · subst hw'
        exact does_fail ⟨hcreated.1, Or.inr hcreated.2⟩

theorem create_ends (name : String) (policy : KeyPolicy K) (capacity? : Option Nat) {s : σ}
    (hs : ReadablePool.Kept s guards w) :
    (create name policy capacity? : Op σ (HashIndex K V)).Ends s <| Op.AnswersOr (fun _ => True)
      (fun t u => ∃ w', ReadablePool.Kept u guards w' ∧
        t.Created σ guards name policy capacity? w' ∧ w'.refusals = w.refusals)
      fun e u => ∃ w', ReadablePool.Kept u guards w' ∧ ¬ e.OfIndex ∧
        (chooseCapacity K V capacity? = .error (.error e) ∨ w.refusals < w'.refusals) := by
  refine Does.ends_aborting ?_ hs
  let := LawfulPool.aborting σ
  exact create_does name policy capacity? (Or.inr fun _ => trivial)

end Create

end PagedIndex.HashIndex
