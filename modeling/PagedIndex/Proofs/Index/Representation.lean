import PagedIndex.Proofs.Bucket.Access
import PagedIndex.Proofs.Directory.Checked
import PagedIndex.Proofs.Index.Outline
import PagedIndex.Proofs.Index.Steps

namespace PagedIndex

variable {K V : Type}

theorem Distinct.sublist [DecidableEq V] {compare : K → K → Ordering} {pairs others : List (K × V)}
    (h : Distinct compare pairs) (hsub : others.Sublist pairs) : Distinct compare others :=
  List.Pairwise.sublist hsub h

theorem Distinct.concat [DecidableEq V] {compare : K → K → Ordering} {pairs : List (K × V)}
    (h : Distinct compare pairs) {key : K} {value : V}
    (hnew : pairs.any (matchesPair compare key value) = false) :
    Distinct compare (pairs ++ [(key, value)]) := by
  rw [List.any_eq_false] at hnew
  refine List.pairwise_append.mpr ⟨h, List.pairwise_singleton _ _,
    fun earlier hearlier later hlater => ?_⟩
  obtain rfl := List.mem_singleton.mp hlater
  exact Bool.eq_false_iff.mpr (hnew earlier hearlier)

namespace HashIndex

section Routed

variable (t : HashIndex K V) {d : Directory} {pairs : List (K × V)} {id : PageId}

-- The pairs whose bucket is page `id`.
def routed (d : Directory) (id : PageId) (pairs : List (K × V)) : List (K × V) :=
  pairs.filter fun pair => d.owner (t.hash pair.1) = id

variable {t} {key : K} {value : V}

theorem routed_concat_self : t.routed d (d.owner (t.hash key)) (pairs ++ [(key, value)]) =
    t.routed d (d.owner (t.hash key)) pairs ++ [(key, value)] := by
  simp [routed, List.filter_append]

theorem routed_concat_of_ne (h : id ≠ d.owner (t.hash key)) :
    t.routed d id (pairs ++ [(key, value)]) = t.routed d id pairs := by
  simp [routed, List.filter_append, Ne.symm h]

theorem routed_bucketAt (h : d.Partitioned) {i : Nat} (hi : i < d.size) :
    t.routed d (d.bucketAt i) pairs = (d.outline pairs).bucket t.policy i := by
  refine List.filter_congr fun pair _ => ?_
  rw [decide_eq_decide, h.owner_eq_iff _ hi, ← Directory.depthOf_of_lt hi]
  rfl

theorem routed_owner (h : d.Partitioned) (hash : UInt32) :
    t.routed d (d.owner hash) pairs = (d.outline pairs).bucket t.policy hash.toNat :=
  (routed_bucketAt h (d.route_lt_size hash)).trans
    (h.outline_sound.bucket_eq (h.together_route hash))

variable [DecidableEq V]

theorem finds_iff (h : d.Partitioned) (pair : K × V) :
    (d.outline pairs).finds t.policy key value pair = true ↔
      d.owner (t.hash pair.1) = d.owner (t.hash key) ∧
        matchesPair t.policy.order key value pair = true := by
  rw [h.owner_eq_owner_iff, Outline.finds, Bool.and_eq_true, decide_eq_true_iff, and_comm]
  rfl

theorem any_routed (h : d.Partitioned) (key : K) (value : V) :
    (t.routed d (d.owner (t.hash key)) pairs).any (matchesPair t.policy.order key value) =
      pairs.any ((d.outline pairs).finds t.policy key value) := by
  rw [routed, List.any_filter]
  congr 1
  funext pair
  rw [Bool.eq_iff_iff, finds_iff h, Bool.and_eq_true, decide_eq_true_iff]

theorem routed_eraseP_self (h : d.Partitioned) (key : K) (value : V) :
    t.routed d (d.owner (t.hash key)) (pairs.eraseP ((d.outline pairs).finds t.policy key value)) =
      (t.routed d (d.owner (t.hash key)) pairs).eraseP
        (matchesPair t.policy.order key value) := by
  rw [routed, routed, List.eraseP_filter]
  congr 2
  funext pair
  rw [Bool.eq_iff_iff, finds_iff h, Bool.and_eq_true, decide_eq_true_iff, and_comm]

theorem routed_eraseP_of_ne (h : d.Partitioned) (hid : id ≠ d.owner (t.hash key)) :
    t.routed d id (pairs.eraseP ((d.outline pairs).finds t.policy key value)) =
      t.routed d id pairs := by
  rcases List.exists_or_eq_self_of_eraseP ((d.outline pairs).finds t.policy key value) pairs with
    heq | ⟨erased, before, after, _, hfinds, hpairs, herased⟩
  · rw [heq]
  · have hout : d.owner (t.hash erased.1) ≠ id := by
      rw [((finds_iff h erased).mp hfinds).1]
      exact Ne.symm hid
    rw [herased, hpairs, routed, routed, List.filter_append, List.filter_append,
      List.filter_cons_of_neg (by simpa using hout)]

end Routed

end HashIndex

variable [FixedWidth K] [FixedWidth V]

namespace HashIndex

open PagePool

theorem does_readBucket {t : HashIndex K V} {σ γ : Type} [PagePool σ γ] [ReadablePool σ γ]
    {guards : List γ} {w : Ledger} {E : StoreError → Ledger → Prop}
    {b : Bucket K V} {P : Bucket K V → Ledger → Prop} {g : γ}
    (hcapacity : b.capacity = t.capacity) (hg : g ∈ guards)
    (hpage : w.memory (pageOf σ g) = some b.page) (h : P b w) :
    Does guards w (t.readBucket g : Op σ (Bucket K V)) P E := by
  refine (does_readPage hg hpage ⟨rfl, rfl⟩).step ?_
  refine does_liftM ?_ h
  rw [← hcapacity]
  exact b.view_eq

variable [DecidableEq V] (t : HashIndex K V) {S : Sheets} {d : Directory} {pairs : List (K × V)}
  {id : PageId}

-- Page `id` is a bucket with these pairs. The first `m` slots are occupied, none if there is no pair.
structure IsBucket (S : Sheets) (id : PageId) (pairs : List (K × V)) (b : Bucket K V) (m : Nat) :
    Prop where
  capacity_eq : b.capacity = t.capacity
  page_eq : S id = some (.written b.page)
  packed : b.Packed m
  entries_eq : b.entries = pairs
  blank : pairs = [] → m = 0
  distinct : Distinct t.policy.order pairs

def Stores (S : Sheets) (id : PageId) (pairs : List (K × V)) : Prop :=
  ∃ b m, t.IsBucket S id pairs b m

-- A sound directory sends every pair to the bucket that has it.
structure Routes (S : Sheets) (d : Directory) (pairs : List (K × V)) : Prop where
  partitioned : d.Partitioned
  tight : d.Tight
  vacant : d.Vacant
  apart (hash : UInt32) : d.owner hash ≠ t.directory
  stores (hash : UInt32) : t.Stores S (d.owner hash) (t.routed d (d.owner hash) pairs)

-- The pages stand for the list of pairs in the order in which they were inserted. A bucket has
-- those of its hashes, in the same order.
structure Represents (S : Sheets) (d : Directory) (pairs : List (K × V)) :
    Prop where
  directory : ∃ p, S t.directory = some (.written p) ∧ Directory.ofPage p = d
  routes : t.Routes S d pairs

-- The guards that are live beside the index are on other pages.
def Clear (σ : Type) {γ : Type} [PagePool σ γ] (d : Directory) (guards : List γ) : Prop :=
  ∀ g ∈ guards, PagePool.pageOf σ g ≠ t.directory ∧
    ∀ hash, PagePool.pageOf σ g ≠ d.owner hash

variable {t}

theorem Stores.congr {S' : Sheets} (h : t.Stores S id pairs) (hS : S' id = S id) :
    t.Stores S' id pairs := by
  obtain ⟨b, m, hb⟩ := h
  exact ⟨b, m, hb.capacity_eq, hS.trans hb.page_eq, hb.packed, hb.entries_eq, hb.blank, hb.distinct⟩

theorem Routes.congr {S' : Sheets} (h : t.Routes S d pairs)
    (hS : ∀ hash, S' (d.owner hash) = S (d.owner hash)) : t.Routes S' d pairs :=
  ⟨h.partitioned, h.tight, h.vacant, h.apart, fun hash => (h.stores hash).congr (hS hash)⟩

theorem Routes.stores_slot (h : t.Routes S d pairs) {i : Nat} (hi : i < d.size) :
    t.Stores S (d.bucketAt i) (t.routed d (d.bucketAt i) pairs) := by
  obtain ⟨hash, rfl⟩ := h.partitioned.exists_hash hi
  exact h.stores hash

-- A page that was not given out is no bucket.
theorem Routes.unused (h : t.Routes S d pairs) (hid : S id = none) (hash : UInt32) :
    d.owner hash ≠ id := by
  rintro rfl
  obtain ⟨b, m, hb⟩ := h.stores hash
  rw [hb.page_eq] at hid
  cases hid

theorem Represents.directory_ne (h : t.Represents S d pairs) (hid : S id = none) :
    id ≠ t.directory := by
  obtain ⟨p, hp, _⟩ := h.directory
  rintro rfl
  rw [hp] at hid
  cases hid

-- Nothing but pages that were written stands for an index.
theorem Represents.of_written {S' : Sheets} (h : t.Represents S d pairs)
    (hS : ∀ id p, S id = some (.written p) → S' id = some (.written p)) :
    t.Represents S' d pairs := by
  obtain ⟨p, hp, hd⟩ := h.directory
  refine ⟨⟨p, hS _ _ hp, hd⟩, h.routes.congr fun hash => ?_⟩
  obtain ⟨b, m, hb⟩ := h.routes.stores hash
  rw [hb.page_eq, hS _ _ hb.page_eq]

-- Beside the other guards, the one on the directory page is away from the buckets.
theorem Clear.buckets {σ γ : Type} [PagePool σ γ] {guards : List γ} (hclear : t.Clear σ d guards)
    (h : t.Routes S d pairs) {directory : γ} (hdirectory : PagePool.pageOf σ directory = t.directory) :
    ∀ g ∈ directory :: guards, ∀ hash, PagePool.pageOf σ g ≠ d.owner hash := by
  intro g hg hash
  rcases List.mem_cons.mp hg with rfl | hg
  · rw [hdirectory]
    exact Ne.symm (h.apart hash)
  · exact (hclear g hg).2 hash

-- The index has this outline, away from the pages under these guards.
def Depicts (t : HashIndex K V) (σ : Type) {γ : Type} [PagePool σ γ] (guards : List γ)
    (o : Outline K V) (w : Ledger) : Prop :=
  ∃ d pairs, d.outline pairs = o ∧ t.Represents w.sheets d pairs ∧ t.Clear σ d guards

-- The index stands for the list, away from the pages under these guards.
def Holds (t : HashIndex K V) (σ : Type) {γ : Type} [PagePool σ γ] (guards : List γ)
    (pairs : List (K × V)) (w : Ledger) : Prop :=
  ∃ d, t.Represents w.sheets d pairs ∧ t.Clear σ d guards

section Depicts

variable {σ γ : Type} [PagePool σ γ] {guards : List γ} {w : Ledger} {o : Outline K V}

theorem Represents.depicts (h : t.Represents w.sheets d pairs) (hclear : t.Clear σ d guards) :
    t.Depicts σ guards (d.outline pairs) w := ⟨d, pairs, rfl, h, hclear⟩

theorem Depicts.holds (h : t.Depicts σ guards o w) : t.Holds σ guards o.pairs w := by
  obtain ⟨d, pairs, rfl, hrepresents, hclear⟩ := h
  exact ⟨d, hrepresents, hclear⟩

theorem Depicts.sound (h : t.Depicts σ guards o w) : o.Sound := by
  obtain ⟨d, pairs, rfl, hrepresents, _⟩ := h
  exact hrepresents.routes.partitioned.outline_sound

theorem Depicts.capacity_pos (h : t.Depicts σ guards o w) : 0 < t.capacity := by
  obtain ⟨d, pairs, rfl, hrepresents, _⟩ := h
  obtain ⟨b, m, hb⟩ := hrepresents.routes.stores 0
  rw [← hb.capacity_eq]
  exact b.capacity_pos

theorem Holds.depicts (h : t.Holds σ guards pairs w) :
    ∃ o, o.pairs = pairs ∧ t.Depicts σ guards o w := by
  obtain ⟨d, hrepresents, hclear⟩ := h
  exact ⟨_, rfl, hrepresents.depicts hclear⟩

-- An outline tells nothing of calls that were refused.
theorem Depicts.refuse (h : t.Depicts σ guards o w) : t.Depicts σ guards o w.refuse := h

-- The name of an index does not matter to its pages.
theorem Depicts.rename (h : t.Depicts σ guards o w) (name : String) :
    ({ t with name } : HashIndex K V).Depicts σ guards o w := by
  obtain ⟨d, pairs, rfl, ⟨hdirectory, hroutes⟩, hclear⟩ := h
  refine ⟨d, pairs, rfl, ⟨hdirectory, hroutes.partitioned, hroutes.tight, hroutes.vacant,
    hroutes.apart, fun hash => ?_⟩, hclear⟩
  obtain ⟨b, m, hb⟩ := hroutes.stores hash
  exact ⟨b, m, hb.capacity_eq, hb.page_eq, hb.packed, hb.entries_eq, hb.blank, hb.distinct⟩

theorem Holds.rename (h : t.Holds σ guards pairs w) (name : String) :
    ({ t with name } : HashIndex K V).Holds σ guards pairs w := by
  obtain ⟨o, rfl, hdepicts⟩ := h.depicts
  exact (hdepicts.rename name).holds

end Depicts

section Change

variable {w : Ledger}

theorem Routes.write (h : t.Routes w.sheets d pairs) (p : Page) :
    t.Represents (w.put t.directory (d.writeTo p)).sheets d pairs :=
  ⟨⟨_, w.sheets_put_self _ _, Directory.ofPage_writeTo d p⟩,
    h.congr fun hash => w.sheets_put_of_ne _ _ (h.apart hash)⟩

-- The bucket of a key is changed, and the list as far as it concerns that bucket.
theorem Represents.put (h : t.Represents w.sheets d pairs) (key : K) {b : Bucket K V} {m : Nat}
    {pairs' : List (K × V)} (hcapacity : b.capacity = t.capacity) (hpacked : b.Packed m)
    (hblank : b.entries = [] → m = 0) (hdistinct : Distinct t.policy.order b.entries)
    (hself : b.entries = t.routed d (d.owner (t.hash key)) pairs')
    (hothers : ∀ id ≠ d.owner (t.hash key), t.routed d id pairs' = t.routed d id pairs) :
    t.Represents (w.put (d.owner (t.hash key)) b.page).sheets d pairs' := by
  obtain ⟨⟨p, hp, hd⟩, hroutes⟩ := h
  refine ⟨⟨p, ?_, hd⟩, ?_⟩
  · rw [w.sheets_put_of_ne _ _ (Ne.symm (hroutes.apart _)), hp]
  · refine ⟨hroutes.partitioned, hroutes.tight, hroutes.vacant, hroutes.apart, fun hash => ?_⟩
    by_cases hsame : d.owner hash = d.owner (t.hash key)
    · rw [hsame, ← hself]
      exact ⟨b, m, hcapacity, w.sheets_put_self _ _, hpacked, rfl, hblank, hdistinct⟩
    · rw [hothers _ hsame]
      exact (hroutes.stores hash).congr (w.sheets_put_of_ne _ _ hsame)

end Change

section Reading

variable {σ γ : Type} [PagePool σ γ] [ReadablePool σ γ] {guards : List γ} {w : Ledger}
  {E : StoreError → Ledger → Prop}

-- A bucket that is read under a guard of its own.
theorem does_withBucket {α : Type} {b : Bucket K V} {m : Nat} {f : Bucket K V → α}
    {P : α → Ledger → Prop} (hb : t.IsBucket w.sheets id pairs b m)
    (hclear : ∀ g ∈ guards, pageOf σ g ≠ id) (h : P (f b) w)
    (hrefused : ∀ e w', Refused (σ := σ) guards w e w' → E e w') :
    Does guards w (withPage id .shared fun g => return f (← t.readBucket g) : Op σ α) P E := by
  have hpage := Ledger.memory_of_written hb.page_eq
  refine Does.withPage hpage hclear (fun g hg _ => ?_) hrefused
  exact (does_readBucket hb.capacity_eq List.mem_cons_self (hg ▸ hpage) ⟨rfl, rfl⟩).step
    (does_pure h)

theorem does_readDirectory (h : t.Represents w.sheets d pairs) (hclear : t.Clear σ d guards) :
    Does guards w (t.readDirectory : Op σ Directory) (fun d' w' => d' = d ∧ w' = w)
      (Refused (σ := σ) guards w) := by
  obtain ⟨p, hp, rfl⟩ := h.directory
  have hpage := Ledger.memory_of_written hp
  refine Does.withPage hpage (fun g hg => (hclear g hg).1) (fun g hg _ => ?_) fun _ _ he => he
  exact (does_readPage List.mem_cons_self (hg ▸ hpage) ⟨rfl, rfl⟩).step (does_pure ⟨rfl, rfl⟩)

-- A lookup gives the values of the pairs with the key, in the order of the list.
theorem get_does {o : Outline K V} (h : t.Depicts σ guards o w) (key : K) :
    Does guards w (t.get key : Op σ (List V)) (fun values w' => values = o.get t.policy key ∧ w' = w)
      (Refused (σ := σ) guards w) := by
  obtain ⟨d, pairs, rfl, h, hclear⟩ := h
  obtain ⟨p, hp, rfl⟩ := h.directory
  obtain ⟨b, m, hb⟩ := h.routes.stores (t.hash key)
  have hpart := h.routes.partitioned
  have hpage := Ledger.memory_of_written hp
  have hread : Does guards w (withPage t.directory .shared readPage : Op σ Page)
      (fun page w' => page = p ∧ w' = w) (Refused (σ := σ) guards w) := by
    refine Does.withPage hpage (fun g hg => (hclear g hg).1) (fun g hg _ => ?_) fun _ _ he => he
    exact does_readPage List.mem_cons_self (hg ▸ hpage) ⟨rfl, rfl⟩
  refine hread.step ?_
  refine (does_liftM (hpart.bucketFor_eq (t.hash key)) ⟨rfl, rfl⟩).step ?_
  have hbucket := Ledger.memory_of_written hb.page_eq
  refine Does.withPage hbucket (fun g hg => (hclear g hg).2 _) (fun g hg _ => ?_) fun _ _ he => he
  refine (does_readBucket hb.capacity_eq List.mem_cons_self (hg ▸ hbucket) ⟨rfl, rfl⟩).step ?_
  refine does_liftM (b.checkedGet_eq _ key) ⟨?_, rfl⟩
  rw [b.get_eq_entries, hb.entries_eq, routed_owner hpart]
  rfl

theorem globalDepth_does {o : Outline K V} (h : t.Depicts σ guards o w) :
    Does guards w (t.globalDepth : Op σ Nat) (fun depth w' => depth = o.globalDepth ∧ w' = w)
      (Refused (σ := σ) guards w) := by
  obtain ⟨d, pairs, rfl, h, hclear⟩ := h
  have hdepth : (d.outline pairs).globalDepth = d.depth :=
    h.routes.partitioned.globalDepth_outline h.routes.tight
  exact (does_readDirectory h hclear).step (does_pure ⟨hdepth.symm, rfl⟩)

theorem bucketCount_does {o : Outline K V} (h : t.Depicts σ guards o w) :
    Does guards w (t.bucketCount : Op σ Nat) (fun count w' => count = o.bucketCount ∧ w' = w)
      (Refused (σ := σ) guards w) := by
  obtain ⟨d, pairs, rfl, h, hclear⟩ := h
  have hpart := h.routes.partitioned
  refine (does_readDirectory h hclear).step ?_
  refine (does_liftM hpart.checkedBucketIds_eq ⟨rfl, rfl⟩).step ?_
  exact does_pure ⟨hpart.bucketCount_outline.symm, rfl⟩

theorem globalDepth_ends {o : Outline K V} (h : t.Depicts σ guards o w) {s : σ}
    (hs : ReadablePool.Kept s guards w) : (t.globalDepth : Op σ Nat).Ends s <| Op.Answers
      (fun depth u => depth = o.globalDepth ∧ ReadablePool.Kept u guards w)
      fun e u => ¬ e.OfIndex ∧ ReadablePool.Kept u guards w.refuse := by
  refine Does.ends_reading ?_ hs
  let := ReadablePool.reading σ
  exact globalDepth_does h

theorem bucketCount_ends {o : Outline K V} (h : t.Depicts σ guards o w) {s : σ}
    (hs : ReadablePool.Kept s guards w) : (t.bucketCount : Op σ Nat).Ends s <| Op.Answers
      (fun count u => count = o.bucketCount ∧ ReadablePool.Kept u guards w)
      fun e u => ¬ e.OfIndex ∧ ReadablePool.Kept u guards w.refuse := by
  refine Does.ends_reading ?_ hs
  let := ReadablePool.reading σ
  exact bucketCount_does h

end Reading

theorem writeDirectory_does {σ γ : Type} [PagePool σ γ] [LawfulPool σ γ] {guards : List γ}
    {w : Ledger} {E : StoreError → Ledger → Prop} (h : t.Routes w.sheets d pairs) {p : Page}
    (hp : w.memory t.directory = some p) {g : γ} (hg : g ∈ guards) (hpage : pageOf σ g = t.directory)
    (haccess : ReadablePool.access σ g = .exclusive) :
    Does guards w (writeDirectory d g : Op σ Unit)
      (fun _ w' => t.Represents w'.sheets d pairs ∧ w'.refusals = w.refusals) E := by
  refine (does_readPage hg (hpage ▸ hp) ⟨rfl, rfl⟩).step ?_
  refine does_writePage hg haccess ?_
  rw [hpage]
  exact ⟨h.write p, rfl⟩

end HashIndex

end PagedIndex
