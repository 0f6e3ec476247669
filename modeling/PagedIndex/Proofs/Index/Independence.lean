import PagedIndex.Proofs.Index.Supply

namespace PagedIndex

-- An operation answers if no page is refused in it.
theorem PagePool.Does.answers_of_unrefused {σ γ α : Type} [PagePool σ γ] [LawfulPool σ γ]
    {guards : List γ} {w : Ledger} {x : Op (Tallied σ) α} {P : α → Ledger → Prop}
    {E : StoreError → Ledger → Prop} (h : Does guards w x P E)
    (hE : ∀ e w', E e w' → w.refusals < w'.refusals) {v : Tallied σ}
    (hv : ReadablePool.Kept v guards w) (hnone : (x v).state.refusals = 0) :
    ∃ a w', (x v).result = .ok a ∧ w'.refusals = 0 ∧ P a w' := by
  have hends := h v hv
  rw [Op.Ends] at hends
  cases hr : (x v).result using Checked.outcomes with
  | ok a =>
    rw [hr] at hends
    obtain ⟨w', hw', ha⟩ := hends
    exact ⟨a, w', rfl, hw'.2.trans hnone, ha⟩
  | error e =>
    rw [hr] at hends
    obtain ⟨w', hw', he⟩ := hends
    have hless := hE e w' he
    have hcount : w'.refusals = 0 := hw'.2.trans hnone
    omega
  | abort a =>
    rw [hr] at hends
    exact absurd hnone (Nat.ne_of_gt hends.2)

-- What an index is asked.
inductive IndexQuery (K V : Type)
  | call (call : IndexCall K V)
  | globalDepth
  | bucketCount

namespace IndexQuery

variable {K V : Type} [DecidableEq V]

-- The queries that change no page.
def Reads : IndexQuery K V → Prop
  | call c => c.Reads
  | globalDepth | bucketCount => True

-- What a query does to an outline if no page is refused.
def apply (policy : KeyPolicy K) (capacity : Nat) : IndexQuery K V → Outline K V →
    Except StoreError (IndexAnswer V ⊕ Nat) × Outline K V
  | call c, o => (c.apply policy capacity o).map (Except.map .inl) id
  | globalDepth, o => (.ok (.inr o.globalDepth), o)
  | bucketCount, o => (.ok (.inr o.bucketCount), o)

-- What the queries answer that change no page.
def answer (policy : KeyPolicy K) (o : Outline K V) : IndexQuery K V → IndexAnswer V ⊕ Nat
  | call (.get key) => .inl (.values (o.get policy key))
  | call _ => .inl .done
  | globalDepth => .inr o.globalDepth
  | bucketCount => .inr o.bucketCount

theorem apply_reads {query : IndexQuery K V} (hreads : query.Reads) (policy : KeyPolicy K)
    (capacity : Nat) (o : Outline K V) :
    query.apply policy capacity o = (.ok (query.answer policy o), o) := by
  cases query with
  | call c => cases c <;> first | rfl | exact hreads.elim
  | globalDepth => rfl
  | bucketCount => rfl

-- The answers to queries that are made one after the other.
def applyAll (policy : KeyPolicy K) (capacity : Nat) : List (IndexQuery K V) → Outline K V →
    List (Except StoreError (IndexAnswer V ⊕ Nat))
  | [], _ => []
  | query :: queries, o =>
    let (answer, o') := query.apply policy capacity o
    answer :: applyAll policy capacity queries o'

variable [FixedWidth K] [FixedWidth V] {σ γ : Type} [PagePool σ γ]

def Legal (t : HashIndex K V) : IndexQuery K V → Prop
  | call c => c.Legal t
  | _ => True

def run (t : HashIndex K V) : IndexQuery K V → Op σ (IndexAnswer V ⊕ Nat)
  | call c => .inl <$> c.run t
  | globalDepth => .inr <$> t.globalDepth
  | bucketCount => .inr <$> t.bucketCount

def runAll (t : HashIndex K V) : List (IndexQuery K V) →
    Op σ (List (Except StoreError (IndexAnswer V ⊕ Nat)))
  | [] => return []
  | query :: queries => do
    let answer ← Op.attempt (query.run t)
    return answer :: (← runAll t queries)

-- A new index, and the queries that are made to it.
def transcript (name : String) (policy : KeyPolicy K) (capacity? : Option Nat)
    (queries : List (IndexQuery K V)) :
    Op σ (List (Except StoreError (IndexAnswer V ⊕ Nat))) := do
  runAll (← HashIndex.create name policy capacity?) queries

-- The same without a pool.
def transcriptOf (policy : KeyPolicy K) (capacity? : Option Nat)
    (queries : List (IndexQuery K V)) :
    Checked (List (Except StoreError (IndexAnswer V ⊕ Nat))) := do
  return applyAll policy (← HashIndex.chooseCapacity K V capacity?) queries Outline.empty

variable {t : HashIndex K V} {o : Outline K V} {w : Ledger} {guards : List γ}

section Reading

variable [ReadablePool σ γ]

-- A query that reads is answered from the outline, unless a page is refused.
theorem run_reads (h : t.Depicts σ guards o w) {query : IndexQuery K V} (hreads : query.Reads)
    (hlegal : query.Legal t) :
    PagePool.Does guards w (query.run t : Op σ (IndexAnswer V ⊕ Nat))
      (fun a w' => a = query.answer t.policy o ∧ w' = w) (PagePool.Refused (σ := σ) guards w) := by
  cases query with
  | call c =>
    refine PagePool.Does.map ((c.run_reads h hreads hlegal).mono (fun a w' ha => ?_)
      fun _ _ he => he)
    obtain ⟨happly, rfl⟩ := ha
    have hanswer : (call c).apply t.policy t.capacity o = (.ok ((call c).answer t.policy o), o) :=
      apply_reads hreads _ _ _
    rw [apply, happly] at hanswer
    exact ⟨Except.ok.inj (congrArg Prod.fst hanswer), rfl⟩
  | globalDepth =>
    exact PagePool.Does.map ((HashIndex.globalDepth_does h).mono
      (fun _ _ hdepth => ⟨by rw [hdepth.1]; rfl, hdepth.2⟩) fun _ _ he => he)
  | bucketCount =>
    exact PagePool.Does.map ((HashIndex.bucketCount_does h).mono
      (fun _ _ hcount => ⟨by rw [hcount.1]; rfl, hcount.2⟩) fun _ _ he => he)

-- The queries change nothing, so each is answered as if it were the first.
theorem runAll_reads (hrefuses : ¬ ReadablePool.Refuses σ guards) (h : t.Depicts σ guards o w)
    (queries : List (IndexQuery K V)) (hqueries : ∀ query ∈ queries, query.Reads ∧ query.Legal t)
    {E : StoreError → Ledger → Prop} :
    PagePool.Does guards w (runAll t queries : Op σ _) (fun answers w' =>
      answers = queries.map (fun query => .ok (query.answer t.policy o)) ∧ w' = w) E := by
  induction queries with
  | nil => exact PagePool.does_pure ⟨rfl, rfl⟩
  | cons query queries ih =>
    obtain ⟨hreads, hlegal⟩ := hqueries query List.mem_cons_self
    refine (run_reads h hreads hlegal).attempt_bind (fun a w' ha => ?_)
      fun e w' he => absurd he.2.2 hrefuses
    obtain ⟨rfl, rfl⟩ := ha
    exact (ih fun other hother => hqueries other (List.mem_cons_of_mem _ hother)).step
      (PagePool.does_pure ⟨rfl, rfl⟩)

end Reading

variable [RoundTrip K] [RoundTrip V] [LawfulPool σ γ]

-- A query was answered so, if no page was refused in it.
def Answered (t : HashIndex K V) (o : Outline K V) (w : Ledger) (query : IndexQuery K V)
    (r : Except StoreError (IndexAnswer V ⊕ Nat)) (o' : Outline K V) (w' : Ledger) : Prop :=
  w.refusals ≤ w'.refusals ∧
    (w'.refusals = w.refusals → query.apply t.policy t.capacity o = (r, o'))

theorem run_does (h : t.Depicts σ guards o w) (query : IndexQuery K V)
    (hlegal : query.Legal t) :
    PagePool.Does guards w (query.run t : Op σ (IndexAnswer V ⊕ Nat))
      (fun a w' => ∃ o', t.Depicts σ guards o' w' ∧ query.Answered t o w (.ok a) o' w')
      (fun e w' => ∃ o', t.Depicts σ guards o' w' ∧ query.Answered t o w (.error e) o' w') := by
  have hreading (hreads : query.Reads) :
      PagePool.Does guards w (query.run t : Op σ (IndexAnswer V ⊕ Nat))
        (fun a w' => ∃ o', t.Depicts σ guards o' w' ∧ query.Answered t o w (.ok a) o' w')
        (fun e w' => ∃ o', t.Depicts σ guards o' w' ∧ query.Answered t o w (.error e) o' w') := by
    refine (run_reads h hreads hlegal).mono (fun a w' ha => ?_) fun e w' he => ?_
    · obtain ⟨rfl, rfl⟩ := ha
      exact ⟨o, h, le_refl _, fun _ => apply_reads hreads _ _ _⟩
    · obtain ⟨_, rfl, _⟩ := he
      exact ⟨o, h.refuse, Nat.le_succ _, fun heq => absurd heq (Nat.succ_ne_self _)⟩
  cases query with
  | call c =>
    have hended {r : Except StoreError (IndexAnswer V)} {o' : Outline K V} {w' : Ledger}
        (hr : c.Ended t o w r o' w') : (call c).Answered t o w (r.map .inl) o' w' := by
      rcases hr with ⟨hrefusals, happly⟩ | ⟨hless, _⟩
      · exact ⟨hrefusals.ge, fun _ => by rw [apply, happly]; rfl⟩
      · exact ⟨hless.le, fun heq => absurd heq hless.ne'⟩
    refine PagePool.Does.map ((c.run_ends h hlegal).mono (fun a w' ha => ?_) fun e w' he => ?_)
    · obtain ⟨o', hdepicts, hr⟩ := ha
      exact ⟨o', hdepicts, hended hr⟩
    · obtain ⟨o', hdepicts, hr⟩ := he
      exact ⟨o', hdepicts, hended hr⟩
  | globalDepth => exact hreading trivial
  | bucketCount => exact hreading trivial

-- After a query that returns there is an index still.
theorem run_returns (h : t.Depicts σ guards o w) {s : σ} (hs : ReadablePool.Kept s guards w)
    (name : String) (query : IndexQuery K V) (hlegal : query.Legal t)
    (hreturns : (query.run { t with name } s).result.Returns) :
    ∃ w' o', ReadablePool.Kept (query.run { t with name } s).state guards w' ∧
      t.Depicts σ guards o' w' := by
  obtain ⟨w', r, _, hw', hanswered⟩ :=
    (run_does (h.rename name) query (by cases query <;> exact hlegal)).returns hs hreturns
  cases r with
  | ok a =>
    obtain ⟨o', hdepicts, _⟩ := hanswered
    exact ⟨w', o', hw', hdepicts.rename t.name⟩
  | error e =>
    obtain ⟨o', hdepicts, _⟩ := hanswered
    exact ⟨w', o', hw', hdepicts.rename t.name⟩

theorem runAll_does (h : t.Depicts σ guards o w) (queries : List (IndexQuery K V))
    (hlegal : ∀ query ∈ queries, query.Legal t) {E : StoreError → Ledger → Prop} :
    PagePool.Does guards w (runAll t queries : Op σ _)
      (fun answers w' => w.refusals ≤ w'.refusals ∧
        (w'.refusals = w.refusals → answers = applyAll t.policy t.capacity queries o)) E := by
  induction queries generalizing w o with
  | nil => exact PagePool.does_pure ⟨le_refl _, fun _ => rfl⟩
  | cons query queries ih =>
    have hrest {o' : Outline K V} {w' : Ledger} (r : Except StoreError (IndexAnswer V ⊕ Nat))
        (h' : t.Depicts σ guards o' w') (hanswered : query.Answered t o w r o' w') :
        PagePool.Does guards w' (do return r :: (← runAll t queries) : Op σ _)
          (fun answers w' => w.refusals ≤ w'.refusals ∧ (w'.refusals = w.refusals →
            answers = applyAll t.policy t.capacity (query :: queries) o)) E := by
      refine (ih h' fun query hquery =>
        hlegal query (List.mem_cons_of_mem _ hquery)).bind fun answers w'' hanswers => ?_
      obtain ⟨hle, hanswers⟩ := hanswers
      obtain ⟨hle', hanswer⟩ := hanswered
      refine PagePool.does_pure ⟨hle'.trans hle, fun heq => ?_⟩
      have hsame : w'.refusals = w.refusals := Nat.le_antisymm (heq ▸ hle) hle'
      rw [applyAll, hanswer hsame, hanswers (heq.trans hsame.symm)]
    refine (run_does h query (hlegal query List.mem_cons_self)).attempt_bind
      (fun a w' ha => ?_) fun e w' he => ?_
    · obtain ⟨o', hdepicts, hanswered⟩ := ha
      exact hrest _ hdepicts hanswered
    · obtain ⟨o', hdepicts, hanswered⟩ := he
      exact hrest _ hdepicts hanswered

theorem transcript_does (name : String) (policy : KeyPolicy K) {capacity? : Option Nat}
    (hroom : ∀ n, HashIndex.chooseCapacity K V capacity? = .ok n → 0 < n)
    {queries : List (IndexQuery K V)} (hlegal : ∀ t : HashIndex K V,
      HashIndex.chooseCapacity K V capacity? = .ok t.capacity →
        ∀ query ∈ queries, query.Legal t) :
    PagePool.Does guards w (transcript name policy capacity? queries : Op σ _)
      (fun answers w' => w'.refusals = w.refusals →
        transcriptOf policy capacity? queries = .ok answers)
      (fun e w' => w'.refusals = w.refusals →
        transcriptOf policy capacity? queries = .error (.error e)) := by
  unfold transcript
  refine PagePool.Does.bind ((HashIndex.create_does name policy capacity? (Or.inl hroom)).mono
    (fun _ _ ht => ht) fun e w' he heq => ?_) fun t w₁ ht => ?_
  · rw [transcriptOf, he.2.resolve_right heq.not_gt]
    rfl
  · obtain ⟨⟨rfl, rfl, hcapacity, hdepicts⟩, hrefusals⟩ := ht
    refine (runAll_does hdepicts queries (hlegal t hcapacity)).mono
      (fun answers w₂ hanswers heq => ?_) fun _ _ he => he
    rw [transcriptOf, hcapacity, hanswers.2 (heq.trans hrefusals.symm)]
    rfl

section Pools

variable {n : Nat} {D : Type} [PageStore D] [LawfulStore D] {m : Mounted (Pool n) D}
  {guards : List (Guard n)} {M : Memory}

theorem kept_tallied (h : Pool.Reached n m guards M) :
    ReadablePool.Kept (⟨m, 0⟩ : Tallied (Mounted (Pool n) D)) guards (Ledger.ofMemory M 0) :=
  ⟨h.kept.ofMemory 0, rfl⟩

variable {name : String} {policy : KeyPolicy K} {capacity? : Option Nat}
  {queries : List (IndexQuery K V)}

section Room

omit [RoundTrip K] [RoundTrip V]

-- Without room for a single pair no index is created.
theorem not_returns_of_no_room (h : Pool.Reached n m guards M)
    (hroom : HashIndex.chooseCapacity K V capacity? = .ok 0) :
    let r := transcript name policy capacity? queries (⟨m, 0⟩ : Tallied (Mounted (Pool n) D))
    r.state.refusals = 0 → ¬ r.result.Returns := by
  have hends : (transcript name policy capacity? queries : Op (Tallied (Mounted (Pool n) D)) _).Ends
      ⟨m, 0⟩ fun r u => u.refusals = 0 → ¬ r.Returns := by
    rw [transcript, Op.ends_bind]
    refine (HashIndex.create_ends (V := V) name policy capacity? (kept_tallied h)).mono
      fun r u hr => ?_
    cases r using Checked.outcomes with
    | ok t =>
      obtain ⟨w, hw, hcreated, _⟩ := hr
      have hpos := hcreated.depicts.capacity_pos
      rw [← Except.ok.inj (hroom.symm.trans hcreated.capacity_eq)] at hpos
      exact absurd hpos (Nat.lt_irrefl 0)
    | error e =>
      obtain ⟨w, hw, _, hchoose | hless⟩ := hr
      · cases hroom.symm.trans hchoose
      · exact fun hrefusals => absurd (hw.2.trans hrefusals) (Nat.ne_of_gt hless)
    | abort a => exact fun _ hreturns => hreturns a rfl
  exact hends

end Room

-- On a pool that refused no page the answers are those that are had without a pool.
theorem transcript_eq (h : Pool.Reached n m guards M)
    (hroom : ∀ n, HashIndex.chooseCapacity K V capacity? = .ok n → 0 < n)
    (hlegal : ∀ t : HashIndex K V, HashIndex.chooseCapacity K V capacity? = .ok t.capacity →
      ∀ query ∈ queries, query.Legal t) :
    let r := transcript name policy capacity? queries (⟨m, 0⟩ : Tallied (Mounted (Pool n) D))
    r.state.refusals = 0 →
      r.result.Returns ∧ r.result = transcriptOf policy capacity? queries := by
  intro r hrefusals
  have hends := transcript_does name policy hroom hlegal _ (kept_tallied h)
  rw [Op.Ends] at hends
  cases hr : r.result using Checked.outcomes with
  | ok answers =>
    rw [hr] at hends
    obtain ⟨w, hw, hanswers⟩ := hends
    exact ⟨nofun, (hanswers (hw.2.trans hrefusals)).symm⟩
  | error e =>
    rw [hr] at hends
    obtain ⟨w, hw, herror⟩ := hends
    exact ⟨nofun, (herror (hw.2.trans hrefusals)).symm⟩
  | abort a =>
    rw [hr] at hends
    exact absurd hrefusals (Nat.ne_of_gt hends.2)

-- Two pools that refuse no page are not told apart.
theorem transcript_eq_transcript {n' : Nat} {D' : Type} [PageStore D'] [LawfulStore D']
    {m' : Mounted (Pool n') D'} {guards' : List (Guard n')} {M' : Memory}
    (h : Pool.Reached n m guards M) (h' : Pool.Reached n' m' guards' M') (name name' : String)
    (policy : KeyPolicy K) (capacity? : Option Nat) (queries : List (IndexQuery K V))
    (hlegal : ∀ t : HashIndex K V, HashIndex.chooseCapacity K V capacity? = .ok t.capacity →
      ∀ query ∈ queries, query.Legal t) :
    let r := transcript name policy capacity? queries (⟨m, 0⟩ : Tallied (Mounted (Pool n) D))
    let r' := transcript name' policy capacity? queries (⟨m', 0⟩ : Tallied (Mounted (Pool n') D'))
    r.state.refusals = 0 → r'.state.refusals = 0 →
      r.result.Returns ∧ r.result = r'.result ∨
        Bucket.maxSlots K V = 0 ∧ ¬ r.result.Returns ∧ ¬ r'.result.Returns := by
  intro r r' hrefusals hrefusals'
  by_cases hroom : ∀ n, HashIndex.chooseCapacity K V capacity? = .ok n → 0 < n
  · obtain ⟨hreturns, heq⟩ := transcript_eq h hroom hlegal hrefusals
    obtain ⟨_, heq'⟩ := transcript_eq h' hroom hlegal hrefusals'
    exact Or.inl ⟨hreturns, heq.trans heq'.symm⟩
  · simp only [not_forall, Nat.not_lt, Nat.le_zero] at hroom
    obtain ⟨_, hchoose, rfl⟩ := hroom
    have hslots : Bucket.maxSlots K V = 0 := by
      rcases HashIndex.chooseCapacity_spec (K := K) (V := V) capacity? with
        ⟨n, hn, _, hzero⟩ | ⟨e, he, _⟩
      · exact hzero (Except.ok.inj (hn.symm.trans hchoose))
      · cases he.symm.trans hchoose
    exact Or.inr ⟨hslots, not_returns_of_no_room h hchoose hrefusals,
      not_returns_of_no_room h' hchoose hrefusals'⟩

end Pools

section Narrow

-- The page ids that a query takes at most.
def ids : IndexQuery K V → Nat
  | call c => c.ids
  | globalDepth | bucketCount => 0

section Draws

open PagePool

variable [SuppliedPool σ γ]

omit [RoundTrip K] [RoundTrip V] [LawfulPool σ γ]

theorem run_draws (t : HashIndex K V) (query : IndexQuery K V) :
    Draws query.ids (query.run t : Op σ _) := by
  cases query with
  | call c => exact (c.run_draws t).map _
  | globalDepth => exact t.globalDepth_draws.map _
  | bucketCount => exact t.bucketCount_draws.map _

theorem runAll_draws (t : HashIndex K V) (queries : List (IndexQuery K V)) :
    Draws (queries.map ids).sum (runAll t queries : Op σ _) := by
  induction queries with
  | nil => exact draws_pure []
  | cons query queries ih =>
    exact (run_draws t query).attempt.bind fun _ => ih.last fun _ => draws_pure _

theorem transcript_draws (name : String) (policy : KeyPolicy K) (capacity? : Option Nat)
    (queries : List (IndexQuery K V)) :
    Draws (2 + (queries.map ids).sum) (transcript name policy capacity? queries : Op σ _) :=
  (HashIndex.create_draws name policy capacity?).bind fun t => runAll_draws t queries

end Draws

-- The narrow pool refuses no page as long as it has ids.
theorem refusals_transcript_narrow {n : Nat} (hn : n < 4294967296) (name : String)
    (policy : KeyPolicy K) {capacity? : Option Nat}
    (hroom : ∀ n, HashIndex.chooseCapacity K V capacity? = .ok n → 0 < n)
    (queries : List (IndexQuery K V)) (hids : 1 + (2 + (queries.map ids).sum) < n)
    (hlegal : ∀ t : HashIndex K V, HashIndex.chooseCapacity K V capacity? = .ok t.capacity →
      ∀ query ∈ queries, query.Legal t) :
    (transcript name policy capacity? queries
      (⟨Pool.narrow n, 0⟩ : Tallied (Mounted (Pool n) MemoryStore))).state.refusals = 0 := by
  have hpos : 0 < n := by omega
  let := Pool.narrowPool hpos hn
  have hspent {v : Tallied (Mounted (Pool n) MemoryStore)} (h : ReadablePool.Spent v) :
      ¬ SuppliedPool.Supplies 1 v := Pool.Spent.not_supplies h.1
  have hkept : ReadablePool.Kept (⟨Pool.narrow n, 0⟩ : Tallied (Mounted (Pool n) MemoryStore))
      ([] : List (Guard n)) ⟨fun _ => none, 0⟩ := ⟨⟨_, Pool.narrow_scarce hpos hn⟩, rfl⟩
  have hdoes : PagePool.Does ([] : List (Guard n)) ⟨fun _ => none, 0⟩ (transcript name policy
      capacity? queries : Op (Tallied (Mounted (Pool n) MemoryStore)) _) _ _ :=
    transcript_does name policy hroom hlegal
  have hreturns := HashIndex.not_aborts hspent hdoes (transcript_draws name policy capacity? queries)
    hkept (HashIndex.narrow_supplies hids hn)
  obtain ⟨w, _, _, ⟨⟨_, hscarce⟩, hrefusals⟩, _⟩ := hdoes.returns hkept hreturns
  exact hrefusals.symm.trans hscarce.refusals_eq

end Narrow

-- Two pools of different sizes, on which the index has different pages.
theorem transcript_eq_transcript_narrow :
    let policy : KeyPolicy UInt32 := ⟨compare, UInt32.toUInt64⟩
    let queries : List (IndexQuery UInt32 UInt32) :=
      [.call (.insert 0 7), .call (.insert 1 8), .call (.get 0), .call (.remove 0 7), .call (.get 0)]
    let r := transcript "index" policy (some 1) queries
      (⟨Pool.narrow 128, 0⟩ : Tallied (Mounted (Pool 128) MemoryStore))
    let r' := transcript "other" policy (some 1) queries
      (⟨Pool.narrow 200, 0⟩ : Tallied (Mounted (Pool 200) MemoryStore))
    r.state.refusals = 0 ∧ r'.state.refusals = 0 ∧
      r.result = .ok [.ok (.inl (.flag true)), .ok (.inl (.flag true)), .ok (.inl (.values [7])),
        .ok (.inl (.flag true)), .ok (.inl (.values []))] ∧
      (r.result.Returns ∧ r.result = r'.result ∨
        Bucket.maxSlots UInt32 UInt32 = 0 ∧ ¬ r.result.Returns ∧ ¬ r'.result.Returns) := by
  intro policy queries
  have hchoose : HashIndex.chooseCapacity UInt32 UInt32 (some 1) = .ok 1 := rfl
  have hanswers : transcriptOf policy (some 1) queries = .ok [.ok (.inl (.flag true)),
      .ok (.inl (.flag true)), .ok (.inl (.values [7])), .ok (.inl (.flag true)),
      .ok (.inl (.values []))] := by
    rw [transcriptOf, hchoose]
    dsimp only [policy, queries]
    rfl
  have hroom (n : Nat) (hn : HashIndex.chooseCapacity UInt32 UInt32 (some 1) = .ok n) : 0 < n := by
    obtain rfl : 1 = n := Except.ok.inj (hchoose.symm.trans hn)
    exact Nat.one_pos
  have hlegal (t : HashIndex UInt32 UInt32)
      (_ : HashIndex.chooseCapacity UInt32 UInt32 (some 1) = .ok t.capacity) :
      ∀ query ∈ queries, query.Legal t := by
    simp [queries, Legal, IndexCall.Legal]
  have hrefusals := refusals_transcript_narrow (n := 128) (by decide) "index" policy hroom queries
    (by decide) hlegal
  have hrefusals' := refusals_transcript_narrow (n := 200) (by decide) "other" policy hroom queries
    (by decide) hlegal
  have h := Pool.narrow_reached (n := 128) (by decide) (by decide)
  have h' := Pool.narrow_reached (n := 200) (by decide) (by decide)
  -- the runs are not to be computed
  dsimp only
  exact ⟨hrefusals, hrefusals', (transcript_eq h hroom hlegal hrefusals).2.trans hanswers,
    transcript_eq_transcript h h' "index" "other" policy (some 1) queries hlegal hrefusals hrefusals'⟩

end IndexQuery

end PagedIndex
