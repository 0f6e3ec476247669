import PagedIndex.Index.Basic
import PagedIndex.Proofs.Pool.Lawful

namespace PagedIndex.PagePool

variable {σ γ α β : Type} [PagePool σ γ]

section

variable [ReadablePool σ γ]

-- With these guards live on this ledger, the operation answers as `P` says or gives an error as `E`
-- says, or else the pool has run out of page ids.
def Does (guards : List γ) (w : Ledger) (x : Op σ α) (P : α → Ledger → Prop)
    (E : StoreError → Ledger → Prop) : Prop :=
  ∀ s, ReadablePool.Kept s guards w → x.Ends s (Op.AnswersOr ReadablePool.Spent
    (fun a t => ∃ w', ReadablePool.Kept t guards w' ∧ P a w')
    fun e t => ∃ w', ReadablePool.Kept t guards w' ∧ E e w')

-- A page was refused under these guards, and the pages are as they were.
def Refused (guards : List γ) (w : Ledger) (e : StoreError) (w' : Ledger) : Prop :=
  ¬ e.OfIndex ∧ w' = w.refuse ∧ ReadablePool.Refuses σ guards

-- As before, under whichever guards.
def GaveUp (w : Ledger) (e : StoreError) (w' : Ledger) : Prop := ¬ e.OfIndex ∧ w' = w.refuse

theorem Refused.gaveUp {guards : List γ} {w w' : Ledger} {e : StoreError}
    (h : Refused (σ := σ) guards w e w') : GaveUp w e w' := ⟨h.1, h.2.1⟩

-- A refusal is counted.
theorem Refused.refusals_lt {guards : List γ} {w w' : Ledger} {e : StoreError}
    (h : Refused (σ := σ) guards w e w') : w.refusals < w'.refusals := by
  rw [h.2.1]
  exact Nat.lt_succ_self _

variable {guards : List γ} {w : Ledger} {P : α → Ledger → Prop} {E : StoreError → Ledger → Prop}

theorem does_pure {a : α} (h : P a w) : Does guards w (pure a : Op σ α) P E :=
  fun _ hs => ⟨w, hs, h⟩

theorem does_fail {e : StoreError} (h : E e w) : Does guards w (Op.fail e : Op σ α) P E :=
  fun _ hs => ⟨w, hs, h⟩

theorem does_report {e : Event} {P : Unit → Ledger → Prop} (h : P () w) :
    Does guards w (Op.report e : Op σ Unit) P E :=
  fun _ hs => ⟨w, hs, h⟩

theorem does_liftM {x : Checked α} {a : α} (hx : x = .ok a) (h : P a w) :
    Does guards w (liftM x : Op σ α) P E := by
  subst hx
  exact fun _ hs => ⟨w, hs, h⟩

theorem does_liftM_error {x : Checked α} {e : StoreError} (hx : x = .error (.error e)) (h : E e w) :
    Does guards w (liftM x : Op σ α) P E := by
  subst hx
  exact fun _ hs => ⟨w, hs, h⟩

-- An abort is met by a pool of which nothing is said then.
theorem does_abort {x : Checked α} {a : Abort} (hx : x = .error (.abort a))
    (hspent : ∀ s : σ, ReadablePool.Spent s) : Does guards w (liftM x : Op σ α) P E := by
  subst hx
  exact fun s _ => hspent s

namespace Does

theorem mono {x : Op σ α} {Q : α → Ledger → Prop} {F : StoreError → Ledger → Prop}
    (h : Does guards w x P E) (hp : ∀ a w', P a w' → Q a w') (he : ∀ e w', E e w' → F e w') :
    Does guards w x Q F :=
  fun s hs => (h s hs).mono fun _ _ ht => ht.imp (fun ha => ha)
    (fun a ⟨w', hw', ha⟩ => ⟨w', hw', hp a w' ha⟩) fun e ⟨w', hw', hE⟩ => ⟨w', hw', he e w' hE⟩

theorem bind {x : Op σ α} {f : α → Op σ β} {Q : β → Ledger → Prop} (hx : Does guards w x P E)
    (hf : ∀ a w', P a w' → Does guards w' (f a) Q E) : Does guards w (x >>= f) Q E := by
  intro s hs
  rw [Op.ends_bind]
  refine (hx s hs).mono fun r t ht => ?_
  cases r using Checked.outcomes with
  | ok a =>
    obtain ⟨w', hw', ha⟩ := ht
    exact hf a w' ha t hw'
  | error e => exact ht
  | abort a => exact ht

-- A step whose answer and effect are known.
theorem step {x : Op σ α} {f : α → Op σ β} {Q : β → Ledger → Prop} {a : α} {w' : Ledger}
    (hx : Does guards w x (fun answer after => answer = a ∧ after = w') E)
    (hf : Does guards w' (f a) Q E) : Does guards w (x >>= f) Q E := by
  refine hx.bind fun answer after h => ?_
  obtain ⟨rfl, rfl⟩ := h
  exact hf

theorem map {x : Op σ α} {f : α → β} {Q : β → Ledger → Prop}
    (h : Does guards w x (fun a w' => Q (f a) w') E) : Does guards w (f <$> x) Q E := by
  rw [map_eq_pure_bind]
  exact h.bind fun a w' ha => does_pure ha

-- An error that is handed over is met by the step that follows.
theorem attempt_bind {x : Op σ α} {f : Except StoreError α → Op σ β} {Q : β → Ledger → Prop}
    {F : StoreError → Ledger → Prop} (hx : Does guards w x P E)
    (hok : ∀ a w', P a w' → Does guards w' (f (.ok a)) Q F)
    (herror : ∀ e w', E e w' → Does guards w' (f (.error e)) Q F) :
    Does guards w (Op.attempt x >>= f) Q F := by
  intro s hs
  rw [Op.ends_bind, Op.ends_attempt]
  refine (hx s hs).mono fun r t ht => ?_
  cases r using Checked.outcomes with
  | ok a =>
    obtain ⟨w', hw', ha⟩ := ht
    exact hok a w' ha t hw'
  | error e =>
    obtain ⟨w', hw', hE⟩ := ht
    exact herror e w' hE t hw'
  | abort a => exact ht

theorem discard {x : Op σ α} {P : Unit → Ledger → Prop}
    (h : Does guards w x (fun _ w' => P () w') E) : Does guards w (Functor.discard x) P E := by
  intro s hs
  rw [Op.ends_discard]
  refine (h s hs).mono fun r t ht => ?_
  cases r using Checked.outcomes with
  | ok a => exact ht
  | error e => exact ht
  | abort a => exact ht

-- The guard under which `x` ran is given back, however `x` ended.
theorem ensuring {x : Op σ α} {g : γ} {s : σ} (hx : Does (g :: guards) w x P E)
    (hs : ReadablePool.Kept s (g :: guards) w) :
    (x.ensuring (release g)).Ends s <| Op.AnswersOr ReadablePool.Spent
      (fun a t => ∃ w', ReadablePool.Kept t guards w' ∧ P a w')
      fun e t => ∃ w', ReadablePool.Kept t guards w' ∧ E e w' := by
  rw [Op.ends_ensuring]
  refine (hx s hs).mono fun r t ht => ?_
  cases r using Checked.outcomes with
  | ok a =>
    obtain ⟨w', hw', ha⟩ := ht
    exact (ReadablePool.release_ends hw').mono fun _ u hu => ⟨w', hu, ha⟩
  | error e =>
    obtain ⟨w', hw', hE⟩ := ht
    exact (ReadablePool.release_ends hw').mono fun _ u hu => ⟨w', hu, hE⟩
  | abort a => exact (ReadablePool.release_spent g t).mono fun _ u hu => hu ht

-- An operation that does not abort.
theorem returns {x : Op σ α} (h : Does guards w x P E) {s : σ} (hs : ReadablePool.Kept s guards w)
    (hreturns : ∀ a, (x s).result ≠ .error (.abort a)) : ∃ w' r,
      (x s).result = Except.mapError .error r ∧ ReadablePool.Kept (x s).state guards w' ∧
        match r with
        | .ok a => P a w'
        | .error e => E e w' := by
  have hends := h s hs
  rw [Op.Ends] at hends
  cases hr : (x s).result using Checked.outcomes with
  | ok a =>
    rw [hr] at hends
    obtain ⟨w', hw', ha⟩ := hends
    exact ⟨w', .ok a, rfl, hw', ha⟩
  | error e =>
    rw [hr] at hends
    obtain ⟨w', hw', he⟩ := hends
    exact ⟨w', .error e, rfl, hw', he⟩
  | abort a => exact absurd hr (hreturns a)

-- An operation on a pool that refuses nothing.
theorem answers {x : Op σ α} (h : Does guards w x P fun _ _ => False)
    (hspent : ∀ s : σ, ¬ ReadablePool.Spent s) {s : σ} (hs : ReadablePool.Kept s guards w) :
    ∃ a w', (x s).result = .ok a ∧ ReadablePool.Kept (x s).state guards w' ∧ P a w' := by
  have hends := h s hs
  rw [Op.Ends] at hends
  cases hr : (x s).result using Checked.outcomes with
  | ok a =>
    rw [hr] at hends
    obtain ⟨w', hw', ha⟩ := hends
    exact ⟨a, w', rfl, hw', ha⟩
  | error e =>
    rw [hr] at hends
    obtain ⟨_, _, hfalse⟩ := hends
    exact hfalse.elim
  | abort a =>
    rw [hr] at hends
    exact absurd hends (hspent _)

theorem withPage {id : PageId} {p : Page} {access : Access} {body : γ → Op σ α}
    (hp : w.memory id = some p) (hclear : ∀ g ∈ guards, pageOf σ g ≠ id)
    (hbody : ∀ g, pageOf σ g = id → ReadablePool.access σ g = access →
      Does (g :: guards) w (body g) P E)
    (hrefused : ∀ e w', Refused (σ := σ) guards w e w' → E e w') :
    Does guards w (PagePool.withPage id access body) P E := by
  intro s hs
  rw [PagePool.withPage, Op.ends_bind]
  refine (ReadablePool.fetch_ends hs hp fun g hg hid => absurd hid (hclear g hg)).mono
    fun r t ht => ?_
  cases r using Checked.outcomes with
  | ok g =>
    obtain ⟨⟨hpage, haccess⟩, hkept⟩ := ht
    exact (hbody g hpage haccess).ensuring hkept
  | error e => exact ⟨_, ht.2, hrefused e _ ⟨ht.1.1, rfl, ht.1.2⟩⟩
  | abort a => exact False.elim ht

end Does

theorem does_readPage {g : γ} {p : Page} {P : Page → Ledger → Prop} (hg : g ∈ guards)
    (hp : w.memory (pageOf σ g) = some p) (h : P p w) :
    Does guards w (readPage g : Op σ Page) P E := by
  intro s hs
  rw [readPage, Op.ends_observe]
  have hread := ReadablePool.read_eq hs hg
  rw [hp] at hread
  obtain rfl := Option.some_inj.mp hread
  exact ⟨w, hs, h⟩

-- A pool does not run out of page ids by an operation that only reads.
theorem Does.ends_reading {x : Op σ α} {a : α}
    (h : @Does σ γ α _ (ReadablePool.reading σ) guards w x (fun answer w' => answer = a ∧ w' = w)
      (@Refused σ γ _ (ReadablePool.reading σ) guards w)) {s : σ} (hs : ReadablePool.Kept s guards w) :
    x.Ends s <| Op.Answers (fun answer t => answer = a ∧ ReadablePool.Kept t guards w)
      fun e t => ¬ e.OfIndex ∧ ReadablePool.Kept t guards w.refuse := by
  refine (h s hs).mono fun r t ht => Op.Answers.imp ht (fun answer hanswer => ?_) fun e he => ?_
  · obtain ⟨_, hw', rfl, rfl⟩ := hanswer
    exact ⟨rfl, hw'⟩
  · obtain ⟨_, hw', herror, rfl, _⟩ := he
    exact ⟨herror, hw'⟩

-- A page that is deleted keeps its bytes in the store.
theorem does_delete [SheddingPool σ γ] {id : PageId} {P : Bool → Ledger → Prop} (h : ∀ b, P b w)
    (hfails : ∀ e : StoreError, ¬ e.OfIndex → E e w) :
    Does guards w (delete id : Op σ Bool) P E := by
  intro s hs
  refine (SheddingPool.shed_ends hs id).mono fun r t ht => ?_
  exact ht.imp (fun b hb => ⟨w, hb, h b⟩) fun e he => ⟨w, he.2, hfails e he.1⟩

-- A loop that reads only.
theorem does_forM {f : α → Op σ Unit} {E : StoreError → Ledger → Prop} (xs : List α)
    (hturn : ∀ x ∈ xs, Does guards w (f x) (fun _ w' => w' = w) E) :
    Does guards w (xs.forM f) (fun _ w' => w' = w) E := by
  induction xs with
  | nil => exact does_pure rfl
  | cons x xs ih =>
    refine (hturn x List.mem_cons_self).bind fun _ w' hw' => ?_
    subst hw'
    exact ih fun y hy => hturn y (List.mem_cons_of_mem x hy)

end

variable [LawfulPool σ γ] {guards : List γ} {w : Ledger} {P : α → Ledger → Prop}
  {E : StoreError → Ledger → Prop}

-- The page that the pool gives out in this state is new.
theorem ends_withNewPage {body : γ → Op σ α} {s : σ} (hs : ReadablePool.Kept s guards w)
    (hbody : ∀ g, (allocate s).result = .ok g → ReadablePool.access σ g = .exclusive →
      w.sheets (pageOf σ g) = none → pageOf σ g ≠ PageId.invalid →
      (∀ g' ∈ guards, pageOf σ g' ≠ pageOf σ g) →
      Does (g :: guards) (w.allot (pageOf σ g)) (body g) P E)
    (hrefused : ∀ e w', Refused (σ := σ) guards w e w' → E e w') :
    (PagePool.withNewPage body).Ends s <| Op.AnswersOr ReadablePool.Spent
      (fun a t => ∃ w', ReadablePool.Kept t guards w' ∧ P a w')
      fun e t => ∃ w', ReadablePool.Kept t guards w' ∧ E e w' := by
  rw [PagePool.withNewPage, Op.ends_bind]
  have hends := LawfulPool.allocate_ends hs
  unfold Op.Ends at hends ⊢
  cases hr : (allocate s).result using Checked.outcomes with
  | ok g =>
    rw [hr] at hends
    obtain ⟨⟨haccess, hnew, hvalid⟩, hkept⟩ := hends
    refine (hbody g hr haccess hnew hvalid fun g' hg' hpage => ?_).ensuring hkept
    -- the page of a live guard was given out
    have hread := ReadablePool.read_eq hs hg'
    rw [hpage, Ledger.memory, hnew] at hread
    cases hread
  | error e =>
    rw [hr] at hends
    exact ⟨_, hends.2, hrefused e _ ⟨hends.1.1, rfl, hends.1.2⟩⟩
  | abort a =>
    rw [hr] at hends
    exact hends

theorem Does.withNewPage {body : γ → Op σ α}
    (hbody : ∀ g, ReadablePool.access σ g = .exclusive → w.sheets (pageOf σ g) = none →
      pageOf σ g ≠ PageId.invalid → (∀ g' ∈ guards, pageOf σ g' ≠ pageOf σ g) →
      Does (g :: guards) (w.allot (pageOf σ g)) (body g) P E)
    (hrefused : ∀ e w', Refused (σ := σ) guards w e w' → E e w') :
    Does guards w (PagePool.withNewPage body) P E :=
  fun _ hs => ends_withNewPage hs (fun g _ => hbody g) hrefused

theorem Does.ends_aborting {x : Op σ α}
    (h : @Does σ γ α _ (LawfulPool.aborting σ).toReadablePool guards w x P E) {s : σ}
    (hs : ReadablePool.Kept s guards w) : x.Ends s <| Op.AnswersOr (fun _ => True)
      (fun a t => ∃ w', ReadablePool.Kept t guards w' ∧ P a w')
      fun e t => ∃ w', ReadablePool.Kept t guards w' ∧ E e w' := h s hs

theorem does_writePage {g : γ} {p : Page} {P : Unit → Ledger → Prop} (hg : g ∈ guards)
    (haccess : ReadablePool.access σ g = .exclusive) (h : P () (w.put (pageOf σ g) p)) :
    Does guards w (writePage g p : Op σ Unit) P E :=
  fun _ hs => ⟨w.put (pageOf σ g) p, LawfulPool.write_kept hs hg haccess p, h⟩

end PagedIndex.PagePool
