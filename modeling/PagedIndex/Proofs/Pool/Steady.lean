import PagedIndex.Proofs.Pool.Creation

namespace PagedIndex

namespace Op

variable {σ α : Type}

-- `P` holds after an answer and `E` after an error, and `A` holds of an abort.
def AnswersExcept (A : Abort → Prop) (P : α → σ → Prop) (E : StoreError → σ → Prop) :
    Checked α → σ → Prop
  | .ok a, t => P a t
  | .error (.error e), t => E e t
  | .error (.abort a), _ => A a

theorem AnswersExcept.imp {τ : Type} {A A' : Abort → Prop} {P : α → σ → Prop}
    {E : StoreError → σ → Prop} {P' : α → τ → Prop} {E' : StoreError → τ → Prop} {r : Checked α}
    {t : σ} {u : τ} (h : AnswersExcept A P E r t) (ha : ∀ a, A a → A' a)
    (hp : ∀ a, P a t → P' a u) (he : ∀ e, E e t → E' e u) : AnswersExcept A' P' E' r u := by
  cases r using Checked.outcomes with
  | ok a => exact hp a h
  | error e => exact he e h
  | abort a => exact ha a h

-- In particular, numbers overflow only if `A` holds.
abbrev AnswersUnless (A : Prop) (P : α → σ → Prop) (E : StoreError → σ → Prop) :
    Checked α → σ → Prop :=
  AnswersExcept (fun a => a = .overflow ∧ A) P E

theorem AnswersUnless.imp {τ : Type} {A A' : Prop} {P : α → σ → Prop} {E : StoreError → σ → Prop}
    {P' : α → τ → Prop} {E' : StoreError → τ → Prop} {r : Checked α} {t : σ} {u : τ}
    (h : AnswersUnless A P E r t) (ha : A → A') (hp : ∀ a, P a t → P' a u)
    (he : ∀ e, E e t → E' e u) : AnswersUnless A' P' E' r u :=
  AnswersExcept.imp h (fun _ h => ⟨h.1, ha h.2⟩) hp he

theorem AnswersUnless.answersOr {τ : Type} {A : Prop} {P : α → σ → Prop}
    {E : StoreError → σ → Prop} {A' : τ → Prop} {P' : α → τ → Prop} {E' : StoreError → τ → Prop}
    {r : Checked α} {t : σ} {u : τ} (h : AnswersUnless A P E r t) (ha : A' u)
    (hp : ∀ a, P a t → P' a u) (he : ∀ e, E e t → E' e u) : AnswersOr A' P' E' r u := by
  cases r using Checked.outcomes with
  | ok a => exact hp a h
  | error e => exact he e h
  | abort a => exact ha

end Op

namespace Shard

variable {n : Nat} {D : Type} [PageStore D] [LawfulStore D] {c : ShardConfig}
  {m : Mounted (Shard n) D} {guards : List (Guard n)} {next : Nat}

-- No frame can be acquired.
def Full (s : Shard n) : Prop := s.free = [] ∧ s.queue.toList = []

-- No frame of a new shard has a number if their count is a multiple of that of the numbers.
theorem initial_full (hn : n % frameNumberLimit = 0) (queueCapacity index count nextId : Nat) :
    (initial n queueCapacity index count nextId).Full := by
  refine ⟨List.filter_eq_nil_iff.mpr fun f _ hf => ?_, EvictionQueue.toList_empty _⟩
  simp [Numbered, hn] at hf

section

omit [LawfulStore D]

-- A shard without a frame to give refuses, and stays as it is.
theorem allocate_of_full (h : m.pool.Full) :
    (Shard.allocate (D := D)).Ends m fun r m' => r = .error (.error .poolFull) ∧ m' = m := by
  have hpop := (EvictionQueue.pop?_eq_none_iff _).mpr h.2
  simp only [Shard.allocate, acquire, Op.ends_bind, Op.ends_attempt, Mounted.ends_observe, Op.then_ok,
    h.1, hpop]
  exact ⟨rfl, rfl⟩

theorem fetch_of_full (h : m.pool.Full) {id : PageId} (howns : m.pool.owns id)
    (habsent : m.pool.table[id]? = none) (access : Access) :
    (Shard.fetch id access).Ends m fun r m' => r = .error (.error .poolFull) ∧ m' = m := by
  have hpop := (EvictionQueue.pop?_eq_none_iff _).mpr h.2
  simp only [Shard.fetch, pin, acquire, Op.ends_bind, Mounted.ends_observe, Op.then_ok, habsent, howns,
    Bool.not_true, Bool.false_eq_true, if_false, h.1, hpop]
  exact ⟨rfl, rfl⟩

end

-- That the pool is full is the answer of a shard that is full, or else of its store.
def Explains (D : Type) [PageStore D] [LawfulStore D] (s : Shard n) (e : StoreError) : Prop :=
  e = .poolFull → LawfulStore.Gives D .poolFull ∨ s.Full

theorem Explains.of_gives {s : Shard n} {e : StoreError}
    (h : LawfulStore.Gives D e) : Explains D s e := fun hfull => Or.inl (hfull ▸ h)

-- The store is sound, and the counter stands at this number.
structure Counts (next : Nat) (m : Mounted (Shard n) D) : Prop where
  store : LawfulStore.Sound m.store
  nextId_eq : m.pool.nextId = next

-- The shard is sound for the guards, whatever its store answers.
structure Steady (c : ShardConfig) (guards : List (Guard n)) (next : Nat)
    (m : Mounted (Shard n) D) : Prop where
  sound : m.pool.Sound c guards
  counts : Counts next m

theorem writeBack_counts {id : PageId} (hid : id ≠ PageId.invalid) (f : Fin n) (h : Counts next m) :
    (writeBack id f).Ends m <| Op.Answers (fun _ m' => Counts next m')
      fun e m' => LawfulStore.Gives D e ∧ Counts next m' := by
  obtain ⟨s, d⟩ := m
  rw [ends_writeBack]
  split
  · refine (LawfulStore.writePage_ends hid (s.frame f).bytes h.store).mono fun r d' hd => ?_
    cases r using Checked.outcomes with
    | ok _ => exact ⟨hd.1, h.nextId_eq⟩
    | error e => exact ⟨hd.1, hd.2.1, h.nextId_eq⟩
    | abort a => exact hd
  · exact h

theorem acquire_counts (hs : m.pool.Sound c guards) (h : Counts next m) :
    acquire.Ends m <| Op.Answers (fun _ m' => Counts next m')
      fun e m' => Explains D m.pool e ∧ Counts next m' := by
  obtain ⟨s, d⟩ := m
  apply ends_acquire hs
  · exact fun _ _ _ => ⟨h.store, h.nextId_eq⟩
  · exact fun hfree hqueue => ⟨fun _ => Or.inr ⟨hfree, hqueue⟩, h⟩
  · intro f id queue _ _ hpage
    have hvalid := ((owns_iff s id).mp (hs.owned f id hpage)).1
    have hqueued : Counts next (⟨s.setQueue queue, d⟩ : Mounted (Shard n) D) := ⟨h.store, h.nextId_eq⟩
    refine (writeBack_counts hvalid f hqueued).mono fun r m hm => ?_
    cases r using Checked.outcomes with
    | ok _ => exact ⟨hm.store, hm.nextId_eq⟩
    | error e => exact ⟨.of_gives hm.1, hm.2.store, hm.2.nextId_eq⟩
    | abort a => exact hm

theorem pin_counts (hs : m.pool.Sound c guards) (h : Counts next m) (id : PageId) :
    (pin id).Ends m <| Op.AnswersUnless (Crowded id guards) (fun _ m' => Counts next m')
      fun e m' => Explains D m.pool e ∧ Counts next m' := by
  cases htable : m.pool.table[id]? with
  | some f =>
    obtain ⟨s, d⟩ := m
    rw [ends_pin_resident htable]
    split
    · exact ⟨h.store, h.nextId_eq⟩
    · rename_i hlimit
      exact ⟨rfl, (hs.crowded_iff ((hs.table_iff id f).mp htable)).mpr (Nat.le_of_not_lt hlimit)⟩
  | none =>
    simp only [pin, Op.ends_bind, Mounted.ends_observe, Op.then_ok, htable]
    by_cases howns : m.pool.owns id
    · simp only [howns, Bool.not_true, Bool.false_eq_true, if_false, Op.ends_bind]
      refine (acquire_counts hs h).mono fun r m' hm => ?_
      cases r using Checked.outcomes with
      | ok f =>
        simp only [Op.then_ok, Op.ends_bind, Op.ends_attempt, Mounted.ends_onStore]
        refine (LawfulStore.readPage_ends id hm.store).mono fun r d' hd => ?_
        cases r using Checked.outcomes with
        | ok bytes => exact ⟨hd.2.1, hm.nextId_eq⟩
        | error e => exact ⟨.of_gives hd.1, hd.2.1, hm.nextId_eq⟩
        | abort a => exact hd.elim
      | error e => exact hm
      | abort a => exact hm.elim
    · simp only [howns, Bool.not_false, if_true, Op.ends_bind, Op.ends_fail, Op.then_error]
      exact ⟨StoreError.noConfusion, h⟩

namespace Steady

theorem perm (h : Steady c guards next m) {others : List (Guard n)} (hperm : guards.Perm others) :
    Steady c others next m := ⟨h.sound.perm hperm, h.counts⟩

theorem guard_mod (h : Steady c guards next m) {g : Guard n} (hg : g ∈ guards) :
    g.page.number.toNat % c.count = c.index := by
  have howns := h.sound.owned _ _ ((h.sound.table_iff _ _).mp (h.sound.guarded g hg))
  have hmod := ((owns_iff _ _).mp howns).2.1
  rwa [h.sound.count_eq, h.sound.index_eq] at hmod

theorem fetch (h : Steady c guards next m) (id : PageId) (access : Access) :
    (Shard.fetch id access).Ends m <| Op.AnswersUnless (Crowded id guards)
      (fun g m' => Steady c (g :: guards) next m')
      fun e m' => Explains D m.pool e ∧ Steady c guards next m' := by
  have hcounts : (Shard.fetch id access).Ends m <| Op.AnswersUnless (Crowded id guards)
      (fun _ m' => Counts next m') fun e m' => Explains D m.pool e ∧ Counts next m' := by
    rw [Shard.fetch, Op.ends_bind]
    refine (pin_counts h.sound h.counts id).mono fun r m' hm => ?_
    cases r using Checked.outcomes with
    | ok f =>
      simp only [Op.then_ok, guard]
      split
      · exact ⟨hm.store, hm.nextId_eq⟩
      · exact hm
    | error e => exact hm
    | abort a => exact hm
  refine ((fetch_sound h.sound id access).and hcounts).mono fun r m' hm => ?_
  cases r using Checked.outcomes with
  | ok g => exact ⟨hm.1.2.2, hm.2⟩
  | error e => exact ⟨hm.2.1, hm.1, hm.2.2⟩
  | abort a => exact hm.2

-- The next page id is given out if there is a frame for it and one more id after it.
theorem allocate (h : Steady c guards next m) :
    (Shard.allocate (D := D)).Ends m <| Op.AnswersUnless
      ((∃ f, (acquire m).result = .ok f) ∧ pageIdLimit ≤ next + c.count)
      (fun g m' => (next + c.count < pageIdLimit ∧ g.page = ⟨UInt32.ofNat next⟩) ∧
        Steady c (g :: guards) (next + c.count) m')
      fun e m' => (∀ f, (acquire m).result ≠ .ok f) ∧ Explains D m.pool e ∧
        Steady c guards next m' := by
  have hcounts : (Shard.allocate (D := D)).Ends m <| Op.AnswersUnless
      ((∃ f, (acquire m).result = .ok f) ∧ pageIdLimit ≤ next + c.count)
      (fun g m' => (next + c.count < pageIdLimit ∧ g.page = ⟨UInt32.ofNat next⟩) ∧
        Counts (next + c.count) m')
      fun e m' => (∀ f, (acquire m).result ≠ .ok f) ∧ Explains D m.pool e ∧ Counts next m' := by
    have hresult : acquire.Ends m fun r _ => (acquire m).result = r := rfl
    simp only [Shard.allocate, Op.ends_bind, Op.ends_attempt]
    refine (((acquire_sound h.sound).and (acquire_counts h.sound h.counts)).and hresult).mono
      fun r m' hm => ?_
    obtain ⟨⟨hsound, hcounts⟩, hresult⟩ := hm
    cases r using Checked.outcomes with
    | ok f =>
      have hcount : m'.pool.count = c.count := hsound.count_eq
      simp only [Op.attempted_ok, Op.then_ok, Op.ends_bind, Mounted.ends_observe, Op.ends_require,
        hcounts.nextId_eq, hcount]
      split
      · rename_i hlimit
        exact ⟨⟨hlimit, rfl⟩, hcounts.store, rfl⟩
      · rename_i hlimit
        exact ⟨rfl, ⟨f, hresult⟩, Nat.le_of_not_lt hlimit⟩
    | error e =>
      refine ⟨fun f hf => ?_, hcounts⟩
      rw [hresult] at hf
      cases hf
    | abort a => exact hcounts.elim
  refine ((allocate_sound h.sound).and hcounts).mono fun r m' hm => ?_
  cases r using Checked.outcomes with
  | ok g => exact ⟨hm.2.1, hm.1.2, hm.2.2⟩
  | error e => exact ⟨hm.2.1, hm.2.2.1, hm.1, hm.2.2.2⟩
  | abort a => exact hm.2

theorem release {g : Guard n} (h : Steady c (g :: guards) next m) :
    (Shard.release g).Ends m fun r m' => r = .ok () ∧ Steady c guards next m' := by
  refine ((release_sound h.sound).and (release_parts g m)).mono fun r m' hm => ?_
  obtain ⟨⟨hr, hsound⟩, hnext, _, hstore⟩ := hm
  exact ⟨hr, hsound, hstore ▸ h.counts.store, hnext.trans h.counts.nextId_eq⟩

theorem write (h : Steady c guards next m) (g : Guard n) (page : Page) :
    Steady c guards next ⟨m.pool.write g page, m.store⟩ :=
  ⟨write_sound h.sound g page, h.counts.store, h.counts.nextId_eq⟩

theorem flush (h : Steady c guards next m) (id : PageId) :
    (Shard.flush id).Ends m <| Op.AnswersUnless (Crowded id guards)
      (fun _ m' => Steady c guards next m')
      fun e m' => LawfulStore.Gives D e ∧ Steady c guards next m' := by
  have hcounts : (Shard.flush id).Ends m <| Op.AnswersUnless (Crowded id guards)
      (fun _ m' => Counts next m') fun e m' => LawfulStore.Gives D e ∧ Counts next m' := by
    obtain ⟨s, d⟩ := m
    rw [ends_flush]
    cases htable : s.table[id]? with
    | none => exact h.counts
    | some f =>
      have hpage := (h.sound.table_iff id f).mp htable
      have howned := h.sound.owned f id hpage
      dsimp only
      split
      · rename_i hlimit
        exact ⟨rfl, (h.sound.crowded_iff hpage).mpr hlimit⟩
      split
      · exact h.counts
      · refine (writeBack_counts ((owns_iff s id).mp howned).1 f h.counts).mono fun r m' hm => ?_
        cases r using Checked.outcomes with
        | ok _ => exact hm
        | error e => exact hm
        | abort a => exact hm.elim
  refine ((flush_sound h.sound id).and hcounts).mono fun r m' hm => ?_
  exact hm.2.imp (fun hc => hc) (fun _ hb => ⟨hm.1, hb⟩) fun _ he => ⟨he.1, hm.1, he.2⟩

theorem flushAll (h : Steady c guards next m) (walk : Walk) :
    (Shard.flushAll (D := D) walk).Ends m <| Op.AnswersUnless (∃ id, Crowded id guards)
      (fun _ m' => Steady c guards next m')
      fun e m' => LawfulStore.Gives D e ∧ Steady c guards next m' := by
  simp only [Shard.flushAll, Op.ends_bind, Mounted.ends_observe, Op.then_ok]
  refine Op.ends_forM (I := fun _ m' => Steady c guards next m') (fun id _ m' hm => ?_)
    (fun _ hm => hm) _ _ h
  rw [Op.ends_discard]
  refine (hm.flush id).mono fun r m'' hm' => ?_
  cases r using Checked.outcomes with
  | ok b => exact hm'
  | error e => exact hm'
  | abort a => exact ⟨hm'.1, id, hm'.2⟩

theorem delete (h : Steady c guards next m) (id : PageId) :
    (Shard.delete id).Ends m <| Op.AnswersUnless False (fun _ m' => Steady c guards next m')
      fun e m' => LawfulStore.Gives D e ∧ Steady c guards next m' := by
  have hcounts : (Shard.delete id).Ends m <| Op.AnswersUnless False (fun _ m' => Counts next m')
      fun e m' => LawfulStore.Gives D e ∧ Counts next m' := by
    simp only [Shard.delete, Op.ends_bind, Mounted.ends_observe, Op.then_ok]
    cases htable : m.pool.table[id]? with
    | none => exact h.counts
    | some f =>
      have howned := h.sound.owned f id ((h.sound.table_iff id f).mp htable)
      simp only [Op.ends_bind, Mounted.ends_observe, Op.then_ok]
      cases (m.pool.frame f).pins with
      | succ pins => exact h.counts
      | zero =>
        simp only [Op.ends_bind]
        refine (writeBack_counts ((owns_iff _ id).mp howned).1 f h.counts).mono fun r m' hm => ?_
        cases r using Checked.outcomes with
        | ok _ => exact ⟨hm.store, hm.nextId_eq⟩
        | error e => exact hm
        | abort a => exact hm.elim
  refine ((delete_sound h.sound id).and hcounts).mono fun r m' hm => ?_
  exact hm.2.imp False.elim (fun _ hb => ⟨hm.1, hb⟩) fun _ he => ⟨he.1, hm.1, he.2⟩

end Steady

end Shard

namespace ShardedPool

variable {n k : Nat} {D : Type} [PageStore D] [LawfulStore D] {m : Mounted (ShardedPool n k) D}
  {guards : List (Guard n)} {next : Nat → Nat}

-- The counters are given by the indices of the shards.
structure Steady (guards : List (Guard n)) (next : Nat → Nat) (m : Mounted (ShardedPool n k) D) :
    Prop where
  store : LawfulStore.Sound m.store
  shard (i : Fin k) : Shard.Steady (config n k i) (guardsOf k i guards) (next i)
    ⟨m.pool.shards.get i, m.store⟩

def Explains (m : Mounted (ShardedPool n k) D) (e : StoreError) : Prop :=
  e = .poolFull → LawfulStore.Gives D .poolFull ∨ ∃ i, (m.pool.shards.get i).Full

theorem Explains.of_shard {i : Fin k} {e : StoreError}
    (h : Shard.Explains D (m.pool.shards.get i) e) : Explains m e := fun he =>
  (h he).imp_right fun hfull => ⟨i, hfull⟩

-- An allocation that tries these shards in this order comes to shard `i`, and finds the pool like
-- `m'`, as the shards before are full.
inductive Reaches : List (Fin k) → Mounted (ShardedPool n k) D → Fin k →
    Mounted (ShardedPool n k) D → Prop
  | here {i : Fin k} {rest : List (Fin k)} {m : Mounted (ShardedPool n k) D} :
      Reaches (i :: rest) m i m
  | later {i j : Fin k} {rest : List (Fin k)} {m m' : Mounted (ShardedPool n k) D} :
      (onShard i Shard.allocate m).result = .error (.error .poolFull) →
      Reaches rest (onShard i Shard.allocate m).state j m' → Reaches (i :: rest) m j m'

namespace Steady

-- One shard changes, and the store with it.
theorem set (h : Steady guards next m) {i : Fin k} {t : Mounted (Shard n) D}
    {guards' : List (Guard n)} {next' : Nat → Nat}
    (ht : Shard.Steady (config n k i) (guardsOf k i guards') (next' i) t)
    (hguards : ∀ j : Nat, j ≠ i → guardsOf k j guards' = guardsOf k j guards)
    (hnext : ∀ j : Nat, j ≠ i → next' j = next j) :
    Steady guards' next' ⟨{ m.pool with shards := m.pool.shards.set i t.pool i.isLt }, t.store⟩ := by
  refine ⟨ht.counts.store, fun j => ?_⟩
  by_cases hij : i = j
  · subst hij
    rw [get_set_self]
    exact ht
  · have hne : (j : Nat) ≠ i := fun heq => hij (Fin.ext heq.symm)
    rw [get_set_of_ne _ (Ne.symm hne), hguards j hne, hnext j hne]
    exact ⟨(h.shard j).sound, ht.counts.store, (h.shard j).counts.nextId_eq⟩

theorem same (h : Steady guards next m) {i : Fin k} {t : Mounted (Shard n) D}
    (ht : Shard.Steady (config n k i) (guardsOf k i guards) (next i) t) :
    Steady guards next ⟨{ m.pool with shards := m.pool.shards.set i t.pool i.isLt }, t.store⟩ :=
  h.set ht (fun _ _ => rfl) fun _ _ => rfl

-- One shard gives a guard out.
theorem push (h : Steady guards next m) {i : Fin k} {t : Mounted (Shard n) D} {g : Guard n}
    {next' : Nat → Nat} (ht : Shard.Steady (config n k i) (g :: guardsOf k i guards) (next' i) t)
    (hnext : ∀ j : Nat, j ≠ i → next' j = next j) :
    Steady (g :: guards) next'
      ⟨{ m.pool with shards := m.pool.shards.set i t.pool i.isLt }, t.store⟩ := by
  have hmod : g.page.number.toNat % k = i := ht.guard_mod List.mem_cons_self
  refine h.set ?_ (fun j hj => guardsOf_cons_of_ne hmod hj) hnext
  rw [guardsOf_cons_self hmod]
  exact ht

theorem perm (h : Steady guards next m) {others : List (Guard n)} (hperm : guards.Perm others) :
    Steady others next m := ⟨h.store, fun i => (h.shard i).perm (hperm.filter _)⟩

theorem fetchIn (h : Steady guards next m) (i : Fin k) (id : PageId) (access : Access) :
    (onShard i (Shard.fetch id access)).Ends m <| Op.AnswersUnless (Crowded id guards)
      (fun g m' => Steady (g :: guards) next m')
      fun e m' => Explains m e ∧ Steady guards next m' := by
  rw [ends_onShard]
  refine ((h.shard i).fetch id access).mono fun r t ht => ?_
  exact ht.imp Crowded.of_guardsOf (fun g hg => h.push hg fun _ _ => rfl)
    fun e he => ⟨.of_shard he.1, h.same he.2⟩

theorem fetch (h : Steady guards next m) (id : PageId) (access : Access) :
    (ShardedPool.fetch id access).Ends m <| Op.AnswersUnless (Crowded id guards)
      (fun g m' => Steady (g :: guards) next m')
      fun e m' => Explains m e ∧ Steady guards next m' := by
  rw [ShardedPool.fetch, onOwner, Op.ends_bind, Mounted.ends_observe, Op.then_ok]
  exact h.fetchIn _ id access

-- A new page of shard `i`.
theorem pushNew (h : Steady guards next m) {i : Fin k} {t : Mounted (Shard n) D} {g : Guard n}
    (ht : Shard.Steady (config n k i) (g :: guardsOf k i guards) (next i + k) t) :
    Steady (g :: guards) (Function.update next i (next i + k))
      ⟨{ m.pool with shards := m.pool.shards.set i t.pool i.isLt }, t.store⟩ := by
  refine h.push ?_ fun j hj => Function.update_of_ne hj _ _
  rwa [Function.update_self]

theorem allocateOn (h : Steady guards next m) (i : Fin k) :
    (onShard i (Shard.allocate (D := D))).Ends m <| Op.AnswersUnless
      ((∃ f, (Shard.acquire ⟨m.pool.shards.get i, m.store⟩).result = .ok f) ∧
        Shard.pageIdLimit ≤ next i + k)
      (fun g m' => (next i + k < Shard.pageIdLimit ∧ g.page = ⟨UInt32.ofNat (next i)⟩) ∧
        Steady (g :: guards) (Function.update next i (next i + k)) m')
      fun e m' => (∀ f, (Shard.acquire ⟨m.pool.shards.get i, m.store⟩).result ≠ .ok f) ∧
        Shard.Explains D (m.pool.shards.get i) e ∧ Steady guards next m' := by
  rw [ends_onShard]
  refine (h.shard i).allocate.mono fun r t ht => ?_
  exact ht.imp id (fun g hg => ⟨hg.1, h.pushNew hg.2⟩) fun e he => ⟨he.1, he.2.1, h.same he.2.2⟩

-- The shards that an allocation passes over stay as they count.
theorem reaches (h : Steady guards next m) {shards : List (Fin k)} {i : Fin k}
    {m' : Mounted (ShardedPool n k) D} (hreaches : Reaches shards m i m') :
    Steady guards next m' := by
  induction hreaches with
  | here => exact h
  | @later i j rest m m' hfull _ ih =>
    have hends := h.allocateOn i
    rw [Op.Ends, hfull] at hends
    exact ih hends.2.2

-- The first shard that is not full decides.
theorem allocateIn (h : Steady guards next m) (shards : List (Fin k)) :
    (ShardedPool.allocateIn (D := D) (n := n) shards).Ends m <| Op.AnswersUnless
      (∃ i m', Reaches shards m i m' ∧
        (∃ f, (Shard.acquire ⟨m'.pool.shards.get i, m'.store⟩).result = .ok f) ∧
        Shard.pageIdLimit ≤ next i + k)
      (fun g m' => ∃ i : Fin k,
        (next i + k < Shard.pageIdLimit ∧ g.page = ⟨UInt32.ofNat (next i)⟩) ∧
          Steady (g :: guards) (Function.update next i (next i + k)) m')
      fun e m' => (shards ≠ [] → Explains m e) ∧ Steady guards next m' := by
  induction shards generalizing m with
  | nil => exact ⟨fun hne => absurd rfl hne, h⟩
  | cons i rest ih =>
    have hresult : (onShard i (Shard.allocate (D := D))).Ends m fun r t =>
        (onShard i Shard.allocate m).result = r ∧ (onShard i Shard.allocate m).state = t := ⟨rfl, rfl⟩
    rw [ends_allocateIn_cons]
    refine ((h.allocateOn i).and hresult).mono fun r t ht => ?_
    obtain ⟨ht, hresult, hstate⟩ := ht
    cases r using Checked.outcomes with
    | ok g =>
      obtain ⟨hnew, hsteady⟩ := ht
      exact ⟨i, hnew, hsteady.store, hsteady.shard⟩
    | error e =>
      obtain ⟨_, hexplains, hsteady⟩ := ht
      dsimp only
      split
      · rename_i hfull
        subst hfull
        refine (ih hsteady).mono fun r u hu => ?_
        refine hu.imp (fun ⟨j, m', hreaches, hlast⟩ => ?_) (fun _ hg => hg) fun e he => ?_
        · exact ⟨j, m', .later hresult (hstate ▸ hreaches), hlast⟩
        · exact ⟨fun _ _ => Explains.of_shard hexplains rfl, he.2⟩
      · exact ⟨fun _ => .of_shard hexplains, hsteady⟩
    | abort a =>
      obtain ⟨ha, hfound, hlimit⟩ := ht
      exact ⟨ha, i, m, .here, hfound, hlimit⟩

theorem allocate (h : Steady guards next m) :
    (ShardedPool.allocate (D := D) (n := n) (k := k)).Ends m <| Op.AnswersUnless
      (∃ i m', Reaches m.pool.turns m i m' ∧
        (∃ f, (Shard.acquire ⟨m'.pool.shards.get i, m'.store⟩).result = .ok f) ∧
        Shard.pageIdLimit ≤ next i + k)
      (fun g m' => ∃ i : Fin k,
        (next i + k < Shard.pageIdLimit ∧ g.page = ⟨UInt32.ofNat (next i)⟩) ∧
          Steady (g :: guards) (Function.update next i (next i + k)) m')
      fun e m' => Explains m e ∧ Steady guards next m' := by
  have hturns : m.pool.turns ≠ [] := by
    have hpos := m.pool.pos
    simp only [turns, ne_eq, List.map_eq_nil_iff, List.range_eq_nil]
    omega
  rw [ShardedPool.allocate, Op.ends_bind, Mounted.ends_observe, Op.then_ok]
  refine (h.allocateIn _).mono fun r t ht => ?_
  exact ht.imp id (fun _ hg => hg) fun e he => ⟨he.1 hturns, he.2⟩

-- What a shard answers without giving a guard out.
theorem onShard (h : Steady guards next m) {α : Type} {x : Op (Mounted (Shard n) D) α} (i : Fin k)
    {A : Prop} (hx : x.Ends ⟨m.pool.shards.get i, m.store⟩ <| Op.AnswersUnless A
      (fun _ t => Shard.Steady (config n k i) (guardsOf k i guards) (next i) t)
      fun e t => LawfulStore.Gives D e ∧
        Shard.Steady (config n k i) (guardsOf k i guards) (next i) t) :
    (ShardedPool.onShard i x).Ends m <| Op.AnswersUnless A (fun _ m' => Steady guards next m')
      fun e m' => LawfulStore.Gives D e ∧ Steady guards next m' := by
  rw [ends_onShard]
  exact hx.mono fun r t ht => ht.imp id (fun _ hb => h.same hb) fun _ he => ⟨he.1, h.same he.2⟩

theorem delete (h : Steady guards next m) (id : PageId) :
    (ShardedPool.delete id).Ends m <| Op.AnswersUnless False (fun _ m' => Steady guards next m')
      fun e m' => LawfulStore.Gives D e ∧ Steady guards next m' := by
  rw [ShardedPool.delete, onOwner, Op.ends_bind, Mounted.ends_observe, Op.then_ok]
  exact h.onShard _ ((h.shard _).delete id)

theorem flush (h : Steady guards next m) (id : PageId) :
    (ShardedPool.flush id).Ends m <| Op.AnswersUnless (Crowded id guards)
      (fun _ m' => Steady guards next m')
      fun e m' => LawfulStore.Gives D e ∧ Steady guards next m' := by
  rw [ShardedPool.flush, onOwner, Op.ends_bind, Mounted.ends_observe, Op.then_ok]
  refine (h.onShard _ ((h.shard _).flush id)).mono fun r t ht => ?_
  exact ht.imp Crowded.of_guardsOf (fun _ hb => hb) fun _ he => he

theorem flushAll (h : Steady guards next m) (walk : Walk) :
    (ShardedPool.flushAll (D := D) (n := n) (k := k) walk).Ends m <| Op.AnswersUnless
      (∃ id, Crowded id guards) (fun _ m' => Steady guards next m')
      fun e m' => LawfulStore.Gives D e ∧ Steady guards next m' := by
  refine Op.ends_forM (I := fun _ m' => Steady guards next m') (fun i _ m' hm => ?_)
    (fun _ hm => hm) _ _ h
  refine (hm.onShard i ((hm.shard i).flushAll walk)).mono fun r t ht => ?_
  cases r using Checked.outcomes with
  | ok _ => exact ht
  | error e => exact ht
  | abort a => exact ⟨ht.1, ht.2.imp fun _ hc => hc.of_guardsOf⟩

theorem release {g : Guard n} (h : Steady (g :: guards) next m) :
    (ShardedPool.release g).Ends m fun r m' => r = .ok () ∧ Steady guards next m' := by
  have hmod : g.page.number.toNat % k = m.pool.shardOf g.page := rfl
  have hshard := h.shard (m.pool.shardOf g.page)
  rw [guardsOf_cons_self hmod] at hshard
  rw [ShardedPool.release, onOwner, Op.ends_bind, Mounted.ends_observe, Op.then_ok, ends_onShard]
  refine hshard.release.mono fun r t ht => ⟨ht.1, ?_⟩
  exact h.set ht.2 (fun j hj => (guardsOf_cons_of_ne hmod hj).symm) fun _ _ => rfl

theorem write (h : Steady guards next m) (g : Guard n) (page : Page) :
    Steady guards next ⟨m.pool.write g page, m.store⟩ := by
  rw [write_eq]
  exact h.same ((h.shard (m.pool.shardOf g.page)).write g page)

end Steady

end ShardedPool

namespace PoolShape

-- The indices of the shards.
def indices : PoolShape → List Nat
  | single _ index _ => [index]
  | sharded count => List.range count

-- The number of parts that the ids are divided into.
def parts : PoolShape → Nat
  | single _ _ count => count
  | sharded count => count

-- What the shard with the index is created with.
def config (n i : Nat) : PoolShape → ShardConfig
  | single queueCapacity index count => ⟨index, count, queueCapacity⟩
  | sharded count => ShardedPool.config n count i

-- The guards on pages of the shard with the index.
def guardsIn (i : Nat) (guards : List (Guard n)) : PoolShape → List (Guard n)
  | single _ _ _ => guards
  | sharded count => guardsOf count i guards

theorem index_config {shape : PoolShape} {i : Nat} (hi : i ∈ shape.indices) (n : Nat) :
    (shape.config n i).index = i := by
  cases shape with
  | single queueCapacity index count => exact (List.mem_singleton.mp hi).symm
  | sharded count => rfl

theorem count_config (shape : PoolShape) (n i : Nat) : (shape.config n i).count = shape.parts := by
  cases shape <;> rfl

end PoolShape

theorem pinsOn_guardsOf (id : PageId) (k : Nat) (guards : List (Guard n)) :
    pinsOn id (guardsOf k (id.number.toNat % k) guards) = pinsOn id guards := by
  rw [pinsOn, pinsOn, guardsOf, List.countP_filter]
  refine List.countP_congr fun g _ => ?_
  simp +contextual

namespace Pool

variable {n : Nat} {D : Type} [PageStore D] [LawfulStore D] {m : Mounted (Pool n) D}
  {shape : PoolShape} {guards : List (Guard n)} {next : Nat → Nat}

-- A pool of the shape, with shards that are sound for these guards and count like this.
inductive Steady : PoolShape → List (Guard n) → (Nat → Nat) → Mounted (Pool n) D → Prop
  | single {queueCapacity index count : Nat} {guards : List (Guard n)} {next : Nat → Nat}
      {s : Shard n} {d : D} :
      Shard.Steady ⟨index, count, queueCapacity⟩ guards (next index) ⟨s, d⟩ →
      Steady (.single queueCapacity index count) guards next ⟨.single s, d⟩
  | sharded {k : Nat} {guards : List (Guard n)} {next : Nat → Nat} {p : ShardedPool n k} {d : D} :
      ShardedPool.Steady guards next ⟨p, d⟩ → Steady (.sharded k) guards next ⟨.sharded k p, d⟩

def Explains (m : Mounted (Pool n) D) (e : StoreError) : Prop :=
  e = .poolFull → LawfulStore.Gives D .poolFull ∨ ∃ s ∈ m.pool.shards, s.Full

theorem Explains.of_sharded {k : Nat} {p : ShardedPool n k} {d : D} {e : StoreError}
    (h : ShardedPool.Explains ⟨p, d⟩ e) : Explains ⟨.sharded k p, d⟩ e := fun he =>
  (h he).imp_right fun ⟨i, hfull⟩ => ⟨_, Vector.mem_toList_iff.mpr (Vector.getElem_mem i.isLt), hfull⟩

theorem Explains.of_single {s : Shard n} {d : D} {e : StoreError} (h : Shard.Explains D s e) :
    Explains ⟨.single s, d⟩ e := fun he =>
  (h he).imp_right fun hfull => ⟨s, List.mem_singleton_self s, hfull⟩

-- The shard over its store to which an allocation comes.
inductive Reaches : Mounted (Pool n) D → Mounted (Shard n) D → Prop
  | single (s : Shard n) (d : D) : Reaches ⟨.single s, d⟩ ⟨s, d⟩
  | sharded {k : Nat} {p : ShardedPool n k} {d : D} {i : Fin k} {m' : Mounted (ShardedPool n k) D} :
      ShardedPool.Reaches p.turns ⟨p, d⟩ i m' →
      Reaches ⟨.sharded k p, d⟩ ⟨m'.pool.shards.get i, m'.store⟩

namespace Steady

theorem perm (h : Steady shape guards next m) {others : List (Guard n)}
    (hperm : guards.Perm others) : Steady shape others next m := by
  cases h with
  | single h => exact .single (h.perm hperm)
  | sharded h => exact .sharded (h.perm hperm)

-- Every shard of the pool is the one with some index.
theorem shard (h : Steady shape guards next m) {s : Shard n} (hs : s ∈ m.pool.shards) :
    ∃ i ∈ shape.indices,
      Shard.Steady (shape.config n i) (shape.guardsIn i guards) (next i) ⟨s, m.store⟩ := by
  cases h with
  | single h =>
    obtain rfl := List.mem_singleton.mp hs
    exact ⟨_, List.mem_singleton_self _, h⟩
  | @sharded k _ _ p d h =>
    obtain ⟨i, hi, rfl⟩ := Vector.getElem_of_mem (Vector.mem_toList_iff.mp hs)
    exact ⟨i, List.mem_range.mpr hi, h.shard ⟨i, hi⟩⟩

-- The shard that answers for a page has all the guards on it.
theorem owner (h : Steady shape guards next m) (id : PageId) : m.pool.owner id ∈ m.pool.shards ∧
    ∃ i ∈ shape.indices, (id.number.toNat % shape.parts ∈ shape.indices →
        i = id.number.toNat % shape.parts) ∧
      pinsOn id (shape.guardsIn i guards) = pinsOn id guards ∧
        Shard.Steady (shape.config n i) (shape.guardsIn i guards) (next i)
          ⟨m.pool.owner id, m.store⟩ := by
  cases h with
  | single h =>
    exact ⟨List.mem_singleton_self _, _, List.mem_singleton_self _,
      fun hid => (List.mem_singleton.mp hid).symm, rfl, h⟩
  | @sharded k _ _ p d h =>
    exact ⟨Vector.mem_toList_iff.mpr (Vector.getElem_mem _), _,
      List.mem_range.mpr (p.shardOf id).isLt, fun _ => rfl, pinsOn_guardsOf id k _,
      h.shard (p.shardOf id)⟩

-- What is said of the shards by their indices, is said of the list of them.
theorem map_shards {β : Type} (h : Steady shape guards next m) (f : Shard n → β) (b : Nat → β)
    (hf : ∀ (s : Shard n) (i : Nat), i ∈ shape.indices →
      Shard.Steady (shape.config n i) (shape.guardsIn i guards) (next i) ⟨s, m.store⟩ → f s = b i) :
    m.pool.shards.map f = shape.indices.map b := by
  cases h with
  | @single _ index _ _ _ s d h =>
    exact congrArg (fun x => [x]) (hf s index (List.mem_singleton_self _) h)
  | @sharded k _ _ p d h =>
    refine List.ext_getElem (by simp [shards, PoolShape.indices]) fun i hi _ => ?_
    have hk : i < k := by simpa [shards] using hi
    have hshard := hf (p.shards.get ⟨i, hk⟩) i (List.mem_range.mpr hk) (h.shard ⟨i, hk⟩)
    have hget : p.shards.get ⟨i, hk⟩ = p.shards[i] := rfl
    simpa [shards, PoolShape.indices, ← hget] using hshard

-- What both shapes of a pool do, the pool does.
theorem byShape {α : Type} (h : Steady shape guards next m) {single : Op (Mounted (Shard n) D) α}
    {sharded : (k : Nat) → Op (Mounted (ShardedPool n k) D) α} {guards' : α → List (Guard n)}
    {A : Prop} (hsingle : ∀ (c : ShardConfig) (m : Mounted (Shard n) D) (next : Nat),
      Shard.Steady c guards next m → single.Ends m (Op.AnswersUnless A
        (fun a m' => Shard.Steady c (guards' a) next m')
        fun e m' => Shard.Explains D m.pool e ∧ Shard.Steady c guards next m'))
    (hsharded : ∀ (k : Nat) (m : Mounted (ShardedPool n k) D), ShardedPool.Steady guards next m →
      (sharded k).Ends m (Op.AnswersUnless A (fun a m' => ShardedPool.Steady (guards' a) next m')
        fun e m' => ShardedPool.Explains m e ∧ ShardedPool.Steady guards next m')) :
    (Pool.byShape single sharded).Ends m <| Op.AnswersUnless A
      (fun a m' => Steady shape (guards' a) next m')
      fun e m' => Explains m e ∧ Steady shape guards next m' := by
  rw [ends_byShape]
  cases h with
  | single h =>
    refine (hsingle _ _ _ h).mono fun r t ht => ?_
    exact ht.imp id (fun a ha => .single ha) fun e he => ⟨.of_single he.1, .single he.2⟩
  | sharded h =>
    refine (hsharded _ _ h).mono fun r t ht => ?_
    exact ht.imp id (fun a ha => .sharded ha) fun e he => ⟨.of_sharded he.1, .sharded he.2⟩

theorem fetch (h : Steady shape guards next m) (id : PageId) (access : Access) :
    (Pool.fetch id access).Ends m <| Op.AnswersUnless (Crowded id guards)
      (fun g m' => Steady shape (g :: guards) next m')
      fun e m' => Explains m e ∧ Steady shape guards next m' :=
  h.byShape (fun _ _ _ h => h.fetch id access) fun _ _ h => h.fetch id access

-- A new page has the number at which the counter of some shard stands.
theorem allocate (h : Steady shape guards next m) :
    (Pool.allocate (D := D)).Ends m <| Op.AnswersUnless
      (∃ t, Reaches m t ∧ (∃ f, (Shard.acquire t).result = .ok f) ∧
        Shard.pageIdLimit ≤ t.pool.nextId + t.pool.count)
      (fun g m' => ∃ i ∈ shape.indices,
        (next i + shape.parts < Shard.pageIdLimit ∧ g.page = ⟨UInt32.ofNat (next i)⟩) ∧
          Steady shape (g :: guards) (Function.update next i (next i + shape.parts)) m')
      fun e m' => Explains m e ∧ Steady shape guards next m' := by
  rw [Pool.allocate, ends_byShape]
  cases h with
  | @single _ index count _ _ s d h =>
    refine h.allocate.mono fun r t ht => ?_
    refine ht.imp (fun ha => ⟨_, .single s d, ha.1, ?_⟩)
      (fun g hg => ⟨index, List.mem_singleton_self index, hg.1, .single ?_⟩)
      fun e he => ⟨.of_single he.2.1, .single he.2.2⟩
    · have hcount : s.count = count := h.sound.count_eq
      exact h.counts.nextId_eq ▸ hcount ▸ ha.2
    · rw [Function.update_self]
      exact hg.2
  | @sharded k _ _ p d h =>
    refine h.allocate.mono fun r t ht => ?_
    refine ht.imp (fun ⟨i, m', hreaches, hfound, hlimit⟩ =>
        ⟨_, .sharded hreaches, hfound, ?_⟩)
      (fun g ⟨i, hnew, hsteady⟩ => ⟨i, List.mem_range.mpr i.isLt, hnew, .sharded hsteady⟩)
      fun e he => ⟨.of_sharded he.1, .sharded he.2⟩
    have hi := (h.reaches hreaches).shard i
    have hcount : (m'.pool.shards.get i).count = k := hi.sound.count_eq
    have hnext : (m'.pool.shards.get i).nextId = next i := hi.counts.nextId_eq
    simpa only [hnext, hcount] using hlimit

-- What both shapes of a pool do without giving a guard out or running full.
theorem byShape_same {α : Type} (h : Steady shape guards next m)
    {single : Op (Mounted (Shard n) D) α} {sharded : (k : Nat) → Op (Mounted (ShardedPool n k) D) α}
    {A : Prop} (hsingle : ∀ (c : ShardConfig) (m : Mounted (Shard n) D) (next : Nat),
      Shard.Steady c guards next m → single.Ends m (Op.AnswersUnless A
        (fun _ m' => Shard.Steady c guards next m')
        fun e m' => LawfulStore.Gives D e ∧ Shard.Steady c guards next m'))
    (hsharded : ∀ (k : Nat) (m : Mounted (ShardedPool n k) D), ShardedPool.Steady guards next m →
      (sharded k).Ends m (Op.AnswersUnless A (fun _ m' => ShardedPool.Steady guards next m')
        fun e m' => LawfulStore.Gives D e ∧ ShardedPool.Steady guards next m')) :
    (Pool.byShape single sharded).Ends m <| Op.AnswersUnless A
      (fun _ m' => Steady shape guards next m')
      fun e m' => LawfulStore.Gives D e ∧ Steady shape guards next m' := by
  rw [ends_byShape]
  cases h with
  | single h =>
    refine (hsingle _ _ _ h).mono fun r t ht => ?_
    exact ht.imp id (fun _ ha => .single ha) fun e he => ⟨he.1, .single he.2⟩
  | sharded h =>
    refine (hsharded _ _ h).mono fun r t ht => ?_
    exact ht.imp id (fun _ ha => .sharded ha) fun e he => ⟨he.1, .sharded he.2⟩

theorem delete (h : Steady shape guards next m) (id : PageId) :
    (Pool.delete id).Ends m <| Op.AnswersUnless False (fun _ m' => Steady shape guards next m')
      fun e m' => LawfulStore.Gives D e ∧ Steady shape guards next m' :=
  h.byShape_same (fun _ _ _ h => h.delete id) fun _ _ h => h.delete id

theorem flush (h : Steady shape guards next m) (id : PageId) :
    (Pool.flush id).Ends m <| Op.AnswersUnless (Crowded id guards)
      (fun _ m' => Steady shape guards next m')
      fun e m' => LawfulStore.Gives D e ∧ Steady shape guards next m' :=
  h.byShape_same (fun _ _ _ h => h.flush id) fun _ _ h => h.flush id

theorem flushAll (h : Steady shape guards next m) (walk : Walk) :
    (Pool.flushAll (D := D) walk).Ends m <| Op.AnswersUnless (∃ id, Crowded id guards)
      (fun _ m' => Steady shape guards next m')
      fun e m' => LawfulStore.Gives D e ∧ Steady shape guards next m' :=
  h.byShape_same (fun _ _ _ h => h.flushAll walk) fun _ _ h => h.flushAll walk

-- Without guards, a pool is flushed unless its store fails.
theorem flushAll_answers (h : Steady shape [] next m) (hstore : ∀ e, ¬ LawfulStore.Gives D e)
    (walk : Walk) : (Pool.flushAll walk m).result = .ok () := by
  have hends := h.flushAll walk
  rw [Op.Ends] at hends
  cases hr : (Pool.flushAll walk m).result using Checked.outcomes with
  | ok _ => rfl
  | error e =>
    rw [hr] at hends
    exact absurd hends.1 (hstore e)
  | abort a =>
    rw [hr] at hends
    obtain ⟨_, id, hcrowded⟩ := hends
    exact absurd hcrowded (not_crowded_of_forall_ne nofun)

theorem release {g : Guard n} (h : Steady shape (g :: guards) next m) :
    (Pool.release g).Ends m fun r m' => r = .ok () ∧ Steady shape guards next m' := by
  rw [Pool.release, ends_byShape]
  cases h with
  | single h => exact (Shard.Steady.release h).mono fun r t ht => ⟨ht.1, .single ht.2⟩
  | sharded h => exact (ShardedPool.Steady.release h).mono fun r t ht => ⟨ht.1, .sharded ht.2⟩

theorem write (h : Steady shape guards next m) (g : Guard n) (page : Page) :
    Steady shape guards next ⟨m.pool.write g page, m.store⟩ := by
  cases h with
  | single h => exact .single (Shard.Steady.write h g page)
  | sharded h => exact .sharded (ShardedPool.Steady.write h g page)

end Steady

end Pool

end PagedIndex
