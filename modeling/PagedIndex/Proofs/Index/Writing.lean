import PagedIndex.Proofs.Index.Fullness
import PagedIndex.Proofs.Index.Independence
import PagedIndex.Proofs.Index.Merging
import PagedIndex.Proofs.Index.Pages
import PagedIndex.Proofs.Index.Watched

namespace PagedIndex

-- Buckets with different pairs differ in their bytes.
theorem Bucket.page_ne {K V : Type} [FixedWidth K] [FixedWidth V] {b b' : Bucket K V}
    (hcapacity : b'.capacity = b.capacity) (hentries : b'.entries ≠ b.entries) : b'.page ≠ b.page := by
  intro hpage
  have hview := b'.view_eq
  rw [hpage, hcapacity, b.view_eq] at hview
  exact hentries (congrArg entries (Except.ok.inj hview)).symm

-- A bucket from which a pair was taken, emptied if that was its last.
theorem Bucket.Packed.page_remove?_ne {K V : Type} [FixedWidth K] [FixedWidth V] [DecidableEq V]
    {b rest : Bucket K V} {m : Nat} (h : b.Packed m) {order : K → K → Ordering} {key : K} {value : V}
    (hremove : b.remove? order key value = some rest) :
    (if rest.count == 0 then rest.clear else rest).page ≠ b.page := by
  obtain ⟨hcapacity, hpacked, hentries⟩ := h.remove? order key value hremove
  obtain ⟨_, -, hcapacity', hentries', -⟩ := hpacked.clear_of_count_eq_zero
  have hany := b.remove?_isSome order key value
  rw [hremove, Option.isSome_some] at hany
  refine Bucket.page_ne (hcapacity'.trans hcapacity) fun heq => ?_
  have hlength := congrArg List.length (hentries.symm.trans (hentries'.symm.trans heq))
  obtain ⟨pair, hpair, -⟩ := List.any_eq_true.mp hany.symm
  have hpos := List.length_pos_of_mem hpair
  rw [List.length_eraseP, if_pos hany.symm] at hlength
  omega

-- Directories that are different differ in their bytes.
theorem Directory.writeTo_ne {d : Directory} {p : Page} (h : d ≠ ofPage p) : d.writeTo p ≠ p := by
  intro hpage
  rw [← ofPage_writeTo d p, hpage] at h
  exact h rfl

namespace HashIndex

open PagePool WatchedPool

variable {K V : Type} [FixedWidth K] [FixedWidth V] [DecidableEq V] {t : HashIndex K V}
  {d : Directory} {pairs : List (K × V)} {σ γ : Type} [PagePool σ γ]

-- A split that fails does so before it comes to write.
theorem split_fails {s : Nat} (hpart : d.Partitioned) (hs : s < d.size) {b : Bucket K V}
    (hcapacity : b.capacity = t.capacity) (guard : γ) (u : σ) :
    (t.split d s guard b : Op σ Directory).Ends u fun r v => ∀ e, r = .error (.error e) →
      v = u ∨ (allocate (σ := σ)).Ends u fun r' v' => r' = .error (.error e) ∧ v' = v := by
  rw [split, hpart.bucket_eq hs, hpart.localDepth_eq hs, Op.ends_bind, Op.ends_liftM, Op.then_ok,
    Op.ends_bind, Op.ends_liftM, Op.then_ok, Op.ends_bind]
  refine (deepen_ends hpart hs u).mono fun r u' hr => ?_
  cases r using Checked.outcomes with
  | abort a => exact hr.elim
  | error e =>
    obtain ⟨-, rfl⟩ := hr
    exact fun _ _ => Or.inl rfl
  | ok room =>
    obtain ⟨⟨hroom, -⟩, rfl⟩ := hr
    rw [Op.then_ok, withNewPage, Op.ends_bind]
    unfold Op.Ends
    cases hgiven : (allocate u').result using Checked.outcomes with
    | error e =>
      rintro _ ⟨rfl⟩
      exact Or.inr ⟨rfl, rfl⟩
    | abort a =>
      intro e he
      cases he
    | ok fresh =>
      have hdepth : d.depthAt s < 32 := hroom.depth_eq ▸
        hroom.depth_lt.trans hroom.partitioned.depth_lt_word
      have hview (p : Page) : Bucket.view p t.capacity = .ok ({ b with page := p } : Bucket K V) := by
        rw [← hcapacity]
        exact ({ b with page := p } : Bucket K V).view_eq
      simp only [Op.then_ok, Op.ends_ensuring, Op.ends_bind, Op.ends_liftM,
        hroom.partitioned.divide_eq _ _ hdepth, writePage, Op.ends_update, readBucket, readPage,
        Op.ends_observe, hview, Op.ends_report, Op.ends_pure]
      refine Op.ends_of_forall fun _ _ e he => ?_
      cases he

-- The state in which a removal starts to merge, at this slot of the directory. It has taken the last
-- pair out of the bucket of the key.
def ReachesMerge (t : HashIndex K V) (key : K) (value : V) (s s' : σ) (d : Directory) (slot : Nat) :
    Prop :=
  ∃ (directory : γ) (bucket : PageId),
    let opened := (fetch t.directory .exclusive : Op σ γ) s
    let page := read directory opened.state
    let removed := (withPage bucket .exclusive (t.removeFrom key value) : Op σ (Option Bool)) opened.state
    opened.result = .ok directory ∧ Directory.bucketFor page (t.hash key) = .ok bucket ∧
      removed.result = .ok (some true) ∧ removed.state = s' ∧
      Directory.ofPage page = d ∧ d.slotOf (t.hash key) = .ok slot

-- At least one step of the merging succeeds, as the first one does.
def MergesAfter (t : HashIndex K V) (key : K) (value : V) (s : σ) : Prop :=
  ∃ s' d slot merged, t.ReachesMerge key value s s' d slot ∧
    (t.mergeStep d slot s').result = .ok (some merged)

section

variable {key : K} {value : V} {s s' : σ} {slot : Nat} {directory : γ} {p : Page} {bucket : PageId}
  {removed : Outcome σ (Option Bool)}
  (hgiven : ((fetch t.directory .exclusive : Op σ γ) s).result = .ok directory)
  (hread : read directory ((fetch t.directory .exclusive : Op σ γ) s).state = p)
  (hbucket : Directory.bucketFor p (t.hash key) = .ok bucket)
  (hremoved : (withPage bucket .exclusive (t.removeFrom key value) : Op σ (Option Bool))
    ((fetch t.directory .exclusive : Op σ γ) s).state = removed)
include hgiven hread hbucket hremoved

theorem reachesMerge_iff : t.ReachesMerge key value s s' d slot ↔ removed.result = .ok (some true) ∧
    removed.state = s' ∧ Directory.ofPage p = d ∧ d.slotOf (t.hash key) = .ok slot := by
  subst hread hremoved
  constructor
  · rintro ⟨directory', bucket', hgiven', hbucket', hreached⟩
    obtain rfl := Except.ok.inj (hgiven.symm.trans hgiven')
    obtain rfl := Except.ok.inj (hbucket.symm.trans hbucket')
    exact hreached
  · exact fun hreached => ⟨directory, bucket, hgiven, hbucket, hreached⟩

-- A removal merges only if it empties the bucket, and then from the slot of the key.
theorem mergesAfter_iff (hslot : (Directory.ofPage p).slotOf (t.hash key) = .ok slot) :
    t.MergesAfter key value s ↔ removed.result = .ok (some true) ∧
      ∃ merged, (t.mergeStep (Directory.ofPage p) slot removed.state).result = .ok (some merged) := by
  constructor
  · rintro ⟨s', d, slot', merged, hreached, hstep⟩
    obtain ⟨hresult, rfl, rfl, hslot'⟩ := (reachesMerge_iff hgiven hread hbucket hremoved).mp hreached
    obtain rfl := Except.ok.inj (hslot.symm.trans hslot')
    exact ⟨hresult, merged, hstep⟩
  · rintro ⟨hresult, merged, hstep⟩
    have hreached := (reachesMerge_iff hgiven hread hbucket hremoved).mpr ⟨hresult, rfl, rfl, hslot⟩
    exact ⟨_, _, _, merged, hreached, hstep⟩

end

omit [DecidableEq V] in
theorem Merges.ne_zero_iff {v v' : σ} {d' : Directory} {slot last n : Nat}
    (h : t.Merges v d slot n v' d' last) :
    n ≠ 0 ↔ ∃ merged, (t.mergeStep d slot v).result = .ok (some merged) := by
  cases h with
  | settled hstep => simp [hstep]
  | failed hstep => simp [hstep]
  | merged hstep _ => simp [hstep]

section Answers

variable {key : K} {value : V} {s : σ} {bucket : PageId} {W W' : Footprint → Prop}

-- What an insertion answers by whether the pair is there, if one that is there is no error.
def inserted : Checked Unit → Checked Bool
  | .ok () => .ok true
  | .error (.error .duplicateEntry) => .ok false
  | .error f => .error f

-- What an insertion writes, by its answer, where `W` says of a footprint that it is the one. Nothing is
-- said of an insertion that has split a bucket.
structure InsertWrites (t : HashIndex K V) (key : K) (value : V) (s : σ) (bucket : PageId)
    (r : Checked Bool) (W : Footprint → Prop) : Prop where
  found : r = .ok false → W .empty
  failed (e : StoreError) : t.Rounds key value s [] s → r = .error (.error e) → W .empty
  stored : t.Rounds key value s [] s → r = .ok true → W ⟨[bucket], [bucket]⟩

theorem inserted_error (e : StoreError) : inserted (.error (.error e)) = .error (.error e) ∨
    e = .duplicateEntry ∧ inserted (.error (.error e)) = .ok false := by
  cases e <;> first | exact Or.inl rfl | exact Or.inr ⟨rfl, rfl⟩

theorem ends_insert (Q : Checked Bool → σ → Prop) : (t.insert key value : Op σ Bool).Ends s Q ↔
    (t.tryInsert key value : Op σ Unit).Ends s fun r u => Q (inserted r) u := by
  rw [insert, Op.ends_bind, Op.ends_attempt]
  refine Op.ends_congr fun r u => ?_
  cases r using Checked.outcomes with
  | ok _ => rfl
  | error e => cases e <;> rfl
  | abort a => rfl

theorem InsertWrites.imp {r : Checked Bool} (h : t.InsertWrites key value s bucket r W)
    (hW : ∀ F, W F → W' F) : t.InsertWrites key value s bucket r W' :=
  ⟨fun hr => hW _ (h.found hr), fun e hround hr => hW _ (h.failed e hround hr),
    fun hround hr => hW _ (h.stored hround hr)⟩

-- What a removal writes, by its answer and by what becomes of the merging. The bucket may be in the
-- store already when buckets were looked at for merging.
structure RemovalWrites (t : HashIndex K V) (key : K) (value : V) (s : σ) (bucket : PageId)
    (r : Checked Bool) (W : Footprint → Prop) : Prop where
  missing : r = .ok false → W .empty
  failed (e : StoreError) : r = .error (.error e) → W .empty
  merged : r = .ok true → t.MergesAfter key value s → W ⟨[t.directory, bucket], [t.directory]⟩
  unmerged : r = .ok true → ¬ t.MergesAfter key value s → W ⟨[bucket], []⟩
  filled : r = .ok true → (∀ s' d slot, ¬ t.ReachesMerge key value s s' d slot) →
    W ⟨[bucket], [bucket]⟩

namespace RemovalWrites

theorem imp {r : Checked Bool} (h : t.RemovalWrites key value s bucket r W) (hW : ∀ F, W F → W' F) :
    t.RemovalWrites key value s bucket r W' :=
  ⟨fun hr => hW _ (h.missing hr), fun e hr => hW _ (h.failed e hr),
    fun hr hmerges => hW _ (h.merged hr hmerges), fun hr hnone => hW _ (h.unmerged hr hnone),
    fun hr hnone => hW _ (h.filled hr hnone)⟩

theorem of_missing (hW : W .empty) : t.RemovalWrites key value s bucket (.ok false) W :=
  ⟨fun _ => hW, nofun, nofun, nofun, nofun⟩

theorem of_error {e : StoreError} (hW : W .empty) :
    t.RemovalWrites key value s bucket (.error (.error e)) W :=
  ⟨nofun, fun _ _ => hW, nofun, nofun, nofun⟩

theorem of_removed (hmerged : t.MergesAfter key value s → W ⟨[t.directory, bucket], [t.directory]⟩)
    (hunmerged : ¬ t.MergesAfter key value s → W ⟨[bucket], []⟩)
    (hfilled : (∀ s' d slot, ¬ t.ReachesMerge key value s s' d slot) → W ⟨[bucket], [bucket]⟩) :
    t.RemovalWrites key value s bucket (.ok true) W :=
  ⟨nofun, nofun, fun _ => hmerged, fun _ => hunmerged, fun _ => hfilled⟩

end RemovalWrites

end Answers

variable [WatchedPool σ γ] {guards : List γ} {w : Ledger} {F : Footprint} {s : σ} {key : K} {value : V}
  {id : PageId} {b : Bucket K V} {m : Nat}

-- What leaves the ledger as it is on every pool to which nothing is written.
theorem writes_nothing {α : Type} {x : Op σ α} (hs : Kept .empty s guards w)
    (h : let := reading σ .empty
      Does guards w x (fun _ w' => w' = w) (Refused (σ := σ) guards w)) :
    x.Ends s fun _ u => Wrote .empty u guards w := by
  refine (h s hs).mono fun r u hr => ?_
  cases r using Checked.outcomes with
  | ok a =>
    obtain ⟨_, hu, rfl⟩ := hr
    exact ⟨_, .nil rfl, hu⟩
  | error e =>
    obtain ⟨_, hu, -, rfl, -⟩ := hr
    exact ⟨w.refuse, .nil rfl, hu⟩
  | abort a => exact hr.elim

omit [DecidableEq V] in
theorem ends_readBucket (hs : Kept F s guards w) {g : γ} (hg : g ∈ guards)
    (hcapacity : b.capacity = t.capacity) (hpage : w.memory (pageOf σ g) = some b.page)
    (Q : Checked (Bucket K V) → σ → Prop) :
    (t.readBucket g : Op σ (Bucket K V)).Ends s Q ↔ Q (.ok b) s := by
  rw [readBucket, Op.ends_bind, ends_readPage hs hg hpage, Op.then_ok, Op.ends_liftM, ← hcapacity,
    b.view_eq]

-- A directory that is another than at first is written, the first time.
theorem writeDirectory_writes {g : γ} {p : Page} {d' : Directory} (hs : Wrote F s guards w)
    (hg : g ∈ guards) (haccess : access σ g = .exclusive) (hp : w.memory (pageOf σ g) = some p)
    (hnew : pageOf σ g ∉ F.written) (hne : d' ≠ Directory.ofPage p) :
    (writeDirectory d' g : Op σ Unit).Ends s fun r u =>
      r = .ok () ∧ Wrote (F.wrote (pageOf σ g)) u guards w := by
  obtain ⟨w₁, hedited, hs⟩ := hs
  have hp₁ : w₁.memory (pageOf σ g) = some p := by
    rw [Ledger.memory, hedited.same _ hnew]
    exact hp
  rw [writeDirectory, Op.ends_bind, ends_readPage hs hg hp₁, Op.then_ok, writePage, Op.ends_update]
  exact ⟨rfl, _, hedited.put hnew hp (Directory.writeTo_ne hne), write_kept hs hg haccess _⟩

omit [DecidableEq V] in
-- A bucket to which a pair is appended is not as it was.
theorem append_writes [RoundTrip K] [RoundTrip V] (hs : Kept .empty s guards w) {guard : γ}
    (hguard : guard ∈ guards) (hpage : pageOf σ guard = id) (haccess : access σ guard = .exclusive)
    (hbucket : w.memory id = some b.page) {b' : Bucket K V} (hcapacity : b'.capacity = b.capacity)
    (hentries : b'.entries = b.entries) (hpacked : b'.Packed m) (hm : m < b'.capacity) (key : K)
    (value : V) :
    (do
      appendTo guard b' key value
      return true : Op σ Bool).Ends s fun r u => r = .ok true ∧ Wrote ⟨[id], [id]⟩ u guards w := by
  subst hpage
  refine ⟨rfl, _, ?_, write_kept hs hguard haccess _⟩
  refine Ledger.Edited.put (.nil rfl) List.not_mem_nil hbucket ?_
  rw [hpacked.append? hm, Option.getD_some]
  refine Bucket.page_ne hcapacity ?_
  rw [(hpacked.put hm key value).2, hentries]
  exact fun h => List.cons_ne_nil _ _ (List.append_right_eq_self.mp h)

-- An insertion of which the first round is the last writes to the bucket of the key and nowhere else,
-- and only if it stores the pair.
theorem insertOrSplit_writes [RoundTrip K] [RoundTrip V] (hs : Kept .empty s guards w)
    (h : t.Represents w.sheets d pairs) (hclear : t.Clear σ d guards) (key : K) (value : V) :
    (t.insertOrSplit key value : Op σ Bool).Ends s fun
      | .ok true, u => Wrote ⟨[d.owner (t.hash key)], [d.owner (t.hash key)]⟩ u guards w
      | .error (.error _), u => Wrote .empty u guards w
      | _, _ => True := by
  obtain ⟨p, hp, rfl⟩ := h.directory
  obtain ⟨b, m, hb⟩ := h.routes.stores (t.hash key)
  have hpart := h.routes.partitioned
  have hdirectory := Ledger.memory_of_written hp
  have hbucket := Ledger.memory_of_written hb.page_eq
  unfold insertOrSplit
  refine ends_withPage hs hdirectory (fun g hg => (hclear g hg).1)
    (fun directory _ hdpage _ hopened => ?_) fun e hrefused =>
    ⟨w.refuse, .nil rfl, hrefused⟩
  rw [Op.ends_bind, ends_readPage hopened List.mem_cons_self (hdpage ▸ hdirectory), Op.then_ok,
    Op.ends_bind, hpart.bucketFor_eq, Op.ends_liftM, Op.then_ok]
  refine ends_withPage hopened hbucket (fun g hg => hclear.buckets h.routes hdpage g hg _)
    (fun guard _ hpage haccess hheld => ?_)
    fun e hrefused => Wrote.release ⟨w.refuse, .nil rfl, hrefused⟩
  have hleft {F : Footprint} {v : σ} (hv : Wrote F v (guard :: directory :: guards) w) :
      (release guard).Ends v fun _ v' => (release directory).Ends v' fun _ u => Wrote F u guards w :=
    hv.release.mono fun _ _ hv' => hv'.release
  rw [Op.ends_bind, ends_readBucket hheld List.mem_cons_self hb.capacity_eq (hpage ▸ hbucket),
    Op.then_ok]
  by_cases hmatch : b.contains t.policy.order key value = true
  · rw [if_pos hmatch, Op.ends_fail]
    exact hleft ⟨w, .nil rfl, hheld⟩
  rw [if_neg hmatch]
  by_cases hfull : b.isFull = true
  swap
  · rw [if_neg hfull]
    have hm : m < b.capacity := Nat.lt_of_le_of_ne hb.packed.le_capacity fun heq =>
      hfull (hb.packed.isFull_iff.mpr heq)
    refine (append_writes hheld List.mem_cons_self hpage haccess hbucket rfl rfl hb.packed hm key
      value).mono fun _ _ hv => ?_
    exact hv.1 ▸ hleft hv.2
  rw [if_pos hfull]
  by_cases hlive : t.capacity ≤ b.count
  swap
  · rw [if_neg hlive]
    have hdistinct : Distinct t.policy.order b.entries := hb.entries_eq ▸ hb.distinct
    obtain ⟨hcapacity, hpacked, hentries⟩ := hb.packed.compact hdistinct
    have hm : b.entries.length < (b.compact t.policy.order).capacity := by
      rw [hcapacity, hb.capacity_eq, ← b.count_eq_length]
      exact Nat.lt_of_not_le hlive
    refine (append_writes hheld List.mem_cons_self hpage haccess hbucket hcapacity hentries hpacked hm
      key value).mono fun _ _ hv => ?_
    exact hv.1 ▸ hleft hv.2
  -- what a split writes is not followed any further
  rw [if_pos hlive, Op.ends_bind, hpart.slotOf_eq, Op.ends_liftM, Op.then_ok, Op.ends_bind]
  refine (split_fails hpart (Directory.route_lt_size _ _) hb.capacity_eq guard _).mono fun r v hv => ?_
  cases r using Checked.outcomes with
  | ok d' => exact trivial
  | error e =>
    rcases hv e rfl with rfl | hrefused
    · exact hleft ⟨w, .nil rfl, hheld⟩
    · obtain ⟨hresult, rfl⟩ := hrefused
      have hkept := allocate_ends hheld
      rw [Op.Ends, hresult] at hkept
      exact hleft ⟨w.refuse, .nil rfl, hkept⟩
  | abort a => exact trivial

-- An insertion that does not split writes what its only round writes.
theorem tryInsert_writes_round [RoundTrip K] [RoundTrip V] (hs : Kept .empty s guards w)
    (h : t.Represents w.sheets d pairs) (hclear : t.Clear σ d guards) {key : K} {value : V}
    (hround : t.Rounds key value s [] s) :
    (t.tryInsert key value : Op σ Unit).Ends s (Op.AnswersOr (fun _ => True)
      (fun _ u => Wrote ⟨[d.owner (t.hash key)], [d.owner (t.hash key)]⟩ u guards w)
      fun _ u => Wrote .empty u guards w) := by
  obtain ⟨hresult, hstate⟩ := hround.insertWithin_eq (Nat.zero_lt_succ 32)
  have hwrites := insertOrSplit_writes hs h hclear key value
  rw [Op.Ends] at hwrites
  rw [tryInsert, Op.Ends, hresult, hstate]
  cases hr : ((t.insertOrSplit key value : Op σ Bool) s).result using Checked.outcomes with
  | ok stored =>
    rw [hr] at hwrites
    cases stored with
    | true => exact hwrites
    | false =>
      cases hround with
      | last hlast => exact absurd hr hlast
  | error e =>
    rw [hr] at hwrites
    exact hwrites
  | abort a => exact trivial

theorem tryInsert_writes [RoundTrip K] [RoundTrip V] (hs : Kept .empty s guards w)
    (h : t.Represents w.sheets d pairs) (hclear : t.Clear σ d guards) (key : K) (value : V)
    (hduplicate : ((t.tryInsert key value : Op σ Unit) s).result = .error (.error .duplicateEntry) →
      t.Rounds key value s [] s) :
    (t.tryInsert key value : Op σ Unit).Ends s fun r u =>
      t.InsertWrites key value s (d.owner (t.hash key)) (inserted r) fun F => Wrote F u guards w := by
  have hwrites (hround : t.Rounds key value s [] s) := tryInsert_writes_round hs h hclear hround
  rw [Op.Ends] at hwrites ⊢
  cases hr : ((t.tryInsert key value : Op σ Unit) s).result using Checked.outcomes with
  | ok _ =>
    rw [hr] at hwrites
    exact ⟨nofun, nofun, fun hround _ => hwrites hround⟩
  | error e =>
    rw [hr] at hwrites hduplicate
    rcases inserted_error e with hinserted | ⟨rfl, hinserted⟩
    · rw [hinserted]
      exact ⟨nofun, fun _ hround _ => hwrites hround, nofun⟩
    · rw [hinserted]
      exact ⟨fun _ => hwrites (hduplicate rfl), nofun, nofun⟩
  | abort a => exact ⟨nofun, nofun, nofun⟩

-- What is left of the bucket is written if the pair was there.
theorem removeFrom_writes (hs : Kept .empty s guards w) (hb : t.IsBucket w.sheets id pairs b m)
    (hclear : ∀ g ∈ guards, pageOf σ g ≠ id) (key : K) (value : V) :
    (withPage id .exclusive (t.removeFrom key value) : Op σ (Option Bool)).Ends s fun
      | .ok none, u => Kept .empty u guards w
      | .ok (some emptied), u => ∃ rest, b.remove? t.policy.order key value = some rest ∧
          emptied = (rest.count == 0) ∧ Kept ⟨[id], [id]⟩ u guards
            (w.put id (if rest.count == 0 then rest.clear else rest).page)
      | .error (.error _), u => Kept .empty u guards w.refuse
      | .error (.abort _), _ => False := by
  have hbucket := Ledger.memory_of_written hb.page_eq
  refine ends_withPage hs hbucket hclear (fun guard _ hpage haccess hheld => ?_) fun e hrefused => hrefused
  rw [removeFrom, Op.ends_bind, ends_readBucket hheld List.mem_cons_self hb.capacity_eq
    (hpage ▸ hbucket), Op.then_ok]
  cases hremove : b.remove? t.policy.order key value with
  | none => exact release_ends hheld
  | some rest =>
    subst hpage
    have hwritten := write_kept hheld List.mem_cons_self haccess
      (if rest.count == 0 then rest.clear else rest).page
    dsimp only
    rw [Op.ends_bind, writePage, Op.ends_update, Op.then_ok, Op.ends_pure]
    exact (release_ends hwritten).mono fun _ u hu => ⟨rest, rfl, rfl, hu⟩

-- Merging only reads. The directory is changed if a step succeeds, and otherwise it is not.
theorem merge_reads {v : σ} (hv : Kept F v guards w) (h : t.Routes w.sheets d pairs)
    (hclear : ∀ g ∈ guards, ∀ hash, pageOf σ g ≠ d.owner hash) {slot : Nat} (hslot : slot < d.size) :
    (t.merge d slot : Op σ (Directory × Bool)).Ends v fun r u => ∃ d' changed w',
      r = .ok (d', changed) ∧ w'.sheets = w.sheets ∧ Kept F.called u guards w' ∧
      (changed = true ↔ ∃ merged, (t.mergeStep d slot v).result = .ok (some merged)) ∧
      (changed = true → d' ≠ d) := by
  have hpart := h.partitioned
  let := reading σ F
  have := shedding σ F
  let Empty (id : PageId) : Prop := t.routed d id pairs = []
  have hempty (hash : UInt32) : Does guards w (t.isEmptyBucket (d.owner hash) : Op σ Bool)
      (fun empty w' => (empty ↔ Empty (d.owner hash)) ∧ w' = w) (Refused (σ := σ) guards w) :=
    isEmptyBucket_does (h.stores hash) fun g hg => hclear g hg hash
  obtain ⟨n, v', w', d', last, hmerges, hmergesTo, hkept, hsheets, -⟩ :=
    merges_of_empties (fun _ => id) (settled hv) hpart h.tight hslot hempty
  have hsteps := hmergesTo.depthOf_add_le
  have hlimit : n < 100 := by
    have hdepth := (hpart.depthOf_le slot).trans hpart.depth_le
    rw [Directory.maxDepth] at hdepth
    omega
  refine (hmerges.mergeWithin_ends hlimit false).mono fun r u hr => ?_
  obtain ⟨rfl, rfl⟩ := hr
  refine ⟨d', _, w', rfl, hsheets, hkept, ?_, ?_⟩
  · rw [Bool.false_or, decide_eq_true_iff, hmerges.ne_zero_iff]
  · rw [Bool.false_or, decide_eq_true_iff]
    rintro hn rfl
    omega

-- The rest of a removal that has emptied the bucket.
theorem merging_writes {v : σ} {directory : γ} {p : Page} {w₁ : Ledger} {slot : Nat}
    (hv : Kept F v (directory :: guards) w₁) (hedited : w.Edited F.written w₁)
    (haccess : access σ directory = .exclusive) (hp : w.memory (pageOf σ directory) = some p)
    (hnew : pageOf σ directory ∉ F.written) (h : t.Routes w₁.sheets (Directory.ofPage p) pairs)
    (hclear : ∀ g ∈ directory :: guards, ∀ hash, pageOf σ g ≠ (Directory.ofPage p).owner hash)
    (hslot : slot < (Directory.ofPage p).size) :
    let merges := ∃ merged, (t.mergeStep (Directory.ofPage p) slot v).result = .ok (some merged)
    (t.merge (Directory.ofPage p) slot >>= fun merged =>
      if merged.2 = true then writeDirectory merged.1 directory >>= fun _ => pure true
      else pure true : Op σ Bool).Ends v fun r u => r = .ok true ∧
        (merges → Wrote (F.called.wrote (pageOf σ directory)) u (directory :: guards) w) ∧
        (¬ merges → Wrote F.called u (directory :: guards) w) := by
  rw [Op.ends_bind]
  refine (merge_reads hv h hclear hslot).mono fun r u hr => ?_
  obtain ⟨d', changed, w', rfl, hsheets, hkept, hmerges, hne⟩ := hr
  have hwrote : Wrote F.called u (directory :: guards) w := ⟨w', hedited.congr hsheets, hkept⟩
  rw [Op.then_ok, ← hmerges]
  cases changed with
  | false => exact ⟨rfl, nofun, fun _ => hwrote⟩
  | true =>
    rw [if_pos rfl, Op.ends_bind]
    refine (writeDirectory_writes hwrote List.mem_cons_self haccess hp hnew (hne rfl)).mono
      fun r u' hu' => ?_
    obtain ⟨rfl, hwritten⟩ := hu'
    exact ⟨rfl, fun _ => hwritten, fun hnone => absurd rfl hnone⟩

theorem remove_writes [RoundTrip K] [RoundTrip V] (hs : Kept .empty s guards w)
    (h : t.Represents w.sheets d pairs) (hclear : t.Clear σ d guards) (key : K) (value : V) :
    (t.remove key value : Op σ Bool).Ends s fun r u =>
      t.RemovalWrites key value s (d.owner (t.hash key)) r fun F => Wrote F u guards w := by
  obtain ⟨p, hp, rfl⟩ := h.directory
  obtain ⟨b, m, hb⟩ := h.routes.stores (t.hash key)
  have hpart := h.routes.partitioned
  have hdirectory := Ledger.memory_of_written hp
  have hslot := hpart.slotOf_eq (t.hash key)
  have hlisted := hpart.bucketFor_eq (t.hash key)
  unfold remove
  refine ends_withPage hs hdirectory (fun g hg => (hclear g hg).1)
    (fun directory hgiven hdpage hdaccess hopened => ?_) fun e hrefused =>
    .of_error ⟨w.refuse, .nil rfl, hrefused⟩
  have hbuckets := hclear.buckets h.routes hdpage
  have hremoved := removeFrom_writes hopened hb (fun g hg => hbuckets g hg _) key value
  rw [← hdpage] at hdirectory
  have hread : read directory (fetch t.directory .exclusive s).state = p :=
    Option.some_inj.mp ((read_eq hopened List.mem_cons_self).symm.trans hdirectory)
  rw [Op.ends_bind, ends_readPage hopened List.mem_cons_self hdirectory, Op.then_ok, Op.ends_bind,
    hlisted, Op.ends_liftM, Op.then_ok, Op.ends_bind]
  rw [Op.Ends] at hremoved ⊢
  generalize hout : (withPage ((Directory.ofPage p).owner (t.hash key)) .exclusive
    (t.removeFrom key value) : Op σ (Option Bool)) (fetch t.directory .exclusive s).state = removed
    at hremoved ⊢
  have hmerges := mergesAfter_iff hgiven hread hlisted hout hslot
  have hleft {F : Footprint} {v : σ} (r : Checked Bool) (hv : Wrote F v (directory :: guards) w)
      (hr : ∀ u, Wrote F u guards w →
        t.RemovalWrites key value s ((Directory.ofPage p).owner (t.hash key)) r fun F =>
          Wrote F u guards w) :
      (release directory).Ends v fun _ u =>
        t.RemovalWrites key value s _ r fun F => Wrote F u guards w :=
    hv.release.mono fun _ u hu => hr u hu
  cases hresult : removed.result using Checked.outcomes with
  | error e =>
    rw [hresult] at hremoved
    exact hleft (F := .empty) _ ⟨w.refuse, .nil rfl, hremoved⟩ fun _ hu => .of_error hu
  | abort a =>
    rw [hresult] at hremoved
    exact hremoved.elim
  | ok emptied? =>
    rw [hresult] at hremoved hmerges
    cases emptied? with
    | none => exact hleft (F := .empty) _ ⟨w, .nil rfl, hremoved⟩ fun _ hu => .of_missing hu
    | some emptied =>
      obtain ⟨rest, hremove, rfl, hkept⟩ := hremoved
      have hedited := Ledger.Edited.put (.nil rfl) List.not_mem_nil (Ledger.memory_of_written hb.page_eq)
        (hb.packed.page_remove?_ne hremove)
      cases hempty : (rest.count == 0) with
      | false =>
        rw [hempty] at hmerges
        exact hleft (.ok true) ⟨_, hedited, hkept⟩ fun _ hu => .of_removed
          (fun hmerge => absurd (hmerges.mp hmerge).1 nofun) (fun _ => hu.settled) fun _ => hu
      | true =>
        rw [hempty] at hresult hmerges
        rw [and_iff_right rfl] at hmerges
        have hreached := (reachesMerge_iff hgiven hread hlisted hout).mpr ⟨hresult, rfl, rfl, hslot⟩
        have hnew : pageOf σ directory ∉ [(Directory.ofPage p).owner (t.hash key)] :=
          hdpage ▸ mt List.mem_singleton.mp (Ne.symm (h.routes.apart (t.hash key)))
        have hrest := merging_writes hkept hedited hdaccess hdirectory hnew
          (h.removed hb hremove).routes hbuckets (Directory.route_lt_size _ (t.hash key))
        rw [Op.then_ok]
        dsimp only
        rw [if_pos rfl, Op.ends_bind, hslot, Op.ends_liftM, Op.then_ok]
        refine Op.Ends.mono hrest fun r u hr => ?_
        obtain ⟨rfl, hmerged, hunmerged⟩ := hr
        rw [← hmerges, hdpage] at hmerged
        rw [← hmerges] at hunmerged
        by_cases hmerge : t.MergesAfter key value s
        · exact hleft _ (hmerged hmerge) fun _ hu => .of_removed (fun _ => hu)
            (fun hnone => absurd hmerge hnone) fun hnone => absurd hreached (hnone _ _ _)
        · exact hleft _ (hunmerged hmerge) fun _ hu => .of_removed (fun h => absurd h hmerge)
            (fun _ => hu) fun hnone => absurd hreached (hnone _ _ _)

section Pools

variable {n : Nat} {D : Type} [PageStore D] [LawfulStore D] {guards : List (Guard n)}
  {u : UnreliablePool n D} {key : K} {value : V} [RoundTrip K] [RoundTrip V]

omit [RoundTrip K] [RoundTrip V] in
-- The pool of an index, watched from here on. The pages of others are hidden, and the guards on them.
theorem Represents.watched {w : Ledger} (h : t.Represents w.sheets d pairs)
    (hu : ReadablePool.Kept u guards w) (hclear : t.Clear (UnreliablePool n D) d guards) :
    ∃ (_ : WatchedPool (UnreliablePool n D) (Guard n)) (v : Ledger), Kept .empty u [] v ∧
      t.Represents v.sheets d pairs ∧
      ∀ F (u' : UnreliablePool n D), Wrote F u' [] v → Pool.Changes F u.pool u'.pool := by
  have hhidden : ∀ g ∈ guards, w.outside (t.IsPage w.memory) g.page ≠ none := fun g hg =>
    Ledger.outside_ne_none
      (Ledger.sheets_ne_none_iff.mpr (ReadablePool.read_eq hu hg ▸ Option.some_ne_none _))
      (h.not_isPage hclear g hg)
  refine ⟨Pool.watching n D _ hhidden (Pool.Marked u.pool), w.within (t.IsPage w.memory),
    .start hhidden (.start hu), h.congr fun id hid => Ledger.sheets_within hid, fun F u' hwrote => ?_⟩
  exact Pool.changes_of_wrote hu hhidden hwrote

theorem Reached.rounds_of_duplicate (h : Reached guards t u pairs) (name : String)
    (hduplicate : (({ t with name } : HashIndex K V).tryInsert key value u).result =
      .error (.error .duplicateEntry)) :
    ({ t with name } : HashIndex K V).Rounds key value u [] u := by
  obtain ⟨w, pairs', hkept, hholds, -⟩ := h.holds
  obtain ⟨o, -, hdepicts⟩ := hholds.depicts
  exact HashIndex.rounds_of_duplicate (hdepicts.rename name) hkept hduplicate

-- A handle of any name is asked, and any calls of the pool may fail. What a failed step has done to a
-- copy of the directory is not to be seen in the pool.
theorem reached_writes (h : Reached guards t u pairs) (name : String) :
    let handle : HashIndex K V := { t with name }
    let bucket (key : K) := (t.storedDirectory (Pool.contents u.pool)).owner (t.hash key)
    (∀ query : IndexQuery K V, query.Reads → query.Legal t →
      (query.run handle : Op (UnreliablePool n D) _).Ends u fun _ v =>
        Pool.Changes .empty u.pool v.pool) ∧
    (handle.reportDirectory : Op (UnreliablePool n D) Unit).Ends u (fun _ v =>
      Pool.Changes .empty u.pool v.pool) ∧
    ∀ (key : K) (value : V),
      (handle.insert key value : Op (UnreliablePool n D) Bool).Ends u (fun r v =>
        handle.InsertWrites key value u (bucket key) r fun F => Pool.Changes F u.pool v.pool) ∧
      (handle.tryInsert key value : Op (UnreliablePool n D) Unit).Ends u (fun r v =>
        handle.InsertWrites key value u (bucket key) (inserted r) fun F =>
          Pool.Changes F u.pool v.pool) ∧
      (handle.remove key value : Op (UnreliablePool n D) Bool).Ends u fun r v =>
        handle.RemovalWrites key value u (bucket key) r fun F => Pool.Changes F u.pool v.pool := by
  intro handle bucket
  obtain ⟨w, pairs', hkept, hholds, -⟩ := h.holds
  obtain ⟨d, hrepresents, hclear⟩ := hholds.rename name
  have hbucket (key : K) : bucket key = d.owner (handle.hash key) := by
    have hcontents : Pool.contents u.pool = w.memory := Pool.Kept.contents_eq hkept
    have hdirectory : t.storedDirectory w.memory = d := hrepresents.storedDirectory_eq
    rw [← hdirectory, ← hcontents]
    rfl
  obtain ⟨_, v, hs, hshown, hchanges⟩ := hrepresents.watched hkept hclear
  have hdepicts : handle.Depicts (UnreliablePool n D) ([] : List (Guard n)) _ v := hshown.depicts nofun
  refine ⟨fun query hreads hlegal => ?_, ?_, fun key value => ?_⟩
  · refine (writes_nothing hs ?_).mono fun _ _ hv => hchanges _ _ hv
    let := reading (UnreliablePool n D) .empty
    have hlegal' : query.Legal handle := by cases query <;> exact hlegal
    exact (query.run_reads hdepicts hreads hlegal').mono (fun _ _ ha => ha.2) fun _ _ he => he
  · refine (writes_nothing hs ?_).mono fun _ _ hv => hchanges _ _ hv
    let := reading (UnreliablePool n D) .empty
    exact reportDirectory_does hdepicts.holds
  · rw [hbucket key]
    have hinserts := tryInsert_writes hs hshown nofun key value (h.rounds_of_duplicate name)
    refine ⟨?_, ?_, ?_⟩
    · rw [ends_insert]
      exact hinserts.mono fun _ _ hr => hr.imp fun F => hchanges F _
    · exact hinserts.mono fun _ _ hr => hr.imp fun F => hchanges F _
    · exact (remove_writes hs hshown nofun key value).mono fun _ _ hr => hr.imp fun F => hchanges F _

end Pools

-- A pair that is there is inserted again, and one is removed that was alone in its bucket.
theorem reached_writes_stored :
    let u := narrowIndex.after [.insert 0 7, .insert 1 8] (narrowStart 128)
    let handle : HashIndex UInt32 UInt32 := { narrowIndex with name := "handle" }
    let bucket := (narrowIndex.storedDirectory (Pool.contents u.pool)).owner (narrowIndex.hash 0)
    let inserted := (handle.insert 1 8 : Op (UnreliablePool 128 MemoryStore) Bool) u
    let removed := (handle.remove 0 7 : Op (UnreliablePool 128 MemoryStore) Bool) u
    Reached [] narrowIndex u [(0, 7), (1, 8)] ∧
      (inserted.result = .ok false ∧ Pool.Changes .empty u.pool inserted.state.pool) ∧
      (removed.result = .ok true ∧
        handle.RemovalWrites 0 7 u bucket removed.result fun F =>
          Pool.Changes F u.pool removed.state.pool) := by
  intro u handle bucket inserted removed
  have hlegal : ∀ call ∈ [IndexCall.insert (0 : UInt32) (7 : UInt32), .insert 1 8],
      call.Legal narrowIndex := by simp [IndexCall.Legal]
  have hreached : Reached [] narrowIndex u [(0, 7), (1, 8)] :=
    reached_narrowIndex _ (by decide) hlegal
  have hinserted : inserted.result = .ok false :=
    IndexCall.result_of_flag (narrowIndex_answers _ "handle" (.insert 1 8) (by decide) hlegal trivial)
  have hremoved : removed.result = .ok true :=
    IndexCall.result_of_flag (narrowIndex_answers _ "handle" (.remove 0 7) (by decide) hlegal trivial)
  -- the calls are not to be computed
  clear_value u
  obtain ⟨-, -, hwrites⟩ := reached_writes hreached "handle"
  obtain ⟨hinserts, -, -⟩ := hwrites 1 8
  obtain ⟨-, -, hremoves⟩ := hwrites 0 7
  exact ⟨hreached, ⟨hinserted, hinserts.found hinserted⟩, hremoved, hremoves⟩

end HashIndex

end PagedIndex
