import PagedIndex.Index.Remove
import PagedIndex.Proofs.Index.Representation

namespace PagedIndex.HashIndex

open PagePool

variable {K V : Type} {t : HashIndex K V} {d d' : Directory} {pairs : List (K × V)} {w : Ledger}
  {σ γ : Type} [PagePool σ γ] {guards : List γ}

-- A directory that sends no pair elsewhere.
theorem routed_eq_of_empty {old new : PageId}
    (howner : ∀ hash, d'.owner hash = if d.owner hash = old then new else d.owner hash)
    (hempty : t.routed d old pairs = []) (id : PageId) :
    t.routed d' id pairs = t.routed d id pairs := by
  rw [routed, List.filter_eq_nil_iff] at hempty
  apply List.filter_congr
  intro pair hpair
  have hother : d.owner (t.hash pair.1) ≠ old := by simpa using hempty pair hpair
  rw [howner, if_neg hother]

-- What becomes of a merged bucket does not matter.
theorem freeBucket_does [ReadablePool σ γ] [SheddingPool σ γ] (id : PageId)
    {E : StoreError → Ledger → Prop} :
    Does guards w (t.freeBucket id : Op σ Unit) (fun _ w' => w' = w) E := by
  have hdelete : Does guards w (PagePool.delete id : Op σ Bool) (fun _ w' => w' = w)
      (fun _ w' => w' = w) := does_delete (fun _ => rfl) fun _ _ => rfl
  refine hdelete.attempt_bind (fun freed w' hw' => ?_) fun e w' hw' => does_report hw'
  cases freed with
  | true => exact does_pure hw'
  | false => exact does_report hw'

-- The outline is joined, where the buckets were.
theorem outline_merged (h : d.Partitioned) {s n : Nat} {old new : PageId}
    (hs : d.Mergeable s n old new) (hshrunk : Directory.Shrunk (d.repointed old new n) d') :
    d'.outline pairs = (d.outline pairs).join s n := by
  refine congrArg (Outline.mk pairs) (funext fun a => ?_)
  rw [Directory.depthOf_merged h hs hshrunk]
  rfl

-- A step of merging in the outline, told of the directory.
theorem outline_mergeStep (t : HashIndex K V) (pairs : List (K × V)) (h : d.Partitioned) {s n : Nat}
    (hs : s < d.size) (hdepth : d.depthAt s = n + 1) : (d.outline pairs).mergeStep t.policy s =
      if d.depthAt (Directory.flipBit s n) = n + 1 ∧ (t.routed d (d.bucketAt s) pairs = [] ∨
        t.routed d (d.bucketAt (Directory.flipBit s n)) pairs = []) then
        some ((d.outline pairs).join s n, Directory.lowBits n s)
      else none := by
  have hbuddy := h.flipBit_lt hs hdepth
  have hlocal : (d.outline pairs).depth s = n + 1 := (Directory.depthOf_of_lt hs).trans hdepth
  rw [Outline.mergeStep, hlocal, routed_bucketAt h hs, routed_bucketAt h hbuddy,
    ← Directory.depthOf_of_lt hbuddy]
  rfl

variable [FixedWidth K] [FixedWidth V] [DecidableEq V]

-- A directory with the same pairs in fewer buckets.
structure Coarser (t : HashIndex K V) (S : Sheets) (pairs : List (K × V)) (d d' : Directory) :
    Prop where
  routes : t.Routes S d' pairs
  owner_eq (hash : UInt32) : ∃ other, d'.owner hash = d.owner other

variable {S : Sheets}

theorem Coarser.trans {d'' : Directory} (h : t.Coarser S pairs d d')
    (h' : t.Coarser S pairs d' d'') : t.Coarser S pairs d d'' := by
  refine ⟨h'.routes, fun hash => ?_⟩
  obtain ⟨other, hother⟩ := h'.owner_eq hash
  obtain ⟨first, hfirst⟩ := h.owner_eq other
  exact ⟨first, hother.trans hfirst⟩

-- Guards that are away from the buckets stay away from them.
theorem Coarser.clear (h : t.Coarser S pairs d d')
    (hclear : ∀ g ∈ guards, ∀ hash, pageOf σ g ≠ d.owner hash) :
    ∀ g ∈ guards, ∀ hash, pageOf σ g ≠ d'.owner hash := by
  intro g hg hash
  obtain ⟨other, hother⟩ := h.owner_eq hash
  rw [hother]
  exact hclear g hg other

theorem coarser_merged (h : t.Routes S d pairs) {s n : Nat} {old new : PageId}
    (hs : d.Mergeable s n old new) (hempty : t.routed d old pairs = [])
    (hshrunk : Directory.Shrunk (d.repointed old new n) d') : t.Coarser S pairs d d' := by
  have howner := Directory.owner_merged h.partitioned hs hshrunk
  have hkept := Directory.owner_merged_eq h.partitioned hs hshrunk
  refine ⟨⟨hshrunk.partitioned, hshrunk.tight, hshrunk.vacant (h.vacant.repointed old new n),
    fun hash => ?_, fun hash => ?_⟩, hkept⟩
  · obtain ⟨other, hother⟩ := hkept hash
    rw [hother]
    exact h.apart other
  · obtain ⟨other, hother⟩ := hkept hash
    rw [routed_eq_of_empty howner hempty, hother]
    exact h.stores other

section Reading

variable [ReadablePool σ γ]

theorem isEmptyBucket_does {id : PageId} (h : t.Stores w.sheets id pairs)
    (hclear : ∀ g ∈ guards, pageOf σ g ≠ id) :
    Does guards w (t.isEmptyBucket id : Op σ Bool)
      (fun empty w' => (empty ↔ pairs = []) ∧ w' = w) (Refused (σ := σ) guards w) := by
  obtain ⟨b, m, hb⟩ := h
  refine does_withBucket (f := Bucket.isEmpty) hb hclear ⟨⟨fun hempty => ?_, fun hnil => ?_⟩, rfl⟩
    fun _ _ he => he
  · obtain rfl := hb.packed.isEmpty_iff.mp hempty
    rw [← hb.entries_eq]
    exact List.eq_nil_of_length_eq_zero (Nat.le_zero.mp hb.packed.length_entries_le)
  · exact hb.packed.isEmpty_iff.mpr (hb.blank hnil)

section Choose

variable {E : StoreError → Ledger → Prop} {Empty : PageId → Prop}

omit [DecidableEq V] in
-- A bucket that is dropped is empty, and one is dropped if it is.
theorem chooseEmptied_does {id other : PageId}
    (hid : Does guards w (t.isEmptyBucket id : Op σ Bool)
      (fun empty w' => (empty ↔ Empty id) ∧ w' = w) E)
    (hother : Does guards w (t.isEmptyBucket other : Op σ Bool)
      (fun empty w' => (empty ↔ Empty other) ∧ w' = w) E) :
    Does guards w (t.chooseEmptied id other : Op σ _)
      (fun chosen w' => (match chosen with
        | none => ¬ Empty id ∧ ¬ Empty other
        | some (old, new) => (old = id ∧ new = other ∨ old = other ∧ new = id) ∧ Empty old) ∧ w' = w)
      E := by
  unfold chooseEmptied
  refine hid.bind fun first w₁ hfirst => ?_
  obtain ⟨hfirst, rfl⟩ := hfirst
  cases first with
  | true => exact does_pure ⟨⟨Or.inl ⟨rfl, rfl⟩, hfirst.mp rfl⟩, rfl⟩
  | false =>
    refine hother.bind fun second w₂ hsecond => ?_
    obtain ⟨hsecond, rfl⟩ := hsecond
    cases second with
    | true => exact does_pure ⟨⟨Or.inr ⟨rfl, rfl⟩, hsecond.mp rfl⟩, rfl⟩
    | false =>
      refine does_pure ⟨⟨fun hempty => ?_, fun hempty => ?_⟩, rfl⟩
      · cases hfirst.mpr hempty
      · cases hsecond.mpr hempty

omit [DecidableEq V] in
-- A step of merging in any sound directory, as long as it is found out which buckets are empty.
theorem mergeStep_steps [SheddingPool σ γ] (hpart : d.Partitioned) {s : Nat} (hs : s < d.size)
    (hempty : ∀ i < d.size, Does guards w (t.isEmptyBucket (d.bucketAt i) : Op σ Bool)
      (fun empty w' => (empty ↔ Empty (d.bucketAt i)) ∧ w' = w) E) :
    Does guards w (t.mergeStep d s : Op σ _)
      (fun merged w' => d.StepsTo Empty s merged ∧ w' = w) E := by
  unfold mergeStep
  cases hdepth : d.depthAt s with
  | zero =>
    refine (does_liftM (hpart.buddy_zero hs hdepth) ⟨rfl, rfl⟩).step ?_
    exact does_pure ⟨Or.inl hdepth, rfl⟩
  | succ n =>
    have hbuddy := hpart.flipBit_lt hs hdepth
    have hlocal : d.localDepth s = .ok (n + 1) := by rw [hpart.localDepth_eq hs, hdepth]
    refine (does_liftM (hpart.buddy_succ hs hdepth) ⟨rfl, rfl⟩).step ?_
    refine (does_liftM hlocal ⟨rfl, rfl⟩).step ?_
    refine (does_liftM (hpart.localDepth_eq hbuddy) ⟨rfl, rfl⟩).step ?_
    by_cases hsame : d.depthAt (Directory.flipBit s n) = n + 1
    swap
    · rw [if_pos hsame]
      exact does_pure ⟨Or.inr ⟨n, hdepth, Or.inl hsame⟩, rfl⟩
    rw [if_neg (not_not_intro hsame)]
    refine (does_liftM (hpart.bucket_eq hs) ⟨rfl, rfl⟩).step ?_
    refine (does_liftM (hpart.bucket_eq hbuddy) ⟨rfl, rfl⟩).step ?_
    refine (chooseEmptied_does (hempty s hs) (hempty _ hbuddy)).bind fun chosen w₁ hchosen => ?_
    obtain ⟨hchosen, rfl⟩ := hchosen
    cases chosen with
    | none => exact does_pure ⟨Or.inr ⟨n, hdepth, Or.inr hchosen⟩, rfl⟩
    | some choice =>
      obtain ⟨old, new⟩ := choice
      have hmergeable : d.Mergeable s n old new := ⟨hs, hdepth, hsame, hchosen.1⟩
      obtain ⟨merged, hmerged, hshrunk⟩ :=
        Directory.shrinkFully_spec (hpart.repointed hmergeable)
      refine (does_liftM (hpart.repoint_eq old new n) ⟨rfl, rfl⟩).step ?_
      refine (does_liftM hmerged ⟨rfl, rfl⟩).step ?_
      refine (does_report ⟨rfl, rfl⟩).step ?_
      refine (freeBucket_does (t := t) (σ := σ) old).bind fun _ w₂ hw₂ => ?_
      exact does_pure ⟨⟨n, old, new, ⟨hmergeable, hchosen.2, hshrunk⟩, rfl⟩, hw₂⟩

end Choose

end Reading

variable [LawfulPool σ γ]

-- A step of merging in the directory is one in the outline.
def Merged (t : HashIndex K V) (S : Sheets) (pairs : List (K × V)) (d : Directory) (s : Nat) :
    Option (Directory × Nat) → Prop
  | none => (d.outline pairs).mergeStep t.policy s = none
  | some (d', next) => (d.outline pairs).mergeStep t.policy s = some (d'.outline pairs, next) ∧
    t.Coarser S pairs d d' ∧ next < d'.size

theorem mergeStep_does (h : t.Routes w.sheets d pairs)
    (hclear : ∀ g ∈ guards, ∀ hash, pageOf σ g ≠ d.owner hash) {s : Nat} (hs : s < d.size) :
    Does guards w (t.mergeStep d s : Op σ _)
      (fun merged w' => t.Merged w.sheets pairs d s merged ∧ w' = w) (Refused (σ := σ) guards w) := by
  have hpart := h.partitioned
  have hdoes : Does guards w (t.mergeStep d s : Op σ _) (fun merged w' =>
      d.StepsTo (fun id => t.routed d id pairs = []) s merged ∧ w' = w)
      (Refused (σ := σ) guards w) := by
    refine mergeStep_steps hpart hs fun i hi => isEmptyBucket_does (h.stores_slot hi) fun g hg => ?_
    obtain ⟨hash, rfl⟩ := hpart.exists_hash hi
    exact hclear g hg hash
  refine hdoes.mono (fun merged w' hmerged => ?_) fun _ _ he => he
  obtain ⟨hsteps, rfl⟩ := hmerged
  refine ⟨?_, rfl⟩
  cases merged with
  | none =>
    rcases hsteps with hdepth | ⟨n, hdepth, hstays⟩
    · have hlocal : (d.outline pairs).depth s = 0 := (Directory.depthOf_of_lt hs).trans hdepth
      rw [Merged, Outline.mergeStep, hlocal]
    · rw [Merged, outline_mergeStep t pairs hpart hs hdepth, if_neg]
      rintro ⟨hsame, hnil⟩
      rcases hstays with hother | ⟨hfirst, hsecond⟩
      · exact hother hsame
      · exact hnil.elim hfirst hsecond
  | some step =>
    obtain ⟨d', next⟩ := step
    obtain ⟨n, old, new, ⟨hmergeable, hnil, hshrunk⟩, rfl⟩ := hsteps
    refine ⟨?_, coarser_merged h hmergeable hnil hshrunk,
      Directory.first_merged hpart hmergeable hshrunk⟩
    have heither : t.routed d (d.bucketAt s) pairs = [] ∨
        t.routed d (d.bucketAt (Directory.flipBit s n)) pairs = [] := by
      rcases hmergeable.buckets with ⟨rfl, -⟩ | ⟨rfl, -⟩
      · exact Or.inl hnil
      · exact Or.inr hnil
    rw [outline_mergeStep t pairs hpart hs hmergeable.depth_slot,
      if_pos ⟨hmergeable.depth_buddy, heither⟩, outline_merged hpart hmergeable hshrunk]

-- Merging does not fail. Where a page is refused it ends with what was reached.
theorem mergeWithin_does (n : Nat) (changed : Bool) (h : t.Routes w.sheets d pairs)
    (hclear : ∀ g ∈ guards, ∀ hash, pageOf σ g ≠ d.owner hash) {s : Nat} (hs : s < d.size)
    {E : StoreError → Ledger → Prop} :
    Does guards w (t.mergeWithin n changed d s : Op σ _)
      (fun result w' => (t.Coarser w.sheets pairs d result.1 ∧
          (result.2 = false → changed = false ∧ result.1 = d)) ∧
        (w' = w ∧ result.1.outline pairs = Outline.mergeWithin t.policy n s (d.outline pairs) ∨
          w' = w.refuse)) E := by
  have hsame : t.Coarser w.sheets pairs d d := ⟨h, fun hash => ⟨hash, rfl⟩⟩
  induction n generalizing changed d s with
  | zero => exact does_pure ⟨⟨hsame, fun hchanged => ⟨hchanged, rfl⟩⟩, Or.inl ⟨rfl, rfl⟩⟩
  | succ n ih =>
    unfold mergeWithin
    refine (mergeStep_does h hclear hs).attempt_bind (fun merged w' hmerged => ?_)
      fun e w' he => ?_
    · obtain ⟨hmerged, rfl⟩ := hmerged
      cases merged with
      | none =>
        refine does_pure ⟨⟨hsame, fun hchanged => ⟨hchanged, rfl⟩⟩, Or.inl ⟨rfl, ?_⟩⟩
        rw [Outline.mergeWithin, show Outline.mergeStep _ _ _ = none from hmerged]
      | some step =>
        obtain ⟨d', next⟩ := step
        obtain ⟨hstep, hcoarser, hnext⟩ := hmerged
        rw [Outline.mergeWithin, hstep]
        refine (ih true hcoarser.routes (hcoarser.clear hclear) hnext
          ⟨hcoarser.routes, fun hash => ⟨hash, rfl⟩⟩).mono (fun result w'' hresult => ?_)
          fun _ _ he => he
        obtain ⟨⟨hrest, hchanged⟩, houtline⟩ := hresult
        refine ⟨⟨hcoarser.trans hrest, fun hfalse => ?_⟩, houtline⟩
        cases (hchanged hfalse).1
    · obtain ⟨_, rfl, _⟩ := he
      refine (does_report ⟨rfl, rfl⟩).step ?_
      exact does_pure ⟨⟨hsame, fun hchanged => ⟨hchanged, rfl⟩⟩, Or.inr rfl⟩

-- The merging that a removal starts, at the slot of the key, which has the bucket of the key.
theorem merge_does {o : Outline K V} {key : K} {value : V}
    (hany : o.pairs.any (o.finds t.policy key value) = true)
    (hempty : (o.erase t.policy key value).bucket t.policy (t.policy.address key) = [])
    (herased : d.outline pairs = o.erase t.policy key value) (h : t.Routes w.sheets d pairs)
    (hclear : ∀ g ∈ guards, ∀ hash, pageOf σ g ≠ d.owner hash) {E : StoreError → Ledger → Prop} :
    Does guards w (t.merge d (d.route (t.hash key)) : Op σ _)
      (fun result w' => (t.Coarser w.sheets pairs d result.1 ∧ (result.2 = false → result.1 = d)) ∧
        w'.sheets = w.sheets ∧
        (w'.refusals = w.refusals ∧ result.1.outline pairs = o.remove t.policy key value ∨
          w.refusals < w'.refusals)) E := by
  have hmerged : Outline.mergeWithin t.policy 100 (d.route (t.hash key)) (d.outline pairs) =
      o.remove t.policy key value := by
    rw [Outline.remove, if_pos ⟨hany, hempty⟩, ← herased]
    exact h.partitioned.outline_sound.mergeWithin_eq (h.partitioned.together_route (t.hash key)) 100
  refine (mergeWithin_does 100 false h hclear (d.route_lt_size (t.hash key))).mono
    (fun result w' hresult => ?_) fun _ _ he => he
  obtain ⟨⟨hcoarser, hchanged⟩, hend⟩ := hresult
  refine ⟨⟨hcoarser, fun hfalse => (hchanged hfalse).2⟩, ?_⟩
  rcases hend with ⟨rfl, houtline⟩ | rfl
  · exact ⟨rfl, Or.inl ⟨rfl, houtline.trans hmerged⟩⟩
  · exact ⟨rfl, Or.inr (Nat.lt_succ_self _)⟩

-- The pair is taken out of its bucket, and out of the list.
theorem Represents.removed (h : t.Represents w.sheets d pairs) {key : K} {value : V}
    {b rest : Bucket K V} {m : Nat}
    (hb : t.IsBucket w.sheets (d.owner (t.hash key)) (t.routed d (d.owner (t.hash key)) pairs) b m)
    (hremove : b.remove? t.policy.order key value = some rest) :
    t.Represents (w.put (d.owner (t.hash key)) (if rest.count == 0 then rest.clear else rest).page).sheets
      d ((d.outline pairs).erase t.policy key value).pairs := by
  have hpart := h.routes.partitioned
  obtain ⟨hcapacity, hpacked, hentries⟩ := hb.packed.remove? t.policy.order key value hremove
  obtain ⟨m', hpacked', hcapacity', hentries', hblank⟩ := hpacked.clear_of_count_eq_zero
  rw [hb.entries_eq, ← routed_eraseP_self hpart] at hentries
  refine h.put key (hcapacity'.trans (hcapacity.trans hb.capacity_eq)) hpacked' ?_ ?_
    (hentries'.trans hentries) fun id hid => routed_eraseP_of_ne hpart hid
  · rwa [hentries']
  · rw [hentries', hentries, routed_eraseP_self hpart]
    exact hb.distinct.sublist List.eraseP_sublist

-- Whether the bucket lost its last pair is told by the pairs that are left.
theorem removeFrom_does (h : t.Represents w.sheets d pairs) (key : K) (value : V) {guard : γ}
    (hguard : guard ∈ guards) (hpage : pageOf σ guard = d.owner (t.hash key))
    (haccess : ReadablePool.access σ guard = .exclusive) {E : StoreError → Ledger → Prop} :
    Does guards w (t.removeFrom key value guard : Op σ (Option Bool))
      (fun emptied w' => (t.Represents w'.sheets d ((d.outline pairs).erase t.policy key value).pairs ∧
          w'.refusals = w.refusals) ∧
        emptied = if pairs.any ((d.outline pairs).finds t.policy key value) then
          some (decide (((d.outline pairs).erase t.policy key value).bucket t.policy
            (t.policy.address key) = []))
        else none) E := by
  have hpart := h.routes.partitioned
  obtain ⟨b, m, hb⟩ := h.routes.stores (t.hash key)
  have hbucket := Ledger.memory_of_written hb.page_eq
  unfold removeFrom
  refine (does_readBucket hb.capacity_eq hguard (hpage ▸ hbucket) ⟨rfl, rfl⟩).step ?_
  have hsome := b.remove?_isSome t.policy.order key value
  rw [hb.entries_eq, any_routed hpart] at hsome
  cases hremove : b.remove? t.policy.order key value with
  | none =>
    rw [hremove] at hsome
    refine does_pure ⟨⟨?_, rfl⟩, by rw [← hsome]; rfl⟩
    rwa [Outline.erase_of_any_eq_false t.policy (d.outline pairs) hsome.symm]
  | some rest =>
    rw [hremove] at hsome
    obtain ⟨-, -, hentries⟩ := hb.packed.remove? t.policy.order key value hremove
    rw [hb.entries_eq, ← routed_eraseP_self hpart] at hentries
    have hempty : (rest.count == 0) = decide (((d.outline pairs).erase t.policy key value).bucket
        t.policy (t.policy.address key) = []) := by
      rw [rest.count_eq_length, hentries, routed_owner hpart, Bool.eq_iff_iff, beq_iff_eq,
        List.length_eq_zero_iff, decide_eq_true_iff]
      rfl
    refine (does_writePage hguard haccess ⟨rfl, rfl⟩).step ?_
    refine does_pure ⟨⟨hpage ▸ h.removed hb hremove, rfl⟩, ?_⟩
    rw [← hsome, ← hempty]
    rfl

-- The answer says whether the pair was there. Where a page is refused after the pair was taken out,
-- some buckets may stay apart that should be one.
theorem remove_does {o : Outline K V} (h : t.Depicts σ guards o w) (key : K) (value : V) :
    Does guards w (t.remove key value : Op σ Bool)
      (fun found w' => found = o.pairs.any (o.finds t.policy key value) ∧
        ∃ o', t.Depicts σ guards o' w' ∧
          (w'.refusals = w.refusals ∧ o' = o.remove t.policy key value ∨
            w.refusals < w'.refusals ∧ o'.pairs = (o.erase t.policy key value).pairs))
      (GaveUp w) := by
  obtain ⟨d, pairs, rfl, h, hclear⟩ := h
  obtain ⟨p, hp, rfl⟩ := h.directory
  obtain ⟨b, m, hb⟩ := h.routes.stores (t.hash key)
  have hpart := h.routes.partitioned
  have hdirectory := Ledger.memory_of_written hp
  unfold remove
  refine Does.withPage hdirectory (fun g hg => (hclear g hg).1)
    (fun directory hdpage hdaccess => ?_) fun _ _ he => he.gaveUp
  refine (does_readPage List.mem_cons_self (hdpage ▸ hdirectory) ⟨rfl, rfl⟩).step ?_
  refine (does_liftM (hpart.bucketFor_eq (t.hash key)) ⟨rfl, rfl⟩).step ?_
  have hbuckets := hclear.buckets h.routes hdpage
  refine (Does.withPage (Ledger.memory_of_written hb.page_eq) (fun g hg => hbuckets g hg _)
    (fun guard hpage haccess => removeFrom_does h key value List.mem_cons_self hpage haccess)
    fun _ _ he => he.gaveUp).bind fun emptied w₁ hremoved => ?_
  obtain ⟨⟨hrepresents, hrefusals⟩, rfl⟩ := hremoved
  set erased := ((Directory.ofPage p).outline pairs).erase t.policy key value
  have hdepicts : t.Depicts σ guards erased w₁ := hrepresents.depicts hclear
  by_cases hany : pairs.any (((Directory.ofPage p).outline pairs).finds t.policy key value) = true
  swap
  · rw [if_neg hany]
    refine does_pure ⟨(Bool.eq_false_iff.mpr hany).symm, _, hdepicts, Or.inl ⟨hrefusals, ?_⟩⟩
    rw [Outline.remove, if_neg fun hand => hany hand.1]
  rw [if_pos hany]
  by_cases hempty : erased.bucket t.policy (t.policy.address key) = []
  swap
  · rw [decide_eq_false hempty]
    refine does_pure ⟨hany.symm, _, hdepicts, Or.inl ⟨hrefusals, ?_⟩⟩
    rw [Outline.remove, if_neg fun hand => hempty hand.2]
  rw [decide_eq_true hempty]
  obtain ⟨p', hp', _⟩ := hrepresents.directory
  refine (does_liftM (hpart.slotOf_eq (t.hash key)) ⟨rfl, rfl⟩).step ?_
  refine (merge_does hany hempty rfl hrepresents.routes hbuckets).bind fun result w₂ hresult => ?_
  obtain ⟨merged, changed⟩ := result
  obtain ⟨⟨hcoarser, hchanged⟩, hsheets, hend⟩ := hresult
  have hended : w₂.refusals = w.refusals ∧ merged.outline erased.pairs =
        ((Directory.ofPage p).outline pairs).remove t.policy key value ∨
      w.refusals < w₂.refusals ∧ (merged.outline erased.pairs).pairs = erased.pairs := by
    rw [← hrefusals]
    exact hend.imp_right fun hless => ⟨hless, rfl⟩
  cases changed with
  | false =>
    obtain rfl := hchanged rfl
    exact does_pure ⟨hany.symm, _, by rwa [Depicts, hsheets], hended⟩
  | true =>
    refine (writeDirectory_does (hsheets ▸ hcoarser.routes)
      (Ledger.memory_of_written (hsheets ▸ hp')) List.mem_cons_self hdpage hdaccess).bind
      fun _ w₃ hw₃ => ?_
    have hbuckets' := hcoarser.clear fun g hg => (hclear g hg).2
    refine does_pure ⟨hany.symm, _, hw₃.1.depicts fun g hg => ⟨(hclear g hg).1, hbuckets' g hg⟩, ?_⟩
    rwa [hw₃.2]

end PagedIndex.HashIndex
