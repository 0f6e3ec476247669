import PagedIndex.Index.Report
import PagedIndex.Proofs.Directory.Failing
import PagedIndex.Proofs.Index.Independence
import PagedIndex.Proofs.Pool.Guarded

namespace PagedIndex

theorem Bucket.view_ne_poolFull {K V : Type} [FixedWidth K] [FixedWidth V] (page : Page)
    (capacity : Nat) :
    (Bucket.view page capacity : Checked (Bucket K V)) ≠ .error (.error .poolFull) := by
  intro h
  unfold Bucket.view at h
  split at h <;> cases h

namespace PagePool

variable {σ γ α β : Type} [PagePool σ γ] [GuardedPool σ γ] {k : Nat}

-- With room for `k` more guards beside the live ones, the operation answers as `P` says or fails as
-- the pool may fail. The live guards are the same afterwards.
def Takes (k : Nat) (x : Op σ α) (P : α → Prop := fun _ => True) : Prop :=
  ∀ s guards, GuardedPool.Guards s guards → GuardedPool.Room σ k guards →
    x.Ends s (Op.AnswersOr (fun _ => True) (fun a t => P a ∧ GuardedPool.Guards t guards)
      fun e t => GuardedPool.Fails σ e ∧ GuardedPool.Guards t guards)

variable {x : Op σ α} {P : α → Prop} {Q : β → Prop}

theorem takes_pure {a : α} (h : P a) : Takes k (pure a : Op σ α) P := fun _ _ hs _ => ⟨h, hs⟩

theorem Takes.bind {f : α → Op σ β} (hx : Takes k x P) (hf : ∀ a, P a → Takes k (f a) Q) :
    Takes k (x >>= f) Q := by
  intro s guards hs hroom
  rw [Op.ends_bind]
  refine (hx s guards hs hroom).mono fun r t ht => ?_
  cases r using Checked.outcomes with
  | ok a => exact hf a ht.1 t guards ht.2 hroom
  | error e => exact ht
  | abort a => trivial

theorem Takes.discard (hx : Takes k x P) : Takes k (Functor.discard x) := by
  intro s guards hs hroom
  rw [Op.ends_discard]
  refine (hx s guards hs hroom).mono fun r t ht => ?_
  cases r using Checked.outcomes with
  | ok a => exact ⟨trivial, ht.2⟩
  | error e => exact ht
  | abort a => trivial

theorem Takes.map (f : α → β) (hx : Takes k x P) : Takes k (f <$> x) := by
  rw [map_eq_pure_bind]
  exact hx.bind fun _ _ => takes_pure trivial

-- An error of the pool is handed over.
theorem Takes.attempt (hx : Takes k x P) :
    Takes k (Op.attempt x) fun r => ∀ e, r = .error e → GuardedPool.Fails σ e := by
  intro s guards hs hroom
  rw [Op.ends_attempt]
  refine (hx s guards hs hroom).mono fun r t ht => ?_
  cases r using Checked.outcomes with
  | ok a => exact ⟨nofun, ht.2⟩
  | error e => exact ⟨fun _ he => Except.error.inj he ▸ ht.1, ht.2⟩
  | abort a => trivial

theorem takes_liftM {c : Checked α} (hc : c ≠ .error (.error .poolFull)) :
    Takes k (liftM c : Op σ α) := by
  intro s guards hs _
  rw [Op.ends_liftM]
  cases c using Checked.outcomes with
  | ok a => exact ⟨trivial, hs⟩
  | error e =>
    refine ⟨GuardedPool.fails fun he => hc (he ▸ rfl), hs⟩
  | abort a => trivial

theorem takes_directory {c : Checked α} (hc : c.FailsAs Directory.Fails) :
    Takes k (liftM c : Op σ α) := takes_liftM (hc.ne nofun)

theorem takes_fail {e : StoreError} (he : GuardedPool.Fails σ e) : Takes k (Op.fail e : Op σ α) P :=
  fun _ _ hs _ => ⟨he, hs⟩

theorem takes_abort (a : Abort) : Takes k (Op.abort a : Op σ α) P := fun _ _ _ _ => trivial

theorem takes_report (e : Event) : Takes k (Op.report e : Op σ Unit) :=
  fun _ _ hs _ => ⟨trivial, hs⟩

theorem takes_readPage (g : γ) : Takes k (readPage g : Op σ Page) := fun _ _ hs _ => ⟨trivial, hs⟩

theorem takes_writePage (g : γ) (page : Page) : Takes k (writePage g page : Op σ Unit) :=
  fun _ _ hs _ => ⟨trivial, GuardedPool.write_guards hs g page⟩

theorem takes_delete (id : PageId) : Takes k (delete id : Op σ Bool) := fun _ _ hs _ =>
  (GuardedPool.delete_ends hs id).mono fun _ _ ht =>
    ht.imp (fun _ => trivial) (fun _ hb => ⟨trivial, hb⟩) fun _ he => he

-- The body runs under one guard more, which is given back however it ends.
theorem takes_under {call : Op σ γ} {body : γ → Op σ α} (hbody : ∀ g, Takes k (body g) P)
    (hcall : ∀ s guards, GuardedPool.Guards s guards → GuardedPool.Room σ 1 guards →
      call.Ends s (Op.AnswersOr (fun _ => True) (fun g t => GuardedPool.Guards t (g :: guards))
        fun e t => GuardedPool.Fails σ e ∧ GuardedPool.Guards t guards)) :
    Takes (k + 1) (do let g ← call; (body g).ensuring (release g)) P := by
  intro s guards hs hroom
  rw [Op.ends_bind]
  refine (hcall s guards hs (GuardedPool.room_le (Nat.le_add_left 1 k) hroom)).mono fun r t ht => ?_
  cases r using Checked.outcomes with
  | ok g =>
    rw [Op.then_ok, Op.ends_ensuring]
    refine (hbody g t _ ht (GuardedPool.room_cons g hroom)).mono fun r u hu => ?_
    cases r using Checked.outcomes with
    | ok a => exact (GuardedPool.release_ends hu.2).mono fun _ _ hv => ⟨hu.1, hv⟩
    | error e => exact (GuardedPool.release_ends hu.2).mono fun _ _ hv => ⟨hu.1, hv⟩
    | abort a => exact Op.ends_of_forall fun _ _ => trivial
  | error e => exact ht
  | abort a => trivial

theorem Takes.withPage {id : PageId} {access : Access} {body : γ → Op σ α}
    (hbody : ∀ g, Takes k (body g) P) : Takes (k + 1) (PagePool.withPage id access body) P :=
  takes_under hbody fun _ _ hs hroom => GuardedPool.fetch_ends hs hroom id access

theorem Takes.withNewPage {body : γ → Op σ α} (hbody : ∀ g, Takes k (body g) P) :
    Takes (k + 1) (PagePool.withNewPage body) P :=
  takes_under hbody fun _ _ hs hroom => GuardedPool.allocate_ends hs hroom

theorem takes_forM {xs : List β} {f : β → Op σ Unit} (hf : ∀ b ∈ xs, Takes k (f b)) :
    Takes k (xs.forM f) := by
  induction xs with
  | nil => exact takes_pure trivial
  | cons b xs ih =>
    exact (hf b List.mem_cons_self).bind fun _ _ => ih fun b' hb' => hf b' (List.mem_cons_of_mem b hb')

end PagePool

namespace HashIndex

open PagePool

variable {K V σ γ : Type} [FixedWidth K] [FixedWidth V] [PagePool σ γ] [GuardedPool σ γ] {k : Nat}
  (t : HashIndex K V)

theorem takes_readBucket (guard : γ) : Takes k (t.readBucket guard : Op σ (Bucket K V)) :=
  (takes_readPage guard).bind fun _ _ => takes_liftM (Bucket.view_ne_poolFull _ _)

omit [FixedWidth K] [FixedWidth V] in
theorem takes_readDirectory : Takes 1 (t.readDirectory : Op σ Directory) :=
  .withPage fun g => (takes_readPage g).bind fun _ _ => takes_pure trivial

theorem takes_writeDirectory (d : Directory) (guard : γ) :
    Takes k (writeDirectory d guard : Op σ Unit) :=
  (takes_readPage guard).bind fun _ _ => takes_writePage guard _

-- The only failure is that of a capacity that was asked for.
theorem chooseCapacity_fails (capacity? : Option Nat) :
    (chooseCapacity K V capacity?).FailsAs fun f => ∃ n, capacity? = some n ∧
      ¬ (0 < n ∧ n ≤ Bucket.maxSlots K V) ∧
      f = .error (.invalidState (.capacity n (Bucket.maxSlots K V))) := by
  cases capacity? with
  | none => exact Checked.failsAs_pure _
  | some n =>
    dsimp only [chooseCapacity]
    split
    · exact Checked.failsAs_pure _
    · exact Checked.failsAs_error ⟨n, rfl, ‹_›, rfl⟩

theorem takes_chooseCapacity (capacity? : Option Nat) :
    Takes k (liftM (chooseCapacity K V capacity?) : Op σ Nat) :=
  takes_liftM ((chooseCapacity_fails capacity?).ne nofun)

theorem create_takes (name : String) (policy : KeyPolicy K) (capacity? : Option Nat) :
    Takes 2 (create name policy capacity? : Op σ (HashIndex K V)) := by
  refine (takes_chooseCapacity capacity?).bind fun capacity _ => ?_
  -- the error of the second page is handed on when the first is given back
  have hpages : Takes 2 (withNewPage fun (directory : γ) => do
      let t : HashIndex K V := ⟨name, policy, pageOf σ directory, capacity⟩
      let created ← Op.attempt <| withNewPage fun (bucket : γ) => do
        writePage bucket (← t.readBucket bucket).clear.page
        writeDirectory (.single (pageOf σ bucket)) directory
        Op.report (.indexCreated name t.directory capacity)
        return t
      return (t.directory, created) : Op σ (PageId × Except StoreError (HashIndex K V)))
      fun pages => ∀ e, pages.2 = .error e → GuardedPool.Fails σ e := by
    refine Takes.withNewPage fun directory => ?_
    refine Takes.bind (Takes.attempt (P := fun _ => True) ?_) fun created hcreated =>
      takes_pure hcreated
    refine Takes.withNewPage fun bucket => ?_
    refine (takes_readBucket _ bucket).bind fun b _ => ?_
    refine (takes_writePage bucket _).bind fun _ _ => ?_
    refine (takes_writeDirectory _ directory).bind fun _ _ => ?_
    exact (takes_report _).bind fun _ _ => takes_pure trivial
  refine hpages.bind fun pages hfails => ?_
  obtain ⟨directory, created⟩ := pages
  cases created with
  | ok t => exact takes_pure trivial
  | error e => exact (takes_delete directory).discard.bind fun _ _ => takes_fail (hfails e rfl)

theorem get_takes (key : K) : Takes 1 (t.get key : Op σ (List V)) := by
  refine (Takes.withPage takes_readPage).bind fun page _ => ?_
  refine (takes_directory (Directory.bucketFor_fails _ _)).bind fun bucket _ => ?_
  refine Takes.withPage fun g => (t.takes_readBucket g).bind fun b _ => takes_liftM ?_
  rw [b.checkedGet_eq]
  nofun

omit [FixedWidth K] [FixedWidth V] in
theorem globalDepth_takes : Takes 1 (t.globalDepth : Op σ Nat) :=
  t.takes_readDirectory.bind fun _ _ => takes_pure trivial

omit [FixedWidth K] [FixedWidth V] in
theorem bucketCount_takes : Takes 1 (t.bucketCount : Op σ Nat) := by
  refine t.takes_readDirectory.bind fun d _ => ?_
  exact (takes_directory d.checkedBucketIds_fails).bind fun _ _ => takes_pure trivial

omit [FixedWidth K] [FixedWidth V] in
theorem verifyKey_fails (d : Directory) (bucket : PageId) (key : K) :
    (t.verifyKey d bucket key).FailsAs Directory.Fails := by
  refine (d.slotOf_fails _).bind fun slot => (d.bucket_fails slot).bind fun owner => ?_
  split
  · exact Checked.failsAs_error trivial
  · exact Checked.failsAs_pure ()

theorem verify_takes : Takes 1 (t.verify : Op σ Unit) := by
  refine t.takes_readDirectory.bind fun d _ => ?_
  have hbucket (id : PageId) : Takes 1 (t.verifyBucket d id : Op σ Unit) := by
    refine Takes.withPage fun g => (t.takes_readBucket g).bind fun b _ => ?_
    have hoverflow : b.checkedOverflow ≠ .error (.error .poolFull) := b.checkedOverflow_eq ▸ nofun
    have hread : b.checkedEntries ≠ .error (.error .poolFull) := b.checkedEntries_eq ▸ nofun
    have hentries : Takes 0 (do
        let entries ← b.checkedEntries
        entries.forM fun pair => Op.ofChecked (t.verifyKey d id pair.1) : Op σ Unit) :=
      (takes_liftM hread).bind fun _ _ => takes_forM fun pair _ =>
        takes_directory (t.verifyKey_fails d id pair.1)
    refine (takes_liftM hoverflow).bind fun overflow _ => ?_
    split
    · refine Takes.bind (P := fun _ => True) (takes_fail ?_) fun _ _ => hentries
      exact GuardedPool.fails nofun
    · exact hentries
  have hpages : Takes 1 (t.verifyPages d : Op σ Unit) :=
    (takes_directory d.verify_fails).bind fun _ _ =>
      (takes_directory d.checkedBucketIds_fails).bind fun _ _ => takes_forM fun id _ => hbucket id
  refine hpages.attempt.bind fun r hfails => ?_
  cases r with
  | ok _ => exact takes_pure trivial
  | error e => exact (takes_report _).bind fun _ _ => takes_fail (hfails e rfl)

theorem openAt_takes (name : String) (policy : KeyPolicy K) (directory : PageId)
    (capacity? : Option Nat) :
    Takes 1 (openAt name policy directory capacity? : Op σ (HashIndex K V)) := by
  refine (takes_chooseCapacity capacity?).bind fun capacity _ => ?_
  exact (verify_takes _).bind fun _ _ => takes_pure trivial

theorem report_takes : Takes 1 (t.reportDirectory : Op σ Unit) := by
  refine t.takes_readDirectory.bind fun d _ => ?_
  refine (takes_report _).bind fun _ _ => (takes_report _).bind fun _ _ => ?_
  refine (takes_directory d.checkedSize_fails).bind fun size _ => takes_forM fun slot _ => ?_
  refine (takes_directory (d.bucket_fails slot)).bind fun bucket _ => Takes.withPage fun g => ?_
  refine (t.takes_readBucket g).bind fun b _ => ?_
  exact (takes_directory (d.localDepth_fails slot)).bind fun _ _ => takes_report _

section Remove

theorem isEmptyBucket_takes (id : PageId) : Takes 1 (t.isEmptyBucket id : Op σ Bool) :=
  .withPage fun g => (t.takes_readBucket g).bind fun _ _ => takes_pure trivial

theorem chooseEmptied_takes (page other : PageId) :
    Takes 1 (t.chooseEmptied page other : Op σ (Option (PageId × PageId))) := by
  refine (t.isEmptyBucket_takes page).bind fun empty _ => ?_
  split
  · exact takes_pure trivial
  · refine (t.isEmptyBucket_takes other).bind fun empty _ => ?_
    split
    · exact takes_pure trivial
    · exact takes_pure trivial

omit [FixedWidth K] [FixedWidth V] in
theorem freeBucket_takes (id : PageId) : Takes k (t.freeBucket id : Op σ Unit) := by
  refine (takes_delete id).attempt.bind fun r _ => ?_
  split
  · exact takes_pure trivial
  · exact takes_report _
  · exact takes_report _

theorem mergeStep_takes (d : Directory) (slot : Nat) :
    Takes 1 (t.mergeStep d slot : Op σ (Option (Directory × Nat))) := by
  refine (takes_directory (d.buddy_fails slot)).bind fun buddy? _ => ?_
  cases buddy? with
  | none => exact takes_pure trivial
  | some buddy =>
    refine (takes_directory (d.localDepth_fails slot)).bind fun depth _ => ?_
    refine (takes_directory (d.localDepth_fails buddy)).bind fun other _ => ?_
    split
    · exact takes_pure trivial
    · refine (takes_directory (d.bucket_fails slot)).bind fun page _ => ?_
      refine (takes_directory (d.bucket_fails buddy)).bind fun otherPage _ => ?_
      refine (t.chooseEmptied_takes page otherPage).bind fun chosen _ => ?_
      cases chosen with
      | none => exact takes_pure trivial
      | some chosen =>
        obtain ⟨emptied, survivor⟩ := chosen
        refine (takes_directory (d.repoint_fails _ _ _)).bind fun repointed _ => ?_
        refine (takes_directory (repointed.shrinkUpTo_fails _)).bind fun merged _ => ?_
        refine (takes_report _).bind fun _ _ => ?_
        exact (t.freeBucket_takes emptied).bind fun _ _ => takes_pure trivial

theorem mergeWithin_takes (n : Nat) (changed : Bool) (d : Directory) (slot : Nat) :
    Takes 1 (t.mergeWithin n changed d slot : Op σ (Directory × Bool)) := by
  induction n generalizing changed d slot with
  | zero => exact takes_pure trivial
  | succ n ih =>
    refine (t.mergeStep_takes d slot).attempt.bind fun r _ => ?_
    split
    · exact ih _ _ _
    · exact takes_pure trivial
    · exact (takes_report _).bind fun _ _ => takes_pure trivial

variable [DecidableEq V]

-- The guard on the bucket is given back before the merging.
theorem remove_takes (key : K) (value : V) : Takes 2 (t.remove key value : Op σ Bool) := by
  refine Takes.withPage fun directory => (takes_readPage directory).bind fun page _ => ?_
  refine (takes_directory (Directory.bucketFor_fails _ _)).bind fun bucket _ => ?_
  have hbucket : Takes 1 (withPage bucket .exclusive (t.removeFrom key value) :
      Op σ (Option Bool)) := by
    refine Takes.withPage fun g => (t.takes_readBucket g).bind fun b _ => ?_
    split
    · exact takes_pure trivial
    · exact (takes_writePage g _).bind fun _ _ => takes_pure trivial
  refine hbucket.bind fun found _ => ?_
  cases found with
  | none => exact takes_pure trivial
  | some emptied =>
    cases emptied with
    | false => exact takes_pure trivial
    | true =>
      refine (takes_directory (Directory.slotOf_fails _ _)).bind fun slot _ => ?_
      refine (t.mergeWithin_takes _ _ _ _).bind fun result _ => ?_
      obtain ⟨merged, changed⟩ := result
      cases changed with
      | false => exact takes_pure trivial
      | true => exact (takes_writeDirectory merged directory).bind fun _ _ => takes_pure trivial

end Remove

section Insert

variable [DecidableEq V]

theorem split_takes (d : Directory) (slot : Nat) (guard : γ) (b : Bucket K V) :
    Takes 1 (t.split d slot guard b : Op σ Directory) := by
  refine (takes_directory (d.bucket_fails slot)).bind fun old _ => ?_
  refine (takes_directory (d.localDepth_fails slot)).bind fun depth _ => ?_
  have hdeepen : Takes 1 (t.deepen d depth : Op σ Directory) := by
    unfold deepen
    split
    · refine (takes_directory d.grow_fails).bind fun grown _ => ?_
      exact (takes_report _).bind fun _ _ => takes_pure trivial
    · exact takes_pure trivial
  refine hdeepen.bind fun room _ => Takes.withNewPage fun fresh => ?_
  refine (takes_directory (room.divide_fails _ _ _)).bind fun divided _ => ?_
  refine (takes_writePage guard _).bind fun _ _ => ?_
  refine (t.takes_readBucket fresh).bind fun new _ => (takes_writePage fresh _).bind fun _ _ => ?_
  exact (takes_report _).bind fun _ _ => takes_pure trivial

theorem insertOrSplit_takes (key : K) (value : V) :
    Takes 3 (t.insertOrSplit key value : Op σ Bool) := by
  refine Takes.withPage fun directory => (takes_readPage directory).bind fun page _ => ?_
  refine (takes_directory (Directory.bucketFor_fails _ _)).bind fun bucket _ => ?_
  refine Takes.withPage fun guard => (t.takes_readBucket guard).bind fun b _ => ?_
  split
  · exact takes_fail (GuardedPool.fails (by simp))
  · split
    · split
      · refine (takes_directory (Directory.slotOf_fails _ _)).bind fun slot _ => ?_
        refine (t.split_takes _ slot guard b).bind fun divided _ => ?_
        exact (takes_writeDirectory divided directory).bind fun _ _ => takes_pure trivial
      · exact (takes_writePage guard _).bind fun _ _ => takes_pure trivial
    · exact (takes_writePage guard _).bind fun _ _ => takes_pure trivial

theorem insertWithin_takes (key : K) (value : V) (n : Nat) :
    Takes 3 (t.insertWithin key value n : Op σ Unit) := by
  induction n with
  | zero => exact takes_abort _
  | succ n ih =>
    refine (t.insertOrSplit_takes key value).bind fun stored _ => ?_
    split
    · exact takes_pure trivial
    · exact ih

theorem insert_takes (key : K) (value : V) : Takes 3 (t.insert key value : Op σ Bool) := by
  refine (t.insertWithin_takes key value 33).attempt.bind fun r hfails => ?_
  split
  · exact takes_pure trivial
  · exact takes_pure trivial
  · exact takes_fail (hfails _ rfl)

end Insert

end HashIndex

end PagedIndex
