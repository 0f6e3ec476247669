import PagedIndex.Field.ByteKey
import PagedIndex.Proofs.Bucket.Layout
import PagedIndex.Proofs.Index.Balance
import PagedIndex.Proofs.Index.Inspection
import PagedIndex.Proofs.Pool.Room

namespace PagedIndex

namespace Op

variable {σ α β : Type} {x : Op σ α} {P : α → Prop} {Q : β → Prop}

-- Whatever the operation answers is so.
def Gives (P : α → Prop) (x : Op σ α) : Prop := ∀ s, x.Ends s fun r _ => ∀ a, r = .ok a → P a

theorem gives_true (x : Op σ α) : Gives (fun _ => True) x := fun _ _ _ => trivial

theorem gives_pure {a : α} (ha : P a) : Gives P (Pure.pure a : Op σ α) :=
  fun _ _ h => Except.ok.inj h ▸ ha

theorem gives_fail (e : StoreError) : Gives P (fail e : Op σ α) := nofun

theorem Gives.bind {f : α → Op σ β} (hx : Gives P x) (hf : ∀ a, P a → Gives Q (f a)) :
    Gives Q (x >>= f) := by
  intro s
  rw [ends_bind]
  refine (hx s).mono fun r t hr => ?_
  cases r with
  | ok a => exact hf a (hr a rfl) t
  | error e => nofun

theorem Gives.attempt (hx : Gives P x) :
    Gives (fun r => ∀ a, r = .ok a → P a) (Op.attempt x) := by
  intro s
  rw [ends_attempt]
  refine (hx s).mono fun r t hr => ?_
  cases r using Checked.outcomes with
  | ok a => exact fun _ h => Except.ok.inj h ▸ fun b hb => Except.ok.inj hb ▸ hr a rfl
  | error e => exact fun _ h => Except.ok.inj h ▸ nofun
  | abort a => nofun

theorem Gives.ensuring (hx : Gives P x) (cleanup : Op σ Unit) : Gives P (x.ensuring cleanup) := hx

end Op

namespace HashIndex

open Op PagePool

variable {K V σ γ α : Type}

section Pool

variable [PagePool σ γ]

theorem findsRoom_directory {c : Checked α} (hc : c.FailsAs Directory.Fails) :
    FindsRoom (liftM c : Op σ α) := findsRoom_liftM fun _ _ => hc.ne id

theorem findsRoom_readPage (g : γ) : FindsRoom (readPage g : Op σ Page) := findsRoom_observe _

theorem findsRoom_writePage (g : γ) (page : Page) : FindsRoom (writePage g page : Op σ Unit) :=
  findsRoom_update _

variable [RoomyPool σ γ]

theorem findsRoom_withPage {id : PageId} {access : Access} {body : γ → Op σ α}
    (hbody : ∀ g, FindsRoom (body g)) : FindsRoom (withPage id access body) :=
  (RoomyPool.fetch id access).bind fun g => (hbody g).ensuring _

theorem findsRoom_withNewPage {body : γ → Op σ α} (hbody : ∀ g, FindsRoom (body g)) :
    FindsRoom (withNewPage body) := RoomyPool.allocate.bind fun g => (hbody g).ensuring _

end Pool

variable [FixedWidth K] [FixedWidth V] [PagePool σ γ] {t : HashIndex K V}

theorem readBucket_findsRoom (ht : t.Accepted) (guard : γ) :
    FindsRoom (t.readBucket guard : Op σ (Bucket K V)) := by
  refine (findsRoom_readPage guard).bind fun page => findsRoom_liftM ?_
  obtain ⟨b, hb, -⟩ := ht.view page
  rw [hb]
  exact Checked.findsRoom_ok b

omit [FixedWidth K] [FixedWidth V] in
theorem writeDirectory_findsRoom (d : Directory) (guard : γ) :
    FindsRoom (writeDirectory d guard : Op σ Unit) :=
  (findsRoom_readPage guard).bind fun _ => findsRoom_writePage guard _

-- What goes on with the capacity that was chosen.
theorem findsRoom_chosen {capacity? : Option Nat} {f : Nat → Op σ α}
    (hf : ∀ c, chooseCapacity K V capacity? = .ok c → FindsRoom (f c)) :
    FindsRoom (do let c ← chooseCapacity K V capacity?; f c) := by
  have hfails := chooseCapacity_fails (K := K) (V := V) capacity?
  cases hchoose : chooseCapacity K V capacity? with
  | ok c => exact hf c hchoose
  | error e =>
    obtain ⟨n, -, -, rfl⟩ := hfails e hchoose
    exact findsRoom_fail _

theorem gives_chosen {capacity? : Option Nat} {P : α → Prop} {f : Nat → Op σ α}
    (hf : ∀ c, chooseCapacity K V capacity? = .ok c → Gives P (f c)) :
    Gives P (do let c ← chooseCapacity K V capacity?; f c) := by
  cases hchoose : chooseCapacity K V capacity? with
  | ok c => exact hf c hchoose
  | error e => exact fun _ => nofun

-- A new index has the capacity that was chosen.
theorem create_gives (name : String) (policy : KeyPolicy K) (capacity? : Option Nat) :
    Gives (fun t => chooseCapacity K V capacity? = .ok t.capacity)
      (create name policy capacity? : Op σ (HashIndex K V)) := by
  refine gives_chosen fun c hchoose => ?_
  refine Gives.bind (P := fun pages : PageId × Except StoreError (HashIndex K V) =>
    ∀ t, pages.2 = .ok t → chooseCapacity K V capacity? = .ok t.capacity) ?_ fun pages hpages => ?_
  · refine (gives_true _).bind fun directory _ => Gives.ensuring ?_ _
    refine Gives.bind (Gives.attempt (P := fun t : HashIndex K V =>
      chooseCapacity K V capacity? = .ok t.capacity) ?_) fun created hcreated => gives_pure hcreated
    refine (gives_true _).bind fun bucket _ => Gives.ensuring ?_ _
    refine (gives_true _).bind fun b _ => (gives_true _).bind fun _ _ => ?_
    refine (gives_true _).bind fun _ _ => (gives_true _).bind fun _ _ => gives_pure hchoose
  · obtain ⟨directory, created⟩ := pages
    cases created with
    | ok t => exact gives_pure (hpages t rfl)
    | error e => exact (gives_true _).bind fun _ _ => gives_fail e

theorem openAt_gives (name : String) (policy : KeyPolicy K) (directory : PageId)
    (capacity? : Option Nat) :
    Gives (fun t => chooseCapacity K V capacity? = .ok t.capacity)
      (openAt name policy directory capacity? : Op σ (HashIndex K V)) :=
  gives_chosen fun _ hchoose => (gives_true _).bind fun _ _ => gives_pure hchoose

section Operations

variable [RoomyPool σ γ]

omit [FixedWidth K] [FixedWidth V] in
theorem readDirectory_findsRoom (t : HashIndex K V) :
    FindsRoom (t.readDirectory : Op σ Directory) :=
  findsRoom_withPage fun g => (findsRoom_readPage g).bind fun _ => findsRoom_pure _

theorem create_findsRoom (name : String) (policy : KeyPolicy K) {capacity? : Option Nat}
    (hroom : ∀ n, chooseCapacity K V capacity? = .ok n → 0 < n) :
    FindsRoom (create name policy capacity? : Op σ (HashIndex K V)) := by
  refine findsRoom_chosen fun c hchoose => ?_
  have ht (directory : PageId) : Accepted (V := V) ⟨name, policy, directory, c⟩ :=
    .of_chosen hchoose (hroom c hchoose)
  refine FindsRoom.bind (findsRoom_withNewPage fun directory => ?_) fun pages => ?_
  · refine FindsRoom.bind (FindsRoom.attempt ?_) fun created => findsRoom_pure _
    refine findsRoom_withNewPage fun bucket => (readBucket_findsRoom (ht _) bucket).bind fun b => ?_
    refine (findsRoom_writePage bucket _).bind fun _ => ?_
    refine (writeDirectory_findsRoom _ directory).bind fun _ => ?_
    exact (findsRoom_report _).bind fun _ => findsRoom_pure _
  · obtain ⟨directory, created⟩ := pages
    cases created with
    | ok t => exact findsRoom_pure t
    | error e => exact (RoomyPool.delete directory).discard.bind fun _ => findsRoom_fail e

omit [FixedWidth K] [FixedWidth V] in
theorem globalDepth_findsRoom (t : HashIndex K V) : FindsRoom (t.globalDepth : Op σ Nat) :=
  t.readDirectory_findsRoom.bind fun _ => findsRoom_pure _

omit [FixedWidth K] [FixedWidth V] in
theorem bucketCount_findsRoom (t : HashIndex K V) : FindsRoom (t.bucketCount : Op σ Nat) :=
  t.readDirectory_findsRoom.bind fun d =>
    (findsRoom_directory d.checkedBucketIds_fails).bind fun _ => findsRoom_pure _

variable (ht : t.Accepted)
include ht

theorem get_findsRoom (key : K) : FindsRoom (t.get key : Op σ (List V)) := by
  refine (findsRoom_withPage findsRoom_readPage).bind fun page => ?_
  refine (findsRoom_directory (Directory.bucketFor_fails _ _)).bind fun bucket => ?_
  refine findsRoom_withPage fun g => (readBucket_findsRoom ht g).bind fun b => findsRoom_liftM ?_
  rw [b.checkedGet_eq]
  exact Checked.findsRoom_ok _

theorem verifyBucket_findsRoom (d : Directory) (id : PageId) :
    FindsRoom (t.verifyBucket d id : Op σ Unit) := by
  refine findsRoom_withPage fun g => (readBucket_findsRoom ht g).bind fun b => ?_
  have hoverflow : b.checkedOverflow.FindsRoom := b.checkedOverflow_eq ▸ Checked.findsRoom_ok _
  have hread : b.checkedEntries.FindsRoom := b.checkedEntries_eq ▸ Checked.findsRoom_ok _
  refine (findsRoom_liftM hoverflow).bind fun overflow => ?_
  split
  · exact findsRoom_failed _ _
  · refine (findsRoom_liftM hread).bind fun entries => FindsRoom.forM (fun pair => ?_) entries
    exact findsRoom_directory (t.verifyKey_fails d id pair.1)

theorem verify_findsRoom : FindsRoom (t.verify : Op σ Unit) := by
  refine t.readDirectory_findsRoom.bind fun d => ?_
  have hpages : FindsRoom (t.verifyPages d : Op σ Unit) :=
    (findsRoom_directory d.verify_fails).bind fun _ =>
      (findsRoom_directory d.checkedBucketIds_fails).bind fun ids =>
        FindsRoom.forM (verifyBucket_findsRoom ht d) ids
  refine hpages.attempt.bind fun r => ?_
  cases r with
  | ok _ => exact findsRoom_pure _
  | error e => exact (findsRoom_report _).bind fun _ => findsRoom_fail e

theorem report_findsRoom : FindsRoom (t.reportDirectory : Op σ Unit) := by
  refine t.readDirectory_findsRoom.bind fun d => ?_
  refine (findsRoom_report _).bind fun _ => (findsRoom_report _).bind fun _ => ?_
  refine (findsRoom_directory d.checkedSize_fails).bind fun size => FindsRoom.forM (fun slot => ?_) _
  refine (findsRoom_directory (d.bucket_fails slot)).bind fun bucket => findsRoom_withPage fun g => ?_
  refine (readBucket_findsRoom ht g).bind fun b => ?_
  exact (findsRoom_directory (d.localDepth_fails slot)).bind fun _ => findsRoom_report _

section Remove

theorem isEmptyBucket_findsRoom (id : PageId) : FindsRoom (t.isEmptyBucket id : Op σ Bool) :=
  findsRoom_withPage fun g => (readBucket_findsRoom ht g).bind fun _ => findsRoom_pure _

theorem chooseEmptied_findsRoom (page other : PageId) :
    FindsRoom (t.chooseEmptied page other : Op σ (Option (PageId × PageId))) := by
  refine (isEmptyBucket_findsRoom ht page).bind fun empty => ?_
  split
  · exact findsRoom_pure _
  · refine (isEmptyBucket_findsRoom ht other).bind fun empty => ?_
    split
    · exact findsRoom_pure _
    · exact findsRoom_pure _

theorem mergeStep_findsRoom (d : Directory) (slot : Nat) :
    FindsRoom (t.mergeStep d slot : Op σ (Option (Directory × Nat))) := by
  refine (findsRoom_directory (d.buddy_fails slot)).bind fun buddy? => ?_
  cases buddy? with
  | none => exact findsRoom_pure _
  | some buddy =>
    refine (findsRoom_directory (d.localDepth_fails slot)).bind fun depth => ?_
    refine (findsRoom_directory (d.localDepth_fails buddy)).bind fun other => ?_
    split
    · exact findsRoom_pure _
    · refine (findsRoom_directory (d.bucket_fails slot)).bind fun page => ?_
      refine (findsRoom_directory (d.bucket_fails buddy)).bind fun otherPage => ?_
      refine (chooseEmptied_findsRoom ht page otherPage).bind fun chosen => ?_
      cases chosen with
      | none => exact findsRoom_pure _
      | some chosen =>
        obtain ⟨emptied, survivor⟩ := chosen
        refine (findsRoom_directory (d.repoint_fails _ _ _)).bind fun repointed => ?_
        refine (findsRoom_directory (repointed.shrinkUpTo_fails _)).bind fun merged => ?_
        refine (findsRoom_report _).bind fun _ => ?_
        refine FindsRoom.bind ?_ fun _ => findsRoom_pure _
        refine (RoomyPool.delete emptied).attempt.bind fun freed => ?_
        split
        · exact findsRoom_pure _
        · exact findsRoom_report _
        · exact findsRoom_report _

theorem mergeWithin_findsRoom (n : Nat) (changed : Bool) (d : Directory) (slot : Nat) :
    FindsRoom (t.mergeWithin n changed d slot : Op σ (Directory × Bool)) := by
  induction n generalizing changed d slot with
  | zero => exact findsRoom_pure _
  | succ n ih =>
    refine (mergeStep_findsRoom ht d slot).attempt.bind fun r => ?_
    split
    · exact ih _ _ _
    · exact findsRoom_pure _
    · exact (findsRoom_report _).bind fun _ => findsRoom_pure _

variable [DecidableEq V]

theorem remove_findsRoom (key : K) (value : V) : FindsRoom (t.remove key value : Op σ Bool) := by
  refine findsRoom_withPage fun directory => (findsRoom_readPage directory).bind fun page => ?_
  refine (findsRoom_directory (Directory.bucketFor_fails _ _)).bind fun bucket => ?_
  have hbucket : FindsRoom (withPage bucket .exclusive (t.removeFrom key value) :
      Op σ (Option Bool)) := by
    refine findsRoom_withPage fun g => (readBucket_findsRoom ht g).bind fun b => ?_
    split
    · exact findsRoom_pure _
    · exact (findsRoom_writePage g _).bind fun _ => findsRoom_pure _
  refine hbucket.bind fun found => ?_
  cases found with
  | none => exact findsRoom_pure _
  | some emptied =>
    cases emptied with
    | false => exact findsRoom_pure _
    | true =>
      refine (findsRoom_directory (Directory.slotOf_fails _ _)).bind fun slot => ?_
      refine (mergeWithin_findsRoom ht _ _ _ _).bind fun result => ?_
      obtain ⟨merged, changed⟩ := result
      cases changed with
      | false => exact findsRoom_pure _
      | true => exact (writeDirectory_findsRoom merged directory).bind fun _ => findsRoom_pure _

end Remove

section Insert

variable [DecidableEq V]

theorem split_findsRoom (d : Directory) (slot : Nat) (guard : γ) (b : Bucket K V) :
    FindsRoom (t.split d slot guard b : Op σ Directory) := by
  refine (findsRoom_directory (d.bucket_fails slot)).bind fun old => ?_
  refine (findsRoom_directory (d.localDepth_fails slot)).bind fun depth => ?_
  have hdeepen : FindsRoom (t.deepen d depth : Op σ Directory) := by
    unfold deepen
    split
    · refine (findsRoom_directory d.grow_fails).bind fun grown => ?_
      exact (findsRoom_report _).bind fun _ => findsRoom_pure _
    · exact findsRoom_pure _
  refine hdeepen.bind fun room => findsRoom_withNewPage fun fresh => ?_
  refine (findsRoom_directory (room.divide_fails _ _ _)).bind fun divided => ?_
  refine (findsRoom_writePage guard _).bind fun _ => ?_
  refine (readBucket_findsRoom ht fresh).bind fun new => (findsRoom_writePage fresh _).bind fun _ => ?_
  exact (findsRoom_report _).bind fun _ => findsRoom_pure _

theorem insertOrSplit_findsRoom (key : K) (value : V) :
    FindsRoom (t.insertOrSplit key value : Op σ Bool) := by
  refine findsRoom_withPage fun directory => (findsRoom_readPage directory).bind fun page => ?_
  refine (findsRoom_directory (Directory.bucketFor_fails _ _)).bind fun bucket => ?_
  refine findsRoom_withPage fun guard => (readBucket_findsRoom ht guard).bind fun b => ?_
  split
  · exact findsRoom_fail _
  · split
    · split
      · refine (findsRoom_directory (Directory.slotOf_fails _ _)).bind fun slot => ?_
        refine (split_findsRoom ht _ slot guard b).bind fun divided => ?_
        exact (writeDirectory_findsRoom divided directory).bind fun _ => findsRoom_pure _
      · exact (findsRoom_writePage guard _).bind fun _ => findsRoom_pure _
    · exact (findsRoom_writePage guard _).bind fun _ => findsRoom_pure _

theorem insertWithin_findsRoom (key : K) (value : V) (n : Nat) :
    FindsRoom (t.insertWithin key value n : Op σ Unit) := by
  induction n with
  | zero => exact findsRoom_liftM nofun
  | succ n ih =>
    refine (insertOrSplit_findsRoom ht key value).bind fun stored => ?_
    split
    · exact findsRoom_pure _
    · exact ih

theorem insert_findsRoom (key : K) (value : V) : FindsRoom (t.insert key value : Op σ Bool) := by
  refine (insertWithin_findsRoom ht key value 33).attempt.bind fun r => ?_
  split
  · exact findsRoom_pure _
  · exact findsRoom_pure _
  · exact findsRoom_fail _

end Insert

omit ht in
theorem openAt_findsRoom (name : String) (policy : KeyPolicy K) (directory : PageId)
    {capacity? : Option Nat} (hroom : ∀ n, chooseCapacity K V capacity? = .ok n → 0 < n) :
    FindsRoom (openAt name policy directory capacity? : Op σ (HashIndex K V)) :=
  findsRoom_chosen fun _ hchoose =>
    (verify_findsRoom (.of_chosen hchoose (hroom _ hchoose))).bind fun _ => findsRoom_pure _

variable [DecidableEq V]

-- With a capacity that a page has room for there is room in all that is asked, also if one more handle
-- is opened with all the room there is.
theorem query_findsRoom (query : IndexQuery K V) :
    FindsRoom (query.run t : Op σ (IndexAnswer V ⊕ Nat)) := by
  cases query with
  | call call =>
    refine FindsRoom.map _ ?_
    cases call with
    | get key => exact (get_findsRoom ht key).map _
    | insert key value => exact (insert_findsRoom ht key value).map _
    | tryInsert key value => exact (insertWithin_findsRoom ht key value 33).map _
    | remove key value => exact (remove_findsRoom ht key value).map _
    | verify => exact (verify_findsRoom ht).map _
    | reopen capacity? =>
      refine (openAt_findsRoom t.name t.policy t.directory fun n hn => ?_).map _
      rcases chooseCapacity_spec (K := K) (V := V) capacity? with ⟨_, hchosen, -, hzero⟩ | ⟨_, he, -⟩
      · obtain rfl := Except.ok.inj (hchosen.symm.trans hn)
        have := ht.pos
        have := ht.le
        omega
      · cases he.symm.trans hn
  | globalDepth => exact t.globalDepth_findsRoom.map _
  | bucketCount => exact t.bucketCount_findsRoom.map _

end Operations

section Unchecked

-- No page is a bucket without room for a pair.
theorem readBucket_gives (ht : t.capacity = 0) (guard : γ) :
    Gives (fun _ => False) (t.readBucket guard : Op σ (Bucket K V)) := by
  refine (gives_true _).bind fun page _ => ?_
  rw [Bucket.view, dif_neg fun h => h.1.ne' ht]
  rintro s b ⟨⟩

theorem create_aborts (name : String) (policy : KeyPolicy K) {capacity? : Option Nat}
    (hchoose : chooseCapacity K V capacity? = .ok 0) {s : σ} {g g' : γ}
    (hg : (PagePool.allocate s : Outcome σ γ).result = .ok g)
    (hg' : (PagePool.allocate (PagePool.allocate s : Outcome σ γ).state : Outcome σ γ).result = .ok g') :
    (create name policy capacity? s : Outcome σ (HashIndex K V)).result =
      .error (.abort (.capacity 0 (Bucket.maxSlots K V))) := by
  have hends : (create name policy capacity? : Op σ (HashIndex K V)).Ends s fun r _ =>
      r = .error (.abort (.capacity 0 (Bucket.maxSlots K V))) := by
    rw [create, hchoose, ends_bind, ends_liftM, then_ok, ends_bind, withNewPage, ends_bind]
    refine Ends.mono (P := fun r u => r = .ok g ∧ u = (PagePool.allocate s : Outcome σ γ).state)
      ⟨hg, rfl⟩ fun r u hr => ?_
    obtain ⟨rfl, rfl⟩ := hr
    rw [then_ok, ends_ensuring, ends_bind, ends_attempt, withNewPage, ends_bind]
    refine Ends.mono (P := fun r _ => r = .ok g') hg' fun r u hr => ?_
    subst hr
    rw [then_ok, ends_ensuring, ends_bind, readBucket, ends_bind, readPage, ends_observe, then_ok,
      ends_liftM, Bucket.view, dif_neg fun h => h.1.ne' rfl]
    -- giving back both guards does not change the outcome
    exact rfl
  exact hends

-- An index that passes the check has a bucket, which is looked at.
theorem verify_gives (ht : t.capacity = 0) : Gives (fun _ => False) (t.verify : Op σ Unit) := by
  have hbucket (d : Directory) (id : PageId) :
      Gives (fun _ => False) (t.verifyBucket d id : Op σ Unit) :=
    (gives_true _).bind fun g _ => ((readBucket_gives ht g).bind fun _ => False.elim).ensuring _
  have hpages (d : Directory) : Gives (fun _ => False) (t.verifyPages d : Op σ Unit) := by
    rcases d.verify_outcome with ⟨hok, hpart⟩ | ⟨-, cause, hcause⟩
    · rw [verifyPages, hok, hpart.checkedBucketIds_eq]
      change Gives _ (d.bucketIds.forM (t.verifyBucket d) : Op σ Unit)
      cases hids : d.bucketIds with
      | nil => exact absurd ((d.mem_bucketIds _).mpr ⟨0, d.size_pos, rfl⟩) (hids ▸ List.not_mem_nil)
      | cons id ids => exact (hbucket d id).bind fun _ => False.elim
    · rw [verifyPages, hcause]
      exact fun _ => nofun
  refine (gives_true _).bind fun d _ => (hpages d).attempt.bind fun r hr => ?_
  cases r with
  | ok u => exact (hr u rfl).elim
  | error e => exact (gives_true _).bind fun _ _ => gives_fail e

theorem openAt_gives_none (name : String) (policy : KeyPolicy K) (directory : PageId)
    {capacity? : Option Nat} (hchoose : chooseCapacity K V capacity? = .ok 0) :
    Gives (fun _ => False) (openAt name policy directory capacity? : Op σ (HashIndex K V)) := by
  refine gives_chosen fun c hc => ?_
  obtain rfl := Except.ok.inj (hchoose.symm.trans hc)
  exact (verify_gives rfl).bind fun _ => False.elim

end Unchecked

-- For slots narrower than `2 ^ 62` bytes the check is the one in machine words.
theorem chooseCapacity_eq_slotLimit (hwidth : 4 * Bucket.slotWidth K V + 1 < UInt64.size)
    (capacity? : Option Nat) :
    chooseCapacity K V capacity? = (Bucket.slotLimit (Bucket.slotWidth K V)).bind fun most =>
      match capacity? with
      | none => .ok most
      | some n =>
        if 0 < n ∧ n ≤ most then .ok n else Checked.fail (.invalidState (.capacity n most)) := by
  rw [Bucket.slotLimit_eq hwidth]
  cases capacity? <;> rfl

-- What comes of the request, on any pool. One out of range is answered with its error, and the pool is
-- not called. With any other the index gets a capacity in the range, and then it neither aborts over
-- the capacity itself, nor does anything that is asked of an index of that capacity. But without a
-- request nothing is refused: if no page has room for a pair, a new index aborts with its pages
-- allocated, and none is ever opened.
theorem capacity_decides [DecidableEq V] [RoomyPool σ γ] (name : String) (policy : KeyPolicy K)
    (capacity? : Option Nat) :
    (∃ n, capacity? = some n ∧ ¬ (1 ≤ n ∧ n ≤ Bucket.maxSlots K V) ∧ ∀ s : σ,
      (create name policy capacity? s : Outcome σ (HashIndex K V)) =
          ⟨.error (.error (.invalidState (.capacity n (Bucket.maxSlots K V)))), s, []⟩ ∧
        ∀ directory, (openAt name policy directory capacity? s : Outcome σ (HashIndex K V)) =
          ⟨.error (.error (.invalidState (.capacity n (Bucket.maxSlots K V)))), s, []⟩) ∨
    (∃ c, 1 ≤ c ∧ c ≤ Bucket.maxSlots K V ∧ (∀ n, capacity? = some n → c = n) ∧
      (FindsRoom (create name policy capacity? : Op σ (HashIndex K V)) ∧
        Gives (fun t => t.capacity = c) (create name policy capacity? : Op σ (HashIndex K V))) ∧
      (∀ directory,
        FindsRoom (openAt name policy directory capacity? : Op σ (HashIndex K V)) ∧
          Gives (fun t => t.capacity = c)
            (openAt name policy directory capacity? : Op σ (HashIndex K V))) ∧
      ∀ t : HashIndex K V, t.capacity = c →
        (∀ query, FindsRoom (IndexQuery.run t query : Op σ (IndexAnswer V ⊕ Nat))) ∧
          FindsRoom (t.reportDirectory : Op σ Unit)) ∨
    (capacity? = none ∧ 4094 < FixedWidth.width K + FixedWidth.width V ∧
      (∀ (s : σ) (g g' : γ), (PagePool.allocate s : Outcome σ γ).result = .ok g →
        (PagePool.allocate (PagePool.allocate s : Outcome σ γ).state : Outcome σ γ).result = .ok g' →
        (create name policy capacity? s : Outcome σ (HashIndex K V)).result =
          .error (.abort (.capacity 0 0))) ∧
      ∀ directory, Gives (fun _ => False)
        (openAt name policy directory capacity? : Op σ (HashIndex K V))) := by
  cases hchoose : chooseCapacity K V capacity? with
  | error e =>
    obtain ⟨n, hn, hrange, rfl⟩ := chooseCapacity_fails capacity? e hchoose
    refine Or.inl ⟨n, hn, hrange, fun s => ⟨?_, fun directory => ?_⟩⟩
    · rw [create, hchoose]
      rfl
    · rw [openAt, hchoose]
      rfl
  | ok c =>
    have hgives {x : Op σ (HashIndex K V)}
        (hx : Gives (fun t => chooseCapacity K V capacity? = .ok t.capacity) x) :
        Gives (fun t => t.capacity = c) x := fun s => (hx s).mono fun _ _ hr t ht =>
      (Except.ok.inj (hchoose.symm.trans (hr t ht))).symm
    by_cases hpos : 0 < c
    · have hroom (n : Nat) (hn : chooseCapacity K V capacity? = .ok n) : 0 < n :=
        Except.ok.inj (hchoose.symm.trans hn) ▸ hpos
      have haccepted {t : HashIndex K V} (ht : t.capacity = c) : t.Accepted :=
        .of_chosen (ht ▸ hchoose) (ht ▸ hpos)
      refine Or.inr (Or.inl ⟨c, hpos, (haccepted (t := ⟨name, policy, ⟨0⟩, c⟩) rfl).le, ?_,
        ⟨create_findsRoom name policy hroom, hgives (create_gives name policy capacity?)⟩,
        fun directory => ⟨openAt_findsRoom name policy directory hroom,
          hgives (openAt_gives name policy directory capacity?)⟩,
        fun t ht => ⟨query_findsRoom (haccepted ht), report_findsRoom (haccepted ht)⟩⟩)
      rintro n rfl
      rw [chooseCapacity] at hchoose
      split at hchoose
      · exact (Except.ok.inj hchoose).symm
      · cases hchoose
    · obtain rfl : c = 0 := Nat.eq_zero_of_not_pos hpos
      have hnone : capacity? = none := by
        cases capacity? with
        | none => rfl
        | some n =>
          rw [chooseCapacity] at hchoose
          split at hchoose
          · rename_i hn
            exact absurd (Except.ok.inj hchoose) hn.1.ne'
          · cases hchoose
      have hmax : Bucket.maxSlots K V = 0 := by
        rw [hnone] at hchoose
        exact Except.ok.inj hchoose
      refine Or.inr (Or.inr ⟨hnone, ?_, fun s g g' hg hg' => ?_, fun directory =>
        openAt_gives_none name policy directory hchoose⟩)
      · have hwide := BucketLayout.maxSlots_eq_zero_iff.mp hmax
        rw [pageSize, Bucket.slotWidth] at hwide
        omega
      · rw [create_aborts name policy hchoose hg hg', hmax]

theorem capacity_decides_five :
    RoomyPool (Mounted (Pool 3) MemoryStore) (Guard 3) ∧
      5 ≤ Bucket.maxSlots UInt32 UInt32 ∧
      FindsRoom (create "index" ⟨compare, UInt32.toUInt64⟩ (some 5) :
        Op (Mounted (Pool 3) MemoryStore) (HashIndex UInt32 UInt32)) := by
  have hdecides := capacity_decides (σ := Mounted (Pool 3) MemoryStore) (K := UInt32) (V := UInt32)
    "index" ⟨compare, UInt32.toUInt64⟩ (some 5)
  have hle : 5 ≤ Bucket.maxSlots UInt32 UInt32 := BucketLayout.le_mostUpTo (by decide) (by decide)
  rcases hdecides with ⟨n, hn, hrange, -⟩ | ⟨c, -, -, -, hcreate, -⟩ | ⟨hnone, -⟩
  · cases hn
    exact absurd ⟨by decide, hle⟩ hrange
  · exact ⟨inferInstance, hle, hcreate.1⟩
  · cases hnone

-- Without a request keys of a whole page are not refused.
theorem create_none_aborts_wide :
    let m : Mounted (Pool 3) MemoryStore := ⟨.single (Shard.initial 3 3 0 1 0), .empty⟩
    let r : Outcome _ (HashIndex (ByteKey 4096) Int32) := create "index" ⟨compare, fun _ => 0⟩ none m
    r.result = .error (.abort (.capacity 0 0)) ∧
      (¬ ∃ cause, r.result = .error (.error (.invalidState cause))) ∧
      ¬ ∃ t, r.result = .ok t ∧ 1 ≤ t.capacity ∧ t.capacity ≤ Bucket.maxSlots (ByteKey 4096) Int32 := by
  intro m r
  have hr : r.result = .error (.abort (.capacity 0 0)) := create_aborts "index" _ rfl rfl rfl
  refine ⟨hr, ?_, ?_⟩
  · rintro ⟨cause, hcause⟩
    cases hr.symm.trans hcause
  · rintro ⟨t, ht, -⟩
    cases hr.symm.trans ht

end HashIndex

end PagedIndex
