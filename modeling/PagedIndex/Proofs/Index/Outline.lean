import Mathlib.Data.Finset.Card
import Mathlib.Data.Finset.Lattice.Fold
import Mathlib.Order.Lattice.Nat
import PagedIndex.Index.Basic
import PagedIndex.Proofs.Bucket.Entries
import PagedIndex.Proofs.Directory.Partition

namespace PagedIndex

open Directory

-- The number that addresses the bucket of a key.
def KeyPolicy.address {K : Type} (policy : KeyPolicy K) (key : K) : Nat :=
  (policy.hash key).toUInt32.toNat

-- Keys that compare as equal have one bucket.
def KeyPolicy.Coherent {K : Type} (p : KeyPolicy K) : Prop :=
  ∀ a b, p.order a b = .eq → (p.hash a).toUInt32 = (p.hash b).toUInt32

-- The pairs of an index, and for every number how many of its low bits are looked at to find its
-- bucket. An outline knows no pages.
structure Outline (K V : Type) where
  -- in the order in which they were inserted
  pairs : List (K × V)
  depth : Nat → Nat

namespace Outline

variable {K V : Type} (policy : KeyPolicy K) (capacity : Nat) (o : Outline K V)

def empty : Outline K V := ⟨[], fun _ => 0⟩

-- Two numbers have one bucket if they agree as far as it looks.
def together (a b : Nat) : Prop := lowBits (o.depth a) b = lowBits (o.depth a) a

instance (a b : Nat) : Decidable (o.together a b) := inferInstanceAs (Decidable (_ = _))

def bucket (a : Nat) : List (K × V) :=
  o.pairs.filter fun pair => o.together a (policy.address pair.1)

def get (key : K) : List V :=
  ((o.bucket policy (policy.address key)).filter fun pair =>
    (policy.order pair.1 key).isEq).map Prod.snd

theorem together_of_coherent {policy : KeyPolicy K} (h : policy.Coherent) {other key : K}
    (heq : policy.order other key = .eq) :
    o.together (policy.address key) (policy.address other) :=
  congrArg (fun hash => lowBits _ (UInt32.toNat hash)) (h other key heq)

theorem get_eq {policy : KeyPolicy K} (h : policy.Coherent) (key : K) :
    o.get policy key =
      (o.pairs.filter fun pair => (policy.order pair.1 key).isEq).map Prod.snd := by
  rw [get, bucket, List.filter_filter]
  congr 1
  refine List.filter_congr fun pair _ => ?_
  rw [Bool.and_eq_left_iff_imp]
  intro heq
  exact decide_eq_true (o.together_of_coherent h (Ordering.isEq_iff_eq_eq.mp heq))

-- The depth of the directory, which is that of its deepest bucket.
def globalDepth : Nat := (Finset.range slotCount).sup o.depth

-- Every bucket is counted at the least number that has it.
def bucketCount : Nat := ((Finset.range slotCount).filter fun a => a < 2 ^ o.depth a).card

def append (key : K) (value : V) : Outline K V := { o with pairs := o.pairs ++ [(key, value)] }

-- The bucket of `a` is divided by the next bit.
def split (a : Nat) : Outline K V :=
  { o with depth := fun b => if o.together a b then o.depth a + 1 else o.depth b }

-- The numbers that agree with `a` on the low `n` bits get one bucket.
def join (a n : Nat) : Outline K V :=
  { o with depth := fun b => if lowBits n b = lowBits n a then n else o.depth b }

-- Merge the bucket of `a` with its buddy, if they have one depth and one of them is empty. The
-- merged bucket has the second number.
def mergeStep (a : Nat) (o : Outline K V) : Option (Outline K V × Nat) :=
  match o.depth a with
  | 0 => none
  | n + 1 =>
    let buddy := flipBit a n
    if o.depth buddy = n + 1 ∧ (o.bucket policy a = [] ∨ o.bucket policy buddy = []) then
      some (o.join a n, lowBits n a)
    else none

-- Merge up to `n` times.
def mergeWithin : Nat → Nat → Outline K V → Outline K V
  | 0, _, o => o
  | n + 1, a, o =>
    match o.mergeStep policy a with
    | none => o
    | some (merged, next) => mergeWithin n next merged

-- As far as an index goes, numbers of one bucket have one depth.
structure Sound (o : Outline K V) : Prop where
  depth_le (a : Nat) : o.depth a ≤ maxDepth
  depth_eq (a b : Nat) : o.together a b → o.depth b = o.depth a

namespace Sound

variable {policy} {o : Outline K V} {a b n : Nat}

theorem together_iff (h : o.Sound) (hab : o.together a b) (c : Nat) :
    o.together b c ↔ o.together a c := by
  rw [together, together, h.depth_eq a b hab, hab]

theorem bucket_eq (h : o.Sound) (hab : o.together a b) : o.bucket policy b = o.bucket policy a := by
  simp only [bucket, h.together_iff hab]

-- Buddies make up the numbers that agree below the bit in which the buddies differ.
theorem merged_iff (hdepth : o.depth a = n + 1) (hbuddy : o.depth (flipBit a n) = n + 1) (b : Nat) :
    lowBits n b = lowBits n a ↔ o.together a b ∨ o.together (flipBit a n) b := by
  rw [together, together, hdepth, hbuddy, lowBits_succ_eq_iff, lowBits_succ_eq_iff, lowBits_flipBit,
    testBit_flipBit]
  cases b.testBit n <;> cases a.testBit n <;> simp

theorem join (h : o.Sound) (hdepth : o.depth a = n + 1) (hbuddy : o.depth (flipBit a n) = n + 1) :
    (o.join a n).Sound := by
  have hmerged (b : Nat) (hb : lowBits n b = lowBits n a) : o.depth b = n + 1 := by
    rcases (merged_iff hdepth hbuddy b).mp hb with hb | hb
    · exact (h.depth_eq _ _ hb).trans hdepth
    · exact (h.depth_eq _ _ hb).trans hbuddy
  constructor
  case depth_le =>
    intro b
    change (if _ then n else o.depth b) ≤ _
    have hle := h.depth_le a
    split
    · omega
    · exact h.depth_le b
  case depth_eq =>
    intro b c hbc
    change lowBits (if _ then n else o.depth b) c = lowBits (if _ then n else o.depth b) b at hbc
    change (if _ then n else o.depth c) = if _ then n else o.depth b
    by_cases hb : lowBits n b = lowBits n a
    · rw [if_pos hb] at hbc ⊢
      rw [if_pos (hbc.trans hb)]
    · rw [if_neg hb] at hbc ⊢
      have hsame := h.depth_eq b c hbc
      rw [if_neg fun hc => hb ?_, hsame]
      rw [← hsame, hmerged c hc, lowBits_succ_eq_iff] at hbc
      exact hbc.1.symm.trans hc

-- It does not matter at which of its numbers a bucket is split or merged.
theorem split_eq (h : o.Sound) (hab : o.together a b) : o.split b = o.split a := by
  simp only [Outline.split, h.together_iff hab, h.depth_eq a b hab]

theorem mergeStep_eq (h : o.Sound) (hab : o.together a b) :
    o.mergeStep policy b = o.mergeStep policy a := by
  have hdepth := h.depth_eq a b hab
  simp only [mergeStep]
  rw [hdepth]
  cases ha : o.depth a with
  | zero => rfl
  | succ m =>
    have hlow : lowBits (m + 1) b = lowBits (m + 1) a := ha ▸ hab
    obtain ⟨hlow', hbit⟩ := (lowBits_succ_eq_iff m b a).mp hlow
    have hflip : lowBits (m + 1) (flipBit b m) = lowBits (m + 1) (flipBit a m) := by
      rw [lowBits_succ_eq_iff, lowBits_flipBit, lowBits_flipBit, testBit_flipBit, testBit_flipBit,
        hbit]
      exact ⟨hlow', rfl⟩
    have hbuddies (x y : Nat) (hxy : lowBits (m + 1) y = lowBits (m + 1) x)
        (hx : o.depth x = m + 1) : o.together x y := by
      rw [together, hx]
      exact hxy
    by_cases hbuddy : o.depth (flipBit a m) = m + 1
    · have htogether := hbuddies _ _ hflip hbuddy
      have hjoin : o.join b m = o.join a m := by simp only [Outline.join, hlow']
      simp only [h.depth_eq _ _ htogether, h.bucket_eq hab, h.bucket_eq htogether, hjoin, hlow']
    · have hbuddy' : o.depth (flipBit b m) ≠ m + 1 := fun heq =>
        hbuddy ((h.depth_eq _ _ (hbuddies _ _ hflip.symm heq)).trans heq)
      simp only [hbuddy, hbuddy', false_and, if_false]

theorem mergeWithin_eq (h : o.Sound) (hab : o.together a b) (n : Nat) :
    mergeWithin policy n b o = mergeWithin policy n a o := by
  cases n with
  | zero => rfl
  | succ n => simp only [mergeWithin, h.mergeStep_eq hab]

end Sound

section Merge

variable {policy o}

theorem mergeStep_some {o' : Outline K V} {a next : Nat}
    (h : o.mergeStep policy a = some (o', next)) : ∃ n, o.depth a = n + 1 ∧
      o.depth (flipBit a n) = n + 1 ∧ o' = o.join a n ∧ next = lowBits n a := by
  unfold mergeStep at h
  split at h
  · cases h
  · rename_i n hdepth
    simp only at h
    split at h
    · rename_i hand
      cases h
      exact ⟨n, hdepth, hand.1, rfl, rfl⟩
    · cases h

theorem pairs_mergeWithin (n a : Nat) : (mergeWithin policy n a o).pairs = o.pairs := by
  induction n generalizing o a with
  | zero => rfl
  | succ n ih =>
    rw [mergeWithin]
    split
    · rfl
    · rename_i hstep
      obtain ⟨_, _, _, rfl, rfl⟩ := mergeStep_some hstep
      exact ih _

end Merge

variable [DecidableEq V]

-- A pair that matches is found if it is in the bucket of the key.
def finds (key : K) (value : V) (pair : K × V) : Bool :=
  matchesPair policy.order key value pair && o.together (policy.address key) (policy.address pair.1)

theorem finds_eq {policy : KeyPolicy K} (h : policy.Coherent) (key : K) (value : V) :
    o.finds policy key value = matchesPair policy.order key value := by
  funext pair
  rw [finds, Bool.and_eq_left_iff_imp]
  intro hmatch
  exact decide_eq_true (o.together_of_coherent h
    (Ordering.isEq_iff_eq_eq.mp (Bool.and_eq_true_iff.mp hmatch).1))

-- The error by which an insertion ends, or whether the pair was stored.
def insertOrSplit (key : K) (value : V) : Except StoreError (Bool × Outline K V) :=
  if o.pairs.any (o.finds policy key value) then .error .duplicateEntry
  else if (o.bucket policy (policy.address key)).length < capacity then
    .ok (true, o.append key value)
  else if o.depth (policy.address key) = maxDepth then .error (.indexFull maxDepth)
  else .ok (false, o.split (policy.address key))

section InsertOrSplit

variable {policy capacity o} {key : K} {value : V}

theorem insertOrSplit_of_any (h : o.pairs.any (o.finds policy key value)) :
    o.insertOrSplit policy capacity key value = .error .duplicateEntry := if_pos h

variable (hnew : o.pairs.any (o.finds policy key value) = false)
include hnew

theorem insertOrSplit_of_lt (h : (o.bucket policy (policy.address key)).length < capacity) :
    o.insertOrSplit policy capacity key value = .ok (true, o.append key value) := by
  rw [insertOrSplit, hnew, if_neg Bool.false_ne_true, if_pos h]

theorem insertOrSplit_of_le (h : capacity ≤ (o.bucket policy (policy.address key)).length) :
    o.insertOrSplit policy capacity key value =
      if o.depth (policy.address key) = maxDepth then .error (.indexFull maxDepth)
      else .ok (false, o.split (policy.address key)) := by
  rw [insertOrSplit, hnew, if_neg Bool.false_ne_true, if_neg (Nat.not_lt_of_le h)]

end InsertOrSplit

def insertWithin (key : K) (value : V) : Nat → Outline K V → Except StoreError Unit × Outline K V
  | 0, o => (.error (.indexFull maxDepth), o)
  | n + 1, o =>
    match o.insertOrSplit policy capacity key value with
    | .error e => (.error e, o)
    | .ok (true, o') => (.ok (), o')
    | .ok (false, o') => insertWithin key value n o'

-- Whether the pair was new.
def insert (key : K) (value : V) (o : Outline K V) : Except StoreError Bool × Outline K V :=
  match insertWithin policy capacity key value 33 o with
  | (.ok (), o') => (.ok true, o')
  | (.error .duplicateEntry, o') => (.ok false, o')
  | (.error e, o') => (.error e, o')

-- The outlines that an insertion goes through.
inductive Splits (key : K) (value : V) : Outline K V → Outline K V → Prop
  | refl (o : Outline K V) : Splits key value o o
  | step {o o' o'' : Outline K V} : o.insertOrSplit policy capacity key value = .ok (false, o') →
      Splits key value o' o'' → Splits key value o o''

section Insert

variable {policy capacity o} {o' : Outline K V} {key : K} {value : V} {n : Nat}

theorem insertOrSplit_split (h : o.insertOrSplit policy capacity key value = .ok (false, o')) :
    o.pairs.any (o.finds policy key value) = false ∧
      capacity ≤ (o.bucket policy (policy.address key)).length ∧
      o.depth (policy.address key) ≠ maxDepth ∧ o' = o.split (policy.address key) := by
  unfold insertOrSplit at h
  split at h
  · cases h
  · rename_i hnew
    split at h
    · cases h
    · rename_i hroom
      split at h
      · cases h
      · rename_i hmax
        cases h
        exact ⟨Bool.eq_false_iff.mpr hnew, Nat.le_of_not_lt hroom, hmax, rfl⟩

theorem insertOrSplit_stored (h : o.insertOrSplit policy capacity key value = .ok (true, o')) :
    o.pairs.any (o.finds policy key value) = false ∧ o' = o.append key value := by
  unfold insertOrSplit at h
  split at h
  · cases h
  · rename_i hnew
    split at h
    · cases h
      exact ⟨Bool.eq_false_iff.mpr hnew, rfl⟩
    · split at h <;> cases h

theorem insertOrSplit_error {e : StoreError}
    (h : o.insertOrSplit policy capacity key value = .error e) :
    e = .indexFull maxDepth ∨
      e = .duplicateEntry ∧ o.pairs.any (matchesPair policy.order key value) := by
  unfold insertOrSplit at h
  split at h
  · rename_i hfinds
    cases h
    obtain ⟨pair, hpair, hfinds⟩ := List.any_eq_true.mp hfinds
    exact Or.inr ⟨rfl, List.any_eq_true.mpr ⟨pair, hpair, (Bool.and_eq_true_iff.mp hfinds).1⟩⟩
  · split at h
    · cases h
    · split at h
      · cases h
        exact Or.inl rfl
      · cases h

theorem Splits.pairs_eq (h : Splits policy capacity key value o o') : o'.pairs = o.pairs := by
  induction h with
  | refl o => rfl
  | step hstep _ ih =>
    obtain ⟨_, _, _, rfl⟩ := insertOrSplit_split hstep
    exact ih

-- A pair that was stored was not there before, and comes last.
theorem insertWithin_ok (h : insertWithin policy capacity key value n o = (.ok (), o')) :
    o.pairs.any (o.finds policy key value) = false ∧ o'.pairs = o.pairs ++ [(key, value)] := by
  induction n generalizing o with
  | zero => cases h
  | succ n ih =>
    unfold insertWithin at h
    split at h
    · cases h
    · rename_i hstored
      obtain ⟨hnew, rfl⟩ := insertOrSplit_stored hstored
      cases h
      exact ⟨hnew, rfl⟩
    · rename_i hsplit
      obtain ⟨hnew, _, _, rfl⟩ := insertOrSplit_split hsplit
      exact ⟨hnew, (ih h).2⟩

theorem insertWithin_error {e : StoreError}
    (h : insertWithin policy capacity key value n o = (.error e, o')) :
    o'.pairs = o.pairs ∧ (e = .indexFull maxDepth ∨
      e = .duplicateEntry ∧ o.pairs.any (matchesPair policy.order key value)) := by
  induction n generalizing o with
  | zero =>
    cases h
    exact ⟨rfl, Or.inl rfl⟩
  | succ n ih =>
    unfold insertWithin at h
    split at h
    · rename_i herror
      cases h
      exact ⟨rfl, insertOrSplit_error herror⟩
    · cases h
    · rename_i hsplit
      obtain ⟨_, _, _, rfl⟩ := insertOrSplit_split hsplit
      have hrest := ih h
      exact hrest

-- A pair that is found in a part of a bucket was there before the split.
theorem finds_of_split {pair : K × V}
    (h : (o.split (policy.address key)).finds policy key value pair = true) :
    o.finds policy key value pair = true := by
  rw [finds, Bool.and_eq_true, decide_eq_true_iff] at h ⊢
  have hdepth : (o.split (policy.address key)).depth (policy.address key) =
      o.depth (policy.address key) + 1 := if_pos rfl
  rw [together, hdepth] at h
  exact ⟨h.1, lowBits_eq_of_le (Nat.le_succ _) h.2⟩

-- So it is found before the first split, or not at all.
theorem insertWithin_duplicate
    (h : insertWithin policy capacity key value n o = (.error .duplicateEntry, o')) :
    o.pairs.any (o.finds policy key value) = true := by
  induction n generalizing o with
  | zero => cases h
  | succ n ih =>
    unfold insertWithin at h
    split at h
    · rename_i e herror
      cases h
      unfold insertOrSplit at herror
      split at herror
      · assumption
      · split at herror
        · cases herror
        · split at herror <;> cases herror
    · cases h
    · rename_i hsplit
      obtain ⟨_, _, _, rfl⟩ := insertOrSplit_split hsplit
      obtain ⟨pair, hpair, hfinds⟩ := List.any_eq_true.mp (ih h)
      exact List.any_eq_true.mpr ⟨pair, hpair, finds_of_split hfinds⟩

theorem insert_ok {new : Bool} (h : insert policy capacity key value o = (.ok new, o')) :
    if new then o.pairs.any (o.finds policy key value) = false ∧ o'.pairs = o.pairs ++ [(key, value)]
    else o.pairs.any (matchesPair policy.order key value) ∧ o'.pairs = o.pairs := by
  unfold insert at h
  split at h
  · rename_i hinserted
    cases h
    exact insertWithin_ok hinserted
  · rename_i hduplicate
    cases h
    obtain ⟨hpairs, herror | ⟨_, hmatch⟩⟩ := insertWithin_error hduplicate
    · cases herror
    · exact ⟨hmatch, hpairs⟩
  · cases h

theorem insert_error {e : StoreError} (h : insert policy capacity key value o = (.error e, o')) :
    o'.pairs = o.pairs ∧ e = .indexFull maxDepth := by
  unfold insert at h
  split at h
  · cases h
  · cases h
  · rename_i hother hfails
    cases h
    obtain ⟨hpairs, hfull | ⟨hduplicate, _⟩⟩ := insertWithin_error hfails
    · exact ⟨hpairs, hfull⟩
    · exact absurd (by rw [hduplicate]) hother

end Insert

def erase (key : K) (value : V) : Outline K V :=
  { o with pairs := o.pairs.eraseP (o.finds policy key value) }

theorem erase_of_any_eq_false {key : K} {value : V}
    (h : o.pairs.any (o.finds policy key value) = false) : o.erase policy key value = o := by
  rw [erase, List.eraseP_of_forall_not (List.any_eq_false.mp h)]

-- A bucket that lost its last pair is merged.
def remove (key : K) (value : V) : Outline K V :=
  let rest := o.erase policy key value
  if o.pairs.any (o.finds policy key value) ∧ rest.bucket policy (policy.address key) = [] then
    mergeWithin policy 100 (policy.address key) rest
  else rest

theorem pairs_remove (key : K) (value : V) :
    (o.remove policy key value).pairs = (o.erase policy key value).pairs := by
  rw [remove]
  split
  · exact pairs_mergeWithin 100 _
  · rfl

end Outline

variable {K V : Type} {d : Directory} {pairs : List (K × V)}

-- The outline of an index with this directory.
def Directory.outline (d : Directory) (pairs : List (K × V)) : Outline K V := ⟨pairs, d.depthOf⟩

theorem Directory.Partitioned.outline_sound (h : d.Partitioned) : (d.outline pairs).Sound :=
  ⟨fun a => (h.depthOf_le a).trans h.depth_le, fun _ _ hab => h.depthOf_eq hab⟩

-- The slot of a hash has the bucket of the hash.
theorem Directory.Partitioned.together_route (h : d.Partitioned) (hash : UInt32) :
    (d.outline pairs).together hash.toNat (d.route hash) :=
  lowBits_lowBits (h.depthOf_le hash.toNat) hash.toNat

theorem Directory.outline_single (id : PageId) :
    (single id).outline ([] : List (K × V)) = Outline.empty :=
  congrArg (Outline.mk []) (funext (depthOf_single id))

section Size

theorem Directory.Partitioned.globalDepth_outline (h : d.Partitioned) (htight : d.Tight) :
    (d.outline pairs).globalDepth = d.depth := by
  obtain ⟨i, hi, hdeep⟩ := htight
  refine Nat.le_antisymm (Finset.sup_le fun a _ => h.depthOf_le a) ?_
  rw [← hdeep, ← depthOf_of_lt hi]
  exact Finset.le_sup (Finset.mem_range.mpr (h.lt_slotCount hi))

theorem nodup_eraseDups {α : Type} [DecidableEq α] : (l : List α) → l.eraseDups.Nodup
  | [] => List.nodup_nil
  | a :: l => by
    rw [List.eraseDups_cons, List.nodup_cons, List.mem_eraseDups, List.mem_filter]
    exact ⟨by simp, nodup_eraseDups _⟩
termination_by l => l.length
decreasing_by
  exact Nat.lt_succ_of_le (List.length_filter_le _ _)

theorem Directory.nodup_bucketIds (d : Directory) : d.bucketIds.Nodup :=
  (List.mergeSort_perm _ _).nodup_iff.mpr (nodup_eraseDups _)

-- Every bucket is named by the number that its low bits form.
theorem Directory.Partitioned.bucketCount_outline (h : d.Partitioned) :
    (d.outline pairs).bucketCount = d.bucketIds.length := by
  have hfirst {a : Nat} (ha : a < 2 ^ d.depthOf a) : a < d.size ∧ d.depthOf a = d.depthAt a := by
    have hlt : a < d.size := by
      rw [size_eq_two_pow]
      exact ha.trans_le (Nat.pow_le_pow_right (by decide) (h.depthOf_le a))
    exact ⟨hlt, depthOf_of_lt hlt⟩
  have hids : d.bucketIds.toFinset =
      ((Finset.range slotCount).filter fun a => a < 2 ^ d.depthOf a).image d.bucketAt := by
    ext id
    simp only [List.mem_toFinset, mem_bucketIds, Finset.mem_image, Finset.mem_filter,
      Finset.mem_range]
    constructor
    · rintro ⟨i, hi, rfl⟩
      have hle : lowBits (d.depthAt i) i ≤ i := by
        rw [lowBits_eq_mod]
        exact Nat.mod_le _ _
      have hlt := hle.trans_lt hi
      have hsame : d.bucketAt (lowBits (d.depthAt i) i) = d.bucketAt i :=
        (h.same_iff i _ hi hlt).mpr (lowBits_lowBits (le_refl _) i)
      refine ⟨_, ⟨h.lt_slotCount hlt, ?_⟩, hsame⟩
      rw [depthOf_of_lt hlt, h.depthAt_eq hlt hi hsame]
      exact lowBits_lt _ _
    · rintro ⟨a, ⟨_, ha⟩, rfl⟩
      exact ⟨a, (hfirst ha).1, rfl⟩
  rw [← List.toFinset_card_of_nodup d.nodup_bucketIds, hids, Finset.card_image_of_injOn]
  · rfl
  · intro a ha b hb hbucket
    have ha' := (Finset.mem_filter.mp ha).2
    have hb' := (Finset.mem_filter.mp hb).2
    obtain ⟨halt, hda⟩ := hfirst ha'
    obtain ⟨hblt, hdb⟩ := hfirst hb'
    rw [hda] at ha'
    rw [hdb, ← h.depthAt_eq halt hblt hbucket] at hb'
    have hlow := (h.same_iff b a hblt halt).mp hbucket
    rwa [← h.depthAt_eq halt hblt hbucket, lowBits_eq_mod, lowBits_eq_mod, Nat.mod_eq_of_lt ha',
      Nat.mod_eq_of_lt hb'] at hlow

end Size

end PagedIndex
