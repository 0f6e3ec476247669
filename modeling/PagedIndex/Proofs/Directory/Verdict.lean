import Mathlib.Data.List.Nodup
import PagedIndex.Directory.Integrity
import PagedIndex.Proofs.Directory.Checked

namespace PagedIndex.Directory

variable {d : Directory}

-- The check fails, as it may for a directory that is not sound.
def Refuted (d : Directory) (x : Checked α) : Prop :=
  ¬ d.Partitioned ∧ ∃ cause, x = contradiction cause

-- The group has the bucket, the depth and the low bits of the slot.
structure Group.Fits (g : Group) (d : Directory) (i : Nat) : Prop where
  bucket_eq : g.bucket = d.bucketAt i
  depth_eq : g.depth = d.depthAt i
  low_eq : g.low = lowBits (d.depthAt i) i

-- What is known once the first `n` slots have passed: each is in the group of its bucket, and the
-- groups have counted them.
structure Surveyed (d : Directory) (n : Nat) (groups : List Group) : Prop where
  nodup : (groups.map Group.bucket).Nodup
  valid (i : Nat) : i < n → d.bucketAt i ≠ PageId.invalid
  depthAt_le (i : Nat) : i < n → d.depthAt i ≤ d.depth
  grouped (i : Nat) : i < n → ∃ g ∈ groups, g.Fits d i
  founded (g : Group) : g ∈ groups → ∃ i < n, g.Fits d i
  counted (g : Group) : g ∈ groups → g.slots = (List.range n).countP fun i => d.bucketAt i = g.bucket

-- Among the numbers of `g` bits, one in `2 ^ l` has given low bits.
theorem countP_lowBits {l g c : Nat} (hlg : l ≤ g) (hc : c < 2 ^ l) :
    (List.range (2 ^ g)).countP (fun j => decide (lowBits l j = c)) = 2 ^ (g - l) := by
  induction g, hlg using Nat.le_induction with
  | base =>
    have hcongr : (List.range (2 ^ l)).countP (fun j => decide (lowBits l j = c)) =
        (List.range (2 ^ l)).count c := by
      apply List.countP_congr
      intro j hj
      rw [List.mem_range] at hj
      rw [lowBits_eq_mod, Nat.mod_eq_of_lt hj]
      simp
    rw [hcongr, List.count_range, if_pos hc, Nat.sub_self, Nat.pow_zero]
  | succ g hlg ih =>
    have hshift : ((List.range (2 ^ g)).map (2 ^ g + ·)).countP (fun j => decide (lowBits l j = c)) =
        (List.range (2 ^ g)).countP fun j => decide (lowBits l j = c) := by
      rw [List.countP_map]
      apply List.countP_congr
      intro j _
      have hmod : (2 ^ g + j) % 2 ^ l = j % 2 ^ l := by
        obtain ⟨q, hq⟩ := Nat.pow_dvd_pow 2 hlg
        rw [hq, Nat.mul_add_mod]
      simp [lowBits_eq_mod, hmod]
    rw [Nat.pow_succ, Nat.mul_two, List.range_add, List.countP_append, hshift, ih,
      Nat.succ_sub hlg, Nat.pow_succ, Nat.mul_two]

section Enroll

variable {groups : List Group} {bucket : PageId} {depth low : Nat}

-- One more slot is counted for a bucket.
def Group.counting (bucket : PageId) (g : Group) : Group :=
  if g.bucket = bucket then { g with slots := g.slots + 1 } else g

@[simp] theorem Group.counting_bucket (g : Group) : (g.counting bucket).bucket = g.bucket := by
  unfold counting
  split <;> rfl

theorem Group.Fits.counting {g : Group} {i : Nat} (h : g.Fits d i) : (g.counting bucket).Fits d i := by
  unfold Group.counting
  split
  · exact ⟨h.bucket_eq, h.depth_eq, h.low_eq⟩
  · exact h

theorem enroll_of_forall_ne (h : ∀ g ∈ groups, g.bucket ≠ bucket) :
    enroll bucket depth low groups = .ok (groups ++ [⟨bucket, depth, low, 1⟩]) := by
  induction groups with
  | nil => rfl
  | cons g groups ih =>
    rw [enroll, if_neg (h g List.mem_cons_self), ih fun g' hg' => h g' (List.mem_cons_of_mem _ hg')]
    rfl

theorem map_counting_of_forall_ne (h : ∀ g ∈ groups, g.bucket ≠ bucket) :
    groups.map (Group.counting bucket) = groups := by
  rw [List.map_congr_left fun g hg => show g.counting bucket = id g from if_neg (h g hg), List.map_id]

-- A slot of a known bucket is counted in its group, unless it contradicts the group.
theorem enroll_of_mem (hnodup : (groups.map Group.bucket).Nodup) {g : Group} (hg : g ∈ groups) :
    enroll g.bucket depth low groups =
      (g.join depth low >>= fun _ => pure (groups.map (Group.counting g.bucket))) := by
  induction groups with
  | nil => simp at hg
  | cons head groups ih =>
    rw [List.map_cons, List.nodup_cons] at hnodup
    rcases List.mem_cons.mp hg with rfl | hg
    · have hrest : ∀ g' ∈ groups, g'.bucket ≠ g.bucket := fun g' hg' heq =>
        hnodup.1 (heq ▸ List.mem_map_of_mem hg')
      rw [enroll, if_pos rfl, List.map_cons, map_counting_of_forall_ne hrest, Group.counting,
        if_pos rfl]
      unfold Group.join
      split
      · rfl
      · split
        · rfl
        · rfl
    · have hne : head.bucket ≠ g.bucket := fun heq => hnodup.1 (heq ▸ List.mem_map_of_mem hg)
      rw [enroll, if_neg hne, ih hnodup.2 hg, List.map_cons, Group.counting, if_neg hne]
      unfold Group.join
      split
      · rfl
      · split
        · rfl
        · rfl

theorem Group.join_eq {g : Group} (hdepth : g.depth = depth) (hlow : g.low = low) :
    g.join depth low = .ok { g with slots := g.slots + 1 } := by
  rw [join, if_neg (not_not_intro hdepth), if_neg (not_not_intro hlow)]
  rfl

theorem Group.join_of_ne {g : Group} (h : ¬ (g.depth = depth ∧ g.low = low)) :
    ∃ cause, g.join depth low = contradiction cause := by
  unfold join
  by_cases hdepth : g.depth = depth
  · rw [if_neg (not_not_intro hdepth), if_pos fun hlow => h ⟨hdepth, hlow⟩]
    exact ⟨_, rfl⟩
  · rw [if_pos hdepth]
    exact ⟨_, rfl⟩

end Enroll

section Survey

variable {groups : List Group} {n : Nat}

theorem surveyed_nil (d : Directory) : d.Surveyed 0 [] where
  nodup := List.nodup_nil
  valid _ hi := absurd hi (Nat.not_lt_zero _)
  depthAt_le _ hi := absurd hi (Nat.not_lt_zero _)
  grouped _ hi := absurd hi (Nat.not_lt_zero _)
  founded _ hg := absurd hg List.not_mem_nil
  counted _ hg := absurd hg List.not_mem_nil

-- The slots before the last one, and the last one.
theorem countP_range_succ (p : Nat → Bool) (n : Nat) :
    (List.range (n + 1)).countP p = (List.range n).countP p + if p n then 1 else 0 := by
  rw [List.range_succ, List.countP_append, List.countP_singleton]

namespace Surveyed

variable (h : d.Surveyed n groups) (hvalid : d.bucketAt n ≠ PageId.invalid)
  (hle : d.depthAt n ≤ d.depth)
include h hvalid hle

-- The slot is the first one of its bucket.
theorem found (hnew : ∀ g ∈ groups, g.bucket ≠ d.bucketAt n) :
    d.Surveyed (n + 1) (groups ++ [⟨d.bucketAt n, d.depthAt n, lowBits (d.depthAt n) n, 1⟩]) := by
  have hfresh : ∀ i < n, d.bucketAt i ≠ d.bucketAt n := fun i hi heq => by
    obtain ⟨g, hg, hfits⟩ := h.grouped i hi
    exact hnew g hg (hfits.bucket_eq.trans heq)
  constructor
  case nodup =>
    rw [List.map_append, List.nodup_append]
    refine ⟨h.nodup, List.nodup_singleton _, ?_⟩
    intro b hb b' hb'
    obtain ⟨g, hg, rfl⟩ := List.mem_map.mp hb
    rw [List.mem_singleton.mp hb']
    exact hnew g hg
  case valid =>
    intro i hi
    rcases Nat.lt_succ_iff_lt_or_eq.mp hi with hi | rfl
    · exact h.valid i hi
    · exact hvalid
  case depthAt_le =>
    intro i hi
    rcases Nat.lt_succ_iff_lt_or_eq.mp hi with hi | rfl
    · exact h.depthAt_le i hi
    · exact hle
  case grouped =>
    intro i hi
    rcases Nat.lt_succ_iff_lt_or_eq.mp hi with hi | rfl
    · obtain ⟨g, hg, hfits⟩ := h.grouped i hi
      exact ⟨g, List.mem_append_left _ hg, hfits⟩
    · exact ⟨_, List.mem_append_right _ List.mem_cons_self, rfl, rfl, rfl⟩
  case founded =>
    intro g hg
    rcases List.mem_append.mp hg with hg | hg
    · obtain ⟨i, hi, hfits⟩ := h.founded g hg
      exact ⟨i, Nat.lt_succ_of_lt hi, hfits⟩
    · rw [List.mem_singleton.mp hg]
      exact ⟨n, Nat.lt_succ_self n, rfl, rfl, rfl⟩
  case counted =>
    intro g hg
    rw [countP_range_succ]
    rcases List.mem_append.mp hg with hg | hg
    · simp [h.counted g hg, Ne.symm (hnew g hg)]
    · rw [List.mem_singleton.mp hg]
      have hnone : (List.range n).countP (fun i => decide (d.bucketAt i = d.bucketAt n)) = 0 := by
        rw [List.countP_eq_zero]
        intro i hi
        simpa using hfresh i (List.mem_range.mp hi)
      simp [hnone]

-- The slot is one more of a known bucket.
theorem join {g : Group} (hg : g ∈ groups) (hfits : g.Fits d n) :
    d.Surveyed (n + 1) (groups.map (Group.counting g.bucket)) := by
  constructor
  case nodup =>
    rw [List.map_map]
    exact (List.map_congr_left fun x _ => Group.counting_bucket x) ▸ h.nodup
  case valid =>
    intro i hi
    rcases Nat.lt_succ_iff_lt_or_eq.mp hi with hi | rfl
    · exact h.valid i hi
    · exact hvalid
  case depthAt_le =>
    intro i hi
    rcases Nat.lt_succ_iff_lt_or_eq.mp hi with hi | rfl
    · exact h.depthAt_le i hi
    · exact hle
  case grouped =>
    intro i hi
    rcases Nat.lt_succ_iff_lt_or_eq.mp hi with hi | rfl
    · obtain ⟨x, hx, hfits⟩ := h.grouped i hi
      exact ⟨_, List.mem_map_of_mem hx, hfits.counting⟩
    · exact ⟨_, List.mem_map_of_mem hg, hfits.counting⟩
  case founded =>
    intro y hy
    obtain ⟨x, hx, rfl⟩ := List.mem_map.mp hy
    obtain ⟨i, hi, hfits⟩ := h.founded x hx
    exact ⟨i, Nat.lt_succ_of_lt hi, hfits.counting⟩
  case counted =>
    intro y hy
    obtain ⟨x, hx, rfl⟩ := List.mem_map.mp hy
    rw [countP_range_succ, Group.counting_bucket, ← h.counted x hx, Group.counting]
    by_cases hbucket : x.bucket = g.bucket
    · simp [hbucket, hfits.bucket_eq]
    · have hother : d.bucketAt n ≠ x.bucket := fun heq => hbucket (heq ▸ hfits.bucket_eq.symm)
      simp [hbucket, hother]

end Surveyed

theorem bucket_of_lt (hn : n < slotCount) : d.bucket n = .ok (d.bucketAt n) := by
  rw [bucket, Checked.require, if_pos hn]
  rfl

theorem localDepth_of_lt (hn : n < slotCount) : d.localDepth n = .ok (d.depthAt n) := by
  rw [localDepth, Checked.require, if_pos hn]
  rfl

theorem surveySlot_of_invalid (hn : n < slotCount) (hinvalid : d.bucketAt n = PageId.invalid) :
    d.surveySlot groups n = contradiction (.emptySlot n) := by
  rw [surveySlot, bucket_of_lt hn, localDepth_of_lt hn]
  change (if (d.bucketAt n).isValid = false then _ else _) = _
  rw [if_pos (by rw [hinvalid]; rfl)]

theorem surveySlot_of_lt (hn : n < slotCount) (hvalid : d.bucketAt n ≠ PageId.invalid)
    (hlt : d.depth < d.depthAt n) :
    d.surveySlot groups n = contradiction (.slotDepth n (d.depthAt n) d.depth) := by
  have hassigned : (d.bucketAt n).isValid = true := by simpa [PageId.isValid] using hvalid
  rw [surveySlot, bucket_of_lt hn, localDepth_of_lt hn]
  change (if (d.bucketAt n).isValid = false then _ else _) = _
  rw [if_neg (ne_false_of_eq_true hassigned), if_pos hlt]

theorem surveySlot_eq (hn : n < slotCount) (hdepth : d.depth ≤ maxDepth)
    (hvalid : d.bucketAt n ≠ PageId.invalid) (hle : d.depthAt n ≤ d.depth) :
    d.surveySlot groups n =
      enroll (d.bucketAt n) (d.depthAt n) (lowBits (d.depthAt n) n) groups := by
  have hword : d.depthAt n < 32 := by
    rw [maxDepth] at hdepth
    omega
  have hmask : d.localMask n = .ok ((1 <<< d.depthAt n) - 1) := by
    rw [localMask, localDepth_of_lt hn]
    change (Checked.require (d.depthAt n < 32) .overflow >>= fun _ => _) = _
    rw [Checked.require, if_pos hword]
    rfl
  have hassigned : (d.bucketAt n).isValid = true := by simpa [PageId.isValid] using hvalid
  rw [surveySlot, bucket_of_lt hn, localDepth_of_lt hn, hmask, lowBits_eq_mod,
    ← Nat.and_two_pow_sub_one_eq_mod, ← Nat.one_shiftLeft]
  change (if (d.bucketAt n).isValid = false then _ else _) = _
  rw [if_neg (ne_false_of_eq_true hassigned), if_neg (Nat.not_lt_of_le hle)]
  rfl

-- One slot passes, or it shows that the directory is not sound.
theorem Surveyed.step (h : d.Surveyed n groups) (hn : n < d.size) (hdepth : d.depth ≤ maxDepth) :
    (∃ groups', d.surveySlot groups n = .ok groups' ∧ d.Surveyed (n + 1) groups') ∨
      d.Refuted (d.surveySlot groups n) := by
  have hslot : n < slotCount := hn.trans_le (d.size_le_slotCount hdepth)
  by_cases hvalid : d.bucketAt n = PageId.invalid
  · exact Or.inr ⟨fun hpart => hpart.valid n hn hvalid, _, surveySlot_of_invalid hslot hvalid⟩
  by_cases hle : d.depthAt n ≤ d.depth
  swap
  · exact Or.inr ⟨fun hpart => hle (hpart.depthAt_le n hn), _,
      surveySlot_of_lt hslot hvalid (Nat.lt_of_not_le hle)⟩
  rw [surveySlot_eq hslot hdepth hvalid hle]
  by_cases hknown : ∃ g ∈ groups, g.bucket = d.bucketAt n
  swap
  · have hnew : ∀ g ∈ groups, g.bucket ≠ d.bucketAt n := fun g hg heq => hknown ⟨g, hg, heq⟩
    exact Or.inl ⟨_, enroll_of_forall_ne hnew, h.found hvalid hle hnew⟩
  obtain ⟨g, hg, hbucket⟩ := hknown
  rw [← hbucket, enroll_of_mem h.nodup hg]
  by_cases hfits : g.depth = d.depthAt n ∧ g.low = lowBits (d.depthAt n) n
  · rw [Group.join_eq hfits.1 hfits.2]
    exact Or.inl ⟨_, rfl, h.join hvalid hle hg ⟨hbucket, hfits.1, hfits.2⟩⟩
  · obtain ⟨cause, hcause⟩ := Group.join_of_ne hfits
    rw [hcause]
    refine Or.inr ⟨fun hpart => hfits ?_, cause, rfl⟩
    -- the slot that founded the group would agree with this one
    obtain ⟨i, hi, hfirst⟩ := h.founded g hg
    have hsame : d.bucketAt n = d.bucketAt i := hbucket.symm.trans hfirst.bucket_eq
    have hdepths := hpart.depthAt_eq (hi.trans hn) hn hsame.symm
    refine ⟨hfirst.depth_eq.trans hdepths, ?_⟩
    rw [hfirst.low_eq, ← hdepths]
    exact ((hpart.same_iff i n (hi.trans hn) hn).mp hsame).symm

theorem surveyFirst_outcome (hdepth : d.depth ≤ maxDepth) (hn : n ≤ d.size) :
    (∃ groups, (List.range n).foldlM d.surveySlot [] = .ok groups ∧ d.Surveyed n groups) ∨
      d.Refuted ((List.range n).foldlM d.surveySlot []) := by
  induction n with
  | zero => exact Or.inl ⟨[], rfl, d.surveyed_nil⟩
  | succ n ih =>
    rw [List.range_succ, List.foldlM_append]
    rcases ih (Nat.le_of_succ_le hn) with ⟨groups, heq, h⟩ | ⟨hpart, cause, heq⟩
    · rw [heq]
      change (∃ groups', (d.surveySlot groups n >>= pure) = _ ∧ _) ∨
        d.Refuted (d.surveySlot groups n >>= pure)
      rw [bind_pure]
      exact h.step hn hdepth
    · rw [heq]
      exact Or.inr ⟨hpart, cause, rfl⟩

theorem survey_outcome (d : Directory) :
    (∃ groups, d.survey = .ok groups ∧ d.Surveyed d.size groups ∧ d.depth ≤ maxDepth) ∨
      d.Refuted d.survey := by
  by_cases hdepth : d.depth ≤ maxDepth
  · have hsize : d.checkedSize = .ok d.size := by
      rw [checkedSize, Checked.require, if_pos (Nat.lt_of_le_of_lt hdepth (by decide))]
      rfl
    have heq : d.survey = (List.range d.size).foldlM d.surveySlot [] := by
      rw [survey, if_neg (Nat.not_lt_of_le hdepth), hsize]
      rfl
    rw [heq]
    rcases surveyFirst_outcome hdepth (le_refl d.size) with ⟨groups, hgroups, h⟩ | hrefuted
    · exact Or.inl ⟨groups, hgroups, h, hdepth⟩
    · exact Or.inr hrefuted
  · refine Or.inr ⟨fun hpart => hdepth hpart.depth_le, .globalDepth d.depth maxDepth, ?_⟩
    rw [survey, if_pos (Nat.lt_of_not_le hdepth)]

end Survey

section Count

variable {groups : List Group}

-- The group has as many slots as there are numbers with its low bits.
def Group.Complete (g : Group) (d : Directory) : Prop := g.slots = 2 ^ (d.depth - g.depth)

-- Of two conditions that hold equally often, the weaker one implies the stronger one.
theorem of_countP_eq {α : Type} {p q : α → Bool} {l : List α} (hpq : ∀ a ∈ l, p a = true → q a = true)
    (hcount : l.countP p = l.countP q) {a : α} (ha : a ∈ l) (hq : q a = true) : p a = true := by
  have hfilter : l.filter p = (l.filter q).filter p := by
    rw [List.filter_filter]
    apply List.filter_congr
    intro b hb
    cases hp : p b with
    | false => rfl
    | true => rw [hpq b hb hp, Bool.and_self]
  rw [List.countP_eq_length_filter, List.countP_eq_length_filter, hfilter,
    List.length_filter_eq_length_iff] at hcount
  exact hcount a (List.mem_filter.mpr ⟨ha, hq⟩)

-- Slots of one bucket have passed only if they agree.
theorem Surveyed.agree (h : d.Surveyed d.size groups) {i j : Nat} (hi : i < d.size) (hj : j < d.size)
    (hbucket : d.bucketAt i = d.bucketAt j) :
    d.depthAt i = d.depthAt j ∧ lowBits (d.depthAt i) i = lowBits (d.depthAt j) j := by
  obtain ⟨g, hg, hfits⟩ := h.grouped i hi
  obtain ⟨g', hg', hfits'⟩ := h.grouped j hj
  obtain rfl : g = g' := List.inj_on_of_nodup_map h.nodup hg hg'
    (hfits.bucket_eq.trans (hbucket.trans hfits'.bucket_eq.symm))
  exact ⟨hfits.depth_eq.symm.trans hfits'.depth_eq, hfits.low_eq.symm.trans hfits'.low_eq⟩

-- The number of live slots with the low bits of a given one.
theorem countP_lowBits_depthAt {i : Nat} (hle : d.depthAt i ≤ d.depth) :
    (List.range d.size).countP (fun j => decide (lowBits (d.depthAt i) j = lowBits (d.depthAt i) i)) =
      2 ^ (d.depth - d.depthAt i) := by
  rw [size_eq_two_pow]
  exact countP_lowBits hle (lowBits_lt _ _)

theorem Surveyed.partitioned_iff (h : d.Surveyed d.size groups) (hdepth : d.depth ≤ maxDepth) :
    d.Partitioned ↔ ∀ g ∈ groups, g.Complete d := by
  constructor
  · intro hpart g hg
    obtain ⟨i, hi, hfits⟩ := h.founded g hg
    rw [Group.Complete, h.counted g hg, hfits.bucket_eq, hfits.depth_eq,
      ← countP_lowBits_depthAt (h.depthAt_le i hi)]
    apply List.countP_congr
    intro j hj
    simp [hpart.same_iff i j hi (List.mem_range.mp hj)]
  · intro hcomplete
    refine ⟨hdepth, h.valid, h.depthAt_le, fun i j hi hj => ⟨fun hsame => ?_, fun hlow => ?_⟩⟩
    · obtain ⟨hdepths, hlow⟩ := h.agree hi hj hsame.symm
      rw [hlow, hdepths]
    · -- the slots of the bucket are among those with its low bits, and there are as many of either
      obtain ⟨g, hg, hfits⟩ := h.grouped i hi
      have hcount := hcomplete g hg
      rw [Group.Complete, h.counted g hg, hfits.bucket_eq, hfits.depth_eq,
        ← countP_lowBits_depthAt (h.depthAt_le i hi)] at hcount
      refine of_decide_eq_true (of_countP_eq (fun k hk hsame => ?_) hcount (List.mem_range.mpr hj)
        (decide_eq_true hlow))
      obtain ⟨hdepths, hlow⟩ := h.agree hi (List.mem_range.mp hk) (of_decide_eq_true hsame).symm
      rw [decide_eq_true_eq, hlow, hdepths]

theorem checkCount_eq {g : Group} (hle : g.depth ≤ d.depth) (hdepth : d.depth ≤ maxDepth) :
    d.checkCount g = if g.slots ≠ 2 ^ (d.depth - g.depth) then
      contradiction (.slotCount g.bucket g.depth g.slots (2 ^ (d.depth - g.depth))) else pure () := by
  have hword : d.depth - g.depth < 64 := by
    rw [maxDepth] at hdepth
    omega
  rw [checkCount, Checked.require, if_pos hle, ← Nat.one_shiftLeft]
  change (Checked.require (d.depth - g.depth < 64) .overflow >>= fun _ => _) = _
  rw [Checked.require, if_pos hword]
  rfl

theorem checkCount_outcome {g : Group} (hle : g.depth ≤ d.depth) (hdepth : d.depth ≤ maxDepth) :
    (d.checkCount g = .ok () ∧ g.Complete d) ∨
      (∃ cause, d.checkCount g = contradiction cause) ∧ ¬ g.Complete d := by
  rw [checkCount_eq hle hdepth]
  by_cases hcount : g.slots = 2 ^ (d.depth - g.depth)
  · rw [if_neg (not_not_intro hcount)]
    exact Or.inl ⟨rfl, hcount⟩
  · rw [if_pos hcount]
    exact Or.inr ⟨⟨_, rfl⟩, hcount⟩

theorem checkCounts_outcome (hdepth : d.depth ≤ maxDepth) (hle : ∀ g ∈ groups, g.depth ≤ d.depth) :
    (groups.forM d.checkCount = .ok () ∧ ∀ g ∈ groups, g.Complete d) ∨
      (∃ cause, groups.forM d.checkCount = contradiction cause) ∧ ¬ ∀ g ∈ groups, g.Complete d := by
  induction groups with
  | nil => exact Or.inl ⟨rfl, fun _ hg => absurd hg List.not_mem_nil⟩
  | cons g groups ih =>
    rw [List.forM]
    rcases checkCount_outcome (hle g List.mem_cons_self) hdepth with ⟨heq, hg⟩ | ⟨⟨cause, heq⟩, hg⟩
    · rw [heq]
      rcases ih fun g' hg' => hle g' (List.mem_cons_of_mem _ hg') with ⟨hok, hall⟩ | ⟨hcause, hall⟩
      · exact Or.inl ⟨hok, List.forall_mem_cons.mpr ⟨hg, hall⟩⟩
      · exact Or.inr ⟨hcause, fun hboth => hall (List.forall_mem_cons.mp hboth).2⟩
    · rw [heq]
      exact Or.inr ⟨⟨cause, rfl⟩, fun hboth => hg (hboth g List.mem_cons_self)⟩

end Count

-- Whatever order the groups are counted in, the check tells whether the directory is sound.
theorem verifyIn_outcome {order : List Group → List Group}
    (horder : ∀ groups, (order groups).Perm groups) (d : Directory) :
    (d.verifyIn order = .ok () ∧ d.Partitioned) ∨ d.Refuted (d.verifyIn order) := by
  rcases d.survey_outcome with ⟨groups, heq, h, hdepth⟩ | ⟨hpart, cause, heq⟩
  swap
  · rw [verifyIn, heq]
    exact Or.inr ⟨hpart, cause, rfl⟩
  have hverify : d.verifyIn order = (order groups).forM d.checkCount := by
    rw [verifyIn, heq]
    rfl
  have hmem (g : Group) : g ∈ order groups ↔ g ∈ groups := (horder groups).mem_iff
  have hle : ∀ g ∈ order groups, g.depth ≤ d.depth := fun g hg => by
    obtain ⟨i, hi, hfits⟩ := h.founded g ((hmem g).mp hg)
    exact hfits.depth_eq.trans_le (h.depthAt_le i hi)
  rw [hverify]
  rcases checkCounts_outcome hdepth hle with ⟨hok, hall⟩ | ⟨⟨cause, hcause⟩, hall⟩
  · exact Or.inl ⟨hok, (h.partitioned_iff hdepth).mpr fun g hg => hall g ((hmem g).mpr hg)⟩
  · exact Or.inr ⟨fun hpart => hall fun g hg => (h.partitioned_iff hdepth).mp hpart g ((hmem g).mp hg),
      cause, hcause⟩

theorem verify_outcome (d : Directory) : (d.verify = .ok () ∧ d.Partitioned) ∨ d.Refuted d.verify :=
  verifyIn_outcome (fun _ => List.Perm.refl _) d

theorem Partitioned.verify_eq (h : d.Partitioned) : d.verify = .ok () :=
  d.verify_outcome.elim And.left fun hrefuted => absurd h hrefuted.1

theorem verify_eq_ok_iff (d : Directory) : d.verify = .ok () ↔ d.Partitioned := by
  refine ⟨fun hok => ?_, Partitioned.verify_eq⟩
  rcases d.verify_outcome with ⟨_, hpart⟩ | ⟨_, cause, hcause⟩
  · exact hpart
  · rw [hcause] at hok
    nomatch hok

-- The check passes for the sound directories and for no others, in which it finds a contradiction. It
-- never aborts.
theorem verifyIn_decides {order : List Group → List Group}
    (horder : ∀ groups, (order groups).Perm groups) (d : Directory) :
    (d.verifyIn order = .ok () ↔ d.Partitioned) ∧
      (d.verifyIn order = .ok () → ∀ i j, i < d.size → j < d.size →
        d.bucketAt i = d.bucketAt j → d.depthAt i = d.depthAt j) ∧
      (¬ d.Partitioned → ∃ cause, d.verifyIn order = .error (.error (.corrupted cause))) := by
  rcases verifyIn_outcome horder d with ⟨hok, hpart⟩ | ⟨hpart, cause, hcause⟩
  · exact ⟨iff_of_true hok hpart, fun _ i j hi hj hbucket => hpart.depthAt_eq hi hj hbucket,
      fun hnot => absurd hpart hnot⟩
  · have hfails : d.verifyIn order ≠ .ok () := fun hok => by cases hcause.symm.trans hok
    exact ⟨iff_of_false hfails hpart, fun hok => absurd hok hfails, fun _ => ⟨cause, hcause⟩⟩

-- A directory of one bucket passes. Where it claims to have two slots it does not.
theorem verifyIn_decides_single :
    (∀ groups : List Group, groups.reverse.Perm groups) ∧
      (single ⟨5⟩).verifyIn List.reverse = .ok () ∧
      ∃ cause, { single ⟨5⟩ with globalDepth := 1 }.verifyIn List.reverse =
        .error (.error (.corrupted cause)) := by
  have hreverse (groups : List Group) : groups.reverse.Perm groups := groups.reverse_perm
  refine ⟨hreverse, ?_, ?_⟩
  · exact (verifyIn_decides hreverse (single ⟨5⟩)).1.mpr (partitioned_single (by decide))
  · refine (verifyIn_decides hreverse _).2.2 fun hpart => hpart.valid 1 (by decide) ?_
    exact congrArg Slot.bucket (slot_single ⟨5⟩ 1)

end PagedIndex.Directory
