import Mathlib.Data.List.Rotate
import PagedIndex.Proofs.Pool.Eviction

namespace PagedIndex

namespace Shard

variable {n : Nat} {D : Type} [PageStore D] [LawfulStore D] {m : Mounted (Shard n) D}

-- How a shard answers an allocation that has a frame to give: its next page is given out, or there
-- is no number after that of its next page, or the page that has to make room cannot be written back.
inductive AnswersAllocation (m : Mounted (Shard n) D) : Checked (Guard n) → Mounted (Shard n) D → Prop
  | given {g : Guard n} {m' : Mounted (Shard n) D} : m.pool.nextId + m.pool.count < pageIdLimit →
      g.page.number.toNat = m.pool.nextId → m'.pool.isResident g.page →
      AnswersAllocation m (.ok g) m'
  | exhausted {m' : Mounted (Shard n) D} : pageIdLimit ≤ m.pool.nextId + m.pool.count →
      AnswersAllocation m (.error (.abort .overflow)) m'
  | unwritten {m' : Mounted (Shard n) D} {cause : IoError} {f : Fin n} {victim : PageId}
      {rest : List (Fin n)} : Requeued m cause m' f victim rest →
      AnswersAllocation m (.error (.error (.io cause))) m'

variable [DeviceStore D] {c : ShardConfig} {guards : List (Guard n)} {next : Nat}

theorem Steady.answersAllocation (h : Steady c guards next m) (hroom : n ≤ c.queueCapacity)
    (hfull : ¬ m.pool.Full) : (Shard.allocate (D := D)).Ends m (AnswersAllocation m) := by
  have hnext : m.pool.nextId = next := h.counts.nextId_eq
  have hcount : m.pool.count = c.count := h.sound.count_eq
  refine (h.allocate.and (allocate_fails h.sound (h.sound.fits hroom) h.counts.store)).mono
    fun r m' hm => ?_
  obtain ⟨hm, hfails⟩ := hm
  cases r using Checked.outcomes with
  | ok g =>
    obtain ⟨⟨hlimit, hpage⟩, hsteady⟩ := hm
    rw [← hnext, ← hcount] at hlimit
    refine .given hlimit ?_ (isResident_of_table (hsteady.sound.guarded g List.mem_cons_self))
    rw [hpage, ← hnext]
    exact toNat_nextId hlimit
  | error e =>
    cases hfails e rfl with
    | full hnot => exact absurd hnot hfull
    | requeued hrequeued => exact .unwritten hrequeued
  | abort a =>
    obtain ⟨rfl, -, hlimit⟩ := hm
    exact .exhausted (by rwa [hnext, hcount])

end Shard

namespace ShardedPool

variable {n k : Nat} {D : Type} [PageStore D] [LawfulStore D] [DeviceStore D]
  {m : Mounted (ShardedPool n k) D} {guards : List (Guard n)} {next : Nat → Nat}

-- The shard answers the allocation, and the others stay as they are. It is the next one's turn after
-- a page was given out.
structure AnsweredBy (i : Fin k) (m : Mounted (ShardedPool n k) D) (r : Checked (Guard n))
    (m' : Mounted (ShardedPool n k) D) : Prop where
  answer : Shard.AnswersAllocation ⟨m.pool.shards.get i, m.store⟩ r ⟨m'.pool.shards.get i, m'.store⟩
  others (j : Fin k) : j ≠ i → m'.pool.shards.get j = m.pool.shards.get j
  turn : m'.pool.next = if r.isOk then (i + 1) % k else m.pool.next

omit [LawfulStore D] [DeviceStore D] in
theorem allocateIn_of_full {order : List (Fin k)} (h : ∀ i ∈ order, (m.pool.shards.get i).Full) :
    (allocateIn order).Ends m fun r m' => r = .error (.error .poolFull) ∧ m' = m := by
  induction order with
  | nil => exact ⟨rfl, rfl⟩
  | cons i rest ih =>
    obtain ⟨hi, hrest⟩ := List.forall_mem_cons.mp h
    rw [ends_allocateIn_cons, ends_onShard]
    refine (Shard.allocate_of_full hi).mono fun r t ht => ?_
    obtain ⟨rfl, rfl⟩ := ht
    dsimp only
    rw [if_pos rfl, set_get_self]
    exact ih hrest

-- The first shard that is not full answers.
theorem allocateIn_answeredBy (h : Steady guards next m) {full rest : List (Fin k)} {i : Fin k}
    (hfull : ∀ j ∈ full, (m.pool.shards.get j).Full) (hi : ¬ (m.pool.shards.get i).Full) :
    (allocateIn (full ++ i :: rest)).Ends m (AnsweredBy i m) := by
  induction full with
  | nil =>
    rw [List.nil_append, ends_allocateIn_cons, ends_onShard]
    refine ((h.shard i).answersAllocation (le_refl n) hi).mono fun r t hr => ?_
    have hself : (m.pool.shards.set i t.pool i.isLt).get i = t.pool := get_set_self _ i _
    have hothers (j : Fin k) (hj : j ≠ i) :
        (m.pool.shards.set i t.pool i.isLt).get j = m.pool.shards.get j :=
      get_set_of_ne _ (fun heq => hj (Fin.ext heq.symm)) _
    cases r using Checked.outcomes with
    | ok g => exact ⟨by rwa [hself], hothers, rfl⟩
    | error e =>
      have hne : e ≠ .poolFull := by
        rintro rfl
        cases hr
      dsimp only
      rw [if_neg hne]
      exact ⟨by rwa [hself], hothers, rfl⟩
    | abort a => exact ⟨by rwa [hself], hothers, rfl⟩
  | cons j full ih =>
    obtain ⟨hj, hfull⟩ := List.forall_mem_cons.mp hfull
    rw [List.cons_append, ends_allocateIn_cons, ends_onShard]
    refine (Shard.allocate_of_full hj).mono fun r t ht => ?_
    obtain ⟨rfl, rfl⟩ := ht
    dsimp only
    rw [if_pos rfl, set_get_self]
    exact ih hfull

-- A round that starts with some shard comes to every shard.
theorem range_rotated (k start : Nat) :
    ((List.range k).map fun i => (start + i) % k).Perm (List.range k) := by
  have hrotate : ((List.range k).map fun i => (start + i) % k) = (List.range k).rotate start := by
    refine List.ext_getElem (by simp) fun i hi _ => ?_
    simp [List.getElem_rotate, Nat.add_comm]
  rw [hrotate]
  exact List.rotate_perm _ _

-- The shards after some number of turns.
theorem turns_eq_append (p : ShardedPool n k) {offset : Nat} (hoffset : offset < k) :
    p.turns = p.turns.take offset ++ ⟨(p.next + offset) % k, Nat.mod_lt _ p.pos⟩ ::
      p.turns.drop (offset + 1) := by
  have hlength : offset < p.turns.length := by simpa [turns] using hoffset
  conv_lhs => rw [← List.take_append_drop offset p.turns, List.drop_eq_getElem_cons hlength]
  simp [turns]

theorem mem_take_turns {p : ShardedPool n k} {offset : Nat} (hoffset : offset < k) {j : Fin k} :
    j ∈ p.turns.take offset ↔ ∃ earlier < offset, (j : Nat) = (p.next + earlier) % k := by
  simp only [turns, ← List.map_take, List.take_range, List.mem_map, List.mem_range, Fin.ext_iff]
  rw [Nat.min_eq_left hoffset.le]
  simp only [eq_comm]

-- Every shard has its turn.
theorem mem_turns (p : ShardedPool n k) (i : Fin k) : i ∈ p.turns := by
  have hi := (range_rotated k p.next).mem_iff.mpr (List.mem_range.mpr i.isLt)
  obtain ⟨offset, hoffset, hi⟩ := List.mem_map.mp hi
  exact List.mem_map.mpr ⟨offset, hoffset, Fin.ext hi⟩

omit [PageStore D] [LawfulStore D] [DeviceStore D] in
theorem all_full_or_first (m : Mounted (ShardedPool n k) D) (order : List (Fin k)) :
    (∀ i ∈ order, (m.pool.shards.get i).Full) ∨ ∃ full i rest, order = full ++ i :: rest ∧
      (∀ j ∈ full, (m.pool.shards.get j).Full) ∧ ¬ (m.pool.shards.get i).Full := by
  induction order with
  | nil => exact Or.inl nofun
  | cons i rest ih =>
    by_cases hi : (m.pool.shards.get i).Full
    · rcases ih with hall | ⟨full, j, rest', rfl, hfull, hj⟩
      · exact Or.inl (List.forall_mem_cons.mpr ⟨hi, hall⟩)
      · exact Or.inr ⟨i :: full, j, rest', rfl, List.forall_mem_cons.mpr ⟨hi, hfull⟩, hj⟩
    · exact Or.inr ⟨[], i, rest, rfl, nofun, hi⟩

-- The shard that is asked first.
def firstAsked (p : ShardedPool n k) : Fin k := ⟨p.next % k, Nat.mod_lt _ p.pos⟩

theorem turns_eq_cons (p : ShardedPool n k) : p.turns = p.firstAsked :: p.turns.drop 1 :=
  turns_eq_append p p.pos

-- All shards refuse, or one answers. That is the one that is asked first, unless that is full.
theorem allocate_answered (h : Steady guards next m) :
    (ShardedPool.allocate (D := D)).Ends m fun r m' =>
      (∀ i, (m.pool.shards.get i).Full) ∧ r = .error (.error .poolFull) ∧ m' = m ∨
      ∃ i, ¬ (m.pool.shards.get i).Full ∧ AnsweredBy i m r m' ∧
        (¬ (m.pool.shards.get m.pool.firstAsked).Full → i = m.pool.firstAsked) := by
  rw [ShardedPool.allocate, Op.ends_bind, Mounted.ends_observe, Op.then_ok]
  rcases all_full_or_first m m.pool.turns with hall | ⟨full, i, rest, horder, hfull, hi⟩
  · refine (allocateIn_of_full hall).mono fun r m' hm => ?_
    exact Or.inl ⟨fun i => hall i (mem_turns _ i), hm⟩
  · have hfirst := horder.symm.trans m.pool.turns_eq_cons
    rw [horder]
    refine (allocateIn_answeredBy h hfull hi).mono fun r m' hm => Or.inr ⟨i, hi, hm, fun hnot => ?_⟩
    cases full with
    | nil => exact (List.cons.inj hfirst).1
    | cons j full =>
      obtain rfl := (List.cons.inj hfirst).1
      exact absurd (hfull _ List.mem_cons_self) hnot

-- Whether every frame of the shard that a page may be in is pinned.
def AllPinned (m : Mounted (ShardedPool n k) D) (i : Fin k) : Prop :=
  ∀ f, Shard.Numbered f → ((m.pool.shards.get i).frame f).pins ≠ 0

-- How a pool allocates in which it is the turn of this shard.
structure AllocatesInTurn (turn : Nat) (m : Mounted (ShardedPool n k) D) : Prop where
  full_iff : (ShardedPool.allocate m).result = .error (.error .poolFull) ↔ ∀ i, AllPinned m i
  answered {offset : Nat} (i : Fin k) : offset < k → (i : Nat) = (turn + offset) % k →
    (∀ earlier < offset, ∀ j : Fin k, (j : Nat) = (turn + earlier) % k → AllPinned m j) →
    ¬ AllPinned m i → (ShardedPool.allocate (D := D)).Ends m (AnsweredBy i m)

omit [DeviceStore D] in
theorem Steady.next_mod (h : Steady guards next m) (i : Fin k) : next i % k = i := by
  have hnext : (m.pool.shards.get i).nextId = next i := (h.shard i).counts.nextId_eq
  rw [← hnext]
  exact (h.shard i).sound.nextId_mod

omit [DeviceStore D] in
theorem Steady.full_iff (h : Steady guards next m) (i : Fin k) :
    (m.pool.shards.get i).Full ↔ AllPinned m i := (h.shard i).sound.full_iff (le_refl n)

theorem Steady.allocatesInTurn (h : Steady guards next m) : AllocatesInTurn m.pool.next m := by
  constructor
  case full_iff =>
    simp only [← h.full_iff]
    rcases allocate_answered h with ⟨hall, hresult, _⟩ | ⟨i, hi, hanswered, _⟩
    · exact ⟨fun _ => hall, fun _ => hresult⟩
    · refine ⟨fun hresult => ?_, fun hall => absurd (hall i) hi⟩
      have hanswer := hanswered.answer
      rw [hresult] at hanswer
      cases hanswer
  case answered =>
    intro offset i hoffset hi hearlier hnot
    rw [ShardedPool.allocate, Op.ends_bind, Mounted.ends_observe, Op.then_ok,
      turns_eq_append m.pool hoffset]
    have hshard : (⟨(m.pool.next + offset) % k, Nat.mod_lt _ m.pool.pos⟩ : Fin k) = i := Fin.ext hi.symm
    rw [hshard]
    refine allocateIn_answeredBy h (fun j hj => ?_) (mt (h.full_iff i).mp hnot)
    obtain ⟨earlier, hlt, hj⟩ := (mem_take_turns hoffset).mp hj
    exact (h.full_iff j).mpr (hearlier earlier hlt j hj)

end ShardedPool

end PagedIndex
