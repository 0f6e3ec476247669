import PagedIndex.Index.Insert
import PagedIndex.Proofs.Index.Representation

namespace PagedIndex.HashIndex

open PagePool

variable {K V : Type} {t : HashIndex K V} {d : Directory} {pairs : List (K × V)}

-- The directory has room for dividing slot `s` by the next bit.
structure Deepened (d : Directory) (s : Nat) (room : Directory) : Prop where
  partitioned : room.Partitioned
  vacant : d.Vacant → room.Vacant
  owner_eq (hash : UInt32) : room.owner hash = d.owner hash
  depthOf_eq (a : Nat) : room.depthOf a = d.depthOf a
  slot_lt : s < room.size
  bucket_eq : room.bucketAt s = d.bucketAt s
  depth_eq : room.depthAt s = d.depthAt s
  depth_lt : room.depthAt s < room.depth
  depth_max : room.depth = max d.depth (d.depthAt s + 1)
  tight : d.Tight → room.Tight ∨ room.depthAt s + 1 = room.depth

theorem deepened_doubled (h : d.Partitioned) {s : Nat} (hs : s < d.size)
    (hdeep : d.depthAt s = d.depth) (hd : d.depth < Directory.maxDepth) :
    Deepened d s d.doubled := by
  have hsize : s < d.doubled.size := by
    rw [Directory.size_doubled hd]
    omega
  have hslot : d.doubled.slot s = d.slot s := by
    rw [Directory.slot_doubled_eq hd hsize, Directory.lowBits_eq_mod, ← Directory.size_eq_two_pow,
      Nat.mod_eq_of_lt hs]
  have hdepth : d.doubled.depthAt s = d.depthAt s := congrArg (fun x => x.depth.toNat) hslot
  refine ⟨h.doubled hd, fun hvacant => hvacant.doubled hd, Directory.owner_doubled hd,
    Directory.depthOf_doubled hd, hsize, congrArg Slot.bucket hslot, hdepth, ?_, ?_,
    fun _ => Or.inr ?_⟩
  · rw [hdepth, Directory.depth_doubled hd]
    omega
  · rw [Directory.depth_doubled hd]
    omega
  · rw [hdepth, Directory.depth_doubled hd, hdeep]

namespace Deepened

variable {s : Nat} {room : Directory} {new : PageId}

theorem divisible (h : Deepened d s room) (hvalid : new ≠ PageId.invalid)
    (hunused : ∀ hash, d.owner hash ≠ new) : room.Divisible s new := by
  refine ⟨h.slot_lt, h.depth_lt, hvalid, fun i hi => ?_⟩
  obtain ⟨hash, rfl⟩ := h.partitioned.exists_hash hi
  have howner := h.owner_eq hash
  rw [Directory.owner] at howner
  rw [howner]
  exact hunused hash

theorem owner_divided (h : Deepened d s room) (hs : room.Divisible s new) (hash : UInt32) :
    (room.divided (d.bucketAt s) new (d.depthAt s)).owner hash =
      if d.owner hash = d.bucketAt s then
        if hash.toNat.testBit (d.depthAt s) then new else d.bucketAt s
      else d.owner hash := by
  have hdivided := h.partitioned.owner_divided hs hash
  rwa [h.bucket_eq, h.depth_eq, h.owner_eq] at hdivided

theorem outline_divided (h : Deepened d s room) (hs : room.Divisible s new) (hslot : s < d.size) :
    (room.divided (d.bucketAt s) new (d.depthAt s)).outline pairs = (d.outline pairs).split s := by
  refine congrArg (Outline.mk pairs) (funext fun a => ?_)
  have hdivided := h.partitioned.depthOf_divided hs a
  rw [h.bucket_eq, h.depth_eq, h.depthOf_eq] at hdivided
  rw [hdivided, ← Directory.depthOf_of_lt hslot]
  rfl

end Deepened

-- Pairs are told apart by the bit with which a bucket is divided.
theorem routed_divided (pairs : List (K × V)) {d' : Directory} {old new : PageId} {n : Nat}
    (howner : ∀ hash, d'.owner hash = if d.owner hash = old then
      if hash.toNat.testBit n then new else old else d.owner hash)
    (hnew : ∀ hash, d.owner hash ≠ new) (hne : old ≠ new) :
    t.routed d' new pairs = (t.routed d old pairs).filter (t.goesHigh n) ∧
      t.routed d' old pairs = (t.routed d old pairs).filter (fun pair => !t.goesHigh n pair) ∧
      ∀ id, id ≠ old → id ≠ new → t.routed d' id pairs = t.routed d id pairs := by
  simp only [routed, List.filter_filter]
  refine ⟨List.filter_congr fun pair _ => ?_, List.filter_congr fun pair _ => ?_,
    fun id hold hnew' => List.filter_congr fun pair _ => ?_⟩
  · by_cases heq : d.owner (t.hash pair.1) = old
    · cases hbit : (t.hash pair.1).toNat.testBit n <;> simp [goesHigh, howner, heq, hbit, hne]
    · simp [howner, heq, hnew]
  · by_cases heq : d.owner (t.hash pair.1) = old
    · cases hbit : (t.hash pair.1).toNat.testBit n <;>
        simp [goesHigh, howner, heq, hbit, Ne.symm hne]
    · simp [howner, heq]
  · by_cases heq : d.owner (t.hash pair.1) = old
    · cases hbit : (t.hash pair.1).toNat.testBit n <;>
        simp [howner, heq, hbit, Ne.symm hold, Ne.symm hnew']
    · simp [howner, heq]

-- Room is made in the directory alone.
theorem deepen_ends {σ : Type} (h : d.Partitioned) {s : Nat} (hs : s < d.size) (u : σ) :
    (t.deepen d (d.depthAt s) : Op σ Directory).Ends u <| Op.Answers
      (fun room u' => (Deepened d s room ∧ d.depthAt s ≠ Directory.maxDepth) ∧ u' = u)
      fun e u' => (d.depthAt s = Directory.maxDepth ∧ e = .indexFull Directory.maxDepth) ∧ u' = u := by
  have hlimit := h.depth_le
  unfold deepen
  by_cases hdeep : d.depthAt s = d.depth
  · rw [if_pos hdeep]
    by_cases hd : d.depth < Directory.maxDepth
    · rw [Directory.grow_of_lt hd]
      exact ⟨⟨deepened_doubled h hs hdeep hd, hdeep ▸ Nat.ne_of_lt hd⟩, rfl⟩
    · have hmax : d.depth = Directory.maxDepth := Nat.le_antisymm hlimit (Nat.le_of_not_lt hd)
      rw [Directory.grow_of_le hmax.ge]
      exact ⟨⟨hdeep.trans hmax, congrArg StoreError.indexFull hmax⟩, rfl⟩
  · rw [if_neg hdeep]
    have hlt := Nat.lt_of_le_of_ne (h.depthAt_le s hs) hdeep
    exact ⟨⟨⟨h, id, fun _ => rfl, fun _ => rfl, hs, rfl, rfl, hlt, (Nat.max_eq_left hlt).symm,
      Or.inl⟩, Nat.ne_of_lt (hlt.trans_le hlimit)⟩, rfl⟩

variable [FixedWidth K] [FixedWidth V] [DecidableEq V]

variable {w : Ledger} {σ γ : Type} [PagePool σ γ] {guards rest : List γ}

-- How the bucket at slot `s` is split: its page keeps one part of the pairs, and page `new` has the
-- other.
structure Divides (t : HashIndex K V) (σ : Type) {γ : Type} [PagePool σ γ] (guards : List γ)
    (d : Directory) (s : Nat) (b : Bucket K V) (w : Ledger) (new : PageId) (d' : Directory)
    (w' : Ledger) : Prop where
  depth_ne : d.depthAt s ≠ Directory.maxDepth
  room : ∃ room, Deepened d s room ∧ d' = room.divided (d.bucketAt s) new (d.depthAt s)
  fresh : w.sheets new = none
  valid : new ≠ PageId.invalid
  unguarded : ∀ g ∈ guards, pageOf σ g ≠ new
  unused (hash : UInt32) : d.owner hash ≠ new
  ledger_eq : w' = ((w.allot new).put (d.bucketAt s) (b.clear.insertAll t.policy.order
    (b.entries.filter fun pair => !t.goesHigh (d.depthAt s) pair)).page).put new
    (({ b with page := Page.zero } : Bucket K V).clear.insertAll t.policy.order
      (b.entries.filter (t.goesHigh (d.depthAt s)))).page

variable [LawfulPool σ γ]

-- A split of any bucket, as long as the page that the pool gives out is none of the buckets.
theorem split_ends {u : σ} (hu : ReadablePool.Kept u guards w) (hpart : d.Partitioned) {s : Nat}
    (hs : s < d.size) {b : Bucket K V} (hcapacity : b.capacity = t.capacity) {guard : γ}
    (hguard : guard ∈ guards) (hpage : pageOf σ guard = d.bucketAt s)
    (haccess : ReadablePool.access σ guard = .exclusive)
    (hunused : ∀ g, (allocate u).result = .ok g → w.sheets (pageOf σ g) = none →
      ∀ hash, d.owner hash ≠ pageOf σ g) :
    (t.split d s guard b : Op σ Directory).Ends u <| Op.AnswersOr ReadablePool.Spent
      (fun d' u' => ∃ w', ReadablePool.Kept u' guards w' ∧
        ∃ new, t.Divides σ guards d s b w new d' w')
      fun e u' => ∃ w', ReadablePool.Kept u' guards w' ∧ (GaveUp w e w' ∨
        d.depthAt s = Directory.maxDepth ∧ e = .indexFull Directory.maxDepth ∧ w' = w) := by
  rw [split, hpart.bucket_eq hs, hpart.localDepth_eq hs, Op.ends_bind, Op.ends_liftM, Op.then_ok,
    Op.ends_bind, Op.ends_liftM, Op.then_ok, Op.ends_bind]
  refine (deepen_ends hpart hs u).mono fun r u' hr => ?_
  cases r using Checked.outcomes with
  | abort a => exact hr.elim
  | error e =>
    obtain ⟨⟨hmax, herror⟩, rfl⟩ := hr
    exact ⟨w, hu, Or.inr ⟨hmax, herror, rfl⟩⟩
  | ok room =>
    obtain ⟨⟨hroom, hmax⟩, rfl⟩ := hr
    refine ends_withNewPage hu (fun fresh hgiven hfresh hnew hvalid hother => ?_)
      fun _ _ he => Or.inl he.gaveUp
    have hne : d.bucketAt s ≠ pageOf σ fresh := hpage ▸ hother guard hguard
    have hdepth : d.depthAt s < 32 := hroom.depth_eq ▸
      hroom.depth_lt.trans hroom.partitioned.depth_lt_word
    refine (does_liftM (hroom.partitioned.divide_eq _ _ hdepth) ⟨rfl, rfl⟩).step ?_
    rw [List.partition_eq_filter_filter]
    refine (does_writePage (List.mem_cons_of_mem fresh hguard) haccess ⟨rfl, rfl⟩).step ?_
    rw [hpage]
    refine (does_readBucket (b := { b with page := Page.zero }) hcapacity List.mem_cons_self ?_
      ⟨rfl, rfl⟩).step ?_
    · refine Ledger.memory_of_blank ?_
      rw [Ledger.sheets_put_of_ne _ _ _ (Ne.symm hne), Ledger.sheets_allot_self]
    refine (does_writePage List.mem_cons_self hfresh ⟨rfl, rfl⟩).step ?_
    refine (does_report ⟨rfl, rfl⟩).step ?_
    exact does_pure ⟨pageOf σ fresh, hmax, ⟨room, hroom, rfl⟩, hnew, hvalid, hother,
      hunused fresh hgiven hnew, rfl⟩

-- A split that is given up leaves the pages alone. It needs a page, and a bit that it can look at.
def SplitFails (o : Outline K V) (a : Nat) (w : Ledger) (e : StoreError) (w' : Ledger) : Prop :=
  GaveUp w e w' ∨
    o.depth a = Directory.maxDepth ∧ e = .indexFull Directory.maxDepth ∧ w' = w

variable [RoundTrip K] [RoundTrip V] {S : Sheets}

-- One page of a bucket that was split has one part of its pairs.
theorem IsBucket.refill {b b' : Bucket K V} {m : Nat} {part : List (K × V)} {id id' : PageId}
    {S' : Sheets} (hb : t.IsBucket S id pairs b m) (hpart : part.Sublist pairs)
    (hcapacity : b'.capacity = t.capacity)
    (hpage : S' id' = some (.written (b'.clear.insertAll t.policy.order part).page)) :
    t.Stores S' id' part := by
  have hroom : part.length ≤ b'.capacity := by
    rw [hcapacity, ← hb.capacity_eq]
    refine (hb.entries_eq ▸ hpart.length_le).trans ?_
    exact hb.packed.length_entries_le.trans hb.packed.le_capacity
  have hdistinct := hb.distinct.sublist hpart
  obtain ⟨hsame, hpacked, hentries⟩ := Bucket.Packed.refill b' hroom hdistinct
  exact ⟨_, _, hsame.trans hcapacity, hpage, hpacked, hentries, fun hnil => hnil ▸ rfl, hdistinct⟩

-- A bucket that was split is two pages, and no other page has changed.
theorem routes_split (fresh : Bucket K V) {room : Directory} {s : Nat} {new : PageId} {S' : Sheets}
    {b : Bucket K V} {m : Nat} (h : t.Represents S d pairs) (hroom : Deepened d s room)
    (hb : t.IsBucket S (d.bucketAt s) (t.routed d (d.bucketAt s) pairs) b m)
    (hnew : S new = none) (hvalid : new ≠ PageId.invalid) (hfresh : fresh.capacity = t.capacity)
    (hlow : S' (d.bucketAt s) = some (.written (b.clear.insertAll t.policy.order
      (b.entries.filter fun pair => !t.goesHigh (d.depthAt s) pair)).page))
    (hhigh : S' new = some (.written (fresh.clear.insertAll t.policy.order
      (b.entries.filter (t.goesHigh (d.depthAt s)))).page))
    (hothers : ∀ id, id ≠ d.bucketAt s → id ≠ new → S' id = S id) :
    t.Routes S' (room.divided (d.bucketAt s) new (d.depthAt s)) pairs := by
  have hunused := h.routes.unused hnew
  have hdivisible := hroom.divisible hvalid hunused
  have howner := hroom.owner_divided hdivisible
  have hne : d.bucketAt s ≠ new := by
    rw [← hroom.bucket_eq]
    exact hdivisible.unused s hroom.slot_lt
  have hpartitioned := hroom.partitioned.divided hdivisible
  have htight := hroom.partitioned.tight_divided hdivisible (hroom.tight h.routes.tight)
  rw [hroom.bucket_eq, hroom.depth_eq] at hpartitioned htight
  obtain ⟨hrhigh, hrlow, hrothers⟩ := routed_divided (t := t) pairs howner hunused hne
  rw [hb.entries_eq, ← hrlow] at hlow
  rw [hb.entries_eq, ← hrhigh] at hhigh
  refine ⟨hpartitioned, htight, (hroom.vacant h.routes.vacant).divided _ _ _, fun hash => ?_,
    fun hash => ?_⟩
  · rw [howner]
    by_cases hold : d.owner hash = d.bucketAt s
    · rw [if_pos hold]
      split
      · exact h.directory_ne hnew
      · rw [← hold]
        exact h.routes.apart hash
    · rw [if_neg hold]
      exact h.routes.apart hash
  · rw [howner]
    by_cases hold : d.owner hash = d.bucketAt s
    · rw [if_pos hold]
      split
      · exact hb.refill (hrhigh ▸ List.filter_sublist) hfresh hhigh
      · exact hb.refill (hrlow ▸ List.filter_sublist) hb.capacity_eq hlow
    · rw [if_neg hold, hrothers _ hold (hunused hash)]
      exact (h.routes.stores hash).congr (hothers _ hold (hunused hash))

theorem split_does (h : t.Represents w.sheets d pairs) (hclear : t.Clear σ d rest)
    (hrest : rest ⊆ guards) {s m : Nat} (hs : s < d.size) {b : Bucket K V} {guard : γ}
    (hb : t.IsBucket w.sheets (d.bucketAt s) (t.routed d (d.bucketAt s) pairs) b m)
    (hguard : guard ∈ guards) (hpage : pageOf σ guard = d.bucketAt s)
    (haccess : ReadablePool.access σ guard = .exclusive) :
    Does guards w (t.split d s guard b : Op σ Directory)
      (fun d' w' => (t.Routes w'.sheets d' pairs ∧ w'.sheets t.directory = w.sheets t.directory ∧
          w'.refusals = w.refusals) ∧ t.Clear σ d' rest ∧
        (d.outline pairs).depth s ≠ Directory.maxDepth ∧
        d'.outline pairs = (d.outline pairs).split s)
      (SplitFails (d.outline pairs) s w) := by
  have hpart := h.routes.partitioned
  refine fun u hu => (split_ends hu hpart hs hb.capacity_eq hguard hpage haccess
    fun _ _ hnew => h.routes.unused hnew).mono fun r u' hr => hr.imp id (fun d' hd' => ?_)
    fun e he => ?_
  · obtain ⟨w', hkept, new, hdivides⟩ := hd'
    obtain ⟨room, hroom, rfl⟩ := hdivides.room
    obtain rfl := hdivides.ledger_eq
    have hne : d.bucketAt s ≠ new := hpage ▸ hdivides.unguarded guard hguard
    have hothers (id : PageId) (hold : id ≠ d.bucketAt s) (hnew : id ≠ new) (p q : Page) :
        (((w.allot new).put (d.bucketAt s) p).put new q).sheets id = w.sheets id := by
      rw [Ledger.sheets_put_of_ne _ _ _ hnew, Ledger.sheets_put_of_ne _ _ _ hold,
        Ledger.sheets_allot_of_ne _ _ hnew]
    have hdivisible := hroom.divisible hdivides.valid hdivides.unused
    have hroutes := routes_split { b with page := Page.zero } h hroom hb hdivides.fresh
      hdivides.valid hb.capacity_eq
      (by rw [Ledger.sheets_put_of_ne _ _ _ hne, Ledger.sheets_put_self])
      (Ledger.sheets_put_self _ _ _) fun id hold hnew => hothers id hold hnew _ _
    refine ⟨_, hkept, ⟨hroutes, hothers _ ?_ ?_ _ _, rfl⟩, fun g hg => ⟨(hclear g hg).1,
      fun hash => ?_⟩, fun heq => hdivides.depth_ne ((Directory.depthOf_of_lt hs).symm.trans heq),
      hroom.outline_divided hdivisible hs⟩
    · obtain ⟨hash, rfl⟩ := hpart.exists_hash hs
      exact Ne.symm (h.routes.apart hash)
    · exact Ne.symm (h.directory_ne hdivides.fresh)
    · rw [hroom.owner_divided hdivisible]
      split
      · split
        · exact hdivides.unguarded g (hrest hg)
        · rename_i hold _
          rw [← hold]
          exact (hclear g hg).2 hash
      · exact (hclear g hg).2 hash
  · obtain ⟨w', hkept, hgave | ⟨hmax, herror, hw'⟩⟩ := he
    · exact ⟨w', hkept, Or.inl hgave⟩
    · exact ⟨w', hkept, Or.inr ⟨(Directory.depthOf_of_lt hs).trans hmax, herror, hw'⟩⟩

-- The pair is appended to its bucket, and to the list.
theorem appendTo_does (h : t.Represents w.sheets d pairs) {key : K} {value : V} {b : Bucket K V}
    {m : Nat} (hcapacity : b.capacity = t.capacity) (hpacked : b.Packed m) (hm : m < b.capacity)
    (hentries : b.entries = t.routed d (d.owner (t.hash key)) pairs)
    (hdistinct : Distinct t.policy.order b.entries)
    (hfresh : b.entries.any (matchesPair t.policy.order key value) = false)
    {guard : γ} (hguard : guard ∈ guards) (hpage : pageOf σ guard = d.owner (t.hash key))
    (haccess : ReadablePool.access σ guard = .exclusive) {E : StoreError → Ledger → Prop} :
    Does guards w (appendTo guard b key value : Op σ Unit)
      (fun _ w' => t.Represents w'.sheets d (pairs ++ [(key, value)]) ∧
        w'.refusals = w.refusals) E := by
  obtain ⟨hput, happended⟩ := hpacked.put hm key value
  refine does_writePage hguard haccess ⟨?_, rfl⟩
  rw [hpage, hpacked.append? hm, Option.getD_some]
  refine h.put key (m := m + 1) (by rw [Bucket.capacity_put, hcapacity]) hput ?_ ?_ ?_
    fun id hid => routed_concat_of_ne hid
  · rw [happended]
    intro hnil
    simp at hnil
  · rw [happended]
    exact hdistinct.concat hfresh
  · rw [happended, hentries, routed_concat_self]

-- How a round of an insertion ends: the pair is stored, or its bucket is split.
def RoundEnds (t : HashIndex K V) (σ : Type) {γ : Type} [PagePool σ γ] (guards : List γ)
    (o : Outline K V) (key : K) (value : V) (w : Ledger) (stored : Bool) (w' : Ledger) : Prop :=
  ∃ o', o.insertOrSplit t.policy t.capacity key value = .ok (stored, o') ∧
    t.Depicts σ guards o' w' ∧ w'.refusals = w.refusals

def RoundFails (t : HashIndex K V) (o : Outline K V) (key : K) (value : V) (w : Ledger)
    (e : StoreError) (w' : Ledger) : Prop :=
  GaveUp w e w' ∨ o.insertOrSplit t.policy t.capacity key value = .error e ∧ w' = w

-- A round that finds the bucket of the key full of pairs.
theorem splitRound_does (h : t.Represents w.sheets d pairs) (hclear : t.Clear σ d rest) {key : K}
    {value : V} {b : Bucket K V} {m : Nat} {guard directory : γ}
    (hb : t.IsBucket w.sheets (d.owner (t.hash key)) (t.routed d (d.owner (t.hash key)) pairs) b m)
    (hpage : pageOf σ guard = d.owner (t.hash key))
    (haccess : ReadablePool.access σ guard = .exclusive) (hdpage : pageOf σ directory = t.directory)
    (hdaccess : ReadablePool.access σ directory = .exclusive)
    (hfresh : pairs.any ((d.outline pairs).finds t.policy key value) = false)
    (hlive : t.capacity ≤ ((d.outline pairs).bucket t.policy (t.policy.address key)).length) :
    Does (guard :: directory :: rest) w
      (do
        writeDirectory (← t.split d (← d.slotOf (t.hash key)) guard b) directory
        return false : Op σ Bool)
      (t.RoundEnds σ rest (d.outline pairs) key value w)
      (t.RoundFails (d.outline pairs) key value w) := by
  obtain ⟨p, hp, _⟩ := h.directory
  have hpart := h.routes.partitioned
  have hsplit := Outline.insertOrSplit_of_le hfresh hlive
  have hsound : (d.outline pairs).Sound := hpart.outline_sound
  -- the slot of the key has the bucket of the key
  have hroute : (d.outline pairs).together (t.policy.address key) (d.route (t.hash key)) :=
    hpart.together_route (t.hash key)
  have hdepth := hsound.depth_eq _ _ hroute
  refine (does_liftM (hpart.slotOf_eq (t.hash key)) ⟨rfl, rfl⟩).step ?_
  refine Does.bind ((split_does h hclear
    (fun g hg => List.mem_cons_of_mem _ (List.mem_cons_of_mem _ hg)) (d.route_lt_size (t.hash key))
    hb List.mem_cons_self hpage haccess).mono (fun _ _ hP => hP) fun e w' he => ?_)
    fun d' w' hd' => ?_
  · refine he.imp id fun ⟨hmax, herror, hw'⟩ => ⟨?_, hw'⟩
    rw [hsplit, if_pos (hdepth.symm.trans hmax), herror]
  · obtain ⟨⟨hroutes, hsame, hrefusals⟩, hclear', hmax, houtline⟩ := hd'
    refine (writeDirectory_does hroutes (Ledger.memory_of_written (hsame.trans hp))
      (List.mem_cons_of_mem _ List.mem_cons_self) hdpage hdaccess).bind fun _ w'' hw'' => ?_
    refine does_pure ⟨_, ?_, hw''.1.depicts hclear', hw''.2.trans hrefusals⟩
    rw [hsplit, if_neg fun heq => hmax (hdepth.trans heq), houtline, hsound.split_eq hroute]

-- One round of an insertion does to the index what it does to the outline.
theorem insertOrSplit_does {o : Outline K V} (h : t.Depicts σ guards o w) (key : K) (value : V) :
    Does guards w (t.insertOrSplit key value : Op σ Bool) (t.RoundEnds σ guards o key value w)
      (t.RoundFails o key value w) := by
  obtain ⟨d, pairs, rfl, h, hclear⟩ := h
  obtain ⟨p, hp, rfl⟩ := h.directory
  obtain ⟨b, m, hb⟩ := h.routes.stores (t.hash key)
  have hpart := h.routes.partitioned
  have hdirectory := Ledger.memory_of_written hp
  have hbucket := Ledger.memory_of_written hb.page_eq
  unfold insertOrSplit
  refine Does.withPage hdirectory (fun g hg => (hclear g hg).1)
    (fun directory hdpage hdaccess => ?_) fun _ _ he => Or.inl he.gaveUp
  refine (does_readPage List.mem_cons_self (hdpage ▸ hdirectory) ⟨rfl, rfl⟩).step ?_
  refine (does_liftM (hpart.bucketFor_eq (t.hash key)) ⟨rfl, rfl⟩).step ?_
  refine Does.withPage hbucket (fun g hg => hclear.buckets h.routes hdpage g hg _)
    (fun guard hpage haccess => ?_) fun _ _ he => Or.inl he.gaveUp
  refine (does_readBucket hb.capacity_eq List.mem_cons_self (hpage ▸ hbucket) ⟨rfl, rfl⟩).step ?_
  set o := (Directory.ofPage p).outline pairs
  have hany : b.entries.any (matchesPair t.policy.order key value) =
      pairs.any (o.finds t.policy key value) := by
    rw [hb.entries_eq, any_routed hpart]
  have hcount : (o.bucket t.policy (t.policy.address key)).length = b.count := by
    rw [b.count_eq_length, hb.entries_eq, routed_owner hpart]
    rfl
  rw [b.contains_eq_any, hany]
  by_cases hmatch : pairs.any (o.finds t.policy key value) = true
  · rw [if_pos hmatch]
    exact does_fail (Or.inr ⟨Outline.insertOrSplit_of_any hmatch, rfl⟩)
  rw [if_neg hmatch]
  have hfresh := Bool.eq_false_iff.mpr hmatch
  have hdistinct : Distinct t.policy.order b.entries := hb.entries_eq ▸ hb.distinct
  have happend {x : Op σ Unit} (hroom : b.count < t.capacity)
      (hx : Does (guard :: directory :: guards) w x (fun _ w' =>
        t.Represents w'.sheets (Directory.ofPage p) (pairs ++ [(key, value)]) ∧
          w'.refusals = w.refusals) fun _ _ => False) :
      Does (guard :: directory :: guards) w (x >>= fun _ => return true)
        (t.RoundEnds σ guards o key value w) (t.RoundFails o key value w) :=
    (hx.mono (fun _ _ hP => hP) fun _ _ hfalse => hfalse.elim).bind fun _ w' hw' =>
      does_pure ⟨_, Outline.insertOrSplit_of_lt hfresh (hcount.trans_lt hroom),
        hw'.1.depicts hclear, hw'.2⟩
  by_cases hfull : b.isFull = true
  · rw [if_pos hfull]
    by_cases hlive : t.capacity ≤ b.count
    · rw [if_pos hlive]
      exact splitRound_does h hclear hb hpage haccess hdpage hdaccess hfresh
        (hlive.trans_eq hcount.symm)
    · rw [if_neg hlive]
      have hroom := Nat.lt_of_not_le hlive
      obtain ⟨hcapacity, hpacked, hentries⟩ := hb.packed.compact hdistinct
      refine happend hroom (appendTo_does h (hcapacity.trans hb.capacity_eq) hpacked ?_
        (hentries.trans hb.entries_eq) (hentries.symm ▸ hdistinct) (by rw [hentries, hany, hfresh])
        List.mem_cons_self hpage haccess)
      rwa [hcapacity, hb.capacity_eq, ← b.count_eq_length]
  · rw [if_neg hfull]
    have hm : m < b.capacity := Nat.lt_of_le_of_ne hb.packed.le_capacity fun heq =>
      hfull (hb.packed.isFull_iff.mpr heq)
    refine happend ?_ (appendTo_does h hb.capacity_eq hb.packed hm hb.entries_eq hdistinct
      (hany.trans hfresh) List.mem_cons_self hpage haccess)
    rw [b.count_eq_length, ← hb.capacity_eq]
    exact hb.packed.length_entries_le.trans_lt hm

-- How an insertion ends at which a page was refused.
def InsertRefused (t : HashIndex K V) (σ : Type) {γ : Type} [PagePool σ γ] (guards : List γ)
    (o : Outline K V) (key : K) (value : V) (w : Ledger) (e : StoreError) (w' : Ledger) : Prop :=
  ¬ e.OfIndex ∧ w.refusals < w'.refusals ∧
    ∃ o', o.Splits t.policy t.capacity key value o' ∧ t.Depicts σ guards o' w'

-- Every split makes the bucket of the key one bit deeper, and no bucket is deeper than a directory
-- may be. So an insertion that may go on long enough comes to an end.
theorem insertWithin_does {o : Outline K V} (key : K) (value : V) (n : Nat)
    (h : t.Depicts σ guards o w)
    (hn : Directory.maxDepth < n + o.depth (t.policy.address key)) :
    Does guards w (t.insertWithin key value n : Op σ Unit)
      (fun _ w' => ∃ o', Outline.insertWithin t.policy t.capacity key value n o = (.ok (), o') ∧
        t.Depicts σ guards o' w' ∧ w'.refusals = w.refusals)
      (fun e w' => (∃ o', Outline.insertWithin t.policy t.capacity key value n o = (.error e, o') ∧
          t.Depicts σ guards o' w' ∧ w'.refusals = w.refusals) ∨
        t.InsertRefused σ guards o key value w e w') := by
  induction n generalizing w o with
  | zero =>
    have hdepth := h.sound.depth_le (t.policy.address key)
    omega
  | succ n ih =>
    unfold insertWithin
    refine Does.bind ((insertOrSplit_does h key value).mono (fun _ _ hP => hP)
      fun e w' he => ?_) fun stored w' hstored => ?_
    · rcases he with ⟨herror, rfl⟩ | ⟨herror, rfl⟩
      · exact Or.inr ⟨herror, Nat.lt_succ_self _, o, .refl o, h.refuse⟩
      · exact Or.inl ⟨o, by rw [Outline.insertWithin, herror], h, rfl⟩
    · obtain ⟨o', hround, hdepicts, hrefusals⟩ := hstored
      cases stored with
      | true => exact does_pure ⟨o', by rw [Outline.insertWithin, hround], hdepicts, hrefusals⟩
      | false =>
        have hdepth : o'.depth (t.policy.address key) = o.depth (t.policy.address key) + 1 := by
          obtain ⟨_, _, _, rfl⟩ := Outline.insertOrSplit_split hround
          exact if_pos rfl
        rw [Outline.insertWithin, hround]
        refine (ih hdepicts (by omega)).mono (fun _ w'' hw'' => ?_) fun e w'' he => ?_
        · rwa [hrefusals] at hw''
        · rw [hrefusals] at he
          refine he.imp_right fun ⟨herror, hless, o'', hsplits, hdepicts''⟩ => ?_
          exact ⟨herror, hrefusals ▸ hless, o'', .step hround hsplits, hdepicts''⟩

theorem tryInsert_does {o : Outline K V} (h : t.Depicts σ guards o w) (key : K) (value : V) :
    Does guards w (t.tryInsert key value : Op σ Unit)
      (fun _ w' => ∃ o', Outline.insertWithin t.policy t.capacity key value 33 o = (.ok (), o') ∧
        t.Depicts σ guards o' w' ∧ w'.refusals = w.refusals)
      (fun e w' => (∃ o', Outline.insertWithin t.policy t.capacity key value 33 o = (.error e, o') ∧
          t.Depicts σ guards o' w' ∧ w'.refusals = w.refusals) ∨
        t.InsertRefused σ guards o key value w e w') :=
  insertWithin_does key value 33 h (by rw [Directory.maxDepth]; omega)

-- The answer says whether the pair was new.
theorem insert_does {o : Outline K V} (h : t.Depicts σ guards o w) (key : K) (value : V) :
    Does guards w (t.insert key value : Op σ Bool)
      (fun new w' => ∃ o', Outline.insert t.policy t.capacity key value o = (.ok new, o') ∧
        t.Depicts σ guards o' w' ∧ w'.refusals = w.refusals)
      (fun e w' => (∃ o', Outline.insert t.policy t.capacity key value o = (.error e, o') ∧
          t.Depicts σ guards o' w' ∧ w'.refusals = w.refusals) ∨
        t.InsertRefused σ guards o key value w e w') := by
  unfold insert
  refine (tryInsert_does h key value).attempt_bind (fun _ w' hinserted => ?_) fun e w' he => ?_
  · obtain ⟨o', hinserted, hdepicts, hrefusals⟩ := hinserted
    exact does_pure ⟨o', by rw [Outline.insert, hinserted], hdepicts, hrefusals⟩
  · rcases he with ⟨o', hfails, hdepicts, hrefusals⟩ | hrefused
    · cases e with
      | duplicateEntry => exact does_pure ⟨o', by rw [Outline.insert, hfails], hdepicts, hrefusals⟩
      | _ => exact does_fail (Or.inl ⟨o', by rw [Outline.insert, hfails], hdepicts, hrefusals⟩)
    · cases e with
      | duplicateEntry => exact absurd trivial hrefused.1
      | _ => exact does_fail (Or.inr hrefused)

end PagedIndex.HashIndex
