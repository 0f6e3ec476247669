import PagedIndex.Proofs.Index.Supply

namespace PagedIndex

open Directory

namespace Outline

variable {K V : Type} {policy : KeyPolicy K} {o o' : Outline K V} {a : Nat}

-- A pair is below the node of the low `e` bits of `a`.
def Inhabited (policy : KeyPolicy K) (o : Outline K V) (a e : Nat) : Prop :=
  ∃ pair ∈ o.pairs, lowBits e (policy.address pair.1) = lowBits e a

-- Every inner node has a pair.
def Alive (policy : KeyPolicy K) (o : Outline K V) : Prop :=
  ∀ a e, e < o.depth a → o.Inhabited policy a e

-- The nodes above the bucket of `a` may have none.
def AliveBut (policy : KeyPolicy K) (a : Nat) (o : Outline K V) : Prop :=
  ∀ b e, e < o.depth b → o.Inhabited policy b e ∨ e < o.depth a ∧ lowBits e b = lowBits e a

theorem Inhabited.of_low {b e e' : Nat} (h : o.Inhabited policy a e) (hle : e' ≤ e)
    (hlow : lowBits e' a = lowBits e' b) : o.Inhabited policy b e' := by
  obtain ⟨pair, hpair, haddress⟩ := h
  exact ⟨pair, hpair, (lowBits_eq_of_le hle haddress).trans hlow⟩

theorem inhabited_of_bucket (h : o.bucket policy a ≠ []) : o.Inhabited policy a (o.depth a) := by
  obtain ⟨pair, hpair⟩ := List.exists_mem_of_ne_nil _ h
  obtain ⟨hmem, htogether⟩ := List.mem_filter.mp hpair
  exact ⟨pair, hmem, of_decide_eq_true htogether⟩

theorem alive_empty : (empty : Outline K V).Alive policy := fun _ _ h => absurd h (Nat.not_lt_zero _)

theorem Alive.append (h : o.Alive policy) (key : K) (value : V) :
    (o.append key value).Alive policy := by
  intro b e he
  obtain ⟨pair, hpair, haddress⟩ := h b e he
  exact ⟨pair, List.mem_append_left _ hpair, haddress⟩

-- A bucket that is split has a pair.
theorem Alive.split (h : o.Alive policy) (hpairs : o.bucket policy a ≠ []) :
    (o.split a).Alive policy := by
  intro b e he
  change e < if o.together a b then o.depth a + 1 else o.depth b at he
  split at he
  · rename_i htogether
    exact (inhabited_of_bucket hpairs).of_low (Nat.le_of_lt_succ he)
      (lowBits_eq_of_le (Nat.le_of_lt_succ he) htogether).symm
  · exact h b e he

namespace AliveBut

theorem alive (h : o.AliveBut policy a)
    (ha : ∀ e < o.depth a, o.Inhabited policy a e) : o.Alive policy := by
  intro b e he
  rcases h b e he with hpair | ⟨he, hlow⟩
  · exact hpair
  · exact (ha e he).of_low (le_refl e) hlow.symm

theorem alive_of_bucket (h : o.AliveBut policy a) (hpairs : o.bucket policy a ≠ []) :
    o.Alive policy :=
  h.alive fun _ he => (inhabited_of_bucket hpairs).of_low he.le rfl

-- Where buddies are merged, the nodes above the merged bucket are left to look after.
theorem join (h : o.AliveBut policy a) {n : Nat} (hdepth : o.depth a = n + 1) :
    (o.join a n).AliveBut policy (lowBits n a) := by
  have hdepth' : (o.join a n).depth (lowBits n a) = n := if_pos (lowBits_lowBits (le_refl n) a)
  intro b e he
  rw [hdepth']
  change e < if lowBits n b = lowBits n a then n else o.depth b at he
  by_cases hb : lowBits n b = lowBits n a
  · rw [if_pos hb] at he
    refine Or.inr ⟨he, ?_⟩
    rw [lowBits_lowBits he.le]
    exact lowBits_eq_of_le he.le hb
  · rw [if_neg hb] at he
    refine (h b e he).imp_right fun ⟨hle, hlow⟩ => ?_
    rw [hdepth] at hle
    have hlt : e < n := Nat.lt_of_le_of_ne (Nat.le_of_lt_succ hle) fun heq => hb (heq ▸ hlow)
    exact ⟨hlt, by rw [lowBits_lowBits hlt.le, hlow]⟩

-- A buddy that cannot be merged with is divided further, so there are pairs below it.
theorem alive_of_mergeStep (h : o.AliveBut policy a) (hsound : o.Sound)
    (hstep : o.mergeStep policy a = none) : o.Alive policy := by
  cases hdepth : o.depth a with
  | zero =>
    refine h.alive fun e he => ?_
    rw [hdepth] at he
    exact absurd he (Nat.not_lt_zero e)
  | succ n =>
    simp only [mergeStep, hdepth, ite_eq_right_iff, reduceCtorEq, imp_false, not_and,
      not_or] at hstep
    by_cases hbuddy : o.depth (flipBit a n) = n + 1
    · exact h.alive_of_bucket (hstep hbuddy).1
    · have hdeep : n + 1 < o.depth (flipBit a n) := by
        by_contra hle
        have hle : o.depth (flipBit a n) ≤ n := by omega
        have hsame := hsound.depth_eq (flipBit a n) a
          (lowBits_eq_of_le hle (lowBits_flipBit n a)).symm
        omega
      rcases h _ _ hdeep with hpair | ⟨hlt, _⟩
      · refine h.alive fun e he => hpair.of_low (by omega) ?_
        exact lowBits_eq_of_le (by omega) (lowBits_flipBit n a)
      · omega

theorem mergeWithin (h : o.AliveBut policy a) (hsound : o.Sound) {n : Nat} (hn : o.depth a ≤ n) :
    (Outline.mergeWithin policy n a o).Alive policy := by
  induction n generalizing o a with
  | zero => exact h.alive fun e he => absurd he (by omega)
  | succ n ih =>
    rw [Outline.mergeWithin]
    cases hstep : o.mergeStep policy a with
    | none => exact h.alive_of_mergeStep hsound hstep
    | some step =>
      obtain ⟨merged, next⟩ := step
      obtain ⟨m, hdepth, hbuddy, rfl, rfl⟩ := mergeStep_some hstep
      have hnext : (o.join a m).depth (lowBits m a) = m := if_pos (lowBits_lowBits (le_refl m) a)
      exact ih (h.join hdepth) (hsound.join hdepth hbuddy) (by omega)

end AliveBut

section Empty

variable (h : o.Alive policy) (hpairs : o.pairs = [])
include h hpairs

-- Without pairs the trie is a single leaf.
theorem Alive.depth_eq_zero (a : Nat) : o.depth a = 0 := by
  by_contra hne
  obtain ⟨pair, hpair, _⟩ := h a 0 (Nat.pos_of_ne_zero hne)
  rw [hpairs] at hpair
  cases hpair

theorem Alive.globalDepth_eq_zero : o.globalDepth = 0 :=
  Nat.le_zero.mp (Finset.sup_le fun a _ => (h.depth_eq_zero hpairs a).le)

theorem Alive.bucketCount_eq_one : o.bucketCount = 1 := by
  have hfirst : (Finset.range slotCount).filter (fun a => a < 2 ^ o.depth a) = {0} := by
    ext a
    rw [Finset.mem_filter, h.depth_eq_zero hpairs, Finset.mem_range, Finset.mem_singleton]
    simp only [slotCount]
    omega
  rw [bucketCount, hfirst, Finset.card_singleton]

end Empty

variable [DecidableEq V] {capacity : Nat} {key : K} {value : V}

-- The pair that is taken out was in the bucket of the key.
theorem Alive.erase (h : o.Alive policy) (hsound : o.Sound) :
    (o.erase policy key value).AliveBut policy (policy.address key) := by
  intro b e he
  change e < o.depth b at he
  obtain ⟨pair, hpair, haddress⟩ := h b e he
  rcases List.exists_or_eq_self_of_eraseP (o.finds policy key value) o.pairs with
    heq | ⟨erased, before, after, _, hfinds, hpairs, herased⟩
  · refine Or.inl ⟨pair, ?_, haddress⟩
    change pair ∈ o.pairs.eraseP (o.finds policy key value)
    rwa [heq]
  · rw [hpairs, List.mem_append, List.mem_cons] at hpair
    by_cases hrest : pair ∈ before ++ after
    · refine Or.inl ⟨pair, ?_, haddress⟩
      change pair ∈ o.pairs.eraseP (o.finds policy key value)
      rwa [herased]
    · have hsame : pair = erased := by
        rw [List.mem_append, not_or] at hrest
        exact (hpair.resolve_left hrest.1).resolve_right hrest.2
      subst hsame
      have htogether : o.together (policy.address key) (policy.address pair.1) :=
        of_decide_eq_true (Bool.and_eq_true_iff.mp hfinds).2
      have hlt : e < o.depth (policy.address key) := by
        by_contra hle
        have hle : o.depth (policy.address key) ≤ e := Nat.le_of_not_lt hle
        have hdepth := hsound.depth_eq (policy.address key) b
          ((lowBits_eq_of_le hle haddress).symm.trans htogether)
        omega
      exact Or.inr ⟨hlt, haddress.symm.trans (lowBits_eq_of_le hlt.le htogether)⟩

theorem Sound.erase (h : o.Sound) : (o.erase policy key value).Sound := ⟨h.depth_le, h.depth_eq⟩

theorem Alive.remove (h : o.Alive policy) (hsound : o.Sound) :
    (o.remove policy key value).Alive policy := by
  have hrest : (o.erase policy key value).AliveBut policy (policy.address key) := h.erase hsound
  rw [Outline.remove]
  by_cases hany : o.pairs.any (o.finds policy key value) = true
  · by_cases hempty : (o.erase policy key value).bucket policy (policy.address key) = []
    · rw [if_pos ⟨hany, hempty⟩]
      refine hrest.mergeWithin hsound.erase ?_
      exact (hsound.depth_le (policy.address key)).trans (by decide)
    · rw [if_neg fun hand => hempty hand.2]
      exact hrest.alive_of_bucket hempty
  · rw [if_neg fun hand => hany hand.1, o.erase_of_any_eq_false policy (Bool.eq_false_iff.mpr hany)]
    exact h

section Insert

variable (hcapacity : 0 < capacity)
include hcapacity

theorem Alive.insertOrSplit {stored : Bool} (h : o.Alive policy)
    (hround : o.insertOrSplit policy capacity key value = .ok (stored, o')) : o'.Alive policy := by
  cases stored with
  | true =>
    obtain ⟨_, rfl⟩ := insertOrSplit_stored hround
    exact h.append key value
  | false =>
    obtain ⟨_, hfull, _, rfl⟩ := insertOrSplit_split hround
    exact h.split (List.ne_nil_of_length_pos (hcapacity.trans_le hfull))

theorem Alive.splits (h : o.Alive policy) (hsplits : o.Splits policy capacity key value o') :
    o'.Alive policy := by
  induction hsplits with
  | refl o => exact h
  | step hround _ ih => exact ih (h.insertOrSplit hcapacity hround)

theorem Alive.insertWithin (h : o.Alive policy) (n : Nat) :
    (Outline.insertWithin policy capacity key value n o).2.Alive policy := by
  induction n generalizing o with
  | zero => exact h
  | succ n ih =>
    rw [Outline.insertWithin]
    split
    · exact h
    · rename_i hround
      exact h.insertOrSplit hcapacity hround
    · rename_i hround
      exact ih (h.insertOrSplit hcapacity hround)

theorem Alive.insert (h : o.Alive policy) :
    (Outline.insert policy capacity key value o).2.Alive policy := by
  have hinserted : (Outline.insertWithin policy capacity key value 33 o).2.Alive policy :=
    h.insertWithin hcapacity 33
  rw [Outline.insert]
  split <;> rename_i heq <;> rwa [heq] at hinserted

end Insert

end Outline

namespace IndexCall

variable {K V : Type} [DecidableEq V] {t : HashIndex K V} {o o' : Outline K V} {w w' : Ledger}
  {call : IndexCall K V}

-- No page is refused in a removal.
def Undisturbed (before after : Nat) : IndexCall K V → Prop
  | remove _ _ => after = before
  | _ => True

theorem Ended.alive {r : Except StoreError (IndexAnswer V)} (h : call.Ended t o w r o' w')
    (hundisturbed : call.Undisturbed w.refusals w'.refusals) (hcapacity : 0 < t.capacity)
    (hsound : o.Sound) (halive : o.Alive t.policy) : o'.Alive t.policy := by
  rcases h with ⟨_, happly⟩ | ⟨hless, hinterrupted⟩
  · have hafter : o' = (call.apply t.policy t.capacity o).2 := (congrArg Prod.snd happly).symm
    subst hafter
    cases call with
    | insert key value => exact halive.insert hcapacity
    | tryInsert key value => exact halive.insertWithin hcapacity 33
    | remove key value => exact halive.remove hsound
    | _ => exact halive
  · cases call with
    | insert key value | tryInsert key value =>
      cases r with
      | ok a => exact hinterrupted.elim
      | error e => exact halive.splits hcapacity hinterrupted.2
    | remove key value => exact absurd hundisturbed hless.ne'
    | _ =>
      cases r with
      | ok a => exact hinterrupted.elim
      | error e =>
        obtain ⟨_, rfl⟩ := hinterrupted
        exact halive

end IndexCall

namespace HashIndex

variable {K V : Type} [FixedWidth K] [FixedWidth V]

-- A pair is stored in a bucket that some live slot names.
def HasPair (t : HashIndex K V) (M : Memory) (pair : K × V) : Prop :=
  ∃ page, M t.directory = some page ∧
    let d := Directory.ofPage page
    ∃ i < d.size, ∃ page b, M (d.bucketAt i) = some page ∧
      (Bucket.view page t.capacity : Checked (Bucket K V)) = .ok b ∧ pair ∈ b.entries

-- All that the buckets look at tells pairs apart.
def Needed (t : HashIndex K V) (M : Memory) (d : Directory) : Prop :=
  ∀ i < d.size, ∀ e < d.depthAt i,
    ∃ pair, t.HasPair M pair ∧ lowBits e (t.hash pair.1).toNat = lowBits e i

variable [DecidableEq V] {t : HashIndex K V} {d : Directory} {pairs : List (K × V)} {w : Ledger}

theorem Represents.hasPair_iff (h : t.Represents w.sheets d pairs) (pair : K × V) :
    t.HasPair w.memory pair ↔ pair ∈ pairs := by
  obtain ⟨p, hp, rfl⟩ := h.directory
  have hpart := h.routes.partitioned
  constructor
  · rintro ⟨p', hp', i, hi, page, b, hpage, hview, hmem⟩
    obtain rfl := Option.some_inj.mp (hp'.symm.trans (Ledger.memory_of_written hp))
    obtain ⟨b', m, hb⟩ := h.routes.stores_slot hi
    obtain rfl := Option.some_inj.mp (hpage.symm.trans (Ledger.memory_of_written hb.page_eq))
    rw [← hb.capacity_eq, b'.view_eq] at hview
    obtain rfl := Except.ok.inj hview
    rw [hb.entries_eq] at hmem
    exact List.mem_of_mem_filter hmem
  · intro hmem
    obtain ⟨b, m, hb⟩ := h.routes.stores (t.hash pair.1)
    refine ⟨p, Ledger.memory_of_written hp, _, (Directory.ofPage p).route_lt_size (t.hash pair.1),
      b.page, b, Ledger.memory_of_written hb.page_eq, hb.capacity_eq ▸ b.view_eq, ?_⟩
    rw [hb.entries_eq]
    exact List.mem_filter.mpr ⟨hmem, by simp⟩

theorem Represents.needed (h : t.Represents w.sheets d pairs)
    (halive : (d.outline pairs).Alive t.policy) : t.Needed w.memory d := by
  intro i hi e he
  rw [← depthOf_of_lt hi] at he
  obtain ⟨pair, hpair, hlow⟩ := halive i e he
  exact ⟨pair, (h.hasPair_iff pair).mpr hpair, hlow⟩

section Runs

variable {n : Nat} {D : Type} [PageStore D] [LawfulStore D]

-- Runs of an index in which no page is refused while a pair is removed. Any other call of the pool
-- may fail.
inductive Undisturbed (guards : List (Guard n)) (t : HashIndex K V) :
    Tallied (UnreliablePool n D) → Prop
  | created {u : Tallied (UnreliablePool n D)} {M : Memory} (capacity? : Option Nat) :
      Pool.Reached n u.pool.pool guards M →
      ((create t.name t.policy capacity? : Op _ (HashIndex K V)) u).result = .ok t →
      Undisturbed guards t ((create t.name t.policy capacity? : Op _ (HashIndex K V)) u).state
  | called {u : Tallied (UnreliablePool n D)} (name : String) (call : IndexCall K V) :
      Undisturbed guards t u → call.Legal t → (call.run { t with name } u).result.Returns →
      call.Undisturbed u.refusals (call.run { t with name } u).state.refusals →
      Undisturbed guards t (call.run { t with name } u).state

variable {guards : List (Guard n)} {u : Tallied (UnreliablePool n D)}

theorem created_depicts {M : Memory} {capacity? : Option Nat}
    (hpool : Pool.Reached n u.pool.pool guards M)
    (ht : ((create t.name t.policy capacity? : Op _ (HashIndex K V)) u).result = .ok t) :
    ∃ w, t.Depicts (Tallied (UnreliablePool n D)) guards Outline.empty w ∧ ReadablePool.Kept
      ((create t.name t.policy capacity? : Op _ (HashIndex K V)) u).state guards w := by
  have hkept : ReadablePool.Kept u guards (Ledger.ofMemory M u.refusals) :=
    ⟨hpool.kept.ofMemory u.refusals, rfl⟩
  have hends := create_ends (V := V) t.name t.policy capacity? hkept
  rw [Op.Ends, ht] at hends
  obtain ⟨w, hw, hcreated, _⟩ := hends
  exact ⟨w, hcreated.depicts, hw⟩

variable [RoundTrip K] [RoundTrip V]

theorem Undisturbed.depicts (h : Undisturbed guards t u) :
    ∃ w o, ReadablePool.Kept u guards w ∧ t.Depicts (Tallied (UnreliablePool n D)) guards o w ∧
      o.Alive t.policy := by
  induction h with
  | created capacity? hpool ht =>
    obtain ⟨w, hdepicts, hw⟩ := created_depicts hpool ht
    exact ⟨w, _, hw, hdepicts, Outline.alive_empty⟩
  | @called u name call _ hlegal hreturns hundisturbed ih =>
    obtain ⟨w, o, hkept, hdepicts, halive⟩ := ih
    obtain ⟨w', o', r, _, hw', hdepicts', hended⟩ :=
      call.run_returns hdepicts hkept name hlegal hreturns
    refine ⟨w', o', hw', hdepicts', hended.alive ?_ hdepicts.capacity_pos hdepicts.sound halive⟩
    rwa [hkept.2, hw'.2]

-- An index whose directory has no dead part is left with a single bucket by its last pair.
structure Collapsed (t : HashIndex K V) (u : Tallied (UnreliablePool n D)) (d : Directory) :
    Prop where
  depth_eq : d.depth = 0
  bucketIds_length : d.bucketIds.length = 1
  -- as it answers, unless a page is refused
  globalDepth_ends : (t.globalDepth : Op (Tallied (UnreliablePool n D)) Nat).Ends u <|
    Op.Answers (fun depth _ => depth = 0) fun e u' => ¬ e.OfIndex ∧ u'.refusals = u.refusals + 1
  bucketCount_ends : (t.bucketCount : Op (Tallied (UnreliablePool n D)) Nat).Ends u <|
    Op.Answers (fun count _ => count = 1) fun e u' => ¬ e.OfIndex ∧ u'.refusals = u.refusals + 1

-- No part of the directory is kept that no pair needs, if no page was refused in a removal.
theorem undisturbed_needed (h : Undisturbed guards t u) (name : String) :
    ∃ page, Pool.contents u.pool.pool t.directory = some page ∧
      let d := Directory.ofPage page
      t.Needed (Pool.contents u.pool.pool) d ∧
        ((∀ pair, ¬ t.HasPair (Pool.contents u.pool.pool) pair) →
          ({ t with name } : HashIndex K V).Collapsed u d) := by
  obtain ⟨w, o, hkept, hdepicts, halive⟩ := h.depicts
  obtain ⟨d, pairs, rfl, hrepresents, hclear⟩ := id hdepicts
  rw [Pool.Kept.contents_eq hkept.1]
  obtain ⟨p, hp, rfl⟩ := hrepresents.directory
  refine ⟨p, Ledger.memory_of_written hp, hrepresents.needed halive, fun hnone => ?_⟩
  have hpairs : pairs = [] := List.eq_nil_iff_forall_not_mem.mpr fun pair hpair =>
    hnone pair ((hrepresents.hasPair_iff pair).mpr hpair)
  have hpart := hrepresents.routes.partitioned
  have hdepth := halive.globalDepth_eq_zero hpairs
  have hcount := halive.bucketCount_eq_one hpairs
  have hfails {e : StoreError} {u' : Tallied (UnreliablePool n D)}
      (he : ¬ e.OfIndex ∧ ReadablePool.Kept u' guards w.refuse) :
      ¬ e.OfIndex ∧ u'.refusals = u.refusals + 1 :=
    ⟨he.1, he.2.2.symm.trans (congrArg (· + 1) hkept.2)⟩
  refine ⟨?_, ?_, ?_, ?_⟩
  · rw [← hpart.globalDepth_outline hrepresents.routes.tight, hdepth]
  · rw [← hpart.bucketCount_outline, hcount]
  · refine (globalDepth_ends (hdepicts.rename name) hkept).mono fun _ _ hr =>
      Op.Answers.imp hr (fun depth hanswer => hanswer.1.trans hdepth) fun e he => hfails he
  · refine (bucketCount_ends (hdepicts.rename name) hkept).mono fun _ _ hr =>
      Op.Answers.imp hr (fun count hanswer => hanswer.1.trans hcount) fun e he => hfails he

end Runs

-- The calls on the narrow pool are refused no page.
theorem undisturbed_narrowIndex (calls : List (IndexCall UInt32 UInt32))
    (hids : 1 + (calls.map IndexCall.ids).sum + 2 < 128)
    (hlegal : ∀ call ∈ calls, call.Legal narrowIndex) {pairs : List (UInt32 × UInt32)}
    (hpairs : (IndexCall.applyAll narrowIndex.policy narrowIndex.capacity calls .empty).pairs = pairs)
    {u : Tallied (UnreliablePool 128 MemoryStore)}
    (hu : u = narrowIndex.after calls ⟨narrowStart 128, 0⟩) :
    Undisturbed [] narrowIndex u ∧
      ∀ pair, narrowIndex.HasPair (Pool.contents u.pool.pool) pair ↔ pair ∈ pairs := by
  subst hu
  have hpos : 0 < 128 := by decide
  have hn : 128 < 4294967296 := by decide
  let := narrowUnplanned hpos hn
  have hrefusals {u : Tallied (UnreliablePool 128 MemoryStore)} {o : Outline UInt32 UInt32}
      (h : narrowIndex.Provides [] 0 u o) : u.refusals = 0 := by
    obtain ⟨⟨_, hkept, _⟩, _⟩ := h
    exact hkept.2.symm.trans (refusals_narrow hkept.1)
  have hspent {u : Tallied (UnreliablePool 128 MemoryStore)} (h : ReadablePool.Spent u) :
      ¬ SuppliedPool.Supplies 1 u := Pool.Spent.not_supplies h.1
  obtain ⟨⟨⟨w, hkept, d, pairs', hd, hrepresents, _⟩, _⟩, hundisturbed⟩ :=
    Provides.after (P := fun u _ => Undisturbed [] narrowIndex u) hspent
      (fun h => refusals_narrow h.1) ⟨kept_narrowStart hpos hn, rfl⟩ Nat.one_pos calls
      (narrow_supplies hids hn) rfl hlegal
      (fun call hcall u o hbefore hundisturbed hafter hresult => by
        refine hundisturbed.called narrowIndex.name call (hlegal call hcall) ?_ ?_
        · rw [hresult]
          cases (call.apply narrowIndex.policy narrowIndex.capacity o).1 <;> nofun
        · have hsame := (hrefusals hafter).trans (hrefusals hbefore).symm
          cases call <;> trivial)
      (.created (u := ⟨narrowStart 128, 0⟩) _ (Pool.narrow_reached hpos hn) rfl)
  refine ⟨hundisturbed, fun pair => ?_⟩
  have hiff := (hrepresents.narrow hkept.1).hasPair_iff pair
  rwa [Ledger.memory_ofMemory, show pairs' = pairs from (congrArg Outline.pairs hd).trans hpairs]
    at hiff

-- Two pairs are inserted, for which the bucket is split, and removed again.
theorem undisturbed_needed_removed :
    let start : Tallied (UnreliablePool 128 MemoryStore) := ⟨narrowStart 128, 0⟩
    let u := narrowIndex.after [.insert 0 7, .insert 1 8, .remove 0 7, .remove 1 8] start
    let M := Pool.contents u.pool.pool
    let handle : HashIndex UInt32 UInt32 := { narrowIndex with name := "handle" }
    Undisturbed [] narrowIndex u ∧ (∀ pair, ¬ narrowIndex.HasPair M pair) ∧
      ∃ page, M narrowIndex.directory = some page ∧
        let d := Directory.ofPage page
        narrowIndex.Needed M d ∧
          ((∀ pair, ¬ narrowIndex.HasPair M pair) → handle.Collapsed u d) := by
  intro start u M handle
  have hran : Undisturbed [] narrowIndex u ∧ ∀ pair, narrowIndex.HasPair M pair ↔ pair ∈ [] :=
    undisturbed_narrowIndex [.insert 0 7, .insert 1 8, .remove 0 7, .remove 1 8] (by decide)
      (by simp [IndexCall.Legal]) rfl rfl
  -- the calls are not to be computed
  clear_value u
  obtain ⟨hundisturbed, hpairs⟩ := hran
  have hnone (pair : UInt32 × UInt32) : ¬ narrowIndex.HasPair M pair := fun hpair =>
    List.not_mem_nil ((hpairs pair).mp hpair)
  exact ⟨hundisturbed, hnone, undisturbed_needed hundisturbed "handle"⟩

end HashIndex

end PagedIndex
