import Mathlib.Data.List.Nodup
import PagedIndex.Pool.EvictionQueue

namespace PagedIndex.EvictionQueue

variable {α : Type}

-- Entries in the order of their tickets.
private abbrev Before (a b : Nat × α) : Prop := a.1 < b.1

private theorem before_toList (m : Std.TreeMap Nat α) : m.toList.Pairwise Before :=
  m.ordered_keys_toList.imp fun h => Nat.compare_eq_lt.mp h

-- Two lists in ticket order with the same entries are equal.
private theorem eq_of_before {xs ys : List (Nat × α)} (hx : xs.Pairwise Before)
    (hy : ys.Pairwise Before) (h : ∀ entry, entry ∈ xs ↔ entry ∈ ys) : xs = ys := by
  have hnodup {zs : List (Nat × α)} (hz : zs.Pairwise Before) : zs.Nodup := by
    apply hz.imp
    rintro a _ hab rfl
    exact Nat.lt_irrefl _ hab
  have hperm := (List.perm_ext_iff_of_nodup (hnodup hx) (hnodup hy)).mpr h
  exact hperm.eq_of_pairwise (fun _ _ _ _ hab hba => absurd hab (Nat.lt_asymm hba)) hx hy

private theorem toList_insert_of_lt (m : Std.TreeMap Nat α) (ticket : Nat) (frame : α)
    (h : ∀ (t : Nat) (f : α), m[t]? = some f → t < ticket) :
    (m.insert ticket frame).toList = m.toList ++ [(ticket, frame)] := by
  apply eq_of_before (before_toList _)
  · rw [List.pairwise_append]
    refine ⟨before_toList m, by simp, ?_⟩
    rintro ⟨t, f⟩ ht _ hlast
    rw [List.mem_singleton.mp hlast]
    exact h t f (Std.TreeMap.mem_toList_iff_getElem?_eq_some.mp ht)
  · rintro ⟨t, f⟩
    rw [Std.TreeMap.mem_toList_iff_getElem?_eq_some, Std.TreeMap.getElem?_insert, List.mem_append,
      List.mem_singleton, Std.TreeMap.mem_toList_iff_getElem?_eq_some, Prod.mk.injEq]
    by_cases ht : ticket = t
    · subst ht
      have hnone : m[ticket]? ≠ some f := fun hf => Nat.lt_irrefl _ (h _ _ hf)
      simp [hnone, eq_comm]
    · simp [ht, Ne.symm ht]

private theorem toList_erase (m : Std.TreeMap Nat α) (ticket : Nat) :
    (m.erase ticket).toList = m.toList.filter fun entry => entry.1 ≠ ticket := by
  apply eq_of_before (before_toList _) ((before_toList m).filter _)
  rintro ⟨t, f⟩
  rw [Std.TreeMap.mem_toList_iff_getElem?_eq_some, Std.TreeMap.getElem?_erase, List.mem_filter,
    Std.TreeMap.mem_toList_iff_getElem?_eq_some]
  by_cases ht : ticket = t
  · simp [ht]
  · simp [ht, Ne.symm ht]

variable [BEq α] [Hashable α]

-- A frame has the ticket under which it is kept, and tickets were drawn in turn.
structure Sound (q : EvictionQueue α) : Prop where
  inverse (ticket : Nat) (frame : α) :
    q.frames[ticket]? = some frame ↔ q.tickets[frame]? = some ticket
  drawn (ticket : Nat) (frame : α) : q.frames[ticket]? = some frame → ticket < q.nextTicket

variable {q : EvictionQueue α}

theorem length_toList (q : EvictionQueue α) : q.toList.length = q.size := by
  simp [toList, size, Std.TreeMap.length_toList]

theorem toList_empty (capacity : Nat) : (empty capacity : EvictionQueue α).toList = [] := by
  rw [← List.length_eq_zero_iff, length_toList]
  rfl

theorem sound_empty (capacity : Nat) : (empty capacity : EvictionQueue α).Sound where
  inverse ticket frame := by simp [empty]
  drawn ticket frame := by simp [empty]

theorem mem_toList_iff_ticket (frame : α) :
    frame ∈ q.toList ↔ ∃ ticket : Nat, q.frames[ticket]? = some frame := by
  simp [toList, Std.TreeMap.mem_toList_iff_getElem?_eq_some]

-- Two entries with one frame have one ticket.
theorem Sound.nodup_toList (h : q.Sound) : q.toList.Nodup := by
  rw [toList, List.Nodup, List.pairwise_map]
  apply (before_toList q.frames).imp_of_mem
  rintro ⟨t, f⟩ ⟨u, g⟩ ht hu hlt hfg
  rw [Std.TreeMap.mem_toList_iff_getElem?_eq_some, h.inverse] at ht hu
  have hfg : f = g := hfg
  subst hfg
  have htu : t = u := Option.some_inj.mp (ht.symm.trans hu)
  exact Nat.lt_irrefl _ (htu ▸ hlt : t < t)

-- The frame that leaves is the one with the first ticket.
private theorem pop?_eq_map_head? (q : EvictionQueue α) :
    q.pop? = q.frames.toList.head?.map fun entry =>
      (entry.2, { q with
        frames := q.frames.erase entry.1
        tickets := q.tickets.erase entry.2 }) := by
  rw [pop?, Std.TreeMap.minKey?_eq_head?_keys, ← Std.TreeMap.map_fst_toList_eq_keys]
  cases hentries : q.frames.toList with
  | nil => rfl
  | cons first rest =>
    have hfirst : q.frames[first.1]? = some first.2 := by
      rw [← Std.TreeMap.mem_toList_iff_getElem?_eq_some, hentries]
      exact List.mem_cons_self
    simp [hfirst]

theorem pop?_eq_none_iff (q : EvictionQueue α) : q.pop? = none ↔ q.toList = [] := by
  simp [pop?_eq_map_head?, toList]

@[simp] theorem capacity_push (q : EvictionQueue α) (frame : α) :
    (q.push frame).capacity = q.capacity := by
  rw [push]
  split <;> rfl

@[simp] theorem capacity_remove (q : EvictionQueue α) (frame : α) :
    (q.remove frame).capacity = q.capacity := by
  rw [remove]
  split <;> rfl

theorem capacity_of_pop? {frame : α} {rest : EvictionQueue α} (h : q.pop? = some (frame, rest)) :
    rest.capacity = q.capacity := by
  rw [pop?_eq_map_head?, Option.map_eq_some_iff] at h
  obtain ⟨entry, _, heq⟩ := h
  obtain ⟨rfl, rfl⟩ := Prod.mk.inj heq
  rfl

variable [LawfulBEq α]

-- A frame is queued just when it has a ticket.
theorem Sound.mem_toList (h : q.Sound) (frame : α) : frame ∈ q.toList ↔ q.contains frame := by
  rw [mem_toList_iff_ticket, contains, Std.HashMap.contains_eq_isSome_getElem?,
    Option.isSome_iff_exists]
  simp only [h.inverse]

-- A frame that is not queued goes to the end, if there is room.
theorem Sound.toList_push (h : q.Sound) (frame : α) :
    (q.push frame).toList =
      if frame ∈ q.toList ∨ q.capacity ≤ q.size then q.toList else q.toList ++ [frame] := by
  simp only [push, h.mem_toList, Bool.or_eq_true, decide_eq_true_eq]
  split
  · rfl
  · rw [toList, toList_insert_of_lt _ _ _ h.drawn]
    simp [toList]

theorem Sound.push (h : q.Sound) (frame : α) : (q.push frame).Sound := by
  rw [EvictionQueue.push]
  split
  · exact h
  · rename_i hq
    have hnew : q.tickets[frame]? = none := by
      simp only [contains, Bool.or_eq_true, not_or] at hq
      simpa using hq.1
    constructor
    · intro ticket other
      rw [Std.TreeMap.getElem?_insert, Std.HashMap.getElem?_insert]
      by_cases ht : q.nextTicket = ticket
      · subst ht
        have hdrawn (f : α) : q.tickets[f]? ≠ some q.nextTicket := fun hf =>
          Nat.lt_irrefl _ (h.drawn _ _ ((h.inverse _ _).mpr hf))
        by_cases hf : frame = other <;> simp [hf, hdrawn]
      · by_cases hf : frame = other
        · subst hf
          simp [ht, h.inverse, hnew]
        · simp [ht, hf, h.inverse]
    · intro ticket other hother
      rw [Std.TreeMap.getElem?_insert] at hother
      by_cases ht : q.nextTicket = ticket
      · exact ht ▸ Nat.lt_succ_self _
      · simp only [Nat.compare_eq_eq, ht, if_false] at hother
        exact Nat.lt_succ_of_lt (h.drawn _ _ hother)

-- Taking out an entry by its ticket takes its frame out of the list.
private theorem Sound.toList_erase_ticket (h : q.Sound) {ticket : Nat} {frame : α}
    (ht : q.frames[ticket]? = some frame) :
    (q.frames.erase ticket).toList.map Prod.snd = q.toList.erase frame := by
  rw [h.nodup_toList.erase_eq_filter, toList_erase, toList, List.filter_map]
  congr 1
  apply List.filter_congr
  rintro ⟨t, f⟩ hmem
  rw [Std.TreeMap.mem_toList_iff_getElem?_eq_some] at hmem
  by_cases htt : t = ticket
  · subst htt
    simp [Option.some_inj.mp (hmem.symm.trans ht)]
  · have hff : f ≠ frame := by
      rintro rfl
      rw [h.inverse] at hmem ht
      exact htt (Option.some_inj.mp (hmem.symm.trans ht))
    simp [htt, hff]

private theorem Sound.erase (h : q.Sound) {ticket : Nat} {frame : α}
    (ht : q.frames[ticket]? = some frame) :
    Sound { q with frames := q.frames.erase ticket, tickets := q.tickets.erase frame } where
  inverse t f := by
    rw [Std.TreeMap.getElem?_erase, Std.HashMap.getElem?_erase]
    have hf := (h.inverse _ _).mp ht
    by_cases htt : ticket = t
    · subst htt
      by_cases hff : frame = f
      · simp [hff]
      · have hne : q.tickets[f]? ≠ some ticket := fun hfticket =>
          hff (Option.some_inj.mp (ht.symm.trans ((h.inverse _ _).mpr hfticket)))
        simp [hff, hne]
    · by_cases hff : frame = f
      · subst hff
        have hne : q.frames[t]? ≠ some frame := fun hft =>
          htt (Option.some_inj.mp (hf.symm.trans ((h.inverse _ _).mp hft)))
        simp [htt, hne]
      · simp [htt, hff, h.inverse]
  drawn t f hf := by
    rw [Std.TreeMap.getElem?_erase] at hf
    by_cases htt : ticket = t
    · simp [htt] at hf
    · simp only [Nat.compare_eq_eq, htt, if_false] at hf
      exact h.drawn _ _ hf

theorem Sound.toList_remove (h : q.Sound) (frame : α) :
    (q.remove frame).toList = q.toList.erase frame := by
  rw [remove]
  split
  · rename_i hnone
    rw [List.erase_of_not_mem]
    rw [h.mem_toList, contains, Std.HashMap.contains_eq_isSome_getElem?, hnone]
    simp
  · rename_i ticket hticket
    exact h.toList_erase_ticket ((h.inverse _ _).mpr hticket)

theorem Sound.remove (h : q.Sound) (frame : α) : (q.remove frame).Sound := by
  rw [EvictionQueue.remove]
  split
  · exact h
  · rename_i ticket hticket
    exact h.erase ((h.inverse _ _).mpr hticket)

theorem Sound.toList_of_pop? (h : q.Sound) {frame : α} {rest : EvictionQueue α}
    (hpop : q.pop? = some (frame, rest)) : q.toList = frame :: rest.toList := by
  rw [pop?_eq_map_head?, Option.map_eq_some_iff] at hpop
  obtain ⟨entry, hhead, heq⟩ := hpop
  obtain ⟨rfl, rfl⟩ := Prod.mk.inj heq
  obtain ⟨tail, hentries⟩ := List.head?_eq_some_iff.mp hhead
  have hentry : q.frames[entry.1]? = some entry.2 := by
    rw [← Std.TreeMap.mem_toList_iff_getElem?_eq_some, hentries]
    exact List.mem_cons_self
  have herase := h.toList_erase_ticket hentry
  rw [toList, toList, herase, toList, hentries]
  simp

theorem Sound.of_pop? (h : q.Sound) {frame : α} {rest : EvictionQueue α}
    (hpop : q.pop? = some (frame, rest)) : rest.Sound := by
  rw [pop?_eq_map_head?, Option.map_eq_some_iff] at hpop
  obtain ⟨entry, hhead, heq⟩ := hpop
  obtain ⟨rfl, rfl⟩ := Prod.mk.inj heq
  apply h.erase
  rw [← Std.TreeMap.mem_toList_iff_getElem?_eq_some]
  exact List.mem_of_mem_head? hhead

end PagedIndex.EvictionQueue
