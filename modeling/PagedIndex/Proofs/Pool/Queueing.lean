import PagedIndex.Proofs.Pool.Invariants

namespace PagedIndex

-- What a queue of frames is asked.
inductive QueueCall (α : Type)
  | push (frame : α)
  | remove (frame : α)
  | pop
  | size

inductive QueueAnswer (α : Type)
  | done
  | popped (frame : Option α)
  | size (n : Nat)
deriving DecidableEq

namespace QueueCall

variable {α σ : Type}

def isPush : QueueCall α → Bool
  | push _ => true
  | _ => false

-- Answer calls one after another.
def runAll (answer : σ → QueueCall α → QueueAnswer α × σ) (s : σ) :
    List (QueueCall α) → List (QueueAnswer α) × σ
  | [] => ([], s)
  | call :: calls =>
    let rest := runAll answer (answer s call).2 calls
    ((answer s call).1 :: rest.1, rest.2)

variable [BEq α] [Hashable α]

def onQueue (q : EvictionQueue α) : QueueCall α → QueueAnswer α × EvictionQueue α
  | push frame => (.done, q.push frame)
  | remove frame => (.done, q.remove frame)
  | pop =>
    match q.pop? with
    | none => (.popped none, q)
    | some (frame, rest) => (.popped (some frame), rest)
  | size => (.size q.size, q)

-- The same calls on a list that holds no more than `capacity` frames.
def onList [LawfulBEq α] (capacity : Nat) (l : List α) : QueueCall α → QueueAnswer α × List α
  | push frame => (.done, if frame ∉ l ∧ l.length < capacity then l ++ [frame] else l)
  | remove frame => (.done, l.erase frame)
  | pop => (.popped l.head?, l.tail)
  | size => (.size l.length, l)

end QueueCall

namespace EvictionQueue

variable {α : Type} [BEq α] [Hashable α]

-- A queue keeps the frames of the list in their order, and its two tables are inverse to each other.
structure Mirrors (q : EvictionQueue α) (l : List α) : Prop where
  order : q.toList = l
  nodup : l.Nodup
  bounded : l.length ≤ q.capacity
  inverse (ticket : Nat) (frame : α) :
    q.frames[ticket]? = some frame ↔ q.tickets[frame]? = some ticket

theorem nextTicket_push_le (q : EvictionQueue α) (frame : α) :
    (q.push frame).nextTicket ≤ q.nextTicket + 1 := by
  rw [push]
  split
  · exact Nat.le_succ _
  · exact le_rfl

theorem nextTicket_remove (q : EvictionQueue α) (frame : α) :
    (q.remove frame).nextTicket = q.nextTicket := by
  rw [remove]
  split <;> rfl

theorem nextTicket_of_pop? {q : EvictionQueue α} {frame : α} {rest : EvictionQueue α}
    (hpop : q.pop? = some (frame, rest)) : rest.nextTicket = q.nextTicket := by
  simp only [pop?, Option.bind_eq_bind, Option.bind_eq_some_iff, Option.pure_def,
    Option.some.injEq, Prod.mk.injEq] at hpop
  obtain ⟨ticket, _, _, _, _, rfl⟩ := hpop
  rfl

-- What the calls keep true of a queue of the given capacity that drew `drawn` tickets at most.
structure Running (capacity drawn : Nat) (q : EvictionQueue α) : Prop where
  sound : q.Sound
  fits : q.Fits
  capacity_eq : q.capacity = capacity
  drawn_le : q.nextTicket ≤ drawn

variable {capacity drawn : Nat} {q : EvictionQueue α}

theorem running_empty (capacity : Nat) : Running capacity 0 (empty capacity : EvictionQueue α) :=
  ⟨sound_empty capacity, fits_empty capacity, rfl, le_rfl⟩

theorem Running.mirrors (h : q.Running capacity drawn) : q.Mirrors q.toList where
  order := rfl
  nodup := h.sound.nodup_toList
  bounded := (length_toList q).trans_le h.fits
  inverse := h.sound.inverse

variable [LawfulBEq α]

-- One call on a queue is that call on its list.
theorem Running.onQueue (h : q.Running capacity drawn) (call : QueueCall α) :
    (call.onQueue q).1 = (call.onList capacity q.toList).1 ∧
      (call.onQueue q).2.toList = (call.onList capacity q.toList).2 ∧
      (call.onQueue q).2.Running capacity (drawn + if call.isPush then 1 else 0) := by
  cases call with
  | push frame =>
    refine ⟨rfl, ?_, h.sound.push frame, h.fits.push frame, (capacity_push q frame).trans h.capacity_eq,
      (nextTicket_push_le q frame).trans (Nat.add_le_add_right h.drawn_le 1)⟩
    change (q.push frame).toList = if _ then _ else _
    rw [h.sound.toList_push, length_toList, h.capacity_eq]
    by_cases hqueued : frame ∈ q.toList ∨ capacity ≤ q.size
    · rw [if_pos hqueued, if_neg (by rwa [not_and_or, not_not, Nat.not_lt])]
    · rw [if_neg hqueued, if_pos (by rwa [not_or, Nat.not_le] at hqueued)]
  | remove frame =>
    exact ⟨rfl, h.sound.toList_remove frame, h.sound.remove frame, h.fits.remove frame,
      (capacity_remove q frame).trans h.capacity_eq, (nextTicket_remove q frame).trans_le h.drawn_le⟩
  | pop =>
    cases hpop : q.pop? with
    | none =>
      simp only [QueueCall.onQueue, QueueCall.onList, hpop, (pop?_eq_none_iff q).mp hpop]
      exact ⟨rfl, rfl, h⟩
    | some taken =>
      obtain ⟨frame, rest⟩ := taken
      simp only [QueueCall.onQueue, QueueCall.onList, hpop, h.sound.toList_of_pop? hpop]
      exact ⟨rfl, rfl, h.sound.of_pop? hpop, h.fits.of_pop? hpop,
        (capacity_of_pop? hpop).trans h.capacity_eq, (nextTicket_of_pop? hpop).trans_le h.drawn_le⟩
  | size => exact ⟨congrArg QueueAnswer.size (length_toList q).symm, rfl, h⟩

-- So any calls one after another, by induction on them.
theorem Running.runAll (h : q.Running capacity drawn) (calls : List (QueueCall α)) :
    (QueueCall.runAll QueueCall.onQueue q calls).1 =
        (QueueCall.runAll (QueueCall.onList capacity) q.toList calls).1 ∧
      (QueueCall.runAll QueueCall.onQueue q calls).2.toList =
        (QueueCall.runAll (QueueCall.onList capacity) q.toList calls).2 ∧
      (QueueCall.runAll QueueCall.onQueue q calls).2.Running capacity
        (drawn + calls.countP QueueCall.isPush) := by
  induction calls generalizing q drawn with
  | nil => exact ⟨rfl, rfl, h⟩
  | cons call calls ih =>
    obtain ⟨hanswer, hlist, hnext⟩ := h.onQueue call
    obtain ⟨hanswers, hlast, hrunning⟩ := ih hnext
    rw [hlist] at hanswers hlast
    have hdrawn : drawn + (if call.isPush then 1 else 0) + calls.countP QueueCall.isPush =
        drawn + (call :: calls).countP QueueCall.isPush := by
      rw [List.countP_cons]
      omega
    exact ⟨congrArg₂ List.cons hanswer hanswers, hlast, hdrawn ▸ hrunning⟩

-- From an empty queue of any capacity, the calls are answered as on an empty list, and the queue
-- mirrors the list that they leave. It draws no more tickets than there are pushes, so the tickets fit
-- a machine word while the pushes do.
theorem answers_as_list (capacity : Nat) (calls : List (QueueCall α)) :
    (∀ q : EvictionQueue α, create capacity = .ok q → q = empty capacity) ∧
      (QueueCall.runAll QueueCall.onQueue (empty capacity) calls).1 =
        (QueueCall.runAll (QueueCall.onList capacity) [] calls).1 ∧
      (QueueCall.runAll QueueCall.onQueue (empty capacity) calls).2.Mirrors
        (QueueCall.runAll (QueueCall.onList capacity) [] calls).2 ∧
      (QueueCall.runAll QueueCall.onQueue (empty capacity) calls).2.capacity = capacity ∧
      (QueueCall.runAll QueueCall.onQueue (empty capacity) calls).2.nextTicket ≤
        calls.countP QueueCall.isPush := by
  have hrun := (running_empty capacity).runAll calls
  rw [toList_empty, Nat.zero_add] at hrun
  obtain ⟨hanswers, hlist, hrunning⟩ := hrun
  refine ⟨fun q hq => ?_, hanswers, hlist ▸ hrunning.mirrors, hrunning.capacity_eq, hrunning.drawn_le⟩
  unfold create Checked.require at hq
  split at hq
  · exact (Except.ok.inj hq).symm
  · cases hq

-- A frame that is taken out of the middle and pushed again waits behind the others.
theorem answers_as_list_again :
    LawfulBEq UInt32 ∧
      (QueueCall.runAll QueueCall.onQueue (empty 3 : EvictionQueue UInt32)
        [.push 7, .push 8, .push 9, .push 10, .remove 8, .push 8, .push 7, .size, .pop, .pop, .pop,
          .pop]).1 =
        [.done, .done, .done, .done, .done, .done, .done, .size 3, .popped (some 7), .popped (some 9),
          .popped (some 8), .popped none] :=
  ⟨inferInstance, (answers_as_list 3 _).2.1.trans (by decide)⟩

end EvictionQueue

end PagedIndex
