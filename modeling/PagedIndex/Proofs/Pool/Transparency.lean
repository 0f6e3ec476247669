import PagedIndex.Proofs.Pool.Runs

namespace PagedIndex

namespace PoolCall

variable {n : Nat}

-- A page under an exclusive guard is not fetched, and one under any guard not for writing.
def Admitted (guards : List (Guard n)) : PoolCall n → Prop
  | fetch id access => Admits guards id access
  | _ => True

-- What the users of the pool expect of its pages after a call.
def memoryAfter (M : Memory) : PoolCall n → Checked (Option (Guard n)) → Memory
  | allocate, .ok (some g) => M.put g.page Page.zero
  | write g page, _ => M.put g.page page
  | _, _ => M

-- No page is taken away from the users.
theorem memoryAfter_ne_none {M : Memory} {id : PageId} (hid : M id ≠ none) (call : PoolCall n)
    (r : Checked (Option (Guard n))) : call.memoryAfter M r id ≠ none := by
  have hput (id' : PageId) (p : Page) : M.put id' p id ≠ none := by
    by_cases heq : id = id'
    · rw [heq, Memory.put_self]
      exact Option.some_ne_none _
    · rwa [Memory.put_of_ne _ _ heq]
  unfold memoryAfter
  split
  · exact hput _ _
  · exact hput _ _
  · exact hid

end PoolCall

namespace Pool

variable {n : Nat} {D : Type} [PageStore D]

instance : WriteBackPool (Mounted (Pool n) D) := ⟨flush, flushAll⟩

variable [LawfulStore D]

-- The states that a pool gets into over a store that reads as zeroes past its page count, with the
-- live guards and the memory that is expected.
inductive Reached (n : Nat) : Mounted (Pool n) D → List (Guard n) → Memory → Prop
  | created (shape : PoolShape) {d : D} {pool : Pool n} :
      LawfulStore.Sound d →
      (∀ id : PageId, LawfulStore.count d ≤ id.number → LawfulStore.page d id = Page.zero) →
      (shape.create n d).result = .ok pool →
      Reached n ⟨pool, (shape.create n d).state⟩ [] (shape.memory d)
  | step {m : Mounted (Pool n) D} {guards : List (Guard n)} {M : Memory} (call : PoolCall n) :
      Reached n m guards M → call.Legal guards → call.Admitted guards →
      (call.run m).result.Returns →
      Reached n (call.run m).state (call.guardsAfter guards (call.run m).result)
        (call.memoryAfter M (call.run m).result)

-- Every call keeps the memory, as it is expected after the call.
theorem call_kept {m : Mounted (Pool n) D} {guards : List (Guard n)} {M : Memory}
    (h : Kept m guards M) (call : PoolCall n) (hlegal : call.Legal guards)
    (hadmitted : call.Admitted guards) :
    (call.run : Op (Mounted (Pool n) D) _).Ends m fun r m' =>
      r.Returns → Kept m' (call.guardsAfter guards r) (call.memoryAfter M r) := by
  cases call with
  | fetch id access =>
    rw [PoolCall.run, Op.ends_map]
    refine (h.fetch hadmitted).mono fun r m' hm => ?_
    cases r using Checked.outcomes with
    | ok g => exact fun _ => hm.2
    | error e => exact fun _ => hm.2
    | abort a => exact fun hreturns => absurd rfl (hreturns a)
  | allocate =>
    rw [PoolCall.run, Op.ends_map]
    refine h.allocate.mono fun r m' hm => ?_
    cases r using Checked.outcomes with
    | ok g => exact fun _ => hm.2
    | error e => exact fun _ => hm.2
    | abort a => exact fun hreturns => absurd rfl (hreturns a)
  | write g page => exact fun _ => h.write hlegal.1 hlegal.2 page
  | release g =>
    rw [PoolCall.run, Op.ends_bind]
    refine (h.perm (List.perm_cons_erase hlegal)).release.mono fun r m' hm => ?_
    obtain ⟨rfl, hkept⟩ := hm
    exact fun _ => hkept
  | flush id =>
    rw [PoolCall.run, Op.ends_bind, Op.ends_discard]
    refine (h.flush id).mono fun r m' hm => ?_
    cases r using Checked.outcomes with
    | ok b => exact fun _ => hm
    | error e => exact fun _ => hm.2
    | abort a => exact fun hreturns => absurd rfl (hreturns a)
  | flushAll walk =>
    rw [PoolCall.run, Op.ends_bind]
    refine (h.flushAll walk).mono fun r m' hm => ?_
    cases r using Checked.outcomes with
    | ok b => exact fun _ => hm
    | error e => exact fun _ => hm.2
    | abort a => exact fun hreturns => absurd rfl (hreturns a)
  | delete id =>
    rw [PoolCall.run, Op.ends_bind, Op.ends_discard]
    refine (h.delete id).mono fun r m' hm => ?_
    cases r using Checked.outcomes with
    | ok b => exact fun _ => hm
    | error e => exact fun _ => hm.2
    | abort a => exact hm.elim

-- A page changes only when it is written through a guard.
theorem call_keeps_page {m : Mounted (Pool n) D} {guards : List (Guard n)} {M : Memory}
    (h : Kept m guards M) (call : PoolCall n) {id : PageId} (hid : M id ≠ none)
    (hwrite : ∀ g page, call = .write g page → g.page ≠ id) :
    (call.run : Op (Mounted (Pool n) D) _).Ends m fun r _ => call.memoryAfter M r id = M id := by
  cases call with
  | allocate =>
    rw [PoolCall.run, Op.ends_map]
    refine h.allocate.mono fun r m' hm => ?_
    cases r using Checked.outcomes with
    | ok g =>
      obtain ⟨⟨_, hnew, _⟩, _⟩ := hm
      refine Memory.put_of_ne M Page.zero ?_
      rintro rfl
      exact hid hnew
    | error e => rfl
    | abort a => rfl
  | write g page => exact Memory.put_of_ne M page (hwrite g page rfl).symm
  | _ => exact Op.ends_of_forall fun _ _ => rfl

-- Whoever writes to certain pages only changes no other.
theorem call_confined {m : Mounted (Pool n) D} {guards : List (Guard n)} {M : Memory}
    (h : Kept m guards M) (call : PoolCall n) {P : PageId → Prop}
    (hwrite : ∀ g page, call = .write g page → P g.page) :
    M.Confined P (call.memoryAfter M (call.run m).result) :=
  ⟨fun _ hid => call.memoryAfter_ne_none hid _, fun _ hid hP =>
    call_keeps_page h call hid fun g page hcall hpage => hP (hpage ▸ hwrite g page hcall)⟩

theorem Reached.kept {m : Mounted (Pool n) D} {guards : List (Guard n)} {M : Memory}
    (h : Reached n m guards M) : Kept m guards M := by
  induction h with
  | @created shape d pool hsound hzero hcreate =>
    have hends := shape.create_ends (n := n) (Q := fun _ => True)
      (fun _ _ => Op.ends_of_forall fun _ _ => trivial) hsound trivial
    rw [Op.Ends, hcreate] at hends
    obtain ⟨hinitial, _, hsound', hpage, _⟩ := hends
    exact hinitial.kept hzero hsound' hpage
  | step call _ hlegal hadmitted hreturns ih => exact call_kept ih call hlegal hadmitted hreturns

-- The pool is not seen to evict, flush, delete or fail to load and store pages.
theorem guards_show_memory {m : Mounted (Pool n) D} {guards : List (Guard n)} {M : Memory}
    (h : Reached n m guards M) : ∀ g ∈ guards, M g.page = some (m.pool.read g) :=
  fun _ hg => h.kept.read hg

-- One frame over an empty store: a page is allocated and written.
theorem guards_show_memory_written :
    let start : Mounted (Pool 1) MemoryStore := ⟨.single (Shard.initial 1 1 0 1 0), .empty⟩
    let g : Guard 1 := ⟨⟨0⟩, 0, .exclusive⟩
    let written := ((PoolCall.write g (Page.fill 7)).run (PoolCall.allocate.run start).state).state
    let M := (((PoolShape.single 1 0 1).memory MemoryStore.empty).put ⟨0⟩ Page.zero).put ⟨0⟩
      (Page.fill 7)
    Reached 1 written [g] M ∧ M ⟨0⟩ = some (written.pool.read g) := by
  have hcreated : Reached 1 ⟨.single (Shard.initial 1 1 0 1 0), MemoryStore.empty⟩ []
      ((PoolShape.single 1 0 1).memory MemoryStore.empty) :=
    .created (.single 1 0 1) (d := MemoryStore.empty) trivial
      (fun id _ => Std.HashMap.getD_empty) rfl
  have hallocated := hcreated.step .allocate trivial trivial nofun
  have hwritten := hallocated.step (.write ⟨⟨0⟩, 0, .exclusive⟩ (Page.fill 7))
    ⟨List.mem_cons_self, rfl⟩ trivial nofun
  exact ⟨hwritten, guards_show_memory hwritten _ List.mem_cons_self⟩

end Pool

end PagedIndex
