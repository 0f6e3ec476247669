import PagedIndex.Proofs.Pool.Unreliable

namespace PagedIndex

-- A pool with a count of the calls that were refused.
structure Tallied (σ : Type) where
  pool : σ
  -- the fetches and allocations that failed or aborted
  refusals : Nat

namespace Tallied

variable {σ γ α : Type}

def onPool (x : Op σ α) : Op (Tallied σ) α :=
  x.zoom (fun u => (u.pool, u.refusals)) fun pool refusals => ⟨pool, refusals⟩

def counted (x : Op σ α) : Op (Tallied σ) α := fun u =>
  let ⟨result, pool, events⟩ := x u.pool
  let refused := match result with
    | .ok _ => 0
    | .error _ => 1
  ⟨result, ⟨pool, u.refusals + refused⟩, events⟩

instance [PagePool σ γ] : PagePool (Tallied σ) γ where
  pageOf := PagePool.pageOf σ
  fetch id access := counted (PagePool.fetch id access)
  allocate := counted PagePool.allocate
  delete id := onPool (PagePool.delete id)
  read g u := PagePool.read g u.pool
  write g page u := { u with pool := PagePool.write g page u.pool }
  release g := onPool (PagePool.release g)

theorem ends_onPool (x : Op σ α) (u : Tallied σ) (Q : Checked α → Tallied σ → Prop) :
    (onPool x).Ends u Q ↔ x.Ends u.pool fun r pool => Q r { u with pool } := Iff.rfl

theorem ends_counted {x : Op σ α} {u : Tallied σ} {A : σ → Prop} {P : α → σ → Prop}
    {E : StoreError → σ → Prop} (hx : x.Ends u.pool (Op.AnswersOr A P E)) :
    (counted x).Ends u (Op.AnswersOr (fun v => A v.pool ∧ 0 < v.refusals)
      (fun a v => P a v.pool ∧ v.refusals = u.refusals)
      fun e v => E e v.pool ∧ v.refusals = u.refusals + 1) := by
  unfold Op.Ends counted at *
  cases hr : (x u.pool).result using Checked.outcomes with
  | ok a =>
    rw [hr] at hx
    simp only [hr]
    exact ⟨hx, rfl⟩
  | error e =>
    rw [hr] at hx
    simp only [hr]
    exact ⟨hx, rfl⟩
  | abort a =>
    rw [hr] at hx
    simp only [hr]
    exact ⟨hx, Nat.succ_pos _⟩

instance [PagePool σ γ] [LawfulPool σ γ] : LawfulPool (Tallied σ) γ where
  access := ReadablePool.access σ
  Kept u guards w := ReadablePool.Kept u.pool guards w ∧ w.refusals = u.refusals
  Spent u := ReadablePool.Spent u.pool ∧ 0 < u.refusals
  Refuses := ReadablePool.Refuses σ
  fetch_ends h _ _ hp _ hadmits := (ends_counted (ReadablePool.fetch_ends h.1 hp hadmits)).mono
    fun _ _ ht => ht.imp And.left (fun _ hg => ⟨hg.1.1, hg.1.2, h.2.trans hg.2.symm⟩)
      fun _ he => ⟨he.1.1, he.1.2, (congrArg (· + 1) h.2).trans he.2.symm⟩
  allocate_ends h := (ends_counted (LawfulPool.allocate_ends h.1)).mono
    fun _ _ ht => ht.imp id (fun _ hg => ⟨hg.1.1, hg.1.2, h.2.trans hg.2.symm⟩)
      fun _ he => ⟨he.1.1, he.1.2, (congrArg (· + 1) h.2).trans he.2.symm⟩
  delete_ends h id := (ends_onPool _ _ _).mpr <| (LawfulPool.delete_ends h.1 id).mono
    fun _ _ ht => Op.Answers.imp ht (fun _ hb => ⟨hb, h.2⟩) fun _ he => ⟨he.1, he.2, h.2⟩
  read_eq h _ hg := ReadablePool.read_eq h.1 hg
  write_kept h _ hg haccess page := ⟨LawfulPool.write_kept h.1 hg haccess page, h.2⟩
  release_ends h := (ends_onPool _ _ _).mpr <|
    (ReadablePool.release_ends h.1).mono fun _ _ ht => ⟨ht, h.2⟩
  release_spent g u := (ends_onPool _ _ _).mpr <|
    (ReadablePool.release_spent g u.pool).mono fun _ _ ht => And.imp_left ht

instance [PagePool σ γ] [LawfulPool σ γ] [ProbedPool σ γ] : ProbedPool (Tallied σ) γ where
  fetch_any h id _ hadmits := (ends_counted (ProbedPool.fetch_any (σ := σ) h.1 id hadmits)).mono
    fun _ _ ht => ht.imp And.left (fun _ hg => ⟨hg.1.1, hg.1.2, h.2.trans hg.2.symm⟩)
      fun _ he => ⟨he.1.1, he.1.2, (congrArg (· + 1) h.2).trans he.2.symm⟩

end Tallied

-- A count that begins with this state.
theorem Pool.Kept.tallied {n : Nat} {D : Type} [PageStore D] [LawfulStore D] {u : UnreliablePool n D}
    {guards : List (Guard n)} {M : Memory} (h : Pool.Kept u.pool guards M) :
    ReadablePool.Kept (⟨u, 0⟩ : Tallied (UnreliablePool n D)) guards (Ledger.ofMemory M 0) :=
  ⟨h.ofMemory 0, rfl⟩

theorem Pool.contents_tallied {n : Nat} {D : Type} [PageStore D] [LawfulStore D]
    {v : Tallied (UnreliablePool n D)} {guards : List (Guard n)} {w : Ledger}
    (h : ReadablePool.Kept v guards w) : Pool.contents v.pool.pool = w.memory :=
  Pool.Kept.contents_eq h.1

end PagedIndex
