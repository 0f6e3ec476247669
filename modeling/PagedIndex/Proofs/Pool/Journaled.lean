import PagedIndex.Proofs.Pool.Guarded

namespace PagedIndex

-- A pool that notes down the errors of its calls, also those that an operation goes on after.
structure Journaled (σ : Type) where
  pool : σ
  errors : List StoreError

namespace Journaled

variable {σ γ α : Type}

def onPool (x : Op σ α) : Op (Journaled σ) α :=
  x.zoom (fun u => (u.pool, u.errors)) fun pool errors => ⟨pool, errors⟩

def noted (x : Op σ α) : Op (Journaled σ) α := fun u =>
  let ⟨result, pool, events⟩ := x u.pool
  let errors := match result with
    | .error (.error e) => e :: u.errors
    | _ => u.errors
  ⟨result, ⟨pool, errors⟩, events⟩

instance [PagePool σ γ] : PagePool (Journaled σ) γ where
  pageOf := PagePool.pageOf σ
  fetch id access := noted (PagePool.fetch id access)
  allocate := noted PagePool.allocate
  delete id := noted (PagePool.delete id)
  read g u := PagePool.read g u.pool
  write g page u := { u with pool := PagePool.write g page u.pool }
  release g := onPool (PagePool.release g)

theorem ends_onPool (x : Op σ α) (u : Journaled σ) (Q : Checked α → Journaled σ → Prop) :
    (onPool x).Ends u Q ↔ x.Ends u.pool fun r pool => Q r { u with pool } := Iff.rfl

theorem ends_noted (x : Op σ α) (u : Journaled σ) (Q : Checked α → Journaled σ → Prop) :
    (noted x).Ends u Q ↔ x.Ends u.pool fun
      | .error (.error e), pool => Q (.error (.error e)) ⟨pool, e :: u.errors⟩
      | r, pool => Q r ⟨pool, u.errors⟩ := by
  simp only [Op.Ends, noted]
  cases (x u.pool).result using Checked.outcomes with
  | ok a => rfl
  | error e => rfl
  | abort a => rfl

variable [PagePool σ γ] [GuardedPool σ γ]

-- The guards are those of the pool, and the errors such as it may give.
def Guards (u : Journaled σ) (guards : List γ) : Prop :=
  GuardedPool.Guards u.pool guards ∧ ∀ e ∈ u.errors, GuardedPool.Fails σ e

theorem ends_noted_guards {x : Op σ α} {u : Journaled σ} {guards : List γ} {guards' : α → List γ}
    (hu : Guards u guards) (hx : x.Ends u.pool <| Op.AnswersOr (fun _ => True)
      (fun a t => GuardedPool.Guards t (guards' a))
      fun e t => GuardedPool.Fails σ e ∧ GuardedPool.Guards t guards) :
    (noted x).Ends u <| Op.AnswersOr (fun _ => True) (fun a v => Guards v (guards' a))
      fun e v => GuardedPool.Fails σ e ∧ Guards v guards := by
  rw [ends_noted]
  refine hx.mono fun r t ht => ?_
  cases r using Checked.outcomes with
  | ok a => exact ⟨ht, hu.2⟩
  | error e => exact ⟨ht.1, ht.2, List.forall_mem_cons.mpr ⟨ht.1, hu.2⟩⟩
  | abort a => trivial

instance : GuardedPool (Journaled σ) γ where
  Guards := Guards
  Room := GuardedPool.Room σ
  Fails := GuardedPool.Fails σ
  room_le := GuardedPool.room_le
  room_cons := GuardedPool.room_cons
  fails := GuardedPool.fails
  fetch_ends h hroom id access := ends_noted_guards h (GuardedPool.fetch_ends h.1 hroom id access)
  allocate_ends h hroom := ends_noted_guards h (GuardedPool.allocate_ends h.1 hroom)
  delete_ends h id := ends_noted_guards h (GuardedPool.delete_ends h.1 id)
  write_guards h g page := ⟨GuardedPool.write_guards h.1 g page, h.2⟩
  release_ends h := (ends_onPool _ _ _).mpr <|
    (GuardedPool.release_ends h.1).mono fun _ _ ht => ⟨ht, h.2⟩

end Journaled

end PagedIndex
