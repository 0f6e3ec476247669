import PagedIndex.Proofs.Pool.Lawful

namespace PagedIndex

-- A pool that refuses calls by a plan, which gives for a call, by its number, the error that it is
-- answered with before it reaches the pool.
structure Unreliable (σ : Type) where
  pool : σ
  plan : Nat → Option { e : StoreError // ¬ e.OfIndex }
  -- the number of the next call
  calls : Nat

-- A pool over a store, of which any call may fail.
abbrev UnreliablePool (n : Nat) (D : Type) : Type := Unreliable (Mounted (Pool n) D)

namespace Unreliable

variable {σ γ α : Type}

def next : Op (Unreliable σ) (Option { e : StoreError // ¬ e.OfIndex }) := fun u =>
  ⟨.ok (u.plan u.calls), { u with calls := u.calls + 1 }, []⟩

def onPool (x : Op σ α) : Op (Unreliable σ) α :=
  x.zoom (fun u => (u.pool, u)) fun pool u => { u with pool }

def call (x : Op σ α) : Op (Unreliable σ) α := do
  match ← next with
  | some e => Op.fail e
  | none => onPool x

instance [PagePool σ γ] : PagePool (Unreliable σ) γ where
  pageOf := PagePool.pageOf σ
  fetch id access := call (PagePool.fetch id access)
  allocate := call PagePool.allocate
  delete id := call (PagePool.delete id)
  read g u := PagePool.read g u.pool
  write g page u := { u with pool := PagePool.write g page u.pool }
  release g := onPool (PagePool.release g)

theorem ends_next (u : Unreliable σ) (Q : Checked _ → Unreliable σ → Prop) :
    next.Ends u Q ↔ Q (.ok (u.plan u.calls)) { u with calls := u.calls + 1 } := Iff.rfl

theorem ends_onPool (x : Op σ α) (u : Unreliable σ) (Q : Checked α → Unreliable σ → Prop) :
    (onPool x).Ends u Q ↔ x.Ends u.pool fun r pool => Q r { u with pool } := Iff.rfl

-- A planned error is one more way for a call to fail.
theorem ends_call {x : Op σ α} {u : Unreliable σ} {A : σ → Prop} {P : α → σ → Prop}
    {E F : StoreError → σ → Prop} (hx : x.Ends u.pool (Op.AnswersOr A P E))
    (hfails : ∀ e s, E e s → F e s) (hplanned : ∀ e : StoreError, ¬ e.OfIndex → F e u.pool) :
    (call x).Ends u (Op.AnswersOr (fun v => A v.pool) (fun a v => P a v.pool)
      fun e v => F e v.pool) := by
  rw [call, Op.ends_bind, ends_next, Op.then_ok]
  cases u.plan u.calls with
  | some e => exact hplanned e.1 e.2
  | none =>
    rw [ends_onPool]
    refine hx.mono fun r t ht => ?_
    exact ht.imp (fun ha => ha) (fun _ hp => hp) fun e he => hfails e t he

-- A call that is not refused by plan reaches the pool.
theorem ends_call_unplanned {u : Unreliable σ} (hplan : u.plan u.calls = none) {x : Op σ α}
    {Q : Checked α → σ → Prop} (hx : x.Ends u.pool Q) :
    (call x).Ends u fun r v => v.plan = u.plan ∧ Q r v.pool := by
  rw [call, Op.ends_bind, ends_next, Op.then_ok, hplan, ends_onPool]
  exact hx.mono fun _ _ ht => ⟨rfl, ht⟩

-- As a pool that refuses no more than the one below it, as long as nothing is planned.
abbrev unplanned (σ : Type) {γ : Type} [PagePool σ γ] [LawfulPool σ γ] :
    LawfulPool (Unreliable σ) γ where
  access := ReadablePool.access σ
  Kept u guards w := (∀ i, u.plan i = none) ∧ ReadablePool.Kept u.pool guards w
  Spent u := ReadablePool.Spent u.pool
  Refuses := ReadablePool.Refuses σ
  fetch_ends h _ _ hp _ hjoins :=
    (ends_call_unplanned (h.1 _) (ReadablePool.fetch_ends h.2 hp hjoins)).mono fun _ _ ht =>
      Op.Answers.imp ht.2 (fun _ hg => ⟨hg.1, ht.1 ▸ h.1, hg.2⟩) fun _ he => ⟨he.1, ht.1 ▸ h.1, he.2⟩
  allocate_ends h :=
    (ends_call_unplanned (h.1 _) (LawfulPool.allocate_ends h.2)).mono fun _ _ ht =>
      ht.2.imp (fun ha => ha) (fun _ hg => ⟨hg.1, ht.1 ▸ h.1, hg.2⟩)
        fun _ he => ⟨he.1, ht.1 ▸ h.1, he.2⟩
  delete_ends h id :=
    (ends_call_unplanned (h.1 _) (LawfulPool.delete_ends h.2 id)).mono fun _ _ ht =>
      Op.Answers.imp ht.2 (fun _ hb => ⟨ht.1 ▸ h.1, hb⟩) fun _ he => ⟨he.1, ht.1 ▸ h.1, he.2⟩
  read_eq h _ hg := ReadablePool.read_eq h.2 hg
  write_kept h _ hg haccess page := ⟨h.1, LawfulPool.write_kept h.2 hg haccess page⟩
  release_ends {u _ _ _} h := (ends_onPool _ u _).mpr <|
    (ReadablePool.release_ends h.2).mono fun _ _ ht => ⟨h.1, ht⟩
  release_spent g u := ReadablePool.release_spent g u.pool

section

variable [PagePool σ γ] [LawfulPool σ γ] [UncountedPool σ γ]

-- Any page may be refused now.
def Failing (guards : List γ) (w : Ledger) (e : StoreError) (s : σ) : Prop :=
  (¬ e.OfIndex ∧ True) ∧ ReadablePool.Kept s guards w.refuse

instance : LawfulPool (Unreliable σ) γ where
  access := ReadablePool.access σ
  Kept u := ReadablePool.Kept u.pool
  Spent u := ReadablePool.Spent u.pool
  Refuses _ := True
  fetch_ends {_ guards w} h _ _ hp _ hadmits := ends_call (F := Failing guards w)
    (ReadablePool.fetch_ends h hp hadmits) (fun _ _ he => ⟨⟨he.1.1, trivial⟩, he.2⟩)
    fun _ he => ⟨⟨he, trivial⟩, UncountedPool.refuse_kept h⟩
  allocate_ends {_ guards w} h := ends_call (F := Failing guards w) (LawfulPool.allocate_ends h)
    (fun _ _ he => ⟨⟨he.1.1, trivial⟩, he.2⟩)
    fun _ he => ⟨⟨he, trivial⟩, UncountedPool.refuse_kept h⟩
  delete_ends h id := ends_call (LawfulPool.delete_ends h id) (fun _ _ he => he)
    fun _ he => ⟨he, h⟩
  read_eq h _ hg := ReadablePool.read_eq h hg
  write_kept h _ hg haccess page := LawfulPool.write_kept h hg haccess page
  release_ends h := ReadablePool.release_ends h
  release_spent g u := ReadablePool.release_spent g u.pool

instance [ProbedPool σ γ] : ProbedPool (Unreliable σ) γ where
  fetch_any {_ guards w} h id _ hadmits := ends_call (F := Failing guards w)
    (ProbedPool.fetch_any (σ := σ) h id hadmits) (fun _ _ he => ⟨⟨he.1.1, trivial⟩, he.2⟩)
    fun _ he => ⟨⟨he, trivial⟩, UncountedPool.refuse_kept h⟩

end

end Unreliable

end PagedIndex
