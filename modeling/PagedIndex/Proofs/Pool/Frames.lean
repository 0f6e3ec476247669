import PagedIndex.Pool.EvictionQueue.Lemmas
import PagedIndex.Pool.Shard
import PagedIndex.Proofs.Outcome

namespace PagedIndex

namespace Mounted

variable {S D α : Type}

@[simp] theorem ends_observe (f : S → α) (m : Mounted S D) (Q : Checked α → Mounted S D → Prop) :
    (observe f : Op (Mounted S D) α).Ends m Q ↔ Q (.ok (f m.pool)) m := Iff.rfl

@[simp] theorem ends_update (f : S → S) (m : Mounted S D) (Q : Checked Unit → Mounted S D → Prop) :
    (update f).Ends m Q ↔ Q (.ok ()) ⟨f m.pool, m.store⟩ := Iff.rfl

@[simp] theorem ends_onStore (x : Op D α) (m : Mounted S D) (Q : Checked α → Mounted S D → Prop) :
    (onStore x).Ends m Q ↔ x.Ends m.store fun r d => Q r ⟨m.pool, d⟩ := Iff.rfl

end Mounted

namespace Shard

variable {n : Nat} {D : Type}

def setFree (free : List (Fin n)) (s : Shard n) : Shard n := { s with free }

def setQueue (queue : EvictionQueue (Fin n)) (s : Shard n) : Shard n := { s with queue }

def setNextId (nextId : Nat) (s : Shard n) : Shard n := { s with nextId }

section

variable (s : Shard n) (f f' : Fin n) (x : Frame) (g : Frame → Frame) (id : PageId)

@[simp] theorem frame_setFrame :
    (s.setFrame f x).frame f' = if f = f' then x else s.frame f' := by
  change (s.frames.set f x f.isLt)[f'] = if f = f' then x else s.frames[f']
  simp only [Fin.getElem_fin, Vector.getElem_set, Fin.ext_iff]

@[simp] theorem modifyFrame_eq_setFrame : s.modifyFrame f g = s.setFrame f (g (s.frame f)) := rfl

@[simp] theorem table_setFrame : (s.setFrame f x).table = s.table := rfl
@[simp] theorem free_setFrame : (s.setFrame f x).free = s.free := rfl
@[simp] theorem queue_setFrame : (s.setFrame f x).queue = s.queue := rfl
@[simp] theorem index_setFrame : (s.setFrame f x).index = s.index := rfl
@[simp] theorem count_setFrame : (s.setFrame f x).count = s.count := rfl
@[simp] theorem nextId_setFrame : (s.setFrame f x).nextId = s.nextId := rfl

@[simp] theorem frame_enter : (s.enter id f).frame f' = s.frame f' := rfl
@[simp] theorem table_enter : (s.enter id f).table = s.table.insert id f := rfl
@[simp] theorem free_enter : (s.enter id f).free = s.free := rfl
@[simp] theorem queue_enter : (s.enter id f).queue = s.queue := rfl
@[simp] theorem index_enter : (s.enter id f).index = s.index := rfl
@[simp] theorem count_enter : (s.enter id f).count = s.count := rfl
@[simp] theorem nextId_enter : (s.enter id f).nextId = s.nextId := rfl

@[simp] theorem frame_forget : (s.forget id).frame f' = s.frame f' := rfl
@[simp] theorem table_forget : (s.forget id).table = s.table.erase id := rfl
@[simp] theorem free_forget : (s.forget id).free = s.free := rfl
@[simp] theorem queue_forget : (s.forget id).queue = s.queue := rfl
@[simp] theorem index_forget : (s.forget id).index = s.index := rfl
@[simp] theorem count_forget : (s.forget id).count = s.count := rfl
@[simp] theorem nextId_forget : (s.forget id).nextId = s.nextId := rfl

end

section

variable (s : Shard n) (f f' : Fin n) (free : List (Fin n)) (queue : EvictionQueue (Fin n))
  (nextId : Nat)

@[simp] theorem frame_setFree : (s.setFree free).frame f' = s.frame f' := rfl
@[simp] theorem table_setFree : (s.setFree free).table = s.table := rfl
@[simp] theorem free_setFree : (s.setFree free).free = free := rfl
@[simp] theorem queue_setFree : (s.setFree free).queue = s.queue := rfl
@[simp] theorem index_setFree : (s.setFree free).index = s.index := rfl
@[simp] theorem count_setFree : (s.setFree free).count = s.count := rfl
@[simp] theorem nextId_setFree : (s.setFree free).nextId = s.nextId := rfl

@[simp] theorem frame_setQueue : (s.setQueue queue).frame f' = s.frame f' := rfl
@[simp] theorem table_setQueue : (s.setQueue queue).table = s.table := rfl
@[simp] theorem free_setQueue : (s.setQueue queue).free = s.free := rfl
@[simp] theorem queue_setQueue : (s.setQueue queue).queue = queue := rfl
@[simp] theorem index_setQueue : (s.setQueue queue).index = s.index := rfl
@[simp] theorem count_setQueue : (s.setQueue queue).count = s.count := rfl
@[simp] theorem nextId_setQueue : (s.setQueue queue).nextId = s.nextId := rfl

@[simp] theorem frame_setNextId : (s.setNextId nextId).frame f' = s.frame f' := rfl
@[simp] theorem table_setNextId : (s.setNextId nextId).table = s.table := rfl
@[simp] theorem free_setNextId : (s.setNextId nextId).free = s.free := rfl
@[simp] theorem queue_setNextId : (s.setNextId nextId).queue = s.queue := rfl
@[simp] theorem index_setNextId : (s.setNextId nextId).index = s.index := rfl
@[simp] theorem count_setNextId : (s.setNextId nextId).count = s.count := rfl
@[simp] theorem nextId_setNextId : (s.setNextId nextId).nextId = nextId := rfl

@[simp] theorem dequeue_eq_setQueue : s.dequeue f = s.setQueue (s.queue.remove f) := rfl
@[simp] theorem giveBack_eq_setFree : s.giveBack f = s.setFree (s.free ++ [f]) := rfl

end

section

variable (s : Shard n) (f : Fin n) (x y : Frame) (free : List (Fin n))
  (queue : EvictionQueue (Fin n)) (id other : PageId)

@[simp] theorem setFrame_setFrame : (s.setFrame f x).setFrame f y = s.setFrame f y := by
  simp [setFrame]

@[simp] theorem owns_setFrame : (s.setFrame f x).owns id = s.owns id := rfl
@[simp] theorem owns_enter : (s.enter other f).owns id = s.owns id := rfl
@[simp] theorem owns_forget : (s.forget other).owns id = s.owns id := rfl
@[simp] theorem owns_setFree : (s.setFree free).owns id = s.owns id := rfl
@[simp] theorem owns_setQueue : (s.setQueue queue).owns id = s.owns id := rfl

theorem owns_iff : s.owns id ↔
    id ≠ PageId.invalid ∧ id.number.toNat % s.count = s.index ∧ id.number.toNat < s.nextId := by
  simp [owns, PageId.isValid, and_assoc]

end

theorem isResident_of_table {s : Shard n} {id : PageId} {f : Fin n} (h : s.table[id]? = some f) :
    s.isResident id := by
  rw [isResident, Std.HashMap.contains_eq_isSome_getElem?, h]
  rfl

theorem setFrame_frame (s : Shard n) (f : Fin n) : s.setFrame f (s.frame f) = s := by
  have hframes : s.frames.set f (s.frame f) f.isLt = s.frames := Vector.set_getElem_self f.isLt
  rw [setFrame, hframes]

-- Marking a clean frame as clean changes nothing.
theorem setFrame_clean {s : Shard n} {f : Fin n} (h : (s.frame f).dirty = false) :
    s.setFrame f { s.frame f with dirty := false } = s := by
  rw [← h]
  exact setFrame_frame s f

theorem ends_enqueue (f : Fin n) (s : Shard n) (d : D)
    (Q : Checked Unit → Mounted (Shard n) D → Prop) :
    (enqueue f).Ends ⟨s, d⟩ Q ↔ Q (.ok ()) ⟨s.setQueue (s.queue.push f), d⟩ := by
  simp only [enqueue, Op.ends_bind, Mounted.ends_observe, Op.then_ok]
  split <;> rfl

end Shard

end PagedIndex
