import PagedIndex.Proofs.Directory.Verdict

namespace PagedIndex

-- The computation fails only so.
def Checked.FailsAs {α : Type} (E : Failure → Prop) (x : Checked α) : Prop :=
  ∀ f, x = .error f → E f

namespace Checked

variable {α β : Type} {E : Failure → Prop} {x : Checked α}

theorem FailsAs.ne (hx : x.FailsAs E) {f : Failure} (hf : ¬ E f) : x ≠ .error f :=
  fun h => hf (hx f h)

theorem failsAs_pure (a : α) : FailsAs E (pure a : Checked α) := nofun

theorem failsAs_error {f : Failure} (hf : E f) : FailsAs E (.error f : Checked α) :=
  fun _ h => Except.error.inj h ▸ hf

theorem failsAs_require {p : Prop} [Decidable p] {a : Abort} (ha : E (.abort a)) :
    FailsAs E (require p a) := by
  unfold require
  split
  · exact failsAs_pure ()
  · exact failsAs_error ha

theorem FailsAs.bind {f : α → Checked β} (hx : x.FailsAs E) (hf : ∀ a, (f a).FailsAs E) :
    (x >>= f).FailsAs E := by
  cases x with
  | ok a => exact hf a
  | error e => exact failsAs_error (hx e rfl)

-- What is required before an answer.
theorem failsAs_required {p : Prop} [Decidable p] {a : Abort} {answer : α} (ha : E (.abort a)) :
    FailsAs E (do require p a; return answer) :=
  (failsAs_require ha).bind fun _ => failsAs_pure answer

end Checked

namespace Directory

open Checked

def Fails : Failure → Prop
  | .abort .overflow | .abort .outOfRange | .error (.indexFull _) | .error (.corrupted _) => True
  | _ => False

variable (d : Directory)

theorem bucket_fails (i : Nat) : (d.bucket i).FailsAs Fails := failsAs_required trivial

theorem localDepth_fails (i : Nat) : (d.localDepth i).FailsAs Fails := failsAs_required trivial

theorem slotOf_fails (hash : UInt32) : (d.slotOf hash).FailsAs Fails := failsAs_required trivial

theorem checkedSize_fails : d.checkedSize.FailsAs Fails := failsAs_required trivial

theorem checkedBucketIds_fails : d.checkedBucketIds.FailsAs Fails := failsAs_required trivial

theorem repoint_fails (old new : PageId) (depth : Nat) : (d.repoint old new depth).FailsAs Fails :=
  failsAs_required trivial

theorem divide_fails (old new : PageId) (depth : Nat) : (d.divide old new depth).FailsAs Fails :=
  (failsAs_require trivial).bind fun _ => failsAs_required trivial

theorem grow_fails : d.grow.FailsAs Fails := by
  unfold grow
  split
  · exact failsAs_error trivial
  · exact failsAs_pure _

theorem buddy_fails (i : Nat) : (d.buddy i).FailsAs Fails := by
  refine (d.localDepth_fails i).bind fun depth => ?_
  cases depth with
  | zero => exact failsAs_pure _
  | succ depth => exact failsAs_required trivial

theorem verify_fails : d.verify.FailsAs Fails := by
  rcases d.verify_outcome with ⟨hok, _⟩ | ⟨_, cause, hcause⟩
  · rw [hok]
    exact failsAs_pure ()
  · rw [hcause]
    exact failsAs_error trivial

theorem shrink_fails : d.shrink.FailsAs Fails := by
  unfold shrink
  split
  · exact failsAs_pure _
  · exact failsAs_required trivial

theorem canShrink_fails : d.canShrink.FailsAs Fails := by
  unfold canShrink
  split
  · exact failsAs_pure _
  · refine d.checkedSize_fails.bind fun size => ?_
    split
    · exact failsAs_required trivial
    · exact failsAs_pure _

theorem shrinkUpTo_fails (n : Nat) : (shrinkUpTo n d).FailsAs Fails := by
  induction n generalizing d with
  | zero => exact failsAs_pure _
  | succ n ih =>
    refine d.canShrink_fails.bind fun shrinks => ?_
    split
    · exact d.shrink_fails.bind ih
    · exact failsAs_pure _

theorem bucketFor_fails (p : Page) (hash : UInt32) : (bucketFor p hash).FailsAs Fails :=
  (failsAs_require trivial).bind fun _ => failsAs_required trivial

end Directory

end PagedIndex
