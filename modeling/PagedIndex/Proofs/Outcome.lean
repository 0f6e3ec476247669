import PagedIndex.Op

namespace PagedIndex

-- A computation comes out with an answer, an error or an abort.
@[elab_as_elim]
theorem Checked.outcomes {α : Type} {motive : Checked α → Prop} (ok : ∀ a, motive (.ok a))
    (error : ∀ e, motive (.error (.error e))) (abort : ∀ a, motive (.error (.abort a)))
    (r : Checked α) : motive r := by
  rcases r with (e | a) | a
  · exact error e
  · exact abort a
  · exact ok a

namespace Op

variable {σ τ ρ α β : Type}

def Ends (x : Op σ α) (s : σ) (Q : Checked α → σ → Prop) : Prop := Q (x s).result (x s).state

-- After an answer `f` goes on. A failure is final.
def Then (f : α → Op σ β) (Q : Checked β → σ → Prop) : Checked α → σ → Prop
  | .ok a, t => (f a).Ends t Q
  | .error e, t => Q (.error e) t

-- What `attempt` has to establish after the attempted operation.
def Attempted (Q : Checked (Except StoreError α) → σ → Prop) : Checked α → σ → Prop
  | .ok a, t => Q (.ok (.ok a)) t
  | .error (.error e), t => Q (.ok (.error e)) t
  | .error (.abort a), t => Q (.error (.abort a)) t

-- `P` holds after an answer, `E` after an error and `A` after an abort.
def AnswersOr (A : σ → Prop) (P : α → σ → Prop) (E : StoreError → σ → Prop) : Checked α → σ → Prop
  | .ok a, t => P a t
  | .error (.error e), t => E e t
  | .error (.abort _), t => A t

-- As before, of an operation that does not abort.
abbrev Answers (P : α → σ → Prop) (E : StoreError → σ → Prop) : Checked α → σ → Prop :=
  AnswersOr (fun _ => False) P E

@[simp] theorem then_ok (f : α → Op σ β) (Q : Checked β → σ → Prop) (a : α) (t : σ) :
    Then f Q (.ok a) t ↔ (f a).Ends t Q := Iff.rfl

@[simp] theorem then_error (f : α → Op σ β) (Q : Checked β → σ → Prop) (e : Failure) (t : σ) :
    Then f Q (.error e) t ↔ Q (.error e) t := Iff.rfl

@[simp] theorem attempted_ok (Q : Checked (Except StoreError α) → σ → Prop) (a : α) (t : σ) :
    Attempted Q (.ok a) t ↔ Q (.ok (.ok a)) t := Iff.rfl

@[simp] theorem attempted_error (Q : Checked (Except StoreError α) → σ → Prop) (e : StoreError)
    (t : σ) : Attempted Q (.error (.error e)) t ↔ Q (.ok (.error e)) t := Iff.rfl

@[simp] theorem attempted_abort (Q : Checked (Except StoreError α) → σ → Prop) (a : Abort)
    (t : σ) : Attempted Q (.error (.abort a)) t ↔ Q (.error (.abort a)) t := Iff.rfl

@[simp] theorem answersOr_ok (A : σ → Prop) (P : α → σ → Prop) (E : StoreError → σ → Prop) (a : α)
    (t : σ) : AnswersOr A P E (.ok a) t ↔ P a t := Iff.rfl

@[simp] theorem answersOr_error (A : σ → Prop) (P : α → σ → Prop) (E : StoreError → σ → Prop)
    (e : StoreError) (t : σ) : AnswersOr A P E (.error (.error e)) t ↔ E e t := Iff.rfl

@[simp] theorem answersOr_abort (A : σ → Prop) (P : α → σ → Prop) (E : StoreError → σ → Prop)
    (a : Abort) (t : σ) : AnswersOr A P E (.error (.abort a)) t ↔ A t := Iff.rfl

theorem AnswersOr.imp {A : σ → Prop} {P : α → σ → Prop} {E : StoreError → σ → Prop} {A' : τ → Prop}
    {P' : α → τ → Prop} {E' : StoreError → τ → Prop} {r : Checked α} {t : σ} {u : τ}
    (h : AnswersOr A P E r t) (ha : A t → A' u) (hp : ∀ a, P a t → P' a u)
    (he : ∀ e, E e t → E' e u) : AnswersOr A' P' E' r u := by
  cases r using Checked.outcomes with
  | ok a => exact hp a h
  | error e => exact he e h
  | abort a => exact ha h

theorem Answers.imp {A : τ → Prop} {P : α → σ → Prop} {E : StoreError → σ → Prop} {P' : α → τ → Prop}
    {E' : StoreError → τ → Prop} {r : Checked α} {t : σ} {u : τ} (h : Answers P E r t)
    (hp : ∀ a, P a t → P' a u) (he : ∀ e, E e t → E' e u) : AnswersOr A P' E' r u :=
  AnswersOr.imp h False.elim hp he

theorem Ends.mono {x : Op σ α} {s : σ} {P Q : Checked α → σ → Prop} (h : x.Ends s P)
    (hpq : ∀ r t, P r t → Q r t) : x.Ends s Q := hpq _ _ h

theorem ends_congr {x : Op σ α} {s : σ} {P Q : Checked α → σ → Prop}
    (h : ∀ r t, P r t ↔ Q r t) : x.Ends s P ↔ x.Ends s Q := h _ _

theorem ends_of_forall {x : Op σ α} {s : σ} {Q : Checked α → σ → Prop} (h : ∀ r t, Q r t) :
    x.Ends s Q := h _ _

theorem Ends.and {x : Op σ α} {s : σ} {P Q : Checked α → σ → Prop} (hp : x.Ends s P)
    (hq : x.Ends s Q) : x.Ends s fun r t => P r t ∧ Q r t := ⟨hp, hq⟩

@[simp] theorem ends_pure (a : α) (s : σ) (Q : Checked α → σ → Prop) :
    (Pure.pure a : Op σ α).Ends s Q ↔ Q (.ok a) s := Iff.rfl

@[simp] theorem ends_bind (x : Op σ α) (f : α → Op σ β) (s : σ) (Q : Checked β → σ → Prop) :
    (x >>= f).Ends s Q ↔ x.Ends s (Then f Q) := by
  simp only [Ends, bind_run]
  cases x s with
  | mk result t events => cases result <;> rfl

@[simp] theorem ends_map (f : α → β) (x : Op σ α) (s : σ) (Q : Checked β → σ → Prop) :
    (f <$> x).Ends s Q ↔ x.Ends s (Then (fun a => Pure.pure (f a)) Q) := by
  rw [map_eq_pure_bind, ends_bind]

theorem result_map (f : α → β) (x : Op σ α) (s : σ) :
    ((f <$> x) s).result = (x s).result.map f := by
  have hends : (f <$> x).Ends s fun r _ => r = (x s).result.map f := by
    rw [ends_map, Ends]
    cases (x s).result <;> rfl
  exact hends

theorem state_map (f : α → β) (x : Op σ α) (s : σ) : ((f <$> x) s).state = (x s).state := by
  have hends : (f <$> x).Ends s fun _ t => t = (x s).state := by
    rw [ends_map, Ends]
    cases (x s).result <;> rfl
  exact hends

@[simp] theorem ends_discard (x : Op σ α) (s : σ) (Q : Checked Unit → σ → Prop) :
    (discard x).Ends s Q ↔ x.Ends s (Then (fun _ => Pure.pure ()) Q) := by
  rw [Functor.discard, Functor.mapConst]
  exact ends_map _ x s Q

@[simp] theorem ends_liftM (x : Checked α) (s : σ) (Q : Checked α → σ → Prop) :
    (liftM x : Op σ α).Ends s Q ↔ Q x s := Iff.rfl

@[simp] theorem ends_require (p : Prop) [Decidable p] (a : Abort) (s : σ)
    (Q : Checked Unit → σ → Prop) :
    (liftM (Checked.require p a) : Op σ Unit).Ends s Q ↔
      if p then Q (.ok ()) s else Q (.error (.abort a)) s := by
  unfold Checked.require
  split <;> rfl

@[simp] theorem ends_ofChecked (x : Checked α) (s : σ) (Q : Checked α → σ → Prop) :
    (ofChecked x : Op σ α).Ends s Q ↔ Q x s := Iff.rfl

@[simp] theorem ends_fail (e : StoreError) (s : σ) (Q : Checked α → σ → Prop) :
    (fail e : Op σ α).Ends s Q ↔ Q (.error (.error e)) s := Iff.rfl

@[simp] theorem ends_abort (a : Abort) (s : σ) (Q : Checked α → σ → Prop) :
    (abort a : Op σ α).Ends s Q ↔ Q (.error (.abort a)) s := Iff.rfl

@[simp] theorem ends_report (e : Event) (s : σ) (Q : Checked Unit → σ → Prop) :
    (report e).Ends s Q ↔ Q (.ok ()) s := Iff.rfl

@[simp] theorem ends_observe (f : σ → α) (s : σ) (Q : Checked α → σ → Prop) :
    (observe f).Ends s Q ↔ Q (.ok (f s)) s := Iff.rfl

@[simp] theorem ends_update (f : σ → σ) (s : σ) (Q : Checked Unit → σ → Prop) :
    (update f).Ends s Q ↔ Q (.ok ()) (f s) := Iff.rfl

@[simp] theorem ends_attempt (x : Op σ α) (s : σ) (Q : Checked (Except StoreError α) → σ → Prop) :
    (attempt x).Ends s Q ↔ x.Ends s (Attempted Q) := by
  simp only [Ends, attempt]
  cases x s with
  | mk result t events =>
    cases result with
    | ok a => rfl
    | error e => cases e <;> rfl

@[simp] theorem ends_ensuring (body : Op σ α) (cleanup : Op σ Unit) (s : σ)
    (Q : Checked α → σ → Prop) :
    (body.ensuring cleanup).Ends s Q ↔ body.Ends s fun r t => cleanup.Ends t fun _ u => Q r u :=
  Iff.rfl

@[simp] theorem ends_zoom (split : τ → σ × ρ) (join : σ → ρ → τ) (x : Op σ α) (t : τ)
    (Q : Checked α → τ → Prop) :
    (x.zoom split join).Ends t Q ↔ x.Ends (split t).1 fun r s => Q r (join s (split t).2) :=
  Iff.rfl

-- A loop over a list, with what holds before each turn told by the elements that are left. A turn
-- that fails ends it.
theorem ends_forM {f : α → Op σ Unit} {I : List α → σ → Prop} {Q : Checked Unit → σ → Prop}
    (hturn : ∀ x xs s, I (x :: xs) s → (f x).Ends s fun
      | .ok _, t => I xs t
      | .error e, t => Q (.error e) t)
    (hend : ∀ s, I [] s → Q (.ok ()) s) (xs : List α) (s : σ) (hs : I xs s) :
    (xs.forM f).Ends s Q := by
  induction xs generalizing s with
  | nil => exact hend s hs
  | cons x xs ih =>
    change (f x >>= fun _ => xs.forM f).Ends s Q
    rw [ends_bind]
    refine (hturn x xs s hs).mono fun r t h => ?_
    cases r with
    | ok u => exact ih t h
    | error e => exact h

end Op

end PagedIndex
