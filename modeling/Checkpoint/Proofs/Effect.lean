import Checkpoint.Stream

/-! What an action guarantees from a state: one condition on its result and one on its failure.
Each combinator has a law that takes it apart. -/

namespace Checkpoint

theorem bind_eq_error {ε α β : Type} {x : Except ε α} {f : α → Except ε β} {e : ε} :
    (x >>= f) = .error e ↔ x = .error e ∨ ∃ a, x = .ok a ∧ f a = .error e := by
  cases x <;> simp [bind, Except.bind]

theorem mapError_eq_ok {ε ε' α : Type} {x : Except ε α} {f : ε → ε'} {a : α} :
    x.mapError f = .ok a ↔ x = .ok a := by
  cases x <;> constructor <;> intro h <;> cases h
  · rfl
  · rfl

theorem mapM_eq_ok {ε α β : Type} {f : α → Except ε β} {g : α → β} {items : List α}
    (h : ∀ a ∈ items, f a = .ok (g a)) : items.mapM f = .ok (items.map g) := by
  induction items with
  | nil => rfl
  | cons a items ih =>
    rw [List.forall_mem_cons] at h
    rw [List.mapM_cons, h.1, ih h.2]
    rfl

/-- A computation of whose result something can be told has one. -/
theorem exists_ok_of_map {ε α β : Type} {x : Except ε α} {f : α → β} {b : β}
    (h : x.toOption.map f = some b) : ∃ a, x = .ok a ∧ f a = b := by
  cases x with
  | error e => cases h
  | ok a => exact ⟨a, rfl, Option.some.inj h⟩

theorem exists_done_of_map {ε σ α β : Type} {x : Except ε α × σ} {f : α → β} {b : β}
    (h : x.1.toOption.map f = some b) : ∃ a t, x = (.ok a, t) ∧ f a = b := by
  obtain ⟨a, done, found⟩ := exists_ok_of_map h
  exact ⟨a, x.2, Prod.ext done rfl, found⟩

/-- What a computation gives: one condition on its result and one on its failure. -/
def Gives {ε α : Type} (x : Except ε α) (P : α → Prop) (E : ε → Prop) : Prop :=
  match x with
  | .ok a => P a
  | .error e => E e

section Gives

variable {ε ε' α β : Type} {x : Except ε α} {P P' : α → Prop} {Q : β → Prop} {E E' : ε → Prop}

theorem Gives.mono (h : Gives x P E) (hP : ∀ a, P a → P' a) (hE : ∀ e, E e → E' e) :
    Gives x P' E' := by
  cases x with
  | ok a => exact hP a h
  | error e => exact hE e h

theorem Gives.bind {f : α → Except ε β} (h : Gives x P E) (next : ∀ a, P a → Gives (f a) Q E) :
    Gives (x >>= f) Q E := by
  cases x with
  | ok a => exact next a h
  | error e => exact h

theorem Gives.mapError {f : ε → ε'} {E : ε' → Prop} (h : Gives x P fun e => E (f e)) :
    Gives (x.mapError f) P E := by
  cases x with
  | ok a => exact h
  | error e => exact h

theorem Gives.of_ok {a : α} (h : Gives x P E) (hx : x = .ok a) : P a := by
  subst hx
  exact h

theorem Gives.of_error {e : ε} (h : Gives x P E) (hx : x = .error e) : E e := by
  subst hx
  exact h

end Gives

namespace Effect

variable {σ τ α β : Type} {s : σ} {x : Effect σ α} {Q Q' : α → σ → Prop} {E E' : Error → σ → Prop}

def Ensures (x : Effect σ α) (s : σ) (Q : α → σ → Prop) (E : Error → σ → Prop) : Prop :=
  match x s with
  | .ok a t => Q a t
  | .error e t => E e t

theorem Ensures.mono (h : x.Ensures s Q E) (hQ : ∀ a t, Q a t → Q' a t)
    (hE : ∀ e t, E e t → E' e t) : x.Ensures s Q' E' := by
  unfold Ensures at *
  split <;> simp_all

theorem Ensures.post (h : x.Ensures s Q E) (hQ : ∀ a t, Q a t → Q' a t) : x.Ensures s Q' E :=
  h.mono hQ fun _ _ he => he

theorem Ensures.and (h : x.Ensures s Q E) (h' : x.Ensures s Q' E') :
    x.Ensures s (fun a t => Q a t ∧ Q' a t) (fun e t => E e t ∧ E' e t) := by
  unfold Ensures at *
  split <;> simp_all

theorem ensures_congr {y : Effect σ α} {t : σ} (h : x s = y t) :
    x.Ensures s Q E ↔ y.Ensures t Q E := by
  simp only [Ensures, h]

theorem ensures_of_ok {a : α} {t : σ} (h : x s = .ok a t) (hQ : Q a t) : x.Ensures s Q E := by
  simpa only [Ensures, h] using hQ

theorem ensures_of_error {e : Error} {t : σ} (h : x s = .error e t) (hE : E e t) :
    x.Ensures s Q E := by
  simpa only [Ensures, h] using hE

@[simp] theorem ensures_pure (a : α) : Ensures (pure a : Effect σ α) s Q E ↔ Q a s := Iff.rfl

@[simp] theorem ensures_bind (f : α → Effect σ β) {Q : β → σ → Prop} :
    Ensures (x >>= f) s Q E ↔ x.Ensures s (fun a t => (f a).Ensures t Q E) E := by
  simp only [Ensures, bind, EStateM.bind]
  cases x s <;> rfl

@[simp] theorem ensures_map (f : α → β) {Q : β → σ → Prop} :
    Ensures (f <$> x) s Q E ↔ x.Ensures s (fun a t => Q (f a) t) E := by
  simp only [Ensures, Functor.map, EStateM.map]
  cases x s <;> rfl

@[simp] theorem ensures_discard {Q : PUnit → σ → Prop} :
    Ensures (discard x) s Q E ↔ x.Ensures s (fun _ => Q ⟨⟩) E :=
  ensures_map fun _ => PUnit.unit

@[simp] theorem ensures_throw (e : Error) : Ensures (throw e : Effect σ α) s Q E ↔ E e s := Iff.rfl

@[simp] theorem ensures_get {Q : σ → σ → Prop} :
    Ensures (get : Effect σ σ) s Q E ↔ Q s s := Iff.rfl

@[simp] theorem ensures_set (t : σ) {Q : PUnit → σ → Prop} :
    Ensures (set t : Effect σ PUnit) s Q E ↔ Q ⟨⟩ t := Iff.rfl

@[simp] theorem ensures_modify (f : σ → σ) {Q : PUnit → σ → Prop} :
    Ensures (modify f : Effect σ PUnit) s Q E ↔ Q ⟨⟩ (f s) := Iff.rfl

@[simp] theorem ensures_ofExcept_ok (a : α) :
    Ensures (ofExcept (.ok a) : Effect σ α) s Q E ↔ Q a s := Iff.rfl

@[simp] theorem ensures_ofExcept_error (e : Error) :
    Ensures (ofExcept (.error e) : Effect σ α) s Q E ↔ E e s := Iff.rfl

theorem ensures_ofExcept {r : Except Error α} (hQ : ∀ a, r = .ok a → Q a s)
    (hE : ∀ e, r = .error e → E e s) : Ensures (ofExcept r) s Q E := by
  cases r with
  | ok a => exact hQ a rfl
  | error e => exact hE e rfl

/-- A check is passed and the action goes on, or it fails there. -/
theorem ensures_check {r : Except Error α} {f : α → Effect σ β} {Q : β → σ → Prop}
    (refused : ∀ e, r = .error e → E e s) (passed : ∀ a, r = .ok a → (f a).Ensures s Q E) :
    (ofExcept r >>= f).Ensures s Q E :=
  (ensures_bind f).2 (ensures_ofExcept passed refused)

theorem tryCatch_of_ok {a : α} {t : σ} (h : x s = .ok a t) (handle : Error → Effect σ α) :
    (tryCatch x handle : Effect σ α) s = .ok a t := by
  change EStateM.tryCatch x handle s = _
  delta EStateM.tryCatch
  dsimp only
  rw [h]

theorem tryCatch_of_error {e : Error} {t : σ} (h : x s = .error e t) (handle : Error → Effect σ α) :
    (tryCatch x handle : Effect σ α) s = handle e t := by
  change EStateM.tryCatch x handle s = _
  delta EStateM.tryCatch
  dsimp only
  rw [h]
  rfl

theorem ensures_tryCatch (handle : Error → Effect σ α) :
    Ensures (tryCatch x handle) s Q E ↔ x.Ensures s Q (fun e t => (handle e).Ensures t Q E) := by
  unfold Ensures
  cases h : x s with
  | ok a t => rw [tryCatch_of_ok h]
  | error e t => rw [tryCatch_of_error h]

theorem ensures_focus {part : σ → τ} {restore : τ → σ → σ} {x : Effect τ α} :
    Ensures (focus part restore x) s Q E ↔
      x.Ensures (part s) (fun a t => Q a (restore t s)) (fun e t => E e (restore t s)) := by
  simp only [Ensures, focus]
  cases x (part s) <;> rfl

/-- The failure of the cleanup is that of the whole. -/
theorem ensures_andFinally {cleanup : Effect σ Unit} :
    Ensures (andFinally x cleanup) s Q E ↔
      x.Ensures s (fun a t => cleanup.Ensures t (fun _ u => Q a u) E)
        (fun e t => cleanup.Ensures t (fun _ u => E e u) E) := by
  simp only [andFinally, outcome, ensures_bind, ensures_tryCatch, ensures_map, ensures_pure,
    ensures_ofExcept_ok, ensures_ofExcept_error]

theorem outcome_of_ok {a : α} {t : σ} (h : x s = .ok a t) : outcome x s = .ok (.ok a) t := by
  apply tryCatch_of_ok
  simp only [Functor.map, EStateM.map, h]

theorem outcome_of_error {e : Error} {t : σ} (h : x s = .error e t) : outcome x s = .ok (.error e) t := by
  apply tryCatch_of_error
  simp only [Functor.map, EStateM.map, h]

theorem andFinally_of_ok {cleanup : Effect σ Unit} {a : α} {t u : σ} (h : x s = .ok a t)
    (cleaned : cleanup t = .ok ⟨⟩ u) : andFinally x cleanup s = .ok a u := by
  unfold andFinally
  simp only [bind, EStateM.bind, outcome_of_ok h, cleaned]
  rfl

theorem andFinally_of_error {cleanup : Effect σ Unit} {e : Error} {t u : σ} (h : x s = .error e t)
    (cleaned : cleanup t = .ok ⟨⟩ u) : andFinally x cleanup s = .error e u := by
  unfold andFinally
  simp only [bind, EStateM.bind, outcome_of_error h, cleaned]
  rfl

theorem ensures_describing {describe : Text → StreamError}
    (h : x.Ensures s Q fun e t => E e t ∧ ∀ reason, e ≠ .rawStream reason) :
    Ensures (describing describe x) s Q E := by
  unfold describing
  rw [ensures_tryCatch]
  apply h.mono (fun _ _ h => h)
  intro e t ⟨he, raw⟩
  split
  · next reason => exact absurd rfl (raw reason)
  · exact (ensures_throw _).2 he

/-- A loop that only goes on is the same as its actions in turn. -/
theorem forIn_eq_forM {items : List α} (f : α → Effect σ PUnit) :
    (forIn items PUnit.unit fun item _ => f item >>= fun _ => pure (ForInStep.yield PUnit.unit)) =
      items.forM f := by
  induction items with
  | nil => rfl
  | cons item items ih =>
    rw [List.forIn_cons, bind_assoc]
    simp only [pure_bind, ih]
    rfl

theorem ensures_forM_cons {item : α} {items : List α} {f : α → Effect σ PUnit}
    {Q : PUnit → σ → Prop} : Ensures ((item :: items).forM f) s Q E ↔
      (f item).Ensures s (fun _ t => Ensures (items.forM f) t Q E) E :=
  ensures_bind _

theorem bind_of_ok {a : α} {t : σ} (h : x s = .ok a t) (f : α → Effect σ β) : (x >>= f) s = f a t := by
  simp only [bind, EStateM.bind, h]

theorem bind_of_error {e : Error} {t : σ} (h : x s = .error e t) (f : α → Effect σ β) :
    (x >>= f) s = .error e t := by
  simp only [bind, EStateM.bind, h]

theorem perform_eq_ok {a : α} {t : σ} : x.perform s = (.ok a, t) ↔ x s = .ok a t := by
  simp only [perform]
  cases x s <;> simp

theorem perform_eq_error {e : Error} {t : σ} : x.perform s = (.error e, t) ↔ x s = .error e t := by
  simp only [perform]
  cases x s <;> simp

@[simp] theorem perform_pure (a : α) : (pure a : Effect σ α).perform s = (.ok a, s) := rfl

theorem get_eq (s : σ) : (get : Effect σ σ) s = .ok s s := rfl

theorem perform_get (s : σ) : (get : Effect σ σ).perform s = (.ok s, s) := rfl

theorem perform_bind_eq_ok {f : α → Effect σ β} {b : β} {t : σ} :
    (x >>= f).perform s = (.ok b, t) ↔
      ∃ a u, x.perform s = (.ok a, u) ∧ (f a).perform u = (.ok b, t) := by
  simp only [perform_eq_ok, bind, EStateM.bind]
  cases x s <;> simp [and_assoc]

theorem perform_bind (x : Effect σ α) (f : α → Effect σ β) (s : σ) :
    (x >>= f).perform s = match x.perform s with
      | (.ok a, t) => (f a).perform t
      | (.error e, t) => (.error e, t) := by
  simp only [perform, bind, EStateM.bind]
  cases x s <;> rfl

theorem fst_perform_bind_pure (x : Effect σ α) (f : α → β) (s : σ) :
    ((x >>= fun a => pure (f a)).perform s).1 = (x.perform s).1 >>= fun a => pure (f a) := by
  rw [perform_bind]
  cases x.perform s with
  | mk r t => cases r <;> rfl

theorem perform_ofExcept (r : Except Error α) (s : σ) : (ofExcept r).perform s = (r, s) := by
  cases r <;> rfl

/-- What is done twice the same comes to the same. -/
theorem eq_of_perform {y : Effect σ α} {t : σ} (h : x.perform s = y.perform t) : x s = y t := by
  cases hx : x s with
  | ok => exact (perform_eq_ok.1 (h.symm.trans (perform_eq_ok.2 hx))).symm
  | error => exact (perform_eq_error.1 (h.symm.trans (perform_eq_error.2 hx))).symm

theorem perform_discard_eq_ok {t : σ} :
    (discard x).perform s = (.ok ⟨⟩, t) ↔ ∃ a, x.perform s = (.ok a, t) := by
  have same : discard x = x >>= fun _ => pure PUnit.unit := rfl
  rw [same, perform_bind_eq_ok]
  simp only [perform_pure, Prod.mk.injEq, true_and, exists_eq_right]

theorem perform_describing_eq_ok {describe : Text → StreamError} {a : α} {t : σ} :
    (describing describe x).perform s = (.ok a, t) ↔ x.perform s = (.ok a, t) := by
  rw [perform_eq_ok, perform_eq_ok, describing]
  cases h : x s with
  | ok b u => rw [tryCatch_of_ok h]
  | error e u =>
    rw [tryCatch_of_error h]
    constructor
    · intro done
      split at done <;> cases done
    · intro done
      cases done

theorem perform_ofExcept_eq_ok {r : Except Error α} {a : α} {t : σ} :
    (ofExcept r : Effect σ α).perform s = (.ok a, t) ↔ r = .ok a ∧ t = s := by
  rw [perform_eq_ok]
  cases r with
  | ok _ =>
    change EStateM.Result.ok _ _ = _ ↔ _
    simp only [EStateM.Result.ok.injEq, Except.ok.injEq, eq_comm]
  | error _ => exact ⟨nofun, nofun⟩

theorem perform_bind_eq_error {f : α → Effect σ β} {e : Error} {t : σ} :
    (x >>= f).perform s = (.error e, t) ↔ x.perform s = (.error e, t) ∨
      ∃ a u, x.perform s = (.ok a, u) ∧ (f a).perform u = (.error e, t) := by
  simp only [perform_eq_ok, perform_eq_error, bind, EStateM.bind]
  cases x s <;> simp [and_assoc]

theorem perform_focus {part : σ → τ} {restore : τ → σ → σ} {x : Effect τ α} :
    (focus part restore x).perform s =
      ((x.perform (part s)).1, restore (x.perform (part s)).2 s) := by
  simp only [perform, focus]
  cases x (part s) <;> rfl

theorem exists_of_focus {part : σ → τ} {restore : τ → σ → σ} {x : Effect τ α} {r : Except Error α}
    {s' : σ} (h : (focus part restore x).perform s = (r, s')) :
    ∃ t, x.perform (part s) = (r, t) ∧ s' = restore t s := by
  rw [perform_focus, Prod.mk.injEq] at h
  exact ⟨_, Prod.ext h.1 rfl, h.2.symm⟩

theorem perform_andFinally {cleanup : Effect σ Unit} {u : σ}
    (cleaned : cleanup.perform (x.perform s).2 = (.ok ⟨⟩, u)) :
    (andFinally x cleanup).perform s = ((x.perform s).1, u) := by
  rw [perform_eq_ok] at cleaned
  cases hx : x s with
  | ok a t =>
    have left : x.perform s = (.ok a, t) := perform_eq_ok.2 hx
    rw [left] at cleaned ⊢
    exact perform_eq_ok.2 (andFinally_of_ok hx cleaned)
  | error e t =>
    have left : x.perform s = (.error e, t) := perform_eq_error.2 hx
    rw [left] at cleaned ⊢
    exact perform_eq_error.2 (andFinally_of_error hx cleaned)

theorem andFinally_congr {y : Effect σ α} (h : x.perform s = y.perform s) (cleanup : Effect σ Unit) :
    (andFinally x cleanup).perform s = (andFinally y cleanup).perform s := by
  have same : (outcome x).perform s = (outcome y).perform s := by
    have h := eq_of_perform h
    cases hx : x s with
    | ok => rw [perform_eq_ok.2 (outcome_of_ok hx), perform_eq_ok.2 (outcome_of_ok (h.symm.trans hx))]
    | error =>
      rw [perform_eq_ok.2 (outcome_of_error hx), perform_eq_ok.2 (outcome_of_error (h.symm.trans hx))]
  rw [andFinally, andFinally, perform_bind, perform_bind, same]

/-- What succeeds has succeeded before its cleanup, and so has the cleanup. -/
theorem exists_of_andFinally {cleanup : Effect σ Unit} {a : α} {u : σ}
    (h : (andFinally x cleanup).perform s = (.ok a, u)) :
    ∃ t, x.perform s = (.ok a, t) ∧ cleanup.perform t = (.ok ⟨⟩, u) := by
  rw [andFinally, perform_bind_eq_ok] at h
  obtain ⟨result, t, caught, h⟩ := h
  rw [perform_bind_eq_ok] at h
  obtain ⟨_, _, cleaned, h⟩ := h
  rw [perform_ofExcept_eq_ok] at h
  obtain ⟨rfl, rfl⟩ := h
  refine ⟨t, ?_, cleaned⟩
  rw [perform_eq_ok] at caught ⊢
  cases hx : x s with
  | ok a' t' =>
    cases (outcome_of_ok hx).symm.trans caught
    rfl
  | error e t' => cases (outcome_of_error hx).symm.trans caught

theorem Ensures.of_ok (h : x.Ensures s Q E) {a : α} {t : σ} (hx : x.perform s = (.ok a, t)) :
    Q a t := by
  simpa [Ensures, perform_eq_ok.1 hx] using h

theorem Ensures.of_error (h : x.Ensures s Q E) {e : Error} {t : σ}
    (hx : x.perform s = (.error e, t)) : E e t := by
  simpa [Ensures, perform_eq_error.1 hx] using h

theorem Ensures.exists_ok (h : x.Ensures s Q fun _ _ => False) :
    ∃ a t, x.perform s = (.ok a, t) ∧ Q a t := by
  cases hx : x.perform s with
  | mk result t =>
    cases result with
    | ok a => exact ⟨a, t, rfl, h.of_ok hx⟩
    | error e => exact (h.of_error hx).elim

theorem ensures_of_forall (hQ : ∀ a t, Q a t) (hE : ∀ e t, E e t) : x.Ensures s Q E := by
  unfold Ensures
  split
  · exact hQ _ _
  · exact hE _ _

/-- An action does not succeed from a state. -/
def Fails (x : Effect σ α) (s : σ) : Prop := x.Ensures s (fun _ _ => False) fun _ _ => True

theorem Fails.ne_ok (h : x.Fails s) (a : α) (t : σ) : x.perform s ≠ (.ok a, t) :=
  fun hx => Ensures.of_ok h hx

theorem fails_throw (e : Error) : (throw e : Effect σ α).Fails s := (ensures_throw e).2 trivial

theorem fails_ofExcept {r : Except Error α} (h : ∀ a, r ≠ .ok a) : (ofExcept r).Fails s :=
  ensures_ofExcept (fun a hr => h a hr) fun _ _ => trivial

theorem Fails.bind (h : x.Fails s) (f : α → Effect σ β) : (x >>= f).Fails s :=
  (ensures_bind f).2 (Ensures.mono h (fun _ _ => False.elim) fun _ _ h => h)

theorem fails_bind {f : α → Effect σ β} (h : ∀ a t, (f a).Fails t) : (x >>= f).Fails s :=
  (ensures_bind f).2 (ensures_of_forall h fun _ _ => trivial)

theorem Fails.focus {part : σ → τ} {restore : τ → σ → σ} {x : Effect τ α} (h : x.Fails (part s)) :
    (focus part restore x).Fails s :=
  ensures_focus.2 h

theorem Fails.describing (h : x.Fails s) (describe : Text → StreamError) :
    (describing describe x).Fails s := by
  unfold Effect.describing Fails
  rw [ensures_tryCatch]
  apply Ensures.mono h fun _ _ => False.elim
  intro e t _
  split
  · exact fails_throw _
  · exact fails_throw _

/-- A cleanup does not make up for a failure. -/
theorem Fails.andFinally (h : x.Fails s) (cleanup : Effect σ Unit) :
    (andFinally x cleanup).Fails s :=
  ensures_andFinally.2 (Ensures.mono h (fun _ _ => False.elim)
    fun _ _ _ => ensures_of_forall (fun _ _ => trivial) fun _ _ => trivial)

attribute [irreducible] Ensures

end Effect

end Checkpoint
