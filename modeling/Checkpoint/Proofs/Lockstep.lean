import Checkpoint.Proofs.Effect

/-! Two runs in step.  A condition relates what two pieces of work come to from two states, where a failure
of the first may be excused; the laws put such conditions together. -/

namespace Checkpoint.Effect

variable {σ α β γ δ : Type} {s t : σ} {x : Effect σ α} {y : Effect σ β} {Q Q' : α → σ → β → σ → Prop}
  {excused : Error → Prop}

/-- Both are done, and related, or both fail alike, unless the first fails in a way that is excused. -/
def InStep (excused : Error → Prop) (x : Effect σ α) (s : σ) (y : Effect σ β) (t : σ)
    (Q : α → σ → β → σ → Prop) : Prop :=
  match x s, y t with
  | .ok a s', .ok b t' => Q a s' b t'
  | .ok _ _, .error _ _ => False
  | .error e _, .ok _ _ => excused e
  | .error e _, .error e' _ => excused e ∨ e' = e

/-- The same work from two states. -/
abbrev Synced (excused : Error → Prop) (x : Effect σ α) (s t : σ) (Q : α → σ → α → σ → Prop) : Prop :=
  InStep excused x s x t Q

theorem InStep.mono (h : InStep excused x s y t Q) (hQ : ∀ a s' b t', Q a s' b t' → Q' a s' b t') :
    InStep excused x s y t Q' := by
  unfold InStep at *
  split <;> simp_all

theorem inStep_of_ok {a : α} {b : β} {s' t' : σ} (hx : x s = .ok a s') (hy : y t = .ok b t')
    (h : Q a s' b t') : InStep excused x s y t Q := by
  simpa only [InStep, hx, hy] using h

theorem inStep_of_error {e : Error} {s' t' : σ} (hx : x s = .error e s') (hy : y t = .error e t') :
    InStep excused x s y t Q := by
  simp only [InStep, hx, hy, or_true]

theorem inStep_of_excused {e : Error} {s' : σ} (hx : x s = .error e s') (he : excused e) :
    InStep excused x s y t Q := by
  unfold InStep
  cases y t with
  | ok => simpa only [hx] using he
  | error => simpa only [hx] using .inl he

/-- What both come to, if they are in step. -/
theorem InStep.outcomes (h : InStep excused x s y t Q) :
    (∃ e s', x s = .error e s' ∧ (excused e ∨ ∃ t', y t = .error e t')) ∨
      ∃ a s' b t', x s = .ok a s' ∧ y t = .ok b t' ∧ Q a s' b t' := by
  unfold InStep at h
  cases hx : x s with
  | ok a s' =>
    cases hy : y t with
    | ok b t' => exact .inr ⟨a, s', b, t', rfl, rfl, by simpa only [hx, hy] using h⟩
    | error => simp only [hx, hy] at h
  | error e s' =>
    cases hy : y t with
    | ok b t' => exact .inl ⟨e, s', rfl, .inl (by simpa only [hx, hy] using h)⟩
    | error e' t' =>
      simp only [hx, hy] at h
      exact .inl ⟨e, s', rfl, h.imp id fun same => ⟨t', by rw [show e' = e from same]⟩⟩

/-- The results are the same, if done means the same on both sides, unless the first is excused. -/
theorem InStep.fst_eq {y : Effect σ α} {Q : α → σ → α → σ → Prop} (h : InStep excused x s y t Q)
    (same : ∀ a s' b t', Q a s' b t' → a = b) :
    (∃ e, (x.perform s).1 = .error e ∧ excused e) ∨ (x.perform s).1 = (y.perform t).1 := by
  obtain ⟨e, s', hx, he | ⟨t', hy⟩⟩ | ⟨a, s', b, t', hx, hy, related⟩ := h.outcomes
  · exact .inl ⟨e, congrArg Prod.fst (perform_eq_error.2 hx), he⟩
  · rw [perform_eq_error.2 hx, perform_eq_error.2 hy]
    exact .inr rfl
  · rw [perform_eq_ok.2 hx, perform_eq_ok.2 hy, same _ _ _ _ related]
    exact .inr rfl

/-- What follows is in step wherever the first parts, done from where they are, have come to. -/
theorem InStep.bind {f : α → Effect σ γ} {g : β → Effect σ δ} {R : γ → σ → δ → σ → Prop}
    (h : InStep excused x s y t Q)
    (next : ∀ a s' b t', x.perform s = (.ok a, s') → Q a s' b t' →
      InStep excused (f a) s' (g b) t' R) :
    InStep excused (x >>= f) s (y >>= g) t R := by
  obtain ⟨e, s', hx, he | ⟨t', hy⟩⟩ | ⟨a, s', b, t', hx, hy, hQ⟩ := h.outcomes
  · exact inStep_of_excused (bind_of_error hx f) he
  · exact inStep_of_error (bind_of_error hx f) (bind_of_error hy g)
  · have rest := next a s' b t' (perform_eq_ok.2 hx) hQ
    unfold InStep at rest ⊢
    rwa [bind_of_ok hx, bind_of_ok hy]

theorem inStep_pure {a : α} {b : β} (h : Q a s b t) : InStep excused (pure a) s (pure b) t Q := h

/-- Each looks up its own state. -/
theorem inStep_get {f : σ → Effect σ γ} {g : σ → Effect σ δ} {R : γ → σ → δ → σ → Prop}
    (h : InStep excused (f s) s (g t) t R) : InStep excused (get >>= f) s (get >>= g) t R := h

theorem inStep_throw (e : Error) : InStep excused (throw e) s (throw e) t Q := .inr rfl

/-- The same check in front of both. -/
theorem inStep_unless {p : Prop} [Decidable p] {e : Error} {f : PUnit → Effect σ α}
    {g : PUnit → Effect σ β} (h : ¬ p → InStep excused (f ⟨⟩) s (g ⟨⟩) t Q) :
    InStep excused (if p then throw e >>= f else f ⟨⟩) s (if p then throw e >>= g else g ⟨⟩) t Q := by
  split
  · exact .inr rfl
  · next free => exact h free

/-- The same result in front of both. -/
theorem inStep_ofExcept (r : Except Error γ) {f : γ → Effect σ α} {g : γ → Effect σ β}
    (h : ∀ c, r = .ok c → InStep excused (f c) s (g c) t Q) :
    InStep excused (ofExcept r >>= f) s (ofExcept r >>= g) t Q := by
  cases r with
  | ok c => exact h c rfl
  | error e => exact .inr rfl

/-- A failure is told in the words of the operation on both sides. -/
theorem InStep.describing {told : Error → Prop} (h : InStep excused x s y t Q)
    (describe : Text → StreamError)
    (excuses : ∀ e, excused e → ∃ reason, e = .rawStream reason ∧ told (.streamFailed (describe reason))) :
    InStep told (describing describe x) s (describing describe y) t Q := by
  unfold Effect.describing
  obtain ⟨e, s', hx, he | ⟨t', hy⟩⟩ | ⟨a, s', b, t', hx, hy, hQ⟩ := h.outcomes
  · obtain ⟨reason, rfl, tells⟩ := excuses e he
    exact inStep_of_excused (tryCatch_of_error hx _) tells
  · unfold InStep
    rw [tryCatch_of_error hx, tryCatch_of_error hy]
    cases e <;> exact .inr rfl
  · exact inStep_of_ok (tryCatch_of_ok hx _) (tryCatch_of_ok hy _) hQ

end Checkpoint.Effect
