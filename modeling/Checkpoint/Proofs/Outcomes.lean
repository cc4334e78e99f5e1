import Checkpoint.Proofs.Effect

/-! Actions of which only one outcome matters: what holds if they are done, or why they fail if they
do. -/

namespace Checkpoint.Effect

variable {σ τ α β : Type} {s : σ} {x : Effect σ α} {Q : α → σ → Prop} {P : Error → Prop}

section Done

end Done

section Sustains

variable {I : σ → Prop}

/-- What holds of a state still holds when the action is done, and it fails for no other reason. -/
def Sustains (P : Error → Prop) (I : σ → Prop) (x : Effect σ α) : Prop :=
  ∀ s, I s → x.Ensures s (fun _ t => I t) fun e _ => P e

/-- What holds of a state still holds when the action is done. -/
abbrev Preserves (I : σ → Prop) (x : Effect σ α) : Prop := Sustains (fun _ => True) I x

theorem sustains_pure (a : α) : Sustains P I (pure a : Effect σ α) :=
  fun _ hs => (ensures_pure a).2 hs

theorem sustains_throw {e : Error} (h : P e) : Sustains P I (throw e : Effect σ α) :=
  fun _ _ => (ensures_throw e).2 h

theorem sustains_modify {f : σ → σ} (h : ∀ s, I s → I (f s)) :
    Sustains P I (modify f : Effect σ PUnit) :=
  fun s hs => (ensures_modify f).2 (h s hs)

theorem Sustains.bind {f : α → Effect σ β} (h : Sustains P I x) (next : ∀ a, Sustains P I (f a)) :
    Sustains P I (x >>= f) :=
  fun s hs => (ensures_bind f).2 ((h s hs).post fun a t ht => next a t ht)

theorem sustains_forM {items : List α} {f : α → Effect σ PUnit}
    (h : ∀ item ∈ items, Sustains P I (f item)) : Sustains P I (items.forM f) := by
  induction items with
  | nil => exact sustains_pure _
  | cons item items ih =>
    obtain ⟨first, rest⟩ := List.forall_mem_cons.1 h
    exact first.bind fun _ => ih rest

end Sustains

/-- From whichever state, the action fails for no other reason. -/
def FailsBy (P : Error → Prop) (x : Effect σ α) : Prop :=
  ∀ s, x.Ensures s (fun _ _ => True) fun e _ => P e

theorem FailsBy.mono {P' : Error → Prop} (h : FailsBy P x) (weaker : ∀ e, P e → P' e) : FailsBy P' x :=
  fun s => (h s).mono (fun _ _ done => done) fun e _ => weaker e

theorem failsBy_pure (a : α) : FailsBy P (pure a : Effect σ α) := fun _ => (ensures_pure a).2 trivial

theorem failsBy_throw {e : Error} (h : P e) : FailsBy P (throw e : Effect σ α) :=
  fun _ => (ensures_throw e).2 h

theorem failsBy_modify (f : σ → σ) : FailsBy P (modify f : Effect σ PUnit) :=
  fun _ => (ensures_modify f).2 trivial

theorem failsBy_ofExcept {r : Except Error α} (h : ∀ e, r = .error e → P e) :
    FailsBy P (ofExcept r : Effect σ α) :=
  fun _ => ensures_ofExcept (fun _ _ => trivial) h

theorem FailsBy.bind {f : α → Effect σ β} (h : FailsBy P x) (next : ∀ a, FailsBy P (f a)) :
    FailsBy P (x >>= f) :=
  fun s => (ensures_bind f).2 ((h s).post fun a t _ => next a t)

theorem failsBy_get {f : σ → Effect σ β} (next : ∀ s, FailsBy P (f s)) :
    FailsBy P (get >>= f : Effect σ β) :=
  fun s => (ensures_bind f).2 (ensures_get.2 (next s s))

theorem FailsBy.focus {part : σ → τ} {restore : τ → σ → σ} {x : Effect τ α} (h : FailsBy P x) :
    FailsBy P (focus part restore x) :=
  fun s => ensures_focus.2 (h (part s))

theorem FailsBy.andFinally {cleanup : Effect σ Unit} (h : FailsBy P x) (cleaned : FailsBy P cleanup) :
    FailsBy P (andFinally x cleanup) :=
  fun s => ensures_andFinally.2 ((h s).mono (fun _ t _ => cleaned t)
    fun _ t failed => (cleaned t).post fun _ _ _ => failed)

theorem failsBy_forM {items : List α} {f : α → Effect σ PUnit} (h : ∀ a, FailsBy P (f a)) :
    FailsBy P (items.forM f) := by
  induction items with
  | nil => exact failsBy_pure _
  | cons a items ih => exact (h a).bind fun _ => ih

end Checkpoint.Effect
