import Checkpoint.Proofs.Pickle.Moves
import Checkpoint.Proofs.Pickle.Reading

/-! Where running a machine leads to.  A run goes on from another place and state, or it is refused
for one of its limits on the way. -/

namespace Checkpoint.Pickle.Machine

open Effect

/-- A refusal of a machine that has reached one of its limits. -/
def IsLimit (config : Config) (e : Error) (m : Machine) : Prop :=
  e = depthRefusal config ∧ config.maxStackDepth ≤ m.stack.depth ∨
    e = memoRefusal config ∧ config.maxMemoSize ≤ m.memo.size

/-- From one place and state to another, while every reference that is made satisfies a condition. -/
def Via (config : Config) (R : PersistentRef → Prop) : Cursor × Machine → Cursor × Machine → Prop :=
  Relation.ReflTransGen fun s t => Moves config s t ∧ ∀ ref, reference? config s = some ref → R ref

/-- Running from here leads to a place and state that satisfy a condition, and the references on the
way satisfy another, unless a limit is reached first. -/
def Arrives (config : Config) (R : PersistentRef → Prop) (c : Cursor) (m : Machine)
    (Q : Cursor → Machine → Prop) : Prop :=
  (∃ c' m', Via config R (c, m) (c', m') ∧ Q c' m') ∨
    ∃ e m', run config c m = .error e m' ∧ IsLimit config e m'

variable {config : Config} {R : PersistentRef → Prop} {c next : Cursor} {m m' : Machine}
  {Q Q' : Cursor → Machine → Prop} {i : Instruction} {s t u : Cursor × Machine}

theorem Via.run_eq (h : Via config R s t) : run config s.1 s.2 = run config t.1 t.2 :=
  run_of_reaches (Relation.ReflTransGen.mono (fun _ _ h => h.1) _ _ h)

/-- Whatever a run comes to is on the way or behind it. -/
theorem Via.refers (h : Via config R s t) (hu : Reaches config s u) :
    (∀ ref, reference? config u = some ref → R ref) ∨ Reaches config t u := by
  induction h using Relation.ReflTransGen.head_induction_on with
  | refl => exact .inr hu
  | head hm _ ih =>
    obtain rfl | ⟨_, hm', hu⟩ := Relation.ReflTransGen.cases_head hu
    · exact .inl hm.2
    · cases (moves_iff.1 hm.1).symm.trans (moves_iff.1 hm')
      exact ih hu

theorem Arrives.here (h : Q c m) : Arrives config R c m Q :=
  .inl ⟨c, m, .refl, h⟩

theorem Arrives.bind (h : Arrives config R c m Q)
    (hq : ∀ c' m', Q c' m' → Arrives config R c' m' Q') : Arrives config R c m Q' := by
  obtain ⟨c', m', via, h⟩ | hl := h
  · obtain ⟨c'', m'', via', h'⟩ | ⟨e, m'', hr, hl⟩ := hq c' m' h
    · exact .inl ⟨c'', m'', via.trans via', h'⟩
    · exact .inr ⟨e, m'', via.run_eq.trans hr, hl⟩
  · exact .inr hl

theorem Arrives.mono (h : Arrives config R c m Q) (hq : ∀ c' m', Q c' m' → Q' c' m') :
    Arrives config R c m Q' :=
  h.bind fun c' m' h => .here (hq c' m' h)

/-- Whether the reference on top, if there is one, satisfies a condition. -/
def OnTop (R : PersistentRef → Prop) (m : Machine) : Prop :=
  ∀ ref below, m.stack.items = .persistent ref :: below → R ref

/-- An instruction leads behind itself. -/
theorem arrives_execute (hi : i.Readable) (hs : i ≠ .stop) (hc : c.Spells i.encode next)
    (h : (execute config next i).Ensures m
      (fun _ m' => (i = .persistentId → OnTop R m') ∧ ∀ trace, Q next { m' with trace })
      fun e m' => IsLimit config e m') : Arrives config R c m Q := by
  have read := Instruction.read_encode hi hc
  cases hx : (execute config next i).perform m with
  | mk result m' =>
    cases result with
    | ok _ =>
      obtain ⟨top, hq⟩ := h.of_ok hx
      refine .inl ⟨next, m'.traced next, .single ⟨.execute read hs hx, ?_⟩, hq _⟩
      intro ref hr
      by_cases hp : i = .persistentId
      · subst hp
        simp only [reference?, read, hx] at hr
        split at hr
        · next below on =>
          cases hr
          exact top rfl _ below on
        · cases hr
      · rw [reference?_eq_none (s := (c, m)) read hp] at hr
        cases hr
    | error e =>
      have hl := h.of_error hx
      rw [perform_eq_error] at hx
      refine .inr ⟨e, m', ?_, hl⟩
      rw [run_of_read read hs]
      simp only [bind, EStateM.bind, hx]

end Checkpoint.Pickle.Machine
