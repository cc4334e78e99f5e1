import Checkpoint.Proofs.Pickle.Execution
import Mathlib.Logic.Relation

/-! The states that a machine comes through while it runs a stream. -/

namespace Checkpoint.Pickle.Machine

open Archive

variable {config : Config} {c next : Cursor} {m m' : Machine}

/-- The machine with a snapshot of itself. -/
def traced (m : Machine) (c : Cursor) : Machine := { m with trace := m.snapshot c :: m.trace }

/-- From one place and state to the next, by an instruction that succeeds. -/
inductive Moves (config : Config) : Cursor × Machine → Cursor × Machine → Prop
  | execute {c next : Cursor} {m m' : Machine} {i : Instruction}
      (read : Instruction.read c = .ok (i, next)) (going : i ≠ .stop)
      (executed : (execute config next i).perform m = (.ok (), m')) :
      Moves config (c, m) (next, m'.traced next)

/-- From one place and state to all that a run comes to. -/
def Reaches (config : Config) : Cursor × Machine → Cursor × Machine → Prop :=
  Relation.ReflTransGen (Moves config)

/-- The next place and state, unless the stream stops or an instruction fails. -/
def advance? (config : Config) (s : Cursor × Machine) : Option (Cursor × Machine) :=
  match Instruction.read s.1 with
  | .error _ => none
  | .ok (i, next) =>
    if i = .stop then none
    else match (execute config next i).perform s.2 with
      | (.ok _, m') => some (next, m'.traced next)
      | (.error _, _) => none

/-- The place and state after so many instructions. -/
def advanced? (config : Config) (s : Cursor × Machine) : Nat → Option (Cursor × Machine)
  | 0 => some s
  | n + 1 => (advanced? config s n).bind (advance? config)

/-- Where the run of a stream starts. -/
def start (arena : Arena) (bytes : Bytes) : Cursor × Machine := (Cursor.start bytes, { arena })

/-- The reference that is pushed by the next instruction, if that pushes one. -/
def reference? (config : Config) (s : Cursor × Machine) : Option PersistentRef :=
  match Instruction.read s.1 with
  | .ok (.persistentId, next) =>
    match (execute config next .persistentId).perform s.2 with
    | (.ok _, m') => match m'.stack.items with
      | .persistent ref :: _ => some ref
      | _ => none
    | _ => none
  | _ => none

/-- A reference that is made in a run. -/
def Makes (config : Config) (s : Cursor × Machine) (ref : PersistentRef) : Prop :=
  ∃ t, Reaches config s t ∧ reference? config t = some ref

theorem reference?_eq_none {s : Cursor × Machine} {i : Instruction}
    (read : Instruction.read s.1 = .ok (i, next)) (other : i ≠ .persistentId) :
    reference? config s = none := by
  unfold reference?
  split
  · next again =>
    cases read.symm.trans again
    exact absurd rfl other
  · rfl

theorem moves_iff {s t : Cursor × Machine} : Moves config s t ↔ advance? config s = some t := by
  constructor
  · rintro ⟨read, going, executed⟩
    simp only [advance?, read, if_neg going, executed]
  · intro h
    obtain ⟨c, m⟩ := s
    unfold advance? at h
    split at h
    · cases h
    · next i next read =>
      split at h
      · cases h
      · next going =>
        split at h
        · next m' executed =>
          cases h
          exact .execute read going executed
        · cases h

theorem reaches_of_advanced {s t : Cursor × Machine} {n : Nat}
    (h : advanced? config s n = some t) : Reaches config s t := by
  induction n generalizing t with
  | zero =>
    cases h
    exact .refl
  | succ n ih =>
    obtain ⟨u, hu, ht⟩ := Option.bind_eq_some_iff.1 h
    exact (ih hu).tail (moves_iff.2 ht)

theorem run_of_moves {s t : Cursor × Machine} (h : Moves config s t) :
    run config s.1 s.2 = run config t.1 t.2 := by
  cases h with
  | execute read going executed =>
    rw [Effect.perform_eq_ok] at executed
    rw [run_of_read read going]
    simp only [bind, EStateM.bind, executed]
    rfl

/-- What is left of a run is the run of what is left. -/
theorem run_of_reaches {s t : Cursor × Machine} (h : Reaches config s t) :
    run config s.1 s.2 = run config t.1 t.2 := by
  induction h with
  | refl => rfl
  | tail _ h ih => exact ih.trans (run_of_moves h)

/-- What every instruction keeps holds of every state of a run. -/
theorem Reaches.induction {P : Machine → Prop} (trace : ∀ m c, P m → P (m.traced c))
    (step : ∀ m c i, P m → (execute config c i).Ensures m (fun _ m' => P m') fun _ _ => True)
    {s t : Cursor × Machine} (h : Reaches config s t) (hs : P s.2) : P t.2 := by
  induction h with
  | refl => exact hs
  | tail _ h ih =>
    cases h with
    | execute read going executed => exact trace _ _ ((step _ _ _ ih).of_ok executed)

end Checkpoint.Pickle.Machine
