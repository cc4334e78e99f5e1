import Checkpoint.Proofs.Pickle.Registration

/-! The keys of storages.  Whatever is written, and whether it could be read again or not, the storages
that a stream refers to are numbered in the order in which they are met. -/

namespace Checkpoint.Pickle

open Effect

namespace Encoder

/-- The storages met so far have their numbers as keys. -/
def Keyed (e : Encoder) : Prop := Entered (fun _ => True) e.storages

theorem keyed_start : Keyed {} := ⟨nofun, nofun⟩

theorem kept_keyed : Kept (fun _ => True) (fun _ => True) Keyed where
  overflow := trivial
  write _ _ h _ := h
  store _ _ _ h _ _ _ := h
  count _ _ h := h

theorem keyed_saveTensor (memory : Memory) (id : Nat) (t : Tensor) :
    Preserves Keyed (saveTensor memory (.node id) t) :=
  kept_keyed.saveTensor trivial (fun _ he => he) fun _ he => entered_register he t

end Encoder

/-- Whatever is dumped, the storages it refers to have their numbers as keys. -/
theorem Graph.entered_of_dump {config : Config} {g : Graph} {id : Nat} {d : Graph.Dump}
    (h : g.dump config id = .ok d) : Encoder.Entered (fun _ => True) d.storages := by
  obtain ⟨top, g', e, -, written, rfl⟩ := Graph.dump_eq_ok.1 h
  have keyed : Preserves Encoder.Keyed (g'.stream config top) :=
    Encoder.kept_keyed.stream config (fun _ _ _ => trivial) fun n t _ _ =>
      Encoder.kept_keyed.once fun e he _ => Encoder.keyed_saveTensor g'.memory n t e he
  exact (keyed {} Encoder.keyed_start).of_ok written

end Checkpoint.Pickle
