import Checkpoint.Proofs.Archive.Decoding
import Checkpoint.Proofs.Lockstep

/-! Machines over different archives.  Of an archive a machine sees only the sizes that it records for its
storages; where these are the same, a stream is run in step. -/

namespace Checkpoint

namespace Archive

/-- The same storages, to be read from another archive. -/
def Arena.portedTo (a : Arena) (r : Reader) : Arena := { a with reader := r }

@[simp] theorem Arena.blobs_portedTo (a : Arena) (r : Reader) : (a.portedTo r).blobs = a.blobs := rfl

@[simp] theorem Arena.loaded_portedTo (a : Arena) (r : Reader) : (a.portedTo r).loaded = a.loaded := rfl

@[simp] theorem Arena.reader_portedTo (a : Arena) (r : Reader) : (a.portedTo r).reader = r := rfl

@[simp] theorem Arena.check_portedTo (a : Arena) (r : Reader) : (a.portedTo r).check = a.check := rfl

/-- A reference is resolved alike where its storage has the same size. -/
theorem Arena.resolve_portedTo {a : Arena} {r : Reader} {ref : Pickle.PersistentRef}
    (size : r.storageSize ref.key = a.reader.storageSize ref.key) :
    (a.portedTo r).resolve ref = (a.resolve ref).map fun found => (found.1, found.2.portedTo r) := by
  unfold resolve
  rw [blobs_portedTo, reader_portedTo, size]
  cases a.blobs.get? ref.key with
  | some blob =>
    dsimp only
    split <;> rfl
  | none =>
    cases a.reader.storageSize ref.key with
    | error e => rfl
    | ok actual =>
      simp only [bind, Except.bind]
      split <;> rfl

end Archive

namespace Pickle.Machine

open Archive Effect

variable {α : Type} {r r' : Reader} {config : Config} {c : Cursor}

/-- The same machine over another archive. -/
def portedTo (m : Machine) (r : Reader) : Machine := { m with arena := m.arena.portedTo r }

@[simp] theorem portedTo_stack (m : Machine) (r : Reader) : (m.portedTo r).stack = m.stack := rfl

@[simp] theorem portedTo_heap (m : Machine) (r : Reader) : (m.portedTo r).heap = m.heap := rfl

/-- An action is done alike over one archive and over the other. -/
def Ported (r r' : Reader) (x : Running α) : Prop :=
  ∀ m, m.arena.reader = r → Synced (fun _ => False) x m (m.portedTo r') fun a m₁ b m₂ =>
    b = a ∧ m₂ = m₁.portedTo r' ∧ m₁.arena.reader = r

theorem ported_modify {f : Machine → Machine} (same : ∀ m, f (m.portedTo r') = (f m).portedTo r')
    (keeps : ∀ m, (f m).arena = m.arena) : Ported r r' (modify f) :=
  fun m hr => inStep_of_ok rfl rfl ⟨rfl, same m, by rw [keeps]; exact hr⟩

/-- What is looked up in the machine is the same over both archives. -/
theorem composable_ported : Composable (Ported r r') where
  pure a _ hr := inStep_pure ⟨rfl, rfl, hr⟩
  refuse _ _ _ := inStep_throw _
  bind h next m hr := by
    refine (h m hr).bind ?_
    rintro a m₁ _ _ - ⟨rfl, rfl, hr⟩
    exact next _ m₁ hr
  look {_ f} same h m hr := by
    have found : f (m.portedTo r') = f m := same _ _
    refine inStep_get ?_
    rw [found]
    exact h _ _ hr

theorem ported_push (v : Value) : Ported r r' (push config v) :=
  composable_ported.bind composable_ported.checkDepth fun _ => ported_modify (fun _ => rfl) fun _ => rfl

theorem ported_mark : Ported r r' (mark config) :=
  composable_ported.bind composable_ported.checkDepth fun _ => ported_modify (fun _ => rfl) fun _ => rfl

theorem ported_pop (c : Cursor) : Ported r r' (pop c) := by
  intro m hr
  refine inStep_get ?_
  rw [portedTo_stack]
  split
  · exact inStep_throw _
  · exact inStep_of_ok rfl rfl ⟨rfl, rfl, hr⟩

theorem ported_popMark (c : Cursor) : Ported r r' (popMark c) := by
  intro m hr
  refine inStep_get ?_
  rw [portedTo_stack]
  split
  · exact inStep_throw _
  · exact inStep_of_ok rfl rfl ⟨rfl, rfl, hr⟩

theorem ported_setObject (id : Nat) (o : Object) : Ported r r' (setObject id o) :=
  ported_modify (fun _ => rfl) fun _ => rfl

theorem ported_pushObject (o : Object) : Ported r r' (pushObject config o) := by
  intro m hr
  refine inStep_get ?_
  exact ported_push _ { m with heap := (m.heap.allocate o).2 } hr

theorem ported_memoPut (c : Cursor) (index : Nat) : Ported r r' (memoPut config c index) := by
  have put : Ported r r' (top c >>= fun v =>
      modify fun m : Machine => { m with memo := m.memo.insert index v }) :=
    composable_ported.bind composable_ported.top fun _ => ported_modify (fun _ => rfl) fun _ => rfl
  refine composable_ported.look (fun _ _ => rfl) fun m => ?_
  dsimp only
  split
  · exact composable_ported.bind (composable_ported.refuse _) fun _ => put
  · exact put

theorem ported_reduce (c : Cursor) : Ported r r' (reduce c) := by
  refine composable_ported.bind (ported_pop c) fun arguments =>
    composable_ported.bind composable_ported.top fun target m hr => inStep_get ?_
  rw [portedTo_heap]
  split
  · split
    · split
      · exact inStep_of_ok rfl rfl ⟨rfl, rfl, hr⟩
      · exact inStep_throw _
    · exact inStep_throw _
  · exact inStep_throw _

section

variable (sizes : ∀ key, r'.storageSize key = r.storageSize key)
include sizes

/-- The size of a storage is all that is asked of an archive. -/
theorem ported_resolvePersistent (c : Cursor) : Ported r r' (resolvePersistent config c) := by
  refine composable_ported.bind (ported_pop c) fun id m hr => inStep_get ?_
  rw [portedTo_heap]
  refine inStep_ofExcept _ fun ref _ => ?_
  have resolved : (m.portedTo r').arena.resolve ref =
      (m.arena.resolve ref).map fun found => (found.1, found.2.portedTo r') :=
    Arena.resolve_portedTo (by rw [sizes, hr])
  rw [resolved]
  cases registers : m.arena.resolve ref with
  | error e => exact .inr rfl
  | ok found =>
    have keeps : found.2.reader = r := (Arena.Extends.reader_eq (.single ⟨ref, found.1, registers⟩)).trans hr
    exact ported_push _ { m with arena := found.2 } keeps

/-- The primitives are done alike, and so is a run. -/
theorem closed_ported : Closed config (Ported r r') where
  toComposable := composable_ported
  valuesLeft _ _ := inStep_throw _
  protocol _ := ported_modify (fun _ => rfl) fun _ => rfl
  trace _ := ported_modify (fun _ => rfl) fun _ => rfl
  push := ported_push
  pop := ported_pop
  popMark := ported_popMark
  mark := ported_mark
  emptyList := ported_pushObject _
  emptyDict := ported_pushObject _
  extendList _ := composable_ported.extendList ported_setObject
  enterItems _ := composable_ported.enterItems ported_setObject
  memoPut := ported_memoPut
  reduce := ported_reduce
  build c := composable_ported.build (ported_pop c) (composable_ported.setAttributes ported_setObject)
  resolvePersistent := ported_resolvePersistent sizes

/-- A stream is refused alike over both archives, or it is loaded as the same value, by the same machine. -/
theorem load_portedTo (config : Config) (bytes : Bytes) :
    (∃ e m m', load config (.ofReader r) bytes = (.error e, m) ∧
      load config (.ofReader r') bytes = (.error e, m')) ∨
    ∃ result m, load config (.ofReader r) bytes = (.ok result, m) ∧
      load config (.ofReader r') bytes = (.ok result, m.portedTo r') := by
  have ran : Ported r r' (run config (.start bytes)) := (closed_ported sizes).run _
  obtain ⟨e, m, refused, ⟨⟨⟩⟩ | ⟨m', again⟩⟩ | ⟨result, m, _, _, done, again, rfl, rfl, -⟩ :=
    (ran { arena := .ofReader r } rfl).outcomes
  · exact .inl ⟨e, m, m', perform_eq_error.2 refused, perform_eq_error.2 again⟩
  · exact .inr ⟨_, m, perform_eq_ok.2 done, perform_eq_ok.2 again⟩

end

end Pickle.Machine

end Checkpoint
