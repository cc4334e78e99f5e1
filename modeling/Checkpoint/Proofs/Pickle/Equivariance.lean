import Checkpoint.Proofs.Lockstep
import Checkpoint.Proofs.Table
import Checkpoint.Proofs.Pickle.Batches
import Checkpoint.Proofs.Pickle.Parts
import Checkpoint.Proofs.Pickle.Renaming

/-! Writing under other numbers.  Each action of the writer does the same for an object and for the object
under its other number, from states that differ in the numbers only; so two graphs that are one but for
the numbers are written as the same stream. -/

namespace Checkpoint.Pickle

open Effect

namespace Renaming

variable (r : Renaming)

def identity : Identity → Identity
  | .node id => .node (r.objects id)
  | .short t => .short t
  | .storageWord => .storageWord
  | .locationWord => .locationWord
  | .storageKey n => .storageKey n
  | .global module name => .global module name
  | .temporary n => .temporary n

theorem identity_injective : Function.Injective r.identity := by
  intro a b h
  cases a <;> cases b <;> simp_all [identity]

theorem identity_ofText (t : Text) (o : Identity) :
    r.identity (Identity.ofText t o) = Identity.ofText t (r.identity o) := by
  unfold Identity.ofText
  split <;> rfl

def written (w : Written) : Written := { w with object := w.object.map r.identity }

def use (u : StorageUse) : StorageUse := { u with storage := r.storages u.storage }

def encoder (e : Encoder) : Encoder where
  output := e.output.map r.written
  memo := e.memo.mapKeys r.identity
  storages := e.storages.map r.use
  temporaries := e.temporaries

def dump (d : Graph.Dump) : Graph.Dump where
  written := d.written.map r.written
  memoSize := d.memoSize
  storages := d.storages.map r.use

end Renaming

theorem Graph.Isomorphic.identity {r : Renaming} {g g' : Graph} (iso : g.Isomorphic r g') (id : Nat) :
    g'.identity (r.objects id) = r.identity (g.identity id) := by
  simp only [Graph.identity, iso.node]
  cases g.node id with
  | text t => exact (r.identity_ofText t (.node id)).symm
  | _ => rfl

namespace Encoder

/-- One action does under the other numbers what another does. -/
structure Renames {α : Type} (r : Renaming) (x y : Encoding α) : Prop where
  inStep : ∀ e, InStep (fun _ => False) x e y (r.encoder e) fun a e₁ b e₂ => b = a ∧ e₂ = r.encoder e₁

section Laws

variable {r : Renaming} {α β : Type} {x y : Encoding α}

theorem renames_pure (a : α) : Renames r (pure a) (pure a) := ⟨fun _ => inStep_pure ⟨rfl, rfl⟩⟩

theorem renames_throw (error : Error) : Renames r (throw error : Encoding α) (throw error) :=
  ⟨fun _ => inStep_throw error⟩

theorem renames_ofExcept (result : Except Error α) :
    Renames r (Effect.ofExcept result) (Effect.ofExcept result) := by
  cases result with
  | ok a => exact renames_pure a
  | error error => exact renames_throw error

theorem Renames.bind {f h : α → Encoding β} (first : Renames r x y)
    (next : ∀ a, Renames r (f a) (h a)) : Renames r (x >>= f) (y >>= h) := by
  refine ⟨fun e => (first.inStep e).bind ?_⟩
  rintro a e₁ _ _ - ⟨rfl, rfl⟩
  exact (next _).inStep e₁

theorem renames_get {f h : Encoder → Encoding β} (next : ∀ e, Renames r (f e) (h (r.encoder e))) :
    Renames r (get >>= f) (get >>= h) :=
  ⟨fun e => inStep_get ((next e).inStep e)⟩

theorem renames_modify {f h : Encoder → Encoder} (same : ∀ e, h (r.encoder e) = r.encoder (f e)) :
    Renames r (modify f) (modify h) :=
  ⟨fun e => inStep_of_ok rfl rfl ⟨rfl, same e⟩⟩

theorem renames_forM {items items' : List α} {f h : α → Encoding PUnit}
    (each : List.Forall₂ (fun a b => Renames r (f a) (h b)) items items') :
    Renames r (items.forM f) (items'.forM h) := by
  induction each with
  | nil => exact renames_pure _
  | cons first _ ih => exact first.bind fun _ => ih

end Laws

section Actions

variable {r : Renaming} {x y : Encoding Unit} {items items' : List (Encoding Unit)}

theorem renames_write (w : Written) : Renames r (write w) (write (r.written w)) :=
  renames_modify fun _ => rfl

theorem renames_emit (i : Instruction) : Renames r (emit i) (emit i) := renames_write _

theorem renames_emitChecked (i : Except Error Instruction) : Renames r (emitChecked i) (emitChecked i) :=
  (renames_ofExcept i).bind fun i => renames_emit i

theorem renames_emitFor (o : Identity) (i : Except Error Instruction) :
    Renames r (emitFor o i) (emitFor (r.identity o) i) :=
  (renames_ofExcept i).bind fun i => renames_write { instruction := i, object := some o }

theorem renames_memoize (o : Identity) : Renames r (memoize o) (memoize (r.identity o)) := by
  apply renames_get
  intro e
  have size : (r.encoder e).memo.size = e.memo.size := Table.size_mapKeys _
  rw [size]
  refine (renames_emitFor o _).bind fun _ => renames_modify fun e => ?_
  simp only [Renaming.encoder, Table.insert_mapKeys r.identity_injective]

theorem renames_fresh {f h : Identity → Encoding Unit}
    (next : ∀ n, Renames r (f (.temporary n)) (h (.temporary n))) :
    Renames r (fresh >>= f) (fresh >>= h) := by
  unfold fresh
  simp only [bind_assoc, pure_bind]
  apply renames_get
  intro e
  have counted : Renames r (modify fun e' => { e' with temporaries := e.temporaries + 1 })
      (modify fun e' => { e' with temporaries := e.temporaries + 1 }) := renames_modify fun _ => rfl
  exact counted.bind fun _ => next e.temporaries

theorem renames_memoizeFresh : Renames r memoizeFresh memoizeFresh :=
  renames_fresh fun n => renames_memoize (.temporary n)

/-- Both have the object in their memos, or neither. -/
theorem renames_once (o : Identity) (h : Renames r x y) : Renames r (once o x) (once (r.identity o) y) := by
  apply renames_get
  intro e
  have found : (r.encoder e).memo.get? (r.identity o) = e.memo.get? o :=
    Table.get?_mapKeys r.identity_injective _ _
  rw [found]
  split
  · exact renames_emitFor _ _
  · exact h

theorem renames_saveText (o : Identity) (t : Text) :
    Renames r (saveText o t) (saveText (r.identity o) t) :=
  renames_once o ((renames_emitChecked _).bind fun _ => renames_memoize o)

theorem renames_saveGlobal (module name : Text) :
    Renames r (saveGlobal module name) (saveGlobal module name) :=
  renames_once (.global module name) ((renames_emit _).bind fun _ => renames_memoize (.global module name))

theorem renames_saveInt (n : Int) : Renames r (saveInt n) (saveInt n) := renames_emitChecked _

theorem renames_orderedDict : Renames r orderedDict orderedDict :=
  (renames_saveGlobal _ _).bind fun _ => (renames_emit _).bind fun _ => renames_emit _

theorem renames_saveTuple {identity identity' : Encoding Identity}
    (each : List.Forall₂ (Renames r) items items')
    (stored : Renames r (identity >>= memoize) (identity' >>= memoize)) :
    Renames r (saveTuple identity items) (saveTuple identity' items') := by
  have close : Renames r
      (items.forM id >>= fun _ => emit (tupleInstruction items.length) >>= fun _ => identity >>= memoize)
      (items'.forM id >>= fun _ => emit (tupleInstruction items'.length) >>= fun _ =>
        identity' >>= memoize) := by
    rw [each.length_eq]
    exact (renames_forM each).bind fun _ => (renames_emit _).bind fun _ => stored
  cases each with
  | nil => exact renames_emit _
  | cons first rest =>
    simp only [saveTuple, List.length_cons, rest.length_eq] at close ⊢
    split
    · exact (renames_emit _).bind fun _ => close
    · exact close

theorem renames_saveFresh (each : List.Forall₂ (Renames r) items items') :
    Renames r (saveTuple fresh items) (saveTuple fresh items') :=
  renames_saveTuple each renames_memoizeFresh

theorem renames_saveBatch (single several : Instruction) (each : List.Forall₂ (Renames r) items items') :
    Renames r (saveBatch single several items) (saveBatch single several items') := by
  have marked : Renames r (emit .mark >>= fun _ => items.forM id >>= fun _ => emit several)
      (emit .mark >>= fun _ => items'.forM id >>= fun _ => emit several) :=
    (renames_emit _).bind fun _ => (renames_forM each).bind fun _ => renames_emit _
  cases each with
  | nil => exact marked
  | cons first rest =>
    cases rest with
    | nil => exact first.bind fun _ => renames_emit _
    | cons => exact marked

theorem renames_saveItems (config : Config) (single several : Instruction)
    (each : List.Forall₂ (Renames r) items items') :
    Renames r (saveItems config single several items) (saveItems config single several items') := by
  have batched : Renames r ((batches config.batchSize items).forM (saveBatch single several))
      ((batches config.batchSize items').forM (saveBatch single several)) :=
    renames_forM ((forall₂_batches config.batchSize each).imp fun _ _ => renames_saveBatch single several)
  unfold saveItems
  split
  · exact (renames_throw _).bind fun _ => batched
  · exact batched

variable {memory memory' : Memory} {t : Tensor}

/-- A storage has the same number of use under its other number. -/
theorem renames_useStorage (same : memory'.buffer (r.storages t.storage) = memory.buffer t.storage) :
    Renames r (useStorage memory t) (useStorage memory' (r.tensor t)) := by
  apply renames_get
  intro e
  have found : (r.encoder e).storages.findIdx? (·.storage == (r.tensor t).storage) =
      e.storages.findIdx? (·.storage == t.storage) := by
    simp only [Renaming.encoder, List.findIdx?_map, Renaming.tensor]
    congr 1
    funext u
    exact r.storages.injective.beq_eq
  dsimp only
  rw [found]
  cases e.storages.findIdx? (·.storage == t.storage) with
  | some n =>
    have first : (r.encoder e).storages[n]?.map StorageUse.dtype = e.storages[n]?.map StorageUse.dtype := by
      simp only [Renaming.encoder, List.getElem?_map, Option.map_map]
      rfl
    simp only [first, Renaming.tensor, same]
    split
    · exact (renames_throw _).bind fun _ => renames_pure n
    · exact renames_pure n
  | none =>
    have count : (r.encoder e).storages.length = e.storages.length := List.length_map ..
    simp only [count]
    refine Renames.bind ⟨fun e' => inStep_of_ok rfl rfl ⟨rfl, ?_⟩⟩ fun _ => renames_pure _
    simp only [Renaming.encoder, List.map_append]
    rfl

theorem renames_saveStorage (same : memory'.buffer (r.storages t.storage) = memory.buffer t.storage)
    (storageClass : Text) :
    Renames r (saveStorage memory t storageClass) (saveStorage memory' (r.tensor t) storageClass) := by
  unfold saveStorage
  apply (renames_useStorage same).bind
  intro n
  have count : (memory'.buffer (r.tensor t).storage).length / (r.tensor t).dtype.size =
      (memory.buffer t.storage).length / t.dtype.size := by
    simp only [Renaming.tensor, same]
  dsimp only
  rw [count]
  refine Renames.bind (renames_saveFresh ?_) fun _ => renames_emit _
  exact .cons (renames_saveText .storageWord _) (.cons (renames_saveGlobal _ _)
    (.cons (renames_saveText (.storageKey n) _) (.cons (renames_saveText .locationWord _)
      (.cons (renames_saveInt _) .nil))))

theorem renames_saveSizes (sizes : List Nat) : Renames r (saveSizes sizes) (saveSizes sizes) := by
  apply renames_saveFresh
  rw [List.forall₂_same]
  intro item hi
  obtain ⟨n, -, rfl⟩ := List.mem_map.1 hi
  exact renames_saveInt n

theorem renames_saveTensor (same : memory'.buffer (r.storages t.storage) = memory.buffer t.storage)
    (o : Identity) :
    Renames r (saveTensor memory o t) (saveTensor memory' (r.identity o) (r.tensor t)) := by
  unfold saveTensor
  cases h : t.dtype.storageClass? with
  | none =>
    simp only [Renaming.tensor, h]
    exact renames_throw _
  | some storageClass =>
    simp only [show (r.tensor t).dtype.storageClass? = some storageClass from h]
    refine (renames_saveGlobal _ _).bind fun _ => Renames.bind (renames_saveFresh ?_) fun _ =>
      (renames_emit _).bind fun _ => renames_memoize o
    exact .cons (renames_saveStorage same storageClass) (.cons (renames_saveInt _)
      (.cons (renames_saveSizes _) (.cons (renames_saveSizes _) (.cons (renames_emit _)
        (.cons (renames_orderedDict.bind fun _ => renames_memoizeFresh) .nil)))))

end Actions

section Parts

variable {r : Renaming} {config : Config} {g g' : Graph} {fuel : Nat}
  (each : ∀ id, Renames r (save config g fuel id) (save config g' fuel (r.objects id)))
include each

theorem renames_items (items : List Nat) : List.Forall₂ (Renames r) (items.map (save config g fuel))
    ((items.map r.objects).map (save config g' fuel)) := by
  simp only [List.forall₂_map_left_iff, List.forall₂_map_right_iff, List.forall₂_same]
  exact fun item _ => each item

theorem renames_entries (entries : List (Nat × Nat)) :
    List.Forall₂ (Renames r) (entries.map (saveEntry config g fuel))
      ((r.entries entries).map (saveEntry config g' fuel)) := by
  simp only [Renaming.entries, List.forall₂_map_left_iff, List.forall₂_map_right_iff,
    List.forall₂_same]
  exact fun entry _ => (each entry.1).bind fun _ => each entry.2

theorem renames_saveAttributes (attributes : List (Text × Nat)) :
    Renames r (saveAttributes config g fuel attributes)
      (saveAttributes config g' fuel (r.attributes attributes)) := by
  have none : (r.attributes attributes).isEmpty = attributes.isEmpty := List.isEmpty_map
  unfold saveAttributes
  rw [none]
  cases attributes.isEmpty with
  | true => exact renames_pure _
  | false =>
    refine (renames_emit _).bind fun _ => renames_memoizeFresh.bind fun _ =>
      Renames.bind (renames_saveItems _ _ _ ?_) fun _ => renames_emit _
    simp only [Renaming.attributes, List.forall₂_map_left_iff, List.forall₂_map_right_iff,
      List.forall₂_same]
    intro field _
    apply renames_fresh
    intro n
    have own : Identity.ofText field.1 (.temporary n) =
        r.identity (Identity.ofText field.1 (.temporary n)) :=
      (r.identity_ofText field.1 (.temporary n)).symm
    refine Renames.bind ?_ fun _ => each field.2
    nth_rewrite 2 [own]
    exact renames_saveText _ _

end Parts

/-- An object is written alike under both numbers, at every depth. -/
theorem renames_save {r : Renaming} {g g' : Graph} (iso : g.Isomorphic r g') (config : Config)
    (fuel id : Nat) : Renames r (save config g fuel id) (save config g' fuel (r.objects id)) := by
  induction fuel generalizing id with
  | zero => exact renames_throw _
  | succ fuel ih =>
    have numbered {node : Node} (hg : g.node id = node) : g'.node (r.objects id) = r.node node := by
      rw [iso.node, hg]
    cases hg : g.node id with
    | none | bool | float =>
      rw [save_node hg nofun nofun,
        save_node (numbered hg) nofun nofun]
      exact renames_once (.node id) (renames_emit _)
    | int n =>
      rw [save_node hg nofun nofun, save_node (numbered hg) nofun nofun]
      exact renames_once (.node id) (renames_saveInt n)
    | text t =>
      rw [save_text hg, save_text (numbered hg), iso.identity]
      exact renames_once _ (renames_saveText _ _)
    | tuple members =>
      rw [save_tuple hg, save_tuple (numbered hg)]
      apply renames_once (.node id)
      apply renames_saveTuple (renames_items ih members)
      simp only [pure_bind]
      exact renames_memoize (.node id)
    | list members =>
      rw [save_list hg, save_list (numbered hg)]
      exact renames_once (.node id) ((renames_emit _).bind fun _ =>
        (renames_memoize (.node id)).bind fun _ => renames_saveItems _ _ _ (renames_items ih members))
    | dict entries =>
      rw [save_dict hg, save_dict (numbered hg)]
      exact renames_once (.node id) ((renames_emit _).bind fun _ =>
        (renames_memoize (.node id)).bind fun _ => renames_saveItems _ _ _ (renames_entries ih entries))
    | ordered entries attributes =>
      rw [save_ordered hg, save_ordered (numbered hg)]
      exact renames_once (.node id) (renames_orderedDict.bind fun _ =>
        (renames_memoize (.node id)).bind fun _ =>
        (renames_saveItems _ _ _ (renames_entries ih entries)).bind fun _ =>
        renames_saveAttributes ih attributes)
    | tensor t =>
      rw [save_tensor hg, save_tensor (numbered hg)]
      exact renames_once (.node id) (renames_saveTensor (iso.buffer t.storage) (.node id))
    | storageClass name =>
      cases classed : DType.ofStorageClass? name with
      | some d =>
        rw [save_storageClass hg classed, save_storageClass (numbered hg) classed, iso.identity]
        exact renames_once _ (renames_saveGlobal _ _)
      | none =>
        rw [save_otherClass hg classed, save_otherClass (numbered hg) classed, iso.identity]
        exact renames_once _ (renames_throw _)
    | mapping | bytes | emptySet =>
      rw [save_node hg nofun nofun,
        save_node (numbered hg) nofun nofun]
      exact renames_once (.node id) (renames_throw _)

end Encoder

namespace Graph

variable {r : Renaming} {g g' : Graph}

theorem Isomorphic.stream (iso : g.Isomorphic r g') (config : Config) (id : Nat) :
    Encoder.Renames r (g.stream config id) (g'.stream config (r.objects id)) := by
  have depth : g'.depthLimit = g.depthLimit := by rw [depthLimit, iso.size, depthLimit]
  unfold Graph.stream
  rw [depth]
  exact (Encoder.renames_emit _).bind fun _ => (Encoder.renames_save iso config _ id).bind fun _ =>
    Encoder.renames_emit _

/-- What is dumped under other numbers is the same but for the numbers; what is not fails alike. -/
theorem Isomorphic.dump (iso : g.Isomorphic r g') (config : Config) (id : Nat) :
    g'.dump config (r.objects id) = (g.dump config id).map r.dump := by
  have mapping := iso.asOrdered id
  unfold Graph.dump
  match g.asOrdered id, g'.asOrdered (r.objects id), mapping with
  | .error _, .error _, rfl => rfl
  | .ok (top, h), .ok (_, h'), ⟨rfl, iso'⟩ =>
    obtain ⟨error, e, hs, excused | ⟨e', hs'⟩⟩ | ⟨_, e, _, _, hs, hs', rfl, rfl⟩ :=
      ((iso'.stream config top).inStep {}).outcomes
    · exact excused.elim
    · have start : (h'.stream config (r.objects top)).perform {} = (.error error, e') :=
        perform_eq_error.2 hs'
      simp only [bind, Except.bind, perform_eq_error.2 hs, start]
      rfl
    · have start : (h'.stream config (r.objects top)).perform {} = (.ok _, r.encoder e) :=
        perform_eq_ok.2 hs'
      simp only [bind, Except.bind, perform_eq_ok.2 hs, start, Except.map, Renaming.encoder,
        Renaming.dump, Table.size_mapKeys, List.map_reverse]

end Graph

end Checkpoint.Pickle
