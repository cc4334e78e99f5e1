import Checkpoint.Transfer
import Checkpoint.Proofs.Archive.RoundTrip
import Checkpoint.Proofs.Module
import Checkpoint.Proofs.Safetensors.Saved
import Checkpoint.Proofs.World

/-! Saving modules: what is needed to save one, and what a save that has been done leaves to be read. -/

namespace Checkpoint

open Effect

/-! ### Archives on any stream -/

namespace Archive

open Pickle

variable {config : Config} {g : Graph} {id : Nat} {s t : Stream}

/-- Where an archive starts: a stream that cannot seek gets it from a new one. -/
def startOn (s : Stream) : Nat := if s.mode = .seekable then s.position else 0

/-- An archive that can be saved where it starts can be saved on any stream without faults. -/
theorem ensures_saveAnywhere (steady : s.Steady)
    (saves : ∀ t : Stream, t.Healthy → t.position = startOn s →
      (save config g id).Ensures t (fun _ t' => t'.Healthy) fun _ _ => False) :
    (saveAnywhere config g id).Ensures s (fun _ t => t.Steady) fun _ _ => False := by
  unfold saveAnywhere
  rw [ensures_bind]
  apply Stream.ensures_canSeek steady
  intro calls
  by_cases mode : s.mode = .seekable
  · rw [if_pos (decide_eq_true mode), ensures_discard]
    have start : (s.after calls s.content s.position).position = startOn s := by
      rw [startOn, if_pos mode]
      rfl
    exact (saves _ (steady.healthy_after mode _ _ _) start).post fun _ _ healthy => healthy.steady
  · rw [if_neg (by simp [mode])]
    obtain ⟨names, buffer, saved, -⟩ := (saves {} ⟨rfl, rfl, rfl, rfl⟩ (by rw [startOn, if_neg mode])).exists_ok
    simp only [saved, ensures_bind, ensures_ofExcept_ok]
    apply ensures_describing
    apply Stream.ensures_write (steady.after _ _ _)
    exact fun _ => steady.after _ _ _

/-- What has been saved behind the end of a stream is an archive, and the image of any stream that is to
be read from there. -/
theorem exists_of_saveAnywhere (steady : s.Steady) (ended : s.position = s.content.length)
    (saved : (saveAnywhere config g id).perform s = (.ok (), t)) :
    ∃ s' t' names, s'.Healthy ∧ s'.position = s'.content.length ∧
      (save config g id).perform s' = (.ok names, t') ∧
      ∀ u : Stream, u.mode = s.mode → u.position = s.position → u.content = t.content →
        u.image = t'.content := by
  rw [saveAnywhere, perform_bind_eq_ok] at saved
  obtain ⟨answer, s₁, asked, saved⟩ := saved
  have answered : Stream.canSeek.Ensures s (fun answer t => answer = decide (s.mode = .seekable) ∧
      ∃ calls, t = s.after calls s.content s.position) fun _ _ => True :=
    Stream.ensures_canSeek steady fun calls => ⟨rfl, calls, rfl⟩
  obtain ⟨rfl, calls, rfl⟩ := answered.of_ok asked
  by_cases mode : s.mode = .seekable
  · rw [if_pos (decide_eq_true mode), perform_discard_eq_ok] at saved
    obtain ⟨names, saved⟩ := saved
    refine ⟨_, t, names, steady.healthy_after mode calls s.content s.position, ended, saved, ?_⟩
    intro u mode' _ content
    rw [Stream.image, if_pos (mode'.trans mode), content]
  · rw [if_neg (by simp [mode])] at saved
    dsimp only at saved
    rw [perform_bind_eq_ok] at saved
    obtain ⟨names, s₂, made, written⟩ := saved
    obtain ⟨result, rfl⟩ := perform_ofExcept_eq_ok.1 made
    refine ⟨{}, _, names, ⟨rfl, rfl, rfl, rfl⟩, rfl, Prod.ext result rfl, fun u mode' place content => ?_⟩
    rw [perform_describing_eq_ok] at written
    have behind : (Stream.write ((save config g id).perform {}).2.content).Ensures
        (s.after calls s.content s.position)
        (fun _ t => t.content.drop s.position = ((save config g id).perform {}).2.content)
        fun _ _ => True := by
      apply Stream.ensures_write (steady.after _ _ _)
      intro _
      change (if _ then s.content else Stream.overwrite s.content s.position _).drop s.position = _
      rw [ended]
      split
      · next empty => rw [List.drop_length, List.isEmpty_iff.1 empty]
      · exact Stream.drop_overwrite _ _
    rw [Stream.image, if_neg (mode'.symm ▸ mode), content, place]
    exact behind.of_ok written

end Archive

/-! ### What can be saved and loaded -/

/-- All tensors of a module have names of their own, and so have all parts. -/
structure Module.Distinct (m : Module) : Prop where
  names : (m.entries.map Prod.fst).Nodup
  paths : m.paths.Nodup

theorem Module.Distinct.saved {m : Module} (h : m.Distinct) (skip : List Text) :
    ((m.saved skip).map Prod.fst).Nodup :=
  h.names.sublist (List.filter_sublist.map _)

theorem Module.mem_saved {m : Module} {skip : List Text} {named : Text × Tensor} :
    named ∈ m.saved skip ↔ named ∈ m.entries ∧ named.1 ∉ skip := by
  simp [Module.saved]

/-- Tensors that an archive can hold: each can be stored, and those that share a storage are of one type. -/
structure Archive.Recordable (memory : Memory) (tensors : List (Text × Tensor)) : Prop where
  storable : ∀ named ∈ tensors, Storable memory named.2
  alike : ∀ named ∈ tensors, ∀ named' ∈ tensors, named.2.storage = named'.2.storage →
    named.2.dtype = named'.2.dtype

/-- A module that can be saved as an archive from a place on: no number outgrows its field. -/
structure Archive.Savable (config : Config) (memory : Memory) (m : Module) (skip : List Text)
    (start : Nat) : Prop where
  recordable : Recordable memory (m.saved skip)
  names : ∀ named ∈ m.saved skip, named.1.utf8.length < Pickle.Encoder.wordLimit
  paths : ∀ path ∈ m.paths, path.utf8.length < Pickle.Encoder.wordLimit
  archive : IsName config.archiveName
  batch : config.batchSize ≤ Pickle.Encoder.batchLimit
  roomy : (((m.graph memory skip).2.stream config (m.graph memory skip).1).perform {}).2.Roomy
  fits : ∀ d, (m.graph memory skip).2.dump config (m.graph memory skip).1 = .ok d →
    Writer.Fits config start (recordsOf config memory d)

/-- The archive of a module can be loaded: it stays within the limits of the reader. -/
structure Archive.Loadable (config limits : Config) (memory : Memory) (m : Module) (skip : List Text) :
    Prop where
  recordable : Recordable memory (m.saved skip)
  archive : (0 : CodePoint) ∉ config.archiveName.points
  admits : ∀ d, (m.graph memory skip).2.dump config (m.graph memory skip).1 = .ok d →
    Admits limits memory d

/-- Tensors that can be saved as one file under their names. -/
structure Safetensors.Savable (config : Config) (memory : Memory) (metadata : Option (List (Text × Text)))
    (tensors : List (Text × Tensor)) : Prop where
  nameable : Nameable metadata tensors
  flat : ∀ named ∈ tensors, Flat memory named.2
  fits : (headerOf metadata tensors).body.length ≤ config.maxHeaderSize

/-- Tensors whose file can be loaded: their numbers are machine numbers. -/
structure Safetensors.Loadable (config limits : Config) (memory : Memory)
    (metadata : Option (List (Text × Text))) (tensors : List (Text × Tensor)) (skip : List Text) :
    Prop where
  keys : ∀ pairs ∈ metadata, (pairs.map Prod.fst).Nodup
  regular : ∀ named ∈ tensors, named.2.stride.length = named.2.shape.length ∧ memory.Holds named.2
  measured : ∀ named ∈ tensors, Measured named.2
  layable : ∀ named ∈ tensors, named.1 ∉ skip → named.2.numel = 0 →
    Shape.requireContiguous named.2.shape = .ok ()
  limit : config.maxHeaderSize ≤ limits.maxHeaderSize

namespace FileFormat

/-- A module can be saved onto a stream. -/
def CanSave (format : FileFormat) (config : Config) (memory : Memory)
    (metadata : Option (List (Text × Text))) (m : Module) (skip : List Text) (s : Stream) : Prop :=
  match format with
  | .archive => Archive.Savable config memory m skip (Archive.startOn s)
  | .safetensors => Safetensors.Savable config memory metadata (m.saved skip)

/-- What has been saved of a module, all but `omitted`, can be loaded but for `skip`. -/
def CanLoad (format : FileFormat) (config limits : Config) (memory : Memory)
    (metadata : Option (List (Text × Text))) (m : Module) (omitted skip : List Text) : Prop :=
  match format with
  | .archive => Archive.Loadable config limits memory m omitted
  | .safetensors => Safetensors.Loadable config limits memory metadata (m.saved omitted) skip

/-- Tensors that can be loaded lie in their storages. -/
theorem CanLoad.held {format : FileFormat} {config limits : Config} {memory : Memory}
    {metadata : Option (List (Text × Text))} {m : Module} {omitted skip : List Text}
    (can : format.CanLoad config limits memory metadata m omitted skip) :
    ∀ named ∈ m.saved omitted, memory.Holds named.2 := by
  intro named hn
  cases format with
  | archive =>
    have storable := can.recordable.storable named hn
    exact (Nat.mul_le_mul_right _ storable.fits.reach).trans (Nat.div_mul_le_self _ _)
  | safetensors => exact (can.regular named hn).2

/-- What the readers ask of the bytes as such: an archive is not so long that its records need larger fields,
nor does it look so, and a file is read from a stream that says whether it can seek. -/
def Legible : FileFormat → Stream → Prop
  | .archive, u => u.image.length < 256 ^ 4 ∧ ¬ Zip.HasLocator u.image
  | .safetensors, u => u.mode ≠ .bare ∧ u.readFault? u.content.length = none

end FileFormat

section Saving

variable {format : FileFormat} {config : Config} {metadata : Option (List (Text × Text))} {m : Module}
  {skip : List Text} {w w' : World} {target : Endpoint} {s : Stream}

theorem Archive.ensures_saveAnywhere_graph {memory : Memory} (distinct : m.Distinct) (steady : s.Steady)
    (can : Savable config memory m skip (startOn s)) :
    (saveAnywhere config (m.graph memory skip).2 (m.graph memory skip).1).Ensures s
      (fun _ t => t.Steady) fun _ _ => False := by
  obtain ⟨same, entries, versioned, versions, word, shows⟩ := m.graph_shows memory skip
  apply ensures_saveAnywhere steady
  intro t healthy start
  apply ensures_save_storable healthy (m.asOrdered_graph memory skip)
    (shows.mapsTensors (distinct.saved skip) distinct.paths) (shows.shortTexts can.names can.paths)
  · rw [same]
    exact can.recordable.storable
  · exact can.recordable.alike
  · exact can.archive
  · exact can.batch
  · exact can.roomy
  · rw [same, start]
    exact can.fits

theorem Module.perform_saveArchive (config : Config) (m : Module) (skip : List Text) (target : Endpoint)
    (w : World) : (m.saveArchive config skip target).perform w =
      (World.writing target (Bench.onStream (Archive.saveAnywhere config (m.graph w.memory skip).2
        (m.graph w.memory skip).1))).perform w := by
  have now : (get : Effect World World) w = .ok w w := rfl
  unfold saveArchive
  rw [perform, bind_of_ok now]
  dsimp only
  generalize m.graph w.memory skip = shown
  rfl

theorem Module.perform_saveSafetensors (config : Config) (m : Module) (skip : List Text)
    (pairs : Option (List (Json.Value × Json.Value))) (target : Endpoint) (w : World) :
    (m.saveSafetensors config skip pairs target).perform w = (World.writing target
      (Bench.onStream (discard (Safetensors.save config w.memory pairs (m.saved skip))))).perform w := by
  have now : (get : Effect World World) w = .ok w w := rfl
  unfold saveSafetensors
  rw [perform, bind_of_ok now]
  generalize (discard (Safetensors.save config w.memory pairs (m.saved skip)) : Action PUnit) = saving
  rfl

/-- A module that can be saved is saved. -/
theorem Module.exists_saveAs (distinct : m.Distinct) (creates : w.created target = .ok s)
    (steady : s.Steady) (can : format.CanSave config w.memory metadata m skip s) :
    ∃ w', (m.saveAs format config skip (metadata.map Safetensors.textsOf) target).perform w =
      (.ok (), w') := by
  cases format with
  | archive =>
    obtain ⟨_, w', written⟩ := World.exists_writing creates
      (Archive.ensures_saveAnywhere_graph distinct steady can)
    refine ⟨w', ?_⟩
    rw [saveAs, perform_saveArchive]
    exact written
  | safetensors =>
    have saves : (discard (Safetensors.save config w.memory (metadata.map Safetensors.textsOf)
        (m.saved skip)) : Action Unit).Ensures s (fun _ t => t.Steady) fun _ _ => False := by
      rw [ensures_discard]
      exact Safetensors.ensures_save steady can.nameable can.flat can.fits fun _ => steady.after _ _ _
    obtain ⟨_, w', written⟩ := World.exists_writing creates saves
    refine ⟨w', ?_⟩
    rw [saveAs, perform_saveSafetensors]
    exact written

/-- What a save that has been done has written. -/
theorem Module.exists_of_saveArchive (creates : w.created target = .ok s)
    (saved : (m.saveArchive config skip target).perform w = (.ok (), w')) :
    ∃ t left, (Archive.saveAnywhere config (m.graph w.memory skip).2 (m.graph w.memory skip).1).perform s =
      (.ok (), t) ∧ w'.opened target = .ok left ∧ left.content = t.content := by
  rw [perform_saveArchive] at saved
  exact World.exists_of_writing creates saved

theorem Module.exists_of_saveSafetensors {pairs : Option (List (Json.Value × Json.Value))}
    (creates : w.created target = .ok s)
    (saved : (m.saveSafetensors config skip pairs target).perform w = (.ok (), w')) :
    ∃ total t left, (Safetensors.save config w.memory pairs (m.saved skip)).perform s = (.ok total, t) ∧
      w'.opened target = .ok left ∧ left.content = t.content := by
  rw [perform_saveSafetensors] at saved
  obtain ⟨t, left, written, opens, content⟩ := World.exists_of_writing creates saved
  obtain ⟨total, written⟩ := perform_discard_eq_ok.1 written
  exact ⟨total, t, left, written, opens, content⟩

end Saving

end Checkpoint
