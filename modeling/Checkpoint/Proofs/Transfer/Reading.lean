import Checkpoint.Proofs.Transfer.Saving
import Checkpoint.Proofs.Transfer.Stages

/-! Reading for a target: of what has been saved, the tensors that the target has too are read as they
were. -/

namespace Checkpoint

open Effect

/-- A tensor is there as it was: with the same name, type, shape and elements, and without gaps if it had
none. -/
structure Brought (memory memory' : Memory) (named named' : Text × Tensor) : Prop where
  same : Safetensors.SameElements memory memory' named named'
  contiguous : named.2.isContiguous = true → named'.2.isContiguous = true

/-- A catalogue lists tensors, and those that a target has too are brought as they were. -/
structure Catalogue.Brings (policy : Policy) (target : List Text) (memory : Memory)
    (tensors : List (Text × Tensor)) (c : Catalogue) (s : Stream) : Prop where
  steady : s.Steady
  names : c.names.Perm (tensors.map Prod.fst)
  fetch : c.fetch.Ensures s (fun found t => t.Steady ∧ ∃ sources,
    sources.Perm (tensors.filter fun named => policy.shares target named.1) ∧
    List.Forall₂ (Brought memory found.1.memory) sources found.1.tensors) fun _ _ => False

namespace Safetensors

variable {config : Config} {memory : Memory} {metadata : Option (List (Text × Text))}
  {tensors : List (Text × Tensor)} {policy : Policy} {target : List Text}

/-- The names in a file that are not skipped. -/
def unskipped (policy : Policy) (tensors : List (Text × Tensor)) : List Text :=
  (Text.sort (tensors.map Prod.fst)).filter fun name => !policy.skip.contains name

/-- All names that are asked for are in the file. -/
theorem selected_headerOf (metadata : Option (List (Text × Text))) (policy : Policy) (target : List Text) :
    (headerOf metadata tensors).selected (some ((unskipped policy tensors).filter target.contains)) =
      (layOut 0 (inNameOrder tensors)).filter fun e => policy.shares target e.name := by
  rw [Header.selected, headerOf, inFileOrder_layOut]
  apply List.filter_congr
  intro e he
  obtain ⟨named, hn, name, -⟩ := exists_of_forall₂ (layOut_names 0 (inNameOrder tensors)) he
  have listed : e.name ∈ Text.sort (tensors.map Prod.fst) := by
    rw [name, Text.sort, List.mem_mergeSort]
    exact List.mem_map_of_mem (mem_inNameOrder.1 hn)
  rw [unskipped, List.filter_filter, Bool.eq_iff_iff, List.contains_iff_mem, List.mem_filter,
    and_iff_right listed, Policy.shares, Bool.and_comm]

theorem brought_stateOf {payload : Bytes} {entries : List Entry}
    (described : List.Forall₂ (Describes memory payload) entries tensors)
    (held : ∀ named ∈ tensors, memory.Holds named.2) :
    List.Forall₂ (Brought memory (stateOf payload entries).memory) tensors
      (stateOf payload entries).tensors := by
  have laid : ∀ loaded ∈ (stateOf payload entries).tensors, loaded.2.isContiguous = true := by
    intro loaded hl
    obtain ⟨part, -, -, storage, -, tensor⟩ := exists_of_forall₂ (stateOf_read payload entries).flip hl
    rw [tensor]
    exact Tensor.isContiguous_rowMajor _ _ _
  have same := (List.forall₂_and_left _ _).2 ⟨laid, (sameElements_stateOf described held).flip⟩
  exact same.flip.imp fun _ _ h => ⟨h.2, fun _ => h.1⟩

/-- The tensors that a target has too are read from the payload as they were written. -/
theorem ensures_loadPayload_shared {u : Stream}
    (held : ∀ named ∈ tensors, memory.Holds named.2)
    (layable : ∀ named ∈ tensors, policy.shares target named.1 = true → named.2.numel = 0 →
      Shape.requireContiguous named.2.shape = .ok ())
    (hu : u.Offers (payloadOf memory (inNameOrder tensors)))
    (valid : (headerOf metadata tensors).validate
      (some (payloadOf memory (inNameOrder tensors)).length) = .ok ()) :
    (loadPayload (headerOf metadata tensors)
      (some ((unskipped policy tensors).filter target.contains))).Ensures u (fun state t => t.Steady ∧
        List.Forall₂ (Brought memory state.memory)
          ((inNameOrder tensors).filter fun named => policy.shares target named.1) state.tensors)
      fun _ _ => False := by
  apply ensures_loadPayload hu valid ordered_layOut
  · rw [selected_headerOf]
    intro e he none
    obtain ⟨he, counts⟩ := List.mem_filter.1 he
    obtain ⟨named, hn, names⟩ := exists_of_forall₂ (layOut_names 0 (inNameOrder tensors)) he
    rw [names.1] at counts
    rw [names.size_eq] at none
    rw [names.2.2.1]
    apply layable named (mem_inNameOrder.1 hn) counts
    exact (Nat.mul_eq_zero.1 none).resolve_right (Nat.ne_of_gt named.2.dtype.size_pos)
  · intro calls n
    rw [selected_headerOf]
    refine ⟨hu.steady.after _ _ _, brought_stateOf ?_ ?_⟩
    · refine List.rel_filter ?_ (layOut_describes (fun named hn => held named (mem_inNameOrder.1 hn)) [])
      intro e named described
      dsimp only
      rw [described.1.1]
    · exact fun named hn => held named (mem_inNameOrder.1 (List.mem_filter.1 hn).1)

/-- What is found in a file that has been written. -/
theorem ensures_catalogue_written {u : Stream} (nameable : Nameable metadata tensors)
    (flat : ∀ named ∈ tensors, Flat memory named.2) (measured : ∀ named ∈ tensors, Measured named.2)
    (fits : (headerOf metadata tensors).body.length ≤ config.maxHeaderSize)
    (layable : ∀ named ∈ tensors, policy.shares target named.1 = true → named.2.numel = 0 →
      Shape.requireContiguous named.2.shape = .ok ())
    (hu : u.Offers (fileOf memory metadata tensors)) :
    (FileFormat.safetensors.catalogue config policy target).Ensures u
      (fun c t => c.Brings policy target memory tensors t) fun _ _ => False := by
  unfold FileFormat.catalogue
  rw [ensures_bind]
  apply ensures_readHeader_written nameable flat measured fits hu
  intro calls valid offers
  refine (ensures_pure _).2 ⟨offers.steady, ?_, ?_⟩
  · refine (Header.names_catalogue policy target _).trans ?_
    rw [names_headerOf]
    exact List.mergeSort_perm _ _
  · rw [Header.catalogue, names_headerOf]
    refine (ensures_bind _).2 ((ensures_loadPayload_shared (fun named hn => (flat named hn).held) layable
      offers valid).post fun state t read => ?_)
    exact (ensures_pure _).2 ⟨read.1, _, (List.mergeSort_perm _ _).filter _, read.2⟩

end Safetensors

namespace Archive

open Pickle

variable {config limits : Config} {g g' : Graph} {id top : Nat} {d : Graph.Dump} {memory memory' : Memory}
  {tensors tensors' : List (Text × Tensor)} {attributes : List (Text × Nat)} {policy : Policy}
  {target : List Text}

theorem map_fst_viewsOf (uses : List StorageUse) (tensors : List (Text × Tensor)) :
    (viewsOf uses tensors).map Prod.fst = tensors.map Prod.fst := by
  rw [viewsOf, List.map_map]
  rfl

/-- Tensors over storages with the same bytes have the same elements. -/
theorem SameTensors.brought (h : SameTensors memory memory' tensors tensors') :
    List.Forall₂ (Brought memory memory') tensors tensors' := by
  obtain ⟨place, rfl, buffers, -⟩ := h
  refine forall₂_map_self fun named hn => ⟨⟨rfl, rfl, rfl, ?_⟩, id⟩
  rw [Memory.elements, Memory.elements, ← buffers named hn]
  rfl

/-- What is found in an archive that has been saved. -/
theorem ensures_catalogue_saved {s t u : Stream} {names : List Text} (healthy : s.Healthy)
    (ha : g.asOrdered id = .ok (top, g')) (can : Recoverable g' top tensors attributes)
    (within : ∀ named ∈ tensors,
      named.2.requireWithin (g'.memory.buffer named.2.storage).length = .ok ())
    (whole : (0 : CodePoint) ∉ config.archiveName.points) (hd : g.dump config id = .ok d)
    (saved : (save config g id).perform s = (.ok names, t))
    (last : t.content.length = t.position) (unlike : ¬ Zip.HasLocator t.content)
    (admits : Admits limits g'.memory d) (hu : u.Has t.content) :
    (FileFormat.archive.catalogue limits policy target).Ensures u
      (fun c t => c.Brings policy target g'.memory tensors t) fun _ _ => False := by
  obtain ⟨_, _, e, ha', hs, hde⟩ := Graph.dump_eq_ok.1 hd
  cases ha.symm.trans ha'
  have entered : Encoder.Entered (g'.TensorIn top) d.storages :=
    hde ▸ entered_of_stream can.restorable hs
  unfold FileFormat.catalogue
  rw [ensures_bind]
  apply ensures_open_saved healthy ha can.restorable whole hd saved last unlike hu
  intro r u' reads order hu'
  obtain ⟨v, c, m, w, fields, loaded, ⟨rfl, unread⟩, restored, shown, decoded, -⟩ :=
    exists_decoded ha hd can reads admits
  obtain ⟨o, table, fields', -, -, -, registered, -⟩ := mapping_restored restored can.maps
  have stored : ∀ named ∈ tensors, Arena.Stored g'.memory d.storages named.2 := fun named hn =>
    stored_of_registered restored (registered named hn) (within named hn)
  have checked : ∀ named ∈ tensors,
      m.arena.check (viewOf named.2 (storageNumber d.storages named.2)) = .ok () := fun named hn =>
    ofValue_mem decoded (List.mem_map_of_mem (f := fun named : Text × Tensor =>
      (named.1, viewOf named.2 (storageNumber d.storages named.2))) hn)
  have kept {named : Text × Tensor} (hn : named ∈ tensors.filter fun named =>
      policy.shares target named.1) : named ∈ tensors := (List.mem_filter.1 hn).1
  rw [ensures_bind]
  apply ensures_decode reads loaded decoded hu'
  intro t' ht'
  refine (ensures_pure _).2 ⟨ht'.healthy.steady, ?_, ?_⟩
  · rw [Decoded.names_catalogue, map_fst_viewsOf]
  · have wanted : (viewsOf d.storages tensors).filter (fun named => policy.shares target named.1) =
        viewsOf d.storages (tensors.filter fun named => policy.shares target named.1) := by
      rw [viewsOf, viewsOf, List.filter_map]
      rfl
    dsimp only [Decoded.catalogue]
    rw [wanted, ensures_bind]
    apply Arena.ensures_materializeAll reads order entered (Arena.holds_of_unread unread _ _)
      (fun named hn => stored named (kept hn)) (fun named hn => checked named (kept hn)) ht'
    intro a u'' has _ holds read
    exact (ensures_pure _).2 ⟨has.healthy.steady, _, .refl _,
      (sameTensors_placed entered holds (fun named hn => stored named (kept hn)) read).brought⟩

end Archive

/-! ### What has been saved -/

/-- From a stream, tensors can be listed and those brought that a target has too. -/
def FileFormat.Recovers (format : FileFormat) (limits : Config) (policy : Policy) (target : List Text)
    (memory : Memory) (tensors : List (Text × Tensor)) (u : Stream) : Prop :=
  ∃ v u', format.source.perform u = (.ok v, u') ∧ u'.Steady ∧
    (format.catalogue limits policy target).Ensures v
      (fun c t => c.Brings policy target memory tensors t) fun _ _ => False

/-- An archive is read from a stream with the same bytes that can seek. -/
theorem Archive.ensures_source {u : Stream} (steady : u.Steady) :
    FileFormat.archive.source.Ensures u
      (fun v u' => u'.Steady ∧ v.Healthy ∧ v.content = u.image) fun _ _ => False := by
  unfold FileFormat.source
  rw [ensures_bind]
  apply Stream.ensures_canSeek steady
  intro calls
  by_cases mode : u.mode = .seekable
  · rw [if_pos (decide_eq_true mode), Stream.image, if_pos mode]
    exact ensures_get.2 ⟨steady.after _ _ _, ⟨mode, steady.after _ _ _⟩, rfl⟩
  · rw [if_neg (by simp [mode]), Stream.image, if_neg mode, ensures_bind]
    apply Stream.ensures_read (steady.after _ _ _) rfl
    exact fun _ => (ensures_pure _).2 ⟨steady.after _ _ _, ⟨rfl, rfl, rfl, rfl⟩, rfl⟩

section Recovering

variable {config limits : Config} {memory : Memory} {metadata : Option (List (Text × Text))} {m : Module}
  {omitted target : List Text} {policy : Policy} {s t u : Stream}

/-- The archive of a module is read wherever it is. -/
theorem Archive.recovers_saved (distinct : m.Distinct) (steady : s.Steady)
    (ended : s.position = s.content.length) (can : Loadable config limits memory m omitted)
    (saved : (saveAnywhere config (m.graph memory omitted).2 (m.graph memory omitted).1).perform s =
      (.ok (), t))
    (steady' : u.Steady) (mode : u.mode = s.mode) (place : u.position = s.position)
    (content : u.content = t.content) (legible : FileFormat.archive.Legible u) :
    FileFormat.archive.Recovers limits policy target memory (m.saved omitted) u := by
  obtain ⟨same, entries, versioned, versions, word, shows⟩ := m.graph_shows memory omitted
  have ordered := m.asOrdered_graph memory omitted
  obtain ⟨s', t', written, healthy', ended', saved', image⟩ := exists_of_saveAnywhere steady ended saved
  have found : u.image = t'.content := image u mode place content
  have maps := shows.mapsTensors (distinct.saved omitted) distinct.paths
  obtain ⟨storable, alike⟩ := can.recordable
  rw [← same] at storable
  have recoverable : Recoverable (m.graph memory omitted).2 (m.graph memory omitted).1 (m.saved omitted)
      [(Pickle.metadataName, versions)] :=
    .of_plain maps (fun n hn => (storable n hn).whole) alike fun n hn => (storable n hn).fits
  have last := ends_of_save healthy' ended' ordered recoverable.restorable can.archive saved'
  obtain ⟨d, _, dumped, -⟩ := perform_bind_eq_ok.1 (save_eq config _ _ ▸ saved')
  have hd := (perform_ofExcept_eq_ok.1 dumped).1
  have admits := can.admits d hd
  rw [← same] at admits
  obtain ⟨short, unlike⟩ := legible
  obtain ⟨v, u', sought, steady'', healthy, holds⟩ := (ensures_source steady').exists_ok
  refine ⟨v, u', sought, steady'', ?_⟩
  rw [← same]
  exact ensures_catalogue_saved healthy' ordered recoverable (fun n hn => (storable n hn).within) can.archive
    hd saved' last (found ▸ unlike) admits ⟨healthy, holds.trans found, found ▸ short⟩

/-- The file of a module is read wherever it is. -/
theorem Safetensors.recovers_saved {tensors : List (Text × Tensor)} {total : Nat} {strict : Bool}
    {skip : List Text}
    (distinct : (tensors.map Prod.fst).Nodup) (steady : s.Steady) (ended : s.position = s.content.length)
    (can : Loadable config limits memory metadata tensors skip)
    (saved : (save config memory (metadata.map textsOf) tensors).perform s = (.ok total, t))
    (steady' : u.Steady) (place : u.position = s.position) (content : u.content = t.content)
    (legible : FileFormat.safetensors.Legible u) :
    FileFormat.safetensors.Recovers limits ⟨strict, skip⟩ target memory tensors u := by
  obtain ⟨nameable, flat, fits⟩ := of_save distinct can.keys can.regular saved
  obtain ⟨answers, small⟩ := legible
  have written : (save config memory (metadata.map textsOf) tensors).Ensures s
      (fun _ t => t.content = Stream.overwrite s.content s.position (fileOf memory metadata tensors))
      fun _ _ => True := ensures_save steady nameable flat fits fun _ => rfl
  have whole := written.of_ok saved
  have offers : u.Offers (fileOf memory metadata tensors) := by
    refine ⟨steady', answers, ?_, ?_, small⟩
    · rw [content, whole, Stream.length_overwrite, place, ended]
      exact Nat.le_max_left _ _
    · rw [content, whole, place, ended]
      exact Stream.drop_overwrite _ _
  have layable : ∀ named ∈ tensors, Policy.shares ⟨strict, skip⟩ target named.1 = true →
      named.2.numel = 0 → Shape.requireContiguous named.2.shape = .ok () := by
    intro named hn shares
    refine can.layable named hn ?_
    simpa using (Bool.and_eq_true_iff.1 shares).1
  exact ⟨u, u, rfl, steady', ensures_catalogue_written nameable flat can.measured
    (Nat.le_trans fits can.limit) layable offers⟩

/-- What a save has written can be read again for any target, wherever it is. -/
theorem Module.recovers_saveAs {format : FileFormat} {w w' : World} {dest : Endpoint} {skip : List Text}
    (distinct : m.Distinct) (creates : w.created dest = .ok s) (steady : s.Steady)
    (ended : s.position = s.content.length)
    (can : format.CanLoad config limits w.memory metadata m omitted skip)
    (saved : (m.saveAs format config omitted (metadata.map Safetensors.textsOf) dest).perform w =
      (.ok (), w')) :
    ∃ left, w'.opened dest = .ok left ∧ ∀ (strict : Bool) (target : List Text) (u : Stream), u.Steady →
      u.mode = s.mode → u.position = s.position → u.content = left.content → format.Legible u →
        format.Recovers limits ⟨strict, skip⟩ target w.memory (m.saved omitted) u := by
  cases format with
  | archive =>
    obtain ⟨t, left, written, opens, content⟩ := Module.exists_of_saveArchive creates saved
    exact ⟨left, opens, fun _ _ u steady' mode place same legible => Archive.recovers_saved distinct steady
      ended can written steady' mode place (same.trans content) legible⟩
  | safetensors =>
    obtain ⟨total, t, left, written, opens, content⟩ := Module.exists_of_saveSafetensors creates saved
    exact ⟨left, opens, fun strict _ u steady' _ place same legible => Safetensors.recovers_saved
      (distinct.saved omitted) steady ended can written steady' place (same.trans content) legible⟩

end Recovering

end Checkpoint
