import Checkpoint.Proofs.Archive.SavedDecoding
import Checkpoint.Proofs.Names
import Checkpoint.Proofs.Reconcile
import Checkpoint.Proofs.Safetensors.RoundTrip
import Checkpoint.Proofs.World

/-! The stages of a load, the same in both formats.  A source is opened; its names are found and compared
with those of the target; the tensors that both sides have are read; and what has been read is merged.
Only the last stage touches the live tensors. -/

namespace Checkpoint

open Effect

/-- The names and the shapes of tensors. -/
def shapesOf (tensors : List (Text × Tensor)) : List (Text × List Nat) :=
  tensors.map fun named => (named.1, named.2.shape)

/-! ### What is read -/

/-- What is found at a source before any of its tensors is read: the names with their shapes, in the order in
which tensors are copied, and how those are read that are wanted.  With them come names of others. -/
structure Catalogue where
  listed : List (Text × List Nat)
  fetch : Action (StateDict × List Text)

def Catalogue.names (c : Catalogue) : List Text := c.listed.map Prod.fst

/-- The catalogue of an object stream that has been decoded. -/
def Archive.Decoded.catalogue (policy : Policy) (target : List Text) (decoded : Decoded) (arena : Arena) :
    Catalogue where
  listed := decoded.refs.map fun named => (named.1, named.2.shape.map Int.toNat)
  fetch := do
    let (tensors, arena) ← arena.materializeAll
      (decoded.refs.filter fun named => policy.shares target named.1)
    return ({ tensors, memory := arena.memory },
      (decoded.refs.map Prod.fst).filter fun name => !target.contains name)

/-- The catalogue that a header gives. -/
def Safetensors.Header.catalogue (policy : Policy) (target : List Text) (header : Header) : Catalogue where
  listed := header.inFileOrder.map fun e => (e.name, e.shape)
  fetch := do
    let names := header.names.filter fun name => !policy.skip.contains name
    let state ← loadPayload header (some (names.filter target.contains))
    return (state, names.filter fun name => !target.contains name)

namespace FileFormat

/-- Finds the names at a source, and how to read for a target with other names. -/
def catalogue (config : Config) (policy : Policy) (target : List Text) : FileFormat → Action Catalogue
  | .archive => do
    let (decoded, arena) ← (← Archive.Reader.openArchive).decode config
    return decoded.catalogue policy target arena
  | .safetensors => do
    let header ← Safetensors.readHeader config
    return header.catalogue policy target

/-- Reads for a target.  The names are compared before any tensor is read. -/
def read (config : Config) (policy : Policy) (target : List Text) (format : FileFormat) :
    Action (StateDict × List Text) := do
  let c ← format.catalogue config policy target
  if policy.strict then Effect.ofExcept (checkKeys c.names target policy.skip)
  c.fetch

/-- The stream that is read from: an archive is read from one that can seek. -/
def source : FileFormat → Action Stream
  | .archive => do
    if ← Stream.canSeek then get
    else return .ofBytes (← Stream.read none)
  | .safetensors => get

/-- The stream that a load reads from. -/
def reached (format : FileFormat) (w : World) (source : Endpoint) : Except Error Stream := do
  (format.source.perform (← w.opened source)).1

/-- What a load finds at a source, and the stream as it is left. -/
def listing (format : FileFormat) (config : Config) (policy : Policy) (target : List Text) (w : World)
    (source : Endpoint) : Except Error (Catalogue × Stream) := do
  let stream ← format.reached w source
  let (found, rest) := (format.catalogue config policy target).perform stream
  return (← found, rest)

/-- What a load reads for a target. -/
def found (format : FileFormat) (config : Config) (policy : Policy) (target : List Text) (w : World)
    (source : Endpoint) : Except Error (StateDict × List Text) := do
  ((format.read config policy target).perform (← format.reached w source)).1

/-- What comes of a load, and the memory as it is left: what has been read is merged. -/
def outcome (format : FileFormat) (config : Config) (policy : Policy) (target : List (Text × Tensor))
    (w : World) (source : Endpoint) : Except Error Merge × Memory :=
  match format.found config policy (target.map Prod.fst) w source with
  | .ok (state, unread) => (mergeState policy state target unread).perform w.memory
  | .error e => (.error e, w.memory)

end FileFormat

/-- Compares names if they have to agree. -/
def Policy.check (policy : Policy) (names target : List Text) : Except Error Unit :=
  if policy.strict then checkKeys names target policy.skip else .ok ()

theorem Policy.check_eq_error {policy : Policy} {names target : List Text} {e : Error} :
    policy.check names target = .error e ↔ policy.strict = true ∧ ¬ Agree policy.skip names target ∧
      e = .stateMismatch (Text.sort (onlyIn policy.skip target names))
        (Text.sort (onlyIn policy.skip names target)) := by
  unfold check
  cases policy.strict with
  | false => simp
  | true =>
    by_cases agree : Agree policy.skip names target
    · simp [agree, agree.checkKeys_eq]
    · simp [agree, checkKeys_of_not_agree agree, eq_comm]

/-- The names are compared with those that are found at the source. -/
theorem FileFormat.found_eq (format : FileFormat) (config : Config) (policy : Policy) (target : List Text)
    (w : World) (source : Endpoint) : format.found config policy target w source = (do
      let (c, rest) ← format.listing config policy target w source
      policy.check c.names target
      (c.fetch.perform rest).1) := by
  rw [found, listing]
  simp only [bind, Except.bind, pure, Except.pure]
  cases format.reached w source with
  | error e => rfl
  | ok stream =>
    dsimp only [read]
    rw [perform_bind]
    cases (format.catalogue config policy target).perform stream with
    | mk r rest =>
      cases r with
      | error e => rfl
      | ok c =>
        dsimp only
        rw [Policy.check]
        cases policy.strict with
        | false => rfl
        | true =>
          simp only [if_true, perform_bind, perform_ofExcept]
          cases checkKeys c.names target policy.skip <;> rfl

/-- What is found at a source has been listed by its catalogue. -/
theorem FileFormat.exists_of_listing {format : FileFormat} {config : Config} {policy : Policy}
    {target : List Text} {w : World} {source : Endpoint} {c : Catalogue} {rest : Stream}
    (h : format.listing config policy target w source = .ok (c, rest)) :
    ∃ stream, format.reached w source = .ok stream ∧
      (format.catalogue config policy target).perform stream = (.ok c, rest) := by
  rw [listing, bind_eq_ok] at h
  obtain ⟨stream, reached, h⟩ := h
  refine ⟨stream, reached, ?_⟩
  cases listed : (format.catalogue config policy target).perform stream with
  | mk r rest' =>
    rw [listed] at h
    cases r <;> cases h
    rfl

theorem FileFormat.listing_of_catalogue {format : FileFormat} {config : Config} {policy : Policy}
    {target : List Text} {w : World} {source : Endpoint} {c : Catalogue} {stream rest : Stream}
    (reached : format.reached w source = .ok stream)
    (listed : (format.catalogue config policy target).perform stream = (.ok c, rest)) :
    format.listing config policy target w source = .ok (c, rest) := by
  rw [listing, reached]
  simp only [bind, Except.bind, listed]
  rfl

/-- What has been read has been listed before, with names that agree if they have to. -/
theorem FileFormat.exists_of_found {format : FileFormat} {config : Config} {policy : Policy}
    {target : List Text} {w : World} {source : Endpoint} {state : StateDict} {unread : List Text}
    (h : format.found config policy target w source = .ok (state, unread)) :
    ∃ c rest rest', format.listing config policy target w source = .ok (c, rest) ∧
      c.fetch.perform rest = (.ok (state, unread), rest') := by
  rw [found_eq, bind_eq_ok] at h
  obtain ⟨⟨c, rest⟩, listed, h⟩ := h
  obtain ⟨⟨⟩, -, read⟩ := bind_eq_ok.1 h
  exact ⟨c, rest, _, listed, Prod.ext read rfl⟩

theorem Archive.Decoded.names_catalogue (policy : Policy) (target : List Text) (decoded : Decoded)
    (arena : Arena) : (decoded.catalogue policy target arena).names = decoded.refs.map Prod.fst := by
  rw [Catalogue.names, catalogue, List.map_map]
  rfl

theorem Safetensors.Header.names_catalogue (policy : Policy) (target : List Text) (header : Header) :
    (header.catalogue policy target).names.Perm header.names := by
  rw [Catalogue.names, catalogue, List.map_map]
  exact (List.mergeSort_perm _ _).map _

theorem Archive.read_eq (config : Config) (policy : Policy) (target : List Text) :
    FileFormat.archive.read config policy target = readFor config policy target >>= fun incoming =>
      pure (incoming.state, incoming.names.filter fun name => !target.contains name) := by
  simp only [FileFormat.read, FileFormat.catalogue, readFor, bind_assoc, pure_bind, Decoded.names_catalogue]
  refine congrArg (bind _) (funext fun r => congrArg (bind _) (funext fun found => ?_))
  cases policy.strict <;> simp [Decoded.catalogue, Policy.shares]

/-- The names are compared in another order than they are listed in. -/
theorem Safetensors.read_eq (config : Config) (policy : Policy) (target : List Text) :
    FileFormat.safetensors.read config policy target = readFor config policy target := by
  have checked (header : Header) : checkKeys (header.catalogue policy target).names target policy.skip =
      checkKeys (header.names.filter fun name => !policy.skip.contains name) target policy.skip := by
    have counted := (header.names_catalogue policy target).filter fun name => !policy.skip.contains name
    rw [← checkKeys_congr counted.symm, checkKeys_congr (.refl _)]
  simp only [FileFormat.read, FileFormat.catalogue, readFor, bind_assoc, pure_bind, checked]
  rfl

/-! ### The catalogues -/

namespace Archive

theorem Arena.shape_materialize {a a' : Arena} {ref : Pickle.TensorRef} {t : Tensor} {s s' : Stream}
    (h : (a.materialize ref).perform s = (.ok (t, a'), s')) : t.shape = ref.shape.map Int.toNat := by
  rw [materialize, perform_bind_eq_ok] at h
  obtain ⟨_, _, -, h⟩ := h
  rw [perform_bind_eq_ok] at h
  obtain ⟨_, _, -, h⟩ := h
  rw [perform_bind_eq_ok] at h
  obtain ⟨_, _, -, h⟩ := h
  rw [perform_pure] at h
  cases h
  rfl

theorem Arena.shapes_materializeAll {a a' : Arena} {refs : List (Text × Pickle.TensorRef)}
    {tensors : List (Text × Tensor)} {s s' : Stream}
    (h : (a.materializeAll refs).perform s = (.ok (tensors, a'), s')) :
    shapesOf tensors = refs.map fun named => (named.1, named.2.shape.map Int.toNat) := by
  induction refs generalizing a tensors s with
  | nil =>
    cases h
    rfl
  | cons named refs ih =>
    rw [materializeAll, perform_bind_eq_ok] at h
    obtain ⟨first, _, made, h⟩ := h
    rw [perform_bind_eq_ok] at h
    obtain ⟨others, _, rest, h⟩ := h
    rw [perform_pure] at h
    cases h
    rw [shapesOf, List.map_cons, shape_materialize made]
    exact congrArg _ (ih rest)

end Archive

namespace Safetensors

/-- A step that may be left out does not change what comes out in the end. -/
theorem exists_perform_of_optional {α : Type} {p : Prop} [Decidable p] {x : Action PUnit}
    {f : PUnit → Action α} {a : α} {s t : Stream}
    (h : (if p then x >>= f else f ⟨⟩).perform s = (.ok a, t)) : ∃ u, (f ⟨⟩).perform u = (.ok a, t) := by
  split at h
  · rw [perform_bind_eq_ok] at h
    obtain ⟨⟨⟩, u, -, h⟩ := h
    exact ⟨u, h⟩
  · exact ⟨s, h⟩

theorem map_fst_readEntries {base : Option Nat} {position : Nat} {entries : List Entry}
    {parts : List (Entry × Bytes)} {s t : Stream}
    (h : (readEntries base position entries).perform s = (.ok parts, t)) :
    parts.map Prod.fst = entries := by
  induction entries generalizing position parts s t with
  | nil =>
    cases h
    rfl
  | cons e entries ih =>
    rw [readEntries] at h
    obtain ⟨u, h⟩ := exists_perform_of_optional h
    rw [perform_bind_eq_ok] at h
    obtain ⟨data, _, -, h⟩ := h
    obtain ⟨_, h⟩ := exists_perform_of_optional h
    obtain ⟨_, h⟩ := exists_perform_of_optional h
    rw [perform_bind_eq_ok] at h
    obtain ⟨others, _, rest, h⟩ := h
    rw [perform_pure] at h
    cases h
    exact congrArg _ (ih rest)

theorem shapes_loadPayload {header : Header} {keys : Option (List Text)} {state : StateDict}
    {s t : Stream} (h : (loadPayload header keys).perform s = (.ok state, t)) :
    shapesOf state.tensors = (header.selected keys).map fun e => (e.name, e.shape) := by
  rw [loadPayload, perform_bind_eq_ok] at h
  obtain ⟨base, _, -, h⟩ := h
  rw [perform_bind_eq_ok] at h
  obtain ⟨parts, _, read, h⟩ := h
  rw [perform_pure] at h
  cases h
  obtain ⟨-, tensors, listed, same⟩ := foldl_addTensor {} parts
  have shapes : parts.map (fun part => (part.1.name, part.1.shape)) = shapesOf tensors :=
    map_eq_map_of_forall₂ same fun part named h => by
      obtain ⟨name, storage, -, tensor⟩ := h
      rw [name, tensor]
      rfl
  rw [listed, List.nil_append, ← shapes, ← map_fst_readEntries read, List.map_map]
  rfl

end Safetensors

/-- A catalogue has each name once.  What both sides have is read from it, and of the other names those are
told that count. -/
structure Catalogue.Sound (policy : Policy) (target : List Text) (c : Catalogue) : Prop where
  distinct : c.names.Nodup
  reads : c.fetch.Fetches
  shapes : ∀ {s t state unread}, c.fetch.perform s = (.ok (state, unread), t) →
    shapesOf state.tensors = c.listed.filter fun named => policy.shares target named.1
  others : ∀ {s t state unread}, c.fetch.perform s = (.ok (state, unread), t) →
    (onlyIn policy.skip unread target).Perm (onlyIn policy.skip c.names target)

section Catalogues

variable {format : FileFormat} {config : Config} {policy : Policy} {target : List Text} {s t : Stream}
  {c : Catalogue}

theorem FileFormat.reads_catalogue (format : FileFormat) (config : Config) (policy : Policy)
    (target : List Text) : (format.catalogue config policy target).Tells := by
  cases format with
  | archive =>
    exact Archive.Reader.reads_openArchive.bind fun r => (r.reads_decode config).bind fun _ => reads_pure _
  | safetensors => exact (Safetensors.reads_readHeader config).bind fun _ => reads_pure _

theorem Archive.Decoded.sound_catalogue {decoded : Decoded} (distinct : (decoded.refs.map Prod.fst).Nodup)
    (arena : Arena) : (decoded.catalogue policy target arena).Sound policy target := by
  constructor
  · rwa [names_catalogue]
  · exact (arena.reads_materializeAll _).bind fun _ => reads_pure _
  · intro s t state unread read
    rw [catalogue, perform_bind_eq_ok] at read
    obtain ⟨⟨tensors, arena'⟩, _, made, read⟩ := read
    cases read
    rw [Arena.shapes_materializeAll made, catalogue, List.filter_map]
    rfl
  · intro s t state unread read
    rw [catalogue, perform_bind_eq_ok] at read
    obtain ⟨⟨tensors, arena'⟩, _, made, read⟩ := read
    cases read
    rw [names_catalogue, onlyIn, List.filter_filter, onlyIn]
    refine .of_eq (List.filter_congr fun name _ => ?_)
    cases target.contains name <;> simp

theorem Safetensors.Header.sound_catalogue {header : Header} (distinct : header.names.Nodup) :
    (header.catalogue policy target).Sound policy target := by
  have perm := header.names_catalogue policy target
  constructor
  · rwa [perm.nodup_iff]
  · exact (reads_loadPayload _ _).fetches.bind fun _ => reads_pure _
  · intro s t state unread read
    rw [catalogue, perform_bind_eq_ok] at read
    obtain ⟨loaded, _, loads, read⟩ := read
    cases read
    rw [shapes_loadPayload loads, catalogue, List.filter_map]
    -- The names that are asked for are those of the header, so that it is the same to ask for them.
    have asked : ∀ e ∈ header.inFileOrder, ((header.names.filter fun name =>
        !policy.skip.contains name).filter target.contains).contains e.name =
          policy.shares target e.name := by
      intro e he
      have named : e.name ∈ header.names := List.mem_map_of_mem (mem_inFileOrder.1 he)
      rw [List.filter_filter, Bool.eq_iff_iff, List.contains_iff_mem, List.mem_filter, and_iff_right named,
        Policy.shares, Bool.and_comm]
    exact congrArg _ (List.filter_congr asked)
  · intro s t state unread read
    rw [catalogue, perform_bind_eq_ok] at read
    obtain ⟨loaded, _, loads, read⟩ := read
    cases read
    have same : onlyIn policy.skip ((header.names.filter fun name => !policy.skip.contains name).filter
        fun name => !target.contains name) target = onlyIn policy.skip header.names target := by
      rw [onlyIn, List.filter_filter, List.filter_filter, onlyIn]
      refine List.filter_congr fun name _ => ?_
      cases target.contains name <;> cases policy.skip.contains name <;> rfl
    rw [same]
    exact (perm.filter _).symm

/-- Whatever is found at a source, its catalogue is sound. -/
theorem FileFormat.sound_catalogue
    (h : (format.catalogue config policy target).perform s = (.ok c, t)) : c.Sound policy target := by
  cases format with
  | archive =>
    rw [catalogue, perform_bind_eq_ok] at h
    obtain ⟨r, s₁, -, h⟩ := h
    rw [perform_bind_eq_ok] at h
    obtain ⟨⟨decoded, arena⟩, s₂, found, h⟩ := h
    cases h
    exact Archive.Decoded.sound_catalogue (Archive.Reader.nodup_names_decode found) arena
  | safetensors =>
    rw [catalogue, perform_bind_eq_ok] at h
    obtain ⟨header, s₁, read, h⟩ := h
    cases h
    exact Safetensors.Header.sound_catalogue (Safetensors.nodup_names_readHeader read)

/-- Whatever a load finds at a source, its catalogue is sound. -/
theorem FileFormat.sound_listing {w : World} {source : Endpoint}
    (h : format.listing config policy target w source = .ok (c, t)) : c.Sound policy target := by
  obtain ⟨stream, -, listed⟩ := exists_of_listing h
  exact sound_catalogue listed

theorem Catalogue.Sound.shared {state : StateDict} {unread : List Text} (sound : c.Sound policy target)
    (read : c.fetch.perform s = (.ok (state, unread), t)) :
    ∀ named ∈ state.tensors, policy.shares target named.1 = true := by
  intro named hn
  have listed : (named.1, named.2.shape) ∈ shapesOf state.tensors := List.mem_map_of_mem hn
  rw [sound.shapes read] at listed
  exact (List.mem_filter.1 listed).2

theorem Catalogue.Sound.map_fst {state : StateDict} {unread : List Text} (sound : c.Sound policy target)
    (read : c.fetch.perform s = (.ok (state, unread), t)) :
    state.tensors.map Prod.fst = c.names.filter (policy.shares target) := by
  have names : (shapesOf state.tensors).map Prod.fst = state.tensors.map Prod.fst := List.map_map
  rw [← names, sound.shapes read, Catalogue.names, List.filter_map]
  rfl

end Catalogues

/-! ### What is done with it -/

namespace Bench

variable {α : Type} {action action' : Effect Bench α} {b : Bench}

/-- What work comes to, and the memory as it is left. -/
def yields (action : Effect Bench α) (b : Bench) : Except Error α × Memory :=
  ((action.perform b).1, (action.perform b).2.memory)

/-- Reads from the stream, and merges into the memory. -/
def merging (policy : Policy) (target : List (Text × Tensor)) (read : Action (StateDict × List Text)) :
    Effect Bench Merge := do
  let (state, unread) ← onStream read
  onMemory (mergeState policy state target unread)

theorem yields_merging (policy : Policy) (target : List (Text × Tensor))
    (read : Action (StateDict × List Text)) (b : Bench) :
    yields (merging policy target read) b = match (read.perform b.stream).1 with
      | .ok (state, unread) => (mergeState policy state target unread).perform b.memory
      | .error e => (.error e, b.memory) := by
  rw [yields, merging, perform_bind, perform_onStream]
  cases read.perform b.stream with
  | mk r t =>
    cases r with
    | error e => rfl
    | ok found =>
      dsimp only
      rw [perform_onMemory]

/-- Work that needs to seek is done on the stream that is read from. -/
theorem yields_seekably (action : Effect Bench α) (b : Bench) :
    yields (seekably action) b = match (FileFormat.archive.source.perform b.stream).1 with
      | .ok stream => yields action ⟨stream, b.memory⟩
      | .error e => (.error e, b.memory) := by
  simp only [yields, seekably, FileFormat.source, perform_bind, perform_onStream]
  cases Stream.canSeek.perform b.stream with
  | mk answer s =>
    cases answer with
    | error e => rfl
    | ok answer =>
      cases answer with
      | true => rfl
      | false =>
        simp only [Bool.false_eq_true, if_false, perform_bind, perform_onStream]
        cases (Stream.read none).perform s with
        | mk bytes s' =>
          cases bytes with
          | error e => rfl
          | ok bytes =>
            dsimp only
            rw [perform_instead]
            rfl

theorem seekably_congr (h : ∀ stream, (FileFormat.archive.source.perform b.stream).1 = .ok stream →
    action.perform ⟨stream, b.memory⟩ = action'.perform ⟨stream, b.memory⟩) :
    (seekably action).perform b = (seekably action').perform b := by
  simp only [FileFormat.source, perform_bind] at h
  simp only [seekably, perform_bind, perform_onStream]
  cases asked : Stream.canSeek.perform b.stream with
  | mk answer s =>
    rw [asked] at h
    cases answer with
    | error e => rfl
    | ok answer =>
      cases answer with
      | true => exact h s rfl
      | false =>
        simp only [Bool.false_eq_true, if_false, perform_bind, perform_onStream] at h ⊢
        cases given : (Stream.read none).perform s with
        | mk bytes s' =>
          rw [given] at h
          cases bytes with
          | error e => rfl
          | ok bytes =>
            dsimp only
            rw [perform_instead, perform_instead, h _ rfl]

theorem closing_congr {leaveOpen : Bool} (h : action.perform b = action'.perform b) :
    (closing leaveOpen action).perform b = (closing leaveOpen action').perform b := by
  cases leaveOpen with
  | true => exact h
  | false => exact andFinally_congr h _

end Bench

namespace World

variable {α : Type} {action action' : Effect Bench α} {w : World} {source : Endpoint}

/-- What work comes to, and the memory as it is left. -/
def yields (work : Effect World α) (w : World) : Except Error α × Memory :=
  ((work.perform w).1, (work.perform w).2.memory)

/-- Reading from a source is working on the stream that it is opened as, as long as it can be closed. -/
theorem yields_reading (closes : ClosesAfter (reading · action) source w) :
    yields (reading source action) w = match w.opened source with
      | .ok opened => Bench.yields action ⟨opened, w.memory⟩
      | .error e => (.error e, w.memory) := by
  cases result : (reading source action).perform w with
  | mk r w' =>
    rw [yields, result]
    obtain ⟨e, opens, rfl, rfl⟩ | ⟨opened, after, opens, done, memory⟩ := exists_of_reading closes result
    · rw [opens]
    · rw [opens, memory]
      dsimp only
      rw [Bench.yields, done]

theorem reading_congr (h : ∀ opened, w.opened source = .ok opened →
    action.perform ⟨opened, w.memory⟩ = action'.perform ⟨opened, w.memory⟩) :
    (reading source action).perform w = (reading source action').perform w := by
  cases opens : w.opened source with
  | error e => rw [perform_reading_of_error opens, perform_reading_of_error opens]
  | ok opened =>
    have h := h opened opens
    cases source with
    | stream name leaveOpen =>
      cases opens
      change (withStream name leaveOpen action).perform w = (withStream name leaveOpen action').perform w
      rw [withStream, withStream, perform_focus, perform_focus, Bench.closing_congr h]
    | path path =>
      rw [World.opened] at opens
      rw [reading_path, reading_path]
      cases read : w.disk.read path with
      | error =>
        rw [read] at opens
        cases opens
      | ok content =>
        rw [read] at opens
        cases opens
        change (withFile content action).perform w = (withFile content action').perform w
        rw [withFile, withFile, perform_focus, perform_focus, h]

end World

theorem Archive.loadInto_eq (config : Config) (policy : Policy) (target : List (Text × Tensor)) (b : Bench) :
    (loadInto config policy target).perform b = (Bench.merging policy target
      (FileFormat.archive.read config policy (target.map Prod.fst))).perform b := by
  rw [loadInto, Bench.merging, read_eq]
  simp only [perform_bind, Bench.perform_onStream]
  cases (readFor config policy (target.map Prod.fst)).perform b.stream with
  | mk r t => cases r <;> rfl

namespace Recorded

/-- A report after a load: one that fails is not entered into it. -/
def told (earlier : Table Text Bool) : Except Error Merge → Table Text Bool
  | .ok merge => merge.fill earlier
  | .error _ => earlier

theorem perform_entering (load : Effect World Merge) (w : World) (report : Table Text Bool) :
    (entering load).perform ⟨w, report⟩ =
      ((load.perform w).1, ⟨(load.perform w).2, told report (load.perform w).1⟩) := by
  rw [entering, perform_bind, perform_focus]
  cases load.perform w with
  | mk r w' => cases r <;> rfl

theorem eq_of_entering {load : Effect World Merge} {w w' : World} {earlier later : Table Text Bool}
    {r : Except Error Merge} (h : (entering load).perform ⟨w, earlier⟩ = (r, ⟨w', later⟩)) :
    load.perform w = (r, w') ∧ later = told earlier r := by
  rw [perform_entering] at h
  cases h
  exact ⟨rfl, rfl⟩

end Recorded

section Loading

variable {format : FileFormat} {config : Config} {policy : Policy} {target : Module} {w : World}
  {source : Endpoint}

/-- Merging does not touch the streams. -/
theorem closesAfter_loadSafetensors :
    World.ClosesAfter (target.loadSafetensors config policy) source w ↔
      World.ClosesAfter (World.reading · (Bench.onStream
        (Safetensors.readFor config policy (target.entries.map Prod.fst)))) source w := by
  have same (name : Text) : ((target.loadSafetensors config policy (.stream name true)).perform w).2.stream name =
      ((World.reading (.stream name true) (Bench.onStream
        (Safetensors.readFor config policy (target.entries.map Prod.fst)))).perform w).2.stream name := by
    rw [Module.loadSafetensors, World.stream, World.stream]
    exact congrArg (fun streams => (Table.get? streams name).getD ({} : Stream))
      (World.streams_bind_onMemory _ _ w)
  simp only [World.ClosesAfter, same]

/-- A load that has been done has closed its stream. -/
theorem Module.closesAfter_of_ok {merge : Merge} {w' : World}
    (loaded : (target.loadAs format config policy source).perform w = (.ok merge, w')) :
    World.ClosesAfter (target.loadAs format config policy) source w := by
  cases format with
  | archive => exact World.closesAfter_of_ok loaded
  | safetensors =>
    obtain ⟨_, _, read, -⟩ := perform_bind_eq_ok.1 loaded
    exact closesAfter_loadSafetensors.2 (World.closesAfter_of_ok read)

/-- A load comes to what its stages come to, as long as its source can be closed. -/
theorem Module.yields_loadAs (closes : World.ClosesAfter (target.loadAs format config policy) source w) :
    World.yields (target.loadAs format config policy source) w =
      format.outcome config policy target.entries w source := by
  rw [FileFormat.outcome, FileFormat.found, FileFormat.reached]
  cases format with
  | archive =>
    rw [loadAs, loadArchive, World.yields_reading closes]
    cases w.opened source with
    | error e => rfl
    | ok opened =>
      dsimp only
      rw [Bench.yields_seekably]
      simp only [bind, Except.bind]
      cases (FileFormat.archive.source.perform opened).1 with
      | error e => rfl
      | ok stream =>
        dsimp only
        rw [Bench.yields, Archive.loadInto_eq, ← Bench.yields, Bench.yields_merging]
  | safetensors =>
    have read := World.yields_reading (closesAfter_loadSafetensors.1 closes)
    rw [loadAs, loadSafetensors, World.yields, perform_bind, Safetensors.read_eq]
    cases done : (World.reading source (Bench.onStream
        (Safetensors.readFor config policy (target.entries.map Prod.fst)))).perform w with
    | mk r w₁ =>
      rw [World.yields, done] at read
      cases opens : w.opened source with
      | error e =>
        rw [opens] at read
        obtain ⟨rfl, memory⟩ := Prod.mk.inj read
        exact congrArg _ memory
      | ok opened =>
        rw [opens] at read
        simp only [Bench.yields, Bench.perform_onStream] at read
        obtain ⟨rfl, memory⟩ := Prod.mk.inj read
        simp only [bind, Except.bind, FileFormat.source, perform_get]
        cases ((Safetensors.readFor config policy (target.entries.map Prod.fst)).perform opened).1 with
        | error e => exact congrArg _ memory
        | ok found =>
          dsimp only at memory ⊢
          rw [World.perform_onMemory, memory]

/-- What is recorded of a load that comes to something. -/
theorem Recorded.exists_entering {r : Except Error Merge} {m' : Memory} (earlier : Table Text Bool)
    (closes : World.ClosesAfter (target.loadAs format config policy) source w)
    (done : format.outcome config policy target.entries w source = (r, m')) :
    ∃ w', (entering (target.loadAs format config policy source)).perform ⟨w, earlier⟩ =
      (r, ⟨w', told earlier r⟩) ∧ w'.memory = m' := by
  obtain ⟨result, memory⟩ := Prod.mk.inj ((Module.yields_loadAs closes).trans done)
  refine ⟨_, ?_, memory⟩
  rw [perform_entering, result]

end Loading

/-- Under one name a number, and under another so many, of one storage. -/
def numbers (first second : Text) (storage count stride : Nat) : Module := .node
  [(first, { dtype := .uint8, shape := [1], stride := [1], offset := 0, storage }),
    (second, { dtype := .uint8, shape := [count], stride := [stride], offset := 1, storage })] [] [] []

/-- A world with a little memory. -/
def numbered : World := { memory := ⟨[[3, 4, 5], [6, 7, 8]]⟩ }

/-- The same with an archive of a module at the beginning of a stream. -/
def archived (m : Module) : World :=
  (((m.saveArchive Archive.unpadded [] (.stream "s" true)).perform numbered).2).place "s" 0

end Checkpoint
