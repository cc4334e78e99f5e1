import Checkpoint.Archive.Load
import Checkpoint.Proofs.Archive.Saving
import Checkpoint.Proofs.Pickle.GraphRoundTrip
import Checkpoint.Proofs.Pickle.Integrity
import Checkpoint.Proofs.Tensor.Elements

/-! Decoding saved archives: what is written for a mapping from names to tensors is read as a view for
each of them. -/

namespace Checkpoint

open Effect Pickle

/-- A view that lies within a storage of `count` elements, also where it has no elements itself. -/
structure Tensor.FitsIn (t : Tensor) (count : Nat) : Prop where
  rank : t.shape.length = t.stride.length
  offset : t.offset ≤ count
  reach : t.reach ≤ count

section Views

variable {t : Tensor}

theorem numel_viewOf (t : Tensor) (n : Nat) : (viewOf t n).numel = t.numel := by
  have product (shape : List Nat) :
      (shape.map Int.ofNat).foldr (· * ·) 1 = (Shape.count shape : Int) := by
    induction shape with
    | nil => rfl
    | cons n shape ih => simp [Shape.count, ih]
  exact product t.shape

theorem reach_ofNat {shape : List Nat} (full : ∀ n ∈ shape, n ≠ 0) (stride : List Nat) (start : Nat) :
    ((((shape.zip stride).map fun p => (p.1 - 1) * p.2).foldl (· + ·) start : Nat) : Int) =
      start + TensorRef.reach (shape.map Int.ofNat) (stride.map Int.ofNat) := by
  induction shape generalizing stride start with
  | nil => simp [TensorRef.reach]
  | cons n shape ih =>
    obtain ⟨hn, full⟩ := List.forall_mem_cons.1 full
    cases stride with
    | nil => simp [TensorRef.reach]
    | cons k stride =>
      have step : (((n - 1) * k : Nat) : Int) = ((n : Int) - 1) * k := by
        rw [Nat.cast_mul, Nat.cast_pred (Nat.pos_of_ne_zero hn)]
      simp only [List.zip_cons_cons, List.map_cons, List.foldl_cons, ih full, TensorRef.reach,
        Int.ofNat_eq_natCast]
      push_cast [step]
      ring

theorem extent_viewOf (t : Tensor) (n : Nat) :
    (viewOf t n).extent = if t.numel = 0 then (t.offset : Int) else t.reach := by
  unfold TensorRef.extent
  rw [numel_viewOf]
  by_cases empty : t.numel = 0
  · rw [if_pos empty, if_pos (by exact_mod_cast empty)]
    rfl
  · rw [if_neg empty, if_neg (by exact_mod_cast empty), Tensor.reach, if_neg empty]
    have furthest := reach_ofNat (Shape.ne_zero_of_count empty) t.stride 1
    change (t.offset : Int) + TensorRef.reach (t.shape.map Int.ofNat) (t.stride.map Int.ofNat) + 1 =
      ((t.offset + ((t.shape.zip t.stride).map fun p => (p.1 - 1) * p.2).foldl (· + ·) 1 : Nat) : Int)
    push_cast at furthest ⊢
    omega

theorem extent_viewOf_le {count : Nat} (h : t.FitsIn count) (n : Nat) : (viewOf t n).extent ≤ count := by
  have offset := h.offset
  have reach := h.reach
  rw [extent_viewOf]
  split <;> omega

theorem checkView_viewOf {count : Nat} (h : t.FitsIn count) (n : Nat) :
    Archive.Arena.checkView (viewOf t n) count = .ok () := by
  have rank : ¬ (viewOf t n).shape.length ≠ (viewOf t n).stride.length := by
    simpa [viewOf] using h.rank
  have natural : ¬ ((viewOf t n).offset < 0 ∨ ((viewOf t n).shape.any (· < 0)) = true ∨
      ((viewOf t n).stride.any (· < 0)) = true) := by
    simp [viewOf]
  have within : ¬ (count : Int) < (viewOf t n).extent := Int.not_lt.2 (extent_viewOf_le h n)
  unfold Archive.Arena.checkView
  rw [if_neg rank, if_neg natural, if_neg within]

end Views

namespace Archive

/-- An ordered mapping from names to tensors. -/
def MapsNames (g : Graph) (top : Nat) (tensors : List (Text × Tensor))
    (attributes : List (Text × Nat)) : Prop :=
  ∃ entries, g.node top = .ordered entries attributes ∧
    List.Forall₂ (fun e named => g.node e.1 = .text named.1 ∧ g.node e.2 = .tensor named.2)
      entries tensors

/-- The views that named tensors are written as. -/
def viewsOf (uses : List StorageUse) (tensors : List (Text × Tensor)) : List (Text × TensorRef) :=
  tensors.map fun named => (named.1, viewOf named.2 (storageNumber uses named.2))

section Decoded

variable {g : Graph} {uses : List StorageUse} {top : Nat} {v : Value} {w : Pickle.World} {m : Machine}
  {tensors : List (Text × Tensor)} {attributes : List (Text × Nat)}

theorem checkEntries_eq {h : Heap} {arena : Arena} {f : Tensor → TensorRef}
    (checked : ∀ named ∈ tensors, arena.check (f named.2) = .ok ()) :
    checkEntries h arena (tensors.map fun named => (.text named.1, .tensor (f named.2))) =
      .ok (tensors.map fun named => (named.1, f named.2)) := by
  induction tensors with
  | nil => rfl
  | cons named tensors ih =>
    obtain ⟨first, checked⟩ := List.forall_mem_cons.1 checked
    simp only [List.map_cons, checkEntries, first, ih checked, bind, Except.bind, pure, Except.pure]

theorem shows_text {id : Nat} {t : Text} (hg : g.node id = .text t) (hv : Shows g uses w id v) :
    v = .text t := by
  cases hv with
  | text hg' =>
    cases hg.symm.trans hg'
    rfl
  | none hg' | bool hg' | int hg' | float hg' | tensor hg' | tuple hg' | storageClass hg' =>
    cases hg.symm.trans hg'
  | object hg' => simp only [hg, Node.isContainer, Bool.false_eq_true] at hg'

theorem shows_tensor {id : Nat} {t : Tensor} (hg : g.node id = .tensor t)
    (hv : Shows g uses w id v) :
    v = .tensor (viewOf t (storageNumber uses t)) ∧ w.registered (storageNumber uses t) := by
  cases hv with
  | tensor hg' hr =>
    cases hg.symm.trans hg'
    exact ⟨rfl, hr⟩
  | none hg' | bool hg' | int hg' | float hg' | text hg' | tuple hg' | storageClass hg' =>
    cases hg.symm.trans hg'
  | object hg' => simp only [hg, Node.isContainer, Bool.false_eq_true] at hg'

theorem entries_eq {entries : List (Nat × Nat)} {values : List (Value × Value)}
    (named : List.Forall₂ (fun e named => g.node e.1 = .text named.1 ∧ g.node e.2 = .tensor named.2)
      entries tensors) (shows : ShowsEntries g uses w entries values) :
    (values = tensors.map fun named =>
      (.text named.1, .tensor (viewOf named.2 (storageNumber uses named.2)))) ∧
    ∀ named ∈ tensors, w.registered (storageNumber uses named.2) := by
  induction named generalizing values with
  | nil =>
    cases shows
    exact ⟨rfl, nofun⟩
  | cons h _ ih =>
    obtain _ | ⟨⟨hk, hv⟩, shows⟩ := shows
    obtain ⟨hv, registered⟩ := shows_tensor h.2 hv
    obtain ⟨rfl, others⟩ := ih shows
    exact ⟨by rw [List.map_cons, ← shows_text h.1 hk, ← hv], List.forall_mem_cons.2
      ⟨registered, others⟩⟩

/-- A view in what has been restored is of a registered storage, and fits it if the tensor did. -/
theorem check_view (restored : Restored g uses top v w m) {t : Tensor}
    (hr : w.registered (storageNumber uses t))
    (listed : m.arena.Registers (viewOf t (storageNumber uses t)).storageKey t.dtype)
    (fits : t.FitsIn ((g.memory.buffer t.storage).length / t.dtype.size)) :
    m.arena.check (viewOf t (storageNumber uses t)) = .ok () := by
  obtain ⟨use, -, key, storage, hb⟩ := restored.exists_use hr
  obtain ⟨blob, hb', hd⟩ := listed
  have same : blob = use.blob g.memory := by
    rw [key] at hb
    exact Option.some.inj (hb'.symm.trans hb)
  have count : blob.count = ((g.memory.buffer t.storage).length / t.dtype.size : Nat) := by
    rw [same] at hd ⊢
    change ((use.count g.memory : Nat) : Int) = _
    rw [StorageUse.count, storage, ← hd]
    rfl
  have type : ¬ blob.dtype ≠ (viewOf t (storageNumber uses t)).dtype := not_not.2 hd
  unfold Arena.check
  rw [hb']
  simp only [if_neg type, count, checkView_viewOf fits]
  rfl

/-- What has been restored of a mapping: an object with the views of its tensors, whose storages are
registered. -/
theorem mapping_restored (restored : Restored g uses top v w m)
    (maps : MapsNames g top tensors attributes) :
    ∃ o, ∃ table : Table Value Value, ∃ fields, v = .object o ∧
      m.heap.get? o = some (.ordered table fields) ∧
      (table.entries = tensors.map fun named =>
        (.text named.1, .tensor (viewOf named.2 (storageNumber uses named.2)))) ∧
      (∀ named ∈ tensors, w.registered (storageNumber uses named.2)) ∧
      ShowsAttributes g uses w attributes fields.entries := by
  obtain ⟨entries, hg, named⟩ := maps
  have shows := restored.shows
  cases shows with
  | none hg' | bool hg' | int hg' | float hg' | text hg' | tuple hg' | tensor hg'
    | storageClass hg' => cases hg.symm.trans hg'
  | @object _ o _ hp =>
    have filled := restored.filled _ _ hp
    simp only [Filled, hg] at filled
    obtain ⟨table, fields, ho, entriesShown, attributesShown⟩ := filled
    obtain ⟨values, registered⟩ := entries_eq named entriesShown
    exact ⟨o, table, fields, rfl, ho, values, registered, attributesShown⟩

/-- What has been restored of a mapping is decoded as its views, with the metadata among its
attributes. -/
theorem ofValue_restored (restored : Restored g uses top v w m) (sound : m.Sound)
    (maps : MapsNames g top tensors attributes)
    (fits : ∀ named ∈ tensors,
      named.2.FitsIn ((g.memory.buffer named.2.storage).length / named.2.dtype.size)) :
    ∃ fields : Table Text Value, ShowsAttributes g uses w attributes fields.entries ∧
      Decoded.ofValue m.heap m.arena v = .ok {
        refs := viewsOf uses tensors
        metadata := (fields.get? metadataName).map fun value => { heap := m.heap, value } } := by
  obtain ⟨o, table, fields, rfl, ho, values, registered, shown⟩ := mapping_restored restored maps
  refine ⟨fields, shown, ?_⟩
  -- What a sound machine holds is registered, so the check is one of extents only.
  have checked : ∀ named ∈ tensors,
      m.arena.check (viewOf named.2 (storageNumber uses named.2)) = .ok () := by
    intro named hn
    have listed : (Value.tensor (viewOf named.2 (storageNumber uses named.2))).Listed m.arena := by
      apply Value.Sound.listed
      apply (sound.heap o _ ho).held
      simp only [Object.held, Table.values, values, List.map_map, List.mem_append]
      exact .inl (.inr (List.mem_map_of_mem (f := fun named : Text × Tensor =>
        Value.tensor (viewOf named.2 (storageNumber uses named.2))) hn))
    exact check_view restored (registered named hn) listed (fits named hn)
  unfold Decoded.ofValue
  simp only [ho, values]
  rw [checkEntries_eq (f := fun t => viewOf t (storageNumber uses t)) checked]
  rfl

end Decoded

/-- What a mapping from names to tensors has to be for its archive to be decoded as it was written.
Storages hold whole elements, and an empty one, to which the writer gives the type of its first use,
is viewed under one type; and the views lie within their storages. -/
structure Recoverable (g : Graph) (top : Nat) (tensors : List (Text × Tensor))
    (attributes : List (Text × Nat)) : Prop where
  maps : MapsNames g top tensors attributes
  restorable : g.Restorable top
  whole : ∀ t, g.TensorIn top t → t.dtype.size ∣ (g.memory.buffer t.storage).length
  alike : ∀ t t', g.TensorIn top t → g.TensorIn top t' → t.storage = t'.storage →
    g.memory.buffer t'.storage = [] → t.dtype = t'.dtype
  fits : ∀ named ∈ tensors,
    named.2.FitsIn ((g.memory.buffer named.2.storage).length / named.2.dtype.size)

theorem Recoverable.of_plain {g : Graph} {top : Nat} {tensors : List (Text × Tensor)}
    {attributes : List (Text × Nat)} (maps : g.MapsTensors top tensors attributes)
    (whole : ∀ named ∈ tensors,
      named.2.dtype.size ∣ (g.memory.buffer named.2.storage).length)
    (alike : ∀ named ∈ tensors, ∀ named' ∈ tensors, named.2.storage = named'.2.storage →
      named.2.dtype = named'.2.dtype)
    (fits : ∀ named ∈ tensors,
      named.2.FitsIn ((g.memory.buffer named.2.storage).length / named.2.dtype.size)) :
    Recoverable g top tensors attributes where
  maps := maps.entries
  restorable := maps.restorable
  whole := by
    rintro t ⟨id, hr, hg⟩
    obtain ⟨named, hn, rfl⟩ := maps.mem_of_reaches hr hg
    exact whole named hn
  alike := by
    rintro t t' ⟨id, hr, hg⟩ ⟨id', hr', hg'⟩ same _
    obtain ⟨named, hn, rfl⟩ := maps.mem_of_reaches hr hg
    obtain ⟨named', hn', rfl⟩ := maps.mem_of_reaches hr' hg'
    exact alike named hn named' hn' same
  fits := fits

/-- Whether running a stream, over an archive with its storages, reaches none of the limits. -/
def Admits (limits : Config) (memory : Memory) (d : Graph.Dump) : Prop :=
  ∀ r : Reader,
    (∀ use ∈ d.storages, r.storageSize use.key = .ok (memory.buffer use.storage).length) →
    ∀ e m, Machine.load limits (.ofReader r) d.bytes = (.error e, m) → ¬ Machine.IsLimit limits e m

theorem admits_of_short {limits : Config} {d : Graph.Dump} (memory : Memory)
    (depth : d.bytes.length < limits.maxStackDepth)
    (memo : (d.bytes.length : Int) < limits.maxMemoSize) : Admits limits memory d :=
  fun _ _ _ _ hl => Machine.not_isLimit_of_run (perform_eq_error.1 hl) depth memo

section Decode

variable {config limits : Config} {g g' : Graph} {id top : Nat} {d : Graph.Dump}
  {tensors : List (Text × Tensor)} {attributes : List (Text × Nat)} {r : Reader} {root : Text}
  {content : Bytes}

theorem storageSize_of_reads (reads : r.Reads root (recordsOf config g.memory d) content)
    {use : StorageUse} (hu : use ∈ d.storages) :
    r.storageSize use.key = .ok (g.memory.buffer use.storage).length :=
  reads.storageSize (mem_recordsOf.2 (.inr (.inr (.inr ⟨use, hu, rfl, rfl⟩))))

theorem count_mul_size (can : Recoverable g top tensors attributes)
    (entered : Encoder.Entered (g.TensorIn top) d.storages) {use : StorageUse}
    (hu : use ∈ d.storages) :
    use.count g.memory * use.dtype.size = (g.memory.buffer use.storage).length := by
  obtain ⟨t, ht, storage, dtype⟩ := entered.used use hu
  rw [StorageUse.count, storage, dtype]
  exact Nat.div_mul_cancel (can.whole t ht)

/-- The object stream of an archive is run to what it was written for, and decoded. -/
theorem exists_decoded (ha : g.asOrdered id = .ok (top, g')) (hd : g.dump config id = .ok d)
    (can : Recoverable g' top tensors attributes)
    (reads : r.Reads root (recordsOf config g'.memory d) content)
    (admits : Admits limits g'.memory d) :
    ∃ v c m w, ∃ fields : Table Text Value,
      Machine.load limits (.ofReader r) d.bytes = (.ok (v, c), m) ∧
      (m.arena.reader = r ∧ m.arena.loaded = {}) ∧ Restored g' d.storages top v w m ∧
      ShowsAttributes g' d.storages w attributes fields.entries ∧
      Decoded.ofValue m.heap m.arena v = .ok {
        refs := viewsOf d.storages tensors
        metadata := (fields.get? metadataName).map fun value => { heap := m.heap, value } } ∧
      Referring g'.memory d.storages limits (Machine.start (.ofReader r) d.bytes) := by
  obtain ⟨_, _, e, ha', hs, rfl⟩ := Graph.dump_eq_ok.1 hd
  cases ha.symm.trans ha'
  have entered := entered_of_stream can.restorable hs
  have present : ∀ use ∈ e.storages,
      r.storageSize use.key = .ok (use.count g'.memory * use.dtype.size) := by
    intro use hu
    rw [count_mul_size (d := ⟨e.history, e.memo.size, e.storages⟩) can entered hu]
    exact storageSize_of_reads reads hu
  obtain ⟨next, last, spells⟩ := Graph.spells_start (bytesOf e.history)
  have run := ensures_run_stream can.restorable can.alike hs present limits spells
  rw [Graph.bytes_eq_bytesOf]
  have same : Machine.load limits (.ofReader r) (bytesOf e.history) =
      (Machine.run limits (Cursor.start (bytesOf e.history))).perform { arena := .ofReader r } := rfl
  cases hr : Machine.load limits (.ofReader r) (bytesOf e.history) with
  | mk outcome m =>
    cases outcome with
    | error error =>
      -- The run can only have failed at a limit.
      refine absurd (run.of_error (same ▸ hr)) (admits r ?_ error m ?_)
      · exact fun use hu => storageSize_of_reads reads hu
      · rw [Graph.bytes_eq_bytesOf]
        exact hr
    | ok result =>
      obtain ⟨rfl, arena, ⟨w, restored⟩, referring⟩ := run.of_ok (same ▸ hr)
      have kept : Machine.Keeps (Machine.run limits (Cursor.start (bytesOf e.history)))
          { arena := .ofReader r } _ := Machine.keeps_run (Machine.sound_start _) _
      obtain ⟨sound, -⟩ := kept.of_ok (same ▸ hr)
      obtain ⟨fields, shown, decoded⟩ := ofValue_restored restored sound can.maps can.fits
      exact ⟨result.1, result.2, m, w, fields, rfl, arena, restored, shown, decoded, referring⟩

theorem ensures_decode (reads : r.Reads root (recordsOf config g.memory d) content) {v : Value}
    {c : Cursor} {m : Machine} {decoded : Decoded}
    (loaded : Machine.load limits (.ofReader r) d.bytes = (.ok (v, c), m))
    (hv : Decoded.ofValue m.heap m.arena v = .ok decoded) {u : Stream} (hu : u.Has content)
    {Q : Decoded × Arena → Stream → Prop} {E : Error → Stream → Prop}
    (hq : ∀ t, t.Has content → Q (decoded, m.arena) t) : (r.decode limits).Ensures u Q E := by
  unfold Reader.decode
  rw [ensures_bind]
  apply reads.ensures_readRecord (mem_recordsOf.2 (.inr (.inl ⟨rfl, rfl⟩))) hu
  intro t ht
  simp only [loaded, hv, ensures_bind, ensures_ofExcept_ok, ensures_pure]
  exact hq t ht

theorem content_eq_of_behind {s t : Stream} (behind : t.Behind s content)
    (last : t.content.length = t.position) : t.content = content := by
  have front := behind.front
  rwa [← behind.position, ← last, Stream.front_of_le le_rfl, List.take_length] at front

/-- An archive that is written at the end of a stream ends it. -/
theorem ends_of_save {s t : Stream} {names : List Text} (healthy : s.Healthy)
    (ended : s.position = s.content.length) (ha : g.asOrdered id = .ok (top, g'))
    (can : g'.Restorable top) (whole : (0 : CodePoint) ∉ config.archiveName.points)
    (saved : (save config g id).perform s = (.ok names, t)) : t.content.length = t.position := by
  obtain ⟨d, _, dumped, -⟩ := perform_bind_eq_ok.1 (save_eq config g id ▸ saved)
  have hd := (perform_ofExcept_eq_ok.1 dumped).1
  obtain ⟨_, _, e, ha', hs, rfl⟩ := Graph.dump_eq_ok.1 hd
  cases ha.symm.trans ha'
  obtain ⟨-, content, behind, -⟩ :=
    (ensures_save healthy hd (isName_of_save saved whole) (entered_of_stream can hs)).of_ok saved
  rw [behind.position]
  exact behind.reach ended

theorem ensures_open_saved {s t u : Stream} {names : List Text}
    {E : Error → Stream → Prop} {Q : Reader → Stream → Prop} (healthy : s.Healthy)
    (ha : g.asOrdered id = .ok (top, g')) (can : g'.Restorable top)
    (whole : (0 : CodePoint) ∉ config.archiveName.points) (hd : g.dump config id = .ok d)
    (saved : (save config g id).perform s = (.ok names, t))
    (last : t.content.length = t.position) (unlike : ¬ Zip.HasLocator t.content)
    (hu : u.Has t.content)
    (hq : ∀ r u', r.Reads (rootOf config) (recordsOf config g'.memory d) t.content →
      r.byteOrder = .host → u'.Has t.content → Q r u') : Reader.openArchive.Ensures u Q E := by
  obtain ⟨_, _, e, ha', hs, rfl⟩ := Graph.dump_eq_ok.1 hd
  cases ha.symm.trans ha'
  have entered := entered_of_stream can hs
  obtain ⟨-, content, behind, finished⟩ :=
    (ensures_save healthy hd (isName_of_save saved whole) entered).of_ok saved
  obtain rfl := content_eq_of_behind behind last
  rw [← Graph.memory_asOrdered ha] at finished
  exact Reader.ensures_openArchive hu finished unlike (openable_recordsOf entered) hq

end Decode

/-- Two views of one storage. -/
def tied : Graph where
  nodes := #[.ordered [(1, 2), (3, 4)] [], .text "weight",
    .tensor { dtype := .float32, shape := [2], stride := [1], offset := 0, storage := 0 }, .text "last",
    .tensor { dtype := .float32, shape := [1], stride := [1], offset := 1, storage := 0 }]
  memory := ⟨[[0, 0, 128, 63, 0, 0, 0, 64]]⟩

/-- The shortest layout of an archive. -/
def unpadded : Config := { (default : Config) with storageAlignment := 0, writeByteOrder := false }

/-- What can be seen of a saved archive: whether the stream ends with it, is short, and has no
locator. -/
def isWhole (saved : Except Error (List Text) × Stream) : Bool :=
  saved.1.toOption.isSome && saved.2.content.length == saved.2.position &&
    decide (saved.2.content.length < 256 ^ 4) &&
    Zip.fieldAt saved.2.content
      (saved.2.content.length - (Zip.endRecordSize + Zip.locatorSize)) 4 != Zip.locatorSignature

theorem exists_of_isWhole {saved : Except Error (List Text) × Stream} (h : isWhole saved = true) :
    ∃ names t, saved = (.ok names, t) ∧ t.content.length = t.position ∧
      t.content.length < 256 ^ 4 ∧ ¬ Zip.HasLocator t.content := by
  obtain ⟨result, t⟩ := saved
  simp only [isWhole, Bool.and_eq_true, beq_iff_eq, decide_eq_true_eq, bne_iff_ne] at h
  obtain ⟨⟨⟨ok, last⟩, short⟩, unlike⟩ := h
  cases result with
  | error e => cases ok
  | ok names => exact ⟨names, t, rfl, last, short, unlike⟩

end Archive

end Checkpoint
