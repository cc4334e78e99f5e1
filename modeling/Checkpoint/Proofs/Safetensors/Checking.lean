import Checkpoint.Proofs.Insertion
import Checkpoint.Proofs.Safetensors.Saved
import Checkpoint.Proofs.Stream.Placing
import Checkpoint.Safetensors.Collection

/-! Files that are not written.  Names, types and the header are checked before the first byte, wherever
the value stands that is refused; behind the header only the stream can fail, and what follows it is as
long as its entries say. -/

namespace Checkpoint

open Effect

/-- A file is not written because the stream is closed, or does not take it. -/
def Error.IsSaveFault (e : Error) : Prop :=
  e = .closedStream ∨ ∃ reason, e = .streamFailed (.writeTensors reason)

theorem forall₂_of_mapM {ε α β : Type} {f : α → Except ε β} {items : List α} {results : List β}
    (h : items.mapM f = .ok results) : List.Forall₂ (fun a b => f a = .ok b) items results := by
  induction items generalizing results with
  | nil =>
    cases h
    exact .nil
  | cons a items ih =>
    rw [List.mapM_cons, bind_eq_ok] at h
    obtain ⟨b, first, h⟩ := h
    rw [bind_eq_ok] at h
    obtain ⟨others, rest, h⟩ := h
    cases h
    exact .cons first (ih rest)

theorem Stream.inscribed_eq {content data : Bytes} {position : Nat} (h : position ≤ content.length) :
    inscribed content position data = overwrite content position data := by
  unfold inscribed
  split
  · next empty => rw [List.isEmpty_iff.1 empty, overwrite_nil h]
  · rfl

namespace Safetensors

open Checkpoint.Stream

/-- A tensor as any is: as many strides as sizes, and its elements within its storage.  If it has one
element, the next one would follow it. -/
structure Regular (memory : Memory) (t : Tensor) : Prop where
  rank : t.stride.length = t.shape.length
  held : memory.Holds t
  adjacent : t.Adjacent

section Plans

variable {config : Config} {memory : Memory} {s : Stream} {named : List (Text × Tensor)}

theorem ensures_writePayload_flat (place : s.position ≤ s.content.length)
    (flat : ∀ n ∈ named, memory.flat n.2 = .ok (memory.elements n.2).flatten) :
    (writePayload memory (named.map Prod.snd)).Ensures s
      (fun total t => total = (payloadOf memory named).length ∧
        t.content = overwrite s.content s.position (payloadOf memory named))
      fun e _ => e.IsWriteFault := by
  induction named generalizing s with
  | nil =>
    rw [payloadOf, List.flatMap_nil, overwrite_nil place]
    exact (ensures_pure _).2 ⟨rfl, rfl⟩
  | cons n named ih =>
    rw [List.forall_mem_cons] at flat
    rw [List.map_cons, writePayload, flat.1, ensures_bind]
    refine (ensures_ofExcept_ok _).2 ?_
    rw [ensures_bind]
    apply ensures_written
    · intro calls
      rw [inscribed_eq place, ensures_bind]
      apply (ih le_length_overwrite flat.2).post
      rintro _ t ⟨rfl, content⟩
      have split : payloadOf memory (n :: named) =
          (memory.elements n.2).flatten ++ payloadOf memory named := List.flatMap_cons ..
      rw [split, List.length_append, ← overwrite_overwrite]
      exact (ensures_pure _).2 ⟨rfl, content⟩
    · exact fun _ _ fault => fault

/-- The bytes of a header: the length of its text, and the text. -/
def Header.bytes (h : Header) : Bytes := Bytes.littleEndian Header.lengthSize h.body.length ++ h.body

theorem Header.length_bytes (h : Header) : h.bytes.length = Header.lengthSize + h.body.length := by
  rw [bytes, List.length_append, Bytes.length_littleEndian]

theorem Header.eq_of_encode {h : Header} {bytes : Bytes}
    (tagged : ∀ e ∈ h.entries, e.dtype.tag?.isSome = true) (encoded : h.encode config = .ok bytes) :
    bytes = h.bytes := by
  obtain ⟨strict, fits⟩ := Header.of_encode tagged encoded
  exact Except.ok.inj (encoded.symm.trans (Header.encode_eq strict fits))

/-- A file is planned from tensors that can be written. -/
structure Plan.Lays (p : Plan) (memory : Memory) (named : List (Text × Tensor)) : Prop where
  entries : p.header.entries = layOut 0 named
  tensors : p.tensors = named.map Prod.snd
  flat : ∀ n ∈ named, Flat memory n.2

theorem Plan.Lays.tagged {p : Plan} (h : p.Lays memory named) :
    ∀ e ∈ p.header.entries, e.dtype.tag?.isSome = true := by
  rw [h.entries]
  intro e he
  obtain ⟨n, hn, names⟩ := exists_of_forall₂ (layOut_names 0 named) he
  rw [names.2.1]
  exact (h.flat n hn).tagged

/-- What the stream refuses is told as a failure to write the tensors. -/
theorem ensures_describing_writes {α : Type} {x : Effect Stream α} {Q : α → Stream → Prop}
    (h : x.Ensures s Q fun e _ => e.IsWriteFault) :
    (describing .writeTensors x).Ensures s Q fun e _ => e.IsSaveFault := by
  unfold describing
  rw [ensures_tryCatch]
  apply h.mono fun _ _ h => h
  rintro _ t (rfl | ⟨reason, rfl⟩)
  · exact (ensures_throw _).2 (.inl rfl)
  · exact (ensures_throw _).2 (.inr ⟨reason, rfl⟩)

/-- Behind the checks only the writes are left. -/
theorem ensures_writeFile {head : Bytes} (full : head ≠ [])
    (flat : ∀ n ∈ named, memory.flat n.2 = .ok (memory.elements n.2).flatten) :
    (describing .writeTensors do
      Stream.write head
      return head.length + (← writePayload memory (named.map Prod.snd))).Ensures s
      (fun total t => total = (head ++ payloadOf memory named).length ∧
        t.content = overwrite s.content s.position (head ++ payloadOf memory named))
      fun e _ => e.IsSaveFault := by
  apply ensures_describing_writes
  rw [ensures_bind]
  apply ensures_written
  · intro calls
    rw [inscribed, if_neg (by simpa using full), ensures_bind]
    refine (ensures_writePayload_flat le_length_overwrite flat).mono ?_ fun _ _ fault => fault
    rintro _ t ⟨rfl, content⟩
    rw [List.length_append, ← overwrite_overwrite]
    exact (ensures_pure _).2 ⟨rfl, content⟩
  · exact fun _ _ fault => fault

/-- A file of tensors has been written to a stream, and nothing else: a header that lays them out, and
their elements. -/
structure Written (config : Config) (memory : Memory) (s t : Stream) (total : Nat) (header : Header)
    (named : List (Text × Tensor)) : Prop where
  encoded : header.encode config = .ok header.bytes
  entries : header.entries = layOut 0 named
  content : t.content = overwrite s.content s.position (header.bytes ++ payloadOf memory named)
  total : total = (header.bytes ++ payloadOf memory named).length

/-- What has been planned is not written, or the stream fails, or it is written whole. -/
theorem Plan.Lays.ensures_write {p : Plan} (h : p.Lays memory named) : (p.write config memory).Ensures s
    (fun total t => Written config memory s t total p.header named)
    fun e t => e.IsSaveFault ∨ t = s := by
  unfold Plan.write
  apply ensures_check fun _ _ => .inr rfl
  intro head encoded
  obtain rfl := Header.eq_of_encode h.tagged encoded
  have full : p.header.bytes ≠ [] := by
    rw [← List.length_pos_iff, Header.length_bytes, Header.lengthSize]
    omega
  have flat : ∀ n ∈ named, memory.flat n.2 = .ok (memory.elements n.2).flatten := fun n hn =>
    Memory.flat_eq (h.flat n hn).rank (h.flat n hn).contiguous (h.flat n hn).adjacent
  rw [h.tensors]
  apply (ensures_writeFile full flat).mono _ fun _ _ fault => .inl fault
  rintro total t ⟨size, content⟩
  exact ⟨encoded, h.entries, content, size⟩

theorem Named.of_tensor {v : Named} {t : Tensor} (h : v.tensor = .ok t) :
    v.found = .ok (some t) ∧ t.isContiguous = true ∧ t.dtype.tag?.isSome = true := by
  unfold Named.tensor at h
  rw [bind_eq_ok] at h
  obtain ⟨content, found, h⟩ := h
  dsimp only at h
  split at h
  · cases h
  · split at h
    · cases h
    · next u =>
      split at h
      · next contiguous =>
        split at h
        · cases h
        · next tagged =>
          cases h
          refine ⟨found, contiguous, ?_⟩
          rwa [Bool.not_eq_true, ← Option.not_isSome, Bool.not_eq_false'] at tagged
      · cases h

/-- A value is planned as a tensor under a name. -/
def Named.Gives (v : Named) (n : Text × Tensor) : Prop := v.key = .ok n.1 ∧ v.tensor = .ok n.2

theorem gives_zip {values : List Named} {names : List Text} {tensors : List Tensor}
    (keys : List.Forall₂ (fun v name => Named.key v = .ok name) values names)
    (found : List.Forall₂ (fun v t => Named.tensor v = .ok t) values tensors) :
    List.Forall₂ Named.Gives values (names.zip tensors) ∧ tensors = (names.zip tensors).map Prod.snd := by
  induction keys generalizing tensors with
  | nil =>
    cases found
    exact ⟨.nil, rfl⟩
  | cons key _ ih =>
    cases found with
    | cons tensor others =>
      obtain ⟨gives, same⟩ := ih others
      exact ⟨.cons ⟨key, tensor⟩ gives, congrArg (_ :: ·) same⟩

theorem lays_of_plan (memory : Memory) {metadata : Option (List (Text × Text))} {values : List Named} {p : Plan}
    (planned : plan metadata values = .ok p)
    (regular : ∀ v ∈ values, ∀ t, v.found = .ok (some t) → Regular memory t) : ∃ named,
      p.Lays memory named ∧ p.header.metadata = metadata ∧ List.Forall₂ Named.Gives values named := by
  rw [plan, bind_eq_ok] at planned
  obtain ⟨tensors, found, planned⟩ := planned
  rw [bind_eq_ok] at planned
  obtain ⟨names, keys, planned⟩ := planned
  cases planned
  obtain ⟨gives, same⟩ := gives_zip (forall₂_of_mapM keys) (forall₂_of_mapM found)
  refine ⟨names.zip tensors, ⟨rfl, same, fun n hn => ?_⟩, rfl, gives⟩
  obtain ⟨v, hv, -, tensor⟩ := exists_of_forall₂ gives.flip hn
  obtain ⟨content, contiguous, tagged⟩ := Named.of_tensor tensor
  obtain ⟨rank, held, adjacent⟩ := regular v hv n.2 content
  exact ⟨tagged, contiguous, rank, held, adjacent⟩

end Plans

section Objects

open Pickle (Graph)

variable {config : Config} {g : Graph} {id : Nat} {s : Stream}

/-- An object is not written, or the stream fails, or it is written whole. -/
theorem ensures_saveObject (config : Config) (metadata : Option (List (Json.Value × Json.Value)))
    (s : Stream) (regular : ∀ values, namedValues g id = .ok values → ∀ v ∈ values, ∀ t,
      v.2.found = .ok (some t) → Regular g.memory t) : (saveObject config g metadata id).Ensures s
    (fun total t => ∃ values sorted header named, namedValues g id = .ok values ∧
      List.Perm sorted values ∧ List.Forall₂ Named.Gives (sorted.map Prod.snd) named ∧
      Written config g.memory s t total header named)
    fun e t => e.IsSaveFault ∨ t = s := by
  unfold saveObject
  apply ensures_check fun _ _ => .inr rfl
  intro pairs _
  apply ensures_check fun _ _ => .inr rfl
  intro values hv
  apply ensures_check fun _ _ => .inr rfl
  intro sorted hs
  have perm := Insertion.perm_sort hs
  apply ensures_check fun _ _ => .inr rfl
  intro p planned
  obtain ⟨named, lays, -, gives⟩ := lays_of_plan g.memory planned (by
    rw [List.forall_mem_map]
    exact fun v hm => regular values hv v (perm.mem_iff.1 hm))
  exact lays.ensures_write.post
    fun total t written => ⟨values, sorted, p.header, named, hv, perm, gives, written⟩

/-- An object is a mapping with these entries. -/
def HasEntries (g : Graph) (id : Nat) (entries : List (Nat × Nat)) : Prop :=
  g.node id = .dict entries ∨ (∃ attributes, g.node id = .ordered entries attributes) ∨
    ∃ type attributes, g.node id = .mapping type entries attributes

/-- The values of a mapping, each under its key. -/
theorem HasEntries.namedValues_eq {entries : List (Nat × Nat)} (h : HasEntries g id entries) :
    namedValues g id = .ok (entries.map fun (key, value) => (Rank.ofItem g key,
      { name := g.key g.nodes.size key, found := .ok (tensorAt? g value) })) := by
  unfold namedValues
  obtain node | ⟨attributes, node⟩ | ⟨type, attributes, node⟩ := h <;> rw [node]

theorem tensorAt?_eq_some {t : Tensor} (h : tensorAt? g id = some t) : g.node id = .tensor t := by
  unfold tensorAt? at h
  split at h
  · next node =>
    cases h
    exact node
  · cases h

/-- The part of the payload that an entry describes is as long as the entry says. -/
theorem Describes.length_dataIn {memory : Memory} {payload : Bytes} {e : Entry} {n : Text × Tensor}
    (h : Describes memory payload e n) (held : memory.Holds n.2) : (e.dataIn payload).length = e.size := by
  rw [h.2, held.length_flatten, h.1.size_eq]

theorem Written.described {memory : Memory} {t : Stream} {total : Nat} {header : Header}
    {named : List (Text × Tensor)} (h : Written config memory s t total header named)
    (held : ∀ n ∈ named, memory.Holds n.2) : List.Forall₂ (fun e n =>
      Describes memory (payloadOf memory named) e n ∧
        (e.dataIn (payloadOf memory named)).length = e.size) header.entries named := by
  rw [h.entries]
  have described := layOut_describes held []
  refine ((List.forall₂_and_left _ _).2 ⟨held, described.flip⟩).flip.imp ?_
  rintro e n ⟨holds, describes⟩
  exact ⟨describes, Describes.length_dataIn describes holds⟩

/-- Nothing is written of a mapping that is refused, unless it is the stream that fails; and what is
written is a header that can be read and the tensors of the mapping, each as long as its entry says. -/
theorem saveObject_checks (config : Config) (metadata : Option (List (Json.Value × Json.Value)))
    {entries : List (Nat × Nat)} (mapping : HasEntries g id entries)
    (regular : ∀ entry ∈ entries, ∀ t, g.node entry.2 = .tensor t → Regular g.memory t) (s : Stream) :
    (∀ e t, (saveObject config g metadata id).perform s = (.error e, t) → e.IsSaveFault ∨ t = s) ∧
      ∀ total t, (saveObject config g metadata id).perform s = (.ok total, t) → ∃ header named,
        Written config g.memory s t total header named ∧ named.length = entries.length ∧
        (∀ n ∈ named, ∃ entry ∈ entries, g.node entry.2 = .tensor n.2) ∧
        List.Forall₂ (fun e n => Describes g.memory (payloadOf g.memory named) e n ∧
          (e.dataIn (payloadOf g.memory named)).length = e.size) header.entries named := by
  have values := mapping.namedValues_eq
  have saves := ensures_saveObject config metadata s (fun values' hv v hm t found => by
    cases values.symm.trans hv
    obtain ⟨entry, he, rfl⟩ := List.mem_map.1 hm
    exact regular entry he t (tensorAt?_eq_some (Except.ok.inj found)))
  refine ⟨fun e t failed => saves.of_error failed, fun total t saved => ?_⟩
  obtain ⟨values', sorted, header, named, hv, perm, gives, written⟩ := saves.of_ok saved
  cases values.symm.trans hv
  have tensors : ∀ n ∈ named, ∃ entry ∈ entries, g.node entry.2 = .tensor n.2 := by
    intro n hn
    obtain ⟨_, hm, -, tensor⟩ := exists_of_forall₂ gives.flip hn
    obtain ⟨v, found, rfl⟩ := List.mem_map.1 hm
    obtain ⟨entry, he, rfl⟩ := List.mem_map.1 (perm.mem_iff.1 found)
    exact ⟨entry, he, tensorAt?_eq_some (Except.ok.inj (Named.of_tensor tensor).1)⟩
  refine ⟨header, named, written, ?_, tensors, written.described fun n hn => ?_⟩
  · rw [← gives.length_eq, List.length_map, perm.length_eq, List.length_map]
  · obtain ⟨entry, he, node⟩ := tensors n hn
    exact (regular entry he n.2 node).held

end Objects

/-- A mapping of two names to tensors, not in the order of the names. -/
def pairOf (b a : Tensor) : Pickle.Graph where
  nodes := #[.text "b", .tensor b, .text "a", .tensor a, .dict [(0, 1), (2, 3)]]
  memory := ⟨[[0, 0, 128, 63, 0, 0, 0, 64], [9]]⟩

def floats : Tensor := { dtype := .float32, shape := [2], stride := [1], offset := 0, storage := 0 }
def byte : Tensor := { dtype := .uint8, shape := [], stride := [], offset := 0, storage := 1 }
def untagged : Tensor := { dtype := .complex128, shape := [0], stride := [1], offset := 0, storage := 1 }

def begun : Stream := { content := [1, 2, 3] }

theorem hasEntries_pairOf (b a : Tensor) : HasEntries (pairOf b a) 4 [(0, 1), (2, 3)] := .inl rfl

theorem regular_pairOf {b a : Tensor} (hb : Regular (pairOf b a).memory b)
    (ha : Regular (pairOf b a).memory a) : ∀ entry ∈ [(0, 1), (2, 3)], ∀ t,
      (pairOf b a).node entry.2 = .tensor t → Regular (pairOf b a).memory t := by
  simp only [List.forall_mem_cons]
  refine ⟨?_, ?_, nofun⟩
  · rintro t ⟨⟩
    exact hb
  · rintro t ⟨⟩
    exact ha

set_option maxRecDepth 100000 in
theorem saveObject_checks_pair :
    (∃ t, (saveObject {} (pairOf floats untagged) none 4).perform begun =
        (.error (.unsupportedDType (.noTag .complex128)), t) ∧ t = begun) ∧
      ∃ total t header named, (saveObject {} (pairOf floats byte) none 4).perform begun = (.ok total, t) ∧
        Written {} (pairOf floats byte).memory begun t total header named ∧ named.length = 2 := by
  have regular : Regular ⟨[[0, 0, 128, 63, 0, 0, 0, 64], [9]]⟩ floats :=
    ⟨rfl, by decide, nofun⟩
  constructor
  · have refused : ((saveObject {} (pairOf floats untagged) none 4).perform begun).1 =
        .error (.unsupportedDType (.noTag .complex128)) := by
      decide +kernel
    cases saved : (saveObject {} (pairOf floats untagged) none 4).perform begun with
    | mk result t =>
      rw [saved] at refused
      obtain rfl := refused
      have checked := saveObject_checks {} none (hasEntries_pairOf floats untagged)
        (regular_pairOf regular ⟨rfl, by decide, nofun⟩) begun
      obtain (fault | ⟨_, fault⟩) | same := checked.1 _ t saved
      · cases fault
      · cases fault
      · exact ⟨t, rfl, same⟩
  · have done : ((saveObject {} (pairOf floats byte) none 4).perform begun).1.isOk = true := by
      decide +kernel
    cases saved : (saveObject {} (pairOf floats byte) none 4).perform begun with
    | mk result t =>
      rw [saved] at done
      cases result with
      | error e => cases done
      | ok total =>
        have checked := saveObject_checks {} none (hasEntries_pairOf floats byte)
          (regular_pairOf regular ⟨rfl, by decide, fun _ wide => absurd rfl wide⟩) begun
        obtain ⟨header, named, written, count, -⟩ := checked.2 total t saved
        exact ⟨total, t, header, named, rfl, written, count⟩

set_option maxRecDepth 100000 in
/-- A contiguous tensor of one element is refused behind the header. -/
theorem saveObject_checks_stretched :
    let (result, t) := (saveObject {} (pairOf floats stretched) none 4).perform begun
    stretched.isContiguous = true ∧ stretched.stride.length = stretched.shape.length ∧
      (pairOf floats stretched).memory.Holds stretched ∧
      result = .error (.tensorFault .gaps) ∧ t.content ≠ begun.content := by
  refine ⟨rfl, rfl, by decide, by decide +kernel, by decide +kernel⟩

end Safetensors

end Checkpoint
