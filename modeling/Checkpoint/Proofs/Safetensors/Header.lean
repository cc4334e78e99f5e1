import Checkpoint.Safetensors.Header
import Checkpoint.Proofs.Bytes
import Checkpoint.Proofs.Effect
import Checkpoint.Proofs.Json.RoundTrip
import Mathlib.Data.List.Nodup

/-! Headers as documents and as bytes: a header is read as it was written. -/

namespace Checkpoint

theorem DType.ofTag?_tag? {d : DType} {tag : Text} (h : d.tag? = some tag) :
    DType.ofTag? tag = some d := by
  cases d <;> cases h <;> decide +kernel

theorem DType.tag?_ofTag? {d : DType} {tag : Text} (h : DType.ofTag? tag = some d) :
    d.tag? = some tag := by
  have own : ∀ row ∈ DType.tags, row.2.tag? = some (Text.ofString row.1) := by
    decide
  obtain ⟨row, found, rfl⟩ := Option.map_eq_some_iff.1 h
  have same := List.find?_some found
  obtain rfl := eq_of_beq same
  exact own row (List.mem_of_find?_eq_some found)

theorem DType.isStrict_tag {d : DType} {tag : Text} (h : d.tag? = some tag) : tag.IsStrict := by
  cases d <;> cases h <;> decide

namespace Safetensors

open Json (Value)

/-! ### Documents -/

theorem counts?_counts (dims : List Nat) : counts? (.array (dims.map Entry.count)) = some dims := by
  unfold counts?
  induction dims with
  | nil => rfl
  | cons n dims ih =>
    dsimp only at ih ⊢
    rw [List.map_cons, List.mapM_cons, ih]
    rfl

theorem eq_of_counts? {v : Value} {dims : List Nat} (h : counts? v = some dims) :
    v = .array (dims.map Entry.count) := by
  unfold counts? at h
  split at h
  · next items =>
    congr 1
    induction items generalizing dims with
    | nil =>
      cases h
      rfl
    | cons item items ih =>
      simp only [List.mapM_cons, Option.bind_eq_bind, Option.bind_eq_some_iff, Option.pure_def,
        Option.some.injEq] at h
      obtain ⟨n, found, others, listed, rfl⟩ := h
      split at found
      · cases found
        rw [ih listed]
        rfl
      · cases found
  · cases h

theorem textPairs_texts (pairs : List (Text × Text)) :
    textPairs (pairs.map fun pair => (.text pair.1, .text pair.2)) = .ok pairs := by
  induction pairs with
  | nil => rfl
  | cons pair pairs ih =>
    rw [List.map_cons, textPairs, ih]
    rfl

theorem eq_of_textPairs {l : List (Value × Value)} {pairs : List (Text × Text)}
    (h : textPairs l = .ok pairs) : l = pairs.map fun pair => (.text pair.1, .text pair.2) := by
  induction l generalizing pairs with
  | nil =>
    cases h
    rfl
  | cons pair l ih =>
    unfold textPairs at h
    split at h
    · next same => cases same
    · next same =>
      cases same
      obtain ⟨others, listed, made⟩ := bind_eq_ok.1 h
      cases made
      rw [ih listed]
      rfl
    · cases h

/-- What an entry has to be to be read as it was written. -/
structure Entry.Exact (e : Entry) : Prop where
  tagged : e.dtype.tag?.isSome = true
  ordered : e.start ≤ e.stop
  printable : ∀ n ∈ e.start :: e.stop :: e.shape, n < 10 ^ Decimal.digitLimit

/-- What a header has to be to be read as it was written. -/
structure Header.Exact (h : Header) : Prop where
  distinct : h.names.Nodup
  unreserved : metadataKey ∉ h.names
  entries : ∀ e ∈ h.entries, e.Exact
  keys : ∀ pairs ∈ h.metadata, (pairs.map Prod.fst).Nodup

/-- An entry as a document. -/
def Entry.document (e : Entry) : Value :=
  .object [("dtype", .text (e.dtype.tag?.getD default)), ("shape", .array (e.shape.map count)),
    ("data_offsets", .array ([e.start, e.stop].map count))]

/-- The field of a document that holds metadata. -/
def metadataField (pairs : List (Text × Text)) : Text × Value :=
  (metadataKey, .object (pairs.map fun pair => (pair.1, .text pair.2)))

/-- The fields of a header, with the metadata first. -/
def Header.fields (h : Header) : List (Text × Value) :=
  h.metadata.toList.map metadataField ++ h.entries.map fun e => (e.name, e.document)

namespace Entry

variable {e : Entry}

theorem toJson_eq (tagged : e.dtype.tag?.isSome = true) : e.toJson = .ok e.document := by
  obtain ⟨tag, ht⟩ := Option.isSome_iff_exists.1 tagged
  unfold toJson document
  rw [ht]
  rfl

/-- The fields of the document of an entry. -/
def parts (e : Entry) : List (Text × Value) :=
  [("dtype", .text (e.dtype.tag?.getD default)), ("shape", .array (e.shape.map count)),
    ("data_offsets", .array ([e.start, e.stop].map count))]

theorem mem_of_field {name : Text} {fields : List (Text × Value)} {key : String} {v : Value}
    (h : field name fields key = .ok v) : (Text.ofString key, v) ∈ fields := by
  unfold field at h
  split at h
  · next listed v' found =>
    cases h
    have same := List.find?_some found
    obtain rfl := eq_of_beq same
    exact List.mem_of_find?_eq_some found
  · cases h

/-- An entry is read from an object that has all the fields it is written with. -/
theorem of_ofJson {name : Text} {v : Value} (h : ofJson name v = .ok e) :
    e.name = name ∧ e.dtype.tag?.isSome = true ∧ e.start ≤ e.stop ∧
      ∃ fields, v = .object fields ∧ ∀ part ∈ e.parts, part ∈ fields := by
  unfold ofJson at h
  split at h
  · next fields =>
    obtain ⟨⟨tag, shape, offsets⟩, found, h⟩ := bind_eq_ok.1 h
    simp only [mapError_eq_ok, bind_eq_ok] at found
    obtain ⟨_, tagged, _, shaped, _, ranged, same⟩ := found
    cases same
    dsimp only at h
    split at h
    · split at h
      · cases h
      · next dims counted =>
        split at h
        · next start stop counted' =>
          split at h
          · cases h
          · next ordered =>
            split at h
            · next dtype known =>
              cases h
              have tag := DType.tag?_ofTag? known
              rw [eq_of_counts? counted] at shaped
              rw [eq_of_counts? counted'] at ranged
              refine ⟨rfl, Option.isSome_of_eq_some tag, Nat.le_of_not_lt ordered, fields, rfl, ?_⟩
              simp only [parts, List.forall_mem_cons, tag, Option.getD_some]
              exact ⟨mem_of_field tagged, mem_of_field shaped, mem_of_field ranged,
                List.forall_mem_nil _⟩
            · cases h
        · cases h
    · cases h
  · cases h

theorem Exact.ofJson_document (h : e.Exact) : ofJson e.name e.document = .ok e := by
  obtain ⟨tag, ht⟩ := Option.isSome_iff_exists.1 h.tagged
  have known := DType.ofTag?_tag? ht
  have found : Except.mapError Error.malformedHeader (do
      return (← field e.name [("dtype", .text tag), ("shape", .array (e.shape.map count)),
          ("data_offsets", .array ([e.start, e.stop].map count))] "dtype",
        ← field e.name [("dtype", .text tag), ("shape", .array (e.shape.map count)),
          ("data_offsets", .array ([e.start, e.stop].map count))] "shape",
        ← field e.name [("dtype", .text tag), ("shape", .array (e.shape.map count)),
          ("data_offsets", .array ([e.start, e.stop].map count))] "data_offsets")) =
      .ok (.text tag, .array (e.shape.map count), .array ([e.start, e.stop].map count)) :=
    rfl
  unfold ofJson document
  rw [ht, Option.getD_some]
  dsimp only
  rw [found]
  simp only [bind, Except.bind, counts?_counts, if_neg (Nat.not_lt.2 h.ordered), known]

theorem Exact.document (h : e.Exact) : e.document.Exact := by
  have counts {dims : List Nat} (short : ∀ n ∈ dims, n < 10 ^ Decimal.digitLimit) :
      (Value.array (dims.map count)).Exact := by
    apply Value.Exact.array
    rw [List.forall_mem_map]
    exact fun n hn => .count (short n hn)
  have printable := h.printable
  simp only [List.forall_mem_cons] at printable
  have distinct : (["dtype", "shape", "data_offsets"] : List Text).Nodup := by
    decide
  refine .object distinct ?_
  simp only [List.forall_mem_cons]
  refine ⟨.text _, counts printable.2.2, counts ?_, List.forall_mem_nil _⟩
  simp only [List.forall_mem_cons]
  exact ⟨printable.1, printable.2.1, List.forall_mem_nil _⟩

theorem strict_document (tagged : e.dtype.tag?.isSome = true) : e.document.Strict := by
  have counts (dims : List Nat) : (Value.array (dims.map count)).Strict := by
    apply Value.Strict.array
    rw [List.forall_mem_map]
    exact fun n _ => .count n
  obtain ⟨tag, ht⟩ := Option.isSome_iff_exists.1 tagged
  unfold document
  rw [ht, Option.getD_some]
  refine .object ?_ ?_ <;> simp only [List.forall_mem_cons]
  · exact ⟨by decide, by decide, by decide, List.forall_mem_nil _⟩
  exact ⟨.text (DType.isStrict_tag ht), counts _, counts _, List.forall_mem_nil _⟩

end Entry

namespace Header

variable {h : Header}

theorem toText_eq (tagged : ∀ e ∈ h.entries, e.dtype.tag?.isSome = true) :
    h.toText = .ok (Value.object h.fields).compact := by
  have all : (h.entries.mapM fun e => do return (e.name, ← e.toJson) :
      Except Error (List (Text × Value))) = .ok (h.entries.map fun e => (e.name, e.document)) := by
    apply mapM_eq_ok
    intro e he
    rw [Entry.toJson_eq (tagged e he)]
    rfl
  unfold toText fields
  rw [all]
  cases h.metadata <;> rfl

theorem Exact.fields (exact : h.Exact) : (Value.object h.fields).Exact := by
  refine .object ?_ ?_
  · have names : h.fields.map Prod.fst =
        h.metadata.toList.map (fun _ => metadataKey) ++ h.names := by
      simp only [Header.fields, names, List.map_append, List.map_map]
      rfl
    rw [names, List.nodup_append]
    refine ⟨?_, exact.distinct, ?_⟩
    · cases h.metadata with
      | none => exact List.nodup_nil
      | some => exact List.nodup_singleton _
    · intro name hn other ho same
      obtain ⟨_, _, rfl⟩ := List.mem_map.1 hn
      exact exact.unreserved (same ▸ ho)
  · simp only [Header.fields, List.forall_mem_append, List.forall_mem_map, Option.mem_toList]
    refine ⟨fun pairs hp => .object ?_ ?_, fun e he => (exact.entries e he).document⟩
    · rw [List.map_map]
      exact exact.keys pairs hp
    · rw [List.forall_mem_map]
      exact fun pair _ => .text pair.2

/-- A field gives the metadata or an entry. -/
theorem enter_eq_ok {h h' : Header} {field : Text × Value} (entered : h.enter field = .ok h') :
    (∃ pairs, field = metadataField pairs ∧ h' = { h with metadata := some pairs }) ∨
      field.1 ≠ metadataKey ∧ ∃ e, Entry.ofJson field.1 field.2 = .ok e ∧
        h' = { h with entries := h.entries ++ [e] } := by
  obtain ⟨key, v⟩ := field
  unfold enter at entered
  dsimp only at entered ⊢
  split at entered
  · next reserved =>
    split at entered
    · next fields =>
      obtain ⟨pairs, texts, made⟩ := bind_eq_ok.1 entered
      cases made
      have wrap : Function.Injective fun field : Text × Value => (Value.text field.1, field.2) := by
        rintro ⟨_, _⟩ ⟨_, _⟩ same
        cases same
        rfl
      have same : fields.map (fun field => (Value.text field.1, field.2)) =
          (pairs.map fun pair => (pair.1, Value.text pair.2)).map fun field => (.text field.1, field.2) := by
        rw [List.map_map]
        exact eq_of_textPairs texts
      obtain rfl := List.map_injective_iff.2 wrap same
      exact .inl ⟨pairs, by rw [reserved]; rfl, rfl⟩
    · cases entered
  · next other =>
    obtain ⟨e, made, same⟩ := bind_eq_ok.1 entered
    cases same
    exact .inr ⟨other, e, made, rfl⟩

theorem enter_metadata (h : Header) (pairs : List (Text × Text)) :
    h.enter (metadataField pairs) = .ok { h with metadata := some pairs } := by
  have texts : (pairs.map fun pair => (pair.1, Value.text pair.2)).map
      (fun field => (Value.text field.1, field.2)) =
        pairs.map fun pair => (.text pair.1, .text pair.2) := by
    rw [List.map_map]
    rfl
  unfold enter metadataField
  dsimp only
  rw [if_pos rfl, texts, textPairs_texts]
  rfl

theorem enter_entry (h : Header) {e : Entry} (exact : e.Exact) (other : e.name ≠ metadataKey) :
    h.enter (e.name, e.document) = .ok { h with entries := h.entries ++ [e] } := by
  unfold enter
  dsimp only
  rw [if_neg other, exact.ofJson_document]
  rfl

theorem enter_entries (h : Header) {entries : List Entry} (exact : ∀ e ∈ entries, e.Exact)
    (others : ∀ e ∈ entries, e.name ≠ metadataKey) :
    (entries.map fun e => (e.name, e.document)).foldlM enter h =
      .ok { h with entries := h.entries ++ entries } := by
  induction entries generalizing h with
  | nil => rw [List.append_nil]; rfl
  | cons e entries ih =>
    rw [List.forall_mem_cons] at exact others
    rw [List.map_cons, List.foldlM_cons, enter_entry h exact.1 others.1]
    have := ih { h with entries := h.entries ++ [e] } exact.2 others.2
    rwa [List.append_assoc, List.singleton_append] at this

theorem ofText_eq_ok {t : Text} : ofText t = .ok h ↔
    ∃ fields, Json.parse t = .ok (.object fields) ∧ fields.foldlM enter {} = .ok h := by
  unfold ofText
  split
  · next parsed => simp [parsed]
  · next parsed => simp [parsed]
  · next parsed => simp [parsed]
  · next fields parsed => simp [parsed]
  · next v other parsed =>
    constructor
    · nofun
    · rintro ⟨fields, same, -⟩
      rw [parsed] at same
      cases same
      exact absurd rfl (other fields)

theorem Exact.ofText_compact (exact : h.Exact) : ofText (Value.object h.fields).compact = .ok h := by
  have others : ∀ e ∈ h.entries, e.name ≠ metadataKey := fun e he same =>
    exact.unreserved (same ▸ List.mem_map_of_mem (f := Entry.name) he)
  unfold ofText
  rw [Json.parse_compact exact.fields]
  dsimp only
  rw [Header.fields, List.foldlM_append]
  have entries := exact.entries
  obtain ⟨listed, metadata⟩ := h
  cases metadata with
  | none => exact enter_entries {} entries others
  | some pairs =>
    rw [Option.toList_some, List.map_singleton, List.foldlM_cons, enter_metadata]
    exact enter_entries { metadata := some pairs } entries others

/-- The names and the metadata of a header have UTF-8 forms. -/
structure Strict (h : Header) : Prop where
  tagged : ∀ e ∈ h.entries, e.dtype.tag?.isSome = true
  names : ∀ name ∈ h.names, name.IsStrict
  metadata : ∀ pairs ∈ h.metadata, ∀ pair ∈ pairs, pair.1.IsStrict ∧ pair.2.IsStrict

theorem Strict.isStrict (strict : h.Strict) : (Value.object h.fields).compact.IsStrict := by
  have names := strict.names
  rw [Header.names, List.forall_mem_map] at names
  apply Json.isStrict_compact
  refine .object ?_ ?_
  · simp only [fields, List.forall_mem_append, List.forall_mem_map]
    have key : metadataKey.IsStrict := by
      decide
    exact ⟨fun _ _ => key, names⟩
  · simp only [fields, List.forall_mem_append, List.forall_mem_map, Option.mem_toList]
    refine ⟨fun pairs hp => .object ?_ ?_, fun e he => Entry.strict_document (strict.tagged e he)⟩
    · rw [List.forall_mem_map]
      exact fun pair hq => (strict.metadata pairs hp pair hq).1
    · rw [List.forall_mem_map]
      exact fun pair hq => .text (strict.metadata pairs hp pair hq).2

/-! ### Bytes -/

/-- The text of a header in UTF-8. -/
def body (h : Header) : Bytes := (Value.object h.fields).compact.utf8

theorem encode_eq {config : Config} (strict : h.Strict) (fits : h.body.length ≤ config.maxHeaderSize) :
    h.encode config = .ok (Bytes.littleEndian lengthSize h.body.length ++ h.body) := by
  unfold encode
  rw [toText_eq strict.tagged]
  simp only [bind, Except.bind, Text.strictUtf8?_eq strict.isStrict]
  exact if_neg (Nat.not_lt.2 fits)

theorem decode_eq_ok {bytes : Bytes} {payload : Option Int} : decode bytes payload = .ok h ↔
    ∃ t, Text.ofStrictUtf8? bytes = some t ∧ ofText t = .ok h ∧ h.validate payload = .ok () := by
  unfold decode
  split
  · next undecoded => simp [undecoded]
  · next t decoded =>
    simp only [decoded, bind_eq_ok, Option.some.injEq, exists_eq_left']
    constructor
    · rintro ⟨_, parsed, _, valid, ⟨⟩⟩
      exact ⟨parsed, valid⟩
    · rintro ⟨parsed, valid⟩
      exact ⟨h, parsed, (), valid, rfl⟩

theorem decode_body (exact : h.Exact) (strict : h.Strict) {payload : Option Int}
    (valid : h.validate payload = .ok ()) : decode h.body payload = .ok h := by
  unfold decode body
  rw [Text.ofStrictUtf8?_utf8 strict.isStrict]
  simp only [bind, Except.bind, exact.ofText_compact, valid]
  rfl

end Header

end Safetensors

end Checkpoint
