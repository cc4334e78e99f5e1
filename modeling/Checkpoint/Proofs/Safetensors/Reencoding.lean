import Checkpoint.Proofs.Json.Reading
import Checkpoint.Proofs.Names
import Checkpoint.Proofs.Safetensors.Rejection
import Checkpoint.Proofs.Safetensors.Tiling

/-! Headers that have been decoded are encoded again.  Whatever the order, the blanks, the escapes and the other
fields of a document were, the header is written as no more bytes, and from these the same header is read. -/

namespace Checkpoint.Safetensors

open Json (Value entrySize total)

/-- An entry is written with the fields that it has been read from, and without any others. -/
theorem Entry.size_document_le {name : Text} {v : Value} {e : Entry} (h : ofJson name v = .ok e) :
    e.document.size ≤ v.size := by
  obtain ⟨-, -, -, fields, rfl, found⟩ := of_ofJson h
  have keys : (e.parts.map Prod.fst).Nodup := by
    change (["dtype", "shape", "data_offsets"] : List Text).Nodup
    decide
  have parts : total entrySize e.parts ≤ total entrySize fields :=
    Json.total_le_of_subset keys.of_map found
  change (Value.object e.parts).size ≤ _
  rw [Json.size_object, Json.size_object]
  omega

namespace Header

variable {h h' : Header} {fields : List (Text × Value)}

/-- What holds of a header as far as it has been read from a document. -/
structure Legible (h : Header) : Prop where
  tagged : ∀ e ∈ h.entries, e.dtype.tag?.isSome = true
  unreserved : ∀ e ∈ h.entries, e.name ≠ metadataKey
  keys : ∀ pairs ∈ h.metadata, (pairs.map Prod.fst).Nodup

theorem total_fields (h : Header) : total entrySize h.fields =
    total entrySize (h.metadata.toList.map metadataField) +
      total entrySize (h.entries.map fun e => (e.name, e.document)) :=
  Json.total_append

/-- A field makes the document of a header longer by its own length at most. -/
theorem Legible.enter {field : Text × Value} (legible : h.Legible) (regular : field.2.Regular)
    (entered : h.enter field = .ok h') : h'.Legible ∧
      total entrySize h'.fields ≤ total entrySize h.fields + (entrySize field + 1) := by
  obtain ⟨pairs, rfl, rfl⟩ | ⟨other, e, made, rfl⟩ := enter_eq_ok entered
  · refine ⟨⟨legible.tagged, legible.unreserved, ?_⟩, ?_⟩
    · rintro _ ⟨⟩
      cases regular with
      | object apart =>
        rw [List.map_map] at apart
        exact apart
    · simp only [total_fields, Option.toList_some, List.map_singleton, Json.total_cons, Json.total_nil]
      omega
  · obtain ⟨name, tagged, -⟩ := Entry.of_ofJson made
    have size := Entry.size_document_le made
    refine ⟨⟨?_, ?_, legible.keys⟩, ?_⟩
    · exact List.forall_mem_append.2 ⟨legible.tagged, List.forall_mem_singleton.2 tagged⟩
    · exact List.forall_mem_append.2 ⟨legible.unreserved, List.forall_mem_singleton.2 (name ▸ other)⟩
    · simp only [total_fields, List.map_append, Json.total_append, List.map_singleton, Json.total_cons,
        Json.total_nil, entrySize, name]
      omega

/-- A header is written as no more than the document it has been read from. -/
theorem Legible.enterAll (legible : h.Legible) (regular : ∀ field ∈ fields, field.2.Regular)
    (entered : fields.foldlM Header.enter h = .ok h') : h'.Legible ∧
      total entrySize h'.fields ≤ total entrySize h.fields + total entrySize fields := by
  induction fields generalizing h with
  | nil =>
    cases entered
    exact ⟨legible, Nat.le_add_right _ _⟩
  | cons field fields ih =>
    rw [List.forall_mem_cons] at regular
    rw [List.foldlM_cons, bind_eq_ok] at entered
    obtain ⟨h₁, first, entered⟩ := entered
    obtain ⟨legible, size⟩ := legible.enter regular.1 first
    obtain ⟨legible, others⟩ := ih legible regular.2 entered
    rw [Json.total_cons]
    exact ⟨legible, by omega⟩

theorem legible_empty : Legible {} :=
  ⟨nofun, nofun, nofun⟩

section Decoded

variable {config : Config} {bytes : Bytes} {payload : Option Int}

theorem legible_of_decode (decoded : decode bytes payload = .ok h) :
    h.Legible ∧ (Value.object h.fields).size ≤ bytes.length := by
  obtain ⟨t, read, parsed, -⟩ := decode_eq_ok.1 decoded
  obtain ⟨fields, document, entered⟩ := ofText_eq_ok.1 parsed
  obtain ⟨regular, size⟩ := (Json.gives_parse t).of_ok document
  have length := Text.length_utf8_of_ofStrictUtf8? read
  cases regular with
  | object _ each =>
    obtain ⟨legible, total⟩ := legible_empty.enterAll each entered
    refine ⟨legible, ?_⟩
    rw [Json.size_object] at size ⊢
    change _ ≤ 0 + _ at total
    omega

/-- A header that has been decoded is read again as it is written. -/
theorem exact_of_decode (decoded : decode bytes payload = .ok h) : h.Exact := by
  obtain ⟨⟨tagged, unreserved, keys⟩, -⟩ := legible_of_decode decoded
  obtain ⟨t, -, parsed, -⟩ := decode_eq_ok.1 decoded
  refine ⟨nodup_names_decode decoded, ?_, fun e he => ?_, keys⟩
  · rw [names, List.mem_map]
    rintro ⟨e, he, reserved⟩
    exact unreserved e he reserved
  · obtain ⟨ordered, stop, shape⟩ := sensible_of_ofText parsed e he
    refine ⟨tagged e he, ordered, ?_⟩
    simp only [List.forall_mem_cons]
    exact ⟨stop.of_le ordered, stop, shape⟩

/-- A header that has been decoded is written as no more bytes than it was read from. -/
theorem length_body_le (decoded : decode bytes payload = .ok h) : h.body.length ≤ bytes.length := by
  rw [body, Json.length_compact (exact_of_decode decoded).fields]
  exact (legible_of_decode decoded).2

/-- A header that has been decoded, whatever its document was like, is encoded again if that many bytes are
allowed, and the same header is read from it, whether the size of the payload is known or not. -/
theorem decode_encode (decoded : decode bytes payload = .ok h) (fits : bytes.length ≤ config.maxHeaderSize)
    (names : ∀ name ∈ h.names, name.IsStrict)
    (metadata : ∀ pairs ∈ h.metadata, ∀ pair ∈ pairs, pair.1.IsStrict ∧ pair.2.IsStrict) :
    ∃ encoded, h.encode config = .ok encoded ∧ decode (encoded.drop lengthSize) payload = .ok h ∧
      decode (encoded.drop lengthSize) none = .ok h := by
  have exact := exact_of_decode decoded
  obtain ⟨-, -, -, valid⟩ := decode_eq_ok.1 decoded
  have strict : h.Strict := ⟨fun e he => (exact.entries e he).tagged, names, metadata⟩
  refine ⟨_, encode_eq strict ((length_body_le decoded).trans fits), ?_⟩
  rw [List.drop_left' (Bytes.length_littleEndian ..)]
  exact ⟨decode_body exact strict valid, decode_body exact strict (validate_none valid)⟩

end Decoded

/-- A document with blanks, escapes, a field that no entry needs, and its last range in front. -/
def untidy : Text := "\x7b \"b\\u0041\" : \x7b\"shape\":[ 2 ], \"data_offsets\":[2,4],
  \"dtype\":\"\\u00558\", \"note\":[null,-0,1.5e3,\x7b\"\\/\":true\x7d]\x7d,
  \"__metadata__\":\x7b\"k\":\"\\ud83d\\ude00\"\x7d,
  \"a\":\x7b\"dtype\":\"U8\",\"shape\":[2],\"data_offsets\":[0,2]\x7d \x7d"

def untidyHeader : Header where
  entries := [
    { name := "bA", dtype := .uint8, shape := [2], start := 2, stop := 4 },
    { name := "a", dtype := .uint8, shape := [2], start := 0, stop := 2 }]
  metadata := some [("k", "😀")]

theorem decode_encode_untidy : ∃ encoded, decode untidy.utf8 (some 4) = .ok untidyHeader ∧
    untidyHeader.encode {} = .ok encoded ∧ decode (encoded.drop lengthSize) (some 4) = .ok untidyHeader ∧
    decode (encoded.drop lengthSize) none = .ok untidyHeader := by
  have document : untidy.IsStrict ∧ untidy.utf8.length ≤ ({} : Config).maxHeaderSize ∧
      ofText untidy = .ok untidyHeader := by
    decide +kernel
  obtain ⟨strict, fits, parsed⟩ := document
  have tiles : Tiles 0 untidyHeader.entries.reverse 4 := .cons rfl (.cons rfl (.nil 4))
  have valid : untidyHeader.validate (some 4) = .ok () := by
    refine validate_eq_ok.2 ⟨by decide, 4, tiles.mergeSort (List.reverse_perm _) (by decide), ?_⟩
    rintro _ ⟨⟩
    rfl
  have decoded : decode untidy.utf8 (some 4) = .ok untidyHeader :=
    decode_eq_ok.2 ⟨untidy, Text.ofStrictUtf8?_utf8 strict, parsed, valid⟩
  have metadata : ∀ pairs ∈ untidyHeader.metadata, ∀ pair ∈ pairs, pair.1.IsStrict ∧ pair.2.IsStrict := by
    rintro _ ⟨⟩
    decide
  obtain ⟨encoded, made, again⟩ := decode_encode decoded fits (by decide) metadata
  exact ⟨encoded, decoded, made, again⟩

/-- A document whose only name is an escape that no text in UTF-8 can hold. -/
def halved : Text :=
  "\x7b\"\\ud800\":\x7b\"dtype\":\"U8\",\"shape\":[0],\"data_offsets\":[0,0]\x7d\x7d"

def halvedHeader : Header where
  entries := [{ name := ⟨[0xd800]⟩, dtype := .uint8, shape := [0], start := 0, stop := 0 }]

/-- The escape is read, and cannot be encoded again. -/
theorem decode_encode_halved : halved.utf8.length ≤ ({} : Config).maxHeaderSize ∧
    decode halved.utf8 none = .ok halvedHeader ∧
    halvedHeader.encode {} = .error .unencodableText := by
  decide +kernel

end Header

end Checkpoint.Safetensors
