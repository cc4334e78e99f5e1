import Checkpoint.Proofs.Safetensors.Rejection
import Checkpoint.Proofs.Safetensors.RoundTrip
import Checkpoint.Proofs.Safetensors.Tiling
import Checkpoint.Proofs.Safetensors.Twins

/-! The ways to read a file agree.  A header that has been read once is read wherever the bytes are
offered; and from there on the same tensors are loaded, by seeking or in order, with the header that
was read before or with the one in front of them. -/

namespace Checkpoint.Safetensors

open Effect Checkpoint.Stream

variable {config : Config} {s t u : Stream} {header : Header} {data payload : Bytes}
  {keys : Option (List Text)}

/-! ### The header -/

/-- Bytes that start with a header, and go on with the payload that it describes. -/
structure Carries (config : Config) (data : Bytes) (header : Header) (body payload : Bytes) : Prop where
  split : data = fileWith body payload
  fits : body.length ≤ config.maxHeaderSize
  decoded : Header.decode body (some payload.length) = .ok header

/-- Bytes of which a header's length and text can be read have these in front. -/
theorem eq_fileWith_of_announced (whole : ((s.content.drop s.position).take Header.lengthSize).length =
      Header.lengthSize) (found : (bodyOf s).length = announced s) :
    s.content.drop s.position = fileWith (bodyOf s)
      ((s.content.drop s.position).drop (Header.lengthSize + (bodyOf s).length)) := by
  have front : Bytes.littleEndian Header.lengthSize (announced s) =
      (s.content.drop s.position).take Header.lengthSize := by
    have field := Bytes.littleEndian_fromLittleEndian ((s.content.drop s.position).take
      Header.lengthSize)
    rwa [whole] at field
  rw [fileWith, found, front, ← List.drop_drop, bodyOf, List.append_assoc, List.take_append_drop,
    List.take_append_drop]

/-- A header that is read from a stream is there, and leaves the stream in front of the payload. -/
theorem ensures_readHeader_carries (healthy : s.Healthy) (small : s.content.length < sizeLimit) :
    (readHeader config).Ensures s (fun header t => ∃ body payload calls,
      Carries config (s.content.drop s.position) header body payload ∧
      t = s.moved calls (Header.lengthSize + body.length)) fun _ _ => True := by
  apply ensures_readHeader_cases healthy small
  · exact fun _ _ _ => trivial
  · exact fun _ _ => trivial
  · exact fun _ _ _ _ => trivial
  · exact fun _ => trivial
  · intro whole fits found behind calls
    have left : (s.content.length : Int) - (s.position + (Header.lengthSize + (bodyOf s).length) : Nat) =
        ((s.content.drop s.position).drop (Header.lengthSize + (bodyOf s).length)).length := by
      rw [List.length_drop, List.length_drop]
      omega
    rw [left]
    exact ensures_ofExcept (fun header decoded =>
      ⟨_, _, calls, ⟨eq_fileWith_of_announced whole found, found ▸ fits, decoded⟩, rfl⟩) fun _ _ => trivial

section Carries

variable {body : Bytes}

theorem Carries.valid (h : Carries config data header body payload) :
    header.validate (some payload.length) = .ok () := by
  obtain ⟨_, -, -, valid⟩ := Header.decode_eq_ok.1 h.decoded
  exact valid

/-- A stream that cannot tell how much is left is believed. -/
theorem Carries.decode_heldBy (h : Carries config data header body payload) (u : Stream) :
    Header.decode body (heldBy u payload.length) = .ok header := by
  unfold heldBy
  split
  · exact h.decoded
  · obtain ⟨text, decoded, parsed, valid⟩ := Header.decode_eq_ok.1 h.decoded
    exact Header.decode_eq_ok.2 ⟨text, decoded, parsed, Header.validate_none valid⟩

/-- Behind the header stands the payload. -/
theorem Carries.behind (h : Carries config (s.content.drop s.position) header body payload)
    (calls : List StreamMethod) :
    (s.moved calls (Header.lengthSize + body.length)).content.drop
      (s.moved calls (Header.lengthSize + body.length)).position = payload := by
  change s.content.drop (s.position + (Header.lengthSize + body.length)) = payload
  rw [← List.drop_drop, h.split]
  apply List.drop_left'
  rw [List.length_append, Bytes.length_littleEndian]

theorem Carries.ensures_readHeader {Q : Header → Stream → Prop} {E : Error → Stream → Prop}
    (h : Carries config data header body payload) (hu : u.Offers data)
    (hq : ∀ v, v.Offers payload → Q header v) : (readHeader config).Ensures u Q E := by
  rw [h.split] at hu
  apply Safetensors.ensures_readHeader hu h.fits (h.decode_heldBy u)
  intro calls
  apply hq
  have front : Header.lengthSize + body.length =
      (Bytes.littleEndian Header.lengthSize body.length ++ body).length := by
    rw [List.length_append, Bytes.length_littleEndian]
  rw [front]
  exact hu.moved calls

end Carries

/-! ### The tensors -/

/-- Whether a tensor is asked for by its name: all are, unless there is a list of names. -/
def IsAsked (keys : Option (List Text)) (name : Text) : Prop := ∀ names ∈ keys, name ∈ names

/-- The entries of a header that are asked for, each once, and in the order of the payload. -/
structure Header.Selects (header : Header) (keys : Option (List Text)) (entries : List Entry) : Prop where
  chosen : ∀ e, e ∈ entries ↔ e ∈ header.entries ∧ IsAsked keys e.name
  distinct : (entries.map Entry.name).Nodup
  serial : entries.Pairwise fun a b => a.stop ≤ b.start

theorem Header.mem_selected {e : Entry} :
    e ∈ header.selected keys ↔ e ∈ header.entries ∧ IsAsked keys e.name := by
  cases keys with
  | none =>
    refine mem_inFileOrder.trans (iff_self_and.2 fun _ => ?_)
    rintro _ ⟨⟩
  | some names =>
    rw [selected, List.mem_filter, mem_inFileOrder, List.contains_iff_mem]
    refine and_congr_right fun _ => ⟨?_, fun asked => asked names rfl⟩
    rintro listed _ ⟨⟩
    exact listed

theorem Header.selects_selected {position stop : Nat} (distinct : header.names.Nodup)
    (ordered : ∀ e ∈ header.entries, e.start ≤ e.stop) (tiles : Tiles position header.inFileOrder stop)
    (keys : Option (List Text)) : header.Selects keys (header.selected keys) where
  chosen _ := mem_selected
  distinct := by
    have names : (header.inFileOrder.map Entry.name).Nodup :=
      ((List.mergeSort_perm _ _).map Entry.name).nodup_iff.2 distinct
    exact names.sublist ((header.selected_sublist keys).map Entry.name)
  serial := by
    have follows := tiles.follows fun e he => ordered e (mem_inFileOrder.1 he)
    exact (follows.sublist (header.selected_sublist keys)).pairwise

theorem Header.Selects.perm {names : List Text} {entries : List Entry}
    (h : header.Selects (some names) entries) (distinct : header.names.Nodup) :
    entries.Perm (header.entries.filter fun e => names.contains e.name) := by
  refine (List.perm_ext_iff_of_nodup (.of_map _ h.distinct) (.filter _ (.of_map _ distinct))).2 fun e => ?_
  rw [h.chosen, List.mem_filter, List.contains_iff_mem, and_congr_right_iff]
  refine fun _ => ⟨fun asked => asked names rfl, ?_⟩
  rintro listed _ ⟨⟩
  exact listed

/-- Of a file whose header is read once, the same tensors are loaded wherever its bytes are offered, on
streams that can seek and on others, with the header in front of them or with the one read before: those
that are asked for, in the order of the payload, each with its type, its shape and its bytes. -/
theorem paths_agree (healthy : s.Healthy) (small : s.content.length < sizeLimit)
    (read : (readHeader config).perform s = (.ok header, t))
    (layable : ∀ e ∈ header.entries, IsAsked keys e.name → e.size = 0 →
      Shape.requireContiguous e.shape = .ok ()) :
    ∃ entries loaded, header.Selects keys entries ∧
      (∀ e ∈ entries, (e.dataIn (t.content.drop t.position)).length = e.needed) ∧
      List.Forall₂ (ReadAs loaded.memory)
        (entries.map fun e => (e, e.dataIn (t.content.drop t.position))) loaded.tensors ∧
      ∀ u : Stream, u.Offers (s.content.drop s.position) →
        (∃ u', (load config keys).perform u = (.ok loaded, u')) ∧
        ∃ v v', (readHeader config).perform u = (.ok header, v) ∧
          (loadPayload header keys).perform v = (.ok loaded, v') := by
  obtain ⟨body, payload, calls, carries, rfl⟩ := (ensures_readHeader_carries healthy small).of_ok read
  have ordered := ordered_readHeader read
  obtain ⟨sizes, stop, tiles, held⟩ := Header.validate_eq_ok.1 carries.valid
  obtain rfl : stop = payload.length := Int.ofNat_inj.1 (held _ rfl)
  rw [carries.behind]
  have selected {e : Entry} (he : e ∈ header.selected keys) := Header.mem_selected.1 he
  have loads {v : Stream} (hv : v.Offers payload) : (loadPayload header keys).Ensures v
      (fun loaded _ => loaded = stateOf payload (header.selected keys)) fun _ _ => False :=
    ensures_loadPayload hv carries.valid ordered
      (fun e he => layable e (selected he).1 (selected he).2) fun _ _ => rfl
  refine ⟨header.selected keys, stateOf payload (header.selected keys),
    Header.selects_selected (nodup_names_readHeader read) ordered tiles keys, ?_,
    stateOf_read payload _, fun u hu => ⟨?_, ?_⟩⟩
  · intro e he
    have listed := (selected he).1
    rw [← sizes e listed]
    exact Entry.length_dataIn (ordered e listed) (tiles.stop_le
      (fun e he => ordered e (Header.mem_inFileOrder.1 he)) e (Header.mem_inFileOrder.2 listed))
  · have whole : (load config keys).Ensures u
        (fun loaded _ => loaded = stateOf payload (header.selected keys)) fun _ _ => False := by
      unfold load
      rw [ensures_bind]
      exact carries.ensures_readHeader hu fun v hv => loads hv
    obtain ⟨_, u', loaded, rfl⟩ := whole.exists_ok
    exact ⟨u', loaded⟩
  · have first : (readHeader config).Ensures u (fun found v => found = header ∧ v.Offers payload)
        fun _ _ => False := carries.ensures_readHeader hu fun v hv => ⟨rfl, hv⟩
    obtain ⟨_, v, found, rfl, hv⟩ := first.exists_ok
    obtain ⟨_, v', loaded, rfl⟩ := (loads hv).exists_ok
    exact ⟨v, v', found, loaded⟩

/-- A document whose entries are not in the order of the payload, one of them without bytes. -/
def scattered : Text := "\x7b \"c\":\x7b\"dtype\":\"U8\",\"shape\":[1],\"data_offsets\":[4,5]\x7d,
  \"b\":\x7b\"dtype\":\"U8\",\"shape\":[2],\"data_offsets\":[2,4]\x7d,
  \"none\":\x7b\"dtype\":\"F32\",\"shape\":[0],\"data_offsets\":[2,2]\x7d,
  \"a\":\x7b\"dtype\":\"U8\",\"shape\":[2],\"data_offsets\":[0,2]\x7d \x7d"

def scatteredHeader : Header where
  entries := [
    { name := "c", dtype := .uint8, shape := [1], start := 4, stop := 5 },
    { name := "b", dtype := .uint8, shape := [2], start := 2, stop := 4 },
    { name := "none", dtype := .float32, shape := [0], start := 2, stop := 2 },
    { name := "a", dtype := .uint8, shape := [2], start := 0, stop := 2 }]

theorem ofText_scattered : scattered.utf8.length = 224 ∧ scattered.IsStrict ∧
    Header.ofText scattered = .ok scatteredHeader := by
  decide +kernel

theorem length_scattered : (fileWith scattered.utf8 [1, 2, 3, 4, 5]).length = 237 := by
  rw [fileWith, List.length_append, List.length_append, Bytes.length_littleEndian, ofText_scattered.1]
  rfl

theorem carries_scattered : Carries {} (fileWith scattered.utf8 [1, 2, 3, 4, 5]) scatteredHeader
    scattered.utf8 [1, 2, 3, 4, 5] where
  split := rfl
  fits := by
    rw [ofText_scattered.1]
    decide
  decoded := by
    have tiles : Tiles 0 scatteredHeader.entries.reverse 5 :=
      .cons rfl (.cons rfl (.cons rfl (.cons rfl (.nil 5))))
    obtain ⟨-, strict, parsed⟩ := ofText_scattered
    refine Header.decode_eq_ok.2 ⟨scattered, Text.ofStrictUtf8?_utf8 strict, parsed,
      Header.validate_eq_ok.2 ⟨by decide, 5, ?_, ?_⟩⟩
    · exact tiles.mergeSort (List.reverse_perm _) (by decide)
    · rintro _ ⟨⟩
      rfl

/-- A file with two bytes in front of it. -/
def behindBytes : Stream :=
  { content := [7, 8] ++ fileWith scattered.utf8 [1, 2, 3, 4, 5], position := 2 }

/-- A file that cannot be sought in. -/
def inOrder : Stream := { content := fileWith scattered.utf8 [1, 2, 3, 4, 5], mode := .forward }

theorem length_behindBytes : behindBytes.content.length = 239 := by
  rw [behindBytes, List.length_append, length_scattered]
  rfl

theorem offers_behindBytes : behindBytes.Offers (fileWith scattered.utf8 [1, 2, 3, 4, 5]) := by
  refine ⟨⟨rfl, rfl, rfl⟩, nofun, ?_, rfl, ?_⟩ <;> rw [length_behindBytes] <;> decide

theorem offers_inOrder : inOrder.Offers (fileWith scattered.utf8 [1, 2, 3, 4, 5]) := by
  refine ⟨⟨rfl, rfl, rfl⟩, nofun, Nat.zero_le _, rfl, ?_⟩
  change inOrder.readFault? (fileWith scattered.utf8 [1, 2, 3, 4, 5]).length = none
  rw [length_scattered]
  decide

theorem names_scattered {entries : List Entry}
    (selects : scatteredHeader.Selects (some ["c", "none"]) entries) :
    entries.map Entry.name = (["none", "c"] : List Text) := by
  let sorted : List Entry := [
    { name := "none", dtype := .float32, shape := [0], start := 2, stop := 2 },
    { name := "c", dtype := .uint8, shape := [1], start := 4, stop := 5 }]
  have perm : entries.Perm sorted := (selects.perm (by decide)).trans (List.reverse_perm sorted)
  have apart : ∀ a ∈ sorted, ∀ b ∈ sorted, a.stop ≤ b.start → b.stop ≤ a.start → a = b := by
    decide
  have same : entries = sorted := perm.eq_of_pairwise
    (fun a b ha hb => apart a (perm.mem_iff.1 ha) b hb) selects.serial (by decide)
  rw [same]
  rfl

theorem paths_agree_scattered : ∃ header t loaded u u' v,
    (readHeader {}).perform behindBytes = (.ok header, t) ∧
    (load {} (some ["c", "none"])).perform behindBytes = (.ok loaded, u) ∧
    (load {} (some ["c", "none"])).perform inOrder = (.ok loaded, u') ∧
    (loadPayload header (some ["c", "none"])).perform t = (.ok loaded, v) ∧
    loaded.names = (["none", "c"] : List Text) := by
  have reads : (readHeader {}).Ensures behindBytes (fun header _ => header = scatteredHeader)
      fun _ _ => False := carries_scattered.ensures_readHeader offers_behindBytes fun _ _ => rfl
  have layable : ∀ e ∈ scatteredHeader.entries, e.size = 0 →
      Shape.requireContiguous e.shape = .ok () := by
    decide
  obtain ⟨_, t, read, rfl⟩ := reads.exists_ok
  obtain ⟨entries, loaded, selects, -, described, paths⟩ := paths_agree (s := behindBytes)
    ⟨rfl, rfl, rfl, rfl⟩ (by rw [length_behindBytes]; decide) read fun e he _ => layable e he
  obtain ⟨⟨u, first⟩, t', v, read', third⟩ := paths behindBytes offers_behindBytes
  obtain ⟨⟨u', second⟩, -⟩ := paths inOrder offers_inOrder
  cases read.symm.trans read'
  refine ⟨scatteredHeader, t, loaded, u, u', v, read, first, second, third, ?_⟩
  rw [List.forall₂_map_left_iff] at described
  rw [← names_scattered selects]
  exact (map_eq_map_of_forall₂ described fun _ _ h => h.1.symm).symm

/-- A tensor without elements whose other dimensions are too large for a layout. -/
def vast : Text :=
  "\x7b\"a\":\x7b\"dtype\":\"U8\",\"shape\":[0,1099511627776,1099511627776],\"data_offsets\":[0,0]\x7d\x7d"

/-- A file is accepted when its header is read, and its tensors are then refused. -/
theorem paths_agree_vast :
    ((readHeader {}).perform (.ofBytes (fileWith vast.utf8 []))).1.toOption.isSome = true ∧
    ((load {} none).perform (.ofBytes (fileWith vast.utf8 []))).1.toOption.isSome = false := by
  decide +kernel

end Checkpoint.Safetensors
