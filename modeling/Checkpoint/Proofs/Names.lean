import Checkpoint.Archive.Load
import Checkpoint.Proofs.Json.Reading
import Checkpoint.Proofs.Pickle.Closure
import Checkpoint.Proofs.Pickle.Heap
import Checkpoint.Proofs.Safetensors.Header
import Checkpoint.Proofs.Table
import Checkpoint.Safetensors.Reader

/-! The names in a source are different from one another: a mapping has one entry for each, and a document
that gives one key twice is not read. -/

namespace Checkpoint

/-! ### Archives -/

namespace Pickle

open Archive Effect

namespace Value

def text? : Value → Option Text
  | text t => some t
  | _ => Option.none

theorem text?_eq_some {v : Value} {t : Text} : v.text? = some t ↔ v = text t := by
  cases v <;> simp [text?]

theorem beq_text (t : Text) : (text t == text t) = true := by
  change same (text t) (text t) = true
  simp [same]

end Value

/-- The keys of entries that are texts. -/
def namesOf (entries : List (Value × Value)) : List Text := (entries.map Prod.fst).filterMap Value.text?

theorem mem_namesOf {entries : List (Value × Value)} {t : Text} :
    t ∈ namesOf entries ↔ Value.text t ∈ entries.map Prod.fst := by
  simp only [namesOf, List.mem_filterMap, Value.text?_eq_some, exists_eq_right]

theorem nodup_namesOf_insert {t : Table Value Value} (distinct : (namesOf t.entries).Nodup)
    (key value : Value) : (namesOf (t.insert key value).entries).Nodup := by
  unfold namesOf at *
  rw [Table.insert, Table.map_fst_insertInto]
  split
  · exact distinct
  · next absent =>
    rw [List.filterMap_append, List.filterMap_cons]
    cases text : key.text? with
    | none => simpa using distinct
    | some name =>
      obtain rfl := Value.text?_eq_some.1 text
      refine List.nodup_append.2 ⟨distinct, List.nodup_singleton _, ?_⟩
      rintro other listed _ hn rfl
      obtain rfl := List.mem_singleton.1 hn
      obtain ⟨entry, he, same⟩ := List.mem_map.1 (mem_namesOf.1 listed)
      exact absent (List.any_eq_true.2 ⟨entry, he, same ▸ Value.beq_text other⟩)

theorem nodup_namesOf_enterAll {t : Table Value Value} (distinct : (namesOf t.entries).Nodup)
    (items : List (Value × Value)) : (namesOf (enterAll t items).1.entries).Nodup := by
  induction items generalizing t with
  | nil => exact distinct
  | cons item items ih =>
    unfold enterAll
    split
    · exact ih (nodup_namesOf_insert distinct _ _)
    · exact distinct

/-- No name is the key of two entries. -/
def Object.Distinct : Object → Prop
  | .list _ => True
  | .dict entries | .ordered entries _ => (namesOf entries.entries).Nodup

def Heap.Distinct (h : Heap) : Prop := ∀ id o, h.get? id = some o → o.Distinct

theorem Heap.Distinct.set {h : Heap} (distinct : h.Distinct) {o : Object} (ho : o.Distinct) (id : Nat) :
    (h.set id o).Distinct := by
  intro id' o' found
  obtain rfl | found := eq_or_get?_of_set found
  · exact ho
  · exact distinct id' o' found

theorem Heap.Distinct.allocate {h : Heap} (distinct : h.Distinct) {o : Object} (ho : o.Distinct) :
    (h.allocate o).2.Distinct := by
  intro id' o' found
  obtain rfl | found := eq_or_get?_of_allocate found
  · exact ho
  · exact distinct id' o' found

theorem Constructor.distinct_call {c : Constructor} {h h' : Heap} {arguments : List Value} {birth : Nat}
    {v : Value} (distinct : h.Distinct) (called : c.call h arguments birth = .ok (v, h')) : h'.Distinct := by
  cases made_of_call called with
  | empty => exact distinct.allocate .nil
  | @ordered _ _ pairs _ _ _ entered =>
    have kept := nodup_namesOf_enterAll (t := {}) .nil pairs
    rw [entered] at kept
    exact distinct.allocate kept
  | tensor | parameter => exact distinct

namespace Machine

variable {config : Config} {c : Cursor}

/-- What an action leaves has no name twice in a mapping, if there was none before. -/
def KeepsNames (x : Running α) : Prop :=
  ∀ m : Machine, m.heap.Distinct → x.Ensures m (fun _ m' => m'.heap.Distinct) fun _ _ => True

/-- Most actions do not touch the heap. -/
theorem keepsNames_of_same {x : Running α}
    (h : ∀ m, x.Ensures m (fun _ m' => m'.heap = m.heap) fun _ _ => True) : KeepsNames x :=
  fun m distinct => (h m).post fun _ _ same => same ▸ distinct

theorem keepsNames_throw (e : Error) : KeepsNames (throw e : Running α) :=
  fun _ _ => (ensures_throw e).2 trivial

theorem keepsNames_modify {f : Machine → Machine} (h : ∀ m, (f m).heap = m.heap) :
    KeepsNames (modify f) :=
  keepsNames_of_same fun m => (ensures_modify f).2 (h m)

theorem composable_keepsNames : Composable KeepsNames where
  pure a := keepsNames_of_same fun _ => (ensures_pure a).2 rfl
  refuse _ := keepsNames_throw _
  bind h next m distinct :=
    (ensures_bind _).2 ((h m distinct).post fun a m' distinct' => next a m' distinct')
  look _ h m distinct := (ensures_bind _).2 (ensures_get.2 (h m m distinct))

theorem keepsNames_push (v : Value) : KeepsNames (push config v) :=
  composable_keepsNames.bind composable_keepsNames.checkDepth fun _ => keepsNames_modify fun _ => rfl

theorem keepsNames_mark : KeepsNames (mark config) :=
  composable_keepsNames.bind composable_keepsNames.checkDepth fun _ => keepsNames_modify fun _ => rfl

theorem keepsNames_pop (c : Cursor) : KeepsNames (pop c) := by
  refine keepsNames_of_same fun m => ?_
  rw [ensures_pop]
  split
  · trivial
  · rfl

theorem keepsNames_popMark (c : Cursor) : KeepsNames (popMark c) := by
  refine keepsNames_of_same fun m => ?_
  rw [ensures_popMark]
  split
  · trivial
  · rfl

theorem keepsNames_memoPut (c : Cursor) (index : Nat) : KeepsNames (memoPut config c index) := by
  refine keepsNames_of_same fun m => ?_
  rw [ensures_memoPut]
  split
  · trivial
  · rw [ensures_top]
    split
    · trivial
    · rfl

theorem keepsNames_pushObject {o : Object} (ho : o.Distinct) : KeepsNames (pushObject config o) := by
  intro m distinct
  rw [ensures_pushObject]
  exact keepsNames_push _ _ (distinct.allocate ho)

theorem keepsNames_extendList (c : Cursor) (items : List Value) : KeepsNames (extendList c items) := by
  intro m distinct
  rw [extendList, ensures_bind, ensures_top]
  split
  · trivial
  · rw [ensures_bind, ensures_get]
    dsimp only
    split
    · split
      · next old _ =>
        have list : Object.Distinct (.list (old ++ items)) := trivial
        exact ensures_setObject.2 (distinct.set list _)
      · exact composable_keepsNames.refuse _ m distinct
    · exact composable_keepsNames.refuse _ m distinct

theorem keepsNames_enterItems (c : Cursor) (items : List (Value × Value)) :
    KeepsNames (enterItems c items) := by
  intro m distinct
  have finish (hashable : Bool) :
      KeepsNames (unless hashable do refuse (.unhashableKey (lastOffset c)) : Running Unit) := by
    cases hashable
    · exact composable_keepsNames.refuse _
    · exact composable_keepsNames.pure _
  rw [enterItems, ensures_bind, ensures_top]
  split
  · trivial
  · rw [ensures_bind, ensures_get]
    dsimp only
    split
    · split
      · next old found =>
        rw [ensures_bind, ensures_setObject]
        refine finish _ _ (distinct.set ?_ _)
        exact nodup_namesOf_enterAll (distinct _ _ found) items
      · next old attributes found =>
        rw [ensures_bind, ensures_setObject]
        refine finish _ _ (distinct.set ?_ _)
        exact nodup_namesOf_enterAll (t := old) (distinct _ _ found) items
      · exact composable_keepsNames.refuse _ m distinct
    · exact composable_keepsNames.refuse _ m distinct

theorem keepsNames_setAttributes (id : Nat) (items : List (Value × Value)) :
    KeepsNames (setAttributes id items) := by
  induction items with
  | nil => exact composable_keepsNames.pure _
  | cons item items ih =>
    intro m distinct
    rw [setAttributes, ensures_bind, ensures_get]
    dsimp only
    split
    · next name entries attributes _ found =>
      split
      · rw [ensures_bind, ensures_setObject]
        have kept : Object.Distinct (.ordered entries (attributes.insert name item.2)) :=
          distinct id (.ordered entries attributes) found
        exact ih _ (distinct.set kept _)
      · exact composable_keepsNames.refuse _ m distinct
    · exact composable_keepsNames.refuse _ m distinct

theorem keepsNames_reduce (c : Cursor) : KeepsNames (reduce c) := by
  refine composable_keepsNames.bind (keepsNames_pop c) fun arguments m distinct => ?_
  rw [ensures_bind, ensures_top]
  split
  · trivial
  · rw [ensures_bind, ensures_get]
    split
    · split
      · split
        · next called =>
          rw [ensures_set]
          exact Constructor.distinct_call distinct called
        · exact keepsNames_throw _ m distinct
      · exact composable_keepsNames.refuse _ m distinct
    · exact composable_keepsNames.refuse _ m distinct

theorem keepsNames_resolvePersistent (c : Cursor) : KeepsNames (resolvePersistent config c) := by
  refine composable_keepsNames.bind (keepsNames_pop c) fun id m distinct => ?_
  rw [ensures_bind, ensures_get, ensures_bind]
  refine ensures_ofExcept (fun ref _ => ?_) fun _ _ => trivial
  rw [ensures_bind]
  refine ensures_ofExcept (fun registered _ => ?_) fun _ _ => trivial
  rw [ensures_bind, ensures_set]
  exact keepsNames_push _ _ distinct

/-- No primitive enters a name into a mapping that has it already; so no run does. -/
theorem closed_keepsNames : Closed config KeepsNames where
  toComposable := composable_keepsNames
  valuesLeft := keepsNames_throw _
  protocol _ := keepsNames_modify fun _ => rfl
  trace _ := keepsNames_modify fun _ => rfl
  push := keepsNames_push
  pop := keepsNames_pop
  popMark := keepsNames_popMark
  mark := keepsNames_mark
  emptyList := keepsNames_pushObject trivial
  emptyDict := keepsNames_pushObject .nil
  extendList := keepsNames_extendList
  enterItems := keepsNames_enterItems
  memoPut := keepsNames_memoPut
  reduce := keepsNames_reduce
  build c := composable_keepsNames.build (keepsNames_pop c) keepsNames_setAttributes
  resolvePersistent := keepsNames_resolvePersistent

end Machine

end Pickle

namespace Archive

open Pickle Effect

theorem map_fst_checkEntries {h : Heap} {arena : Arena} {entries : List (Value × Value)}
    {refs : List (Text × TensorRef)} (checked : checkEntries h arena entries = .ok refs) :
    refs.map Prod.fst = namesOf entries := by
  induction entries generalizing refs with
  | nil =>
    cases checked
    rfl
  | cons entry rest ih =>
    unfold checkEntries at checked
    split at checked
    · next none => cases none
    · next same =>
      cases same
      simp only [bind_eq_ok] at checked
      obtain ⟨_, -, others, rest, made⟩ := checked
      cases made
      rw [List.map_cons, ih rest]
      rfl
    · cases checked
    · cases checked

/-- The names of an archive are those of one mapping. -/
theorem Reader.nodup_names_decode {config : Config} {r : Reader} {s t : Stream} {d : Decoded}
    {arena : Arena} (decoded : (r.decode config).perform s = (.ok (d, arena), t)) :
    (d.refs.map Prod.fst).Nodup := by
  rw [Reader.decode, perform_bind_eq_ok] at decoded
  obtain ⟨bytes, s₁, -, decoded⟩ := decoded
  cases loaded : Machine.load config (.ofReader r) bytes with
  | mk outcome m =>
    simp only [loaded, perform_bind_eq_ok, perform_ofExcept_eq_ok] at decoded
    obtain ⟨⟨v, c⟩, s₂, ⟨rfl, -⟩, d', s₃, ⟨valued, -⟩, same⟩ := decoded
    obtain ⟨⟨rfl, rfl⟩, -⟩ : (d' = d ∧ m.arena = arena) ∧ s₃ = t := by
      simpa using same
    have distinct : m.heap.Distinct := (Machine.closed_keepsNames.run _ _ (by nofun)).of_ok loaded
    unfold Decoded.ofValue at valued
    dsimp only at valued
    split at valued
    · split at valued
      · next found =>
        rw [bind_eq_ok] at valued
        obtain ⟨refs, checked, made⟩ := valued
        cases made
        exact map_fst_checkEntries checked ▸ distinct _ _ found
      · next found =>
        rw [bind_eq_ok] at valued
        obtain ⟨refs, checked, made⟩ := valued
        cases made
        exact map_fst_checkEntries checked ▸ distinct _ _ found
      · cases valued
    · cases valued

end Archive

/-! ### Safetensors -/

namespace Json

/-- A document that is an object has no key twice. -/
theorem nodup_parse {t : Text} {fields : List (Text × Value)} (h : parse t = .ok (.object fields)) :
    (fields.map Prod.fst).Nodup := by
  obtain ⟨regular, -⟩ := (gives_parse t).of_ok h
  cases regular with
  | object apart => exact apart

end Json

namespace Safetensors

open Effect

/-- The names of the entries are keys of the document, in its order. -/
theorem Header.names_enterAll {h h' : Header} {fields : List (Text × Json.Value)}
    (entered : fields.foldlM Header.enter h = .ok h') :
    ∃ keys, h'.names = h.names ++ keys ∧ keys.Sublist (fields.map Prod.fst) := by
  induction fields generalizing h with
  | nil =>
    cases entered
    exact ⟨[], (List.append_nil _).symm, .slnil⟩
  | cons field fields ih =>
    rw [List.foldlM_cons, bind_eq_ok] at entered
    obtain ⟨h₁, first, entered⟩ := entered
    obtain ⟨keys, names, sublist⟩ := ih entered
    obtain ⟨pairs, -, rfl⟩ | ⟨-, e, made, rfl⟩ := Header.enter_eq_ok first
    · exact ⟨keys, names, sublist.cons _⟩
    · refine ⟨e.name :: keys, ?_, ?_⟩
      · rw [names, Header.names, List.map_append, List.append_assoc]
        rfl
      · rw [(Entry.of_ofJson made).1]
        exact sublist.cons_cons _

/-- The names in a header differ, since the keys of its document do. -/
theorem Header.nodup_names_decode {bytes : Bytes} {payload : Option Int} {h : Header}
    (decoded : Header.decode bytes payload = .ok h) : h.names.Nodup := by
  obtain ⟨t, -, parsed, -⟩ := Header.decode_eq_ok.1 decoded
  obtain ⟨fields, document, entered⟩ := Header.ofText_eq_ok.1 parsed
  obtain ⟨keys, names, sublist⟩ := Header.names_enterAll entered
  rw [names]
  exact (Json.nodup_parse document).sublist sublist

/-- A header that has been read has been decoded from some bytes. -/
theorem exists_decode_of_readHeader {config : Config} {s t : Stream} {h : Header}
    (read : (readHeader config).perform s = (.ok h, t)) :
    ∃ bytes payload, Header.decode bytes payload = .ok h := by
  have refused {x : Unit → Action Header} {e : Error} {u : Stream} :
      (throw e >>= x).perform u ≠ (.ok h, t) := nofun
  rw [readHeader, perform_bind_eq_ok] at read
  obtain ⟨start, _, -, read⟩ := read
  dsimp only at read
  split at read
  · exact absurd read refused
  split at read
  · exact absurd read refused
  rw [perform_bind_eq_ok] at read
  obtain ⟨bytes, _, -, read⟩ := read
  split at read
  · exact absurd read refused
  rw [perform_bind_eq_ok] at read
  obtain ⟨payload, _, -, read⟩ := read
  exact ⟨bytes, payload, (perform_ofExcept_eq_ok.1 read).1⟩

theorem nodup_names_readHeader {config : Config} {s t : Stream} {h : Header}
    (read : (readHeader config).perform s = (.ok h, t)) : h.names.Nodup := by
  obtain ⟨_, _, decoded⟩ := exists_decode_of_readHeader read
  exact Header.nodup_names_decode decoded

end Safetensors

end Checkpoint
