import Checkpoint.Proofs.Insertion
import Checkpoint.Proofs.Module
import Checkpoint.Proofs.Safetensors.Checking

/-! Files do not depend on the order of a mapping.  Its names are sorted first, and different names have
one sorted order; the header is laid out in that order, and the payload is written in it. -/

namespace Checkpoint.Safetensors

open Effect Checkpoint.Module
open Pickle (Graph)

/-- An object is a mapping from names to tensors, in some order. -/
def Tabulates (g : Graph) (id : Nat) (tensors : List (Text × Tensor)) : Prop :=
  ∃ entries, HasEntries g id entries ∧ List.Forall₂ (ShowsTensor g) entries tensors

section Sorting

variable {tensors tensors' : List (Text × Tensor)}

/-- Of tensors with different names no two are alike in the order of their names. -/
theorem eq_of_le_of_le (distinct : (tensors.map Prod.fst).Nodup) : ∀ a ∈ tensors, ∀ b ∈ tensors,
    Text.le a.1 b.1 = true → Text.le b.1 a.1 = true → a = b :=
  fun _ ha _ hb below above => List.inj_on_of_nodup_map distinct ha hb (Text.le_antisymm below above)

theorem inNameOrder_eq_of_perm (distinct : (tensors.map Prod.fst).Nodup) (perm : tensors'.Perm tensors) :
    inNameOrder tensors' = inNameOrder tensors := by
  have sorted (tensors : List (Text × Tensor)) :
      (inNameOrder tensors).Pairwise fun a b => Text.le a.1 b.1 = true :=
    List.pairwise_mergeSort (fun a b c => Text.le_trans a.1 b.1 c.1)
      (fun a b => Text.le_total a.1 b.1) tensors
  refine List.Perm.eq_of_pairwise (fun a b ha hb => ?_) (sorted tensors') (sorted tensors)
    ((List.mergeSort_perm ..).trans (perm.trans (List.mergeSort_perm ..).symm))
  exact eq_of_le_of_le distinct a (perm.mem_iff.1 (mem_inNameOrder.1 ha)) b (mem_inNameOrder.1 hb)

/-- The names of a file are in strictly increasing order. -/
theorem pairwise_names (metadata : Option (List (Text × Text)))
    (distinct : (tensors.map Prod.fst).Nodup) :
    (headerOf metadata tensors).names.Pairwise fun a b => Text.le b a = false := by
  rw [names_headerOf]
  have sorted := List.pairwise_mergeSort Text.le_trans Text.le_total (tensors.map Prod.fst)
  have apart := (List.mergeSort_perm (tensors.map Prod.fst) Text.le).nodup_iff.2 distinct
  refine (sorted.and apart).imp fun {a b} ⟨below, other⟩ => ?_
  rw [← Bool.not_eq_true]
  exact fun above => other (Text.le_antisymm below above)

/-- A name and a tensor, as an item that is sorted. -/
def itemOf (named : Text × Tensor) : Rank × Named :=
  (.plain (.text named.1), Named.ofTensor named.1 named.2)

/-- Tensors compared as their items are. -/
def isBelow (a b : Text × Tensor) : Except Error Bool := .ok !(Text.le b.1 a.1)

theorem sort_items (distinct : (tensors.map Prod.fst).Nodup) :
    Insertion.sort (fun a b : Rank × Named => Rank.less a.1 b.1) (tensors.map itemOf) =
      .ok ((inNameOrder tensors).map itemOf) := by
  -- Ranks of names are compared as the names are, so the tensors themselves can be sorted instead.
  have mapped : Insertion.sort (fun a b : Rank × Named => Rank.less a.1 b.1) (tensors.map itemOf) =
      (Insertion.sort isBelow tensors).map (List.map itemOf) :=
    Insertion.sort_map (fun _ _ => rfl) tensors
  have sorted : Insertion.sort isBelow tensors = .ok (inNameOrder tensors) :=
    Insertion.sort_eq_mergeSort (fun a b c => Text.le_trans a.1 b.1 c.1)
      (fun a b => Text.le_total a.1 b.1) (fun _ _ => rfl) (eq_of_le_of_le distinct)
  rw [mapped, sorted]
  rfl

end Sorting

section Mappings

variable {config : Config} {memory : Memory} {g : Graph} {id : Nat} {tensors tensors' : List (Text × Tensor)}
  {metadata : Option (List (Json.Value × Json.Value))} {s : Stream}

theorem Tabulates.namedValues_eq (h : Tabulates g id tensors) :
    namedValues g id = .ok (tensors.map itemOf) := by
  obtain ⟨entries, mapping, shows⟩ := h
  rw [mapping.namedValues_eq]
  refine congrArg Except.ok (map_eq_map_of_forall₂ shows ?_)
  rintro ⟨key, value⟩ named ⟨name, tensor⟩
  have text : g.key g.nodes.size key = .text named.1 := Graph.key_eq_text name
  have found : tensorAt? g value = some named.2 := by
    rw [tensorAt?, tensor]
  have rank : Rank.ofItem g key = .plain (.text named.1) := by
    rw [Rank.ofItem, name]
    exact congrArg Rank.plain text
  simp only [text, found, rank]
  rfl

/-- A mapping of names to tensors is written as those are. -/
theorem Tabulates.saveObject_eq (h : Tabulates g id tensors) (distinct : (tensors.map Prod.fst).Nodup) :
    saveObject config g metadata id = save config g.memory metadata tensors := by
  have names : ((inNameOrder tensors).map itemOf).map Prod.snd =
      (inNameOrder tensors).map fun named => Named.ofTensor named.1 named.2 := by
    rw [List.map_map]
    rfl
  unfold saveObject save
  rw [h.namedValues_eq]
  congr 1
  funext pairs
  change (Effect.ofExcept (Insertion.sort _ (tensors.map itemOf)) >>= _) = _
  rw [sort_items distinct]
  change (Effect.ofExcept (plan pairs (((inNameOrder tensors).map itemOf).map Prod.snd)) >>= _) = _
  rw [names]
  rfl

theorem save_eq_of_perm (distinct : (tensors.map Prod.fst).Nodup) (perm : tensors'.Perm tensors) :
    save config memory metadata tensors' = save config memory metadata tensors := by
  have order := inNameOrder_eq_of_perm distinct perm
  unfold inNameOrder at order
  unfold save
  rw [order]

theorem eq_of_gives {named n : Text × Tensor} (h : (Named.ofTensor named.1 named.2).Gives n) : n = named := by
  obtain ⟨key, tensor⟩ := h
  have name : n.1 = named.1 := (Except.ok.inj key).symm
  have same : n.2 = named.2 := (Option.some.inj (Except.ok.inj (Named.of_tensor tensor).1)).symm
  exact Prod.ext name same

/-- A header that lays out tensors in the order of their names is that of a file for them. -/
theorem ensures_save_regular (config : Config) (metadata : Option (List (Json.Value × Json.Value)))
    (s : Stream) (regular : ∀ named ∈ tensors, Regular memory named.2) :
    (save config memory metadata tensors).Ensures s
      (fun total t => ∃ texts, Written config memory s t total (headerOf texts tensors) (inNameOrder tensors))
      fun e t => e.IsSaveFault ∨ t = s := by
  unfold save
  apply ensures_check fun _ _ => .inr rfl
  intro texts _
  apply ensures_check fun _ _ => .inr rfl
  intro p planned
  obtain ⟨named, lays, passed, gives⟩ := lays_of_plan memory planned (by
    rw [List.forall_mem_map]
    rintro named hn t found
    cases Except.ok.inj found
    exact regular named (mem_inNameOrder.1 hn))
  rw [List.forall₂_map_left_iff] at gives
  obtain rfl : named = inNameOrder tensors := by
    have same := map_eq_map_of_forall₂ (f := id) (g := id) gives fun _ _ h => (eq_of_gives h).symm
    rw [List.map_id, List.map_id] at same
    exact same.symm
  have header : p.header = headerOf texts tensors := by
    rw [headerOf, ← lays.entries, ← passed]
  exact lays.ensures_write.post fun total t written => ⟨texts, header ▸ written⟩

theorem payloadSize_inNameOrder (tensors : List (Text × Tensor)) :
    payloadSize (inNameOrder tensors) = payloadSize tensors :=
  ((List.mergeSort_perm ..).map _).sum_nat

theorem validate_headerOf (texts : Option (List (Text × Text))) (tensors : List (Text × Tensor)) :
    (headerOf texts tensors).validate (some (payloadSize tensors)) = .ok () := by
  refine Header.validate_eq_ok.2 ⟨fun e he => ?_, payloadSize tensors, ?_, ?_⟩
  · obtain ⟨named, -, names⟩ := exists_of_forall₂ (layOut_names 0 (inNameOrder tensors)) he
    exact names.size_eq_needed
  · rw [headerOf, inFileOrder_layOut, ← payloadSize_inNameOrder]
    simpa only [Nat.zero_add] using tiles_layOut 0 (inNameOrder tensors)
  · rintro _ ⟨⟩
    rfl

/-- Mappings with the same names and tensors come to the same on a stream, whatever their order.  They are
not written, or the stream fails, or else the file has its names in strictly increasing order, its ranges
tile the payload in that order, and as many bytes are told as there are. -/
theorem saveObject_canonical (config : Config) (metadata : Option (List (Json.Value × Json.Value)))
    {g' : Graph} {id' : Nat} (tabulates : Tabulates g id tensors) (tabulates' : Tabulates g' id' tensors')
    (shared : g'.memory = g.memory) (distinct : (tensors.map Prod.fst).Nodup)
    (perm : tensors'.Perm tensors) (regular : ∀ named ∈ tensors, Regular g.memory named.2) (s : Stream) :
    (saveObject config g' metadata id').perform s = (saveObject config g metadata id).perform s ∧
      (∀ e t, (saveObject config g metadata id).perform s = (.error e, t) → e.IsSaveFault ∨ t = s) ∧
      ∀ total t, (saveObject config g metadata id).perform s = (.ok total, t) →
        ∃ (header : Header) (payload : Bytes), header.encode config = .ok header.bytes ∧
          t.content = Stream.overwrite s.content s.position (header.bytes ++ payload) ∧
          header.names.Perm (tensors.map Prod.fst) ∧
          (header.names.Pairwise fun a b => Text.le b a = false) ∧
          Tiles 0 header.entries payload.length ∧
          header.validate (some payload.length) = .ok () ∧
          total = (header.bytes ++ payload).length ∧
          total = Header.lengthSize + header.body.length + payloadSize tensors := by
  have distinct' : (tensors'.map Prod.fst).Nodup := (perm.map Prod.fst).nodup_iff.2 distinct
  rw [tabulates.saveObject_eq distinct, tabulates'.saveObject_eq distinct', shared,
    save_eq_of_perm distinct perm]
  have saves := ensures_save_regular config metadata s regular
  refine ⟨rfl, fun e t failed => saves.of_error failed, fun total t saved => ?_⟩
  obtain ⟨texts, written⟩ := saves.of_ok saved
  have length : (payloadOf g.memory (inNameOrder tensors)).length = payloadSize tensors := by
    rw [length_payloadOf fun named hn => (regular named (mem_inNameOrder.1 hn)).held,
      payloadSize_inNameOrder]
  refine ⟨headerOf texts tensors, payloadOf g.memory (inNameOrder tensors), written.encoded,
    written.content, ?_, pairwise_names texts distinct, ?_, ?_, written.total, ?_⟩
  · rw [names_headerOf]
    exact List.mergeSort_perm ..
  · rw [length, ← payloadSize_inNameOrder, ← Nat.zero_add (payloadSize (inNameOrder tensors))]
    exact tiles_layOut 0 (inNameOrder tensors)
  · rw [length]
    exact validate_headerOf texts tensors
  · rw [written.total, List.length_append, Header.length_bytes, length]

end Mappings

/-- Two names with tensors, as two mappings: one in each order. -/
def bothWays (b a : Tensor) : Graph :=
  { pairOf b a with nodes := (pairOf b a).nodes.push (.dict [(2, 3), (0, 1)]) }

theorem tabulates_bothWays (b a : Tensor) : Tabulates (bothWays b a) 4 [("b", b), ("a", a)] ∧
    Tabulates (bothWays b a) 5 [("a", a), ("b", b)] :=
  ⟨⟨_, .inl rfl, .cons ⟨rfl, rfl⟩ (.cons ⟨rfl, rfl⟩ .nil)⟩,
    ⟨_, .inl rfl, .cons ⟨rfl, rfl⟩ (.cons ⟨rfl, rfl⟩ .nil)⟩⟩

set_option maxRecDepth 100000 in
theorem saveObject_canonical_pair : ∃ t, ∃ (header : Header) (payload : Bytes),
    (saveObject {} (bothWays floats byte) none 4).perform begun = (.ok 122, t) ∧
      (saveObject {} (bothWays floats byte) none 5).perform begun = (.ok 122, t) ∧
      t.content = Stream.overwrite begun.content begun.position (header.bytes ++ payload) ∧
      Tiles 0 header.entries payload.length := by
  obtain ⟨tabulates, turned⟩ := tabulates_bothWays floats byte
  have done : ((saveObject {} (bothWays floats byte) none 4).perform begun).1 = .ok 122 := by
    decide +kernel
  have regular : ∀ named ∈ [(("b" : Text), floats), ("a", byte)],
      Regular (bothWays floats byte).memory named.2 := by
    simp only [List.forall_mem_cons]
    exact ⟨⟨rfl, by decide, nofun⟩, ⟨rfl, by decide, fun _ wide => absurd rfl wide⟩, nofun⟩
  have canonical := saveObject_canonical {} none tabulates turned rfl (by decide) (.swap ..) regular begun
  cases saved : (saveObject {} (bothWays floats byte) none 4).perform begun with
  | mk result t =>
    rw [saved] at done
    obtain rfl := done
    obtain ⟨header, payload, -, content, -, -, tiles, -⟩ := canonical.2.2 122 t saved
    exact ⟨t, header, payload, rfl, canonical.1.trans saved, content, tiles⟩

set_option maxRecDepth 100000 in
/-- A mapping with a contiguous tensor of one element is refused in either order, behind the header. -/
theorem saveObject_canonical_stretched :
    let (result, t) := (saveObject {} (bothWays floats stretched) none 4).perform begun
    let (result', t') := (saveObject {} (bothWays floats stretched) none 5).perform begun
    stretched.isContiguous = true ∧ stretched.stride.length = stretched.shape.length ∧
      (bothWays floats stretched).memory.Holds stretched ∧
      result = .error (.tensorFault .gaps) ∧ result' = .error (.tensorFault .gaps) ∧
      t.content ≠ begun.content ∧ t'.content ≠ begun.content := by
  refine ⟨rfl, rfl, by decide, ?_, ?_, ?_, ?_⟩ <;> decide +kernel

end Checkpoint.Safetensors
