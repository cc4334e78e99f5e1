import Checkpoint.Proofs.Safetensors.Header
import Checkpoint.Proofs.Safetensors.Layout
import Checkpoint.Proofs.Stream
import Checkpoint.Proofs.Table
import Checkpoint.Proofs.Tensor.Elements

/-! Writing files of contiguous tensors: which bytes are written, and that nothing is refused. -/

namespace Checkpoint

namespace Stream

variable {content a b : Bytes} {position : Nat}

theorem overwrite_nil (h : position ≤ content.length) : overwrite content position [] = content := by
  rw [overwrite_eq, front_of_le h, List.append_nil, List.length_nil, Nat.add_zero,
    List.take_append_drop]

theorem le_length_overwrite : position + a.length ≤ (overwrite content position a).length := by
  rw [length_overwrite]
  exact Nat.le_max_right ..

/-- What is written behind something is written with it. -/
theorem overwrite_overwrite : overwrite (overwrite content position a) (position + a.length) b =
    overwrite content position (a ++ b) := by
  have length : (front content position ++ a).length = position + a.length := by
    rw [List.length_append, length_front]
  have rest : (overwrite content position a).drop (position + a.length) =
      content.drop (position + a.length) := by
    rw [overwrite_eq, List.drop_left' length]
  rw [overwrite_eq (overwrite content position a), front_overwrite, ← List.drop_drop, rest,
    List.drop_drop, overwrite_eq content, List.length_append, ← Nat.add_assoc, List.append_assoc _ a]

end Stream

namespace Safetensors

open Effect Checkpoint.Stream

/-- Tensors in the order of their names. -/
def inNameOrder (tensors : List (Text × Tensor)) : List (Text × Tensor) :=
  tensors.mergeSort fun a b => Text.le a.1 b.1

/-- The header of a file for tensors. -/
def headerOf (metadata : Option (List (Text × Text))) (tensors : List (Text × Tensor)) : Header where
  entries := layOut 0 (inNameOrder tensors)
  metadata := metadata

/-- The elements of tensors, one tensor after the other. -/
def payloadOf (memory : Memory) (tensors : List (Text × Tensor)) : Bytes :=
  tensors.flatMap fun named => (memory.elements named.2).flatten

/-- A file for tensors. -/
def fileOf (memory : Memory) (metadata : Option (List (Text × Text)))
    (tensors : List (Text × Tensor)) : Bytes :=
  Bytes.littleEndian Header.lengthSize (headerOf metadata tensors).body.length ++
    (headerOf metadata tensors).body ++ payloadOf memory (inNameOrder tensors)

/-- Names and metadata that a header can have: both are mappings, and all texts have UTF-8 forms. -/
structure Nameable (metadata : Option (List (Text × Text))) (tensors : List (Text × Tensor)) : Prop where
  distinct : (tensors.map Prod.fst).Nodup
  unreserved : metadataKey ∉ tensors.map Prod.fst
  strict : ∀ named ∈ tensors, named.1.IsStrict
  keys : ∀ pairs ∈ metadata, (pairs.map Prod.fst).Nodup
  metadata : ∀ pairs ∈ metadata, ∀ pair ∈ pairs, pair.1.IsStrict ∧ pair.2.IsStrict

/-- A tensor that can be written: its type has a tag, and its elements lie one after the other within its
storage. -/
structure Flat (memory : Memory) (t : Tensor) : Prop where
  tagged : t.dtype.tag?.isSome = true
  contiguous : t.isContiguous = true
  rank : t.stride.length = t.shape.length
  held : memory.Holds t
  adjacent : t.Adjacent

/-- Metadata as it is passed on. -/
def textsOf (pairs : List (Text × Text)) : List (Json.Value × Json.Value) :=
  pairs.map fun pair => (.text pair.1, .text pair.2)

section Order

variable {tensors : List (Text × Tensor)}

theorem mem_inNameOrder {named : Text × Tensor} : named ∈ inNameOrder tensors ↔ named ∈ tensors :=
  List.mem_mergeSort

theorem map_fst_inNameOrder (tensors : List (Text × Tensor)) :
    (inNameOrder tensors).map Prod.fst = Text.sort (tensors.map Prod.fst) :=
  List.map_mergeSort fun _ _ _ _ => rfl

theorem names_headerOf (metadata : Option (List (Text × Text))) (tensors : List (Text × Tensor)) :
    (headerOf metadata tensors).names = Text.sort (tensors.map Prod.fst) := by
  rw [Header.names, headerOf, map_name_layOut, map_fst_inNameOrder]

end Order

section Writing

variable {config : Config} {memory : Memory} {metadata : Option (List (Text × Text))}
  {tensors : List (Text × Tensor)} {s : Stream} {E : Error → Stream → Prop}

theorem length_payloadOf (held : ∀ named ∈ tensors, memory.Holds named.2) :
    (payloadOf memory tensors).length = payloadSize tensors := by
  induction tensors with
  | nil => rfl
  | cons named tensors ih =>
    rw [List.forall_mem_cons] at held
    rw [payloadOf, List.flatMap_cons, List.length_append, held.1.length_flatten]
    exact congrArg _ (ih held.2)

theorem tagged_headerOf (tagged : ∀ named ∈ tensors, named.2.dtype.tag?.isSome = true) :
    ∀ e ∈ (headerOf metadata tensors).entries, e.dtype.tag?.isSome = true := by
  intro e he
  obtain ⟨named, hn, -, dtype, -⟩ := exists_of_forall₂ (layOut_names 0 (inNameOrder tensors)) he
  rw [dtype]
  exact tagged named (mem_inNameOrder.1 hn)

theorem strict_headerOf (nameable : Nameable metadata tensors)
    (tagged : ∀ named ∈ tensors, named.2.dtype.tag?.isSome = true) :
    (headerOf metadata tensors).Strict where
  tagged := tagged_headerOf tagged
  names name hn := by
    rw [names_headerOf, Text.sort, List.mem_mergeSort, List.mem_map] at hn
    obtain ⟨named, hn, rfl⟩ := hn
    exact nameable.strict named hn
  metadata := nameable.metadata

/-- Metadata without a key that comes twice is taken as it is. -/
theorem metadataOfPairs_textsOf (keys : ∀ pairs ∈ metadata, (pairs.map Prod.fst).Nodup) :
    (metadata.map textsOf).mapM metadataOfPairs = .ok metadata := by
  cases metadata with
  | none => rfl
  | some pairs =>
    have read : metadataOfPairs (textsOf pairs) = .ok pairs := by
      rw [metadataOfPairs, textsOf, textPairs_texts]
      exact congrArg Except.ok (Table.entries_ofList (keys pairs rfl))
    rw [Option.map_some, Option.mapM_some, read]
    rfl

theorem plan_eq (tagged : ∀ named ∈ tensors, named.2.dtype.tag?.isSome = true)
    (contiguous : ∀ named ∈ tensors, named.2.isContiguous = true)
    (unreserved : metadataKey ∉ tensors.map Prod.fst) :
    plan metadata (tensors.map fun named => Named.ofTensor named.1 named.2) =
      .ok { header := { entries := layOut 0 tensors, metadata }, tensors := tensors.map Prod.snd } := by
  have found : (tensors.map fun named => Named.ofTensor named.1 named.2).mapM Named.tensor =
      .ok (tensors.map Prod.snd) := by
    rw [List.mapM_map]
    apply mapM_eq_ok
    intro named hn
    have other : (named.1 == metadataKey) = false := by
      rw [beq_eq_false_iff_ne]
      exact fun same => unreserved (same ▸ List.mem_map_of_mem (f := Prod.fst) hn)
    have known : named.2.dtype.tag?.isNone = false := by
      rw [← Option.not_isSome, tagged named hn]
      rfl
    simp only [Function.comp_apply, Named.tensor, Named.isReserved, Named.ofTensor, bind, Except.bind,
      other, contiguous named hn, known, Bool.false_eq_true, if_false, if_true]
    rfl
  have keys : (tensors.map fun named => Named.ofTensor named.1 named.2).mapM Named.key =
      .ok (tensors.map Prod.fst) := by
    rw [List.mapM_map]
    exact mapM_eq_ok fun _ _ => rfl
  have pairs : (tensors.map Prod.fst).zip (tensors.map Prod.snd) = tensors := by
    rw [List.zip_map']
    exact List.map_id' tensors
  rw [plan, found, keys]
  simp only [bind, Except.bind, pairs, pure, Except.pure]

theorem ensures_writePayload {Q : Nat → Stream → Prop} (steady : s.Steady)
    (place : s.position ≤ s.content.length) (flat : ∀ named ∈ tensors, Flat memory named.2)
    (hq : ∀ calls, Q (payloadOf memory tensors).length
      (s.after calls (overwrite s.content s.position (payloadOf memory tensors))
        (s.position + (payloadOf memory tensors).length))) :
    (writePayload memory (tensors.map Prod.snd)).Ensures s Q E := by
  induction tensors generalizing s Q with
  | nil =>
    have := hq s.calls
    rw [payloadOf, List.flatMap_nil, overwrite_nil place] at this
    exact (ensures_pure _).2 this
  | cons named tensors ih =>
    rw [List.forall_mem_cons] at flat
    obtain ⟨⟨_, contiguous, rank, _, adjacent⟩, others⟩ := flat
    rw [List.map_cons, writePayload, Memory.flat_eq rank contiguous adjacent, ensures_bind]
    refine (ensures_ofExcept_ok _).2 ?_
    rw [ensures_bind]
    apply ensures_write steady
    intro calls
    have same : (if (memory.elements named.2).flatten.isEmpty then s.content
        else overwrite s.content s.position (memory.elements named.2).flatten) =
          overwrite s.content s.position (memory.elements named.2).flatten := by
      split
      · next empty => rw [List.isEmpty_iff.1 empty, overwrite_nil place]
      · rfl
    rw [same, ensures_bind]
    apply ih (steady.after _ _ _) le_length_overwrite others
    intro calls
    have := hq calls
    rw [payloadOf, List.flatMap_cons, List.length_append, ← Nat.add_assoc, ← overwrite_overwrite] at this
    exact (ensures_pure _).2 this

/-- Contiguous tensors are written as their file, whatever was in the stream. -/
theorem ensures_save {Q : Nat → Stream → Prop} (steady : s.Steady) (nameable : Nameable metadata tensors)
    (flat : ∀ named ∈ tensors, Flat memory named.2)
    (fits : (headerOf metadata tensors).body.length ≤ config.maxHeaderSize)
    (hq : ∀ calls, Q (fileOf memory metadata tensors).length
      (s.after calls (overwrite s.content s.position (fileOf memory metadata tensors))
        (s.position + (fileOf memory metadata tensors).length))) :
    (save config memory (metadata.map textsOf) tensors).Ensures s Q E := by
  have sorted : ∀ named ∈ inNameOrder tensors, Flat memory named.2 := fun named hn =>
    flat named (mem_inNameOrder.1 hn)
  have pairs := metadataOfPairs_textsOf nameable.keys
  have planned : plan metadata ((inNameOrder tensors).map fun named =>
      Named.ofTensor named.1 named.2) = .ok {
        header := headerOf metadata tensors
        tensors := (inNameOrder tensors).map Prod.snd } := by
    apply plan_eq (fun named hn => (sorted named hn).tagged) fun named hn => (sorted named hn).contiguous
    rw [map_fst_inNameOrder, Text.sort, List.mem_mergeSort]
    exact nameable.unreserved
  unfold save
  rw [pairs, ensures_bind, ensures_ofExcept_ok, ensures_bind]
  dsimp only
  change Ensures (Effect.ofExcept (plan metadata ((inNameOrder tensors).map fun named =>
    Named.ofTensor named.1 named.2))) _ _ _
  rw [planned, ensures_ofExcept_ok, Plan.write,
    Header.encode_eq (strict_headerOf nameable fun named hn => (flat named hn).tagged) fits,
    ensures_bind, ensures_ofExcept_ok]
  apply ensures_describing
  rw [ensures_bind]
  apply ensures_write steady
  intro calls
  rw [if_neg (by simp [Header.lengthSize, Bytes.littleEndian]), ensures_bind]
  apply ensures_writePayload (steady.after _ _ _) le_length_overwrite sorted
  intro calls
  have := hq calls
  rw [fileOf, List.length_append, ← Nat.add_assoc, ← overwrite_overwrite] at this
  exact (ensures_pure _).2 this

end Writing

end Safetensors

end Checkpoint
