import Checkpoint.Proofs.Pickle.Acceptance
import Checkpoint.Proofs.Pickle.Registration

/-! What the writer refuses.  A tensor can be written after others unless its type has no storage class, or
its storage has been used as another type; the first of a mapping's tensors that cannot be is why the
mapping is refused. -/

namespace Checkpoint.Pickle

open Effect

/-- Why a tensor cannot be written after others, if it cannot. -/
def refusal? (memory : Memory) (before : List Tensor) (t : Tensor) : Option Error :=
  if t.dtype.storageClass? = none then some (.unsupportedDType (.noStorageClass t.dtype))
  else if memory.buffer t.storage ≠ [] ∧ ∃ t' ∈ before, t'.storage = t.storage ∧ t'.dtype ≠ t.dtype then
    some (.unexpectedStructure .mixedTypes)
  else none

/-- Why the first of some tensors that cannot be written after others cannot be. -/
def firstRefusal? (memory : Memory) (before : List Tensor) : List Tensor → Option Error
  | [] => none
  | t :: rest => (refusal? memory before t).or (firstRefusal? memory (before ++ [t]) rest)

/-- Tensors that can be written one after the other. -/
structure Compatible (memory : Memory) (tensors : List Tensor) : Prop where
  classed : ∀ t ∈ tensors, t.dtype.storageClass? ≠ none
  alike : ∀ t ∈ tensors, ∀ t' ∈ tensors, t.storage = t'.storage → memory.buffer t.storage ≠ [] →
    t.dtype = t'.dtype

section Refusals

variable {memory : Memory} {before tensors : List Tensor} {t : Tensor}

theorem compatible_nil : Compatible memory [] := ⟨nofun, nofun⟩

theorem refusal?_eq_none_iff : refusal? memory before t = none ↔ t.dtype.storageClass? ≠ none ∧
    (memory.buffer t.storage ≠ [] → ∀ t' ∈ before, t'.storage = t.storage → t'.dtype = t.dtype) := by
  unfold refusal?
  split
  · next unclassed => simp [unclassed]
  · next classed =>
    split
    · next clash =>
      obtain ⟨used, t', ht, same, other⟩ := clash
      exact ⟨nofun, fun h => absurd (h.2 used t' ht same) other⟩
    · next free =>
      refine ⟨fun _ => ⟨classed, fun used t' ht same => ?_⟩, fun _ => rfl⟩
      by_contra other
      exact free ⟨used, t', ht, same, other⟩

/-- A tensor that is not refused joins those before it. -/
theorem Compatible.refusal?_iff (h : Compatible memory before) :
    refusal? memory before t = none ↔ Compatible memory (before ++ [t]) := by
  rw [refusal?_eq_none_iff]
  constructor
  · rintro ⟨classed, alike⟩
    constructor
    · rw [List.forall_mem_append, List.forall_mem_singleton]
      exact ⟨h.classed, classed⟩
    · intro a ha b hb same used
      rw [List.mem_append, List.mem_singleton] at ha hb
      obtain ha | rfl := ha <;> obtain hb | rfl := hb
      · exact h.alike a ha b hb same used
      · exact alike (same ▸ used) a ha same
      · exact (alike used b hb same.symm).symm
      · rfl
  · intro joined
    have last : t ∈ before ++ [t] := List.mem_append_right _ List.mem_cons_self
    exact ⟨joined.classed t last, fun used t' ht same =>
      joined.alike t' (List.mem_append_left _ ht) t last same (same ▸ used)⟩

/-- A tensor that has been written is not refused when it comes again. -/
theorem Compatible.refusal?_of_mem (h : Compatible memory before) (seen : t ∈ before) :
    refusal? memory before t = none :=
  refusal?_eq_none_iff.2 ⟨h.classed t seen, fun used t' ht' same =>
    h.alike t' ht' t seen same (same ▸ used)⟩

theorem Compatible.of_append {rest : List Tensor} (h : Compatible memory (before ++ rest)) :
    Compatible memory before where
  classed t ht := h.classed t (List.mem_append_left _ ht)
  alike t ht t' ht' := h.alike t (List.mem_append_left _ ht) t' (List.mem_append_left _ ht')

/-- No tensor is refused when and only when all together are compatible. -/
theorem Compatible.firstRefusal?_eq_none_iff (h : Compatible memory before) :
    firstRefusal? memory before tensors = none ↔ Compatible memory (before ++ tensors) := by
  induction tensors generalizing before with
  | nil => simpa [firstRefusal?] using h
  | cons t rest ih =>
    have split : before ++ t :: rest = before ++ [t] ++ rest := List.append_cons ..
    rw [firstRefusal?, Option.or_eq_none_iff, h.refusal?_iff, split]
    exact ⟨fun ⟨joined, free⟩ => (ih joined).1 free, fun all => ⟨all.of_append, (ih all.of_append).2 all⟩⟩

theorem firstRefusal?_append (before first rest : List Tensor) :
    firstRefusal? memory before (first ++ rest) =
      (firstRefusal? memory before first).or (firstRefusal? memory (before ++ first) rest) := by
  induction first generalizing before with
  | nil => simp [firstRefusal?]
  | cons t first ih =>
    rw [List.cons_append, firstRefusal?, firstRefusal?, ih, Option.or_assoc, List.append_assoc,
      List.singleton_append]

/-- The writer sees the first use of a storage only; among compatible tensors that is enough. -/
theorem Compatible.clashes_iff (h : Compatible memory before) :
    Encoder.Clashes memory (usesOf before) t ↔ memory.buffer t.storage ≠ [] ∧
      ∃ t' ∈ before, t'.storage = t.storage ∧ t'.dtype ≠ t.dtype := by
  have first := find?_usesOf before t.storage
  constructor
  · rintro ⟨use, found, other, used⟩
    rw [found] at first
    obtain ⟨t', ht', same⟩ := Option.map_eq_some_iff.1 first.symm
    exact ⟨used, t', List.mem_of_find?_eq_some ht', by simpa using List.find?_some ht',
      fun h => other (same.symm.trans h)⟩
  · rintro ⟨used, t', ht', same, other⟩
    obtain ⟨t₀, ht₀⟩ := Option.isSome_iff_exists.1
      (List.find?_isSome.2 ⟨t', ht', beq_iff_eq.2 same⟩ : (before.find? (·.storage == t.storage)).isSome)
    have here : t₀.storage = t.storage := by simpa using List.find?_some ht₀
    rw [ht₀] at first
    obtain ⟨use, found, typed⟩ := Option.map_eq_some_iff.1 first
    refine ⟨use, found, ?_, used⟩
    rw [typed, h.alike t₀ (List.mem_of_find?_eq_some ht₀) t' ht' (here.trans same.symm) (here ▸ used)]
    exact other

end Refusals

namespace Encoder

/-- The tensors that have been written: their storages are registered, and no others are in the memo. -/
structure Met (g : Graph) (tensors : List Tensor) (e : Encoder) : Prop where
  storages : e.storages = usesOf tensors
  stored : ∀ id t, g.node id = .tensor t → e.memo.contains (.node id) = true → t ∈ tensors

/-- Numbers that the writer has instructions for, or else stops at for a reason of its own. -/
structure Measured (P : Error → Prop) (memory : Memory) (t : Tensor) : Prop where
  count : ∀ error, intInstruction ((memory.buffer t.storage).length / t.dtype.size : Nat) = .error error →
    P error
  numbers : ∀ n ∈ t.offset :: (t.shape ++ t.stride), ∀ error, intInstruction (n : Nat) = .error error →
    P error

variable {P : Error → Prop} {g : Graph} {before tensors : List Tensor} {t : Tensor} {e : Encoder}

/-- Whatever stores no other tensor keeps those that have been written. -/
theorem kept_met (overflow : P .fieldOverflow) :
    Kept P (fun id => ∀ t, g.node id = .tensor t → t ∈ tensors) (Met g tensors) where
  overflow := overflow
  write _ _ met _ := ⟨met.storages, met.stored⟩
  store e o _ met _ node _ := by
    refine ⟨met.storages, fun id t hg stored => ?_⟩
    rw [Table.contains_insert, Bool.or_eq_true, beq_iff_eq] at stored
    obtain same | stored := stored
    · exact node id same t hg
    · exact met.stored id t hg stored
  count _ _ met := ⟨met.storages, met.stored⟩

/-- A tensor that is not in the memo is written, or refused for what has been written before it. -/
theorem ensures_saveTensor {id : Nat} (overflow : P .fieldOverflow) (measured : Measured P g.memory t)
    (hg : g.node id = .tensor t) (compatible : Compatible g.memory before) (met : Met g before e) :
    (saveTensor g.memory (.node id) t).Ensures e
      (fun _ e' => refusal? g.memory before t = none ∧ Met g (before ++ [t]) e')
      fun error _ => P error ∨ refusal? g.memory before t = some error := by
  have joined : ∀ t', g.node id = .tensor t' → t' ∈ before ++ [t] := by
    rw [hg]
    rintro _ ⟨⟩
    exact List.mem_append_right _ List.mem_cons_self
  cases classed : t.dtype.storageClass? with
  | none =>
    simp only [saveTensor, classed]
    exact (ensures_throw _).2 (.inr (if_pos classed))
  | some storageClass =>
    rw [saveTensor_eq classed, ensures_bind]
    apply ((kept_met overflow).tensorOpening e met).mono _ fun _ _ => .inl
    intro _ e₁ met₁
    rw [ensures_bind]
    apply registers_useStorage
    · rw [met₁.storages, compatible.clashes_iff]
      intro clash
      right
      rw [refusal?, if_neg (by simp [classed]), if_pos clash]
    · rw [met₁.storages, compatible.clashes_iff]
      intro n use free _ _
      have accepted : refusal? g.memory before t = none := by
        rw [refusal?, if_neg (by simp [classed]), if_neg free]
      have met₂ : Met g (before ++ [t]) { e₁ with storages := register (usesOf before) t } :=
        ⟨(usesOf_concat before t).symm, fun id t hg stored =>
          List.mem_append_left _ (met₁.stored id t hg stored)⟩
      have rest : Sustains P (Met g (before ++ [t]))
          (storageTuple g.memory t storageClass n >>= fun _ => emit .persistentId >>= fun _ =>
            tensorClosing t >>= fun _ => memoize (.node id)) :=
        ((kept_met overflow).storageTuple n measured.count).bind fun _ =>
          Sustains.bind (sustains_modify fun _ met => ⟨met.storages, met.stored⟩) fun _ =>
            ((kept_met overflow).tensorClosing measured.numbers).bind fun _ =>
              (kept_met overflow).memoizeNode joined
      exact (rest _ met₂).mono (fun _ _ met' => ⟨accepted, met'⟩) fun _ _ => .inl

/-- A tensor is written or fetched, or refused for what has been written before it. -/
theorem ensures_tensor {id : Nat} (overflow : P .fieldOverflow) (measured : Measured P g.memory t)
    (hg : g.node id = .tensor t) (compatible : Compatible g.memory before) (met : Met g before e) :
    (once (.node id) (saveTensor g.memory (.node id) t)).Ensures e
      (fun _ e' => refusal? g.memory before t = none ∧ Met g (before ++ [t]) e')
      fun error _ => P error ∨ refusal? g.memory before t = some error := by
  unfold once
  rw [ensures_bind, ensures_get]
  split
  · next n hn =>
    have seen : t ∈ before := met.stored id t hg (by rw [Table.contains_eq_isSome, hn]; rfl)
    apply ((kept_met overflow).fetch (.node id) n e met).mono
    · intro _ e' met'
      refine ⟨compatible.refusal?_of_mem seen, ?_, fun id t hg stored =>
        List.mem_append_left _ (met'.stored id t hg stored)⟩
      rw [met'.storages, usesOf_concat, register_of_mem seen]
    · exact fun _ _ => .inl
  · exact ensures_saveTensor overflow measured hg compatible met

/-- An action writes tensors in turn, after others, or stops at the first that is refused. -/
def Turns (P : Error → Prop) (g : Graph) (tensors : List Tensor) (x : Encoding Unit) : Prop :=
  ∀ before e, Compatible g.memory before → Met g before e → x.Ensures e
    (fun _ e' => firstRefusal? g.memory before tensors = none ∧ Met g (before ++ tensors) e')
    fun error _ => P error ∨ firstRefusal? g.memory before tensors = some error

section Turns

variable {first rest : List Tensor} {x y : Encoding Unit}

theorem turns_of_sustains (h : ∀ before, Sustains P (Met g before) x) : Turns P g [] x :=
  fun before e _ met => (h before e met).mono
    (fun _ _ met' => ⟨rfl, (List.append_nil before).symm ▸ met'⟩) fun _ _ => .inl

theorem Turns.andThen (hx : Turns P g first x) (hy : Turns P g rest y) :
    Turns P g (first ++ rest) (x >>= fun _ => y) := by
  intro before e compatible met
  rw [ensures_bind, firstRefusal?_append]
  apply (hx before e compatible met).mono
  · rintro _ e₁ ⟨free, met₁⟩
    have joined := compatible.firstRefusal?_eq_none_iff.1 free
    rw [free, Option.none_or, ← List.append_assoc]
    exact hy _ e₁ joined met₁
  · rintro error _ (other | refused)
    · exact .inl other
    · exact .inr (by rw [refused, Option.some_or])

theorem Turns.nothingThen (hx : Turns P g [] x) (hy : Turns P g rest y) : Turns P g rest (x >>= fun _ => y) :=
  hx.andThen hy

theorem Turns.thenNothing (hx : Turns P g first x) (hy : Turns P g [] y) : Turns P g first (x >>= fun _ => y) :=
  List.append_nil first ▸ hx.andThen hy

theorem turns_forM {α : Type} {f : α → Encoding PUnit} {parts : List (List Tensor)} {items : List α}
    (each : List.Forall₂ (fun part item => Turns P g part (f item)) parts items) :
    Turns P g parts.flatten (items.forM f) := by
  induction each with
  | nil => exact turns_of_sustains fun _ => sustains_pure _
  | cons first _ ih => exact first.andThen ih

/-- Each item writes one tensor. -/
def OneEach (P : Error → Prop) (g : Graph) : List Tensor → List (Encoding Unit) → Prop :=
  List.Forall₂ fun t item => Turns P g [t] item

theorem OneEach.forM {items : List (Encoding Unit)} (each : OneEach P g tensors items) :
    Turns P g tensors (items.forM id) := by
  have parts : List.Forall₂ (fun part item => Turns P g part (id item))
      (tensors.map fun t => [t]) items := List.forall₂_map_left_iff.2 each
  have turns := turns_forM parts
  rwa [← List.flatMap_def, List.flatMap_singleton'] at turns

theorem turns_emit (overflow : P .fieldOverflow) (i : Instruction) (h : i.IsPlain) :
    Turns P g [] (emit i) := turns_of_sustains fun _ => (kept_met overflow).emit i h

theorem OneEach.saveBatch (overflow : P .fieldOverflow) {items : List (Encoding Unit)}
    (each : OneEach P g tensors items) : Turns P g tensors (Encoder.saveBatch .setItem .setItems items) := by
  have marked : Turns P g tensors (emit .mark >>= fun _ => items.forM id >>= fun _ => emit .setItems) :=
    (turns_emit overflow .mark ⟨rfl, nofun⟩).nothingThen
      (each.forM.thenNothing (turns_emit overflow .setItems ⟨rfl, nofun⟩))
  cases each with
  | nil => exact marked
  | cons first others =>
    cases others with
    | nil => exact first.thenNothing (turns_emit overflow .setItem ⟨rfl, nofun⟩)
    | cons => exact marked

theorem OneEach.saveItems (overflow : P .fieldOverflow) {config : Config} {items : List (Encoding Unit)}
    (bounded : batchLimit < config.batchSize → P (.rangeFault .batchSize))
    (each : OneEach P g tensors items) :
    Turns P g tensors (Encoder.saveItems config .setItem .setItems items) := by
  have batched : Turns P g tensors
      ((batches config.batchSize items).forM (Encoder.saveBatch .setItem .setItems)) := by
    have turns := turns_forM ((forall₂_batches config.batchSize each).imp
      fun _ _ batch => OneEach.saveBatch overflow batch)
    rwa [flatten_batches] at turns
  unfold Encoder.saveItems
  split
  · next past => exact fun _ _ _ _ => (ensures_bind _).2 ((ensures_throw _).2 (.inl (bounded past)))
  · exact batched

/-- An entry of a name and a tensor writes the tensor. -/
theorem turns_saveEntry (overflow : P .fieldOverflow) {config : Config} {fuel : Nat} {entry : Nat × Nat}
    {name : Text} (hk : g.node entry.1 = .text name) (hv : g.node entry.2 = .tensor t)
    (measured : Measured P g.memory t) : Turns P g [t] (saveEntry config g (fuel + 1) entry) := by
  have named : Turns P g [] (save config g (fuel + 1) entry.1) := by
    apply turns_of_sustains
    intro before
    have text : Sustains P (Met g before) (saveText (g.identity entry.1) name) := by
      apply (kept_met overflow).saveText
      · rw [Graph.identity_of_text hk]
        exact fun i => Identity.content?_ofText rfl
      · intro n own t ht
        rw [Graph.identity_eq_node own, hk] at ht
        cases ht
    rw [save_text hk]
    exact (kept_met overflow).once fun e met _ => text e met
  refine named.nothingThen fun before e compatible met => ?_
  rw [save_tensor hv]
  simp only [firstRefusal?, Option.or_none]
  exact ensures_tensor overflow measured hv compatible met

end Turns

/-- The entries of a mapping are names and tensors. -/
def Holding (g : Graph) : List (Nat × Nat) → List Tensor → Prop :=
  List.Forall₂ fun entry t => (∃ name, g.node entry.1 = .text name) ∧ g.node entry.2 = .tensor t

theorem Holding.oneEach {entries : List (Nat × Nat)} (overflow : P .fieldOverflow) {config : Config}
    {fuel : Nat} (holding : Holding g entries tensors) (measured : ∀ t ∈ tensors, Measured P g.memory t) :
    OneEach P g tensors (entries.map (saveEntry config g (fuel + 1))) := by
  rw [OneEach, List.forall₂_map_right_iff]
  induction holding with
  | nil => exact .nil
  | cons entry _ ih =>
    obtain ⟨⟨name, hk⟩, hv⟩ := entry
    obtain ⟨first, others⟩ := List.forall_mem_cons.1 measured
    exact .cons (turns_saveEntry overflow hk hv first) (ih others)

/-- The stream of a mapping from names to tensors comes to what is behind its entries with the tensors
written in turn, or stops at the first that is refused. -/
theorem Holding.ensures_stream {config : Config} {top : Nat} {entries : List (Nat × Nat)}
    {attributes : List (Text × Nat)} (holding : Holding g entries tensors) (overflow : P .fieldOverflow)
    (bounded : batchLimit < config.batchSize → P (.rangeFault .batchSize))
    (ordered : g.node top = .ordered entries attributes)
    (measured : ∀ t ∈ tensors, Measured P g.memory t) {Q : Unit → Encoder → Prop}
    {E : Error → Encoder → Prop}
    (done : ∀ e fuel, firstRefusal? g.memory [] tensors = none → Met g tensors e →
      (saveAttributes config g fuel attributes >>= fun _ => emit .stop).Ensures e Q E)
    (refused : ∀ error e, P error ∨ firstRefusal? g.memory [] tensors = some error → E error e) :
    (g.stream config top).Ensures {} Q E := by
  obtain ⟨fuel, depth⟩ : ∃ fuel, g.depthLimit = fuel + 2 :=
    Nat.exists_eq_add_of_le' (Nat.le_trans (Nat.le_add_left 2 _) (Nat.le_mul_self _))
  have opened : Turns P g [] (orderedDict >>= fun _ => memoize (.node top)) := by
    refine turns_of_sustains fun before => (kept_met overflow).orderedDict.bind fun _ =>
      (kept_met overflow).memoizeNode ?_
    rw [ordered]
    nofun
  have entered : Turns P g tensors (orderedDict >>= fun _ => memoize (.node top) >>= fun _ =>
      saveItems config .setItem .setItems (entries.map (saveEntry config g (fuel + 1)))) := by
    have each : OneEach P g tensors (entries.map (saveEntry config g (fuel + 1))) :=
      holding.oneEach overflow measured
    have turns := opened.nothingThen (each.saveItems overflow bounded)
    rwa [bind_assoc] at turns
  have start : Met g [] { output := [{ instruction := .proto Graph.protocol }] } := ⟨rfl, nofun⟩
  unfold Graph.stream
  rw [depth, save_ordered ordered, ensures_bind, emit, write, ensures_modify, ensures_bind, once,
    ensures_bind, ensures_get]
  -- Nothing has been written before the mapping, so it is not fetched.
  change (orderedDict >>= fun _ => memoize (.node top) >>= fun _ => _).Ensures _ _ _
  rw [← ensures_bind]
  have written := (entered [] _ compatible_nil start).mono
    (fun _ e written => done e (fuel + 1) written.1 written.2) refused
  rw [← ensures_bind] at written
  simpa only [bind_assoc] using written

end Encoder

namespace Graph

open Encoder

variable {config : Config} {g g' : Graph} {id top : Nat} {entries : List (Nat × Nat)} {tensors : List Tensor}

end Graph

end Checkpoint.Pickle
