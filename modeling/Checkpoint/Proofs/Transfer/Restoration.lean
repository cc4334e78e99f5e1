import Checkpoint.Proofs.Transfer.Recovery

/-! What a module has saved comes back: loaded into tensors that lie apart, under the same names and of the same
types and shapes, it is there again. -/

namespace Checkpoint

open Effect

/-- Tensors that can take the saved ones: apart from those that are skipped they have the same names, types
and shapes, and each of their elements has a place of its own; no two share bytes. -/
structure Receives (skip : List Text) (saved target : List (Text × Tensor)) (m : Memory) : Prop
    extends LieApart m target where
  names : Agree skip (saved.map Prod.fst) (target.map Prod.fst)
  alike : ∀ named ∈ saved, named.1 ∉ skip → ∀ live ∈ target, live.1 = named.1 →
    live.2.dtype = named.2.dtype ∧ live.2.shape = named.2.shape
  placed : ∀ live ∈ target, live.1 ∉ skip → live.2.addresses.Nodup

/-- Whether all truth values of a tensor are 0 or 1. -/
def Memory.Truthful (m : Memory) (t : Tensor) : Prop :=
  t.dtype = .bool → ∀ bytes ∈ m.elements t, bytes = [0] ∨ bytes = [1]

/-- The saved tensors are back in the live ones, with truth values as 0 or 1.  Those that are skipped are as
they were. -/
structure Restores (skip : List Text) (memory : Memory) (saved target : List (Text × Tensor))
    (m m' : Memory) : Prop where
  restored : ∀ named ∈ saved, named.1 ∉ skip → ∀ live ∈ target, live.1 = named.1 →
    m'.elements live.2 = (memory.elements named.2).map live.2.dtype.normal ∧
      (memory.Truthful named.2 → m'.elements live.2 = memory.elements named.2)
  untouched : ∀ live ∈ target, live.1 ∈ skip → m'.elements live.2 = m.elements live.2

section Merging

variable {policy : Policy} {skip omitted : List Text} {memory m m' : Memory}
  {tensors target : List (Text × Tensor)} {merge : Merge}

theorem Memory.Truthful.map_normal {t : Tensor} (h : memory.Truthful t) :
    (memory.elements t).map t.dtype.normal = memory.elements t := by
  refine (List.map_congr_left fun bytes hb => ?_).trans (List.map_id _)
  by_cases truth : t.dtype = .bool
  · rw [truth]
    obtain rfl | rfl := h truth bytes hb
    · rfl
    · rfl
  · exact DType.normal_of_ne_bool truth bytes

theorem Receives.takes (h : Receives skip tensors target m) : Takes ⟨true, skip⟩ m target :=
  ⟨h.allocated, fun live hl counts => Tensor.repeatsElements_of_nodup (h.placed live hl counts)⟩

theorem Receives.fitting (h : Receives skip tensors target m) :
    ∀ named ∈ Policy.kept ⟨true, skip⟩ tensors, Fitting ⟨target⟩ named := by
  intro named hn live found
  obtain ⟨hn, counts⟩ := Policy.mem_kept.1 hn
  exact (h.alike named hn counts _ (Table.mem_entries_of_get? found) rfl).2.symm

/-- What has been delivered to tensors of the same types is back. -/
theorem Receives.restores (h : Receives skip tensors target m)
    (held : ∀ named ∈ tensors, memory.Holds named.2)
    (delivers : Delivers ⟨true, skip⟩ memory tensors target m merge m') :
    Restores skip memory tensors target m m' := by
  refine ⟨fun named hn counts live hl same => ?_,
    fun live hl skipped => delivers.untouched live hl (.inl skipped)⟩
  have found : Table.get? ⟨target⟩ named.1 = some live.2 :=
    Table.get?_of_mem h.distinct (by rwa [← same])
  obtain ⟨shape, memory', named', ⟨⟨-, dtype', shape', elements⟩, -⟩, written⟩ :=
    delivers.written named hn counts live.2 found
  have dtype := (h.alike named hn counts live hl same).1
  have normal : memory'.converted named'.2 live.2 = (memory.elements named.2).map live.2.dtype.normal := by
    rw [Memory.converted_eq (dtype'.trans dtype.symm), elements]
  have sized : ∀ bytes ∈ memory'.elements named'.2, bytes.length = named'.2.dtype.size := by
    rw [elements, dtype']
    exact (held named hn).length_of_mem
  have owns : m.Owns live.2 := ⟨h.allocated live hl, h.held live hl, h.placed live hl (same ▸ counts)⟩
  have back : m'.elements live.2 = (memory.elements named.2).map live.2.dtype.normal := by
    rw [written, owns.elements_write _ (Memory.length_of_mem_converted sized), normal]
    rw [Memory.length_converted]
    exact congrArg Shape.count (shape'.trans shape)
  exact ⟨back, fun truthful => by rw [back, dtype, truthful.map_normal]⟩

/-- Tensors that are skipped do not matter. -/
theorem Receives.of_kept {saved : List (Text × Tensor)} (h : Receives skip saved target m)
    (part : ∀ named, named.1 ∉ skip → (named ∈ tensors ↔ named ∈ saved)) : Receives skip tensors target m where
  toLieApart := h.toLieApart
  names name counts := by
    rw [← h.names name counts, List.mem_map, List.mem_map]
    constructor
    · rintro ⟨named, hn, rfl⟩
      exact ⟨named, (part named counts).1 hn, rfl⟩
    · rintro ⟨named, hn, rfl⟩
      exact ⟨named, (part named counts).2 hn, rfl⟩
  alike named hn counts := h.alike named ((part named counts).1 hn) counts
  placed := h.placed

end Merging

section RoundTrip

variable {format : FileFormat} {config limits : Config} {metadata : Option (List (Text × Text))} {m : Module}
  {skip omitted : List Text} {w : World} {dest : Endpoint} {s : Stream}

/-- Loading restores what has been saved. -/
theorem Module.exists_loadAs {target : Module} {memory : Memory} {tensors : List (Text × Tensor)}
    {v : World} {source : Endpoint} {u : Stream} (opens : v.opened source = .ok u)
    (recovers : format.Recovers limits ⟨true, skip⟩ (target.entries.map Prod.fst) memory tensors u)
    (held : ∀ named ∈ tensors, memory.Holds named.2)
    (receives : Receives skip tensors target.entries v.memory) (earlier : Table Text Bool) :
    ∃ merge v' later,
      (Recorded.entering (target.loadAs format limits ⟨true, skip⟩ source)).perform ⟨v, earlier⟩ =
        (.ok merge, ⟨v', later⟩) ∧
      Restores skip memory tensors target.entries v.memory v'.memory ∧
      ∀ name, later.get? name = if name ∈ tensors.map Prod.fst ∧ name ∉ skip then some true
        else earlier.get? name := by
  obtain ⟨merge, m', done⟩ :=
    (outcome_of_agreeing opens recovers receives.takes fun _ => receives.names).1 receives.fitting
  have delivers := delivers_of_outcome opens recovers held receives.toLieApart done
  obtain ⟨v', loaded, rfl⟩ :=
    Recorded.exists_entering earlier (closesAfter_of_recovers opens recovers) done
  refine ⟨merge, v', merge.fill earlier, loaded, receives.restores held delivers, fun name => ?_⟩
  refine (delivers.report earlier name).trans (ite_congr rfl (fun counts => ?_) fun _ => rfl)
  rw [decide_eq_true ((receives.names name counts.2).1 counts.1)]

/-- A module that can be saved without some tensors is saved.  Whatever has been saved of it, with these or
without, is loaded from anywhere into tensors that can receive it, and is there again.  The report tells that
all names have been copied that are not skipped. -/
theorem Module.load_saveAs (distinct : m.Distinct) (creates : w.created dest = .ok s) (steady : s.Steady)
    (ended : s.position = s.content.length)
    (can : format.CanSave config w.memory metadata m skip s) :
    (∃ w', (m.saveAs format config skip (metadata.map Safetensors.textsOf) dest).perform w = (.ok (), w')) ∧
    ∀ omitted, omitted ⊆ skip → format.CanLoad config limits w.memory metadata m omitted skip →
      ∀ w', (m.saveAs format config omitted (metadata.map Safetensors.textsOf) dest).perform w =
        (.ok (), w') →
      ∃ left, w'.opened dest = .ok left ∧
        ∀ (v : World) (source : Endpoint) (u : Stream) (target : Module) (earlier : Table Text Bool),
          v.opened source = .ok u → u.Steady → u.mode = s.mode → u.position = s.position →
          u.content = left.content → format.Legible u →
          Receives skip m.entries target.entries v.memory →
          ∃ merge v' later,
            (Recorded.entering (target.loadAs format limits ⟨true, skip⟩ source)).perform ⟨v, earlier⟩ =
              (.ok merge, ⟨v', later⟩) ∧
            Restores skip w.memory m.entries target.entries v.memory v'.memory ∧
            ∀ name, later.get? name =
              if name ∈ m.entries.map Prod.fst ∧ name ∉ skip then some true else earlier.get? name := by
  refine ⟨m.exists_saveAs distinct creates steady can, fun omitted within can w' saved => ?_⟩
  obtain ⟨left, opens, recovers⟩ := recovers_saveAs distinct creates steady ended can saved
  refine ⟨left, opens, fun v source u target earlier opens' steady' mode place content legible receives => ?_⟩
  have part (named : Text × Tensor) (counts : named.1 ∉ skip) :
      named ∈ m.saved omitted ↔ named ∈ m.entries := by
    rw [mem_saved]
    exact and_iff_left fun skipped => counts (within skipped)
  obtain ⟨merge, v', later, loaded, restores, report⟩ := exists_loadAs opens'
    (recovers true _ u steady' mode place content legible) can.held (receives.of_kept part) earlier
  refine ⟨merge, v', later, loaded, ⟨fun named hn counts => ?_, restores.untouched⟩, fun name => ?_⟩
  · exact restores.restored named ((part named counts).2 hn) counts
  · have same : name ∈ (m.saved omitted).map Prod.fst ∧ name ∉ skip ↔
        name ∈ m.entries.map Prod.fst ∧ name ∉ skip := by
      refine and_congr_left fun counts => ?_
      rw [(receives.of_kept part).names name counts, receives.names name counts]
    rw [report name]
    simp only [same]

end RoundTrip

set_option maxRecDepth 100000 in
theorem load_saveAs_numbers :
    let m := numbers "a" "b" 0 1 1
    let target := numbers "a" "b" 1 1 1
    let saved (omitted : List Text) :=
      (m.saveAs .archive Archive.unpadded omitted none (.path "f")).perform numbered
    (∃ w', saved ["b"] = (.ok (), w')) ∧
    ∃ merge v' later,
      (Recorded.entering (target.loadAs .archive {} ⟨true, ["b"]⟩ (.path "f"))).perform
        ⟨(saved []).2, {}⟩ = (.ok merge, ⟨v', later⟩) ∧
      Restores ["b"] numbered.memory m.entries target.entries (saved []).2.memory v'.memory ∧
      later.get? "a" = some true ∧ later.get? "b" = none := by
  intro m target saved
  have can : FileFormat.archive.CanSave Archive.unpadded numbered.memory none m ["b"] {} := by
    refine ⟨recordable_numbers _, by decide +kernel, by decide +kernel, .of_check (by decide), by decide, ?_, ?_⟩
    · constructor <;> decide +kernel
    · have placed : ((m.graph numbered.memory ["b"]).2.dump Archive.unpadded
          (m.graph numbered.memory ["b"]).1).toOption.all (Archive.isPlaced Archive.unpadded numbered.memory 0) = true := by
        decide +kernel
      intro d hd
      rw [hd] at placed
      simp only [Except.toOption, Option.all_some, Archive.isPlaced, Bool.and_eq_true, Option.any_eq_true] at placed
      obtain ⟨-, stop, hs, within⟩ := placed
      exact ⟨stop, hs, of_decide_eq_true within⟩
  have distinct : m.Distinct := ⟨by decide +kernel, by decide +kernel⟩
  obtain ⟨saves, loads⟩ := @Module.load_saveAs .archive Archive.unpadded {} none m ["b"] numbered (.path "f") {}
    distinct rfl ⟨rfl, rfl, rfl⟩ rfl can
  obtain ⟨done, kept, content, opens, legible⟩ := saved_numbers
  have receives : Receives ["b"] m.entries target.entries numbered.memory := by
    refine ⟨⟨?_, ?_, ?_, ?_⟩, fun _ _ => .rfl, ?_, ?_⟩
    all_goals decide +kernel
  obtain ⟨left, opens', loads⟩ := loads [] (List.nil_subset _) (loadable_numbers _) (saved []).2 (Prod.ext done rfl)
  cases opens.symm.trans opens'
  obtain ⟨merge, v', later, loaded, restores, report⟩ := loads (saved []).2 (.path "f") _ target {} opens
    ⟨rfl, rfl, rfl⟩ rfl rfl rfl legible (kept ▸ receives)
  exact ⟨saves, merge, v', later, loaded, restores, report "a", report "b"⟩

/-- A single element with a stride that leads past it. -/
def stretchedIn (storage : Nat) : Module :=
  .node [("a", { Safetensors.stretched with storage })] [] [] []

set_option maxRecDepth 100000 in
/-- A contiguous tensor of one element is not saved. -/
theorem load_saveAs_stretched :
    let m := stretchedIn 0
    let w : World := { memory := ⟨[[0, 0, 128, 63], [0, 0, 0, 0]]⟩ }
    (∀ named ∈ m.entries, named.2.isContiguous = true ∧ named.2.dtype.tag?.isSome = true ∧
      named.2.stride.length = named.2.shape.length ∧ w.memory.Holds named.2) ∧
    Safetensors.Nameable none m.entries ∧ Receives [] m.entries (stretchedIn 1).entries w.memory ∧
    ((m.saveAs .safetensors {} [] none (.path "f")).perform w).1 = .error (.tensorFault .gaps) := by
  intro m w
  refine ⟨by decide, ⟨by decide, by decide, by decide, nofun, nofun⟩, ?_, ?_⟩
  · refine ⟨⟨?_, ?_, ?_, ?_⟩, fun _ _ => .rfl, ?_, ?_⟩
    all_goals decide +kernel
  · have single : m.saved [] = ([("a", Safetensors.stretched)] : List (Text × Tensor)) := rfl
    rw [Module.saveAs, Module.perform_saveSafetensors, single]
    unfold Safetensors.save
    simp only [List.mergeSort_singleton]
    decide +kernel

end Checkpoint
