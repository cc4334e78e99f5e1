import Checkpoint.Proofs.Transfer.Recovery

/-! The two formats agree: what a module has been saved as does not show when it is loaded. -/

namespace Checkpoint

open Effect

/-! ### Conversions -/

/-- A tensor without gaps is copied in a run if the live one has no gaps either. -/
theorem Memory.isRun_of_contiguous {source live : Tensor} (contiguous : source.isContiguous = true)
    (shape : source.shape = live.shape) : isRun source live = live.isContiguous := by
  have same (stride : source.stride = live.stride) : live.isContiguous = true := by
    rw [Tensor.isContiguous, Tensor.numel, ← shape, ← stride]
    exact contiguous
  rw [isRun, Tensor.copiesAsRun, contiguous, Bool.true_and]
  cases gapless : live.isContiguous with
  | true => rfl
  | false =>
    have strides : (source.stride == live.stride) = false := by
      rw [beq_eq_false_iff_ne]
      exact fun stride => Bool.noConfusion (gapless.symm.trans (same stride))
    simp [strides]

/-- However a tensor without gaps has been brought, it is converted as if it had not been moved. -/
theorem Brought.converted_eq {memory memory' : Memory} {named named' : Text × Tensor} {live : Tensor}
    (h : Brought memory memory' named named') (contiguous : named.2.isContiguous = true)
    (fits : named.2.shape = live.shape) :
    memory'.converted named'.2 live = memory.converted named.2 live := by
  obtain ⟨-, dtype, shape, elements⟩ := h.same
  unfold Memory.converted
  rw [Memory.isRun_of_contiguous (h.contiguous contiguous) (shape.trans fits),
    Memory.isRun_of_contiguous contiguous fits, elements, dtype]

/-! ### Loads of one module -/

/-- What a save of a module has left, all but `omitted`, lies at a source, from where it can be loaded but for
`skip`. -/
def Module.LiesAt (format : FileFormat) (limits : Config) (memory : Memory) (m : Module)
    (omitted skip : List Text) (v : World) (source : Endpoint) : Prop :=
  ∃ config metadata w w' dest s left u,
    w.memory = memory ∧ w.created dest = .ok s ∧ s.Steady ∧ s.position = s.content.length ∧
      format.CanLoad config limits memory metadata m omitted skip ∧
      (m.saveAs format config omitted (metadata.map Safetensors.textsOf) dest).perform w = (.ok (), w') ∧
      w'.opened dest = .ok left ∧
      v.opened source = .ok u ∧ u.Steady ∧ u.mode = s.mode ∧ u.position = s.position ∧
      u.content = left.content ∧ format.Legible u

/-- Two loads come to the same: both succeed, with the same elements in all live tensors and the same in the
reports, or both fail over the same names, or both fail over a shape. -/
inductive LoadAlike (target : List (Text × Tensor)) :
    Except Error Merge × Recorded → Except Error Merge × Recorded → Prop
  | done {merge merge' : Merge} {r r' : Recorded}
    (elements : ∀ live ∈ target, r.world.memory.elements live.2 = r'.world.memory.elements live.2)
    (report : ∀ name, r.report.get? name = r'.report.get? name) :
    LoadAlike target (.ok merge, r) (.ok merge', r')
  | names (missing unexpected : List Text) (r r' : Recorded) :
    LoadAlike target (.error (.stateMismatch missing unexpected), r)
      (.error (.stateMismatch missing unexpected), r')
  | shapes (name name' : Text) (shape shape' live live' : List Nat) (r r' : Recorded) :
    LoadAlike target (.error (.shapeMismatch name shape live), r)
      (.error (.shapeMismatch name' shape' live'), r')

section Loading

variable {format format' : FileFormat} {limits limits' : Config} {policy : Policy} {memory before after after' : Memory}
  {m : Module} {omitted skip : List Text} {tensors target : List (Text × Tensor)} {v v' : World}
  {source source' : Endpoint} {u u' : Stream}

/-- From where a module lies, all that has been saved is brought to any target. -/
theorem Module.LiesAt.recovers (h : m.LiesAt format limits memory omitted skip v source)
    (distinct : m.Distinct) : ∃ u, v.opened source = .ok u ∧ ∀ strict target,
      format.Recovers limits ⟨strict, skip⟩ target memory (m.saved omitted) u := by
  obtain ⟨config, metadata, w, w', dest, s, left, u, rfl, creates, steady, ended, can, saved, opens, opens',
    steady', mode, place, content, legible⟩ := h
  obtain ⟨_, found, recovers⟩ := recovers_saveAs distinct creates steady ended can saved
  cases opens.symm.trans found
  exact ⟨u, opens', fun strict target => recovers strict target u steady' mode place content legible⟩

theorem Module.LiesAt.held (h : m.LiesAt format limits memory omitted skip v source) :
    ∀ named ∈ m.saved omitted, memory.Holds named.2 := by
  obtain ⟨_, _, _, _, _, _, _, _, -, -, -, -, can, -⟩ := h
  exact FileFormat.CanLoad.held can

/-- Only tensors without gaps are saved as a file. -/
theorem Module.LiesAt.contiguous (h : m.LiesAt .safetensors limits memory omitted skip v source)
    (distinct : m.Distinct) : ∀ named ∈ m.saved omitted, named.2.isContiguous = true := by
  obtain ⟨config, metadata, w, w', dest, s, left, u, rfl, creates, -, -, can, saved, -⟩ := h
  obtain ⟨_, _, _, written, -⟩ := exists_of_saveSafetensors creates saved
  obtain ⟨-, flat, -⟩ := Safetensors.of_save (distinct.saved omitted) can.keys can.regular written
  exact fun named hn => (flat named hn).contiguous

/-- What has been delivered does not depend on how it was brought. -/
theorem Delivers.elements_eq {merge merge' : Merge} (h : Delivers policy memory tensors target before merge after)
    (h' : Delivers policy memory tensors target before merge' after')
    (contiguous : ∀ named ∈ tensors, named.2.isContiguous = true)
    (distinct : (target.map Prod.fst).Nodup) :
    ∀ live ∈ target, after.elements live.2 = after'.elements live.2 := by
  intro live hl
  by_cases others : live.1 ∈ policy.skip ∨ live.1 ∉ tensors.map Prod.fst
  · rw [h.untouched live hl others, h'.untouched live hl others]
  · obtain ⟨counts, known⟩ := not_or.1 others
    obtain ⟨named, hn, same⟩ := List.mem_map.1 (not_not.1 known)
    have found : Table.get? ⟨target⟩ named.1 = some live.2 := Table.get?_of_mem distinct (same ▸ hl)
    obtain ⟨shape, _, _, brought, written⟩ := h.written named hn (same ▸ counts) _ found
    obtain ⟨-, _, _, brought', written'⟩ := h'.written named hn (same ▸ counts) _ found
    rw [written, written', brought.converted_eq (contiguous named hn) shape,
      brought'.converted_eq (contiguous named hn) shape]

/-- Whatever brings the same tensors to the same live ones, the loads come to the same. -/
theorem loadAlike_of_recovers {target : Module} {earlier : Table Text Bool}
    (opens : v.opened source = .ok u) (opens' : v'.opened source' = .ok u') (same : v'.memory = v.memory)
    (recovers : format.Recovers limits policy (target.entries.map Prod.fst) memory tensors u)
    (recovers' : format'.Recovers limits' policy (target.entries.map Prod.fst) memory tensors u')
    (held : ∀ named ∈ tensors, memory.Holds named.2)
    (contiguous : ∀ named ∈ tensors, named.2.isContiguous = true)
    (apart : LieApart v.memory target.entries)
    (single : ∀ live ∈ target.entries, live.1 ∉ policy.skip → live.2.repeatsElements = false) :
    LoadAlike target.entries
      ((Recorded.entering (target.loadAs format limits policy source)).perform ⟨v, earlier⟩)
      ((Recorded.entering (target.loadAs format' limits' policy source')).perform ⟨v', earlier⟩) := by
  have closes := Module.closesAfter_of_recovers opens recovers
  have closes' := Module.closesAfter_of_recovers opens' recovers'
  have apart' : LieApart v'.memory target.entries := same ▸ apart
  by_cases agree : policy.strict = true → Agree policy.skip (tensors.map Prod.fst) (target.entries.map Prod.fst)
  · obtain ⟨ends, stops⟩ := outcome_of_agreeing opens recovers ⟨apart.allocated, single⟩ agree
    obtain ⟨ends', stops'⟩ := outcome_of_agreeing opens' recovers' ⟨apart'.allocated, single⟩ agree
    by_cases fitting : ∀ named ∈ policy.kept tensors, Fitting ⟨target.entries⟩ named
    · obtain ⟨merge, _, done⟩ := ends fitting
      obtain ⟨merge', _, done'⟩ := ends' fitting
      have delivers := delivers_of_outcome opens recovers held apart done
      have delivers' := delivers_of_outcome opens' recovers' held apart' done'
      obtain ⟨left, loaded, rfl⟩ := Recorded.exists_entering earlier closes done
      obtain ⟨left', loaded', rfl⟩ := Recorded.exists_entering earlier closes' done'
      rw [same] at delivers'
      rw [loaded, loaded']
      refine .done (delivers.elements_eq delivers' contiguous apart.distinct) fun name => ?_
      exact (delivers.report earlier name).trans (delivers'.report earlier name).symm
    · obtain ⟨_, _, _, _, stopped⟩ := stops fitting
      obtain ⟨_, _, _, _, stopped'⟩ := stops' fitting
      obtain ⟨_, loaded, -⟩ := Recorded.exists_entering earlier closes stopped
      obtain ⟨_, loaded', -⟩ := Recorded.exists_entering earlier closes' stopped'
      rw [loaded, loaded']
      exact .shapes _ _ _ _ _ _ _ _
  · obtain ⟨strict, skip⟩ := policy
    obtain ⟨rfl, differ⟩ : strict = true ∧ ¬ Agree skip (tensors.map Prod.fst) (target.entries.map Prod.fst) :=
      Classical.not_imp.1 agree
    obtain ⟨_, loaded, -⟩ := Recorded.exists_entering earlier closes (outcome_of_names opens recovers differ)
    obtain ⟨_, loaded', -⟩ := Recorded.exists_entering earlier closes' (outcome_of_names opens' recovers' differ)
    rw [loaded, loaded']
    exact .names _ _ _ _

/-- When both saves of a module have succeeded, loading the archive and loading the file come to the same. -/
theorem loads_agree {target : Module} {strict : Bool} {earlier : Table Text Bool} (distinct : m.Distinct)
    (archive : m.LiesAt .archive limits memory omitted skip v source)
    (file : m.LiesAt .safetensors limits' memory omitted skip v' source') (same : v'.memory = v.memory)
    (apart : LieApart v.memory target.entries)
    (single : ∀ live ∈ target.entries, live.1 ∉ skip → live.2.repeatsElements = false) :
    LoadAlike target.entries
      ((Recorded.entering (target.loadAs .archive limits ⟨strict, skip⟩ source)).perform ⟨v, earlier⟩)
      ((Recorded.entering (target.loadAs .safetensors limits' ⟨strict, skip⟩ source')).perform
        ⟨v', earlier⟩) := by
  obtain ⟨u, opens, recovers⟩ := archive.recovers distinct
  obtain ⟨u', opens', recovers'⟩ := file.recovers distinct
  exact loadAlike_of_recovers opens opens' same (recovers strict _) (recovers' strict _) archive.held
    (file.contiguous distinct) apart single

end Loading

set_option maxRecDepth 100000 in
/-- Two numbers are saved as a file. -/
theorem filed_numbers :
    let saved := ((numbers "a" "b" 0 1 1).saveAs .safetensors {} [] none (.path "f")).perform numbered
    saved.1 = .ok () ∧ saved.2.memory = numbered.memory ∧ ∃ content,
      saved.2.opened (.path "f") = .ok { content, isFile := true } ∧
        FileFormat.safetensors.Legible { content, isFile := true } := by
  intro saved
  have sorted : ((numbers "a" "b" 0 1 1).saved []).mergeSort (fun a b => Text.le a.1 b.1) =
      (numbers "a" "b" 0 1 1).saved [] := List.mergeSort_of_pairwise (by decide +kernel)
  have shown : saved.1 = .ok () ∧ saved.2.memory = numbered.memory ∧
      (saved.2.disk.read "f").toOption.any (fun content => decide (content.length < 1000)) = true := by
    unfold saved
    rw [Module.saveAs, Module.perform_saveSafetensors]
    unfold Safetensors.save
    simp only [sorted]
    decide +kernel
  obtain ⟨done, kept, shown⟩ := shown
  obtain ⟨content, opens, short⟩ := World.exists_opened_of_read shown
  have short := Nat.le_of_lt (of_decide_eq_true short)
  refine ⟨done, kept, content, opens, ?_, Stream.readFault?_of_le rfl short⟩
  rintro ⟨⟩

theorem loads_agree_numbers :
    let m := numbers "a" "b" 0 1 1
    let archive := ((m.saveAs .archive Archive.unpadded [] none (.path "f")).perform numbered).2
    let file := ((m.saveAs .safetensors {} [] none (.path "f")).perform numbered).2
    let target := numbers "a" "b" 1 1 1
    LoadAlike target.entries
      ((Recorded.entering (target.loadAs .archive {} ⟨true, ["b"]⟩ (.path "f"))).perform ⟨archive, {}⟩)
      ((Recorded.entering (target.loadAs .safetensors {} ⟨true, ["b"]⟩ (.path "f"))).perform
        ⟨file, {}⟩) := by
  intro m archive file target
  have distinct : m.Distinct := ⟨by decide +kernel, by decide +kernel⟩
  obtain ⟨done, kept, content, opens, legible⟩ := saved_numbers
  obtain ⟨done', kept', content', opens', legible'⟩ := filed_numbers
  have archived : m.LiesAt .archive {} numbered.memory [] ["b"] archive (.path "f") :=
    ⟨Archive.unpadded, none, numbered, archive, .path "f", {}, _, _, rfl, rfl, ⟨rfl, rfl, rfl⟩, rfl,
      loadable_numbers _, Prod.ext done rfl, opens, opens, ⟨rfl, rfl, rfl⟩, rfl, rfl, rfl, legible⟩
  have filed : m.LiesAt .safetensors {} numbered.memory [] ["b"] file (.path "f") := by
    refine ⟨{}, none, numbered, file, .path "f", {}, _, _, rfl, rfl, ⟨rfl, rfl, rfl⟩, rfl, ?_,
      Prod.ext done' rfl, opens', opens', ⟨rfl, rfl, rfl⟩, rfl, rfl, rfl, legible'⟩
    have full : ∀ named ∈ m.saved [], named.2.numel ≠ 0 := by
      decide +kernel
    exact ⟨nofun, by decide +kernel, fun named hn none => absurd none (full named hn),
      fun named hn _ none => absurd none (full named hn), Nat.le_refl _⟩
  have apart : LieApart archive.memory target.entries := by
    rw [kept]
    refine ⟨?_, ?_, ?_, ?_⟩
    all_goals decide +kernel
  exact loads_agree distinct archived filed (kept'.trans kept.symm) apart (by decide)

/-- A tensor without elements, with two dimensions whose product is no machine number. -/
def hollow (storage : Nat) : Module :=
  .node [("a", { dtype := .uint8, shape := [0, 2 ^ 40, 2 ^ 40], stride := [1, 1, 1], offset := 0, storage })]
    [] [] []

set_option maxRecDepth 100000 in
/-- Such a tensor is saved in both formats, and loaded from an archive only. -/
theorem loads_agree_hollow :
    let world : World := { memory := ⟨[[], [7]]⟩ }
    let archive := ((hollow 0).saveAs .archive Archive.unpadded [] none (.path "f")).perform world
    let file := ((hollow 0).saveAs .safetensors {} [] none (.path "f")).perform world
    LieApart world.memory (hollow 1).entries ∧ archive.1 = .ok () ∧ file.1 = .ok () ∧
      (((hollow 1).loadAs .archive {} {} (.path "f")).perform archive.2).1 =
        .ok { copied := ["a"], missing := [], unexpected := [] } ∧
      (((hollow 1).loadAs .safetensors {} {} (.path "f")).perform file.2).1 =
        .error (.tensorFault .tooLarge) := by
  intro world archive file
  have saved : archive.1 = .ok () ∧ (((hollow 1).loadAs .archive {} {} (.path "f")).perform archive.2).1 =
        .ok { copied := ["a"], missing := [], unexpected := [] } := by
    decide +kernel
  have filed : file.1 = .ok () ∧ (((hollow 1).loadAs .safetensors {} {} (.path "f")).perform file.2).1 =
        .error (.tensorFault .tooLarge) := by
    have single : (hollow 0).saved [] = (hollow 0).entries := rfl
    unfold file
    rw [Module.saveAs, Module.perform_saveSafetensors, single]
    unfold Safetensors.save
    simp only [hollow, Module.entries, Module.entriesUnder, Module.childEntries, List.append_nil,
      List.map_cons, List.map_nil, List.mergeSort_singleton]
    decide +kernel
  refine ⟨⟨?_, ?_, ?_, ?_⟩, saved.1, filed.1, saved.2, filed.2⟩
  all_goals decide +kernel

end Checkpoint
