import Checkpoint.Proofs.Transfer.Merging
import Checkpoint.Proofs.Transfer.Policy
import Checkpoint.Proofs.Transfer.Reading
import Mathlib.Data.List.Pairwise

/-! What comes of loading saved tensors, whatever format they have been saved in. -/

namespace Checkpoint

open Effect

/-! ### Up to the merge -/

section Listing

variable {format : FileFormat} {limits : Config} {policy : Policy} {target : Module} {names : List Text}
  {memory : Memory} {tensors : List (Text × Tensor)} {w : World} {source : Endpoint} {u : Stream}

theorem FileFormat.exists_listing (opens : w.opened source = .ok u)
    (recovers : format.Recovers limits policy names memory tensors u) :
    ∃ c rest, format.listing limits policy names w source = .ok (c, rest) ∧
      c.Brings policy names memory tensors rest := by
  obtain ⟨v, u', sought, -, brings⟩ := recovers
  obtain ⟨c, rest, listed, brings⟩ := brings.exists_ok
  have reached : format.reached w source = .ok v := by
    rw [reached, opens]
    exact congrArg Prod.fst sought
  exact ⟨c, rest, listing_of_catalogue reached listed, brings⟩

/-- Whatever comes of reading, it leaves the stream without faults. -/
theorem FileFormat.ensures_read_steady {v : Stream}
    (brings : (format.catalogue limits policy names).Ensures v
      (fun c t => c.Brings policy names memory tensors t) fun _ _ => False) :
    (format.read limits policy names).Ensures v (fun _ t => t.Steady) fun _ t => t.Steady := by
  unfold FileFormat.read
  rw [ensures_bind]
  refine brings.mono (fun c t h => ?_) fun _ _ h => h.elim
  have fetches : c.fetch.Ensures t (fun _ t => t.Steady) fun _ t => t.Steady :=
    h.fetch.mono (fun _ _ fetched => fetched.1) fun _ _ h => h.elim
  split
  · rw [ensures_bind]
    exact ensures_ofExcept (fun _ _ => fetches) fun _ _ => h.steady
  · exact fetches

/-- Work that needs to seek leaves the stream that it is done on, or that its stream has been made of. -/
theorem Bench.stream_seekably {α : Type} (action : Effect Bench α) {b : Bench} {v u' : Stream}
    (sought : FileFormat.archive.source.perform b.stream = (.ok v, u')) :
    ((seekably action).perform b).2.stream = (action.perform ⟨v, b.memory⟩).2.stream ∨
      ((seekably action).perform b).2.stream = u' := by
  simp only [FileFormat.source, perform_bind] at sought
  simp only [seekably, perform_bind, perform_onStream]
  cases asked : Stream.canSeek.perform b.stream with
  | mk answer s =>
    rw [asked] at sought
    cases answer with
    | error e => cases sought
    | ok answer =>
      cases answer with
      | true =>
        cases sought
        exact .inl rfl
      | false =>
        right
        simp only [Bool.false_eq_true, if_false, perform_bind, perform_onStream] at sought ⊢
        cases given : (Stream.read none).perform s with
        | mk bytes s' =>
          rw [given] at sought
          cases bytes with
          | error e => cases sought
          | ok bytes =>
            cases sought
            dsimp only
            rw [perform_instead]

/-- What has been saved is loaded from a stream that can be closed afterwards. -/
theorem Module.closesAfter_of_recovers (opens : w.opened source = .ok u)
    (recovers : format.Recovers limits policy (target.entries.map Prod.fst) memory tensors u) :
    World.ClosesAfter (target.loadAs format limits policy) source w := by
  obtain ⟨v, u', sought, steady, brings⟩ := recovers
  have reads := FileFormat.ensures_read_steady brings
  have left : ((format.read limits policy (target.entries.map Prod.fst)).perform v).2.Steady := by
    cases result : (format.read limits policy (target.entries.map Prod.fst)).perform v with
    | mk r t =>
      cases r with
      | ok _ => exact reads.of_ok result
      | error e => exact reads.of_error result
  cases format with
  | archive =>
    rintro name rfl
    cases opens
    have merged : ((Archive.loadInto limits policy target.entries).perform ⟨v, w.memory⟩).2.stream.Steady := by
      rw [Archive.loadInto_eq, Bench.merging, perform_bind, Bench.perform_onStream]
      cases result : (FileFormat.archive.read limits policy (target.entries.map Prod.fst)).perform v with
      | mk r t =>
        rw [result] at left
        cases r with
        | error e => exact left
        | ok found =>
          dsimp only
          rw [Bench.perform_onMemory]
          exact left
    rw [loadAs, loadArchive, World.stream_reading]
    obtain same | same := Bench.stream_seekably (b := ⟨w.stream name, w.memory⟩)
      (Archive.loadInto limits policy target.entries) sought
    · exact same ▸ merged.exists_close
    · exact same ▸ steady.exists_close
  | safetensors =>
    refine closesAfter_loadSafetensors.2 ?_
    rintro name rfl
    cases opens
    cases sought
    rw [World.stream_reading, Bench.perform_onStream, ← Safetensors.read_eq]
    exact left.exists_close

end Listing

/-! ### What comes of the merge -/

/-- Live tensors in a memory, each with a name of its own, and no two of which share bytes. -/
structure LieApart (m : Memory) (target : List (Text × Tensor)) : Prop where
  distinct : (target.map Prod.fst).Nodup
  allocated : ∀ live ∈ target, live.2.storage < m.buffers.length
  held : ∀ live ∈ target, m.Holds live.2
  disjoint : target.Pairwise fun a b => a.2.Disjoint b.2

theorem LieApart.disjoint_of_ne {m : Memory} {target : List (Text × Tensor)} (h : LieApart m target)
    {a b : Text × Tensor} (ha : a ∈ target) (hb : b ∈ target) (other : a.1 ≠ b.1) :
    a.2.Disjoint b.2 := by
  have symmetric : Std.Symm fun a b : Text × Tensor => a.2.Disjoint b.2 := ⟨fun _ _ h => h.symm⟩
  exact h.disjoint.forall ha hb fun same => other (congrArg Prod.fst same)

/-- Tensors with names of their own go to places that lie apart. -/
theorem LieApart.pairwise_disjoint {m : Memory} {target loaded : List (Text × Tensor)}
    (h : LieApart m target) (distinct : (loaded.map Prod.fst).Nodup) :
    loaded.Pairwise fun a b => ∀ live, Table.get? ⟨target⟩ a.1 = some live →
      ∀ other, Table.get? ⟨target⟩ b.1 = some other → other.Disjoint live := by
  refine (List.pairwise_map.1 distinct).imp fun {a b} differ live found other found' => ?_
  have ha : (a.1, live) ∈ target := Table.mem_entries_of_get? found
  have hb : (b.1, other) ∈ target := Table.mem_entries_of_get? found'
  exact h.disjoint_of_ne hb ha differ.symm

/-- The elements of what has been brought have the size of their type, as they had where they come from. -/
theorem length_of_brought {memory memory' : Memory} {sources loaded : List (Text × Tensor)}
    (held : ∀ named ∈ sources, memory.Holds named.2)
    (brought : List.Forall₂ (Brought memory memory') sources loaded) :
    ∀ named' ∈ loaded, ∀ bytes ∈ memory'.elements named'.2, bytes.length = named'.2.dtype.size := by
  intro named' hn' bytes hb
  obtain ⟨named, hn, ⟨-, dtype, -, elements⟩, -⟩ := exists_of_forall₂ brought.flip hn'
  rw [elements] at hb
  rw [dtype]
  exact (held named hn).length_of_mem bytes hb

/-- The saved tensors have been copied into the live ones of their names, apart from those that are skipped; no
other has been written, and a report tells of each saved name whether it was wanted. -/
structure Delivers (policy : Policy) (memory : Memory) (tensors target : List (Text × Tensor)) (m : Memory)
    (merge : Merge) (m' : Memory) : Prop where
  written : ∀ named ∈ tensors, named.1 ∉ policy.skip → ∀ live, Table.get? ⟨target⟩ named.1 = some live →
    named.2.shape = live.shape ∧ ∃ memory' named', Brought memory memory' named named' ∧
      m'.elements live = (m.write live (memory'.converted named'.2 live)).elements live
  untouched : ∀ live ∈ target, live.1 ∈ policy.skip ∨ live.1 ∉ tensors.map Prod.fst →
    m'.elements live.2 = m.elements live.2
  report : ∀ (earlier : Table Text Bool) name, (merge.fill earlier).get? name =
    if name ∈ tensors.map Prod.fst ∧ name ∉ policy.skip then some (decide (name ∈ target.map Prod.fst))
    else earlier.get? name

section Merging

variable {format : FileFormat} {limits : Config} {policy : Policy} {memory : Memory}
  {tensors target : List (Text × Tensor)} {w : World} {source : Endpoint} {u : Stream} {merge : Merge}
  {m' : Memory}

theorem mem_shared {named : Text × Tensor} {live : Tensor} (counts : named.1 ∉ policy.skip)
    (found : Table.get? ⟨target⟩ named.1 = some live) :
    policy.shares (target.map Prod.fst) named.1 = true := by
  have known : named.1 ∈ target.map Prod.fst :=
    List.mem_map.2 ⟨_, Table.mem_entries_of_get? found, rfl⟩
  simp [Policy.shares, counts, known]

/-- Whatever has been loaded of saved tensors has been delivered. -/
theorem delivers_of_outcome (opens : w.opened source = .ok u)
    (recovers : format.Recovers limits policy (target.map Prod.fst) memory tensors u)
    (held : ∀ named ∈ tensors, memory.Holds named.2) (apart : LieApart w.memory target)
    (done : format.outcome limits policy target w source = (.ok merge, m')) :
    Delivers policy memory tensors target w.memory merge m' := by
  obtain ⟨c, rest, state, unread, rest', listed, fetched, h⟩ := outcome_of_ok apart.allocated done
  obtain ⟨_, _, listed', brings⟩ := FileFormat.exists_listing opens recovers
  cases listed.symm.trans listed'
  obtain ⟨-, sources, perm, brought⟩ := brings.fetch.of_ok fetched
  have listing := FileFormat.sound_listing listed
  have counted (name : Text) : name ∈ c.names ↔ name ∈ tensors.map Prod.fst := brings.names.mem_iff
  have distinct : (state.tensors.map Prod.fst).Nodup := by
    rw [h.names]
    exact listing.distinct.sublist List.filter_sublist
  have sized := length_of_brought
    (fun named hn => held named (List.mem_filter.1 (perm.subset hn)).1) brought
  have mergeable : Mergeable w.memory target state.tensors :=
    ⟨fun _ _ live found => apart.allocated _ (Table.mem_entries_of_get? found),
      fun _ _ live found => apart.held _ (Table.mem_entries_of_get? found)⟩
  have disjoint := apart.pairwise_disjoint distinct
  constructor
  · intro named hn counts live found
    obtain ⟨loaded, hl, same⟩ := exists_of_forall₂ brought
      (perm.mem_iff.2 (List.mem_filter.2 ⟨hn, mem_shared counts found⟩))
    rw [← same.same.1] at found
    refine ⟨same.same.2.2.1.symm.trans (h.fitting loaded hl live found), _, loaded, same, ?_⟩
    rw [h.memory]
    exact mergeable.elements sized h.fitting disjoint loaded hl live found
  · intro live hl others
    refine h.elements_of_disjoint apart.allocated (fun live hl _ => apart.held live hl)
      (apart.allocated live hl) fun other ho copied => apart.disjoint_of_ne ho hl fun same => ?_
    obtain ⟨known, counts, -⟩ := h.mem_copied.1 copied
    rw [same, counted] at known
    rw [same] at counts
    exact others.elim counts fun unknown => unknown known
  · intro earlier name
    rw [h.get?_fill earlier name]
    simp only [counted]

/-- Names that differ from those that have been saved end a strict load, which tells them sorted. -/
theorem outcome_of_names {skip : List Text} (opens : w.opened source = .ok u)
    (recovers : format.Recovers limits ⟨true, skip⟩ (target.map Prod.fst) memory tensors u)
    (differ : ¬ Agree skip (tensors.map Prod.fst) (target.map Prod.fst)) :
    format.outcome limits ⟨true, skip⟩ target w source =
      (.error (.stateMismatch (Text.sort (onlyIn skip (target.map Prod.fst) (tensors.map Prod.fst)))
        (Text.sort (onlyIn skip (tensors.map Prod.fst) (target.map Prod.fst)))), w.memory) := by
  obtain ⟨c, rest, listed, brings⟩ := FileFormat.exists_listing opens recovers
  have same (name : Text) (_ : name ∉ skip) : name ∈ c.names ↔ name ∈ tensors.map Prod.fst :=
    brings.names.mem_iff
  have unexpected : (onlyIn skip c.names (target.map Prod.fst)).Perm
      (onlyIn skip (tensors.map Prod.fst) (target.map Prod.fst)) := brings.names.filter _
  rw [outcome_of_not_agree listed fun agree => differ fun name counts =>
    (same name counts).symm.trans (agree name counts), onlyIn_congr same, sort_eq_of_perm unexpected]

/-- When the names agree, what has been saved and is wanted is found, and nothing else is asked for. -/
theorem found_of_agreeing (opens : w.opened source = .ok u)
    (recovers : format.Recovers limits policy (target.map Prod.fst) memory tensors u)
    (agree : policy.strict = true → Agree policy.skip (tensors.map Prod.fst) (target.map Prod.fst)) :
    ∃ state unread, format.found limits policy (target.map Prod.fst) w source = .ok (state, unread) ∧
      (policy.strict = true → (policy.difference state.tensors target unread).isEmpty = true) ∧
      ∃ sources, sources.Perm
          (tensors.filter fun named => policy.shares (target.map Prod.fst) named.1) ∧
        List.Forall₂ (Brought memory state.memory) sources state.tensors := by
  obtain ⟨c, rest, listed, brings⟩ := FileFormat.exists_listing opens recovers
  obtain ⟨⟨state, unread⟩, rest', fetched, -, sources, perm, brought⟩ := brings.fetch.exists_ok
  have agree : policy.strict = true → Agree policy.skip c.names (target.map Prod.fst) :=
    fun strict name counts => brings.names.mem_iff.trans (agree strict name counts)
  have checked : policy.check c.names (target.map Prod.fst) = .ok () := by
    rw [Policy.check]
    split
    · next strict => exact (agree strict).checkKeys_eq
    · rfl
  refine ⟨state, unread, ?_, fun strict => ?_, sources, perm, brought⟩
  · rw [FileFormat.found_eq, listed]
    simp only [bind, Except.bind, checked, fetched]
  · exact (FileFormat.sound_listing listed).isEmpty_difference (agree strict) fetched

/-- When the names agree, a load of saved tensors succeeds if they have the shapes of the live ones, and
otherwise fails over a shape. -/
theorem outcome_of_agreeing (opens : w.opened source = .ok u)
    (recovers : format.Recovers limits policy (target.map Prod.fst) memory tensors u)
    (takes : Takes policy w.memory target)
    (agree : policy.strict = true → Agree policy.skip (tensors.map Prod.fst) (target.map Prod.fst)) :
    ((∀ named ∈ policy.kept tensors, Fitting ⟨target⟩ named) →
      ∃ merge m', format.outcome limits policy target w source = (.ok merge, m')) ∧
    (¬ (∀ named ∈ policy.kept tensors, Fitting ⟨target⟩ named) →
      ∃ name shape live m', format.outcome limits policy target w source =
        (.error (.shapeMismatch name shape live), m')) := by
  obtain ⟨state, unread, found, same, sources, perm, brought⟩ := found_of_agreeing opens recovers agree
  rw [FileFormat.outcome, found]
  dsimp only
  refine ⟨fun fitting => ?_, fun misfit => ?_⟩
  · refine ⟨_, _, perform_eq_ok.2 (mergeState_copies takes same fun loaded hl => ?_)⟩
    obtain ⟨named, hn, ⟨name, -, shape, -⟩, -⟩ := exists_of_forall₂ brought.flip (Policy.mem_kept.1 hl).1
    have hn := List.mem_filter.1 (perm.subset hn)
    rw [Fitting, name, shape]
    exact fitting named (List.mem_filter.2 ⟨hn.1, (Bool.and_eq_true_iff.1 hn.2).1⟩)
  · cases result : (mergeState policy state target unread).perform w.memory with
  | mk r m' =>
    cases r with
    | ok merge =>
      obtain ⟨fitting, -⟩ := of_mergeState takes.allocated result
      refine absurd (fun named hn live known => ?_) misfit
      have counts := Policy.mem_kept.1 hn
      obtain ⟨loaded, hl, ⟨name, -, shape, -⟩, -⟩ := exists_of_forall₂ brought
        (perm.mem_iff.2 (List.mem_filter.2 ⟨counts.1, mem_shared counts.2 known⟩))
      rw [← shape]
      exact fitting loaded (Policy.mem_kept.2 ⟨hl, name ▸ counts.2⟩) live (name ▸ known)
    | error e =>
      obtain ⟨before, loaded, after, live, _, kept, -, known, why⟩ :=
        mergeState_refused takes.allocated same result
      cases why with
      | shape differ => exact ⟨_, _, _, m', rfl⟩
      | repeats _ repeats =>
        have counts : loaded ∈ policy.kept state.tensors := kept ▸ List.mem_append_right _ List.mem_cons_self
        cases repeats.symm.trans
          (takes.single _ (Table.mem_entries_of_get? known) (Policy.mem_kept.1 counts).2)

end Merging

theorem recordable_numbers (omitted : List Text) :
    Archive.Recordable numbered.memory ((numbers "a" "b" 0 1 1).saved omitted) := by
  have storable : ∀ named ∈ (numbers "a" "b" 0 1 1).entries, Archive.Storable numbered.memory named.2 := by
    simp only [numbers, Module.entries, Module.entriesUnder, Module.childEntries, List.append_nil, List.map_cons,
      List.map_nil, List.forall_mem_cons]
    exact ⟨⟨⟨"ByteStorage", rfl⟩, by decide, ⟨rfl, by decide, by decide⟩, by decide, by decide⟩,
      ⟨⟨"ByteStorage", rfl⟩, by decide, ⟨rfl, by decide, by decide⟩, by decide, by decide⟩,
      List.forall_mem_nil _⟩
  have bytes : ∀ named ∈ (numbers "a" "b" 0 1 1).entries, named.2.dtype = .uint8 := by
    decide
  refine ⟨fun named hn => storable named (Module.mem_saved.1 hn).1, fun named hn named' hn' _ => ?_⟩
  rw [bytes named (Module.mem_saved.1 hn).1, bytes named' (Module.mem_saved.1 hn').1]

set_option maxRecDepth 100000 in
theorem loadable_numbers (skip : List Text) : FileFormat.archive.CanLoad Archive.unpadded {} numbered.memory none
    (numbers "a" "b" 0 1 1) [] skip := by
  refine ⟨recordable_numbers _, by decide, fun d hd => ?_⟩
  have small : (((numbers "a" "b" 0 1 1).graph numbered.memory []).2.dump Archive.unpadded
      ((numbers "a" "b" 0 1 1).graph numbered.memory []).1).toOption.all (·.bytes.length < 1000) = true := by
    decide +kernel
  rw [hd] at small
  have small : d.bytes.length < 1000 := by simpa [Except.toOption] using small
  apply Archive.admits_of_short
  · change _ < 100000
    omega
  · change _ < (1000000 : Int)
    omega

set_option maxRecDepth 100000 in
/-- Two numbers are saved as an archive in a file. -/
theorem saved_numbers :
    let saved := ((numbers "a" "b" 0 1 1).saveAs .archive Archive.unpadded [] none (.path "f")).perform numbered
    saved.1 = .ok () ∧ saved.2.memory = numbered.memory ∧ ∃ content,
      saved.2.opened (.path "f") = .ok { content, isFile := true } ∧
        FileFormat.archive.Legible { content, isFile := true } := by
  intro saved
  have shown : saved.1 = .ok () ∧ saved.2.memory = numbered.memory ∧
      (saved.2.disk.read "f").toOption.any (fun content => decide (content.length < 256 ^ 4) &&
        Zip.fieldAt content (content.length - (Zip.endRecordSize + Zip.locatorSize)) 4 !=
          Zip.locatorSignature) = true := by
    decide +kernel
  obtain ⟨done, kept, shown⟩ := shown
  obtain ⟨content, opens, legible⟩ := World.exists_opened_of_read shown
  rw [Bool.and_eq_true, decide_eq_true_eq, bne_iff_ne] at legible
  exact ⟨done, kept, content, opens, legible⟩

end Checkpoint
