import Checkpoint.Proofs.Archive.Records
import Checkpoint.Proofs.Transfer.Stages

/-! The strict policy.  The names are compared when they are known and nothing else has been read; names that
agree are not found to differ later, and then the load does what it does without the comparison. -/

namespace Checkpoint

open Effect

/-! ### What has been read to know the names -/

namespace Safetensors

theorem blind_remaining : Stream.Blind remaining := by
  refine Stream.Blind.describing (Stream.blind_seekable.bind fun answer => ?_) _
  split
  · exact Stream.blind_tell.bind fun position => (Stream.blind_seekFromEnd 0).bind fun stop =>
      (Stream.blind_seek position).bind fun _ => Stream.blind_pure _
  · exact Stream.blind_pure _

/-- Asking how much is left, a stream comes back to its place. -/
theorem position_remaining {s t : Stream} {left : Option Int}
    (h : remaining.perform s = (.ok left, t)) : t.position = s.position := by
  obtain ⟨answer, s₁, asked, h⟩ := perform_bind_eq_ok.1 (perform_describing_eq_ok.1 h)
  have same := Stream.position_seekable asked
  split at h
  · obtain ⟨position, s₂, told, h⟩ := perform_bind_eq_ok.1 h
    obtain ⟨stop, s₃, -, h⟩ := perform_bind_eq_ok.1 h
    obtain ⟨_, s₄, back, h⟩ := perform_bind_eq_ok.1 h
    cases h
    rw [Stream.position_seek back, Stream.position_tell told, same]
  · cases h
    exact same

theorem perform_readPart_eq_ok {size : Nat} {data : Bytes} {s t : Stream} :
    (readPart size).perform s = (.ok data, t) ↔ (Stream.read (some size)).perform s = (.ok data, t) :=
  perform_describing_eq_ok

/-- When the header has been read, the stream is at the start of the payload; and nothing from there on has
been read. -/
theorem readHeader_veil {config : Config} {s t : Stream} {header : Header}
    (h : (readHeader config).perform s = (.ok header, t)) :
    t.position = s.position + (Header.lengthSize + headerLength s) ∧
      ∀ stop, (readHeader config).perform (s.veil t.position stop) = (.ok header, t.veil t.position stop) := by
  have refused {x : Unit → Action Header} {e : Error} {u : Stream} :
      (throw e >>= x).perform u ≠ (.ok header, t) := nofun
  rw [readHeader, perform_bind_eq_ok] at h
  obtain ⟨start, s₁, length, h⟩ := h
  dsimp only at h
  split at h
  · exact absurd h refused
  next eight =>
  split at h
  · exact absurd h refused
  next small =>
  rw [perform_bind_eq_ok] at h
  obtain ⟨bytes, s₂, text, h⟩ := h
  split at h
  · exact absurd h refused
  next whole =>
  rw [perform_bind_eq_ok] at h
  obtain ⟨payload, s₃, left, h⟩ := h
  obtain ⟨decoded, rfl⟩ := perform_ofExcept_eq_ok.1 h
  rw [perform_readPart_eq_ok] at length text
  obtain ⟨-, -, given, -, moved⟩ := Stream.perform_read_eq_ok.1 length
  obtain ⟨-, -, -, -, moved'⟩ := Stream.perform_read_eq_ok.1 text
  have first : s₁.position = s.position + Header.lengthSize := by
    rw [moved]
    exact congrArg _ (not_not.1 eight)
  have second : s₂.position = s₁.position + headerLength s := by
    rw [moved', headerLength, ← given]
    exact congrArg _ (not_not.1 whole)
  have place := position_remaining left
  refine ⟨by omega, fun stop => ?_⟩
  rw [readHeader, perform_bind_eq_ok]
  refine ⟨start, s₁.veil t.position stop,
    perform_readPart_eq_ok.2 (Stream.perform_read_veil length (by omega) stop), ?_⟩
  dsimp only
  rw [if_neg eight, if_neg small, perform_bind_eq_ok]
  refine ⟨bytes, s₂.veil t.position stop,
    perform_readPart_eq_ok.2 (Stream.perform_read_veil text (Nat.le_of_eq place.symm) stop), ?_⟩
  rw [if_neg whole, perform_bind_eq_ok]
  exact ⟨payload, t.veil t.position stop, blind_remaining _ _ _ _ _ left,
    perform_ofExcept_eq_ok.2 ⟨decoded, rfl⟩⟩

end Safetensors

/-- To find the names of an archive, no storage is read. -/
theorem Archive.exists_of_catalogue {config : Config} {policy : Policy} {target : List Text} {c : Catalogue}
    {s t : Stream} (h : (FileFormat.archive.catalogue config policy target).perform s = (.ok c, t)) :
    ∃ directory s₁ r records, (describing .openArchive Zip.readDirectory).perform s = (.ok directory, s₁) ∧
      Reader.members r = membersOf directory ∧ r.ReadsRecords records s₁ t ∧
      ∀ key, storageRecord key ∉ records.map Prod.fst := by
  rw [FileFormat.catalogue, perform_bind_eq_ok] at h
  obtain ⟨r, s₂, opened, h⟩ := h
  rw [perform_bind_eq_ok] at h
  obtain ⟨found, s₃, decoded, h⟩ := h
  cases h
  obtain ⟨directory, s₁, records, listed, members, reads, others⟩ := Reader.readsRecords_decode opened decoded
  exact ⟨directory, s₁, r, records, listed, members, reads, others⟩

/-- Only what tells the names has been read: of an archive the directory and records other than storages, of a
file what lies in front of the payload. -/
def FileFormat.ReadsNames (format : FileFormat) (config : Config) (policy : Policy) (target : List Text)
    (c : Catalogue) (s t : Stream) : Prop :=
  match format with
  | .archive => ∃ directory s₁ r records,
      (describing .openArchive Zip.readDirectory).perform s = (.ok directory, s₁) ∧
        Archive.Reader.members r = Archive.membersOf directory ∧ r.ReadsRecords records s₁ t ∧
        ∀ key, Archive.storageRecord key ∉ records.map Prod.fst
  | .safetensors => t.position = s.position + (Safetensors.Header.lengthSize + Safetensors.headerLength s) ∧
      ∀ stop, (FileFormat.safetensors.catalogue config policy target).perform (s.veil t.position stop) =
        (.ok c, t.veil t.position stop)

theorem FileFormat.readsNames_of_catalogue {format : FileFormat} {config : Config} {policy : Policy}
    {target : List Text} {c : Catalogue} {s t : Stream}
    (h : (format.catalogue config policy target).perform s = (.ok c, t)) :
    format.ReadsNames config policy target c s t := by
  cases format with
  | archive => exact Archive.exists_of_catalogue h
  | safetensors =>
    rw [catalogue, perform_bind_eq_ok] at h
    obtain ⟨header, _, read, h⟩ := h
    cases h
    obtain ⟨place, veiled⟩ := Safetensors.readHeader_veil read
    refine ⟨place, fun stop => ?_⟩
    rw [catalogue, perform_bind_eq_ok]
    exact ⟨header, _, veiled stop, rfl⟩

/-! ### Names that agree -/

section Agreeing

variable {format : FileFormat} {config : Config} {policy : Policy} {skip names : List Text}
  {target : List (Text × Tensor)} {c : Catalogue} {state : StateDict} {unread : List Text} {s t : Stream}
  {m : Memory}

/-- When the names agree, those of what has been read and of what has not do too. -/
theorem Catalogue.Sound.isEmpty_difference (sound : c.Sound policy (target.map Prod.fst))
    (agree : Agree policy.skip c.names (target.map Prod.fst))
    (read : c.fetch.perform s = (.ok (state, unread), t)) :
    (policy.difference state.tensors target unread).isEmpty = true := by
  have others := sound.others read
  obtain ⟨missing, unexpected⟩ := agree_iff.1 agree
  rw [unexpected] at others
  have known (name : Text) (counts : name ∉ policy.skip) :
      name ∈ state.tensors.map Prod.fst ↔ name ∈ c.names := by
    rw [sound.map_fst read, List.mem_filter, Policy.shares, Bool.and_eq_true, List.contains_iff_mem]
    have agree := agree name counts
    simp only [List.contains_eq_mem, counts, decide_false, Bool.not_false, true_and]
    exact and_iff_left_of_imp agree.1
  have none := List.perm_nil.1 others
  rw [difference_of_shared (sound.shared read) (none ▸ List.nodup_nil), onlyIn_congr known, missing, none]
  rfl

/-- A merge that finds no difference does what it does without looking for one. -/
theorem mergeState_strict
    (same : (Policy.difference ⟨true, skip⟩ state.tensors target unread).isEmpty = true) :
    mergeState ⟨true, skip⟩ state target unread m = mergeState ⟨false, skip⟩ state target unread m := by
  have strict : reconcile ⟨true, skip⟩ (shifted m state.tensors) target unread =
      Policy.copying ⟨true, skip⟩ (shifted m state.tensors) target unread :=
    reconcile_of_agree fun _ => same
  have lenient : reconcile ⟨false, skip⟩ (shifted m state.tensors) target unread =
      Policy.copying ⟨true, skip⟩ (shifted m state.tensors) target unread :=
    reconcile_of_agree nofun
  cases result : reconcile ⟨false, skip⟩ (shifted m state.tensors) target unread (joined m state) with
  | ok merge all =>
    rw [mergeState_of_ok result]
    rw [lenient, ← strict] at result
    exact mergeState_of_ok result
  | error e all =>
    rw [mergeState_of_error result]
    rw [lenient, ← strict] at result
    exact mergeState_of_error result

theorem FileFormat.catalogue_strict (format : FileFormat) (config : Config) (skip names : List Text) :
    format.catalogue config ⟨true, skip⟩ names = format.catalogue config ⟨false, skip⟩ names := by
  cases format <;> rfl

/-- Reading compares the names between listing and fetching. -/
theorem FileFormat.perform_read (listed : (format.catalogue config policy names).perform s = (.ok c, t)) :
    (format.read config policy names).perform s = match policy.check c.names names with
      | .ok () => c.fetch.perform t
      | .error e => (.error e, t) := by
  rw [read, perform_bind, listed]
  dsimp only
  rw [Policy.check]
  split
  · rw [perform_bind, perform_ofExcept]
    cases checkKeys c.names names policy.skip <;> rfl
  · rfl

theorem Agree.check_eq {loaded : List Text} (agree : Agree skip loaded names) :
    Policy.check ⟨true, skip⟩ loaded names = .ok () :=
  agree.checkKeys_eq

theorem FileFormat.perform_read_strict (agree : Agree skip c.names names)
    (listed : (format.catalogue config ⟨true, skip⟩ names).perform s = (.ok c, t)) :
    (format.read config ⟨true, skip⟩ names).perform s =
      (format.read config ⟨false, skip⟩ names).perform s := by
  rw [perform_read listed, agree.check_eq, perform_read (format.catalogue_strict config skip names ▸ listed)]
  rfl

theorem Bench.perform_merging_strict {b : Bench} (agree : Agree skip c.names (target.map Prod.fst))
    (listed : (format.catalogue config ⟨true, skip⟩ (target.map Prod.fst)).perform b.stream = (.ok c, t)) :
    (merging ⟨true, skip⟩ target (format.read config ⟨true, skip⟩ (target.map Prod.fst))).perform b =
      (merging ⟨false, skip⟩ target (format.read config ⟨false, skip⟩ (target.map Prod.fst))).perform b := by
  have sound := FileFormat.sound_catalogue listed
  rw [merging, merging, perform_bind, perform_bind, perform_onStream, perform_onStream,
    ← FileFormat.perform_read_strict agree listed, FileFormat.perform_read listed,
    agree.check_eq]
  cases read : c.fetch.perform t with
  | mk found rest =>
    cases found with
    | error e => rfl
    | ok found =>
      obtain ⟨state, unread⟩ := found
      dsimp only
      rw [perform_onMemory, perform_onMemory, perform, perform,
        mergeState_strict (sound.isEmpty_difference agree read)]

end Agreeing

section Loading

variable {format : FileFormat} {config : Config} {policy : Policy} {skip : List Text} {target : Module}
  {w : World} {source : Endpoint} {stream rest : Stream} {c : Catalogue}

/-- When the names agree, a strict load does what a load does that is not strict. -/
theorem Module.perform_loadAs_strict (reached : format.reached w source = .ok stream)
    (listed : (format.catalogue config ⟨true, skip⟩ (target.entries.map Prod.fst)).perform stream = (.ok c, rest))
    (agree : Agree skip c.names (target.entries.map Prod.fst)) :
    (target.loadAs format config ⟨true, skip⟩ source).perform w =
      (target.loadAs format config ⟨false, skip⟩ source).perform w := by
  rw [FileFormat.reached, bind_eq_ok] at reached
  obtain ⟨opened, opens, reached⟩ := reached
  cases format with
  | archive =>
    refine World.reading_congr fun opened' opens' => ?_
    cases opens.symm.trans opens'
    refine Bench.seekably_congr fun stream' reached' => ?_
    cases reached.symm.trans reached'
    rw [Archive.loadInto_eq, Archive.loadInto_eq]
    exact Bench.perform_merging_strict agree listed
  | safetensors =>
    cases reached
    have reading : (World.reading source (Bench.onStream
        (Safetensors.readFor config ⟨true, skip⟩ (target.entries.map Prod.fst)))).perform w =
        (World.reading source (Bench.onStream
          (Safetensors.readFor config ⟨false, skip⟩ (target.entries.map Prod.fst)))).perform w := by
      refine World.reading_congr fun opened' opens' => ?_
      cases opens.symm.trans opens'
      rw [Bench.perform_onStream, Bench.perform_onStream, ← Safetensors.read_eq, ← Safetensors.read_eq]
      dsimp only
      rw [FileFormat.perform_read_strict agree listed]
    rw [loadAs, loadAs, loadSafetensors, loadSafetensors, perform_bind, perform_bind, reading]
    cases done : (World.reading source (Bench.onStream
        (Safetensors.readFor config ⟨false, skip⟩ (target.entries.map Prod.fst)))).perform w with
    | mk found w₁ =>
      cases found with
      | error e => rfl
      | ok found =>
        obtain ⟨state, unread⟩ := found
        -- What has been read has come from the catalogue, so that its names agree.
        have yielded := World.yields_reading (World.closesAfter_of_ok done)
        rw [World.yields, done, opens] at yielded
        dsimp only at yielded
        rw [Bench.yields, Bench.perform_onStream, ← Safetensors.read_eq,
          ← FileFormat.perform_read_strict agree listed, FileFormat.perform_read listed,
          agree.check_eq] at yielded
        have fetched : c.fetch.perform rest = (.ok (state, unread), _) :=
          Prod.ext (congrArg Prod.fst yielded).symm rfl
        have same := (FileFormat.sound_catalogue listed).isEmpty_difference agree fetched
        dsimp only
        rw [World.perform_onMemory, World.perform_onMemory, perform, perform, mergeState_strict same]

/-- When the names agree, a load does not fail over them. -/
theorem outcome_of_agree {target : List (Text × Tensor)} {e : Error} {m' : Memory}
    (listed : format.listing config ⟨true, skip⟩ (target.map Prod.fst) w source = .ok (c, rest))
    (agree : Agree skip c.names (target.map Prod.fst))
    (failed : format.outcome config ⟨true, skip⟩ target w source = (.error e, m')) :
    ∀ missing unexpected, e ≠ .stateMismatch missing unexpected := by
  have sound := FileFormat.sound_listing listed
  have found : format.found config ⟨true, skip⟩ (target.map Prod.fst) w source = (c.fetch.perform rest).1 := by
    rw [FileFormat.found_eq, listed]
    exact congrArg (bind · fun _ => (c.fetch.perform rest).1) agree.check_eq
  rw [FileFormat.outcome, found] at failed
  cases read : c.fetch.perform rest with
  | mk r rest' =>
    rw [read] at failed
    cases r with
    | error e' =>
      cases failed
      rintro missing unexpected rfl
      obtain told | ⟨⟨⟩⟩ := ((sound.reads rest).of_error read).1
      exact told
    | ok r =>
      obtain ⟨state, unread⟩ := r
      dsimp only at failed
      rw [perform, mergeState_strict (sound.isEmpty_difference agree read)] at failed
      exact (mergeState_lenient rfl _ _ _ _).of_error failed

theorem outcome_of_not_agree {target : List (Text × Tensor)}
    (listed : format.listing config ⟨true, skip⟩ (target.map Prod.fst) w source = .ok (c, rest))
    (differ : ¬ Agree skip c.names (target.map Prod.fst)) :
    format.outcome config ⟨true, skip⟩ target w source =
      (.error (.stateMismatch (Text.sort (onlyIn skip (target.map Prod.fst) c.names))
        (Text.sort (onlyIn skip c.names (target.map Prod.fst)))), w.memory) := by
  have failed : Policy.check ⟨true, skip⟩ c.names (target.map Prod.fst) = .error _ :=
    checkKeys_of_not_agree differ
  have found := FileFormat.found_eq format config ⟨true, skip⟩ (target.map Prod.fst) w source
  rw [listed] at found
  simp only [bind, Except.bind, failed] at found
  rw [FileFormat.outcome, found]

/-- A strict load fails over the names if and only if they do not agree.  It tells those of each side on their
own, sorted; it has read nothing but what tells the names, and has changed neither the memory nor the report.
When the names agree, they are not found to differ later, and the load does what it does if it is not
strict. -/
theorem strict_load {report : Table Text Bool} (reached : format.reached w source = .ok stream)
    (listed : (format.catalogue config ⟨true, skip⟩ (target.entries.map Prod.fst)).perform stream =
      (.ok c, rest))
    (closes : World.ClosesAfter (target.loadAs format config ⟨true, skip⟩) source w) :
    let names := target.entries.map Prod.fst
    let loaded := (Recorded.entering (target.loadAs format config ⟨true, skip⟩ source)).perform ⟨w, report⟩
    let differ : Error := .stateMismatch (Text.sort (onlyIn skip names c.names))
      (Text.sort (onlyIn skip c.names names))
    ((∃ missing unexpected, loaded.1 = .error (.stateMismatch missing unexpected)) ↔
      ¬ Agree skip c.names names) ∧
    (¬ Agree skip c.names names → loaded.1 = .error differ ∧ loaded.2.world.memory = w.memory ∧
      loaded.2.report = report ∧
      (format.read config ⟨true, skip⟩ names).perform stream = (.error differ, rest) ∧
      format.ReadsNames config ⟨true, skip⟩ names c stream rest) ∧
    (Agree skip c.names names →
      (∀ state unread t, c.fetch.perform rest = (.ok (state, unread), t) →
        (Policy.difference ⟨true, skip⟩ state.tensors target.entries unread).require = .ok ()) ∧
      loaded = (Recorded.entering (target.loadAs format config ⟨false, skip⟩ source)).perform
        ⟨w, report⟩) := by
  intro names loaded differ
  have found : format.listing config ⟨true, skip⟩ names w source = .ok (c, rest) :=
    FileFormat.listing_of_catalogue reached listed
  have outcome := Module.yields_loadAs closes
  have performed : loaded = _ := Recorded.perform_entering _ w report
  have refused (apart : ¬ Agree skip c.names names) :
      World.yields (target.loadAs format config ⟨true, skip⟩ source) w = (.error differ, w.memory) :=
    outcome.trans (outcome_of_not_agree found apart)
  refine ⟨⟨?_, fun apart => ?_⟩, fun apart => ?_, fun agree => ⟨fun state unread t fetched => ?_, ?_⟩⟩
  · rintro ⟨missing, unexpected, failed⟩ agree
    rw [performed] at failed
    exact outcome_of_agree found agree (outcome.symm.trans (Prod.ext failed rfl)) missing unexpected rfl
  · rw [performed]
    exact ⟨_, _, congrArg Prod.fst (refused apart)⟩
  · have failed : ((target.loadAs format config ⟨true, skip⟩ source).perform w).1 = .error differ :=
      congrArg Prod.fst (refused apart)
    rw [performed, failed]
    refine ⟨rfl, congrArg Prod.snd (refused apart), rfl, ?_, FileFormat.readsNames_of_catalogue listed⟩
    have differs : Policy.check ⟨true, skip⟩ c.names names = .error differ := checkKeys_of_not_agree apart
    rw [FileFormat.perform_read listed, differs]
  · exact if_pos ((FileFormat.sound_catalogue listed).isEmpty_difference agree fetched)
  · rw [performed, Recorded.perform_entering, Module.perform_loadAs_strict reached listed agree]

end Loading

set_option maxRecDepth 100000 in
theorem strict_load_others :
    let w := archived (numbers "a" "b" 0 1 1)
    let target := numbers "b" "c" 1 1 1
    let loaded := (Recorded.entering (target.loadAs .archive {} ⟨true, []⟩ (.stream "s" true))).perform ⟨w, {}⟩
    loaded.1 = .error (.stateMismatch ["c"] ["a"]) ∧ loaded.2.world.memory = w.memory ∧
      loaded.2.report = {} ∧ ∃ stream c rest,
        FileFormat.archive.reached w (.stream "s" true) = .ok stream ∧
        FileFormat.archive.ReadsNames {} ⟨true, []⟩ (target.entries.map Prod.fst) c stream rest := by
  intro w target loaded
  have listing : (FileFormat.archive.listing {} ⟨true, []⟩ (target.entries.map Prod.fst) w
      (.stream "s" true)).toOption.map (·.1.names) = some (["a", "b"] : List Text) := by
    decide +kernel
  cases found : FileFormat.archive.listing {} ⟨true, []⟩ (target.entries.map Prod.fst) w (.stream "s" true) with
  | error e =>
    rw [found] at listing
    cases listing
  | ok r =>
    obtain ⟨c, rest⟩ := r
    rw [found] at listing
    have names : c.names = ["a", "b"] := Option.some.inj listing
    obtain ⟨stream, reached, listed⟩ := FileFormat.exists_of_listing found
    have missing : Text.sort (onlyIn [] (target.entries.map Prod.fst) c.names) = ["c"] := by
      rw [names]
      exact List.mergeSort_singleton _
    have unexpected : Text.sort (onlyIn [] c.names (target.entries.map Prod.fst)) = ["a"] := by
      rw [names]
      exact List.mergeSort_singleton _
    have differ : ¬ Agree [] c.names (target.entries.map Prod.fst) := by
      rw [names]
      exact fun agree => absurd ((agree "a" List.not_mem_nil).1 List.mem_cons_self) (by decide)
    obtain ⟨-, refused, -⟩ := strict_load reached listed (World.closesAfter_of_leavesOpen rfl _ _)
    obtain ⟨failed, memory, report, -, reads⟩ := refused differ
    rw [missing, unexpected] at failed
    exact ⟨failed, memory, report, stream, c, rest, reached, reads⟩

end Checkpoint
