import Checkpoint.Proofs.Transfer.Stages

/-! Loads that fail.  All reading comes before the first copy, so that a load that fails has copied
nothing, unless it is a tensor that has ended it; then it has copied what comes before. -/

namespace Checkpoint

open Effect

/-! ### Reading -/

namespace FileFormat

variable {format : FileFormat} {config : Config} {policy : Policy} {target : List Text} {w : World}
  {source : Endpoint} {e : Error}

theorem reads_source (format : FileFormat) : format.source.Reads := by
  cases format with
  | archive =>
    refine Stream.reads_canSeek.bind fun answer => ?_
    split
    · exact reads_get
    · exact (Stream.reads_read none).bind fun _ => reads_pure _
  | safetensors => exact reads_get

theorem isReading_of_reached (h : format.reached w source = .error e) : e.IsReading := by
  rw [reached, bind_eq_error] at h
  obtain unopened | ⟨opened, -, unsought⟩ := h
  · exact World.isReading_of_opened unopened
  · exact ((format.reads_source opened).of_error (Prod.ext unsought rfl)).1

theorem isReading_of_listing (h : format.listing config policy target w source = .error e) :
    e.IsReading := by
  rw [listing, bind_eq_error] at h
  obtain unreached | ⟨stream, -, h⟩ := h
  · exact isReading_of_reached unreached
  · cases listed : (format.catalogue config policy target).perform stream with
    | mk r rest =>
      rw [listed] at h
      cases r with
      | ok => cases h
      | error e =>
        cases h
        exact ((format.reads_catalogue config policy target stream).of_error listed).1.isReading

/-- Reading does not fail over the shape of a tensor. -/
theorem shape_ne_of_found (h : format.found config policy target w source = .error e)
    (name : Text) (shape live : List Nat) : e ≠ .shapeMismatch name shape live := by
  have reading {e : Error} (h : e.IsReading) : e ≠ .shapeMismatch name shape live := by
    rintro rfl
    exact h
  rw [found_eq, bind_eq_error] at h
  obtain unlisted | ⟨⟨c, rest⟩, listed, h⟩ := h
  · exact reading (isReading_of_listing unlisted)
  have fetches (failed : (c.fetch.perform rest).1 = .error e) : e ≠ .shapeMismatch name shape live := by
    obtain told | rfl := (((sound_listing listed).reads rest).of_error (Prod.ext failed rfl)).1
    · exact reading told.isReading
    · nofun
  obtain differ | ⟨-, -, failed⟩ := bind_eq_error.1 h
  · obtain ⟨-, -, rfl⟩ := policy.check_eq_error.1 differ
    nofun
  · exact fetches failed

end FileFormat

/-! ### What has been copied -/

/-- A merge has ended at the first tensor whose shape is not that of the live one, and the tensors in front of
it have been merged. -/
def EndsAt (policy : Policy) (target : List (Text × Tensor)) (state : StateDict) (name : Text)
    (shape live : List Nat) (m m' : Memory) : Prop :=
  ∃ before source after into merge, state.tensors = before ++ (name, source) :: after ∧
    (∀ named ∈ before, Fitting ⟨target⟩ named) ∧ Table.get? ⟨target⟩ name = some into ∧
    source.shape = shape ∧ into.shape = live ∧ shape ≠ live ∧
    (mergeState { policy with strict := false } { state with tensors := before } target []).perform m =
      (.ok merge, m') ∧ merge.copied = before.map Prod.fst

section Merging

variable {policy : Policy} {target : List (Text × Tensor)} {state : StateDict} {unread : List Text}
  {m m' : Memory} {e : Error}

/-- A merge fails over the names, which leaves the memory alone, over a shape, or over a live tensor that repeats elements. -/
theorem merge_failure (allocated : ∀ named ∈ target, named.2.storage < m.buffers.length)
    (shared : ∀ named ∈ state.tensors, policy.shares (target.map Prod.fst) named.1 = true)
    (failed : (mergeState policy state target unread).perform m = (.error e, m')) :
    (m' = m ∧ ∃ missing unexpected, e = .stateMismatch missing unexpected) ∨
      (∃ name shape live, e = .shapeMismatch name shape live ∧
        EndsAt policy target state name shape live m m') ∨
      ∃ named ∈ target, named.1 ∉ policy.skip ∧ named.2.repeatsElements = true ∧
        e = .tensorFault .repeatedElements := by
  obtain nothing | ⟨before, named, after, live, merge, kept, merges, found, why⟩ :=
    mergeState_failure allocated failed
  · exact .inl nothing
  rw [kept_of_shared shared] at kept
  cases why with
  | shape differ =>
    have front : ∀ named ∈ before, policy.shares (target.map Prod.fst) named.1 = true :=
      fun named hn => shared named (kept ▸ List.mem_append_left _ hn)
    have all : Policy.kept { policy with strict := false } before = before := kept_of_shared front
    obtain ⟨fitting, rfl, -⟩ := of_mergeState allocated merges
    rw [all] at fitting
    refine .inr (.inl ⟨_, _, _, rfl, before, named.2, after, live, _, kept, fitting, found, rfl, rfl,
      differ, merges, ?_⟩)
    dsimp only
    rw [all]
    exact copied_of_shared front
  | repeats _ repeats =>
    have counted := shared named (kept ▸ List.mem_append_right _ List.mem_cons_self)
    refine .inr (.inr ⟨_, Table.mem_entries_of_get? found, ?_, repeats, rfl⟩)
    simpa using (Bool.and_eq_true_iff.1 counted).1

end Merging

/-! ### Loads -/

section Loading

variable {format : FileFormat} {config : Config} {policy : Policy} {target : Module} {w w' : World}
  {source : Endpoint} {e : Error}

/-- What has been found, where a load fails over the shape of a tensor. -/
def FileFormat.Stops (format : FileFormat) (config : Config) (policy : Policy)
    (target : List (Text × Tensor)) (w : World) (source : Endpoint) (name : Text) (shape live : List Nat)
    (m' : Memory) : Prop :=
  ∃ c rest state unread rest',
    format.listing config policy (target.map Prod.fst) w source = .ok (c, rest) ∧
    c.fetch.perform rest = (.ok (state, unread), rest') ∧
    (shapesOf state.tensors = c.listed.filter fun named =>
      policy.shares (target.map Prod.fst) named.1) ∧
    EndsAt policy target state name shape live w.memory m'

theorem outcome_failure {m' : Memory}
    (allocated : ∀ named ∈ target.entries, named.2.storage < w.memory.buffers.length)
    (failed : format.outcome config policy target.entries w source = (.error e, m')) :
    ((∀ name shape live, e ≠ .shapeMismatch name shape live) →
      (∀ named ∈ target.entries, named.1 ∉ policy.skip → named.2.repeatsElements = false) →
        m' = w.memory) ∧
      ∀ name shape live, e = .shapeMismatch name shape live →
        format.Stops config policy target.entries w source name shape live m' := by
  rw [FileFormat.outcome] at failed
  cases read : format.found config policy (target.entries.map Prod.fst) w source with
  | error e' =>
    rw [read] at failed
    cases failed
    exact ⟨fun _ _ => rfl, fun name shape live same =>
      absurd same (FileFormat.shape_ne_of_found read name shape live)⟩
  | ok incoming =>
    obtain ⟨state, unread⟩ := incoming
    rw [read] at failed
    obtain ⟨c, rest, rest', listed, fetched⟩ := FileFormat.exists_of_found read
    have sound := FileFormat.sound_listing listed
    obtain ⟨rfl, _, _, rfl⟩ | ⟨name, shape, live, rfl, ends⟩ | ⟨named, hn, counts, repeats, rfl⟩ :=
      merge_failure allocated (sound.shared fetched) failed
    · refine ⟨fun _ _ => rfl, ?_⟩
      rintro _ _ _ ⟨⟩
    · refine ⟨fun other => absurd rfl (other _ _ _), ?_⟩
      rintro _ _ _ ⟨⟩
      exact ⟨c, rest, state, unread, rest', listed, fetched, sound.shapes fetched, ends⟩
    · refine ⟨fun _ single => ?_, ?_⟩
      · cases repeats.symm.trans (single named hn counts)
      · rintro _ _ _ ⟨⟩

/-- A load that fails leaves the report alone.  It leaves the memory alone too, as long as no live tensor
repeats elements, unless a tensor has not the shape of the live one: then the tensors in front of the first
such one have been copied, in the order of the source, and no others. -/
theorem load_failure {earlier later : Table Text Bool}
    (allocated : ∀ named ∈ target.entries, named.2.storage < w.memory.buffers.length)
    (closes : World.ClosesAfter (target.loadAs format config policy) source w)
    (failed : (Recorded.entering (target.loadAs format config policy source)).perform ⟨w, earlier⟩ =
      (.error e, ⟨w', later⟩)) :
    later = earlier ∧
      ((∀ name shape live, e ≠ .shapeMismatch name shape live) →
        (∀ named ∈ target.entries, named.1 ∉ policy.skip → named.2.repeatsElements = false) →
          w'.memory = w.memory) ∧
      ∀ name shape live, e = .shapeMismatch name shape live →
        format.Stops config policy target.entries w source name shape live w'.memory := by
  obtain ⟨loading, rfl⟩ := Recorded.eq_of_entering failed
  have outcome := Module.yields_loadAs closes
  rw [World.yields, loading] at outcome
  exact ⟨rfl, outcome_failure allocated outcome.symm⟩

end Loading

set_option maxRecDepth 100000 in
theorem load_failure_wider :
    let loaded := (Recorded.entering ((numbers "a" "b" 1 2 1).loadAs .archive {} {} (.stream "s" true))).perform
      ⟨archived (numbers "a" "b" 0 1 1), {}⟩
    loaded.1 = .error (.shapeMismatch "b" [1] [2]) ∧ loaded.2.report = {} ∧
      FileFormat.archive.Stops {} {} (numbers "a" "b" 1 2 1).entries (archived (numbers "a" "b" 0 1 1)) (.stream "s" true)
        "b" [1] [2] loaded.2.world.memory := by
  have failed : ((Recorded.entering ((numbers "a" "b" 1 2 1).loadAs .archive {} {} (.stream "s" true))).perform
      ⟨archived (numbers "a" "b" 0 1 1), {}⟩).1 = .error (.shapeMismatch "b" [1] [2]) := by
    decide +kernel
  have allocated : ∀ named ∈ (numbers "a" "b" 1 2 1).entries,
      named.2.storage < (archived (numbers "a" "b" 0 1 1)).memory.buffers.length := by
    decide +kernel
  obtain ⟨same, -, stops⟩ := load_failure allocated (World.closesAfter_of_leavesOpen rfl _ _)
    (Prod.ext failed rfl)
  exact ⟨failed, same, stops _ _ _ rfl⟩

set_option maxRecDepth 100000 in
/-- A live tensor that repeats an element is refused when what comes before it has been copied. -/
theorem load_failure_repeating :
    let loaded := (Recorded.entering ((numbers "a" "b" 1 2 0).loadAs .archive {} {} (.stream "s" true))).perform
      ⟨archived (numbers "a" "b" 0 2 1), {}⟩
    (archived (numbers "a" "b" 0 2 1)).memory.buffers = [[3, 4, 5], [6, 7, 8]] ∧
      (loaded.1, loaded.2.world.memory.buffers) =
        (.error (.tensorFault .repeatedElements), [[3, 4, 5], [3, 7, 8]]) := by
  refine ⟨?_, ?_⟩
  all_goals decide +kernel

end Checkpoint
