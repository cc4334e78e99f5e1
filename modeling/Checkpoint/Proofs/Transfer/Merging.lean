import Checkpoint.Proofs.Transfer.Stages

/-! Loads that have been done.  The tensors that both sides have are copied, each once and as a whole, in the
order of the source; nothing else is written, and the report tells of each name in the source. -/

namespace Checkpoint

open Effect

/-! ### The report -/

theorem Table.get?_insertAll_const {κ ν : Type} [BEq κ] [LawfulBEq κ] [DecidableEq κ] (keys : List κ)
    (value : ν) (t : Table κ ν) (key : κ) : (t.insertAll (keys.map (·, value))).get? key =
      if key ∈ keys then some value else t.get? key := by
  induction keys generalizing t with
  | nil => rfl
  | cons first keys ih =>
    have entered : t.insertAll ((first :: keys).map (·, value)) =
        (t.insert first value).insertAll (keys.map (·, value)) := rfl
    rw [entered, ih]
    by_cases same : first = key
    · rw [same, get?_insert_self, if_pos List.mem_cons_self, ite_self]
    · rw [get?_insert_of_ne same]
      simp only [List.mem_cons, Ne.symm same, false_or]

/-- What a report tells after a merge: of the other names what it has told before. -/
theorem Merge.get?_fill (merge : Merge) (earlier : Table Text Bool) (name : Text) :
    (merge.fill earlier).get? name =
      if name ∈ merge.unexpected then some false
      else if name ∈ merge.copied then some true
      else earlier.get? name := by
  have parts : merge.fill earlier = (earlier.insertAll (merge.copied.map (·, true))).insertAll
      (merge.unexpected.map (·, false)) := List.foldl_append
  rw [parts, Table.get?_insertAll_const, Table.get?_insertAll_const]

section Merging

variable {format : FileFormat} {config : Config} {policy : Policy} {w w' : World} {source : Endpoint}
  {merge : Merge} {m m' : Memory} {target : List (Text × Tensor)} {c : Catalogue} {state : StateDict}

/-- What a merge has done with what has been read: it has copied all of it, in turn. -/
structure Merged (policy : Policy) (target : List (Text × Tensor)) (m : Memory) (c : Catalogue)
    (state : StateDict) (merge : Merge) (m' : Memory) : Prop where
  names : state.tensors.map Prod.fst = c.names.filter (policy.shares (target.map Prod.fst))
  fitting : ∀ named ∈ state.tensors, Fitting ⟨target⟩ named
  memory : m' = merged m state target state.tensors
  copied : merge.copied = state.tensors.map Prod.fst
  unexpected : merge.unexpected.Perm (onlyIn policy.skip c.names (target.map Prod.fst))

theorem outcome_of_ok (allocated : ∀ live ∈ target, live.2.storage < w.memory.buffers.length)
    (done : format.outcome config policy target w source = (.ok merge, m')) :
    ∃ c rest state unread rest',
      format.listing config policy (target.map Prod.fst) w source = .ok (c, rest) ∧
      c.fetch.perform rest = (.ok (state, unread), rest') ∧
      Merged policy target w.memory c state merge m' := by
  rw [FileFormat.outcome] at done
  cases read : format.found config policy (target.map Prod.fst) w source with
  | error e =>
    rw [read] at done
    cases done
  | ok incoming =>
    obtain ⟨state, unread⟩ := incoming
    rw [read] at done
    obtain ⟨c, rest, rest', listed, fetched⟩ := FileFormat.exists_of_found read
    have sound := FileFormat.sound_listing listed
    have shared := sound.shared fetched
    have others := sound.others fetched
    have fresh : (onlyIn policy.skip unread (target.map Prod.fst)).Nodup :=
      others.nodup_iff.2 (sound.distinct.sublist List.filter_sublist)
    obtain ⟨fitting, rfl, rfl⟩ := of_mergeState allocated done
    rw [kept_of_shared shared] at fitting
    refine ⟨c, rest, state, unread, rest', listed, fetched, ⟨sound.map_fst fetched, fitting, ?_, ?_, ?_⟩⟩
    · rw [kept_of_shared shared]
    · dsimp only
      rw [kept_of_shared shared, copied_of_shared shared]
    · rw [difference_of_shared shared fresh]
      exact others

namespace Merged

theorem mem_copied (h : Merged policy target m c state merge m') {name : Text} :
    name ∈ merge.copied ↔ name ∈ c.names ∧ name ∉ policy.skip ∧ name ∈ target.map Prod.fst := by
  rw [h.copied, h.names, List.mem_filter, Policy.shares, Bool.and_eq_true, Bool.not_eq_true',
    ← Bool.not_eq_true, List.contains_iff_mem, List.contains_iff_mem]

theorem mem_unexpected (h : Merged policy target m c state merge m') {name : Text} :
    name ∈ merge.unexpected ↔ name ∈ c.names ∧ name ∉ policy.skip ∧ name ∉ target.map Prod.fst := by
  rw [h.unexpected.mem_iff, mem_onlyIn]

/-- The report tells of each name in the source that counts whether the target has it. -/
theorem get?_fill (h : Merged policy target m c state merge m') (earlier : Table Text Bool) (name : Text) :
    (merge.fill earlier).get? name =
      if name ∈ c.names ∧ name ∉ policy.skip then some (decide (name ∈ target.map Prod.fst))
      else earlier.get? name := by
  rw [merge.get?_fill]
  by_cases listed : name ∈ c.names ∧ name ∉ policy.skip
  · by_cases known : name ∈ target.map Prod.fst <;> simp [h.mem_copied, h.mem_unexpected, listed, known]
  · have uncopied : name ∉ merge.copied := fun hn =>
      listed ⟨(h.mem_copied.1 hn).1, (h.mem_copied.1 hn).2.1⟩
    have expected : name ∉ merge.unexpected := fun hn =>
      listed ⟨(h.mem_unexpected.1 hn).1, (h.mem_unexpected.1 hn).2.1⟩
    rw [if_neg expected, if_neg uncopied, if_neg listed]

/-- Tensors that share no bytes with those that have been copied into are as they were. -/
theorem elements_of_disjoint (h : Merged policy target m c state merge m')
    (allocated : ∀ live ∈ target, live.2.storage < m.buffers.length)
    (held : ∀ live ∈ target, live.1 ∈ merge.copied → m.Holds live.2) {u : Tensor}
    (inside : u.storage < m.buffers.length)
    (apart : ∀ live ∈ target, live.1 ∈ merge.copied → live.2.Disjoint u) : m'.elements u = m.elements u := by
  have copied (named : Text × Tensor) (hn : named ∈ state.tensors) : named.1 ∈ merge.copied :=
    h.copied ▸ List.mem_map_of_mem hn
  have mergeable : Mergeable m target state.tensors :=
    ⟨fun named _ live found => allocated _ (Table.mem_entries_of_get? found),
      fun named hn live found => held _ (Table.mem_entries_of_get? found) (copied named hn)⟩
  rw [h.memory]
  exact mergeable.elements_of_disjoint inside fun named hn live found =>
    apart _ (Table.mem_entries_of_get? found) (copied named hn)

end Merged

/-- A load that has been done has copied the tensors that both sides have and that are not skipped, in the
order of the source, each once and as a whole.  Other tensors are as they were unless they share bytes with
these.  The report tells of each name in the source whether it has been copied, and of other names what it
has told before. -/
theorem load_merges {target : Module} {earlier later : Table Text Bool}
    (allocated : ∀ live ∈ target.entries, live.2.storage < w.memory.buffers.length)
    (held : ∀ live ∈ target.entries, w.memory.Holds live.2)
    (loaded : (Recorded.entering (target.loadAs format config policy source)).perform ⟨w, earlier⟩ =
      (.ok merge, ⟨w', later⟩)) :
    ∃ c rest state unread rest',
      format.listing config policy (target.entries.map Prod.fst) w source = .ok (c, rest) ∧
      c.fetch.perform rest = (.ok (state, unread), rest') ∧
      merge.copied = c.names.filter (policy.shares (target.entries.map Prod.fst)) ∧
      merge.copied.Nodup ∧ merge.copied = state.tensors.map Prod.fst ∧
      (∀ named ∈ state.tensors, Fitting ⟨target.entries⟩ named) ∧
      w'.memory = merged w.memory state target.entries state.tensors ∧
      (∀ u : Tensor, u.storage < w.memory.buffers.length →
        (∀ live ∈ target.entries, live.1 ∈ merge.copied → live.2.Disjoint u) →
          w'.memory.elements u = w.memory.elements u) ∧
      (∀ name, later.get? name =
        if name ∈ c.names ∧ name ∉ policy.skip then some (decide (name ∈ target.entries.map Prod.fst))
        else earlier.get? name) ∧
      ∀ name ∈ merge.copied, name ∉ merge.unexpected := by
  obtain ⟨loading, rfl⟩ := Recorded.eq_of_entering loaded
  have outcome := Module.yields_loadAs (Module.closesAfter_of_ok loading)
  rw [World.yields, loading] at outcome
  obtain ⟨c, rest, state, unread, rest', listed, fetched, h⟩ := outcome_of_ok allocated outcome.symm
  have copied : merge.copied = c.names.filter (policy.shares (target.entries.map Prod.fst)) :=
    h.copied.trans h.names
  refine ⟨c, rest, state, unread, rest', listed, fetched, copied, ?_, h.copied, h.fitting, h.memory, ?_,
    h.get?_fill earlier, ?_⟩
  · rw [copied]
    exact (FileFormat.sound_listing listed).distinct.sublist List.filter_sublist
  · exact fun u inside apart => h.elements_of_disjoint allocated (fun live hl _ => held live hl) inside apart
  · intro name hn unexpected
    exact (h.mem_unexpected.1 unexpected).2.2 (h.mem_copied.1 hn).2.2

end Merging

set_option maxRecDepth 100000 in
theorem load_merges_others :
    let w := archived (numbers "a" "b" 0 1 1)
    let target := numbers "b" "c" 1 1 1
    let loaded := (Recorded.entering (target.loadAs .archive {} { strict := false } (.stream "s" true))).perform
      ⟨w, ⟨[("d", true)]⟩⟩
    loaded.1 = .ok { copied := ["b"], missing := ["c"], unexpected := ["a"] } ∧
      loaded.2.world.memory.buffers = [[3, 4, 5], [4, 7, 8]] ∧
      loaded.2.report.entries = ([("d", true), ("b", true), ("a", false)] : List (Text × Bool)) ∧
      ∀ u : Tensor, u.storage < w.memory.buffers.length →
        (∀ live ∈ target.entries, live.1 = "b" → live.2.Disjoint u) →
          loaded.2.world.memory.elements u = w.memory.elements u := by
  intro w target loaded
  have done : loaded.1 = .ok { copied := ["b"], missing := ["c"], unexpected := ["a"] } ∧
      loaded.2.world.memory.buffers = [[3, 4, 5], [4, 7, 8]] ∧
      loaded.2.report.entries = ([("d", true), ("b", true), ("a", false)] : List (Text × Bool)) := by
    decide +kernel
  have inside : ∀ live ∈ target.entries, live.2.storage < w.memory.buffers.length ∧
      w.memory.Holds live.2 := by
    decide +kernel
  obtain ⟨_, _, _, _, _, -, -, -, -, -, -, -, frame, -⟩ :=
    load_merges (fun live hl => (inside live hl).1) (fun live hl => (inside live hl).2) (Prod.ext done.1 rfl)
  refine ⟨done.1, done.2.1, done.2.2, fun u allocated apart => frame u allocated fun live hl copied => ?_⟩
  exact apart live hl (List.mem_singleton.1 copied)

end Checkpoint
