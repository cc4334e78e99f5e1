import Checkpoint.Proofs.Archive.Twins
import Checkpoint.Proofs.Safetensors.Twins
import Checkpoint.Proofs.Transfer.Policy

/-! Data that nobody asked for.  Of two sources that differ only in what a target does not want, a load makes
the same: the same failure, or the same live tensors and the same report. -/

namespace Checkpoint

open Effect Checkpoint.Stream

/-! ### Sources that differ in nothing that is wanted -/

/-- Two archives have the same members, of the same sizes at the same places.  Only storages that belong to no
tensor that the target shares may differ, in their checksums and in whether their bytes can be read too. -/
structure Archive.Alike (config : Config) (policy : Policy) (target : List Text) (S T : Stream) : Prop where
  streams : Stream.Twins False S T
  directories : ∃ d d' s t, Zip.readDirectory.perform S = (.ok d, s) ∧
    Zip.readDirectory.perform T = (.ok d', t) ∧
      Directories False S T (fun key => ¬ Shares config policy target S key) d d'

/-- Two files that can be sought in have the same header and the same length.  If the header can be read and its
names are accepted, the ranges of the tensors that the target shares are the same. -/
structure Safetensors.Alike (config : Config) (policy : Policy) (target : List Text) (S T : Stream) : Prop where
  streams : Stream.Twins False S T
  mode : S.mode = .seekable
  position : T.position = S.position
  header : ReadAlike False S T S.position (S.position + (Header.lengthSize + headerLength S))
  payload : ∀ h s, (readHeader config).perform S = (.ok h, s) → policy.check h.names target = .ok () →
    ∀ e ∈ h.entries, policy.shares target e.name = true →
      ReadAlike False S T (s.position + e.start) (s.position + e.stop)

namespace FileFormat

def Alike (config : Config) (policy : Policy) (target : List Text) (S T : Stream) : FileFormat → Prop
  | .archive => Archive.Alike config policy target S T
  | .safetensors => Safetensors.Alike config policy target S T

end FileFormat

section Reading

variable {format : FileFormat} {config : Config} {policy : Policy} {target : List Text} {S T : Stream}

/-- Where no failure is excused, results are the same. -/
theorem fst_eq_of_inStep {α : Type} {x y : Action α} {Q : α → Stream → α → Stream → Prop}
    (h : InStep (Told False) x S y T Q) (same : ∀ a s b t, Q a s b t → a = b) :
    (x.perform S).1 = (y.perform T).1 := by
  obtain ⟨_, -, excused, -⟩ | equal := h.fst_eq same
  · exact excused.elim
  · exact equal

theorem Archive.Alike.readFor (alike : Archive.Alike config policy target S T) :
    ((Archive.readFor config policy target).perform S).1 =
      ((Archive.readFor config policy target).perform T).1 := by
  obtain ⟨d, d', s, t, listed, listed', directories⟩ := alike.directories
  have listing : Synced (Excused False) Zip.readDirectory S T fun d s d' t => Abreast S T s t ∧
      Directories False S T (fun key => ¬ Shares config policy target S key) d d' :=
    inStep_of_ok (perform_eq_ok.1 listed) (perform_eq_ok.1 listed')
      ⟨⟨(Zip.reads_readDirectory S).of_ok listed, (Zip.reads_readDirectory T).of_ok listed'⟩, directories⟩
  exact fst_eq_of_inStep (synced_readFor alike.streams listing fun _ shared unshared => unshared shared)
    fun _ _ _ _ related => related.2

theorem Safetensors.Alike.readFor (alike : Safetensors.Alike config policy target S T) :
    ((Safetensors.readFor config policy target).perform S).1 =
      ((Safetensors.readFor config policy target).perform T).1 :=
  fst_eq_of_inStep (synced_readFor alike.streams ⟨abreast_self S T, alike.position⟩ alike.header
    (.inr ⟨alike.mode, alike.payload⟩)) fun _ _ _ _ related => related.2

theorem FileFormat.Alike.read (alike : format.Alike config policy target S T) :
    ((format.read config policy target).perform S).1 = ((format.read config policy target).perform T).1 := by
  cases format with
  | archive =>
    rw [Archive.read_eq, fst_perform_bind_pure, fst_perform_bind_pure, Archive.Alike.readFor alike]
  | safetensors =>
    rw [Safetensors.read_eq, Safetensors.Alike.readFor alike]

end Reading

section Loading

variable {format : FileFormat} {config : Config} {policy : Policy} {target : Module} {w w' : World}
  {source source' : Endpoint} {S T : Stream}

theorem FileFormat.Alike.found (alike : format.Alike config policy (target.entries.map Prod.fst) S T)
    (reached : format.reached w source = .ok S) (reached' : format.reached w' source' = .ok T) :
    format.found config policy (target.entries.map Prod.fst) w source =
      format.found config policy (target.entries.map Prod.fst) w' source' := by
  rw [FileFormat.found, FileFormat.found, reached, reached']
  exact alike.read

/-- Loading from two sources that differ in nothing that is wanted does the same to the same live tensors and to
the same report. -/
theorem load_unwanted (reached : format.reached w source = .ok S)
    (reached' : format.reached w' source' = .ok T) (memory : w'.memory = w.memory)
    (closes : World.ClosesAfter (target.loadAs format config policy) source w)
    (closes' : World.ClosesAfter (target.loadAs format config policy) source' w')
    (alike : format.Alike config policy (target.entries.map Prod.fst) S T) (report : Table Text Bool) :
    let loaded := (Recorded.entering (target.loadAs format config policy source)).perform ⟨w, report⟩
    let loaded' := (Recorded.entering (target.loadAs format config policy source')).perform ⟨w', report⟩
    loaded'.1 = loaded.1 ∧ loaded'.2.world.memory = loaded.2.world.memory ∧
      loaded'.2.report = loaded.2.report := by
  intro loaded loaded'
  have same : World.yields (target.loadAs format config policy source') w' =
      World.yields (target.loadAs format config policy source) w := by
    rw [Module.yields_loadAs closes, Module.yields_loadAs closes', FileFormat.outcome, FileFormat.outcome,
      alike.found reached reached', memory]
  obtain ⟨result, left⟩ := Prod.mk.inj same
  have performed : loaded = _ := Recorded.perform_entering _ w report
  have performed' : loaded' = _ := Recorded.perform_entering _ w' report
  rw [performed, performed', result]
  exact ⟨rfl, left, rfl⟩

end Loading

/-! ### A storage that cannot be read -/

theorem Stream.twins_veil {S : Stream} (sound : S.failing = []) (start stop : Nat) :
    Stream.Twins False S (S.veil start stop) :=
  ⟨rfl, rfl, rfl, rfl, sound, .inr sound⟩

/-- Outside a part that cannot be read, a stream is like the same in which it can be. -/
theorem Stream.readAlike_veil {S : Stream} (readable : S.unreadable = none) {start stop first last : Nat}
    (apart : last ≤ start ∨ stop ≤ first) : ReadAlike False S (S.veil start stop) first last := by
  intro place size low high
  refine ⟨rfl, .inl ?_⟩
  have short := S.length_part_le place size
  have same : (S.veil start stop).part place size = S.part place size := rfl
  rw [blocked, blocked, same]
  simp only [blocks, veil, readable, Bool.and_eq_false_iff, decide_eq_false_iff_not]
  omega

deriving instance DecidableEq for Zip.Entry

deriving instance DecidableEq for Zip.Directory

/-- Two numbers, each of a storage of its own. -/
def twoNumbers : Module := .node
  [("a", { dtype := .uint8, shape := [1], stride := [1], offset := 0, storage := 0 }),
    ("b", { dtype := .uint8, shape := [1], stride := [1], offset := 0, storage := 1 })] [] [] []

/-- A world with an archive of them on a stream that offers so much and of which some bytes cannot be read. -/
def concealing (mode : StreamMode) (unreadable : Option (Nat × Nat)) : World :=
  let w := archived twoNumbers
  { w with streams := w.streams.insert "s" { content := (w.stream "s").content, mode, unreadable } }

theorem stream_concealing (mode : StreamMode) (unreadable : Option (Nat × Nat)) :
    (concealing mode unreadable).stream "s" =
      { content := ((archived twoNumbers).stream "s").content, mode, unreadable } :=
  World.stream_insert _ _ _ _

/-- The storage of the second number, from its header on. -/
def secondStorage : Nat × Nat := (417, 464)

set_option maxRecDepth 100000 in
/-- A stream that cannot seek is taken into memory as a whole, with all that nobody asked for. -/
theorem load_unwanted_forward :
    let load := twoNumbers.loadAs .archive {} ⟨true, ["b"]⟩ (.stream "s" true)
    (World.yields load (concealing .forward none)).1.isOk = true ∧
      (World.yields load (concealing .forward (some secondStorage))).1 = .error (.rawStream "injected bad region") := by
  decide +kernel

/-- The two streams that are read from. -/
def shown : Stream := { content := ((archived twoNumbers).stream "s").content, calls := [.seekable] }

def concealed : Stream := shown.veil secondStorage.1 secondStorage.2

set_option maxRecDepth 100000 in
/-- What is found in them: the same directory, in which every member ends in front of the second storage or is it,
and an object stream that refers to the second storage for nothing but the second number. -/
theorem found_shown :
    (Zip.readDirectory.perform concealed).1 = (Zip.readDirectory.perform shown).1 ∧
    ((Zip.readDirectory.perform shown).1.toOption.any fun d =>
      (Archive.findRoot (Archive.membersOf d)).toOption == some "archive/" && d.entries.all fun e =>
        e.name == "archive/data/1" || decide (e.stop shown ≤ secondStorage.1)) = true ∧
    (((Archive.decode {}).perform shown).1.toOption.all fun decoded => decoded.refs.all fun named =>
      !(Policy.shares ⟨true, ["b"]⟩ ["a", "b"] named.1) || named.2.storageKey != "1") = true := by
  decide +kernel

theorem not_shares_second : ¬ Archive.Shares {} ⟨true, ["b"]⟩ ["a", "b"] shown "1" := by
  obtain ⟨-, -, others⟩ := found_shown
  rintro ⟨decoded, s, done, named, listed, shared, second⟩
  rw [done] at others
  have other := List.all_eq_true.1 others named listed
  rw [shared, second] at other
  cases other

theorem directories_concealed : ∃ d s t, Zip.readDirectory.perform shown = (.ok d, s) ∧
    Zip.readDirectory.perform concealed = (.ok d, t) ∧
      Archive.Directories False shown concealed
        (fun key => ¬ Archive.Shares {} ⟨true, ["b"]⟩ ["a", "b"] shown key) d d := by
  obtain ⟨same, members, -⟩ := found_shown
  cases listed : Zip.readDirectory.perform shown with
  | mk r s =>
    cases listed' : Zip.readDirectory.perform concealed with
    | mk r' t =>
      rw [listed] at same members
      rw [listed'] at same
      obtain rfl : r = r' := same.symm
      cases r with
      | error e => cases members
      | ok d =>
        rw [Except.toOption, Option.any_some, Bool.and_eq_true, List.all_eq_true] at members
        obtain ⟨root, entries⟩ := members
        refine ⟨d, s, t, rfl, rfl, rfl, List.forall₂_same.2 fun e he => ⟨rfl, rfl, rfl, ?_⟩⟩
        obtain second | before := Bool.or_eq_true_iff.1 (entries e he)
        · refine .inl fun root' found => ⟨"1", not_shares_second, ?_⟩
          rw [found] at root
          obtain rfl : root' = "archive/" := Option.some.inj (eq_of_beq root)
          exact eq_of_beq second
        · exact .inr ⟨rfl, fun _ => Stream.readAlike_veil rfl (.inl (of_decide_eq_true before))⟩

/-- A target that skips the second number is loaded alike whether its storage can be read or not. -/
theorem load_unwanted_concealed :
    let w := concealing .seekable none
    let w' := concealing .seekable (some secondStorage)
    let load := Recorded.entering (twoNumbers.loadAs .archive {} ⟨true, ["b"]⟩ (.stream "s" true))
    (load.perform ⟨w', {}⟩).1 = (load.perform ⟨w, {}⟩).1 ∧
      (load.perform ⟨w', {}⟩).2.world.memory = (load.perform ⟨w, {}⟩).2.world.memory ∧
      (load.perform ⟨w', {}⟩).2.report = (load.perform ⟨w, {}⟩).2.report := by
  intro w w' load
  have reached : FileFormat.archive.reached w (.stream "s" true) = .ok shown := by
    change (FileFormat.archive.source.perform (w.stream "s")).1 = .ok shown
    rw [stream_concealing]
    rfl
  have reached' : FileFormat.archive.reached w' (.stream "s" true) = .ok concealed := by
    change (FileFormat.archive.source.perform (w'.stream "s")).1 = .ok concealed
    rw [stream_concealing]
    rfl
  obtain ⟨d, s, t, listed, listed', directories⟩ := directories_concealed
  have alike : FileFormat.archive.Alike {} ⟨true, ["b"]⟩ (twoNumbers.entries.map Prod.fst) shown concealed :=
    ⟨shown.twins_veil rfl _ _, d, d, s, t, listed, listed', directories⟩
  exact load_unwanted reached reached' rfl (World.closesAfter_of_leavesOpen rfl _ _)
    (World.closesAfter_of_leavesOpen rfl _ _) alike {}

end Checkpoint
