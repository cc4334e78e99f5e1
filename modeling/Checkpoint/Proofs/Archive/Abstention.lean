import Checkpoint.Proofs.Archive.Saving
import Checkpoint.Proofs.Outcomes
import Checkpoint.Proofs.Pickle.StorageKeys
import Checkpoint.Proofs.Stream.Placing

/-! Saves that fail.  The object stream is complete before the archive is begun, and once it is begun
nothing but the stream refuses a record whose name and padding fit their fields: what fails for another
reason has not touched the stream. -/

namespace Checkpoint

open Effect

namespace Zip.Writer

theorem failsBy_position : FailsBy Error.IsStreamFault position := by
  apply failsBy_get
  intro w
  split
  · exact failsBy_pure _
  · exact Stream.failsBy_tell.focus

theorem failsBy_put (bytes : Bytes) : FailsBy Error.IsStreamFault (put bytes) :=
  (Stream.failsBy_write bytes).focus.bind fun _ => failsBy_modify _

theorem failsBy_goTo (place : Nat) : FailsBy Error.IsStreamFault (goTo place) := by
  apply failsBy_get
  intro w
  split
  · exact (Stream.failsBy_seek place).focus
  · exact failsBy_pure _

theorem failsBy_finish (m : Member) : FailsBy Error.IsStreamFault (finish m) := by
  unfold finish
  dsimp only
  split
  · exact (failsBy_put _).bind fun _ => failsBy_position.bind fun _ => (failsBy_modify _).bind fun _ =>
      failsBy_modify _
  · exact failsBy_position.bind fun _ => (failsBy_modify _).bind fun _ =>
      (Stream.failsBy_seek _).focus.bind fun _ => (failsBy_put _).bind fun _ =>
      (Stream.failsBy_seek _).focus.bind fun _ => failsBy_modify _

/-- A member is refused by the stream, or because of its header. -/
theorem failsBy_add {P : Error → Prop} (faults : ∀ e : Error, e.IsStreamFault → P e) {name : Text}
    {extra : Bytes} (content : Bytes)
    (refused : ∀ m : Member, m.name = name → m.extra = extra → ∀ e, checkHeader m = .error e → P e) :
    FailsBy P (add name extra content) := by
  apply failsBy_get
  intro w
  dsimp only
  have written : FailsBy P (goTo w.directoryStart >>= fun _ => position >>= fun start =>
      let m : Member := {
        name, extra, headerOffset := start, described := !w.rewinds
        crc := (crc32 content).toNat, size := content.length }
      Effect.ofExcept (checkHeader m) >>= fun _ => put m.pendingHeader >>= fun _ =>
        Effect.andFinally (put content) (finish m)) :=
    ((failsBy_goTo _).mono faults).bind fun _ => (failsBy_position.mono faults).bind fun start =>
      -- The place is known only here, so the header is taken for one at any place.
      (failsBy_ofExcept (refused _ rfl rfl)).bind fun _ =>
      ((failsBy_put _).bind fun _ => (failsBy_put _).andFinally (failsBy_finish _)).mono faults
  split
  · exact (failsBy_throw (faults .closedStream trivial)).bind fun _ => written
  · exact written

theorem failsBy_writeDirectory : FailsBy Error.IsStreamFault writeDirectory := by
  have entry (m : Member) : FailsBy Error.IsStreamFault (putEntry m) :=
    (failsBy_put _).bind fun _ => (failsBy_put _).bind fun _ => (failsBy_put _).bind fun _ =>
      failsBy_put _
  rw [writeDirectory_eq]
  exact failsBy_get fun w => (failsBy_forM entry).bind fun _ => failsBy_position.bind fun _ =>
    failsBy_get fun _ => (failsBy_put _).bind fun _ => failsBy_put _

theorem failsBy_close : FailsBy Error.IsStreamFault close := by
  apply failsBy_get
  intro w
  split
  · exact failsBy_pure _
  · exact ((failsBy_goTo _).bind fun _ => failsBy_writeDirectory).andFinally (failsBy_modify _)

theorem failsBy_attempt {α : Type} {x : Action α} (h : FailsBy Error.IsStreamFault x) :
    FailsBy Error.IsStreamFault (attempt x) := by
  intro s
  unfold attempt
  rw [ensures_tryCatch, ensures_map]
  apply (h s).mono fun _ _ _ => trivial
  intro e t fault
  split
  · exact (ensures_pure _).2 trivial
  · exact (ensures_throw _).2 fault

theorem failsBy_create : FailsBy Error.IsStreamFault create := by
  refine (failsBy_attempt Stream.failsBy_tell).bind fun start? => ?_
  split
  · exact failsBy_get fun _ => failsBy_pure _
  · exact (failsBy_attempt (Stream.failsBy_seek _)).bind fun _ => failsBy_get fun _ => failsBy_pure _

end Zip.Writer

namespace Archive

open Pickle

/-- The greatest alignment whose padding always fits an extra field. -/
def paddingLimit : Nat := 65532

/-- A name has a strict form, and that fits its field. -/
structure Enterable (name : Text) : Prop where
  strict : name.IsStrict
  short : name.utf8.length ≤ 65535

theorem Enterable.checkHeader_eq {m : Zip.Member} (h : Enterable m.name) (padded : m.extra.length ≤ 65535) :
    Zip.Writer.checkHeader m = .ok () := by
  have front : m.storedName.points <+: m.name.points := List.takeWhile_prefix _
  have strict : m.storedName.IsStrict :=
    Text.isStrict_iff.2 fun c hc => Text.isStrict_iff.1 h.strict c (front.subset hc)
  have short : m.nameBytes.length ≤ m.name.utf8.length := (front.flatMap Text.utf8Point).length_le
  have named := h.short
  obtain ⟨checked, -⟩ | ⟨-, unwritable⟩ := Zip.Writer.checkHeader_eq strict
  · exact checked
  · exact absurd ⟨by omega, padded⟩ unwritable

namespace Writer

variable {w : Writer} {config : Config} {records : List (Text × Bytes)} {s : Stream}

theorem exists_paddingFor {name : Text} (aligned : w.config.storageAlignment ≤ paddingLimit)
    (strict : name.IsStrict) : ∃ extra, w.paddingFor name = .ok extra ∧ extra.length ≤ 65535 := by
  rw [paddingFor_eq w strict, padding]
  split
  · exact ⟨[], rfl, Nat.zero_le _⟩
  · next several =>
    dsimp only
    have below := Nat.mod_lt (w.config.storageAlignment -
      (w.zip.directoryStart + Zip.localHeaderSize + name.utf8.length + 4) % w.config.storageAlignment)
      (show w.config.storageAlignment > 0 by omega)
    unfold paddingLimit at aligned
    rw [if_neg (by omega)]
    refine ⟨_, rfl, ?_⟩
    simp only [List.length_append, List.length_cons, List.length_nil, Bytes.length_littleEndian,
      List.length_replicate]
    omega

/-- What refuses a record of this name, the stream apart, is of some kind. -/
structure RefusedBy (P : Error → Prop) (config : Config) (name : Text) : Prop where
  padding : ∀ w : Writer, w.config = config → ∀ e, w.paddingFor name = .error e → P e
  header : ∀ w : Writer, w.config = config → ∀ m : Zip.Member, m.name = name →
    w.paddingFor name = .ok m.extra → ∀ e, Zip.Writer.checkHeader m = .error e → P e

theorem refusedBy_of_fitting {P : Error → Prop} {name : Text}
    (aligned : config.storageAlignment ≤ paddingLimit) (fits : Enterable name) :
    RefusedBy P config name := by
  constructor
  · rintro w rfl e refused
    obtain ⟨extra, padded, -⟩ := exists_paddingFor aligned fits.strict
    cases padded.symm.trans refused
  · rintro w rfl m rfl padded e refused
    obtain ⟨extra, padded', within⟩ := exists_paddingFor aligned fits.strict
    cases padded.symm.trans padded'
    cases (fits.checkHeader_eq within).symm.trans refused

section Failures

variable {P : Error → Prop} (faults : ∀ e : Error, e.IsStreamFault → P e)

include faults

/-- What is done to the archive changes nothing else, and what the stream refuses is still the
stream's fault in the words of an archive. -/
theorem ensures_onZip {x : Effect Zip.Writer Unit} {describe : Text → StreamError}
    {Q : Unit → Writer → Prop} (h : FailsBy P x) (hq : ∀ z, Q () { w with zip := z }) :
    (describing describe (onZip x)).Ensures w Q fun e _ => P e := by
  unfold describing onZip
  rw [ensures_tryCatch, ensures_focus]
  apply (h w.zip).mono fun _ z _ => hq z
  intro e z failed
  split
  · exact (ensures_throw _).2 (faults _ trivial)
  · exact (ensures_throw _).2 failed

theorem ensures_writeRecord_new {name : Text} {data : Bytes}
    (refused : RefusedBy P w.config (w.root ++ name)) (new : w.root ++ name ∉ w.records) :
    (writeRecord name data).Ensures w
      (fun _ w' => w'.config = w.config ∧ w'.records = w.records ++ [w.root ++ name])
      fun e _ => P e := by
  unfold writeRecord
  rw [ensures_bind, ensures_get]
  dsimp only
  rw [if_neg (by simpa using new), ensures_bind]
  apply ensures_ofExcept
  · intro extra padded
    rw [ensures_bind]
    apply ensures_onZip faults
    · apply Zip.Writer.failsBy_add faults
      rintro m named rfl
      exact refused.header w rfl m named padded
    · intro z
      rw [ensures_modify]
      exact ⟨rfl, rfl⟩
  · exact refused.padding w rfl

theorem ensures_writeRecords_new (refused : ∀ record ∈ records, RefusedBy P w.config (w.root ++ record.1))
    (apart : (w.records ++ records.map fun record => w.root ++ record.1).Nodup) :
    (records.forM fun record => writeRecord record.1 record.2).Ensures w (fun _ _ => True)
      fun e _ => P e := by
  induction records generalizing w with
  | nil => exact (ensures_pure _).2 trivial
  | cons record records ih =>
    obtain ⟨first, rest⟩ := List.forall_mem_cons.1 refused
    rw [List.map_cons, ← List.singleton_append, ← List.append_assoc] at apart
    have new : w.root ++ record.1 ∉ w.records := by
      have front := (List.nodup_append.1 apart).1
      exact fun listed => (List.nodup_append.1 front).2.2 _ listed _ List.mem_cons_self rfl
    rw [ensures_forM_cons]
    apply (ensures_writeRecord_new faults first new).post
    rintro _ w' ⟨settings, listed⟩
    have root : w'.root = w.root := congrArg rootOf settings
    rw [← root] at rest apart
    exact ih (settings ▸ rest) (by rw [listed, ← root]; exact apart)

/-- Records with names of their own are refused by the stream, or by what refuses one of them. -/
theorem failsBy_writing (refused : ∀ record ∈ records, RefusedBy P config (rootOf config ++ record.1))
    (apart : (records.map Prod.fst).Nodup) :
    FailsBy P (writing config (records.forM fun record => writeRecord record.1 record.2)) := by
  have names : (records.map fun record => rootOf config ++ record.1).Nodup := by
    have joined := apart.map fun a b (same : rootOf config ++ a = rootOf config ++ b) =>
      Text.append_left_cancel same
    rwa [List.map_map] at joined
  intro s
  unfold writing create
  rw [ensures_bind, ensures_bind]
  apply (Zip.Writer.failsBy_create.mono faults s).post
  intro z t _
  rw [ensures_pure]
  have done : (Effect.andFinally (records.forM fun record => writeRecord record.1 record.2)
      close).Ensures { zip := z, config } (fun _ _ => True) fun e _ => P e := by
    have closed (w : Writer) : close.Ensures w (fun _ _ => True) fun e _ => P e :=
      ensures_onZip faults (Zip.Writer.failsBy_close.mono faults) fun _ => trivial
    rw [ensures_andFinally]
    apply (ensures_writeRecords_new (w := { zip := z, config }) faults refused names).mono
    · exact fun _ w _ => closed w
    · exact fun _ w failed => (closed w).post fun _ _ _ => failed
  split
  next result w hp =>
  rw [ensures_bind, ensures_set]
  apply ensures_check
  · rintro e rfl
    exact done.of_error hp
  · exact fun _ _ => (ensures_pure _).2 trivial

end Failures

end Writer

/-- A save that fails has failed to make the object stream, with nothing written, or else it is the stream
that fails: if the archive's name has a strict form, and names and padding fit their fields. -/
theorem save_abstains {config : Config} {g : Graph} {id : Nat} {s t : Stream} {e : Error}
    (strict : config.archiveName.IsStrict) (aligned : config.storageAlignment ≤ paddingLimit)
    (short : ∀ d, g.dump config id = .ok d → ∀ record ∈ recordsOf config g.memory d,
      (rootOf config ++ record.1).utf8.length ≤ 65535)
    (failed : (save config g id).perform s = (.error e, t)) :
    g.dump config id = .error e ∧ t = s ∨ e.IsStreamFault := by
  rw [save_eq, perform_bind_eq_error] at failed
  obtain failed | ⟨d, u, dumped, failed⟩ := failed
  · rw [perform_ofExcept, Prod.mk.injEq] at failed
    exact .inl ⟨failed.1, failed.2.symm⟩
  · rw [perform_ofExcept_eq_ok] at dumped
    have entered := Graph.entered_of_dump dumped.1
    have fits : ∀ record ∈ recordsOf config g.memory d, Enterable (rootOf config ++ record.1) :=
      fun record hr => ⟨(strict.append (by decide)).append (isName_recordsOf entered record hr).strict,
        short d dumped.1 record hr⟩
    exact .inr ((Writer.failsBy_writing (fun _ fault => fault)
      (fun record hr => Writer.refusedBy_of_fitting aligned (fits record hr)) (nodup_recordsOf entered)
      u).of_error failed)

/-- How a save fails, if it does, and what the stream has then. -/
def failure? (config : Config) (g : Graph) (id : Nat) (s : Stream) : Option (Error × Bytes) :=
  match (save config g id).perform s with
  | (.ok _, _) => none
  | (.error e, t) => some (e, t.content)

theorem exists_of_failure? {config : Config} {g : Graph} {id : Nat} {s : Stream} {e : Error}
    {content : Bytes} (h : failure? config g id s = some (e, content)) :
    ∃ t, (save config g id).perform s = (.error e, t) ∧ t.content = content := by
  unfold failure? at h
  split at h
  · cases h
  · next t failed =>
    cases h
    exact ⟨t, failed, rfl⟩

/-- A mapping of one name to a number, or to bytes, which are not written. -/
def numbered : Graph := { nodes := #[.text "a", .int 1, .dict [(0, 1)]] }
def unwritten : Graph := { nodes := #[.text "a", .bytes [1], .dict [(0, 1)]] }

/-- A stream with something on it, and one that refuses the fifth write. -/
def holding : Stream := { content := [1, 2, 3] }
def full : Stream := { content := [1, 2, 3], failing := [(.write, 5)] }

set_option maxRecDepth 100000 in
theorem save_abstains_unwritten :
    (∃ t, (save {} unwritten 2).perform holding =
        (.error (.unexpectedStructure (.cannotEncode "bytes")), t) ∧ t = holding) ∧
      ∃ d e t, numbered.dump {} 2 = .ok d ∧ (save {} numbered 2).perform full = (.error e, t) ∧
        e.IsStreamFault := by
  constructor
  · have stopped : failure? {} unwritten 2 holding =
        some (.unexpectedStructure (.cannotEncode "bytes"), [1, 2, 3]) := by
      decide +kernel
    obtain ⟨t, failed, -⟩ := exists_of_failure? stopped
    have none : (unwritten.dump {} 2).toOption.isNone = true := by
      decide +kernel
    refine ⟨t, failed, ?_⟩
    obtain ⟨-, same⟩ | fault := save_abstains (by decide) (by decide)
      (fun d dumped => by rw [dumped] at none; cases none) failed
    · exact same
    · exact fault.elim
  · have stopped : (failure? {} numbered 2 full).isSome = true := by
      decide +kernel
    have fits : (numbered.dump {} 2).toOption.map (fun d => (recordsOf {} numbered.memory d).all
        fun record => (rootOf {} ++ record.1).utf8.length ≤ 65535) = some true := by
      decide +kernel
    obtain ⟨⟨e, content⟩, stopped⟩ := Option.isSome_iff_exists.1 stopped
    obtain ⟨t, failed, -⟩ := exists_of_failure? stopped
    obtain ⟨d, dumped, short⟩ := exists_ok_of_map fits
    rw [List.all_eq_true] at short
    refine ⟨d, e, t, dumped, failed, ?_⟩
    obtain ⟨refused, -⟩ | fault := save_abstains (by decide) (by decide)
      (fun d' dumped' record hr => by
        cases dumped.symm.trans dumped'
        exact of_decide_eq_true (short record hr)) failed
    · rw [dumped] at refused
      cases refused
    · exact fault

/-- Padding for this alignment does not fit an extra field. -/
def wide : Config := { (default : Config) with storageAlignment := 100000 }

set_option maxRecDepth 100000 in
/-- Where the padding does not fit, the save is given up, and the archive ended on the stream. -/
theorem save_abstains_wide : ∃ t, (save wide { nodes := #[.dict []] } 0).perform holding =
    (.error .fieldOverflow, t) ∧ t.content ≠ holding.content := by
  have ended : failure? wide { nodes := #[.dict []] } 0 holding =
      some (.fieldOverflow, Zip.endRecord 0 0 0) := by
    decide +kernel
  obtain ⟨t, failed, content⟩ := exists_of_failure? ended
  refine ⟨t, failed, ?_⟩
  rw [content]
  decide

end Archive

end Checkpoint
