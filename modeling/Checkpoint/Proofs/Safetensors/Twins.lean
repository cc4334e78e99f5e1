import Checkpoint.Proofs.Names
import Checkpoint.Proofs.Safetensors.Layout
import Checkpoint.Proofs.Safetensors.Reading
import Checkpoint.Proofs.Safetensors.Rejection
import Checkpoint.Proofs.Transfer.Stages
import Checkpoint.Proofs.Twins

/-! Twin files.  Of two streams that are at the same place the same header is read, and the same tensors, as long
as they are alike there. -/

namespace Checkpoint.Safetensors

open Effect Checkpoint.Stream

variable {healed : Prop} {S T s t : Stream} {config : Config}

/-! ### Headers -/

/-- No range of a header that has been read ends before it begins. -/
theorem ordered_readHeader {header : Header} (read : (readHeader config).perform s = (.ok header, t)) :
    ∀ e ∈ header.entries, e.start ≤ e.stop := by
  obtain ⟨_, _, decoded⟩ := exists_decode_of_readHeader read
  obtain ⟨_, -, parsed, -⟩ := Header.decode_eq_ok.1 decoded
  exact fun e he => (Header.sensible_of_ofText parsed e he).ordered

theorem synced_readPart (streams : Stream.Twins healed S T) (h : Level S T s t) {size : Nat}
    (alike : ReadAlike healed S T s.position (s.position + size)) :
    Synced (Told healed) (readPart size) s t fun a s' b t' =>
      (Level S T s' t' ∧ a = b) ∧ a = S.part s.position size ∧ s'.position = s.position + a.length := by
  refine ((streams.synced_read h.toAbreast h.position alike).mono ?_).describing _ (Told.of_excused _)
  rintro a s' b t' ⟨⟨h, rfl⟩, given, place, place'⟩
  exact ⟨⟨⟨h, place'.trans place.symm⟩, rfl⟩, given, place⟩

theorem synced_remaining (streams : Stream.Twins healed S T) (h : Level S T s t) :
    Synced (Told healed) remaining s t fun a s' b t' => Level S T s' t' ∧ a = b := by
  refine InStep.describing ?_ _ (Told.of_excused _)
  refine (streams.synced_seekable h.toAbreast).bind ?_
  rintro answer s₁ _ t₁ - ⟨⟨h₁, rfl⟩, place, place'⟩
  split
  · refine (streams.synced_tell h₁).bind ?_
    rintro position s₂ _ t₂ - ⟨h₂, ⟨told, -⟩, rfl, -⟩
    obtain rfl : t₁.position = position := by rw [place', told, place, h.position]
    refine (streams.synced_seekFromEnd h₂ 0).bind ?_
    rintro stop s₃ _ t₃ - ⟨h₃, rfl⟩
    refine (streams.synced_seek h₃ _).bind ?_
    rintro _ s₄ _ t₄ - ⟨h₄, -, back, back'⟩
    exact inStep_pure ⟨⟨h₄, back'.trans back.symm⟩, rfl⟩
  · exact inStep_pure ⟨⟨h₁, place'.trans (h.position.trans place.symm)⟩, rfl⟩

theorem synced_readHeader (streams : Stream.Twins healed S T) (h : Level S T s t)
    (alike : ReadAlike healed S T s.position (s.position + (Header.lengthSize + headerLength s))) :
    Synced (Told healed) (readHeader config) s t fun a s' b t' => Level S T s' t' ∧ a = b := by
  unfold readHeader
  refine (synced_readPart streams h (alike.within le_rfl (by omega))).bind ?_
  rintro start s₁ _ t₁ - ⟨⟨h₁, rfl⟩, given, place⟩
  refine inStep_unless fun eight => inStep_unless fun small => ?_
  have first : s₁.position = s.position + Header.lengthSize := by
    rw [place]
    exact congrArg _ (not_not.1 eight)
  have length : Bytes.fromLittleEndian start = headerLength s := by
    obtain ⟨_, _, rfl⟩ := h.left
    rw [given]
    rfl
  refine (synced_readPart streams h₁ (alike.within (by omega) (by omega))).bind ?_
  rintro bytes s₂ _ t₂ - ⟨⟨h₂, rfl⟩, -, -⟩
  refine inStep_unless fun whole => ?_
  refine (synced_remaining streams h₂).bind ?_
  rintro payload s₃ _ t₃ - ⟨h₃, rfl⟩
  cases Header.decode bytes payload with
  | ok header => exact inStep_pure ⟨h₃, rfl⟩
  | error e => exact inStep_throw e

/-! ### Tensors -/

theorem synced_discard (streams : Stream.Twins healed S T) (h : Level S T s t)
    (alike : AllAlike healed S T) (count : Nat) :
    Synced (Told healed) (discard count) s t fun _ s' _ t' => Level S T s' t' := by
  induction count using Nat.strongRecOn generalizing s t with
  | ind count ih =>
    rw [discard]
    split
    · exact inStep_pure h
    · refine (synced_readPart streams h (alike _ _)).bind ?_
      rintro part s₁ _ t₁ - ⟨⟨h₁, rfl⟩, -, -⟩
      split
      · exact inStep_throw _
      · exact ih _ (by omega) h₁

/-- A stream that can seek says where its payload starts. -/
theorem synced_payloadStart (streams : Stream.Twins healed S T) (h : Level S T s t) :
    Synced (Told healed) payloadStart s t fun a s' b t' => (Level S T s' t' ∧ a = b) ∧
      s'.position = s.position ∧ (S.mode = .seekable → a = some s.position) := by
  refine InStep.describing ?_ _ (Told.of_excused _)
  refine (streams.synced_seekable h.toAbreast).bind ?_
  rintro answer s₁ _ t₁ asked ⟨⟨h₁, rfl⟩, place, place'⟩
  have level : t₁.position = s₁.position := place'.trans (h.position.trans place.symm)
  split
  · refine (streams.synced_tell h₁).bind ?_
    rintro position s₂ _ t₂ - ⟨h₂, ⟨rfl, here⟩, rfl, here'⟩
    rw [level]
    exact inStep_pure ⟨⟨⟨h₂, by rw [here', level, here]⟩, rfl⟩, here.trans place, fun _ => by rw [place]⟩
  · next cannot =>
    refine inStep_pure ⟨⟨⟨h₁, level⟩, rfl⟩, place, fun mode => ?_⟩
    -- A stream that can seek has not said otherwise.
    obtain ⟨calls, position, rfl⟩ := h.left
    obtain ⟨_, _, looked, asked⟩ := perform_bind_eq_ok.1 asked
    cases looked
    rw [show (S.after calls S.content position).mode = .seekable from mode] at asked
    obtain ⟨_, _, -, asked⟩ := perform_bind_eq_ok.1 asked
    cases asked
    exact absurd rfl cannot

/-- Where entries are read from a position in the payload on, both streams are alike: everywhere, or, if they
can seek, in the ranges of the entries. -/
def RangesAlike (healed : Prop) (S T : Stream) (base : Option Nat) (place position : Nat)
    (entries : List Entry) : Prop :=
  AllAlike healed S T ∨ ∃ start, base = some start ∧ place = start + position ∧
    ∀ e ∈ entries, e.start ≤ e.stop ∧ ReadAlike healed S T (start + e.start) (start + e.stop)

theorem synced_advance (streams : Stream.Twins healed S T) (h : Level S T s t) {base : Option Nat}
    {position target : Nat} (alike : AllAlike healed S T ∨ base.isSome) :
    Synced (Told healed) (advance base position target) s t fun _ s' _ t' =>
      Level S T s' t' ∧ ∀ start, base = some start → s'.position = start + target := by
  unfold advance
  cases base with
  | some start =>
    refine ((streams.synced_seek h.toAbreast _).mono ?_).describing _ (Told.of_excused _)
    rintro _ s' _ t' ⟨h, -, place, place'⟩
    refine ⟨⟨h, place'.trans place.symm⟩, ?_⟩
    rintro _ ⟨⟩
    exact place
  | none =>
    obtain alike | ⟨⟨⟩⟩ := alike
    exact (synced_discard streams h alike _).mono fun _ _ _ _ h => ⟨h, nofun⟩

/-- Where the first entry starts, its bytes are alike. -/
theorem RangesAlike.within {e : Entry} {entries : List Entry} {base : Option Nat} {place : Nat}
    (h : RangesAlike healed S T base place e.start (e :: entries)) :
    ReadAlike healed S T place (place + e.size) := by
  obtain alike | ⟨start, -, rfl, ranges⟩ := h
  · exact alike _ _
  · obtain ⟨ordered, alike⟩ := ranges e List.mem_cons_self
    refine alike.within (by omega) ?_
    unfold Entry.size
    omega

/-- Behind the first entry the others follow. -/
theorem RangesAlike.behind {e : Entry} {entries : List Entry} {base : Option Nat} {place : Nat}
    (h : RangesAlike healed S T base place e.start (e :: entries)) :
    RangesAlike healed S T base (place + e.size) e.stop entries := by
  refine h.imp id ?_
  rintro ⟨start, based, rfl, ranges⟩
  obtain ⟨⟨ordered, -⟩, others⟩ := List.forall_mem_cons.1 ranges
  refine ⟨start, based, ?_, others⟩
  unfold Entry.size
  omega

/-- An entry that is gone to first is read from there. -/
theorem readEntries_apart {e : Entry} {entries : List Entry} {base : Option Nat} {position : Nat}
    (apart : e.start ≠ position) : readEntries base position (e :: entries) =
      advance base position e.start >>= fun _ => readEntries base e.start (e :: entries) := by
  rw [readEntries, readEntries, if_pos apart, if_neg (not_not.2 rfl)]

theorem synced_readEntries (streams : Stream.Twins healed S T) (h : Level S T s t) {base : Option Nat}
    {position : Nat} {entries : List Entry}
    (alike : RangesAlike healed S T base s.position position entries) :
    Synced (Told healed) (readEntries base position entries) s t fun a s' b t' =>
      Level S T s' t' ∧ a = b := by
  induction entries generalizing position s t with
  | nil => exact inStep_pure ⟨h, rfl⟩
  | cons e entries ih =>
    -- The entry itself, once its start has been gone to.
    have here {s t : Stream} (h : Level S T s t)
        (alike : RangesAlike healed S T base s.position e.start (e :: entries)) :
        Synced (Told healed) (readEntries base e.start (e :: entries)) s t fun a s' b t' =>
          Level S T s' t' ∧ a = b := by
      rw [readEntries, if_neg (not_not.2 rfl)]
      refine (synced_readPart streams h alike.within).bind ?_
      rintro data s₁ _ t₁ - ⟨⟨h₁, rfl⟩, -, behind⟩
      refine inStep_unless fun whole => ?_
      rw [not_not.1 whole] at behind
      have others : Synced (Told healed) (do
          let others ← readEntries base e.stop entries
          return (e, data) :: others) s₁ t₁ fun a s' b t' => Level S T s' t' ∧ a = b := by
        refine (ih h₁ (behind ▸ alike.behind)).bind ?_
        rintro parts s₂ _ t₂ - ⟨h₂, rfl⟩
        exact inStep_pure ⟨h₂, rfl⟩
      split
      · exact inStep_ofExcept _ fun _ _ => others
      · exact others
    by_cases near : e.start = position
    · subst near
      exact here h alike
    · rw [readEntries_apart near]
      refine (synced_advance streams h (alike.imp id ?_)).bind ?_
      · rintro ⟨_, based, -⟩
        exact based ▸ rfl
      rintro _ s₁ _ t₁ - ⟨h₁, gone⟩
      refine here h₁ (alike.imp id ?_)
      rintro ⟨start, based, -, ranges⟩
      exact ⟨start, based, gone start based, ranges⟩

/-- The tensors that are asked for are read in step: from streams that are alike everywhere or, if they can seek,
where these tensors are. -/
theorem synced_loadPayload (streams : Stream.Twins healed S T) (h : Level S T s t) {header : Header}
    {keys : Option (List Text)}
    (alike : AllAlike healed S T ∨ S.mode = .seekable ∧ ∀ e ∈ header.selected keys,
      e.start ≤ e.stop ∧ ReadAlike healed S T (s.position + e.start) (s.position + e.stop)) :
    Synced (Told healed) (loadPayload header keys) s t fun a s' b t' => Level S T s' t' ∧ a = b := by
  refine (synced_payloadStart streams h).bind ?_
  rintro base s₁ _ t₁ - ⟨⟨h₁, rfl⟩, place, seekable⟩
  have ranges : RangesAlike healed S T base s₁.position 0 (header.selected keys) :=
    alike.imp id fun ⟨mode, ranges⟩ => ⟨s.position, seekable mode, place, ranges⟩
  refine (synced_readEntries streams h₁ ranges).bind ?_
  rintro parts s₂ _ t₂ - ⟨h₂, rfl⟩
  exact inStep_pure ⟨h₂, rfl⟩

/-- Reading for a target, the payload is read only when the names have been compared, and then only where the
tensors are that are shared. -/
theorem synced_readFor (streams : Stream.Twins healed S T) (h : Level S T s t) {policy : Policy}
    {target : List Text}
    (front : ReadAlike healed S T s.position (s.position + (Header.lengthSize + headerLength s)))
    (payload : AllAlike healed S T ∨ S.mode = .seekable ∧ ∀ header s',
      (readHeader config).perform s = (.ok header, s') → policy.check header.names target = .ok () →
        ∀ e ∈ header.entries, policy.shares target e.name = true →
          ReadAlike healed S T (s'.position + e.start) (s'.position + e.stop)) :
    Synced (Told healed) (readFor config policy target) s t fun a s' b t' => Level S T s' t' ∧ a = b := by
  refine (synced_readHeader streams h front).bind ?_
  rintro header s₁ _ t₁ read ⟨h₁, rfl⟩
  have load (checked : policy.check header.names target = .ok ()) : Synced (Told healed) (do
      let state ← loadPayload header (some
        ((header.names.filter fun name => !policy.skip.contains name).filter target.contains))
      return (state, (header.names.filter fun name => !policy.skip.contains name).filter
        fun name => !target.contains name)) s₁ t₁ fun a s' b t' => Level S T s' t' ∧ a = b := by
    refine (synced_loadPayload streams h₁ (payload.imp id ?_)).bind ?_
    · rintro ⟨mode, ranges⟩
      refine ⟨mode, fun e he => ?_⟩
      obtain ⟨listed, named⟩ := List.mem_filter.1 he
      have entered := Header.mem_inFileOrder.1 listed
      refine ⟨ordered_readHeader read e entered, ranges header s₁ read checked e entered ?_⟩
      obtain ⟨counts, wanted⟩ := List.mem_filter.1 (List.contains_iff_mem.1 named)
      rw [Policy.shares, (List.mem_filter.1 counts).2, wanted]
      rfl
    · rintro state s₂ _ t₂ - ⟨h₂, rfl⟩
      exact inStep_pure ⟨h₂, rfl⟩
  dsimp only
  split
  · next strict =>
    refine inStep_ofExcept _ fun _ checked => load ?_
    rw [Policy.check, if_pos strict, ← checked]
    exact (checkKeys_congr (.refl _) target).symm
  · next lenient => exact load (if_neg lenient)

end Checkpoint.Safetensors
