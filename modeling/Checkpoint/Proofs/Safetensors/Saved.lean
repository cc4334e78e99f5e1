import Checkpoint.Proofs.Safetensors.RoundTrip

/-! What a file that has been written tells of its tensors: writing succeeds for no others than those that
are read again. -/

namespace Checkpoint

open Effect

theorem exists_of_mapM {ε α β : Type} {f : α → Except ε β} {items : List α} {results : List β}
    (h : items.mapM f = .ok results) : ∀ a ∈ items, ∃ b, f a = .ok b := by
  induction items generalizing results with
  | nil => nofun
  | cons a items ih =>
    rw [List.mapM_cons, bind_eq_ok] at h
    obtain ⟨b, first, h⟩ := h
    rw [bind_eq_ok] at h
    obtain ⟨others, rest, -⟩ := h
    exact List.forall_mem_cons.2 ⟨⟨b, first⟩, ih rest⟩

namespace Text

theorem isStrict_append {a b : Text} : (a ++ b).IsStrict ↔ a.IsStrict ∧ b.IsStrict := by
  rw [isStrict_iff, isStrict_iff, isStrict_iff, points_append, List.forall_mem_append]

theorem isStrict_of_intercalate {separator : Text} {texts : List Text}
    (h : (intercalate separator texts).IsStrict) : ∀ t ∈ texts, t.IsStrict := by
  induction texts with
  | nil => nofun
  | cons t texts ih =>
    cases texts with
    | nil => exact List.forall_mem_singleton.2 h
    | cons u texts =>
      rw [intercalate, isStrict_append, isStrict_append] at h
      exact List.forall_mem_cons.2 ⟨h.1.1, ih h.2⟩
      all_goals nofun

end Text

namespace Json

open Text Value

/-- Surrogates are not escaped. -/
theorem escape_of_isSurrogate {c : CodePoint} (h : isSurrogate c = true) : escape c = [c] := by
  simp only [isSurrogate, Bool.and_eq_true, decide_eq_true_eq] at h
  have plain : ¬ (c = doubleQuote ∨ c = backslash) := by
    rintro (rfl | rfl) <;> revert h <;> decide
  have high : ¬ c.val < 0x20 := by
    omega
  rw [escape, if_neg plain, if_neg high]

theorem isStrict_of_literal {t : Text} (h : (literal t).IsStrict) : t.IsStrict := by
  rw [isStrict_iff] at h ⊢
  intro c hc
  rw [← Bool.not_eq_true]
  intro surrogate
  have shown : c ∈ (literal t).points := by
    rw [points_literal]
    refine List.mem_cons_of_mem _ (List.mem_append_left _ (List.mem_flatMap.2 ⟨c, hc, ?_⟩))
    rw [escape_of_isSurrogate surrogate]
    exact List.mem_singleton_self c
  rw [h c shown] at surrogate
  cases surrogate

theorem isStrict_of_object {entries : List (Text × Value)} (h : (Value.object entries).compact.IsStrict) :
    ∀ e ∈ entries, e.1.IsStrict ∧ e.2.compact.IsStrict := by
  rw [Value.compact, compactEntries_eq, isStrict_append, isStrict_append] at h
  intro e he
  have spelled := isStrict_of_intercalate h.1.2 _ (List.mem_map_of_mem he)
  rw [spelling, isStrict_append, isStrict_append] at spelled
  exact ⟨isStrict_of_literal spelled.1.1, spelled.2⟩

end Json

namespace Safetensors

open Json (Value)

theorem Header.strict_of_isStrict {h : Header} (tagged : ∀ e ∈ h.entries, e.dtype.tag?.isSome = true)
    (strict : (Value.object h.fields).compact.IsStrict) : h.Strict := by
  have fields := Json.isStrict_of_object strict
  simp only [Header.fields, List.forall_mem_append, List.forall_mem_map, Option.mem_toList] at fields
  refine ⟨tagged, ?_, fun pairs hp pair hq => ?_⟩
  · rw [Header.names, List.forall_mem_map]
    exact fun e he => (fields.2 e he).1
  · have texts := Json.isStrict_of_object (fields.1 pairs hp).2
    rw [List.forall_mem_map] at texts
    obtain ⟨key, value⟩ := texts pair hq
    exact ⟨key, Json.isStrict_of_literal value⟩

theorem Header.of_encode {h : Header} {config : Config} {bytes : Bytes}
    (tagged : ∀ e ∈ h.entries, e.dtype.tag?.isSome = true) (encoded : h.encode config = .ok bytes) :
    h.Strict ∧ h.body.length ≤ config.maxHeaderSize := by
  rw [encode, toText_eq tagged] at encoded
  simp only [bind, Except.bind] at encoded
  split at encoded
  · cases encoded
  · next utf8 found =>
    obtain ⟨strict, rfl⟩ := Text.eq_of_strictUtf8? found
    split at encoded
    · cases encoded
    · next fits => exact ⟨strict_of_isStrict tagged strict, Nat.le_of_not_lt fits⟩

section Saved

variable {config : Config} {memory : Memory} {metadata : Option (List (Text × Text))}
  {tensors : List (Text × Tensor)} {s t : Stream}

theorem of_named_tensor {name : Text} {t u : Tensor} (h : (Named.ofTensor name t).tensor = .ok u) :
    name ≠ metadataKey ∧ t.isContiguous = true ∧ t.dtype.tag?.isSome = true := by
  unfold Named.tensor Named.isReserved Named.ofTensor at h
  cases reserved : name == metadataKey with
  | true =>
    simp only [bind, Except.bind, reserved, if_true] at h
    cases h
  | false =>
    cases contiguous : t.isContiguous with
    | false =>
      simp only [bind, Except.bind, reserved, contiguous, Bool.false_eq_true, if_false] at h
      cases h
    | true =>
      cases untagged : t.dtype.tag?.isNone with
      | true =>
        simp only [bind, Except.bind, reserved, contiguous, untagged, Bool.false_eq_true, if_false,
          if_true] at h
        cases h
      | false =>
        refine ⟨beq_eq_false_iff_ne.1 reserved, rfl, ?_⟩
        rw [← Option.not_isNone, untagged]
        rfl

theorem adjacent_of_flat {t : Tensor} {bytes : Bytes} (h : memory.flat t = .ok bytes) : t.Adjacent := by
  intro single wide
  rw [Memory.flat, Tensor.spacing?, if_pos single] at h
  dsimp only at h
  split at h
  · cases h
  · next even =>
    by_contra apart
    exact even ⟨by rw [single]; exact Nat.one_ne_zero, wide, apart⟩

theorem adjacent_of_writePayload {tensors : List Tensor} {total : Nat}
    (written : (writePayload memory tensors).perform s = (.ok total, t)) :
    ∀ u ∈ tensors, u.Adjacent := by
  induction tensors generalizing s t total with
  | nil => nofun
  | cons u tensors ih =>
    rw [writePayload, perform_bind_eq_ok] at written
    obtain ⟨bytes, _, flat, written⟩ := written
    rw [perform_ofExcept_eq_ok, mapError_eq_ok] at flat
    rw [perform_bind_eq_ok] at written
    obtain ⟨_, _, -, written⟩ := written
    rw [perform_bind_eq_ok] at written
    obtain ⟨_, _, rest, -⟩ := written
    exact List.forall_mem_cons.2 ⟨adjacent_of_flat flat.1, ih rest⟩

/-- What has been written is a file of tensors that can be written. -/
theorem of_save {total : Nat} (distinct : (tensors.map Prod.fst).Nodup)
    (keys : ∀ pairs ∈ metadata, (pairs.map Prod.fst).Nodup)
    (regular : ∀ named ∈ tensors, named.2.stride.length = named.2.shape.length ∧ memory.Holds named.2)
    (saved : (save config memory (metadata.map textsOf) tensors).perform s = (.ok total, t)) :
    Nameable metadata tensors ∧ (∀ named ∈ tensors, Flat memory named.2) ∧
      (headerOf metadata tensors).body.length ≤ config.maxHeaderSize := by
  rw [save, metadataOfPairs_textsOf keys, perform_bind_eq_ok] at saved
  obtain ⟨_, s, taken, saved⟩ := saved
  cases taken
  dsimp only at saved
  rw [perform_bind_eq_ok] at saved
  obtain ⟨planned, _, planning, written⟩ := saved
  obtain ⟨plans, rfl⟩ := perform_ofExcept_eq_ok.1 planning
  -- The checks have been passed by every tensor, in whatever order.
  have passed : ∀ named ∈ tensors, named.1 ≠ metadataKey ∧ named.2.isContiguous = true ∧
      named.2.dtype.tag?.isSome = true := by
    have plans := plans
    rw [plan, bind_eq_ok] at plans
    obtain ⟨_, checked, -⟩ := plans
    intro named hn
    obtain ⟨_, found⟩ := exists_of_mapM checked _ (List.mem_map_of_mem (mem_inNameOrder.2 hn))
    exact of_named_tensor found
  have tagged := fun named hn => (passed named hn).2.2
  have unreserved : metadataKey ∉ tensors.map Prod.fst := by
    intro listed
    obtain ⟨named, hn, same⟩ := List.mem_map.1 listed
    exact (passed named hn).1 same
  have listed : metadataKey ∉ (inNameOrder tensors).map Prod.fst := by
    rwa [map_fst_inNameOrder, Text.sort, List.mem_mergeSort]
  have laid := @plan_eq metadata (inNameOrder tensors)
    (fun named hn => tagged named (mem_inNameOrder.1 hn))
    (fun named hn => (passed named (mem_inNameOrder.1 hn)).2.1) listed
  cases laid.symm.trans plans
  rw [Plan.write, perform_bind_eq_ok] at written
  obtain ⟨bytes, _, encodes, written⟩ := written
  have encoded := (perform_ofExcept_eq_ok.1 encodes).1
  rw [perform_describing_eq_ok, perform_bind_eq_ok] at written
  obtain ⟨_, _, -, written⟩ := written
  rw [perform_bind_eq_ok] at written
  obtain ⟨_, _, payload, -⟩ := written
  have adjacent := adjacent_of_writePayload payload
  rw [List.forall_mem_map] at adjacent
  obtain ⟨strict, fits⟩ := Header.of_encode (tagged_headerOf tagged) encoded
  have names := strict.names
  simp only [names_headerOf, Text.sort, List.mem_mergeSort, List.forall_mem_map] at names
  refine ⟨⟨distinct, unreserved, names, keys, strict.metadata⟩, fun named hn => ?_, fits⟩
  obtain ⟨rank, held⟩ := regular named hn
  exact ⟨tagged named hn, (passed named hn).2.1, rank, held, adjacent named (mem_inNameOrder.2 hn)⟩

end Saved

end Safetensors

end Checkpoint
