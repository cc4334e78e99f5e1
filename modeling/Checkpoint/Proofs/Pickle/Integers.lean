import Checkpoint.Proofs.Bytes.Shortest
import Checkpoint.Proofs.Pickle.Execution
import Checkpoint.Proofs.Pickle.Plain

/-! How integers are written: by the first instruction whose range they lie in, which is replayed as
the integer, or not at all. -/

namespace Checkpoint.Pickle

open Effect Pickle.Graph

variable {n : Int} {i : Instruction}

theorem signedWidth_le_iff_integerLimit :
    Bytes.signedWidth n ≤ 255 ↔ -integerLimit ≤ n ∧ n ≤ integerLimit - 1 := by
  have limit : integerLimit = 2 ^ (8 * 254 + 7) := congrArg (2 ^ ·) rfl
  rw [limit, Bytes.signedWidth_le_iff, Bytes.holdsSigned_succ]
  generalize 2 ^ (8 * 254 + 7) = limit
  omega

namespace Encoder

/-- The opcodes of integers in the order in which they are tried, each with its least and its
greatest argument. -/
def integerRanges : List (Opcode × Int × Int) := [
  (.binInt1, 0, 0xff), (.binInt2, 0, 0xffff), (.binInt, -0x80000000, 0x7fffffff),
  (.long1, -integerLimit, integerLimit - 1)]

/-- The opcode of the first range that an integer lies in. -/
def integerOpcode? (n : Int) : Option Opcode :=
  (integerRanges.find? fun range => range.2.1 ≤ n ∧ n ≤ range.2.2).map Prod.fst

theorem integerOpcode?_eq (n : Int) :
    integerOpcode? n =
      if 0 ≤ n ∧ n ≤ 0xff then some .binInt1
      else if 0 ≤ n ∧ n ≤ 0xffff then some .binInt2
      else if -0x80000000 ≤ n ∧ n ≤ 0x7fffffff then some .binInt
      else if -integerLimit ≤ n ∧ n ≤ integerLimit - 1 then some .long1
      else none := by
  unfold integerOpcode? integerRanges
  grind

/-- The ranges in front of the last are parts of it. -/
theorem integerOpcode?_isSome :
    (integerOpcode? n).isSome ↔ -integerLimit ≤ n ∧ n ≤ integerLimit - 1 := by
  have wide : 2 ^ 31 ≤ integerLimit := pow_le_pow_right₀ (by decide) (by decide)
  rw [integerOpcode?_eq]
  split_ifs <;>
    simp only [Option.isSome_some, Option.isSome_none, true_iff, Bool.false_eq_true, false_iff] <;>
    omega

theorem intInstruction_of_integerOpcode? (n : Int) :
    intInstruction n = .error (.unexpectedStructure (.integerWidth (Bytes.signedWidth n))) ∧
        integerOpcode? n = none ∨
      ∃ i, intInstruction n = .ok i ∧ integerOpcode? n = some i.opcode ∧
        (i.opcode = .long1 → i = .long n) := by
  rw [integerOpcode?_eq]
  unfold intInstruction
  have width := signedWidth_le_iff_integerLimit (n := n)
  split
  · exact .inr ⟨_, rfl, rfl, nofun⟩
  split
  · exact .inr ⟨_, rfl, rfl, nofun⟩
  split
  · exact .inr ⟨_, rfl, rfl, nofun⟩
  dsimp only
  split
  · next wide => exact .inl ⟨rfl, if_neg fun range => absurd (width.2 range) (by omega)⟩
  · next narrow => exact .inr ⟨_, rfl, if_pos (width.1 (by omega)), fun _ => rfl⟩

/-- One instruction is written, or the encoder stays as it was. -/
theorem perform_saveInt (n : Int) (e : Encoder) :
    (saveInt n).perform e =
      match intInstruction n with
      | .ok i => (.ok (), { e with output := { instruction := i } :: e.output })
      | .error error => (.error error, e) := by
  unfold saveInt emitChecked
  rw [perform_bind, perform_ofExcept]
  cases intInstruction n <;> rfl

end Encoder

/-- A machine that comes to the bytes of an instruction pushes what the instruction stands for. -/
theorem Instruction.Pushes.run_of_spells {v : Value} (h : i.Pushes v) {config : Config} {c next : Cursor}
    (spells : c.Spells i.encode next) :
    Machine.run config c = Machine.push config v >>= fun _ =>
      (modify fun m => { m with trace := m.snapshot next :: m.trace }) >>= fun _ =>
      Machine.run config next := by
  rw [Machine.run_of_read (Instruction.read_encode h.readable spells) h.going.1, h.run]

/-- An integer is refused exactly when it is out of range.  Otherwise it is written as one
instruction, with the opcode of the first range it lies in, and a machine that comes to the bytes of
that instruction pushes the integer.  The bytes that the longest form holds are what is left after a
spare sign byte is dropped, and no other bytes that read as the integer are as short. -/
theorem Encoder.saveInt_exact (n : Int) :
    (∀ e, (∃ cause, ((saveInt n).perform e).1 = .error (.unexpectedStructure cause)) ↔
      ¬(-integerLimit ≤ n ∧ n ≤ integerLimit - 1)) ∧
    (-integerLimit ≤ n ∧ n ≤ integerLimit - 1 → ∃ i : Instruction,
      (∀ e, (saveInt n).perform e = (.ok (), { e with output := { instruction := i } :: e.output })) ∧
      integerOpcode? n = some i.opcode ∧
      (i.opcode = .long1 → i.arguments = Instruction.counted 1 (Bytes.shortestSigned n)) ∧
      ∀ config c next, c.Spells i.encode next →
        Machine.run config c = Machine.push config (.int n) >>= fun _ =>
          (modify fun m => { m with trace := m.snapshot next :: m.trace }) >>= fun _ =>
          Machine.run config next) ∧
    Bytes.trimmedSigned n = Bytes.shortestSigned n ∧
    Bytes.fromLittleEndianSigned (Bytes.shortestSigned n) = n ∧
    ∀ bytes, Bytes.fromLittleEndianSigned bytes = n → bytes ≠ Bytes.shortestSigned n →
      (Bytes.shortestSigned n).length < bytes.length := by
  have range := integerOpcode?_isSome (n := n)
  refine ⟨?_, ?_, Bytes.trimmedSigned_eq_shortestSigned n,
    Bytes.fromLittleEndianSigned_shortestSigned n, ?_⟩
  · intro e
    rw [perform_saveInt, ← range]
    obtain ⟨refused, none⟩ | ⟨i, written, some, -⟩ := intInstruction_of_integerOpcode? n
    · simp [refused, none]
    · simp [written, some]
  · intro inside
    obtain ⟨-, none⟩ | ⟨i, written, some, long⟩ := intInstruction_of_integerOpcode? n
    · rw [← range, none] at inside
      exact absurd inside nofun
    · refine ⟨i, fun e => ?_, some, fun h => by rw [long h]; rfl, fun config c next spells => ?_⟩
      · rw [perform_saveInt, written]
      · exact (pushes_intInstruction written).run_of_spells spells
  · rintro bytes rfl other
    exact (Bytes.eq_shortestSigned_or_lt bytes).resolve_left other

end Checkpoint.Pickle
