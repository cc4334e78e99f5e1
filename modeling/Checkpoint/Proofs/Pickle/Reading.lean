import Checkpoint.Pickle.Instruction
import Checkpoint.Proofs.Bytes
import Checkpoint.Proofs.Text

/-! An instruction that fits its fields is read as it was written, whatever follows it. -/

namespace Checkpoint.Pickle

namespace Cursor

/-- From one place to another the stream has the given bytes. -/
structure Spells (c : Cursor) (bytes : Bytes) (next : Cursor) : Prop where
  rest : c.rest = bytes ++ next.rest
  size : next.size = c.size

variable {c next : Cursor} {a b : Bytes}

theorem ext_rest {c d : Cursor} (hr : c.rest = d.rest) (hs : c.size = d.size) : c = d := by
  have hc := c.size_eq
  have hd := d.size_eq
  rw [hr] at hc
  have hp : c.position = d.position := by omega
  cases c
  cases d
  simp_all

theorem Spells.position (h : c.Spells a next) : next.position = c.position + a.length := by
  have hc := c.size_eq
  have hn := next.size_eq
  have hs := h.size
  rw [h.rest, List.length_append] at hc
  omega

theorem spells_nil : c.Spells [] next ↔ next = c := by
  constructor
  · intro h
    exact ext_rest h.rest.symm h.size
  · rintro rfl
    exact ⟨rfl, rfl⟩

/-- The cursor behind some of the bytes that are left. -/
def behind (c : Cursor) (rest : Bytes) (h : rest.length ≤ c.rest.length) : Cursor :=
  { rest, size := c.size, position := c.size - rest.length, size_eq := by
      have := c.size_eq
      omega }

theorem spells_append : c.Spells (a ++ b) next ↔ ∃ mid, c.Spells a mid ∧ mid.Spells b next := by
  constructor
  · intro h
    have hr := h.rest
    rw [List.append_assoc] at hr
    refine ⟨c.behind (b ++ next.rest) (by simp [hr]), ⟨hr, rfl⟩, ⟨rfl, h.size⟩⟩
  · rintro ⟨mid, ha, hb⟩
    exact ⟨by rw [ha.rest, hb.rest, List.append_assoc], hb.size.trans ha.size⟩

theorem Spells.take (h : c.Spells a next) : c.take a.length = .ok (a, next) := by
  have hc := c.size_eq
  have hr := h.rest
  rw [hr, List.length_append] at hc
  unfold Cursor.take
  rw [dif_neg (by omega)]
  congr 2
  · rw [hr]
    exact List.take_left
  · apply ext_rest
    · change c.rest.drop a.length = next.rest
      rw [hr]
      exact List.drop_left
    · exact h.size.symm

theorem Spells.takeNat {width n : Nat} (h : c.Spells (Bytes.littleEndian width n) next)
    (hn : n < 256 ^ width) : c.takeNat width = .ok (n, next) := by
  have ht := h.take
  rw [Bytes.length_littleEndian] at ht
  simp only [Cursor.takeNat, ht, bind, Except.bind, Bytes.fromLittleEndian_of_lt hn]
  rfl

theorem Spells.takeByte {n : UInt8} (h : c.Spells [n] next) : c.takeNat 1 = .ok (n.toNat, next) := by
  have : Bytes.littleEndian 1 n.toNat = [n] := by
    simp [Bytes.littleEndian]
  rw [← this] at h
  exact h.takeNat n.toNat_lt

theorem Spells.takeCounted {width : Nat} (h : c.Spells (Instruction.counted width a) next)
    (ha : a.length < 256 ^ width) : c.takeCounted width = .ok (a, next) := by
  obtain ⟨mid, hn, hb⟩ := spells_append.1 h
  simp only [Cursor.takeCounted, hn.takeNat ha, bind, Except.bind, hb.take]

theorem Spells.takeCountedSigned (h : c.Spells (Instruction.counted 4 a) next)
    (ha : 2 * a.length < 256 ^ 4) : c.takeCountedSigned 4 = .ok (a, next) := by
  obtain ⟨mid, hn, hb⟩ := spells_append.1 h
  have ht := hn.take
  rw [Bytes.length_littleEndian] at ht
  have read : Bytes.fromLittleEndianSigned (Bytes.littleEndian 4 a.length) = a.length := by
    unfold Bytes.fromLittleEndianSigned
    rw [Bytes.fromLittleEndian_of_lt (by omega), Bytes.length_littleEndian]
    exact if_pos ha
  simp only [Cursor.takeCountedSigned, ht, bind, Except.bind, read]
  rw [if_neg (by omega), Int.toNat_natCast]
  exact hb.take

theorem Spells.takeUtf8 {width : Nat} {t : Text}
    (h : c.Spells (Instruction.counted width t.utf8) next) (ht : t.utf8.length < 256 ^ width) :
    c.takeUtf8 width = .ok (t, next) := by
  simp only [Cursor.takeUtf8, h.takeCounted ht, bind, Except.bind, Text.ofUtf8?_utf8]
  rfl

theorem Spells.takeLine (h : c.Spells (a ++ [Instruction.newline]) next)
    (ha : Instruction.newline ∉ a) : c.takeLine = .ok (a, next) := by
  have line : c.rest.takeWhile (· ≠ Instruction.newline) = a := by
    rw [h.rest, List.append_assoc, List.takeWhile_append_of_pos]
    · simp
    · intro b hb
      simp only [decide_eq_true_eq]
      rintro rfl
      exact ha hb
  have ht := h.take
  rw [List.length_append, List.length_singleton] at ht
  simp only [Cursor.takeLine, line, ht, bind, Except.bind, List.take_left]
  rfl

theorem ascii_utf8 {t : Text} (h : t.isAscii = true) : c.ascii t.utf8 = .ok t := by
  simp only [ascii, Text.ofAscii?_utf8 h]

end Cursor

namespace Instruction

/-- A name that a line can hold. -/
def IsLine (t : Text) : Prop := t.isAscii = true ∧ newline ∉ t.utf8

instance (t : Text) : Decidable (IsLine t) := inferInstanceAs (Decidable (_ ∧ _))

/-- Whether what an instruction holds fits the fields that it is written in. -/
def Readable : Instruction → Prop
  | long n => (Bytes.shortestSigned n).length < 256
  | unicode t => t.utf8.length < 256 ^ 4
  | shortUnicode t => t.utf8.length < 256
  | unicode8 t => t.utf8.length < 256 ^ 8
  | string t => t.isAscii = true ∧ 2 * t.utf8.length < 256 ^ 4
  | shortString t => t.isAscii = true ∧ t.utf8.length < 256
  | bytes b => b.length < 256 ^ 4
  | shortBytes b => b.length < 256
  | global module name => IsLine module ∧ IsLine name
  | _ => True

theorem readArguments_arguments {i : Instruction} (h : i.Readable) {c next : Cursor}
    (hc : c.Spells i.arguments next) : readArguments i.opcode c = .ok (i, next) := by
  cases i with
  | bool b =>
    obtain rfl := Cursor.spells_nil.1 hc
    cases b <;> rfl
  | proto n | int1 n | put n | get n =>
    have := hc.takeByte
    simp only [opcode, readArguments, this, bind, Except.bind, pure, Except.pure, UInt8.ofNat_toNat]
  | frame size =>
    have := hc.takeNat size.toNat_lt
    simp only [opcode, readArguments, this, bind, Except.bind, pure, Except.pure, UInt64.ofNat_toNat]
  | int2 n =>
    have := hc.takeNat n.toNat_lt
    simp only [opcode, readArguments, this, bind, Except.bind, pure, Except.pure, UInt16.ofNat_toNat]
  | int4 n =>
    have := hc.take
    rw [arguments, Bytes.length_littleEndianSigned] at this
    have low := n.le_toInt
    have high := n.toInt_lt
    have value : Bytes.fromLittleEndianSigned (Bytes.littleEndianSigned 4 n.toInt) = n.toInt := by
      apply Bytes.fromLittleEndianSigned_of_range <;> omega
    simp only [opcode, readArguments, this, bind, Except.bind, pure, Except.pure, value,
      Int32.ofInt_toInt]
  | long n =>
    have := hc.takeCounted h
    simp only [opcode, readArguments, this, bind, Except.bind, pure, Except.pure,
      Bytes.fromLittleEndianSigned_shortestSigned]
  | float x =>
    have := hc.take
    rw [arguments, Bytes.length_bigEndian] at this
    have value : Bytes.fromBigEndian (Bytes.bigEndian 8 x.bits.toNat) = x.bits.toNat :=
      Bytes.fromBigEndian_of_lt x.bits.toNat_lt
    simp only [opcode, readArguments, this, bind, Except.bind, pure, Except.pure, value,
      UInt64.ofNat_toNat]
  | unicode t | shortUnicode t | unicode8 t =>
    have := hc.takeUtf8 h
    simp only [opcode, readArguments, this, bind, Except.bind, pure, Except.pure]
  | string t =>
    have := hc.takeCountedSigned h.2
    simp only [opcode, readArguments, this, bind, Except.bind, pure, Except.pure,
      Cursor.ascii_utf8 h.1]
  | shortString t =>
    have := hc.takeCounted h.2
    simp only [opcode, readArguments, this, bind, Except.bind, pure, Except.pure,
      Cursor.ascii_utf8 h.1]
  | bytes b | shortBytes b =>
    have := hc.takeCounted h
    simp only [opcode, readArguments, this, bind, Except.bind, pure, Except.pure]
  | longPut index | longGet index =>
    have := hc.takeNat index.toNat_lt
    simp only [opcode, readArguments, this, bind, Except.bind, pure, Except.pure, UInt32.ofNat_toNat]
  | global module name =>
    obtain ⟨⟨hm, hm'⟩, hn, hn'⟩ := h
    rw [arguments, List.append_assoc, Cursor.spells_append] at hc
    obtain ⟨mid, hfirst, hsecond⟩ := hc
    simp only [opcode, readArguments, hfirst.takeLine hm', hsecond.takeLine hn', bind, Except.bind,
      pure, Except.pure, Cursor.ascii_utf8 hm, Cursor.ascii_utf8 hn]
  | _ =>
    obtain rfl := Cursor.spells_nil.1 hc
    rfl

theorem read_encode {i : Instruction} (h : i.Readable) {c next : Cursor}
    (hc : c.Spells i.encode next) : read c = .ok (i, next) := by
  have split : i.encode = [i.opcode.code] ++ i.arguments := rfl
  rw [split, Cursor.spells_append] at hc
  obtain ⟨mid, hcode, harguments⟩ := hc
  have ht := hcode.take
  rw [List.length_singleton] at ht
  simp only [read, ht, List.headD_cons, Opcode.ofCode?_code]
  exact readArguments_arguments h harguments

end Instruction

end Checkpoint.Pickle
