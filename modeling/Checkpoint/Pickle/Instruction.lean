import Checkpoint.Pickle.Opcode
import Checkpoint.Text.Utf8
import Checkpoint.Binary.Double
import Checkpoint.Error
/-!
Instructions: opcodes with their arguments, how they are written, and how they are read off a
stream of bytes.  Reading always advances.
-/

namespace Checkpoint.Pickle

inductive Instruction
  | proto (version : UInt8)
  | frame (size : UInt64)
  | stop
  | mark
  | pop
  | popMark
  | none
  | bool (b : Bool)
  | int1 (n : UInt8)
  | int2 (n : UInt16)
  | int4 (n : Int32)
  | long (n : Int)
  | float (x : Double)
  | unicode (t : Text)
  | shortUnicode (t : Text)
  | unicode8 (t : Text)
  | string (t : Text)
  | shortString (t : Text)
  | bytes (b : Bytes)
  | shortBytes (b : Bytes)
  | emptyTuple
  | tuple
  | tuple1
  | tuple2
  | tuple3
  | emptyList
  | append
  | appends
  | emptyDict
  | setItem
  | setItems
  | put (index : UInt8)
  | longPut (index : UInt32)
  | memoize
  | get (index : UInt8)
  | longGet (index : UInt32)
  | global (module name : Text)
  | stackGlobal
  | reduce
  | build
  | persistentId
  deriving DecidableEq

namespace Instruction

def opcode : Instruction → Opcode
  | proto _ => .proto
  | frame _ => .frame
  | stop => .stop
  | mark => .mark
  | pop => .pop
  | popMark => .popMark
  | none => .none
  | bool b => if b then .newTrue else .newFalse
  | int1 _ => .binInt1
  | int2 _ => .binInt2
  | int4 _ => .binInt
  | long _ => .long1
  | float _ => .binFloat
  | unicode _ => .binUnicode
  | shortUnicode _ => .shortBinUnicode
  | unicode8 _ => .binUnicode8
  | string _ => .binString
  | shortString _ => .shortBinString
  | bytes _ => .binBytes
  | shortBytes _ => .shortBinBytes
  | emptyTuple => .emptyTuple
  | tuple => .tuple
  | tuple1 => .tuple1
  | tuple2 => .tuple2
  | tuple3 => .tuple3
  | emptyList => .emptyList
  | append => .append
  | appends => .appends
  | emptyDict => .emptyDict
  | setItem => .setItem
  | setItems => .setItems
  | put _ => .binPut
  | longPut _ => .longBinPut
  | memoize => .memoize
  | get _ => .binGet
  | longGet _ => .longBinGet
  | global .. => .global
  | stackGlobal => .stackGlobal
  | reduce => .reduce
  | build => .build
  | persistentId => .binPersId

/-- Bytes after their own number, in a field of the given width. -/
def counted (width : Nat) (b : Bytes) : Bytes :=
  Bytes.littleEndian width b.length ++ b

def newline : UInt8 := 0x0a

def arguments : Instruction → Bytes
  | proto version => [version]
  | frame size => Bytes.littleEndian 8 size.toNat
  | int1 n => [n]
  | int2 n => Bytes.littleEndian 2 n.toNat
  | int4 n => Bytes.littleEndianSigned 4 n.toInt
  | long n => counted 1 (Bytes.shortestSigned n)
  | float x => Bytes.bigEndian 8 x.bits.toNat
  | unicode t => counted 4 t.utf8
  | shortUnicode t => counted 1 t.utf8
  | unicode8 t => counted 8 t.utf8
  | string t => counted 4 t.utf8
  | shortString t => counted 1 t.utf8
  | bytes b => counted 4 b
  | shortBytes b => counted 1 b
  | put index => [index]
  | longPut index => Bytes.littleEndian 4 index.toNat
  | get index => [index]
  | longGet index => Bytes.littleEndian 4 index.toNat
  | global module name => module.utf8 ++ [newline] ++ name.utf8 ++ [newline]
  | _ => []

def encode (i : Instruction) : Bytes := i.opcode.code :: i.arguments

end Instruction

/-- A place in a stream of `size` bytes. -/
structure Cursor where
  rest : Bytes
  position : Nat
  size : Nat
  size_eq : position + rest.length = size

namespace Cursor

def start (bytes : Bytes) : Cursor :=
  { rest := bytes, position := 0, size := bytes.length, size_eq := by simp }

def take (c : Cursor) (n : Nat) : Except ProtocolError (Bytes × Cursor) :=
  if h : c.size < c.position + n then .error (.truncated c.position)
  else .ok (c.rest.take n, {
    rest := c.rest.drop n
    position := c.position + n
    size := c.size
    size_eq := by have := c.size_eq; simp; omega })

def takeNat (c : Cursor) (width : Nat) : Except ProtocolError (Nat × Cursor) := do
  let (b, c) ← c.take width
  return (Bytes.fromLittleEndian b, c)

/-- Bytes after their own number. -/
def takeCounted (c : Cursor) (width : Nat) : Except ProtocolError (Bytes × Cursor) := do
  let (n, c) ← c.takeNat width
  c.take n

/-- Bytes after their own number, which is signed here and may not be negative. -/
def takeCountedSigned (c : Cursor) (width : Nat) : Except ProtocolError (Bytes × Cursor) := do
  let (b, c) ← c.take width
  let n := Bytes.fromLittleEndianSigned b
  if n < 0 then throw (.truncated c.position)
  c.take n.toNat

/-- The bytes up to the next newline, which is passed over. -/
def takeLine (c : Cursor) : Except ProtocolError (Bytes × Cursor) := do
  let line := c.rest.takeWhile (· ≠ Instruction.newline)
  let (taken, c) ← c.take (line.length + 1)
  return (taken.take line.length, c)

def takeUtf8 (c : Cursor) (width : Nat) : Except ProtocolError (Text × Cursor) := do
  let (b, c) ← c.takeCounted width
  match Text.ofUtf8? b with
  | some t => return (t, c)
  | none => throw (.invalidUtf8 c.position)

def ascii (c : Cursor) (b : Bytes) : Except ProtocolError Text :=
  match Text.ofAscii? b with
  | some t => .ok t
  | none => .error (.nonAscii c.position)

end Cursor

namespace Instruction

open Cursor

/-- The arguments of an opcode, read behind it. -/
def readArguments (op : Opcode) (c : Cursor) : Except ProtocolError (Instruction × Cursor) :=
  match op with
  | .proto => do
    let (n, c) ← c.takeNat 1
    return (.proto (UInt8.ofNat n), c)
  | .frame => do
    let (n, c) ← c.takeNat 8
    return (.frame (UInt64.ofNat n), c)
  | .stop => .ok (.stop, c)
  | .mark => .ok (.mark, c)
  | .pop => .ok (.pop, c)
  | .popMark => .ok (.popMark, c)
  | .none => .ok (.none, c)
  | .newTrue => .ok (.bool true, c)
  | .newFalse => .ok (.bool false, c)
  | .binInt => do
    let (b, c) ← c.take 4
    return (.int4 (Int32.ofInt (Bytes.fromLittleEndianSigned b)), c)
  | .binInt1 => do
    let (n, c) ← c.takeNat 1
    return (.int1 (UInt8.ofNat n), c)
  | .binInt2 => do
    let (n, c) ← c.takeNat 2
    return (.int2 (UInt16.ofNat n), c)
  | .long1 => do
    let (b, c) ← c.takeCounted 1
    return (.long (Bytes.fromLittleEndianSigned b), c)
  | .binFloat => do
    let (b, c) ← c.take 8
    return (.float ⟨UInt64.ofNat (Bytes.fromBigEndian b)⟩, c)
  | .binUnicode => do
    let (t, c) ← c.takeUtf8 4
    return (.unicode t, c)
  | .shortBinUnicode => do
    let (t, c) ← c.takeUtf8 1
    return (.shortUnicode t, c)
  | .binUnicode8 => do
    let (t, c) ← c.takeUtf8 8
    return (.unicode8 t, c)
  | .binString => do
    let (b, c) ← c.takeCountedSigned 4
    return (.string (← c.ascii b), c)
  | .shortBinString => do
    let (b, c) ← c.takeCounted 1
    return (.shortString (← c.ascii b), c)
  | .binBytes => do
    let (b, c) ← c.takeCounted 4
    return (.bytes b, c)
  | .shortBinBytes => do
    let (b, c) ← c.takeCounted 1
    return (.shortBytes b, c)
  | .emptyTuple => .ok (.emptyTuple, c)
  | .tuple => .ok (.tuple, c)
  | .tuple1 => .ok (.tuple1, c)
  | .tuple2 => .ok (.tuple2, c)
  | .tuple3 => .ok (.tuple3, c)
  | .emptyList => .ok (.emptyList, c)
  | .append => .ok (.append, c)
  | .appends => .ok (.appends, c)
  | .emptyDict => .ok (.emptyDict, c)
  | .setItem => .ok (.setItem, c)
  | .setItems => .ok (.setItems, c)
  | .binPut => do
    let (n, c) ← c.takeNat 1
    return (.put (UInt8.ofNat n), c)
  | .longBinPut => do
    let (n, c) ← c.takeNat 4
    return (.longPut (UInt32.ofNat n), c)
  | .memoize => .ok (.memoize, c)
  | .binGet => do
    let (n, c) ← c.takeNat 1
    return (.get (UInt8.ofNat n), c)
  | .longBinGet => do
    let (n, c) ← c.takeNat 4
    return (.longGet (UInt32.ofNat n), c)
  | .global => do
    let (module, c) ← c.takeLine
    let module ← c.ascii module
    let (name, c) ← c.takeLine
    return (.global module (← c.ascii name), c)
  | .stackGlobal => .ok (.stackGlobal, c)
  | .reduce => .ok (.reduce, c)
  | .build => .ok (.build, c)
  | .binPersId => .ok (.persistentId, c)

/-- Reads the opcode byte and its arguments. -/
def read (c : Cursor) : Except ProtocolError (Instruction × Cursor) :=
  match c.take 1 with
  | .error e => .error e
  | .ok (b, next) =>
    let byte := b.headD 0
    match Opcode.ofCode? byte with
    | Option.none => .error (.opcode (Opcode.nameOf byte.toNat) c.position)
    | some op => readArguments op next

end Instruction

namespace Cursor

/-- That `d` lies in the same stream as `c`, and not before it. -/
def Before (c d : Cursor) : Prop := c.size = d.size ∧ c.position ≤ d.position

theorem Before.trans {a b c : Cursor} (h : a.Before b) (k : b.Before c) : a.Before c :=
  ⟨h.1.trans k.1, Nat.le_trans h.2 k.2⟩

theorem before_of_take {c d : Cursor} {n : Nat} {b : Bytes} (h : c.take n = .ok (b, d)) :
    c.Before d ∧ d.position = c.position + n := by
  unfold take at h
  split at h
  · contradiction
  · simp only [Except.ok.injEq, Prod.mk.injEq] at h
    obtain ⟨_, rfl⟩ := h
    exact ⟨⟨rfl, Nat.le_add_right ..⟩, rfl⟩

theorem before_of_takeNat {c d : Cursor} {w n : Nat} (h : c.takeNat w = .ok (n, d)) :
    c.Before d := by
  simp only [takeNat, bind_eq_ok, pure, Except.pure, Except.ok.injEq, Prod.mk.injEq] at h
  obtain ⟨⟨_, e⟩, h, _, rfl⟩ := h
  exact (before_of_take h).1

theorem before_of_takeCounted {c d : Cursor} {w : Nat} {b : Bytes}
    (h : c.takeCounted w = .ok (b, d)) : c.Before d := by
  simp only [takeCounted, bind_eq_ok] at h
  obtain ⟨⟨_, e⟩, h, k⟩ := h
  exact (before_of_takeNat h).trans (before_of_take k).1

theorem before_of_takeCountedSigned {c d : Cursor} {w : Nat} {b : Bytes}
    (h : c.takeCountedSigned w = .ok (b, d)) : c.Before d := by
  simp only [takeCountedSigned, bind_eq_ok] at h
  obtain ⟨⟨_, e⟩, h, k⟩ := h
  split at k
  · simp [bind, Except.bind, throw, throwThe, MonadExceptOf.throw] at k
  · exact (before_of_take h).1.trans (before_of_take k).1

theorem before_of_takeLine {c d : Cursor} {b : Bytes} (h : c.takeLine = .ok (b, d)) :
    c.Before d := by
  simp only [takeLine, bind_eq_ok, pure, Except.pure, Except.ok.injEq, Prod.mk.injEq] at h
  obtain ⟨⟨_, e⟩, h, _, rfl⟩ := h
  exact (before_of_take h).1

theorem before_of_takeUtf8 {c d : Cursor} {w : Nat} {t : Text} (h : c.takeUtf8 w = .ok (t, d)) :
    c.Before d := by
  simp only [takeUtf8, bind_eq_ok] at h
  obtain ⟨⟨_, e⟩, h, k⟩ := h
  split at k
  · simp only [pure, Except.pure, Except.ok.injEq, Prod.mk.injEq] at k
    obtain ⟨_, rfl⟩ := k
    exact before_of_takeCounted h
  · simp [throw, throwThe, MonadExceptOf.throw] at k

end Cursor

namespace Instruction

theorem before_of_readArguments {op : Opcode} {c d : Cursor} {i : Instruction}
    (h : readArguments op c = .ok (i, d)) : c.Before d := by
  cases op <;>
    simp only [readArguments, bind_eq_ok, pure, Except.pure, Except.ok.injEq,
      Prod.mk.injEq, Prod.exists] at h
  case global =>
    obtain ⟨_, e, h, _, _, _, f, k, _, _, _, rfl⟩ := h
    exact (Cursor.before_of_takeLine h).trans (Cursor.before_of_takeLine k)
  case binString =>
    obtain ⟨_, e, h, _, _, _, rfl⟩ := h
    exact Cursor.before_of_takeCountedSigned h
  case shortBinString =>
    obtain ⟨_, e, h, _, _, _, rfl⟩ := h
    exact Cursor.before_of_takeCounted h
  case binInt | binFloat =>
    obtain ⟨_, e, h, _, rfl⟩ := h
    exact (Cursor.before_of_take h).1
  case long1 | binBytes | shortBinBytes =>
    obtain ⟨_, e, h, _, rfl⟩ := h
    exact Cursor.before_of_takeCounted h
  case binUnicode | shortBinUnicode | binUnicode8 =>
    obtain ⟨_, e, h, _, rfl⟩ := h
    exact Cursor.before_of_takeUtf8 h
  case proto | frame | binInt1 | binInt2 | binPut | longBinPut | binGet | longBinGet =>
    obtain ⟨_, e, h, _, rfl⟩ := h
    exact Cursor.before_of_takeNat h
  all_goals
    obtain ⟨_, rfl⟩ := h
    exact ⟨rfl, Nat.le_refl _⟩

/-- Reading advances, and stays within the stream. -/
theorem read_advances {c d : Cursor} {i : Instruction} (h : read c = .ok (i, d)) :
    c.size = d.size ∧ c.position < d.position := by
  unfold read at h
  split at h
  · contradiction
  · rename_i b e he
    dsimp only at h
    split at h
    · contradiction
    · have h1 := Cursor.before_of_take he
      have h2 := before_of_readArguments h
      exact ⟨h1.1.1.trans h2.1, by have := h2.2; omega⟩

theorem length_rest_lt_of_read {c d : Cursor} {i : Instruction} (h : read c = .ok (i, d)) :
    d.rest.length < c.rest.length := by
  have := read_advances h
  have := c.size_eq
  have := d.size_eq
  omega

end Instruction

end Checkpoint.Pickle
