import Checkpoint.Text.Quoted
/-!
The opcodes of the object stream: those that a flat mapping of names to tensors can need.
-/

namespace Checkpoint.Pickle

inductive Opcode
  | proto | frame | stop | mark | pop | popMark
  | none | newTrue | newFalse
  | binInt | binInt1 | binInt2 | long1 | binFloat
  | binUnicode | shortBinUnicode | binUnicode8
  | binString | shortBinString | binBytes | shortBinBytes
  | emptyTuple | tuple | tuple1 | tuple2 | tuple3
  | emptyList | append | appends
  | emptyDict | setItem | setItems
  | binPut | longBinPut | memoize | binGet | longBinGet
  | global | stackGlobal | reduce | build | binPersId
  deriving DecidableEq, Repr, Inhabited

namespace Opcode

/-- Each opcode with its byte and its name. -/
def table : List (Opcode × UInt8 × String) := [
  (proto, 0x80, "PROTO"), (frame, 0x95, "FRAME"), (stop, 0x2e, "STOP"), (mark, 0x28, "MARK"),
  (pop, 0x30, "POP"), (popMark, 0x31, "POP_MARK"),
  (none, 0x4e, "NONE"), (newTrue, 0x88, "NEWTRUE"), (newFalse, 0x89, "NEWFALSE"),
  (binInt, 0x4a, "BININT"), (binInt1, 0x4b, "BININT1"), (binInt2, 0x4d, "BININT2"),
  (long1, 0x8a, "LONG1"), (binFloat, 0x47, "BINFLOAT"),
  (binUnicode, 0x58, "BINUNICODE"), (shortBinUnicode, 0x8c, "SHORT_BINUNICODE"),
  (binUnicode8, 0x8d, "BINUNICODE8"), (binString, 0x54, "BINSTRING"),
  (shortBinString, 0x55, "SHORT_BINSTRING"), (binBytes, 0x42, "BINBYTES"),
  (shortBinBytes, 0x43, "SHORT_BINBYTES"),
  (emptyTuple, 0x29, "EMPTY_TUPLE"), (tuple, 0x74, "TUPLE"), (tuple1, 0x85, "TUPLE1"),
  (tuple2, 0x86, "TUPLE2"), (tuple3, 0x87, "TUPLE3"),
  (emptyList, 0x5d, "EMPTY_LIST"), (append, 0x61, "APPEND"), (appends, 0x65, "APPENDS"),
  (emptyDict, 0x7d, "EMPTY_DICT"), (setItem, 0x73, "SETITEM"), (setItems, 0x75, "SETITEMS"),
  (binPut, 0x71, "BINPUT"), (longBinPut, 0x72, "LONG_BINPUT"), (memoize, 0x94, "MEMOIZE"),
  (binGet, 0x68, "BINGET"), (longBinGet, 0x6a, "LONG_BINGET"),
  (global, 0x63, "GLOBAL"), (stackGlobal, 0x93, "STACK_GLOBAL"), (reduce, 0x52, "REDUCE"),
  (build, 0x62, "BUILD"), (binPersId, 0x51, "BINPERSID")]

def code (op : Opcode) : UInt8 :=
  match table.find? (·.1 == op) with
  | some (_, byte, _) => byte
  | Option.none => 0

def ofCode? (byte : UInt8) : Option Opcode :=
  (table.find? (·.2.1 == byte)).map Prod.fst

theorem ofCode?_code (op : Opcode) : ofCode? op.code = some op := by
  cases op <;> rfl

/-- The name of an opcode by its number, or the number in hexadecimal, with at least two characters,
if there is no such opcode. -/
def nameOf (number : Int) : Text :=
  match table.find? (fun row => (row.2.1.toNat : Int) = number) with
  | some (_, _, name) => Text.ofString name
  | Option.none => "0x" ++
    if number < 0 then "-" ++ hex number.natAbs
    else if number < 16 then "0" ++ hex number.toNat
    else hex number.toNat
where
  hex (n : Nat) : Text := Text.ofString (String.ofList (Nat.toDigits 16 n))

end Opcode

end Checkpoint.Pickle
