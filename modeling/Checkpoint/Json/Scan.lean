import Checkpoint.Json.Value
import Checkpoint.Decimal.Integer
import Checkpoint.Decimal.Nearest
import Checkpoint.Error
/-!
Reading JSON documents.  Each reader takes its part off the front of what is left of the document;
a fault says how much was left where it was found.  Nesting and the length of lists are bounded by
the length of the document, which no document exceeds.
-/

namespace Checkpoint.Json

open Text

inductive Failure
  | fault (cause : JsonFault) (left : Nat)
  | digitLimit (digits : Nat)
  | duplicateKey (key : Text)
  deriving DecidableEq

abbrev Scan (α : Type) := List CodePoint → Except Failure (α × List CodePoint)

/-- The fault lies where these code points begin. -/
def faultAt (cause : JsonFault) (left : List CodePoint) : Except Failure α :=
  .error (.fault cause left.length)

def isBlank (c : CodePoint) : Bool := c = 0x20 || c = 0x09 || c = 0x0a || c = 0x0d

def skip (points : List CodePoint) : List CodePoint := points.dropWhile isBlank

def comma : CodePoint := 0x2c
def colon : CodePoint := 0x3a
def minus : CodePoint := 0x2d
def plus : CodePoint := 0x2b
def point : CodePoint := 0x2e

/-! ### Texts -/

def hexValue? (c : CodePoint) : Option Nat :=
  if 0x30 ≤ c.val ∧ c.val ≤ 0x39 then some (c.val - 0x30)
  else if 0x61 ≤ c.val ∧ c.val ≤ 0x66 then some (c.val - 0x57)
  else if 0x41 ≤ c.val ∧ c.val ≤ 0x46 then some (c.val - 0x37)
  else none

/-- Four hexadecimal digits, which are never the end of a document. -/
def codeUnit? : List CodePoint → Option (Fin 0x10000 × List CodePoint)
  | a :: b :: c :: d :: rest => do
    if rest.isEmpty then failure
    let a ← hexValue? a
    let b ← hexValue? b
    let c ← hexValue? c
    let d ← hexValue? d
    return (Fin.ofNat 0x10000 (((a * 16 + b) * 16 + c) * 16 + d), rest)
  | _ => none

def isHigh (n : Nat) : Bool := 0xd800 ≤ n && n ≤ 0xdbff
def isLow (n : Nat) : Bool := 0xdc00 ≤ n && n ≤ 0xdfff

/-- The code point that a high and a low surrogate stand for. -/
def join (high low : Fin 0x10000) : CodePoint :=
  Fin.ofNat 0x110000 (0x10000 + (high.val - 0xd800) * 0x400 + (low.val - 0xdc00))

/-- The code point of an escape with a code unit, from its `u` on.  A high surrogate takes the
escape of a low one with it; any other escape after it is read on its own. -/
def unicodeEscape (points : List CodePoint) : Except Failure (CodePoint × List CodePoint) :=
  match codeUnit? points.tail with
  | none => faultAt .invalidUnicodeEscape points
  | some (unit, rest) =>
    let alone : CodePoint := unit.castLE (by decide)
    match rest with
    | b :: u :: more =>
      if isHigh unit && b = backslash && u = 0x75 && 4 < more.length then
        match codeUnit? more with
        | none => faultAt .invalidUnicodeEscape (u :: more)
        | some (second, after) =>
          if isLow second then .ok (join unit second, after) else .ok (alone, rest)
      else .ok (alone, rest)
    | _ => .ok (alone, rest)

/-- The code point that a letter after a backslash stands for. -/
def escaped? (c : CodePoint) : Option CodePoint :=
  if c = doubleQuote ∨ c = backslash ∨ c = 0x2f then some c
  else (Value.letterEscapes.find? (·.2 == c)).map Prod.fst

/-- One code point of a text whose opening quote had `start` code points left. -/
def character (start : Nat) (c : CodePoint) (rest : List CodePoint) :
    Except Failure (CodePoint × List CodePoint) :=
  if c = backslash then
    match rest with
    | [] => .error (.fault .unterminatedString start)
    | letter :: after =>
      if letter = 0x75 then unicodeEscape rest
      else match escaped? letter with
        | some p => .ok (p, after)
        | none => faultAt .invalidEscape (c :: rest)
  else if c.val < 0x20 then faultAt .controlCharacter (c :: rest)
  else .ok (c, rest)

def characters (start : Nat) : Nat → Scan (List CodePoint)
  | 0, _ => .error (.fault .unterminatedString start)
  | _ + 1, [] => .error (.fault .unterminatedString start)
  | fuel + 1, c :: rest =>
    if c = doubleQuote then .ok ([], rest)
    else do
      let (p, rest) ← character start c rest
      let (points, rest) ← characters start fuel rest
      return (p :: points, rest)

/-- A text after its opening quote. -/
def string : Scan Text := fun points => do
  let (content, rest) ← characters (points.length + 1) (points.length + 1) points
  return (⟨content⟩, rest)

/-! ### Numbers -/

/-- Digits up to the first other code point. -/
def digits (points : List CodePoint) : List CodePoint × List CodePoint :=
  (points.takeWhile Decimal.isDigit, points.dropWhile Decimal.isDigit)

/-- The digits before the point: a zero stands alone. -/
def wholePart? : List CodePoint → Option (List CodePoint × List CodePoint)
  | [] => none
  | c :: rest =>
    if c = 0x30 then some ([c], rest)
    else if Decimal.isDigit c then some (digits (c :: rest))
    else none

/-- The digits after a point, of which there has to be one at least. -/
def fraction (points : List CodePoint) : List CodePoint × List CodePoint :=
  match points with
  | c :: rest =>
    let (found, after) := digits rest
    if c = point ∧ found ≠ [] then (found, after) else ([], points)
  | [] => ([], [])

/-- The exponent, with an optional sign and at least one digit. -/
def exponent (points : List CodePoint) : Option Int × List CodePoint :=
  match points with
  | c :: rest =>
    let (negative, unsigned) := match rest with
      | s :: tail => if s = minus then (true, tail) else if s = plus then (false, tail) else (false, rest)
      | [] => (false, [])
    let (found, after) := digits unsigned
    if (c = 0x65 ∨ c = 0x45) ∧ found ≠ [] then
      let n : Int := Decimal.value found
      (some (if negative then -n else n), after)
    else (none, points)
  | [] => (none, [])

def number : Scan Value := fun points =>
  let (negative, unsigned) := match points with
    | c :: rest => if c = minus then (true, rest) else (false, points)
    | [] => (false, [])
  match wholePart? unsigned with
  | none => faultAt .value points
  | some (whole, rest) =>
    let (part, rest) := fraction rest
    let (power, rest) := exponent rest
    if part.isEmpty && power.isNone then
      if Decimal.digitLimit < whole.length then .error (.digitLimit whole.length)
      else
        let n : Int := Decimal.value whole
        .ok (.int (if negative then -n else n), rest)
    else
      .ok (.float (Decimal.nearest negative (Decimal.value (whole ++ part))
        (power.getD 0 - part.length)), rest)

/-! ### Documents -/

/-- The words that stand for values. -/
def words : List (Text × Value) := [
  ("null", .null),
  ("true", .bool true),
  ("false", .bool false),
  ("NaN", .float ⟨0x7ff8000000000000⟩),
  ("Infinity", .float ⟨0x7ff0000000000000⟩),
  ("-Infinity", .float ⟨0xfff0000000000000⟩)]

def word? (points : List CodePoint) : Option (Value × List CodePoint) :=
  (words.find? fun (spelling, _) => spelling.points.isPrefixOf points).map fun (spelling, v) =>
    (v, points.drop spelling.length)

/-- One item or more with commas between them, up to the closing bracket. -/
def items (item : Scan α) (close : CodePoint) : Nat → Scan (List α)
  | 0, points => faultAt .value points
  | fuel + 1, points => do
    let (a, rest) ← item points
    match skip rest with
    | [] => faultAt .comma []
    | c :: after =>
      if c = close then return ([a], after)
      else if c = comma then
        let (others, rest) ← items item close fuel (skip after)
        return (a :: others, rest)
      else faultAt .comma (c :: after)

/-- The items of a list after its opening bracket. -/
def enclosed (item : Scan α) (close : CodePoint) : Scan (List α) := fun points =>
  let points := skip points
  let several := items item close (points.length + 1) points
  match points with
  | c :: rest => if c = close then .ok ([], rest) else several
  | [] => several

/-- An entry of an object. -/
def entry (value : Scan Value) : Scan (Text × Value)
  | [] => faultAt .propertyName []
  | c :: rest =>
    if c = doubleQuote then do
      let (key, rest) ← string rest
      match skip rest with
      | [] => faultAt .colon []
      | c :: after =>
        if c = colon then
          let (v, rest) ← value (skip after)
          return ((key, v), rest)
        else faultAt .colon (c :: after)
    else faultAt .propertyName (c :: rest)

/-- The first key that has occurred before. -/
def repeated? (seen : List Text) : List Text → Option Text
  | [] => none
  | key :: rest => if seen.contains key then some key else repeated? (key :: seen) rest

/-- An object after its opening bracket; its keys are compared when it is complete. -/
def object (value : Scan Value) : Scan (List (Text × Value)) := fun points => do
  let (entries, rest) ← enclosed (entry value) 0x7d points
  match repeated? [] (entries.map Prod.fst) with
  | some key => .error (.duplicateKey key)
  | none => return (entries, rest)

/-- A value with at most `depth` values around one another. -/
def value : Nat → Scan Value
  | 0, points => faultAt .value points
  | _ + 1, [] => faultAt .value []
  | depth + 1, c :: rest =>
    if c = doubleQuote then do
      let (t, rest) ← string rest
      return (.text t, rest)
    else if c = 0x7b then do
      let (entries, rest) ← object (value depth) rest
      return (.object entries, rest)
    else if c = 0x5b then do
      let (values, rest) ← enclosed (value depth) 0x5d rest
      return (.array values, rest)
    else match word? (c :: rest) with
      | some found => .ok found
      | none => number (c :: rest)

def document (points : List CodePoint) : Except Failure Value :=
  if points.head? = some 0xfeff then faultAt .byteOrderMark points
  else do
    let (v, rest) ← value (points.length + 1) (skip points)
    match skip rest with
    | [] => return v
    | left => faultAt .extraData left

/-- A failure with its place in the document: its line and its column, counted from one, and the
number of code points before it. -/
def Failure.locate (points : List CodePoint) : Failure → JsonError
  | .fault cause left =>
    let position := points.length - left
    let before := points.take position
    .fault cause (before.count 0x0a + 1) ((before.reverse.takeWhile (· ≠ 0x0a)).length + 1) position
  | .digitLimit digits => .digitLimit digits
  | .duplicateKey key => .duplicateKey key

/-- Reads a text that is one document. -/
def parse (t : Text) : Except JsonError Value :=
  (document t.points).mapError (Failure.locate t.points)

end Checkpoint.Json
