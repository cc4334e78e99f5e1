import Checkpoint.Decimal.Shortest
import Checkpoint.Text.Quoted
/-!
JSON documents and their two texts: the one that messages show, and the compact one that is
written to files.  Numbers are whole numbers of any size or doubles, texts may hold surrogates, and
objects keep the order of their entries.
-/

namespace Checkpoint.Json

open Text

inductive Value
  | null
  | bool (b : Bool)
  | int (n : Int)
  | float (x : Double)
  | text (t : Text)
  | array (items : List Value)
  | object (entries : List (Text × Value))
  deriving Inhabited

namespace Value

mutual

/-- A document as messages show it. -/
def shown : Value → Text
  | .null => "None"
  | .bool true => "True"
  | .bool false => "False"
  | .int n => ofInt n
  | .float x => Decimal.ofDouble x
  | .text t => t.quoted
  | .array items => bracketed (shownItems items)
  | .object entries => "\x7b" ++ intercalate ", " (shownEntries entries) ++ "\x7d"

def shownItems : List Value → List Text
  | [] => []
  | v :: rest => shown v :: shownItems rest

def shownEntries : List (Text × Value) → List Text
  | [] => []
  | (key, v) :: rest => (key.quoted ++ ": " ++ shown v) :: shownEntries rest

end

/-- The escapes that have a letter. -/
def letterEscapes : List (CodePoint × CodePoint) :=
  [(0x08, 0x62), (0x0c, 0x66), (0x0a, 0x6e), (0x0d, 0x72), (0x09, 0x74)]

/-- Only the quote, the backslash and control characters are escaped. -/
def escape (c : CodePoint) : List CodePoint :=
  if c = doubleQuote ∨ c = backslash then [backslash, c]
  else if c.val < 0x20 then
    match letterEscapes.find? (·.1 == c) with
    | some (_, letter) => [backslash, letter]
    | none => [backslash, 0x75] ++ hexDigits 4 c.val
  else [c]

/-- A text as a document. -/
def literal (t : Text) : Text :=
  ⟨[doubleQuote] ++ t.points.flatMap escape ++ [doubleQuote]⟩

/-- The spelling of a double, of which the infinities and what is not a number have words. -/
def doubleLiteral (x : Double) : Text :=
  match x.toNumber with
  | .nan .. => "NaN"
  | .infinity negative => if negative then "-Infinity" else "Infinity"
  | .finite .. => Decimal.ofDouble x

mutual

/-- A document without any blanks. -/
def compact : Value → Text
  | .null => "null"
  | .bool true => "true"
  | .bool false => "false"
  | .int n => ofInt n
  | .float x => doubleLiteral x
  | .text t => literal t
  | .array items => "[" ++ intercalate "," (compactItems items) ++ "]"
  | .object entries => "\x7b" ++ intercalate "," (compactEntries entries) ++ "\x7d"

def compactItems : List Value → List Text
  | [] => []
  | v :: rest => compact v :: compactItems rest

def compactEntries : List (Text × Value) → List Text
  | [] => []
  | (key, v) :: rest => (literal key ++ ":" ++ compact v) :: compactEntries rest

end

end Value

end Checkpoint.Json
