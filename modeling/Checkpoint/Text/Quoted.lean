import Checkpoint.Text.Printable
import Checkpoint.Bytes
/-!
Quoted text and byte strings, as messages show them.  The quote is a single one unless the content
holds single quotes and no double one.  Backslash, the quote itself and whatever is not printable
are escaped.
-/

namespace Checkpoint.Text

def hexDigit (n : Nat) : CodePoint :=
  if n % 16 < 10 then ⟨0x30 + n % 16, by omega⟩ else ⟨0x57 + n % 16, by omega⟩

/-- The `width` low digits of `n` in base sixteen. -/
def hexDigits : Nat → Nat → List CodePoint
  | 0, _ => []
  | width + 1, n => hexDigits width (n / 16) ++ [hexDigit n]

def singleQuote : CodePoint := 0x27
def doubleQuote : CodePoint := 0x22
def backslash : CodePoint := 0x5c

/-- A double quote, if that saves escaping single ones. -/
def quoteFor (points : List CodePoint) : CodePoint :=
  if points.contains singleQuote && !points.contains doubleQuote then doubleQuote
  else singleQuote

/-- The escapes shared by texts and byte strings. -/
def shortEscape? (quote c : CodePoint) : Option (List CodePoint) :=
  if c = quote ∨ c = backslash then some [backslash, c]
  else if c = 0x0a then some [backslash, 0x6e]
  else if c = 0x0d then some [backslash, 0x72]
  else if c = 0x09 then some [backslash, 0x74]
  else none

def byteEscape (n : Nat) : List CodePoint := [backslash, 0x78] ++ hexDigits 2 n

/-- Unprintable code points are escaped by the narrowest of three hexadecimal forms. -/
def quotePoint (quote c : CodePoint) : List CodePoint :=
  match shortEscape? quote c with
  | some escape => escape
  | none =>
    if isPrintable c then [c]
    else if c.val < 0x100 then byteEscape c.val
    else if c.val < 0x10000 then [backslash, 0x75] ++ hexDigits 4 c.val
    else [backslash, 0x55] ++ hexDigits 8 c.val

def quoted (t : Text) : Text :=
  let quote := quoteFor t.points
  ⟨[quote] ++ t.points.flatMap (quotePoint quote) ++ [quote]⟩

/-- Of a byte string only the printable part of ASCII is shown. -/
def quoteByte (quote : CodePoint) (b : UInt8) : List CodePoint :=
  let c : CodePoint := .ofByte b
  match shortEscape? quote c with
  | some escape => escape
  | none => if 0x20 ≤ b.toNat ∧ b.toNat < 0x7f then [c] else byteEscape b.toNat

def quotedBytes (bytes : Bytes) : Text :=
  let quote := quoteFor (bytes.map .ofByte)
  ⟨[0x62, quote] ++ bytes.flatMap (quoteByte quote) ++ [quote]⟩

/-- A sequence in brackets, as messages list names. -/
def bracketed (items : List Text) : Text :=
  "[" ++ intercalate ", " items ++ "]"

def quotedList (names : List Text) : Text := bracketed (names.map quoted)

/-- A tuple: a single item keeps its comma. -/
def parenthesized : List Text → Text
  | [t] => "(" ++ t ++ ",)"
  | items => "(" ++ intercalate ", " items ++ ")"

def ofInts (ns : List Int) : Text := bracketed (ns.map ofInt)

def tupleOfInts (ns : List Int) : Text := parenthesized (ns.map ofInt)

end Checkpoint.Text
