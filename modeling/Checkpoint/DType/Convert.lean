import Checkpoint.DType
import Checkpoint.Bytes
/-!
Conversion of single elements between types.  To a narrower float the value is rounded to nearest;
to an integer it is truncated and then wrapped; a complex number gives its real part, except that
truth is asked of both parts.
-/

namespace Checkpoint.DType

open Binary

/-- An element: a whole number, or one or two words of a binary format. -/
inductive Element
  | integer (n : Int)
  | real (format : Format) (word : Nat)
  | complex (format : Format) (re im : Nat)

def Element.ofBytes (d : DType) (bytes : Bytes) : Element :=
  match d.layout with
  | .boolean => .integer (if Bytes.fromLittleEndian bytes = 0 then 0 else 1)
  | .signed _ => .integer (Bytes.fromLittleEndianSigned bytes)
  | .unsigned _ => .integer (Bytes.fromLittleEndian bytes)
  | .real _ format => .real format (Bytes.fromLittleEndian bytes)
  | .complex size format =>
    .complex format (Bytes.fromLittleEndian (bytes.take size))
      (Bytes.fromLittleEndian (bytes.drop size))

namespace Element

def ofInt (n : Int) : Number := .finite (n < 0) n.natAbs 0

/-- Whether the element differs from zero; a NaN does. -/
def isTrue : Element → Bool
  | .integer n => n ≠ 0
  | .real format word => !(format.decode word).isZero
  | .complex format re im => !(format.decode re).isZero || !(format.decode im).isZero

def realPart : Element → Number
  | .integer n => ofInt n
  | .real format word => format.decode word
  | .complex format re _ => format.decode re

/-- Formats narrower than single precision are reached through it, so that a value is rounded
twice. -/
def isNarrow (target : Format) : Bool := target.fractionBits < Format.single.fractionBits

def convertWord (target source : Format) (word : Nat) : Nat :=
  if source ≠ target ∧ isNarrow target then
    Format.single.convert target (source.convert .single word)
  else source.convert target word

def wordOfInt (target : Format) (n : Int) : Nat :=
  if isNarrow target then Format.single.convert target (Format.single.encode (ofInt n))
  else target.encode (ofInt n)

def realWord (target : Format) : Element → Nat
  | .integer n => wordOfInt target n
  | .real format word => convertWord target format word
  | .complex format re _ => convertWord target format re

def imaginaryWord (target : Format) : Element → Nat
  | .complex format _ im => convertWord target format im
  | _ => 0

/-- The integer part, if it fits into `bits` binary digits in two's complement, and otherwise the
least such integer. -/
def clampedInt (bits : Nat) (x : Number) : Int :=
  let least : Int := -(Nat.pow 2 (bits - 1) : Nat)
  match x.truncate? with
  | some n => if least ≤ n ∧ n < -least then n else least
  | none => least

/-- The integer before it is wrapped to the target's size.  Conversion has 32 bits for two bytes and
for signed types below eight, and 64 bits for the others.  Eight unsigned bytes take what is above the
signed range too, and are zero for what is beyond their own. -/
def toInt (size : Nat) (signed : Bool) : Element → Int
  | .integer n => n
  | e =>
    let x := e.realPart
    let clamped := clampedInt (if size = 2 || signed && size < 8 then 32 else 64) x
    if size = 8 ∧ !signed then
      match x, x.truncate? with
      | .infinity false, _ => 0
      | _, some n => if n < 0 then clamped else if n < 0x10000000000000000 then n else 0
      | _, none => clamped
    else clamped

def toBytes (d : DType) (e : Element) : Bytes :=
  match d.layout with
  | .boolean => [if e.isTrue then 1 else 0]
  | .signed size => Bytes.littleEndianSigned size (e.toInt size true)
  | .unsigned size => Bytes.littleEndianSigned size (e.toInt size false)
  | .real size format => Bytes.littleEndian size (e.realWord format)
  | .complex size format =>
    Bytes.littleEndian size (e.realWord format) ++
      Bytes.littleEndian size (e.imaginaryWord format)

end Element

/-- Converts the bytes of one element; the same type copies them as they are, except that a truth
value becomes 0 or 1. -/
def convert (source target : DType) (bytes : Bytes) : Bytes :=
  if source = target ∧ source ≠ .bool then bytes
  else (Element.ofBytes source bytes).toBytes target

/-- The word that stands for every NaN where elements without gaps between them are converted to or
from single precision. -/
def runNaN? : DType → DType → Option Nat
  | float32, float16 => some 0x7fff
  | float16, float32 => some 0x7fffffff
  | float32, bfloat16 => some 0xffff
  | _, _ => none

/-- How many elements without gaps are converted at once. -/
def groupSize : Nat := 8

/-- How many of `count` elements are converted before `runNaN?` comes to bear: between single and half
precision all whole groups but the last. -/
def groupedCount (target : DType) (count : Nat) : Nat :=
  if target = .bfloat16 then 0 else (count - 1) / groupSize * groupSize

def isNaN (d : DType) (bytes : Bytes) : Bool :=
  match Element.ofBytes d bytes with
  | .real format word => match format.decode word with
    | .nan .. => true
    | _ => false
  | _ => false

/-- Converts elements that have no gaps between them on either side. -/
def convertRun (source target : DType) (elements : List Bytes) : List Bytes :=
  match runNaN? source target with
  | none => elements.map (convert source target)
  | some word =>
    let grouped := groupedCount target elements.length
    (elements.take grouped).map (convert source target) ++
      (elements.drop grouped).map fun bytes =>
        if isNaN source bytes then Bytes.littleEndian target.size word
        else convert source target bytes

end Checkpoint.DType
