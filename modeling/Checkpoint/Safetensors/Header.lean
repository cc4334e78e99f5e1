import Checkpoint.Config
import Checkpoint.Json.Scan
import Checkpoint.Tensor
import Checkpoint.Text.Utf8
/-!
Headers of safetensors files: for each tensor its type, its shape, and the range of the payload that
holds its elements.  The ranges of all tensors tile the payload: each begins where the one before it
ends.
-/

namespace Checkpoint.Safetensors

structure Entry where
  name : Text
  dtype : DType
  shape : List Nat
  /-- The range of the payload: its first byte, and the first byte after it. -/
  start : Nat
  stop : Nat
  deriving DecidableEq, Inhabited

namespace Entry

/-- How many bytes the range holds. -/
def size (e : Entry) : Nat := e.stop - e.start

/-- How many bytes elements of this type and shape need. -/
def needed (e : Entry) : Nat := Shape.count e.shape * e.dtype.size

/-- The order of the payload: by the start of the range, then by its end. -/
def before (a b : Entry) : Bool :=
  a.start < b.start || (a.start == b.start && a.stop ≤ b.stop)

end Entry

structure Header where
  /-- The entries in the order of the document; their names differ. -/
  entries : List Entry := []
  metadata : Option (List (Text × Text)) := none
  deriving DecidableEq, Inhabited

namespace Header

def names (h : Header) : List Text := h.entries.map Entry.name

/-- The end of the last range. -/
def payloadSize (h : Header) : Nat := (h.entries.map Entry.stop).foldl max 0

/-- The entries in the order of the payload. -/
def inFileOrder (h : Header) : List Entry := h.entries.mergeSort Entry.before

end Header

/-- The one name that no tensor may have. -/
def metadataKey : Text := "__metadata__"

/-! ### As a document -/

open Json (Value)

/-- A list of whole numbers that are not negative. -/
def counts? : Value → Option (List Nat)
  | .array items => items.mapM fun
    | .int (.ofNat n) => some n
    | _ => none
  | _ => none

/-- The only pairs that metadata may hold are pairs of texts. -/
def textPairs : List (Value × Value) → Except Error (List (Text × Text))
  | [] => .ok []
  | (.text key, .text value) :: rest => return (key, value) :: (← textPairs rest)
  | _ => .error (.malformedHeader .metadata)

namespace Entry

def field (name : Text) (fields : List (Text × Value)) (key : String) : Except HeaderError Value :=
  match fields.find? (·.1 == Text.ofString key) with
  | some (_, v) => .ok v
  | none => .error (.missingField name key)

/-- An entry from the document; the type is looked up when all else is in order. -/
def ofJson (name : Text) (v : Value) : Except Error Entry :=
  match v with
  | .object fields => do
    let (tag, shape, offsets) ← Except.mapError .malformedHeader do
      return (← field name fields "dtype", ← field name fields "shape",
        ← field name fields "data_offsets")
    match tag with
    | .text tag =>
      match counts? shape with
      | none => .error (.malformedHeader (.shape name shape.shown))
      | some dims =>
        match counts? offsets with
        | some [start, stop] =>
          if stop < start then .error (.malformedHeader (.endBeforeBegin name offsets.shown))
          else match DType.ofTag? tag with
            | some dtype => .ok { name, dtype, shape := dims, start, stop }
            | none => .error (.unsupportedDType (.unknownTag tag))
        | _ => .error (.malformedHeader (.offsets name offsets.shown))
    | _ => .error (.malformedHeader (.dtypeNotText name))
  | _ => .error (.malformedHeader (.entryNotAnObject name))

def count (n : Nat) : Value := .int n

def toJson (e : Entry) : Except Error Value :=
  match e.dtype.tag? with
  | none => .error (.unsupportedDType (.noTag e.dtype))
  | some tag => .ok (.object [
    ("dtype", .text tag),
    ("shape", .array (e.shape.map count)),
    ("data_offsets", .array [count e.start, count e.stop])])

end Entry

namespace Header

/-- Adds one field of the document to the header. -/
def enter (h : Header) (field : Text × Value) : Except Error Header :=
  let (key, v) := field
  if key = metadataKey then
    match v with
    | .object fields => do
      let pairs ← textPairs (fields.map fun (key, v) => (.text key, v))
      return { h with metadata := some pairs }
    | _ => .error (.malformedHeader .metadata)
  else do
    let e ← Entry.ofJson key v
    return { h with entries := h.entries ++ [e] }

/-- A header from its text; the ranges are not checked. -/
def ofText (t : Text) : Except Error Header :=
  match Json.parse t with
  | .error (.fault cause line column position) =>
    .error (.malformedHeader (.syntaxFault cause line column position))
  | .error (.digitLimit digits) => .error (.malformedHeader (.digitLimit digits))
  | .error (.duplicateKey key) => .error (.malformedHeader (.duplicateKey key))
  | .ok (.object fields) => fields.foldlM enter {}
  | .ok _ => .error (.malformedHeader .notAnObject)

/-- The text of a header, with the metadata first. -/
def toText (h : Header) : Except Error Text := do
  let metadata := match h.metadata with
    | some pairs => [(metadataKey, Value.object (pairs.map fun (key, v) => (key, .text v)))]
    | none => []
  let entries ← h.entries.mapM fun e => return (e.name, ← e.toJson)
  return (Value.object (metadata ++ entries)).compact

/-! ### Ranges -/

/-- Each range holds as many bytes as its type and shape need. -/
def checkSizes : List Entry → Except Error Unit
  | [] => .ok ()
  | e :: rest =>
    if e.size = e.needed then checkSizes rest
    else if Decimal.isPrintable e.needed then
      .error (.malformedHeader (.span e.name e.size e.needed e.shape))
    else .error (.rangeFault .digits)

/-- Each range begins where the one before it ended, the first at `position`; says where the last
one ends. -/
def checkOrder : Nat → List Entry → Except HeaderError Nat
  | position, [] => .ok position
  | position, e :: rest =>
    if e.start = position then checkOrder e.stop rest
    else if e.start < position then .error (.overlap e.name position e.start e.stop)
    else .error (.gap e.name position e.start e.stop)

/-- Checks that the ranges have the right sizes and tile the payload, whose size may be unknown. -/
def validate (h : Header) (payload : Option Int) : Except Error Unit := do
  checkSizes h.entries
  let covered ← (checkOrder 0 h.inFileOrder).mapError .malformedHeader
  match payload with
  | none => return
  | some held =>
    if (covered : Int) ≠ held then .error (.malformedHeader (.payload covered held)) else return

/-! ### As bytes -/

/-- Bytes of the number that says how long the text of the header is. -/
def lengthSize : Nat := 8

/-- A header as bytes: the length of its text, and the text. -/
def encode (config : Config) (h : Header) : Except Error Bytes := do
  let t ← h.toText
  match t.strictUtf8? with
  | none => .error .unencodableText
  | some bytes =>
    if config.maxHeaderSize < bytes.length then
      .error (.malformedHeader (.tooLarge bytes.length config.maxHeaderSize))
    else return Bytes.littleEndian lengthSize bytes.length ++ bytes

/-- Reads the bytes of a header's text, and checks its ranges. -/
def decode (bytes : Bytes) (payload : Option Int) : Except Error Header :=
  match Text.ofStrictUtf8? bytes with
  | none => .error (.malformedHeader .notUtf8)
  | some t => do
    let h ← ofText t
    h.validate payload
    return h

end Header

end Checkpoint.Safetensors
