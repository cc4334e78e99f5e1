import Checkpoint.Binary.Format
import Checkpoint.Text
/-!
Element types and their names in the two file formats.  The storage classes and the header tags
give each type at most one name; a scalar type may be written under several, of which the first
is its own.
-/

namespace Checkpoint

inductive DType
  | float64 | float32 | float16 | bfloat16
  | int64 | int32 | int16 | int8
  | uint8 | uint16 | uint32 | uint64
  | bool
  | complex128 | complex64 | complex32
  | float8e4m3fn | float8e5m2 | float8e4m3fnuz | float8e5m2fnuz
  deriving DecidableEq, Repr, Inhabited

namespace DType

/-- How the bytes of an element are to be read. -/
inductive Layout
  | boolean
  | signed (size : Nat)
  | unsigned (size : Nat)
  | real (size : Nat) (format : Binary.Format)
  | complex (size : Nat) (format : Binary.Format)

def layout : DType → Layout
  | float64 => .real 8 .double
  | float32 => .real 4 .single
  | float16 => .real 2 .half
  | bfloat16 => .real 2 .brain
  | int64 => .signed 8
  | int32 => .signed 4
  | int16 => .signed 2
  | int8 => .signed 1
  | uint8 => .unsigned 1
  | uint16 => .unsigned 2
  | uint32 => .unsigned 4
  | uint64 => .unsigned 8
  | bool => .boolean
  | complex128 => .complex 8 .double
  | complex64 => .complex 4 .single
  | complex32 => .complex 2 .half
  | float8e4m3fn => .real 1 .e4m3fn
  | float8e5m2 => .real 1 .e5m2
  | float8e4m3fnuz => .real 1 .e4m3fnuz
  | float8e5m2fnuz => .real 1 .e5m2fnuz

/-- Bytes of one component: half an element for the complex types. -/
def componentSize (d : DType) : Nat :=
  match d.layout with
  | .boolean => 1
  | .signed size | .unsigned size | .real size _ | .complex size _ => size

/-- Bytes of one element. -/
def size (d : DType) : Nat :=
  match d.layout with
  | .complex size _ => 2 * size
  | _ => d.componentSize

def name : DType → String
  | float64 => "float64"
  | float32 => "float32"
  | float16 => "float16"
  | bfloat16 => "bfloat16"
  | int64 => "int64"
  | int32 => "int32"
  | int16 => "int16"
  | int8 => "int8"
  | uint8 => "uint8"
  | uint16 => "uint16"
  | uint32 => "uint32"
  | uint64 => "uint64"
  | bool => "bool"
  | complex128 => "complex128"
  | complex64 => "complex64"
  | complex32 => "complex32"
  | float8e4m3fn => "float8_e4m3fn"
  | float8e5m2 => "float8_e5m2"
  | float8e4m3fnuz => "float8_e4m3fnuz"
  | float8e5m2fnuz => "float8_e5m2fnuz"

def all : List DType := [
  float64, float32, float16, bfloat16, int64, int32, int16, int8, uint8, uint16, uint32, uint64,
  bool, complex128, complex64, complex32, float8e4m3fn, float8e5m2, float8e4m3fnuz, float8e5m2fnuz]

/-- The type as messages name it. -/
def shown (d : DType) : Text := Text.ofString ("torch." ++ d.name)

/-- The classes of storages that an archive's object graph refers to. -/
def storageClasses : List (String × DType) := [
  ("DoubleStorage", float64),
  ("FloatStorage", float32),
  ("HalfStorage", float16),
  ("BFloat16Storage", bfloat16),
  ("LongStorage", int64),
  ("IntStorage", int32),
  ("ShortStorage", int16),
  ("CharStorage", int8),
  ("ByteStorage", uint8),
  ("BoolStorage", bool),
  ("ComplexDoubleStorage", complex128),
  ("ComplexFloatStorage", complex64)]

/-- The names of scalar types that an object graph may refer to. -/
def scalarNames : List (String × DType) := [
  ("float64", float64), ("double", float64),
  ("float32", float32), ("float", float32),
  ("float16", float16), ("half", float16),
  ("bfloat16", bfloat16),
  ("int64", int64), ("long", int64),
  ("int32", int32), ("int", int32),
  ("int16", int16), ("short", int16),
  ("int8", int8),
  ("uint8", uint8),
  ("bool", bool),
  ("complex128", complex128), ("cdouble", complex128),
  ("complex64", complex64), ("cfloat", complex64)]

/-- The tags of the safetensors header. -/
def tags : List (String × DType) := [
  ("F64", float64),
  ("F32", float32),
  ("F16", float16),
  ("BF16", bfloat16),
  ("F8_E4M3", float8e4m3fn),
  ("F8_E5M2", float8e5m2),
  ("I64", int64),
  ("I32", int32),
  ("I16", int16),
  ("I8", int8),
  ("U64", uint64),
  ("U32", uint32),
  ("U16", uint16),
  ("U8", uint8),
  ("BOOL", bool),
  ("C64", complex64)]

def lookUp? (table : List (String × DType)) (name : Text) : Option DType :=
  (table.find? fun row => Text.ofString row.1 == name).map Prod.snd

def nameIn? (table : List (String × DType)) (d : DType) : Option Text :=
  (table.find? fun row => row.2 == d).map fun row => Text.ofString row.1

def storageClass? (d : DType) : Option Text := nameIn? storageClasses d
def ofStorageClass? (name : Text) : Option DType := lookUp? storageClasses name
def ofScalarName? (name : Text) : Option DType := lookUp? scalarNames name
def tag? (d : DType) : Option Text := nameIn? tags d
def ofTag? (name : Text) : Option DType := lookUp? tags name

end DType

end Checkpoint
