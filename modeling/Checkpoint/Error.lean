import Checkpoint.DType
import Checkpoint.Text.Quoted
/-!
What can go wrong, one type of causes for each kind of failure, with the wording of each cause in
its `message`.  Values that a message shows are kept as they were shown when the failure arose.
-/

namespace Checkpoint

open Text

/-- Why a member of an archive cannot be read. -/
inductive Corruption
  | truncatedHeader
  | badMagic
  | nameDiffers (directory : Text) (header : Bytes)
  | overlap (name : Text)
  | badChecksum (name : Text)
  deriving DecidableEq

def Corruption.message : Corruption → Text
  | .truncatedHeader => "Truncated file header"
  | .badMagic => "Bad magic number for file header"
  | .nameDiffers directory header =>
    "File name in directory " ++ directory.quoted ++ " and header " ++ quotedBytes header ++
      " differ."
  | .overlap name => "Overlapped entries: " ++ name.quoted ++ " (possible zip bomb)"
  | .badChecksum name => "Bad CRC-32 for file " ++ name.quoted

/-- How a call has the wrong number of arguments. -/
inductive Arity
  | missing (parameters : List String)
  | excess (least most given : Nat)
  deriving DecidableEq

/-- Names in single quotes, with `and` before the last. -/
def Arity.enumerate (names : List String) : Text :=
  let shown := names.map fun n => Text.ofString ("'" ++ n ++ "'")
  match shown.reverse with
  | [] => ""
  | [a] => a
  | [b, a] => a ++ " and " ++ b
  | last :: rest => intercalate ", " rest.reverse ++ ", and " ++ last

def Arity.message (function : Text) : Arity → Text
  | .missing parameters =>
    function ++ "() missing " ++ ofNat parameters.length ++ " required positional argument" ++
      (if parameters.length = 1 then "" else "s") ++ ": " ++ enumerate parameters
  | .excess least most given =>
    function ++ "() takes " ++
      (if least = most then ofNat most else "from " ++ ofNat least ++ " to " ++ ofNat most) ++
      " positional argument" ++ (if most = 1 then "" else "s") ++ " but " ++ ofNat given ++
      (if given = 1 then " was given" else " were given")

/-- Why an archive or its object stream is refused: it uses something that is not allowed. -/
inductive ProtocolError
  | notAnArchive
  | scriptArchive
  | noVersion
  | invalidVersion (record : Bytes)
  | unsupportedVersion (version : Int)
  | unknownByteOrder (record : Bytes)
  | corruptMember (name : Text) (cause : Corruption)
  | opcode (name : Text) (offset : Nat)
  | truncated (offset : Nat)
  | stackDepth (limit : Nat)
  | underflow (offset : Int)
  | noMark (offset : Int)
  | protocolVersion (version : Nat)
  | frame (size : Nat)
  | invalidUtf8 (offset : Nat)
  | nonAscii (offset : Nat)
  | appendOnto (type : Text)
  | setItemOnto (type : Text)
  | unhashableKey (offset : Int)
  | unhashableOrderedKey
  | oddItems
  | memoSize (limit : Int)
  | memoUndefined (index : Nat)
  | globalName (module name : Text)
  | globalNotText
  | notCallable (shown : Text)
  | argumentsType (type : Text)
  | arguments (module function : Text) (arity : Arity)
  | orderedArguments (shown : Text)
  | tensorHooks
  | parameterHooks
  | tensorMetadata (shown : Text)
  | tensorState
  | attribute (shown : Text)
  | buildOnto (type : Text)
  | persistentId (shown : Text)
  | persistentType (shown : Text)
  | persistentStorage (shown : Text)
  deriving DecidableEq

def ProtocolError.message : ProtocolError → Text
  | .notAnArchive => "Not a zip archive: the legacy torch.save format is not supported"
  | .scriptArchive => "TorchScript archives are not supported"
  | .noVersion => "Archive has no version record"
  | .invalidVersion record => "Invalid version record: " ++ quotedBytes (record.take 16)
  | .unsupportedVersion version => "Unsupported archive version: " ++ ofInt version
  | .unknownByteOrder record => "Unknown endianness type: " ++ quotedBytes (record.take 16)
  | .corruptMember name cause =>
    "Corrupt archive member " ++ name.quoted ++ ": " ++ cause.message
  | .opcode name offset =>
    "Opcode " ++ name ++ " at offset " ++ ofNat offset ++ " is not allowed"
  | .truncated offset => "Pickle stream truncated at offset " ++ ofNat offset
  | .stackDepth limit => "Stack depth exceeds " ++ ofNat limit
  | .underflow offset => "Stack underflow at offset " ++ ofInt offset
  | .noMark offset => "No MARK to pop at offset " ++ ofInt offset
  | .protocolVersion version => "Unsupported pickle protocol: " ++ ofNat version
  | .frame size => "Frame of " ++ ofNat size ++ " bytes runs past the end of the stream"
  | .invalidUtf8 offset => "Invalid UTF-8 string at offset " ++ ofNat offset
  | .nonAscii offset => "Non-ASCII legacy string at offset " ++ ofNat offset
  | .appendOnto type => "APPEND onto " ++ type
  | .setItemOnto type => "SETITEM onto " ++ type
  | .unhashableKey offset => "Unhashable dict key at offset " ++ ofInt offset
  | .unhashableOrderedKey => "Unhashable OrderedDict key"
  | .oddItems => "SETITEMS with an odd number of items"
  | .memoSize limit => "Memo exceeds " ++ ofInt limit ++ " entries"
  | .memoUndefined index => "Memo entry " ++ ofNat index ++ " is not defined"
  | .globalName module name => "Global " ++ module ++ "." ++ name ++ " is not allowed"
  | .globalNotText => "STACK_GLOBAL requires str module and name"
  | .notCallable shown => "REDUCE on non-callable " ++ shown
  | .argumentsType type => "REDUCE arguments must be a tuple, got " ++ type
  | .arguments module function arity =>
    "Bad arguments for " ++ module ++ "." ++ function ++ ": " ++ arity.message function
  | .orderedArguments shown => "Unsupported OrderedDict arguments: " ++ shown
  | .tensorHooks => "Tensors with backward hooks are not supported"
  | .parameterHooks => "Parameters with backward hooks are not supported"
  | .tensorMetadata shown => "Tensor metadata is not supported: " ++ shown
  | .tensorState => "Tensor state updates are not supported"
  | .attribute shown => "Attribute " ++ shown ++ " is not allowed"
  | .buildOnto type => "BUILD on " ++ type ++ " is not allowed"
  | .persistentId shown => "Unsupported persistent id: " ++ shown
  | .persistentType shown => "Unknown persistent id type: " ++ shown
  | .persistentStorage shown => "Persistent id has no storage type: " ++ shown

/-- The two sequences of whole numbers that describe a tensor. -/
inductive TensorField
  | size
  | stride
  deriving DecidableEq

def TensorField.name : TensorField → Text
  | .size => "size"
  | .stride => "stride"

/-- Why data that was read or given is not a flat mapping of names to tensors that fit their
storages. -/
inductive StructureError
  | noObjectRecord
  | severalRoots (roots : List Text)
  | tensorSequence (field : TensorField) (shown : Text)
  | tensorStorage (shown : Text)
  | tensorOffset (shown : Text)
  | requiresGrad (shown : Text)
  | parameterData (shown : Text)
  | storageKey (key location : Text)
  | storageCount (shown : Text)
  | valuesLeft
  | topLevel (type : Text)
  | nameType (shown : Text)
  | notATensor (shown : Text)
  | storageTypes (key : Text) (first second : DType)
  | storageLength (key : Text) (actual : Nat) (expected count : Int) (dtype : DType)
  | unregistered (key : Text)
  | viewType (dtype : DType) (key : Text) (storage : DType)
  | rank (shape stride : List Int)
  | negative (shape stride : List Int) (offset : Int)
  | exceeds (shape stride : List Int) (offset : Int) (key : Text) (count : Int)
  | cannotEncode (type : Text)
  | integerWidth (bytes : Nat)
  | mixedTypes
  | valueNotTensor (shown : Text)
  | notContiguous (shown : Text)
  deriving DecidableEq

def StructureError.message : StructureError → Text
  | .noObjectRecord => "Archive has no data.pkl member"
  | .severalRoots roots => "Archive has several root folders: " ++ quotedList (sort roots)
  | .tensorSequence field shown =>
    "Tensor " ++ field.name ++ " must be a tuple of ints, got " ++ shown
  | .tensorStorage shown => "Tensor storage must be a persistent reference, got " ++ shown
  | .tensorOffset shown => "Tensor storage offset must be an int, got " ++ shown
  | .requiresGrad shown => "requires_grad must be a bool, got " ++ shown
  | .parameterData shown => "Parameter data must be a tensor, got " ++ shown
  | .storageKey key location => "Invalid storage key or location: " ++ key ++ ", " ++ location
  | .storageCount shown => "Invalid storage size: " ++ shown
  | .valuesLeft => "Pickle stream stopped with values left on the stack"
  | .topLevel type => "Top-level object is a " ++ type ++ ", expected a mapping"
  | .nameType shown => "State dict key " ++ shown ++ " is not a string"
  | .notATensor shown => "State dict value for " ++ shown ++ " is not a tensor"
  | .storageTypes key first second =>
    "Storage " ++ key.quoted ++ " referenced as both " ++ first.shown ++ " and " ++ second.shown
  | .storageLength key actual expected count dtype =>
    "Storage " ++ key.quoted ++ " holds " ++ ofNat actual ++ " bytes, expected " ++
      ofInt expected ++ " (" ++ ofInt count ++ " x " ++ dtype.shown ++ ")"
  | .unregistered key => "Tensor refers to unregistered storage " ++ key.quoted
  | .viewType dtype key storage =>
    "Tensor dtype " ++ dtype.shown ++ " does not match storage " ++ key.quoted ++ " (" ++
      storage.shown ++ ")"
  | .rank shape stride =>
    "Shape " ++ tupleOfInts shape ++ " and stride " ++ tupleOfInts stride ++ " differ in rank"
  | .negative shape stride offset =>
    "Negative shape, stride or offset: " ++ tupleOfInts shape ++ ", " ++ tupleOfInts stride ++
      ", " ++ ofInt offset
  | .exceeds shape stride offset key count =>
    "Tensor view " ++ tupleOfInts shape ++ "/" ++ tupleOfInts stride ++ "+" ++ ofInt offset ++
      " exceeds storage " ++ key.quoted ++ " of " ++ ofInt count ++ " elements"
  | .cannotEncode type => "Cannot pickle " ++ type ++ " in a state dict"
  | .integerWidth bytes => "Integer too large to pickle: " ++ ofNat bytes ++ " bytes"
  | .mixedTypes => "Cannot save multiple tensors that view the same data as different types"
  | .valueNotTensor shown => "Value for " ++ shown ++ " is not a tensor"
  | .notContiguous shown => "Tensor " ++ shown ++ " is not contiguous"

/-- Why an element type or its name has no counterpart. -/
inductive DTypeError
  | noStorageClass (dtype : DType)
  | unknownStorageClass (name : Text)
  | noTag (dtype : DType)
  | unknownTag (tag : Text)
  deriving DecidableEq

def DTypeError.message : DTypeError → Text
  | .noStorageClass dtype => "No pickle storage type for dtype " ++ dtype.shown
  | .unknownStorageClass name => "Unsupported storage type: torch." ++ name
  | .noTag dtype => "No safetensors tag for dtype " ++ dtype.shown
  | .unknownTag tag => "Unsupported safetensors dtype: " ++ tag.quoted

/-- Why a text is not a JSON document: the fault and the position, in code points, where it was
found. -/
inductive JsonFault
  | value
  | propertyName
  | colon
  | comma
  | extraData
  | unterminatedString
  | controlCharacter
  | invalidEscape
  | invalidUnicodeEscape
  | byteOrderMark
  deriving DecidableEq

def JsonFault.message : JsonFault → String
  | .value => "Expecting value"
  | .propertyName => "Expecting property name enclosed in double quotes"
  | .colon => "Expecting ':' delimiter"
  | .comma => "Expecting ',' delimiter"
  | .extraData => "Extra data"
  | .unterminatedString => "Unterminated string starting at"
  | .controlCharacter => "Invalid control character at"
  | .invalidEscape => "Invalid \\escape"
  | .invalidUnicodeEscape => "Invalid \\uXXXX escape"
  | .byteOrderMark => "Unexpected UTF-8 BOM (decode using utf-8-sig)"

inductive JsonError
  | fault (cause : JsonFault) (line column position : Nat)
  | digitLimit (digits : Nat)
  | duplicateKey (key : Text)
  deriving DecidableEq

/-- Why a safetensors header is not valid. -/
inductive HeaderError
  | lengthMissing (got : Nat)
  | tooLarge (length limit : Nat)
  | truncated (expected got : Nat)
  | notUtf8
  | syntaxFault (cause : JsonFault) (line column position : Nat)
  | digitLimit (digits : Nat)
  | notAnObject
  | duplicateKey (key : Text)
  | metadata
  | reservedName
  | entryNotAnObject (name : Text)
  | missingField (name : Text) (field : String)
  | dtypeNotText (name : Text)
  | shape (name shown : Text)
  | offsets (name shown : Text)
  | endBeforeBegin (name shown : Text)
  | span (name : Text) (actual expected : Int) (shape : List Nat)
  | overlap (name : Text) (position : Nat) (first last : Nat)
  | gap (name : Text) (position : Nat) (first last : Nat)
  | payload (covered : Nat) (held : Int)
  deriving DecidableEq

def HeaderError.message : HeaderError → Text
  | .lengthMissing got => "Stream too short for a header length (" ++ ofNat got ++ " bytes)"
  | .tooLarge length limit => "Header too large: " ++ ofNat length ++ " > " ++ ofNat limit
  | .truncated expected got =>
    "Truncated header: expected " ++ ofNat expected ++ " bytes, got " ++ ofNat got
  | .notUtf8 => "Header is not valid UTF-8"
  | .syntaxFault cause line column position =>
    "Header is not valid JSON: " ++ Text.ofString cause.message ++ ": line " ++ ofNat line ++
      " column " ++ ofNat column ++ " (char " ++ ofNat position ++ ")"
  | .digitLimit digits =>
    "Header is not valid JSON: Exceeds the limit (4300 digits) for integer string conversion: " ++
      "value has " ++ ofNat digits ++
      " digits; use sys.set_int_max_str_digits() to increase the limit"
  | .notAnObject => "Header is not a JSON object"
  | .duplicateKey key => "Duplicate header key: " ++ key.quoted
  | .metadata => "__metadata__ must map strings to strings"
  | .reservedName => "__metadata__ is reserved and cannot name a tensor"
  | .entryNotAnObject name => "Entry for " ++ name.quoted ++ " is not an object"
  | .missingField name field =>
    "Entry for " ++ name.quoted ++ " has no " ++ (Text.ofString field).quoted ++ " field"
  | .dtypeNotText name => "Entry for " ++ name.quoted ++ " has a non-string dtype"
  | .shape name shown => "Entry for " ++ name.quoted ++ " has an invalid shape: " ++ shown
  | .offsets name shown => "Entry for " ++ name.quoted ++ " has invalid data_offsets: " ++ shown
  | .endBeforeBegin name shown =>
    "Entry for " ++ name.quoted ++ " ends before it begins: " ++ shown
  | .span name actual expected dims =>
    "Entry for " ++ name.quoted ++ " spans " ++ ofInt actual ++ " bytes, expected " ++
      ofInt expected ++ " for shape " ++ bracketed (dims.map ofNat)
  | .overlap name position first last =>
    "Entry for " ++ name.quoted ++ " overlaps offset " ++ ofNat position ++ " (data_offsets [" ++
      ofNat first ++ ", " ++ ofNat last ++ "])"
  | .gap name position first last =>
    "Entry for " ++ name.quoted ++ " leaves a gap before offset " ++ ofNat position ++
      " (data_offsets [" ++ ofNat first ++ ", " ++ ofNat last ++ "])"
  | .payload covered held =>
    "Tensors cover " ++ ofNat covered ++ " bytes but the payload holds " ++ ofInt held

/-- What was being done when a stream failed. -/
inductive StreamError
  | openArchive (reason : Text)
  | openPath (path reason : Text)
  | readMember (name reason : Text)
  | writeMember (name reason : Text)
  | finalizeArchive (reason : Text)
  | writeArchive (reason : Text)
  | readTensors (reason : Text)
  | seekTensors (reason : Text)
  | queryTensors (reason : Text)
  | writeTensors (reason : Text)
  | payloadEnds (name : Text) (expected got : Nat)
  | payloadEndsInGap
  deriving DecidableEq

def StreamError.message : StreamError → Text
  | .openArchive reason => "Failed to read archive: " ++ reason
  | .openPath path reason => "Failed to open " ++ path ++ ": " ++ reason
  | .readMember name reason => "Failed to read " ++ name.quoted ++ ": " ++ reason
  | .writeMember name reason => "Failed to write " ++ name.quoted ++ ": " ++ reason
  | .finalizeArchive reason => "Failed to finalize archive: " ++ reason
  | .writeArchive reason => "Failed to write archive: " ++ reason
  | .readTensors reason => "Failed to read safetensors stream: " ++ reason
  | .seekTensors reason => "Failed to seek safetensors stream: " ++ reason
  | .queryTensors reason => "Failed to query safetensors stream: " ++ reason
  | .writeTensors reason => "Failed to write safetensors stream: " ++ reason
  | .payloadEnds name expected got =>
    "Unexpected end of stream reading " ++ name.quoted ++ ": expected " ++ ofNat expected ++
      " bytes, got " ++ ofNat got
  | .payloadEndsInGap => "Unexpected end of stream while skipping payload"

inductive ConfigError
  | stackDepth (given : Int)
  | headerSize (given : Int)
  | alignment (given : Int)
  | batchSize (given : Int)
  | archiveName (given : Text)
  deriving DecidableEq

def ConfigError.message : ConfigError → Text
  | .stackDepth given => "max_stack_depth must be positive, got " ++ ofInt given
  | .headerSize given => "max_header_size must be positive, got " ++ ofInt given
  | .alignment given => "storage_alignment must be >= 0, got " ++ ofInt given
  | .batchSize given => "pickle_batch_size must be positive, got " ++ ofInt given
  | .archiveName given => "Invalid archive name: " ++ given.quoted

/-- Why a tensor cannot be made, copied into, or taken as bytes. -/
inductive TensorFault
  /-- The target has one element in several places. -/
  | repeatedElements
  /-- Source and target share some elements, or all in another order. -/
  | partialOverlap
  /-- The elements are evenly spaced, with gaps. -/
  | gaps
  /-- The number of elements, or of those that a stride spans, is too large. -/
  | tooLarge
  /-- The elements reach past the end of the storage. -/
  | beyondStorage
  /-- One truth value is asked of a comparison that has several, or none. -/
  | ambiguous
  deriving DecidableEq

/-- How a value is of the wrong type. -/
inductive TypeFault
  | notACollection
  | unhashableKey
  | incomparable
  | notAnIndex
  /-- A key that no document can have. -/
  | documentKey
  /-- A size, stride or offset that is not a machine integer. -/
  | dimension
  deriving DecidableEq

/-- How a value is out of range. -/
inductive RangeFault
  /-- Pairs have two items. -/
  | pairSize (given : Nat)
  | byte
  | nulInPath
  | batchSize
  /-- A number is too long to be shown in a message. -/
  | digits
  deriving DecidableEq

def RangeFault.message : RangeFault → Text
  | .pairSize 0 => "need more than 0 values to unpack"
  | .pairSize 1 => "need more than 1 value to unpack"
  | .pairSize _ => "too many values to unpack (expected 2)"
  | .byte => "bytes must be in range(0, 256)"
  | .nulInPath => "embedded null byte"
  | .batchSize =>
    "Stop argument for islice() must be None or an integer: 0 <= x <= sys.maxsize."
  | .digits =>
    "Exceeds the limit (4300 digits) for integer string conversion; " ++
      "use sys.set_int_max_str_digits() to increase the limit"

/-- Why a path leads to no file. -/
inductive PathFault
  | missing
  | notADirectory
  | isADirectory
  | tooLong
  deriving DecidableEq

def PathFault.reason (path : Text) : PathFault → Text
  | .missing => "[Errno 2] No such file or directory: " ++ path.quoted
  | .notADirectory => "[Errno 20] Not a directory: " ++ path.quoted
  | .isADirectory => "[Errno 21] Is a directory: " ++ path.quoted
  | .tooLong => "[Errno 36] File name too long: " ++ path.quoted

/-- Every way in which an operation of this library fails. -/
inductive Error
  | fileNotFound (path : Text)
  | streamFailed (cause : StreamError)
  | unsupportedProtocol (cause : ProtocolError)
  | unexpectedStructure (cause : StructureError)
  | missingStorage (key member : Text)
  | unsupportedDType (cause : DTypeError)
  | stateMismatch (missing unexpected : List Text)
  | shapeMismatch (name : Text) (loaded target : List Nat)
  | malformedHeader (cause : HeaderError)
  | invalidConfig (cause : ConfigError)
  | duplicateMember (name : Text)
  | unknownKey (key : Text)
  /-- A buffer to swap is not a whole number of components. -/
  | unevenBuffer
  /-- A failure of a stream that no operation has put into its own words. -/
  | rawStream (reason : Text)
  /-- A path that no operation has put into its own words. -/
  | rawPath (cause : PathFault)
  | closedStream
  /-- The stream lacks the operation that was asked of it. -/
  | missingOperation
  /-- A number does not fit the field that it is written in. -/
  | fieldOverflow
  /-- A text with a surrogate has no strict UTF-8 form. -/
  | unencodableText
  /-- A name is said to be UTF-8 and is not. -/
  | undecodableName
  /-- A member is compressed, or made for a newer version of the format. -/
  | unsupportedMember
  | encryptedMember
  /-- The stream ends before a member does. -/
  | memberEnds
  | negativePosition
  /-- A position or a size is not a machine integer. -/
  | sizeOverflow
  | outOfMemory
  | indexOutOfRange
  | tensorFault (cause : TensorFault)
  | typeFault (cause : TypeFault)
  | rangeFault (cause : RangeFault)
  | nestingTooDeep
  deriving DecidableEq

/-- The wording of a failure; those of the surrounding machinery have none. -/
def Error.message? : Error → Option Text
  | .fileNotFound path => some ("File not found: " ++ path)
  | .streamFailed cause => some cause.message
  | .unsupportedProtocol cause => some cause.message
  | .unexpectedStructure cause => some cause.message
  | .missingStorage key member =>
    some ("Storage " ++ key.quoted ++ " not found in archive (expected member " ++
      member.quoted ++ ")")
  | .unsupportedDType cause => some cause.message
  | .stateMismatch missing unexpected =>
    some ("The loaded state dict is not identical to the target state dict. Missing keys: " ++
      quotedList missing ++ ". Unexpected keys: " ++ quotedList unexpected ++ ".")
  | .shapeMismatch name loaded target =>
    some ("Shape mismatch for " ++ name.quoted ++ ": loaded " ++
      parenthesized (loaded.map ofNat) ++ ", target " ++ parenthesized (target.map ofNat))
  | .malformedHeader cause => some cause.message
  | .invalidConfig cause => some cause.message
  | .duplicateMember name => some ("Duplicate archive member: " ++ name)
  | .unknownKey key => some key.quoted
  | .unevenBuffer => some "buffer size must be a multiple of element size"
  | .rangeFault cause => some cause.message
  | _ => none

theorem bind_eq_ok {ε α β : Type} {x : Except ε α} {f : α → Except ε β} {b : β} :
    (x >>= f) = .ok b ↔ ∃ a, x = .ok a ∧ f a = .ok b := by
  cases x <;> simp [bind, Except.bind]

end Checkpoint
