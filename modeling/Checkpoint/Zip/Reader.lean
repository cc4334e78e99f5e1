import Checkpoint.Zip.Record
import Checkpoint.Stream
/-!
Reading a zip archive of stored members.  The directory is found from the end of the stream; bytes
in front of the archive are allowed.  A member's local header is read again whenever the member is
opened, and its checksum is compared as soon as its last byte has been fetched.
-/

namespace Checkpoint.Zip

/-- A member as the central directory lists it. -/
structure Entry where
  /-- The name up to its first NUL. -/
  name : Text
  fullName : Text
  flags : Nat
  method : Nat
  crc : Nat
  storedSize : Nat
  size : Nat
  headerOffset : Int
  deriving Inhabited

def Entry.memberName (fullName : Text) : Text := ⟨fullName.points.takeWhile (· ≠ 0)⟩

/-- The newest version of the format whose members can be read. -/
def newestVersion : Nat := 63

def decodeName (flags : Nat) (bytes : Bytes) : Except Error Text :=
  if hasFlag flags utf8Flag then
    match Text.ofStrictUtf8? bytes with
    | some name => .ok name
    | none => .error .undecodableName
  else .ok (Text.ofCodePage437 bytes)

/-- Whether extra fields fill the bytes; fewer than four bytes may be left over. -/
def extraFits (extra : Bytes) : Bool :=
  if extra.length < 4 then true
  else
    let length := fieldAt extra 2 2 + 4
    length ≤ extra.length && extraFits (extra.drop length)
termination_by extra.length
decreasing_by simp; omega

def notAnArchive : Error := .unsupportedProtocol .notAnArchive

/-- Reads entries until `left` bytes, by the lengths they declare, have been covered. -/
def parseEntries (shift : Int) (left : Nat) (bytes : Bytes) : Except Error (List Entry) :=
  if left = 0 then .ok []
  else if bytes.length < centralEntrySize ∨ fieldAt bytes 0 4 ≠ centralSignature then
    .error notAnArchive
  else do
    let nameLength := fieldAt bytes 28 2
    let extraLength := fieldAt bytes 30 2
    let commentLength := fieldAt bytes 32 2
    let flags := fieldAt bytes 8 2
    let rest := bytes.drop centralEntrySize
    let fullName ← decodeName flags (rest.take nameLength)
    if newestVersion < fieldAt bytes 6 1 then throw .unsupportedMember
    unless extraFits ((rest.drop nameLength).take extraLength) do throw notAnArchive
    let entry : Entry := {
      name := Entry.memberName fullName
      fullName, flags
      method := fieldAt bytes 10 2
      crc := fieldAt bytes 16 4
      storedSize := fieldAt bytes 20 4
      size := fieldAt bytes 24 4
      headerOffset := fieldAt bytes 42 4 + shift }
    let length := nameLength + extraLength + commentLength
    let entries ← parseEntries shift (left - (centralEntrySize + length)) (rest.drop length)
    return entry :: entries
termination_by left
decreasing_by simp [centralEntrySize]; omega

/-- The last place where a pattern that is not empty occurs in bytes that start at `place`, and
otherwise `found`. -/
def lastOccurrence? (pattern : Bytes) : Bytes → Nat → Option Nat → Option Nat
  | [], _, found => found
  | b :: rest, place, found =>
    lastOccurrence? pattern rest (place + 1)
      (if pattern.isPrefixOf (b :: rest) then some place else found)

/-- How far before the end of the stream the end record is searched for. -/
def searchedTail : Nat := 65536 + endRecordSize

/-- Where the directory is said to be. -/
structure EndRecord where
  size : Nat
  offset : Nat
  /-- The place of the first end record, behind which nothing of the directory lies. -/
  location : Nat

/-- The bytes of a short record as an end record at `location`. -/
def EndRecord.ofShort (record : Bytes) (location : Nat) : EndRecord where
  size := fieldAt record 12 4
  offset := fieldAt record 16 4
  location := location

/-- Archives may have a long end record, and a locator for it, in front of the short one, which is
`fromEnd` bytes before the end of the stream.  It is then the long one that counts. -/
def preferLong (short : EndRecord) (fromEnd : Nat) : Action (Option EndRecord) := do
  let reached ← tryCatch (do let _ ← Stream.seekFromEnd (fromEnd + locatorSize); pure true) fun
    | .rawStream _ => pure false
    | e => throw e
  unless reached do return some short
  let locator ← Stream.read (some locatorSize)
  if locator.length ≠ locatorSize ∨ fieldAt locator 0 4 ≠ locatorSignature then
    return some short
  if fieldAt locator 4 4 ≠ 0 ∨ 1 < fieldAt locator 16 4 then return none
  let _ ← Stream.seekFromEnd (fromEnd + locatorSize + longEndRecordSize)
  let record ← Stream.read (some longEndRecordSize)
  if record.length ≠ longEndRecordSize ∨ fieldAt record 0 4 ≠ longEndSignature then
    return some short
  if short.location < locatorSize + longEndRecordSize then return none
  return some {
    size := fieldAt record 40 8
    offset := fieldAt record 48 8
    location := short.location - (locatorSize + longEndRecordSize) }

/-- The end record: at the very end of the stream, or else the last one in front of a comment. -/
def findEndRecord : Action (Option EndRecord) := do
  let _ ← Stream.seekFromEnd 0
  let size ← Stream.tell
  let _ ← Stream.seekFromEnd endRecordSize
  let tail ← Stream.read none
  if tail.length = endRecordSize ∧ fieldAt tail 0 4 = endSignature ∧ fieldAt tail 20 2 = 0 then
    return ← preferLong (.ofShort tail (size - endRecordSize)) endRecordSize
  let start := size - searchedTail
  Stream.seek start
  let data ← Stream.read none
  match lastOccurrence? (Bytes.littleEndian 4 endSignature) data 0 none with
  | none => return none
  | some i =>
    let record := (data.drop i).take endRecordSize
    if record.length ≠ endRecordSize then return none
    preferLong (.ofShort record (start + i)) (size - (start + i))

/-- The directory of an archive: its entries in order, and where it starts. -/
structure Directory where
  entries : List Entry
  start : Nat

/-- Finds and reads the directory.  While the end record is sought, a failing stream counts as not
being an archive. -/
def readDirectory : Action Directory := do
  let found ← tryCatch findEndRecord fun
    | .rawStream _ => throw notAnArchive
    | e => throw e
  match found with
  | none => throw notAnArchive
  | some record =>
    if record.location < record.size then throw notAnArchive
    let start := record.location - record.size
    Stream.seek start
    let data ← Stream.read (some record.size)
    let entries ← Effect.ofExcept (parseEntries ((start : Int) - record.offset) record.size data)
    return { entries, start }

namespace Directory

/-- Where the content of an entry has to end: at the next header behind its own, or at the
directory if there is none.  Of entries that share a header the first alone has room. -/
def limit (d : Directory) (index : Nat) (e : Entry) : Int :=
  if (d.entries.take index).any (·.headerOffset == e.headerOffset) then e.headerOffset
  else match (d.entries.map Entry.headerOffset).filter (e.headerOffset < ·) with
    | [] => d.start
    | next :: others => others.foldl min next

end Directory

/-- A member that is being read: what has been fetched, and whether that is all. -/
structure Opened where
  entry : Entry
  dataStart : Nat
  fetched : Bytes := []
  complete : Bool := false

/-- Reads `size` bytes at `position`. -/
def readAt (position : Int) (size : Nat) : Action (Bytes × Nat) := do
  Stream.seek position
  let data ← Stream.read (some size)
  return (data, ← Stream.tell)

def corrupt (e : Entry) (cause : Corruption) : Error :=
  .unsupportedProtocol (.corruptMember e.name cause)

/-- Reads the local header of an entry and compares it with the directory. -/
def openEntry (e : Entry) (limit : Int) : Action Opened := do
  let (header, position) ← readAt e.headerOffset localHeaderSize
  if header.length ≠ localHeaderSize then throw (corrupt e .truncatedHeader)
  if fieldAt header 0 4 ≠ localSignature then throw (corrupt e .badMagic)
  let (name, position) ← readAt position (fieldAt header 26 2)
  let extraLength := fieldAt header 28 2
  let position ←
    if extraLength = 0 then pure position
    else do
      let (_, position) ← readAt position extraLength
      pure position
  if hasFlag e.flags 0x20 || hasFlag e.flags 0x40 then throw .unsupportedMember
  let headerName ← Effect.ofExcept (decodeName (fieldAt header 6 2) name)
  if headerName ≠ e.fullName then throw (corrupt e (.nameDiffers e.fullName name))
  if limit < position + e.storedSize then throw (corrupt e (.overlap e.fullName))
  if hasFlag e.flags 1 then throw .encryptedMember
  if e.method ≠ 0 then throw .unsupportedMember
  let _ ← Stream.seekable
  return { entry := e, dataStart := position }

/-- The least number of bytes that is fetched at once. -/
def fetchSize : Nat := 4096

/-- Fetches at least `need` more bytes, if there are so many.  With the last byte the checksum is
compared. -/
def Opened.fetch (o : Opened) (need : Nat) : Action Opened := do
  if o.complete || need == 0 then return o
  let left := o.entry.storedSize - o.fetched.length
  let asked := min (max need fetchSize) left
  let data ←
    if left = 0 then pure []
    else do
      let (data, _) ← readAt (o.dataStart + o.fetched.length) asked
      pure data
  let fetched := (o.fetched ++ data).take o.entry.size
  let complete := left ≤ data.length || (!data.isEmpty && o.entry.size ≤ fetched.length)
  if !complete && data.length < asked then throw .memberEnds
  if complete && (crc32 fetched).toNat ≠ o.entry.crc then
    throw (corrupt o.entry (.badChecksum o.entry.name))
  return { o with fetched, complete }

/-- The whole content. -/
def Opened.readAll (o : Opened) : Action Bytes := do
  return (← o.fetch o.entry.storedSize.succ).fetched

/-- The content from `offset` on, `size` bytes of it or all; the offset is moved into the content
first. -/
def Opened.readRange (o : Opened) (offset : Int) (size : Option Nat) : Action Bytes := do
  let start := min offset.toNat o.entry.size
  let o ← o.fetch start
  match size with
  | none => return (← o.readAll).drop start
  | some n =>
    let o ← o.fetch (start + n - o.fetched.length)
    return (o.fetched.drop start).take n

end Checkpoint.Zip
