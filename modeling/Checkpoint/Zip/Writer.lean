import Checkpoint.Zip.Record
import Checkpoint.Stream
/-!
Writing a zip archive of stored members onto a stream, from wherever the stream stands.  Where the
stream can go back, a member's header is written again once its checksum is known; elsewhere a
descriptor follows the content.
-/

namespace Checkpoint.Zip

/-- An archive that is being written, with the stream that receives it. -/
structure Writer where
  stream : Stream
  members : List Member := []
  /-- Where the next member, or else the central directory, begins. -/
  directoryStart : Nat
  /-- Whether headers can be written again. -/
  rewinds : Bool
  /-- The bytes written so far, on a stream that does not tell its position. -/
  written? : Option Nat
  closed : Bool := false

namespace Writer

abbrev Writing := Effect Writer

def onStream (action : Action α) : Writing α :=
  Effect.focus stream (fun s w => { w with stream := s }) action

/-- Whether the failure says that an operation is lacking or does not work. -/
def isRefusal : Error → Bool
  | .missingOperation | .rawStream _ => true
  | _ => false

def attempt (action : Action α) : Action (Option α) :=
  tryCatch (some <$> action) fun e => if isRefusal e then pure none else throw e

/-- Finds out where the stream stands and whether it can go back. -/
def create : Action Writer := do
  match ← attempt Stream.tell with
  | none =>
    return { stream := ← get, directoryStart := 0, rewinds := false, written? := some 0 }
  | some start =>
    let rewinds := (← attempt (Stream.seek start)).isSome
    return { stream := ← get, directoryStart := start, rewinds, written? := none }

def position : Writing Nat := do
  match (← get).written? with
  | some n => return n
  | none => onStream Stream.tell

def put (bytes : Bytes) : Writing Unit := do
  onStream (Stream.write bytes)
  modify fun w => { w with written? := w.written?.map (· + bytes.length) }

def goTo (position : Nat) : Writing Unit := do
  if (← get).rewinds then onStream (Stream.seek position)

/-- A header can be written if the name has a strict form and both lengths fit their fields. -/
def checkHeader (m : Member) : Except Error Unit :=
  if m.storedName.strictUtf8?.isNone then .error .unencodableText
  else if 65535 < m.nameBytes.length ∨ 65535 < m.extra.length then .error .fieldOverflow
  else .ok ()

/-- Ends a member whose content has been written, and enters it into the directory. -/
def finish (m : Member) : Writing Unit := do
  if m.described then
    put m.descriptor
    let finish ← position
    modify ({ · with directoryStart := finish })
  else
    let finish ← position
    modify ({ · with directoryStart := finish })
    onStream (Stream.seek m.headerOffset)
    put m.localHeader
    onStream (Stream.seek finish)
  modify fun w => { w with members := w.members ++ [m] }

/-- Writes a member: its header as yet without checksum, its content, and then its end, which is
attempted even if the content fails. -/
def add (name : Text) (extra content : Bytes) : Writing Unit := do
  let w ← get
  if w.closed then throw .closedStream
  goTo w.directoryStart
  let headerOffset ← position
  let member : Member := {
    name, extra, headerOffset, described := !w.rewinds
    crc := (crc32 content).toNat, size := content.length }
  Effect.ofExcept (checkHeader member)
  put member.pendingHeader
  Effect.andFinally (put content) (finish member)

/-- The central directory and the end record. -/
def writeDirectory : Writing Unit := do
  let w ← get
  for m in w.members do
    put m.centralFields
    put m.nameBytes
    put m.extra
    put []
  let stop ← position
  let start := (← get).directoryStart
  put (endRecord w.members.length (stop - start) start)
  put []

/-- Closes the archive, once; the stream stays open. -/
def close : Writing Unit := do
  let w ← get
  unless w.closed do
    Effect.andFinally (do goTo w.directoryStart; writeDirectory)
      (modify ({ · with closed := true }))

/-- Writes all members, and the directory behind them. -/
def addAll (members : List (Text × Bytes)) : Writing Unit := do
  for (name, content) in members do
    add name [] content
  close

end Writer

/-- The bytes of an archive with the given members. -/
def archive (members : List (Text × Bytes)) : Except Error Bytes :=
  let (created, s) := Writer.create.perform {}
  match created with
  | .error e => .error e
  | .ok w =>
    let (written, w) := (Writer.addAll members).perform { w with stream := s }
    written.map fun _ => w.stream.content

end Checkpoint.Zip
