import Checkpoint.Archive.Layout
import Checkpoint.Config
import Checkpoint.Zip.Writer
/-!
Writing archives.  An extra field of padding in each header moves the member's content to a
multiple of the configured alignment.
-/

namespace Checkpoint.Archive

structure Writer where
  zip : Zip.Writer
  config : Config
  /-- The full names of the members written so far. -/
  records : List Text := []

namespace Writer

abbrev Writing := Effect Writer

def onZip (action : Effect Zip.Writer α) : Writing α :=
  Effect.focus zip (fun z w => { w with zip := z }) action

def create (config : Config) : Action Writer := do
  return { zip := ← Zip.Writer.create, config }

def root (w : Writer) : Text := w.config.archiveName ++ "/"

/-- The extra field that aligns the content of a member whose header starts at `start`: a tag, the
number of padding bytes, and those bytes. -/
def padding (alignment start nameLength : Nat) : Except Error Bytes :=
  if alignment ≤ 1 then .ok []
  else
    let content := start + Zip.localHeaderSize + nameLength + 4
    let pad := (alignment - content % alignment) % alignment
    if 65535 < pad then .error .fieldOverflow
    else .ok ([0x46, 0x42] ++ Bytes.littleEndian 2 pad ++ List.replicate pad 0x5a)

/-- The padding for a name, which has to have a strict form if it is to be measured. -/
def paddingFor (w : Writer) (fullName : Text) : Except Error Bytes :=
  if w.config.storageAlignment ≤ 1 then .ok []
  else
    match fullName.strictUtf8? with
    | none => .error .unencodableText
    | some name => padding w.config.storageAlignment w.zip.directoryStart name.length

def writeRecord (name : Text) (data : Bytes) : Writing Unit := do
  let w ← get
  let fullName := w.root ++ name
  if w.records.contains fullName then throw (.duplicateMember fullName)
  let extra ← Effect.ofExcept (w.paddingFor fullName)
  Effect.describing (.writeMember fullName) (onZip (Zip.Writer.add fullName extra data))
  modify fun w => { w with records := w.records ++ [fullName] }

def writeVersion (version : Int) : Writing Unit :=
  writeRecord "version" ((Text.ofInt version ++ "\n").utf8)

def writeByteOrder : Writing Unit :=
  writeRecord byteOrderRecord ByteOrder.host.name.utf8

def writeStorage (key : Text) (data : Bytes) : Writing Unit :=
  writeRecord (storageRecord key) data

def close : Writing Unit :=
  Effect.describing .finalizeArchive (onZip Zip.Writer.close)

/-- Writes an archive onto the stream: `body` and then the directory, which is written even if the
body fails. -/
def writing (config : Config) (body : Writing Unit) : Action (List Text) := do
  let w ← create config
  let (result, w) := (Effect.andFinally body close).perform w
  set w.zip.stream
  Effect.ofExcept result
  return w.records

end Writer

end Checkpoint.Archive
