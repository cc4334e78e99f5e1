import Checkpoint.Archive.Layout
import Checkpoint.Decimal.Integer
import Checkpoint.Table
import Checkpoint.Zip.Reader
/-!
Reading archives.  Opening one reads its directory, finds the root folder and checks version and
byte order; every other member is read only when it is asked for.
-/

namespace Checkpoint.Archive

structure Reader where
  /-- The members by name; of several with one name the last counts. -/
  members : Table Text (Zip.Entry × Int)
  root : Text
  version : Int
  byteOrder : ByteOrder

/-- The members with, for each, where its content has to end. -/
def membersOf (d : Zip.Directory) : Table Text (Zip.Entry × Int) :=
  Table.ofList ((List.range d.entries.length).zip d.entries |>.map fun (i, e) =>
    (e.name, e, d.limit i e))

/-- The root folder: the one folder at the top that holds an object stream. -/
def findRoot (members : Table Text (Zip.Entry × Int)) : Except Error Text := do
  let roots := members.keys.filterMap fun name =>
    if name.endsWith ("/" ++ objectRecord) && name.count 0x2f == 1 then
      some (name.dropEnd objectRecord.length)
    else none
  match roots with
  | [] => throw (.unexpectedStructure .noObjectRecord)
  | [root] =>
    if members.contains (root ++ scriptRecord) then throw (.unsupportedProtocol .scriptArchive)
    return root
  | _ => throw (.unexpectedStructure (.severalRoots roots))

namespace Reader

def entry? (r : Reader) (name : Text) : Option (Zip.Entry × Int) :=
  r.members.get? (r.root ++ name)

def hasRecord (r : Reader) (name : Text) : Bool :=
  r.members.contains (r.root ++ name)

/-- A record's entry, whose name is known to the caller. -/
def entry (r : Reader) (name : Text) : Except Error (Zip.Entry × Int) :=
  match r.entry? name with
  | some e => .ok e
  | none => .error (.unknownKey (r.root ++ name))

def recordSize (r : Reader) (name : Text) : Except Error Nat :=
  return (← r.entry name).1.size

/-- Reads `size` bytes of a record from `offset` on; without a size, all of them. -/
def readRange (r : Reader) (name : Text) (offset : Int) (size : Option Int) : Action Bytes := do
  let (e, limit) ← Effect.ofExcept (r.entry name)
  Effect.describing (.readMember e.name) do
    let opened ← Zip.openEntry e limit
    opened.readRange offset (size.bind fun n => if n < 0 then none else some n.toNat)

def readRecord (r : Reader) (name : Text) : Action Bytes :=
  r.readRange name 0 none

/-- The keys of all storages, in the order of the directory. -/
def storageKeys (r : Reader) : List Text :=
  let folder := r.root ++ storageFolder
  r.members.keys.filterMap fun name =>
    if name.startsWith folder then some (name.drop folder.length) else none

def requireStorage (r : Reader) (key : Text) : Except Error Unit :=
  if r.hasRecord (storageRecord key) then .ok ()
  else .error (.missingStorage key (r.root ++ storageRecord key))

def storageSize (r : Reader) (key : Text) : Except Error Nat := do
  r.requireStorage key
  r.recordSize (storageRecord key)

def readStorage (r : Reader) (key : Text) : Action Bytes := do
  Effect.ofExcept (r.requireStorage key)
  r.readRecord (storageRecord key)

def readVersion (r : Reader) : Action Int := do
  match versionRecords.find? r.hasRecord with
  | none => throw (.unsupportedProtocol .noVersion)
  | some record =>
    let raw ← r.readRecord record
    match (Text.ofAscii? raw).bind Decimal.integer? with
    | none => throw (.unsupportedProtocol (.invalidVersion raw))
    | some version =>
      if version < oldestVersion ∨ newestVersion < version then
        throw (.unsupportedProtocol (.unsupportedVersion version))
      return version

/-- The order that the archive declares; little without a declaration. -/
def readByteOrder (r : Reader) : Action ByteOrder := do
  if r.hasRecord byteOrderRecord then
    let raw ← r.readRecord byteOrderRecord
    match ByteOrder.ofBytes? raw with
    | some order => return order
    | none => throw (.unsupportedProtocol (.unknownByteOrder raw))
  else return .little

def openArchive : Action Reader := do
  let directory ← Effect.describing .openArchive Zip.readDirectory
  let members := membersOf directory
  let root ← Effect.ofExcept (findRoot members)
  let r : Reader := { members, root, version := 0, byteOrder := .little }
  let version ← r.readVersion
  let byteOrder ← r.readByteOrder
  return { r with version, byteOrder }

end Reader

end Checkpoint.Archive
