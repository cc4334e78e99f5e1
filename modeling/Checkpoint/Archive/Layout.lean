import Checkpoint.Text
import Checkpoint.Bytes
/-!
The members of an archive.  All lie under one root folder: the object stream `data.pkl`, a version
record, possibly a byte order, and one member `data/<key>` for each storage.
-/

namespace Checkpoint.Archive

def objectRecord : Text := "data.pkl"

/-- The places of the version record, in the order in which they are tried. -/
def versionRecords : List Text := ["version", ".data/version"]

def byteOrderRecord : Text := "byteorder"

/-- A member that only archives of scripts have. -/
def scriptRecord : Text := "constants.pkl"

def storageFolder : Text := "data/"

def storageRecord (key : Text) : Text := storageFolder ++ key

/-- The version that is written. -/
def writtenVersion : Nat := 3

def oldestVersion : Int := 1
def newestVersion : Int := 10

inductive ByteOrder
  | little
  | big
  deriving DecidableEq, Repr, Inhabited

namespace ByteOrder

def name : ByteOrder → Text
  | little => "little"
  | big => "big"

/-- The order of the numbers in memory. -/
def host : ByteOrder := little

def ofBytes? (bytes : Bytes) : Option ByteOrder :=
  if bytes = [0x6c, 0x69, 0x74, 0x74, 0x6c, 0x65] then some little
  else if bytes = [0x62, 0x69, 0x67] then some big
  else none

end ByteOrder

end Checkpoint.Archive
