import Checkpoint.Error
import Checkpoint.Bytes
import Checkpoint.Path
import Checkpoint.Table
/-!
Files and directories.  A place is a list of parts that has been followed from the current
directory, or from the top, one directory after the other.
-/

namespace Checkpoint

abbrev Place := List Text

structure Disk where
  files : Table Place Bytes := {}
  directories : List Place := []
  deriving Inhabited

namespace Disk

def top : Text := "/"

/-- The current directory, those above it and the top are there from the start. -/
def isDirectory (d : Disk) (place : Place) : Bool :=
  place.all (· == Path.up) || place == [top] || d.directories.contains place

/-- The place one part further. -/
def step (place : Place) (part : Text) : Place :=
  if part = Path.up then
    match place.getLast? with
    | none => [Path.up]
    | some last =>
      if last = Path.up then place ++ [Path.up] else if last = top then place else place.dropLast
  else place ++ [part]

/-- Follows the parts of a path through directories. -/
def walk (d : Disk) : Place → List Text → Except PathFault Place
  | place, [] => .ok place
  | place, part :: rest =>
    if d.isDirectory place then
      if Path.isLonger Path.partLimit part then .error .tooLong else walk d (step place part) rest
    else if d.files.contains place then .error .notADirectory
    else .error .missing

/-- The place of a path, which need not hold anything yet. -/
def resolve (d : Disk) (p : Path) : Except PathFault Place :=
  if Path.isLonger Path.lengthLimit p.shown then .error .tooLong
  else d.walk (if p.root.isEmpty then [] else [top]) p.parts

/-- The content of the file at a path. -/
def content (d : Disk) (p : Path) : Except PathFault Bytes := do
  let place ← d.resolve p
  if d.isDirectory place then throw .isADirectory
  match d.files.get? place with
  | some content => return content
  | none => throw .missing

/-- The place of a path where a file can be written. -/
def locate (d : Disk) (p : Path) : Except PathFault Place := do
  let place ← d.resolve p
  if d.isDirectory place then throw .isADirectory else return place

/-- Reads the file at a path; that there is none is said before it is opened. -/
def read (d : Disk) (path : Text) : Except Error Bytes :=
  let p := Path.ofText path
  match (Path.encoded? p.shown).filter fun bytes => !bytes.contains 0, d.content p with
  | none, _ => .error (.fileNotFound p.shown)
  | some _, .ok content => .ok content
  | some _, .error .tooLong => .error (.rawPath .tooLong)
  | some _, .error _ => .error (.fileNotFound p.shown)

/-- Opens a path for writing: the place of the file. -/
def writable (d : Disk) (path : Text) : Except Error Place :=
  let p := Path.ofText path
  match Path.encoded? p.shown with
  | none => .error .unencodableText
  | some bytes =>
    if bytes.contains 0 then .error (.rangeFault .nulInPath)
    else (d.locate p).mapError fun fault =>
      .streamFailed (.openPath p.shown (fault.reason p.shown))

def store (d : Disk) (place : Place) (content : Bytes) : Disk :=
  { d with files := d.files.insert place content }

/-- Makes a directory and those on the way to it. -/
def makeDirectory (d : Disk) (path : Text) : Disk :=
  let p := Path.ofText path
  let places := (List.range p.parts.length).map fun n => (p.parts.take (n + 1)).foldl step
    (if p.root.isEmpty then [] else [top])
  { d with directories := d.directories ++ places }

end Disk

end Checkpoint
