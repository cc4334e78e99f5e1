import Checkpoint.Text.Utf8
/-!
Paths of files.  Repeated separators and parts that stay in place are dropped; parts that go up are
kept, since they depend on what the path runs through.
-/

namespace Checkpoint

structure Path where
  /-- Nothing, or the one or two separators that a path starts from the top with. -/
  root : Text := ""
  parts : List Text := []
  deriving DecidableEq, Inhabited

namespace Path

def slash : CodePoint := 0x2f

def up : Text := ".."

/-- The pieces between separators. -/
def pieces : List CodePoint → List (List CodePoint)
  | [] => [[]]
  | c :: rest =>
    if c = slash then [] :: pieces rest
    else match pieces rest with
      | piece :: others => (c :: piece) :: others
      | [] => [[c]]

def ofText (t : Text) : Path :=
  let root : Text := match (t.points.takeWhile (· == slash)).length with
    | 0 => ""
    | 2 => "//"
    | _ => "/"
  { root
    parts := ((pieces t.points).map Text.mk).filter fun part => !part.isEmpty && part != "." }

/-- The spelling of a path; that of the place where paths start is a point. -/
def shown (p : Path) : Text :=
  let spelling := p.root ++ Text.intercalate "/" p.parts
  if spelling.isEmpty then "." else spelling

/-- The bytes of a code point.  A low surrogate can stand for a byte from 128 on; all others have no
bytes. -/
def pointBytes? (c : CodePoint) : Option Bytes :=
  if 0xdc80 ≤ c.val ∧ c.val ≤ 0xdcff then some [UInt8.ofNat (c.val - 0xdc00)]
  else if Text.isSurrogate c then none
  else some (Text.utf8Point c)

/-- A text as a name of a file. -/
def encoded? (t : Text) : Option Bytes := (t.points.mapM pointBytes?).map List.flatten

/-- The most bytes that a part has. -/
def partLimit : Nat := 255

/-- The most bytes that a path has. -/
def lengthLimit : Nat := 4095

/-- Whether a text has more bytes than `limit`. -/
def isLonger (limit : Nat) (t : Text) : Bool := limit < ((encoded? t).getD []).length

end Path

end Checkpoint
