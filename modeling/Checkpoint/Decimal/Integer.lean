import Checkpoint.Text
/-!
Whole numbers in decimal: an optional sign, then digits that may be grouped by single underscores,
with blanks allowed around them.  Texts of more than 4300 digits are refused.
-/

namespace Checkpoint.Decimal

/-- The most digits that are converted between numbers and text. -/
def digitLimit : Nat := 4300

def isBlank (c : CodePoint) : Bool :=
  c = 0x20 || (9 ≤ c.val && c.val ≤ 13) || (0x1c ≤ c.val && c.val ≤ 0x1f)

def isDigit (c : CodePoint) : Bool := 0x30 ≤ c.val && c.val ≤ 0x39

def digitValue (c : CodePoint) : Nat := c.val - 0x30

/-- The number that digits stand for, most significant first. -/
def value (digits : List CodePoint) : Nat :=
  digits.foldl (fun n c => 10 * n + digitValue c) 0

def trim (points : List CodePoint) : List CodePoint :=
  ((points.dropWhile isBlank).reverse.dropWhile isBlank).reverse

/-- Takes the underscores out of grouped digits; each has to stand between two digits. -/
def ungroup? : List CodePoint → Option (List CodePoint)
  | [] => none
  | [c] => if isDigit c then some [c] else none
  | c :: d :: rest =>
    if !isDigit c then none
    else if d = 0x5f then (ungroup? rest).map (c :: ·)
    else (ungroup? (d :: rest)).map (c :: ·)

/-- Reads a whole number in ASCII. -/
def integer? (t : Text) : Option Int :=
  let points := trim t.points
  let (negative, digits) := match points with
    | c :: rest => if c = 0x2d then (true, rest) else if c = 0x2b then (false, rest) else (false, points)
    | [] => (false, [])
  match ungroup? digits with
  | none => none
  | some digits =>
    if digitLimit < digits.length then none
    else some (if negative then -(value digits : Int) else value digits)

/-- Whether a number is short enough to be shown. -/
def isPrintable (n : Int) : Bool := n.natAbs < Nat.pow 10 digitLimit

end Checkpoint.Decimal
