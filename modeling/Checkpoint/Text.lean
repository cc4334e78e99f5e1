/-!
Text as a sequence of code points.  Unlike `String`, a text may hold surrogate code points on
their own, as names and strings in both file formats can.  Texts are ordered by code point.
-/

namespace Checkpoint

abbrev CodePoint := Fin 0x110000

namespace CodePoint

/-- The code point with a given number. -/
instance ofNat (n : Nat) : OfNat CodePoint n := ⟨⟨n % 0x110000, Nat.mod_lt n (by decide)⟩⟩

/-- The code point with the number of a byte. -/
def ofByte (b : UInt8) : CodePoint := ⟨b.toNat, by have := b.toNat_lt; omega⟩

end CodePoint

structure Text where
  points : List CodePoint
  deriving DecidableEq, Inhabited

namespace Text

def codePoint (c : Char) : CodePoint :=
  ⟨c.toNat, by
    have h : c.toNat < 0xd800 ∨ 0xdfff < c.toNat ∧ c.toNat < 0x110000 := c.valid
    omega⟩

def ofString (s : String) : Text :=
  ⟨s.toList.map codePoint⟩

instance : Coe String Text := ⟨ofString⟩

instance : Append Text := ⟨fun a b => ⟨a.points ++ b.points⟩⟩

def empty : Text := ⟨[]⟩

def singleton (c : CodePoint) : Text := ⟨[c]⟩

def length (t : Text) : Nat := t.points.length

def isEmpty (t : Text) : Bool := t.points.isEmpty

def ofNat (n : Nat) : Text := ofString (toString n)

def ofInt : Int → Text
  | .ofNat n => ofNat n
  | .negSucc n => ofString "-" ++ ofNat (n + 1)

def startsWith (t start : Text) : Bool :=
  start.points.isPrefixOf t.points

def endsWith (t ending : Text) : Bool :=
  ending.points.isSuffixOf t.points

def drop (n : Nat) (t : Text) : Text := ⟨t.points.drop n⟩

/-- All but the last `n` code points. -/
def dropEnd (n : Nat) (t : Text) : Text := ⟨t.points.take (t.length - n)⟩

def count (c : CodePoint) (t : Text) : Nat := t.points.count c

def contains (c : CodePoint) (t : Text) : Bool := t.points.contains c

def concat (parts : List Text) : Text := ⟨parts.flatMap points⟩

def intercalate (separator : Text) : List Text → Text
  | [] => empty
  | [t] => t
  | t :: rest => t ++ separator ++ intercalate separator rest

/-- The order of texts: by the first code point that differs, a shorter text before its
continuations. -/
def le (a b : Text) : Bool := go a.points b.points
where
  go : List CodePoint → List CodePoint → Bool
    | [], _ => true
    | _ :: _, [] => false
    | a :: as, b :: bs => decide (a.val < b.val) || (a.val == b.val && go as bs)

def sort (texts : List Text) : List Text := texts.mergeSort le

theorem ext_points {a b : Text} (h : a.points = b.points) : a = b := by
  cases a; cases b; simp_all

@[simp] theorem points_append (a b : Text) : (a ++ b).points = a.points ++ b.points := rfl

theorem append_left_cancel {a b c : Text} (h : a ++ b = a ++ c) : b = c := by
  apply ext_points
  have := congrArg points h
  simpa using this

theorem le_cons {a b : CodePoint} {as bs : List CodePoint} :
    le.go (a :: as) (b :: bs) = true ↔ a.val < b.val ∨ a.val = b.val ∧ le.go as bs = true := by
  simp [le.go]

theorem le_total (a b : Text) : (le a b || le b a) = true := by
  obtain ⟨as⟩ := a
  obtain ⟨bs⟩ := b
  rw [Bool.or_eq_true]
  show le.go as bs = true ∨ le.go bs as = true
  induction as generalizing bs with
  | nil => exact Or.inl rfl
  | cons a as ih =>
    cases bs with
    | nil => exact Or.inr rfl
    | cons b bs =>
      rw [le_cons, le_cons]
      rcases Nat.lt_trichotomy a.val b.val with h | h | h
      · exact Or.inl (Or.inl h)
      · exact (ih bs).imp (fun rest => Or.inr ⟨h, rest⟩) (fun rest => Or.inr ⟨h.symm, rest⟩)
      · exact Or.inr (Or.inl h)

theorem le_trans (a b c : Text) (hab : le a b = true) (hbc : le b c = true) : le a c = true := by
  obtain ⟨as⟩ := a
  obtain ⟨bs⟩ := b
  obtain ⟨cs⟩ := c
  change le.go as bs = true at hab
  change le.go bs cs = true at hbc
  show le.go as cs = true
  induction as generalizing bs cs with
  | nil => rfl
  | cons a as ih =>
    match bs, cs, hab, hbc with
    | b :: bs, c :: cs, hab, hbc =>
      rw [le_cons] at hab hbc ⊢
      have := ih bs cs
      rcases hab with hab | ⟨hab, hab'⟩ <;> rcases hbc with hbc | ⟨hbc, hbc'⟩
      · omega
      · omega
      · omega
      · exact Or.inr ⟨by omega, this hab' hbc'⟩

theorem le_antisymm {a b : Text} (hab : le a b = true) (hba : le b a = true) : a = b := by
  obtain ⟨as⟩ := a
  obtain ⟨bs⟩ := b
  apply ext_points
  change le.go as bs = true at hab
  change le.go bs as = true at hba
  show as = bs
  induction as generalizing bs with
  | nil => cases bs with
    | nil => rfl
    | cons b bs => cases hba
  | cons a as ih =>
    match bs, hab, hba with
    | b :: bs, hab, hba =>
      rw [le_cons] at hab hba
      rcases hab with hab | ⟨hab, hab'⟩ <;> rcases hba with hba | ⟨hba, hba'⟩
      · omega
      · omega
      · omega
      · rw [Fin.ext hab, ih bs hab' hba']

end Text

end Checkpoint
