import PathQuery.Text.CaseShifts
import PathQuery.Text.LetterRanges

/-!
The case of letters. ASCII is decided at once, every other character by the tables.
-/

set_option autoImplicit false

namespace PathQuery.Text

def isAscii (c : Char) : Bool :=
  c.toNat < 0x80

def isAlphanumeric (c : Char) : Bool :=
  if isAscii c then c.isAlphanum else alphanumericRanges.any (·.holds c.toNat)

def isLowercase (c : Char) : Bool :=
  if isAscii c then c.isLower else lowercaseRanges.any (·.holds c.toNat)

def isUppercase (c : Char) : Bool :=
  if isAscii c then c.isUpper else uppercaseRanges.any (·.holds c.toNat)

def mapCase (shifts : List CaseShift) (expansions : List (Nat × List Nat)) (c : Char) : List Char :=
  match expansions.lookup c.toNat with
  | some ns => ns.map Char.ofNat
  | none =>
    match shifts.find? (·.holds c.toNat) with
    | some s => [Char.ofNat ((c.toNat : Int) + s.2.2.2).toNat]
    | none => [c]

def toLowercase (c : Char) : List Char :=
  if isAscii c then [c.toLower] else mapCase lowerShifts lowerExpansions c

def toUppercase (c : Char) : List Char :=
  if isAscii c then [c.toUpper] else mapCase upperShifts upperExpansions c

end PathQuery.Text
