import PathQuery.Text.Digits

/-!
Universally unique identifiers: 128 bits, written as 32 hexadecimal digits in five groups.
-/

set_option autoImplicit false

namespace PathQuery

structure Uuid where
  bits : BitVec 128
  deriving DecidableEq, Repr, Inhabited

namespace Uuid

def write (u : Uuid) : List Char :=
  let ds := Text.padded 16 32 u.bits.toNat
  ds.take 8 ++ '-' :: (ds.drop 8).take 4 ++ '-' :: (ds.drop 12).take 4 ++
    '-' :: (ds.drop 16).take 4 ++ '-' :: ds.drop 20

def ofDigits? (ds : List Char) : Option Uuid :=
  if ds.length = 32 then
    (Text.hexNumber? ds).map fun n => ⟨BitVec.ofNat 128 n⟩
  else none

/-- Digits in five groups, or the same digits without hyphens. -/
def ofText? (cs : List Char) : Option Uuid :=
  if cs.length = 36 then
    let hyphen (i : Nat) := cs[i]? = some '-'
    if hyphen 8 ∧ hyphen 13 ∧ hyphen 18 ∧ hyphen 23 then ofDigits? (cs.filter (· != '-')) else none
  else ofDigits? cs

end Uuid

end PathQuery
