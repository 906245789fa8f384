import PathQuery.Json

/-!
Numbers read from JSON text. The digits before an exponent form a significand of 64 bits: digits
past its end only move the point. An integer that fits stays an integer; every other number is
the significand scaled by one rounded product or quotient with a power of ten.
-/

set_option autoImplicit false

namespace PathQuery.Json.Number

open PathQuery.Text

structure Spelling where
  negative : Bool
  whole : List Char
  fraction : Option (List Char)
  exponent : Option (Bool × List Char)
  deriving DecidableEq, Repr

def spanDigits (cs : List Char) : List Char × List Char :=
  cs.span isDigit

/-- `-`, digits without a leading zero, a point with digits, an exponent with digits. -/
def Spelling.ofText? (cs : List Char) : Option Spelling := do
  let (negative, cs) := match cs with
    | '-' :: rest => (true, rest)
    | _ => (false, cs)
  let (whole, cs) := spanDigits cs
  guard (whole = ['0'] ∨ (whole ≠ [] ∧ whole.head? ≠ some '0'))
  let (fraction, cs) ← match cs with
    | '.' :: rest =>
      let (digits, rest) := spanDigits rest
      if digits = [] then none else some (some digits, rest)
    | _ => some (none, cs)
  let (exponent, cs) ← match cs with
    | c :: rest =>
      if c = 'e' ∨ c = 'E' then
        let (negative, rest) := match rest with
          | '-' :: rest => (true, rest)
          | '+' :: rest => (false, rest)
          | _ => (false, rest)
        let (digits, rest) := spanDigits rest
        if digits = [] then none else some (some (negative, digits), rest)
      else some (none, cs)
    | [] => some (none, [])
  guard (cs = [])
  return { negative, whole, fraction, exponent }

/-- A significand below `2 ^ 64` and the power of ten that it is scaled by. -/
structure Significand where
  value : Nat
  exponent : Int
  deriving DecidableEq, Repr

def fits (value : Nat) (digit : Char) : Bool :=
  value * 10 + digitValue digit < twoTo 64

/-- The first digit without room and all after it count as zeros. -/
def takeWhole (value : Nat) : List Char → Significand
  | [] => ⟨value, 0⟩
  | d :: rest =>
    if fits value d then takeWhole (value * 10 + digitValue d) rest
    else ⟨value, rest.length + 1⟩

/-- The first digit without room and all after it are dropped. -/
def takeFraction (s : Significand) : List Char → Significand
  | [] => s
  | d :: rest =>
    if fits s.value d then takeFraction ⟨s.value * 10 + digitValue d, s.exponent - 1⟩ rest
    else s

def powerOfTen (n : Nat) : Binary64 :=
  Binary64.ofNat (tenTo n)

/-- The number scaled by a power of ten; `none` past the largest finite number. Below the range
of powers the number is divided in steps until it is zero or the rest is in range. -/
def scale (x : Binary64) (exponent : Int) : Option Binary64 :=
  if x.isZero then some x
  else if 308 < exponent then none
  else if 0 ≤ exponent then
    let y := x.mul (powerOfTen exponent.toNat)
    if y.isInfinite then none else some y
  else if -308 ≤ exponent then some (x.div (powerOfTen (-exponent).toNat))
  else scale (x.div (powerOfTen 308)) (exponent + 308)
termination_by (-exponent).toNat
decreasing_by omega

def Spelling.toNumber? (s : Spelling) : Option Number :=
  let whole := takeWhole 0 s.whole
  if s.fraction = none ∧ s.exponent = none ∧ whole.exponent = 0 ∧ !s.negative then
    some (.integer whole.value)
  else if s.fraction = none ∧ s.exponent = none ∧ whole.exponent = 0 ∧ 0 < whole.value ∧
      whole.value ≤ twoTo 63 then
    some (.integer (-whole.value))
  else
    let significand := takeFraction whole (s.fraction.getD [])
    let shift : Int := match s.exponent with
      | none => 0
      | some (true, digits) => -(decimalValue digits : Int)
      | some (false, digits) => decimalValue digits
    (scale (Binary64.ofNat significand.value) (significand.exponent + shift)).map fun x =>
      .float (if s.negative then x.negate else x)

def ofText? (cs : List Char) : Option Number :=
  (Spelling.ofText? cs).bind Spelling.toNumber?

end PathQuery.Json.Number
