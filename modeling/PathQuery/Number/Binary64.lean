import PathQuery.Number.Power

/-!
Binary floating-point numbers with 64 bits, held as their bits: a sign, eleven bits of exponent
and 52 bits of fraction. A finite number is a mantissa times a power of two, and a quotient of
natural numbers is rounded to the nearest number, a tie going to the even mantissa.
-/

set_option autoImplicit false

namespace PathQuery

structure Binary64 where
  bits : UInt64
  deriving DecidableEq, Repr, Inhabited

namespace Binary64

/-- What the bits stand for. A finite number is `mantissa * 2 ^ exponent` under its sign. -/
inductive Reading where
  | notANumber
  | infinite (negative : Bool)
  | finite (negative : Bool) (mantissa : Nat) (exponent : Int)
  deriving DecidableEq, Repr

def isNegative (x : Binary64) : Bool :=
  twoTo 63 ≤ x.bits.toNat

def biasedExponent (x : Binary64) : Nat :=
  x.bits.toNat / twoTo 52 % twoTo 11

def fraction (x : Binary64) : Nat :=
  x.bits.toNat % twoTo 52

def reading (x : Binary64) : Reading :=
  if x.biasedExponent = 2047 then
    if x.fraction = 0 then .infinite x.isNegative else .notANumber
  else if x.biasedExponent = 0 then .finite x.isNegative x.fraction (-1074)
  else .finite x.isNegative (twoTo 52 + x.fraction) (x.biasedExponent - 1075)

/-- Equality of numbers: the two zeros are equal, and what is not a number equals nothing. -/
def sameNumber (x y : Binary64) : Bool :=
  match x.reading, y.reading with
  | .notANumber, _ => false
  | _, .notANumber => false
  | .finite _ 0 _, .finite _ 0 _ => true
  | r, s => r == s

/-- The quotient rounded to a whole number, a tie going to the even one. -/
def divNearestEven (num den : Nat) : Nat :=
  let q := num / den
  let twice := 2 * (num % den)
  if den < twice ∨ (twice = den ∧ q % 2 = 1) then q + 1 else q

/-- The whole `k` with `2 ^ k ≤ num / den < 2 ^ (k + 1)`, for positive `num` and `den`. -/
def floorLog2 (num den : Nat) : Int :=
  let k : Int := Int.ofNat num.log2 - Int.ofNat den.log2
  if num * twoTo (-k).toNat < den * twoTo k.toNat then k - 1 else k

def withSign (negative : Bool) (magnitude : Nat) : Binary64 :=
  ⟨UInt64.ofNat (if negative then twoTo 63 + magnitude else magnitude)⟩

def ofQuotient (negative : Bool) (num den : Nat) : Binary64 :=
  if num = 0 then withSign negative 0
  else
    let exponent := max (floorLog2 num den - 52) (-1074)
    let mantissa := divNearestEven (num * twoTo (-exponent).toNat) (den * twoTo exponent.toNat)
    withSign negative (min ((exponent + 1074).toNat * twoTo 52 + mantissa) (2047 * twoTo 52))

def ofNat (n : Nat) : Binary64 :=
  ofQuotient false n 1

def negate (x : Binary64) : Binary64 :=
  withSign (!x.isNegative) (x.bits.toNat % twoTo 63)

def isZero (x : Binary64) : Bool :=
  match x.reading with
  | .finite _ 0 _ => true
  | _ => false

def isInfinite (x : Binary64) : Bool :=
  match x.reading with
  | .infinite _ => true
  | _ => false

def mul (x y : Binary64) : Binary64 :=
  match x.reading, y.reading with
  | .finite n₁ m₁ e₁, .finite n₂ m₂ e₂ =>
    let e := e₁ + e₂
    ofQuotient (n₁ != n₂) (m₁ * m₂ * twoTo e.toNat) (twoTo (-e).toNat)
  | _, _ => ⟨0x7ff8000000000000⟩

def div (x y : Binary64) : Binary64 :=
  match x.reading, y.reading with
  | .finite n₁ m₁ e₁, .finite n₂ m₂ e₂ =>
    let e := e₁ - e₂
    ofQuotient (n₁ != n₂) (m₁ * twoTo e.toNat) (m₂ * twoTo (-e).toNat)
  | _, _ => ⟨0x7ff8000000000000⟩

/-- Whether `value * 10 ^ exponent` rounds to a finite number. The power is only computed where the
number of digits does not decide. -/
def holdsScaled (value : Nat) (exponent : Int) : Bool :=
  let size := (Nat.toDigits 10 value).length + exponent
  value == 0 || size ≤ 308 ||
    (size ≤ 309 &&
      !(ofQuotient false (value * tenTo exponent.toNat) (tenTo (-exponent).toNat)).isInfinite)

def ofBinary32 (bits : UInt32) : Binary64 :=
  let negative := decide (twoTo 31 ≤ bits.toNat)
  let exponent := bits.toNat / twoTo 23 % twoTo 8
  let fraction := bits.toNat % twoTo 23
  if exponent = 255 then
    if fraction = 0 then withSign negative (2047 * twoTo 52)
    else withSign negative (2047 * twoTo 52 + twoTo 51 ||| fraction * twoTo 29)
  else if exponent = 0 then ofQuotient negative fraction (twoTo 149)
  else ofQuotient negative ((twoTo 23 + fraction) * twoTo exponent) (twoTo 150)

end Binary64

end PathQuery
