import PathQuery.Number.Binary64

/-!
Decimal text of floating-point numbers. The digits are the fewest that read back as the same
number and, among those, the nearest to it. A style says how they are laid out.
-/

set_option autoImplicit false

namespace PathQuery.Decimal

inductive Tie where
  | up
  | toEven
  deriving DecidableEq, Repr

/-- The reals that round to `mantissa * 2 ^ exponent`, scaled so that every bound is a whole
number of units: the number is `value / unit`, and the ends belong to it when `closed`. -/
structure Interval where
  low : Nat
  value : Nat
  high : Nat
  unit : Nat
  closed : Bool

/-- Below a power of two the neighbours are half as far apart, so the interval is shorter there. -/
def interval (mantissa : Nat) (exponent : Int) : Interval :=
  let quarter := twoTo exponent.toNat
  let below := if mantissa = twoTo 52 ∧ -1074 < exponent then 1 else 2
  { low := (4 * mantissa - below) * quarter
    value := 4 * mantissa * quarter
    high := (4 * mantissa + 2) * quarter
    unit := 4 * twoTo (-exponent).toNat
    closed := mantissa % 2 = 0 }

def Interval.holds (i : Interval) (digits : Nat) (scale : Int) : Bool :=
  let n := digits * tenTo scale.toNat * i.unit
  let d := tenTo (-scale).toNat
  if i.closed then i.low * d ≤ n && n ≤ i.high * d else i.low * d < n && n < i.high * d

/-- The digits of a positive number without trailing zeros, as a natural number, and the power
of ten that its leading digit falls just below: the number is `0.digits * 10 ^ point`. -/
structure Digits where
  digits : List Char
  point : Int
  deriving DecidableEq, Repr

def ofNat (n : Nat) : List Char :=
  Nat.toDigits 10 n

/-- How many digits stand before the decimal point; for numbers below one tenth it is negative.
Every positive number exceeds the 400th power of one tenth, so the shifted floor is not zero. -/
def pointOf (i : Interval) : Int :=
  (ofNat (i.value * tenTo 400 / i.unit)).length - 400

def onGrid (tie : Tie) (i : Interval) (point : Int) (count : Nat) : Option Nat :=
  let scale := point - count
  let num := i.value * tenTo (-scale).toNat
  let den := i.unit * tenTo scale.toNat
  let below := num / den
  let twice := 2 * (num % den)
  let nearer :=
    if twice < den ∨ (twice = den ∧ tie = .toEven ∧ below % 2 = 0) then below else below + 1
  let farther := if nearer = below then below + 1 else below
  if i.holds nearer scale then some nearer
  else if i.holds farther scale then some farther
  else none

def trimZeros (cs : List Char) : List Char :=
  (cs.reverse.dropWhile (· = '0')).reverse

/-- The fewest digits that read back as the positive number `mantissa * 2 ^ exponent`;
seventeen are always enough. -/
def shortest (tie : Tie) (mantissa : Nat) (exponent : Int) : Digits :=
  let i := interval mantissa exponent
  let point := pointOf i
  match (List.range 17).findSome? fun n => (onGrid tie i point (n + 1)).map (n + 1, ·) with
  | none => ⟨['0'], 1⟩
  | some (count, digits) =>
    let text := ofNat digits
    { digits := trimZeros text, point := point + (text.length - count) }

/-- Layout of a number's text. A number is positional when `positional` holds of its `point`;
`wholePoint` writes `.0` after a whole number. -/
structure Style where
  tie : Tie
  positional : Int → Bool
  wholePoint : Bool
  notANumber : String
  infinity : String

def zeros (n : Nat) : List Char :=
  List.replicate n '0'

def writePositional (wholePoint : Bool) (d : Digits) : List Char :=
  if d.point ≤ 0 then '0' :: '.' :: zeros (-d.point).toNat ++ d.digits
  else if d.point < d.digits.length then
    d.digits.take d.point.toNat ++ '.' :: d.digits.drop d.point.toNat
  else
    d.digits ++ zeros (d.point - d.digits.length).toNat ++ (if wholePoint then ['.', '0'] else [])

def writeExponent (d : Digits) : List Char :=
  let exponent := d.point - 1
  let power := (if exponent < 0 then '-' else '+') :: ofNat exponent.natAbs
  match d.digits with
  | [] => ['0']
  | [c] => c :: 'e' :: power
  | c :: cs => c :: '.' :: cs ++ 'e' :: power

def signed (negative : Bool) (cs : List Char) : List Char :=
  if negative then '-' :: cs else cs

def write (style : Style) (x : Binary64) : List Char :=
  match x.reading with
  | .notANumber => style.notANumber.toList
  | .infinite negative => signed negative style.infinity.toList
  | .finite negative 0 _ => signed negative (if style.wholePoint then ['0', '.', '0'] else ['0'])
  | .finite negative mantissa exponent =>
    let d := shortest style.tie mantissa exponent
    signed negative <|
      if style.positional d.point then writePositional style.wholePoint d else writeExponent d

def plain : Style :=
  { tie := .up, positional := fun _ => true, wholePoint := false, notANumber := "NaN",
    infinity := "inf" }

end PathQuery.Decimal
