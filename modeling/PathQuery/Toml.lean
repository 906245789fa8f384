import PathQuery.Number.Binary64
import PathQuery.Text.Digits

/-!
TOML documents: their values, and the words that stand for numbers, truth values and times. Of a
time only the form is checked. The form of a number is wider than its digits: a word may look like
a number and spell none, which matters only to who asks for its value.
-/

set_option autoImplicit false

namespace PathQuery

inductive Toml where
  | string (s : String)
  | integer (value : Option Int)
  | float (inRange : Bool)
  | boolean (b : Bool)
  | datetime
  | array (items : List Toml)
  | table (entries : List (String × Toml))
  deriving Repr, Inhabited

namespace Toml

open Text (isDigit)

mutual

def isReadable : Toml → Bool
  | .integer value => value.isSome
  | .float inRange => inRange
  | .array items => allReadable items
  | .table entries => allReadableUnder entries
  | _ => true
termination_by structural v => v

def allReadable : List Toml → Bool
  | [] => true
  | v :: rest => v.isReadable && allReadable rest
termination_by structural vs => vs

def allReadableUnder : List (String × Toml) → Bool
  | [] => true
  | (_, v) :: rest => v.isReadable && allReadableUnder rest
termination_by structural es => es

end

def isDigitOf (base : Nat) (c : Char) : Bool :=
  (Text.hexValue? c).any (· < base)

/-- Whether every underscore stands between two of the given characters; `previous` is the
character in front. -/
def isGrouped (isMember : Char → Bool) (previous : Char) : List Char → Bool
  | [] => previous != '_'
  | c :: rest =>
    (if c = '_' then isMember previous else previous != '_' || isMember c) &&
      isGrouped isMember c rest

def ungrouped (cs : List Char) : List Char :=
  cs.filter (· != '_')

def natural? (base : Nat) (cs : List Char) : Option Nat :=
  if cs = [] then none
  else cs.foldlM (fun n c => ((Text.hexValue? c).filter (· < base)).map (n * base + ·)) 0

def signed (cs : List Char) : Bool × List Char :=
  match cs with
  | '-' :: rest => (true, rest)
  | '+' :: rest => (false, rest)
  | _ => (false, cs)

/-- Integers have at most 128 bits, with or without a sign. -/
def fits (n : Int) : Bool :=
  -(twoTo 127 : Int) ≤ n && n < twoTo 128

def ofDigits (base : Nat) (negative : Bool) (cs : List Char) : Toml :=
  let value := (natural? base (ungrouped cs)).map fun n => if negative then -(n : Int) else n
  .integer (value.filter fits)

def ofBasedDigits? (base : Nat) (cs : List Char) : Option Toml :=
  if (ungrouped cs).all (isDigitOf base) && isGrouped (isDigitOf base) ' ' cs then
    some (ofDigits base false cs)
  else none

def isPlain (cs : List Char) : Bool :=
  cs.head? != some '0' || cs == ['0']

def scaledDigits? (cs : List Char) : Option (List Char × Int) :=
  let (mantissa, exponent) := cs.span fun c => c != 'e' && c != 'E'
  let (whole, fraction) := mantissa.span (· != '.')
  let (negative, power) := signed (exponent.drop 1)
  let areDigits (ds : List Char) := !ds.isEmpty && ds.all isDigit
  if areDigits whole && isPlain whole && (fraction.isEmpty || areDigits (fraction.drop 1)) &&
      (exponent.isEmpty || areDigits power) then
    let shift : Int := Text.decimalValue power
    some (whole ++ fraction.drop 1,
      (if negative then -shift else shift) - (fraction.drop 1).length)
  else none

def ofScaledDigits? (cs : List Char) : Option Toml :=
  if isGrouped isDigit ' ' cs then
    (scaledDigits? (ungrouped cs)).map fun (digits, exponent) =>
      .float (Binary64.holdsScaled (Text.decimalValue digits) exponent)
  else none

def isField (low high : Nat) (cs : List Char) : Bool :=
  cs.length == 2 && cs.all isDigit && low ≤ Text.decimalValue cs && Text.decimalValue cs ≤ high

def daysIn (year month : Nat) : Nat :=
  if month = 2 then
    if year % 4 = 0 ∧ (year % 100 ≠ 0 ∨ year % 400 = 0) then 29 else 28
  else if month = 4 ∨ month = 6 ∨ month = 9 ∨ month = 11 then 30
  else 31

def isDate : List Char → Bool
  | [y₁, y₂, y₃, y₄, '-', m₁, m₂, '-', d₁, d₂] =>
    [y₁, y₂, y₃, y₄].all isDigit && isField 1 12 [m₁, m₂] &&
      isField 1 (daysIn (Text.decimalValue [y₁, y₂, y₃, y₄]) (Text.decimalValue [m₁, m₂])) [d₁, d₂]
  | _ => false

def isTime : List Char → Bool
  | [h₁, h₂, ':', m₁, m₂] => isField 0 23 [h₁, h₂] && isField 0 59 [m₁, m₂]
  | h₁ :: h₂ :: ':' :: m₁ :: m₂ :: ':' :: s₁ :: s₂ :: rest =>
    isField 0 23 [h₁, h₂] && isField 0 59 [m₁, m₂] && isField 0 60 [s₁, s₂] &&
      (rest.isEmpty || (rest.head? == some '.' && rest.length > 1 && (rest.drop 1).all isDigit))
  | _ => false

def isOffsetTime (cs : List Char) : Bool :=
  match cs.getLast? with
  | some 'Z' => isTime cs.dropLast
  | some 'z' => isTime cs.dropLast
  | _ =>
    let (time, offset) := cs.span fun c => c != '+' && c != '-'
    isTime time && (offset.isEmpty || (offset.length == 6 && isTime (offset.drop 1)))

def isDatetime (cs : List Char) : Bool :=
  isDate cs || isTime cs ||
    (isDate (cs.take 10) && ['T', 't', ' '].contains ((cs.drop 10).headD '-') &&
      isOffsetTime (cs.drop 11))

/-- The number or time that a word stands for. What follows its first digits decides which. In an
integer an underscore stands between digits, of any base; of what else is there only a space is
refused at once. -/
def ofDigitWord? (cs : List Char) : Option Toml :=
  let (negative, rest) := signed cs
  let following := rest.dropWhile isDigit
  if !rest.head?.any isDigit then none
  else if following.head? = some '-' ∨ following.head? = some ':' then
    if isDatetime cs then some .datetime else none
  else if following.any fun c => c == '.' || c == 'e' || c == 'E' then ofScaledDigits? rest
  else if (following.isEmpty || following.head? == some '_') && !following.contains ' ' &&
      isPlain rest && isGrouped (isDigitOf 16) ' ' rest then
    some (ofDigits 10 negative rest)
  else none

def ofWord? (cs : List Char) : Option Toml :=
  if cs = "true".toList then some (.boolean true)
  else if cs = "false".toList then some (.boolean false)
  else if (signed cs).2 = "inf".toList ∨ (signed cs).2 = "nan".toList then some (.float true)
  else
    match cs with
    | '0' :: 'x' :: rest => ofBasedDigits? 16 rest
    | '0' :: 'o' :: rest => ofBasedDigits? 8 rest
    | '0' :: 'b' :: rest => ofBasedDigits? 2 rest
    | _ => ofDigitWord? cs

end Toml

end PathQuery
