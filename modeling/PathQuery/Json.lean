import PathQuery.Number.Decimal
import PathQuery.Text.Digits

/-!
JSON documents and their compact text. An object keeps its members in order. A number is an
integer of at most 64 bits, signed or not, or a finite floating-point number.
-/

set_option autoImplicit false

namespace PathQuery

inductive Json.Number where
  | integer (n : Int)
  | float (x : Binary64)
  deriving DecidableEq, Repr, Inhabited

inductive Json where
  | null
  | bool (b : Bool)
  | number (n : Json.Number)
  | string (s : String)
  | array (items : List Json)
  | object (members : List (String × Json))
  deriving Repr, Inhabited

namespace Json

/-- Writing a key again replaces its value and keeps its place. -/
def put (members : List (String × Json)) (key : String) (value : Json) : List (String × Json) :=
  if members.any (·.1 == key) then members.map fun m => if m.1 = key then (key, value) else m
  else members ++ [(key, value)]

def get? (key : String) : Json → Option Json
  | .object members => members.lookup key
  | _ => none

def Number.same : Number → Number → Bool
  | .integer m, .integer n => m == n
  | .float x, .float y => x.sameNumber y
  | _, _ => false

mutual

/-- Equality of documents. The members of an object are compared key by key, in any order. -/
def same : Json → Json → Bool
  | .null, .null => true
  | .bool a, .bool b => a == b
  | .number m, .number n => m.same n
  | .string s, .string t => s == t
  | .array xs, .array ys => sameItems xs ys
  | .object xs, .object ys => xs.length == ys.length && sameMembers xs ys
  | _, _ => false
termination_by structural j => j

def sameItems : List Json → List Json → Bool
  | [], [] => true
  | x :: xs, y :: ys => x.same y && sameItems xs ys
  | _, _ => false
termination_by structural xs => xs

def sameMembers : List (String × Json) → List (String × Json) → Bool
  | [], _ => true
  | (key, x) :: xs, ys => (ys.lookup key).any (x.same ·) && sameMembers xs ys
termination_by structural xs => xs

end

/-- Quotes, backslashes and control characters are escaped; everything else stands for itself. -/
def escape (c : Char) : List Char :=
  match c with
  | '"' => ['\\', '"']
  | '\\' => ['\\', '\\']
  | '\x08' => ['\\', 'b']
  | '\x0c' => ['\\', 'f']
  | '\n' => ['\\', 'n']
  | '\r' => ['\\', 'r']
  | '\t' => ['\\', 't']
  | c =>
    if c < ' ' then '\\' :: 'u' :: Text.padded 16 4 c.toNat
    else [c]

def writeString (s : String) : List Char :=
  '"' :: s.toList.flatMap escape ++ ['"']

/-- Positional from a hundred-thousandth up to sixteen digits; whole numbers keep their point. -/
def numberStyle : Decimal.Style :=
  { tie := .toEven, positional := fun point => -5 < point && point ≤ 16, wholePoint := true,
    notANumber := "null", infinity := "null" }

def Number.write : Number → List Char
  | .integer n => (toString n).toList
  | .float x => Decimal.write numberStyle x

mutual

def write : Json → List Char
  | .null => "null".toList
  | .bool true => "true".toList
  | .bool false => "false".toList
  | .number n => n.write
  | .string s => writeString s
  | .array items => '[' :: writeItems items ++ [']']
  | .object members => '\x7b' :: writeMembers members ++ ['\x7d']
termination_by structural j => j

def writeItems : List Json → List Char
  | [] => []
  | [j] => j.write
  | j :: rest => j.write ++ ',' :: writeItems rest
termination_by structural js => js

def writeMembers : List (String × Json) → List Char
  | [] => []
  | [(key, j)] => writeString key ++ ':' :: j.write
  | (key, j) :: rest => writeString key ++ ':' :: j.write ++ ',' :: writeMembers rest
termination_by structural ms => ms

end

def text (j : Json) : String :=
  String.ofList j.write

end Json

end PathQuery
