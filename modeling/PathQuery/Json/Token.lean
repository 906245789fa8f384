import PathQuery.Json.Number

/-!
Tokens of JSON text. The scanner is a machine that takes one character at a time: it stands
between tokens, in a number or a name, or in a string and its escapes.
-/

set_option autoImplicit false

namespace PathQuery.Json

inductive Token where
  | openArray
  | closeArray
  | openObject
  | closeObject
  | colon
  | comma
  | string (s : String)
  | scalar (j : Json)
  deriving Repr

namespace Token

/-- Where the scanner stands; characters already read are kept in reverse. `unit` reads the four
digits of a code unit, after a high surrogate if there is one; `pair` expects the escape of the
low surrogate that must follow. -/
inductive Place where
  | between
  | word (seen : List Char)
  | string (seen : List Char)
  | escape (seen : List Char)
  | unit (seen : List Char) (high : Option Nat) (digits : Nat) (value : Nat)
  | pair (seen : List Char) (high : Nat) (backslash : Bool)
  deriving Repr

def isSpace (c : Char) : Bool :=
  c == ' ' || c == '\n' || c == '\r' || c == '\t'

def punctuation? : Char → Option Token
  | '[' => some .openArray
  | ']' => some .closeArray
  | '\x7b' => some .openObject
  | '\x7d' => some .closeObject
  | ':' => some .colon
  | ',' => some .comma
  | _ => none

def ofWord? (cs : List Char) : Option Token :=
  if cs = "null".toList then some (.scalar .null)
  else if cs = "true".toList then some (.scalar (.bool true))
  else if cs = "false".toList then some (.scalar (.bool false))
  else (Number.ofText? cs).map fun n => .scalar (.number n)

def simpleEscape? : Char → Option Char
  | '"' => some '"'
  | '\\' => some '\\'
  | '/' => some '/'
  | 'b' => some '\x08'
  | 'f' => some '\x0c'
  | 'n' => some '\n'
  | 'r' => some '\r'
  | 't' => some '\t'
  | _ => none

def closeUnit? (seen : List Char) (high : Option Nat) (unit : Nat) : Option Place :=
  match high with
  | none =>
    if 0xd800 ≤ unit ∧ unit < 0xdc00 then some (.pair seen unit false)
    else if 0xdc00 ≤ unit ∧ unit < 0xe000 then none
    else some (.string (Char.ofNat unit :: seen))
  | some h =>
    if 0xdc00 ≤ unit ∧ unit < 0xe000 then
      some (.string (Char.ofNat (0x10000 + (h - 0xd800) * 0x400 + (unit - 0xdc00)) :: seen))
    else none

def start? (c : Char) : Option (List Token × Place) :=
  if isSpace c then some ([], .between)
  else if c = '"' then some ([], .string [])
  else
    match punctuation? c with
    | some t => some ([t], .between)
    | none => some ([], .word [c])

def step? (place : Place) (c : Char) : Option (List Token × Place) :=
  match place with
  | .between => start? c
  | .word seen =>
    if isSpace c || c == '"' || (punctuation? c).isSome then do
      let t ← ofWord? seen.reverse
      let (ts, next) ← start? c
      return (t :: ts, next)
    else some ([], .word (c :: seen))
  | .string seen =>
    if c = '"' then some ([.string (String.ofList seen.reverse)], .between)
    else if c = '\\' then some ([], .escape seen)
    else if c < ' ' then none
    else some ([], .string (c :: seen))
  | .escape seen =>
    if c = 'u' then some ([], .unit seen none 0 0)
    else (simpleEscape? c).map fun e => ([], .string (e :: seen))
  | .unit seen high digits value => do
    let v ← Text.hexValue? c
    if digits < 3 then return ([], .unit seen high (digits + 1) (value * 16 + v))
    else return ([], ← closeUnit? seen high (value * 16 + v))
  | .pair seen high backslash =>
    if backslash then if c = 'u' then some ([], .unit seen (some high) 0 0) else none
    else if c = '\\' then some ([], .pair seen high true)
    else none

def scanFrom (place : Place) : List Char → Option (List Token)
  | [] =>
    match place with
    | .between => some []
    | .word seen => (ofWord? seen.reverse).map ([·])
    | _ => none
  | c :: rest => do
    let (ts, next) ← step? place c
    return ts ++ (← scanFrom next rest)

def scan? (cs : List Char) : Option (List Token) :=
  scanFrom .between cs

end Token

end PathQuery.Json
