import PathQuery.Toml

/-!
Tokens of TOML text. Comments are dropped, and so are blanks, save between words that make one
word; line ends are kept. The scanner takes one character at a time and looks at what follows it.
-/

set_option autoImplicit false

namespace PathQuery.Toml

inductive Token where
  | word (cs : List Char)
  | string (s : String)
  | block (s : String)
  | equals
  | comma
  /-- Brackets; `glued` says that the same bracket stands right before. -/
  | openBracket (glued : Bool)
  | closeBracket (glued : Bool)
  | openBrace
  | closeBrace
  | newline
  deriving Repr

namespace Token

/-- The marks around a string: double quotes allow escapes, three of a mark allow line ends. -/
structure Quotes where
  mark : Char
  block : Bool
  deriving Repr

/-- Where the scanner stands; characters already read are kept in reverse. -/
inductive Place where
  | between (previous : Char)
  | word (seen : List Char)
  | comment
  | carriageReturn
  | opening (q : Quotes) (left : Nat)
  | blockStart (q : Quotes)
  | string (q : Quotes) (seen : List Char)
  | escape (q : Quotes) (seen : List Char)
  | unit (q : Quotes) (seen : List Char) (left value : Nat)
  | continuation (q : Quotes) (seen : List Char) (sawNewline : Bool)
  | closing (q : Quotes) (seen : List Char) (left : Nat)
  deriving Repr

def isWordChar (c : Char) : Bool :=
  !"=,[]\x7b\x7d \t#\r\n".toList.contains c

def isGap (c : Char) : Bool :=
  c == ' ' || c == '\t'

def isQuoteMark (c : Char) : Bool :=
  c == '"' || c == '\''

def isControl (c : Char) : Bool :=
  (c < ' ' && c != '\t') || c == '\x7f'

def simpleEscape? : Char → Option Char
  | 'b' => some '\x08'
  | 't' => some '\t'
  | 'n' => some '\n'
  | 'f' => some '\x0c'
  | 'r' => some '\r'
  | 'e' => some '\x1b'
  | '"' => some '"'
  | '\\' => some '\\'
  | _ => none

def escapeWidth? : Char → Option Nat
  | 'x' => some 2
  | 'u' => some 4
  | 'U' => some 8
  | _ => none

def punctuation? (previous : Char) : Char → Option Token
  | '=' => some .equals
  | ',' => some .comma
  | '[' => some (.openBracket (previous == '['))
  | ']' => some (.closeBracket (previous == ']'))
  | '\x7b' => some .openBrace
  | '\x7d' => some .closeBrace
  | '\n' => some .newline
  | _ => none

def start? (previous c : Char) (rest : List Char) : Option (List Token × Place) :=
  if isGap c then some ([], .between c)
  else if c = '#' then some ([], .comment)
  else if c = '\r' then some ([], .carriageReturn)
  else if isQuoteMark c then
    if rest.take 2 = [c, c] then some ([], .opening ⟨c, true⟩ 2)
    else some ([], .string ⟨c, false⟩ [])
  else if isWordChar c then some ([], .word [c])
  else (punctuation? previous c).map fun t => ([t], .between c)

/-- Whether a character goes on with a word. Words with a gap between them are one word, which is
how a date and a time may be written; a dot and its gaps separate the names of a key. Behind a dot
and behind a gap a quotation mark starts a string. -/
def continues (seen : List Char) (c : Char) (rest : List Char) : Bool :=
  let behindDot := seen.head? == some '.'
  if isGap c then
    !behindDot &&
      (rest.dropWhile isGap).head?.any fun d => isWordChar d && d != '.' && !isQuoteMark d
  else isWordChar c && !(behindDot && isQuoteMark c)

def finish (q : Quotes) (seen : List Char) : Token :=
  let s := String.ofList seen.reverse
  if q.block then .block s else .string s

def ofScalarValue? (n : Nat) : Option Char :=
  if n < 0xd800 ∨ (0xe000 ≤ n ∧ n < 0x110000) then some (Char.ofNat n) else none

def startsLineEnd (c : Char) (rest : List Char) : Bool :=
  c == '\n' || (c == '\r' && rest.head? == some '\n')

def inString? (q : Quotes) (seen : List Char) (c : Char) (rest : List Char) :
    Option (List Token × Place) :=
  if c = q.mark then
    if !q.block then some ([finish q seen], .between c)
    else
      let run := rest.takeWhile (· == q.mark)
      if run.length < 2 then some ([], .string q (c :: seen))
      else if run.length < 5 then
        some ([], .closing q (List.replicate (run.length - 2) c ++ seen) run.length)
      else none
  else if c = '\\' ∧ q.mark = '"' then some ([], .escape q seen)
  else if q.block && startsLineEnd c rest then
    some ([], .string q (c :: seen))
  else if isControl c then none
  else some ([], .string q (c :: seen))

def step? (place : Place) (c : Char) (rest : List Char) : Option (List Token × Place) :=
  match place with
  | .between previous => start? previous c rest
  | .word seen =>
    if continues seen c rest then some ([], .word (c :: seen))
    else (start? ' ' c rest).map fun (ts, next) => (.word seen.reverse :: ts, next)
  | .comment =>
    if c = '\n' then some ([.newline], .between c)
    else if c = '\r' then some ([], .carriageReturn)
    else if isControl c then none
    else some ([], .comment)
  | .carriageReturn => if c = '\n' then some ([.newline], .between c) else none
  | .opening q left => some ([], if left ≤ 1 then .blockStart q else .opening q (left - 1))
  | .blockStart q =>
    if c = '\n' then some ([], .string q [])
    else if c = '\r' ∧ rest.head? = some '\n' then some ([], .blockStart q)
    else inString? q [] c rest
  | .string q seen => inString? q seen c rest
  | .escape q seen =>
    match simpleEscape? c, escapeWidth? c with
    | some e, _ => some ([], .string q (e :: seen))
    | none, some width => some ([], .unit q seen width 0)
    | none, none =>
      if q.block && (isGap c || startsLineEnd c rest) then
        some ([], .continuation q seen (c = '\n'))
      else none
  | .unit q seen left value => do
    let v ← Text.hexValue? c
    if left ≤ 1 then return ([], .string q ((← ofScalarValue? (value * 16 + v)) :: seen))
    else return ([], .unit q seen (left - 1) (value * 16 + v))
  | .continuation q seen sawNewline =>
    if isGap c || startsLineEnd c rest then
      some ([], .continuation q seen (sawNewline || c == '\n'))
    else if sawNewline then inString? q seen c rest
    else none
  | .closing q seen left =>
    some (if left ≤ 1 then ([finish q seen], .between c) else ([], .closing q seen (left - 1)))

def scanFrom (place : Place) : List Char → Option (List Token)
  | [] =>
    match place with
    | .between _ => some []
    | .comment => some []
    | .word seen => some [.word seen.reverse]
    | _ => none
  | c :: rest => do
    let (ts, next) ← step? place c rest
    return ts ++ (← scanFrom next rest)

def scan? (cs : List Char) : Option (List Token) :=
  scanFrom (.between '\n') cs

end Token

end PathQuery.Toml
