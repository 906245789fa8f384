import PathQuery.Ident

/-!
The guard in front of execution: an UPDATE or DELETE runs only with a WHERE of its own. The
statement is read one character at a time, so that a WHERE inside parentheses, quotes or
comments does not count.
-/

set_option autoImplicit false

namespace PathQuery.Sql

inductive Noise where
  | between
  | lineComment
  /-- Inside a block comment, after a star or not. The star of the opening mark counts. -/
  | blockComment (afterStar : Bool)
  deriving DecidableEq, Repr

/-- The text without the blanks, comments and opening parentheses in front of it. A comment that
does not end leaves nothing. -/
def skipNoise : Noise → List Char → List Char
  | _, [] => []
  | .between, c :: rest =>
    if Text.isBlank c || c == '(' then skipNoise .between rest
    else if c == '-' && rest.head? == some '-' then skipNoise .lineComment rest
    else if c == '/' && rest.head? == some '*' then skipNoise (.blockComment false) rest
    else c :: rest
  | .lineComment, c :: rest => skipNoise (if c = '\n' then .between else .lineComment) rest
  | .blockComment afterStar, c :: rest =>
    skipNoise (if afterStar && c == '/' then .between else .blockComment (c == '*')) rest

def startsWithKeyword (keyword : List Char) (cs : List Char) : Bool :=
  Text.eqAsciiCase (cs.take keyword.length) keyword &&
    (cs.drop keyword.length).head?.all (! Ident.isWordChar ·)

/-- Where the scanner stands. `depth` counts open parentheses. -/
inductive Place where
  | code (depth : Nat) (afterWordChar : Bool)
  | quoted (depth : Nat) (mark : Char)
  /-- Before a character that belongs to the quoted text whatever it is. -/
  | guarded (depth : Nat) (mark : Char)
  | lineComment (depth : Nat)
  | blockOpening (depth : Nat)
  | blockComment (depth : Nat)
  | blockClosing (depth : Nat)
  deriving DecidableEq, Repr

def isQuoteMark (c : Char) : Bool :=
  c == '\'' || c == '"' || c == '`'

def Place.next (c : Char) (following : Option Char) : Place → Place
  | .code depth _ =>
    if isQuoteMark c then .quoted depth c
    else if c == '-' && following == some '-' then .lineComment depth
    else if c == '/' && following == some '*' then .blockOpening depth
    else if c == '(' then .code (depth + 1) false
    else if c == ')' then .code (depth - 1) false
    else .code depth (Ident.isWordChar c)
  | .quoted depth mark =>
    if c == mark then
      if following == some mark then .guarded depth mark else .code depth false
    else if c == '\\' && mark == '\'' then .guarded depth mark
    else .quoted depth mark
  | .guarded depth mark => .quoted depth mark
  | .lineComment depth => if c = '\n' then .code depth false else .lineComment depth
  | .blockOpening depth => .blockComment depth
  | .blockComment depth =>
    if c == '*' && following == some '/' then .blockClosing depth else .blockComment depth
  | .blockClosing depth => .code depth false

def Place.isOutermost : Place → Bool
  | .code 0 false => true
  | _ => false

def hasWhere : Place → List Char → Bool
  | _, [] => false
  | place, c :: rest =>
    (place.isOutermost && startsWithKeyword "WHERE".toList (c :: rest)) ||
      hasWhere (place.next c rest.head?) rest

/-- Whether a statement may run: no UPDATE and no DELETE without a WHERE of its own. -/
def isSafeText (cs : List Char) : Bool :=
  let body := skipNoise .between cs
  !(startsWithKeyword "DELETE".toList body || startsWithKeyword "UPDATE".toList body) ||
    hasWhere (.code 0 false) body

def isSafe (sql : String) : Bool :=
  isSafeText sql.toList

end PathQuery.Sql
