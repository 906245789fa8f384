import PathQuery.Text.Blank

/-!
SQL identifiers. A declared name is a sequence of segments separated by dots; each segment
starts with an ASCII letter or an underscore and goes on with ASCII letters, digits, underscores
and dollar signs. In a statement a name stands between backticks, a backtick inside it doubled.
-/

set_option autoImplicit false

namespace PathQuery

inductive IdentFault where
  | empty
  | emptySegment (text : String)
  | badStart (c : Char) (text : String)
  | badCharacter (c : Char) (text : String)
  deriving DecidableEq, Repr

structure Ident where
  segments : List (List Char)
  deriving DecidableEq, Repr

namespace Ident

def isAsciiLetter (c : Char) : Bool :=
  ('a' ≤ c && c ≤ 'z') || ('A' ≤ c && c ≤ 'Z')

def isStart (c : Char) : Bool :=
  c == '_' || isAsciiLetter c

def isWordChar (c : Char) : Bool :=
  c == '_' || c == '$' || isAsciiLetter c || ('0' ≤ c && c ≤ '9')

def checkSegment (text : String) : List Char → Except IdentFault (List Char)
  | [] => .error (.emptySegment text)
  | c :: rest =>
    if !isStart c then .error (.badStart c text)
    else
      match rest.find? (! isWordChar ·) with
      | some bad => .error (.badCharacter bad text)
      | none => .ok (c :: rest)

def checkSegments (text : String) : List (List Char) → Except IdentFault (List (List Char))
  | [] => .ok []
  | segment :: rest => do
    let s ← checkSegment text segment
    return s :: (← checkSegments text rest)

/-- Reads a dotted identifier; of several faults the leftmost is reported. -/
def parse (text : String) : Except IdentFault Ident :=
  if text.toList = [] then .error .empty
  else (checkSegments text (Text.splitOn '.' text.toList)).map Ident.mk

def text (i : Ident) : String :=
  String.ofList (['.'].intercalate i.segments)

def escape : List Char → List Char
  | [] => []
  | c :: rest => if c = '`' then '`' :: '`' :: escape rest else c :: escape rest

def quoted (name : List Char) : List Char :=
  '`' :: escape name ++ ['`']

def sql (i : Ident) : List Char :=
  ['.'].intercalate (i.segments.map quoted)

end Ident

def quote (name : String) : String :=
  String.ofList (Ident.quoted name.toList)

end PathQuery
