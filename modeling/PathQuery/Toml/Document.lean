import PathQuery.Text.Blank
import PathQuery.Toml.Token

/-!
Documents read from TOML tokens. A table may be opened once by a header and not by dotted keys as
well; a key has one value. The reader takes one token at a time and keeps the arrays and inline
tables that are still open.
-/

set_option autoImplicit false

namespace PathQuery.Toml

/-- How a table came to be: as a step towards another one, by a header, or by dotted keys. -/
inductive Origin where
  | passing
  | header
  | dotted
  deriving DecidableEq, Repr

/-- What stands under a key while a document is read. `tables` are the tables of repeated
headers, the latest first. -/
inductive Entry where
  | value (v : Toml)
  | table (origin : Origin) (entries : List (String × Entry))
  | tables (latest : List (String × Entry)) (earlier : List Toml)

abbrev Entries := List (String × Entry)

def Entries.put (es : Entries) (key : String) (e : Entry) : Entries :=
  if es.any (·.1 == key) then es.map fun x => if x.1 = key then (key, e) else x
  else es ++ [(key, e)]

mutual

def Entry.finish : Entry → Toml
  | .value v => v
  | .table _ entries => .table (finishAll entries)
  | .tables latest earlier => .array (earlier.reverse ++ [.table (finishAll latest)])
termination_by structural e => e

def finishAll : List (String × Entry) → List (String × Toml)
  | [] => []
  | (key, e) :: rest => (key, e.finish) :: finishAll rest
termination_by structural es => es

end

def openHeader? (repeated : Bool) (es : Entries) : List String → Option Entries
  | [] => none
  | [key] =>
    match List.lookup key es, repeated with
    | none, false => some (es.put key (.table .header []))
    | none, true => some (es.put key (.tables [] []))
    | some (.table .passing entries), false => some (es.put key (.table .header entries))
    | some (.tables latest earlier), true =>
      some (es.put key (.tables [] (.table (finishAll latest) :: earlier)))
    | _, _ => none
  | key :: rest =>
    match List.lookup key es with
    | none => (openHeader? repeated [] rest).map fun inner => es.put key (.table .passing inner)
    | some (.table origin inner) =>
      (openHeader? repeated inner rest).map fun inner => es.put key (.table origin inner)
    | some (.tables latest earlier) =>
      (openHeader? repeated latest rest).map fun latest => es.put key (.tables latest earlier)
    | some (.value _) => none

/-- Sets a value under a dotted key. The table that holds it must come from dotted keys; on the way
to it there may also be tables that headers only passed and the latest table of repeated
headers. -/
def assign? (es : Entries) (path : List String) (v : Toml) : Option Entries :=
  match path with
  | [] => none
  | [key] => if es.any (·.1 == key) then none else some (es.put key (.value v))
  | key :: rest =>
    match List.lookup key es with
    | none => (assign? [] rest v).map fun inner => es.put key (.table .dotted inner)
    | some (.table .dotted inner) =>
      (assign? inner rest v).map fun inner => es.put key (.table .dotted inner)
    | some (.table .passing inner) =>
      if rest.length < 2 then none
      else (assign? inner rest v).map fun inner => es.put key (.table .passing inner)
    | some (.tables latest earlier) =>
      if rest.length < 2 then none
      else (assign? latest rest v).map fun latest => es.put key (.tables latest earlier)
    | _ => none

def assignUnder? (es : Entries) (header path : List String) (v : Toml) : Option Entries :=
  match header with
  | [] => assign? es path v
  | key :: rest =>
    match List.lookup key es with
    | some (.table origin inner) =>
      (assignUnder? inner rest path v).map fun inner => es.put key (.table origin inner)
    | some (.tables latest earlier) =>
      (assignUnder? latest rest path v).map fun latest => es.put key (.tables latest earlier)
    | _ => none

inductive KeyPart where
  | name (s : String)
  | dot
  deriving DecidableEq, Repr

def isBareChar (c : Char) : Bool :=
  c.isAlphanum || c == '_' || c == '-'

def keyParts (cs : List Char) : List KeyPart :=
  let names := (Text.splitOn '.' cs).map fun name =>
    if name.isEmpty then [] else [KeyPart.name (String.ofList name)]
  (names.intersperse [.dot]).flatten

def tokenParts? : Token → Option (List KeyPart)
  | .word cs => if cs.all fun c => isBareChar c || c == '.' then some (keyParts cs) else none
  | .string s => some [.name s]
  | _ => none

def keyPath? : List KeyPart → Option (List String)
  | [.name s] => some [s]
  | .name s :: .dot :: rest => (keyPath? rest).map (s :: ·)
  | _ => none

def maxDepth : Nat := 80

def key? (parts : List KeyPart) : Option (List String) :=
  (keyPath? parts).filter (·.length ≤ maxDepth)

inductive Frame where
  | array (items : List Toml)
  | inline (entries : Entries) (path : List String)

/-- What the reader is in the middle of; `path` is the key of the line. -/
inductive Reading where
  | lineStart
  | header (repeated : Bool) (parts : List KeyPart)
  | headerClosing (path : List String)
  | key (parts : List KeyPart)
  | inlineKey (path : List String) (stack : List Frame) (entries : Entries) (parts : List KeyPart)
  | inlineEquals (path : List String) (stack : List Frame) (entries : Entries) (key : List String)
  | value (path : List String) (stack : List Frame)
  | afterValue (path : List String) (stack : List Frame)
  | lineEnd

structure Reader where
  entries : Entries := []
  header : List String := []
  reading : Reading := .lineStart

namespace Reader

def complete? (r : Reader) (path : List String) (stack : List Frame) (v : Toml) : Option Reader :=
  match stack with
  | [] =>
    (assignUnder? r.entries r.header path v).map fun entries =>
      { r with entries, reading := .lineEnd }
  | .array items :: stack =>
    some { r with reading := .afterValue path (.array (v :: items) :: stack) }
  | .inline entries key :: stack =>
    (assign? entries key v).map fun entries =>
      { r with reading := .afterValue path (.inline entries key :: stack) }

def openHeader? (r : Reader) (repeated : Bool) (path : List String) : Option Reader :=
  (Toml.openHeader? repeated r.entries path).map fun entries =>
    { entries, header := path, reading := .lineEnd }

def startValue? (r : Reader) (path : List String) (stack : List Frame) : Token → Option Reader
  | .word cs => do r.complete? path stack (← ofWord? cs)
  | .string s => r.complete? path stack (.string s)
  | .block s => r.complete? path stack (.string s)
  | .openBracket _ =>
    if stack.length < maxDepth then some { r with reading := .value path (.array [] :: stack) }
    else none
  | .openBrace =>
    if stack.length < maxDepth then some { r with reading := .inlineKey path stack [] [] }
    else none
  | .closeBracket _ =>
    match stack with
    | .array items :: stack => r.complete? path stack (.array items.reverse)
    | _ => none
  | .newline =>
    match stack with
    | [] => none
    | _ => some r
  | _ => none

def step? (r : Reader) (t : Token) : Option Reader :=
  match r.reading with
  | .lineStart =>
    match t with
    | .newline => some r
    | .openBracket _ => some { r with reading := .header false [] }
    | t => (tokenParts? t).map fun parts => { r with reading := .key parts }
  | .lineEnd =>
    match t with
    | .newline => some { r with reading := .lineStart }
    | _ => none
  | .header repeated parts =>
    match t with
    | .openBracket true =>
      if parts = [] ∧ !repeated then some { r with reading := .header true [] } else none
    | .closeBracket _ => do
      let path ← key? parts
      if repeated then return { r with reading := .headerClosing path }
      else r.openHeader? false path
    | t => (tokenParts? t).map fun more => { r with reading := .header repeated (parts ++ more) }
  | .headerClosing path =>
    match t with
    | .closeBracket true => r.openHeader? true path
    | _ => none
  | .key parts =>
    match t with
    | .equals => (key? parts).map fun path => { r with reading := .value path [] }
    | t => (tokenParts? t).map fun more => { r with reading := .key (parts ++ more) }
  | .value path stack => r.startValue? path stack t
  | .afterValue path stack =>
    match t, stack with
    | .newline, _ => some r
    | .comma, .array _ :: _ => some { r with reading := .value path stack }
    | .closeBracket _, .array items :: stack => r.complete? path stack (.array items.reverse)
    | .comma, .inline entries _ :: stack =>
      some { r with reading := .inlineKey path stack entries [] }
    | .closeBrace, .inline entries _ :: stack => r.complete? path stack (.table (finishAll entries))
    | _, _ => none
  | .inlineKey path stack entries parts =>
    match t with
    | .newline =>
      if parts = [] then some r
      else (key? parts).map fun key =>
        { r with reading := .inlineEquals path stack entries key }
    | .closeBrace =>
      if parts = [] then r.complete? path stack (.table (finishAll entries)) else none
    | .equals => (key? parts).map fun key =>
      { r with reading := .value path (.inline entries key :: stack) }
    | t => (tokenParts? t).map fun more =>
      { r with reading := .inlineKey path stack entries (parts ++ more) }
  | .inlineEquals path stack entries key =>
    match t with
    | .newline => some r
    | .equals => some { r with reading := .value path (.inline entries key :: stack) }
    | _ => none

end Reader

def ofTokens? (ts : List Token) : Option (List (String × Toml)) :=
  match (ts ++ [Token.newline]).foldlM Reader.step? {} with
  | some { entries, reading := .lineStart, .. } => some (finishAll entries)
  | _ => none

def dropByteOrderMark : List Char → List Char
  | '\ufeff' :: rest => rest
  | cs => cs

def parse? (s : String) : Option (List (String × Toml)) :=
  (Token.scan? (dropByteOrderMark s.toList)).bind ofTokens?

end PathQuery.Toml
