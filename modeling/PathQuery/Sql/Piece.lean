import PathQuery.Ident
import PathQuery.Value

/-!
SQL text as a list of pieces: fixed text, quoted names and bound values. The text and the list of
parameters are two views of the same pieces, so a placeholder and its value cannot part.
-/

set_option autoImplicit false

namespace PathQuery.Sql

inductive Piece where
  | text (cs : List Char)
  | name (name : String)
  | bound (value : Value)
  deriving Repr

mutual

/-- One question mark for each parameter: a list in parentheses, a key of one part as one
parameter, a fragment as its own text. A list without items is `(NULL)`. -/
def placeholders : Value → List Char
  | .raw sql => sql.toList
  | .list items => tuple items
  | .entity [_] => ['?']
  | .entity key => tuple key
  | _ => ['?']
termination_by structural v => v

def tuple : List Value → List Char
  | [] => "(NULL)".toList
  | v :: rest => '(' :: placeholders v ++ tupleRest rest
termination_by structural vs => vs

def tupleRest : List Value → List Char
  | [] => [')']
  | v :: rest => ',' :: placeholders v ++ tupleRest rest
termination_by structural vs => vs

end

theorem placeholders_of_isScalar {v : Value} (h : v.isScalar) : placeholders v = ['?'] := by
  cases v <;> first | rfl | simp [Value.isScalar] at h

theorem placeholders_entity {key : List Value} (h : ∀ part, key ≠ [part]) :
    placeholders (.entity key) = tuple key := by
  match key, h with
  | [], _ => rfl
  | [part], h => exact absurd rfl (h part)
  | _ :: _ :: _, _ => rfl

def Piece.chars : Piece → List Char
  | .text cs => cs
  | .name n => Ident.quoted n.toList
  | .bound v => placeholders v

def Piece.value? : Piece → Option Value
  | .bound v => some v
  | _ => none

def lit (s : String) : Piece :=
  .text s.toList

def chars (ps : List Piece) : List Char :=
  ps.flatMap Piece.chars

def params (ps : List Piece) : List Value :=
  ps.filterMap Piece.value?

@[simp] theorem chars_nil : chars [] = [] := rfl

@[simp] theorem chars_cons (p : Piece) (ps : List Piece) :
    chars (p :: ps) = p.chars ++ chars ps := by
  simp [chars]

@[simp] theorem chars_append (ps qs : List Piece) : chars (ps ++ qs) = chars ps ++ chars qs := by
  simp [chars]

@[simp] theorem params_nil : params [] = [] := rfl

@[simp] theorem params_append (ps qs : List Piece) :
    params (ps ++ qs) = params ps ++ params qs := by
  simp [params]

def commaSeparated : List (List Piece) → List Piece
  | [] => []
  | [ps] => ps
  | ps :: rest => ps ++ lit "," :: commaSeparated rest

def dottedName (segments : List (List Char)) : List Piece :=
  match segments with
  | [] => []
  | [s] => [.name (String.ofList s)]
  | s :: rest => .name (String.ofList s) :: lit "." :: dottedName rest

def tableName (name : String) : List Piece :=
  dottedName (Text.splitOn '.' name.toList)

def columnName (qualified : Bool) (tableAlias column : String) : List Piece :=
  if qualified then [.name tableAlias, lit ".", .name column] else [.name column]

end PathQuery.Sql
