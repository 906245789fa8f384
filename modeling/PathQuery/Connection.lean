import PathQuery.Error

/-!
Connections to a database, as far as statements need them: a statement with its parameters goes
in, rows or a failure come out, and the connection moves to its next state.
-/

set_option autoImplicit false

namespace PathQuery

structure ConnectionError where
  code : Option String
  message : String
  deriving DecidableEq, Repr

structure Row where
  columns : List String
  values : List Value
  deriving Repr, Inhabited

namespace Row

def get? (r : Row) (name : String) : Option Value :=
  (r.columns.findIdx? (· == name)).bind (r.values[·]?)

def at? (r : Row) (index : Nat) : Option Value :=
  r.values[index]?

def size (r : Row) : Nat :=
  r.values.length

end Row

structure Outcome where
  rows : List Row
  affected : Nat
  deriving Repr, Inhabited

namespace Outcome

def ofRows (rows : List Row) : Outcome :=
  ⟨rows, rows.length⟩

def ofAffected (n : Nat) : Outcome :=
  ⟨[], n⟩

end Outcome

/-- A database connection with states `σ`. Parameters arrive flat, one for each placeholder. -/
structure Connection (σ : Type) where
  execute : σ → String → List Value → Except ConnectionError Outcome × σ
  lastInsertId? : σ → Option Value

namespace ConnectionError

/-- The letters that stand for the same letter whatever the case. Besides the capitals there are
the Kelvin sign and the long s. -/
def foldCase (c : Char) : Char :=
  if c = '\u212a' then 'k' else if c = '\u017f' then 's' else c.toLower

def occurs (pattern : List Char) : List Char → Bool
  | [] => pattern.isEmpty
  | c :: rest => pattern.isPrefixOf (c :: rest) || occurs pattern rest

def namesDuplicate (message : String) : Bool :=
  let text := message.toList.map foldCase
  ["duplicate entry", "duplicate key", "unique constraint"].any fun p => occurs p.toList text

/-- Two codes mean a duplicate key. A third means any broken constraint and, like a missing code,
leaves the decision to the message. -/
def isDuplicate (e : ConnectionError) : Bool :=
  match e.code with
  | some "23505" => true
  | some "1062" => true
  | some "23000" => namesDuplicate e.message
  | some _ => false
  | none => namesDuplicate e.message

end ConnectionError

def Error.ofConnection (e : ConnectionError) (sql : String) : Error :=
  if e.isDuplicate then .duplicateKey e.message sql else .database e.message sql

end PathQuery
