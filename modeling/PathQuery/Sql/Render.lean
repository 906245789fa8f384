import PathQuery.Error
import PathQuery.Sql.Piece
import PathQuery.Statement

/-!
Statements written as SQL: names between backticks, values as question marks. Inside a SELECT of
a condition columns always carry the alias of their table, since they may refer to the statement
around it.
-/

set_option autoImplicit false

namespace PathQuery.Sql

/-- Which aliases are written: `tables` qualifies columns and names the sources, `results` names
the selected columns. -/
structure Aliasing where
  tables : Bool := false
  results : Bool := false
  deriving DecidableEq, Repr, Inhabited

namespace Aliasing

def of (s : Statement) : Aliasing :=
  { tables := s.needsAliases, results := s.selectsJoined }

def nested : Aliasing :=
  { tables := true, results := false }

end Aliasing

/-- The row count that stands for no limit, needed where only an offset is given. -/
def noLimit : Nat := twoTo 64 - 1

def column (a : Aliasing) (c : ColumnRef) : List Piece :=
  columnName a.tables c.tableAlias c.column

def selectItem (a : Aliasing) : SelectItem → List Piece
  | .column c label =>
    column a c ++
      match a.results, label with
      | true, some l => [lit " AS ", .name l]
      | _, _ => []
  | .raw sql => [lit sql]

def aggregate (a : Aliasing) (g : Aggregate) : List Piece :=
  [lit g.function.sql, lit "("] ++ (if g.distinct then [lit "DISTINCT "] else []) ++
    (match g.column with
      | some c => column a c
      | none => [lit "*"]) ++
    lit ")" ::
    match g.label with
    | some l => [lit " AS ", .name l]
    | none => []

def series (count : Nat) : List Piece :=
  [lit "SELECT 1 AS ", .name seriesColumn] ++
    (List.range (count - 1)).flatMap fun k => [lit " UNION ALL SELECT ", lit (toString (k + 2))]

def source (a : Aliasing) : Source → Except Error (List Piece)
  | .table name tableAlias =>
    .ok (tableName name ++ if a.tables then [lit " AS ", .name tableAlias] else [])
  | .series tableAlias count =>
    if count = 0 then .error .emptyGroup
    else .ok (lit "(" :: series count ++ [lit ") AS ", .name tableAlias])

def joinTest (a : Aliasing) (t : JoinTest) : List Piece :=
  column a t.left ++ [lit " ", lit t.op.sql, lit " "] ++ column a t.right

def joinTests (a : Aliasing) : List JoinTest → List Piece
  | [] => []
  | [t] => joinTest a t
  | t :: rest => joinTest a t ++ lit " AND " :: joinTests a rest

def join (a : Aliasing) (j : Join) : List Piece :=
  [lit " ", lit j.kind.sql, lit " "] ++ tableName j.table ++
    (if a.tables then [lit " AS ", .name j.tableAlias] else []) ++ lit " ON " :: joinTests a j.on

def joins (a : Aliasing) (js : List Join) : List Piece :=
  js.flatMap (join a)

def operand (a : Aliasing) (tableAlias : String) : List String → Except Error (List Piece)
  | [] => .error (.malformed .conditions (.noColumn tableAlias))
  | [c] => .ok (columnName a.tables tableAlias c)
  | cs => .ok (lit "(" :: commaSeparated (cs.map (columnName a.tables tableAlias)) ++ [lit ")"])

def comparison (op : Operator) (value : Value) : Except Error (List Piece) :=
  if op.isUnary then .ok [lit " ", lit op.sql]
  else
    match op.isRange, value with
    | true, .list [low, high] =>
      .ok [lit " ", lit op.sql, lit " ", .bound low, lit " AND ", .bound high]
    | true, .list _ => .error (.malformed .conditions (.boundsNotTwo op))
    | _, v => .ok [lit " ", lit op.sql, lit " ", .bound v]

def constant (truth : Bool) : List Piece :=
  [lit (if truth then "1=1" else "1=0")]

/-- A comparison with a value. Membership in an empty list is a constant. -/
def compare (a : Aliasing) (tableAlias : String) (columns : List String) (op : Operator)
    (value : Value) : Except Error (List Piece) :=
  match op.isMembership, value with
  | true, .list [] => .ok (constant (op == .notIn))
  | _, _ => do
    let left ← operand a tableAlias columns
    return left ++ (← comparison op value)

def selectHead (a : Aliasing) (f : Frame) : Except Error (List Piece) := do
  let from? ← match f.source with
    | some s => do pure (lit " FROM " :: (← source a s))
    | none => pure []
  let items := f.columns.map (selectItem a) ++ f.aggregates.map (aggregate a)
  return lit "SELECT " :: (if f.distinct then [lit "DISTINCT "] else []) ++
    (if items.isEmpty then [lit "*"] else commaSeparated items) ++ from? ++ joins a f.joins

def ordering (a : Aliasing) (o : Ordering) : List Piece :=
  column a o.column ++ if o.descending then [lit " DESC"] else []

def limits : Option Nat → Option Nat → List Piece
  | some limit, some offset => [lit s!" LIMIT {limit}", lit s!" OFFSET {offset}"]
  | some limit, none => [lit s!" LIMIT {limit}"]
  | none, some offset => [lit s!" LIMIT {noLimit} OFFSET {offset}"]
  | none, none => []

def clause (keyword : String) (items : List (List Piece)) : List Piece :=
  if items.isEmpty then [] else lit keyword :: commaSeparated items

def selectTail (a : Aliasing) (f : Frame) : List Piece :=
  clause " GROUP BY " (f.groupBy.map (column a)) ++
    clause " ORDER BY " (f.orderBy.map (ordering a)) ++ limits f.limit f.offset

mutual

def condition (a : Aliasing) : Condition → Except Error (List Piece)
  | .compare _ tableAlias columns op value => compare a tableAlias columns op value
  | .group _ members => do
    if members.isEmpty then throw .emptyGroup
    return lit "(" :: (← conditions a members) ++ [lit ")"]
  | .existence _ negated frame inner => do
    let head ← selectHead .nested frame
    let body ← whereClause .nested inner
    return lit (if negated then "NOT EXISTS (" else "EXISTS (") :: head ++ body ++
      selectTail .nested frame ++ [lit ")"]
  | .membership _ c values negated =>
    if values.isEmpty then .ok (constant negated)
    else .ok (column a c ++ [lit (if negated then " NOT IN " else " IN "), .bound (.list values)])
  | .columns _ left op right =>
    .ok (column a left ++ [lit " ", lit op.sql, lit " "] ++ column a right)
  | .subquery _ frame inner op value => do
    let head ← selectHead .nested frame
    let body ← whereClause .nested inner
    return lit "(" :: head ++ body ++ selectTail .nested frame ++ [lit ") ", lit op.sql] ++
      if op.isUnary then [] else [lit " ", .bound value]
termination_by structural x => x

def conditions (a : Aliasing) : List Condition → Except Error (List Piece)
  | [] => .ok []
  | x :: rest => do return (← condition a x) ++ (← siblings a rest)
termination_by structural xs => xs

def siblings (a : Aliasing) : List Condition → Except Error (List Piece)
  | [] => .ok []
  | x :: rest => do
    let own ← condition a x
    return [lit " ", lit x.connective.sql, lit " "] ++ own ++ (← siblings a rest)
termination_by structural xs => xs

def whereClause (a : Aliasing) : List Condition → Except Error (List Piece)
  | [] => .ok []
  | x :: rest => do return lit " WHERE " :: (← condition a x) ++ (← siblings a rest)
termination_by structural xs => xs

end

def select (a : Aliasing) (s : Statement) : Except Error (List Piece) := do
  let head ← selectHead a s.toFrame
  let body ← whereClause a s.conditions
  return head ++ body ++ selectTail a s.toFrame

def row (values : List Value) : List Piece :=
  lit "(" :: commaSeparated (values.map fun v => [.bound v]) ++ [lit ")"]

def insert (s : Statement) : Except Error (List Piece) :=
  match s.into with
  | none => .error (.malformed .into .insertWithoutTarget)
  | some table =>
    if s.rows.isEmpty then .error (.malformed .values .insertWithoutRows)
    else
      .ok (lit "INSERT INTO " :: tableName table ++ lit " (" ::
        commaSeparated (s.insertColumns.map fun c => [.name c]) ++ lit ") VALUES" ::
        commaSeparated (s.rows.map row))

def assignment (a : Aliasing) (target : ColumnRef × Value) : List Piece :=
  column a target.1 ++ [lit " = ", .bound target.2]

def update (a : Aliasing) (s : Statement) : Except Error (List Piece) :=
  match s.source with
  | none => .error (.malformed .source .updateWithoutTable)
  | some src => do
    if s.assignments.isEmpty then throw (.malformed .set .updateWithoutAssignments)
    let table ← source a src
    let body ← whereClause a s.conditions
    return lit "UPDATE " :: table ++ joins a s.joins ++ lit " SET " ::
      commaSeparated (s.assignments.map (assignment a)) ++ body

def deleteTarget? (s : Statement) : Option String :=
  s.deleteFrom.or
    (match s.source with
      | some (.table name _) => some name
      | _ => none)

/-- Over several tables the root is named by its alias and the sources follow. -/
def delete (a : Aliasing) (s : Statement) : Except Error (List Piece) :=
  match s.deleteUsing with
  | some src => do
    let aliased := { a with tables := true }
    let table ← source aliased src
    let body ← whereClause aliased s.conditions
    return [lit "DELETE FROM ", .name src.tableAlias, lit " USING "] ++ table ++
      joins aliased s.joins ++ body
  | none =>
    match deleteTarget? s with
    | none => .error (.malformed .source .deleteWithoutTable)
    | some table => do
      let body ← whereClause a s.conditions
      return lit "DELETE FROM " :: tableName table ++ body

end PathQuery.Sql

namespace PathQuery

structure Compiled where
  pieces : List Sql.Piece
  deriving Repr, Inhabited

namespace Compiled

def sql (c : Compiled) : String :=
  String.ofList (Sql.chars c.pieces)

def params (c : Compiled) : List Value :=
  Sql.params c.pieces

def flatParams (c : Compiled) : List Value :=
  Value.flattenAll c.params

end Compiled

namespace Statement

def compileAs (kind : StatementKind) (a : Sql.Aliasing) (s : Statement) : Except Error Compiled :=
  Compiled.mk <$>
    match kind with
    | .select => Sql.select a s
    | .insert => Sql.insert s
    | .update => Sql.update a s
    | .delete => Sql.delete a s

def compile (a : Sql.Aliasing) (s : Statement) : Except Error Compiled :=
  s.compileAs s.kind a

end Statement

end PathQuery
