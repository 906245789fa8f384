import PathQuery.Filter.Resolve
import PathQuery.JoinTree.SemiJoins

/-!
Requests: what a statement is about and what it is asked to do, in terms of models, attributes
and paths. A request is built into a statement against one join tree, so that every relation is
joined at most once.
-/

set_option autoImplicit false

namespace PathQuery

structure AggregateRequest where
  function : AggregateFunction
  path : Option String := none
  distinct : Bool := false
  label : Option String := none
  deriving DecidableEq, Repr

structure Options where
  filter : Filter := {}
  fields : List String := []
  eager : List String := []
  orderBy : List String := []
  groupBy : List String := []
  aggregates : List AggregateRequest := []
  limit : Option Int := none
  offset : Option Int := none
  distinct : Bool := false
  /-- Assignments of an UPDATE, or the only row of an INSERT where `rows` is empty. -/
  assignments : List (String × Value) := []
  rows : List (List Value) := []
  deriving Repr, Inhabited

inductive Target where
  | model (schema : Schema) (name : String)
  | table (t : Table)

structure Request where
  target : Target
  kind : StatementKind
  options : Options := {}

namespace Request

def ofModel (s : Schema) (name : String) (kind : StatementKind) : Except Error Request :=
  (s.model name).map fun _ => { target := .model s name, kind }

def ofTable (t : Table) (kind : StatementKind) : Request :=
  { target := .table t, kind }

def joinTree (r : Request) : Except Error JoinTree :=
  match r.target with
  | .model s name => JoinTree.ofModel s name
  | .table t => .ok (JoinTree.ofTable t)

end Request

namespace Building

def rootTable : Building Table := do
  return (← get).table JoinTree.rootId

def columnAt (clause : Clause) (path : String) : Building (Nat × ColumnRef × String) := do
  let (id, name) ← step fun t =>
    match t.resolve path with
    | (.ok found, t) => (.ok found, t)
    | (.error e, t) => (.error (e.inClause clause), t)
  let column := ((← get).table id).columnOf name
  discard (ofExcept (Ident.read column))
  modify (·.joinPath id)
  return (id, ⟨← aliasOf id, column⟩, name)

def labelOf (id : Nat) (name : String) : Building String := do
  if id = JoinTree.rootId then return name else return (← aliasOf id) ++ "." ++ name

def rootColumn (clause : Clause) (name : String) : Building String := do
  let t ← rootTable
  if name.toList.contains '/' then fail (.malformed clause (.notAnAttribute name t.name))
  let column := t.columnOf (String.ofList (Text.trim name.toList))
  discard (ofExcept (Ident.read column))
  return column

def selectedField (path : String) : Building SelectItem := do
  let (id, column, name) ← columnAt .fields path
  return .column column (some (← labelOf id name))

def eagerColumns (id : Nat) : Building (List SelectItem) := do
  if ((← get).node id).selected then return []
  modify (·.select id)
  let tableAlias ← aliasOf id
  return ((← get).table id).columns.map fun (name, column) =>
    .column ⟨tableAlias, column⟩ (some (tableAlias ++ "." ++ name))

def eagerPath (path : String) : Building (List SelectItem) := do
  let last ← step (·.resolveRelations JoinTree.rootId path)
  let ids := ((← get).pathBetween? JoinTree.rootId last).getD []
  return (← ids.mapM eagerColumns).flatten

def grouping (path : String) : Building (ColumnRef × SelectItem) := do
  let (id, column, name) ← columnAt .groupBy path
  return (column, .column column (some (← labelOf id name)))

def aggregate (a : AggregateRequest) : Building Aggregate := do
  let column ← match a.path with
    | some path => do pure (some (← columnAt .aggregates path).2.1)
    | none => pure none
  return { function := a.function, column, distinct := a.distinct, label := a.label }

end Building

namespace Options

/-- The path and the direction of an ordering: a leading minus or the word DESC turns it round. -/
def readOrder (spec : String) : Except Error (String × Bool) :=
  let text := Text.trim spec.toList
  if text.head? = some '-' then .ok (String.ofList (Text.trim (text.drop 1)), true)
  else
    let bad := .error (.malformed .orderBy (.unreadableOrder (String.ofList text)))
    match Text.words text with
    | [path] => .ok (String.ofList path, false)
    | [path, direction] =>
      if Text.eqAsciiCase direction "ASC".toList then .ok (String.ofList path, false)
      else if Text.eqAsciiCase direction "DESC".toList then .ok (String.ofList path, true)
      else bad
    | _ => bad

def readCount (clause : Clause) : Option Int → Except Error (Option Nat)
  | none => .ok none
  | some n => if n < 0 then .error (.malformed clause (.negative n)) else .ok (some n.toNat)

end Options

namespace Building

def ordering (spec : String) : Building Ordering := do
  let (path, descending) ← ofExcept (Options.readOrder spec)
  let (_, column, _) ← columnAt .orderBy path
  return { column, descending }

end Building

namespace Options

open Building

def conditions (depth : Nat) (o : Options) : Building (List Condition) := do
  let xs ← o.filter.resolve depth JoinTree.rootId
  fun t => t.settleRoot xs

def rootSource : Building Source := do
  return .table (← rootTable).name rootAlias

/-- The select items of the fields: all columns of the table where neither fields nor aggregates
are asked for. -/
def fieldItems (o : Options) : Building (List SelectItem) := do
  if !o.fields.isEmpty then o.fields.mapM selectedField
  else if o.aggregates.isEmpty then
    return (← rootTable).columns.map fun (name, column) => .column (.root column) (some name)
  else return []

def select (depth : Nat) (o : Options) : Building Statement := do
  let source ← rootSource
  let fields ← o.fieldItems
  if !o.eager.isEmpty && !(← get).hasModel then
    fail (.malformed .eager (.eagerOnBareTable (← rootTable).name))
  let eager ← o.eager.mapM eagerPath
  let groups ← o.groupBy.mapM grouping
  let aggregates ← o.aggregates.mapM aggregate
  let orderBy ← o.orderBy.mapM ordering
  let limit ← ofExcept (readCount .limit o.limit)
  let offset ← ofExcept (readCount .offset o.offset)
  let conditions ← o.conditions depth
  let groupItems := if o.fields.isEmpty && !o.aggregates.isEmpty then groups.map (·.2) else []
  return {
    kind := .select
    distinct := o.distinct
    source := some source
    columns := fields ++ eager.flatten ++ groupItems
    aggregates
    joins := (← get).statementJoins
    groupBy := groups.map (·.1)
    orderBy, limit, offset, conditions }

def insertion (o : Options) : List String × List (List Value) :=
  if o.rows.isEmpty then (o.assignments.map (·.1), [o.assignments.map (·.2)])
  else (o.fields, o.rows)

/-- Every row must have as many values as there are attributes; the first that has not is
reported with its number. -/
def checkRows (width : Nat) (number : Nat) : List (List Value) → Except Error Unit
  | [] => .ok ()
  | row :: rest =>
    if row.length = width then checkRows width (number + 1) rest
    else .error (.malformed .values (.rowWidth number row.length width))

def insert (o : Options) : Building Statement := do
  if !o.filter.isEmpty then fail (.malformed .conditions .insertWithConditions)
  let (names, rows) := o.insertion
  if names.isEmpty then fail (.malformed .values .insertWithoutColumns)
  let insertColumns ← names.mapM (rootColumn .fields)
  ofExcept (checkRows names.length 0 rows)
  return { kind := .insert, into := some (← rootTable).name, insertColumns, rows }

def assignment (target : String × Value) : Building (ColumnRef × Value) := do
  return (.root (← rootColumn .set target.1), target.2)

def update (depth : Nat) (o : Options) : Building Statement := do
  if o.assignments.isEmpty then fail (.malformed .set .updateNeedsAssignment)
  let source ← rootSource
  let assignments ← o.assignments.mapM assignment
  let conditions ← o.conditions depth
  let joins := (← get).statementJoins
  return { kind := .update, source := some source, assignments, conditions, joins }

/-- Where columns need the alias of their table the root becomes one of several sources. -/
def delete (depth : Nat) (o : Options) : Building Statement := do
  let source ← rootSource
  let conditions ← o.conditions depth
  let s : Statement :=
    { kind := .delete, deleteFrom := some (← rootTable).name, source := some source, conditions
      joins := (← get).statementJoins }
  return if s.needsAliases then { s with source := none, deleteUsing := some source } else s

def statement (depth : Nat) (kind : StatementKind) (o : Options) : Building Statement :=
  match kind with
  | .select => o.select depth
  | .insert => o.insert
  | .update => o.update depth
  | .delete => o.delete depth

end Options

namespace Request

def build (depth : Nat) (r : Request) : Except Failure Statement := do
  let t ← r.joinTree.mapError Failure.error
  (r.options.statement depth r.kind).run' t

end Request

def hookDepth : Nat := 65536

end PathQuery
