import PathQuery.Failure

/-!
Comparisons of resolved columns with values. A comparison with nothing becomes a test for NULL, a
comparison with several values takes the operator's form for lists, and tuples are compared
column by column.
-/

set_option autoImplicit false

namespace PathQuery.Condition

def malformed {α : Type} (fault : Fault) : Except Failure α :=
  .error (.error (.malformed .conditions fault))

def nullTest (tableAlias column : String) (op : Operator) : Except Failure Condition :=
  match op with
  | .eq => .ok (ofColumn tableAlias column .isNull .null)
  | .is => .ok (ofColumn tableAlias column .isNull .null)
  | .ne => .ok (ofColumn tableAlias column .isNotNull .null)
  | .isNot => .ok (ofColumn tableAlias column .isNotNull .null)
  | .isNull => .ok (ofColumn tableAlias column .isNull .null)
  | .isNotNull => .ok (ofColumn tableAlias column .isNotNull .null)
  | _ => malformed (.needsValue op column)

/-- A comparison of one column. A list of one value counts as the value, an empty one as nothing;
operators on lists take it whole. -/
def ofScalar (tableAlias column : String) (op : Operator) : Value → Except Failure Condition
  | .null => nullTest tableAlias column op
  | .list items =>
    if op.isUnary then nullTest tableAlias column op
    else if op.isRange then
      if items.length = 2 then .ok (ofColumn tableAlias column op (.list items))
      else malformed (.needsTwoValues op column)
    else if op.takesList then .ok (ofColumn tableAlias column op (.list items))
    else
      match items with
      | [] => nullTest tableAlias column op
      | [v] => ofScalar tableAlias column op v
      | _ =>
        match op.listForm? with
        | some op => .ok (ofColumn tableAlias column op (.list items))
        | none => malformed (.refusesList op column)
  | v =>
    if op.isUnary then nullTest tableAlias column op
    else if op.isMembership then .ok (ofColumn tableAlias column op (.list [v]))
    else if op.takesList then malformed (.needsList op column)
    else .ok (ofColumn tableAlias column op v)
termination_by structural v => v

/-- The tuples that a value offers to several columns: a list of lists is a list of tuples, any
other list is one tuple, and anything else one tuple of one value. -/
def tuples : Value → List (List Value)
  | .list [] => []
  | .list items =>
    if items.all Value.isList then
      items.map fun
        | .list values => values
        | v => [v]
    else [items]
  | v => [[v]]

def ofTuple (tableAlias : String) (columns : List String) (op : Operator) (inner : Connective)
    (values : List Value) : Except Failure (List Condition) :=
  if values.length ≠ columns.length then malformed (.tupleWidth columns values.length)
  else do
    let tests ← (columns.zip values).mapM fun (column, v) => ofScalar tableAlias column op v
    return match tests with
      | [] => []
      | x :: rest => x.withConnective .and :: rest.map (withConnective inner)

def chain (outer : Connective) : List (List Condition) → List Condition
  | [] => []
  | members :: rest => .group .and members :: rest.map (.group outer)

/-- A comparison of several columns: some tuple agrees in all columns, or, negated, every tuple
differs in some. -/
def ofTuples (tableAlias : String) (columns : List String) (op : Operator) (value : Value) :
    Except Failure Condition := do
  let negated ← match op with
    | .eq => pure false
    | .isIn => pure false
    | .ne => pure true
    | .notIn => pure true
    | _ => malformed (.unsupportedOnCompound op)
  let inner : Connective := if negated then .or else .and
  let outer : Connective := if negated then .and else .or
  match tuples value with
  | [] =>
    match columns with
    | [] => throw .keyless
    | c :: _ => return .membership .and ⟨tableAlias, c⟩ [] negated
  | ts => do
    let groups ← ts.mapM (ofTuple tableAlias columns (if negated then .ne else .eq) inner)
    match groups with
    | [members] => return .group .and members
    | _ => return .group .and (chain outer groups)

end PathQuery.Condition
