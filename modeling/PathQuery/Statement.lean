import PathQuery.Operator
import PathQuery.Value

/-!
Statements taken apart into their clauses, and the conditions of a WHERE clause. Every condition
carries the connective that joins it to the condition before it; that of the first condition of
a list has no meaning.
-/

set_option autoImplicit false

namespace PathQuery

inductive StatementKind where
  | select
  | insert
  | update
  | delete
  deriving DecidableEq, Repr, Inhabited

def rootAlias : String := "_"

structure ColumnRef where
  tableAlias : String
  column : String
  deriving DecidableEq, Repr, Inhabited

def ColumnRef.root (column : String) : ColumnRef :=
  ⟨rootAlias, column⟩

/-- Rows that a statement reads: a table, or the numbers from one to `count`. -/
inductive Source where
  | table (name tableAlias : String)
  | series (tableAlias : String) (count : Nat)
  deriving DecidableEq, Repr

def seriesColumn : String := "k"

def Source.tableAlias : Source → String
  | .table _ a => a
  | .series a _ => a

inductive JoinKind where
  | inner
  | left
  | right
  deriving DecidableEq, Repr

def JoinKind.sql : JoinKind → String
  | .inner => "INNER JOIN"
  | .left => "LEFT JOIN"
  | .right => "RIGHT JOIN"

structure JoinTest where
  left : ColumnRef
  right : ColumnRef
  op : Operator
  deriving DecidableEq, Repr

def JoinTest.equal (left right : ColumnRef) : JoinTest :=
  ⟨left, right, .eq⟩

structure Join where
  table : String
  tableAlias : String
  kind : JoinKind
  on : List JoinTest
  deriving DecidableEq, Repr

inductive SelectItem where
  | column (column : ColumnRef) (label : Option String)
  | raw (sql : String)
  deriving DecidableEq, Repr

inductive AggregateFunction where
  | count
  | sum
  | avg
  | min
  | max
  deriving DecidableEq, Repr

def AggregateFunction.sql : AggregateFunction → String
  | .count => "COUNT"
  | .sum => "SUM"
  | .avg => "AVG"
  | .min => "MIN"
  | .max => "MAX"

structure Aggregate where
  function : AggregateFunction
  column : Option ColumnRef
  distinct : Bool
  label : Option String
  deriving DecidableEq, Repr

structure Ordering where
  column : ColumnRef
  descending : Bool
  deriving DecidableEq, Repr

structure Frame where
  kind : StatementKind
  distinct : Bool := false
  source : Option Source := none
  columns : List SelectItem := []
  aggregates : List Aggregate := []
  joins : List Join := []
  groupBy : List ColumnRef := []
  orderBy : List Ordering := []
  limit : Option Nat := none
  offset : Option Nat := none
  assignments : List (ColumnRef × Value) := []
  into : Option String := none
  insertColumns : List String := []
  rows : List (List Value) := []
  deleteFrom : Option String := none
  deleteUsing : Option Source := none
  deriving Repr

inductive Condition where
  /-- A comparison with a value; several columns form a tuple. -/
  | compare (connective : Connective) (tableAlias : String) (columns : List String) (op : Operator)
    (value : Value)
  | group (connective : Connective) (members : List Condition)
  | existence (connective : Connective) (negated : Bool) (frame : Frame)
    (conditions : List Condition)
  /-- `IN` or `NOT IN`; nothing is in an empty list. -/
  | membership (connective : Connective) (column : ColumnRef) (values : List Value) (negated : Bool)
  | columns (connective : Connective) (left : ColumnRef) (op : Operator) (right : ColumnRef)
  | subquery (connective : Connective) (frame : Frame) (conditions : List Condition) (op : Operator)
    (value : Value)
  deriving Repr

structure Statement extends Frame where
  conditions : List Condition := []
  deriving Repr

namespace Condition

def connective : Condition → Connective
  | .compare c _ _ _ _ => c
  | .group c _ => c
  | .existence c _ _ _ => c
  | .membership c _ _ _ => c
  | .columns c _ _ _ => c
  | .subquery c _ _ _ _ => c

def withConnective (c : Connective) : Condition → Condition
  | .compare _ a cs op v => .compare c a cs op v
  | .group _ ms => .group c ms
  | .existence _ n f cs => .existence c n f cs
  | .membership _ col vs n => .membership c col vs n
  | .columns _ l op r => .columns c l op r
  | .subquery _ f cs op v => .subquery c f cs op v

@[simp] theorem connective_withConnective (c : Connective) (x : Condition) :
    (x.withConnective c).connective = c := by
  cases x <;> rfl

@[simp] theorem withConnective_withConnective (c d : Connective) (x : Condition) :
    (x.withConnective c).withConnective d = x.withConnective d := by
  cases x <;> rfl

@[simp] theorem withConnective_connective (x : Condition) :
    x.withConnective x.connective = x := by
  cases x <;> rfl

def ofColumn (tableAlias column : String) (op : Operator) (value : Value) : Condition :=
  .compare .and tableAlias [column] op value

def tableAlias? : Condition → Option String
  | .compare _ a _ _ _ => some a
  | .membership _ col _ _ => some col.tableAlias
  | .columns _ l _ _ => some l.tableAlias
  | _ => none

mutual

def hasSubquery : Condition → Bool
  | .existence _ _ _ _ => true
  | .subquery _ _ _ _ _ => true
  | .group _ members => anySubquery members
  | _ => false
termination_by structural x => x

def anySubquery : List Condition → Bool
  | [] => false
  | x :: rest => x.hasSubquery || anySubquery rest
termination_by structural xs => xs

end

/-- Whether the condition needs a row of its table: it is not satisfied where all columns of the
table are NULL. -/
def needsRow : Condition → Bool
  | .compare _ _ _ op value => !(op.isUnary || ((op == .is || op == .isNot) && value.isNull))
  | .membership _ _ _ negated => !negated
  | _ => false

end Condition

namespace Statement

def probe (source : Source) : Statement :=
  { kind := .select, source := some source, columns := [.raw "1"] }

def hasSeveralTables (s : Statement) : Bool :=
  !s.joins.isEmpty || s.deleteUsing.isSome

/-- Columns carry the alias of their table where there are several tables or a SELECT inside the
conditions, which may refer back to the root. -/
def needsAliases (s : Statement) : Bool :=
  s.hasSeveralTables || Condition.anySubquery s.conditions

def selectsJoined (s : Statement) : Bool :=
  s.columns.any fun
    | .column c _ => c.tableAlias != rootAlias
    | .raw _ => false

end Statement

end PathQuery
