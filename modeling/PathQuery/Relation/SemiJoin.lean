import PathQuery.Relation

/-!
Semi-joins: a test on a row that some row linked to it satisfies conditions. Several conditions
that need not hold of the same linked row are tested by division: there is no condition among
them, numbered from one, that no linked row satisfies.
-/

set_option autoImplicit false

namespace PathQuery

namespace Condition

mutual

def usesOnlyKey (tableAlias key : String) : Condition → Bool
  | .compare _ a names _ _ => a != tableAlias || names == [key]
  | .membership _ c _ _ => c.tableAlias != tableAlias || c.column == key
  | .columns _ left _ right => left.tableAlias != tableAlias && right.tableAlias != tableAlias
  | .group _ members => useOnlyKey tableAlias key members
  | .existence _ _ _ _ => false
  | .subquery _ _ _ _ _ => false
termination_by structural x => x

def useOnlyKey (tableAlias key : String) : List Condition → Bool
  | [] => true
  | x :: rest => x.usesOnlyKey tableAlias key && useOnlyKey tableAlias key rest
termination_by structural xs => xs

end

mutual

/-- Moves comparisons of the columns under an alias to a column of another table. -/
def redirect (tableAlias : String) (target : ColumnRef) : Condition → Condition
  | .compare c a names op value =>
    if a = tableAlias then .compare c target.tableAlias (names.map fun _ => target.column) op value
    else .compare c a names op value
  | .membership c col values negated =>
    if col.tableAlias = tableAlias then .membership c target values negated
    else .membership c col values negated
  | .group c members => .group c (redirectAll tableAlias target members)
  | .existence c negated frame inner => .existence c negated frame inner
  | .columns c left op right => .columns c left op right
  | .subquery c frame inner op value => .subquery c frame inner op value
termination_by structural x => x

def redirectAll (tableAlias : String) (target : ColumnRef) : List Condition → List Condition
  | [] => []
  | x :: rest => x.redirect tableAlias target :: redirectAll tableAlias target rest
termination_by structural xs => xs

end

/-- A list of conditions as a unit behind another condition: nothing, the condition itself, or a
group. -/
def conjoined : List Condition → List Condition
  | [] => []
  | [x] => [x.withConnective .and]
  | x :: rest => [.group .and (x.withConnective .and :: rest)]

end Condition

namespace Relation

def seriesAlias (tableAlias : String) : String :=
  tableAlias ++ ".__conds"

def numbered (tableAlias : String) (number : Nat) : List Condition → List Condition
  | [] => []
  | x :: rest =>
    .group (if number = 1 then .and else .or)
        [.ofColumn (seriesAlias tableAlias) seriesColumn .eq (.raw (toString number)),
          x.withConnective .and] ::
      numbered tableAlias (number + 1) rest

/-- The parts of a semi-join before the conditions join them: the source of the linked rows, the
joins inside, the test that ties them to the row outside, and the conditions on them. -/
structure Body where
  source : Source
  joins : List Join
  correlation : Condition
  conditions : List Condition

/-- Between many and many the linked table is left out where the conditions speak only of its key:
the table between holds the same values. -/
def body (r : Relation) (parentAlias tableAlias : String) (extra : List Join)
    (conditions : List Condition) (division : Bool) : Body :=
  let outside : ColumnRef := ⟨parentAlias, r.current.column⟩
  match r.kind with
  | .manyMany through =>
    let between := joinTableAlias tableAlias
    let link := division || !extra.isEmpty ||
      !Condition.useOnlyKey tableAlias r.linked.column conditions
    { source := .table through.table between
      joins := (if link then [r.linkedJoin tableAlias through .inner] else []) ++ extra
      correlation := .columns .and ⟨between, through.fromColumn⟩ .eq outside
      conditions :=
        if link then conditions
        else Condition.redirectAll tableAlias ⟨between, through.toColumn⟩ conditions }
  | _ =>
    { source := .table r.linked.table tableAlias
      joins := extra
      correlation := .columns .and ⟨tableAlias, r.linked.column⟩ .eq outside
      conditions }

/-- The test that rows linked to the row under `parentAlias` satisfy conditions. `extra` joins
reach further tables inside the test. Division is the strategy of two or more conditions that
may be satisfied by different linked rows; otherwise one linked row satisfies the whole list. -/
def semiJoin (r : Relation) (parentAlias tableAlias : String) (extra : List Join)
    (conditions : List Condition) (strategy : Strategy) (connective : Connective) : Condition :=
  let division := strategy == .division && 2 ≤ conditions.length
  let b := r.body parentAlias tableAlias extra conditions division
  let one := { Statement.probe b.source with joins := b.joins }
  if division then
    let inner := [b.correlation, .group .and (numbered tableAlias 1 b.conditions)]
    let count := Statement.probe (.series (seriesAlias tableAlias) b.conditions.length)
    .existence connective true count.toFrame [.existence .and true one.toFrame inner]
  else .existence connective false one.toFrame (b.correlation :: Condition.conjoined b.conditions)

end Relation

end PathQuery
