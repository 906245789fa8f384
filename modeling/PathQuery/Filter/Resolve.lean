import PathQuery.Filter.Comparison

/-!
Filters resolved against a join tree. Paths become columns of nodes, an attribute with a hook
becomes the conditions that the hook returns, and a relation is compared by the key of the record
it leads to. Groups are kept as they are written.
-/

set_option autoImplicit false

namespace PathQuery

namespace Building

/-- The node and the columns that an attribute stands for: several for a list with commas, the
key of the linked record for a relation. -/
def columnsOf (id : Nat) (name : String) : Building (Nat × List String) := do
  let t ← get
  if name.toList.contains ',' then
    let names := (Text.splitOn ',' name.toList).map fun s => String.ofList (Text.trim s)
    return (id, names.map (t.table id).columnOf)
  match (t.model? id).bind (·.relation? name) with
  | some r =>
    if r.kind = .belongsTo then return (id, [r.current.column])
    else
      let linked ← child id name
      return (linked, ((← get).table linked).primaryKeyColumns)
  | none => return (id, [(t.table id).columnOf name])

def target (scope : Nat) (path : String) : Building (Nat × List String) := do
  let (id, name) ← resolveFrom scope path
  columnsOf id name

end Building

namespace Filter

open Building

abbrev Expansion := Nat → Filter → Building (List Condition)

def resolveCompare (expand : Expansion) (scope : Nat) (connective : Connective)
    (path operator : String) (value : Value) : Building Condition := do
  let op ← ofExcept (Operator.parse operator)
  let (id, name) ← resolveFrom scope path
  match ((← get).model? id).bind (·.hook? name) with
  | some hook =>
    let produced ← ofExcept (hook op value)
    return .group connective (← expand id produced)
  | none =>
    let (id, columns) ← columnsOf id name
    let tableAlias ← aliasOf id
    let leaf ← match columns with
      | [column] => Condition.ofScalar tableAlias column op value.dereference
      | _ => Condition.ofTuples tableAlias columns op value.dereference
    let leaf := leaf.withConnective connective
    attach id leaf
    return leaf

def resolveMembership (scope : Nat) (connective : Connective) (path : String)
    (values : List Value) (negated : Bool) : Building Condition := do
  match ← target scope path with
  | (id, [column]) =>
    let leaf := .membership connective ⟨← aliasOf id, column⟩ (Value.dereferenceAll values) negated
    attach id leaf
    return leaf
  | _ => fail (.malformed .conditions (.compoundMembership path))

def resolveColumns (scope : Nat) (connective : Connective) (left operator right : String) :
    Building Condition := do
  let op ← ofExcept (Operator.parse operator)
  let l ← target scope left
  let r ← target scope right
  match l, r with
  | (leftId, [leftColumn]), (rightId, [rightColumn]) =>
    let leaf := .columns connective ⟨← aliasOf leftId, leftColumn⟩ op
      ⟨← aliasOf rightId, rightColumn⟩
    attach leftId leaf
    return leaf
  | _, _ => fail (.malformed .conditions (.compoundComparison left right))

mutual

def resolveCriterion (expand : Expansion) (scope : Nat) : Criterion → Building Condition
  | .compare c path operator value => resolveCompare expand scope c path operator value
  | .group c members => do return .group c (← resolveAll expand scope members)
  | .membership c path values negated => resolveMembership scope c path values negated
  | .columns c left operator right => resolveColumns scope c left operator right
  | .existence c query negated => return .existence c negated query.toFrame query.conditions
  | .subquery c query operator value => do
    let op ← ofExcept (Operator.parse operator)
    return .subquery c query.toFrame query.conditions op value.dereference
termination_by structural x => x

def resolveAll (expand : Expansion) (scope : Nat) : List Criterion → Building (List Condition)
  | [] => return []
  | x :: rest => do
    let c ← resolveCriterion expand scope x
    return c :: (← resolveAll expand scope rest)
termination_by structural xs => xs

end

/-- Resolves a filter at a node. Filters that hooks return are resolved in turn, hooks inside
them included, down to a depth. -/
def resolve : Nat → Nat → Filter → Building (List Condition)
  | 0, scope, f => resolveAll (fun _ _ => throw .endless) scope f.criteria
  | depth + 1, scope, f => resolveAll (resolve depth) scope f.criteria

end Filter

end PathQuery
