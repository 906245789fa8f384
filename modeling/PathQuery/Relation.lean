import PathQuery.Statement

/-!
Relations between models: named edges with a column on either side, and the joins that lead from
a row to the rows linked to it. A relation to many rows is never joined for a condition; it is
tested inside the statement.
-/

set_option autoImplicit false

namespace PathQuery

structure RelationEnd where
  model : String
  table : String
  name : String
  column : String
  deriving DecidableEq, Repr, Inhabited

structure JoinTable where
  table : String
  fromColumn : String
  toColumn : String
  deriving DecidableEq, Repr, Inhabited

inductive RelationKind where
  | belongsTo
  | hasOne
  | hasMany
  | manyMany (through : JoinTable)
  deriving DecidableEq, Repr

def RelationKind.name : RelationKind → String
  | .belongsTo => "belongs_to"
  | .hasOne => "has_one"
  | .hasMany => "has_many"
  | .manyMany _ => "many_many"

structure Relation where
  name : String
  kind : RelationKind
  current : RelationEnd
  linked : RelationEnd
  deriving DecidableEq, Repr

inductive Strategy where
  /-- In the statement's own WHERE, over a join. -/
  | plain
  /-- One linked row satisfies them together. -/
  | existence
  /-- Each is satisfied by some linked row. -/
  | division
  deriving DecidableEq, Repr

namespace Relation

def isToMany (r : Relation) : Bool :=
  match r.kind with
  | .hasMany => true
  | .manyMany _ => true
  | _ => false

def reverse (r : Relation) : Relation :=
  { name := r.name
    kind :=
      match r.kind with
      | .belongsTo => .hasMany
      | .hasOne => .belongsTo
      | .hasMany => .belongsTo
      | .manyMany j => .manyMany ⟨j.table, j.toColumn, j.fromColumn⟩
    current := r.linked
    linked := r.current }

def renamed (r : Relation) (name : String) : Relation :=
  { r with name }

def joinTableAlias (tableAlias : String) : String :=
  tableAlias ++ ".__join"

def linkedJoin (r : Relation) (tableAlias : String) (through : JoinTable) (kind : JoinKind) :
    Join :=
  { table := r.linked.table, tableAlias, kind
    on := [.equal ⟨tableAlias, r.linked.column⟩ ⟨joinTableAlias tableAlias, through.toColumn⟩] }

/-- The joins from the row under `parentAlias` to the linked rows. Between many and many the table
between comes first; the linked table follows it only if `link` asks for it. -/
def joins (r : Relation) (parentAlias tableAlias : String) (kind : JoinKind) (link : Bool) :
    List Join :=
  match r.kind with
  | .manyMany through =>
    { table := through.table, tableAlias := joinTableAlias tableAlias, kind
      on := [.equal ⟨joinTableAlias tableAlias, through.fromColumn⟩
        ⟨parentAlias, r.current.column⟩] } ::
      if link then [r.linkedJoin tableAlias through kind] else []
  | _ =>
    [{ table := r.linked.table, tableAlias, kind
       on := [.equal ⟨tableAlias, r.linked.column⟩ ⟨parentAlias, r.current.column⟩] }]

def strategy (r : Relation) (connective : Connective) (count : Nat) : Strategy :=
  if r.isToMany then
    match connective with
    | .or => .existence
    | .and => if 2 ≤ count then .division else .existence
  else .plain

end Relation

end PathQuery
