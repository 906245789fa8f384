import PathQuery.Filter
import PathQuery.Relation
import PathQuery.Settings
import PathQuery.Table

/-!
Schemas: models with their tables, relations and hooks. A schema is resolved once from
declarations; unset names follow the naming settings, and a relation may declare its inverse on
the model it leads to. A declared relation is never replaced by an inverse.
-/

set_option autoImplicit false

namespace PathQuery

inductive RelationForm where
  | belongsTo
  | hasOne
  | hasMany
  | manyMany
  deriving DecidableEq, Repr

structure RelationDecl where
  name : String
  form : RelationForm
  target : String
  /-- The attribute that points at the other side: of this model for belongs-to, else of the
  target. -/
  foreignKey : Option String := none
  /-- The attribute that is pointed at: of the target for belongs-to, else of this model. -/
  references : Option String := none
  through : Option JoinTable := none
  inverse : Option String := none
  deriving DecidableEq, Repr

structure ModelDecl where
  name : String
  table : String
  tableAlias : Option String := none
  attributes : List String := []
  /-- Columns given to attributes; the last one counts. -/
  columns : List (String × String) := []
  primaryKey : Option (List String) := none
  relations : List RelationDecl := []
  hooks : List (String × Hook) := []

namespace ModelDecl

def withAttributes (d : ModelDecl) (names : List String) : ModelDecl :=
  { d with attributes := d.attributes ++ names }

def withColumn (d : ModelDecl) (name column : String) : ModelDecl :=
  { d with
    attributes := if d.attributes.contains name then d.attributes else d.attributes ++ [name]
    columns := d.columns ++ [(name, column)] }

def withPrimaryKey (d : ModelDecl) (names : List String) : ModelDecl :=
  { d with primaryKey := some names }

def withRelation (d : ModelDecl) (r : RelationDecl) : ModelDecl :=
  { d with relations := d.relations ++ [r] }

def withHook (d : ModelDecl) (name : String) (hook : Hook) : ModelDecl :=
  { d with hooks := d.hooks ++ [(name, hook)] }

def keyNames (d : ModelDecl) (naming : Naming) : List String :=
  d.primaryKey.getD [naming.primaryKey]

/-- Key attributes that are not declared stand in front of those that are. -/
def allAttributes (d : ModelDecl) (naming : Naming) : List String :=
  (d.keyNames naming).filter (! d.attributes.contains ·) ++ d.attributes

def columnFor (d : ModelDecl) (naming : Naming) (name : String) : String :=
  (d.columns.reverse.lookup name).getD (naming.columnFor name)

def resolveTable (d : ModelDecl) (naming : Naming) : Except Error Table :=
  let base := { Table.named d.table with primaryKey := d.keyNames naming }
  let aliased := { base with tableAlias := d.tableAlias.getD base.tableAlias }
  let table := (d.allAttributes naming).foldl
    (fun t name => t.withColumn name (d.columnFor naming name)) aliased
  table.validate.map fun _ => table

end ModelDecl

structure Model where
  name : String
  table : Table
  relations : List Relation
  hooks : List (String × Hook)

namespace Model

def relation? (m : Model) (name : String) : Option Relation :=
  m.relations.find? (·.name == name)

def hook? (m : Model) (name : String) : Option Hook :=
  m.hooks.reverse.lookup name

end Model

structure Schema where
  models : List Model
  settings : Settings

namespace Schema

def model? (s : Schema) (name : String) : Option Model :=
  s.models.find? (·.name == name)

def model (s : Schema) (name : String) : Except Error Model :=
  match s.model? name with
  | some m => .ok m
  | none => .error (.unknownModel name)

def table (s : Schema) (model : String) : Except Error Table :=
  (s.model model).map Model.table

def relation (s : Schema) (model name : String) : Except Error Relation := do
  let m ← s.model model
  match m.relation? name with
  | some r => return r
  | none => throw (.unknownRelation model name)

def resolveTables (naming : Naming) (decls : List ModelDecl) :
    Except Error (List (String × Table)) :=
  decls.foldlM (fun tables d => do
    if (tables.lookup d.name).isSome then throw (.invalid (.modelTwice d.name))
    return tables ++ [(d.name, ← d.resolveTable naming)]) []

def relationEnd (naming : Naming) (model : String) (t : Table) (name : String) : RelationEnd :=
  { model, table := t.name, name, column := (t.column? name).getD (naming.columnFor name) }

def firstKey (naming : Naming) (t : Table) : String :=
  t.primaryKey.headD naming.primaryKey

def joinTableOf (naming : Naming) (owner : String) (d : RelationDecl) (current linked : Table) :
    JoinTable :=
  d.through.getD
    { table := naming.joinTableFor current.name linked.name
      fromColumn := naming.foreignKeyColumn owner
      toColumn := naming.foreignKeyColumn d.target }

def relationOf (naming : Naming) (owner : String) (d : RelationDecl) (current linked : Table) :
    Relation :=
  match d.form with
  | .belongsTo =>
    { name := d.name, kind := .belongsTo
      current := relationEnd naming owner current
        (d.foreignKey.getD (naming.foreignKeyAttribute d.target))
      linked := relationEnd naming d.target linked (d.references.getD (firstKey naming linked)) }
  | .manyMany =>
    { name := d.name, kind := .manyMany (joinTableOf naming owner d current linked)
      current := relationEnd naming owner current (d.references.getD (firstKey naming current))
      linked := relationEnd naming d.target linked (firstKey naming linked) }
  | form =>
    { name := d.name, kind := if form = .hasOne then .hasOne else .hasMany
      current := relationEnd naming owner current (d.references.getD (firstKey naming current))
      linked := relationEnd naming d.target linked
        (d.foreignKey.getD (naming.foreignKeyAttribute owner)) }

def relationNames (r : Relation) : List String :=
  (match r.kind with
    | .manyMany j => [j.table, j.fromColumn, j.toColumn]
    | _ => []) ++ [r.current.column, r.linked.column]

def resolveRelation (naming : Naming) (tables : List (String × Table)) (owner : String)
    (d : RelationDecl) : Except Error Relation :=
  match tables.lookup owner, tables.lookup d.target with
  | none, _ => .error (.unknownModel owner)
  | _, none => .error (.unknownModel d.target)
  | some current, some linked => do
    let r := relationOf naming owner d current linked
    (relationNames r).forM fun name => do discard (Ident.read name)
    return r

/-- Relations that are resolved, by model, and the inverses they ask for, by target. -/
structure Links where
  owned : List (String × List Relation)
  inverses : List (String × Relation)

def Links.addModel (naming : Naming) (tables : List (String × Table)) (links : Links)
    (d : ModelDecl) : Except Error Links := do
  let (relations, inverses) ← d.relations.foldlM (fun (relations, inverses) rd => do
    if relations.any (·.name == rd.name) then throw (.invalid (.relationTwice rd.name d.name))
    let r ← resolveRelation naming tables d.name rd
    let inverse := rd.inverse.map fun name => (rd.target, r.reverse.renamed name)
    return (relations ++ [r], inverses ++ inverse.toList)) ([], links.inverses)
  return { owned := links.owned ++ [(d.name, relations)], inverses }

def addInverse (owned : List (String × List Relation)) (inverse : String × Relation) :
    List (String × List Relation) :=
  owned.map fun (model, relations) =>
    if model = inverse.1 ∧ !relations.any (·.name == inverse.2.name) then
      (model, relations ++ [inverse.2])
    else (model, relations)

def resolveRelations (naming : Naming) (tables : List (String × Table)) (decls : List ModelDecl) :
    Except Error (List (String × List Relation)) := do
  let links ← decls.foldlM (Links.addModel naming tables) ⟨[], []⟩
  return links.inverses.foldl addInverse links.owned

def resolve (settings : Settings) (decls : List ModelDecl) : Except Error Schema := do
  let tables ← resolveTables settings.naming decls
  let relations ← resolveRelations settings.naming tables decls
  return {
    models := decls.map fun d =>
      { name := d.name
        table := (tables.lookup d.name).getD (Table.named d.table)
        relations := (relations.lookup d.name).getD []
        hooks := d.hooks }
    settings }

end Schema

end PathQuery
