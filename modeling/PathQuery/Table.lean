import PathQuery.Error

/-!
Tables: a name, an alias, the columns of attributes in the order of their declaration, and the
attributes of the primary key.
-/

set_option autoImplicit false

namespace PathQuery

structure Table where
  name : String
  tableAlias : String
  /-- Attributes and their columns; an attribute occurs once. -/
  columns : List (String × String)
  primaryKey : List String
  deriving DecidableEq, Repr, Inhabited

namespace Table

/-- A table without columns; its alias is its name and its key the attribute `id`. -/
def named (name : String) : Table :=
  { name, tableAlias := name, columns := [], primaryKey := ["id"] }

/-- Replaces the column of a known attribute in place and puts a new attribute last. -/
def assign (columns : List (String × String)) (name column : String) : List (String × String) :=
  match columns with
  | [] => [(name, column)]
  | entry :: rest =>
    if entry.1 = name then (name, column) :: rest else entry :: assign rest name column

def withColumn (t : Table) (name column : String) : Table :=
  { t with columns := assign t.columns name column }

def withColumns (t : Table) (names : List String) : Table :=
  names.foldl (fun t name => t.withColumn name name) t

def withPrimaryKey (t : Table) (names : List String) : Table :=
  { t with primaryKey := names }

def withAlias (t : Table) (tableAlias : String) : Table :=
  { t with tableAlias }

def column? (t : Table) (name : String) : Option String :=
  t.columns.lookup name

/-- The column of an attribute; one that is not mapped names its column itself. -/
def columnOf (t : Table) (name : String) : String :=
  (t.column? name).getD name

def primaryKeyColumns (t : Table) : List String :=
  t.primaryKey.map t.columnOf

def sqlNames (t : Table) : List String :=
  t.name :: t.columns.map Prod.snd ++ t.primaryKeyColumns

/-- Every name that reaches SQL must be an identifier; the first that is not is reported. -/
def validate (t : Table) : Except Error Unit :=
  t.sqlNames.forM fun name => do discard (Ident.read name)

end Table

end PathQuery
