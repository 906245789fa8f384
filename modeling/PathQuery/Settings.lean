import PathQuery.Text.WordCase

/-!
Settings of a schema: how names of columns, keys and join tables follow from the names that are
declared, and how statements are logged.
-/

set_option autoImplicit false

namespace PathQuery

inductive ColumnCase where
  /-- `authorId` is stored in `author_id`. -/
  | snake
  | asIs
  deriving DecidableEq, Repr, Inhabited

structure Naming where
  columnCase : ColumnCase := .snake
  primaryKey : String := "id"
  foreignKeySuffix : String := "_id"
  joinTableSeparator : String := "_"
  deriving DecidableEq, Repr, Inhabited

namespace Naming

def columnFor (naming : Naming) (name : String) : String :=
  match naming.columnCase with
  | .snake => String.ofList (Text.snakeCase name.toList)
  | .asIs => name

def foreignKeyColumn (naming : Naming) (model : String) : String :=
  String.ofList (Text.snakeCase model.toList) ++ naming.foreignKeySuffix

def foreignKeyAttribute (naming : Naming) (model : String) : String :=
  match naming.columnCase with
  | .snake => String.ofList (Text.lowerCamelCase (model ++ naming.foreignKeySuffix).toList)
  | .asIs => naming.foreignKeyColumn model

/-- The join table of two tables, the same from both sides. Text is ordered by its code points,
which is also the order of its bytes. -/
def joinTableFor (naming : Naming) (a b : String) : String :=
  if a ≤ b then a ++ naming.joinTableSeparator ++ b else b ++ naming.joinTableSeparator ++ a

end Naming

structure LogSettings where
  level : String := "debug"
  maxLength : Option Nat := some 200
  deriving DecidableEq, Repr, Inhabited

structure Settings where
  naming : Naming := {}
  log : LogSettings := {}
  deriving DecidableEq, Repr, Inhabited

end PathQuery
