import PathQuery.Ident
import PathQuery.Operator
import PathQuery.Value

/-!
Causes of failure and their messages. A failure while a statement is built names the option it
arose in; a failure that the database reports carries the statement.
-/

set_option autoImplicit false

namespace PathQuery

inductive Clause where
  | conditions
  | path
  | fields
  | eager
  | groupBy
  | aggregates
  | orderBy
  | limit
  | offset
  | set
  | values
  | into
  | source
  | key
  | count
  | insertOne
  | other (name : String)
  deriving DecidableEq, Repr

def Clause.label : Clause → String
  | .conditions => "conditions"
  | .path => "path"
  | .fields => "fields"
  | .eager => "with"
  | .groupBy => "group_by"
  | .aggregates => "aggregates"
  | .orderBy => "order_by"
  | .limit => "limit"
  | .offset => "offset"
  | .set => "set"
  | .values => "values"
  | .into => "into"
  | .source => "from"
  | .key => "key"
  | .count => "count"
  | .insertOne => "insert_one"
  | .other name => name

inductive Fault where
  | invalidPath (path : String)
  | notAnAttribute (name table : String)
  | compoundMembership (path : String)
  | compoundComparison (left right : String)
  | needsValue (op : Operator) (column : String)
  | needsList (op : Operator) (column : String)
  | refusesList (op : Operator) (column : String)
  | needsTwoValues (op : Operator) (column : String)
  | boundsNotTwo (op : Operator)
  | unsupportedOnCompound (op : Operator)
  | tupleWidth (columns : List String) (given : Nat)
  | toManyOnRight
  | acrossToMany
  | noColumn (tableAlias : String)
  | unexpectedElement (element : Json)
  | notConditions (found : Json)
  | eagerOnBareTable (table : String)
  | unreadableOrder (spec : String)
  | negative (n : Int)
  | insertWithConditions
  | insertWithoutColumns
  | rowWidth (index given expected : Nat)
  | updateNeedsAssignment
  | updateWithoutAssignments
  | updateWithoutTable
  | insertWithoutTarget
  | insertWithoutRows
  | deleteWithoutTable
  | keyWidth (table : String) (parts given : Nat)
  | notCountable
  | notAnInsert
  | custom (message : String)
  deriving Repr

def Fault.message : Fault → String
  | .invalidPath path => s!"invalid path '{path}'"
  | .notAnAttribute name table => s!"'{name}' is not an attribute of '{table}'"
  | .compoundMembership path => s!"IN on compound attribute '{path}'"
  | .compoundComparison left right => s!"cannot compare compound attributes '{left}' and '{right}'"
  | .needsValue op column => s!"operator {op.sql} on '{column}' needs a value"
  | .needsList op column => s!"operator {op.sql} on '{column}' needs a list"
  | .refusesList op column => s!"operator {op.sql} on '{column}' does not accept a list"
  | .needsTwoValues op column => s!"{op.sql} on '{column}' needs exactly two values"
  | .boundsNotTwo op => s!"{op.sql} needs exactly two values"
  | .unsupportedOnCompound op => s!"operator {op.sql} is not supported on compound attributes"
  | .tupleWidth columns given =>
    let names := ",".intercalate columns
    s!"expected {columns.length} values for ({names}), got {given}"
  | .toManyOnRight => "a to-many column may only appear on the left side of a column comparison"
  | .acrossToMany => "cannot compare columns across different to-many relations"
  | .noColumn tableAlias => s!"comparison on '{tableAlias}' names no column"
  | .unexpectedElement element => s!"unexpected element in condition group: {element.text}"
  | .notConditions found => s!"expected an object or an array, got {found.text}"
  | .eagerOnBareTable table => s!"eager loading needs a model, '{table}' is a bare table"
  | .unreadableOrder spec => s!"cannot parse '{spec}'"
  | .negative n => s!"must not be negative, got {n}"
  | .insertWithConditions => "INSERT takes no conditions"
  | .insertWithoutColumns => "INSERT needs at least one column"
  | .rowWidth index given expected => s!"row {index} has {given} values, expected {expected}"
  | .updateNeedsAssignment => "UPDATE needs at least one assignment"
  | .updateWithoutAssignments => "UPDATE without assignments"
  | .updateWithoutTable => "UPDATE without a table"
  | .insertWithoutTarget => "INSERT without a target table"
  | .insertWithoutRows => "INSERT without rows"
  | .deleteWithoutTable => "DELETE without a table"
  | .keyWidth table parts given =>
    s!"'{table}' has a {parts}-part primary key, got {given} values"
  | .notCountable => "only SELECT queries can be counted"
  | .notAnInsert => "not an INSERT query"
  | .custom message => message

def IdentFault.message : IdentFault → String
  | .empty => "Identifier cannot be empty"
  | .emptySegment text => s!"Empty identifier segment in '{text}'"
  | .badStart c text => s!"Invalid identifier start character '{c}' in '{text}'"
  | .badCharacter c text => s!"Invalid character '{c}' in identifier '{text}'"

inductive DeclarationFault where
  | ident (fault : IdentFault)
  | modelTwice (model : String)
  | relationTwice (relation model : String)
  | unlinked (tableAlias : String)
  deriving DecidableEq, Repr

def DeclarationFault.message : DeclarationFault → String
  | .ident fault => fault.message
  | .modelTwice model => s!"model '{model}' is registered twice"
  | .relationTwice relation model => s!"relation '{relation}' is declared twice on '{model}'"
  | .unlinked tableAlias => s!"'{tableAlias}' is not reached through a relation"

inductive SettingsFault where
  | unreadableFile (path reason : String)
  | unreadableText
  | unknownLevel (level : String)
  deriving DecidableEq, Repr

def SettingsFault.message : SettingsFault → String
  | .unreadableFile path reason => s!"failed to read config file {path}: {reason}"
  | .unreadableText => "failed to parse config"
  | .unknownLevel level =>
    s!"invalid log level '{level}': error parsing level: expected one of " ++
      "\"error\", \"warn\", \"info\", \"debug\", \"trace\", or a number 1-5"

inductive Error where
  | unknownRelation (owner relation : String)
  | unknownModel (name : String)
  | unknownOperator (text : String)
  | invalidConnective (token : String)
  | emptyGroup
  | malformed (clause : Clause) (fault : Fault)
  | unsafeStatement (sql : String)
  | database (message sql : String)
  | duplicateKey (message sql : String)
  | recordNotFound (table : String) (key : Value)
  | invalid (fault : DeclarationFault)
  | settings (fault : SettingsFault)
  deriving Repr

namespace Error

def message : Error → String
  | .unknownRelation owner relation => s!"Unknown relation '{relation}' on '{owner}'"
  | .unknownModel name => s!"Unknown model: {name}"
  | .unknownOperator text => s!"Unknown operator: {text}"
  | .invalidConnective token => s!"Invalid logical operator: {token}"
  | .emptyGroup => "Empty condition group"
  | .malformed clause fault => s!"Malformed option '{clause.label}': {fault.message}"
  | .unsafeStatement sql => s!"Refusing to run unconditioned statement: {sql}"
  | .database message sql => s!"Database error: {message} [SQL: {sql}]"
  | .duplicateKey message sql => s!"Duplicate key: {message} [SQL: {sql}]"
  | .recordNotFound table key => s!"Record not found in '{table}' for key {key.display}"
  | .invalid fault => s!"Validation error: {fault.message}"
  | .settings fault => s!"Configuration error: {fault.message}"

def isDuplicateKey : Error → Bool
  | .duplicateKey _ _ => true
  | _ => false

def isNotFound : Error → Bool
  | .recordNotFound _ _ => true
  | _ => false

def inClause (clause : Clause) : Error → Error
  | .malformed _ fault => .malformed clause fault
  | e => e

end Error

def Operator.parse (text : String) : Except Error Operator :=
  match Operator.ofText? text.toList with
  | some op => .ok op
  | none => .error (.unknownOperator text)

def Connective.parse (token : String) : Except Error Connective :=
  match Connective.ofText? token.toList with
  | some c => .ok c
  | none => .error (.invalidConnective (String.ofList (Text.trim token.toList)))

def Ident.read (text : String) : Except Error Ident :=
  (Ident.parse text).mapError (.invalid ∘ .ident)

end PathQuery
