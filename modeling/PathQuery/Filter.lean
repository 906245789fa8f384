import PathQuery.Error
import PathQuery.Statement

/-!
Filters: conditions on a model before any path is resolved. A path such as `articles/author/age`
names relations and ends in an attribute. A filter combines its criteria with AND; a connective
that is set applies to the next criterion only.
-/

set_option autoImplicit false

namespace PathQuery

inductive Criterion where
  | compare (connective : Connective) (path operator : String) (value : Value)
  | group (connective : Connective) (members : List Criterion)
  | membership (connective : Connective) (path : String) (values : List Value) (negated : Bool)
  | columns (connective : Connective) (left operator right : String)
  | existence (connective : Connective) (query : Statement) (negated : Bool)
  | subquery (connective : Connective) (query : Statement) (operator : String) (value : Value)
  deriving Repr

namespace Criterion

def connective : Criterion → Connective
  | .compare c _ _ _ => c
  | .group c _ => c
  | .membership c _ _ _ => c
  | .columns c _ _ _ => c
  | .existence c _ _ => c
  | .subquery c _ _ _ => c

def withConnective (c : Connective) : Criterion → Criterion
  | .compare _ p op v => .compare c p op v
  | .group _ ms => .group c ms
  | .membership _ p vs n => .membership c p vs n
  | .columns _ l op r => .columns c l op r
  | .existence _ q n => .existence c q n
  | .subquery _ q op v => .subquery c q op v

end Criterion

structure Filter where
  criteria : List Criterion := []
  pending : Connective := .and
  deriving Repr, Inhabited

namespace Filter

def empty : Filter := {}

def size (f : Filter) : Nat :=
  f.criteria.length

def isEmpty (f : Filter) : Bool :=
  f.criteria.isEmpty

/-- Adds a criterion under the pending connective, which falls back to AND. -/
def push (f : Filter) (x : Criterion) : Filter :=
  { criteria := f.criteria ++ [x.withConnective f.pending], pending := .and }

def next (f : Filter) (c : Connective) : Filter :=
  { f with pending := c }

def nextToken (f : Filter) (token : String) : Except Error Filter :=
  (Connective.parse token).map f.next

def compare (f : Filter) (path operator : String) (value : Value) : Filter :=
  f.push (.compare .and path operator value)

def eq (f : Filter) (path : String) (value : Value) : Filter :=
  f.compare path "=" value

def group (f : Filter) (inner : Filter) : Filter :=
  f.push (.group .and inner.criteria)

def membership (f : Filter) (path : String) (values : List Value) (negated : Bool) : Filter :=
  f.push (.membership .and path values negated)

def columns (f : Filter) (left operator right : String) : Filter :=
  f.push (.columns .and left operator right)

def existence (f : Filter) (query : Statement) (negated : Bool) : Filter :=
  f.push (.existence .and query negated)

def subquery (f : Filter) (query : Statement) (operator : String) (value : Value) : Filter :=
  f.push (.subquery .and query operator value)

/-- Criteria of another filter behind those of this one; the first of them is joined with AND. -/
def extend (f other : Filter) : Filter :=
  { criteria := f.criteria ++
      match other.criteria with
      | [] => []
      | x :: rest => x.withConnective .and :: rest
    pending := .and }

end Filter

abbrev Hook := Operator → Value → Except Error Filter

end PathQuery
