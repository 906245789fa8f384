import PathQuery.Text.Blank

/-!
Comparison operators and the connectives that combine conditions.
-/

set_option autoImplicit false

namespace PathQuery

inductive Connective where
  | and
  | or
  deriving DecidableEq, Repr, Inhabited

namespace Connective

/-- Reads `AND` or `OR` in any ASCII case, blanks around it allowed. -/
def ofText? (token : List Char) : Option Connective :=
  let token := Text.upperAscii (Text.trim token)
  if token = "AND".toList then some .and
  else if token = "OR".toList then some .or
  else none

def isToken (token : String) : Bool :=
  (ofText? token.toList).isSome

def sql : Connective → String
  | .and => "AND"
  | .or => "OR"

end Connective

inductive Operator where
  | eq
  | ne
  | lt
  | le
  | gt
  | ge
  | like
  | notLike
  | isIn
  | notIn
  | is
  | isNot
  | isNull
  | isNotNull
  | between
  | notBetween
  | ltAny
  | leAny
  | gtAny
  | geAny
  deriving DecidableEq, Repr, Inhabited

namespace Operator

def sql : Operator → String
  | .eq => "="
  | .ne => "!="
  | .lt => "<"
  | .le => "<="
  | .gt => ">"
  | .ge => ">="
  | .like => "LIKE"
  | .notLike => "NOT LIKE"
  | .isIn => "IN"
  | .notIn => "NOT IN"
  | .is => "IS"
  | .isNot => "IS NOT"
  | .isNull => "IS NULL"
  | .isNotNull => "IS NOT NULL"
  | .between => "BETWEEN"
  | .notBetween => "NOT BETWEEN"
  | .ltAny => "< ANY"
  | .leAny => "<= ANY"
  | .gtAny => "> ANY"
  | .geAny => ">= ANY"

def all : List Operator :=
  [.eq, .ne, .lt, .le, .gt, .ge, .like, .notLike, .isIn, .notIn, .is, .isNot, .isNull, .isNotNull,
    .between, .notBetween, .ltAny, .leAny, .gtAny, .geAny]

def synonyms : List (String × Operator) :=
  [("==", .eq), ("<>", .ne)]

def normalSpelling (text : List Char) : List Char :=
  Text.upperAscii ([' '].intercalate (Text.words text))

def ofText? (text : List Char) : Option Operator :=
  let spelling := String.ofList (normalSpelling text)
  (all.find? (·.sql == spelling)).or (synonyms.lookup spelling)

def listForm? : Operator → Option Operator
  | .eq => some .isIn
  | .ne => some .notIn
  | .lt => some .ltAny
  | .le => some .leAny
  | .gt => some .gtAny
  | .ge => some .geAny
  | _ => none

def takesList : Operator → Bool
  | .isIn => true
  | .notIn => true
  | .between => true
  | .notBetween => true
  | .ltAny => true
  | .leAny => true
  | .gtAny => true
  | .geAny => true
  | _ => false

def isUnary : Operator → Bool
  | .isNull => true
  | .isNotNull => true
  | _ => false

def isMembership : Operator → Bool
  | .isIn => true
  | .notIn => true
  | _ => false

def isRange : Operator → Bool
  | .between => true
  | .notBetween => true
  | _ => false

def complement? : Operator → Option Operator
  | .eq => some .ne
  | .ne => some .eq
  | .lt => some .ge
  | .le => some .gt
  | .gt => some .le
  | .ge => some .lt
  | .like => some .notLike
  | .notLike => some .like
  | .isIn => some .notIn
  | .notIn => some .isIn
  | .is => some .isNot
  | .isNot => some .is
  | .isNull => some .isNotNull
  | .isNotNull => some .isNull
  | .between => some .notBetween
  | .notBetween => some .between
  | .ltAny => none
  | .leAny => none
  | .gtAny => none
  | .geAny => none

end Operator

end PathQuery
