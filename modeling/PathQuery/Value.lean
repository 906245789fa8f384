import PathQuery.Json
import PathQuery.Value.Timestamp
import PathQuery.Value.Uuid

/-!
Values of statement parameters. Besides scalars there are lists, keys of other records, and SQL
fragments that stand in the text themselves. What a connection receives is the flat list of
scalars: lists and keys are taken apart and fragments bind nothing.
-/

set_option autoImplicit false

namespace PathQuery

inductive Value where
  | null
  | bool (b : Bool)
  | int (n : Int64)
  | float (x : Binary64)
  | text (s : String)
  | blob (bytes : List UInt8)
  | timestamp (t : Timestamp)
  | uuid (u : Uuid)
  | json (j : Json)
  | list (items : List Value)
  /-- A record, given by the values of its primary key in key order. -/
  | entity (key : List Value)
  | raw (sql : String)
  deriving Repr, Inhabited

namespace Value

def isNull : Value → Bool
  | .null => true
  | _ => false

def isList : Value → Bool
  | .list _ => true
  | _ => false

def isScalar : Value → Bool
  | .list _ => false
  | .entity _ => false
  | .raw _ => false
  | _ => true

mutual

def same : Value → Value → Bool
  | .null, .null => true
  | .bool a, .bool b => a == b
  | .int m, .int n => m == n
  | .float x, .float y => x.sameNumber y
  | .text s, .text t => s == t
  | .blob a, .blob b => a == b
  | .timestamp s, .timestamp t => s == t
  | .uuid u, .uuid v => u == v
  | .json a, .json b => a.same b
  | .list xs, .list ys => sameItems xs ys
  | .entity xs, .entity ys => sameItems xs ys
  | .raw s, .raw t => s == t
  | _, _ => false
termination_by structural v => v

def sameItems : List Value → List Value → Bool
  | [], [] => true
  | x :: xs, y :: ys => x.same y && sameItems xs ys
  | _, _ => false
termination_by structural xs => xs

end

def ofNumber : Json.Number → Value
  | .integer n =>
    if -(twoTo 63 : Int) ≤ n ∧ n < twoTo 63 then .int (Int64.ofInt n)
    else .float (Binary64.ofQuotient (decide (n < 0)) n.natAbs 1)
  | .float x => .float x

mutual

/-- Scalars and arrays become values of their own; an object stays a document. Integers past 64
bits become floating-point numbers. -/
def ofJson : Json → Value
  | .null => .null
  | .bool b => .bool b
  | .number n => ofNumber n
  | .string s => .text s
  | .array items => .list (ofJsonItems items)
  | .object members => .json (.object members)
termination_by structural j => j

def ofJsonItems : List Json → List Value
  | [] => []
  | j :: rest => ofJson j :: ofJsonItems rest
termination_by structural js => js

end

mutual

/-- The text of a value in messages. It is not SQL: a quote inside a text stays as it is. -/
def write : Value → List Char
  | .null => "NULL".toList
  | .bool true => "true".toList
  | .bool false => "false".toList
  | .int n => (toString n.toInt).toList
  | .float x => Decimal.write Decimal.plain x
  | .text s => '\'' :: s.toList ++ ['\'']
  | .blob bytes => '<' :: Decimal.ofNat bytes.length ++ " bytes>".toList
  | .timestamp t => '\'' :: t.write ++ ['\'']
  | .uuid u => '\'' :: u.write ++ ['\'']
  | .json j => j.write
  | .list items => '(' :: writeItems items ++ [')']
  | .entity items => '(' :: writeItems items ++ [')']
  | .raw sql => sql.toList
termination_by structural v => v

def writeItems : List Value → List Char
  | [] => []
  | [v] => v.write
  | v :: rest => v.write ++ ',' :: writeItems rest
termination_by structural vs => vs

end

def display (v : Value) : String :=
  String.ofList v.write

mutual

def flatten : Value → List Value
  | .list items => flattenAll items
  | .entity key => flattenAll key
  | .raw _ => []
  | v => [v]
termination_by structural v => v

def flattenAll : List Value → List Value
  | [] => []
  | v :: rest => v.flatten ++ flattenAll rest
termination_by structural vs => vs

end

theorem flatten_of_isScalar {v : Value} (h : v.isScalar) : v.flatten = [v] := by
  cases v <;> first | rfl | simp [isScalar] at h

mutual

theorem isScalar_of_mem_flatten (v : Value) : ∀ w ∈ v.flatten, w.isScalar = true := by
  cases v with
  | list items => simpa [flatten] using isScalar_of_mem_flattenAll items
  | entity key => simpa [flatten] using isScalar_of_mem_flattenAll key
  | _ => simp [flatten, isScalar]
termination_by structural v

theorem isScalar_of_mem_flattenAll (vs : List Value) :
    ∀ w ∈ flattenAll vs, w.isScalar = true := by
  cases vs with
  | nil => simp [flattenAll]
  | cons v rest =>
    simp only [flattenAll, List.forall_mem_append]
    exact ⟨isScalar_of_mem_flatten v, isScalar_of_mem_flattenAll rest⟩
termination_by structural vs

end

mutual

/-- Keys of records become plain values: the only part of the key, or the list of its parts. -/
def dereference : Value → Value
  | .entity [part] => part
  | .entity key => .list key
  | .list items => .list (dereferenceAll items)
  | v => v
termination_by structural v => v

def dereferenceAll : List Value → List Value
  | [] => []
  | v :: rest => v.dereference :: dereferenceAll rest
termination_by structural vs => vs

end

end Value

end PathQuery
