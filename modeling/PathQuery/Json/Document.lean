import PathQuery.Json.Token

/-!
Documents read from tokens. The reader keeps a stack of the arrays and objects that are still
open and takes one token at a time.
-/

set_option autoImplicit false

namespace PathQuery.Json

/-- An open container: the items of an array in reverse, or the members of an object so far with
the key whose value is being read. -/
inductive Frame where
  | array (items : List Json)
  | object (members : List (String × Json)) (key : String)
  deriving Repr

/-- What may come next. `first` stands right after an opening bracket, where it may also close. -/
inductive Awaiting where
  | value (stack : List Frame) (first : Bool)
  | key (stack : List Frame) (members : List (String × Json)) (first : Bool)
  | colon (stack : List Frame) (members : List (String × Json)) (key : String)
  | separator (stack : List Frame)
  | nothing (document : Json)
  deriving Repr

namespace Awaiting

def complete (j : Json) : List Frame → Awaiting
  | [] => .nothing j
  | .array items :: stack => .separator (.array (j :: items) :: stack)
  | .object members name :: stack => .separator (.object (put members name j) name :: stack)

def step? : Awaiting → Token → Option Awaiting
  | .value stack _, .scalar j => some (complete j stack)
  | .value stack _, .string s => some (complete (.string s) stack)
  | .value stack _, .openArray => some (.value (.array [] :: stack) true)
  | .value stack _, .openObject => some (.key stack [] true)
  | .value (.array _ :: stack) true, .closeArray => some (complete (.array []) stack)
  | .key stack members _, .string s => some (.colon stack members s)
  | .key stack _ true, .closeObject => some (complete (.object []) stack)
  | .colon stack members name, .colon => some (.value (.object members name :: stack) false)
  | .separator (.array items :: stack), .comma => some (.value (.array items :: stack) false)
  | .separator (.array items :: stack), .closeArray => some (complete (.array items.reverse) stack)
  | .separator (.object members _ :: stack), .comma => some (.key stack members false)
  | .separator (.object members _ :: stack), .closeObject => some (complete (.object members) stack)
  | _, _ => none

end Awaiting

def ofTokens? (ts : List Token) : Option Json :=
  match ts.foldlM Awaiting.step? (.value [] false) with
  | some (.nothing j) => some j
  | _ => none

def parse? (s : String) : Option Json :=
  (Token.scan? s.toList).bind ofTokens?

end PathQuery.Json
