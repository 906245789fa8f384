import PathQuery.Filter

/-!
Filters written as JSON. An object is a list of comparisons: a key is a path, with an operator
behind the first blank if it is not `=`. An array of a path, an operator and a value is one
comparison. Any other array is a group: a string in it is the connective of the next element, the
comparisons of an object are taken into the group, and an array is a comparison or a sub-group.
-/

set_option autoImplicit false

namespace PathQuery.Filter

def readKey (key : String) : String × String :=
  let text := Text.trim key.toList
  match text.span (! Text.isBlank ·) with
  | (path, _ :: op) => (String.ofList path, String.ofList (Text.trim op))
  | (path, []) => (String.ofList path, "=")

def pushMembers (f : Filter) : List (String × Json) → Filter
  | [] => f
  | (key, value) :: rest =>
    let (path, operator) := readKey key
    pushMembers (f.compare path operator (Value.ofJson value)) rest

/-- A path, an operator and a value. A connective in the first place is not a path. -/
def triple? : List Json → Option (String × String × Json)
  | [.string path, .string operator, value] =>
    if Connective.isToken path then none else some (path, operator, value)
  | _ => none

mutual

def pushItem (f : Filter) : Json → Except Error Filter
  | .string token => f.nextToken token
  | .object members => .ok (f.pushMembers members)
  | .array items =>
    match triple? items with
    | some (path, operator, value) => .ok (f.compare path operator (Value.ofJson value))
    | none => do return f.group (← pushItems empty items)
  | j => .error (.malformed .conditions (.unexpectedElement j))
termination_by structural j => j

def pushItems (f : Filter) : List Json → Except Error Filter
  | [] => .ok f
  | j :: rest => do pushItems (← pushItem f j) rest
termination_by structural js => js

end

def ofJson : Json → Except Error Filter
  | .object members => .ok (empty.pushMembers members)
  | .array items =>
    match triple? items with
    | some (path, operator, value) => .ok (empty.compare path operator (Value.ofJson value))
    | none => pushItems empty items
  | j => .error (.malformed .conditions (.notConditions j))

end PathQuery.Filter
